import MicrOsal.WaitSet.Model

/-!
# MicrOsal.WaitSet.Reports

What a wait reports and what it consumes (`wait_reports_consumed`).

The limit on the output is applied to what is reported, not to what is probed: an entry that
is ready after the output is full is cleared and not reported (`wait_consumes_unreported`).
-/

namespace MicrOsal.WaitSet

variable {args : Args} {world : World} {s s' : State} {a : Action}

/-! ### Definitions -/

/-- The entry in slot `i` was ready when it was probed. -/
def Args.wasReady (args : Args) (p : Nat × World) : Bool :=
  (args.entries[p.1]?).any (fun e => e.ready p.2)

/-- The slots that were found ready, in the order of the probes. -/
def State.foundSlots (s : State) (args : Args) : List Nat :=
  (s.probed.filter args.wasReady).map Prod.fst

/-- The identifier registered in a slot. -/
def Args.idOf (args : Args) (i : Nat) : Int := ((args.entries[i]?).map Entry.id).getD (-1)

/-- The slots with an active entry, up to slot `n`. -/
def Args.activeBelow (args : Args) (n : Nat) : List Nat :=
  (List.range n).filter (fun i => (args.entries[i]?).any Entry.active)

/-- An entry is cleared although the output is full, and nobody learns its identifier. -/
def State.overruns (s : State) (args : Args) : Action → Bool
  | .advance _ =>
      match s.pc with
      | .clear i _ => args.maxReady ≤ s.localReady ∧ args.idOf i ∉ s.readyIds
      | _ => false
  | .others _ => false

/-! ### The invariant -/

/-- How far the round is: the slots below this one have been probed. -/
def Pc.probedBelow (args : Args) : Pc → Nat
  | .start => 0
  | .probe i => i
  | .clear i _ => i
  | .round => args.entries.length
  | .returned _ _ => args.entries.length

/-- The call has returned an error. -/
def Pc.failed : Pc → Bool
  | .returned e _ => e ≠ .ok
  | _ => false

structure Inv (args : Args) (s : State) : Prop where
  probed : s.pc.failed = false → s.probed.map Prod.fst = args.activeBelow (s.pc.probedBelow args)
  inRange : s.pc.probedBelow args ≤ args.entries.length
  /-- An entry that is being cleared was ready. -/
  clearing : ∀ i read, s.pc = .clear i read →
    ∃ e, args.entries[i]? = some e ∧ e.active = true ∧ e.ready read = true
  count : s.localReady = (s.foundSlots args).length
  ids : s.readyIds = ((s.foundSlots args).take args.maxReady).map args.idOf
  consumed : ∀ i ∈ s.consumed, i ∈ s.foundSlots args ∧ args.idOf i ∈ s.readyIds
  returned : ∀ e n, s.pc = .returned e n →
    (e = .ok ∧ n = min s.localReady args.maxReady ∧ 0 < s.localReady) ∨
      (e ≠ .ok ∧ n = 0 ∧ s.consumed = [])

theorem Args.activeBelow_succ {i : Nat} {e : Entry} (he : args.entries[i]? = some e) :
    args.activeBelow (i + 1) = args.activeBelow i ++ if e.active then [i] else [] := by
  rw [Args.activeBelow, Args.activeBelow, List.range_succ, List.filter_append]
  simp [List.filter_cons, he]

theorem State.foundSlots_append {i : Nat} {read : World}
    (hprobed : s'.probed = s.probed ++ [(i, read)]) :
    s'.foundSlots args = s.foundSlots args ++ if args.wasReady (i, read) then [i] else [] := by
  rw [State.foundSlots, State.foundSlots, hprobed, List.filter_append, List.map_append]
  by_cases h : args.wasReady (i, read) = true <;> simp [h]

/-- Nothing found, nothing consumed. -/
theorem Inv.consumed_nil (hi : Inv args s) (hzero : s.localReady = 0) : s.consumed = [] := by
  have hnil : s.foundSlots args = [] := List.length_eq_zero_iff.mp (hi.count.symm.trans hzero)
  rw [List.eq_nil_iff_forall_not_mem]
  intro i hmem
  have := (hi.consumed i hmem).1
  rw [hnil] at this
  cases this

/-- A round begins. -/
theorem Inv.begin (hi : Inv args s) (hzero : s.localReady = 0) : Inv args s.begin where
  probed := fun _ => rfl
  inRange := Nat.zero_le _
  clearing := nofun
  count := rfl
  ids := by
    rw [State.foundSlots]
    simp [State.begin]
  consumed := by
    intro i hmem
    have hnil := hi.consumed_nil hzero
    simp only [State.begin, hnil] at hmem
    cases hmem
  returned := nofun

/-- The wait ends with an error. -/
theorem Inv.fails {e : ErrorCode} (hi : Inv args s) (hzero : s.localReady = 0) (he : e ≠ .ok) :
    Inv args { s with pc := .returned e 0 } where
  probed := by
    intro hnot
    simp [Pc.failed, he] at hnot
  inRange := Nat.le_refl _
  clearing := nofun
  count := hi.count
  ids := hi.ids
  consumed := hi.consumed
  returned := by
    rintro e' n ⟨⟩
    exact .inr ⟨he, rfl, hi.consumed_nil hzero⟩

theorem take_concat_ids {l : List Nat} {ids : List Int} {i max : Nat} {f : Nat → Int}
    (hids : ids = (l.take max).map f) :
    (if l.length < max then ids ++ [f i] else ids) = ((l ++ [i]).take max).map f := by
  rw [hids, List.take_append]
  split
  case isTrue hlt =>
    obtain ⟨k, hk⟩ : ∃ k, max - l.length = k + 1 := ⟨max - l.length - 1, by omega⟩
    rw [hk, List.map_append]
    simp
  case isFalse hge =>
    have : max - l.length = 0 := by omega
    simp [this]

/-- An entry was found ready. -/
theorem Inv.found {i : Nat} {e : Entry} {read : World} (hi : Inv args s)
    (hpc : s.pc.probedBelow args = i) (hok : s.pc.failed = false)
    (he : args.entries[i]? = some e) (hactive : e.active = true) (hready : e.ready read = true) :
    Inv args (s.found args i e read) := by
  have hslots : (s.found args i e read).foundSlots args = s.foundSlots args ++ [i] := by
    rw [State.foundSlots_append rfl, Args.wasReady]
    simp [he, hready]
  have hid : args.idOf i = e.id := by simp [Args.idOf, he]
  have hids : (s.found args i e read).readyIds =
      ((s.foundSlots args ++ [i]).take args.maxReady).map args.idOf := by
    rw [← take_concat_ids hi.ids, ← hi.count, hid]
    rfl
  refine ⟨fun _ => ?_, ?_, nofun, ?_, ?_, ?_, nofun⟩
  · have hold := hi.probed hok
    rw [hpc] at hold
    have hnext : args.activeBelow (i + 1) = args.activeBelow i ++ [i] := by
      rw [Args.activeBelow_succ he, if_pos hactive]
    simp only [State.found, Pc.probedBelow, List.map_append, hold, hnext, List.map_cons,
      List.map_nil]
  · exact (List.getElem?_eq_some_iff.mp he).1
  · rw [hslots, List.length_append, ← hi.count]
    rfl
  · rw [hslots, hids]
  · intro j hmem
    obtain ⟨hslot, hmemId⟩ := hi.consumed j hmem
    refine ⟨by rw [hslots]; exact List.mem_append_left _ hslot, ?_⟩
    simp only [State.found]
    split
    · exact List.mem_append_left _ hmemId
    · exact hmemId

/-- The entry was found ready, and is cleared. -/
theorem Inv.cleared {i : Nat} {e : Entry} {read : World} {w : World} (hi : Inv args s)
    (hpc : s.pc = .clear i read) (he : args.entries[i]? = some e) {d : Decision}
    (hok : s.overruns args (.advance d) = false) :
    Inv args { s.found args i e read with world := w, consumed := s.consumed ++ [i] } := by
  obtain ⟨e', he', hactive, hready⟩ := hi.clearing i read hpc
  obtain rfl : e = e' := Option.some.inj (he.symm.trans he')
  have hfound := hi.found (i := i) (by rw [hpc]; rfl) (by rw [hpc]; rfl) he hactive hready
  have hid : args.idOf i = e.id := by simp [Args.idOf, he]
  have hreported : args.idOf i ∈ (s.found args i e read).readyIds := by
    simp only [State.overruns, hpc, decide_eq_false_iff_not, not_and, not_not] at hok
    simp only [State.found]
    split
    case isTrue => simp [hid]
    case isFalse hge => exact hok (Nat.le_of_not_lt hge)
  refine ⟨hfound.probed, hfound.inRange, nofun, hfound.count, hfound.ids, ?_, nofun⟩
  intro j hmem
  rcases List.mem_append.mp hmem with hmem | hmem
  · exact hfound.consumed j hmem
  · rw [List.mem_singleton.mp hmem]
    refine ⟨?_, hreported⟩
    have hslots : (s.found args i e read).foundSlots args = s.foundSlots args ++ [i] := by
      rw [State.foundSlots_append rfl, Args.wasReady]
      simp [he, hready]
    exact hslots ▸ List.mem_append_right _ (List.mem_singleton_self i)

/-- An entry was probed, and is not active or not ready. -/
theorem Inv.skip {i : Nat} {e : Entry} {probed : List (Nat × World)} (hi : Inv args s)
    (hpc : s.pc = .probe i) (he : args.entries[i]? = some e)
    (hprobed : probed.map Prod.fst = s.probed.map Prod.fst ++ if e.active then [i] else [])
    (hslots : (probed.filter args.wasReady).map Prod.fst = s.foundSlots args) :
    Inv args { s with pc := .probe (i + 1), probed := probed } := by
  have hold := hi.probed (by rw [hpc]; rfl)
  rw [hpc] at hold
  refine ⟨fun _ => ?_, (List.getElem?_eq_some_iff.mp he).1, nofun, ?_, ?_, ?_, nofun⟩
  · simp only [Pc.probedBelow] at hold ⊢
    rw [hprobed, hold, Args.activeBelow_succ he]
  · rw [State.foundSlots, hslots]
    exact hi.count
  · rw [State.foundSlots, hslots]
    exact hi.ids
  · rw [State.foundSlots, hslots]
    exact hi.consumed

theorem Inv.probe {i : Nat} {e : Entry} (hi : Inv args s) (hpc : s.pc = .probe i)
    (he : args.entries[i]? = some e) : Inv args (s.probe args i e) := by
  rw [State.probe]
  split
  case isTrue hinactive =>
    refine hi.skip hpc he ?_ rfl
    rw [if_neg (by simpa using hinactive), List.append_nil]
  case isFalse hactive =>
    have hactive : e.active = true := by simpa using hactive
    split
    case isTrue hnot =>
      have hno : args.wasReady (i, s.world) = false := by
        simpa [Args.wasReady, he] using hnot
      refine hi.skip hpc he (by simp [hactive]) ?_
      rw [List.filter_append, State.foundSlots]
      simp [hno]
    case isFalse hready =>
      have hready : e.ready s.world = true := by simpa using hready
      split
      case isTrue =>
        have hold := hi.probed (by rw [hpc]; rfl)
        rw [hpc] at hold
        refine ⟨fun _ => hold, ?_, ?_, hi.count, hi.ids, hi.consumed, nofun⟩
        · exact Nat.le_of_lt (List.getElem?_eq_some_iff.mp he).1
        · rintro j read ⟨⟩
          exact ⟨e, he, hactive, hready⟩
      case isFalse => exact hi.found (by rw [hpc]; rfl) (by rw [hpc]; rfl) he hactive hready

theorem Inv.round {d : Decision} (hi : Inv args s) (hpc : s.pc = .round) :
    Inv args (s.round args d) := by
  rw [State.round]
  split
  case isTrue hpos =>
    have hold := hi.probed (by rw [hpc]; rfl)
    rw [hpc] at hold
    refine ⟨fun _ => hold, Nat.le_refl _, nofun, hi.count, hi.ids, hi.consumed, ?_⟩
    rintro e n ⟨⟩
    refine .inl ⟨rfl, ?_, Nat.pos_of_ne_zero hpos⟩
    dsimp only
    split <;> omega
  case isFalse hzero =>
    have hzero : s.localReady = 0 := by simpa using hzero
    split
    case h_1 noWait forever =>
      split
      case isTrue => exact hi.fails hzero nofun
      case isFalse => exact hi.begin hzero
    case h_2 =>
      split
      case h_1 e _ =>
        split
        case isTrue => exact hi.begin hzero
        case isFalse hne => exact hi.fails hzero hne
      case h_2 => exact hi.begin hzero

theorem Inv.start {d : Decision} (hi : Inv args s) (hpc : s.pc = .start) :
    Inv args (s.start args d) := by
  have hzero : s.localReady = 0 := by
    have hprobed := hi.probed (by rw [hpc]; rfl)
    rw [hpc] at hprobed
    have hnil : s.probed = [] := List.map_eq_nil_iff.mp hprobed
    rw [hi.count, State.foundSlots, hnil]
    rfl
  rw [State.start]
  split
  case isTrue => exact hi.fails hzero nofun
  case isFalse =>
    split
    case h_1 e _ _ =>
      split
      case isTrue => exact hi.begin hzero
      case isFalse hne => exact hi.fails hzero hne
    case h_2 => exact hi.begin hzero

theorem Inv.step (hi : Inv args s) (hok : s.overruns args a = false)
    (hs : s.step args a = some s') : Inv args s' := by
  cases a with
  | others w =>
      cases hs
      exact ⟨hi.probed, hi.inRange, hi.clearing, hi.count, hi.ids, hi.consumed, hi.returned⟩
  | advance d =>
      cases hpc : s.pc with
      | start =>
          simp only [State.step, hpc] at hs
          cases hs
          exact hi.start hpc
      | probe i =>
          simp only [State.step, hpc] at hs
          split at hs
          case h_1 hnone =>
            cases hs
            have hle := hi.inRange
            have hold := hi.probed (by rw [hpc]; rfl)
            rw [hpc] at hle hold
            have heq : i = args.entries.length :=
              Nat.le_antisymm hle (List.getElem?_eq_none_iff.mp hnone)
            subst heq
            exact ⟨fun _ => hold, Nat.le_refl _, nofun, hi.count, hi.ids, hi.consumed, nofun⟩
          case h_2 e he =>
            cases hs
            exact hi.probe hpc he
      | clear i read =>
          simp only [State.step, hpc] at hs
          obtain ⟨e, he, rfl⟩ := Option.map_eq_some_iff.mp hs
          exact hi.cleared hpc he hok
      | round =>
          simp only [State.step, hpc] at hs
          cases hs
          exact hi.round hpc
      | returned e n =>
          simp only [State.step, hpc] at hs
          cases hs

theorem Inv.of_reachable
    (h : (waitMachine args world).ReachableBy (fun s a => s.overruns args a = false) s) :
    Inv args s := by
  refine Machine.ReachableBy.invariant ?_ (fun s a s' _ hi hok hs => hi.step hok hs) h
  refine ⟨fun _ => rfl, Nat.zero_le _, ?_, rfl, ?_, ?_, ?_⟩
  · intro i read hpc
    cases hpc
  · rw [State.foundSlots]
    simp [waitMachine]
  · exact fun _ h => absurd h List.not_mem_nil
  · intro e n hpc
    cases hpc

/-! ### Reports -/

/-- What the caller of `wait` can rely on. -/
structure WaitOk (args : Args) (s : State) : Prop where
  /-- A wait that fails has consumed nothing. -/
  failed : ∀ e n, s.pc = .returned e n → e ≠ .ok → n = 0 ∧ s.consumed = []
  /-- Before a wait succeeds it has probed every entry once, in the order of the slots. -/
  probed : ∀ n, s.pc = .returned .ok n →
    s.probed.map Prod.fst = args.activeBelow args.entries.length
  /-- It reports as many as fit of the entries that were ready when they were probed, -/
  count : ∀ n, s.pc = .returned .ok n →
    0 < (s.foundSlots args).length ∧ n = min (s.foundSlots args).length args.maxReady
  /-- the first ones, -/
  ids : ∀ n, s.pc = .returned .ok n →
    s.readyIds = ((s.foundSlots args).take args.maxReady).map args.idOf
  /-- in the order of the slots and each of them once. -/
  sorted : ∀ n, s.pc = .returned .ok n → (s.foundSlots args).Pairwise (· < ·)
  /-- What it has consumed it has reported. -/
  consumed : ∀ n, s.pc = .returned .ok n → ∀ i ∈ s.consumed, args.idOf i ∈ s.readyIds.take n

theorem Inv.waitOk (hi : Inv args s) : WaitOk args s := by
  have hdone : ∀ n, s.pc = .returned .ok n →
      s.probed.map Prod.fst = args.activeBelow args.entries.length := by
    intro n hpc
    have hold := hi.probed (by rw [hpc]; rfl)
    rwa [hpc] at hold
  have hcount : ∀ n, s.pc = .returned .ok n → 0 < (s.foundSlots args).length ∧
      n = min (s.foundSlots args).length args.maxReady := by
    intro n hpc
    rcases hi.returned _ _ hpc with ⟨-, hn, hpos⟩ | ⟨hne, -⟩
    · rw [hi.count] at hn hpos
      exact ⟨hpos, hn⟩
    · exact absurd rfl hne
  refine ⟨?_, hdone, hcount, fun _ _ => hi.ids, ?_, ?_⟩
  · intro e n hpc hne
    rcases hi.returned e n hpc with ⟨heq, -⟩ | ⟨-, h⟩
    · exact absurd heq hne
    · exact h
  · intro n hpc
    have hsorted : (s.probed.map Prod.fst).Pairwise (· < ·) := by
      rw [hdone n hpc]
      exact List.pairwise_lt_range.filter _
    exact hsorted.sublist (List.filter_sublist.map _)
  · intro n hpc i hmem
    -- `n_ready` is the number of cells written.
    have hlen : s.readyIds.length = n := by
      rw [hi.ids, List.length_map, List.length_take, (hcount n hpc).2, Nat.min_comm]
    rw [← hlen, List.take_length]
    exact (hi.consumed i hmem).2

/-- A wait consumes only what it reports, as long as no entry is cleared when the output is
full. -/
theorem wait_reports_consumed (args : Args) (world : World) (s : State)
    (h : (waitMachine args world).ReachableBy (fun s a => s.overruns args a = false) s) :
    WaitOk args s := (Inv.of_reachable h).waitOk

/-- Two event-flags objects, both registered with `clear_on_exit`. -/
def twoFlags : List Entry :=
  [⟨true, 10, .eventAny, 0, 1, 0, true⟩, ⟨true, 11, .eventAny, 1, 1, 0, true⟩]

/-- Every bit is set. -/
def allReady : World := ⟨fun _ => 0, fun _ => false, fun _ => 1, fun _ _ => false⟩

/-- The call, to its return. -/
def bothProbed : List Action := List.replicate 7 (.advance ⟨false, none⟩)

/-- With room for both, both are reported and consumed. -/
theorem wait_reports_consumed_both :
    ∃ s, (waitMachine ⟨twoFlags, .polling false true, false, 2⟩ allReady).run
        (waitMachine ⟨twoFlags, .polling false true, false, 2⟩ allReady).init bothProbed = some s ∧
      WaitOk ⟨twoFlags, .polling false true, false, 2⟩ s ∧ s.readyIds = [10, 11] ∧
      s.consumed = [0, 1] := by
  have hview : ((waitMachine ⟨twoFlags, .polling false true, false, 2⟩ allReady).run
      (waitMachine ⟨twoFlags, .polling false true, false, 2⟩ allReady).init bothProbed).map
        (fun s => (s.readyIds, s.consumed)) = some ([10, 11], [0, 1]) := by
    decide +kernel
  have hguard : (waitMachine ⟨twoFlags, .polling false true, false, 2⟩ allReady).RunOk
      (fun s a => s.overruns ⟨twoFlags, .polling false true, false, 2⟩ a = false)
      (waitMachine ⟨twoFlags, .polling false true, false, 2⟩ allReady).init bothProbed := by
    decide +kernel
  obtain ⟨s, hrun, hs⟩ := Option.map_eq_some_iff.mp hview
  obtain ⟨hids, hconsumed⟩ := Prod.mk.inj hs
  exact ⟨s, hrun, wait_reports_consumed _ _ s (.of_run .init hguard hrun), hids, hconsumed⟩

/-- The count of a `wait` that has returned `ok`. -/
def Pc.reported : Pc → Option Nat
  | .returned .ok n => some n
  | _ => none

theorem Pc.of_reported {pc : Pc} {n : Nat} (h : pc.reported = some n) : pc = .returned .ok n := by
  unfold Pc.reported at h
  split at h
  · cases h
    rfl
  · cases h

/-- With room for one, the second is consumed and not reported. -/
theorem wait_consumes_unreported :
    ¬ ∀ (args : Args) (world : World) (s : State), (waitMachine args world).Reachable s →
      WaitOk args s := by
  intro hall
  have hview : ((waitMachine ⟨twoFlags, .polling false true, false, 1⟩ allReady).run
      (waitMachine ⟨twoFlags, .polling false true, false, 1⟩ allReady).init bothProbed).map
        (fun s => (s.pc.reported, s.readyIds, s.consumed)) =
      some (some 1, [10], [0, 1]) := by
    decide +kernel
  obtain ⟨s, hrun, hs⟩ := Option.map_eq_some_iff.mp hview
  obtain ⟨hpc, hs⟩ := Prod.mk.inj hs
  obtain ⟨hids, hconsumed⟩ := Prod.mk.inj hs
  have hmem := (hall _ _ s (.of_run hrun)).consumed 1 (Pc.of_reported hpc) 1 (by simp [hconsumed])
  have hsub := List.mem_of_mem_take hmem
  rw [hids] at hsub
  exact absurd hsub (by decide)

end MicrOsal.WaitSet
