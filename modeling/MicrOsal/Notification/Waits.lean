import MicrOsal.Notification.Refinement

/-!
# MicrOsal.Notification.Waits

Notifications and blocking waits in any order, for both implementations: a notification makes
at most one wait succeed, and what a wait does to its slot depends only on whether it
succeeds.
-/

namespace MicrOsal.Notification

variable {σ : Type} {I : Impl σ} {s s' : State σ} {a : Action}

/-! ### The laws of an implementation, result by result -/

theorem Impl.reply_call (I : Impl σ) (s : σ) (c : Call) :
    (I.call s c).1 = ((I.board s).call c).1 := congrArg Prod.fst (I.call_spec s c)

theorem Impl.board_call (I : Impl σ) (s : σ) (c : Call) :
    I.board (I.call s c).2 = ((I.board s).call c).2 := congrArg Prod.snd (I.call_spec s c)

theorem Impl.outcome_start (I : Impl σ) (s : σ) (w : WaitArgs) (clock : Bool) :
    (I.start s w clock).1 = ((I.board s).start w clock).1 :=
  congrArg Prod.fst (I.start_spec s w clock)

theorem Impl.board_start (I : Impl σ) (s : σ) (w : WaitArgs) (clock : Bool) :
    I.board (I.start s w clock).2 = ((I.board s).start w clock).2 :=
  congrArg Prod.snd (I.start_spec s w clock)

/-! ### Sequences of calls -/

/-- What a sequence of calls does to a board. -/
def Board.exec (b : Board) : Op → Reply × Board
  | .call c => b.call c
  | .wait w clock => (b.start { w with timeout := .noWait } clock).map .waited id

theorem Impl.exec_spec (I : Impl σ) (s : σ) (op : Op) :
    (I.exec s op).map id I.board = (I.board s).exec op := by
  cases op with
  | call c => exact I.call_spec s c
  | wait w clock =>
      exact congrArg (Prod.map Reply.waited id) (I.start_spec s { w with timeout := .noWait } clock)

/-- Objects that show the same board cannot be told apart. -/
theorem Impl.execAll_eq {τ : Type} (J : Impl τ) (ops : List Op) {s : σ} {t : τ}
    (h : I.board s = J.board t) :
    (I.execAll s ops).1 = (J.execAll t ops).1 ∧
      I.board (I.execAll s ops).2 = J.board (J.execAll t ops).2 := by
  induction ops generalizing s t with
  | nil => exact ⟨rfl, h⟩
  | cons op rest ih =>
      have heq : (I.exec s op).map id I.board = (J.exec t op).map id J.board := by
        rw [I.exec_spec, J.exec_spec, h]
      obtain ⟨hreply, hboard⟩ := Prod.mk.inj heq
      obtain ⟨hreplies, hend⟩ := ih hboard
      exact ⟨List.cons_eq_cons.mpr ⟨hreply, hreplies⟩, hend⟩

/-! ### Notifications and successes -/

/-- No slot is pending. -/
def Board.Quiet (b : Board) : Prop :=
  ∀ (slots : List Slot) (i : Nat) (slot : Slot), b = some slots → slots[i]? = some slot →
    slot.pending = false

/-- Slot `i` has been notified since it was last consumed. -/
def Renewed (log : List Event) (i : Nat) : Prop :=
  ∃ j : Nat, log[j]? = some (.notified i) ∧ ∀ k : Nat, log[k]? = some (.consumed i) → k < j

/-- Every success has a notification of its own: one after all earlier successes. -/
def Own (log : List Event) : Prop :=
  ∀ (k i : Nat), log[k]? = some (.consumed i) →
    ∃ j < k, log[j]? = some (.notified i) ∧
      ∀ k' < k, log[k']? = some (.consumed i) → k' < j

variable {log : List Event} {e : Event} {i : Nat} {b : Board}

theorem Renewed.concat (h : Renewed log i) (he : e ≠ .consumed i) : Renewed (log ++ [e]) i := by
  obtain ⟨j, hn, hlast⟩ := h
  have hj := (List.getElem?_eq_some_iff.mp hn).1
  refine ⟨j, by rw [List.getElem?_append_left hj]; exact hn, fun k hk => ?_⟩
  rcases getElem?_concat_cases hk with hold | ⟨-, heq⟩
  · exact hlast k hold
  · exact absurd heq.symm he

theorem Renewed.notified : Renewed (log ++ [.notified i]) i := by
  refine ⟨log.length, List.getElem?_concat_length, fun k hk => ?_⟩
  rcases getElem?_concat_cases hk with hold | ⟨-, heq⟩
  · exact (List.getElem?_eq_some_iff.mp hold).1
  · cases heq

theorem Own.concat (h : Own log) (he : ∀ i, e = .consumed i → Renewed log i) :
    Own (log ++ [e]) := by
  intro k i hk
  rcases getElem?_concat_cases hk with hold | ⟨rfl, rfl⟩
  · obtain ⟨j, hj, hn, hlast⟩ := h k i hold
    have hlen := (List.getElem?_eq_some_iff.mp hold).1
    refine ⟨j, hj, ?_, fun k' hk' hc => hlast k' hk' ?_⟩
    · rw [List.getElem?_append_left (hj.trans hlen)]
      exact hn
    · rw [List.getElem?_append_left (hk'.trans hlen)] at hc
      exact hc
  · obtain ⟨j, hn, hlast⟩ := he i rfl
    have hj := (List.getElem?_eq_some_iff.mp hn).1
    refine ⟨j, hj, ?_, fun k' hk' hc => hlast k' ?_⟩
    · rw [List.getElem?_append_left hj]
      exact hn
    · rw [List.getElem?_append_left hk'] at hc
      exact hc

/-- The record of a board: pending slots have been notified since they were last consumed,
and so had the slots that were consumed. -/
structure Recorded (b : Board) (log : List Event) : Prop where
  fresh : ∀ (slots : List Slot) (i : Nat) (slot : Slot), b = some slots →
    slots[i]? = some slot → slot.pending = true → Renewed log i
  own : Own log

variable {slots : List Slot} {slot slot' : Slot}

theorem Recorded.set (h : Recorded (some slots) log) (hslot : slots[i]? = some slot)
    (hp : slot'.pending = true → slot.pending = true) :
    Recorded (some (slots.set i slot')) log := by
  refine ⟨fun slots' k x heq hx hpx => ?_, h.own⟩
  obtain rfl := Option.some.inj heq
  rcases getElem?_set_cases hx with ⟨rfl, rfl⟩ | ⟨-, hold⟩
  · exact h.fresh slots k slot rfl hslot (hp hpx)
  · exact h.fresh slots k x rfl hold hpx

theorem Recorded.notified (h : Recorded (some slots) log) :
    Recorded (some (slots.set i slot')) (log ++ [.notified i]) := by
  refine ⟨fun slots' k x heq hx hpx => ?_, h.own.concat nofun⟩
  obtain rfl := Option.some.inj heq
  rcases getElem?_set_cases hx with ⟨rfl, rfl⟩ | ⟨-, hold⟩
  · exact .notified
  · exact (h.fresh slots k x rfl hold hpx).concat nofun

theorem Recorded.consumed (h : Recorded (some slots) log) (hslot : slots[i]? = some slot)
    (hp : slot.pending = true) (hp' : slot'.pending = false) :
    Recorded (some (slots.set i slot')) (log ++ [.consumed i]) := by
  have hown : Own (log ++ [.consumed i]) := by
    refine h.own.concat (fun k hk => ?_)
    obtain rfl := Event.consumed.inj hk
    exact h.fresh slots i slot rfl hslot hp
  refine ⟨fun slots' k x heq hx hpx => ?_, hown⟩
  obtain rfl := Option.some.inj heq
  rcases getElem?_set_cases hx with ⟨rfl, rfl⟩ | ⟨hne, hold⟩
  · rw [hp'] at hpx
    cases hpx
  · refine (h.fresh slots k x rfl hold hpx).concat ?_
    intro heq
    exact hne (Event.consumed.inj heq).symm

/-! ### One step -/

/-- An operation on one slot of a board. -/
theorem Recorded.access {α : Type} {bad : ErrorCode → α} {f : Slot → α × Slot}
    {events : α → List Event} (h : Recorded b log)
    (hbad : ∀ code, code ≠ .ok → events (bad code) = [])
    (hf : ∀ slots slot, b = some slots → slots[i]? = some slot →
      Recorded (some (slots.set i (f slot).2)) (log ++ events (f slot).1)) :
    Recorded (b.access i bad f).2 (log ++ events (b.access i bad f).1) := by
  cases b with
  | none =>
      dsimp only [Board.access]
      rw [hbad .notInitialized nofun, List.append_nil]
      exact h
  | some slots =>
      dsimp only [Board.access]
      split
      case h_1 =>
        dsimp only
        rw [hbad .invalidArgument nofun, List.append_nil]
        exact h
      case h_2 slot hslot => exact hf slots slot rfl hslot

/-- A call that does not wait. -/
theorem Recorded.call (h : Recorded b log) (c : Call) :
    Recorded (b.call c).2 (log ++ c.events (b.call c).1) := by
  -- Only an accepted notification is recorded, and only it can make a slot pending.
  have hset : ∀ {i : Nat} {slots : List Slot} {slot slot' : Slot}, b = some slots →
      slots[i]? = some slot → (slot'.pending = true → slot.pending = true) →
      Recorded (some (slots.set i slot')) (log ++ []) := by
    intro i slots slot slot' hb hslot hp
    rw [List.append_nil]
    exact (hb ▸ h).set hslot hp
  cases c with
  | notify value action index =>
      refine h.access (fun code hcode => ?_) (fun slots slot hb hslot => ?_)
      · cases code with
        | ok => exact absurd rfl hcode
        | _ => rfl
      · cases action with
        | noOverwrite =>
            dsimp only [Slot.notify]
            split
            · exact hset hb hslot id
            · exact (hb ▸ h).notified
        | other code => exact hset hb hslot id
        | _ => exact (hb ▸ h).notified
  | clear bits index =>
      exact h.access (fun _ _ => rfl) (fun slots slot hb hslot => hset hb hslot id)
  | reset index =>
      exact h.access (fun _ _ => rfl) (fun slots slot hb hslot => hset hb hslot nofun)
  | pending index =>
      exact h.access (fun _ _ => rfl) (fun slots slot hb hslot => hset hb hslot id)
  | peek index =>
      exact h.access (fun _ _ => rfl) (fun slots slot hb hslot => hset hb hslot id)

/-- What a wait adds to the log. -/
def Outcome.events (index : Nat) : Outcome → List Event
  | .returned .ok _ => [.consumed index]
  | _ => []

theorem Outcome.events_fail {c : ErrorCode} {value : Option (BitVec 32)} (h : c ≠ .ok) :
    (Outcome.returned c value).events i = [] := by
  cases c with
  | ok => exact absurd rfl h
  | _ => rfl

theorem Outcome.events_blocked : Outcome.blocked.events i = [] := rfl

theorem Recorded.start (h : Recorded b log) (w : WaitArgs) (clock : Bool) :
    Recorded (b.start w clock).2 (log ++ (b.start w clock).1.events w.index) := by
  refine h.access (fun code hcode => Outcome.events_fail hcode) (fun slots slot hb hslot => ?_)
  dsimp only [Slot.start]
  split
  case isTrue hp => exact (hb ▸ h).consumed hslot hp rfl
  case isFalse hp =>
    have hkeep : Recorded (some (slots.set w.index (slot.clear w.clearOnEntry))) log :=
      (hb ▸ h).set hslot id
    split
    · dsimp only
      rw [Outcome.events_fail (c := .timeout) nofun, List.append_nil]
      exact hkeep
    · dsimp only
      rw [Outcome.events_blocked, List.append_nil]
      exact hkeep

theorem Recorded.resumed {w : WaitArgs} {r : Outcome} {b' : Board} (h : Recorded b log)
    (hr : Board.Resumed w b r b') : Recorded b' (log ++ r.events w.index) := by
  cases hr with
  | take hslot hp => exact h.consumed hslot hp rfl
  | fail hcode =>
      rw [Outcome.events_fail hcode, List.append_nil]
      exact h
  | block =>
      rw [Outcome.events_blocked, List.append_nil]
      exact h

/-! ### Runs -/

theorem Board.isSome_access {α : Type} (b : Board) (bad : ErrorCode → α) (f : Slot → α × Slot) :
    (b.access i bad f).2.isSome = b.isSome := by
  cases b with
  | none => rfl
  | some slots =>
      dsimp only [Board.access]
      split <;> rfl

theorem Board.isSome_call (b : Board) (c : Call) : (b.call c).2.isSome = b.isSome := by
  cases c <;> exact Board.isSome_access ..

theorem Board.isSome_start (b : Board) (w : WaitArgs) (clock : Bool) :
    (b.start w clock).2.isSome = b.isSome := Board.isSome_access ..

theorem Board.Resumed.isSome {w : WaitArgs} {r : Outcome} {b' : Board}
    (h : Board.Resumed w b r b') : b'.isSome = b.isSome := by
  cases h <;> rfl

/-- Nobody blocks on an object that is not valid. -/
theorem Board.isSome_of_blocked {w : WaitArgs} {clock : Bool}
    (h : (b.start w clock).1 = .blocked) : b.isSome = true := by
  cases b with
  | none => cases h
  | some slots => rfl

/-- What holds in every state of a run. -/
structure WaitInv (I : Impl σ) (s : State σ) : Prop where
  recorded : Recorded (I.board s.object) s.log
  /-- Threads block on valid objects only. -/
  valid : ∀ (n : Nat) (w : WaitArgs), s.threads[n]? = some (.blocked w) →
    (I.board s.object).isSome = true

theorem settle_object (s : State σ) (n : Nat) (w : WaitArgs) (r : Outcome × σ) :
    (s.settle n w r).object = r.2 := by
  rw [State.settle]
  split <;> rfl

theorem settle_log (s : State σ) (n : Nat) (w : WaitArgs) (r : Outcome × σ) :
    (s.settle n w r).log = s.log ++ r.1.events w.index := by
  rw [State.settle]
  split
  case h_1 code value hr =>
    rw [hr]
    by_cases hcode : code = .ok
    · rw [hcode]
      rfl
    · rw [Outcome.events_fail hcode, List.append_nil]
      exact if_neg hcode
  case h_2 hr =>
    rw [hr, Outcome.events_blocked, List.append_nil]

theorem settle_threads (s : State σ) (n : Nat) (w : WaitArgs) (r : Outcome × σ) :
    ∃ th, (s.settle n w r).threads = s.threads.set n th ∧
      ∀ w', th = .blocked w' → r.1 = .blocked := by
  rw [State.settle]
  split
  case h_1 => exact ⟨_, rfl, nofun⟩
  case h_2 hr => exact ⟨_, rfl, fun _ _ => hr⟩

/-- The wait of thread `n` goes on with `r`. -/
theorem WaitInv.settle (h : WaitInv I s) {n : Nat} {w : WaitArgs} {r : Outcome × σ}
    (hr : Recorded (I.board r.2) (s.log ++ r.1.events w.index))
    (hsome : (I.board r.2).isSome = (I.board s.object).isSome)
    (hblocked : r.1 = .blocked → (I.board s.object).isSome = true) :
    WaitInv I (s.settle n w r) := by
  constructor
  · rw [settle_object, settle_log]
    exact hr
  · intro m w' hm
    rw [settle_object, hsome]
    obtain ⟨th, hth, hb⟩ := settle_threads s n w r
    rw [hth] at hm
    rcases getElem?_set_cases hm with ⟨-, heq⟩ | ⟨-, hold⟩
    · exact hblocked (hb w' heq.symm)
    · exact h.valid m w' hold

theorem WaitInv.step (h : WaitInv I s) (hs : s.step I a = some s') : WaitInv I s' := by
  cases a with
  | spawn =>
      obtain rfl := Option.some.inj hs
      refine ⟨h.recorded, fun n w hn => ?_⟩
      rcases getElem?_concat_cases hn with hold | ⟨-, hnew⟩
      · exact h.valid n w hold
      · cases hnew
  | call c =>
      obtain rfl := Option.some.inj hs
      constructor
      · change Recorded (I.board (I.call s.object c).2) (s.log ++ c.events (I.call s.object c).1)
        rw [I.board_call, I.reply_call]
        exact h.recorded.call c
      · intro n w hn
        change (I.board (I.call s.object c).2).isSome = true
        rw [I.board_call, Board.isSome_call]
        exact h.valid n w hn
  | wait n w clock =>
      dsimp only [State.step] at hs
      split at hs
      case h_1 =>
        obtain rfl := Option.some.inj hs
        refine h.settle ?_ ?_ (fun hb => ?_)
        · rw [I.board_start, I.outcome_start]
          exact h.recorded.start w clock
        · rw [I.board_start, Board.isSome_start]
        · rw [I.outcome_start] at hb
          exact Board.isSome_of_blocked hb
      case h_2 => cases hs
  | resume n rc clock =>
      dsimp only [State.step] at hs
      split at hs
      case h_1 w hn =>
        obtain rfl := Option.some.inj hs
        have hv := h.valid n w hn
        have hres := I.resume_spec s.object w rc clock hv
        exact h.settle (h.recorded.resumed hres) hres.isSome (fun _ => hv)
      case h_2 => cases hs

theorem WaitInv.of_reachable {object : σ} (hquiet : (I.board object).Quiet)
    (h : (machine I object).Reachable s) : WaitInv I s := by
  refine h.invariant (I := WaitInv I) ?_ (fun s a s' _ hi hs => hi.step hs)
  refine ⟨⟨fun slots i slot hb hi hp => ?_, nofun⟩, nofun⟩
  rw [hquiet slots i slot hb hi] at hp
  cases hp

/-! ### What a wait does to its slot -/

/-- The wait that an action carries on. -/
def State.waiter (s : State σ) : Action → Option (Nat × WaitArgs)
  | .wait n w _ => some (n, w)
  | .resume n _ _ =>
      match s.threads[n]? with
      | some (.blocked w) => some (n, w)
      | _ => none
  | _ => none

/-- The board without some bits of one slot. -/
def Board.clear (b : Board) (index : Nat) (bits : BitVec 32) : Board :=
  b.map (fun slots => slots.modify index (fun slot => slot.clear bits))

/-- The board that a wait finds: one that begins has cleared the bits of `clear_on_entry`. -/
def State.found (I : Impl σ) (s : State σ) : Action → Board
  | .wait _ w _ => (I.board s.object).clear w.index w.clearOnEntry
  | _ => I.board s.object

/-- What a step of a wait does to the board it finds. -/
inductive Settled (w : WaitArgs) (found : Board) : Outcome → Board → Prop
  | success {slots : List Slot} {slot : Slot} : found = some slots →
      slots[w.index]? = some slot → slot.pending = true →
      Settled w found (.returned .ok (w.report slot.value))
        (some (slots.set w.index ⟨slot.value &&& ~~~ w.clearOnExit, false⟩))
  | failure {r : Outcome} : (∀ value, r ≠ .returned .ok value) → Settled w found r found

theorem Settled.of_resumed {w : WaitArgs} {r : Outcome} {b' : Board}
    (h : Board.Resumed w b r b') : Settled w b r b' := by
  cases h with
  | take hslot hp => exact .success rfl hslot hp
  | fail hcode =>
      refine .failure (fun value heq => hcode ?_)
      injection heq
  | block => exact .failure nofun

theorem Settled.of_start (b : Board) (w : WaitArgs) (clock : Bool) :
    Settled w (b.clear w.index w.clearOnEntry) (b.start w clock).1 (b.start w clock).2 := by
  cases b with
  | none => exact .failure nofun
  | some slots =>
      dsimp only [Board.start, Board.access, Board.clear, Option.map]
      rw [List.modify_eq_set_getElem?]
      cases hslot : slots[w.index]? with
      | none => exact .failure nofun
      | some slot =>
          have hlt := (List.getElem?_eq_some_iff.mp hslot).1
          dsimp only [Option.map_eq_map, Option.map, Option.getD_some, Slot.start]
          split
          case isTrue hp =>
            have htake := @Settled.success w _ _ (slot.clear w.clearOnEntry) rfl
              (List.getElem?_set_self hlt) hp
            rw [List.set_set] at htake
            exact htake
          case isFalse =>
            split
            · exact .failure nofun
            · exact .failure nofun

/-- Where a thread stands says whether its wait has succeeded. -/
theorem settle_thread {n : Nat} {w : WaitArgs} {r : Outcome × σ} {th : Thread}
    (hn : s.threads[n]? = some th) (value : Option (BitVec 32)) :
    (s.settle n w r).threads[n]? = some (.idle (some (.ok, value))) ↔
      r.1 = .returned .ok value := by
  have hlt := (List.getElem?_eq_some_iff.mp hn).1
  rw [State.settle]
  split
  case h_1 hr => simp [hr, hlt]
  case h_2 hr => simp [hr, hlt]

/-- A step of a wait, seen on the board. -/
theorem settled_of_step (h : WaitInv I s) (hs : s.step I a = some s') {n : Nat} {w : WaitArgs}
    (hw : s.waiter a = some (n, w)) :
    ∃ r, Settled w (s.found I a) r (I.board s'.object) ∧
      ∀ value, s'.threads[n]? = some (.idle (some (.ok, value))) ↔ r = .returned .ok value := by
  cases a with
  | spawn => cases hw
  | call c => cases hw
  | wait m v clock =>
      obtain ⟨rfl, rfl⟩ := Prod.mk.inj (Option.some.inj hw)
      dsimp only [State.step] at hs
      split at hs
      case h_1 hn =>
        obtain rfl := Option.some.inj hs
        refine ⟨_, ?_, settle_thread hn⟩
        rw [settle_object, I.outcome_start, I.board_start]
        exact .of_start _ v clock
      case h_2 => cases hs
  | resume m rc clock =>
      dsimp only [State.step, State.waiter] at hs hw
      split at hs
      case h_1 v hn =>
        rw [hn] at hw
        obtain ⟨rfl, rfl⟩ := Prod.mk.inj (Option.some.inj hw)
        obtain rfl := Option.some.inj hs
        refine ⟨_, ?_, settle_thread hn⟩
        rw [settle_object]
        exact .of_resumed (I.resume_spec s.object v rc clock (h.valid m v hn))
      case h_2 => cases hs

/-! ### What notifications promise -/

structure WaitsOk (I : Impl σ) (s : State σ) : Prop where
  /-- Every success of a wait has a notification of its own. -/
  own : Own s.log
  /-- A wait that succeeds has found its slot pending, reports its value, and leaves it
  without the bits of `clear_on_exit` and not pending. -/
  success : ∀ (a : Action) (s' : State σ) (n : Nat) (w : WaitArgs) (value : Option (BitVec 32)),
    s.step I a = some s' → s.waiter a = some (n, w) →
    s'.threads[n]? = some (.idle (some (.ok, value))) →
    ∃ slots slot, s.found I a = some slots ∧ slots[w.index]? = some slot ∧
      slot.pending = true ∧ value = w.report slot.value ∧
      I.board s'.object =
        some (slots.set w.index ⟨slot.value &&& ~~~ w.clearOnExit, false⟩)
  /-- A step of a wait that does not make it succeed changes nothing, except for the bits of
  `clear_on_entry` when the wait begins. -/
  failure : ∀ (a : Action) (s' : State σ) (n : Nat) (w : WaitArgs),
    s.step I a = some s' → s.waiter a = some (n, w) →
    (∀ value, s'.threads[n]? ≠ some (.idle (some (.ok, value)))) →
    I.board s'.object = s.found I a
  /-- `no_overwrite` leaves a pending slot alone. -/
  noOverwrite : ∀ (slots : List Slot) (index : Nat) (slot : Slot) (value : BitVec 32),
    I.board s.object = some slots → slots[index]? = some slot → slot.pending = true →
    (I.call s.object (.notify value .noOverwrite index)).1 = .code .wouldBlock ∧
      I.board (I.call s.object (.notify value .noOverwrite index)).2 = some slots

theorem WaitsOk.of_inv (h : WaitInv I s) : WaitsOk I s where
  own := h.recorded.own
  success a s' n w value hs hw hn := by
    obtain ⟨r, hr, hiff⟩ := settled_of_step h hs hw
    have hok := (hiff value).mp hn
    generalize I.board s'.object = b' at hr ⊢
    cases hr with
    | @success slots slot hfound hslot hp =>
        have hvalue : w.report slot.value = value := by injection hok
        exact ⟨_, _, hfound, hslot, hp, hvalue.symm, rfl⟩
    | failure hfail => exact absurd hok (hfail value)
  failure a s' n w hs hw hn := by
    obtain ⟨r, hr, hiff⟩ := settled_of_step h hs hw
    generalize I.board s'.object = b' at hr ⊢
    cases hr with
    | success hfound hslot hp => exact absurd ((hiff _).mpr rfl) (hn _)
    | failure => rfl
  noOverwrite slots index slot value hb hslot hp := by
    rw [I.reply_call, I.board_call, hb]
    have hset : slots.set index slot = slots := by
      rw [List.getElem?_eq_some_iff] at hslot
      obtain ⟨hlt, rfl⟩ := hslot
      exact List.set_getElem_self hlt
    simp [Board.call, Board.access, hslot, Slot.notify, hp, hset]

/-- Objects that were just created, by either implementation. -/
theorem board_create {slotCount : Nat} (h : 0 < slotCount) (mtxRc cvRc : ErrorCode) :
    (create slotCount mtxRc cvRc).board = (Handle.create slotCount mtxRc cvRc).2.board := by
  have hne : slotCount ≠ 0 := by omega
  by_cases hm : mtxRc = .ok
  · by_cases hc : cvRc = .ok
    · simp [create, board, valid, Handle.create, Handle.board, Handle.isValid, Handle.slots, hne,
        hm, hc]
    · simp [create, board, valid, Handle.create, Handle.board, Handle.isValid, Handle.empty, hne,
        hm, hc]
  · simp [create, board, valid, Handle.create, Handle.board, Handle.isValid, Handle.empty, hne, hm]

theorem quiet_create (slotCount : Nat) (mtxRc cvRc : ErrorCode) :
    (create slotCount mtxRc cvRc).board.Quiet := by
  intro slots i slot hb hi
  rw [board] at hb
  split at hb
  case isTrue =>
    obtain rfl := Option.some.inj hb
    obtain ⟨-, rfl⟩ := List.mem_replicate.mp (List.mem_of_getElem? hi)
    rfl
  case isFalse => cases hb

/-- The two implementations of notifications, created with the same number of slots and the
same fate of their mutex and condition variable. -/
theorem notifications_refine {slotCount : Nat} (h : 0 < slotCount) (mtxRc cvRc : ErrorCode) :
    (∀ ops : List Op,
      (c.execAll (Handle.create slotCount mtxRc cvRc).2 ops).1 =
          (cpp.execAll (create slotCount mtxRc cvRc) ops).1 ∧
        (c.execAll (Handle.create slotCount mtxRc cvRc).2 ops).2.board =
          (cpp.execAll (create slotCount mtxRc cvRc) ops).2.board) ∧
      (∀ s, (machine cpp (create slotCount mtxRc cvRc)).Reachable s → WaitsOk cpp s) ∧
      (∀ s, (machine c (Handle.create slotCount mtxRc cvRc).2).Reachable s → WaitsOk c s) := by
  have hboard := board_create h mtxRc cvRc
  have hquiet := quiet_create slotCount mtxRc cvRc
  refine ⟨fun ops => ?_, fun s hs => ?_, fun s hs => ?_⟩
  · exact Impl.execAll_eq (I := c) cpp ops hboard.symm
  · exact .of_inv (.of_reachable hquiet hs)
  · rw [hboard] at hquiet
    exact .of_inv (.of_reachable (I := c) hquiet hs)

/-- Two slots; a value that `no_overwrite` does not replace, and a wait for it. -/
theorem notifications_refine_two :
    0 < 2 ∧
      (c.execAll (Handle.create 2 .ok .ok).2
        [.call (.notify 5 .overwrite 1), .call (.notify 6 .noOverwrite 1),
          .wait ⟨1, .noWait, true, 1, 0xFFFFFFFF⟩ false]).1 =
        [.code .ok, .code .wouldBlock, .waited (.returned .ok (some 4))] := by
  refine ⟨by decide, ?_⟩
  rw [((notifications_refine (by decide) .ok .ok).1 _).1]
  decide +kernel

end MicrOsal.Notification
