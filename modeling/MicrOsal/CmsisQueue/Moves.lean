import MicrOsal.CmsisQueue.Model

/-!
# MicrOsal.CmsisQueue.Moves

What a step of the CMSIS-RTOS v1 queue does, and what a queue is created with: an empty native
queue that holds as many messages as the slot says, also when the slot was used before.
-/

namespace MicrOsal.CmsisQueue

open MicrOsal.Queue (Item)

variable {cfg : Config} {size n : Nat} {a : Action cfg size} {s s' : State cfg size}
  {slot slot' : QueueSlot} {val : Word}

/-! ### Slots -/

/-- The native queue holds as many messages as the slot says. -/
def QueueSlot.Fits (slot : QueueSlot) : Prop := ∀ q, slot.id = some q → q.size = slot.capacity

/-- A slot without a native queue is not in use. -/
structure QueueSlot.Sound (slot : QueueSlot) : Prop where
  fits : slot.Fits
  used : slot.used = slot.id.isSome

theorem QueueSlot.put_eq_some (h : slot.put val = some slot') :
    ∃ q, slot.id = some q ∧ q.messages.length < q.size ∧
      slot' = { slot with id := some { q with messages := q.messages ++ [val] } } := by
  obtain ⟨q', hput, rfl⟩ := Option.map_eq_some_iff.mp h
  obtain ⟨q, hq, hput⟩ := Option.bind_eq_some_iff.mp hput
  unfold NativeQueue.put at hput
  split at hput
  case isTrue hroom =>
    cases hput
    exact ⟨q, hq, hroom, rfl⟩
  case isFalse => cases hput

theorem QueueSlot.get_eq_some (h : slot.get = some (val, slot')) :
    ∃ q rest, slot.id = some q ∧ q.messages = val :: rest ∧
      slot' = { slot with id := some { q with messages := rest } } := by
  obtain ⟨⟨v, q'⟩, hget, heq⟩ := Option.map_eq_some_iff.mp h
  obtain ⟨rfl, rfl⟩ := Prod.mk.inj heq
  obtain ⟨q, hq, hget⟩ := Option.bind_eq_some_iff.mp hget
  unfold NativeQueue.get at hget
  split at hget
  case h_1 => cases hget
  case h_2 v rest hmessages =>
    cases hget
    exact ⟨q, rest, hq, hmessages, rfl⟩

theorem QueueSlot.messages_eq {q : NativeQueue} (h : slot.id = some q) :
    slot.messages = q.messages := by
  rw [messages, h]
  rfl

/-- A put finds room as long as the native queue is not full. -/
theorem QueueSlot.put_of_room {q : NativeQueue} (hq : slot.id = some q)
    (hroom : q.messages.length < q.size) (val : Word) : (slot.put val).isSome = true := by
  rw [put, hq, Option.bind_some, NativeQueue.put, if_pos hroom]
  rfl

/-! ### Steps -/

/-- What the steps do, but for the record of the counts. Only a compare-exchange that fails is
tied to its action. -/
inductive Moves : Action cfg size → State cfg size → State cfg size → Prop
  | spawn {a : Action cfg size} {s : State cfg size} :
      Moves a s { s with threads := s.threads ++ [.idle none] }
  | tick {a : Action cfg size} {s : State cfg size} : Moves a s { s with clock := s.clock + 1 }
  | send {a : Action cfg size} {s : State cfg size} {n : Nat}
      {last : Option ErrorCode} {call : Send size cfg.width} :
      s.threads[n]? = some (.idle last) → call.since = s.counts.length →
      Moves a s (s.setThread n (.load call))
  | receive {a : Action cfg size} {s : State cfg size} {n : Nat}
      {last : Option ErrorCode} {timeout : Tick cfg.width} :
      s.threads[n]? = some (.idle last) → Moves a s (s.setThread n (.get timeout))
  | loadBelow {a : Action cfg size} {s : State cfg size} {n : Nat} {call : Send size cfg.width} :
      s.threads[n]? = some (.load call) → s.slot.count < s.slot.capacity →
      Moves a s (s.setThread n (.exchange call s.slot.count))
  | loadFull {a : Action cfg size} {s : State cfg size} {n : Nat} {call : Send size cfg.width} :
      s.threads[n]? = some (.load call) → s.slot.capacity ≤ s.slot.count →
      Moves a s (s.setThread n (.refused call))
  | reserve {a : Action cfg size} {s : State cfg size} {n : Nat} {call : Send size cfg.width} :
      s.threads[n]? = some (.exchange call s.slot.count) →
      Moves a s ({ s with slot := { s.slot with count := s.slot.count + 1 } }.setThread n
        (.put call))
  | miss {s : State cfg size} {n count : Nat} {call : Send size cfg.width} :
      s.threads[n]? = some (.exchange call count) → s.slot.count ≠ count →
      Moves (.go n) s (s.setThread n (.refused call))
  | put {a : Action cfg size} {s : State cfg size} {n : Nat}
      {call : Send size cfg.width} {slot : QueueSlot} :
      s.threads[n]? = some (.put call) → s.slot.put (pack call.item) = some slot →
      Moves a s ({ s with slot := slot, puts := s.puts ++ [call.item] }.leave n call .ok)
  | putFail {a : Action cfg size} {s : State cfg size} {n : Nat} {call : Send size cfg.width} :
      s.threads[n]? = some (.put call) → s.slot.put (pack call.item) = none →
      Moves a s (s.setThread n (.rollBack call))
  | rollBack {a : Action cfg size} {s : State cfg size} {n : Nat} {call : Send size cfg.width} :
      s.threads[n]? = some (.rollBack call) → Moves a s (s.decrCount.setThread n (.refused call))
  | leave {a : Action cfg size} {s : State cfg size} {n : Nat}
      {call : Send size cfg.width} {code : ErrorCode}
      {th : Thread size cfg.width} : s.threads[n]? = some th →
      (th = .refused call ∨ th = .delay call) →
      (code = .wouldBlock → th = .refused call ∧ call.timeout = noWait) →
      Moves a s (s.leave n call code)
  | sleep {a : Action cfg size} {s : State cfg size} {n : Nat} {call : Send size cfg.width} :
      s.threads[n]? = some (.refused call) → Moves a s (s.setThread n (.delay call))
  | wake {a : Action cfg size} {s : State cfg size} {n : Nat} {call : Send size cfg.width} :
      s.threads[n]? = some (.delay call) → Moves a s (s.setThread n (.load call))
  | get {a : Action cfg size} {s : State cfg size} {n : Nat} {timeout : Tick cfg.width} {val : Word}
      {slot : QueueSlot} : s.threads[n]? = some (.get timeout) →
      s.slot.get = some (val, slot) →
      Moves a s ({ s with slot := slot, gots := s.gots ++ [unpack size val] }.setThread n
        (.decrement (unpack size val) s.gots.length))
  | getNone {a : Action cfg size} {s : State cfg size} {n : Nat}
      {timeout : Tick cfg.width} {code : ErrorCode} :
      s.threads[n]? = some (.get timeout) → Moves a s (s.setThread n (.idle (some code)))
  | decrement {a : Action cfg size} {s : State cfg size} {n ticket : Nat} {item : Item size} :
      s.threads[n]? = some (.decrement item ticket) →
      Moves a s ({ s.decrCount with returned := s.returned ++ [(ticket, item)] }.setThread n
        (.idle (some .ok)))

theorem moves_of_whenIdle {s₁ : State cfg size} (h : s.whenIdle n s₁ = some s') :
    ∃ last, s.threads[n]? = some (.idle last) ∧ s' = s₁ := by
  unfold State.whenIdle at h
  split at h
  case h_1 last hn => exact ⟨last, hn, (Option.some.inj h).symm⟩
  case h_2 => cases h

theorem moves_of_refused {call : Send size cfg.width} (hn : s.threads[n]? = some (.refused call)) :
    Moves a s (s.refused n call) := by
  unfold State.refused
  split
  case isTrue hnoWait => exact .leave hn (.inl rfl) (fun _ => ⟨rfl, hnoWait⟩)
  case isFalse =>
    split
    case isTrue => exact .leave hn (.inl rfl) (fun hcode => nomatch hcode)
    case isFalse => exact .sleep hn

theorem moves_of_go {th : Thread size cfg.width} (hn : s.threads[n]? = some th)
    (h : s.go n th = some s') : Moves (.go n) s s' := by
  cases th with
  | idle last => cases h
  | load call =>
      cases h
      unfold State.load
      split
      case isTrue hbelow => exact .loadBelow hn hbelow
      case isFalse hfull => exact .loadFull hn (not_lt.mp hfull)
  | exchange call count =>
      cases h
      unfold State.exchange
      split
      case isTrue heq =>
        subst heq
        exact .reserve hn
      case isFalse hne => exact .miss hn hne
  | put call =>
      cases h
      unfold State.put
      split
      case h_1 slot hput => exact .put hn hput
      case h_2 hput => exact .putFail hn hput
  | rollBack call =>
      cases h
      exact .rollBack hn
  | refused call =>
      cases h
      exact moves_of_refused hn
  | delay call =>
      cases h
      exact .wake hn
  | get timeout =>
      dsimp only [State.go, State.get] at h
      split at h
      case h_1 val slot hget =>
        cases h
        exact .get hn hget
      case h_2 =>
        split at h
        case isTrue =>
          cases h
          exact .getNone hn
        case isFalse => cases h
  | decrement item ticket =>
      cases h
      exact .decrement hn

theorem moves_of_fail {th : Thread size cfg.width} (hn : s.threads[n]? = some th)
    (h : s.fail n th = some s') : Moves a s s' := by
  cases th with
  | get timeout =>
      dsimp only [State.fail] at h
      split at h
      case isTrue =>
        cases h
        exact .getNone hn
      case isFalse => cases h
  | delay call =>
      cases h
      exact .leave hn (.inr rfl) (fun hcode => nomatch hcode)
  | idle | load | exchange | put | rollBack | refused | decrement => cases h

theorem moves_of_act (h : s.act a = some s') : Moves a s s' := by
  cases a with
  | spawn =>
      cases h
      exact .spawn
  | tick =>
      cases h
      exact .tick
  | send n item timeout =>
      obtain ⟨last, hn, rfl⟩ := moves_of_whenIdle h
      exact .send hn rfl
  | sendIsr n item =>
      obtain ⟨last, hn, rfl⟩ := moves_of_whenIdle h
      exact .send hn rfl
  | receive n timeout =>
      obtain ⟨last, hn, rfl⟩ := moves_of_whenIdle h
      exact .receive hn
  | receiveIsr n =>
      obtain ⟨last, hn, rfl⟩ := moves_of_whenIdle h
      exact .receive hn
  | go n =>
      obtain ⟨th, hn, hgo⟩ := Option.bind_eq_some_iff.mp h
      exact moves_of_go hn hgo
  | fail n =>
      obtain ⟨th, hn, hfail⟩ := Option.bind_eq_some_iff.mp h
      exact moves_of_fail hn hfail

theorem moves_of_step (h : s.step a = some s') :
    ∃ s₁, Moves a s s₁ ∧ s' = s₁.note := by
  obtain ⟨s₁, hact, rfl⟩ := Option.map_eq_some_iff.mp h
  exact ⟨s₁, moves_of_act hact, rfl⟩

/-! ### Creation -/

/-- Puts and gets leave the shape of the slot. -/
structure SameShape (slot slot' : QueueSlot) : Prop where
  size : slot'.id.map NativeQueue.size = slot.id.map NativeQueue.size
  capacity : slot'.capacity = slot.capacity
  used : slot'.used = slot.used

theorem SameShape.refl (slot : QueueSlot) : SameShape slot slot := ⟨rfl, rfl, rfl⟩

theorem SameShape.trans {slot'' : QueueSlot} (h : SameShape slot slot')
    (h' : SameShape slot' slot'') : SameShape slot slot'' :=
  ⟨h'.size.trans h.size, h'.capacity.trans h.capacity, h'.used.trans h.used⟩

theorem SameShape.of_moves (h : Moves a s s') : SameShape s.slot s'.slot := by
  cases h with
  | put hn hput =>
      obtain ⟨q, hq, -, rfl⟩ := QueueSlot.put_eq_some hput
      exact ⟨by rw [hq]; exact .refl _, .refl _, .refl _⟩
  | get hn hget =>
      obtain ⟨q, rest, hq, -, rfl⟩ := QueueSlot.get_eq_some hget
      exact ⟨by rw [hq]; exact .refl _, .refl _, .refl _⟩
  | spawn | tick | send | receive | loadBelow | loadFull | miss | putFail | leave | sleep | wake
  | getNone => exact .refl _
  | reserve | rollBack | decrement => exact ⟨rfl, rfl, rfl⟩

theorem SameShape.of_reachable (h : (machine cfg size slot).Reachable s) :
    SameShape slot s.slot := by
  refine Machine.Reachable.invariant (I := fun s => SameShape slot s.slot) (.refl _) ?_ h
  intro s a s' _ hsame hstep
  obtain ⟨s₁, hmoves, rfl⟩ := moves_of_step hstep
  have hmove : SameShape s.slot s₁.slot := .of_moves hmoves
  exact hsame.trans hmove

theorem QueueSlot.Sound.of_same (h : slot.Sound) (hsame : SameShape slot slot') :
    slot'.Sound := by
  refine ⟨fun q hq => ?_, ?_⟩
  · have hsize := hsame.size
    rw [hq] at hsize
    obtain ⟨q', hq', hsize⟩ := Option.map_eq_some_iff.mp hsize.symm
    rw [hsame.capacity, ← h.fits q' hq', hsize]
  · have hsome := congrArg Option.isSome hsame.size
    rw [Option.isSome_map, Option.isSome_map] at hsome
    rw [hsame.used, h.used, hsome]

theorem QueueSlot.Sound.drain (h : slot.Sound) : slot.drain.Sound := by
  unfold QueueSlot.drain
  split
  case h_1 => exact h
  case h_2 q hq =>
    refine ⟨fun q' hq' => ?_, ?_⟩
    · obtain rfl := Option.some.inj hq'
      exact h.fits q hq
    · rw [h.used, hq]
      rfl

/-- Whichever pass finds the slot, its native queue, if it has one, is as large as asked. -/
theorem fits_acquired {itemSize capacity : Nat} {firstPass : Bool} (h : slot.Sound)
    (hmatches : slot.matchesIn firstPass itemSize capacity = true) :
    (slot.acquired itemSize capacity).Fits := by
  intro q hq
  have hused : slot.used = true := by
    rw [h.used]
    exact Option.isSome_iff_exists.mpr ⟨q, hq⟩
  unfold QueueSlot.matchesIn at hmatches
  split at hmatches
  · have hcapacity : slot.capacity = capacity := by simp_all
    rw [h.fits q hq]
    exact hcapacity
  · rw [hused] at hmatches
    cases hmatches

theorem matches_of_acquire {slots : List QueueSlot} {itemSize capacity k : Nat}
    (hacquire : acquire slots itemSize capacity = some k) (hslot : slots[k]? = some slot) :
    ∃ firstPass, slot.matchesIn firstPass itemSize capacity = true := by
  have hpass : ∀ firstPass, acquirePass slots firstPass itemSize capacity = some k →
      slot.matchesIn firstPass itemSize capacity = true := by
    intro firstPass hk
    obtain ⟨hlt, hfound, -⟩ := List.findIdx?_eq_some_iff_getElem.mp hk
    rw [List.getElem?_eq_getElem hlt] at hslot
    rw [Option.some.inj hslot] at hfound
    exact (Bool.and_eq_true_iff.mp hfound).2
  rcases Option.or_eq_some_iff.mp hacquire with hfirst | ⟨-, hsecond⟩
  · exact ⟨true, hpass true hfirst⟩
  · exact ⟨false, hpass false hsecond⟩

/-- A slot that is opened is empty, and as large as it says. -/
theorem openSlot_spec (created : Bool) (hfits : slot.Fits) (hused : slot.used = true) :
    (slot.openSlot created).2.Sound ∧ ((slot.openSlot created).1 = true →
      (slot.openSlot created).2.capacity = slot.capacity ∧
      (slot.openSlot created).2.id = some ⟨slot.capacity, []⟩ ∧
      (slot.openSlot created).2.count = if slot.id.isSome then 0 else slot.count) := by
  unfold QueueSlot.openSlot
  cases hid : slot.id with
  | some q =>
      have hq : q.size = slot.capacity := hfits q hid
      have hsound : slot.Sound := ⟨hfits, by rw [hused, hid]; rfl⟩
      refine ⟨hsound.drain, fun _ => ?_⟩
      simp [QueueSlot.drain, hid, ← hq]
  | none =>
      cases created with
      | true =>
          refine ⟨⟨fun q hq => ?_, hused⟩, fun _ => ⟨rfl, rfl, rfl⟩⟩
          cases hq
          rfl
      | false =>
          simp only [Option.isSome_none, Bool.false_eq_true, if_false]
          refine ⟨⟨fun q hq => ?_, rfl⟩, fun hok => nomatch hok⟩
          cases hq

/-- What `osal_queue_create` may do to the slots. -/
theorem create_cases {slots : List QueueSlot} {created : Bool} {itemSize capacity : Nat}
    {r : Except ErrorCode Nat} {slots' : List QueueSlot}
    (h : create slots created itemSize capacity = (r, slots')) :
    ((∃ code, r = .error code) ∧ slots' = slots) ∨
      ∃ k slot, itemSize ≤ 4 ∧ acquire slots itemSize capacity = some k ∧
        slots[k]? = some slot ∧
        slots' = slots.set k ((slot.acquired itemSize capacity).openSlot created).2 ∧
        r = if ((slot.acquired itemSize capacity).openSlot created).1 then .ok k
          else .error .outOfResources := by
  unfold create at h
  split at h
  case isTrue =>
    obtain ⟨rfl, rfl⟩ := Prod.mk.inj h
    exact .inl ⟨⟨_, rfl⟩, rfl⟩
  case isFalse =>
    split at h
    case isTrue =>
      obtain ⟨rfl, rfl⟩ := Prod.mk.inj h
      exact .inl ⟨⟨_, rfl⟩, rfl⟩
    case isFalse hsize =>
      split at h
      case h_1 =>
        obtain ⟨rfl, rfl⟩ := Prod.mk.inj h
        exact .inl ⟨⟨_, rfl⟩, rfl⟩
      case h_2 k hacquire =>
        split at h
        case h_1 =>
          obtain ⟨rfl, rfl⟩ := Prod.mk.inj h
          exact .inl ⟨⟨_, rfl⟩, rfl⟩
        case h_2 slot hslot =>
          obtain ⟨rfl, rfl⟩ := Prod.mk.inj h
          exact .inr ⟨k, slot, not_lt.mp hsize, hacquire, hslot, rfl, rfl⟩

theorem sound_set {slots : List QueueSlot} {k : Nat} (h : ∀ slot ∈ slots, slot.Sound)
    (hslot : slot.Sound) : ∀ slot' ∈ slots.set k slot, slot'.Sound := by
  intro slot' hmem
  rcases List.mem_or_eq_of_mem_set hmem with hmem | rfl
  · exact h slot' hmem
  · exact hslot

/-- Every slot that is in use has a native queue as large as the slot says. -/
theorem Slots.sound {slots : List QueueSlot} (h : Slots slots) : ∀ slot ∈ slots, slot.Sound := by
  induction h with
  | init n =>
      intro slot hmem
      obtain rfl := List.eq_of_mem_replicate hmem
      exact ⟨fun q hq => (nomatch hq), rfl⟩
  | @create slots created itemSize capacity _ ih =>
      cases hcreate : CmsisQueue.create slots created itemSize capacity with
      | mk r slots' =>
          rcases create_cases hcreate with ⟨-, rfl⟩ | ⟨k, slot, -, hacquire, hslot, rfl, -⟩
          · exact ih
          · obtain ⟨firstPass, hmatches⟩ := matches_of_acquire hacquire hslot
            have hsound := ih slot (List.mem_of_getElem? hslot)
            exact sound_set ih (openSlot_spec created (fits_acquired hsound hmatches) rfl).1
  | @use slots k size slot cfg s _ hslot hreach ih =>
      exact sound_set ih ((ih slot (List.mem_of_getElem? hslot)).of_same (.of_reachable hreach))
  | @destroy slots k slot _ hslot ih =>
      have hsound := (ih slot (List.mem_of_getElem? hslot)).drain
      exact sound_set ih ⟨hsound.fits, hsound.used⟩

/-- A queue that is created is empty and as large as asked, also in a slot of a queue that was
destroyed. -/
theorem create_fresh {slots slots' : List QueueSlot} {created : Bool} {size capacity k : Nat}
    (hslots : Slots slots) (h : create slots created size capacity = (.ok k, slots'))
    (hslot : slots'[k]? = some slot) : size ≤ 4 ∧ slot.capacity = capacity ∧
      slot.id = some ⟨capacity, []⟩ ∧ slot.count = 0 := by
  rcases create_cases h with ⟨⟨code, hcode⟩, -⟩ | ⟨j, old, hsize, hacquire, hold, rfl, hr⟩
  · cases hcode
  · obtain ⟨firstPass, hmatches⟩ := matches_of_acquire hacquire hold
    have hsound := hslots.sound old (List.mem_of_getElem? hold)
    have hspec := (openSlot_spec created (fits_acquired hsound hmatches) rfl).2
    split at hr
    case isTrue hok =>
      obtain rfl := Except.ok.inj hr
      rw [List.getElem?_set_self (List.getElem?_eq_some_iff.mp hold).1] at hslot
      cases hslot
      obtain ⟨hcapacity, hid, hcount⟩ := hspec hok
      refine ⟨hsize, hcapacity, hid, hcount.trans ?_⟩
      split <;> rfl
    case isFalse => cases hr

end MicrOsal.CmsisQueue
