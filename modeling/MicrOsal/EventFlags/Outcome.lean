import MicrOsal.EventFlags.Wakeup

/-!
# MicrOsal.EventFlags.Outcome

What a wait does to the flags and what it reports.

A wait's own steps change the flags at one point only, the `fetch_and` of a
satisfied wait with `clear_on_exit`. What it reports was loaded before that, so
the two can disagree on a bit that `set_isr` raises in between.
-/

namespace MicrOsal

variable {cfg : EfConfig}

/-! ### What a wait has changed and reports -/

/-- A satisfied wait reports a value that satisfies it. -/
def Reports (c : EfWait cfg) (res : EfResult) : Prop :=
  res.code = .ok → c.actual = true → ∃ a, res.actual = some a ∧ c.matched a = true

/-- A wait that failed changed nothing; one that was satisfied removed at most
the bits it waited for, and none unless asked to. -/
def Removes (c : EfWait cfg) (res : EfResult) (changed : EventBits) : Prop :=
  (res.code ≠ .ok → changed = 0) ∧ (c.clearOnExit = false → changed = 0) ∧
    changed &&& ~~~c.waitBits = 0

/-- What a wait has done at each point; `changed` is what its steps changed. -/
def OutcomeKnows (o : EmuEfObj cfg) (changed : EventBits) : EfThread cfg → Prop
  | .lock _ | .check _ _ | .poll _ | .claim _ _ | .drain _ _ | .describe _ _ | .openSlot _ _
  | .enter _ _ | .mark _ _ | .count _ _ | .unlockSleep _ _ _ | .readStart _ _ | .top _ _ _
  | .sleep _ _ _ _ | .relock _ _ _ | .reopen _ _ _ | .timeoutLock _ _ | .timeoutLoad _ _ =>
    changed = 0
  | .report c _ => changed = 0 ∧ c.matched o.bits = true
  | .consume c _ reported => changed = 0 ∧ c.matched reported = true
  | .releasePending c _ res | .releaseInUse c _ res | .releaseMark c _ res | .releaseCount c _ res
  | .unlockReturn c res _ => Reports c res ∧ Removes c res changed
  | _ => True

/-- The outcome invariant. -/
structure EfOutcome (s : EfSys cfg) : Prop where
  thread : ∀ t, OutcomeKnows s.obj (s.changed t) (s.threads t)
  log : ∀ r ∈ s.log, Reports r.call r.res ∧ Removes r.call r.res r.changed

theorem removes_none {c : EfWait cfg} {res : EfResult} : Removes c res 0 :=
  ⟨fun _ => rfl, fun _ => rfl, BitVec.zero_and⟩

/-- Clearing the wait bits changes those of them that are set. -/
theorem xor_clear (bits mask : EventBits) : bits ^^^ (bits &&& ~~~mask) = bits &&& mask := by
  ext b
  simp only [BitVec.getElem_xor, BitVec.getElem_and, BitVec.getElem_not]
  cases bits[b] <;> cases mask[b] <;> rfl

theorem and_and_not (bits mask : EventBits) : bits &&& mask &&& ~~~mask = 0 := by
  rw [BitVec.and_assoc, BitVec.and_not_self]
  exact BitVec.and_zero

/-- What the satisfied wait's last steps do to the record. -/
theorem outcome_satisfied {o : EmuEfObj cfg} {c : EfWait cfg} {phase : EfPhase cfg}
    {reported changed : EventBits} (hm : c.matched reported = true)
    (hr : Removes c ⟨.ok, c.report reported⟩ changed) :
    OutcomeKnows o changed (EfThread.satisfied c phase reported) := by
  have hreports : Reports c ⟨.ok, c.report reported⟩ := by
    intro _ hact
    exact ⟨reported, by simp [EfWait.report, hact], hm⟩
  cases phase <;> exact ⟨hreports, hr⟩

/-- A scan has no outcome. -/
theorem outcome_inScan {o : EmuEfObj cfg} {changed : EventBits} {isr : Bool} {pc : EfThread cfg}
    (h : pc.InScan isr) : OutcomeKnows o changed pc := by
  cases h with
  | ended => cases isr <;> trivial
  | word | slot => trivial

section Footprint

variable {o o' : EmuEfObj cfg} {t clock : Nat} {timedOut : Bool} {pc pc' : EfThread cfg}

/-- A wait's own step keeps its record in order. -/
theorem next_outcome {changed : EventBits} (hs : o.next t clock timedOut pc = some (o', pc'))
    (h : OutcomeKnows o changed pc) :
    OutcomeKnows o' (changed ||| (o.bits ^^^ o'.bits)) pc' := by
  have hsame : changed ||| (o.bits ^^^ o.bits) = changed := by
    rw [BitVec.xor_self]
    exact BitVec.or_zero
  cases pc <;> simp only [EmuEfObj.next] at hs <;> repeat' split at hs
  all_goals cases hs
  case check.isTrue hm =>
    rw [hsame]
    exact ⟨h, hm⟩
  case check.isFalse c phase _ =>
    rw [hsame]
    cases phase with
    | quick =>
        simp only [EfThread.unmatched]
        split <;> exact h
    | _ => exact h
  case report =>
    rw [hsame]
    exact ⟨h.1, h.2⟩
  case consume.isTrue c phase reported hclear =>
    obtain ⟨rfl, hm⟩ := h
    refine outcome_satisfied hm ⟨fun hne => absurd rfl hne, fun hno => ?_, ?_⟩
    · rw [hclear] at hno
      cases hno
    · show (0 ||| (o.bits ^^^ (o.bits &&& ~~~c.waitBits))) &&& ~~~c.waitBits = 0
      rw [xor_clear, show (0 : EventBits) ||| (o.bits &&& c.waitBits) = o.bits &&& c.waitBits from
        BitVec.zero_or]
      exact and_and_not _ _
  case consume.isFalse c phase reported hclear =>
    rw [hsame]
    obtain ⟨rfl, hm⟩ := h
    exact outcome_satisfied hm removes_none
  case poll =>
    rw [hsame, h]
    exact ⟨(fun h => by cases h), removes_none⟩
  case claim.isFalse =>
    rw [hsame, h]
    exact ⟨(fun h => by cases h), removes_none⟩
  case timeoutLoad =>
    rw [hsame, h]
    exact ⟨(fun h => by cases h), removes_none⟩
  all_goals first
    | trivial
    | exact outcome_inScan .ended
    | exact outcome_inScan (EfThread.inScan_nextWord _ _ _)
    | exact outcome_inScan (EfThread.inScan_nextSlot _ _ _ _)
    | show OutcomeKnows _ (changed ||| (o.bits ^^^ o.bits)) _
      rw [hsame]
      exact h

/-- Outside the guard only `set_isr` touches the flags. -/
theorem next_bits_out (hs : o.next t clock timedOut pc = some (o', pc')) (hout : ¬ pc.HoldsGuard) :
    o'.bits = o.bits ∨ ∃ bits, pc = .setOr bits true ∧ o'.bits = o.bits ||| bits := by
  cases pc <;> simp only [EmuEfObj.next] at hs <;> repeat' split at hs
  all_goals cases hs
  case setOr bits isr =>
    cases isr with
    | true => exact Or.inr ⟨bits, rfl, rfl⟩
    | false => exact absurd rfl hout
  case consume.isTrue => exact absurd trivial hout
  case clearAnd => exact absurd trivial hout
  all_goals exact Or.inl rfl

end Footprint

/-! ### Whole runs -/

namespace EfOutcome

variable {s : EfSys cfg} {t : Nat} {timedOut : Bool} {o : EmuEfObj cfg} {pc : EfThread cfg}

/-- What the other waits have done does not change. -/
theorem other (htab : EfTable s.obj s.threads) {v : Nat} (hvt : v ≠ t) {changed : EventBits}
    (hs : s.obj.next t s.clock timedOut (s.threads t) = some (o, pc))
    (h : OutcomeKnows s.obj changed (s.threads v)) : OutcomeKnows o changed (s.threads v) := by
  cases hc : s.threads v with
  | report c phase =>
      rw [hc] at h
      have hout : ¬ (s.threads t).HoldsGuard := fun ht =>
        hvt (htab.holder_unique (by rw [hc]; trivial) ht)
      refine ⟨h.1, EfWait.matched_mono ?_ h.2⟩
      rcases next_bits_out hs hout with hbits | ⟨bits, -, hbits⟩
      · rw [hbits, BitVec.and_self]
      · rw [hbits]
        ext b
        simp only [BitVec.getElem_and, BitVec.getElem_or]
        cases s.obj.bits[b] <;> simp
  | _ =>
      rw [hc] at h
      exact h

/-- A step of a thread. -/
theorem next (htab : EfTable s.obj s.threads) (h : EfOutcome s)
    (hs : s.obj.next t s.clock timedOut (s.threads t) = some (o, pc)) :
    EfOutcome { s with
      obj := o
      threads := Function.update s.threads t pc
      changed := Function.update s.changed t (s.changed t ||| (s.obj.bits ^^^ o.bits))
      log := ((s.threads t).returns t (s.changed t)).toList ++ s.log } := by
  refine ⟨fun v => ?_, fun r hr => ?_⟩
  · by_cases hvt : v = t
    · subst hvt
      simp only [Function.update_self]
      exact next_outcome hs (h.thread v)
    · simp only [Function.update_of_ne hvt]
      exact other htab hvt hs (h.thread v)
  · rcases List.mem_append.mp hr with hnew | hold
    · have hknows := h.thread t
      cases hc : s.threads t with
      | unlockReturn c res had =>
          rw [hc] at hnew hknows
          obtain rfl := List.mem_singleton.mp hnew
          exact hknows
      | _ =>
          rw [hc] at hnew
          cases hnew
    · exact h.log r hold

/-- A call begins with nothing changed. -/
theorem begins (h : EfOutcome s) (op : EfOp cfg) :
    EfOutcome { s with
      threads := Function.update s.threads t op.entry
      changed := Function.update s.changed t 0 } := by
  refine ⟨fun v => ?_, h.log⟩
  by_cases hvt : v = t
  · subst hvt
    simp only [Function.update_self]
    cases op with
    | setIsr bits =>
        simp only [EfOp.entry]
        split <;> trivial
    | wait c => rfl
    | _ => trivial
  · simp only [Function.update_of_ne hvt]
    exact h.thread v

end EfOutcome

theorem EfOutcome.fresh (cfg : EfConfig) : EfOutcome (EfSys.fresh cfg) :=
  ⟨fun _ => trivial, fun _ hr => (by cases hr)⟩

/-- The outcome invariant holds in every reachable state. -/
theorem EfOutcome.reachable {s : EfSys cfg} (hs : (efMachine cfg).Reachable s) : EfOutcome s := by
  refine Machine.Reachable.invariant (EfOutcome.fresh cfg) ?_ hs
  intro s a s' hr h hstep
  obtain ⟨t, op, -, -, rfl⟩ | ⟨t, timedOut, o, pc, -, hnext, rfl⟩ | ⟨n, -, rfl⟩ :=
    EfSys.step_cases hstep
  · exact h.begins op
  · exact h.next (EfTable.reachable hr) hnext
  · exact ⟨h.thread, h.log⟩

/-! ### Consumed bits and reported bits -/

/-- Everything the wait removed is in the value it reports. -/
def Seen (c : EfWait cfg) (res : EfResult) (changed : EventBits) : Prop :=
  res.code = .ok → c.clearOnExit = true → ∀ a, res.actual = some a → changed &&& ~~~a = 0

/-- What a wait is going to remove, or has removed, is what it reports. -/
def SeenKnows (o : EmuEfObj cfg) (changed : EventBits) : EfThread cfg → Prop
  | .consume c _ reported =>
    c.clearOnExit = true → c.actual = true → o.bits &&& c.waitBits &&& ~~~reported = 0
  | .releasePending c _ res | .releaseInUse c _ res | .releaseMark c _ res | .releaseCount c _ res
  | .unlockReturn c res _ => Seen c res changed
  | _ => True

/-- No `set_isr` ORs, between the load of a waiter's reported value and its
`fetch_and`, a bit the waiter waits for that is not in that value. -/
def IsrKeepsOut (s : EfSys cfg) : EfAct cfg → Prop
  | .step t _ => ∀ bits, s.threads t = .setOr bits true → ∀ u c phase reported,
      s.threads u = .consume c phase reported → c.clearOnExit = true → c.actual = true →
        bits &&& c.waitBits &&& ~~~reported = 0
  | _ => True

/-- The invariant of the runs in which `set_isr` keeps out. -/
structure EfSeen (s : EfSys cfg) : Prop where
  thread : ∀ t, SeenKnows s.obj (s.changed t) (s.threads t)
  log : ∀ r ∈ s.log, Seen r.call r.res r.changed

theorem seen_inScan {o : EmuEfObj cfg} {changed : EventBits} {isr : Bool} {pc : EfThread cfg}
    (h : pc.InScan isr) : SeenKnows o changed pc := by
  cases h with
  | ended => cases isr <;> trivial
  | word | slot => trivial

/-- A wait's own step. -/
theorem next_seen {o o' : EmuEfObj cfg} {t clock : Nat} {timedOut : Bool} {pc pc' : EfThread cfg}
    {changed : EventBits} (hs : o.next t clock timedOut pc = some (o', pc'))
    (hout : OutcomeKnows o changed pc) (h : SeenKnows o changed pc) :
    SeenKnows o' (changed ||| (o.bits ^^^ o'.bits)) pc' := by
  have hsame : changed ||| (o.bits ^^^ o.bits) = changed := by
    rw [BitVec.xor_self]
    exact BitVec.or_zero
  cases pc <;> simp only [EmuEfObj.next] at hs <;> repeat' split at hs
  all_goals cases hs
  case check.isFalse c phase _ =>
    cases phase with
    | quick =>
        simp only [EfThread.unmatched]
        split <;> trivial
    | _ => trivial
  case report c phase =>
    intro _ _
    rw [BitVec.and_assoc, BitVec.and_comm c.waitBits, ← BitVec.and_assoc, BitVec.and_not_self]
    exact BitVec.zero_and
  case consume.isTrue c phase reported hclear =>
    obtain ⟨rfl, -⟩ := hout
    have hseen : Seen c ⟨.ok, c.report reported⟩
        (0 ||| (o.bits ^^^ (o.bits &&& ~~~c.waitBits))) := by
      intro _ _ a ha
      rw [xor_clear, show (0 : EventBits) ||| (o.bits &&& c.waitBits) = o.bits &&& c.waitBits from
        BitVec.zero_or]
      simp only [EfWait.report] at ha
      split at ha
      · rename_i hact
        obtain rfl := Option.some.inj ha
        exact h hclear hact
      · cases ha
    cases phase <;> exact hseen
  case consume.isFalse c phase reported hclear =>
    have hseen : ∀ ch, Seen c ⟨.ok, c.report reported⟩ ch := fun ch _ hyes => absurd hyes hclear
    cases phase <;> exact hseen _
  case poll => exact fun h => by cases h
  case claim.isFalse => exact fun h => by cases h
  case timeoutLoad => exact fun h => by cases h
  all_goals first
    | trivial
    | exact seen_inScan .ended
    | exact seen_inScan (EfThread.inScan_nextWord _ _ _)
    | exact seen_inScan (EfThread.inScan_nextSlot _ _ _ _)
    | show SeenKnows _ (changed ||| (o.bits ^^^ o.bits)) _
      rw [hsame]
      exact h

namespace EfSeen

variable {s : EfSys cfg} {t : Nat} {timedOut : Bool} {o : EmuEfObj cfg} {pc : EfThread cfg}

/-- What the other waits are going to remove is still what they report. -/
theorem other (htab : EfTable s.obj s.threads) (hok : IsrKeepsOut s (.step t timedOut)) {v : Nat}
    (hvt : v ≠ t) {changed : EventBits}
    (hs : s.obj.next t s.clock timedOut (s.threads t) = some (o, pc))
    (h : SeenKnows s.obj changed (s.threads v)) : SeenKnows o changed (s.threads v) := by
  cases hc : s.threads v with
  | consume c phase reported =>
      rw [hc] at h
      intro hclear hact
      have hout : ¬ (s.threads t).HoldsGuard := fun ht =>
        hvt (htab.holder_unique (by rw [hc]; trivial) ht)
      rcases next_bits_out hs hout with hbits | ⟨bits, hpc, hbits⟩
      · rw [hbits]
        exact h hclear hact
      · have hnew := hok bits hpc v c phase reported hc hclear hact
        have hold := h hclear hact
        rw [hbits]
        ext b hb
        have hnew' := congrArg (fun x : EventBits => x[b]) hnew
        have hold' := congrArg (fun x : EventBits => x[b]) hold
        simp only [BitVec.getElem_and, BitVec.getElem_not, BitVec.getElem_or] at hnew' hold' ⊢
        cases hcase : bits[b]
        · rw [Bool.or_false]
          exact hold'
        · rw [hcase] at hnew'
          rw [Bool.or_true]
          exact hnew'
  | _ =>
      rw [hc] at h
      exact h

/-- A step of a thread. -/
theorem next (htab : EfTable s.obj s.threads) (hout : EfOutcome s)
    (hok : IsrKeepsOut s (.step t timedOut)) (h : EfSeen s)
    (hs : s.obj.next t s.clock timedOut (s.threads t) = some (o, pc)) :
    EfSeen { s with
      obj := o
      threads := Function.update s.threads t pc
      changed := Function.update s.changed t (s.changed t ||| (s.obj.bits ^^^ o.bits))
      log := ((s.threads t).returns t (s.changed t)).toList ++ s.log } := by
  refine ⟨fun v => ?_, fun r hr => ?_⟩
  · by_cases hvt : v = t
    · subst hvt
      simp only [Function.update_self]
      exact next_seen hs (hout.thread v) (h.thread v)
    · simp only [Function.update_of_ne hvt]
      exact other htab hok hvt hs (h.thread v)
  · rcases List.mem_append.mp hr with hnew | hold
    · have hknows := h.thread t
      cases hc : s.threads t with
      | unlockReturn c res had =>
          rw [hc] at hnew hknows
          obtain rfl := List.mem_singleton.mp hnew
          exact hknows
      | _ =>
          rw [hc] at hnew
          cases hnew
    · exact h.log r hold

theorem begins (h : EfSeen s) (op : EfOp cfg) :
    EfSeen { s with
      threads := Function.update s.threads t op.entry
      changed := Function.update s.changed t 0 } := by
  refine ⟨fun v => ?_, h.log⟩
  by_cases hvt : v = t
  · subst hvt
    simp only [Function.update_self]
    cases op with
    | setIsr bits =>
        simp only [EfOp.entry]
        split <;> trivial
    | _ => trivial
  · simp only [Function.update_of_ne hvt]
    exact h.thread v

theorem fresh (cfg : EfConfig) : EfSeen (EfSys.fresh cfg) :=
  ⟨fun _ => trivial, fun _ hr => (by cases hr)⟩

theorem reachable (hs : (efMachine cfg).ReachableBy IsrKeepsOut s) : EfSeen s := by
  refine Machine.ReachableBy.invariant (fresh cfg) ?_ hs
  intro s a s' hr h hok hstep
  obtain ⟨t, op, -, -, rfl⟩ | ⟨t, timedOut, o, pc, rfl, hnext, rfl⟩ | ⟨n, -, rfl⟩ :=
    EfSys.step_cases hstep
  · exact h.begins op
  · exact h.next (EfTable.reachable hr.reachable) (EfOutcome.reachable hr.reachable) hok hnext
  · exact ⟨h.thread, h.log⟩

end EfSeen

/-- In every run in which no `set_isr` ORs, between a waiter's load of the value
it reports and its `fetch_and`, a bit the waiter waits for and has not loaded:
every wait with `clear_on_exit` and an `actual` that returned `ok` reported a
value that satisfies it and contains every bit it removed. -/
theorem eventFlags_consumed_is_reported {s : EfSys cfg}
    (hs : (efMachine cfg).ReachableBy IsrKeepsOut s) :
    ∀ r ∈ s.log, r.res.code = .ok → r.call.clearOnExit = true → r.call.actual = true →
      ∃ a, r.res.actual = some a ∧ r.changed &&& r.call.waitBits &&& ~~~a = 0 ∧
        r.call.matched a = true := by
  intro r hr hcode hclear hact
  obtain ⟨a, ha, hm⟩ := ((EfOutcome.reachable hs.reachable).log r hr).1 hcode hact
  refine ⟨a, ha, ?_, hm⟩
  have hseen := (EfSeen.reachable hs).log r hr hcode hclear a ha
  rw [BitVec.and_assoc, BitVec.and_comm r.call.waitBits, ← BitVec.and_assoc, hseen]
  exact BitVec.zero_and

/-- The thread is a `set_isr` about to OR. -/
def EfThread.isIsrOr : EfThread cfg → Bool
  | .setOr _ isr => isr
  | _ => false

/-- No `set_isr` ORs at all. -/
def NoIsrOr (s : EfSys cfg) : EfAct cfg → Prop
  | .step t _ => (s.threads t).isIsrOr = false
  | _ => True

instance NoIsrOr.decidable (s : EfSys cfg) : (a : EfAct cfg) → Decidable (NoIsrOr s a)
  | .step t _ => inferInstanceAs (Decidable ((s.threads t).isIsrOr = false))
  | .call _ _ | .tick _ => .isTrue trivial

/-- Eight slots to a word, nine slots: `set(1)` and then `wait_any(1)`. -/
theorem eventFlags_consumed_is_reported_set :
    ∃ (cfg : EfConfig) (s : EfSys cfg) (r : EfReturn cfg),
      (efMachine cfg).ReachableBy IsrKeepsOut s ∧ r ∈ s.log ∧ r.res = ⟨.ok, some 1⟩ ∧
      r.changed = 1 ∧ ∃ a, r.res.actual = some a ∧ r.changed &&& r.call.waitBits &&& ~~~a = 0 ∧
        r.call.matched a = true := by
  let cfg : EfConfig := ⟨9, 8, by decide, 16, true⟩
  let schedule : List (EfAct cfg) :=
    EfAct.call 1 (.set 1) :: List.replicate 4 (EfAct.step 1 false) ++
      EfAct.call 0 (.wait ⟨1, true, true, false, waitForever⟩) ::
        List.replicate 5 (EfAct.step 0 false)
  have hno : (efMachine cfg).RunOk NoIsrOr (EfSys.fresh cfg) schedule := by decide +kernel
  have hok : (efMachine cfg).RunOk IsrKeepsOut (EfSys.fresh cfg) schedule := by
    refine hno.mono fun s a h => ?_
    cases a with
    | step t timedOut =>
        intro bits hpc
        simp only [NoIsrOr, hpc, EfThread.isIsrOr] at h
        cases h
    | _ => trivial
  have hview : ((efMachine cfg).run (EfSys.fresh cfg) schedule).map
      (fun s => s.log.map fun r => (r.res, r.changed, r.call.clearOnExit, r.call.actual)) =
        some [(⟨.ok, some 1⟩, 1, true, true)] := by
    decide +kernel
  obtain ⟨s, hrun, hres⟩ := Option.map_eq_some_iff.mp hview
  have hs := Machine.ReachableBy.of_run .init hok hrun
  obtain ⟨r, rest, hlog, hr, -⟩ := List.map_eq_cons_iff.mp hres
  simp only [Prod.mk.injEq] at hr
  obtain ⟨hres', hch, hclear, hact⟩ := hr
  have hmem : r ∈ s.log := by rw [hlog]; exact List.mem_cons_self ..
  exact ⟨cfg, s, r, hs, hmem, hres', hch,
    eventFlags_consumed_is_reported hs r hmem (by rw [hres']) hclear hact⟩

/-- A waiter for bits 0 and 1 finds bit 0 and loads the value it reports; then
`set_isr` raises bit 1, and the waiter's `fetch_and` removes both. -/
theorem eventFlags_consumed_unreported :
    ∃ (cfg : EfConfig) (s : EfSys cfg) (r : EfReturn cfg), (efMachine cfg).Reachable s ∧
      r ∈ s.log ∧ r.res.code = .ok ∧ r.call.clearOnExit = true ∧ r.call.actual = true ∧
      ¬ ∃ a, r.res.actual = some a ∧ r.changed &&& r.call.waitBits &&& ~~~a = 0 ∧
        r.call.matched a = true := by
  let cfg : EfConfig := ⟨8, 64, by decide, 32, true⟩
  let schedule : List (EfAct cfg) :=
    [.call 1 (.setIsr 1), .step 1 false, .step 1 false,
      .call 0 (.wait ⟨3, true, true, false, waitForever⟩), .step 0 false, .step 0 false,
      .step 0 false, .call 1 (.setIsr 2), .step 1 false, .step 0 false, .step 0 false]
  have hview : ((efMachine cfg).run (EfSys.fresh cfg) schedule).map
      (fun s => s.log.map fun r =>
        (r.res, r.changed, r.call.clearOnExit, r.call.actual, r.call.waitBits)) =
        some [(⟨.ok, some 1⟩, 3, true, true, 3)] := by
    decide +kernel
  obtain ⟨s, hrun, hres⟩ := Option.map_eq_some_iff.mp hview
  obtain ⟨r, rest, hlog, hr, -⟩ := List.map_eq_cons_iff.mp hres
  simp only [Prod.mk.injEq] at hr
  obtain ⟨hres', hch, hclear, hact, hbits⟩ := hr
  refine ⟨cfg, s, r, Machine.Reachable.of_run hrun, by rw [hlog]; exact List.mem_cons_self ..,
    by rw [hres'], hclear, hact, ?_⟩
  rintro ⟨a, ha, hseen, -⟩
  rw [hres'] at ha
  obtain rfl := Option.some.inj ha
  rw [hch, hbits] at hseen
  exact absurd hseen (by decide)

/-! ### The table and the outcomes together -/

/-- A run of one thread's steps from a reachable state ends in one. -/
theorem EfSys.reachable_run {s s' : EfSys cfg} (hs : (efMachine cfg).Reachable s)
    {as : List (EfAct cfg)} (h : (efMachine cfg).run s as = some s') :
    (efMachine cfg).Reachable s' :=
  Machine.ReachableBy.of_run hs
    (Machine.RunOk.of_forall (p := fun _ => True) (fun _ _ => trivial) s) h

/-- In every reachable state: outside the guard a slot is in use iff its bit is
set, and `waiter_count` is the number of set bits; no bit is ever set for a slot
that does not exist; no two threads have the same slot; a slot that is in use or
whose bit is set is the slot of a thread inside its wait, which has yet to release
it; a claim ends with `out_of_resources` if all slots are taken and with a slot if
not; a wait that is about to return has released its slot; and a wait that returned
changed no flag unless it returned `ok` with `clear_on_exit`, and then none outside
its wait bits. -/
theorem eventFlags_table {s : EfSys cfg} (hs : (efMachine cfg).Reachable s) :
    (s.obj.guard = none →
      (∀ i, s.obj.inUse i = true ↔ slotSet s.obj.activeWaiterWords i = true) ∧
        s.obj.waiterCount = slotCount s.obj.activeWaiterWords cfg.maxWaiters) ∧
    (∀ i, slotSet s.obj.activeWaiterWords i = true → i < cfg.maxWaiters) ∧
    (∀ t u i, (s.threads t).slot = some i → (s.threads u).slot = some i → t = u) ∧
    (∀ i, s.obj.inUse i = true ∨ slotSet s.obj.activeWaiterWords i = true →
      ∃ t, (s.threads t).slot = some i ∧ s.threads t ≠ .idle ∧
        ∀ c res had, s.threads t ≠ .unlockReturn c res had) ∧
    (∀ t c word, s.threads t = .claim c word →
      ∃ m s', (efMachine cfg).run s (List.replicate m (.step t false)) = some s' ∧
        (s.obj.waiterCount = cfg.maxWaiters ∧
            s'.threads t = .unlockReturn c ⟨.outOfResources, none⟩ none ∨
          s.obj.waiterCount < cfg.maxWaiters ∧ ∃ i, s'.threads t = .drain c i)) ∧
    (∀ t c res i, s.threads t = .unlockReturn c res (some i) →
      s.obj.inUse i = false ∧ slotSet s.obj.activeWaiterWords i = false) ∧
    (∀ r ∈ s.log, (r.res.code ≠ .ok → r.changed = 0) ∧
      (r.call.clearOnExit = false → r.changed = 0) ∧ r.changed &&& ~~~r.call.waitBits = 0) := by
  have htab := EfTable.reachable hs
  refine ⟨htab.agree, fun i => htab.set_lt, htab.unique, fun i hi => ?_, fun t c word hc => ?_,
    fun t c res i hc => ?_, fun r hr => ((EfOutcome.reachable hs).log r hr).2⟩
  · obtain ⟨t, hslot⟩ := htab.owner hi
    refine ⟨t, hslot, fun hidle => ?_, fun c res had hreturn => ?_⟩
    · rw [hidle] at hslot
      cases hslot
    · rw [hreturn] at hslot
      cases hslot
  · obtain ⟨m, s', hrun, hobj, hend⟩ := EfSys.claim_ends cfg.wordCount hc (Nat.le_add_left _ _)
    have htab' := EfTable.reachable (EfSys.reachable_run hs hrun)
    refine ⟨m, s', hrun, ?_⟩
    rw [← hobj]
    rcases hend with hfail | ⟨i, hslot⟩
    · exact Or.inl ⟨htab'.full_of_failed hfail rfl, hfail⟩
    · exact Or.inr ⟨htab'.room_of_claimed hslot, i, hslot⟩
  · have hknows := htab.knows t
    rw [hc] at hknows
    exact hknows.2 i rfl

/-- Two waiters for one slot: the second one is turned away. -/
theorem eventFlags_table_full :
    ∃ (cfg : EfConfig) (s : EfSys cfg), (efMachine cfg).Reachable s ∧ cfg.maxWaiters = 1 ∧
      s.log.map (fun r => r.res.code) = [.outOfResources] ∧
      (s.obj.guard = none → s.obj.waiterCount = slotCount s.obj.activeWaiterWords 1) := by
  let cfg : EfConfig := ⟨1, 8, by decide, 16, true⟩
  let schedule : List (EfAct cfg) :=
    EfAct.call 0 (.wait ⟨1, true, true, false, waitForever⟩) ::
        List.replicate 13 (EfAct.step 0 false) ++
      EfAct.call 1 (.wait ⟨2, true, true, false, 5⟩) :: List.replicate 5 (EfAct.step 1 false)
  have hview : ((efMachine cfg).run (EfSys.fresh cfg) schedule).map
      (fun s => s.log.map fun r => r.res.code) = some [.outOfResources] := by
    decide +kernel
  obtain ⟨s, hrun, hres⟩ := Option.map_eq_some_iff.mp hview
  have hs := Machine.Reachable.of_run hrun
  exact ⟨cfg, s, hs, rfl, hres, fun hfree => ((eventFlags_table hs).1 hfree).2⟩

end MicrOsal
