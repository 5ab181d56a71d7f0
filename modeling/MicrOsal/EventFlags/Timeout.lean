import MicrOsal.EventFlags.Outcome

/-!
# MicrOsal.EventFlags.Timeout

What a wait that fails reports, and whether its condition holds when it leaves.

A wait whose time is up takes the guard once more, to load the bits that it reports, and does not
look at its condition again. Under the guard only `set_isr` changes the flags.
-/

namespace MicrOsal

variable {cfg : EfConfig}

/-! ### Waits that have failed -/

/-- A wait that is going to fail and keeps the guard until it returns. -/
def EfThread.givenUp : EfThread cfg → Option (EfWait cfg)
  | .poll c | .timeoutLoad c _ => some c
  | .releasePending c _ res | .releaseInUse c _ res | .releaseMark c _ res | .releaseCount c _ res
  | .unlockReturn c res _ => if res.code = .ok then none else some c
  | _ => none

/-- A wait that has no time left, or finds no free slot, does not find its condition to hold then,
and no `set_isr` makes it hold while the wait goes on to return. -/
def UnmatchedWhenGivingUp (s : EfSys cfg) : EfAct cfg → Prop
  | .step t _ =>
    match s.threads t with
    | .timeoutLock c _ => c.matched s.obj.bits = false
    | .claim c word => cfg.wordCount ≤ word → c.matched s.obj.bits = false
    | .setOr bits true => ∀ u c, (s.threads u).givenUp = some c →
        c.matched (s.obj.bits ||| bits) = false
    | _ => True
  | _ => True

/-- A wait that timed out reports bits that do not satisfy it. -/
def ReportsUnmatched (c : EfWait cfg) (res : EfResult) : Prop :=
  res.code = .timeout → ∀ a, res.actual = some a → c.matched a = false

/-- The result of a wait that releases its slot or returns. -/
def EfThread.result : EfThread cfg → Option (EfWait cfg × EfResult)
  | .releasePending c _ res | .releaseInUse c _ res | .releaseMark c _ res | .releaseCount c _ res
  | .unlockReturn c res _ => some (c, res)
  | _ => none

/-- The invariant of the runs whose steps meet `UnmatchedWhenGivingUp`. -/
structure EfUnmatched (s : EfSys cfg) : Prop where
  givenUp : ∀ (t : Nat) (c : EfWait cfg), (s.threads t).givenUp = some c →
    c.matched s.obj.bits = false
  result : ∀ (t : Nat) (c : EfWait cfg) (res : EfResult), (s.threads t).result = some (c, res) →
    ReportsUnmatched c res
  log : ∀ r ∈ s.log, ReportsUnmatched r.call r.res

theorem reportsUnmatched_of_ne {c : EfWait cfg} {res : EfResult} (h : res.code ≠ .timeout) :
    ReportsUnmatched c res := fun hcode => absurd hcode h

theorem holdsGuard_of_givenUp {pc : EfThread cfg} {c : EfWait cfg} (h : pc.givenUp = some c) :
    pc.HoldsGuard := by
  cases pc <;> trivial

theorem givenUp_inScan {isr : Bool} {pc : EfThread cfg} (h : pc.InScan isr) :
    pc.givenUp = none ∧ pc.result = none := by
  cases h with
  | ended => cases isr <;> exact ⟨rfl, rfl⟩
  | word | slot => exact ⟨rfl, rfl⟩

theorem givenUp_satisfied (c : EfWait cfg) (phase : EfPhase cfg) (reported : EventBits) :
    (EfThread.satisfied c phase reported).givenUp = none ∧
      (EfThread.satisfied c phase reported).result = some (c, ⟨.ok, c.report reported⟩) := by
  cases phase <;> exact ⟨rfl, rfl⟩

section Footprint

variable {o o' : EmuEfObj cfg} {t clock : Nat} {timedOut : Bool} {pc pc' : EfThread cfg}

/-- What a wait knows of its condition, after a step of its own. -/
structure OwnUnmatched (o' : EmuEfObj cfg) (pc' : EfThread cfg) : Prop where
  givenUp : ∀ c, pc'.givenUp = some c → c.matched o'.bits = false
  result : ∀ c res, pc'.result = some (c, res) → ReportsUnmatched c res

theorem OwnUnmatched.of_none (h : pc'.givenUp = none ∧ pc'.result = none) :
    OwnUnmatched o' pc' := by
  refine ⟨fun c hc => ?_, fun c res hc => ?_⟩
  · rw [h.1] at hc
    cases hc
  · rw [h.2] at hc
    cases hc

/-- The wait has just found its condition not to hold, and fails. -/
theorem OwnUnmatched.of_unmatched {c : EfWait cfg} (hm : c.matched o'.bits = false)
    (hgiven : ∀ c', pc'.givenUp = some c' → c' = c)
    (hresult : ∀ c' res, pc'.result = some (c', res) → ReportsUnmatched c' res) :
    OwnUnmatched o' pc' := by
  refine ⟨fun c' hc' => ?_, hresult⟩
  rw [hgiven c' hc']
  exact hm

/-- A wait that goes on to return with the same result. -/
theorem OwnUnmatched.keep (hbits : o'.bits = o.bits) (hgiven : pc'.givenUp = pc.givenUp)
    (hresult : pc'.result = pc.result) (hself : ∀ c, pc.givenUp = some c → c.matched o.bits = false)
    (hres : ∀ c res, pc.result = some (c, res) → ReportsUnmatched c res) : OwnUnmatched o' pc' := by
  refine ⟨fun c hc => ?_, fun c res hc => hres c res (hresult ▸ hc)⟩
  rw [hbits]
  exact hself c (hgiven ▸ hc)

theorem next_unmatched (hs : o.next t clock timedOut pc = some (o', pc'))
    (hlock : ∀ c slot, pc = .timeoutLock c slot → c.matched o.bits = false)
    (hclaim : ∀ c word, pc = .claim c word → cfg.wordCount ≤ word → c.matched o.bits = false)
    (hself : ∀ c, pc.givenUp = some c → c.matched o.bits = false)
    (hres : ∀ c res, pc.result = some (c, res) → ReportsUnmatched c res) :
    OwnUnmatched o' pc' := by
  cases pc <;> simp only [EmuEfObj.next] at hs <;> repeat' split at hs
  all_goals cases hs
  case check.isFalse c phase hm =>
    cases phase with
    | quick =>
        simp only [EfThread.unmatched]
        split
        · exact .of_unmatched (Bool.eq_false_iff.mpr hm) (fun _ hc => (Option.some.inj hc).symm)
            (fun _ _ hc => by cases hc)
        · exact .of_none ⟨rfl, rfl⟩
    | _ => exact .of_none ⟨rfl, rfl⟩
  case consume.isTrue c phase reported _ =>
    obtain ⟨hgiven, hresult⟩ := givenUp_satisfied c phase reported
    refine ⟨fun c' hc => ?_, fun c' res hc => ?_⟩
    · rw [hgiven] at hc
      cases hc
    · rw [hresult] at hc
      obtain ⟨rfl, rfl⟩ := Prod.mk.inj (Option.some.inj hc)
      exact reportsUnmatched_of_ne (fun h => by cases h)
  case consume.isFalse c phase reported _ =>
    obtain ⟨hgiven, hresult⟩ := givenUp_satisfied c phase reported
    refine ⟨fun c' hc => ?_, fun c' res hc => ?_⟩
    · rw [hgiven] at hc
      cases hc
    · rw [hresult] at hc
      obtain ⟨rfl, rfl⟩ := Prod.mk.inj (Option.some.inj hc)
      exact reportsUnmatched_of_ne (fun h => by cases h)
  case poll c =>
    refine .of_unmatched (hself c rfl) (fun _ hc => (Option.some.inj hc).symm) (fun c' res hc => ?_)
    obtain ⟨rfl, rfl⟩ := Prod.mk.inj (Option.some.inj hc)
    exact reportsUnmatched_of_ne (fun h => by cases h)
  case claim.isFalse c word hword =>
    refine .of_unmatched (hclaim c word rfl (not_lt.mp hword))
      (fun _ hc => (Option.some.inj hc).symm) (fun c' res hc => ?_)
    obtain ⟨rfl, rfl⟩ := Prod.mk.inj (Option.some.inj hc)
    exact reportsUnmatched_of_ne (fun h => by cases h)
  case timeoutLock c slot _ =>
    exact .of_unmatched (hlock c slot rfl) (fun _ hc => (Option.some.inj hc).symm)
      (fun _ _ hc => by cases hc)
  case timeoutLoad c slot =>
    refine .of_unmatched (hself c rfl) (fun _ hc => (Option.some.inj hc).symm) (fun c' res hc => ?_)
    obtain ⟨rfl, rfl⟩ := Prod.mk.inj (Option.some.inj hc)
    intro _ a ha
    have hreport : c.report o.bits = some a := ha
    unfold EfWait.report at hreport
    split at hreport
    · obtain rfl := Option.some.inj hreport
      exact hself c rfl
    · cases hreport
  case releasePending | releaseInUse | releaseMark | releaseCount =>
    exact .keep rfl rfl rfl hself hres
  all_goals first
    | exact .of_none ⟨rfl, rfl⟩
    | exact .of_none (givenUp_inScan .ended)
    | exact .of_none (givenUp_inScan (EfThread.inScan_nextWord _ _ _))
    | exact .of_none (givenUp_inScan (EfThread.inScan_nextSlot _ _ _ _))

end Footprint

/-! ### Runs -/

namespace EfUnmatched

variable {s : EfSys cfg} {t : Nat} {timedOut : Bool} {o : EmuEfObj cfg} {pc : EfThread cfg}

/-- What the other waits have given up on still does not hold. -/
theorem other (htab : EfTable s.obj s.threads) (hok : UnmatchedWhenGivingUp s (.step t timedOut))
    (h : EfUnmatched s) {v : Nat} (hvt : v ≠ t)
    (hs : s.obj.next t s.clock timedOut (s.threads t) = some (o, pc)) {c : EfWait cfg}
    (hc : (s.threads v).givenUp = some c) : c.matched o.bits = false := by
  have hout : ¬ (s.threads t).HoldsGuard :=
    fun ht => hvt (htab.holder_unique (holdsGuard_of_givenUp hc) ht)
  rcases next_bits_out hs hout with hbits | ⟨bits, hpc, hbits⟩
  · rw [hbits]
    exact h.givenUp v c hc
  · rw [hbits]
    simp only [UnmatchedWhenGivingUp, hpc] at hok
    exact hok v c hc

/-- A step of a thread. -/
theorem next (htab : EfTable s.obj s.threads) (hok : UnmatchedWhenGivingUp s (.step t timedOut))
    (h : EfUnmatched s) (hs : s.obj.next t s.clock timedOut (s.threads t) = some (o, pc)) :
    EfUnmatched { s with
      obj := o
      threads := Function.update s.threads t pc
      changed := Function.update s.changed t (s.changed t ||| (s.obj.bits ^^^ o.bits))
      log := ((s.threads t).returns t (s.changed t)).toList ++ s.log } := by
  have hown : OwnUnmatched o pc := by
    refine next_unmatched hs (fun c slot hpc => ?_) (fun c word hpc => ?_) (h.givenUp t)
      (h.result t)
    · simp only [UnmatchedWhenGivingUp, hpc] at hok
      exact hok
    · simp only [UnmatchedWhenGivingUp, hpc] at hok
      exact hok
  refine ⟨fun v c hc => ?_, fun v c res hc => ?_, fun r hr => ?_⟩
  · by_cases hvt : v = t
    · subst hvt
      simp only [Function.update_self] at hc
      exact hown.givenUp c hc
    · simp only [Function.update_of_ne hvt] at hc
      exact other htab hok h hvt hs hc
  · by_cases hvt : v = t
    · subst hvt
      simp only [Function.update_self] at hc
      exact hown.result c res hc
    · simp only [Function.update_of_ne hvt] at hc
      exact h.result v c res hc
  · rcases List.mem_append.mp hr with hnew | hold
    · have hresult := h.result t
      cases hc : s.threads t with
      | unlockReturn c res had =>
          rw [hc] at hnew hresult
          obtain rfl := List.mem_singleton.mp hnew
          exact hresult c res rfl
      | _ =>
          rw [hc] at hnew
          cases hnew
    · exact h.log r hold

theorem begins (h : EfUnmatched s) (op : EfOp cfg) :
    EfUnmatched { s with
      threads := Function.update s.threads t op.entry
      changed := Function.update s.changed t 0 } := by
  have hentry : op.entry.givenUp = none ∧ op.entry.result = none := by
    cases op with
    | setIsr bits =>
        simp only [EfOp.entry]
        split <;> exact ⟨rfl, rfl⟩
    | _ => exact ⟨rfl, rfl⟩
  refine ⟨fun v c hc => ?_, fun v c res hc => ?_, h.log⟩
  · by_cases hvt : v = t
    · subst hvt
      simp only [Function.update_self, hentry.1] at hc
      cases hc
    · simp only [Function.update_of_ne hvt] at hc
      exact h.givenUp v c hc
  · by_cases hvt : v = t
    · subst hvt
      simp only [Function.update_self, hentry.2] at hc
      cases hc
    · simp only [Function.update_of_ne hvt] at hc
      exact h.result v c res hc

theorem fresh : EfUnmatched (EfSys.fresh cfg) := by
  refine ⟨fun t c hc => ?_, fun t c res hc => ?_, fun r hr => ?_⟩
  · cases hc
  · cases hc
  · cases hr

theorem reachable (hs : (efMachine cfg).ReachableBy UnmatchedWhenGivingUp s) : EfUnmatched s := by
  refine Machine.ReachableBy.invariant fresh ?_ hs
  intro s a s' hr h hok hstep
  obtain ⟨t, op, -, -, rfl⟩ | ⟨t, timedOut, o, pc, rfl, hnext, rfl⟩ | ⟨n, -, rfl⟩ :=
    EfSys.step_cases hstep
  · exact h.begins op
  · exact h.next (EfTable.reachable hr.reachable) hok hnext
  · exact ⟨h.givenUp, h.result, h.log⟩

end EfUnmatched

/-- In every run in which no wait finds its condition to hold when it gives up, and no `set_isr`
makes it hold while the wait keeps the guard to return: a wait whose condition holds when it leaves
the guard for the last time returns ok, and a wait that timed out reported bits that do not
satisfy it. -/
theorem eventFlags_timeout_honest {s : EfSys cfg}
    (hs : (efMachine cfg).ReachableBy UnmatchedWhenGivingUp s) :
    (∀ (t : Nat) (c : EfWait cfg) (res : EfResult) (had : Option Nat),
      s.threads t = .unlockReturn c res had → c.matched s.obj.bits = true → res.code = .ok) ∧
    ∀ r ∈ s.log, r.res.code = .timeout → ∀ a, r.res.actual = some a → r.call.matched a = false := by
  have h := EfUnmatched.reachable hs
  refine ⟨fun t c res had hpc hm => ?_, h.log⟩
  by_contra hcode
  have hgiven : (s.threads t).givenUp = some c := by
    rw [hpc]
    exact if_neg hcode
  rw [h.givenUp t c hgiven] at hm
  cases hm

/-- The step can be seen not to break `UnmatchedWhenGivingUp`: no `set_isr`, and no wait whose
condition holds when it gives up. -/
def QuietGivingUp (s : EfSys cfg) : EfAct cfg → Bool
  | .step t _ =>
    match s.threads t with
    | .timeoutLock c _ | .claim c _ => !c.matched s.obj.bits
    | .setOr _ isr => !isr
    | _ => true
  | _ => true

theorem unmatched_of_quiet {s : EfSys cfg} {a : EfAct cfg} (h : QuietGivingUp s a = true) :
    UnmatchedWhenGivingUp s a := by
  cases a with
  | step t timedOut =>
      simp only [QuietGivingUp, UnmatchedWhenGivingUp] at h ⊢
      cases hpc : s.threads t with
      | timeoutLock c slot =>
          rw [hpc] at h
          simpa using h
      | claim c word =>
          rw [hpc] at h
          exact fun _ => by simpa using h
      | setOr bits isr =>
          rw [hpc] at h
          cases isr with
          | true => cases h
          | false => trivial
      | _ => trivial
  | _ => trivial

/-- Thread 0 has waited for five ticks, has looked at the clock, and is about to take the guard. -/
def expiredWait (cfg : EfConfig) (c : EfWait cfg) : List (EfAct cfg) :=
  EfAct.call 0 (.wait c) :: List.replicate 13 (EfAct.step 0 false) ++
    EfAct.tick 5 :: EfAct.step 0 true :: List.replicate 6 (EfAct.step 0 false)

/-- The bit is not set, and the wait times out. -/
theorem eventFlags_timeout_honest_unset :
    ∃ (cfg : EfConfig) (s : EfSys cfg) (r : EfReturn cfg),
      (efMachine cfg).ReachableBy UnmatchedWhenGivingUp s ∧ r ∈ s.log ∧
        r.res = ⟨.timeout, some 0⟩ ∧ r.call.matched 0 = false := by
  let cfg : EfConfig := ⟨8, 64, by decide, 32, true⟩
  let schedule : List (EfAct cfg) :=
    expiredWait cfg ⟨1, true, true, false, 5⟩ ++ List.replicate 7 (EfAct.step 0 false)
  have hquiet : (efMachine cfg).RunOk (fun s a => QuietGivingUp s a = true) (EfSys.fresh cfg)
      schedule := by decide +kernel
  have hview : ((efMachine cfg).run (EfSys.fresh cfg) schedule).map
      (fun s => s.log.map EfReturn.res) = some [⟨.timeout, some 0⟩] := by
    decide +kernel
  obtain ⟨s, hrun, hres⟩ := Option.map_eq_some_iff.mp hview
  have hs := Machine.ReachableBy.of_run .init (hquiet.mono fun _ _ => unmatched_of_quiet) hrun
  obtain ⟨r, rest, hlog, hr, -⟩ := List.map_eq_cons_iff.mp hres
  have hmem : r ∈ s.log := by
    rw [hlog]
    exact List.mem_cons_self ..
  refine ⟨cfg, s, r, hs, hmem, hr, ?_⟩
  exact (eventFlags_timeout_honest hs).2 r hmem (by rw [hr]) 0 (by rw [hr])

/-- A `set` comes between the last look at the clock and the guard: the wait reports the bit that
it waits for, and fails. -/
theorem eventFlags_timeout_set :
    ∃ (cfg : EfConfig) (s : EfSys cfg) (r : EfReturn cfg), (efMachine cfg).Reachable s ∧
      r ∈ s.log ∧ r.res.code = .timeout ∧
        ¬ ∀ a, r.res.actual = some a → r.call.matched a = false := by
  let cfg : EfConfig := ⟨8, 64, by decide, 32, true⟩
  let schedule : List (EfAct cfg) :=
    expiredWait cfg ⟨1, true, true, false, 5⟩ ++
      EfAct.call 1 (.set 1) :: List.replicate 9 (EfAct.step 1 false) ++
        List.replicate 7 (EfAct.step 0 false)
  have hview : ((efMachine cfg).run (EfSys.fresh cfg) schedule).map
      (fun s => s.log.map fun r => (r.res, r.call.matched 1)) =
        some [(⟨.timeout, some 1⟩, true)] := by
    decide +kernel
  obtain ⟨s, hrun, hres⟩ := Option.map_eq_some_iff.mp hview
  obtain ⟨r, rest, hlog, hr, -⟩ := List.map_eq_cons_iff.mp hres
  obtain ⟨hr, hm⟩ := Prod.mk.inj hr
  refine ⟨cfg, s, r, Machine.Reachable.of_run hrun, ?_, by rw [hr], fun hall => ?_⟩
  · rw [hlog]
    exact List.mem_cons_self ..
  · rw [hall 1 (by rw [hr])] at hm
    cases hm

end MicrOsal
