import MicrOsal.Condvar.Slots

/-!
# MicrOsal.Condvar.Tokens

The slot and token invariant over whole runs: every step of the condition
variable keeps `CvInv`. A token always belongs to the wait that now owns the
slot or to a slot nobody owns, a registered wait is visible to every notify, and
`osal_condvar_wait` returns with the user mutex held.
-/

namespace MicrOsal

section Step

variable {s s' : CvState} {n : Nat} {a : CvAct}

theorem target_eq_some {cv : EmuCondvar} {k : Nat} {w : CvWaiter}
    (h : cv.target = some (k, w)) : cv.waiters[k]? = some w ∧ w.waiting = true ∧
      ∀ j w', j < k → cv.waiters[j]? = some w' → w'.waiting = false := by
  rw [EmuCondvar.target] at h
  split at h
  · cases h
  · obtain ⟨j, hj, h⟩ := Option.bind_eq_some_iff.mp h
    obtain ⟨w', hw', heq⟩ := Option.map_eq_some_iff.mp h
    cases heq
    obtain ⟨_, hwait, hbefore⟩ := List.findIdx?_eq_some_iff_getElem.mp hj
    obtain ⟨_, hget⟩ := List.getElem?_eq_some_iff.mp hw'
    refine ⟨hw', hget ▸ hwait, ?_⟩
    intro i w'' hi hw''
    obtain ⟨_, hget'⟩ := List.getElem?_eq_some_iff.mp hw''
    have := hbefore i hi
    rw [hget'] at this
    simpa using this

/-- `notify_one` finds nobody only when nobody is waiting. -/
theorem target_eq_none {cv : EmuCondvar} (hcount : cv.nWaiters = cv.waiters.countP (·.inUse))
    (h : cv.target = none) : ∀ w ∈ cv.waiters, w.waiting = false := by
  intro w hw
  rw [EmuCondvar.target] at h
  split at h
  · next hzero =>
    have huse := List.countP_eq_zero.mp (hcount.symm.trans hzero) w hw
    simp only [CvWaiter.waiting, Bool.and_eq_false_iff]
    exact .inl (by simpa using huse)
  · rcases Option.bind_eq_none_iff.mp h with hnone
    cases hfind : cv.waiters.findIdx? CvWaiter.waiting with
    | none =>
        have := List.findIdx?_eq_none_iff.mp hfind w hw
        simpa using this
    | some j =>
        obtain ⟨hlt, -, -⟩ := List.findIdx?_eq_some_iff_getElem.mp hfind
        have := hnone j hfind
        rw [List.getElem?_eq_getElem hlt] at this
        cases this

theorem CvInv.notifyOne (hi : CvInv s) (hs : s.notifyOne = some s') : CvInv s' := by
  rw [CvState.notifyOne] at hs
  split at hs
  · cases hs
  · split at hs
    · cases hs
      exact hi.with_notices _
    · next k w htarget =>
      cases hs
      obtain ⟨hw, hwait, -⟩ := target_eq_some htarget
      exact (hi.signal hw hwait).with_notices _

theorem CvInv.advance {choice : Bool} (hi : CvInv s) (hs : s.advance n choice = some s') :
    CvInv s' := by
  have hstage := hi.stage n
  have hmutex : ∀ m, m ≠ n → s.mutex = some n → s.mutex = some m →
      ∀ x : Option Nat, x = some m := by
    intro m hm h h'
    rw [h] at h'
    exact absurd (Option.some.inj h').symm hm
  rw [CvState.advance] at hs
  cases hth : s.threads n with
  | idle =>
      rw [hth] at hs
      cases hs
  | enter =>
      simp only [hth] at hs
      split at hs
      · cases hs
      · next hfree =>
        cases hs
        have hnone : s.mutex = none := by simpa using hfree
        refine hi.thread hth .check (some n) s.released rfl (fun m _ h => ?_) rfl
        rw [hnone] at h
        cases h
  | check =>
      simp only [hth] at hs hstage
      cases hs
      refine hi.thread hth _ s.mutex s.released ?_ (fun _ _ h => h) ?_
      · split <;> rfl
      · split <;> exact hstage
  | eval caller again =>
      simp only [hth] at hs hstage
      split at hs
      · cases hs
        refine hi.thread hth _ s.mutex s.released ?_ (fun _ _ h => h) ?_
        · split <;> rfl
        · split
          · exact hstage
          · trivial
      · cases hs
        exact hi.thread hth (.register ⟨false, caller⟩) s.mutex _ rfl (fun _ _ h => h) hstage
  | finish =>
      simp only [hth] at hs hstage
      cases hs
      exact hi.thread hth .idle none s.released rfl (fun m hm h => hmutex m hm hstage h _) trivial
  | register c =>
      simp only [hth] at hs hstage
      split at hs
      · cases hs
      · next hguard =>
        split at hs
        · cases hs
          refine hi.thread hth c.caller.resume s.mutex s.released ?_ (fun _ _ h => h) ?_
          · cases c.caller <;> rfl
          · cases c.caller with
            | direct => trivial
            | predicate => exact hstage
            | notification => exact hstage
        · next k cv hclaim =>
          cases hs
          exact hi.claim hth (by simpa using hguard) hclaim
  | unlock c k t =>
      simp only [hth] at hs hstage
      cases hs
      exact hi.thread hth (.take c k t) none _ rfl (fun m hm h => hmutex m hm hstage.1 h _)
        hstage.2
  | take c k t =>
      simp only [hth] at hs
      obtain ⟨w, hw, hs⟩ := Option.bind_eq_some_iff.mp hs
      split at hs
      · next hsem =>
        cases hs
        exact hi.take_token hth hw hsem
      · split at hs
        · cases hs
          exact hi.time_out hth
        · cases hs
  | relock c k t r =>
      simp only [hth] at hs hstage
      split at hs
      · cases hs
      · next hfree =>
        cases hs
        have hnone : s.mutex = none := by simpa using hfree
        refine hi.thread hth (.leave c k t r) (some n) s.released rfl (fun m _ h => ?_)
          ⟨rfl, hstage⟩
        rw [hnone] at h
        cases h
  | leave c k t r =>
      simp only [hth] at hs
      obtain ⟨w, hw, hs⟩ := Option.bind_eq_some_iff.mp hs
      split at hs
      · cases hs
      · next hguard =>
        cases hs
        exact hi.free hth hw (by simpa using hguard)
  | notifyAll k =>
      simp only [hth] at hs hstage
      have hguard : ∀ m, m ≠ n → s.cv.guard ≠ some m := by
        intro m hm h
        rw [hstage.1] at h
        exact hm (Option.some.inj h).symm
      split at hs
      · cases hs
        exact hi.scan hth .idle none rfl rfl hguard trivial
      · next w hw =>
        split at hs
        · next hwait =>
          cases hs
          have hsignal := hi.signal hw hwait
          refine hsignal.thread hth (.notifyAll (k + 1)) s.mutex s.released rfl (fun _ _ h => h)
            ⟨hstage.1, ?_⟩
          intro j w' hj hw' huse
          rcases getElem?_set_cases hw' with ⟨-, rfl⟩ | ⟨hne, hw'⟩
          · rfl
          · exact hstage.2 j w' (by omega) hw' huse
        · next hwait =>
          cases hs
          refine hi.thread hth (.notifyAll (k + 1)) s.mutex s.released rfl (fun _ _ h => h)
            ⟨hstage.1, ?_⟩
          intro j w' hj hw' huse
          by_cases hjk : j = k
          · subst hjk
            obtain rfl : w = w' := Option.some.inj (hw.symm.trans hw')
            simpa [CvWaiter.waiting, huse] using hwait
          · exact hstage.2 j w' (by omega) hw' huse

theorem CvInv.next (hi : CvInv s) (hs : s.next a = some s') : CvInv s' := by
  cases a with
  | lock n =>
      simp only [CvState.next] at hs
      split at hs
      · next h =>
        cases hs
        have := hi.thread h.1 .idle (some n) s.released rfl
          (fun m _ hm => by rw [h.2] at hm; cases hm) trivial
        rwa [← h.1, Function.update_eq_self] at this
      · cases hs
  | unlock n =>
      simp only [CvState.next] at hs
      split at hs
      · next h =>
        cases hs
        have := hi.thread h.1 .idle none s.released rfl
          (fun m hm hm' => by rw [h.2] at hm'; exact absurd (Option.some.inj hm').symm hm) trivial
        rwa [← h.1, Function.update_eq_self] at this
      · cases hs
  | wait n timed =>
      simp only [CvState.next] at hs
      split at hs
      · next h =>
        cases hs
        exact hi.thread h.1 (.register ⟨timed, .direct⟩) s.mutex s.released rfl (fun _ _ h => h) h.2
      · cases hs
  | waitPredicate n =>
      simp only [CvState.next] at hs
      split at hs
      · next h =>
        cases hs
        exact hi.thread h.1 (.eval .predicate false) s.mutex s.released rfl (fun _ _ h => h) h.2
      · cases hs
  | notificationWait n =>
      simp only [CvState.next] at hs
      split at hs
      · next h =>
        cases hs
        exact hi.thread h.1 .enter s.mutex s.released rfl (fun _ _ h => h) trivial
      · cases hs
  | notifyOne n =>
      simp only [CvState.next] at hs
      split at hs
      · exact hi.notifyOne hs
      · cases hs
  | notifyAll n =>
      simp only [CvState.next] at hs
      split at hs
      · next h =>
        split at hs
        · cases hs
          exact hi
        · cases hs
          refine hi.scan h.1 (.notifyAll 0) (some n) rfl rfl (fun m _ hm => ?_)
            ⟨rfl, fun j _ hj => absurd hj (by omega)⟩
          rw [h.2] at hm
          cases hm
      · cases hs
  | step n choice => exact hi.advance hs

end Step

theorem CvInv.fresh (maxWaiters : Nat) : CvInv (.fresh maxWaiters) := by
  have hget : ∀ (k : Nat) w, (CvState.fresh maxWaiters).cv.waiters[k]? = some w →
      w = ⟨false, false, false, 0⟩ := by
    intro k w hw
    exact (List.mem_replicate.mp (List.mem_of_getElem? hw)).2
  refine ⟨?_, ?_, nofun, ?_, nofun, fun _ => trivial, nofun, nofun, ?_, nofun⟩
  · simp [CvState.fresh, EmuCondvar.create, List.countP_replicate]
  · intro k w hw hsem
    rw [hget k w hw] at hsem
    cases hsem
  · intro k w hw huse
    rw [hget k w hw] at huse
    cases huse
  · rintro t (h | h | ⟨r, h⟩) <;> cases h

theorem CvInv.reachable {maxWaiters : Nat} {s : CvState}
    (hr : (condvarMachine maxWaiters).Reachable s) : CvInv s :=
  Machine.Reachable.invariant (CvInv.fresh maxWaiters) (fun _ _ _ _ hi hs => hi.next hs) hr

/-! ### Returning from a wait -/

section Return

variable {s s' : CvState} {n m : Nat} {a : CvAct}

theorem setThread_ne (hm : m ≠ n) (th : CvThread) : (s.setThread n th).threads m = s.threads m :=
  Function.update_of_ne hm _ _

/-- A step moves the thread that takes it only. -/
theorem advance_threads {choice : Bool} (hs : s.advance n choice = some s') (hm : m ≠ n) :
    s'.threads m = s.threads m := by
  rw [CvState.advance] at hs
  cases hth : s.threads n with
  | idle =>
      rw [hth] at hs
      cases hs
  | take c k t =>
      simp only [hth] at hs
      obtain ⟨w, -, hs⟩ := Option.bind_eq_some_iff.mp hs
      split at hs
      · cases hs
        exact setThread_ne hm _
      · split at hs
        · cases hs
          exact setThread_ne hm _
        · cases hs
  | leave c k t r =>
      simp only [hth] at hs
      obtain ⟨w, -, hs⟩ := Option.bind_eq_some_iff.mp hs
      split at hs
      · cases hs
      · cases hs
        exact setThread_ne hm _
  | _ =>
      simp only [hth] at hs
      repeat' split at hs
      all_goals cases hs
      all_goals exact setThread_ne hm _

theorem notifyOne_threads (hs : s.notifyOne = some s') : s'.threads = s.threads := by
  rw [CvState.notifyOne] at hs
  split at hs
  · cases hs
  · split at hs <;> cases hs <;> rfl

/-- The thread that acts. -/
def CvAct.thread : CvAct → Nat
  | .lock n => n
  | .unlock n => n
  | .wait n _ => n
  | .waitPredicate n => n
  | .notificationWait n => n
  | .notifyOne n => n
  | .notifyAll n => n
  | .step n _ => n

/-- A step moves nobody but the thread that acts. -/
theorem next_other (hs : s.next a = some s') (hm : m ≠ a.thread) : s'.threads m = s.threads m := by
  cases a with
  | step n choice => exact advance_threads hs hm
  | notifyOne n =>
      simp only [CvState.next] at hs
      split at hs
      · exact congrFun (notifyOne_threads hs) m
      · cases hs
  | _ =>
      simp only [CvState.next] at hs
      repeat' split at hs
      all_goals cases hs
      all_goals first | rfl | exact setThread_ne hm _

/-- A thread that moves was idle or takes a step of its own. -/
theorem next_threads (hs : s.next a = some s') (m : Nat) :
    s'.threads m = s.threads m ∨ s.threads m = .idle ∨ ∃ choice, a = .step m choice := by
  by_cases hm : m = a.thread
  · subst hm
    cases a with
    | step n choice => exact .inr (.inr ⟨choice, rfl⟩)
    | notifyOne n =>
        simp only [CvState.next] at hs
        split at hs
        · exact .inl (congrFun (notifyOne_threads hs) n)
        · cases hs
    | lock n | unlock n =>
        simp only [CvState.next] at hs
        split at hs <;> cases hs
        exact .inl rfl
    | _ n =>
        simp only [CvState.next] at hs
        split at hs
        · next h => exact .inr (.inl h.1)
        · cases hs
  · exact .inl (next_other hs hm)

/-- Every path out of `osal_condvar_wait` ends with the user mutex held. -/
theorem CvInv.mutex_of_return (hi : CvInv s) (hs : s.next a = some s')
    (hin : (s.threads m).inWait = true) (hout : (s'.threads m).inWait = false) :
    s'.mutex = some m := by
  rcases next_threads hs m with hsame | hidle | ⟨choice, rfl⟩
  · rw [hsame, hin] at hout
    cases hout
  · rw [hidle] at hin
    cases hin
  · have hstage := hi.stage m
    simp only [CvState.next, CvState.advance] at hs
    cases hth : s.threads m with
    | register c =>
        simp only [hth] at hs hstage
        split at hs
        · cases hs
        · split at hs
          · cases hs
            exact hstage
          · cases hs
            simp [CvState.setThread, CvThread.inWait] at hout
    | unlock c k t =>
        simp only [hth] at hs
        cases hs
        simp [CvState.setThread, CvThread.inWait] at hout
    | take c k t =>
        simp only [hth] at hs
        obtain ⟨w, -, hs⟩ := Option.bind_eq_some_iff.mp hs
        split at hs
        · cases hs
          simp [CvState.setThread, CvThread.inWait] at hout
        · split at hs
          · cases hs
            simp [CvState.setThread, CvThread.inWait] at hout
          · cases hs
    | relock c k t r =>
        simp only [hth] at hs
        split at hs
        · cases hs
        · cases hs
          simp [CvState.setThread, CvThread.inWait] at hout
    | leave c k t r =>
        simp only [hth] at hs hstage
        obtain ⟨w, -, hs⟩ := Option.bind_eq_some_iff.mp hs
        split at hs
        · cases hs
        · cases hs
          exact hstage.1
    | _ =>
        rw [hth] at hin
        cases hin

end Return

/-! ### What a registered wait can rely on -/

section Registered

variable {s s' : CvState} {m k t : Nat}

/-- A registered wait that was signalled and has not yet taken its token finds it
in its semaphore. -/
theorem CvInv.token_of_notified (hi : CvInv s) (hreg : (s.threads m).registered = some (k, t))
    (htaken : (s.threads m).taken = none) (hnot : t ∈ s.notified) :
    ∃ w, s.cv.waiters[k]? = some w ∧ w.sem = true := by
  obtain ⟨w, hw, huse, rfl⟩ := hi.slot m k t hreg
  have hsig := (hi.owner k w hw huse).2.mpr hnot
  have hstage := hi.stage m
  refine ⟨w, hw, ?_⟩
  cases hth : s.threads m with
  | unlock c k' t' =>
      rw [hth] at hreg hstage
      cases hreg
      exact hstage.2.2 w hw hsig
  | take c k' t' =>
      rw [hth] at hreg hstage
      cases hreg
      exact hstage.2 w hw hsig
  | relock c k' t' r =>
      rw [hth] at htaken
      cases htaken
  | leave c k' t' r =>
      rw [hth] at htaken
      cases htaken
  | _ =>
      rw [hth] at hreg
      cases hreg

/-- `notify_one` signals a registered wait, or one in an earlier slot. -/
theorem CvInv.notifyOne_selects (hi : CvInv s) (hreg : (s.threads m).registered = some (k, t))
    (hnot : t ∉ s.notified) (hs : s.notifyOne = some s') :
    ∃ j w, j ≤ k ∧ s.cv.waiters[j]? = some w ∧ w.waiting = true ∧
      s'.notified = w.ticket :: s.notified := by
  obtain ⟨w, hw, huse, rfl⟩ := hi.slot m k t hreg
  have hwait : w.waiting = true := by
    simp only [CvWaiter.waiting, huse, Bool.true_and, Bool.not_eq_true']
    exact Bool.eq_false_iff.mpr (fun hsig => hnot ((hi.owner k w hw huse).2.mp hsig))
  rw [CvState.notifyOne] at hs
  split at hs
  · cases hs
  · split at hs
    · next hnone =>
      have := target_eq_none hi.count hnone w (List.mem_of_getElem? hw)
      rw [hwait] at this
      cases this
    · next j w' htarget =>
      cases hs
      obtain ⟨hw', hwait', hbefore⟩ := target_eq_some htarget
      refine ⟨j, w', ?_, hw', hwait', rfl⟩
      by_contra hlt
      have := hbefore k w (by omega) hw
      rw [hwait] at this
      cases this

/-- At the end of `notify_all` every registered wait has been signalled. -/
theorem CvInv.notifyAll_complete {n j : Nat} (hi : CvInv s) (hth : s.threads n = .notifyAll j)
    (hend : s.cv.waiters[j]? = none) (hreg : (s.threads m).registered = some (k, t)) :
    t ∈ s.notified := by
  obtain ⟨w, hw, huse, rfl⟩ := hi.slot m k t hreg
  obtain ⟨-, hscan⟩ : CvStage s n (.notifyAll j) := hth ▸ hi.stage n
  obtain ⟨hlt, -⟩ := List.getElem?_eq_some_iff.mp hw
  have hj : k < j := lt_of_lt_of_le hlt (List.getElem?_eq_none_iff.mp hend)
  exact (hi.owner k w hw huse).2.mp (hscan k w hj hw huse)

end Registered

/-- The slot and token invariant of the emulated condition variable, in every
reachable state: the counter is the number of slots in use; tokens lie in
signalled or free slots only; a wait that returned ok was signalled after it
registered; `notify_all` leaves no registered wait unsignalled (and returns at
once only when nobody is registered); a registered wait is seen by every notify
and its token waits for it; and `osal_condvar_wait` returns with the user mutex
held. -/
theorem condvar_slots_and_tokens {maxWaiters : Nat} {s : CvState}
    (hr : (condvarMachine maxWaiters).Reachable s) :
    s.cv.nWaiters = s.cv.waiters.countP (·.inUse) ∧
    (∀ w ∈ s.cv.waiters, w.sem = true → w.signalled = true ∨ w.inUse = false) ∧
    (∀ t, (t, ErrorCode.ok) ∈ s.returned → t ∈ s.notified) ∧
    (∀ n j m k t, s.threads n = .notifyAll j → s.cv.waiters[j]? = none →
      (s.threads m).registered = some (k, t) → t ∈ s.notified) ∧
    (s.cv.nWaiters = 0 → ∀ m, (s.threads m).registered = none) ∧
    (∀ m k t, (s.threads m).registered = some (k, t) →
      (∃ w, s.cv.waiters[k]? = some w ∧ w.inUse = true ∧ w.ticket = t) ∧
      (t ∈ s.notified → (s.threads m).taken = none →
        ∃ w, s.cv.waiters[k]? = some w ∧ w.sem = true) ∧
      (t ∉ s.notified → ∀ s', s.notifyOne = some s' →
        ∃ j w, j ≤ k ∧ s.cv.waiters[j]? = some w ∧ w.waiting = true ∧
          s'.notified = w.ticket :: s.notified)) ∧
    (∀ a s' m, s.next a = some s' → (s.threads m).inWait = true → (s'.threads m).inWait = false →
      s'.mutex = some m) := by
  have hi := CvInv.reachable hr
  refine ⟨hi.count, ?_, ?_, ?_, ?_, ?_, ?_⟩
  · intro w hw hsem
    obtain ⟨k, hk⟩ := List.mem_iff_getElem?.mp hw
    exact .inl (hi.token k w hk hsem)
  · intro t ht
    rcases hi.result t .ok ht with ⟨-, h⟩ | ⟨h, -⟩
    · exact h
    · cases h
  · intro n j m k t hth hend hreg
    exact hi.notifyAll_complete hth hend hreg
  · intro hzero m
    cases hreg : (s.threads m).registered with
    | none => rfl
    | some kt =>
        obtain ⟨w, hw, huse, -⟩ := hi.slot m kt.1 kt.2 hreg
        have := List.countP_eq_zero.mp (hi.count.symm.trans hzero) w (List.mem_of_getElem? hw)
        exact absurd huse this
  · intro m k t hreg
    exact ⟨hi.slot m k t hreg, fun hnot htaken => hi.token_of_notified hreg htaken hnot,
      fun hnot s' hs => hi.notifyOne_selects hreg hnot hs⟩
  · intro a s' m hs hin hout
    exact hi.mutex_of_return hs hin hout

/-- One slot, used twice: the first wait times out and is signalled all the same,
the second one registers over its token and is not woken by it. -/
theorem condvar_slots_and_tokens_stale :
    ∃ s, (condvarMachine 1).Reachable s ∧ s.returned = [(0, .timeout)] ∧ s.notified = [0] ∧
      (s.cv.waiters.map (·.sem)) = [false] ∧
      s.cv.nWaiters = s.cv.waiters.countP (·.inUse) := by
  let schedule : List CvAct :=
    [.lock 0, .wait 0 true, .step 0 true, .step 0 true, .step 0 true, .notifyOne 1, .step 0 true,
      .step 0 true, .wait 0 true, .step 0 true, .step 0 true]
  have hview : ((condvarMachine 1).run (.fresh 1) schedule).map
      (fun s => (s.returned, s.notified, s.cv.waiters.map (·.sem))) =
        some ([(0, .timeout)], [0], [false]) := by
    decide +kernel
  obtain ⟨s, hrun, hres⟩ := Option.map_eq_some_iff.mp hview
  have hr := Machine.Reachable.of_run hrun
  simp only [Prod.mk.injEq] at hres
  exact ⟨s, hr, hres.1, hres.2.1, hres.2.2, (condvar_slots_and_tokens hr).1⟩

end MicrOsal
