import MicrOsal.Barrier.Model
import MicrOsal.Condvar.Notify

/-!
# MicrOsal.Barrier.Rounds

The rounds of the emulated barrier. `arrived` counts the calls that are blocked in
the current generation, and a generation is made of exactly `threshold` calls, as
long as no wait on the condition variable finds the waiter table full. The error
exit of `osal_barrier_wait` does not take its arrival back, so a call that failed
stands in for one that never came.

`BarStage` says what the place of a thread implies and `BarCount` counts the calls
of each round. That a call of a completed generation is not left blocked
(`BarWoken`) comes from the slots and tokens of the condition variable.
-/

namespace MicrOsal

/-! ### The condition variable below -/

section Condvar

variable {s s' : CvState} {a : CvAct} {n m k t : Nat}

/-- The user mutex is given up by its owner only. -/
theorem CvInv.mutex_other (hi : CvInv s) (hs : s.next a = some s') (hm : m ≠ a.thread)
    (hmutex : s.mutex = some m) : s'.mutex = some m := by
  have howner : ∀ n, s.mutex = some n → m = n := by
    intro n hn
    rw [hmutex] at hn
    exact Option.some.inj hn
  cases a with
  | step n choice =>
      have hstage := hi.stage n
      simp only [CvState.next, CvState.advance] at hs
      cases hth : s.threads n with
      | enter =>
          simp only [hth, hmutex] at hs
          cases hs
      | relock c k t r =>
          simp only [hth, hmutex] at hs
          cases hs
      | finish =>
          rw [hth] at hstage
          exact absurd (howner n hstage) hm
      | unlock c k t =>
          rw [hth] at hstage
          exact absurd (howner n hstage.1) hm
      | take c k t =>
          simp only [hth] at hs
          obtain ⟨w, -, hs⟩ := Option.bind_eq_some_iff.mp hs
          repeat' split at hs
          all_goals cases hs
          all_goals exact hmutex
      | leave c k t r =>
          simp only [hth] at hs
          obtain ⟨w, -, hs⟩ := Option.bind_eq_some_iff.mp hs
          split at hs
          all_goals cases hs
          all_goals exact hmutex
      | _ =>
          simp only [hth] at hs
          repeat' split at hs
          all_goals cases hs
          all_goals exact hmutex
  | lock n =>
      simp [CvState.next, hmutex] at hs
  | unlock n =>
      simp only [CvState.next] at hs
      split at hs
      · next h => exact absurd (howner n h.2) hm
      · cases hs
  | notifyOne n =>
      simp only [CvState.next, CvState.notifyOne] at hs
      repeat' split at hs
      all_goals cases hs
      all_goals exact hmutex
  | _ =>
      simp only [CvState.next] at hs
      repeat' split at hs
      all_goals cases hs
      all_goals exact hmutex

/-- A wait that does not give up does not time out. -/
theorem advance_timedOut (hs : s.advance n false = some s') : s'.timedOut = s.timedOut := by
  rw [CvState.advance] at hs
  cases hth : s.threads n with
  | take c k t =>
      simp only [hth, Bool.and_false] at hs
      obtain ⟨w, -, hs⟩ := Option.bind_eq_some_iff.mp hs
      split at hs
      · cases hs
        rfl
      · cases hs
  | leave c k t r =>
      simp only [hth] at hs
      obtain ⟨w, -, hs⟩ := Option.bind_eq_some_iff.mp hs
      split at hs <;> cases hs
      rfl
  | _ =>
      simp only [hth] at hs
      repeat' split at hs
      all_goals cases hs
      all_goals rfl

/-- The user mutex has not been unlocked yet. -/
def CvThread.entering : CvThread → Bool
  | .register _ => true
  | .unlock _ _ _ => true
  | _ => false

/-- The thread is in an `osal_condvar_wait` it has called directly. -/
def CvThread.directWait : CvThread → Bool
  | .register c => c.caller == .direct
  | .unlock c _ _ => c.caller == .direct
  | .take c _ _ => c.caller == .direct
  | .relock c _ _ _ => c.caller == .direct
  | .leave c _ _ _ => c.caller == .direct
  | _ => false

/-- What a step inside `osal_condvar_wait` leads to: the wait goes on, fails for
want of a slot, or returns what it has taken. -/
theorem wait_step (hin : (s.threads n).directWait = true) (hs : s.advance n false = some s') :
    (s.waitResult n = none ∧ (s'.threads n).directWait = true ∧
        ((s'.threads n).entering = true → (s.threads n).entering = true) ∧
        ((s.threads n).registered = (s'.threads n).registered ∨
          (s.threads n).entering = true ∧ (s'.threads n).entering = true)) ∨
      (∃ c, s.threads n = .register c ∧ s.cv.claim s.nextTicket = none ∧
        s.waitResult n = some .outOfResources) ∨
      (∃ c k t r, s.threads n = .leave c k t r ∧ s.waitResult n = some r ∧
        s'.threads n = .idle ∧ s'.mutex = s.mutex) := by
  rw [CvState.advance] at hs
  unfold CvState.waitResult
  cases hth : s.threads n with
  | register c =>
      simp only [hth] at hs
      split at hs
      · cases hs
      · split at hs
        · next hnone =>
          cases hs
          exact .inr (.inl ⟨c, rfl, hnone, by simp only [hnone, if_true]⟩)
        · next k cv hclaim =>
          cases hs
          refine .inl ⟨?_, ?_, ?_, ?_⟩
          · simp only [hclaim, reduceCtorEq, if_false]
          · rw [hth] at hin
            simpa [CvState.setThread, CvThread.directWait] using hin
          · exact fun _ => rfl
          · refine .inr ⟨rfl, ?_⟩
            simp [CvState.setThread, CvThread.entering]
  | unlock c k t =>
      simp only [hth] at hs
      cases hs
      refine .inl ⟨rfl, ?_, ?_, ?_⟩
      · rw [hth] at hin
        simpa [CvState.setThread, CvThread.directWait] using hin
      · exact fun _ => rfl
      · refine .inl ?_
        simp [CvState.setThread, CvThread.registered]
  | take c k t =>
      simp only [hth, Bool.and_false] at hs
      obtain ⟨w, -, hs⟩ := Option.bind_eq_some_iff.mp hs
      split at hs
      · cases hs
        refine .inl ⟨rfl, ?_, ?_, ?_⟩
        · rw [hth] at hin
          simpa [CvState.setThread, CvThread.directWait] using hin
        · simp [CvState.setThread, CvThread.entering]
        · refine .inl ?_
          simp [CvState.setThread, CvThread.registered]
      · cases hs
  | relock c k t r =>
      simp only [hth] at hs
      split at hs
      · cases hs
      · cases hs
        refine .inl ⟨rfl, ?_, ?_, ?_⟩
        · rw [hth] at hin
          simpa [CvState.setThread, CvThread.directWait] using hin
        · simp [CvState.setThread, CvThread.entering]
        · refine .inl ?_
          simp [CvState.setThread, CvThread.registered]
  | leave c k t r =>
      simp only [hth] at hs
      obtain ⟨w, -, hs⟩ := Option.bind_eq_some_iff.mp hs
      split at hs
      · cases hs
      · cases hs
        rw [hth] at hin
        have hdirect : c.caller = .direct := by simpa [CvThread.directWait] using hin
        refine .inr (.inr ⟨c, k, t, r, rfl, rfl, ?_, rfl⟩)
        rw [hdirect]
        exact Function.update_self _ _ _
  | _ =>
      rw [hth] at hin
      cases hin

/-- A step of `osal_condvar_notify_all`: a registered wait the scan has still to come
to is signalled, or the scan has still to come to it. -/
theorem CvInv.notifyAll_step (hi : CvInv s)
    (hat : s.threads n = .idle ∨ ∃ j, s.threads n = .notifyAll j)
    (hs : s.next (s.notifyAllAct n) = some s') :
    s'.mutex = s.mutex ∧ s'.timedOut = s.timedOut ∧
      (s'.threads n = .idle ∨ ∃ j, s'.threads n = .notifyAll j) ∧
      ∀ m k t, (s.threads m).registered = some (k, t) →
        (s.threads n = .idle ∨ ∃ j ≤ k, s.threads n = .notifyAll j) →
        t ∈ s'.notified ∨ ∃ j ≤ k, s'.threads n = .notifyAll j := by
  rcases hat with hidle | ⟨j, hj⟩
  · simp only [CvState.notifyAllAct, hidle, if_true, CvState.next] at hs
    split at hs
    · split at hs
      · next hzero =>
        cases hs
        refine ⟨rfl, rfl, .inl hidle, ?_⟩
        intro m k t hreg _
        -- The caller found no waiters, so nobody is registered.
        obtain ⟨w, hw, huse, -⟩ := hi.slot m k t hreg
        have hpos : 0 < s.cv.waiters.countP (·.inUse) :=
          List.countP_pos_iff.mpr ⟨w, List.mem_of_getElem? hw, huse⟩
        rw [← hi.count, hzero] at hpos
        exact absurd hpos (Nat.lt_irrefl 0)
      · cases hs
        refine ⟨rfl, rfl, .inr ⟨0, Function.update_self _ _ _⟩, ?_⟩
        exact fun m k t _ _ => .inr ⟨0, Nat.zero_le k, Function.update_self _ _ _⟩
    · cases hs
  · have hne : s.threads n ≠ .idle := by simp [hj]
    rw [CvState.notifyAllAct, if_neg hne] at hs
    simp only [CvState.next, CvState.advance, hj] at hs
    have hpos : ∀ k, (s.threads n = .idle ∨ ∃ i ≤ k, s.threads n = .notifyAll i) → j ≤ k := by
      rintro k (h | ⟨i, hi, h⟩)
      · exact absurd h hne
      · rw [hj] at h
        cases h
        exact hi
    split at hs
    · next hend =>
      cases hs
      refine ⟨rfl, rfl, .inl (Function.update_self _ _ _), ?_⟩
      intro m k t hreg hk
      obtain ⟨w, hw, -⟩ := hi.slot m k t hreg
      have hlt := (List.getElem?_eq_some_iff.mp hw).1
      exact absurd (hpos k hk) (by have := List.getElem?_eq_none_iff.mp hend; omega)
    · next w hw =>
      -- The scan goes to the next slot; slot `j` is signalled, or was before.
      have hdone : ∀ m t, (s.threads m).registered = some (j, t) →
          w.ticket = t ∧ (w.waiting = true ∨ t ∈ s.notified) := by
        intro m t hreg
        obtain ⟨w', hw', huse, rfl⟩ := hi.slot m j t hreg
        rw [hw] at hw'
        cases hw'
        refine ⟨rfl, ?_⟩
        cases hsig : w.signalled with
        | true => exact .inr ((hi.owner j w hw huse).2.mp hsig)
        | false => exact .inl (by simp [CvWaiter.waiting, huse, hsig])
      split at hs
      · cases hs
        refine ⟨rfl, rfl, .inr ⟨j + 1, Function.update_self _ _ _⟩, ?_⟩
        intro m k t hreg hk
        rcases Nat.eq_or_lt_of_le (hpos k hk) with rfl | hlt
        · obtain ⟨rfl, -⟩ := hdone m t hreg
          exact .inl List.mem_cons_self
        · exact .inr ⟨j + 1, hlt, Function.update_self _ _ _⟩
      · next hwait =>
        cases hs
        refine ⟨rfl, rfl, .inr ⟨j + 1, Function.update_self _ _ _⟩, ?_⟩
        intro m k t hreg hk
        rcases Nat.eq_or_lt_of_le (hpos k hk) with rfl | hlt
        · obtain ⟨-, h⟩ := hdone m t hreg
          exact .inl (h.resolve_left hwait)
        · exact .inr ⟨j + 1, hlt, Function.update_self _ _ _⟩

end Condvar

/-! ### Rounds -/

namespace BarThread

/-- The thread has arrived in round `g` and is blocked. -/
def blockedIn (g : Nat) : BarThread → Bool
  | .loop call => call.round == g
  | .waiting call => call.round == g
  | _ => false

/-- The call arrived in round `g` and has not returned; it is to return ok. -/
def okIn (g : Nat) : BarThread → Bool
  | .loop call => call.round == g
  | .waiting call => call.round == g
  | .finish call r => r == .ok && call.round == g
  | _ => false

/-- The call completed round `g` and has not returned. -/
def serialIn (g : Nat) : BarThread → Bool
  | .notify call => call.round == g
  | .finish call r => r == .barrierSerial && call.round == g
  | _ => false

end BarThread

namespace BarState

/-- The `osal_condvar_notify_all` of a thread that completed a generation has still
to look at slot `k`. -/
def NotifyPending (s : BarState) (k : Nat) : Prop :=
  ∃ n call, s.threads[n]? = some (.notify call) ∧
    (s.cv.threads n = .idle ∨ ∃ j ≤ k, s.cv.threads n = .notifyAll j)

/-- `arrived` counts the blocked calls of the current generation. A completed
generation is made of one call that returns `barrier_serial` and `threshold - 1`
calls that return ok, so of no call that returns an error; each of them has
returned or is on its way, and none has returned from a generation that is not
complete. -/
structure RoundsExact (s : BarState) : Prop where
  arrived : s.arrived = s.threads.countP (·.blockedIn s.round)
  arrived_lt : s.arrived < s.threshold
  serial : ∀ g < s.round,
    s.returned.count (g, .barrierSerial) + s.threads.countP (·.serialIn g) = 1
  ok : ∀ g < s.round,
    s.returned.count (g, .ok) + s.threads.countP (·.okIn g) = s.threshold - 1
  complete : ∀ g r, (g, r) ∈ s.returned → r = .ok ∨ r = .barrierSerial → g < s.round
  /-- A call that waits for a generation that is over has its token, or will be
  given one. -/
  woken : ∀ n call c k t, s.threads[n]? = some (.waiting call) → s.cv.threads n = .take c k t →
    call.generation ≠ s.generation →
    (∃ w, s.cv.cv.waiters[k]? = some w ∧ w.sem = true) ∨ s.NotifyPending k

/-- A thread that is about to register on the condition variable finds a free
slot. -/
def SlotForWait (s : BarState) : BarAct → Prop
  | .wait _ => True
  | .step n => (s.cv.threads n).inWait = true → (s.cv.threads n).registered = none →
      ∃ w ∈ s.cv.cv.waiters, w.inUse = false

instance (s : BarState) (a : BarAct) : Decidable (s.SlotForWait a) :=
  match a with
  | .wait _ => .isTrue trivial
  | .step n =>
      inferInstanceAs (Decidable ((s.cv.threads n).inWait = true →
        (s.cv.threads n).registered = none → ∃ w ∈ s.cv.cv.waiters, w.inUse = false))

end BarState

/-! ### Counting -/

/-- The calls of each round, in terms of the threads that have not returned. -/
structure BarCount (s : BarState) : Prop where
  arrived_lt : s.arrived < s.threshold
  serial : ∀ g, s.returned.count (g, .barrierSerial) + s.threads.countP (·.serialIn g) =
    if g < s.round then 1 else 0
  ok : ∀ g, s.returned.count (g, .ok) + s.threads.countP (·.okIn g) =
    if g < s.round then s.threshold - 1 else if g = s.round then s.arrived else 0

section Count

variable {s : BarState} {n : Nat} {th th' : BarThread} {cv : CvState} {call : BarCall}
  {r : ErrorCode}

/-- A thread moves on in its call. -/
theorem BarCount.move (h : BarCount s) (hth : s.threads[n]? = some th)
    (hserial : ∀ g, th'.serialIn g = th.serialIn g) (hok : ∀ g, th'.okIn g = th.okIn g) :
    BarCount (s.move n cv th') := by
  refine ⟨h.arrived_lt, ?_, ?_⟩
  · intro g
    have hset := countP_set (b := th') (·.serialIn g) hth
    simp only [hserial] at hset
    refine Eq.trans ?_ (h.serial g)
    simp only [BarState.move]
    omega
  · intro g
    have hset := countP_set (b := th') (·.okIn g) hth
    simp only [hok] at hset
    refine Eq.trans ?_ (h.ok g)
    simp only [BarState.move]
    omega

/-- A call returns. -/
theorem BarCount.finish (h : BarCount s) (hth : s.threads[n]? = some (.finish call r)) :
    BarCount { s.move n cv .idle with returned := (call.round, r) :: s.returned } := by
  refine ⟨h.arrived_lt, ?_, ?_⟩
  · intro g
    have hset : (s.threads.set n .idle).countP (·.serialIn g) +
        (if (r == .barrierSerial && call.round == g) = true then 1 else 0) =
          s.threads.countP (·.serialIn g) + 0 := countP_set (·.serialIn g) hth
    refine Eq.trans ?_ (h.serial g)
    simp only [BarState.move, List.count_cons, beq_iff_eq, Prod.mk.injEq, Bool.and_eq_true,
      and_comm] at hset ⊢
    omega
  · intro g
    have hset : (s.threads.set n .idle).countP (·.okIn g) +
        (if (r == .ok && call.round == g) = true then 1 else 0) =
          s.threads.countP (·.okIn g) + 0 := countP_set (·.okIn g) hth
    refine Eq.trans ?_ (h.ok g)
    simp only [BarState.move, List.count_cons, beq_iff_eq, Prod.mk.injEq, Bool.and_eq_true,
      and_comm] at hset ⊢
    omega

/-- A call arrives. -/
theorem BarCount.arrive (h : BarCount s) (hbound : s.threshold < unsignedModulus)
    (hth : s.threads[n]? = some .idle) : BarCount (s.arrive n cv) := by
  have hlt := h.arrived_lt
  have hmod : (s.arrived + 1) % unsignedModulus = s.arrived + 1 := Nat.mod_eq_of_lt (by omega)
  unfold BarState.arrive
  simp only [hmod]
  split
  · next hlast =>
    refine ⟨by simp only; omega, ?_, ?_⟩
    · intro g
      have hset : (s.threads.set n (.notify ⟨s.generation, s.round⟩)).countP (·.serialIn g) + 0 =
          s.threads.countP (·.serialIn g) + (if (s.round == g) = true then 1 else 0) :=
        countP_set (·.serialIn g) hth
      have hg := h.serial g
      simp only [beq_iff_eq] at hset ⊢
      grind
    · intro g
      have hset : (s.threads.set n (.notify ⟨s.generation, s.round⟩)).countP (·.okIn g) + 0 =
          s.threads.countP (·.okIn g) + 0 :=
        countP_set (·.okIn g) hth
      have hg := h.ok g
      simp only at hset ⊢
      grind
  · next hlast =>
    refine ⟨by simp only; omega, ?_, ?_⟩
    · intro g
      have hset : (s.threads.set n (.loop ⟨s.generation, s.round⟩)).countP (·.serialIn g) + 0 =
          s.threads.countP (·.serialIn g) + 0 :=
        countP_set (·.serialIn g) hth
      refine Eq.trans ?_ (h.serial g)
      simp only
      omega
    · intro g
      have hset : (s.threads.set n (.loop ⟨s.generation, s.round⟩)).countP (·.okIn g) + 0 =
          s.threads.countP (·.okIn g) + (if (s.round == g) = true then 1 else 0) :=
        countP_set (·.okIn g) hth
      have hg := h.ok g
      simp only [beq_iff_eq] at hset ⊢
      grind

end Count

/-! ### Places -/

/-- The local `generation` of the call is the number of a generation that has
begun. -/
def BarCall.Fits (call : BarCall) (s : BarState) : Prop :=
  call.generation = call.round % unsignedModulus ∧ call.round ≤ s.round

/-- What the place of thread `n` implies. -/
def BarStage (s : BarState) (n : Nat) : BarThread → Prop
  | .idle => True
  | .loop call => s.cv.threads n = .idle ∧ s.cv.mutex = some n ∧ call.Fits s
  | .waiting call => (s.cv.threads n).directWait = true ∧ call.Fits s ∧
      ((s.cv.threads n).entering = true → call.generation = s.generation)
  | .notify call => s.cv.mutex = some n ∧ call.round < s.round ∧
      (s.cv.threads n = .idle ∨ ∃ k, s.cv.threads n = .notifyAll k)
  | .finish call r => s.cv.mutex = some n ∧ call.round < s.round ∧
      (r = .ok ∨ r = .barrierSerial)

/-- The threads, the condition variable and the counts agree. -/
structure BarInv (s : BarState) : Prop where
  cv : CvInv s.cv
  timedOut : s.cv.timedOut = []
  bound : s.threshold < unsignedModulus
  generation : s.generation = s.round % unsignedModulus
  stage : ∀ n th, s.threads[n]? = some th → BarStage s n th
  complete : ∀ g r, (g, r) ∈ s.returned → g < s.round
  count : BarCount s

/-- Calls of a generation that is over are signalled, or will be. -/
def BarWoken (s : BarState) : Prop :=
  ∀ n call k t, s.threads[n]? = some (.waiting call) →
    (s.cv.threads n).registered = some (k, t) →
    t ∈ s.cv.notified ∨ call.generation = s.generation ∨ s.NotifyPending k

section Places

variable {s s' : BarState} {n m : Nat} {th th' : BarThread} {cv : CvState} {a : CvAct}

/-- The mutex is held while a wait has not unlocked it. -/
theorem CvInv.mutex_of_entering {c : CvState} (hi : CvInv c)
    (h : (c.threads m).entering = true) : c.mutex = some m := by
  have hstage := hi.stage m
  cases hth : c.threads m with
  | register w =>
      rw [hth] at hstage
      exact hstage
  | unlock w k t =>
      rw [hth] at hstage
      exact hstage.1
  | _ =>
      rw [hth] at h
      cases h

/-- A step of another thread leaves what thread `m` relies on alone. -/
theorem BarStage.frame (hi : BarInv s) (h : BarStage s m th)
    (hth : s'.cv.threads m = s.cv.threads m)
    (hmutex : s.cv.mutex = some m → s'.cv.mutex = some m ∧ s'.generation = s.generation)
    (hround : s.round ≤ s'.round) : BarStage s' m th := by
  cases th with
  | idle => trivial
  | loop call =>
      obtain ⟨hidle, hm, hgen, hle⟩ := h
      exact ⟨hth.trans hidle, (hmutex hm).1, hgen, hle.trans hround⟩
  | waiting call =>
      obtain ⟨hin, ⟨hgen, hle⟩, hsame⟩ := h
      rw [← hth] at hin
      refine ⟨hin, ⟨hgen, hle.trans hround⟩, ?_⟩
      intro hent
      rw [hth] at hent
      rw [(hmutex (hi.cv.mutex_of_entering hent)).2]
      exact hsame hent
  | notify call =>
      obtain ⟨hm, hlt, hat⟩ := h
      rw [← hth] at hat
      exact ⟨(hmutex hm).1, Nat.lt_of_lt_of_le hlt hround, hat⟩
  | finish call r =>
      obtain ⟨hm, hlt, hr⟩ := h
      exact ⟨(hmutex hm).1, Nat.lt_of_lt_of_le hlt hround, hr⟩

/-- A step of thread `n` inside a generation. -/
theorem BarInv.move (hi : BarInv s) (hth : s.threads[n]? = some th)
    (hcv : CvInv cv) (htime : cv.timedOut = s.cv.timedOut)
    (hother : ∀ m, m ≠ n → cv.threads m = s.cv.threads m)
    (hmutex : ∀ m, m ≠ n → s.cv.mutex = some m → cv.mutex = some m)
    (hstage : BarStage (s.move n cv th') n th')
    (hserial : ∀ g, th'.serialIn g = th.serialIn g) (hok : ∀ g, th'.okIn g = th.okIn g) :
    BarInv (s.move n cv th') where
  cv := hcv
  timedOut := htime.trans hi.timedOut
  bound := hi.bound
  generation := hi.generation
  complete := hi.complete
  count := hi.count.move hth hserial hok
  stage := by
    intro m x hm
    rcases getElem?_set_cases hm with ⟨rfl, rfl⟩ | ⟨hne, hm⟩
    · exact hstage
    · exact (hi.stage m x hm).frame hi (hother m hne)
        (fun h => ⟨hmutex m hne h, rfl⟩) le_rfl

/-- A step of thread `n` inside a generation, with the condition variable. -/
theorem BarInv.move_next (hi : BarInv s) (hth : s.threads[n]? = some th)
    (hs : s.cv.next a = some cv) (hn : a.thread = n) (htime : cv.timedOut = s.cv.timedOut)
    (hstage : BarStage (s.move n cv th') n th')
    (hserial : ∀ g, th'.serialIn g = th.serialIn g) (hok : ∀ g, th'.okIn g = th.okIn g) :
    BarInv (s.move n cv th') := by
  subst hn
  exact hi.move hth (hi.cv.next hs) htime (fun m hm => next_other hs hm)
    (fun m hm h => hi.cv.mutex_other hs hm h) hstage hserial hok

theorem BarInv.arrive (hi : BarInv s) (hth : s.threads[n]? = some .idle)
    (hs : s.cv.next (.lock n) = some cv) : BarInv (s.arrive n cv) := by
  have hcount : BarCount (s.arrive n cv) := hi.count.arrive hi.bound hth
  have hcv := hi.cv.next hs
  simp only [CvState.next] at hs
  split at hs
  · next hfree =>
    cases hs
    have hmutex : ∀ m, s.cv.mutex ≠ some m := by simp [hfree.2]
    unfold BarState.arrive at hcount ⊢
    simp only at hcount ⊢
    split
    · next hlast =>
      rw [if_pos hlast] at hcount
      refine ⟨hcv, hi.timedOut, hi.bound, ?_, ?_, ?_, hcount⟩
      · simp only [hi.generation, Nat.mod_add_mod]
      · intro m x hm
        rcases getElem?_set_cases hm with ⟨rfl, rfl⟩ | ⟨-, hm⟩
        · exact ⟨rfl, Nat.lt_succ_self _, .inl hfree.1⟩
        · exact (hi.stage m x hm).frame hi rfl (fun h => absurd h (hmutex m)) (Nat.le_succ _)
      · intro g r hmem
        exact Nat.lt_succ_of_lt (hi.complete g r hmem)
    · next hlast =>
      rw [if_neg hlast] at hcount
      refine ⟨hcv, hi.timedOut, hi.bound, hi.generation, ?_, hi.complete, hcount⟩
      intro m x hm
      rcases getElem?_set_cases hm with ⟨rfl, rfl⟩ | ⟨-, hm⟩
      · exact ⟨hfree.1, rfl, hi.generation, le_rfl⟩
      · exact (hi.stage m x hm).frame hi rfl (fun h => absurd h (hmutex m)) le_rfl
  · cases hs

theorem BarInv.finish {call : BarCall} {r : ErrorCode} (hi : BarInv s)
    (hth : s.threads[n]? = some (.finish call r)) (hs : s.cv.next (.unlock n) = some cv) :
    BarInv { s.move n cv .idle with returned := (call.round, r) :: s.returned } := by
  obtain ⟨-, hlt, -⟩ := hi.stage n _ hth
  have hcv := hi.cv.next hs
  refine ⟨hcv, ?_, hi.bound, hi.generation, ?_, ?_, hi.count.finish hth⟩
  · simp only [CvState.next] at hs
    split at hs <;> cases hs
    exact hi.timedOut
  · intro m x hm
    rcases getElem?_set_cases hm with ⟨rfl, rfl⟩ | ⟨hne, hm⟩
    · trivial
    · exact (hi.stage m x hm).frame hi (next_other hs hne)
        (fun h => ⟨hi.cv.mutex_other hs hne h, rfl⟩) le_rfl
  · intro g r' hmem
    rcases List.mem_cons.mp hmem with heq | hmem
    · cases heq
      exact hlt
    · exact hi.complete g r' hmem

/-- A wait without a timeout that returns from a registered slot returns ok. -/
theorem BarInv.leave_ok {c : CvWait} {k t : Nat} {r : ErrorCode} (hi : BarInv s)
    (hth : s.cv.threads n = .leave c k t r) : r = .ok := by
  have hstage := hi.cv.stage n
  rw [hth] at hstage
  rcases hstage.2 with ⟨hr, -⟩ | ⟨-, htime⟩
  · exact hr
  · rw [hi.timedOut] at htime
    cases htime

theorem BarInv.advance (hi : BarInv s) (hok : s.SlotForWait (.step n))
    (hth : s.threads[n]? = some th) (hs : s.advance n th = some s') : BarInv s' := by
  have hstage := hi.stage n th hth
  cases th with
  | idle => cases hs
  | loop call =>
      obtain ⟨hidle, hmutex, hfits⟩ := hstage
      simp only [BarState.advance] at hs
      split at hs
      · next hgen =>
        obtain ⟨cv, hcv, rfl⟩ := Option.map_eq_some_iff.mp hs
        refine hi.move_next hth hcv rfl ?_ ?_ (fun _ => rfl) (fun _ => rfl)
        · simp only [CvState.next] at hcv
          split at hcv <;> cases hcv
          rfl
        · simp only [CvState.next] at hcv
          split at hcv <;> cases hcv
          refine ⟨?_, hfits, fun _ => hgen⟩
          simp [BarState.move, CvState.setThread, CvThread.directWait]
      · next hgen =>
        cases hs
        refine hi.move hth hi.cv rfl (fun _ _ => rfl) (fun _ _ h => h) ?_ (fun _ => rfl)
          (fun _ => rfl)
        refine ⟨hmutex, Nat.lt_of_le_of_ne hfits.2 ?_, .inl rfl⟩
        intro (hround : call.round = s.round)
        exact hgen (by rw [hfits.1, hround, hi.generation])
  | waiting call =>
      obtain ⟨hin, hfits, hent⟩ := hstage
      obtain ⟨cv, hcv, rfl⟩ := Option.map_eq_some_iff.mp hs
      have htime := advance_timedOut hcv
      rcases wait_step hin hcv with ⟨hres, hin', hent', -⟩ | ⟨c, hreg, hfull, -⟩ |
        ⟨c, k, t, r, hleave, hres, hidle, hmutex⟩
      · rw [hres]
        exact hi.move_next hth hcv rfl htime ⟨hin', hfits, fun h => hent (hent' h)⟩ (fun _ => rfl)
          (fun _ => rfl)
      · obtain ⟨w, hw, hfree⟩ := hok (by rw [hreg]; rfl) (by rw [hreg]; rfl)
        have huse := EmuCondvar.claim_eq_none hfull w hw
        rw [hfree] at huse
        cases huse
      · obtain rfl := hi.leave_ok hleave
        rw [hres]
        have hstage' := hi.cv.stage n
        rw [hleave] at hstage'
        exact hi.move_next hth hcv rfl htime ⟨hidle, hmutex.trans hstage'.1, hfits⟩ (fun _ => rfl)
          (fun _ => rfl)
  | notify call =>
      obtain ⟨hmutex, hlt, hat⟩ := hstage
      obtain ⟨cv, hcv, rfl⟩ := Option.map_eq_some_iff.mp hs
      obtain ⟨hmutex', htime, hat', -⟩ := hi.cv.notifyAll_step hat hcv
      have hn : (s.cv.notifyAllAct n).thread = n := by
        unfold CvState.notifyAllAct
        split <;> rfl
      split
      · exact hi.move_next hth hcv hn htime ⟨hmutex'.trans hmutex, hlt, .inr rfl⟩ (fun _ => rfl)
          (fun _ => rfl)
      · exact hi.move_next hth hcv hn htime ⟨hmutex'.trans hmutex, hlt, hat'⟩ (fun _ => rfl)
          (fun _ => rfl)
  | finish call r =>
      obtain ⟨cv, hcv, rfl⟩ := Option.map_eq_some_iff.mp hs
      exact hi.finish hth hcv

theorem BarInv.next {a : BarAct} (hi : BarInv s) (hok : s.SlotForWait a)
    (hs : s.next a = some s') : BarInv s' := by
  cases a with
  | wait n =>
      simp only [BarState.next] at hs
      split at hs
      · next hth =>
        obtain ⟨cv, hcv, rfl⟩ := Option.map_eq_some_iff.mp hs
        exact hi.arrive hth hcv
      · cases hs
  | step n =>
      obtain ⟨th, hth, hs⟩ := Option.bind_eq_some_iff.mp hs
      exact hi.advance hok hth hs

theorem BarInv.create {threshold : Nat} (maxWaiters numThreads : Nat) (hpos : 0 < threshold)
    (hbound : threshold < unsignedModulus) :
    BarInv (.create threshold maxWaiters numThreads) := by
  refine ⟨.fresh maxWaiters, rfl, hbound, rfl, ?_, nofun, hpos, ?_, ?_⟩
  · intro n th hth
    cases List.eq_of_mem_replicate (List.mem_of_getElem? hth)
    trivial
  · intro g
    simp [BarState.create, List.countP_replicate, BarThread.serialIn]
  · intro g
    have hnone : (List.replicate numThreads BarThread.idle).countP (·.okIn g) = 0 := by
      simp [List.countP_replicate, BarThread.okIn]
    change 0 + _ = if g < 0 then _ else if g = 0 then 0 else 0
    rw [if_neg (Nat.not_lt_zero g), ite_self, Nat.zero_add]
    exact hnone

end Places

/-! ### Waking -/

section Waking

variable {s s' : BarState} {n k : Nat} {th th' : BarThread}

/-- A thread that does not notify takes a step. -/
theorem BarState.NotifyPending.other (h : s.NotifyPending k) (hth : s.threads[n]? = some th)
    (hno : ∀ call, th ≠ .notify call) (hthreads : s'.threads = s.threads.set n th')
    (hother : ∀ m, m ≠ n → s'.cv.threads m = s.cv.threads m) : s'.NotifyPending k := by
  obtain ⟨m, call, hm, hat⟩ := h
  have hne : m ≠ n := by
    rintro rfl
    rw [hm] at hth
    exact hno call (Option.some.inj hth).symm
  refine ⟨m, call, ?_, ?_⟩
  · rw [hthreads, List.getElem?_set_ne (Ne.symm hne)]
    exact hm
  · rw [hother m hne]
    exact hat

/-- Thread `n` takes a step inside a generation. -/
theorem BarWoken.move (h : BarWoken s) (hthreads : s'.threads = s.threads.set n th')
    (hother : ∀ m, m ≠ n → s'.cv.threads m = s.cv.threads m)
    (hgen : s'.generation = s.generation) (hnotified : ∀ t ∈ s.cv.notified, t ∈ s'.cv.notified)
    (hpending : ∀ m k t, (s.cv.threads m).registered = some (k, t) → s.NotifyPending k →
      t ∈ s'.cv.notified ∨ s'.NotifyPending k)
    (hself : ∀ call k t, th' = .waiting call → (s'.cv.threads n).registered = some (k, t) →
      (s.threads[n]? = some (.waiting call) ∧ (s.cv.threads n).registered = some (k, t)) ∨
        call.generation = s'.generation) : BarWoken s' := by
  intro m call k t hm hreg
  have hold : s.threads[m]? = some (.waiting call) → (s.cv.threads m).registered = some (k, t) →
      t ∈ s'.cv.notified ∨ call.generation = s'.generation ∨ s'.NotifyPending k := by
    intro hm hreg
    rcases h m call k t hm hreg with hn | hg | hp
    · exact .inl (hnotified t hn)
    · exact .inr (.inl (hg.trans hgen.symm))
    · exact (hpending m k t hreg hp).imp_right .inr
  rw [hthreads] at hm
  rcases getElem?_set_cases hm with ⟨rfl, heq⟩ | ⟨hne, hm⟩
  · rcases hself call k t heq.symm hreg with ⟨hm, hreg⟩ | hg
    · exact hold hm hreg
    · exact .inr (.inl hg)
  · exact hold hm (by rw [← hother m hne]; exact hreg)

theorem BarWoken.advance (hi : BarInv s) (h : BarWoken s) (hth : s.threads[n]? = some th)
    (hs : s.advance n th = some s') : BarWoken s' := by
  have hstage := hi.stage n th hth
  cases th with
  | idle => cases hs
  | loop call =>
      simp only [BarState.advance] at hs
      split at hs
      · next hgen =>
        obtain ⟨cv, hcv, rfl⟩ := Option.map_eq_some_iff.mp hs
        have hother : ∀ m, m ≠ n → cv.threads m = s.cv.threads m :=
          fun m hm => next_other hcv hm
        refine h.move rfl hother rfl (CvProgress.next hcv).notified
          (fun m k t _ hp => .inr (hp.other hth nofun rfl hother)) ?_
        intro call' k t heq _
        cases heq
        exact .inr hgen
      · cases hs
        refine h.move rfl (fun _ _ => rfl) rfl (fun _ ht => ht)
          (fun m k t _ hp => .inr (hp.other hth nofun rfl (fun _ _ => rfl))) nofun
  | waiting call =>
      obtain ⟨hin, -, hent⟩ := hstage
      obtain ⟨cv, hcv, rfl⟩ := Option.map_eq_some_iff.mp hs
      have hother : ∀ m, m ≠ n → cv.threads m = s.cv.threads m := fun m hm => next_other hcv hm
      have hkeep : ∀ th', BarThread.waiting call = th' ∨ (∀ call, th' ≠ .waiting call) →
          (BarThread.waiting call = th' → s.cv.waitResult n = none) →
          BarWoken (s.move n cv th') := by
        intro th' hth' hnone
        refine h.move rfl hother rfl (CvProgress.next hcv).notified
          (fun m k t _ hp => .inr (hp.other hth nofun rfl hother)) ?_
        intro call' k t heq hreg
        rcases hth' with rfl | hno
        · cases heq
          rcases wait_step hin hcv with ⟨-, -, hent', hreg' | ⟨hent₀, -⟩⟩ | ⟨c, -, -, hres⟩ |
            ⟨c, k, t, r, -, hres, -⟩
          · exact .inl ⟨hth, hreg'.trans hreg⟩
          · exact .inr (hent hent₀)
          · rw [hnone rfl] at hres
            cases hres
          · rw [hnone rfl] at hres
            cases hres
        · exact absurd heq (hno call')
      split
      · next hnone => exact hkeep _ (.inl rfl) (fun _ => hnone)
      · exact hkeep _ (.inr nofun) nofun
      · exact hkeep _ (.inr nofun) nofun
  | notify call =>
      obtain ⟨-, -, hat⟩ := hstage
      obtain ⟨cv, hcv, rfl⟩ := Option.map_eq_some_iff.mp hs
      obtain ⟨-, -, -, hscan⟩ := hi.cv.notifyAll_step hat hcv
      have hn : (s.cv.notifyAllAct n).thread = n := by
        unfold CvState.notifyAllAct
        split <;> rfl
      have hother : ∀ m, m ≠ n → cv.threads m = s.cv.threads m :=
        fun m hm => next_other hcv (by rw [hn]; exact hm)
      refine h.move rfl hother rfl (CvProgress.next hcv).notified ?_ ?_
      · rintro m k t hreg ⟨m', call', hm', hat'⟩
        by_cases hmn : m' = n
        · subst hmn
          refine (hscan m k t hreg hat').imp_right ?_
          rintro ⟨j, hj, hcvj⟩
          refine ⟨m', call, ?_, .inr ⟨j, hj, hcvj⟩⟩
          rw [if_neg (by rw [hcvj]; exact nofun)]
          exact List.getElem?_set_self (List.getElem?_eq_some_iff.mp hth).1
        · refine .inr ⟨m', call', ?_, ?_⟩
          · exact (List.getElem?_set_ne (Ne.symm hmn)).trans hm'
          · simp only [BarState.move, hother m' hmn]
            exact hat'
      · intro call' k t heq
        split at heq <;> cases heq
  | finish call r =>
      obtain ⟨cv, hcv, rfl⟩ := Option.map_eq_some_iff.mp hs
      have hother : ∀ m, m ≠ n → cv.threads m = s.cv.threads m := fun m hm => next_other hcv hm
      exact h.move rfl hother rfl (CvProgress.next hcv).notified
        (fun m k t _ hp => .inr (hp.other hth nofun rfl hother)) nofun

theorem BarWoken.next {a : BarAct} (hi : BarInv s) (h : BarWoken s) (hs : s.next a = some s') :
    BarWoken s' := by
  cases a with
  | step n =>
      obtain ⟨th, hth, hs⟩ := Option.bind_eq_some_iff.mp hs
      exact h.advance hi hth hs
  | wait n =>
      simp only [BarState.next] at hs
      split at hs
      · next hth =>
        obtain ⟨cv, hcv, rfl⟩ := Option.map_eq_some_iff.mp hs
        have hother : ∀ m, m ≠ n → cv.threads m = s.cv.threads m := fun m hm => next_other hcv hm
        unfold BarState.arrive
        simp only
        split
        · -- The generation is over: everybody is to be notified.
          have hidle : cv.threads n = .idle := by
            simp only [CvState.next] at hcv
            split at hcv
            · next hfree =>
              cases hcv
              exact hfree.1
            · cases hcv
          intro m call k t _ _
          refine .inr (.inr ⟨n, ⟨s.generation, s.round⟩, ?_, .inl hidle⟩)
          exact List.getElem?_set_self (List.getElem?_eq_some_iff.mp hth).1
        · exact h.move rfl hother rfl (CvProgress.next hcv).notified
            (fun m k t _ hp => .inr (hp.other hth (fun _ h => by cases h) rfl hother))
            (fun _ _ _ h => by cases h)
      · cases hs

end Waking

/-- The rounds are exact in the runs in which no wait on the condition variable finds
the waiter table full. -/
theorem barrier_rounds_exact {threshold maxWaiters numThreads : Nat} {s : BarState}
    (hpos : 0 < threshold) (hbound : threshold < unsignedModulus)
    (hr : (barrierMachine threshold maxWaiters numThreads).ReachableBy BarState.SlotForWait s) :
    s.RoundsExact := by
  obtain ⟨hi, hw⟩ : BarInv s ∧ BarWoken s := by
    refine Machine.ReachableBy.invariant (I := fun s => BarInv s ∧ BarWoken s)
      ⟨.create maxWaiters numThreads hpos hbound, ?_⟩ ?_ hr
    · intro n call k t hth
      cases List.eq_of_mem_replicate (List.mem_of_getElem? hth)
    · intro s a s' _ h hok hs
      exact ⟨h.1.next hok hs, h.2.next h.1 hs⟩
  refine ⟨?_, hi.count.arrived_lt, ?_, ?_, fun g r h _ => hi.complete g r h, ?_⟩
  · have hnone : s.returned.count (s.round, .ok) = 0 := by
      rw [List.count_eq_zero]
      exact fun h => Nat.lt_irrefl _ (hi.complete _ _ h)
    have hblocked : s.threads.countP (·.okIn s.round) = s.threads.countP (·.blockedIn s.round) := by
      refine List.countP_congr (fun th hmem => ?_)
      obtain ⟨n, hn⟩ := List.mem_iff_getElem?.mp hmem
      have hstage := hi.stage n th hn
      cases th with
      | finish call r =>
          have hne : call.round ≠ s.round := Nat.ne_of_lt hstage.2.1
          simp [BarThread.okIn, BarThread.blockedIn, hne]
      | _ => exact Iff.rfl
    have hcount := hi.count.ok s.round
    rw [if_neg (Nat.lt_irrefl _), if_pos rfl, hnone, hblocked] at hcount
    omega
  · intro g hg
    exact (hi.count.serial g).trans (if_pos hg)
  · intro g hg
    exact (hi.count.ok g).trans (if_pos hg)
  · intro n call c k t hth hcv hgen
    have hreg : (s.cv.threads n).registered = some (k, t) := by rw [hcv]; rfl
    rcases hw n call k t hth hreg with hn | hsame | hp
    · exact .inl (hi.cv.token_of_notified hreg (by rw [hcv]; rfl) hn)
    · exact absurd hsame hgen
    · exact .inr hp

/-- Two threads that meet twice. -/
theorem barrier_rounds_exact_two :
    ∃ s : BarState, s.round = 2 ∧ s.returned = [(0, .ok), (0, .barrierSerial)] ∧
      s.RoundsExact := by
  let schedule : List BarAct :=
    [.wait 0, .step 0, .step 0, .step 0, .wait 1, .step 1, .step 1, .step 1, .step 1, .step 0,
      .step 1, .step 0, .step 0, .step 0, .step 0, .wait 1, .step 1, .step 1, .step 1, .wait 0]
  have hview : ((barrierMachine 2 2 2).run (.create 2 2 2) schedule).map
      (fun s => (s.round, s.returned)) = some (2, [(0, .ok), (0, .barrierSerial)]) := by
    decide +kernel
  obtain ⟨s, hrun, hres⟩ := Option.map_eq_some_iff.mp hview
  simp only [Prod.mk.injEq] at hres
  have hok : (barrierMachine 2 2 2).RunOk BarState.SlotForWait (.create 2 2 2) schedule := by
    decide +kernel
  exact ⟨s, hres.1, hres.2,
    barrier_rounds_exact (by decide) (by decide) (.of_run .init hok hrun)⟩

/-- The default of eight slots and a barrier for ten: the ninth call fails and stays
counted, so the tenth thread that calls completes a generation of nine. -/
theorem barrier_counts_failed_call :
    ∃ s : BarState, (barrierMachine 10 8 10).Reachable s ∧ s.returned = [(0, .outOfResources)] ∧
      s.round = 1 ∧ ¬ s.RoundsExact := by
  let schedule : List BarAct :=
    (List.range 8).flatMap
        (fun n => ([.wait n, .step n, .step n, .step n] : List BarAct)) ++
      ([.wait 8, .step 8, .step 8, .step 8, .wait 9] : List BarAct)
  have hview : ((barrierMachine 10 8 10).run (.create 10 8 10) schedule).map
      (fun s => (s.returned, s.round, s.threads.countP (·.okIn 0), s.threshold)) =
        some ([(0, .outOfResources)], 1, 8, 10) := by
    decide +kernel
  obtain ⟨s, hrun, hres⟩ := Option.map_eq_some_iff.mp hview
  simp only [Prod.mk.injEq] at hres
  obtain ⟨hreturned, hround, hcount, hthreshold⟩ := hres
  refine ⟨s, .of_run hrun, hreturned, hround, ?_⟩
  intro h
  have hok := h.ok 0 (by omega)
  rw [hreturned, hcount, hthreshold] at hok
  exact absurd hok (by decide)

end MicrOsal
