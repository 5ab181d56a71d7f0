import MicrOsal.Condvar.Tokens

/-!
# MicrOsal.Condvar.Predicate

The predicate loops over the emulated condition variable. `condvar::wait(m,
pred)` and `notification::wait` drop the result of `osal_condvar_wait`, which
leaves `m` locked when the waiter table is full. Such a wait evaluates its
predicate again without having released `m` in between, and nobody can make the
predicate true. As long as a loop that calls `osal_condvar_wait` finds a free
slot, `m` is released between any two evaluations.
-/

namespace MicrOsal

/-- A predicate loop is about to claim a slot. -/
def CvThread.loopRegisters : CvThread → Bool
  | .register c => c.caller != .direct
  | _ => false

namespace CvState

/-- A thread that is about to evaluate its predicate again has released the user
mutex since the last time. -/
def LoopsRelease (s : CvState) : Prop :=
  ∀ n caller, s.threads n = .eval caller true → s.released n = true

/-- A predicate loop that is about to register finds a free slot. -/
def SlotForLoop (s : CvState) : CvAct → Prop
  | .step n _ => (s.threads n).loopRegisters = true → ∃ w ∈ s.cv.waiters, w.inUse = false
  | _ => True

instance (s : CvState) (a : CvAct) : Decidable (s.SlotForLoop a) :=
  match a with
  | .step n _ =>
      inferInstanceAs (Decidable ((s.threads n).loopRegisters = true →
        ∃ w ∈ s.cv.waiters, w.inUse = false))
  | .lock _ => .isTrue trivial
  | .unlock _ => .isTrue trivial
  | .wait _ _ => .isTrue trivial
  | .waitPredicate _ => .isTrue trivial
  | .notificationWait _ => .isTrue trivial
  | .notifyOne _ => .isTrue trivial
  | .notifyAll _ => .isTrue trivial

end CvState

/-- The user mutex has been unlocked in the wait the thread is in, or was in before
it came back to its predicate. -/
def CvThread.hasReleased : CvThread → Bool
  | .take _ _ _ => true
  | .relock _ _ _ _ => true
  | .leave _ _ _ _ => true
  | .eval _ again => again
  | _ => false

/-- The record of releases agrees with the places of the threads. -/
def CvReleased (s : CvState) : Prop :=
  ∀ n, (s.threads n).hasReleased = true → s.released n = true

section Loop

variable {s s' : CvState} {n : Nat} {a : CvAct}

/-- A step of thread `n` that leaves the record of the other threads alone. -/
theorem CvReleased.update {released : Nat → Bool} {th' : CvThread} (h : CvReleased s)
    (hrel : ∀ m, m ≠ n → released m = s.released m)
    (hth' : th'.hasReleased = true → released n = true) (m : Nat) :
    (Function.update s.threads n th' m).hasReleased = true → released m = true := by
  refine forall_threads_update (P := fun m th => th.hasReleased = true → released m = true) hth'
    ?_ m
  intro m hm hthm
  rw [hrel m hm]
  exact h m hthm

/-- A step of thread `n` that does not change the record. -/
theorem CvReleased.thread {th' : CvThread} {cv : EmuCondvar} {mutex : Option Nat}
    {nextTicket : Nat} {notified timedOut : List Nat} {returned : List (Nat × ErrorCode)}
    (h : CvReleased s) (hth' : th'.hasReleased = true → (s.threads n).hasReleased = true) :
    CvReleased { s with
      cv := cv
      mutex := mutex
      nextTicket := nextTicket
      notified := notified
      timedOut := timedOut
      returned := returned
      threads := Function.update s.threads n th' } :=
  h.update (fun _ _ => rfl) (fun hrel => h n (hth' hrel))

/-- A step of thread `n` to where it has not released the mutex. -/
theorem CvReleased.inside {th' : CvThread} {cv : EmuCondvar} {mutex : Option Nat}
    {nextTicket : Nat} {notified timedOut : List Nat} {returned : List (Nat × ErrorCode)}
    (h : CvReleased s) (hth' : th'.hasReleased = false) :
    CvReleased { s with
      cv := cv
      mutex := mutex
      nextTicket := nextTicket
      notified := notified
      timedOut := timedOut
      returned := returned
      threads := Function.update s.threads n th' } := by
  refine h.thread (fun hrel => ?_)
  rw [hth'] at hrel
  cases hrel

theorem CvReleased.advance {choice : Bool} (h : CvReleased s)
    (hok : s.SlotForLoop (.step n choice)) (hs : s.advance n choice = some s') :
    CvReleased s' := by
  rw [CvState.advance] at hs
  cases hth : s.threads n with
  | idle =>
      rw [hth] at hs
      cases hs
  | enter =>
      simp only [hth] at hs
      split at hs
      · cases hs
      · cases hs
        exact h.inside rfl
  | check =>
      simp only [hth] at hs
      cases hs
      refine h.inside ?_
      split <;> rfl
  | eval caller again =>
      simp only [hth] at hs
      split at hs
      · cases hs
        refine h.inside ?_
        split <;> rfl
      · cases hs
        exact h.update (fun m hm => Function.update_of_ne hm _ _) (fun hrel => by cases hrel)
  | finish =>
      simp only [hth] at hs
      cases hs
      exact h.inside rfl
  | register c =>
      simp only [CvState.SlotForLoop, hth] at hs hok
      split at hs
      · cases hs
      · split at hs
        · next hfull =>
          cases hs
          -- The table is full, so the caller is no loop.
          by_cases hdirect : c.caller = .direct
          · refine h.inside ?_
            rw [hdirect]
            rfl
          · obtain ⟨w, hw, hfree⟩ := hok (by simpa [CvThread.loopRegisters] using hdirect)
            have huse := EmuCondvar.claim_eq_none hfull w hw
            rw [hfree] at huse
            cases huse
        · cases hs
          exact h.inside rfl
  | unlock c k t =>
      simp only [hth] at hs
      cases hs
      exact h.update (fun m hm => Function.update_of_ne hm _ _)
        (fun _ => Function.update_self _ _ _)
  | take c k t =>
      simp only [hth] at hs
      obtain ⟨w, -, hs⟩ := Option.bind_eq_some_iff.mp hs
      split at hs
      · cases hs
        exact h.thread (fun _ => by rw [hth]; rfl)
      · split at hs
        · cases hs
          exact h.thread (fun _ => by rw [hth]; rfl)
        · cases hs
  | relock c k t r =>
      simp only [hth] at hs
      split at hs
      · cases hs
      · cases hs
        exact h.thread (fun _ => by rw [hth]; rfl)
  | leave c k t r =>
      simp only [hth] at hs
      obtain ⟨w, -, hs⟩ := Option.bind_eq_some_iff.mp hs
      split at hs
      · cases hs
      · cases hs
        exact h.thread (fun _ => by rw [hth]; rfl)
  | notifyAll k =>
      simp only [hth] at hs
      split at hs
      · cases hs
        exact h.inside rfl
      · split at hs
        · cases hs
          exact h.inside rfl
        · cases hs
          exact h.inside rfl

theorem CvReleased.next (h : CvReleased s) (hok : s.SlotForLoop a) (hs : s.next a = some s') :
    CvReleased s' := by
  cases a with
  | step n choice => exact h.advance hok hs
  | notifyOne n =>
      simp only [CvState.next, CvState.notifyOne] at hs
      repeat' split at hs
      all_goals cases hs
      all_goals exact h
  | lock n =>
      simp only [CvState.next] at hs
      split at hs <;> cases hs
      exact h
  | unlock n =>
      simp only [CvState.next] at hs
      split at hs <;> cases hs
      exact h
  | notifyAll n =>
      simp only [CvState.next] at hs
      split at hs
      · split at hs
        · cases hs
          exact h
        · cases hs
          exact h.inside rfl
      · cases hs
  | _ n =>
      simp only [CvState.next] at hs
      split at hs
      · cases hs
        exact h.inside rfl
      · cases hs

end Loop

/-- Between two evaluations of its predicate a loop releases the user mutex, in the
runs in which a loop that calls `osal_condvar_wait` finds a free slot. -/
theorem predicate_wait_releases {maxWaiters : Nat} {s : CvState}
    (hr : (condvarMachine maxWaiters).ReachableBy CvState.SlotForLoop s) : s.LoopsRelease := by
  have h : CvReleased s := by
    refine Machine.ReachableBy.invariant ?_ ?_ hr
    · intro n hn
      cases hn
    · intro s a s' _ h hok hs
      exact h.next hok hs
  intro n caller hth
  refine h n ?_
  rw [hth]
  rfl

/-- A loop that waits, is notified and evaluates its predicate again. -/
theorem predicate_wait_releases_notified :
    ∃ s : CvState, s.threads 0 = .eval .predicate true ∧ s.LoopsRelease := by
  let schedule : List CvAct :=
    [.lock 0, .waitPredicate 0, .step 0 false, .step 0 true, .step 0 true, .notifyOne 1,
      .step 0 true, .step 0 true, .step 0 true]
  have hview : ((condvarMachine 1).run (.fresh 1) schedule).map (fun s => s.threads 0) =
      some (.eval .predicate true) := by
    decide +kernel
  obtain ⟨s, hrun, hth⟩ := Option.map_eq_some_iff.mp hview
  have hok : (condvarMachine 1).RunOk CvState.SlotForLoop (.fresh 1) schedule := by
    decide +kernel
  exact ⟨s, hth, predicate_wait_releases (.of_run .init hok hrun)⟩

/-- The default of eight slots and nine threads: the ninth evaluates its predicate
again, and has held the user mutex all the time. -/
theorem predicate_wait_spins :
    ∃ s : CvState, (condvarMachine 8).Reachable s ∧ s.threads 8 = .eval .predicate true ∧
      s.mutex = some 8 ∧ ¬ s.LoopsRelease := by
  let schedule : List CvAct :=
    (List.range 8).flatMap
        (fun n => ([.lock n, .waitPredicate n, .step n false, .step n true, .step n true] :
          List CvAct)) ++
      ([.lock 8, .waitPredicate 8, .step 8 false, .step 8 true] : List CvAct)
  have hview : ((condvarMachine 8).run (.fresh 8) schedule).map
      (fun s => (s.threads 8, s.mutex, s.released 8)) =
        some (.eval .predicate true, some 8, false) := by
    decide +kernel
  obtain ⟨s, hrun, hres⟩ := Option.map_eq_some_iff.mp hview
  simp only [Prod.mk.injEq] at hres
  obtain ⟨hth, hmutex, hrel⟩ := hres
  refine ⟨s, .of_run hrun, hth, hmutex, ?_⟩
  intro h
  rw [h 8 .predicate hth] at hrel
  cases hrel

end MicrOsal
