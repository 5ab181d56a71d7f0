import MicrOsal.Lib.TickWait
import MicrOsal.RwLock.Model
import MicrOsal.WorkQueue.Emulated

/-!
# MicrOsal.TimedLoops.Locks

The timed loops that wait on a condition variable: `osal_rwlock_read_lock` and
`osal_rwlock_write_lock` (`common/emulated_rwlock.inl`), and `osal_work_queue_flush`
(`common/emulated_work_queue.inl`).
-/

namespace MicrOsal

variable {w : Nat}

/-! ### The read-write lock -/

/-- The loop of a timed lock call. -/
def RwWait.tickLoop (c : RwWait w) : Option (TickLoop w) :=
  if c.timed then some ⟨c.timeout, c.start⟩ else none

def RwThread.tickLoop : RwThread w → Option (TickLoop w)
  | .test c | .blocked c _ | .relock c _ => c.tickLoop
  | _ => none

/-- The `remaining` that a timed lock call passes to `osal_condvar_wait`. -/
def RwWait.remaining (c : RwWait w) (now : Tick w) : Tick w := c.timeout - (now - c.start)

namespace RwState

/-- A timed lock call finds the lock taken. -/
def check (s : RwState w) (a : RwAct w) (s' : RwState w) : Option (Nat × Option (Tick w)) :=
  match a with
  | .step n _ =>
      match s.threads[n]? with
      | some (.test c) =>
          if c.timed && ! s.admits c.mode then
            if s'.threads[n]? = some (.finish .lock c.mode .timeout) then some (n, none)
            else some (n, some (c.remaining (clockTicks w s.clock)))
          else none
      | _ => none
  | _ => none

variable {s s' : RwState w} {a : RwAct w} {n : Nat} {th : RwThread w} {choice : ErrorCode}

theorem tickLoop_resume (c : RwWait w) (r : ErrorCode) (now : Tick w) :
    LoopMove now c.tickLoop (c.resume r).tickLoop := by
  unfold RwWait.resume
  split
  · exact .stays _
  · exact .leaves _

theorem tickLoop_wake (th : RwThread w) : th.wake.tickLoop = th.tickLoop := by
  cases th <;> rfl

theorem clock_acquire (s : RwState w) (mode : RwMode) : (s.acquire mode).clock = s.clock := by
  cases mode <;> rfl

theorem clock_advance (h : s.advance n choice th = some s') : s'.clock = s.clock := by
  cases th with
  | release mode =>
      cases mode <;> simp only [advance] at h <;> split at h <;> cases h <;> rfl
  | test c =>
      simp only [advance] at h
      repeat' split at h
      all_goals cases h
      · exact clock_acquire s c.mode
      all_goals rfl
  | _ =>
      simp only [advance] at h
      repeat' split at h
      all_goals cases h
      all_goals rfl

theorem loopMove_advance (hn : s.threads[n]? = some th) (h : s.advance n choice th = some s')
    (m : Nat) : LoopMove (clockTicks w s.clock) ((s.threads[m]?).bind RwThread.tickLoop)
      ((s'.threads[m]?).bind RwThread.tickLoop) := by
  cases th with
  | idle => cases h
  | enterLock mode timeout =>
      simp only [advance] at h
      split at h <;> cases h
      refine .set hn ?_ m
      simp only [RwThread.tickLoop, RwWait.tickLoop]
      split
      · exact .enters timeout
      · exact .stays _
  | enterUnlock mode =>
      simp only [advance] at h
      split at h <;> cases h
      exact .set hn (.leaves _) m
  | test c =>
      simp only [advance] at h
      repeat' split at h
      all_goals cases h
      · cases hmode : c.mode
        · exact .set hn (.leaves _) m
        · exact .set hn (.leaves _) m
      · exact .set hn (.leaves _) m
      · have hstays : LoopMove (clockTicks w s.clock) (RwThread.test c).tickLoop
            (RwThread.blocked c false).tickLoop := .stays _
        exact .set hn hstays m
      · exact .set hn (tickLoop_resume c choice _) m
  | blocked c woken =>
      simp only [advance] at h
      split at h <;> cases h
      have hstays : LoopMove (clockTicks w s.clock) (RwThread.blocked c woken).tickLoop
          (RwThread.relock c choice).tickLoop := .stays _
      exact .set hn hstays m
  | relock c r =>
      simp only [advance] at h
      split at h <;> cases h
      exact .set hn (tickLoop_resume c r _) m
  | release mode =>
      cases mode with
      | read =>
          simp only [advance] at h
          split at h <;> cases h
          · exact .set hn (.leaves _) m
          · split <;> exact .set hn (.leaves _) m
      | write =>
          simp only [advance] at h
          split at h <;> cases h <;> exact .set hn (.leaves _) m
  | notify mode =>
      cases h
      -- all the waiters are marked, and stay in their loops
      have hwake : (s.threads.map RwThread.wake)[n]? = some (.notify mode) := by
        rw [List.getElem?_map, hn]
        rfl
      have hsame : (s.threads[m]?).bind RwThread.tickLoop =
          ((s.threads.map RwThread.wake)[m]?).bind RwThread.tickLoop := by
        rw [List.getElem?_map]
        cases s.threads[m]? with
        | none => rfl
        | some th => exact (tickLoop_wake th).symm
      rw [hsame]
      exact .set hwake (.leaves _) m
  | finish op mode r =>
      cases h
      exact .set hn (.leaves _) m

theorem loopMove_next (h : s.next a = some s') (m : Nat) :
    LoopMove (clockTicks w s.clock) ((s.threads[m]?).bind RwThread.tickLoop)
      ((s'.threads[m]?).bind RwThread.tickLoop) := by
  cases a with
  | lock n mode timeout =>
      simp only [next] at h
      split at h
      case isTrue hn =>
        cases h
        exact .set hn (.leaves _) m
      case isFalse => cases h
  | unlock n mode =>
      simp only [next] at h
      split at h
      case isTrue hn =>
        cases h
        exact .set hn (.leaves _) m
      case isFalse => cases h
  | tick =>
      cases h
      exact .stays _
  | step n choice =>
      obtain ⟨s₁, hs₁, rfl⟩ := Option.map_eq_some_iff.mp h
      obtain ⟨th, hn, hadvance⟩ := Option.bind_eq_some_iff.mp hs₁
      exact loopMove_advance hn hadvance m

theorem clock_next (h : s.next a = some s') : s.clock ≤ s'.clock := by
  cases a with
  | lock n mode timeout =>
      simp only [next] at h
      split at h <;> cases h
      exact Nat.le_refl _
  | unlock n mode =>
      simp only [next] at h
      split at h <;> cases h
      exact Nat.le_refl _
  | tick =>
      cases h
      exact Nat.le_succ _
  | step n choice =>
      obtain ⟨s₁, hs₁, rfl⟩ := Option.map_eq_some_iff.mp h
      obtain ⟨th, hn, hadvance⟩ := Option.bind_eq_some_iff.mp hs₁
      exact (clock_advance hadvance).ge

/-- The test of the loop gives up exactly when the ticks that it computes are over. -/
theorem finish_iff {c : RwWait w} (hn : s.threads[n]? = some (.test c)) (htimed : c.timed = true)
    (hfull : s.admits c.mode = false) (h : s.advance n choice (.test c) = some s') :
    s'.threads[n]? = some (.finish .lock c.mode .timeout) ↔
      c.timeout ≤ clockTicks w s.clock - c.start := by
  have hlt := (List.getElem?_eq_some_iff.mp hn).1
  simp only [advance, hfull, htimed, Bool.false_eq_true, if_false, true_and] at h
  split at h
  case isTrue hover =>
    cases h
    exact iff_of_true (List.getElem?_set_self hlt) hover
  case isFalse hleft =>
    refine iff_of_false (fun hfinish => ?_) hleft
    split at h
    case isTrue =>
      cases h
      rw [setThread, List.getElem?_set_self hlt] at hfinish
      cases hfinish
    case isFalse hchoice =>
      cases h
      rw [setThread, List.getElem?_set_self hlt, RwWait.resume] at hfinish
      split at hfinish
      case isTrue => cases hfinish
      case isFalse hne =>
        obtain ⟨-, -, rfl⟩ := RwThread.finish.inj (Option.some.inj hfinish)
        exact hne (.inr ⟨htimed, rfl⟩)

theorem check_next {verdict : Option (Tick w)} (h : s.next a = some s')
    (hcheck : s.check a s' = some (n, verdict)) :
    ∃ l, (s.threads[n]?).bind RwThread.tickLoop = some l ∧
      verdict = tickVerdict l.timeout l.start (clockTicks w s.clock) := by
  cases a with
  | step m choice =>
      simp only [check] at hcheck
      split at hcheck
      case h_1 c hm =>
        split at hcheck
        case isTrue hcond =>
          obtain ⟨htimed, hfull⟩ := Bool.and_eq_true_iff.mp hcond
          obtain ⟨s₁, hs₁, rfl⟩ := Option.map_eq_some_iff.mp h
          rw [hm] at hs₁
          have hiff := finish_iff hm htimed (by simpa using hfull) hs₁
          have hloop : (RwThread.test c).tickLoop = some ⟨c.timeout, c.start⟩ := if_pos htimed
          split at hcheck
          case isTrue hfinish =>
            obtain ⟨rfl, rfl⟩ := Prod.mk.inj (Option.some.inj hcheck)
            refine ⟨_, by rw [hm]; exact hloop, ?_⟩
            exact (if_pos (hiff.mp hfinish)).symm
          case isFalse hgoes =>
            obtain ⟨rfl, rfl⟩ := Prod.mk.inj (Option.some.inj hcheck)
            refine ⟨_, by rw [hm]; exact hloop, ?_⟩
            exact (if_neg (mt hiff.mpr hgoes)).symm
        case isFalse => cases hcheck
      case h_2 => cases hcheck
  | _ => cases hcheck

end RwState

/-- The lock calls of a read-write lock. -/
def rwlockLoops (w numThreads : Nat) : TimedLoops (RwState w) (RwAct w) Nat w where
  machine := rwlockMachine w numThreads
  clock := RwState.clock
  loop s n := (s.threads[n]?).bind RwThread.tickLoop
  check := RwState.check
  clock_le h := RwState.clock_next h
  moves n h := RwState.loopMove_next h n
  checks h hcheck := RwState.check_next h hcheck

/-! ### The flush of the emulated work queue -/

/-- The thread is in `osal_work_queue_flush`. -/
def WqThread.flushing : WqThread → Bool
  | .flushEnter _ => true
  | .flushWait _ _ => true
  | _ => false

/-- Thread `n` is. -/
def WqState.flushingAt (s : WqState) (n : Nat) : Bool := (s.threads[n]?).any WqThread.flushing

/-- The queue with a clock, and what the flush of each thread has been given and has noted. -/
structure TimedWq (w : Nat) where
  base : WqState
  clock : Nat
  waits : Nat → TickLoop w

inductive TimedWqAct (w : Nat)
  | tick (n : Nat)
  | flush (n : Nat) (timeout : Tick w)
  /-- Thread `n` takes its next step; `r` is the result of its wait. -/
  | step (n : Nat) (r : ErrorCode)
  | other (a : WqAct)

/-- Neither the start of a flush nor a step of a thread. -/
def WqAct.isOther : WqAct → Bool
  | .flush _ => false
  | .step .. => false
  | _ => true

namespace TimedWq

/-- The timeout of the flush of thread `n` is finite, and its ticks are over. -/
def expired (s : TimedWq w) (n : Nat) : Bool :=
  (s.waits n).timeout ≠ waitForever &&
    (s.waits n).timeout ≤ clockTicks w s.clock - (s.waits n).start

/-- The `remaining` of a flush with a finite timeout. -/
def remaining (s : TimedWq w) (n : Nat) : Tick w :=
  (s.waits n).timeout - (clockTicks w s.clock - (s.waits n).start)

def step (s : TimedWq w) : TimedWqAct w → Option (TimedWq w)
  | .tick n => some { s with clock := s.clock + n }
  | .flush n timeout =>
      let start := if timeout = waitForever then 0 else clockTicks w s.clock
      (s.base.next (.flush n)).map (fun base =>
        { s with base := base, waits := Function.update s.waits n ⟨timeout, start⟩ })
  | .step n r =>
      (s.base.next (.step n r (s.expired n))).map (fun base => { s with base := base })
  | .other a =>
      if a.isOther then (s.base.next a).map (fun base => { s with base := base }) else none

/-- The loop of a flush with a finite timeout. -/
def loopOf (flushing : Bool) (l : TickLoop w) : Option (TickLoop w) :=
  if flushing && l.timeout ≠ waitForever then some l else none

def loop (s : TimedWq w) (n : Nat) : Option (TickLoop w) :=
  loopOf (s.base.flushingAt n) (s.waits n)

/-- The flush of thread `n` has the mutex and finds its target not completed. -/
def looks (s : TimedWq w) (n : Nat) (r : ErrorCode) : Bool :=
  s.base.mtx.isNone && match s.base.threads[n]? with
    | some (.flushEnter _) => s.base.wq.completedSequence < s.base.wq.flushTarget
    | some (.flushWait _ target) =>
        (r = .ok || r = .timeout) && s.base.wq.completedSequence < target
    | _ => false

def check (s : TimedWq w) (a : TimedWqAct w) (s' : TimedWq w) : Option (Nat × Option (Tick w)) :=
  match a with
  | .step n r =>
      if s.looks n r && (s.waits n).timeout ≠ waitForever then
        some (n, if s'.base.flushingAt n then some (s.remaining n) else none)
      else none
  | _ => none

end TimedWq

section Flush

variable {s s' : WqState} {a : WqAct} {n : Nat} {th th' : WqThread}

theorem WqState.flushingAt_setThread_self (hn : s.threads[n]? = some th) (th' : WqThread) :
    (s.setThread n th').flushingAt n = th'.flushing := by
  rw [flushingAt, setThread, List.getElem?_set_self (List.getElem?_eq_some_iff.mp hn).1]
  rfl

/-- A thread that goes on in a flush was in one. -/
theorem WqState.flushingAt_setThread (hn : s.threads[n]? = some th) {m : Nat}
    (hm : (s.setThread n th').flushingAt m = true)
    (hth : th'.flushing = true → th.flushing = true) : s.flushingAt m = true := by
  by_cases hmn : n = m
  · subst hmn
    rw [flushingAt_setThread_self hn] at hm
    rw [flushingAt, hn]
    exact hth hm
  · rwa [flushingAt, setThread, List.getElem?_set_ne hmn] at hm

theorem WqState.flushingAt_flushReturn {begun : Nat} {r : ErrorCode}
    (hn : s.threads[n]? = some th) {m : Nat}
    (hm : (s.flushReturn n begun r).flushingAt m = true) : s.flushingAt m = true :=
  WqState.flushingAt_setThread (s := { s with flushes := ⟨begun, r⟩ :: s.flushes }) hn hm nofun

theorem WqState.flushingAt_advance {r : ErrorCode} {expired : Bool}
    (hn : s.threads[n]? = some th) (h : s.advance n r expired th = some s') {m : Nat}
    (hm : s'.flushingAt m = true) : s.flushingAt m = true := by
  cases th with
  | idle => cases h
  | flushEnter begun =>
      simp only [advance] at h
      repeat' split at h
      all_goals cases h
      · exact flushingAt_flushReturn hn hm
      · exact flushingAt_flushReturn hn hm
      · exact flushingAt_setThread hn hm (fun _ => rfl)
  | flushWait begun target =>
      simp only [advance] at h
      repeat' split at h
      all_goals cases h
      · exact flushingAt_flushReturn hn hm
      · exact flushingAt_flushReturn hn hm
      · exact flushingAt_flushReturn hn hm
      · exact hm
  | cancel =>
      simp only [advance] at h
      repeat' split at h
      all_goals cases h
      · exact flushingAt_setThread (s := { s with mtx := none }) hn hm nofun
      · exact hm
  | join => cases h

theorem WqState.threads_stepWorker (h : s.stepWorker = some s') : s'.threads = s.threads := by
  unfold stepWorker at h
  repeat' split at h
  all_goals cases h
  all_goals rfl

/-- A thread is in a flush only after the step that starts it. -/
theorem WqState.flushingAt_next (h : s.next a = some s') (hflush : ∀ n, a ≠ .flush n) {m : Nat}
    (hm : s'.flushingAt m = true) : s.flushingAt m = true := by
  cases a with
  | submit func arg =>
      simp only [next] at h
      split at h <;> cases h
      exact hm
  | flush n => exact absurd rfl (hflush n)
  | cancelAll n =>
      simp only [next] at h
      split at h
      case isTrue hn =>
        cases h
        exact flushingAt_setThread (s := { s with
          wq := { s.wq with ring := s.wq.ring.clear }
          mtx := some ⟨n, s.wq.ring.count⟩
          hist := s.hist.cancel s.wq.ring.contents }) hn.1 hm nofun
      case isFalse => cases h
  | destroy n =>
      simp only [next] at h
      split at h
      case isTrue hn =>
        cases h
        exact flushingAt_setThread (s := { s with
          wq := { s.wq with stop := true }.give
          stopGiven := decide (s.wq.notEmpty < s.wq.maxTokens) }) hn.1 hm nofun
      case isFalse => cases h
  | step n r expired =>
      obtain ⟨th, hn, hadvance⟩ := Option.bind_eq_some_iff.mp h
      exact flushingAt_advance hn hadvance hm
  | worker =>
      rw [flushingAt, threads_stepWorker h] at hm
      exact hm

end Flush

namespace TimedWq

variable {s s' : TimedWq w} {a : TimedWqAct w} {n : Nat} {r : ErrorCode}

theorem clock_step (h : s.step a = some s') : s.clock ≤ s'.clock := by
  cases a with
  | tick n =>
      cases h
      exact Nat.le_add_right _ _
  | flush n timeout =>
      obtain ⟨base, -, rfl⟩ := Option.map_eq_some_iff.mp h
      exact Nat.le_refl _
  | step n r =>
      obtain ⟨base, -, rfl⟩ := Option.map_eq_some_iff.mp h
      exact Nat.le_refl _
  | other a =>
      simp only [step] at h
      split at h
      case isTrue =>
        obtain ⟨base, -, rfl⟩ := Option.map_eq_some_iff.mp h
        exact Nat.le_refl _
      case isFalse => cases h

theorem loopOf_forever {l : TickLoop w} (flushing : Bool) (h : l.timeout = waitForever) :
    loopOf flushing l = none := by
  simp [loopOf, h]

theorem loopOf_true {l : TickLoop w} (h : l.timeout ≠ waitForever) : loopOf true l = some l := by
  simp [loopOf, h]

/-- A step of the queue that starts no flush. -/
theorem loopMove_of_base {base : WqState} {a : WqAct} (h : s.base.next a = some base)
    (hflush : ∀ n, a ≠ .flush n) (now : Tick w) (m : Nat) :
    LoopMove now (s.loop m) (TimedWq.loop { s with base := base } m) := by
  unfold loop
  cases hm : base.flushingAt m with
  | true =>
      rw [WqState.flushingAt_next h hflush hm]
      exact .stays _
  | false => exact .leaves _

theorem loopMove_step (h : s.step a = some s') (m : Nat) :
    LoopMove (clockTicks w s.clock) (s.loop m) (s'.loop m) := by
  cases a with
  | tick n =>
      cases h
      exact .stays _
  | flush n timeout =>
      obtain ⟨base, hbase, rfl⟩ := Option.map_eq_some_iff.mp h
      simp only [WqState.next] at hbase
      split at hbase
      case isFalse => cases hbase
      case isTrue hn =>
        cases hbase
        by_cases hmn : m = n
        · subst hmn
          have hout : s.base.flushingAt m = false := by
            rw [WqState.flushingAt, hn]
            rfl
          unfold loop
          rw [hout, WqState.flushingAt_setThread_self hn]
          dsimp only
          rw [Function.update_self]
          change LoopMove _ none (loopOf true _)
          by_cases hforever : timeout = waitForever
          · rw [loopOf_forever _ hforever]
            exact .stays none
          · rw [if_neg hforever, loopOf_true hforever]
            exact .enters timeout
        · have hsame : (s.base.setThread n (.flushEnter s.base.wq.submittedSequence)).flushingAt m =
              s.base.flushingAt m := by
            rw [WqState.flushingAt, WqState.setThread, List.getElem?_set_ne (Ne.symm hmn)]
            rfl
          unfold loop
          rw [hsame]
          dsimp only
          rw [Function.update_of_ne hmn]
          exact .stays _
  | step n r =>
      obtain ⟨base, hbase, rfl⟩ := Option.map_eq_some_iff.mp h
      exact loopMove_of_base hbase nofun _ m
  | other a =>
      simp only [step] at h
      split at h
      case isTrue hother =>
        obtain ⟨base, hbase, rfl⟩ := Option.map_eq_some_iff.mp h
        refine loopMove_of_base hbase (fun n heq => ?_) _ m
        subst heq
        cases hother
      case isFalse => cases h

/-- A flush that finds its target not completed returns exactly when its ticks are over. -/
theorem flushing_iff_expired {base : WqState}
    (hlooks : s.looks n r = true) (h : s.base.next (.step n r (s.expired n)) = some base) :
    s.base.flushingAt n = true ∧ (base.flushingAt n = true ↔ s.expired n = false) := by
  obtain ⟨th, hn, hadvance⟩ := Option.bind_eq_some_iff.mp h
  obtain ⟨hmtx, hth⟩ := Bool.and_eq_true_iff.mp hlooks
  rw [hn] at hth
  have hfree : s.base.mtx.isSome = false := by
    rw [Option.isNone_iff_eq_none.mp hmtx]
    rfl
  have hin : s.base.flushingAt n = th.flushing := by
    rw [WqState.flushingAt, hn]
    rfl
  have hout : ∀ begun code, (s.base.flushReturn n begun code).flushingAt n = false :=
    fun begun code => WqState.flushingAt_setThread_self (s := { s.base with
      flushes := ⟨begun, code⟩ :: s.base.flushes }) hn .idle
  rw [hin]
  cases th with
  | flushEnter begun =>
      have hopen := of_decide_eq_true hth
      refine ⟨rfl, ?_⟩
      simp only [WqState.advance, hfree, Bool.false_eq_true, if_false,
        if_neg (Nat.not_le.mpr hopen)] at hadvance
      split at hadvance
      case isTrue hover =>
        cases hadvance
        rw [hover]
        exact iff_of_false (by rw [hout]; decide) (by decide)
      case isFalse hleft =>
        cases hadvance
        rw [WqState.flushingAt_setThread_self hn]
        exact iff_of_true rfl (Bool.eq_false_iff.mpr hleft)
  | flushWait begun target =>
      obtain ⟨hr, hopen⟩ := Bool.and_eq_true_iff.mp hth
      have hcode : ¬ (r ≠ .ok ∧ r ≠ .timeout) := by
        rintro ⟨hok, htimeout⟩
        rcases (Bool.or_eq_true _ _).mp hr with heq | heq
        · exact hok (of_decide_eq_true heq)
        · exact htimeout (of_decide_eq_true heq)
      refine ⟨rfl, ?_⟩
      simp only [WqState.advance, hfree, Bool.false_eq_true, if_false, if_neg hcode,
        if_neg (Nat.not_le.mpr (of_decide_eq_true hopen))] at hadvance
      split at hadvance
      case isTrue hover =>
        cases hadvance
        rw [hover]
        exact iff_of_false (by rw [hout]; decide) (by decide)
      case isFalse hleft =>
        cases hadvance
        rw [hin]
        exact iff_of_true rfl (Bool.eq_false_iff.mpr hleft)
  | idle => cases hth
  | cancel => cases hth
  | join => cases hth

theorem check_step {verdict : Option (Tick w)} (h : s.step a = some s')
    (hcheck : s.check a s' = some (n, verdict)) :
    ∃ l, s.loop n = some l ∧
      verdict = tickVerdict l.timeout l.start (clockTicks w s.clock) := by
  cases a with
  | step m r =>
      simp only [check] at hcheck
      split at hcheck
      case isTrue hcond =>
        obtain ⟨hlooks, hfinite⟩ := Bool.and_eq_true_iff.mp hcond
        obtain ⟨base, hbase, rfl⟩ := Option.map_eq_some_iff.mp h
        obtain ⟨hin, hiff⟩ := flushing_iff_expired hlooks hbase
        obtain ⟨rfl, rfl⟩ := Prod.mk.inj (Option.some.inj hcheck)
        refine ⟨s.waits m, if_pos (by rw [hin]; exact hfinite), ?_⟩
        unfold tickVerdict
        dsimp only
        by_cases hover : (s.waits m).timeout ≤ clockTicks w s.clock - (s.waits m).start
        · have hexpired : s.expired m = true := by
            unfold expired
            rw [hfinite]
            exact decide_eq_true hover
          rw [if_neg (by rw [hiff, hexpired]; decide), if_pos hover]
        · have hexpired : s.expired m = false := by
            unfold expired
            rw [decide_eq_false hover, Bool.and_false]
          rw [if_pos (hiff.mpr hexpired), if_neg hover]
          rfl
      case isFalse => cases hcheck
  | _ => cases hcheck

end TimedWq

/-- The flushes of an emulated work queue, with a clock. -/
def flushLoops (w depth numThreads : Nat) : TimedLoops (TimedWq w) (TimedWqAct w) Nat w where
  machine := ⟨⟨.create depth numThreads, 0, fun _ => ⟨0, 0⟩⟩, TimedWq.step⟩
  clock := TimedWq.clock
  loop := TimedWq.loop
  check := TimedWq.check
  clock_le h := TimedWq.clock_step h
  moves n h := TimedWq.loopMove_step h n
  checks h hcheck := TimedWq.check_step h hcheck

end MicrOsal
