import MicrOsal.Core
import MicrOsal.Lib.Machine

/-!
# MicrOsal.Timer.Posix

The timers of the POSIX backend (`posix/posix_backend.cpp`): a watcher thread that waits on a
condition variable for the period of the timer and then calls back.

Every call, and what the watcher does between taking the mutex and giving it up, is one step.
A timed wait whose time is up is over before the watcher has the mutex again, and calls may
come in between. The watcher then looks at `active`, and not at whether this is the arming it
has waited for: the timer fires early when it was armed again in between (`OnTime`).
-/

namespace MicrOsal.Timer

/-- Nanoseconds in a tick; a tick of the POSIX backend is a millisecond. -/
def tickNs : Nat := 1000000

/-- The largest `timespec`, in nanoseconds. -/
def maxTime : Nat := (2 ^ 63 - 1) * 1000000000 + 999999999

/-- Where the watcher is. -/
inductive Watcher
  /-- Not started. -/
  | absent
  /-- About to take the mutex: at the start, after a callback, after a wait that did not time
  out. -/
  | entering
  /-- In `pthread_cond_wait`. -/
  | asleep
  /-- In `pthread_cond_timedwait`. -/
  | waiting (deadline : Nat)
  /-- `pthread_cond_timedwait` will return `ETIMEDOUT`; about to take the mutex. -/
  | timedOut
  | callback
  | ended
  deriving DecidableEq, Repr

/-- `posix_timer_ctx`, the watcher and the monotonic clock. -/
structure State (w : Nat) where
  period : Tick w
  autoReload : Bool
  active : Bool
  shutdown : Bool
  watcher : Watcher
  /-- Nanoseconds. -/
  now : Nat
  /-- When the timer was last armed by a call that returned `ok`. No step reads it. -/
  armedAt : Nat
  deriving DecidableEq

inductive Action (w : Nat)
  /-- `created` is whether the watcher thread could be created, if there is none. -/
  | start (created : Bool)
  | stop
  | reset (created : Bool)
  | setPeriod (period : Tick w) (created : Bool)
  | destroy
  /-- The watcher goes on. -/
  | watcher
  /-- Its wait ends for no reason. -/
  | wakeUp
  /-- The time of its wait is up. -/
  | expire
  | tick (ns : Nat)
  deriving DecidableEq

namespace State

variable {w : Nat}

/-- `osal_timer_create`. -/
def create (period : Tick w) (autoReload : Bool) (now : Nat) : State w where
  period := period
  autoReload := autoReload
  active := false
  shutdown := false
  watcher := .absent
  now := now
  armedAt := now

/-- `pthread_cond_broadcast`. -/
def broadcast (s : State w) : State w :=
  match s.watcher with
  | .asleep | .waiting _ => { s with watcher := .entering }
  | _ => s

@[simp] theorem broadcast_period (s : State w) : s.broadcast.period = s.period := by
  unfold broadcast
  split <;> rfl

@[simp] theorem broadcast_active (s : State w) : s.broadcast.active = s.active := by
  unfold broadcast
  split <;> rfl

@[simp] theorem broadcast_now (s : State w) : s.broadcast.now = s.now := by
  unfold broadcast
  split <;> rfl

@[simp] theorem broadcast_armedAt (s : State w) : s.broadcast.armedAt = s.armedAt := by
  unfold broadcast
  split <;> rfl

/-- Nobody waits after a broadcast; a wait that is over stays so. -/
theorem broadcast_watcher (s : State w) :
    s.broadcast.watcher = s.watcher ∧ (∀ deadline, s.watcher ≠ .waiting deadline) ∨
      s.broadcast.watcher = .entering ∧ s.watcher ≠ .absent := by
  unfold broadcast
  split
  case h_1 h => exact .inr ⟨rfl, by rw [h]; nofun⟩
  case h_2 h => exact .inr ⟨rfl, by rw [h]; nofun⟩
  case h_3 _ h => exact .inl ⟨rfl, h⟩

/-- `pthread_create`, if there is no watcher yet. -/
def launch (s : State w) : State w :=
  if s.watcher = .absent then { s with watcher := .entering } else s

/-- `posix_timer_arm_locked`. -/
def armLocked (s : State w) (created : Bool) : ErrorCode × State w :=
  if s.shutdown then (.notInitialized, s)
  else if s.period = noWait then (.ok, { s with active := false }.broadcast)
  else if s.watcher = .absent ∧ created = false then (.outOfResources, s)
  else (.ok, { s.launch with active := true, armedAt := s.now }.broadcast)

/-- `osal_timer_start`. -/
def start (s : State w) (created : Bool) : ErrorCode × State w := s.armLocked created

/-- `osal_timer_reset`. -/
def reset (s : State w) (created : Bool) : ErrorCode × State w := s.armLocked created

/-- `osal_timer_stop`. -/
def stop (s : State w) : ErrorCode × State w :=
  if s.shutdown then (.notInitialized, s) else (.ok, { s with active := false }.broadcast)

/-- `osal_timer_set_period`. -/
def setPeriod (s : State w) (period : Tick w) (created : Bool) : ErrorCode × State w :=
  if s.shutdown then (.notInitialized, s)
  else if period = 0 then (.invalidArgument, s)
  else if s.active then { s with period := period }.armLocked created
  else (.ok, { s with period := period })

/-- `osal_timer_destroy`, up to where it waits for the watcher. -/
def destroy (s : State w) : State w := { s with active := false, shutdown := true }.broadcast

/-- `to_abs_timespec`. `WAIT_FOREVER` is no finite time, and adds nothing. -/
def deadline (s : State w) : Nat :=
  if s.period = waitForever then s.now else min (s.now + s.period.toNat * tickNs) maxTime

/-- The watcher has the mutex, at the top of its loop. -/
def loop (s : State w) : State w :=
  if s.shutdown then { s with watcher := .ended }
  else if s.active then { s with watcher := .waiting s.deadline }
  else { s with watcher := .asleep }

/-- `posix_timer_watcher`. -/
def stepWatcher (s : State w) : Option (State w) :=
  match s.watcher with
  | .entering => some s.loop
  | .timedOut =>
      if s.shutdown || ! s.active then some s.loop
      else some { s with active := s.autoReload, watcher := .callback }
  | .callback => some { s with watcher := .entering }
  | _ => none

def step (s : State w) : Action w → Option (State w)
  | .start created => some (s.start created).2
  | .stop => some s.stop.2
  | .reset created => some (s.reset created).2
  | .setPeriod period created => some (s.setPeriod period created).2
  | .destroy => some s.destroy
  | .watcher => s.stepWatcher
  | .wakeUp =>
      match s.watcher with
      | .asleep | .waiting _ => some { s with watcher := .entering }
      | _ => none
  | .expire =>
      match s.watcher with
      | .waiting deadline => if deadline ≤ s.now then some { s with watcher := .timedOut } else none
      | _ => none
  -- a `timespec` can express the time
  | .tick ns => if s.now + ns < maxTime then some { s with now := s.now + ns } else none

end State

/-- A timer created at time `now`. -/
def machine {w : Nat} (period : Tick w) (autoReload : Bool) (now : Nat) :
    Machine (State w) (Action w) where
  init := .create period autoReload now
  step := State.step

/-! ### When the timer is on time -/

/-- The timer is not armed while the watcher has timed out and not got the mutex back, nor with
a period that is not finite. -/
def OnTime {w : Nat} (s : State w) : Action w → Prop
  | .start _ | .reset _ => s.watcher ≠ .timedOut ∧ s.period ≠ waitForever
  | .setPeriod period _ => s.active = true → s.watcher ≠ .timedOut ∧ period ≠ waitForever
  | _ => True

instance OnTime.decidable {w : Nat} (s : State w) : (a : Action w) → Decidable (OnTime s a)
  | .start _ | .reset _ =>
      inferInstanceAs (Decidable (s.watcher ≠ .timedOut ∧ s.period ≠ waitForever))
  | .setPeriod period _ => inferInstanceAs
      (Decidable (s.active = true → s.watcher ≠ .timedOut ∧ period ≠ waitForever))
  | .stop | .destroy | .watcher | .wakeUp | .expire | .tick _ => .isTrue trivial

/-- The period of the timer has passed since it was armed. -/
def State.Elapsed {w : Nat} (s : State w) : Prop := s.armedAt + s.period.toNat * tickNs ≤ s.now

/-- The invariant: what the watcher waits for is the end of a full period. -/
structure Punctual {w : Nat} (s : State w) : Prop where
  period_ne : s.active = true → s.period ≠ waitForever
  now_lt : s.now < maxTime
  armedAt_le : s.armedAt ≤ s.now
  active_period : s.active = true → s.period ≠ noWait
  waiting : ∀ deadline : Nat, s.watcher = .waiting deadline → s.active = true →
    min (s.armedAt + s.period.toNat * tickNs) maxTime ≤ deadline
  timedOut : s.watcher = .timedOut → s.active = true → s.Elapsed

namespace Punctual

variable {w : Nat} {s s' : State w}

/-- A watcher that is not in a timed wait. -/
theorem of_not_waiting (hperiod : s.active = true → s.period ≠ waitForever) (hnow : s.now < maxTime)
    (harmed : s.armedAt ≤ s.now) (hactive : s.active = true → s.period ≠ noWait)
    (hwaiting : ∀ deadline, s.watcher ≠ .waiting deadline) (htimedOut : s.watcher ≠ .timedOut) :
    Punctual s where
  period_ne := hperiod
  now_lt := hnow
  armedAt_le := harmed
  active_period := hactive
  waiting d hd := absurd hd (hwaiting d)
  timedOut ht := absurd ht htimedOut

/-- A timer that is not active. -/
theorem inactive (hnow : s.now < maxTime) (harmed : s.armedAt ≤ s.now)
    (hactive : s.active = false) : Punctual s where
  period_ne ha := by
    rw [hactive] at ha
    cases ha
  now_lt := hnow
  armedAt_le := harmed
  active_period ha := by
    rw [hactive] at ha
    cases ha
  waiting d _ ha := by
    rw [hactive] at ha
    cases ha
  timedOut _ ha := by
    rw [hactive] at ha
    cases ha

theorem broadcast (hperiod : s.period ≠ waitForever) (hnow : s.now < maxTime)
    (harmed : s.armedAt ≤ s.now) (hactive : s.active = true → s.period ≠ noWait)
    (htimedOut : s.watcher ≠ .timedOut) : Punctual s.broadcast := by
  refine of_not_waiting ?_ ?_ ?_ ?_ ?_ ?_
  · rw [s.broadcast_period]
    exact fun _ => hperiod
  · rw [s.broadcast_now]
    exact hnow
  · rw [s.broadcast_armedAt, s.broadcast_now]
    exact harmed
  · rw [s.broadcast_active, s.broadcast_period]
    exact hactive
  · obtain ⟨hw, hne⟩ | ⟨hw, -⟩ := s.broadcast_watcher
    · rw [hw]
      exact hne
    · rw [hw]
      nofun
  · obtain ⟨hw, -⟩ | ⟨hw, -⟩ := s.broadcast_watcher
    · rw [hw]
      exact htimedOut
    · rw [hw]
      nofun

/-- The timer stops. -/
theorem broadcast_inactive (hnow : s.now < maxTime) (harmed : s.armedAt ≤ s.now)
    (hactive : s.active = false) : Punctual s.broadcast := by
  refine inactive ?_ ?_ ?_
  · rw [s.broadcast_now]
    exact hnow
  · rw [s.broadcast_armedAt, s.broadcast_now]
    exact harmed
  · rw [s.broadcast_active]
    exact hactive

/-- Arming wakes a watcher that waits for an earlier deadline. -/
theorem armLocked (hperiod : s.period ≠ waitForever) (hnow : s.now < maxTime)
    (harmed : s.armedAt ≤ s.now) (hshutdown : s.shutdown = false)
    (htimedOut : s.watcher ≠ .timedOut) (created : Bool) : Punctual (s.armLocked created).2 := by
  unfold State.armLocked
  rw [hshutdown, if_neg nofun]
  split
  case isTrue => exact broadcast_inactive hnow harmed rfl
  case isFalse hne =>
    split
    case isTrue habsent =>
      exact of_not_waiting (fun _ => hperiod) hnow harmed (fun _ => hne)
        (by rw [habsent.1]; nofun) htimedOut
    case isFalse =>
      have hlaunch : s.launch.period = s.period ∧ s.launch.now = s.now ∧
          s.launch.watcher ≠ .timedOut := by
        unfold State.launch
        split
        · exact ⟨rfl, rfl, nofun⟩
        · exact ⟨rfl, rfl, htimedOut⟩
      obtain ⟨hp, hn, hw⟩ := hlaunch
      refine broadcast ?_ ?_ ?_ (fun _ => ?_) hw
      · rw [hp]
        exact hperiod
      · rw [hn]
        exact hnow
      · exact hn.ge
      · rw [hp]
        exact hne

theorem arm (h : Punctual s) (htimedOut : s.watcher ≠ .timedOut)
    (hperiod : s.period ≠ waitForever) (created : Bool) :
    Punctual (s.armLocked created).2 := by
  cases hshutdown : s.shutdown with
  | true =>
      unfold State.armLocked
      rw [hshutdown, if_pos rfl]
      exact h
  | false => exact armLocked hperiod h.now_lt h.armedAt_le hshutdown htimedOut created

theorem stop (h : Punctual s) : Punctual s.stop.2 := by
  unfold State.stop
  split
  case isTrue => exact h
  case isFalse => exact broadcast_inactive h.now_lt h.armedAt_le rfl

theorem setPeriod (h : Punctual s) {period : Tick w}
    (hok : s.active = true → s.watcher ≠ .timedOut ∧ period ≠ waitForever) (created : Bool) :
    Punctual (s.setPeriod period created).2 := by
  unfold State.setPeriod
  split
  case isTrue => exact h
  case isFalse hshutdown =>
    split
    case isTrue => exact h
    case isFalse hpos =>
      split
      case isTrue hactive =>
        exact armLocked (s := { s with period := period }) (hok hactive).2 h.now_lt h.armedAt_le
          (eq_false_of_ne_true hshutdown) (hok hactive).1 created
      case isFalse hactive => exact inactive h.now_lt h.armedAt_le (eq_false_of_ne_true hactive)

/-- The watcher begins to wait: for a full period from now on. -/
theorem loop (h : Punctual s) : Punctual s.loop := by
  unfold State.loop
  split
  case isTrue => exact of_not_waiting h.period_ne h.now_lt h.armedAt_le h.active_period nofun nofun
  case isFalse =>
    split
    case isTrue hactive =>
      refine ⟨h.period_ne, h.now_lt, h.armedAt_le, h.active_period, fun deadline hd _ => ?_, nofun⟩
      obtain rfl := Watcher.waiting.inj hd
      -- An active timer has a finite period, so the deadline is the end of that period.
      unfold State.deadline
      rw [if_neg (h.period_ne hactive)]
      have hle := h.armedAt_le
      dsimp only
      omega
    case isFalse =>
      exact of_not_waiting h.period_ne h.now_lt h.armedAt_le h.active_period nofun nofun

theorem stepWatcher (h : Punctual s) (hs : s.stepWatcher = some s') : Punctual s' := by
  unfold State.stepWatcher at hs
  split at hs
  case h_1 =>
    cases hs
    exact h.loop
  case h_2 =>
    split at hs
    case isTrue =>
      cases hs
      exact h.loop
    case isFalse hgo =>
      cases hs
      simp only [Bool.or_eq_true, Bool.not_eq_true', not_or, Bool.not_eq_false] at hgo
      exact of_not_waiting (fun _ => h.period_ne hgo.2) h.now_lt h.armedAt_le
        (fun _ => h.active_period hgo.2) nofun nofun
  case h_3 =>
    cases hs
    exact of_not_waiting h.period_ne h.now_lt h.armedAt_le h.active_period nofun nofun
  case h_4 => cases hs

theorem step {a : Action w} (h : Punctual s) (hok : OnTime s a) (hs : s.step a = some s') :
    Punctual s' := by
  cases a with
  | start created =>
      cases hs
      exact h.arm hok.1 hok.2 created
  | stop =>
      cases hs
      exact h.stop
  | reset created =>
      cases hs
      exact h.arm hok.1 hok.2 created
  | setPeriod period created =>
      cases hs
      exact h.setPeriod hok created
  | destroy =>
      cases hs
      exact broadcast_inactive h.now_lt h.armedAt_le rfl
  | watcher => exact h.stepWatcher hs
  | wakeUp =>
      dsimp only [State.step] at hs
      split at hs
      case h_1 | h_2 =>
        cases hs
        exact of_not_waiting h.period_ne h.now_lt h.armedAt_le h.active_period nofun nofun
      case h_3 => cases hs
  | expire =>
      dsimp only [State.step] at hs
      split at hs
      case h_1 deadline hd =>
        split at hs
        case isTrue hle =>
          cases hs
          refine ⟨h.period_ne, h.now_lt, h.armedAt_le, h.active_period, nofun, fun _ hactive => ?_⟩
          have hmin := h.waiting deadline hd hactive
          have hlt := h.now_lt
          dsimp only [State.Elapsed]
          omega
        case isFalse => cases hs
      case h_2 => cases hs
  | tick ns =>
      dsimp only [State.step] at hs
      split at hs
      case isTrue hlt =>
        cases hs
        refine ⟨h.period_ne, hlt, h.armedAt_le.trans (Nat.le_add_right _ _), h.active_period,
          h.waiting, fun ht hactive => ?_⟩
        exact (h.timedOut ht hactive).trans (Nat.le_add_right _ _)
      case isFalse => cases hs

theorem of_reachable {period : Tick w} {autoReload : Bool} {now : Nat} (hnow : now < maxTime)
    (h : (machine period autoReload now).ReachableBy OnTime s) : Punctual s := by
  refine h.invariant (I := Punctual) ?_ (fun s a s' _ hi hok hs => hi.step hok hs)
  exact inactive hnow (Nat.le_refl _) rfl

end Punctual

/-! ### What a timer promises -/

variable {w : Nat} {s s' : State w}

theorem loop_eq (s : State w) : ∃ watcher, s.loop = { s with watcher := watcher } ∧
    watcher ≠ .callback ∧ watcher ≠ .absent := by
  unfold State.loop
  split
  case isTrue => exact ⟨_, rfl, nofun, nofun⟩
  case isFalse =>
    split
    case isTrue => exact ⟨_, rfl, nofun, nofun⟩
    case isFalse => exact ⟨_, rfl, nofun, nofun⟩

/-- The watcher calls back, after a wait that has timed out, and leaves a one-shot timer
inactive; any other step of it leaves the timer as it is. -/
theorem stepWatcher_cases (h : s.stepWatcher = some s') :
    (s.watcher = .timedOut ∧ s.active = true ∧
      s' = { s with active := s.autoReload, watcher := .callback }) ∨
    s.watcher ≠ .absent ∧ ∃ watcher, s' = { s with watcher := watcher } ∧ watcher ≠ .callback ∧
      watcher ≠ .absent := by
  unfold State.stepWatcher at h
  split at h
  case h_1 hw =>
    cases h
    exact .inr ⟨by rw [hw]; nofun, loop_eq s⟩
  case h_2 hw =>
    split at h
    case isTrue =>
      cases h
      exact .inr ⟨by rw [hw]; nofun, loop_eq s⟩
    case isFalse hgo =>
      cases h
      simp only [Bool.or_eq_true, Bool.not_eq_true', not_or, Bool.not_eq_false] at hgo
      exact .inl ⟨hw, hgo.2, rfl⟩
  case h_3 hw =>
    cases h
    exact .inr ⟨by rw [hw]; nofun, .entering, rfl, nofun, nofun⟩
  case h_4 => cases h

theorem armLocked_active (hperiod : s.period ≠ noWait) (created : Bool) :
    (s.armLocked created).2.active = true ∨ (s.armLocked created).2.active = s.active := by
  unfold State.armLocked
  split
  case isTrue => exact .inr rfl
  case isFalse =>
    split
    case isTrue => exact .inr rfl
    case isFalse => exact .inl (State.broadcast_active _)

/-- A timer does not fire before its period has passed since it was armed, nor does it become
inactive before, unless it is stopped. -/
structure TimerOk (s : State w) : Prop where
  fires : ∀ s' : State w, s.step .watcher = some s' → s'.watcher = .callback → s.Elapsed
  lasts : ∀ (a : Action w) (s' : State w), s.step a = some s' → a ≠ .stop → a ≠ .destroy →
    s.active = true → s'.active = false → s.Elapsed

theorem Punctual.fires (h : Punctual s) (hs : s.stepWatcher = some s')
    (hcallback : s'.watcher = .callback) : s.Elapsed := by
  obtain ⟨ht, hactive, -⟩ | ⟨-, watcher, rfl, hne, -⟩ := stepWatcher_cases hs
  · exact h.timedOut ht hactive
  · exact absurd hcallback hne

theorem Punctual.lasts (h : Punctual s) {a : Action w} (hs : s.step a = some s')
    (hstop : a ≠ .stop) (hdestroy : a ≠ .destroy) (hactive : s.active = true)
    (hnot : s'.active = false) : s.Elapsed := by
  have harm : ∀ created, (s.armLocked created).2.active = true := by
    intro created
    obtain ha | ha := armLocked_active (h.active_period hactive) created
    · exact ha
    · exact ha.trans hactive
  cases a with
  | start created =>
      cases hs
      exact (nomatch hnot.symm.trans (harm created))
  | stop => exact absurd rfl hstop
  | reset created =>
      cases hs
      exact (nomatch hnot.symm.trans (harm created))
  | setPeriod period created =>
      cases hs
      unfold State.setPeriod at hnot
      split at hnot
      case isTrue => exact (nomatch hnot.symm.trans hactive)
      case isFalse =>
        split at hnot
        case isTrue => exact (nomatch hnot.symm.trans hactive)
        case isFalse hpos =>
          obtain ha | ha := armLocked_active (s := { s with period := period }) hpos created
          · exact (nomatch hnot.symm.trans ha)
          · exact (nomatch hnot.symm.trans (ha.trans hactive))
  | destroy => exact absurd rfl hdestroy
  | watcher =>
      obtain ⟨ht, -, -⟩ | ⟨-, watcher, rfl, -, -⟩ := stepWatcher_cases hs
      · exact h.timedOut ht hactive
      · exact (nomatch hnot.symm.trans hactive)
  | wakeUp =>
      dsimp only [State.step] at hs
      split at hs
      case h_1 | h_2 =>
        cases hs
        exact (nomatch hnot.symm.trans hactive)
      case h_3 => cases hs
  | expire =>
      dsimp only [State.step] at hs
      split at hs
      case h_1 =>
        split at hs
        case isTrue =>
          cases hs
          exact (nomatch hnot.symm.trans hactive)
        case isFalse => cases hs
      case h_2 => cases hs
  | tick ns =>
      dsimp only [State.step] at hs
      split at hs
      case isTrue =>
        cases hs
        exact (nomatch hnot.symm.trans hactive)
      case isFalse => cases hs

theorem Punctual.timerOk (h : Punctual s) : TimerOk s :=
  ⟨fun _ hs hcallback => h.fires hs hcallback,
    fun _ _ hs hstop hdestroy hactive hnot => h.lasts hs hstop hdestroy hactive hnot⟩

end MicrOsal.Timer
