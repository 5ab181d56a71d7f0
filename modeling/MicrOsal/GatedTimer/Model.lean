import MicrOsal.Core
import MicrOsal.Lib.Machine

/-!
# MicrOsal.GatedTimer.Model

The timers of the ChibiOS, NuttX and embOS backends (`chibios/chibios_backend.cpp`,
`nuttx/nuttx_backend.cpp`, `embos/embos_backend.cpp`): a native timer that fires once, and a
handler that calls back and arms it again.

The handler takes a gate and drops the expiry when it is taken; `osal_timer_stop` and
`osal_timer_set_period` take it too and give up when it is taken, and `osal_timer_start` works
without it, once in the life of the timer. Every operation on an atomic, and every native call,
is a step.
-/

namespace MicrOsal.GatedTimer

/-- What the backends do differently. -/
structure Backend where
  /-- `WAIT_FOREVER`, and the largest period that the native timer takes. -/
  forever : Nat
  maxPeriod : Nat
  /-- The native calls that arm and cancel the timer may fail: `work_queue`, which is looked at
  by the start only, and `work_cancel`. -/
  mayFail : Bool
  /-- The handler looks at `active` once before the callback, and leaves if it is not set. -/
  leavesEarly : Bool
  /-- The handler arms with the period of the last start, which the native timer keeps. -/
  keepsPeriod : Bool

def chibios (forever maxPeriod : Nat) : Backend := ⟨forever, maxPeriod, false, false, false⟩

def nuttx (forever maxPeriod : Nat) : Backend := ⟨forever, maxPeriod, true, true, false⟩

def embos (forever maxPeriod : Nat) : Backend := ⟨forever, maxPeriod, false, false, true⟩

/-- `ch_vt_slot`, `nx_timer_ctx` and `eos_timer_slot`. -/
structure Timer where
  gate : Bool
  active : Bool
  everStarted : Bool
  autoReload : Bool
  period : Nat
  /-- When the native timer fires, if it is armed, and the period it keeps. -/
  armed : Option Nat
  kept : Nat
  deriving DecidableEq, Repr

namespace Timer

/-- `osal_timer_create`. -/
def create (period : Nat) (autoReload : Bool) : Timer where
  gate := false
  active := false
  everStarted := false
  autoReload := autoReload
  period := period
  armed := none
  kept := period

/-- `chVTSet`, `work_queue`, or `OS_TIMER_SetPeriodEx` and `OS_TIMER_StartEx`. -/
def arm (t : Timer) (now : Nat) : Timer :=
  { t with armed := some (now + t.period), kept := t.period }

/-- The call of the handler that arms the timer again. -/
def rearm (b : Backend) (t : Timer) (now : Nat) : Timer :=
  { t with armed := some (now + if b.keepsPeriod then t.kept else t.period) }

/-- What the handler writes to `active` before the callback: nothing, in the NuttX backend, for
a timer that goes on. -/
def mark (b : Backend) (t : Timer) : Timer :=
  { t with active := if b.leavesEarly then t.active && t.autoReload else t.autoReload }

/-- `chVTReset`, `work_cancel` and `OS_TIMER_StopEx`. -/
def cancel (t : Timer) : Timer := { t with armed := none }

end Timer

/-- A period that `osal_timer_set_period` takes. -/
def Backend.accepts (b : Backend) (period : Nat) : Bool :=
  period ≠ 0 ∧ period ≠ b.forever ∧ period ≤ b.maxPeriod

/-- A call, or a run of the handler, between two of its steps. -/
inductive Thread
  /-- Outside; `last` is what the last call returned. -/
  | idle (last : Option ErrorCode)
  /-- `osal_timer_start`, with `ever_started` taken: about to set `active`. -/
  | startSets
  | startArms
  /-- The native call has failed. -/
  | startUnsets
  /-- `osal_timer_stop`, with the gate: about to clear `active`. -/
  | stopClears
  | stopCancels
  | stopReleases
  /-- `osal_timer_set_period`, about to take the gate. -/
  | periodTakes (period : Nat)
  | periodStores (period : Nat)
  | periodReleases
  /-- The timer has fired, and the handler is about to take the gate. -/
  | dispatched
  /-- With the gate: about to look at `active`. -/
  | checks
  /-- About to write `active` and to call back. -/
  | marks
  /-- In the callback. -/
  | calls
  /-- About to look at `active` again. -/
  | rechecks
  | rearms
  | releases
  deriving DecidableEq, Repr

/-- It has the gate. -/
def Thread.holdsGate : Thread → Bool
  | .stopClears | .stopCancels | .stopReleases | .periodStores _ | .periodReleases | .checks
  | .marks | .calls | .rechecks | .rearms | .releases => true
  | _ => false

/-- A call is in progress. -/
def Thread.inCall : Thread → Bool
  | .startSets | .startArms | .startUnsets | .stopClears | .stopCancels | .stopReleases
  | .periodTakes _ | .periodStores _ | .periodReleases => true
  | _ => false

/-- An expiry is between its dispatch and its release of the gate. -/
def Thread.inHandler : Thread → Bool
  | .dispatched | .checks | .marks | .calls | .rechecks | .rearms | .releases => true
  | _ => false

structure State where
  timer : Timer
  now : Nat
  threads : List Thread
  /-- A stop has cleared `active`; a stop has returned `ok`; and for each callback, whether
  that was so when it began. No step reads them. -/
  cleared : Bool
  stopped : Bool
  begun : List Bool
  deriving DecidableEq, Repr

inductive Action
  | tick
  | spawn
  | start (n : Nat)
  | stop (n : Nat)
  | setPeriod (n : Nat) (period : Nat)
  /-- The native timer fires. -/
  | expire
  /-- Thread `n` makes its next step; `fails` is whether a native call that may fail does. -/
  | go (n : Nat) (fails : Bool)
  deriving DecidableEq, Repr

namespace State

def setThread (s : State) (n : Nat) (th : Thread) : State :=
  { s with threads := s.threads.set n th }

/-- The call of thread `n` returns. -/
def finish (s : State) (n : Nat) (code : ErrorCode) : State :=
  s.setThread n (.idle (some code))

/-- The exchange of `osal_timer_start`. -/
def start (s : State) (n : Nat) : State :=
  if s.timer.everStarted then s.finish n .notSupported
  else { s with timer := { s.timer with everStarted := true } }.setThread n .startSets

/-- The exchange of `osal_timer_stop`. -/
def stop (s : State) (n : Nat) : State :=
  if s.timer.gate then s.finish n .notSupported
  else { s with timer := { s.timer with gate := true } }.setThread n .stopClears

/-- `osal_timer_set_period`, before it takes the gate. -/
def setPeriod (s : State) (b : Backend) (n : Nat) (period : Nat) : State :=
  if s.timer.active then s.finish n .notSupported
  else if ! b.accepts period then s.finish n .invalidArgument
  else s.setThread n (.periodTakes period)

/-- The gate is given back. -/
def release (s : State) (n : Nat) (th : Thread) : State :=
  { s with timer := { s.timer with gate := false } }.setThread n th

/-- The next step of a thread. -/
def go (s : State) (b : Backend) (n : Nat) (fails : Bool) : Thread → Option State
  | .idle _ => none
  | .startSets => some ({ s with timer := { s.timer with active := true } }.setThread n .startArms)
  | .startArms =>
      if b.mayFail && fails then some (s.setThread n .startUnsets)
      else some ({ s with timer := s.timer.arm s.now }.finish n .ok)
  | .startUnsets =>
      some ({ s with timer := { s.timer with active := false } }.finish n .unknown)
  | .stopClears =>
      some ({ s with
        timer := { s.timer with active := false }
        cleared := true }.setThread n .stopCancels)
  | .stopCancels =>
      if b.mayFail && fails then some (s.setThread n .stopReleases)
      else some ({ s with timer := s.timer.cancel }.setThread n .stopReleases)
  | .stopReleases => some ({ s with stopped := true }.release n (.idle (some .ok)))
  | .periodTakes period =>
      if s.timer.gate then some (s.finish n .notSupported)
      else some ({ s with timer := { s.timer with gate := true } }.setThread n
        (.periodStores period))
  | .periodStores period =>
      some ({ s with timer := { s.timer with period := period } }.setThread n .periodReleases)
  | .periodReleases => some (s.release n (.idle (some .ok)))
  | .dispatched =>
      if s.timer.gate then some (s.setThread n (.idle none))
      else some ({ s with timer := { s.timer with gate := true } }.setThread n .checks)
  | .checks =>
      if s.timer.active then some (s.setThread n .marks)
      else if b.leavesEarly then some (s.setThread n .releases)
      else some (s.setThread n .rechecks)
  | .marks =>
      some ({ s with
        timer := s.timer.mark b
        begun := s.begun ++ [s.stopped] }.setThread n .calls)
  | .calls => some (s.setThread n .rechecks)
  | .rechecks =>
      if s.timer.active && s.timer.autoReload then some (s.setThread n .rearms)
      else some (s.setThread n .releases)
  | .rearms =>
      if b.mayFail && fails then some (s.setThread n .releases)
      else some ({ s with timer := s.timer.rearm b s.now }.setThread n .releases)
  | .releases => some (s.release n (.idle none))

/-- The native timer fires when its time has come. -/
def expire (s : State) : Option State :=
  match s.timer.armed with
  | some due =>
      if due ≤ s.now then
        some { s with timer := s.timer.cancel, threads := s.threads ++ [.dispatched] }
      else none
  | none => none

def step (b : Backend) (s : State) : Action → Option State
  | .tick => some { s with now := s.now + 1 }
  | .spawn => some { s with threads := s.threads ++ [.idle none] }
  | .start n =>
      match s.threads[n]? with
      | some (.idle _) => some (s.start n)
      | _ => none
  | .stop n =>
      match s.threads[n]? with
      | some (.idle _) => some (s.stop n)
      | _ => none
  | .setPeriod n period =>
      match s.threads[n]? with
      | some (.idle _) => some (s.setPeriod b n period)
      | _ => none
  | .expire => s.expire
  | .go n fails => (s.threads[n]?).bind (fun th => s.go b n fails th)

end State

/-- A new timer, and the threads that use it. -/
def machine (b : Backend) (period : Nat) (autoReload : Bool) : Machine State Action where
  init := ⟨.create period autoReload, 0, [], false, false, []⟩
  step := State.step b

end MicrOsal.GatedTimer
