import MicrOsal.Core
import MicrOsal.Lib.Machine
import MicrOsal.TimerPeriod.Account

/-!
# MicrOsal.TimerPeriod.Freertos

The timers of the FreeRTOS backend (`freertos/freertos_backend.cpp`). A task sends commands to
the timer daemon, which takes them in order; the daemon also runs the expiries, and calls back
unless it finds `suppress` set.

`osal_timer_set_period` waits for a fence to come back, looks whether the timer is active, and
sends `xTimerChangePeriod`, which starts the timer. If it was not active, the callbacks are
suppressed until a stop and a second fence have come back. A one-shot timer that was active and
expires before the daemon takes the command runs once more, without a start (`Keeps` leaves this
out).
-/

namespace MicrOsal.TimerPeriod.Freertos

/-- The native timer; `armed` is when it expires next, if it is active. -/
structure Timer where
  autoReload : Bool
  period : Nat
  armed : Option Nat
  deriving DecidableEq, Repr

/-- What is in the queue of the daemon. -/
inductive Command
  /-- `xTimerStart` and `xTimerReset`, with the time they were sent. -/
  | start (sent : Nat)
  | stop
  | changePeriod (period : Nat)
  /-- `xTimerPendFunctionCall` of a fence. -/
  | fence
  deriving DecidableEq, Repr

def Command.isStart : Command → Bool
  | .start _ => true
  | _ => false

/-- It makes the timer active. -/
def Command.arms : Command → Bool
  | .start _ | .changePeriod _ => true
  | _ => false

def Command.changes : Command → Bool
  | .changePeriod _ => true
  | _ => false

/-- The task that operates the timer. -/
inductive Task
  /-- Outside; `last` is what the last call returned. -/
  | idle (last : Option ErrorCode)
  /-- `osal_timer_start` and `osal_timer_reset`. -/
  | starts
  | stops
  /-- `osal_timer_set_period`, about to send the first fence. -/
  | fences (period : Nat)
  | awaits (period : Nat)
  /-- About to call `xTimerIsTimerActive`. -/
  | looks (period : Nat)
  /-- The timer was not active: about to set `suppress`. -/
  | suppresses (period : Nat)
  | changes (active : Bool) (period : Nat)
  /-- About to send the stop. -/
  | halts
  | refences (active : Bool)
  | reawaits (active : Bool)
  /-- About to clear `suppress`, and to return `code`. -/
  | releases (code : ErrorCode)
  deriving DecidableEq, Repr

structure State where
  timer : Timer
  now : Nat
  queue : List Command
  /-- The daemon is about to look at `suppress`, and to call back. -/
  calls : Bool
  suppress : Bool
  /-- The semaphore of the fences. -/
  done : Bool
  task : Task
  account : Account
  deriving DecidableEq, Repr

inductive Action
  | tick
  | expire
  | callback
  /-- The daemon takes a command. -/
  | command
  | start
  | stop
  /-- `fails` is whether there is no memory for the semaphore. -/
  | setPeriod (period : Nat) (fails : Bool)
  /-- The task makes its next step; `fails` is whether a command cannot be sent. -/
  | go (fails : Bool)
  deriving DecidableEq, Repr

namespace State

def owed (s : State) : Nat := if s.calls && ! s.suppress then 1 else 0

/-- It is active, or a command on its way makes it so. -/
def live (s : State) : Bool :=
  (s.timer.armed.isSome || s.queue.any Command.arms) && ! s.suppress

def view (s : State) : View where
  live := s.live
  periodic := s.timer.autoReload
  owed := s.owed
  account := s.account

def finish (s : State) (code : ErrorCode) : State := { s with task := .idle (some code) }

def send (s : State) (c : Command) (task : Task) : State :=
  { s with queue := s.queue ++ [c], task := task }

/-- The timer is active until `due`, or has expired by then. -/
def insert (s : State) (due : Nat) : State :=
  if s.now < due then { s with timer := { s.timer with armed := some due } }
  else { s with
    timer := { s.timer with
      armed := if s.timer.autoReload then some (due + s.timer.period) else none }
    calls := true }

/-- `prvProcessExpiredTimer`. -/
def expire (s : State) : Option State :=
  match s.timer.armed with
  | some due => if s.calls || s.now < due then none else some (s.insert due)
  | none => none

/-- The lambda that `osal_timer_create` gives to the native timer. -/
def callback (s : State) : Option State :=
  if s.calls then some { s with
    calls := false
    account := if s.suppress then s.account else s.account.callback }
  else none

/-- `prvProcessReceivedCommands`. -/
def process (s : State) : Command → State
  | .start sent => s.insert (sent + s.timer.period)
  | .stop => { s with timer := { s.timer with armed := none } }
  | .changePeriod period =>
      { s with timer := { s.timer with period := period, armed := some (s.now + period) } }
  | .fence => { s with done := true }

def command (s : State) : Option State :=
  match s.queue with
  | [] => none
  | c :: rest => if s.calls then none else some ({ s with queue := rest }.process c)

/-- A call that is not a change of the period begins. -/
def call (s : State) (task : Task) : Option State :=
  match s.task with
  | .idle _ => some { s with task := task, account := s.account.call }
  | _ => none

/-- By a task that is not the daemon, with the scheduler running. -/
def setPeriod (s : State) (period : Nat) (fails : Bool) : Option State :=
  match s.task with
  | .idle _ => some { s with
      task :=
        if period = 0 then .idle (some .invalidArgument)
        else if fails then .idle (some .outOfResources)
        else .fences period
      account := s.account.setPeriod (! s.live) s.owed }
  | _ => none

/-- The next step of the task. The fences and the stop of a change of the period are sent until
they are taken. -/
def go (s : State) (fails : Bool) : Option State :=
  match s.task with
  | .idle _ => none
  | .starts =>
      if fails then some (s.finish .unknown)
      else some { s.send (.start s.now) (.idle (some .ok)) with account := s.account.start }
  | .stops => if fails then some (s.finish .unknown) else some (s.send .stop (.idle (some .ok)))
  | .fences period => if fails then some s else some (s.send .fence (.awaits period))
  | .awaits period =>
      if s.done then some { s with done := false, task := .looks period } else none
  | .looks period =>
      some { s with
        task := if s.timer.armed.isSome then .changes true period else .suppresses period }
  | .suppresses period => some { s with suppress := true, task := .changes false period }
  | .changes active period =>
      if fails then some { s with task := .releases .unknown }
      else some (s.send (.changePeriod period) (if active then .refences true else .halts))
  | .halts => if fails then some s else some (s.send .stop (.refences false))
  | .refences active => if fails then some s else some (s.send .fence (.reawaits active))
  | .reawaits _ =>
      if s.done then some { s with done := false, task := .releases .ok } else none
  | .releases code => some { s with suppress := false, task := .idle (some code) }

def step (s : State) : Action → Option State
  | .tick => some { s with now := s.now + 1 }
  | .expire => s.expire
  | .callback => s.callback
  | .command => s.command
  | .start => s.call .starts
  | .stop => s.call .stops
  | .setPeriod period fails => s.setPeriod period fails
  | .go fails => s.go fails

end State

/-- A new timer, and the task that operates it. -/
def machine (period : Nat) (autoReload : Bool) : Machine State Action where
  init := ⟨⟨autoReload, period, none⟩, 0, [], false, false, false, .idle none, .new⟩
  step := State.step

/-- A one-shot timer whose callbacks are not suppressed is active when the daemon takes the
command that changes its period. -/
def Keeps (s : State) : Action → Prop
  | .command => s.timer.autoReload = true ∨ s.suppress = true ∨ s.timer.armed ≠ none ∨
      s.queue.head?.all (fun c => ! c.changes) = true
  | _ => True

instance Keeps.decidable (s : State) : (a : Action) → Decidable (Keeps s a)
  | .command => inferInstanceAs (Decidable (_ ∨ _))
  | .tick | .expire | .callback | .start | .stop | .setPeriod _ _ | .go _ =>
      inferInstanceAs (Decidable True)

end MicrOsal.TimerPeriod.Freertos
