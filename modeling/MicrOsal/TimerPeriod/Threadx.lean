import MicrOsal.ThreadxTimer.Model
import MicrOsal.TimerPeriod.Account

/-!
# MicrOsal.TimerPeriod.Threadx

A ThreadX timer that one task operates, while it expires and the system's timer thread calls
back. Each native call of the task is a step.

`osal_timer_set_period` looks whether the timer runs (`Task.gets`), deactivates it, and
activates it at the end if it did run. A one-shot timer that expires before it is deactivated
runs once more, without a start (`Keeps` leaves this out).
-/

namespace MicrOsal.TimerPeriod.Threadx

open ThreadxTimer (Timer Limits)

/-- The timer expires at `due`. -/
def expire (due : Nat) (t : Timer) : Timer :=
  if t.reschedule = 0 then { t with armed := none, remaining := 0 }
  else { t with armed := some (due + t.reschedule) }

/-- `tx_timer_change`, which leaves an active timer alone. -/
def change (initial reschedule : Nat) (t : Timer) : Timer :=
  if t.active then t else t.change initial reschedule

/-- The task that operates the timer. -/
inductive Task
  /-- Outside; `last` is what the last call returned. -/
  | idle (last : Option ErrorCode)
  /-- `osal_timer_stop`, which `osal_timer_reset` calls first. -/
  | stops (reset : Bool)
  /-- `osal_timer_start`, about to call `tx_timer_info_get`. -/
  | starts
  | startChanges
  | startActivates
  /-- `osal_timer_set_period`, about to call `tx_timer_info_get`. -/
  | gets (period : Nat)
  /-- With what it has seen: about to call `tx_timer_deactivate`. -/
  | deactivates (active : Bool) (period : Nat)
  /-- `running` is whether the timer was still active then. Nothing reads it. -/
  | changes (active running : Bool) (period : Nat)
  | activates (running : Bool)
  deriving DecidableEq, Repr

structure State where
  timer : Timer
  now : Nat
  /-- The timer thread is about to call back. -/
  calls : Bool
  task : Task
  account : Account
  deriving DecidableEq, Repr

inductive Action
  | tick
  | expire
  | callback
  | start
  | stop
  | reset
  | setPeriod (period : Nat)
  /-- The task makes its next step; `fails` is whether its native call does. -/
  | go (fails : Bool)
  deriving DecidableEq, Repr

namespace State

def owed (s : State) : Nat := if s.calls then 1 else 0

def view (s : State) : View where
  live := s.timer.armed.isSome
  periodic := (if s.timer.armed.isSome then s.timer.reschedule else s.timer.period) ≠ 0
  owed := s.owed
  account := s.account

def finish (s : State) (code : ErrorCode) : State := { s with task := .idle (some code) }

/-- The timer thread takes up an expiry when it has done with the one before. -/
def expire (s : State) : Option State :=
  match s.timer.armed with
  | some due =>
      if s.calls || s.now < due then none
      else some { s with timer := Threadx.expire due s.timer, calls := true }
  | none => none

def callback (s : State) : Option State :=
  if s.calls then some { s with calls := false, account := s.account.callback } else none

/-- A call that is not a change of the period begins. -/
def call (s : State) (task : Task) : Option State :=
  match s.task with
  | .idle _ => some { s with task := task, account := s.account.call }
  | _ => none

def setPeriod (s : State) (l : Limits) (period : Nat) : Option State :=
  match s.task with
  | .idle _ => some { s with
      task := if l.accepts period then .gets period else .idle (some .invalidArgument)
      account := s.account.setPeriod s.timer.armed.isNone s.owed }
  | _ => none

/-- The next step of the task. -/
def go (s : State) (fails : Bool) : Option State :=
  match s.task with
  | .idle _ => none
  | .stops reset =>
      if fails then some (s.finish .unknown)
      else some { s with
        timer := s.timer.deactivate s.now
        task := if reset then .starts else .idle (some .ok) }
  | .starts =>
      if fails then some (s.finish .unknown)
      else if s.timer.active then some { s.finish .ok with account := s.account.start }
      else some { s with timer := { s.timer with started := true }, task := .startChanges }
  | .startChanges =>
      if fails then some (s.finish .unknown)
      else some { s with
        timer := change s.timer.initial s.timer.period s.timer
        task := .startActivates }
  | .startActivates =>
      if fails || s.timer.active then some (s.finish .unknown)
      else some { s with
        timer := s.timer.activate s.now
        task := .idle (some .ok)
        account := s.account.start }
  | .gets period =>
      if fails then some (s.finish .unknown)
      else some { s with task := .deactivates s.timer.active period }
  | .deactivates active period =>
      if fails then some (s.finish .unknown)
      else some { s with
        timer := s.timer.deactivate s.now
        task := .changes active s.timer.active period }
  | .changes active running period =>
      if fails then some (s.finish .unknown)
      else some { s with
        timer := (change period (if s.timer.period = 0 then 0 else period) s.timer).store period
        task := if active then .activates running else .idle (some .ok) }
  | .activates _ =>
      if fails || s.timer.active then some (s.finish .unknown)
      else some { s with timer := s.timer.activate s.now, task := .idle (some .ok) }

def step (l : Limits) (s : State) : Action → Option State
  | .tick => some { s with now := s.now + 1 }
  | .expire => s.expire
  | .callback => s.callback
  | .start => s.call .starts
  | .stop => s.call (.stops false)
  | .reset => s.call (.stops true)
  | .setPeriod period => s.setPeriod l period
  | .go fails => s.go fails

end State

/-- A new timer, and the task that operates it. -/
def machine (l : Limits) (period : Nat) (autoReload : Bool) : Machine State Action where
  init := ⟨.create period autoReload, 0, false, .idle none, .new⟩
  step := State.step l

/-- A one-shot timer that a change of the period activates was active when it was
deactivated. -/
def Keeps (s : State) : Action → Prop
  | .go false => s.timer.period ≠ 0 ∨ s.task ≠ .activates false
  | _ => True

instance Keeps.decidable (s : State) : (a : Action) → Decidable (Keeps s a)
  | .go false => inferInstanceAs (Decidable (_ ∨ _))
  | .go true | .tick | .expire | .callback | .start | .stop | .reset | .setPeriod _ =>
      inferInstanceAs (Decidable True)

end MicrOsal.TimerPeriod.Threadx
