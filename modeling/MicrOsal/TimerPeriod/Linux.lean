import MicrOsal.Core
import MicrOsal.Lib.Machine
import MicrOsal.TimerPeriod.Account

/-!
# MicrOsal.TimerPeriod.Linux

The timers of the Linux backend (`linux/linux_backend.cpp`): a `timerfd`, and a watcher thread
that reads it and calls back. One task operates the timer; the expiry, each step of the watcher
and each native call of the task are steps.

`osal_timer_set_period` looks whether the timer runs (`Task.gets`) and sets it again if it did
(`Task.sets`). A one-shot timer that expires and is read by the watcher in between runs once
more, without a start (`Keeps` leaves this out).
-/

namespace MicrOsal.TimerPeriod.Linux

/-- `itimerspec`, in milliseconds. -/
structure Spec where
  value : Nat
  interval : Nat
  deriving DecidableEq, Repr

/-- `linux_timer_ctx` and its `timerfd`: `armed` is when it expires next, `ticks` the expiries
that have not been read. -/
structure Timer where
  spec : Spec
  autoReload : Bool
  armed : Option Nat
  interval : Nat
  ticks : Nat
  deriving DecidableEq, Repr

namespace Timer

/-- The `spec` that `osal_timer_create` and `osal_timer_set_period` store. -/
def store (period : Nat) (t : Timer) : Timer :=
  { t with spec := ⟨period, if t.autoReload then period else 0⟩ }

/-- `osal_timer_create`. -/
def create (period : Nat) (autoReload : Bool) : Timer :=
  Timer.store period ⟨⟨0, 0⟩, autoReload, none, 0, 0⟩

/-- `timerfd_settime`: what has not been read is forgotten, and a value of 0 disarms. -/
def settime (now : Nat) (spec : Spec) (t : Timer) : Timer :=
  { t with
    armed := if spec.value = 0 then none else some (now + spec.value)
    interval := spec.interval
    ticks := 0 }

/-- The timer expires at `due`. -/
def expire (due : Nat) (t : Timer) : Timer :=
  { t with
    armed := if t.interval = 0 then none else some (due + t.interval)
    ticks := t.ticks + 1 }

end Timer

/-- `linux_timer_watcher`. -/
inductive Watcher
  | absent
  | polls
  | reads
  | calls
  deriving DecidableEq, Repr

/-- The task that operates the timer. -/
inductive Task
  /-- Outside; `last` is what the last call returned. -/
  | idle (last : Option ErrorCode)
  /-- `osal_timer_stop`, which `osal_timer_reset` calls first. -/
  | stops (reset : Bool)
  /-- `osal_timer_start`, about to create the watcher. -/
  | spawns
  | starts
  /-- `osal_timer_set_period`, about to call `timerfd_gettime`. -/
  | gets (period : Nat)
  /-- With what it has seen: about to call `timerfd_settime`. -/
  | sets (active : Bool) (period : Nat)
  deriving DecidableEq, Repr

/-- It is about to set a timer that it has seen running. -/
def Task.resets : Task → Bool
  | .sets true _ => true
  | _ => false

structure State where
  timer : Timer
  now : Nat
  watcher : Watcher
  task : Task
  account : Account
  deriving DecidableEq, Repr

inductive Action
  | tick
  | expire
  /-- The watcher makes its next step. -/
  | watch
  | start
  | stop
  | reset
  | setPeriod (period : Nat)
  /-- The task makes its next step; `fails` is whether its native call does. -/
  | go (fails : Bool)
  deriving DecidableEq, Repr

namespace State

/-- The watcher has read an expiry, and another one can be read. -/
def owed (s : State) : Nat :=
  (if s.watcher = .calls then 1 else 0) + min s.timer.ticks 1

def view (s : State) : View where
  live := s.timer.armed.isSome
  periodic := (if s.timer.armed.isSome then s.timer.interval else s.timer.spec.interval) ≠ 0
  owed := s.owed
  account := s.account

def finish (s : State) (code : ErrorCode) : State := { s with task := .idle (some code) }

def expire (s : State) : Option State :=
  match s.timer.armed with
  | some due => if due ≤ s.now then some { s with timer := s.timer.expire due } else none
  | none => none

/-- A round of `linux_timer_watcher`. -/
def watch (s : State) : Option State :=
  match s.watcher with
  | .absent => none
  | .polls => if s.timer.ticks = 0 then none else some { s with watcher := .reads }
  | .reads =>
      if s.timer.ticks = 0 then some { s with watcher := .polls }
      else some { s with timer := { s.timer with ticks := 0 }, watcher := .calls }
  | .calls => some { s with watcher := .polls, account := s.account.callback }

/-- A call that is not a change of the period begins. -/
def call (s : State) (task : Task) : Option State :=
  match s.task with
  | .idle _ => some { s with task := task, account := s.account.call }
  | _ => none

def setPeriod (s : State) (period : Nat) : Option State :=
  match s.task with
  | .idle _ => some { s with
      task := if period = 0 then .idle (some .invalidArgument) else .gets period
      account := s.account.setPeriod s.timer.armed.isNone s.owed }
  | _ => none

/-- The next step of the task. -/
def go (s : State) (fails : Bool) : Option State :=
  match s.task with
  | .idle _ => none
  | .stops reset =>
      if fails then some (s.finish .unknown)
      else some { s with
        timer := s.timer.settime s.now ⟨0, 0⟩
        task := if reset then .spawns else .idle (some .ok) }
  | .spawns =>
      if s.watcher ≠ .absent then some { s with task := .starts }
      else if fails then some (s.finish .outOfResources)
      else some { s with watcher := .polls, task := .starts }
  | .starts =>
      if fails then some (s.finish .unknown)
      else some { s with
        timer := s.timer.settime s.now s.timer.spec
        task := .idle (some .ok)
        account := s.account.start }
  | .gets period =>
      if fails then some (s.finish .unknown)
      else some { s with task := .sets s.timer.armed.isSome period }
  | .sets active period =>
      let stored := s.timer.store period
      if ! active then some { s with timer := stored, task := .idle (some .ok) }
      else if fails then some { s with timer := stored, task := .idle (some .unknown) }
      else some { s with timer := stored.settime s.now stored.spec, task := .idle (some .ok) }

def step (s : State) : Action → Option State
  | .tick => some { s with now := s.now + 1 }
  | .expire => s.expire
  | .watch => s.watch
  | .start => s.call .spawns
  | .stop => s.call (.stops false)
  | .reset => s.call (.stops true)
  | .setPeriod period => s.setPeriod period
  | .go fails => s.go fails

end State

/-- A new timer, and the task that operates it. -/
def machine (period : Nat) (autoReload : Bool) : Machine State Action where
  init := ⟨.create period autoReload, 0, .absent, .idle none, .new⟩
  step := State.step

/-- A one-shot timer that is set again with its new period still runs, or its expiry has not
been read. -/
def Keeps (s : State) : Action → Prop
  | .go false => s.timer.autoReload = true ∨ s.timer.armed ≠ none ∨ s.timer.ticks ≠ 0 ∨
      s.task.resets = false
  | _ => True

instance Keeps.decidable (s : State) : (a : Action) → Decidable (Keeps s a)
  | .go false => inferInstanceAs (Decidable (_ ∨ _))
  | .go true | .tick | .expire | .watch | .start | .stop | .reset | .setPeriod _ =>
      inferInstanceAs (Decidable True)

end MicrOsal.TimerPeriod.Linux
