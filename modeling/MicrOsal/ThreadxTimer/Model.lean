import MicrOsal.Core
import MicrOsal.Lib.Machine

/-!
# MicrOsal.ThreadxTimer.Model

The timers of the ThreadX backend (`threadx/threadx_backend.cpp`). Every call is made of calls
of the native timer, each of which may fail; one of them may come between two others when the
timer fires.
-/

namespace MicrOsal.ThreadxTimer

/-- `TX_TIMER` and `tx_timer_ctx`: `armed` is when an active timer fires, `remaining` what a
timer that is not active has left when it is activated. -/
structure Timer where
  started : Bool
  initial : Nat
  period : Nat
  armed : Option Nat
  remaining : Nat
  reschedule : Nat
  deriving DecidableEq, Repr

namespace Timer

/-- `osal_timer_create`. -/
def create (period : Nat) (autoReload : Bool) : Timer where
  started := false
  initial := period
  period := if autoReload then period else 0
  armed := none
  remaining := period
  reschedule := if autoReload then period else 0

/-- The `active` of `tx_timer_info_get`. -/
def active (t : Timer) : Bool := t.armed.isSome

/-- `tx_timer_deactivate`. -/
def deactivate (now : Nat) (t : Timer) : Timer :=
  match t.armed with
  | some due => { t with armed := none, remaining := due - now }
  | none => t

/-- `tx_timer_change` of a timer that is not active. -/
def change (initial reschedule : Nat) (t : Timer) : Timer :=
  { t with remaining := initial, reschedule := reschedule }

/-- `tx_timer_activate`. -/
def activate (now : Nat) (t : Timer) : Timer := { t with armed := some (now + t.remaining) }

/-- What `osal_timer_set_period` stores in the context. -/
def store (period : Nat) (t : Timer) : Timer :=
  { t with
    initial := period
    period := if t.period = 0 then 0 else period }

end Timer

/-- Which native calls fail. -/
structure Failures where
  infoGet : Bool
  deactivate : Bool
  change : Bool
  activate : Bool
  deriving DecidableEq, Repr

/-- `WAIT_FOREVER`, and the largest `ULONG`. -/
structure Limits where
  forever : Nat
  maxPeriod : Nat

/-- A period that `osal_timer_set_period` takes. -/
def Limits.accepts (l : Limits) (period : Nat) : Bool :=
  period ≠ 0 ∧ period ≠ l.forever ∧ period ≤ l.maxPeriod

inductive Op
  | start
  | stop
  | reset
  | setPeriod (period : Nat)
  deriving DecidableEq, Repr

namespace Timer

/-- `osal_timer_start`. -/
def start (now : Nat) (fails : Failures) (t : Timer) : ErrorCode × Timer :=
  if fails.infoGet then (.unknown, t)
  else if t.active then (.ok, t)
  else
    let started := { t with started := true }
    if fails.change then (.unknown, started)
    else
      let changed := started.change t.initial t.period
      if fails.activate then (.unknown, changed) else (.ok, changed.activate now)

/-- `osal_timer_stop`. -/
def stop (now : Nat) (fails : Failures) (t : Timer) : ErrorCode × Timer :=
  if fails.deactivate then (.unknown, t) else (.ok, t.deactivate now)

/-- `osal_timer_reset`. -/
def reset (now : Nat) (fails : Failures) (t : Timer) : ErrorCode × Timer :=
  match t.stop now fails with
  | (.ok, stopped) => stopped.start now fails
  | (code, stopped) => (code, stopped)

/-- `osal_timer_set_period`. -/
def setPeriod (l : Limits) (now period : Nat) (fails : Failures) (t : Timer) :
    ErrorCode × Timer :=
  if ! l.accepts period then (.invalidArgument, t)
  else if fails.infoGet || fails.deactivate then (.unknown, t)
  else
    let stopped := t.deactivate now
    if fails.change then (.unknown, stopped)
    else
      let changed := (stopped.change period (if t.period = 0 then 0 else period)).store period
      if ! t.active then (.ok, changed)
      else if fails.activate then (.unknown, changed)
      else (.ok, changed.activate now)

def exec (l : Limits) (now : Nat) (fails : Failures) (t : Timer) : Op → ErrorCode × Timer
  | .start => t.start now fails
  | .stop => t.stop now fails
  | .reset => t.reset now fails
  | .setPeriod period => t.setPeriod l now period fails

end Timer

end MicrOsal.ThreadxTimer
