import Mathlib.Tactic.Common

/-!
# MicrOsal.TimerPeriod.Account

What a change of the period promises (`set_period` in `timer.hpp`): an inactive timer remains
inactive, the mode is preserved, and no expiry is added.
-/

namespace MicrOsal.TimerPeriod

/-- What is counted of a timer. No step reads it. -/
structure Account where
  callbacks : Nat
  /-- The starts and resets that returned `ok`. -/
  starts : Nat
  /-- If the last call is a change of the period that began with the timer inactive, the
  callbacks that had run or were on their way then. -/
  quiet : Option Nat
  deriving DecidableEq, Repr

namespace Account

def new : Account := ⟨0, 0, none⟩

def callback (a : Account) : Account := { a with callbacks := a.callbacks + 1 }

def start (a : Account) : Account := { a with starts := a.starts + 1 }

/-- A call begins that is not a change of the period. -/
def call (a : Account) : Account := { a with quiet := none }

/-- A change of the period begins. -/
def setPeriod (inactive : Bool) (owed : Nat) (a : Account) : Account :=
  { a with quiet := if inactive then some (a.callbacks + owed) else none }

end Account

/-- The expiry that a one-shot timer is going to have. -/
def toCome : Option Nat → Nat
  | none => 0
  | some _ => 1

/-- A timer as its user sees it. -/
structure View where
  /-- It is going to expire, and to call back then. -/
  live : Bool
  periodic : Bool
  /-- The callbacks of the expiries so far that have not run. -/
  owed : Nat
  account : Account
  deriving DecidableEq, Repr

/-- No change of the period has added an expiry. -/
structure NoExtra (autoReload : Bool) (v : View) : Prop where
  /-- A timer that was inactive when the call began stays so, and no callback is added. -/
  quiet : ∀ k, v.account.quiet = some k →
    v.live = false ∧ v.account.callbacks + v.owed ≤ k
  mode : v.periodic = autoReload
  /-- A one-shot timer calls back once for a start or a reset. -/
  once : autoReload = false → v.account.callbacks ≤ v.account.starts

end MicrOsal.TimerPeriod
