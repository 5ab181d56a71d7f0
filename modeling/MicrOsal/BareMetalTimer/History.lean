import MicrOsal.BareMetalTimer.Model
import MicrOsal.Lib.History

/-!
# MicrOsal.BareMetalTimer.History

What a timer is for: an account of its calls and its fires alone says whether it is armed and when
it is due.

A start arms it for a full period from now, a stop disarms it, a new period counts from now if it
is armed. A one-shot is disarmed as it fires, before its callback; a periodic timer is armed for the
next period. So what a callback does to its own timer counts.
-/

namespace MicrOsal.BareMetalTimer

/-- A timer by its history. `starts` are the calls that armed it, `dropped` those of them that a
later call ended before the timer fired. -/
structure Arming where
  period : Nat
  /-- The tick at which it is due, if it is armed. -/
  deadline : Option Nat
  starts : Nat
  fires : Nat
  dropped : Nat
  deriving DecidableEq

namespace Arming

/-- A timer as it was created. -/
def created (c : Created) : Arming := ⟨c.period, none, 0, 0, 0⟩

/-- The arming that a call ends. -/
def ended (a : Arming) : Nat := if a.deadline.isSome then 1 else 0

def request (a : Arming) (now : Nat) : Op → Arming
  | .start | .reset =>
      { a with
        deadline := some (now + a.period)
        starts := a.starts + 1
        dropped := a.dropped + a.ended }
  | .stop => { a with deadline := none, dropped := a.dropped + a.ended }
  | .setPeriod period =>
      { a with period := period, deadline := a.deadline.map (fun _ => now + period) }

def fire (a : Arming) (autoReload : Bool) (now : Nat) : Arming :=
  { a with
    deadline := if autoReload then some (now + a.period) else none
    fires := a.fires + 1 }

/-- The timer in slot `n` after an event. -/
def after (autoReload : Bool) (n : Nat) (a : Arming) : Event → Arming
  | .op now m op => if m = n then a.request now op else a
  | .turn now m fired => if m = n ∧ fired = true then a.fire autoReload now else a

/-- It is armed, and its deadline has been reached. -/
def Due (a : Arming) (now : Nat) : Prop := ∃ d, a.deadline = some d ∧ d ≤ now

end Arming

/-- The timer in slot `n` by the record. -/
def arming (c : Created) (n : Nat) (log : List Event) : Arming :=
  log.foldl (Arming.after c.autoReload n) (.created c)

theorem arming_concat (c : Created) (n : Nat) (log : List Event) (e : Event) :
    arming c n (log ++ [e]) = (arming c n log).after c.autoReload n e := by
  unfold arming
  rw [List.foldl_append]
  rfl

theorem arming_append (c : Created) (n : Nat) (log more : List Event) :
    arming c n (log ++ more) = more.foldl (Arming.after c.autoReload n) (arming c n log) := by
  unfold arming
  rw [List.foldl_append]

/-- An event that the timer in slot `n` has no part in. -/
def Event.spares (n : Nat) : Event → Bool
  | .op _ m _ => m != n
  | .turn _ m fired => !(m == n && fired)

/-- An event that does not arm the timer in slot `n`, unless it is that it fires. -/
def Event.noStart (n : Nat) : Event → Bool
  | .op _ m call => !(m == n && call.arms)
  | .turn _ _ _ => true

namespace Arming

variable {a : Arming} {n : Nat} {autoReload : Bool} {e : Event}

theorem after_of_spares (h : e.spares n = true) : a.after autoReload n e = a := by
  cases e with
  | op now m op =>
      have hne : m ≠ n := by simpa [Event.spares] using h
      exact if_neg hne
  | turn now m fired =>
      refine if_neg ?_
      rintro ⟨rfl, rfl⟩
      simp [Event.spares] at h

theorem foldl_of_spares {log : List Event} (h : ∀ e ∈ log, e.spares n = true) (a : Arming) :
    log.foldl (Arming.after autoReload n) a = a := by
  induction log with
  | nil => rfl
  | cons e rest ih =>
      rw [List.foldl_cons, after_of_spares (h e (List.mem_cons_self ..))]
      exact ih fun e he => h e (List.mem_cons_of_mem _ he)

/-- Only starts and the fires of a periodic timer arm. -/
theorem request_none {now : Nat} {op : Op} (hnone : a.deadline = none) (hop : op.arms = false) :
    (a.request now op).deadline = none := by
  cases op with
  | start | reset => cases hop
  | stop => rfl
  | setPeriod period => exact congrArg (Option.map fun _ => now + period) hnone

theorem request_arms {now : Nat} {op : Op} (hop : op.arms = true) :
    (a.request now op).deadline = some (now + a.period) := by
  cases op with
  | start | reset => rfl
  | stop | setPeriod => cases hop

/-- An arming has fired, was ended by a call, or is still pending. -/
def Balanced (a : Arming) : Prop := a.starts = a.fires + a.dropped + a.ended

theorem Balanced.created (c : Created) : (Arming.created c).Balanced := rfl

theorem Balanced.request {now : Nat} (h : a.Balanced) (op : Op) : (a.request now op).Balanced := by
  unfold Balanced at *
  cases op with
  | start | reset =>
      show a.starts + 1 = a.fires + (a.dropped + a.ended) + 1
      omega
  | stop =>
      show a.starts = a.fires + (a.dropped + a.ended) + 0
      omega
  | setPeriod period =>
      have hsame : (a.request now (.setPeriod period)).ended = a.ended := by
        unfold ended Arming.request
        dsimp only
        rw [Option.isSome_map]
      rw [hsame]
      exact h

/-- A one-shot that was armed fires. -/
theorem Balanced.fire {now : Nat} (h : a.Balanced) (hdue : a.Due now) :
    (a.fire false now).Balanced := by
  obtain ⟨d, hd, -⟩ := hdue
  have hone : a.ended = 1 := by
    unfold ended
    rw [hd]
    rfl
  unfold Balanced at *
  show a.starts = a.fires + 1 + a.dropped + 0
  omega

end Arming

end MicrOsal.BareMetalTimer
