import MicrOsal.Lib.Machine
import MicrOsal.Lib.Tally

/-!
# MicrOsal.BareMetalTimer.Model

The software timers of the bare-metal backend (`bare_metal/bare_metal_backend.cpp`): a pool that
`osal_baremetal_tick_with_timers` goes through in every tick, calling the timers that are due.

A callback may call any timer's `start`, `stop`, `reset` and `set_period`, its own included. So a
tick is not one step: the loop makes a step for each slot, and one more after a callback, and the
calls of the callback stand between them. What the loop does to a timer after its callback is
`Timer.finish`.
-/

namespace MicrOsal.BareMetalTimer

/-- The sum in `std::uint64_t`. -/
def add64 (a b : Nat) : Nat := (a + b) % 2 ^ 64

/-- `bm_timer`. The callback of a timer that was created is not null; what it does is up to the
environment. -/
structure Timer where
  deadline : Nat
  period : Nat
  autoReload : Bool
  active : Bool
  valid : Bool
  deriving DecidableEq

namespace Timer

/-- A slot that is not in use. -/
def unused : Timer := ⟨0, 0, false, false, false⟩

/-- `osal_timer_create`. -/
def create (period : Nat) (autoReload : Bool) : Timer := ⟨0, period, autoReload, false, true⟩

/-- `osal_timer_start`. -/
def start (t : Timer) (now : Nat) : Timer :=
  { t with deadline := add64 now t.period, active := true }

/-- `osal_timer_stop`. -/
def stop (t : Timer) : Timer := { t with active := false }

/-- `osal_timer_reset`. -/
def reset (t : Timer) (now : Nat) : Timer := t.stop.start now

/-- `osal_timer_set_period`. -/
def setPeriod (t : Timer) (now period : Nat) : Timer :=
  { t with period := period, deadline := add64 now period }

/-- What `bm_advance_timers` does after the callback. -/
def finish (t : Timer) (now : Nat) : Timer :=
  if t.autoReload then { t with deadline := add64 now t.period } else { t with active := false }

end Timer

/-- A call on a timer. -/
inductive Op
  | start
  | stop
  | reset
  | setPeriod (period : Nat)
  deriving DecidableEq

namespace Op

def apply (op : Op) (now : Nat) (t : Timer) : Timer :=
  match op with
  | .start => t.start now
  | .stop => t.stop
  | .reset => t.reset now
  | .setPeriod period => t.setPeriod now period

/-- The call arms its timer. -/
def arms : Op → Bool
  | .start | .reset => true
  | .stop | .setPeriod _ => false

end Op

/-- What happens at tick `now` to the timer in slot `n`. -/
inductive Event
  | op (now n : Nat) (op : Op)
  /-- The loop is at the slot, and calls the callback or not. -/
  | turn (now n : Nat) (fired : Bool)
  deriving DecidableEq

/-- Where the program is. -/
inductive Phase
  /-- Between two ticks. -/
  | idle
  /-- In `bm_advance_timers`, at slot `n`. -/
  | loop (n : Nat)
  /-- In the callback of the timer in slot `n`. -/
  | callback (n : Nat)
  deriving DecidableEq

structure State where
  /-- `bm_timer_pool`. -/
  timers : List Timer
  /-- `g_ticks`. -/
  now : Nat
  phase : Phase
  /-- What has happened; no step reads it. -/
  log : List Event

inductive Action
  /-- `osal_baremetal_tick_with_timers`, up to its loop. -/
  | tick
  /-- The loop goes on; a callback returns to it. -/
  | go
  | op (n : Nat) (op : Op)

namespace State

/-- A call on the timer in slot `n`, if there is one. -/
def perform (s : State) (n : Nat) (op : Op) : State :=
  match s.timers[n]? with
  | some t =>
      if t.valid then
        { s with
          timers := s.timers.set n (op.apply s.now t)
          log := s.log ++ [.op s.now n op] }
      else s
  | none => s

/-- The loop does not call the callback of slot `n`. -/
def pass (s : State) (n : Nat) : State :=
  { s with phase := .loop (n + 1), log := s.log ++ [.turn s.now n false] }

/-- The loop calls the callback of slot `n`. -/
def fire (s : State) (n : Nat) : State :=
  { s with phase := .callback n, log := s.log ++ [.turn s.now n true] }

/-- The loop is at slot `n`, or past the last. -/
def turn (s : State) (n : Nat) : State :=
  match s.timers[n]? with
  | some t =>
      if !t.valid || !t.active then s.pass n
      else if t.deadline ≤ s.now then s.fire n
      else s.pass n
  | none => { s with phase := .idle }

/-- The callback of slot `n` has returned. -/
def finish (s : State) (n : Nat) : State :=
  match s.timers[n]? with
  | some t => { s with timers := s.timers.set n (t.finish s.now), phase := .loop (n + 1) }
  | none => s

def step (s : State) : Action → Option State
  | .tick =>
      match s.phase with
      | .idle => some { s with now := add64 s.now 1, phase := .loop 0 }
      | _ => none
  | .go =>
      match s.phase with
      | .idle => none
      | .loop n => some (s.turn n)
      | .callback n => some (s.finish n)
  | .op n op =>
      match s.phase with
      | .loop _ => none
      | _ => some (s.perform n op)

end State

/-- The arguments of `osal_timer_create` that the loop reads. -/
structure Created where
  period : Nat
  autoReload : Bool
  deriving DecidableEq

/-- A slot of the pool, in use or not. -/
def slotTimer : Option Created → Timer
  | none => .unused
  | some c => .create c.period c.autoReload

/-- A pool, at tick 0. -/
def machine (slots : List (Option Created)) : Machine State Action where
  init := ⟨slots.map slotTimer, 0, .idle, []⟩
  step := State.step

/-! ### What a step does -/

inductive Moves : Action → State → State → Prop
  | tick {s : State} : s.phase = .idle →
      Moves .tick s { s with now := add64 s.now 1, phase := .loop 0 }
  /-- A call on a timer, between two ticks or in a callback. -/
  | op {s : State} {n : Nat} {op : Op} {t : Timer} : (∀ k, s.phase ≠ .loop k) →
      s.timers[n]? = some t → t.valid = true →
      Moves (.op n op) s { s with
        timers := s.timers.set n (op.apply s.now t)
        log := s.log ++ [.op s.now n op] }
  /-- A call without a timer. -/
  | noTimer {s : State} {n : Nat} {op : Op} : Moves (.op n op) s s
  | pass {s : State} {n : Nat} {t : Timer} : s.phase = .loop n → s.timers[n]? = some t →
      (t.valid = true → t.active = true → s.now < t.deadline) → Moves .go s (s.pass n)
  | fire {s : State} {n : Nat} {t : Timer} : s.phase = .loop n → s.timers[n]? = some t →
      t.valid = true → t.active = true → t.deadline ≤ s.now → Moves .go s (s.fire n)
  | done {s : State} {n : Nat} : s.phase = .loop n → s.timers[n]? = none →
      Moves .go s { s with phase := .idle }
  | finish {s : State} {n : Nat} {t : Timer} : s.phase = .callback n → s.timers[n]? = some t →
      Moves .go s { s with timers := s.timers.set n (t.finish s.now), phase := .loop (n + 1) }
  /-- There is no callback of a slot that is not there. -/
  | noSlot {s : State} {n : Nat} : s.phase = .callback n → s.timers[n]? = none → Moves .go s s

theorem moves_of_turn {s : State} {n : Nat} (hphase : s.phase = .loop n) :
    Moves .go s (s.turn n) := by
  unfold State.turn
  split
  case h_1 t ht =>
    split
    case isTrue hskip =>
      refine .pass hphase ht fun hvalid hactive => ?_
      rw [hvalid, hactive] at hskip
      cases hskip
    case isFalse hready =>
      have hboth : t.valid = true ∧ t.active = true := by
        cases hv : t.valid <;> cases ha : t.active <;> simp_all
      split
      case isTrue hdue => exact .fire hphase ht hboth.1 hboth.2 hdue
      case isFalse hearly => exact .pass hphase ht fun _ _ => not_le.mp hearly
  case h_2 hnone => exact .done hphase hnone

theorem moves_of_step {s s' : State} {a : Action} (h : s.step a = some s') : Moves a s s' := by
  unfold State.step at h
  cases a with
  | tick =>
      cases hphase : s.phase with
      | idle =>
          simp only [hphase] at h
          obtain rfl := Option.some.inj h
          exact .tick hphase
      | loop n | callback n =>
          simp only [hphase] at h
          cases h
  | go =>
      cases hphase : s.phase with
      | idle =>
          simp only [hphase] at h
          cases h
      | loop n =>
          simp only [hphase] at h
          obtain rfl := Option.some.inj h
          exact moves_of_turn hphase
      | callback n =>
          simp only [hphase] at h
          obtain rfl := Option.some.inj h
          unfold State.finish
          split
          case h_1 t ht => exact .finish hphase ht
          case h_2 hnone => exact .noSlot hphase hnone
  | op n op =>
      have hperform : (∀ k, s.phase ≠ .loop k) → Moves (.op n op) s (s.perform n op) := by
        intro hphase
        unfold State.perform
        split
        case h_1 t ht =>
          split
          case isTrue hvalid => exact .op hphase ht hvalid
          case isFalse => exact .noTimer
        case h_2 => exact .noTimer
      cases hphase : s.phase with
      | loop k =>
          simp only [hphase] at h
          cases h
      | idle | callback k =>
          simp only [hphase] at h
          obtain rfl := Option.some.inj h
          exact hperform (fun k hk => nomatch hphase.symm.trans hk)

end MicrOsal.BareMetalTimer
