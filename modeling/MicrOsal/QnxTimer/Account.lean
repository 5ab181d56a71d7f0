import MicrOsal.Lib.History
import MicrOsal.QnxTimer.Model

/-!
# MicrOsal.QnxTimer.Account

What a timer is for, by the record of its calls and callbacks alone (`Ideal`), and how the context
and the watcher of a QNX timer keep account of it.

A wait that is over is worth something only if `arm_revision` is as it was. Whatever calls come
between the end of the wait and the moment when the watcher has the mutex, every one that arms the
timer takes a new revision.
-/

namespace MicrOsal.QnxTimer

open Timer (tickNs maxTime)

variable {w : Nat} {s s' : State w} {c c' : Ctx w} {e : Event}

/-! ### What a timer is for -/

/-- When the timer is to call back. -/
inductive Due
  | idle
  /-- From this time on. -/
  | ready (time : Nat)
  /-- A period after the callback that is running. -/
  | afterwards
  deriving DecidableEq

/-- A timer by its history. -/
structure Ideal where
  /-- In nanoseconds. -/
  period : Nat
  due : Due
  /-- It is being destroyed. -/
  closed : Bool
  deriving DecidableEq

namespace Ideal

def after (autoReload : Bool) (i : Ideal) : Event → Ideal
  | .start now => { i with due := .ready (now + i.period) }
  | .stop => { i with due := .idle }
  | .setPeriod now period =>
      { i with period := period, due := if i.due = .idle then .idle else .ready (now + period) }
  | .destroy => { i with due := .idle, closed := true }
  | .called _ => { i with due := if autoReload then .afterwards else .idle }
  | .returned now =>
      { i with due := if i.due = .afterwards then .ready (now + i.period) else i.due }

end Ideal

/-- The timer by the record. -/
def ideal (period : Nat) (autoReload : Bool) (log : List Event) : Ideal :=
  log.foldl (Ideal.after autoReload) ⟨period, .idle, false⟩

theorem ideal_concat (period : Nat) (autoReload : Bool) (log : List Event) (e : Event) :
    ideal period autoReload (log ++ [e]) = (ideal period autoReload log).after autoReload e := by
  unfold ideal
  rw [List.foldl_append]
  rfl

/-- The callback is called when the timer is due, and not when it is destroyed. -/
def Right (period : Nat) (autoReload : Bool) (log : List Event) : Event → Prop
  | .called now =>
      (ideal period autoReload log).closed = false ∧
        ∃ t, (ideal period autoReload log).due = .ready t ∧ t ≤ now
  | _ => True

/-! ### The invariant -/

/-- The watcher is in the callback, or comes from it. -/
def Watcher.calls : Watcher → Option (BitVec 64)
  | .callback revision => some revision
  | .returned revision => some revision
  | _ => none

/-- The context says what the record says. -/
structure Tracks (i : Ideal) (armings : Nat) (watcher : Watcher) (c : Ctx w) : Prop where
  period : i.period = c.period.toNat * tickNs
  period_ne : c.period ≠ 0 ∧ c.period ≠ waitForever
  revision : c.armRevision.toNat = armings
  closed : i.closed = c.shutdown
  /-- It is due at the deadline, a period after the callback, or not at all. -/
  due : (c.active = false ∧ i.due = .idle) ∨
    (c.active = true ∧ ((∃ t, i.due = .ready t ∧ c.deadline = min t maxTime ∧
        (c.autoReload = true → watcher.calls ≠ some c.armRevision)) ∨
      (i.due = .afterwards ∧ c.autoReload = true ∧ watcher.calls = some c.armRevision)))

/-- What the watcher knows of the context. -/
def Watcher.Knows (now : Nat) (c : Ctx w) : Watcher → Prop
  | .asleep => c.active = false ∧ c.shutdown = false
  | .waiting deadline revision =>
      c.active = true ∧ c.shutdown = false ∧ deadline = c.deadline ∧ revision = c.armRevision
  | .timedOut revision =>
      revision.toNat ≤ c.armRevision.toNat ∧
        (revision = c.armRevision → c.active = true → c.deadline ≤ now)
  | .callback revision => revision.toNat ≤ c.armRevision.toNat
  | .returned revision => revision.toNat ≤ c.armRevision.toNat
  | .exiting release => c.shutdown = true ∧ release = c.releaseFromWatcher
  | .gone => c.shutdown = true ∧ c.releaseFromWatcher = false
  | .entering => True

/-- Who still has the context. -/
structure Owned (s : State w) (c : Ctx w) : Prop where
  released : c.releaseFromWatcher = true → s.handle = false ∧ s.destroyer = .absent
  handle : c.releaseFromWatcher = false → s.handle = true
  destroyer : s.destroyer ≠ .absent → c.shutdown = true
  release : s.destroyer = .release → s.watcher = .gone
  clear : s.destroyer ≠ .clear

structure Inv (period : Nat) (autoReload : Bool) (s : State w) : Prop where
  fault : s.fault = false
  now : s.now < maxTime
  right : EachAfter (Right period autoReload) s.log
  tracks : ∀ c, s.ctx = some c →
    Tracks (ideal period autoReload s.log) s.armings s.watcher c ∧ c.autoReload = autoReload
  knows : ∀ c, s.ctx = some c → s.watcher.Knows s.now c
  owned : ∀ c, s.ctx = some c → Owned s c
  deleted : s.ctx = none → s.watcher = .gone ∧
    (s.destroyer = .clear ∨ s.destroyer = .absent ∧ s.handle = false)

/-! ### Times -/

theorem msToAbsMono_of_ne {period : Tick w} (h : period ≠ waitForever) (now : Nat) :
    msToAbsMono now period = min (now + period.toNat * tickNs) maxTime := if_neg h

/-- Where the watcher is after a broadcast. -/
def Watcher.woken : Watcher → Watcher
  | .asleep => .entering
  | .waiting _ _ => .entering
  | watcher => watcher

theorem State.broadcast_eq (s : State w) :
    s.broadcast = { s with watcher := s.watcher.woken } := by
  obtain ⟨ctx, handle, watcher, destroyer, now, armings, log, fault⟩ := s
  cases watcher <;> rfl

theorem Watcher.calls_woken (watcher : Watcher) : watcher.woken.calls = watcher.calls := by
  cases watcher <;> rfl

theorem State.use_eq (hctx : s.ctx = some c) (f : Ctx w → State w) : s.use f = f c := by
  unfold State.use
  rw [hctx]

/-! ### Arming -/

theorem revision_succ {r : BitVec 64} (h : r.toNat + 1 < 2 ^ 64) :
    (r + 1).toNat = r.toNat + 1 := by
  rw [BitVec.toNat_add]
  exact Nat.mod_eq_of_lt h

namespace Tracks

variable {i i' : Ideal} {armings n : Nat} {watcher watcher' : Watcher}

theorem congr (h : Tracks i armings watcher c) (hcalls : watcher'.calls = watcher.calls) :
    Tracks i armings watcher' c where
  period := h.period
  period_ne := h.period_ne
  revision := h.revision
  closed := h.closed
  due := by
    rw [hcalls]
    exact h.due

/-- The timer is armed with a new revision, which no watcher has noted. -/
theorem arm (h : Tracks i armings watcher c) {period : Tick w}
    (hperiod : period ≠ 0 ∧ period ≠ waitForever) (hwraps : armings + 1 < 2 ^ 64)
    (hold : ∀ r, watcher.calls = some r → r.toNat ≤ c.armRevision.toNat)
    (hi : i' = { i with
      period := period.toNat * tickNs, due := .ready (n + period.toNat * tickNs) }) :
    Tracks i' (armings + 1) watcher { c with
      period := period
      active := true
      deadline := msToAbsMono n period
      armRevision := c.armRevision + 1 } := by
  have hrevision : (c.armRevision + 1).toNat = armings + 1 := by
    rw [revision_succ (by rw [h.revision]; exact hwraps), h.revision]
  subst hi
  refine ⟨rfl, hperiod, hrevision, h.closed, .inr ⟨rfl, .inl ⟨_, rfl, ?_, fun _ hcalls => ?_⟩⟩⟩
  · exact msToAbsMono_of_ne hperiod.2 n
  · have hle := hold _ hcalls
    rw [hrevision, h.revision] at hle
    omega

/-- The timer is not armed. -/
theorem disarm (h : Tracks i armings watcher c) (hc : c'.active = false)
    (hperiod : c'.period = c.period) (hrevision : c'.armRevision = c.armRevision)
    (hi : i'.due = .idle) (hi' : i'.period = i.period) (hclosed : i'.closed = c'.shutdown) :
    Tracks i' armings watcher c' where
  period := by rw [hi', hperiod, h.period]
  period_ne := by
    rw [hperiod]
    exact h.period_ne
  revision := by rw [hrevision, h.revision]
  closed := hclosed
  due := .inl ⟨hc, hi⟩

/-- A timer that is active is due at its deadline, unless its callback is running. -/
theorem due_at (h : Tracks i armings watcher c) (hactive : c.active = true)
    (hcalls : watcher.calls = none) : ∃ t, i.due = .ready t ∧ c.deadline = min t maxTime := by
  rcases h.due with ⟨hinactive, -⟩ | ⟨-, ⟨t, hdue, hdeadline, -⟩ | ⟨-, -, hcalls'⟩⟩
  · rw [hactive] at hinactive
    cases hinactive
  · exact ⟨t, hdue, hdeadline⟩
  · rw [hcalls] at hcalls'
    cases hcalls'

end Tracks

/-- What the watcher has noted is no newer than the context. -/
theorem Watcher.Knows.calls_le {watcher : Watcher} {now : Nat} (h : watcher.Knows now c)
    {r : BitVec 64} (hr : watcher.calls = some r) : r.toNat ≤ c.armRevision.toNat := by
  cases watcher with
  | callback revision =>
      cases hr
      exact h
  | returned revision =>
      cases hr
      exact h
  | _ => cases hr

/-- A watcher that a broadcast does not wake keeps what it knows if the timer is armed. -/
theorem Watcher.Knows.arm {watcher : Watcher} {now : Nat} (h : watcher.Knows now c)
    (hrevision : c'.armRevision.toNat = c.armRevision.toNat + 1)
    (hshutdown : c'.shutdown = c.shutdown)
    (hrelease : c'.releaseFromWatcher = c.releaseFromWatcher) : watcher.woken.Knows now c' := by
  cases watcher with
  | entering => trivial
  | asleep => trivial
  | waiting deadline revision => trivial
  | timedOut revision =>
      have hle : revision.toNat ≤ c.armRevision.toNat := h.1
      refine ⟨by rw [hrevision]; omega, ?_⟩
      rintro rfl
      omega
  | callback revision =>
      have hle : revision.toNat ≤ c.armRevision.toNat := h
      show revision.toNat ≤ c'.armRevision.toNat
      omega
  | returned revision =>
      have hle : revision.toNat ≤ c.armRevision.toNat := h
      show revision.toNat ≤ c'.armRevision.toNat
      omega
  | exiting release => exact ⟨hshutdown.trans h.1, h.2.trans hrelease.symm⟩
  | gone => exact ⟨hshutdown.trans h.1, hrelease.trans h.2⟩

/-- So it does if the timer is not armed any more. -/
theorem Watcher.Knows.disarm {watcher : Watcher} {now : Nat} (h : watcher.Knows now c)
    (hactive : c'.active = false) (hrevision : c'.armRevision = c.armRevision)
    (hshutdown : c.shutdown = true → c'.shutdown = true)
    (hrelease : watcher.calls = none → c'.releaseFromWatcher = c.releaseFromWatcher) :
    watcher.woken.Knows now c' := by
  cases watcher with
  | entering => trivial
  | asleep => trivial
  | waiting deadline revision => trivial
  | timedOut revision =>
      refine ⟨hrevision ▸ h.1, fun _ hactive' => ?_⟩
      rw [hactive] at hactive'
      cases hactive'
  | callback revision =>
      show revision.toNat ≤ c'.armRevision.toNat
      rw [hrevision]
      exact h
  | returned revision =>
      show revision.toNat ≤ c'.armRevision.toNat
      rw [hrevision]
      exact h
  | exiting release => exact ⟨hshutdown h.1, h.2.trans (hrelease rfl).symm⟩
  | gone => exact ⟨hshutdown h.1, (hrelease rfl).trans h.2⟩

/-- The period is nothing that it knows of. -/
theorem Watcher.Knows.period {watcher : Watcher} {now : Nat} (h : watcher.Knows now c)
    (period : Tick w) : watcher.Knows now { c with period := period } := by
  cases watcher <;> exact h

end MicrOsal.QnxTimer
