import MicrOsal.Core
import MicrOsal.Lib.Machine
import MicrOsal.Lib.Tally

/-!
# MicrOsal.Condvar.Model

The emulated condition variable (`src/common/emulated_condvar.inl`): a bounded
array of waiters with a binary semaphore each and a guard mutex, used with one
user mutex by any number of threads. `osal::condvar::wait(m, pred)` and
`osal::notification::wait` with an infinite timeout are on top of it.

A locked region of the guard that performs at most one semaphore operation is
one step; `notify_all` holds the guard over several steps, since a waiter may
take its token while the scan goes on. `unlock` of the user mutex, `take` and
`lock` are steps of their own. Whether a timed `osal_semaphore_take` gives up is
decided by the action; it does so only without a token. What a predicate
evaluates to is decided by the action, too.

`ticket`, `notified`, `returned`, `notices` and `released` are a record of what
happened; no step of the program reads them.
-/

namespace MicrOsal

/-! ### The object -/

/-- `emulated_condvar_waiter`. -/
structure CvWaiter where
  /-- The binary semaphore holds a token. -/
  sem : Bool
  inUse : Bool
  signalled : Bool
  /-- Record: the wait that registered the slot last. -/
  ticket : Nat
  deriving DecidableEq, Repr

/-- The slot is looked for by `notify_one` and `notify_all`. -/
def CvWaiter.waiting (w : CvWaiter) : Bool := w.inUse && !w.signalled

/-- `w.signalled = true` and `osal_semaphore_give`. -/
def CvWaiter.signal (w : CvWaiter) : CvWaiter := { w with signalled := true, sem := true }

/-- `emulated_condvar_obj`. -/
structure EmuCondvar where
  waiters : List CvWaiter
  /-- The thread that holds the guard between steps. -/
  guard : Option Nat
  nWaiters : Nat
  deriving DecidableEq, Repr

namespace EmuCondvar

/-- `osal_condvar_create`, with `OSAL_CONDVAR_MAX_WAITERS` slots. -/
def create (maxWaiters : Nat) : EmuCondvar where
  waiters := List.replicate maxWaiters ⟨false, false, false, 0⟩
  guard := none
  nWaiters := 0

/-- The first locked region of `osal_condvar_wait`: the slot that is claimed. -/
def claim (cv : EmuCondvar) (ticket : Nat) : Option (Nat × EmuCondvar) :=
  match cv.waiters.findIdx? (fun w => !w.inUse) with
  | none => none
  | some k =>
      some (k, { cv with
        waiters := cv.waiters.set k ⟨false, true, false, ticket⟩
        nWaiters := cv.nWaiters + 1 })

/-- The last locked region of `osal_condvar_wait`. -/
def free (cv : EmuCondvar) (k : Nat) (w : CvWaiter) : EmuCondvar :=
  { cv with
    waiters := cv.waiters.set k { w with inUse := false }
    nWaiters := if cv.nWaiters = 0 then sizeModulus - 1 else cv.nWaiters - 1 }

/-- Store waiter `k`. -/
def setWaiter (cv : EmuCondvar) (k : Nat) (w : CvWaiter) : EmuCondvar :=
  { cv with waiters := cv.waiters.set k w }

/-- The slot `osal_condvar_notify_one` signals. -/
def target (cv : EmuCondvar) : Option (Nat × CvWaiter) :=
  if cv.nWaiters = 0 then none
  else (cv.waiters.findIdx? CvWaiter.waiting).bind (fun k => (cv.waiters[k]?).map (fun w => (k, w)))

end EmuCondvar

/-! ### Threads -/

/-- Who called `osal_condvar_wait`. -/
inductive CvCaller
  | direct
  /-- `condvar::wait(m, pred)`. -/
  | predicate
  /-- `notification::wait` with a negative timeout. -/
  | notification
  deriving DecidableEq, Repr

/-- The arguments of `osal_condvar_wait`. -/
structure CvWait where
  /-- The timeout is not `WAIT_FOREVER`. -/
  timed : Bool
  caller : CvCaller
  deriving DecidableEq, Repr

/-- Where a thread is. -/
inductive CvThread
  | idle
  /-- `notification::wait`: about to lock the mutex. -/
  | enter
  /-- `notification::wait`: at `if (!slot.pending)`. -/
  | check
  /-- The predicate loop: about to evaluate `pred()`, not for the first time if
  `again`. -/
  | eval (caller : CvCaller) (again : Bool)
  /-- `notification::wait`: done, about to unlock the mutex. -/
  | finish
  /-- `osal_condvar_wait`: about to claim a slot. -/
  | register (c : CvWait)
  /-- Registered: about to unlock the user mutex. -/
  | unlock (c : CvWait) (k ticket : Nat)
  /-- In `osal_semaphore_take`. -/
  | take (c : CvWait) (k ticket : Nat)
  /-- About to lock the user mutex. -/
  | relock (c : CvWait) (k ticket : Nat) (r : ErrorCode)
  /-- About to release the slot. -/
  | leave (c : CvWait) (k ticket : Nat) (r : ErrorCode)
  /-- `osal_condvar_notify_all`: about to look at slot `k`. -/
  | notifyAll (k : Nat)
  deriving DecidableEq, Repr

/-- The wait a registered thread is in: its slot and its ticket. -/
def CvThread.registered : CvThread → Option (Nat × Nat)
  | .unlock _ k ticket => some (k, ticket)
  | .take _ k ticket => some (k, ticket)
  | .relock _ k ticket _ => some (k, ticket)
  | .leave _ k ticket _ => some (k, ticket)
  | _ => none

/-- The result of the thread's `osal_semaphore_take`, once it has one. -/
def CvThread.taken : CvThread → Option ErrorCode
  | .relock _ _ _ r => some r
  | .leave _ _ _ r => some r
  | _ => none

/-- The thread is inside `osal_condvar_wait`. -/
def CvThread.inWait : CvThread → Bool
  | .register _ => true
  | .unlock _ _ _ => true
  | .take _ _ _ => true
  | .relock _ _ _ _ => true
  | .leave _ _ _ _ => true
  | _ => false

/-- Where `osal_condvar_wait` returns to: the loops ignore its result. -/
def CvCaller.resume : CvCaller → CvThread
  | .direct => .idle
  | .predicate => .eval .predicate true
  | .notification => .eval .notification true

/-! ### The machine -/

/-- Record of an `osal_condvar_notify_one`: the waits that were registered and not
signalled, those among them that had not timed out, and the wait it signalled. -/
structure CvNotice where
  waiting : List Nat
  eligible : List Nat
  target : Option Nat
  deriving DecidableEq, Repr

structure CvState where
  cv : EmuCondvar
  /-- The thread that holds the user mutex. -/
  mutex : Option Nat
  threads : Nat → CvThread
  /-- Record: the number of registrations. -/
  nextTicket : Nat
  /-- Record: the waits that a notify has signalled. -/
  notified : List Nat
  /-- Record: the results of the waits that have returned. -/
  returned : List (Nat × ErrorCode)
  /-- Record: the calls of `notify_one`. -/
  notices : List CvNotice
  /-- Record: the waits that have timed out. -/
  timedOut : List Nat
  /-- Record: the thread has unlocked the user mutex since it last evaluated its
  predicate. -/
  released : Nat → Bool

/-- What happens next. -/
inductive CvAct
  /-- An idle thread locks the user mutex. -/
  | lock (n : Nat)
  /-- An idle thread unlocks the user mutex. -/
  | unlock (n : Nat)
  | wait (n : Nat) (timed : Bool)
  /-- `condvar::wait(m, pred)`. -/
  | waitPredicate (n : Nat)
  /-- `notification::wait` with a negative timeout. -/
  | notificationWait (n : Nat)
  | notifyOne (n : Nat)
  | notifyAll (n : Nat)
  /-- Thread `n` takes its next step; `choice` is the value of the predicate, or
  whether a timed wait gives up. -/
  | step (n : Nat) (choice : Bool)
  deriving DecidableEq, Repr

namespace CvState

def fresh (maxWaiters : Nat) : CvState where
  cv := .create maxWaiters
  mutex := none
  threads := fun _ => .idle
  nextTicket := 0
  notified := []
  returned := []
  notices := []
  timedOut := []
  released := fun _ => false

def setThread (s : CvState) (n : Nat) (th : CvThread) : CvState :=
  { s with threads := Function.update s.threads n th }

/-- The tickets of the slots that a notify may signal. -/
def waitingTickets (s : CvState) : List Nat := (s.cv.waiters.filter CvWaiter.waiting).map (·.ticket)

/-- Those among them whose wait has not timed out. -/
def eligibleTickets (s : CvState) : List Nat :=
  s.waitingTickets.filter (fun ticket => ticket ∉ s.timedOut)

/-- `osal_condvar_notify_one`. -/
def notifyOne (s : CvState) : Option CvState :=
  if s.cv.guard.isSome then none
  else
    let notice := ⟨s.waitingTickets, s.eligibleTickets, s.cv.target.map (·.2.ticket)⟩
    match s.cv.target with
    | none => some { s with notices := notice :: s.notices }
    | some (k, w) =>
        some { s with
          cv := s.cv.setWaiter k w.signal
          notified := w.ticket :: s.notified
          notices := notice :: s.notices }

/-- The next step of thread `n`. -/
def advance (s : CvState) (n : Nat) (choice : Bool) : Option CvState :=
  match s.threads n with
  | .idle => none
  | .enter =>
      if s.mutex.isSome then none else some ({ s with mutex := some n }.setThread n .check)
  | .check =>
      -- `slot.pending` is `choice`.
      some (s.setThread n (if choice then .finish else .eval .notification false))
  | .eval caller _ =>
      if choice then
        some (s.setThread n (if caller = .notification then .finish else .idle))
      else
        some ({ s with released := Function.update s.released n false }.setThread n
          (.register ⟨false, caller⟩))
  | .finish => some ({ s with mutex := none }.setThread n .idle)
  | .register c =>
      if s.cv.guard.isSome then none
      else
        match s.cv.claim s.nextTicket with
        | none =>
            -- `out_of_resources`, with the user mutex held.
            some (s.setThread n c.caller.resume)
        | some (k, cv) =>
            some ({ s with cv := cv, nextTicket := s.nextTicket + 1 }.setThread n
              (.unlock c k s.nextTicket))
  | .unlock c k ticket =>
      some ({ s with mutex := none, released := Function.update s.released n true }.setThread n
        (.take c k ticket))
  | .take c k ticket => do
      let w ← s.cv.waiters[k]?
      if w.sem then
        some ({ s with cv := s.cv.setWaiter k { w with sem := false } }.setThread n
          (.relock c k ticket .ok))
      else if c.timed && choice then
        some ({ s with timedOut := ticket :: s.timedOut }.setThread n
          (.relock c k ticket .timeout))
      else none
  | .relock c k ticket r =>
      if s.mutex.isSome then none
      else some ({ s with mutex := some n }.setThread n (.leave c k ticket r))
  | .leave c k ticket r => do
      let w ← s.cv.waiters[k]?
      if s.cv.guard.isSome then none
      else
        some ({ s with cv := s.cv.free k w, returned := (ticket, r) :: s.returned }.setThread n
          c.caller.resume)
  | .notifyAll k =>
      match s.cv.waiters[k]? with
      | none => some ({ s with cv := { s.cv with guard := none } }.setThread n .idle)
      | some w =>
          if w.waiting then
            some ({ s with
              cv := s.cv.setWaiter k w.signal
              notified := w.ticket :: s.notified }.setThread n (.notifyAll (k + 1)))
          else some (s.setThread n (.notifyAll (k + 1)))

/-- One step of the system. -/
def next (s : CvState) : CvAct → Option CvState
  | .lock n =>
      if s.threads n = .idle ∧ s.mutex = none then some { s with mutex := some n } else none
  | .unlock n =>
      if s.threads n = .idle ∧ s.mutex = some n then some { s with mutex := none } else none
  | .wait n timed =>
      if s.threads n = .idle ∧ s.mutex = some n then
        some (s.setThread n (.register ⟨timed, .direct⟩))
      else none
  | .waitPredicate n =>
      if s.threads n = .idle ∧ s.mutex = some n then
        some (s.setThread n (.eval .predicate false))
      else none
  | .notificationWait n =>
      if s.threads n = .idle ∧ s.mutex ≠ some n then some (s.setThread n .enter) else none
  | .notifyOne n => if s.threads n = .idle then s.notifyOne else none
  | .notifyAll n =>
      if s.threads n = .idle ∧ s.cv.guard = none then
        -- `n_waiters == 0` returns at once.
        if s.cv.nWaiters = 0 then some s
        else some ({ s with cv := { s.cv with guard := some n } }.setThread n (.notifyAll 0))
      else none
  | .step n choice => s.advance n choice

end CvState

/-- The condition variable with `maxWaiters` slots and its threads. -/
def condvarMachine (maxWaiters : Nat) : Machine CvState CvAct where
  init := .fresh maxWaiters
  step := CvState.next

end MicrOsal
