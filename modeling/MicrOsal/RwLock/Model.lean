import MicrOsal.Core
import MicrOsal.Lib.Machine
import MicrOsal.Lib.Tally

/-!
# MicrOsal.RwLock.Model

The emulated read-write lock (`src/common/emulated_rwlock.inl`): a guard mutex, a
condition variable, a count of readers and a writer flag.

The condition variable is taken by its contract. A wait releases the guard and
registers in one step, or fails at once; a registered thread wakes up when
somebody has notified it, spuriously, by a timeout or by an error; and it locks
the guard again before it goes on. `notify_all` marks every registered thread.
What a wait returns is decided by the action.

`touched` and `returned` are a record of what the calls did; no step of the
program reads them.
-/

namespace MicrOsal

inductive RwMode
  | read
  | write
  deriving DecidableEq, Repr

inductive RwOp
  | lock
  | unlock
  deriving DecidableEq, Repr

/-- The arguments and the start time of a lock call. -/
structure RwWait (w : Nat) where
  mode : RwMode
  timeout : Tick w
  start : Tick w
  deriving DecidableEq, Repr

/-- The call gives up after `timeout` ticks. -/
def RwWait.timed {w : Nat} (c : RwWait w) : Bool := c.timeout != waitForever

/-- Where a thread is. -/
inductive RwThread (w : Nat)
  | idle
  /-- `osal_rwlock_read_lock` or `osal_rwlock_write_lock`: about to lock the guard. -/
  | enterLock (mode : RwMode) (timeout : Tick w)
  /-- `osal_rwlock_read_unlock` or `osal_rwlock_write_unlock`: about to lock the guard. -/
  | enterUnlock (mode : RwMode)
  /-- At the condition of the loop. -/
  | test (c : RwWait w)
  /-- Registered on the condition variable; `woken` once a notify has marked it. -/
  | blocked (c : RwWait w) (woken : Bool)
  /-- `osal_condvar_wait` is about to lock the guard and to return `r`. -/
  | relock (c : RwWait w) (r : ErrorCode)
  /-- An unlock call that holds the guard. -/
  | release (mode : RwMode)
  /-- An unlock call that has let go, about to call `osal_condvar_notify_all`. -/
  | notify (mode : RwMode)
  /-- About to unlock the guard and return `r`. -/
  | finish (op : RwOp) (mode : RwMode) (r : ErrorCode)
  deriving DecidableEq, Repr

/-- Where a lock call goes on after `osal_condvar_wait`. A timed call looks at the
clock again when its wait has timed out. -/
def RwWait.resume {w : Nat} (c : RwWait w) (r : ErrorCode) : RwThread w :=
  if r = .ok ∨ (c.timed = true ∧ r = .timeout) then .test c else .finish .lock c.mode r

/-- The effect of `osal_condvar_notify_all` on a thread. -/
def RwThread.wake {w : Nat} : RwThread w → RwThread w
  | .blocked c _ => .blocked c true
  | th => th

/-- Record of a call that has returned. -/
structure RwReturn where
  op : RwOp
  mode : RwMode
  result : ErrorCode
  /-- A step of the call has changed `reader_count` or `writer_active`. -/
  touched : Bool
  deriving DecidableEq, Repr

/-- `emulated_rwlock_obj` and its threads. -/
structure RwState (w : Nat) where
  /-- The thread that holds the guard. -/
  guard : Option Nat
  readerCount : Nat
  writerActive : Bool
  threads : List (RwThread w)
  /-- The true tick count. -/
  clock : Nat
  /-- Record: the thread's call has changed `reader_count` or `writer_active`. -/
  touched : Nat → Bool
  /-- Record: the calls that have returned. -/
  returned : List RwReturn

/-- What happens next. -/
inductive RwAct (w : Nat)
  | lock (n : Nat) (mode : RwMode) (timeout : Tick w)
  | unlock (n : Nat) (mode : RwMode)
  | tick
  /-- Thread `n` takes its next step. `choice` is what a wait returns: at the loop an
  error makes it fail at once, in the wait it ends it. -/
  | step (n : Nat) (choice : ErrorCode)
  deriving DecidableEq, Repr

namespace RwState

variable {w : Nat}

/-- `osal_rwlock_create`. -/
def create (w numThreads : Nat) : RwState w where
  guard := none
  readerCount := 0
  writerActive := false
  threads := List.replicate numThreads .idle
  clock := 0
  touched := fun _ => false
  returned := []

def setThread (s : RwState w) (n : Nat) (th : RwThread w) : RwState w :=
  { s with threads := s.threads.set n th }

/-- The lock call does not have to wait: the condition of its loop is false. -/
def admits (s : RwState w) : RwMode → Bool
  | .read => !s.writerActive
  | .write => !(s.writerActive || decide (s.readerCount > 0))

/-- The lock is taken. -/
def acquire (s : RwState w) : RwMode → RwState w
  | .read => { s with readerCount := s.readerCount + 1 }
  | .write => { s with writerActive := true }

/-- The next step of thread `n`. -/
def advance (s : RwState w) (n : Nat) (choice : ErrorCode) : RwThread w → Option (RwState w)
  | .idle => none
  | .enterLock mode timeout =>
      if s.guard.isSome then none
      else
        some ({ s with guard := some n }.setThread n
          (.test ⟨mode, timeout, clockTicks w s.clock⟩))
  | .enterUnlock mode =>
      if s.guard.isSome then none
      else some ({ s with guard := some n }.setThread n (.release mode))
  | .test c =>
      if s.admits c.mode then
        some ((s.acquire c.mode).setThread n (.finish .lock c.mode .ok))
      else if c.timed = true ∧ c.timeout ≤ clockTicks w s.clock - c.start then
        some (s.setThread n (.finish .lock c.mode .timeout))
      else if choice = .ok then some ({ s with guard := none }.setThread n (.blocked c false))
      else some (s.setThread n (c.resume choice))
  | .blocked c _ =>
      -- Spurious wake-ups are allowed, so the mark is not looked at.
      if choice = .timeout ∧ c.timed = false then none
      else some (s.setThread n (.relock c choice))
  | .relock c r =>
      if s.guard.isSome then none
      else some ({ s with guard := some n }.setThread n (c.resume r))
  | .release .read =>
      if s.readerCount = 0 then
        some (s.setThread n (.finish .unlock .read .invalidArgument))
      else
        some ({ s with readerCount := s.readerCount - 1 }.setThread n
          (if s.readerCount - 1 = 0 then .notify .read else .finish .unlock .read .ok))
  | .release .write =>
      if s.writerActive then
        some ({ s with writerActive := false }.setThread n (.notify .write))
      else some (s.setThread n (.finish .unlock .write .invalidArgument))
  | .notify mode =>
      some ({ s with threads := s.threads.map RwThread.wake }.setThread n
        (.finish .unlock mode .ok))
  | .finish op mode r =>
      some ({ s with
        guard := none
        returned := ⟨op, mode, r, s.touched n⟩ :: s.returned }.setThread n .idle)

/-- `s'` after a step of thread `n` from `s`, with the record of what it changed. -/
def note (s : RwState w) (n : Nat) (s' : RwState w) : RwState w :=
  { s' with
    touched := Function.update s'.touched n (s'.touched n ||
      decide (s'.readerCount ≠ s.readerCount ∨ s'.writerActive ≠ s.writerActive)) }

/-- One step of the system. -/
def next (s : RwState w) : RwAct w → Option (RwState w)
  | .lock n mode timeout =>
      if s.threads[n]? = some .idle then
        some ({ s with touched := Function.update s.touched n false }.setThread n
          (.enterLock mode timeout))
      else none
  | .unlock n mode =>
      if s.threads[n]? = some .idle then
        some ({ s with touched := Function.update s.touched n false }.setThread n
          (.enterUnlock mode))
      else none
  | .tick => some { s with clock := s.clock + 1 }
  | .step n choice => ((s.threads[n]?).bind (s.advance n choice)).map (s.note n)

end RwState

/-- A read-write lock used by `numThreads` threads, with `w`-bit ticks. -/
def rwlockMachine (w numThreads : Nat) : Machine (RwState w) (RwAct w) where
  init := .create w numThreads
  step := RwState.next

end MicrOsal
