import MicrOsal.Core
import MicrOsal.Lib.Machine
import MicrOsal.Lib.Ring

/-!
# MicrOsal.Queue.Model

The queues of the Linux, POSIX and bare-metal backends (`linux/linux_backend.cpp`,
`posix/posix_backend.cpp`, `bare_metal/bare_metal_backend.cpp`).

All three keep the items as bytes in storage of the caller, at the places of a ring. They
differ in how a call waits: on one of two condition variables of which every send and every
receive signals one waiter, or by trying again in critical sections of its own.

A region under the mutex, and a critical section, is one step. A wait on a condition variable
ends by a signal, without one, or because its time is up; the thread then has to get the
mutex back, which is a step of its own.
-/

namespace MicrOsal.Queue

/-- An item of `size` bytes. -/
abbrev Item (size : Nat) := Vector UInt8 size

/-- `linux_queue_obj`, `posix_queue_obj` and `bm_queue`, for items of `size` bytes. -/
structure QueueObj (size : Nat) where
  buf : Nat → UInt8
  capacity : Nat
  head : Nat
  tail : Nat
  count : Nat

/-- `std::memcpy` of an item into the storage. -/
def copyIn {size : Nat} (buf : Nat → UInt8) (offset : Nat) (item : Item size) : Nat → UInt8 :=
  fun k =>
    if h : offset ≤ k ∧ k < offset + size then item.get ⟨k - offset, by omega⟩ else buf k

/-- `std::memcpy` of an item out of the storage. -/
def copyOut {size : Nat} (buf : Nat → UInt8) (offset : Nat) : Item size :=
  Vector.ofFn (fun k => buf (offset + k))

namespace QueueObj

variable {size : Nat}

/-- `osal_queue_create`. -/
def create (size : Nat) (buf : Nat → UInt8) (capacity : Nat) : QueueObj size :=
  ⟨buf, capacity, 0, 0, 0⟩

/-- An item goes in. -/
def put (q : QueueObj size) (item : Item size) : QueueObj size :=
  { q with
    buf := copyIn q.buf (q.tail * size) item
    tail := (q.tail + 1) % q.capacity
    count := q.count + 1 }

/-- The item at the front. -/
def front (q : QueueObj size) : Item size := copyOut q.buf (q.head * size)

/-- It goes out. -/
def take (q : QueueObj size) : QueueObj size :=
  { q with head := (q.head + 1) % q.capacity, count := q.count - 1 }

/-- `osal_queue_free`. -/
def free (q : QueueObj size) : Nat := q.capacity - q.count

end QueueObj

/-! ### The backends -/

/-- How a backend waits, and what a call returns that cannot have what it wants: at once with
`NO_WAIT`, or after its time. -/
structure Backend where
  condvars : Bool
  full : Bool → ErrorCode
  empty : Bool → ErrorCode
  full_ne : ∀ noWait, full noWait ≠ .ok
  empty_ne : ∀ noWait, empty noWait ≠ .ok

/-- `NO_WAIT` or the end of a timed wait, in the Linux and the POSIX backend. -/
def condvarError (noWait : Bool) : ErrorCode := if noWait then .wouldBlock else .timeout

theorem condvarError_ne (noWait : Bool) : condvarError noWait ≠ .ok := by
  cases noWait <;> nofun

def linux : Backend where
  condvars := true
  full := condvarError
  empty := condvarError
  full_ne := condvarError_ne
  empty_ne := condvarError_ne

def posix : Backend where
  condvars := true
  full := condvarError
  empty := condvarError
  full_ne := condvarError_ne
  empty_ne := condvarError_ne

def bareMetal : Backend where
  condvars := false
  full _ := .wouldBlock
  empty _ := .timeout
  full_ne := nofun
  empty_ne := nofun

/-! ### Calls that do not wait -/

/-- A call with `NO_WAIT`, the variants for interrupts among them, or one that never waits. -/
inductive Op (size : Nat)
  | send (item : Item size)
  | receive
  | peek
  | count
  | free

/-- What a call returns. -/
inductive Reply (size : Nat)
  | code (code : ErrorCode)
  | item (item : Item size)
  | number (n : Nat)
  deriving DecidableEq

/-- The reply is that of a call that succeeded, or the call cannot fail. -/
def Reply.success {size : Nat} : Reply size → Bool
  | .code c => c = .ok
  | _ => true

namespace QueueObj

variable {size : Nat}

def exec (b : Backend) (q : QueueObj size) : Op size → Reply size × QueueObj size
  | .send item =>
      if q.count < q.capacity then (.code .ok, q.put item) else (.code (b.full true), q)
  | .receive => if q.count = 0 then (.code (b.empty true), q) else (.item q.front, q.take)
  | .peek => if q.count = 0 then (.code .wouldBlock, q) else (.item q.front, q)
  | .count => (.number q.count, q)
  | .free => (.number q.free, q)

def execAll (b : Backend) (q : QueueObj size) :
    List (Op size) → List (Reply size) × QueueObj size
  | [] => ([], q)
  | op :: rest =>
      let r := q.exec b op
      (r.1 :: (execAll b r.2 rest).1, (execAll b r.2 rest).2)

end QueueObj

/-! ### Threads -/

/-- The timeout argument: `NO_WAIT`, or any other; `WAIT_FOREVER` is not timed. -/
inductive Timeout
  | noWait
  | wait (timed : Bool)
  deriving DecidableEq, Repr

/-- How far a call that waits is. -/
inductive Phase
  /-- Blocked on its condition variable. -/
  | asleep
  /-- Woken, and about to take the mutex; or between two attempts, without condition
  variables. -/
  | woken
  /-- Its time is up, and it is about to take the mutex. -/
  | timedOut
  deriving DecidableEq, Repr

inductive Thread (size : Nat)
  /-- Outside; `last` is what its last call returned. -/
  | idle (last : Option ErrorCode)
  | sender (item : Item size) (timed : Bool) (phase : Phase)
  | receiver (timed : Bool) (phase : Phase)
  deriving DecidableEq

namespace Thread

variable {size : Nat}

/-- It waits for an item in this phase. -/
def receives (phase : Phase) : Thread size → Bool
  | .receiver _ p => p = phase
  | _ => false

/-- It waits for a free slot in this phase. -/
def sends (phase : Phase) : Thread size → Bool
  | .sender _ _ p => p = phase
  | _ => false

/-- The same call, woken. -/
def wake : Thread size → Thread size
  | .sender item timed _ => .sender item timed .woken
  | .receiver timed _ => .receiver timed .woken
  | th => th

end Thread

structure State (size : Nat) where
  queue : QueueObj size
  threads : List (Thread size)
  /-- The items that were sent, and those that were received. No step reads them. -/
  sent : List (Item size)
  received : List (Item size)

inductive Action (size : Nat)
  | spawn
  /-- `signalled` is the thread that a signal of the call wakes, if there is one to wake. -/
  | send (n : Nat) (item : Item size) (timeout : Timeout) (signalled : Option Nat)
  | receive (n : Nat) (timeout : Timeout) (signalled : Option Nat)
  | peek (n : Nat)
  /-- Thread `n` has the mutex again, or tries again; `expired` is what its clock says. -/
  | resume (n : Nat) (expired : Bool) (signalled : Option Nat)
  /-- The wait of thread `n` ends without a signal. -/
  | wakeUp (n : Nat)
  /-- The time of the wait of thread `n` is up. -/
  | expire (n : Nat)

/-- The thread that takes the step. -/
def Action.caller {size : Nat} : Action size → Option Nat
  | .send n .. | .receive n .. | .peek n | .resume n .. | .wakeUp n | .expire n => some n
  | .spawn => none

namespace State

variable {size : Nat}

def setThread (s : State size) (n : Nat) (th : Thread size) : State size :=
  { s with threads := s.threads.set n th }

/-- `pthread_cond_signal`, for the waiters that `waits` picks: it wakes one of them. -/
def signal (s : State size) (b : Backend) (waits : Thread size → Bool) :
    Option Nat → Option (State size)
  | none => if b.condvars && s.threads.any waits then none else some s
  | some m =>
      match s.threads[m]? with
      | some th => if b.condvars && waits th then some (s.setThread m th.wake) else none
      | none => none

/-- The phase of a call that has found nothing and goes on to wait. -/
def waitPhase (b : Backend) : Phase := if b.condvars then .asleep else .woken

/-- A send has exclusive access: the body of the loop. -/
def trySend (s : State size) (b : Backend) (n : Nat) (item : Item size) (timeout : Timeout)
    (signalled : Option Nat) : Option (State size) :=
  if s.queue.count < s.queue.capacity then
    ({ s with queue := s.queue.put item, sent := s.sent ++ [item] }.setThread n
      (.idle (some .ok))).signal b (Thread.receives .asleep) signalled
  else
    match timeout with
    | .noWait => some (s.setThread n (.idle (some (b.full true))))
    | .wait timed => some (s.setThread n (.sender item timed (waitPhase b)))

/-- A receive has exclusive access: the body of the loop. -/
def tryReceive (s : State size) (b : Backend) (n : Nat) (timeout : Timeout)
    (signalled : Option Nat) : Option (State size) :=
  if s.queue.count = 0 then
    match timeout with
    | .noWait => some (s.setThread n (.idle (some (b.empty true))))
    | .wait timed => some (s.setThread n (.receiver timed (waitPhase b)))
  else
    ({ s with queue := s.queue.take, received := s.received ++ [s.queue.front] }.setThread n
      (.idle (some .ok))).signal b (Thread.sends .asleep) signalled

/-- `osal_queue_peek`. -/
def peek (s : State size) (n : Nat) : State size :=
  s.setThread n (.idle (some (if s.queue.count = 0 then .wouldBlock else .ok)))

/-- Thread `n` goes on. The deadline is looked at between two attempts only without condition
variables. -/
def resume (s : State size) (b : Backend) (n : Nat) (expired : Bool) (signalled : Option Nat) :
    Thread size → Option (State size)
  | .idle _ => none
  | .sender item timed .woken =>
      if ! b.condvars && timed && expired then
        some (s.setThread n (.idle (some (b.full false))))
      else s.trySend b n item (.wait timed) signalled
  | .receiver timed .woken =>
      if ! b.condvars && timed && expired then
        some (s.setThread n (.idle (some (b.empty false))))
      else s.tryReceive b n (.wait timed) signalled
  | .sender _ _ .timedOut => some (s.setThread n (.idle (some (b.full false))))
  | .receiver _ .timedOut => some (s.setThread n (.idle (some (b.empty false))))
  | .sender _ _ .asleep => none
  | .receiver _ .asleep => none

/-- The time of a timed wait is up. -/
def expire (s : State size) (n : Nat) : Thread size → Option (State size)
  | .sender item true .asleep => some (s.setThread n (.sender item true .timedOut))
  | .receiver true .asleep => some (s.setThread n (.receiver true .timedOut))
  | _ => none

/-- A wait ends without a signal. -/
def wakeUp (s : State size) (n : Nat) (th : Thread size) : Option (State size) :=
  if th.sends .asleep || th.receives .asleep then some (s.setThread n th.wake) else none

def step (b : Backend) (s : State size) : Action size → Option (State size)
  | .spawn => some { s with threads := s.threads ++ [.idle none] }
  | .send n item timeout signalled =>
      match s.threads[n]? with
      | some (.idle _) => s.trySend b n item timeout signalled
      | _ => none
  | .receive n timeout signalled =>
      match s.threads[n]? with
      | some (.idle _) => s.tryReceive b n timeout signalled
      | _ => none
  | .peek n =>
      match s.threads[n]? with
      | some (.idle _) => some (s.peek n)
      | _ => none
  | .resume n expired signalled =>
      (s.threads[n]?).bind (fun th => s.resume b n expired signalled th)
  | .wakeUp n => (s.threads[n]?).bind (fun th => s.wakeUp n th)
  | .expire n => (s.threads[n]?).bind (fun th => s.expire n th)

end State

/-- A queue of `capacity` items of `size` bytes and the threads that use it. -/
def machine (b : Backend) (size : Nat) (buf : Nat → UInt8) (capacity : Nat) :
    Machine (State size) (Action size) where
  init := ⟨.create size buf capacity, [], [], []⟩
  step := State.step b

end MicrOsal.Queue
