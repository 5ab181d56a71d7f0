import MicrOsal.Queue.Model

/-!
# MicrOsal.NuttxQueue.Model

The queue of the NuttX backend (`nuttx/nuttx_backend.cpp`): a POSIX message queue, which has
no way to look at its front, and a cache for the message that a peek has fetched from it.

The front of the queue is in the cache while that is valid, and in the message queue
otherwise; a counter carries the length of both. Receivers and peekers wait on one condition
variable, of which every send signals one waiter.
-/

namespace MicrOsal.NuttxQueue

open MicrOsal.Queue (Phase Timeout)

variable {α : Type}

/-- `nx_queue_obj`; the messages of the `mqd_t` have one priority, and stand in it in the
order in which they were sent. -/
structure QueueObj (α : Type) where
  mq : List α
  capacity : Nat
  count : Nat
  cacheValid : Bool
  cache : α
  deriving DecidableEq

namespace QueueObj

/-- `osal_queue_create`; `cache` is what the new storage of the cache holds. -/
def create (cache : α) (capacity : Nat) : QueueObj α := ⟨[], capacity, 0, false, cache⟩

/-- `mq_send`, which never blocks; `none` is `EAGAIN`. -/
def mqSend (q : QueueObj α) (item : α) : Option (QueueObj α) :=
  if q.mq.length < q.capacity then some { q with mq := q.mq ++ [item] } else none

/-- `mq_receive`, which never blocks; `none` is `EAGAIN`. -/
def mqReceive (q : QueueObj α) : Option (α × QueueObj α) :=
  match q.mq with
  | [] => none
  | item :: rest => some (item, { q with mq := rest })

/-- `osal_queue_send`, once there is room. -/
def put (q : QueueObj α) (item : α) : Option (QueueObj α) :=
  (q.mqSend item).map (fun q' => { q' with count := q'.count + 1 })

/-- `osal_queue_receive`, once there is an item. -/
def take (q : QueueObj α) : Option (α × QueueObj α) :=
  if q.cacheValid then some (q.cache, { q with cacheValid := false, count := q.count - 1 })
  else q.mqReceive.map (fun r => (r.1, { r.2 with count := r.2.count - 1 }))

/-- `osal_queue_peek`, once there is an item. -/
def peek (q : QueueObj α) : Option (α × QueueObj α) :=
  if q.cacheValid then some (q.cache, q)
  else q.mqReceive.map (fun r => (r.1, { r.2 with cache := r.1, cacheValid := true }))

/-- `osal_queue_free`. -/
def free (q : QueueObj α) : Nat := q.capacity - q.count

end QueueObj

/-- A call that may have to wait. -/
inductive Call (α : Type)
  | send (item : α)
  | receive
  | peek
  deriving DecidableEq

/-- What a call returns; a receive or a peek that succeeds leaves an item in the buffer of the
caller. -/
inductive Reply (α : Type)
  | code (code : ErrorCode)
  | item (item : α)
  | number (n : Nat)
  deriving DecidableEq

/-- The call has not succeeded: `would_block` or `timeout`. -/
def Reply.failed : Reply α → Bool
  | .code c => c = .wouldBlock ∨ c = .timeout
  | _ => false

inductive Thread (α : Type)
  /-- Outside; `last` is what its last call returned. -/
  | idle (last : Option (Reply α))
  | waits (call : Call α) (timed : Bool) (phase : Phase)
  deriving DecidableEq

namespace Thread

/-- A receive is in this phase of its wait. -/
def receives (phase : Phase) : Thread α → Bool
  | .waits .receive _ p => p = phase
  | _ => false

/-- A peek is. -/
def peeks (phase : Phase) : Thread α → Bool
  | .waits .peek _ p => p = phase
  | _ => false

/-- A send is. -/
def sends (phase : Phase) : Thread α → Bool
  | .waits (.send _) _ p => p = phase
  | _ => false

/-- It is blocked on `not_empty`. -/
def onNotEmpty (th : Thread α) : Bool := th.receives .asleep || th.peeks .asleep

/-- It is blocked on `not_full`. -/
def onNotFull (th : Thread α) : Bool := th.sends .asleep

/-- The same call, woken. -/
def wake : Thread α → Thread α
  | .waits call timed _ => .waits call timed .woken
  | th => th

end Thread

structure State (α : Type) where
  queue : QueueObj α
  threads : List (Thread α)
  /-- The items that were sent, those that were received, and each item that a peek has
  returned, with the number of items received before it. No step reads them. -/
  sent : List α
  received : List α
  peeked : List (Nat × α)
  deriving DecidableEq

inductive Action (α : Type)
  | spawn
  /-- `signalled` is the thread that a signal of the call wakes, if there is one to wake. -/
  | call (n : Nat) (call : Call α) (timeout : Timeout) (signalled : Option Nat)
  | count (n : Nat)
  | free (n : Nat)
  /-- Thread `n` has the mutex again. -/
  | resume (n : Nat) (signalled : Option Nat)
  /-- The wait of thread `n` ends without a signal. -/
  | wakeUp (n : Nat)
  /-- The time of the wait of thread `n` is up. -/
  | expire (n : Nat)

namespace Action

/-- The thread that a signal of the step wakes. -/
def signalled : Action α → Option Nat
  | .call _ _ _ signalled | .resume _ signalled => signalled
  | _ => none

end Action

namespace State

def setThread (s : State α) (n : Nat) (th : Thread α) : State α :=
  { s with threads := s.threads.set n th }

/-- The call of thread `n` returns. -/
def finish (s : State α) (n : Nat) (reply : Reply α) : State α :=
  s.setThread n (.idle (some reply))

/-- `pthread_cond_signal` of the condition variable on which the threads block that `waits`
picks: it wakes one of them. -/
def signal (s : State α) (waits : Thread α → Bool) : Option Nat → Option (State α)
  | none => if s.threads.any waits then none else some s
  | some m =>
      match s.threads[m]? with
      | some th => if waits th then some (s.setThread m th.wake) else none
      | none => none

/-- A call has not found what it wants. -/
def block (s : State α) (n : Nat) (call : Call α) : Timeout → State α
  | .noWait => s.finish n (.code .wouldBlock)
  | .wait timed => s.setThread n (.waits call timed .asleep)

/-- What `EAGAIN` is turned into. -/
def eagain : Timeout → ErrorCode
  | .noWait => .wouldBlock
  | .wait _ => .timeout

/-- A call has the mutex: the test of its loop, and what follows when it is over. -/
def attempt (s : State α) (n : Nat) (timeout : Timeout) (signalled : Option Nat) :
    Call α → Option (State α)
  | .send item =>
      if s.queue.count = s.queue.capacity then some (s.block n (.send item) timeout)
      else
        match s.queue.put item with
        | none => some (s.finish n (.code (eagain timeout)))
        | some q =>
            ({ s with queue := q, sent := s.sent ++ [item] }.finish n (.code .ok)).signal
              Thread.onNotEmpty signalled
  | .receive =>
      if s.queue.count = 0 then some (s.block n .receive timeout)
      else
        match s.queue.take with
        | none => some (s.finish n (.code (eagain timeout)))
        | some (item, q) =>
            ({ s with queue := q, received := s.received ++ [item] }.finish n (.item item)).signal
              Thread.onNotFull signalled
  | .peek =>
      if s.queue.count = 0 then some (s.block n .peek timeout)
      else
        match s.queue.peek with
        | none => some (s.finish n (.code (eagain timeout)))
        | some (item, q) =>
            some ({ s with
              queue := q
              peeked := s.peeked ++ [(s.received.length, item)] }.finish n (.item item))

/-- Thread `n` goes on. -/
def resume (s : State α) (n : Nat) (signalled : Option Nat) : Thread α → Option (State α)
  | .waits call timed .woken => s.attempt n (.wait timed) signalled call
  | .waits _ _ .timedOut => some (s.finish n (.code .timeout))
  | .waits _ _ .asleep => none
  | .idle _ => none

/-- A wait ends without a signal. -/
def wakeUp (s : State α) (n : Nat) (th : Thread α) : Option (State α) :=
  if th.onNotEmpty || th.onNotFull then some (s.setThread n th.wake) else none

/-- The time of a timed wait is up. -/
def expire (s : State α) (n : Nat) : Thread α → Option (State α)
  | .waits call true .asleep => some (s.setThread n (.waits call true .timedOut))
  | _ => none

def step (s : State α) : Action α → Option (State α)
  | .spawn => some { s with threads := s.threads ++ [.idle none] }
  | .call n call timeout signalled =>
      match s.threads[n]? with
      | some (.idle _) => s.attempt n timeout signalled call
      | _ => none
  | .count n =>
      match s.threads[n]? with
      | some (.idle _) => some (s.finish n (.number s.queue.count))
      | _ => none
  | .free n =>
      match s.threads[n]? with
      | some (.idle _) => some (s.finish n (.number s.queue.free))
      | _ => none
  | .resume n signalled => (s.threads[n]?).bind (fun th => s.resume n signalled th)
  | .wakeUp n => (s.threads[n]?).bind (fun th => s.wakeUp n th)
  | .expire n => (s.threads[n]?).bind (fun th => s.expire n th)

end State

/-- A queue of `capacity` items and the threads that use it. -/
def machine (cache : α) (capacity : Nat) : Machine (State α) (Action α) where
  init := ⟨.create cache capacity, [], [], [], []⟩
  step := State.step

end MicrOsal.NuttxQueue
