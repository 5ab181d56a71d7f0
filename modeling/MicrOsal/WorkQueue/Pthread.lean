import MicrOsal.WorkQueue.Emulated

/-!
# MicrOsal.WorkQueue.Pthread

The pthread work queue (`src/common/posix/posix_pthread_work_queue.inl`): a ring of
work items under a mutex and a worker thread. A flush puts a sentinel with a ticket
into the ring, and waits until the worker has come to a ticket that is not smaller.

Every region locked by `mutex` is one step; a wait on a condition variable ends at any
time, with any result. Tickets are natural numbers.

`PwqEntry.stamp`, `stampOf`, `hist` and `flushes` are a record: work items are numbered
as they are accepted, and the stamp of a ticket is the number of items accepted before
it was drawn. No step of the program reads them.
-/

namespace MicrOsal

/-! ### The object -/

/-- A cell of the ring. A sentinel has no function, and its argument is the ticket. -/
structure PwqEntry extends WorkItem where
  /-- Record: the number of the item, or of the items before the sentinel. -/
  stamp : Nat
  deriving DecidableEq, Repr

/-- `item.func != nullptr`. -/
def PwqEntry.isWork (entry : PwqEntry) : Bool := entry.func != 0

/-- `posix_wq_obj`. -/
structure PosixWq where
  ring : Ring PwqEntry
  completedFlushTicket : Nat
  nextFlushTicket : Nat
  stop : Bool

namespace PosixWq

/-- `osal_work_queue_create`, for a `depth` it accepts. -/
def create (depth : Nat) : PosixWq where
  ring := .create depth ⟨⟨0, 0⟩, 0⟩
  completedFlushTicket := 0
  nextFlushTicket := 0
  stop := false

/-- `osal_work_queue_submit` of the item with the given number. -/
def submit (wq : PosixWq) (func arg number : Nat) : ErrorCode × PosixWq :=
  if func = 0 then (.invalidArgument, wq)
  else if wq.ring.count ≥ wq.ring.capacity then (.overflow, wq)
  else (.ok, { wq with ring := wq.ring.push ⟨⟨func, arg⟩, number⟩ })

/-- `osal_work_queue_flush` up to the wait: the ticket, after `number` items. -/
def flushBegin (wq : PosixWq) (number : Nat) : Option Nat × PosixWq :=
  if wq.ring.count ≥ wq.ring.capacity then (none, wq)
  else
    (some (wq.nextFlushTicket + 1), { wq with
      nextFlushTicket := wq.nextFlushTicket + 1
      ring := wq.ring.push ⟨⟨0, wq.nextFlushTicket + 1⟩, number⟩ })

/-- The worker has come to the sentinel with the given ticket. -/
def completeTicket (wq : PosixWq) (ticket : Nat) : PosixWq :=
  if ticket > wq.completedFlushTicket then { wq with completedFlushTicket := ticket } else wq

/-- `osal_work_queue_cancel_all`. -/
def cancelAll (wq : PosixWq) : PosixWq := { wq with ring := wq.ring.clear }

/-- `osal_work_queue_pending`. -/
def pending (wq : PosixWq) : Nat := wq.ring.count

end PosixWq

/-! ### Threads -/

/-- Where the worker is in `posix_wq_worker`. -/
inductive PwqWorker
  /-- At the head of the loop. -/
  | wait
  /-- Executing the item. -/
  | run (entry : PwqEntry)
  /-- Has taken the sentinel with this ticket, about to lock the mutex. -/
  | sentinel (ticket : Nat)
  | exited
  deriving DecidableEq, Repr

/-- The item that is being executed. -/
def PwqWorker.running : PwqWorker → Option PwqEntry
  | .run entry => some entry
  | _ => none

/-- Where a thread is that flushes. -/
inductive PwqThread
  | idle
  /-- About to lock the mutex. Record: the number of items accepted at the call. -/
  | flushEnter (begun : Nat)
  /-- Waiting on `flushed`. -/
  | flushWait (begun ticket : Nat)
  deriving DecidableEq, Repr

structure PwqState where
  wq : PosixWq
  worker : PwqWorker
  threads : List PwqThread
  /-- Record: what became of the accepted items. -/
  hist : JobHistory PwqEntry
  /-- Record: the number of items that were accepted before a ticket was drawn. -/
  stampOf : Nat → Nat
  /-- Record: the flushes that have returned. -/
  flushes : List WqFlush

/-- What happens next. -/
inductive PwqAct
  | submit (func arg : Nat)
  | flush (n : Nat)
  | cancelAll
  | destroy
  /-- Thread `n` takes its next step; `expired` is whether its wait has timed out. -/
  | step (n : Nat) (expired : Bool)
  | worker
  deriving DecidableEq, Repr

namespace PwqState

def create (depth numThreads : Nat) : PwqState where
  wq := .create depth
  worker := .wait
  threads := List.replicate numThreads .idle
  hist := .empty
  stampOf := fun _ => 0
  flushes := []

def setThread (s : PwqState) (n : Nat) (th : PwqThread) : PwqState :=
  { s with threads := s.threads.set n th }

/-- A flush returns. -/
def flushReturn (s : PwqState) (n begun : Nat) (r : ErrorCode) : PwqState :=
  { s with flushes := ⟨begun, r⟩ :: s.flushes }.setThread n .idle

/-- The number of the next item. -/
def number (s : PwqState) : Nat := s.hist.accepted.length + 1

/-- `osal_work_queue_submit`. -/
def submit (s : PwqState) (func arg : Nat) : PwqState :=
  { s with
    wq := (s.wq.submit func arg s.number).2
    hist := if (s.wq.submit func arg s.number).1 = .ok then
        s.hist.accept ⟨⟨func, arg⟩, s.number⟩
      else s.hist }

/-- The next step of a thread that flushes. -/
def advance (s : PwqState) (n : Nat) (expired : Bool) : PwqThread → Option PwqState
  | .idle => none
  | .flushEnter begun =>
      match s.wq.flushBegin s.hist.accepted.length with
      | (none, _) => some (s.flushReturn n begun .overflow)
      | (some ticket, wq) =>
          some ({ s with
            wq := wq
            stampOf := Function.update s.stampOf ticket s.hist.accepted.length }.setThread n
              (.flushWait begun ticket))
  | .flushWait begun ticket =>
      if s.wq.completedFlushTicket < ticket then
        if expired then some (s.flushReturn n begun .timeout) else some s
      else some (s.flushReturn n begun .ok)

/-- The next step of the worker. -/
def stepWorker (s : PwqState) : Option PwqState :=
  match s.worker with
  | .wait =>
      if s.wq.ring.count = 0 then
        if s.wq.stop then some { s with worker := .exited } else none
      else if s.wq.ring.front.isWork then
        some { s with
          wq := { s.wq with ring := s.wq.ring.pop }
          worker := .run s.wq.ring.front
          hist := s.hist.start s.wq.ring.front }
      else
        some { s with
          wq := { s.wq with ring := s.wq.ring.pop }
          worker := .sentinel s.wq.ring.front.arg }
  | .run entry => some { s with worker := .wait, hist := s.hist.finish entry }
  | .sentinel ticket => some { s with wq := s.wq.completeTicket ticket, worker := .wait }
  | .exited => none

/-- One step of the system. -/
def next (s : PwqState) : PwqAct → Option PwqState
  | .submit func arg => some (s.submit func arg)
  | .flush n =>
      if s.threads[n]? = some .idle then
        some (s.setThread n (.flushEnter s.hist.accepted.length))
      else none
  | .cancelAll =>
      some { s with
        wq := s.wq.cancelAll
        hist := s.hist.cancel (s.wq.ring.contents.filter PwqEntry.isWork) }
  | .destroy => some { s with wq := { s.wq with stop := true } }
  | .step n expired => (s.threads[n]?).bind (s.advance n expired)
  | .worker => s.stepWorker

end PwqState

/-- A pthread work queue of the given depth, with `numThreads` threads that flush. -/
def pthreadWqMachine (depth numThreads : Nat) : Machine PwqState PwqAct where
  init := .create depth numThreads
  step := PwqState.next

end MicrOsal
