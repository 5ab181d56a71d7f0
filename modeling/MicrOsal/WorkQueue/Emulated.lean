import MicrOsal.Core
import MicrOsal.Lib.Machine
import MicrOsal.Lib.Ring
import MicrOsal.Lib.JobHistory

/-!
# MicrOsal.WorkQueue.Emulated

The emulated work queue (`src/common/emulated_work_queue.inl`): a ring of entries
under a mutex, a counting semaphore that the worker takes before it looks at the
ring, and a worker thread.

Any number of threads submit, flush, cancel and destroy. A region locked by `mtx`
with at most one semaphore operation in it is one step. `cancel_all` holds `mtx`
over several steps, since the worker may take a token between two of its
`osal_semaphore_try_take`. The condition variable of `flush` is taken by its
contract: a wait ends at any time, with any result. Whether the deadline of a
flush has passed is decided by the action.

Sequence numbers are natural numbers. `hist`, `stopGiven` and `flushes` are a
record of what happened; no step of the program reads them.
-/

namespace MicrOsal

/-! ### The object -/

/-- `emu_wq_advance_index`. -/
def emuWqAdvanceIndex (index capacity : Nat) : Nat :=
  if index + 1 = capacity then 0 else index + 1

/-- `emu_wq_retreat_index`. -/
def emuWqRetreatIndex (index capacity : Nat) : Nat :=
  if index = 0 then capacity - 1 else index - 1

/-- `osal::work_item`. A function is named by its address; `nullptr` is zero. -/
structure WorkItem where
  func : Nat
  arg : Nat
  deriving DecidableEq, Repr

/-- `emulated_wq_entry`. -/
structure WqEntry extends WorkItem where
  sequence : Nat
  deriving DecidableEq, Repr

/-- `emulated_wq_obj`. -/
structure EmuWq where
  ring : Ring WqEntry
  /-- The tokens of the semaphore `not_empty`. -/
  notEmpty : Nat
  submittedSequence : Nat
  completedSequence : Nat
  activeSequence : Nat
  stop : Bool
  workerActive : Bool

namespace EmuWq

/-- `osal_work_queue_create`, for a `depth` it accepts. -/
def create (depth : Nat) : EmuWq where
  ring := .create depth ⟨⟨0, 0⟩, 0⟩
  notEmpty := 0
  submittedSequence := 0
  completedSequence := 0
  activeSequence := 0
  stop := false
  workerActive := false

/-- The semaphore is created with the maximum `depth + 1`. -/
def maxTokens (wq : EmuWq) : Nat := wq.ring.capacity + 1

/-- `osal_semaphore_give` of `not_empty`: beyond the maximum the token is lost. -/
def give (wq : EmuWq) : EmuWq :=
  if wq.notEmpty < wq.maxTokens then { wq with notEmpty := wq.notEmpty + 1 } else wq

/-- The entry `osal_work_queue_submit` makes. -/
def newEntry (wq : EmuWq) (func arg : Nat) : WqEntry := ⟨⟨func, arg⟩, wq.submittedSequence + 1⟩

/-- The ring after an entry was stored at `tail`. -/
def enqueue (r : Ring WqEntry) (entry : WqEntry) : Ring WqEntry :=
  { r with
    slots := Function.update r.slots r.tail entry
    tail := emuWqAdvanceIndex r.tail r.capacity
    count := r.count + 1 }

/-- The ring after the entry at `head` was taken. -/
def dequeue (r : Ring WqEntry) : Ring WqEntry :=
  { r with head := emuWqAdvanceIndex r.head r.capacity, count := r.count - 1 }

/-- `osal_work_queue_submit`. -/
def submit (wq : EmuWq) (func arg : Nat) : ErrorCode × EmuWq :=
  if func = 0 then (.invalidArgument, wq)
  else if wq.ring.count ≥ wq.ring.capacity then (.overflow, wq)
  else
    (.ok, give { wq with
      submittedSequence := wq.submittedSequence + 1
      ring := enqueue wq.ring (wq.newEntry func arg) })

/-- `target_sequence` of `osal_work_queue_flush`. -/
def flushTarget (wq : EmuWq) : Nat :=
  if wq.ring.count ≠ 0 then
    (wq.ring.slots (emuWqRetreatIndex wq.ring.tail wq.ring.capacity)).sequence
  else if wq.workerActive then wq.activeSequence
  else wq.completedSequence

/-- The worker takes the entry at `head`. -/
def start (wq : EmuWq) : EmuWq :=
  { wq with
    ring := dequeue wq.ring
    workerActive := true
    activeSequence := wq.ring.front.sequence }

/-- The worker has executed `entry`. -/
def complete (wq : EmuWq) (entry : WqEntry) : EmuWq :=
  { wq with workerActive := false, activeSequence := 0, completedSequence := entry.sequence }

/-- `osal_work_queue_pending`. -/
def pending (wq : EmuWq) : Nat := wq.ring.count

end EmuWq

/-! ### Threads -/

/-- Where the worker is in `wq_worker_entry`. -/
inductive WqWorker
  /-- At `osal_semaphore_take`. -/
  | take
  /-- Has taken a token, about to lock `mtx`. -/
  | lock
  /-- Executing the entry. -/
  | run (entry : WqEntry)
  /-- Has executed the entry, about to lock `mtx`. -/
  | done (entry : WqEntry)
  /-- Out of the loop. -/
  | exited
  deriving DecidableEq, Repr

/-- The entry that is being executed. -/
def WqWorker.running : WqWorker → Option WqEntry
  | .run entry => some entry
  | _ => none

/-- The worker has taken a token and not yet locked `mtx`. -/
def WqWorker.holdsToken : WqWorker → Nat
  | .lock => 1
  | _ => 0

/-- Where a thread is that uses the queue. -/
inductive WqThread
  | idle
  /-- `osal_work_queue_flush`, about to lock `mtx`. Record: the last sequence number
  at the call. -/
  | flushEnter (begun : Nat)
  /-- In `osal_condvar_wait` of `osal_work_queue_flush`. -/
  | flushWait (begun target : Nat)
  /-- In `osal_work_queue_cancel_all`, with `mtx` locked. -/
  | cancel
  /-- In `osal_thread_join` of `osal_work_queue_destroy`. -/
  | join
  deriving DecidableEq, Repr

/-- Record of a flush that has returned: the last sequence number at the call, and the
result. -/
structure WqFlush where
  begun : Nat
  result : ErrorCode
  deriving DecidableEq, Repr

/-- The thread in `osal_work_queue_cancel_all` that holds `mtx` between two steps,
and the `osal_semaphore_try_take` calls it has still to make. -/
structure WqCancel where
  thread : Nat
  left : Nat
  deriving DecidableEq, Repr

structure WqState where
  wq : EmuWq
  /-- The holder of `mtx`. -/
  mtx : Option WqCancel
  worker : WqWorker
  threads : List WqThread
  /-- Record: what became of the accepted entries. -/
  hist : JobHistory WqEntry
  /-- Record: the give of `osal_work_queue_destroy` was accepted. -/
  stopGiven : Bool
  /-- Record: the flushes that have returned. -/
  flushes : List WqFlush

/-- What happens next. -/
inductive WqAct
  | submit (func arg : Nat)
  | flush (n : Nat)
  | cancelAll (n : Nat)
  | destroy (n : Nat)
  /-- Thread `n` takes its next step: `r` is the result of its wait, and `expired`
  whether its deadline has passed. -/
  | step (n : Nat) (r : ErrorCode) (expired : Bool)
  | worker
  deriving DecidableEq, Repr

namespace WqState

def create (depth numThreads : Nat) : WqState where
  wq := .create depth
  mtx := none
  worker := .take
  threads := List.replicate numThreads .idle
  hist := .empty
  stopGiven := false
  flushes := []

def setThread (s : WqState) (n : Nat) (th : WqThread) : WqState :=
  { s with threads := s.threads.set n th }

/-- A flush returns. -/
def flushReturn (s : WqState) (n begun : Nat) (r : ErrorCode) : WqState :=
  { s with flushes := ⟨begun, r⟩ :: s.flushes }.setThread n .idle

/-- `osal_work_queue_submit`. -/
def submit (s : WqState) (func arg : Nat) : WqState :=
  { s with
    wq := (s.wq.submit func arg).2
    hist := if (s.wq.submit func arg).1 = .ok then s.hist.accept (s.wq.newEntry func arg)
      else s.hist }

/-- `osal_work_queue_destroy`, up to the join. -/
def destroy (s : WqState) (n : Nat) : WqState :=
  { s with
    wq := { s.wq with stop := true }.give
    stopGiven := decide (s.wq.notEmpty < s.wq.maxTokens) }.setThread n .join

/-- `osal_work_queue_cancel_all`, up to the loop. -/
def cancelAll (s : WqState) (n : Nat) : WqState :=
  { s with
    wq := { s.wq with ring := s.wq.ring.clear }
    mtx := some ⟨n, s.wq.ring.count⟩
    hist := s.hist.cancel s.wq.ring.contents }.setThread n .cancel

/-- The next step of a thread that uses the queue. -/
def advance (s : WqState) (n : Nat) (r : ErrorCode) (expired : Bool) : WqThread → Option WqState
  | .idle => none
  | .flushEnter begun =>
      if s.mtx.isSome then none
      else if s.wq.completedSequence ≥ s.wq.flushTarget then some (s.flushReturn n begun .ok)
      else if expired then some (s.flushReturn n begun .timeout)
      else some (s.setThread n (.flushWait begun s.wq.flushTarget))
  | .flushWait begun target =>
      if s.mtx.isSome then none
      else if r ≠ .ok ∧ r ≠ .timeout then some (s.flushReturn n begun r)
      else if s.wq.completedSequence ≥ target then some (s.flushReturn n begun .ok)
      else if expired then some (s.flushReturn n begun .timeout)
      else some s
  | .cancel =>
      match s.mtx with
      | some ⟨m, 0⟩ => if m = n then some ({ s with mtx := none }.setThread n .idle) else none
      | some ⟨m, left + 1⟩ =>
          -- `osal_semaphore_try_take`; without a token it does nothing.
          if m = n then
            some { s with
              wq := { s.wq with notEmpty := s.wq.notEmpty - 1 }
              mtx := some ⟨m, left⟩ }
          else none
      | none => none
  | .join => none

/-- The next step of the worker. -/
def stepWorker (s : WqState) : Option WqState :=
  match s.worker with
  | .take =>
      if s.wq.notEmpty = 0 then none
      else some { s with wq := { s.wq with notEmpty := s.wq.notEmpty - 1 }, worker := .lock }
  | .lock =>
      if s.mtx.isSome then none
      else if s.wq.ring.count = 0 ∧ s.wq.stop = true then some { s with worker := .exited }
      else if s.wq.ring.count = 0 then some { s with worker := .take }
      else
        some { s with
          wq := s.wq.start
          worker := .run s.wq.ring.front
          hist := s.hist.start s.wq.ring.front }
  | .run entry => some { s with worker := .done entry, hist := s.hist.finish entry }
  | .done entry =>
      if s.mtx.isSome then none
      else some { s with wq := s.wq.complete entry, worker := .take }
  | .exited => none

/-- One step of the system. -/
def next (s : WqState) : WqAct → Option WqState
  | .submit func arg => if s.mtx.isSome then none else some (s.submit func arg)
  | .flush n =>
      if s.threads[n]? = some .idle then
        some (s.setThread n (.flushEnter s.wq.submittedSequence))
      else none
  | .cancelAll n =>
      if s.threads[n]? = some .idle ∧ s.mtx = none then some (s.cancelAll n) else none
  | .destroy n =>
      if s.threads[n]? = some .idle ∧ s.mtx = none ∧ s.wq.stop = false then some (s.destroy n)
      else none
  | .step n r expired => (s.threads[n]?).bind (s.advance n r expired)
  | .worker => s.stepWorker

end WqState

/-- An emulated work queue of the given depth, used by `numThreads` threads. -/
def emulatedWqMachine (depth numThreads : Nat) : Machine WqState WqAct where
  init := .create depth numThreads
  step := WqState.next

end MicrOsal
