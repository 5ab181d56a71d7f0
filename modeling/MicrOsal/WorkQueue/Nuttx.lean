import MicrOsal.Core
import MicrOsal.Lib.Machine

/-!
# MicrOsal.WorkQueue.Nuttx

The NuttX work queue (`src/nuttx/nuttx_work_queue.inl`): a pool of item slots over
the work queue of the kernel.

`submit` takes a free slot and passes its `work_s` to `work_queue()`. A worker thread of
the kernel calls the trampoline with the slot, which does not take `lock`. `work_queue()`
may refuse a work; a work it has accepted is called once by some worker, in any order,
unless `work_cancel()` finds it before. `work_cancel()` does nothing to a work that a
worker has taken.

A region locked by `lock` is one step, except that `cancel_all` goes on to the next item
in a step of its own. Every access of the trampoline to its item is a step.

`NxWork.job`, `jobOf` and `nextJob` are a record: accepted works are numbered, and
`jobOf` is the last work a slot was used for. No step of the program reads them.
-/

namespace MicrOsal

/-! ### The object -/

/-- The default of `OSAL_NUTTX_MAX_WORK_ITEMS`. -/
def osalNuttxMaxWorkItems : Nat := 32

/-- `nuttx_work_item`, without the `work_s`. A function is named by its address. -/
structure NxItem where
  func : Nat
  arg : Nat
  pending : Bool
  allocated : Bool
  deriving DecidableEq, Repr

/-- `item.allocated && item.pending`. -/
def NxItem.isPending (item : NxItem) : Bool := item.allocated && item.pending

/-- `nuttx_work_queue_obj`. -/
structure NuttxWq where
  items : List NxItem
  pendingCount : Nat
  valid : Bool
  deriving DecidableEq, Repr

namespace NuttxWq

/-- `osal_work_queue_create`, with `maxItems` slots. -/
def create (maxItems : Nat) : NuttxWq where
  items := List.replicate maxItems ⟨0, 0, false, false⟩
  pendingCount := 0
  valid := true

/-- The first slot that is not allocated. -/
def findFree (wq : NuttxWq) : Option Nat := wq.items.findIdx? (fun item => !item.allocated)

/-- `osal_work_queue_submit`; `accepted` is whether `work_queue()` takes the work. The last
component is the slot of an accepted work. -/
def submit (wq : NuttxWq) (func arg : Nat) (accepted : Bool) : ErrorCode × NuttxWq × Option Nat :=
  if func = 0 then (.invalidArgument, wq, none)
  else if wq.valid = false then (.notInitialized, wq, none)
  else
    match wq.findFree with
    | none => (.outOfResources, wq, none)
    | some k =>
        if accepted then
          (.ok, { wq with
            items := wq.items.set k ⟨func, arg, true, true⟩
            pendingCount := wq.pendingCount + 1 }, some k)
        else
          (.outOfResources, { wq with items := wq.items.set k ⟨func, arg, false, false⟩ }, none)

/-- The test of `osal_work_queue_flush`. -/
def anyPending (wq : NuttxWq) : Bool := wq.items.any NxItem.isPending

/-- `osal_work_queue_pending`. -/
def pending (wq : NuttxWq) : Nat := if wq.valid then wq.items.countP NxItem.isPending else 0

end NuttxWq

/-! ### The kernel and the threads -/

/-- A work that `work_queue()` has accepted. -/
structure NxWork where
  slot : Nat
  /-- Record: its number. -/
  job : Nat
  deriving DecidableEq, Repr

/-- Where a worker thread of the kernel is in `nuttx_work_trampoline`. -/
inductive NxWorker
  | idle
  /-- Called, about to look at `func`. -/
  | entered (work : NxWork)
  /-- In the function that the item named. -/
  | run (work : NxWork) (func arg : Nat)
  /-- The function has returned, about to clear `pending`. -/
  | done (work : NxWork)
  deriving DecidableEq, Repr

/-- The work of the trampoline. -/
def NxWorker.work : NxWorker → Option NxWork
  | .idle => none
  | .entered work | .run work _ _ | .done work => some work

/-- `max_iterations`. -/
def nuttxFlushMaxIterations : Nat := 1000

/-- A thread in `osal_work_queue_flush`. -/
inductive NxFlusher
  | idle
  /-- About to poll for the `i`-th time. -/
  | polling (i : Nat)
  | returned (code : ErrorCode)
  deriving DecidableEq, Repr

structure NxState where
  wq : NuttxWq
  /-- `cancel_all` holds `lock` and comes to this item. -/
  cancelling : Option Nat
  /-- The works that the kernel has not called yet. -/
  queue : List NxWork
  workers : List NxWorker
  flushers : List NxFlusher
  /-- Record: the last work of each slot. -/
  jobOf : Nat → Nat
  /-- Record: the number of the next work. -/
  nextJob : Nat

/-- What happens next. -/
inductive NxAct
  | submit (func arg : Nat) (accepted : Bool)
  | cancelAll
  /-- `cancel_all` handles its next item, or returns. -/
  | cancelNext
  | flush (n : Nat)
  | poll (n : Nat)
  /-- Worker `n` takes the `i`-th work of the kernel's queue. -/
  | take (n i : Nat)
  /-- Worker `n` goes on in the trampoline. -/
  | worker (n : Nat)
  deriving DecidableEq, Repr

namespace NxState

def create (maxItems numWorkers numFlushers : Nat) : NxState where
  wq := .create maxItems
  cancelling := none
  queue := []
  workers := List.replicate numWorkers .idle
  flushers := List.replicate numFlushers .idle
  jobOf := fun _ => 0
  nextJob := 0

/-- The works that are accepted and neither finished nor cancelled. -/
def outstanding (s : NxState) : List NxWork := s.queue ++ s.workers.filterMap NxWorker.work

/-- `osal_work_queue_submit`. -/
def submit (s : NxState) (func arg : Nat) (accepted : Bool) : NxState :=
  match s.wq.submit func arg accepted with
  | (_, wq, none) => { s with wq := wq }
  | (_, wq, some k) =>
      { s with
        wq := wq
        queue := s.queue ++ [⟨k, s.nextJob⟩]
        jobOf := Function.update s.jobOf k s.nextJob
        nextJob := s.nextJob + 1 }

/-- `work_cancel` of the slot's `work_s`. -/
def workCancel (s : NxState) (k : Nat) : NxState :=
  { s with queue := s.queue.filter (fun work => work.slot != k) }

/-- One item of the loop of `osal_work_queue_cancel_all`, or the end of it. -/
def cancelItem (s : NxState) (k : Nat) : NxState :=
  match s.wq.items[k]? with
  | none => { s with wq := { s.wq with pendingCount := 0 }, cancelling := none }
  | some item =>
      if item.isPending then
        { s.workCancel k with
          wq := { s.wq with
            items := s.wq.items.set k { item with pending := false, allocated := false } }
          cancelling := some (k + 1) }
      else { s with cancelling := some (k + 1) }

/-- One poll of `osal_work_queue_flush`. -/
def pollOnce (s : NxState) (i : Nat) : NxFlusher :=
  if s.wq.anyPending = false then .returned .ok
  else if i + 1 = nuttxFlushMaxIterations then .returned .timeout
  else .polling (i + 1)

def setWorker (s : NxState) (n : Nat) (worker : NxWorker) : NxState :=
  { s with workers := s.workers.set n worker }

/-- The trampoline clears `pending`. -/
def clearPending (s : NxState) (k : Nat) : NxState :=
  { s with wq := { s.wq with
      items := s.wq.items.modify k (fun item => { item with pending := false }) } }

/-- The next step of `nuttx_work_trampoline`. -/
def trampoline (s : NxState) (n : Nat) : NxWorker → Option NxState
  | .idle => none
  | .entered work =>
      (s.wq.items[work.slot]?).map fun item =>
        if item.func = 0 then s.setWorker n .idle
        else s.setWorker n (.run work item.func item.arg)
  | .run work _ _ => some (s.setWorker n (.done work))
  | .done work => some ((s.clearPending work.slot).setWorker n .idle)

/-- One step of the system. -/
def next (s : NxState) : NxAct → Option NxState
  | .submit func arg accepted =>
      if s.cancelling.isSome then none else some (s.submit func arg accepted)
  | .cancelAll =>
      if s.cancelling.isSome then none
      else if s.wq.valid = false then none
      else some { s with cancelling := some 0 }
  | .cancelNext => s.cancelling.map s.cancelItem
  | .flush n =>
      if s.flushers[n]? = none then none
      else if s.wq.valid = false then
        some { s with flushers := s.flushers.set n (.returned .notInitialized) }
      else some { s with flushers := s.flushers.set n (.polling 0) }
  | .poll n =>
      match s.flushers[n]? with
      | some (.polling i) =>
          if s.cancelling.isSome then none
          else some { s with flushers := s.flushers.set n (s.pollOnce i) }
      | _ => none
  | .take n i =>
      match s.workers[n]?, s.queue[i]? with
      | some .idle, some work =>
          some ({ s with queue := s.queue.eraseIdx i }.setWorker n (.entered work))
      | _, _ => none
  | .worker n => (s.workers[n]?).bind (s.trampoline n)

end NxState

/-- A queue of `maxItems` slots, with the worker threads of the kernel and threads that
flush. -/
def nuttxWqMachine (maxItems numWorkers numFlushers : Nat) : Machine NxState NxAct where
  init := .create maxItems numWorkers numFlushers
  step := NxState.next

end MicrOsal
