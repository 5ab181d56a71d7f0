import MicrOsal.Core
import MicrOsal.Lib.Machine

/-!
# MicrOsal.FreertosThread.Model

The end of a thread of the FreeRTOS backend (`freertos/freertos_backend.cpp`): the task that
finishes its entry function, and the owner of the handle that joins or detaches it.

Both use a context (`fr_thread_ctx_t`), of which each owns a share at first. Either the task
deletes itself, or it parks and is deleted by the owner of the handle; whoever gives up the
last share destroys the context. A critical section is one step.
-/

namespace MicrOsal.FreertosThread

/-- `fr_thread_ctx_t`: whether `task` is set, whether `done_sem` can be taken, and the fields
of these names. -/
structure Ctx where
  task : Bool
  doneSem : Bool
  finished : Bool
  detached : Bool
  owners : Nat
  deriving DecidableEq, Repr

/-- `osal_thread_create`, before it stores the task. -/
def Ctx.create : Ctx := ⟨false, false, false, false, 2⟩

/-- Where the native task is. -/
inductive Task
  /-- In its entry function. -/
  | running
  /-- In the loop at the end of `fr_thread_wrapper_fn`. -/
  | parked
  /-- About to call `vTaskDelete(nullptr)`. -/
  | exits
  | deleted
  deriving DecidableEq, Repr

/-- What a call has returned. -/
inductive Reply
  | create
  | join (code : ErrorCode)
  | detach (code : ErrorCode)
  | lookUp
  deriving DecidableEq, Repr

/-- The timeout of a join; a join that does not wait is one whose time is up at once. -/
inductive Timeout
  | timed
  | forever
  deriving DecidableEq, Repr

/-- What the owner of the handle is doing. -/
inductive Owner
  /-- At the end of `osal_thread_create`. -/
  | creates
  /-- Outside; `last` is what the last call returned. -/
  | idle (last : Reply)
  /-- In `xSemaphoreTake`. -/
  | joinWaits (timeout : Timeout)
  /-- A call is about to delete the task, and to return `reply` in the end. -/
  | deletes (reply : Reply)
  /-- It is about to give up `count` shares. -/
  | releases (count : Nat) (reply : Reply)
  /-- It is about to destroy the context. -/
  | destroys (reply : Reply)
  deriving DecidableEq, Repr

structure State where
  /-- `none` when it is destroyed. -/
  ctx : Option Ctx
  task : Task
  /-- The handle is not null. -/
  handle : Bool
  owner : Owner
  /-- Where the task was when it was deleted, and how often the context was destroyed. No step
  reads them. -/
  deletions : List Task
  destroyed : Nat
  /-- A context was used that is destroyed, or more shares were given up than there were, or
  a task was deleted that is not known. No step reads it. -/
  corrupt : Bool
  deriving DecidableEq, Repr

inductive Action
  /-- The entry function returns; the critical section of `fr_thread_wrapper_fn`. -/
  | finish
  /-- `vTaskDelete(nullptr)`. -/
  | exit
  /-- `osal_thread_create` stores the task and sets the handle. -/
  | created
  | join (timeout : Timeout)
  /-- `xSemaphoreTake` succeeds. -/
  | take
  /-- It does not, in its time. -/
  | expire
  /-- The critical section of `osal_thread_detach`. -/
  | detach
  /-- A call that looks up the task (`fr_task_from_handle`). -/
  | lookUp
  /-- The call of the owner makes its next step. -/
  | go
  deriving DecidableEq, Repr

namespace State

/-- A use of the context. -/
def useCtx (s : State) (f : Ctx → State) : State :=
  match s.ctx with
  | some c => f c
  | none => { s with corrupt := true }

/-- `fr_thread_ctx_destroy`. -/
def destroy (s : State) : State :=
  s.useCtx (fun _ => { s with ctx := none, destroyed := s.destroyed + 1 })

/-- The `fetch_sub` of `fr_thread_ctx_release_owner`. -/
def fetchSub (s : State) (c : Ctx) (count : Nat) : State :=
  { s with
    ctx := some { c with owners := c.owners - count }
    corrupt := s.corrupt || decide (c.owners < count) }

/-- The task has returned from the entry function. -/
def finish (s : State) : State :=
  s.useCtx (fun c =>
    if c.detached then
      let released := { s with task := .exits }.fetchSub { c with finished := true } 1
      if c.owners = 1 then released.destroy else released
    else { s with task := .parked, ctx := some { c with finished := true, doneSem := true } })

/-- `vTaskDelete`. -/
def deleteTask (s : State) : State :=
  { s with task := .deleted, deletions := s.deletions ++ [s.task] }

/-- `osal_thread_join`, until it waits. -/
def join (s : State) (timeout : Timeout) : State :=
  if s.handle then
    s.useCtx (fun c =>
      if c.detached then { s with owner := .idle (.join .notInitialized) }
      else { s with owner := .joinWaits timeout })
  else { s with owner := .idle (.join .notInitialized) }

/-- `osal_thread_detach`, with its critical section; after that it deletes a task that has
finished, and lets go of the handle. -/
def detach (s : State) : State :=
  if s.handle then
    s.useCtx (fun c =>
      if c.finished then
        { s with ctx := some { c with detached := true }, owner := .deletes (.detach .ok) }
      else
        { s with
          ctx := some { c with detached := true }
          handle := false
          owner := .releases 1 (.detach .ok) })
  else { s with owner := .idle (.detach .notInitialized) }

/-- `fr_task_from_handle`. -/
def lookUp (s : State) : State :=
  if s.handle then s.useCtx (fun _ => { s with owner := .idle .lookUp })
  else { s with owner := .idle .lookUp }

/-- The next step of a call. -/
def go (s : State) : Owner → Option State
  | .deletes reply =>
      some (s.useCtx (fun c =>
        { s.deleteTask with
          handle := false
          owner := .releases 2 reply
          corrupt := s.corrupt || ! c.task }))
  | .releases count reply =>
      some (s.useCtx (fun c =>
        if c.owners = count then { s with owner := .destroys reply }.fetchSub c count
        else { s with owner := .idle reply }.fetchSub c count))
  | .destroys reply => some { s with owner := .idle reply }.destroy
  | _ => none

def step (s : State) : Action → Option State
  | .finish => if s.task = .running then some s.finish else none
  | .exit => if s.task = .exits then some s.deleteTask else none
  | .created =>
      if s.owner = .creates then
        some (s.useCtx (fun c =>
          { s with ctx := some { c with task := true }, handle := true, owner := .idle .create }))
      else none
  | .join timeout =>
      match s.owner with
      | .idle _ => some (s.join timeout)
      | _ => none
  | .take =>
      match s.owner with
      | .joinWaits _ =>
          match s.ctx with
          | some c =>
              if c.doneSem then
                some { s with
                  ctx := some { c with doneSem := false }
                  owner := .deletes (.join .ok) }
              else none
          | none => some { s with corrupt := true }
      | _ => none
  | .expire =>
      match s.owner with
      | .joinWaits .timed =>
          match s.ctx with
          | some c =>
              if c.doneSem then none else some { s with owner := .idle (.join .timeout) }
          | none => some { s with corrupt := true }
      | _ => none
  | .detach =>
      match s.owner with
      | .idle _ => some s.detach
      | _ => none
  | .lookUp =>
      match s.owner with
      | .idle _ => some s.lookUp
      | _ => none
  | .go => s.go s.owner

end State

/-- A thread whose task has just been created. -/
def machine : Machine State Action where
  init := ⟨some .create, .running, false, .creates, [], 0, false⟩
  step := State.step

end MicrOsal.FreertosThread
