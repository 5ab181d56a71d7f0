import MicrOsal.Timer.Posix

/-!
# MicrOsal.QnxTimer.Model

The timers of the QNX backend (`qnx/qnx_backend.cpp`): a watcher thread that waits on a condition
variable for the deadline of the timer and then calls back. Unlike the one of the POSIX backend it
notes `arm_revision` before it waits, and compares it afterwards.

Every call, and what the watcher does between taking the mutex and giving it up, is one step.
`osal_timer_reset` is a stop and then a start. `osal_timer_destroy` joins the watcher and deletes
the context; in the callback it leaves this to the watcher. A step that uses a deleted context is
recorded as a fault.
-/

namespace MicrOsal.QnxTimer

open Timer (tickNs maxTime)

variable {w : Nat}

/-- `qnx_timer_ctx`. -/
structure Ctx (w : Nat) where
  period : Tick w
  deadline : Nat
  armRevision : BitVec 64
  autoReload : Bool
  active : Bool
  shutdown : Bool
  releaseFromWatcher : Bool
  deriving DecidableEq

/-- Where `qnx_timer_watcher` is. -/
inductive Watcher
  /-- About to take the mutex: at the start, or after a wait that did not time out. -/
  | entering
  /-- In `pthread_cond_wait`. -/
  | asleep
  /-- In `pthread_cond_timedwait`, with the `revision` that it has noted. -/
  | waiting (deadline : Nat) (revision : BitVec 64)
  /-- `pthread_cond_timedwait` will return `ETIMEDOUT`; about to take the mutex. -/
  | timedOut (revision : BitVec 64)
  | callback (revision : BitVec 64)
  /-- The callback has returned; about to take the mutex. -/
  | returned (revision : BitVec 64)
  /-- Out of the loop, with what it has read of `release_from_watcher`. -/
  | exiting (release : Bool)
  | gone
  deriving DecidableEq, Repr

/-- Where a call of `osal_timer_destroy` is. -/
inductive Destroyer
  | absent
  /-- In `pthread_join`. -/
  | join
  /-- About to call `qnx_timer_release`. -/
  | release
  /-- About to clear `handle->native`. -/
  | clear
  deriving DecidableEq, Repr

/-- What has happened, with the time. -/
inductive Event
  | start (now : Nat)
  | stop
  /-- The period is in nanoseconds. -/
  | setPeriod (now period : Nat)
  | destroy
  | called (now : Nat)
  /-- The callback has returned, and the watcher has taken the mutex. -/
  | returned (now : Nat)
  deriving DecidableEq, Repr

structure State (w : Nat) where
  /-- The context, until it is deleted. -/
  ctx : Option (Ctx w)
  /-- `handle->native` is not null. -/
  handle : Bool
  watcher : Watcher
  destroyer : Destroyer
  /-- Nanoseconds. -/
  now : Nat
  /-- How often the timer has been armed. No step reads it. -/
  armings : Nat
  /-- The record of the run. No step reads it. -/
  log : List Event
  /-- A step has used a context that was deleted. No step reads it. -/
  fault : Bool

inductive Op (w : Nat)
  | start
  | stop
  | setPeriod (period : Tick w)
  | destroy
  deriving DecidableEq

inductive Action (w : Nat)
  /-- A call, by the callback itself or by a task. -/
  | call (own : Bool) (op : Op w)
  /-- The watcher goes on. -/
  | watcher
  /-- Its wait ends for no reason. -/
  | wakeUp
  /-- The time of its wait is up. -/
  | expire
  /-- `osal_timer_destroy` goes on; `fails` is whether `pthread_join` does. -/
  | destroyer (fails : Bool)
  | tick (ns : Nat)
  deriving DecidableEq

/-- `ms_to_abs_mono`. `WAIT_FOREVER` is no finite time, and adds nothing. -/
def msToAbsMono (now : Nat) (ms : Tick w) : Nat :=
  if ms = waitForever then now else min (now + ms.toNat * tickNs) maxTime

namespace State

variable (s : State w)

/-- A step that uses the context. -/
def use (f : Ctx w → State w) : State w :=
  match s.ctx with
  | some c => f c
  | none => { s with fault := true }

/-- `pthread_cond_broadcast`. -/
def broadcast : State w :=
  match s.watcher with
  | .asleep => { s with watcher := .entering }
  | .waiting _ _ => { s with watcher := .entering }
  | _ => s

def note (e : Event) : State w := { s with log := s.log ++ [e] }

/-- `osal_timer_create`. -/
def create (period : Tick w) (autoReload : Bool) (now : Nat) (fails : Bool) :
    Except ErrorCode (State w) :=
  if period = 0 ∨ period = waitForever then .error .invalidArgument
  else if fails then .error .outOfResources
  else .ok ⟨some ⟨period, 0, 0, autoReload, false, false, false⟩, true, .entering, .absent, now, 0,
    [], false⟩

/-- `osal_timer_start`. -/
def start : State w :=
  s.use (fun c => State.broadcast (State.note
    { s with
      ctx := some { c with
        active := c.period ≠ noWait
        deadline := msToAbsMono s.now c.period
        armRevision := c.armRevision + 1 }
      armings := s.armings + 1 } (.start s.now)))

/-- `osal_timer_stop`. -/
def stop : State w :=
  s.use (fun c => State.broadcast (State.note
    { s with ctx := some { c with active := false } } .stop))

/-- `osal_timer_set_period`. -/
def setPeriod (period : Tick w) : State w :=
  if period = 0 ∨ period = waitForever then s
  else s.use (fun c =>
    if c.active then
      State.broadcast (State.note
        { s with
          ctx := some { c with
            period := period
            deadline := msToAbsMono s.now period
            armRevision := c.armRevision + 1 }
          armings := s.armings + 1 } (.setPeriod s.now (period.toNat * tickNs)))
    else State.note { s with ctx := some { c with period := period } }
      (.setPeriod s.now (period.toNat * tickNs)))

/-- `osal_timer_destroy`, up to where it waits for the watcher, or returns to it. -/
def destroy (own : Bool) : State w :=
  s.use (fun c =>
    if own then
      { State.broadcast (State.note
          { s with ctx := some { c with
              active := false, shutdown := true, releaseFromWatcher := true } } .destroy) with
        handle := false }
    else
      { State.broadcast (State.note
          { s with ctx := some { c with active := false, shutdown := true } } .destroy) with
        destroyer := .join })

/-- A call with the handle; if that is null it does nothing. -/
def call (own : Bool) (op : Op w) : State w :=
  if s.handle then
    match op with
    | .start => s.start
    | .stop => s.stop
    | .setPeriod period => s.setPeriod period
    | .destroy => s.destroy own
  else s

/-- `osal_timer_is_active`. -/
def isActive : Bool := s.handle && s.ctx.any Ctx.active

/-- The rest of `osal_timer_destroy`. -/
def stepDestroyer (fails : Bool) : Option (State w) :=
  match s.destroyer with
  | .absent => none
  | .join =>
      if fails then some { s with destroyer := .absent }
      else if s.watcher = .gone then some { s with destroyer := .release } else none
  | .release => some (s.use (fun _ => { s with ctx := none, destroyer := .clear }))
  | .clear => some { s with handle := false, destroyer := .absent }

/-- The watcher has the mutex, at the top of its loop. -/
def loop (c : Ctx w) : State w :=
  { s with
    ctx := some c
    watcher :=
      if c.shutdown then .exiting c.releaseFromWatcher
      else if c.active then .waiting c.deadline c.armRevision
      else .asleep }

/-- `qnx_timer_watcher`. -/
def stepWatcher : Option (State w) :=
  match s.watcher with
  | .entering => some (s.use s.loop)
  | .timedOut revision =>
      some (s.use (fun c =>
        if c.shutdown ∨ ! c.active ∨ revision ≠ c.armRevision then s.loop c
        else State.note
          { s with
            ctx := some { c with active := c.autoReload }
            watcher := .callback revision } (.called s.now)))
  | .callback revision => some { s with watcher := .returned revision }
  | .returned revision =>
      some (s.use (fun c => (s.note (.returned s.now)).loop
        (if c.active ∧ c.autoReload ∧ revision = c.armRevision then
          { c with deadline := msToAbsMono s.now c.period }
        else c)))
  | .exiting release =>
      if release then some (s.use (fun _ => { s with ctx := none, watcher := .gone }))
      else some { s with watcher := .gone }
  | _ => none

def step : Action w → Option (State w)
  | .call own op =>
      match s.watcher with
      | .callback _ => some (s.call own op)
      | _ => if own then none else some (s.call own op)
  | .watcher => s.stepWatcher
  | .wakeUp =>
      match s.watcher with
      | .asleep => some { s with watcher := .entering }
      | .waiting _ _ => some { s with watcher := .entering }
      | _ => none
  | .expire =>
      match s.watcher with
      | .waiting deadline revision =>
          if deadline ≤ s.now then some { s with watcher := .timedOut revision } else none
      | _ => none
  | .destroyer fails => s.stepDestroyer fails
  -- A `timespec` can express the time.
  | .tick ns => if s.now + ns < maxTime then some { s with now := s.now + ns } else none

/-- While a task destroys the timer only its callback uses it, and does not destroy it too; and the
revisions do not come round. -/
def orderly : Action w → Bool
  | .call own op =>
      (s.destroyer = .absent || (own && op ≠ .destroy)) && s.armings + 1 < 2 ^ 64
  | _ => true

end State

/-- A timer that has been created. -/
def qnxTimer (s : State w) : Machine (State w) (Action w) where
  init := s
  step := State.step

end MicrOsal.QnxTimer
