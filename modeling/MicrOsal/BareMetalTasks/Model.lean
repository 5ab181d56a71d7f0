import MicrOsal.Core
import MicrOsal.Lib.CyclicScan
import MicrOsal.Lib.History
import MicrOsal.Lib.Machine

/-!
# MicrOsal.BareMetalTasks.Model

The cooperative tasks of the bare-metal backend (`src/bare_metal/bare_metal_backend.cpp`, hosted
build): `bm_schedule`, `bm_task_trampoline` and the calls that yield.

One party runs at a time, a task or the caller of the scheduler, until it comes to a yield or a
task returns from its entry function. Everything between two such points is one step, except that
a tick may come in the loops of `osal_thread_join` and `osal_thread_sleep_ms`.

A context is good for one switch to it: what is saved in it goes on from there, and a second switch
would go back into frames that are gone. `ctx` and `schedCtx` say whether there is one.
-/

namespace MicrOsal.BareMetalTasks

variable {w : Nat}

/-! ### State -/

/-- A time that a loop waits for. -/
structure Deadline where
  /-- The tick counter as the call began, and the ticks that it is for. No step of the program
  reads them. -/
  began : Nat
  ticks : Nat
  /-- `deadline` of `osal_thread_join`, `wake` of `osal_thread_sleep_ms`: the sum as a
  `std::uint64_t`. -/
  sum : BitVec 64
  sum_eq : sum = BitVec.ofNat 64 (began + ticks)
  deriving DecidableEq, Repr

def Deadline.after (now ticks : Nat) : Deadline :=
  ⟨now, ticks, BitVec.ofNat 64 now + BitVec.ofNat 64 ticks, (BitVec.ofNat_add ..).symm⟩

/-- A loop that a party is in when it yields. -/
inductive Call
  /-- None: the party is in code of its own, or in a plain `osal_thread_yield`. -/
  | own
  /-- A loop around `bm_wait_yield` in some other call. -/
  | wait
  /-- `osal_thread_join` of handle `h`, where `t` is the slot of its task. -/
  | join (h t : Nat) (forever : Bool) (deadline : Deadline)
  /-- `osal_thread_sleep_ms`. -/
  | sleep (wake : Deadline)
  deriving DecidableEq, Repr

/-- The loop yields with `bm_wait_yield`. -/
def Call.waits : Call → Bool
  | .wait => true
  | .sleep _ => true
  | _ => false

/-- What a party is in when its yield has returned. What it does after `bm_wait_yield` in a loop
that is not modelled is up to it. -/
def Call.resumed : Call → Call
  | .wait => .own
  | call => call

/-- The call is a join of handle `h`. -/
def Call.joins (h : Nat) : Call → Bool
  | .join h' _ _ _ => h' == h
  | _ => false

/-- What a switch to a context goes on with. -/
inductive Context
  /-- `bm_task_trampoline`, as `makecontext` has set it up. -/
  | trampoline
  /-- The rest of `bm_schedule`, after `swapcontext`. -/
  | schedule
  deriving DecidableEq, Repr

/-- `bm_task`. -/
structure Task where
  /-- `BM_TASK_VALID`. -/
  valid : Bool
  /-- `BM_TASK_FINISHED`. -/
  finished : Bool
  /-- `BM_TASK_DETACHED`. -/
  detached : Bool
  /-- `BM_TASK_WAITING`. -/
  waiting : Bool
  entry : Nat
  arg : Nat
  ctx : Option Context
  /-- The loop that the task is in; this is on its stack. -/
  call : Call
  /-- The handle that the task was created for. No step of the program reads it. -/
  owner : Nat
  deriving DecidableEq, Repr

/-- The task has not returned from its entry function. -/
def Task.live (t : Task) : Bool := t.valid && !t.finished

/-- The test of `bm_find_next_ready_task`. -/
def Task.ready (includeWaiting : Bool) (t : Task) : Bool :=
  t.valid && !t.finished && (includeWaiting || !t.waiting)

/-- What a run shows. Tasks are named by the handles they were created for. -/
inductive Event
  | created (h entry arg : Nat)
  /-- The entry function is called, -/
  | called (h entry arg : Nat)
  /-- and it has returned. -/
  | returned (h : Nat)
  /-- A join or a sleep of `ticks` ticks begins at `now`. -/
  | begins (ticks now : Nat)
  /-- `osal_thread_join` of handle `h` has returned `r` at `now`. -/
  | joined (h : Nat) (r : ErrorCode) (deadline : Deadline) (now : Nat)
  /-- `osal_thread_sleep_ms` has returned at `now`. -/
  | slept (wake : Deadline) (now : Nat)
  deriving DecidableEq, Repr

/-- The whole system. -/
structure State where
  /-- `bm_tasks`. -/
  tasks : Nat → Task
  /-- `bm_current`. -/
  current : Option Nat
  /-- `bm_last_scheduled`. -/
  lastScheduled : Option Nat
  /-- `bm_sched_ctx_valid`. -/
  schedCtxValid : Bool
  /-- There is a context in `bm_sched_ctx`. -/
  schedCtx : Bool
  /-- The loop that the caller is in. -/
  callerCall : Call
  /-- `previous_sched_ctx_valid` of the caller. -/
  previousValid : Bool
  /-- The ticks so far. -/
  now : Nat
  /-- `native` of each handle. -/
  handles : Nat → Option Nat
  /-- The number of handles that `osal_thread_create` has filled. -/
  filled : Nat
  /-- A switch went to a context that was not there, or `std::abort` was called. -/
  fault : Bool
  /-- The record of the run. No step of the program reads it. -/
  log : List Event
  /-- How often a party has given up the processor. No step of the program reads it. -/
  turns : Nat

namespace State

def setTask (s : State) (k : Nat) (t : Task) : State :=
  { s with tasks := Function.update s.tasks k t }

def record (s : State) (e : Event) : State := { s with log := s.log ++ [e] }

/-- `bm_ticks_now`. -/
def ticksNow (s : State) : BitVec 64 := BitVec.ofNat 64 s.now

/-- The loop that the running party is in. -/
def call (s : State) : Call :=
  match s.current with
  | none => s.callerCall
  | some k => (s.tasks k).call

def setCall (s : State) (call : Call) : State :=
  match s.current with
  | none => { s with callerCall := call }
  | some k => s.setTask k { s.tasks k with call := call }

/-! ### Switches -/

/-- The slot that the search for the next task begins with. -/
def scanStart (maxTasks : Nat) (s : State) (current : Option Nat) : Nat :=
  -- `anchor` is the running task, or the last one when the caller runs.
  match current.or s.lastScheduled with
  | none => 0
  | some anchor => cyclicNext maxTasks anchor

/-- `bm_find_next_ready_task`. -/
def findNextReadyTask (maxTasks : Nat) (s : State) (current : Option Nat) (includeWaiting : Bool) :
    Option Nat :=
  cyclicScan maxTasks (s.scanStart maxTasks current)
    (fun idx => decide (some idx ≠ current) && (s.tasks idx).ready includeWaiting)

/-- What the running party does when `bm_schedule` has returned: the rest of `osal_thread_yield`
and of `bm_wait_yield`. -/
def back (s : State) : State :=
  match s.current with
  | none => { s with schedCtxValid := s.previousValid, callerCall := s.callerCall.resumed }
  | some k =>
      let t := s.tasks k
      s.setTask k { t with waiting := !t.call.waits && t.waiting, call := t.call.resumed }

/-- `ctx` of task `k` is saved by `swapcontext`. -/
def save (s : State) (k : Nat) : State := s.setTask k { s.tasks k with ctx := some .schedule }

/-- Task `next` is the running one. -/
def dispatch (s : State) (next : Nat) : State :=
  { s with lastScheduled := some next, current := some next }

/-- A switch to task `next`, and what that goes on with. -/
def toTask (s : State) (next : Nat) : State :=
  let t := s.tasks next
  match t.ctx with
  | none => { s.dispatch next with fault := true }
  | some .trampoline =>
      ((s.dispatch next).setTask next { t with ctx := none }).record
        (.called t.owner t.entry t.arg)
  | some .schedule => ((s.dispatch next).setTask next { t with ctx := none }).back

/-- A switch to the caller, and what that goes on with. -/
def toCaller (s : State) : State :=
  if s.schedCtx then back { s with schedCtx := false, current := none }
  else { s with fault := true }

/-- `bm_schedule`. -/
def schedule (maxTasks : Nat) (s : State) : State :=
  match s.current with
  | none =>
      match s.findNextReadyTask maxTasks none true with
      | none => s.back
      | some next => toTask { s with schedCtx := true } next
  | some previous =>
      match s.findNextReadyTask maxTasks (some previous) false with
      | some next => (s.save previous).toTask next
      | none => if s.schedCtxValid then (s.save previous).toCaller else s.back

/-- `osal_thread_yield`, in the loop `call`. -/
def yield (maxTasks : Nat) (s : State) (call : Call) : State :=
  -- `bm_maybe_self_tick`.
  let s := { s.setCall call with now := s.now + 1, turns := s.turns + 1 }
  match s.current with
  | none => schedule maxTasks { s with previousValid := s.schedCtxValid, schedCtxValid := true }
  | some _ => s.schedule maxTasks

/-- `bm_wait_yield`, in the loop `call`. -/
def waitYield (maxTasks : Nat) (s : State) (call : Call) : State :=
  match s.current with
  | none => s.yield maxTasks call
  | some k => (s.setTask k { s.tasks k with waiting := true }).yield maxTasks call

/-- `bm_task_trampoline` of task `idx`, after its entry function. -/
def finish (maxTasks : Nat) (s : State) (idx : Nat) : State :=
  let t := s.tasks idx
  let s := { s.record (.returned t.owner) with turns := s.turns + 1 }
  let s := s.setTask idx
    { t with finished := true, waiting := false, valid := t.valid && !t.detached }
  match s.findNextReadyTask maxTasks (some idx) false with
  | some next => s.toTask next
  | none =>
      if s.schedCtxValid then s.toCaller
      else { s with current := none, fault := true }

/-! ### Calls -/

/-- `osal_thread_create`. -/
def create (maxTasks : Nat) (s : State) (entry arg : Nat) : State :=
  match (List.range maxTasks).find? (fun k => !(s.tasks k).valid) with
  | none => s
  | some k =>
      let t : Task := ⟨true, false, false, false, entry, arg, some .trampoline, .own, s.filled⟩
      { (s.setTask k t).record (.created s.filled entry arg) with
        handles := Function.update s.handles s.filled (some k), filled := s.filled + 1 }

/-- The loop of `osal_thread_join`, from its head. -/
def joinLoop (maxTasks : Nat) (s : State) (h t : Nat) (forever : Bool) (deadline : Deadline) :
    State :=
  if (s.tasks t).finished then
    let s := (s.setCall .own).record (.joined h .ok deadline s.now)
    { s.setTask t { s.tasks t with valid := false } with
      handles := Function.update s.handles h none }
  else s.yield maxTasks (.join h t forever deadline)

/-- `osal_thread_join`. -/
def join (maxTasks : Nat) (s : State) (h : Nat) (timeout : Tick w) : State :=
  match s.handles h with
  | none => s.record (.joined h .notInitialized (.after s.now timeout.toNat) s.now)
  | some t => (s.record (.begins timeout.toNat s.now)).joinLoop maxTasks h t
      (decide (timeout = waitForever)) (.after s.now timeout.toNat)

/-- The loop of `osal_thread_sleep_ms`, from its head. -/
def sleepLoop (maxTasks : Nat) (s : State) (wake : Deadline) : State :=
  if s.ticksNow < wake.sum then s.waitYield maxTasks (.sleep wake)
  else (s.setCall .own).record (.slept wake s.now)

/-- `osal_thread_sleep_ms`. -/
def sleep (maxTasks : Nat) (s : State) (ms : Nat) : State :=
  (s.record (.begins ms s.now)).sleepLoop maxTasks (.after s.now ms)

/-- The running party goes on in its loop. -/
def advance (maxTasks : Nat) (s : State) : Option State :=
  match s.call with
  | .own => none
  | .wait => none
  | .join h t forever deadline =>
      if forever = false ∧ deadline.sum ≤ s.ticksNow then
        some ((s.setCall .own).record (.joined h .timeout deadline s.now))
      else some (s.joinLoop maxTasks h t forever deadline)
  | .sleep wake => some (s.sleepLoop maxTasks wake)

/-- `osal_thread_detach`. -/
def detach (s : State) (h : Nat) : State :=
  match s.handles h with
  | none => s
  | some t =>
      { s.setTask t { s.tasks t with detached := true } with
        handles := Function.update s.handles h none }

end State

/-! ### Steps -/

/-- What happens next. All but a tick is done by the running party. -/
inductive Action (w : Nat)
  | create (entry arg : Nat)
  /-- `osal_thread_yield`. -/
  | yield
  /-- `bm_wait_yield` in some other call. -/
  | waitYield
  | join (h : Nat) (timeout : Tick w)
  | sleep (ms : Nat)
  | detach (h : Nat)
  /-- It goes on in the loop that it is in. -/
  | advance
  /-- Its entry function returns. -/
  | finish
  | tick
  deriving DecidableEq, Repr

/-- One step, by a party that is in code of its own. -/
def State.act (maxTasks : Nat) (s : State) : Action w → Option State
  | .create entry arg => some (s.create maxTasks entry arg)
  | .yield => some (s.yield maxTasks .own)
  | .waitYield => some (s.waitYield maxTasks .wait)
  | .join h timeout => some (s.join maxTasks h timeout)
  | .sleep ms => some (s.sleep maxTasks ms)
  | .detach h => some (s.detach h)
  | .finish => s.current.map (s.finish maxTasks)
  | .advance => none
  | .tick => none

/-- One step; `none` when it cannot happen. -/
def State.step (maxTasks : Nat) (s : State) : Action w → Option State
  | .tick => some { s with now := s.now + 1 }
  | .advance => if s.fault then none else s.advance maxTasks
  | a => if s.fault = false ∧ s.call = .own then s.act maxTasks a else none

/-- Before anything is created: the caller runs. -/
def State.initial : State where
  tasks := fun _ => ⟨false, false, false, false, 0, 0, none, .own, 0⟩
  current := none
  lastScheduled := none
  schedCtxValid := false
  schedCtx := false
  callerCall := .own
  previousValid := false
  now := 0
  handles := fun _ => none
  filled := 0
  fault := false
  log := []
  turns := 0

/-- `maxTasks` is `OSAL_BM_MAX_TASKS`. -/
def taskMachine (w maxTasks : Nat) : Machine State (Action w) where
  init := State.initial
  step := fun s a => s.step maxTasks a

end MicrOsal.BareMetalTasks
