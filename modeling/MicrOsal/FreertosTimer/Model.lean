import MicrOsal.Core
import MicrOsal.Lib.Machine
import MicrOsal.Lib.Tally

/-!
# MicrOsal.FreertosTimer.Model

The timers of the FreeRTOS backend (`src/freertos/freertos_backend.cpp`) with static allocation:
any number of timer objects over the pool `fr_cb_pairs` of callback pairs and the pool
`fr_timer_pool` of native timers, and the timer daemon, which takes the commands of all tasks in
order and runs the expiries.

A callback pair and a native timer are used again once `osal_timer_destroy` has given them back.
It does so after a fence has come back from the daemon.

An object is named by its creation. Each critical section, each access to a pair outside of one
and each native call is one step. Whether a native call fails is part of the action, and so is
when a timer that is active expires.
-/

namespace MicrOsal.FreertosTimer

/-! ### Pools -/

/-- `fr_cb_pair`. -/
structure Pair where
  /-- `fn`, if it is no null pointer. -/
  fn : Option Nat
  /-- `a`. -/
  arg : Nat
  used : Bool
  suppress : Bool
  deriving DecidableEq, Repr

/-- The native timer in a slot of `fr_timer_pool`. -/
structure Native where
  /-- There is a timer: `xTimerCreateStatic` has made it, and the daemon has not deleted it. -/
  alive : Bool
  active : Bool
  autoReload : Bool
  /-- `pvTimerGetTimerID`, by its position in `fr_cb_pairs`. -/
  id : Nat
  /-- The object that it was made for. No step reads it. -/
  object : Nat
  deriving DecidableEq, Repr

/-! ### The daemon -/

/-- Who waits for a fence. -/
inductive Waiter
  /-- `osal_timer_destroy` of an object, with its timer. -/
  | destroy (object timer : Nat)
  /-- A call of `osal_timer_set_period`. -/
  | setter (k : Nat)
  deriving DecidableEq, Repr

/-- What is in the queue of the daemon; `object` is the object that the sender meant, and no step
reads it. -/
inductive Command
  /-- `xTimerStart` and `xTimerReset`. -/
  | start (timer object : Nat)
  | stop (timer object : Nat)
  | changePeriod (timer object : Nat)
  | delete (timer object : Nat)
  /-- `xTimerPendFunctionCall` of `signal_done`. -/
  | fence (waiter : Waiter)
  deriving DecidableEq, Repr

/-- The timer that a command is for, and the object that was meant. -/
def Command.about : Command → Option (Nat × Nat)
  | .start t o => some (t, o)
  | .stop t o => some (t, o)
  | .changePeriod t o => some (t, o)
  | .delete t o => some (t, o)
  | .fence _ => none

inductive Daemon
  | idle
  /-- About to run the lambda that `osal_timer_create` has given to the native timer. -/
  | lambda (timer : Nat)
  /-- In the callback of the application; no step reads which object the timer was made for. -/
  | running (object : Nat)
  deriving DecidableEq, Repr

/-! ### Calls -/

/-- How far an object is: in `osal_timer_create`, with its handle set, in `osal_timer_destroy`,
or done with. -/
inductive Phase
  /-- About to look for a pair. -/
  | pair
  /-- About to write to the pair. -/
  | fill (p : Nat)
  /-- About to look for a native timer. -/
  | store (p : Nat)
  /-- About to call `xTimerCreateStatic`. -/
  | create (p t : Nat)
  /-- It has failed: about to give the native timer back. -/
  | unstore (p t : Nat)
  /-- About to give the pair back. -/
  | unpair (p : Nat)
  | live (p t : Nat)
  /-- About to create the semaphore `done`. -/
  | semaphore (p t : Nat)
  /-- About to send the deletion. -/
  | delete (p t : Nat)
  /-- About to send the fence. -/
  | fence (p t : Nat)
  /-- Waits for `done`. -/
  | await (p t : Nat) (done : Bool)
  /-- About to give the native timer back. -/
  | reclaim (p t : Nat)
  /-- About to clear the pair and to give it back. -/
  | retire (p t : Nat)
  /-- The handle is null; creation has failed, or destruction is over. -/
  | ended
  deriving DecidableEq, Repr

namespace Phase

/-- The pair that the object holds. -/
def pair? : Phase → Option Nat
  | .fill p => some p
  | .store p => some p
  | .create p _ => some p
  | .unstore p _ => some p
  | .unpair p => some p
  | .live p _ => some p
  | .semaphore p _ => some p
  | .delete p _ => some p
  | .fence p _ => some p
  | .await p _ _ => some p
  | .reclaim p _ => some p
  | .retire p _ => some p
  | _ => none

/-- The native timer that the object holds. -/
def store? : Phase → Option Nat
  | .create _ t => some t
  | .unstore _ t => some t
  | .live _ t => some t
  | .semaphore _ t => some t
  | .delete _ t => some t
  | .fence _ t => some t
  | .await _ t _ => some t
  | .reclaim _ t => some t
  | _ => none

/-- `handle->native`. -/
def native? : Phase → Option Nat
  | .live _ t => some t
  | .semaphore _ t => some t
  | .delete _ t => some t
  | .fence _ t => some t
  | .await _ t _ => some t
  | .reclaim _ t => some t
  | .retire _ t => some t
  | _ => none

/-- In `osal_timer_destroy`. -/
def destroying : Phase → Bool
  | .semaphore _ _ => true
  | .delete _ _ => true
  | .fence _ _ => true
  | .await _ _ _ => true
  | .reclaim _ _ => true
  | .retire _ _ => true
  | _ => false

end Phase

structure Object where
  fn : Nat
  arg : Nat
  autoReload : Bool
  phase : Phase
  deriving DecidableEq, Repr

/-- How far a call of `osal_timer_set_period` is; `active` is whether the timer was. -/
inductive SetPhase
  | fence
  | await (done : Bool)
  /-- About to call `xTimerIsTimerActive`. -/
  | look
  /-- The timer was not active: about to set `suppress`. -/
  | suppress
  | change (active : Bool)
  /-- About to send the stop. -/
  | halt
  | refence
  | reawait (done : Bool)
  /-- About to clear `suppress`. -/
  | release
  | ended
  deriving DecidableEq, Repr

/-- A call of `osal_timer_set_period`. -/
structure Setter where
  object : Nat
  timer : Nat
  phase : SetPhase
  deriving DecidableEq, Repr

inductive Event
  /-- `osal_timer_destroy` of an object has returned `ok`. -/
  | destroyed (object : Nat)
  /-- The callback of an object's timer has been called. -/
  | called (object fn arg : Nat)
  deriving DecidableEq, Repr

structure State where
  pairs : List Pair
  /-- `fr_timer_used`. -/
  used : List Bool
  /-- `fr_timer_pool`. -/
  natives : List Native
  queue : List Command
  daemon : Daemon
  objects : List Object
  setters : List Setter
  /-- The record of the run. No step reads it. -/
  log : List Event
  deriving DecidableEq, Repr

/-- What happens next. `fails` is whether the native call of the step does. -/
inductive Action
  /-- A task calls `osal_timer_create`. -/
  | create (fn arg : Nat) (autoReload : Bool)
  /-- A task, or a callback of the daemon, calls `osal_timer_start` or `osal_timer_reset`. -/
  | start (o : Nat) (fails : Bool)
  | stop (o : Nat) (fails : Bool)
  /-- A task calls `osal_timer_set_period`. -/
  | setPeriod (o : Nat)
  /-- The daemon or a task calls `osal_timer_destroy`. -/
  | destroy (o : Nat) (daemon : Bool)
  /-- The next step of the call that creates or destroys the object. -/
  | advance (o : Nat) (fails : Bool)
  /-- The next step of a call that changes the period. -/
  | setter (k : Nat) (fails : Bool)
  /-- The daemon takes a command. -/
  | command
  | expire (t : Nat)
  | lambda
  /-- The callback of the application returns. -/
  | returns
  deriving DecidableEq, Repr

namespace State

variable (s : State)

def phase (o : Nat) : Option Phase := s.objects[o]?.map Object.phase

/-- `handle->native` of an object. -/
def native (o : Nat) : Option Nat := (s.phase o).bind Phase.native?

def setPhase (o : Nat) (phase : Phase) : State :=
  { s with objects := s.objects.modify o (fun obj => { obj with phase := phase }) }

def setSetter (k : Nat) (phase : SetPhase) : State :=
  { s with setters := s.setters.modify k (fun c => { c with phase := phase }) }

def send (c : Command) : State := { s with queue := s.queue ++ [c] }

def note (e : Event) : State := { s with log := s.log ++ [e] }

def setPair (p : Nat) (f : Pair → Pair) : State := { s with pairs := s.pairs.modify p f }

def setNative (t : Nat) (f : Native → Native) : State :=
  { s with natives := s.natives.modify t f }

def setUsed (t : Nat) (used : Bool) : State := { s with used := s.used.set t used }

/-- The next step of `osal_timer_create` or `osal_timer_destroy`. -/
def advance (o : Nat) (fails : Bool) : Option State := do
  let obj ← s.objects[o]?
  match obj.phase with
  | .pair =>
      match s.pairs.findIdx? (fun pair => ! pair.used) with
      | some p => some ((s.setPair p (fun pair => { pair with used := true })).setPhase o (.fill p))
      | none => some (s.setPhase o .ended)
  | .fill p =>
      some ((s.setPair p (fun pair =>
        { pair with fn := some obj.fn, arg := obj.arg, suppress := false })).setPhase o (.store p))
  | .store p =>
      -- `fr_pool_acquire`.
      match s.used.findIdx? (fun used => ! used) with
      | some t => some ((s.setUsed t true).setPhase o (.create p t))
      | none => some (s.setPhase o (.unpair p))
  | .create p t =>
      if fails then some (s.setPhase o (.unstore p t))
      else some ((s.setNative t (fun _ => ⟨true, false, obj.autoReload, p, o⟩)).setPhase o
        (.live p t))
  | .unstore p t => some ((s.setUsed t false).setPhase o (.unpair p))
  | .unpair p =>
      some ((s.setPair p (fun pair => { pair with used := false })).setPhase o .ended)
  | .live _ _ => none
  | .semaphore p t => some (s.setPhase o (if fails then .live p t else .delete p t))
  | .delete p t =>
      if fails then some (s.setPhase o (.live p t))
      else some ((s.send (.delete t o)).setPhase o (.fence p t))
  | .fence p t =>
      -- Sent again until it is taken.
      if fails then some s
      else some ((s.send (.fence (.destroy o t))).setPhase o (.await p t false))
  | .await p t done => if done then some (s.setPhase o (.reclaim p t)) else none
  | .reclaim p t => some ((s.setUsed t false).setPhase o (.retire p t))
  | .retire p _ =>
      some (((s.setPair p (fun pair => { pair with fn := none, arg := 0, used := false })).setPhase
        o .ended).note (.destroyed o))
  | .ended => none

/-- The next step of `osal_timer_set_period`. -/
def advanceSetter (k : Nat) (fails : Bool) : Option State := do
  let c ← s.setters[k]?
  let native ← s.natives[c.timer]?
  match c.phase with
  | .fence =>
      if fails then some s else some ((s.send (.fence (.setter k))).setSetter k (.await false))
  | .await done => if done then some (s.setSetter k .look) else none
  | .look => some (s.setSetter k (if native.active then .change true else .suppress))
  | .suppress =>
      some ((s.setPair native.id (fun pair => { pair with suppress := true })).setSetter k
        (.change false))
  | .change active =>
      if fails then some (s.setSetter k .release)
      else some ((s.send (.changePeriod c.timer c.object)).setSetter k
        (if active then .refence else .halt))
  | .halt =>
      if fails then some s else some ((s.send (.stop c.timer c.object)).setSetter k .refence)
  | .refence =>
      if fails then some s else some ((s.send (.fence (.setter k))).setSetter k (.reawait false))
  | .reawait done => if done then some (s.setSetter k .release) else none
  | .release =>
      some ((s.setPair native.id (fun pair => { pair with suppress := false })).setSetter k .ended)
  | .ended => none

/-- `signal_done`: whoever waits finds the semaphore given. -/
def signalDone : Waiter → State
  | .destroy o _ =>
      match s.phase o with
      | some (.await p t _) => s.setPhase o (.await p t true)
      | _ => s
  | .setter k =>
      match s.setters[k]?.map Setter.phase with
      | some (.await _) => s.setSetter k (.await true)
      | some (.reawait _) => s.setSetter k (.reawait true)
      | _ => s

/-- `prvProcessReceivedCommands`. -/
def process : Command → State
  | .start t _ => s.setNative t (fun native => { native with active := true })
  | .stop t _ => s.setNative t (fun native => { native with active := false })
  | .changePeriod t _ => s.setNative t (fun native => { native with active := true })
  | .delete t _ => s.setNative t (fun native => { native with alive := false, active := false })
  | .fence waiter => s.signalDone waiter

/-- A command without a wait for room in the queue. -/
def post (fails : Bool) (c : Command) : State := if fails then s else s.send c

def step : Action → Option State
  | .create fn arg autoReload =>
      some { s with objects := s.objects ++ [⟨fn, arg, autoReload, .pair⟩] }
  | .start o fails =>
      match s.native o with
      | some t => some (s.post fails (.start t o))
      -- `not_initialized`.
      | none => some s
  | .stop o fails =>
      match s.native o with
      | some t => some (s.post fails (.stop t o))
      | none => some s
  | .setPeriod o =>
      match s.native o with
      | some t => some { s with setters := s.setters ++ [⟨o, t, .fence⟩] }
      | none => some s
  | .destroy o daemon =>
      match s.phase o with
      | some (.live p t) =>
          -- `not_supported` in the daemon.
          some (if daemon then s else s.setPhase o (.semaphore p t))
      | some phase => if phase.destroying then none else some s
      | none => some s
  | .advance o fails => s.advance o fails
  | .setter k fails => s.advanceSetter k fails
  | .command =>
      match s.daemon, s.queue with
      | .idle, c :: rest => some (({ s with queue := rest } : State).process c)
      | _, _ => none
  | .expire t => do
      let native ← s.natives[t]?
      if s.daemon = .idle ∧ native.alive ∧ native.active then
        some { s.setNative t (fun native => { native with active := native.autoReload }) with
          daemon := .lambda t }
      else none
  | .lambda =>
      match s.daemon with
      | .lambda t => do
          let native ← s.natives[t]?
          let pair ← s.pairs[native.id]?
          match pair.fn with
          | some fn =>
              if pair.suppress then some { s with daemon := .idle }
              else some (({ s with daemon := .running native.object } : State).note
                (.called native.object fn pair.arg))
          | none => some { s with daemon := .idle }
      | _ => none
  | .returns =>
      match s.daemon with
      | .running _ => some { s with daemon := .idle }
      | _ => none

/-- A call of `osal_timer_set_period` on the object is in progress. -/
def changing (o : Nat) : Bool := s.setters.any (fun c => c.object = o && c.phase ≠ .ended)

/-- Nobody uses a timer that is being destroyed, or destroys one whose period is being changed. -/
def orderly : Action → Bool
  | .start o _ => ! (s.phase o).any Phase.destroying
  | .stop o _ => ! (s.phase o).any Phase.destroying
  | .setPeriod o => ! (s.phase o).any Phase.destroying
  | .destroy o _ => ! s.changing o
  | _ => true

end State

/-- The backend with its pools empty; `maxTimers` is `OSAL_FREERTOS_MAX_TIMERS`. -/
def timerMachine (maxTimers : Nat) : Machine State Action where
  init :=
    { pairs := .replicate maxTimers ⟨none, 0, false, false⟩
      used := .replicate maxTimers false
      natives := .replicate maxTimers ⟨false, false, false, 0, 0⟩
      queue := []
      daemon := .idle
      objects := []
      setters := []
      log := [] }
  step := State.step

end MicrOsal.FreertosTimer
