import MicrOsal.Core
import MicrOsal.Lib.Machine

/-!
# MicrOsal.Notification.Model

Indexed notification words, twice: `osal::notification<Slots>` (`include/osal/notification.hpp`)
and `osal_notification_handle` with its functions (`common/osal_c.cpp`).

Every function holds the mutex from its first access to a slot to its last, so between two
waits on the condition variable a call is one step. A wait is cut where it blocks: `start` is
the call up to its first wait on the condition variable, `resume` what follows after one such
wait has returned. That the mutex of a valid object can be locked is taken for granted.
-/

namespace MicrOsal

namespace Notification

/-- `notification_action`. The enumerations of both languages admit any other code. -/
inductive NotifyAction
  | setBits
  | increment
  | overwrite
  | noOverwrite
  | other (code : Nat)
  deriving DecidableEq, Repr

/-- The timeout of a wait. -/
inductive Timeout
  | forever
  | noWait
  | timed
  deriving DecidableEq, Repr

/-- The arguments of a wait. -/
structure WaitArgs where
  index : Nat
  timeout : Timeout
  /-- `value_out` is not null. -/
  valueOut : Bool
  clearOnEntry : BitVec 32
  clearOnExit : BitVec 32
  deriving DecidableEq, Repr

namespace WaitArgs

/-- The deadline has passed. That of a non-blocking wait has when it is made. -/
def expired (w : WaitArgs) (clock : Bool) : Bool := w.timeout = .noWait || clock

/-- What a successful wait stores through `value_out`. -/
def report (w : WaitArgs) (value : BitVec 32) : Option (BitVec 32) :=
  if w.valueOut then some value else none

end WaitArgs

/-- What a wait has come to. -/
inductive Outcome
  | returned (code : ErrorCode) (value : Option (BitVec 32))
  /-- Waiting on the condition variable, without the mutex. -/
  | blocked
  deriving DecidableEq, Repr

/-- `slot_state`. -/
structure Slot where
  value : BitVec 32 := 0
  pending : Bool := false
  deriving DecidableEq, Repr

end Notification

/-! ### The C++ class -/

/-- `notification<Slots>`, where `Slots` is the length of the list. -/
structure Notification where
  mtxValid : Bool
  cvValid : Bool
  slots : List Notification.Slot
  deriving DecidableEq, Repr

namespace Notification

/-- The constructor, with what the creations of the mutex and the condition variable
returned. -/
def create (slotCount : Nat) (mtxRc cvRc : ErrorCode) : Notification where
  mtxValid := mtxRc = .ok
  cvValid := cvRc = .ok
  slots := List.replicate slotCount {}

def valid (o : Notification) : Bool := o.mtxValid && o.cvValid

def indexValid (o : Notification) (index : Nat) : Bool := index < o.slots.length

def slot (o : Notification) (index : Nat) : Slot := o.slots.getD index {}

def setSlot (o : Notification) (index : Nat) (slot : Slot) : Notification :=
  { o with slots := o.slots.set index slot }

def notify (o : Notification) (value : BitVec 32) (action : NotifyAction) (index : Nat) :
    ErrorCode × Notification :=
  if ! o.valid then (.notInitialized, o)
  else if ! o.indexValid index then (.invalidArgument, o)
  else
    match action with
    | .setBits => (.ok, o.setSlot index ⟨(o.slot index).value ||| value, true⟩)
    | .increment => (.ok, o.setSlot index ⟨(o.slot index).value + 1, true⟩)
    | .overwrite => (.ok, o.setSlot index ⟨value, true⟩)
    | .noOverwrite =>
        if (o.slot index).pending then (.wouldBlock, o)
        else (.ok, o.setSlot index ⟨value, true⟩)
    | .other _ => (.invalidArgument, o)

def clear (o : Notification) (bits : BitVec 32) (index : Nat) : ErrorCode × Notification :=
  if ! o.valid then (.notInitialized, o)
  else if ! o.indexValid index then (.invalidArgument, o)
  else
    (.ok, o.setSlot index { o.slot index with value := (o.slot index).value &&& ~~~ bits })

def reset (o : Notification) (index : Nat) : ErrorCode × Notification :=
  if ! o.valid then (.notInitialized, o)
  else if ! o.indexValid index then (.invalidArgument, o)
  else (.ok, o.setSlot index {})

def pending (o : Notification) (index : Nat) : Bool :=
  if ! o.valid || ! o.indexValid index then false
  else (o.slot index).pending

def peek (o : Notification) (index : Nat) : BitVec 32 :=
  if ! o.valid || ! o.indexValid index then 0
  else (o.slot index).value

/-- The end of a successful wait. -/
def finish (o : Notification) (w : WaitArgs) : Outcome × Notification :=
  let value := (o.slot w.index).value
  (.returned .ok (w.report value), o.setSlot w.index ⟨value &&& ~~~ w.clearOnExit, false⟩)

/-- `wait` up to the first wait on the condition variable. -/
def start (o : Notification) (w : WaitArgs) (clock : Bool) : Outcome × Notification :=
  if ! o.valid then (.returned .notInitialized none, o)
  else if ! o.indexValid w.index then (.returned .invalidArgument none, o)
  else
    let slot := o.slot w.index
    let o := o.setSlot w.index { slot with value := slot.value &&& ~~~ w.clearOnEntry }
    if slot.pending then o.finish w
    else if w.timeout = .forever then (.blocked, o)
    -- `wait_for` with a predicate checks its deadline before it waits.
    else if w.expired clock then (.returned .timeout none, o)
    else (.blocked, o)

/-- `osal_condvar_wait` has returned `rc`. A wait without a timeout does not look at it, and
one with a timeout takes any failure for the end of its time. -/
def resume (o : Notification) (w : WaitArgs) (rc : ErrorCode) (clock : Bool) :
    Outcome × Notification :=
  if (o.slot w.index).pending then o.finish w
  else if w.timeout = .forever then (.blocked, o)
  else if rc ≠ .ok then (.returned .timeout none, o)
  else if w.expired clock then (.returned .timeout none, o)
  else (.blocked, o)

/-! ### The C functions -/

/-- `osal_notification_handle`, with the arrays of the caller. -/
structure Handle where
  values : List (BitVec 32)
  pending : List (BitVec 8)
  slotCount : Nat
  valid : BitVec 8
  values_length : values.length = slotCount
  pending_length : pending.length = slotCount
  deriving DecidableEq, Repr

namespace Handle

/-- A handle that was never created, or whose creation has failed. -/
def empty : Handle := ⟨[], [], 0, 0, rfl, rfl⟩

/-- `osal_c_notification_create` on an empty handle, with what the creations of the mutex and
the condition variable return. -/
def create (slotCount : Nat) (mtxRc cvRc : ErrorCode) : ErrorCode × Handle :=
  if slotCount = 0 then (.invalidArgument, empty)
  else if mtxRc ≠ .ok then (mtxRc, empty)
  else if cvRc ≠ .ok then (cvRc, empty)
  else
    (.ok, ⟨List.replicate slotCount 0, List.replicate slotCount 0, slotCount, 1,
      List.length_replicate, List.length_replicate⟩)

/-- `notification_valid`. -/
def isValid (h : Handle) : Bool := h.valid ≠ 0

/-- `notification_index_valid`. -/
def indexValid (h : Handle) (index : Nat) : Bool := h.isValid && index < h.slotCount

def value (h : Handle) (index : Nat) : BitVec 32 := h.values.getD index 0

def flag (h : Handle) (index : Nat) : BitVec 8 := h.pending.getD index 0

def setValue (h : Handle) (index : Nat) (value : BitVec 32) : Handle where
  values := h.values.set index value
  pending := h.pending
  slotCount := h.slotCount
  valid := h.valid
  values_length := List.length_set.trans h.values_length
  pending_length := h.pending_length

def setFlag (h : Handle) (index : Nat) (flag : BitVec 8) : Handle where
  values := h.values
  pending := h.pending.set index flag
  slotCount := h.slotCount
  valid := h.valid
  values_length := h.values_length
  pending_length := List.length_set.trans h.pending_length

/-- What the functions return for an index that `notification_index_valid` refuses. -/
def indexError (h : Handle) : ErrorCode :=
  if h.isValid then .invalidArgument else .notInitialized

/-- `osal_c_notification_notify`. -/
def notify (h : Handle) (value : BitVec 32) (action : NotifyAction) (index : Nat) :
    ErrorCode × Handle :=
  if ! h.indexValid index then (h.indexError, h)
  else
    match action with
    | .setBits => (.ok, (h.setValue index (h.value index ||| value)).setFlag index 1)
    | .increment => (.ok, (h.setValue index (h.value index + 1)).setFlag index 1)
    | .overwrite => (.ok, (h.setValue index value).setFlag index 1)
    | .noOverwrite =>
        if h.flag index ≠ 0 then (.wouldBlock, h)
        else (.ok, (h.setValue index value).setFlag index 1)
    | .other _ => (.invalidArgument, h)

/-- `osal_c_notification_clear`. -/
def clear (h : Handle) (bits : BitVec 32) (index : Nat) : ErrorCode × Handle :=
  if ! h.indexValid index then (h.indexError, h)
  else (.ok, h.setValue index (h.value index &&& ~~~ bits))

/-- `osal_c_notification_reset`. -/
def reset (h : Handle) (index : Nat) : ErrorCode × Handle :=
  if ! h.indexValid index then (h.indexError, h)
  else (.ok, (h.setValue index 0).setFlag index 0)

/-- `osal_c_notification_pending`, an `int`. -/
def isPending (h : Handle) (index : Nat) : Int :=
  if ! h.indexValid index then 0
  else if h.flag index ≠ 0 then 1 else 0

/-- `osal_c_notification_peek`. -/
def peek (h : Handle) (index : Nat) : BitVec 32 :=
  if ! h.indexValid index then 0 else h.value index

/-- The end of a successful wait. -/
def finish (h : Handle) (w : WaitArgs) : Outcome × Handle :=
  (.returned .ok (w.report (h.value w.index)),
    (h.setValue w.index (h.value w.index &&& ~~~ w.clearOnExit)).setFlag w.index 0)

/-- `osal_c_notification_wait` up to the first wait on the condition variable. -/
def start (h : Handle) (w : WaitArgs) (clock : Bool) : Outcome × Handle :=
  if ! h.indexValid w.index then (.returned h.indexError none, h)
  else
    let h := h.setValue w.index (h.value w.index &&& ~~~ w.clearOnEntry)
    if h.flag w.index ≠ 0 then h.finish w
    else if w.timeout = .forever then (.blocked, h)
    else if w.expired clock then (.returned .timeout none, h)
    else (.blocked, h)

/-- `osal_condvar_wait` has returned `rc`. -/
def resume (h : Handle) (w : WaitArgs) (rc : ErrorCode) (clock : Bool) : Outcome × Handle :=
  if w.timeout = .forever then
    if rc ≠ .ok then (.returned rc none, h)
    else if h.flag w.index ≠ 0 then h.finish w
    else (.blocked, h)
  else if rc = .timeout ∧ h.flag w.index = 0 then (.returned .timeout none, h)
  else if rc ≠ .ok ∧ rc ≠ .timeout then (.returned rc none, h)
  else if h.flag w.index ≠ 0 then h.finish w
  else if w.expired clock then (.returned .timeout none, h)
  else (.blocked, h)

end Handle

/-! ### What both are: a board of slots -/

/-- The slots of a valid object. -/
abbrev Board := Option (List Slot)

namespace Slot

def notify (s : Slot) (value : BitVec 32) : NotifyAction → ErrorCode × Slot
  | .setBits => (.ok, ⟨s.value ||| value, true⟩)
  | .increment => (.ok, ⟨s.value + 1, true⟩)
  | .overwrite => (.ok, ⟨value, true⟩)
  | .noOverwrite => if s.pending then (.wouldBlock, s) else (.ok, ⟨value, true⟩)
  | .other _ => (.invalidArgument, s)

def clear (s : Slot) (bits : BitVec 32) : Slot := { s with value := s.value &&& ~~~ bits }

/-- A successful wait. -/
def take (s : Slot) (w : WaitArgs) : Outcome × Slot :=
  (.returned .ok (w.report s.value), { s.clear w.clearOnExit with pending := false })

/-- A wait before it blocks. -/
def start (s : Slot) (w : WaitArgs) (clock : Bool) : Outcome × Slot :=
  let s := s.clear w.clearOnEntry
  if s.pending then s.take w
  else if w.timeout ≠ .forever ∧ w.expired clock = true then (.returned .timeout none, s)
  else (.blocked, s)

end Slot

namespace Board

/-- An operation on one slot; `bad` tells what it returns without a slot. -/
def access {α : Type} (b : Board) (index : Nat) (bad : ErrorCode → α) (f : Slot → α × Slot) :
    α × Board :=
  match b with
  | none => (bad .notInitialized, none)
  | some slots =>
      match slots[index]? with
      | none => (bad .invalidArgument, some slots)
      | some slot => ((f slot).1, some (slots.set index (f slot).2))

def start (b : Board) (w : WaitArgs) (clock : Bool) : Outcome × Board :=
  b.access w.index (fun code => .returned code none) (fun slot => slot.start w clock)

/-- What a wait may do that resumes: it takes a pending slot, or it leaves everything as it
is and does not succeed. -/
inductive Resumed (w : WaitArgs) : Board → Outcome → Board → Prop
  | take {slots : List Slot} {slot : Slot} : slots[w.index]? = some slot →
      slot.pending = true →
      Resumed w (some slots) (slot.take w).1 (some (slots.set w.index (slot.take w).2))
  | fail {b : Board} {code : ErrorCode} : code ≠ .ok → Resumed w b (.returned code none) b
  | block {b : Board} : Resumed w b .blocked b

end Board

/-- A call that does not wait. -/
inductive Call
  | notify (value : BitVec 32) (action : NotifyAction) (index : Nat)
  | clear (bits : BitVec 32) (index : Nat)
  | reset (index : Nat)
  | pending (index : Nat)
  | peek (index : Nat)
  deriving DecidableEq, Repr

/-- What a call returns. -/
inductive Reply
  | code (code : ErrorCode)
  | flag (flag : Bool)
  | value (value : BitVec 32)
  | waited (outcome : Outcome)
  deriving DecidableEq, Repr

namespace Board

def call (b : Board) : Call → Reply × Board
  | .notify value action index =>
      b.access index .code (fun slot => ((slot.notify value action).map .code id))
  | .clear bits index => b.access index .code (fun slot => (.code .ok, slot.clear bits))
  | .reset index => b.access index .code (fun _ => (.code .ok, {}))
  | .pending index => b.access index (fun _ => .flag false) (fun slot => (.flag slot.pending, slot))
  | .peek index => b.access index (fun _ => .value 0) (fun slot => (.value slot.value, slot))

end Board

/-! ### Implementations -/

/-- One call on an object of the C++ class. -/
def call (o : Notification) : Call → Reply × Notification
  | .notify value action index => (o.notify value action index).map .code id
  | .clear bits index => (o.clear bits index).map .code id
  | .reset index => (o.reset index).map .code id
  | .pending index => (.flag (o.pending index), o)
  | .peek index => (.value (o.peek index), o)

/-- One call of the C functions. -/
def Handle.call (h : Handle) : Call → Reply × Handle
  | .notify value action index => (h.notify value action index).map .code id
  | .clear bits index => (h.clear bits index).map .code id
  | .reset index => (h.reset index).map .code id
  | .pending index => (.flag (h.isPending index ≠ 0), h)
  | .peek index => (.value (h.peek index), h)

/-- An implementation: its functions, the board it shows, and that on the board the functions
do what they should. -/
structure Impl (σ : Type) where
  board : σ → Board
  call : σ → Call → Reply × σ
  start : σ → WaitArgs → Bool → Outcome × σ
  resume : σ → WaitArgs → ErrorCode → Bool → Outcome × σ
  call_spec : ∀ s c, (call s c).map id board = (board s).call c
  start_spec : ∀ s w clock, (start s w clock).map id board = (board s).start w clock
  resume_spec : ∀ s w rc clock, (board s).isSome = true →
    Board.Resumed w (board s) (resume s w rc clock).1 (board (resume s w rc clock).2)

/-! ### Sequences of calls that do not block -/

inductive Op
  | call (c : Call)
  /-- A wait with the timeout zero. -/
  | wait (w : WaitArgs) (clock : Bool)
  deriving DecidableEq, Repr

namespace Impl

variable {σ : Type} (I : Impl σ)

def exec (s : σ) : Op → Reply × σ
  | .call c => I.call s c
  | .wait w clock => (I.start s { w with timeout := .noWait } clock).map .waited id

def execAll (s : σ) : List Op → List Reply × σ
  | [] => ([], s)
  | op :: rest =>
      let r := I.exec s op
      ((I.exec s op).1 :: (execAll r.2 rest).1, (execAll r.2 rest).2)

end Impl

/-! ### Threads that share an object -/

inductive Thread
  /-- Outside of a wait; with what the last one returned. -/
  | idle (last : Option (ErrorCode × Option (BitVec 32)))
  /-- On the condition variable. -/
  | blocked (w : WaitArgs)
  deriving DecidableEq, Repr

inductive Event
  | notified (index : Nat)
  | consumed (index : Nat)
  deriving DecidableEq, Repr

structure State (σ : Type) where
  object : σ
  threads : List Thread
  /-- The notifications and the successful waits, in their order. No step reads it. -/
  log : List Event
  deriving DecidableEq, Repr

inductive Action
  | spawn
  /-- Somebody makes a call that does not wait. -/
  | call (c : Call)
  /-- Thread `n` calls `wait`. -/
  | wait (n : Nat) (w : WaitArgs) (clock : Bool)
  /-- The wait on the condition variable of thread `n` returns `rc`, also without a
  notification. -/
  | resume (n : Nat) (rc : ErrorCode) (clock : Bool)
  deriving DecidableEq, Repr

/-- What a call with this reply adds to the log. -/
def Call.events : Call → Reply → List Event
  | .notify _ _ index, .code .ok => [.notified index]
  | _, _ => []

namespace State

variable {σ : Type}

/-- Thread `n` goes on as its wait has come out. -/
def settle (s : State σ) (n : Nat) (w : WaitArgs) (r : Outcome × σ) : State σ :=
  match r.1 with
  | .returned code value =>
      { object := r.2
        threads := s.threads.set n (.idle (some (code, value)))
        log := if code = .ok then s.log ++ [.consumed w.index] else s.log }
  | .blocked =>
      { s with
        object := r.2
        threads := s.threads.set n (.blocked w) }

def step (I : Impl σ) (s : State σ) : Action → Option (State σ)
  | .spawn => some { s with threads := s.threads ++ [.idle none] }
  | .call c =>
      let r := I.call s.object c
      some { s with
        object := r.2
        log := s.log ++ c.events r.1 }
  | .wait n w clock =>
      match s.threads[n]? with
      | some (.idle _) => some (s.settle n w (I.start s.object w clock))
      | _ => none
  | .resume n rc clock =>
      match s.threads[n]? with
      | some (.blocked w) => some (s.settle n w (I.resume s.object w rc clock))
      | _ => none

end State

/-- Threads that share `object`. -/
def machine {σ : Type} (I : Impl σ) (object : σ) : Machine (State σ) Action where
  init := ⟨object, [], []⟩
  step := State.step I

end Notification

end MicrOsal
