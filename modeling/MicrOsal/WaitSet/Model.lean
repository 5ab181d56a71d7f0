import MicrOsal.Core
import MicrOsal.Lib.Machine

/-!
# MicrOsal.WaitSet.Model

`object_wait_set::wait`, both overloads (`include/osal/object_wait_set.hpp`): one call, on a
set of registered entries, while other threads do to the observed objects what they like.

A round probes all entries in the order of their slots. Probing an entry that was registered
with `clear_on_exit` also clears what it found. Each access to an object is one step; what
others do in between is the action `Action.others`.

The overload with a `wait_signal` runs its rounds inside `wait_until_ready`, which asks for
another round or ends the wait with an error; `Decision` says which.
-/

namespace MicrOsal.WaitSet

/-- `wait_kind`. -/
inductive Kind
  | queueReady
  | mailboxReady
  | eventAny
  | eventAll
  | streamReady
  | messageReady
  | workPending
  | delayablePending
  | notificationPending
  deriving DecidableEq, Repr

/-- `entry_state`. An active entry has an object and a probe. -/
structure Entry where
  active : Bool
  id : Int
  kind : Kind
  object : Nat
  bits : BitVec 32
  arg : Nat
  clearOnExit : Bool
  deriving DecidableEq, Repr

/-- What the probes read of the observed objects. -/
structure World where
  /-- The items of a queue, mailbox or message buffer, the bytes of a stream buffer, and
  `pending()` of a work queue. -/
  items : Nat → Nat
  /-- `pending()` of a delayable work item. -/
  delayed : Nat → Bool
  /-- The bits of an event-flags object. -/
  flags : Nat → BitVec 32
  /-- `pending` of a notification slot. -/
  notes : Nat → Nat → Bool

namespace Entry

/-- What the probe of the entry returns. -/
def ready (e : Entry) (w : World) : Bool :=
  match e.kind with
  | .queueReady => w.items e.object ≠ 0
  | .mailboxReady => w.items e.object ≠ 0
  | .eventAny => w.flags e.object &&& e.bits ≠ 0
  | .eventAll => w.flags e.object &&& e.bits = e.bits
  | .streamReady => e.arg ≤ w.items e.object
  | .messageReady => w.items e.object ≠ 0
  | .workPending => 0 < w.items e.object
  | .delayablePending => w.delayed e.object
  | .notificationPending => w.notes e.object e.arg

/-- The probe clears what it finds. -/
def consumes (e : Entry) : Bool :=
  match e.kind with
  | .eventAny => e.clearOnExit
  | .eventAll => e.clearOnExit
  | .notificationPending => e.clearOnExit
  | _ => false

/-- The bits that a probe clears which has read `w`. -/
def matched (e : Entry) (w : World) : BitVec 32 :=
  if e.kind = .eventAll then e.bits else w.flags e.object &&& e.bits

/-- `clear` of the matched bits, or `reset` of the slot. -/
def clear (e : Entry) (matched : BitVec 32) (w : World) : World :=
  match e.kind with
  | .notificationPending =>
      { w with
        notes := Function.update w.notes e.object
          (Function.update (w.notes e.object) e.arg false) }
  | _ =>
      { w with flags := Function.update w.flags e.object (w.flags e.object &&& ~~~ matched) }

end Entry

/-! ### One call -/

/-- The two overloads. -/
inductive Overload
  /-- With `no_wait` and `forever`, from the timeout. -/
  | polling (noWait forever : Bool)
  | signal
  deriving DecidableEq, Repr

/-- The arguments of a call. -/
structure Args where
  entries : List Entry
  overload : Overload
  /-- `ready_ids` is null. -/
  null : Bool
  maxReady : Nat
  deriving DecidableEq, Repr

inductive Pc
  | start
  /-- About to probe the entry in slot `i`. -/
  | probe (i : Nat)
  /-- The entry in slot `i` is ready by what the probe has read, about to clear it. -/
  | clear (i : Nat) (read : World)
  /-- All entries have been probed. -/
  | round
  /-- With the result and `n_ready`. -/
  | returned (result : ErrorCode) (nReady : Nat)

/-- A call in progress. -/
structure State where
  world : World
  pc : Pc
  /-- The cells of `ready_ids` written in this round. -/
  readyIds : List Int
  localReady : Nat
  /-- The slots probed in this round, with what each probe has read. No step reads it. -/
  probed : List (Nat × World)
  /-- The slots whose entries the call has cleared. No step reads it. -/
  consumed : List Nat

/-- What decides about another round. -/
structure Decision where
  /-- `wait_deadline.expired()`. -/
  expired : Bool
  /-- `wait_until_ready` ends the wait with this error. -/
  error : Option ErrorCode
  deriving DecidableEq, Repr

inductive Action
  /-- Other threads change the objects. -/
  | others (world : World)
  | advance (decision : Decision)

namespace State

/-- A round begins. -/
def begin (s : State) : State :=
  { s with pc := .probe 0, readyIds := [], localReady := 0, probed := [] }

/-- The probe of an entry has returned true. -/
def found (s : State) (args : Args) (i : Nat) (e : Entry) (read : World) : State :=
  { s with
    pc := .probe (i + 1)
    readyIds := if s.localReady < args.maxReady then s.readyIds ++ [e.id] else s.readyIds
    localReady := s.localReady + 1
    probed := s.probed ++ [(i, read)] }

/-- The probe of the entry in slot `i`, up to its clearing. -/
def probe (s : State) (args : Args) (i : Nat) (e : Entry) : State :=
  if ¬ e.active then { s with pc := .probe (i + 1) }
  else if ¬ e.ready s.world then
    { s with pc := .probe (i + 1), probed := s.probed ++ [(i, s.world)] }
  else if e.consumes then { s with pc := .clear i s.world }
  else s.found args i e s.world

/-- The end of a round. -/
def round (s : State) (args : Args) (d : Decision) : State :=
  if s.localReady ≠ 0 then
    { s with
      pc := .returned .ok
        (if s.localReady < args.maxReady then s.localReady else args.maxReady) }
  else
    match args.overload with
    | .polling noWait forever =>
        if noWait ∨ (¬ forever ∧ d.expired) then { s with pc := .returned .timeout 0 } else s.begin
    | .signal =>
        match d.error with
        | some e => if e = .ok then s.begin else { s with pc := .returned e 0 }
        | none => s.begin

/-- The call, up to its first round. -/
def start (s : State) (args : Args) (d : Decision) : State :=
  if args.null ∧ args.maxReady ≠ 0 then { s with pc := .returned .invalidArgument 0 }
  else
    match args.overload, d.error with
    | .signal, some e => if e = .ok then s.begin else { s with pc := .returned e 0 }
    | _, _ => s.begin

def step (args : Args) (s : State) : Action → Option State
  | .others world => some { s with world := world }
  | .advance d =>
      match s.pc with
      | .start => some (s.start args d)
      | .probe i =>
          match args.entries[i]? with
          | none => some { s with pc := .round }
          | some e => some (s.probe args i e)
      | .clear i read =>
          (args.entries[i]?).map (fun e =>
            State.found { s with
              world := e.clear (e.matched read) s.world
              consumed := s.consumed ++ [i] } args i e read)
      | .round => some (s.round args d)
      | .returned _ _ => none

end State

/-- A call of `wait` that begins when the objects are as `world` says. -/
def waitMachine (args : Args) (world : World) : Machine State Action where
  init := ⟨world, .start, [], 0, [], []⟩
  step := State.step args

end MicrOsal.WaitSet
