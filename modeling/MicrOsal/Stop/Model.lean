import MicrOsal.Core
import MicrOsal.Lib.LinkedList
import MicrOsal.Lib.Machine
import MicrOsal.Lib.Tally

/-!
# MicrOsal.Stop.Model

`stop_source` and `stop_callback` (`include/osal/stop_token.hpp`): one source, any number
of callbacks and threads.

List, count and flags are touched under the source's mutex, so each locked region is one
step. `request_stop` calls the callbacks between two such regions, the constructor calls
its own after one, and a callback is application code that may construct, close and
request again; a thread is therefore a stack of the calls it is in. The one store outside
the mutex, of a `request_stop` that could not lock again, is a step of its own.

Every primitive may fail at every call (`Results`). A lock that fails is not held. An
unlock that fails may leave the mutex locked, and then no region runs until somebody
repairs it (`Action.repair`).

`osal_condvar_wait` is polled every 10 ms by its caller, so waiters may wake at any time
and a notification has no effect beyond its result. The destructor calls `close` until it
returns ok.
-/

namespace MicrOsal.Stop

/-! ### The objects -/

/-- `stop_callback`. -/
structure StopCallback where
  /-- `source_` is not null. -/
  source : Bool
  /-- `next_`. -/
  next : Option Nat
  executing : Bool
  /-- `status_`. -/
  status : ErrorCode
  /-- The constructor has returned. Until then the object is unknown to others. -/
  constructed : Bool
  deriving DecidableEq, Repr

/-- `stop_source`. -/
structure StopSource where
  /-- `initialization_status_`. -/
  initialization : ErrorCode
  /-- `failure_`. -/
  failure : ErrorCode
  stopped : Bool
  head : Option Nat
  count : Nat
  /-- `metadata_` is held by a call that has returned. -/
  stuck : Bool
  deriving DecidableEq, Repr

namespace StopSource

/-- `status`. -/
def status (src : StopSource) : ErrorCode :=
  if src.initialization = .ok then src.failure else src.initialization

/-- `record`. -/
def record (src : StopSource) (status : ErrorCode) : StopSource :=
  if status ≠ .ok ∧ src.failure = .ok then { src with failure := status } else src

end StopSource

/-- What the primitives do in one step. A step uses those that it calls. -/
structure Results where
  /-- `metadata_.checked_lock`. -/
  lock : ErrorCode
  /-- `metadata_.checked_unlock`. -/
  unlock : ErrorCode
  /-- An unlock that fails leaves the mutex locked. -/
  keeps : Bool
  /-- `osal_condvar_notify_all`. -/
  notify : ErrorCode
  /-- `osal_condvar_wait`. -/
  wait : ErrorCode
  /-- `deadline.expired()`. -/
  expired : Bool
  deriving DecidableEq, Repr

/-! ### Threads -/

/-- Who calls a callback. -/
inductive Caller
  | constructor
  | request
  deriving DecidableEq, Repr

/-- A call that is not finished. -/
inductive Frame
  /-- The constructor of callback `c`: about to lock the source. -/
  | construct (c : Nat)
  /-- `request_stop`: about to lock the source. -/
  | request
  /-- About to call callback `c`, unlocked. -/
  | invoke (caller : Caller) (c : Nat)
  /-- In callback `c`. -/
  | running (caller : Caller) (c : Nat)
  /-- `request_stop`: callback `c` has returned, about to lock again. -/
  | relock (c : Nat)
  /-- `request_stop`: locking again has failed, about to clear `executing_` of `c`. -/
  | unfinished (c : Nat) (locked : ErrorCode)
  /-- `close` of callback `c`, with or without timeout: about to lock the source. -/
  | close (c : Nat) (timed : Bool)
  /-- `close`: in `osal_condvar_wait`. -/
  | waiting (c : Nat) (timed : Bool)
  deriving DecidableEq, Repr

/-- What a thread's last call returned. -/
inductive Return
  | void
  /-- The constructor, with the object's `status()`. -/
  | constructed (c : Nat) (status : ErrorCode)
  /-- `request_stop`, with the value of `first_request`. -/
  | requested (status : ErrorCode) (first : Bool)
  | closed (c : Nat) (status : ErrorCode)
  deriving DecidableEq, Repr

/-- A thread: the calls it is in, the innermost first. -/
structure Thread where
  stack : List Frame
  last : Return
  deriving DecidableEq, Repr

/-- Application code runs: outside all calls, or inside a callback. -/
def Thread.canCall (th : Thread) : Bool :=
  match th.stack with
  | [] => true
  | .running _ _ :: _ => true
  | _ => false

/-! ### State -/

/-- What has happened. -/
inductive Event
  /-- The constructor has returned with this `status()`; `source` tells whether `source_` is
  not null. -/
  | constructed (c : Nat) (status : ErrorCode) (source : Bool)
  /-- The constructor returns, and the callback is neither on the list nor has it been
  called. -/
  | unattached (c : Nat)
  /-- Callback `c` has been called. -/
  | called (c : Nat)
  /-- `close` has taken `c` off the list. -/
  | unlinked (c : Nat)
  /-- `request_stop` has taken `c` off the list, and returns without calling it. -/
  | dropped (c : Nat)
  | closed (c : Nat) (status : ErrorCode)
  /-- A `request_stop` has the lock, and is the first. -/
  | stopping
  | requested (status : ErrorCode) (first : Bool)
  deriving DecidableEq, Repr

/-- The whole system. Callbacks and threads are named by their positions. -/
structure State where
  source : StopSource
  callbacks : List StopCallback
  threads : List Thread
  /-- The record of the run. No step of the program reads it. -/
  log : List Event
  deriving DecidableEq, Repr

namespace State

def note (s : State) (e : Event) : State := { s with log := s.log ++ [e] }

def setThread (s : State) (n : Nat) (stack : List Frame) (last : Return) : State :=
  { s with threads := s.threads.set n ⟨stack, last⟩ }

/-- Store to the members of callback `c`. -/
def modifyCallback (s : State) (c : Nat) (f : StopCallback → StopCallback) : State :=
  { s with callbacks := s.callbacks.modify c f }

/-- `next_` of callback `c`. -/
def next (s : State) (c : Nat) : Option Nat := (s.callbacks[c]?).bind (·.next)

def record (s : State) (status : ErrorCode) : State := { s with source := s.source.record status }

/-- `unlock`. -/
def unlock (s : State) (r : Results) : State :=
  { s.record r.unlock with
    source := { s.source.record r.unlock with stuck := r.unlock ≠ .ok ∧ r.keeps } }

/-! ### The constructor -/

/-- The constructor returns with `status_` and `source_` as given. -/
def constructed (s : State) (n : Nat) (rest : List Frame) (c : Nat) (status : ErrorCode)
    (source : Bool) : State :=
  ((s.modifyCallback c (fun cb =>
    { cb with status := status, source := source, constructed := true })).note
      (.constructed c status source)).setThread n rest (.constructed c status)

/-- The constructor, up to its lock. -/
def construct (s : State) (n : Nat) (th : Thread) (token callback : Bool) : State :=
  let c := s.callbacks.length
  let s' : State :=
    { s with callbacks := s.callbacks ++ [⟨token, none, false, .ok, false⟩] }
  if ¬ callback then
    (s'.note (.unattached c)).constructed n th.stack c .invalidArgument false
  else if ¬ token then (s'.note (.unattached c)).constructed n th.stack c .ok false
  else if s.source.status ≠ .ok then
    (s'.note (.unattached c)).constructed n th.stack c s.source.status false
  else s'.setThread n (.construct c :: th.stack) th.last

/-- The locked region of the constructor. -/
def constructLocked (s : State) (maxCallbacks n : Nat) (rest : List Frame) (last : Return)
    (c : Nat) (r : Results) : State :=
  if s.source.stopped then
    if r.unlock = .ok then (s.unlock r).setThread n (.invoke .constructor c :: rest) last
    else ((s.unlock r).note (.unattached c)).constructed n rest c r.unlock true
  else if s.source.count = maxCallbacks then
    ((s.unlock r).note (.unattached c)).constructed n rest c
      (if r.unlock = .ok then .overflow else r.unlock) false
  else
    (({ s with
      source := { s.source with head := some c, count := s.source.count + 1 }
      callbacks := s.callbacks.modify c (fun cb => { cb with next := s.source.head }) }).unlock
        r).constructed n rest c r.unlock true

/-! ### `request_stop` -/

/-- `request_stop` returns. -/
def requested (s : State) (n : Nat) (rest : List Frame) (status : ErrorCode) (first : Bool) :
    State :=
  (s.note (.requested status first)).setThread n rest (.requested status first)

/-- `request_stop`, up to its lock. -/
def request (s : State) (n : Nat) (th : Thread) : State :=
  if s.source.status ≠ .ok then s.requested n th.stack s.source.status false
  else s.setThread n (.request :: th.stack) th.last

/-- The loop of `request_stop`, from its head to the call of a callback or the end. -/
def loop (s : State) (n : Nat) (rest : List Frame) (last : Return) (r : Results) : State :=
  match s.source.head with
  | none => (s.unlock r).requested n rest r.unlock true
  | some c =>
      let popped := ({ s with
        source := { s.source with head := s.next c, count := sizeDecr s.source.count } }
          |>.modifyCallback c (fun cb => { cb with executing := true })).unlock r
      if r.unlock = .ok then popped.setThread n (.invoke .request c :: rest) last
      else (popped.note (.dropped c)).requested n rest r.unlock true

/-- The first locked region of `request_stop`. -/
def requestLocked (s : State) (n : Nat) (rest : List Frame) (last : Return) (r : Results) :
    State :=
  if s.source.stopped then (s.unlock r).requested n rest r.unlock false
  else ({ s with source := { s.source with stopped := true } }.note .stopping).loop n rest last r

/-- `executing_` of `c` is cleared. -/
def finished (s : State) (c : Nat) : State :=
  s.modifyCallback c (fun cb => { cb with executing := false })

/-- The locked region of `request_stop` after a callback. -/
def relocked (s : State) (n : Nat) (rest : List Frame) (last : Return) (c : Nat) (r : Results) :
    State :=
  let s := (s.finished c).record r.notify
  if r.notify = .ok then s.loop n rest last r
  else (s.unlock r).requested n rest r.notify true

/-! ### `close` -/

/-- `close` returns. -/
def closed (s : State) (n : Nat) (rest : List Frame) (c : Nat) (status : ErrorCode) : State :=
  (s.note (.closed c status)).setThread n rest (.closed c status)

/-- `close`, up to its lock. -/
def close (s : State) (n : Nat) (th : Thread) (c : Nat) (timed : Bool) : Option State := do
  let cb ← s.callbacks[c]?
  if ¬ cb.constructed then none
  else if ¬ cb.source then some (s.closed n th.stack c .ok)
  else some (s.setThread n (.close c timed :: th.stack) th.last)

/-- Callback `c` is taken off the list, if it is there. -/
def unlink (s : State) (c : Nat) : Option State := do
  match ← findLink s.next c (s.callbacks.length + 1) .head s.source.head with
  | none => some s
  | some .head =>
      some ({ s with
        source := { s.source with head := s.next c, count := sizeDecr s.source.count } }.note
          (.unlinked c))
  | some (.next b) =>
      some (({ s with source := { s.source with count := sizeDecr s.source.count } }.modifyCallback
        b (fun cb => { cb with next := s.next c })).note (.unlinked c))

/-- The loop of `close`, from its head to `osal_condvar_wait` or the end. -/
def closeLoop (s : State) (n : Nat) (rest : List Frame) (last : Return) (c : Nat)
    (timed : Bool) (r : Results) : Option State := do
  let cb ← s.callbacks[c]?
  -- A null pointer cannot be called through.
  if ¬ cb.source then none
  else if cb.executing then
    if timed ∧ r.expired then
      some ((s.unlock r).closed n rest c (if r.unlock = .ok then .timeout else r.unlock))
    else some (s.setThread n (.waiting c timed :: rest) last)
  else if r.unlock = .ok then
    some (((s.unlock r).modifyCallback c (fun cb => { cb with source := false })).closed n rest c
      .ok)
  else some ((s.unlock r).closed n rest c r.unlock)

/-- `osal_condvar_wait` has returned with an error. -/
def waitFailed (s : State) (n : Nat) (rest : List Frame) (c : Nat) (timed : Bool)
    (r : Results) : State :=
  let s := if r.wait ≠ .notSupported ∨ ¬ timed then s.record r.wait else s
  (s.unlock r).closed n rest c r.wait

/-! ### Steps inside a call -/

/-- `lock` has failed: what it records. -/
def lockFailed (s : State) (timed : Bool) (locked : ErrorCode) : State :=
  if timed ∧ (locked = .timeout ∨ locked = .wouldBlock ∨ locked = .notSupported) then s
  else s.record locked

/-- `lock`, and then the region; a region runs when the mutex can be had. -/
def region (s : State) (r : Results) (locked failed : Option State) : Option State :=
  if r.lock ≠ .ok then failed else if s.source.stuck then none else locked

/-- The next step of thread `n`. -/
def advance (s : State) (maxCallbacks n : Nat) (r : Results) (th : Thread) : Option State :=
  match th.stack with
  | [] => none
  | .construct c :: rest =>
      s.region r (some (s.constructLocked maxCallbacks n rest th.last c r))
        (some (((s.lockFailed false r.lock).note (.unattached c)).constructed n rest c r.lock
          false))
  | .request :: rest =>
      s.region r (some (s.requestLocked n rest th.last r))
        (some ((s.lockFailed false r.lock).requested n rest r.lock false))
  | .invoke caller c :: rest =>
      some ((s.note (.called c)).setThread n (.running caller c :: rest) th.last)
  | .running .constructor c :: rest => some (s.constructed n rest c .ok true)
  | .running .request c :: rest => some (s.setThread n (.relock c :: rest) th.last)
  | .relock c :: rest =>
      s.region r (some (s.relocked n rest th.last c r))
        (some ((s.lockFailed false r.lock).setThread n (.unfinished c r.lock :: rest) th.last))
  | .unfinished c locked :: rest =>
      some (((s.finished c).record r.notify).requested n rest locked true)
  | .close c timed :: rest =>
      s.region r ((s.unlink c).bind (fun s' => s'.closeLoop n rest th.last c timed r))
        (some ((s.lockFailed timed r.lock).closed n rest c r.lock))
  | .waiting c timed :: rest =>
      if s.source.stuck then none
      else if r.wait = .ok ∨ r.wait = .timeout ∨ r.wait = .wouldBlock then
        s.closeLoop n rest th.last c timed r
      else some (s.waitFailed n rest c timed r)

end State

/-! ### The machine -/

/-- What happens next. -/
inductive Action
  /-- A thread comes into being. -/
  | spawn
  /-- `stop_callback{token, callback, …}`; the arguments tell whether they are not null. -/
  | construct (n : Nat) (token callback : Bool)
  | request (n : Nat)
  | close (n c : Nat) (timed : Bool)
  /-- Thread `n` takes the next step of its innermost call. -/
  | advance (n : Nat) (r : Results)
  /-- A mutex that was left locked is unlocked. -/
  | repair
  deriving DecidableEq, Repr

namespace State

/-- A call by thread `n`. -/
def call (s : State) (n : Nat) (f : Thread → Option State) : Option State := do
  let th ← s.threads[n]?
  if th.canCall then f th else none

/-- One step of the system. -/
def step (maxCallbacks : Nat) (s : State) : Action → Option State
  | .spawn => some { s with threads := s.threads ++ [⟨[], .void⟩] }
  | .construct n token callback => s.call n (fun th => some (s.construct n th token callback))
  | .request n => s.call n (fun th => some (s.request n th))
  | .close n c timed => s.call n (fun th => s.close n th c timed)
  | .advance n r => (s.threads[n]?).bind (s.advance maxCallbacks n r)
  | .repair => some { s with source := { s.source with stuck := false } }

end State

/-- The system with a new source; `initialization` is what creating its mutex and condition
variable returned. -/
def stopMachine (maxCallbacks : Nat) (initialization : ErrorCode) : Machine State Action where
  init := ⟨⟨initialization, .ok, false, none, 0, false⟩, [], [], []⟩
  step := State.step maxCallbacks

end MicrOsal.Stop
