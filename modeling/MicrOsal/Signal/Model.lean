import MicrOsal.Lib.Machine
import MicrOsal.Signal.Ids

/-!
# MicrOsal.Signal.Model

The generic publish/subscribe topic `osal_signal`
(`include/osal/bus/detail/osal_signal_backend_generic.hpp`), called by any
number of threads.

`subscribe`, `unsubscribe`, `publish` and `try_receive` hold the topic's mutex
throughout. What a call does under the mutex to fields that only the mutex's
holder touches is one step, but every access to a slot's queue is a step of its
own: a blocking `receive` waits on the queue without the mutex and may take a
message between any two steps of another call.

A queue is a bounded FIFO of `PerSubCapacity` messages: a send without waiting
fails, without effect, exactly when the queue is full, and a receive without
waiting exactly when it is empty. Whether a waiting `receive` takes a message or
gives up is decided by the action.

The state also carries a record of what was subscribed, published and received;
no step of the program reads it.
-/

namespace MicrOsal.Signal

/-- One `try_send` of a publish to a subscriber's queue. -/
structure Send (α : Type) where
  msg : α
  /-- How many messages the queue held. -/
  found : Nat
  deriving DecidableEq, Repr

/-- What is recorded of a successful `subscribe`. -/
structure Subscription (w : Nat) (α : Type) where
  slot : Nat
  id : BitVec w
  /-- How often the slot had been unsubscribed before. -/
  round : Nat
  /-- How many messages had been published before. -/
  start : Nat
  /-- How many had been published when it was unsubscribed. -/
  stop : Option Nat
  sends : List (Send α)
  /-- What `try_receive` and `receive` took from the queue through its id. -/
  received : List α
  deriving DecidableEq, Repr

/-- `subscriber_slot`. -/
structure SubscriberSlot (w : Nat) (α : Type) where
  generation : BitVec w
  inUse : Bool
  receivers : Nat
  /-- `queue_.valid()`. -/
  queueValid : Bool
  queue : List α
  /-- Record: how often the slot has been unsubscribed. -/
  unsubscribed : Nat
  /-- Record: the last subscription of the slot. -/
  owner : Nat
  deriving DecidableEq, Repr

/-- What a call returned. -/
inductive Return (w : Nat) (α : Type)
  | none
  /-- `subscribe`, with the value stored through `out_id`. -/
  | subscribed (ok : Bool) (outId : BitVec w)
  /-- `unsubscribe` and `publish`. -/
  | bool (ok : Bool)
  /-- `try_receive` and `receive`, with the message stored through `out`. -/
  | received (out : Option α)
  deriving DecidableEq, Repr

/-- Where a thread is. -/
inductive Thread (w : Nat) (α : Type)
  | idle (last : Return w α)
  /-- `subscribe`: purging the queue of slot `i`, mutex held. -/
  | subscribe (i : Nat)
  /-- `publish`: about to look at slot `i`, mutex held. -/
  | publish (msg : α) (i : Nat) (any : Bool)
  /-- `receive`: in `queue_.receive` of slot `i`. `sub` is a record: the
  subscription whose id the call was made with. -/
  | receive (i sub : Nat)
  /-- `receive`: about to lock the mutex and count itself out of slot `i`. -/
  | settle (i sub : Nat) (received : Option α)
  deriving DecidableEq, Repr

/-- The topic, its callers and the record. -/
structure State (w : Nat) (α : Type) where
  /-- The address of the object. -/
  this : BitVec w
  /-- `PerSubCapacity`. -/
  capacity : Nat
  /-- `mutex_.valid()`. -/
  mutexValid : Bool
  /-- The thread that holds `mutex_`. -/
  mutex : Option Nat
  slots : List (SubscriberSlot w α)
  subscriberCount : BitVec w
  threads : List (Thread w α)
  /-- Record: the messages of the publishes that took the mutex, in this order. -/
  published : List α
  /-- Record. -/
  subscriptions : List (Subscription w α)
  deriving DecidableEq, Repr

namespace State

variable {w : Nat} {α : Type}

/-- `MaxSubscribers`. -/
def maxSubscribers (s : State w α) : Nat := s.slots.length

/-- `valid`. -/
def valid (s : State w α) : Bool := s.mutexValid && s.slots.all (·.queueValid)

/-- The slot an id is accepted for: the check with which `unsubscribe`,
`try_receive` and `receive` begin under the mutex. -/
def lookup (s : State w α) (id : BitVec w) : Option (Nat × SubscriberSlot w α) :=
  let i := slotIndexFromId s.this s.maxSubscribers id
  match s.slots[i]? with
  | none => none
  | some sl =>
      if subscriberIdMatchesSlot s.this s.maxSubscribers id i sl.inUse sl.generation then
        some (i, sl)
      else none

def setThread (s : State w α) (t : Nat) (th : Thread w α) : State w α :=
  { s with threads := s.threads.set t th }

def setSlot (s : State w α) (i : Nat) (sl : SubscriberSlot w α) : State w α :=
  { s with slots := s.slots.set i sl }

def setMutex (s : State w α) (m : Option Nat) : State w α := { s with mutex := m }

/-- Thread `t` returns from a call that does not hold the mutex. -/
def ret (s : State w α) (t : Nat) (r : Return w α) : State w α := s.setThread t (.idle r)

/-- Change the record of subscription `j`. -/
def record (s : State w α) (j : Nat) (f : Subscription w α → Subscription w α) : State w α :=
  { s with subscriptions := s.subscriptions.modify j f }

/-! ### Calls -/

/-- `subscribe`, up to `purge`. -/
def subscribe (s : State w α) (t : Nat) : Option (State w α) :=
  if ¬ s.valid then some (s.ret t (.subscribed false invalidSubscriberId))
  else if s.mutex.isSome then none
  else
    match s.slots.findIdx? (fun sl => !sl.inUse) with
    | none => some (s.ret t (.subscribed false invalidSubscriberId))
    | some i => some ((s.setMutex (some t)).setThread t (.subscribe i))

/-- `unsubscribe`. -/
def unsubscribe (s : State w α) (t : Nat) (id : BitVec w) : Option (State w α) :=
  if ¬ s.valid then some (s.ret t (.bool false))
  else if s.mutex.isSome then none
  else
    match s.lookup id with
    | none => some (s.ret t (.bool false))
    | some (i, sl) =>
        if sl.receivers ≠ 0 then some (s.ret t (.bool false))
        else
          let sl' := { sl with
            inUse := false
            generation := advanceSubscriberGeneration s.this s.maxSubscribers i sl.generation
            unsubscribed := sl.unsubscribed + 1 }
          let s' := { s.setSlot i sl' with subscriberCount := s.subscriberCount - 1 }
          some ((s'.record sl.owner
            (fun sub => { sub with stop := some s.published.length })).ret t (.bool true))

/-- `publish`, up to the loop over the slots. -/
def publish (s : State w α) (t : Nat) (msg : α) : Option (State w α) :=
  if ¬ s.valid then some (s.ret t (.bool false))
  else if s.mutex.isSome then none
  else
    some ({ s.setMutex (some t) with published := s.published ++ [msg] }.setThread t
      (.publish msg 0 false))

/-- `queue_.try_receive` and `queue_.receive` take the oldest message of slot `i` for a
call made with the id of subscription `j`. -/
def take (s : State w α) (i : Nat) (sl : SubscriberSlot w α) (rest : List α) (j : Nat) (msg : α) :
    State w α :=
  (s.setSlot i { sl with queue := rest }).record j
    (fun sub => { sub with received := sub.received ++ [msg] })

/-- `try_receive`. -/
def tryReceive (s : State w α) (t : Nat) (id : BitVec w) : Option (State w α) :=
  if ¬ s.valid then some (s.ret t (.received none))
  else if s.mutex.isSome then none
  else
    match s.lookup id with
    | none => some (s.ret t (.received none))
    | some (i, sl) =>
        match sl.queue with
        | [] => some (s.ret t (.received none))
        | msg :: rest => some ((s.take i sl rest sl.owner msg).ret t (.received (some msg)))

/-- `receive`, up to `queue_.receive`. -/
def receive (s : State w α) (t : Nat) (id : BitVec w) : Option (State w α) :=
  if ¬ s.valid then some (s.ret t (.received none))
  else if s.mutex.isSome then none
  else
    match s.lookup id with
    | none => some (s.ret t (.received none))
    | some (i, sl) =>
        some ((s.setSlot i { sl with receivers := sl.receivers + 1 }).setThread t
          (.receive i sl.owner))

/-! ### Steps inside a call -/

/-- `subscribe` behind `purge`: the id is made and the slot taken. -/
def register (s : State w α) (t i : Nat) (sl : SubscriberSlot w α) : State w α :=
  let (generation, newId) := ensureSubscriberId s.this s.maxSubscribers i sl.generation
  if newId = invalidSubscriberId then
    ((s.setSlot i { sl with generation := generation }).setMutex none).ret t
      (.subscribed false invalidSubscriberId)
  else
    let sl' := { sl with
      generation := generation
      inUse := true
      owner := s.subscriptions.length }
    let sub : Subscription w α :=
      ⟨i, newId, sl.unsubscribed, s.published.length, none, [], []⟩
    ({ s.setSlot i sl' with
        mutex := none
        subscriberCount := s.subscriberCount + 1
        subscriptions := s.subscriptions ++ [sub] }).ret t (.subscribed true newId)

/-- The next step of thread `t`. `pops` decides whether a waiting `receive` takes a
message or gives up. -/
def advance (s : State w α) (t : Nat) (pops : Bool) : Thread w α → Option (State w α)
  | .idle _ => none
  | .subscribe i => do
      let sl ← s.slots[i]?
      if ¬ sl.queueValid then some (s.register t i sl)
      else
        match sl.queue with
        | _ :: rest => some (s.setSlot i { sl with queue := rest })
        | [] => some (s.register t i sl)
  | .publish msg i any =>
      match s.slots[i]? with
      | none => some ((s.setMutex none).ret t (.bool any))
      | some sl =>
          if sl.inUse then
            let s' := s.record sl.owner
              (fun sub => { sub with sends := sub.sends ++ [⟨msg, sl.queue.length⟩] })
            if sl.queue.length < s.capacity then
              some ((s'.setSlot i { sl with queue := sl.queue ++ [msg] }).setThread t
                (.publish msg (i + 1) true))
            else some (s'.setThread t (.publish msg (i + 1) any))
          else some (s.setThread t (.publish msg (i + 1) any))
  | .receive i sub => do
      let sl ← s.slots[i]?
      if pops then
        match sl.queue with
        | [] => none
        | msg :: rest =>
            some ((s.take i sl rest sub msg).setThread t (.settle i sub (some msg)))
      else some (s.setThread t (.settle i sub none))
  | .settle i _ received => do
      let sl ← s.slots[i]?
      if s.mutex.isSome then none
      else
        some ((s.setSlot i { sl with receivers := sl.receivers - 1 }).ret t (.received received))

end State

/-- What happens next. -/
inductive Action (w : Nat) (α : Type)
  /-- A thread comes into being. -/
  | spawn
  | subscribe (t : Nat)
  | unsubscribe (t : Nat) (id : BitVec w)
  | publish (t : Nat) (msg : α)
  | tryReceive (t : Nat) (id : BitVec w)
  | receive (t : Nat) (id : BitVec w)
  /-- Thread `t` takes the next step of its call. -/
  | advance (t : Nat) (pops : Bool)
  deriving DecidableEq, Repr

namespace State

variable {w : Nat} {α : Type}

/-- A call by thread `t`, which must not be in another one. -/
def call (s : State w α) (t : Nat) (f : Option (State w α)) : Option (State w α) :=
  match s.threads[t]? with
  | some (.idle _) => f
  | _ => none

/-- One step of the system. -/
def next (s : State w α) : Action w α → Option (State w α)
  | .spawn => some { s with threads := s.threads ++ [.idle .none] }
  | .subscribe t => s.call t (s.subscribe t)
  | .unsubscribe t id => s.call t (s.unsubscribe t id)
  | .publish t msg => s.call t (s.publish t msg)
  | .tryReceive t id => s.call t (s.tryReceive t id)
  | .receive t id => s.call t (s.receive t id)
  | .advance t pops => (s.threads[t]?).bind (s.advance t pops)

/-- The constructor of the topic at address `this`; `queues` says which slots' queues
could be created. -/
def create (this : BitVec w) (capacity : Nat) (mutexValid : Bool) (queues : List Bool) :
    State w α where
  this := this
  capacity := capacity
  mutexValid := mutexValid
  mutex := none
  slots := queues.map (fun valid => ⟨0, false, 0, valid, [], 0, 0⟩)
  subscriberCount := 0
  threads := []
  published := []
  subscriptions := []

end State

/-- The topic with one slot for each entry of `queues`. -/
def signalMachine {w : Nat} {α : Type} (this : BitVec w) (capacity : Nat) (mutexValid : Bool)
    (queues : List Bool) : Machine (State w α) (Action w α) where
  init := .create this capacity mutexValid queues
  step := State.next

end MicrOsal.Signal
