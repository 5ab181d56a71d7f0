import MicrOsal.Core
import MicrOsal.Lib.Machine
import MicrOsal.Lib.Tally

/-!
# MicrOsal.Registry.Model

`topic_registry` (`include/osal/bus/topic_registry.hpp`) and the routing members of
`osal_signal_premium` (`include/osal/bus/osal_signal_premium.hpp`): any number of
registries, topics and threads.

A mutex is held over straight-line code only, so each locked region is one step.
`dispatch` calls the topic's `publish` between its two locked regions, and `publish`
runs observers that may call anything again. A thread is therefore a stack of the
calls it is in; only calls that leave a locked region unfinished need a frame. What
`publish` does, and what it returns, is decided by the actions.

Messages are passed through unread and left out. Topics and registries outlive their
users, as the source asks of its callers.
-/

namespace MicrOsal.Registry

/-- `invalid_signal_id`. -/
def invalidSignalId : Nat := 0

/-- The number of values of `signal_id`. -/
def signalIdModulus : Nat := 2 ^ 32

/-- `route_status`. -/
inductive RouteStatus
  | delivered
  | noSubscribers
  | notFound
  | busy
  | invalid
  deriving DecidableEq, Repr

/-! ### The registry -/

/-- `entry_type`. The pointer to `publish` goes with the topic. -/
structure Entry where
  /-- `topic`; `none` is the null pointer. -/
  topic : Option Nat
  id : Nat
  active : Bool
  deriving DecidableEq, Repr

/-- `entry_type{}`. -/
def Entry.empty : Entry := ⟨none, 0, false⟩

/-- `topic_registry`. `MaxTopics` is the number of entries. -/
structure TopicRegistry where
  /-- `mutex_.valid()`. -/
  mutexValid : Bool
  entries : List Entry
  nextId : Nat
  deriving DecidableEq, Repr

namespace TopicRegistry

/-- The constructor. -/
def create (maxTopics : Nat) (mutexValid : Bool) : TopicRegistry where
  mutexValid := mutexValid
  entries := List.replicate maxTopics .empty
  nextId := 1

/-- Store entry `k`. -/
def setEntry (reg : TopicRegistry) (k : Nat) (e : Entry) : TopicRegistry :=
  { reg with entries := reg.entries.set k e }

/-- The first entry with a topic under `id`. -/
def find (reg : TopicRegistry) (id : Nat) : Option (Nat × Entry) :=
  (reg.entries.findIdx? (fun e => e.topic.isSome && e.id = id)).bind
    (fun k => (reg.entries[k]?).map (fun e => (k, e)))

/-- `register_topic`; the id stored through `out`, `none` when it returns false. -/
def registerTopic (reg : TopicRegistry) (topic : Nat) : TopicRegistry × Option Nat :=
  if ¬ reg.mutexValid then (reg, none)
  else if reg.entries.any (fun e => e.topic = some topic) then (reg, none)
  else
    match reg.entries.findIdx? (fun e => e.topic = none && reg.nextId ≠ invalidSignalId) with
    | none => (reg, none)
    | some k =>
        ({ reg.setEntry k ⟨some topic, reg.nextId, false⟩ with
            nextId := (reg.nextId + 1) % signalIdModulus }, some reg.nextId)

/-- `unregister_topic`. -/
def unregisterTopic (reg : TopicRegistry) (id : Nat) : TopicRegistry × RouteStatus :=
  if ¬ reg.mutexValid then (reg, .invalid)
  else
    match reg.find id with
    | none => (reg, .notFound)
    | some (k, e) => if e.active then (reg, .busy) else (reg.setEntry k .empty, .delivered)

/-- The first locked region of `dispatch`: the entry it selects, or what it returns. -/
def select (reg : TopicRegistry) (id : Nat) : TopicRegistry × Except RouteStatus Nat :=
  if ¬ reg.mutexValid then (reg, .error .invalid)
  else
    match reg.find id with
    | none => (reg, .error .notFound)
    | some (k, e) =>
        if e.active then (reg, .error .busy) else (reg.setEntry k { e with active := true }, .ok k)

/-- The second locked region of `dispatch`. -/
def clear (reg : TopicRegistry) (k : Nat) : TopicRegistry :=
  { reg with entries := reg.entries.modify k (fun e => { e with active := false }) }

end TopicRegistry

/-! ### Topics -/

/-- The routing members of `osal_signal_premium`. -/
structure Topic where
  /-- `route_mutex_.valid()`. -/
  routeMutexValid : Bool
  /-- `registry_`; the pointer `dispatch_` goes with it. -/
  registry : Option Nat
  /-- `routing_`. -/
  routing : Nat
  deriving DecidableEq, Repr

/-! ### Threads -/

/-- A call that is not finished. -/
inductive Frame
  /-- `dispatch` on registry `r` has selected entry `k` for `id`, and is about to call
  through it. `via` is the topic whose `route_to(registry, …)` called `dispatch`. -/
  | selected (r k id : Nat) (via : Option Nat)
  /-- `dispatch`: in `selected->publish` on `topic`. -/
  | publishing (r k id : Nat) (via : Option Nat) (topic : Nat)
  /-- `route_to(dest, …)` on topic `p` has counted itself in, and is about to call
  `dispatch` of registry `r`. -/
  | route (p r dest : Nat)
  /-- `route_to(dest, …)`: in `dispatch`. -/
  | waiting (p : Nat)
  /-- `route_to(dest, …)`: about to count itself out. -/
  | routed (p : Nat) (status : RouteStatus)
  /-- In `publish` of topic `p`, called by the application. -/
  | direct (p : Nat)
  deriving DecidableEq, Repr

/-- What a thread's last call returned. -/
inductive Return
  | void
  | bool (ok : Bool)
  | status (status : RouteStatus)
  /-- `register_topic`, with the value stored through `out`. -/
  | registered (ok : Bool) (out : Nat)
  deriving DecidableEq, Repr

/-- A thread: the calls it is in, the innermost first. -/
structure Thread where
  stack : List Frame
  last : Return
  deriving DecidableEq, Repr

/-- Application code runs: outside all calls, or inside a `publish`. -/
def Thread.canCall (th : Thread) : Bool :=
  match th.stack with
  | [] => true
  | .publishing _ _ _ _ _ :: _ => true
  | .direct _ :: _ => true
  | _ => false

/-! ### State -/

/-- The whole system. Registries, topics and threads are named by their positions. -/
structure State where
  registries : List TopicRegistry
  topics : List Topic
  threads : List Thread
  deriving DecidableEq, Repr

namespace State

def setThread (s : State) (n : Nat) (th : Thread) : State :=
  { s with threads := s.threads.set n th }

def setRegistry (s : State) (r : Nat) (reg : TopicRegistry) : State :=
  { s with registries := s.registries.set r reg }

def setTopic (s : State) (p : Nat) (topic : Topic) : State :=
  { s with topics := s.topics.set p topic }

/-- Thread `n` returns `ret` to the application. -/
def ret (s : State) (n : Nat) (th : Thread) (ret : Return) : State :=
  s.setThread n { th with last := ret }

/-- `dispatch` has returned to whoever called it. -/
def returnStatus (stack : List Frame) (last : Return) (status : RouteStatus) : Thread :=
  match stack with
  | .waiting p :: rest => ⟨.routed p status :: rest, last⟩
  | rest => ⟨rest, .status status⟩

/-! ### Calls -/

/-- `register_topic`. -/
def register (s : State) (n : Nat) (th : Thread) (r p : Nat) : Option State := do
  let reg ← s.registries[r]?
  let _ ← s.topics[p]?
  match reg.registerTopic p with
  | (reg', some id) => some ((s.setRegistry r reg').ret n th (.registered true id))
  | (_, none) => some (s.ret n th (.registered false invalidSignalId))

/-- `unregister_topic`. -/
def unregister (s : State) (n : Nat) (th : Thread) (r id : Nat) : Option State := do
  let reg ← s.registries[r]?
  some ((s.setRegistry r (reg.unregisterTopic id).1).ret n th
    (.status (reg.unregisterTopic id).2))

/-- `dispatch`, up to the call of `publish`, with `stack` below it. -/
def dispatch (s : State) (n : Nat) (stack : List Frame) (last : Return) (r id : Nat)
    (via : Option Nat) : Option State := do
  let reg ← s.registries[r]?
  match reg.select id with
  | (reg', .ok k) =>
      some ((s.setRegistry r reg').setThread n ⟨.selected r k id via :: stack, last⟩)
  | (_, .error status) => some (s.setThread n (returnStatus stack last status))

/-- `bind_registry`. -/
def bind (s : State) (n : Nat) (th : Thread) (p r : Nat) : Option State := do
  let topic ← s.topics[p]?
  let reg ← s.registries[r]?
  if ¬ topic.routeMutexValid ∨ ¬ reg.mutexValid then some (s.ret n th (.bool false))
  else if topic.routing ≠ 0 ∨ topic.registry.isSome then some (s.ret n th (.bool false))
  else some ((s.setTopic p { topic with registry := some r }).ret n th (.bool true))

/-- `unbind_registry`. -/
def unbind (s : State) (n : Nat) (th : Thread) (p : Nat) : Option State := do
  let topic ← s.topics[p]?
  if ¬ topic.routeMutexValid then some (s.ret n th (.bool false))
  else if topic.routing ≠ 0 then some (s.ret n th (.bool false))
  else some ((s.setTopic p { topic with registry := none }).ret n th (.bool true))

/-- `route_to(dest, …)`, up to the call of `dispatch`. -/
def routeTo (s : State) (n : Nat) (th : Thread) (p dest : Nat) : Option State := do
  let topic ← s.topics[p]?
  if ¬ topic.routeMutexValid then some (s.ret n th (.bool false))
  else
    match topic.registry with
    | none => some (s.ret n th (.bool false))
    | some r =>
        -- `routing_` counts calls on stacks, and does not come near the end of its type.
        some ((s.setTopic p { topic with routing := topic.routing + 1 }).setThread n
          { th with stack := .route p r dest :: th.stack })

/-- `publish`, called by the application. -/
def publish (s : State) (n : Nat) (th : Thread) (p : Nat) : Option State := do
  let _ ← s.topics[p]?
  some (s.setThread n { th with stack := .direct p :: th.stack })

/-! ### Steps inside a call -/

/-- The next step of thread `n`; `accepted` is what a `publish` returns that ends. -/
def advance (s : State) (n : Nat) (accepted : Bool) (th : Thread) : Option State :=
  match th.stack with
  | [] => none
  | .selected r k id via :: rest => do
      let reg ← s.registries[r]?
      let e ← reg.entries[k]?
      -- A null pointer cannot be called.
      let topic ← e.topic
      some (s.setThread n { th with stack := .publishing r k id via topic :: rest })
  | .publishing r k _ _ _ :: rest => do
      let reg ← s.registries[r]?
      let status := if accepted then .delivered else .noSubscribers
      some ((s.setRegistry r (reg.clear k)).setThread n (returnStatus rest th.last status))
  | .route p r dest :: rest => s.dispatch n (.waiting p :: rest) th.last r dest none
  | .waiting _ :: _ => none
  | .routed p status :: rest => do
      let topic ← s.topics[p]?
      some ((s.setTopic p { topic with routing := sizeDecr topic.routing }).setThread n
        ⟨rest, .bool (status = .delivered)⟩)
  | .direct _ :: rest => some (s.setThread n ⟨rest, .bool accepted⟩)

end State

/-! ### The machine -/

/-- What happens next. -/
inductive Action
  /-- A thread comes into being. -/
  | spawn
  | registry (maxTopics : Nat) (mutexValid : Bool)
  | topic (routeMutexValid : Bool)
  | register (n r p : Nat)
  | unregister (n r id : Nat)
  | dispatch (n r id : Nat)
  | bind (n p r : Nat)
  | unbind (n p : Nat)
  | routeTo (n p dest : Nat)
  /-- `route_to(registry, dest, …)` on topic `p`. -/
  | routeVia (n p r dest : Nat)
  | publish (n p : Nat)
  /-- Thread `n` takes the next step of its innermost call. -/
  | advance (n : Nat) (accepted : Bool)
  deriving DecidableEq, Repr

namespace State

/-- A call by thread `n`. -/
def call (s : State) (n : Nat) (f : Thread → Option State) : Option State := do
  let th ← s.threads[n]?
  if th.canCall then f th else none

/-- One step of the system. -/
def next (s : State) : Action → Option State
  | .spawn => some { s with threads := s.threads ++ [⟨[], .void⟩] }
  | .registry maxTopics mutexValid =>
      some { s with registries := s.registries ++ [.create maxTopics mutexValid] }
  | .topic routeMutexValid =>
      some { s with topics := s.topics ++ [⟨routeMutexValid, none, 0⟩] }
  | .register n r p => s.call n (fun th => s.register n th r p)
  | .unregister n r id => s.call n (fun th => s.unregister n th r id)
  | .dispatch n r id => s.call n (fun th => s.dispatch n th.stack th.last r id none)
  | .bind n p r => s.call n (fun th => s.bind n th p r)
  | .unbind n p => s.call n (fun th => s.unbind n th p)
  | .routeTo n p dest => s.call n (fun th => s.routeTo n th p dest)
  | .routeVia n p r dest =>
      s.call n (fun th => (s.topics[p]?).bind
        (fun _ => s.dispatch n th.stack th.last r dest (some p)))
  | .publish n p => s.call n (fun th => s.publish n th p)
  | .advance n accepted => (s.threads[n]?).bind (s.advance n accepted)

end State

/-- The system, empty at first. -/
def registryMachine : Machine State Action where
  init := ⟨[], [], []⟩
  step := State.next

/-! ### The record -/

/-- What a step shows. -/
inductive Event
  /-- `register_topic` on registry `r` has given out `id`. -/
  | registered (r id : Nat)
  /-- `unregister_topic` on registry `r` has returned delivered for `id`. -/
  | unregistered (r id : Nat)
  /-- A `dispatch` through `id` calls `publish`. -/
  | started (r id : Nat)
  deriving DecidableEq, Repr

namespace State

/-- What the last call of thread `n` returned. -/
def returned (s : State) (n : Nat) : Option Return := (s.threads[n]?).map Thread.last

/-- The calls thread `n` is in. -/
def stackOf (s : State) (n : Nat) : Option (List Frame) := (s.threads[n]?).map Thread.stack

/-- What the step from `s` to `s'` with action `a` shows. -/
def shows (s : State) (a : Action) (s' : State) : List Event :=
  match a with
  | .register n r _ =>
      match s'.returned n with
      | some (.registered true id) => [.registered r id]
      | _ => []
  | .unregister n r id =>
      match s'.returned n with
      | some (.status .delivered) => [.unregistered r id]
      | _ => []
  | .advance n _ =>
      match s.stackOf n with
      | some (.selected r _ id _ :: _) => [.started r id]
      | _ => []
  | _ => []

end State

/-- The system with the record of its run. -/
def registryLog : Machine (State × List Event) Action := registryMachine.logged State.shows

end MicrOsal.Registry
