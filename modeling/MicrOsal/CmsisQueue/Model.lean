import MicrOsal.Queue.Model
import MicrOsal.Lib.Tally

/-!
# MicrOsal.CmsisQueue.Model

The queue of the CMSIS-RTOS v1 backend (`cmsis_rtos/cmsis_rtos_backend.cpp`): a native queue
of 32-bit values, and a counter of its own, because the native queue cannot be asked how many
messages it holds.

A send moves the counter up before it puts its message, a receive moves it down after it has
got one. Each access to the counter and each native call is one step. A native queue cannot be
deleted: a queue that is destroyed leaves its slot, and a queue of the same shape takes it over.
-/

namespace MicrOsal.CmsisQueue

open MicrOsal.Queue (Item)

/-- The bytes of a `uint32_t`. -/
abbrev Word := Vector UInt8 4

/-- `std::memcpy` of an item into a `uint32_t` that was zero. -/
def pack {size : Nat} (item : Item size) : Word := Vector.ofFn (fun k => item[k.val]?.getD 0)

/-- `std::memcpy` of an item out of a `uint32_t`. -/
def unpack (size : Nat) (val : Word) : Item size := Vector.ofFn (fun k => val[k.val]?.getD 0)

theorem unpack_pack {size : Nat} (hsize : size ≤ 4) (item : Item size) :
    unpack size (pack item) = item := by
  apply Vector.ext
  intro k hk
  have hpack : (pack item)[k]? = some item[k] := by
    rw [pack, Vector.getElem?_ofFn, dif_pos (by omega), Vector.getElem?_eq_getElem hk]
    rfl
  rw [unpack, Vector.getElem_ofFn, hpack]
  rfl

/-- The native queue of `osMessageCreate`, for `size` messages. -/
structure NativeQueue where
  size : Nat
  messages : List Word
  deriving DecidableEq

namespace NativeQueue

/-- `osMessagePut` without a timeout; `none` when it is full. -/
def put (q : NativeQueue) (val : Word) : Option NativeQueue :=
  if q.messages.length < q.size then some { q with messages := q.messages ++ [val] } else none

/-- `osMessageGet` that need not wait; `none` when it is empty. -/
def get (q : NativeQueue) : Option (Word × NativeQueue) :=
  match q.messages with
  | [] => none
  | val :: rest => some (val, { q with messages := rest })

end NativeQueue

/-- `cmsis1_queue_slot`. -/
structure QueueSlot where
  id : Option NativeQueue
  itemSize : Nat
  capacity : Nat
  count : Nat
  used : Bool
  active : Bool
  deriving DecidableEq

namespace QueueSlot

/-- An element of `cmsis1_queues` before its first use. -/
def unused : QueueSlot := ⟨none, 0, 0, 0, false, false⟩

/-- The messages in the native queue. -/
def messages (slot : QueueSlot) : List Word := (slot.id.map NativeQueue.messages).getD []

/-- `osMessagePut`. -/
def put (slot : QueueSlot) (val : Word) : Option QueueSlot :=
  (slot.id.bind (fun q => q.put val)).map (fun q => { slot with id := some q })

/-- `osMessageGet`. -/
def get (slot : QueueSlot) : Option (Word × QueueSlot) :=
  (slot.id.bind NativeQueue.get).map (fun r => (r.1, { slot with id := some r.2 }))

/-- `cmsis1_queue_drain`. -/
def drain (slot : QueueSlot) : QueueSlot :=
  match slot.id with
  | none => slot
  | some q => { slot with id := some { q with messages := [] }, count := 0 }

/-- The test in a pass of `cmsis1_queue_acquire`. -/
def matchesIn (slot : QueueSlot) (firstPass : Bool) (itemSize capacity : Nat) : Bool :=
  if firstPass then slot.used && slot.itemSize == itemSize && slot.capacity == capacity
  else !slot.used

/-- What `cmsis1_queue_acquire` makes of the slot that it finds. -/
def acquired (slot : QueueSlot) (itemSize capacity : Nat) : QueueSlot :=
  { slot with
    itemSize := itemSize
    capacity := capacity
    count := 0
    used := true
    active := true }

/-- `osal_queue_create` with an acquired slot; `created` says whether `osMessageCreate` succeeds
if it is called. A slot that it fails for is free again. -/
def openSlot (slot : QueueSlot) (created : Bool) : Bool × QueueSlot :=
  if slot.id.isSome then (true, slot.drain)
  else if created then (true, { slot with id := some ⟨slot.capacity, []⟩ })
  else (false, { slot with itemSize := 0, capacity := 0, used := false, active := false })

/-- `osal_queue_destroy`. -/
def destroy (slot : QueueSlot) : QueueSlot := { slot.drain with active := false }

end QueueSlot

/-- A pass of `cmsis1_queue_acquire` over `cmsis1_queues`. -/
def acquirePass (slots : List QueueSlot) (firstPass : Bool) (itemSize capacity : Nat) :
    Option Nat :=
  slots.findIdx? (fun slot => !slot.active && slot.matchesIn firstPass itemSize capacity)

/-- `cmsis1_queue_acquire`. -/
def acquire (slots : List QueueSlot) (itemSize capacity : Nat) : Option Nat :=
  (acquirePass slots true itemSize capacity).or (acquirePass slots false itemSize capacity)

/-- `osal_queue_create`: which slot the queue is in, and the slots afterwards. -/
def create (slots : List QueueSlot) (created : Bool) (itemSize capacity : Nat) :
    Except ErrorCode Nat × List QueueSlot :=
  if itemSize = 0 ∨ capacity = 0 ∨ 0xffffffff < capacity then (.error .invalidArgument, slots)
  else if 4 < itemSize then (.error .notSupported, slots)
  else
    match acquire slots itemSize capacity with
    | none => (.error .outOfResources, slots)
    | some k =>
        match slots[k]? with
        | none => (.error .outOfResources, slots)
        | some slot =>
            let (ok, slot') := (slot.acquired itemSize capacity).openSlot created
            (if ok then .ok k else .error .outOfResources, slots.set k slot')

/-! ### Calls -/

/-- What a send keeps: its arguments and the tick it began at. `since` is how many counts the
record held when it began; no step reads it. -/
structure Send (size w : Nat) where
  item : Item size
  timeout : Tick w
  start : BitVec 32
  since : Nat
  deriving DecidableEq

/-- How far a call is, of a task or of an interrupt. `ticket` is how many messages others have
got before it; no step reads it. -/
inductive Thread (size w : Nat)
  /-- Outside; `last` is what its last call returned. -/
  | idle (last : Option ErrorCode)
  /-- About to load the counter. -/
  | load (call : Send size w)
  /-- About to exchange the count it has loaded. -/
  | exchange (call : Send size w) (count : Nat)
  /-- With a reservation, about to put its message. -/
  | put (call : Send size w)
  /-- The put has failed; about to give the reservation back. -/
  | rollBack (call : Send size w)
  /-- Without a place; about to look at its timeout. -/
  | refused (call : Send size w)
  /-- In `osDelay`. -/
  | delay (call : Send size w)
  /-- In `osMessageGet`. -/
  | get (timeout : Tick w)
  /-- With a message, about to move the counter down. -/
  | decrement (item : Item size) (ticket : Nat)
  deriving DecidableEq

namespace Thread

variable {size w : Nat}

/-- A send between its reservation and its put or the end of its roll-back. -/
def reserved : Thread size w → Bool
  | .put _ | .rollBack _ => true
  | _ => false

/-- A receive between its get and its decrement. -/
def received : Thread size w → Bool
  | .decrement _ _ => true
  | _ => false

/-- The message that it has got and not returned yet. -/
def hasTicket (k : Nat) : Thread size w → Bool
  | .decrement _ ticket => ticket = k
  | _ => false

end Thread

/-- What a send has returned, and the counts in the record that it has seen: those from `first`
on, before `last`. -/
structure SendReturn where
  code : ErrorCode
  first : Nat
  last : Nat
  deriving DecidableEq

/-- `osKernelSysTickFrequency`, and how wide a `tick_t` is. -/
structure Config where
  width : Nat
  frequency : Nat

structure State (cfg : Config) (size : Nat) where
  slot : QueueSlot
  /-- `osKernelSysTick`. -/
  clock : BitVec 32
  threads : List (Thread size cfg.width)
  /-- The items that were put, in this order; those that were got; those that receives have
  returned, each with its number; what the sends have returned; and the counts so far. No step
  reads them. -/
  puts : List (Item size)
  gots : List (Item size)
  returned : List (Nat × Item size)
  returns : List SendReturn
  counts : List Nat

inductive Action (cfg : Config) (size : Nat)
  | spawn
  | tick
  | send (n : Nat) (item : Item size) (timeout : Tick cfg.width)
  | sendIsr (n : Nat) (item : Item size)
  | receive (n : Nat) (timeout : Tick cfg.width)
  | receiveIsr (n : Nat)
  /-- The call of thread `n` makes its next step. -/
  | go (n : Nat)
  /-- The native call that thread `n` is in fails: a get in its time, or a delay. -/
  | fail (n : Nat)

/-- `osWaitForever`. -/
def osWaitForever : BitVec 32 := BitVec.allOnes 32

/-- `to_cmsis1_timeout`. -/
def toCmsis1Timeout {w : Nat} (t : Tick w) : BitVec 32 :=
  if t = waitForever then osWaitForever else t.setWidth 32

namespace State

variable {cfg : Config} {size : Nat}

def setThread (s : State cfg size) (n : Nat) (th : Thread size cfg.width) : State cfg size :=
  { s with threads := s.threads.set n th }

/-- The send of thread `n` returns. -/
def leave (s : State cfg size) (n : Nat) (call : Send size cfg.width) (code : ErrorCode) :
    State cfg size :=
  { s with returns := ⟨code, call.since, s.counts.length⟩ :: s.returns }.setThread n
    (.idle (some code))

/-- A send loads the counter and compares it with the capacity. -/
def load (s : State cfg size) (n : Nat) (call : Send size cfg.width) : State cfg size :=
  if s.slot.count < s.slot.capacity then s.setThread n (.exchange call s.slot.count)
  else s.setThread n (.refused call)

/-- `compare_exchange_strong`. -/
def exchange (s : State cfg size) (n : Nat) (call : Send size cfg.width) (count : Nat) :
    State cfg size :=
  if s.slot.count = count then
    { s with slot := { s.slot with count := count + 1 } }.setThread n (.put call)
  else s.setThread n (.refused call)

def put (s : State cfg size) (n : Nat) (call : Send size cfg.width) : State cfg size :=
  match s.slot.put (pack call.item) with
  | some slot => { s with slot := slot, puts := s.puts ++ [call.item] }.leave n call .ok
  | none => s.setThread n (.rollBack call)

/-- `count.fetch_sub(1U)`. -/
def decrCount (s : State cfg size) : State cfg size :=
  { s with slot := { s.slot with count := sizeDecr s.slot.count } }

/-- The milliseconds since a send began, by a difference of 32 bits. -/
def elapsedMs (s : State cfg size) (call : Send size cfg.width) : Nat :=
  (s.clock - call.start).toNat * 1000 / cfg.frequency

/-- A send that found no place looks at its timeout. -/
def refused (s : State cfg size) (n : Nat) (call : Send size cfg.width) : State cfg size :=
  if call.timeout = noWait then s.leave n call .wouldBlock
  else if call.timeout ≠ waitForever ∧ call.timeout.toNat ≤ s.elapsedMs call then
    s.leave n call .timeout
  else s.setThread n (.delay call)

/-- What a receive returns that got nothing. -/
def getError (timeout : Tick cfg.width) : ErrorCode :=
  if timeout = noWait then .wouldBlock else .timeout

/-- A get takes a message; one that does not wait may find none. -/
def get (s : State cfg size) (n : Nat) (timeout : Tick cfg.width) : Option (State cfg size) :=
  match s.slot.get with
  | some (val, slot) =>
      some ({ s with slot := slot, gots := s.gots ++ [unpack size val] }.setThread n
        (.decrement (unpack size val) s.gots.length))
  | none =>
      if toCmsis1Timeout timeout = 0 then some (s.setThread n (.idle (some (getError timeout))))
      else none

/-- The call of thread `n` makes its next step. -/
def go (s : State cfg size) (n : Nat) : Thread size cfg.width → Option (State cfg size)
  | .idle _ => none
  | .load call => some (s.load n call)
  | .exchange call count => some (s.exchange n call count)
  | .put call => some (s.put n call)
  | .rollBack call => some (s.decrCount.setThread n (.refused call))
  | .refused call => some (s.refused n call)
  | .delay call => some (s.setThread n (.load call))
  | .get timeout => s.get n timeout
  | .decrement item ticket =>
      some ({ s.decrCount with returned := s.returned ++ [(ticket, item)] }.setThread n
        (.idle (some .ok)))

/-- A get whose time is up finds the queue empty; a delay fails. -/
def fail (s : State cfg size) (n : Nat) : Thread size cfg.width → Option (State cfg size)
  | .get timeout =>
      if s.slot.get.isNone ∧ toCmsis1Timeout timeout ≠ osWaitForever then
        some (s.setThread n (.idle (some (getError timeout))))
      else none
  | .delay call => some (s.leave n call .unknown)
  | _ => none

/-- `osal_queue_send`, up to its loop. -/
def send (s : State cfg size) (n : Nat) (item : Item size) (timeout : Tick cfg.width) :
    State cfg size :=
  s.setThread n (.load ⟨item, timeout, s.clock, s.counts.length⟩)

/-- `osal_queue_send_isr`, up to its loop. -/
def sendIsr (s : State cfg size) (n : Nat) (item : Item size) : State cfg size :=
  s.send n item noWait

/-- `osal_queue_receive`, up to its get. -/
def receive (s : State cfg size) (n : Nat) (timeout : Tick cfg.width) : State cfg size :=
  s.setThread n (.get timeout)

/-- `osal_queue_receive_isr`, up to its get. -/
def receiveIsr (s : State cfg size) (n : Nat) : State cfg size := s.receive n noWait

/-- A thread that is outside makes a call. -/
def whenIdle (s : State cfg size) (n : Nat) (s' : State cfg size) : Option (State cfg size) :=
  match s.threads[n]? with
  | some (.idle _) => some s'
  | _ => none

def act (s : State cfg size) : Action cfg size → Option (State cfg size)
  | .spawn => some { s with threads := s.threads ++ [.idle none] }
  | .tick => some { s with clock := s.clock + 1 }
  | .send n item timeout => s.whenIdle n (s.send n item timeout)
  | .sendIsr n item => s.whenIdle n (s.sendIsr n item)
  | .receive n timeout => s.whenIdle n (s.receive n timeout)
  | .receiveIsr n => s.whenIdle n (s.receiveIsr n)
  | .go n => (s.threads[n]?).bind (fun th => s.go n th)
  | .fail n => (s.threads[n]?).bind (fun th => s.fail n th)

/-- The count is added to the record. -/
def note (s : State cfg size) : State cfg size := { s with counts := s.counts ++ [s.slot.count] }

def step (s : State cfg size) (a : Action cfg size) : Option (State cfg size) :=
  (s.act a).map note

end State

/-- A queue as it was created, and the tasks and interrupts that use it. -/
def machine (cfg : Config) (size : Nat) (slot : QueueSlot) :
    Machine (State cfg size) (Action cfg size) where
  init := ⟨slot, 0, [], [], [], [], [], [slot.count]⟩
  step := State.step

/-- The slots that creating, using and destroying queues leads to. -/
inductive Slots : List QueueSlot → Prop
  | init (n : Nat) : Slots (List.replicate n .unused)
  | create {slots : List QueueSlot} (created : Bool) (itemSize capacity : Nat) : Slots slots →
      Slots (create slots created itemSize capacity).2
  | use {slots : List QueueSlot} {k size : Nat} {slot : QueueSlot} {cfg : Config}
      {s : State cfg size} : Slots slots → slots[k]? = some slot →
      (machine cfg size slot).Reachable s → Slots (slots.set k s.slot)
  | destroy {slots : List QueueSlot} {k : Nat} {slot : QueueSlot} : Slots slots →
      slots[k]? = some slot → Slots (slots.set k slot.destroy)

end MicrOsal.CmsisQueue
