import MicrOsal.Lib.Machine
import MicrOsal.Lib.RingIndex

/-!
# MicrOsal.RingBuffer.Model

`osal::ring_buffer<T, N>` (`include/osal/ring_buffer.hpp`): a lock-free ring of `N + 1` slots
for one producer and one consumer.

Two layers, as for the stream buffer. The functions on `RingBuffer` are the source's
functions, executed without interruption. `RbSys` is the concurrent system: the producer and
the consumer are program counters with their local variables, and every load or store of
`head_` or `tail_` and every access to a slot is a step of its own; `memcpy` accesses one slot
after the other.

`held` is the number of items in the buffer when the producer loaded `tail_`, or the consumer
`head_`; with `pushes` and `outs` it is a record of what the calls did, which no step of the
program reads.
-/

namespace MicrOsal

universe u

/-! ### The buffer -/

/-- `osal::ring_buffer<T, N>`. -/
structure RingBuffer (α : Type u) (N : Nat) where
  buf : Nat → α
  head : Nat
  tail : Nat

namespace RingBuffer

variable {α : Type u} {N : Nat}

/-- The constructor. -/
def create [Inhabited α] (N : Nat) : RingBuffer α N where
  buf := fun _ => default
  head := 0
  tail := 0

/-- `kCapacity`. -/
def kCapacity (N : Nat) : Nat := N + 1

/-- `increment`. -/
def increment (N idx : Nat) : Nat := if idx + 1 = kCapacity N then 0 else idx + 1

/-- `avail` in `try_push_n`. -/
def pushAvail (N h t : Nat) : Nat := if t > h then t - h - 1 else kCapacity N - h + t - 1

/-- `avail` in `try_pop_n`. -/
def popAvail (N h t : Nat) : Nat := if h ≥ t then h - t else kCapacity N - t + h

/-- `new_h` in `try_push_n` and `new_t` in `try_pop_n`. -/
def advance (N index n : Nat) : Nat :=
  if index + n < kCapacity N then index + n else index + n - kCapacity N

/-- The slot that the two `memcpy` of `try_push_n` and `try_pop_n` access for item `k` of `n`. -/
def slotAt (N index n k : Nat) : Nat :=
  let first := min n (kCapacity N - index)
  if k < first then index + k else k - first

/-- `buf_[i] = item`. -/
def write (rb : RingBuffer α N) (i : Nat) (item : α) : RingBuffer α N :=
  { rb with buf := Function.update rb.buf i item }

/-- `head_.store`. -/
def storeHead (rb : RingBuffer α N) (h : Nat) : RingBuffer α N := { rb with head := h }

/-- `tail_.store`. -/
def storeTail (rb : RingBuffer α N) (t : Nat) : RingBuffer α N := { rb with tail := t }

/-- `try_push`. -/
def tryPush (rb : RingBuffer α N) (item : α) : Bool × RingBuffer α N :=
  if increment N rb.head = rb.tail then (false, rb)
  else (true, (rb.write rb.head item).storeHead (increment N rb.head))

/-- `try_push_n`. -/
def tryPushN (rb : RingBuffer α N) (items : List α) : Nat × RingBuffer α N :=
  let n := min items.length (pushAvail N rb.head rb.tail)
  if n = 0 then (0, rb)
  else
    let first := min n (kCapacity N - rb.head)
    let buf₁ := memcpy rb.buf rb.head (items.take first)
    let buf₂ := if first < n then memcpy buf₁ 0 ((items.drop first).take (n - first)) else buf₁
    (n, { rb with buf := buf₂ }.storeHead (advance N rb.head n))

/-- `try_pop`. -/
def tryPop (rb : RingBuffer α N) : Option α × RingBuffer α N :=
  if rb.tail = rb.head then (none, rb)
  else (some (rb.buf rb.tail), rb.storeTail (increment N rb.tail))

/-- `try_pop_n`. -/
def tryPopN (rb : RingBuffer α N) (count : Nat) : List α × RingBuffer α N :=
  let n := min count (popAvail N rb.head rb.tail)
  if n = 0 then ([], rb)
  else
    let first := min n (kCapacity N - rb.tail)
    let items := memread rb.buf rb.tail first ++
      if first < n then memread rb.buf 0 (n - first) else []
    (items, rb.storeTail (advance N rb.tail n))

/-- `size`. -/
def size (rb : RingBuffer α N) : Nat :=
  if rb.head ≥ rb.tail then rb.head - rb.tail else kCapacity N - rb.tail + rb.head

/-- `free`. -/
def free (rb : RingBuffer α N) : Nat := N - rb.size

/-- `empty`. -/
def empty (rb : RingBuffer α N) : Bool := rb.head = rb.tail

/-- `full`. -/
def full (rb : RingBuffer α N) : Bool := increment N rb.head = rb.tail

end RingBuffer

/-! ### Producer and consumer programs -/

open RingBuffer

/-- Where the producer is in `try_push` or `try_push_n`. -/
inductive RbProducer (α : Type u)
  | idle
  /-- `try_push`, before the load of `head_`, -/
  | pushHead (item : α)
  /-- before the load of `tail_`, -/
  | pushTail (item : α) (h : Nat)
  /-- before the write of the slot, -/
  | pushWrite (item : α) (h held : Nat)
  /-- before the store of `head_`. -/
  | pushStore (item : α) (h held : Nat)
  /-- `try_push_n`, before the load of `head_`, -/
  | pushNHead (items : List α)
  /-- before the load of `tail_`, -/
  | pushNTail (items : List α) (h : Nat)
  /-- before the write of item `k` of `n`, -/
  | pushNWrite (items : List α) (h n k held : Nat)
  /-- before the store of `head_`. -/
  | pushNStore (items : List α) (h n held : Nat)

/-- Where the consumer is in `try_pop`, `try_pop_n`, `peek` or `reset`. -/
inductive RbConsumer (α : Type u)
  | idle
  /-- `try_pop`, before the load of `tail_`, -/
  | popTail
  /-- before the load of `head_`, -/
  | popHead (t : Nat)
  /-- before the read of the slot, -/
  | popRead (t held : Nat)
  /-- before the store of `tail_`. -/
  | popStore (t : Nat) (item : α) (held : Nat)
  /-- `try_pop_n`, before the load of `tail_`, -/
  | popNTail (count : Nat)
  /-- before the load of `head_`, -/
  | popNHead (count t : Nat)
  /-- before the read of the next of `n` items, -/
  | popNRead (count t n : Nat) (items : List α) (held : Nat)
  /-- before the store of `tail_`. -/
  | popNStore (count t n : Nat) (items : List α) (held : Nat)
  /-- `peek`, before the load of `tail_`, -/
  | peekTail
  /-- before the load of `head_`, -/
  | peekHead (t : Nat)
  /-- before the read of the slot. -/
  | peekRead (t held : Nat)
  /-- `reset`, before the load of `head_`, -/
  | resetHead
  /-- before the store of `tail_`. -/
  | resetTail (h : Nat)

/-- The slot that the producer writes next. -/
def RbProducer.writes {α : Type u} (N : Nat) : RbProducer α → Option Nat
  | .pushWrite _ h _ => some h
  | .pushNWrite _ h n k _ => some (slotAt N h n k)
  | _ => none

/-- The slot that the consumer reads next. -/
def RbConsumer.reads {α : Type u} (N : Nat) : RbConsumer α → Option Nat
  | .popRead t _ | .peekRead t _ => some t
  | .popNRead _ t n items _ => some (slotAt N t n items.length)
  | _ => none

/-! ### The system -/

/-- A push that returned: what it was given, and how many items it has pushed. -/
structure RbPush (α : Type u) where
  items : List α
  pushed : Nat
  held : Nat

/-- A call of the consumer that returned. -/
inductive RbOut (α : Type u)
  /-- `try_pop` (`count = 1`) or `try_pop_n`. -/
  | popped (count : Nat) (items : List α) (held : Nat)
  | peeked (item : Option α) (held : Nat)
  /-- What a `reset` has discarded. -/
  | discarded (items : List α)

/-- The items that have left the buffer. -/
def RbOut.taken {α : Type u} : RbOut α → List α
  | .popped _ items _ => items
  | .peeked _ _ => []
  | .discarded items => items

structure RbSys (α : Type u) (N : Nat) where
  rb : RingBuffer α N
  prod : RbProducer α
  cons : RbConsumer α
  pushes : List (RbPush α)
  outs : List (RbOut α)

/-- What happens next. -/
inductive RbAct (α : Type u)
  | tryPush (item : α)
  | tryPushN (items : List α)
  | tryPop
  | tryPopN (count : Nat)
  | peek
  | reset
  /-- The producer goes on. -/
  | producer
  /-- The consumer goes on. -/
  | consumer

namespace RbSys

variable {α : Type u} {N : Nat}

def create [Inhabited α] (N : Nat) : RbSys α N where
  rb := .create N
  prod := .idle
  cons := .idle
  pushes := []
  outs := []

/-- A push returns. -/
def pushReturns (s : RbSys α N) (items : List α) (pushed held : Nat) : RbSys α N :=
  { s with prod := .idle, pushes := s.pushes ++ [⟨items, pushed, held⟩] }

/-- A call of the consumer returns. -/
def outReturns (s : RbSys α N) (out : RbOut α) : RbSys α N :=
  { s with cons := .idle, outs := s.outs ++ [out] }

/-- One step of the producer. -/
def stepProducer (s : RbSys α N) : Option (RbSys α N) :=
  match s.prod with
  | .idle => none
  | .pushHead item => some { s with prod := .pushTail item s.rb.head }
  | .pushTail item h =>
      if increment N h = s.rb.tail then some (s.pushReturns [item] 0 s.rb.size)
      else some { s with prod := .pushWrite item h s.rb.size }
  | .pushWrite item h held =>
      some { s with
        rb := s.rb.write h item
        prod := .pushStore item h held }
  | .pushStore item h held =>
      some ({ s with rb := s.rb.storeHead (increment N h) }.pushReturns [item] 1 held)
  | .pushNHead items => some { s with prod := .pushNTail items s.rb.head }
  | .pushNTail items h =>
      let n := min items.length (pushAvail N h s.rb.tail)
      if n = 0 then some (s.pushReturns items 0 s.rb.size)
      else some { s with prod := .pushNWrite items h n 0 s.rb.size }
  | .pushNWrite items h n k held =>
      (items[k]?).map fun item =>
        { s with
          rb := s.rb.write (slotAt N h n k) item
          prod := if k + 1 < n then .pushNWrite items h n (k + 1) held
            else .pushNStore items h n held }
  | .pushNStore items h n held =>
      some ({ s with rb := s.rb.storeHead (advance N h n) }.pushReturns items n held)

/-- One step of the consumer. -/
def stepConsumer (s : RbSys α N) : Option (RbSys α N) :=
  match s.cons with
  | .idle => none
  | .popTail => some { s with cons := .popHead s.rb.tail }
  | .popHead t =>
      if t = s.rb.head then some (s.outReturns (.popped 1 [] s.rb.size))
      else some { s with cons := .popRead t s.rb.size }
  | .popRead t held => some { s with cons := .popStore t (s.rb.buf t) held }
  | .popStore t item held =>
      some ({ s with rb := s.rb.storeTail (increment N t) }.outReturns
        (.popped 1 [item] held))
  | .popNTail count => some { s with cons := .popNHead count s.rb.tail }
  | .popNHead count t =>
      let n := min count (popAvail N s.rb.head t)
      if n = 0 then some (s.outReturns (.popped count [] s.rb.size))
      else some { s with cons := .popNRead count t n [] s.rb.size }
  | .popNRead count t n items held =>
      let items' := items ++ [s.rb.buf (slotAt N t n items.length)]
      some { s with cons := if items'.length < n then .popNRead count t n items' held
        else .popNStore count t n items' held }
  | .popNStore count t n items held =>
      some ({ s with rb := s.rb.storeTail (advance N t n) }.outReturns
        (.popped count items held))
  | .peekTail => some { s with cons := .peekHead s.rb.tail }
  | .peekHead t =>
      if t = s.rb.head then some (s.outReturns (.peeked none s.rb.size))
      else some { s with cons := .peekRead t s.rb.size }
  | .peekRead t held => some (s.outReturns (.peeked (some (s.rb.buf t)) held))
  | .resetHead => some { s with cons := .resetTail s.rb.head }
  | .resetTail h =>
      let dropped := ringCopyOut (kCapacity N) s.rb.buf s.rb.tail (popAvail N h s.rb.tail)
      some ({ s with rb := s.rb.storeTail h }.outReturns (.discarded dropped))

/-- The producer begins a call. -/
def beginPush (s : RbSys α N) (prod : RbProducer α) : Option (RbSys α N) :=
  match s.prod with
  | .idle => some { s with prod := prod }
  | _ => none

/-- The consumer begins a call. -/
def beginOut (s : RbSys α N) (cons : RbConsumer α) : Option (RbSys α N) :=
  match s.cons with
  | .idle => some { s with cons := cons }
  | _ => none

/-- One step of the system. -/
def step (s : RbSys α N) : RbAct α → Option (RbSys α N)
  | .tryPush item => s.beginPush (.pushHead item)
  | .tryPushN items => s.beginPush (.pushNHead items)
  | .tryPop => s.beginOut .popTail
  | .tryPopN count => s.beginOut (.popNTail count)
  | .peek => s.beginOut .peekTail
  | .reset => s.beginOut .resetHead
  | .producer => s.stepProducer
  | .consumer => s.stepConsumer

end RbSys

/-- A ring buffer of `N` usable slots with its producer and its consumer. -/
def ringBufferMachine (α : Type u) [Inhabited α] (N : Nat) : Machine (RbSys α N) (RbAct α) where
  init := .create N
  step := RbSys.step

end MicrOsal
