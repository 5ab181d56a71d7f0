import MicrOsal.Core
import MicrOsal.Lib.Machine
import MicrOsal.Lib.RingIndex

/-!
# MicrOsal.MessageBuffer.Model

The emulated message buffer (`src/common/emulated_message_buffer.inl`).

The ring is the stream buffer's; on it every message is a frame, a length
header of `kMsgHeaderBytes` followed by the payload, published by one store of
`head`. The layers are the same as there: the source's helpers and the
non-blocking sends on `EmuMbObj`, and the concurrent system `MbSys` in which
every load or store of an index, every ring copy and every semaphore operation
is a step of its own.

`std::size_t` sums that the source does not bound (`kMsgHeaderBytes + len`) are
taken modulo `sizeModulus`; the indices themselves stay below `ring_size`.
-/

namespace MicrOsal

/-! ### Frames -/

/-- `kMsgHeaderBytes` for the default 16-bit `osal_mb_length_t`. -/
def kMsgHeaderBytes : Nat := 2

/-- The object representation of `static_cast<osal_mb_length_t>(len)`. -/
def mbHeader (len : Nat) : List UInt8 := [UInt8.ofNat len, UInt8.ofNat (len / 256)]

/-- The value of the `osal_mb_length_t` whose object representation is `bytes`. -/
def mbLength : List UInt8 → Nat
  | [lo, hi] => lo.toNat + 256 * hi.toNat
  | _ => 0

/-- `static_cast<std::size_t>(~osal_mb_length_t(0))`. The operand of `~` is
promoted to `int` first, so this is `-1` converted to `std::size_t`. -/
def mbLengthLimit : Nat := sizeModulus - 1

/-- `frame_size` of a send, in `std::size_t` arithmetic. -/
def mbFrameSize (len : Nat) : Nat := (kMsgHeaderBytes + len) % sizeModulus

/-! ### The control object and the ring helpers -/

/-- `emu_mb_obj`. -/
structure EmuMbObj where
  buf : Nat → UInt8
  ringSize : Nat
  capacity : Nat
  head : Nat
  tail : Nat
  dataSem : Bool
  spaceSem : Bool

/-- `emu_mb_available`. -/
def emuMbAvailable (s : EmuMbObj) : Nat := ringAvailable s.ringSize s.head s.tail

/-- `emu_mb_free`. -/
def emuMbFree (s : EmuMbObj) : Nat := s.capacity - emuMbAvailable s

/-- The header copy of `emu_mb_write_frame` at `head`. -/
def mbCopyHeader (s : EmuMbObj) (head : Nat) (msg : List UInt8) : EmuMbObj :=
  { s with buf := ringCopyIn s.ringSize s.buf head (mbHeader msg.length) }

/-- The payload copy of `emu_mb_write_frame`, behind the header at `head`. -/
def mbCopyPayload (s : EmuMbObj) (head : Nat) (msg : List UInt8) : EmuMbObj :=
  { s with
    buf := ringCopyIn s.ringSize s.buf (ringAdvance s.ringSize head kMsgHeaderBytes) msg }

/-- The store that ends `emu_mb_write_frame`. -/
def mbPublish (s : EmuMbObj) (head : Nat) (msg : List UInt8) : EmuMbObj :=
  { s with head := ringAdvance s.ringSize head (mbFrameSize msg.length) }

/-- `emu_mb_write_frame`. -/
def emuMbWriteFrame (s : EmuMbObj) (msg : List UInt8) : EmuMbObj :=
  mbPublish (mbCopyPayload (mbCopyHeader s s.head msg) s.head msg) s.head msg

/-! ### Uninterrupted sends

A null handle is a `none` object and a null message pointer a `none` payload. -/

/-- `osal_message_buffer_create` on a non-null handle, for a pool and semaphores
that are not exhausted; `buffer` is the content of the caller's storage. -/
def osalMessageBufferCreate (buffer : Option (Nat → UInt8)) (capacity : Nat) :
    Except ErrorCode EmuMbObj :=
  match buffer with
  | none => .error .invalidArgument
  | some buf =>
    if capacity ≤ kMsgHeaderBytes then .error .invalidArgument
    else .ok
      { buf := buf
        ringSize := capacity + 1
        capacity := capacity
        head := 0
        tail := 0
        dataSem := false
        spaceSem := false }

/-- `osal_message_buffer_send` with `NO_WAIT`. -/
def osalMessageBufferSendNoWait (handle : Option EmuMbObj) (msg : Option (List UInt8)) :
    ErrorCode × Option EmuMbObj :=
  match handle with
  | none => (.notInitialized, none)
  | some s =>
    match msg with
    | none => (.invalidArgument, some s)
    | some msg =>
      if msg.length = 0 then (.invalidArgument, some s)
      else if mbLengthLimit < msg.length then (.invalidArgument, some s)
      else if s.capacity < mbFrameSize msg.length then (.invalidArgument, some s)
      else if mbFrameSize msg.length ≤ emuMbFree s then
        (.ok, some { emuMbWriteFrame s msg with dataSem := true })
      else (.timeout, some s)

/-- `osal_message_buffer_send_isr`. -/
def osalMessageBufferSendIsr (handle : Option EmuMbObj) (msg : Option (List UInt8)) :
    ErrorCode × Option EmuMbObj :=
  match handle with
  | none => (.notInitialized, none)
  | some s =>
    match msg with
    | none => (.invalidArgument, some s)
    | some msg =>
      if msg.length = 0 then (.invalidArgument, some s)
      else if emuMbFree s < mbFrameSize msg.length then (.timeout, some s)
      else (.ok, some { emuMbWriteFrame s msg with dataSem := true })

/-! ### Producer and consumer programs -/

/-- A send in progress: its message, its timeout (`none` for `send_isr`), the
tick at which the wait loop started, and, for the record only, the ring content
and `head` as the call found them. -/
structure MbSend (w : Nat) where
  msg : List UInt8
  timeout : Option (Tick w)
  start : Tick w
  buf₀ : Nat → UInt8
  head₀ : Nat

/-- Where the producer is inside `osal_message_buffer_send` or `send_isr`. -/
inductive MbProducer (w : Nat)
  | idle
  /-- `emu_mb_free`: about to load `head`. -/
  | freeHead (c : MbSend w)
  /-- `emu_mb_free`: about to load `tail`, then compare and branch. -/
  | freeTail (c : MbSend w) (h : Nat)
  /-- `emu_mb_write_frame`: about to load `head`. -/
  | writeHead (c : MbSend w)
  /-- `emu_mb_write_frame`: about to copy the header in. -/
  | writeHeader (c : MbSend w) (h : Nat)
  /-- `emu_mb_write_frame`: about to copy the payload in. -/
  | writePayload (c : MbSend w) (h : Nat)
  /-- `emu_mb_write_frame`: about to store the new `head`. -/
  | writeStore (c : MbSend w) (h : Nat)
  /-- About to give `data_sem`, then return `ok`. -/
  | give (c : MbSend w)
  /-- Too little space was `free`: about to read the clock. -/
  | clock (c : MbSend w) (free : Nat)
  /-- Inside `osal_semaphore_take(space_sem, remaining)`. -/
  | take (c : MbSend w) (free : Nat) (remaining : Tick w)

/-- A receive in progress; `timeout` is `none` for `receive_isr`. -/
structure MbReceive (w : Nat) where
  maxLen : Nat
  timeout : Option (Tick w)
  start : Tick w

/-- Where the consumer is inside `osal_message_buffer_receive`, `receive_isr` or
`reset`; `n` is the decoded `msg_len`. -/
inductive MbConsumer (w : Nat)
  | idle
  /-- `emu_mb_available`: about to load `head`. -/
  | availHead (r : MbReceive w)
  /-- `emu_mb_available`: about to load `tail`, then branch on the header size. -/
  | availTail (r : MbReceive w) (h : Nat)
  /-- `emu_mb_peek`: about to load `tail`. -/
  | peekTail (r : MbReceive w) (avail : Nat)
  /-- `emu_mb_peek`: about to copy the header out, then branch on the frame size. -/
  | peekCopy (r : MbReceive w) (avail t : Nat)
  /-- `emu_mb_skip` over the header: about to load `tail`. -/
  | skipTail (r : MbReceive w) (n : Nat)
  /-- `emu_mb_skip` over the header: about to store `tail`. -/
  | skipStore (r : MbReceive w) (n t : Nat)
  /-- `emu_mb_read`: about to load `tail`. -/
  | readTail (r : MbReceive w) (n : Nat)
  /-- `emu_mb_read`: about to copy the payload out. -/
  | readCopy (r : MbReceive w) (n t : Nat)
  /-- `emu_mb_read`: about to store `tail`. -/
  | readStore (r : MbReceive w) (n t : Nat) (out : List UInt8)
  /-- `emu_mb_skip` over a truncated payload's rest: about to load `tail`. -/
  | restTail (r : MbReceive w) (n : Nat) (out : List UInt8)
  /-- `emu_mb_skip` over a truncated payload's rest: about to store `tail`. -/
  | restStore (r : MbReceive w) (n t : Nat) (out : List UInt8)
  /-- About to give `space_sem`. -/
  | giveSpace (r : MbReceive w) (out : List UInt8)
  /-- Second `emu_mb_available`: about to load `head`. -/
  | againHead (r : MbReceive w) (out : List UInt8)
  /-- Second `emu_mb_available`: about to load `tail`. -/
  | againTail (r : MbReceive w) (out : List UInt8) (h : Nat)
  /-- About to give `data_sem` for the messages still queued. -/
  | giveData (r : MbReceive w) (out : List UInt8)
  /-- No complete message was there: about to read the clock. -/
  | clock (r : MbReceive w)
  /-- Inside `osal_semaphore_take(data_sem, remaining)`. -/
  | take (r : MbReceive w) (remaining : Tick w)
  /-- `reset`: about to load `head`. -/
  | resetHead
  /-- `reset`: about to store `tail`. -/
  | resetTail (h : Nat)

/-- What a returned send looked like from outside: its result and the producer's
side of the ring before and after. -/
structure MbSendReturn where
  msg : List UInt8
  code : ErrorCode
  before : (Nat → UInt8) × Nat
  after : (Nat → UInt8) × Nat

/-- What a consumer call ended with: a receive that returned 0, one that
returned a message's bytes, or the bytes a reset dropped. -/
inductive MbOut
  | nothing
  | received (maxLen : Nat) (bytes : List UInt8)
  | discarded (bytes : List UInt8)

/-- The concurrent system around one message buffer. -/
structure MbSys (w : Nat) where
  obj : EmuMbObj
  prod : MbProducer w
  cons : MbConsumer w
  /-- True tick count. -/
  clock : Nat
  sends : List MbSendReturn
  outs : List MbOut

/-- An entry point being called, a step of the call in progress on either side
(`timedOut` chooses how a blocked take ends), or the clock advancing. -/
inductive MbAct (w : Nat)
  | send (msg : Option (List UInt8)) (timeout : Tick w)
  | sendIsr (msg : Option (List UInt8))
  | receive (maxLen : Nat) (timeout : Tick w)
  | receiveIsr (maxLen : Nat)
  | reset
  | producer (timedOut : Bool)
  | consumer (timedOut : Bool)
  | tick

namespace MbSys

variable {w : Nat}

/-- The producer returns `code` from call `c`. -/
def sendReturns (s : MbSys w) (c : MbSend w) (code : ErrorCode) : MbSys w :=
  { s with
    prod := .idle
    sends := s.sends ++
      [{ msg := c.msg, code := code, before := (c.buf₀, c.head₀),
         after := (s.obj.buf, s.obj.head) }] }

/-- The consumer returns from a call that ended with `out`. -/
def receiveReturns (s : MbSys w) (out : MbOut) : MbSys w :=
  { s with cons := .idle, outs := s.outs ++ [out] }

/-- The validation at the top of `osal_message_buffer_send` (`timeout = some _`)
and of `send_isr` (`timeout = none`, which has neither length check). -/
def sendCheck (s : MbSys w) (msg : Option (List UInt8)) (timeout : Option (Tick w)) :
    Option ErrorCode :=
  match msg with
  | none => some .invalidArgument
  | some msg =>
    if msg.length = 0 then some .invalidArgument
    else if timeout.isSome ∧ mbLengthLimit < msg.length then some .invalidArgument
    else if timeout.isSome ∧ s.obj.capacity < mbFrameSize msg.length then some .invalidArgument
    else none

/-- Enter `osal_message_buffer_send` or `send_isr`. -/
def beginSend (s : MbSys w) (msg : Option (List UInt8)) (timeout : Option (Tick w)) : MbSys w :=
  let c : MbSend w :=
    { msg := msg.getD [], timeout := timeout, start := clockTicks w s.clock,
      buf₀ := s.obj.buf, head₀ := s.obj.head }
  match s.sendCheck msg timeout with
  | some code => s.sendReturns c code
  | none => { s with prod := .freeHead c }

/-- Enter `osal_message_buffer_receive` or `receive_isr`. -/
def beginReceive (s : MbSys w) (maxLen : Nat) (timeout : Option (Tick w)) : MbSys w :=
  let r : MbReceive w := { maxLen := maxLen, timeout := timeout, start := clockTicks w s.clock }
  if maxLen = 0 then s.receiveReturns .nothing else { s with cons := .availHead r }

/-- One step of the producer's call. -/
def stepProducer (s : MbSys w) (timedOut : Bool) : Option (MbSys w) :=
  match s.prod with
  | .idle => none
  | .freeHead c => some { s with prod := .freeTail c s.obj.head }
  | .freeTail c h =>
    let free := s.obj.capacity - ringAvailable s.obj.ringSize h s.obj.tail
    if mbFrameSize c.msg.length ≤ free then some { s with prod := .writeHead c }
    else if c.timeout = none ∨ c.timeout = some noWait then some (s.sendReturns c .timeout)
    else some { s with prod := .clock c free }
  | .writeHead c => some { s with prod := .writeHeader c s.obj.head }
  | .writeHeader c h =>
    some { s with obj := mbCopyHeader s.obj h c.msg, prod := .writePayload c h }
  | .writePayload c h =>
    some { s with obj := mbCopyPayload s.obj h c.msg, prod := .writeStore c h }
  | .writeStore c h => some { s with obj := mbPublish s.obj h c.msg, prod := .give c }
  | .give c => some ({ s with obj := { s.obj with dataSem := true } }.sendReturns c .ok)
  | .clock c free =>
    let timeout := c.timeout.getD noWait
    let elapsed := clockTicks w s.clock - c.start
    if timeout ≠ waitForever ∧ timeout ≤ elapsed then some (s.sendReturns c .timeout)
    else
      let remaining := if timeout = waitForever then waitForever else timeout - elapsed
      some { s with prod := .take c free remaining }
  | .take c _ remaining =>
    if timedOut then
      if remaining = waitForever then none else some { s with prod := .freeHead c }
    else if s.obj.spaceSem then
      some { s with obj := { s.obj with spaceSem := false }, prod := .freeHead c }
    else none

/-- The consumer found no complete message: return 0 or go on to wait. -/
def noMessage (s : MbSys w) (r : MbReceive w) : MbSys w :=
  if r.timeout = none ∨ r.timeout = some noWait then s.receiveReturns .nothing
  else { s with cons := .clock r }

/-- `tail` moves forward by `len` from the loaded `t`. -/
def advanceTail (s : MbSys w) (t len : Nat) (pc : MbConsumer w) : MbSys w :=
  { s with obj := { s.obj with tail := ringAdvance s.obj.ringSize t len }, cons := pc }

/-- One step of the consumer's call. -/
def stepConsumer (s : MbSys w) (timedOut : Bool) : Option (MbSys w) :=
  match s.cons with
  | .idle => none
  | .availHead r => some { s with cons := .availTail r s.obj.head }
  | .availTail r h =>
    let avail := ringAvailable s.obj.ringSize h s.obj.tail
    if kMsgHeaderBytes ≤ avail then some { s with cons := .peekTail r avail }
    else some (s.noMessage r)
  | .peekTail r avail => some { s with cons := .peekCopy r avail s.obj.tail }
  | .peekCopy r avail t =>
    let n := mbLength (ringCopyOut s.obj.ringSize s.obj.buf t kMsgHeaderBytes)
    if kMsgHeaderBytes + n ≤ avail then some { s with cons := .skipTail r n }
    else some (s.noMessage r)
  | .skipTail r n => some { s with cons := .skipStore r n s.obj.tail }
  | .skipStore r n t => some (s.advanceTail t kMsgHeaderBytes (.readTail r n))
  | .readTail r n => some { s with cons := .readCopy r n s.obj.tail }
  | .readCopy r n t =>
    let out := ringCopyOut s.obj.ringSize s.obj.buf t (min n r.maxLen)
    some { s with cons := .readStore r n t out }
  | .readStore r n t out =>
    if n ≤ r.maxLen then some (s.advanceTail t n (.giveSpace r out))
    else some (s.advanceTail t r.maxLen (.restTail r n out))
  | .restTail r n out => some { s with cons := .restStore r n s.obj.tail out }
  | .restStore r n t out => some (s.advanceTail t (n - r.maxLen) (.giveSpace r out))
  | .giveSpace r out =>
    let s' := { s with obj := { s.obj with spaceSem := true } }
    -- only the task-level receive looks again
    if r.timeout = none then some (s'.receiveReturns (.received r.maxLen out))
    else some { s' with cons := .againHead r out }
  | .againHead r out => some { s with cons := .againTail r out s.obj.head }
  | .againTail r out h =>
    if kMsgHeaderBytes ≤ ringAvailable s.obj.ringSize h s.obj.tail then
      some { s with cons := .giveData r out }
    else some (s.receiveReturns (.received r.maxLen out))
  | .giveData r out =>
    some ({ s with obj := { s.obj with dataSem := true } }.receiveReturns
      (.received r.maxLen out))
  | .clock r =>
    let timeout := r.timeout.getD noWait
    let elapsed := clockTicks w s.clock - r.start
    if timeout ≠ waitForever ∧ timeout ≤ elapsed then some (s.receiveReturns .nothing)
    else
      let remaining := if timeout = waitForever then waitForever else timeout - elapsed
      some { s with cons := .take r remaining }
  | .take r remaining =>
    if timedOut then
      if remaining = waitForever then none else some { s with cons := .availHead r }
    else if s.obj.dataSem then
      some { s with obj := { s.obj with dataSem := false }, cons := .availHead r }
    else none
  | .resetHead => some { s with cons := .resetTail s.obj.head }
  | .resetTail h =>
    -- everything between `tail` and the loaded `head` is discarded by the store
    let lost := ringCopyOut s.obj.ringSize s.obj.buf s.obj.tail
      (ringAvailable s.obj.ringSize h s.obj.tail)
    some ({ s with obj := { s.obj with tail := h } }.receiveReturns (.discarded lost))

/-- One step of the system. A side starts a call only when it has none in
progress: there is one producer and one consumer. -/
def step (s : MbSys w) : MbAct w → Option (MbSys w)
  | .send msg timeout =>
    match s.prod with
    | .idle => some (s.beginSend msg (some timeout))
    | _ => none
  | .sendIsr msg =>
    match s.prod with
    | .idle => some (s.beginSend msg none)
    | _ => none
  | .receive maxLen timeout =>
    match s.cons with
    | .idle => some (s.beginReceive maxLen (some timeout))
    | _ => none
  | .receiveIsr maxLen =>
    match s.cons with
    | .idle => some (s.beginReceive maxLen none)
    | _ => none
  | .reset =>
    match s.cons with
    | .idle => some { s with cons := .resetHead }
    | _ => none
  | .producer timedOut => s.stepProducer timedOut
  | .consumer timedOut => s.stepConsumer timedOut
  | .tick => some { s with clock := s.clock + 1 }

end MbSys

/-- A system around a freshly created buffer. -/
def MbSys.ofObj {w : Nat} (obj : EmuMbObj) : MbSys w :=
  { obj := obj, prod := .idle, cons := .idle, clock := 0, sends := [], outs := [] }

/-- The system over a buffer `osal_message_buffer_create` returned. -/
def mbMachine (w : Nat) (obj : EmuMbObj) : Machine (MbSys w) (MbAct w) where
  init := MbSys.ofObj obj
  step := MbSys.step

end MicrOsal
