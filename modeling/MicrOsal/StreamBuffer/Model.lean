import MicrOsal.Core
import MicrOsal.Lib.Machine
import MicrOsal.Lib.RingIndex

/-!
# MicrOsal.StreamBuffer.Model

The emulated stream buffer (`src/common/emulated_stream_buffer.inl`).

Two layers. The functions on `EmuSbObj` are the source's helpers and the
non-blocking entry points executed without interruption. `SbSys` is the
concurrent system: one producer and one consumer, each a program counter with
the local variables the source keeps at that point, and every load or store of
`head`/`tail`, every ring copy, every semaphore operation and every clock read
is a step of its own. What the calls returned is recorded in `sends` and
`outs`, which no step reads.
-/

namespace MicrOsal

/-! ### The control object and the ring helpers -/

/-- `emu_sb_obj`. `buf` is the memory behind the caller-supplied pointer; the
two binary semaphores are their token. -/
structure EmuSbObj where
  buf : Nat → UInt8
  ringSize : Nat
  capacity : Nat
  trigger : Nat
  head : Nat
  tail : Nat
  dataSem : Bool
  spaceSem : Bool

/-- `sb_available`. -/
def sbAvailable (s : EmuSbObj) : Nat := ringAvailable s.ringSize s.head s.tail

/-- `sb_free`. -/
def sbFree (s : EmuSbObj) : Nat := s.capacity - sbAvailable s

/-- `sb_write`. -/
def sbWrite (s : EmuSbObj) (data : List UInt8) : EmuSbObj :=
  { s with
    buf := ringCopyIn s.ringSize s.buf s.head data
    head := ringAdvance s.ringSize s.head data.length }

/-- `sb_read`: the bytes copied to the caller and the advanced object. -/
def sbRead (s : EmuSbObj) (len : Nat) : List UInt8 × EmuSbObj :=
  (ringCopyOut s.ringSize s.buf s.tail len,
    { s with tail := ringAdvance s.ringSize s.tail len })

/-! ### Uninterrupted entry points

A null handle is a `none` object and a null data pointer a `none` payload. -/

/-- `osal_stream_buffer_create` on a non-null handle, for a pool and semaphores
that are not exhausted; `buffer` is the content of the caller's storage. -/
def osalStreamBufferCreate (buffer : Option (Nat → UInt8)) (capacity triggerLevel : Nat) :
    Except ErrorCode EmuSbObj :=
  match buffer with
  | none => .error .invalidArgument
  | some buf =>
    if capacity = 0 then .error .invalidArgument
    else .ok
      { buf := buf
        ringSize := capacity + 1
        capacity := capacity
        trigger := if triggerLevel = 0 then 1 else triggerLevel
        head := 0
        tail := 0
        dataSem := false
        spaceSem := false }

/-- `osal_stream_buffer_send` with `NO_WAIT`. -/
def osalStreamBufferSendNoWait (handle : Option EmuSbObj) (data : Option (List UInt8)) :
    ErrorCode × Option EmuSbObj :=
  match handle with
  | none => (.notInitialized, none)
  | some s =>
    match data with
    | none => (.invalidArgument, some s)
    | some data =>
      if data.length = 0 then (.invalidArgument, some s)
      else if s.capacity < data.length then (.invalidArgument, some s)
      else if data.length ≤ sbFree s then
        (.ok, some { sbWrite s data with dataSem := true })
      else (.timeout, some s)

/-- `osal_stream_buffer_send_isr`. -/
def osalStreamBufferSendIsr (handle : Option EmuSbObj) (data : Option (List UInt8)) :
    ErrorCode × Option EmuSbObj :=
  match handle with
  | none => (.notInitialized, none)
  | some s =>
    match data with
    | none => (.invalidArgument, some s)
    | some data =>
      if data.length = 0 then (.invalidArgument, some s)
      else if sbFree s < data.length then (.timeout, some s)
      else (.ok, some { sbWrite s data with dataSem := true })

/-- `osal_stream_buffer_receive` with `NO_WAIT`; `maxLen = 0` also stands for a
null output buffer. -/
def osalStreamBufferReceiveNoWait (handle : Option EmuSbObj) (maxLen : Nat) :
    List UInt8 × Option EmuSbObj :=
  match handle with
  | none => ([], none)
  | some s =>
    if maxLen = 0 then ([], some s)
    else
      let avail := sbAvailable s
      if s.trigger ≤ avail then
        let out := sbRead s (min avail maxLen)
        (out.1, some { out.2 with spaceSem := true })
      else ([], some s)

/-- `osal_stream_buffer_receive_isr`. -/
def osalStreamBufferReceiveIsr (handle : Option EmuSbObj) (maxLen : Nat) :
    List UInt8 × Option EmuSbObj :=
  match handle with
  | none => ([], none)
  | some s =>
    if maxLen = 0 then ([], some s)
    else
      let avail := sbAvailable s
      if avail < s.trigger then ([], some s)
      else
        let out := sbRead s (min avail maxLen)
        (out.1, some { out.2 with spaceSem := true })

/-! ### Producer and consumer programs -/

/-- A send in progress: its payload, its timeout (`none` for `send_isr`), the
tick at which the wait loop started, and, for the record only, the ring content
and `head` as the call found them. -/
structure SbSend (w : Nat) where
  data : List UInt8
  timeout : Option (Tick w)
  start : Tick w
  buf₀ : Nat → UInt8
  head₀ : Nat

/-- Where the producer is inside `osal_stream_buffer_send` or `send_isr`. -/
inductive SbProducer (w : Nat)
  | idle
  /-- `sb_free`: about to load `head`. -/
  | freeHead (c : SbSend w)
  /-- `sb_free`: about to load `tail`, then compare and branch. -/
  | freeTail (c : SbSend w) (h : Nat)
  /-- `sb_write`: about to load `head`. -/
  | writeHead (c : SbSend w)
  /-- `sb_write`: about to copy the payload in. -/
  | writeCopy (c : SbSend w) (h : Nat)
  /-- `sb_write`: about to store the new `head`. -/
  | writeStore (c : SbSend w) (h : Nat)
  /-- About to give `data_sem`, then return `ok`. -/
  | give (c : SbSend w)
  /-- Too little space was `free`: about to read the clock. -/
  | clock (c : SbSend w) (free : Nat)
  /-- Inside `osal_semaphore_take(space_sem, remaining)`. -/
  | take (c : SbSend w) (free : Nat) (remaining : Tick w)

/-- A receive in progress. For the record only: `tail₀` is `tail` as the call
found it, and `seen` the number of bytes in the ring when it last looked. -/
structure SbReceive (w : Nat) where
  maxLen : Nat
  timeout : Option (Tick w)
  start : Tick w
  tail₀ : Nat
  seen : Nat

/-- Where the consumer is inside `osal_stream_buffer_receive`, `receive_isr` or
`reset`. -/
inductive SbConsumer (w : Nat)
  | idle
  /-- `sb_available`: about to load `head`. -/
  | availHead (r : SbReceive w)
  /-- `sb_available`: about to load `tail`, then compare and branch. -/
  | availTail (r : SbReceive w) (h : Nat)
  /-- `sb_read`: about to load `tail`. -/
  | readTail (r : SbReceive w) (avail : Nat)
  /-- `sb_read`: about to copy out. -/
  | readCopy (r : SbReceive w) (avail t : Nat)
  /-- `sb_read`: about to store the new `tail`. -/
  | readStore (r : SbReceive w) (avail t : Nat) (out : List UInt8)
  /-- About to give `space_sem`, then return. -/
  | give (r : SbReceive w) (avail : Nat) (out : List UInt8)
  /-- Only `avail` bytes were there: about to read the clock. -/
  | clock (r : SbReceive w) (avail : Nat)
  /-- Inside `osal_semaphore_take(data_sem, remaining)`. -/
  | take (r : SbReceive w) (avail : Nat) (remaining : Tick w)
  /-- `reset`: about to load `head`. -/
  | resetHead
  /-- `reset`: about to store `tail`. -/
  | resetTail (h : Nat)

/-- What a returned send looked like from outside: its result and the producer's
side of the ring before and after. -/
structure SbSendReturn where
  data : List UInt8
  code : ErrorCode
  before : (Nat → UInt8) × Nat
  after : (Nat → UInt8) × Nat

/-- What left the buffer: by a returned receive (with the number of bytes that
were in the ring when it last looked and the consumer's index before and after)
or by a reset. -/
inductive SbOut
  | received (maxLen seen : Nat) (bytes : List UInt8) (tailBefore tailAfter : Nat)
  | discarded (bytes : List UInt8)

/-- The bytes of an `SbOut`. -/
def SbOut.bytes : SbOut → List UInt8
  | received _ _ bytes _ _ => bytes
  | discarded bytes => bytes

/-- The concurrent system around one stream buffer. -/
structure SbSys (w : Nat) where
  obj : EmuSbObj
  prod : SbProducer w
  cons : SbConsumer w
  /-- True tick count. -/
  clock : Nat
  sends : List SbSendReturn
  outs : List SbOut

/-- An entry point being called, a step of the call in progress on either side
(`timedOut` chooses how a blocked take ends), or the clock advancing. -/
inductive SbAct (w : Nat)
  | send (data : Option (List UInt8)) (timeout : Tick w)
  | sendIsr (data : Option (List UInt8))
  | receive (maxLen : Nat) (timeout : Tick w)
  | receiveIsr (maxLen : Nat)
  | reset
  | producer (timedOut : Bool)
  | consumer (timedOut : Bool)
  | tick

namespace SbSys

variable {w : Nat}

/-- The producer returns `code` from call `c`. -/
def sendReturns (s : SbSys w) (c : SbSend w) (code : ErrorCode) : SbSys w :=
  { s with
    prod := .idle
    sends := s.sends ++
      [{ data := c.data, code := code, before := (c.buf₀, c.head₀),
         after := (s.obj.buf, s.obj.head) }] }

/-- The consumer returns `bytes` from call `r`. -/
def receiveReturns (s : SbSys w) (r : SbReceive w) (bytes : List UInt8) : SbSys w :=
  { s with
    cons := .idle
    outs := s.outs ++ [.received r.maxLen r.seen bytes r.tail₀ s.obj.tail] }

/-- The validation at the top of `osal_stream_buffer_send` (`timeout = some _`)
and of `send_isr` (`timeout = none`, which has no capacity check). -/
def sendCheck (s : SbSys w) (data : Option (List UInt8)) (timeout : Option (Tick w)) :
    Option ErrorCode :=
  match data with
  | none => some .invalidArgument
  | some data =>
    if data.length = 0 then some .invalidArgument
    else if timeout.isSome ∧ s.obj.capacity < data.length then some .invalidArgument
    else none

/-- Enter `osal_stream_buffer_send` or `send_isr`. -/
def beginSend (s : SbSys w) (data : Option (List UInt8)) (timeout : Option (Tick w)) : SbSys w :=
  let c : SbSend w :=
    { data := data.getD [], timeout := timeout, start := clockTicks w s.clock,
      buf₀ := s.obj.buf, head₀ := s.obj.head }
  match s.sendCheck data timeout with
  | some code => s.sendReturns c code
  | none => { s with prod := .freeHead c }

/-- Enter `osal_stream_buffer_receive` or `receive_isr`. -/
def beginReceive (s : SbSys w) (maxLen : Nat) (timeout : Option (Tick w)) : SbSys w :=
  let r : SbReceive w :=
    { maxLen := maxLen, timeout := timeout, start := clockTicks w s.clock,
      tail₀ := s.obj.tail, seen := 0 }
  if maxLen = 0 then s.receiveReturns r [] else { s with cons := .availHead r }

/-- One step of the producer's call. -/
def stepProducer (s : SbSys w) (timedOut : Bool) : Option (SbSys w) :=
  match s.prod with
  | .idle => none
  | .freeHead c => some { s with prod := .freeTail c s.obj.head }
  | .freeTail c h =>
    let free := s.obj.capacity - ringAvailable s.obj.ringSize h s.obj.tail
    if c.data.length ≤ free then some { s with prod := .writeHead c }
    else if c.timeout = none ∨ c.timeout = some noWait then some (s.sendReturns c .timeout)
    else some { s with prod := .clock c free }
  | .writeHead c => some { s with prod := .writeCopy c s.obj.head }
  | .writeCopy c h =>
    some { s with
      obj := { s.obj with buf := ringCopyIn s.obj.ringSize s.obj.buf h c.data }
      prod := .writeStore c h }
  | .writeStore c h =>
    some { s with
      obj := { s.obj with head := ringAdvance s.obj.ringSize h c.data.length }
      prod := .give c }
  | .give c =>
    some ({ s with obj := { s.obj with dataSem := true } }.sendReturns c .ok)
  | .clock c free =>
    let timeout := c.timeout.getD noWait
    let elapsed := clockTicks w s.clock - c.start
    if timeout ≠ waitForever ∧ timeout ≤ elapsed then some (s.sendReturns c .timeout)
    else
      let remaining := if timeout = waitForever then waitForever else timeout - elapsed
      some { s with prod := .take c free remaining }
  | .take c _ remaining =>
    if timedOut then
      if remaining = waitForever then none else some { s with prod := .freeHead c }
    else if s.obj.spaceSem then
      some { s with obj := { s.obj with spaceSem := false }, prod := .freeHead c }
    else none

/-- One step of the consumer's call. -/
def stepConsumer (s : SbSys w) (timedOut : Bool) : Option (SbSys w) :=
  match s.cons with
  | .idle => none
  | .availHead r =>
    some { s with cons := .availTail { r with seen := sbAvailable s.obj } s.obj.head }
  | .availTail r h =>
    let avail := ringAvailable s.obj.ringSize h s.obj.tail
    if s.obj.trigger ≤ avail then some { s with cons := .readTail r avail }
    else if r.timeout = none ∨ r.timeout = some noWait then some (s.receiveReturns r [])
    else some { s with cons := .clock r avail }
  | .readTail r avail => some { s with cons := .readCopy r avail s.obj.tail }
  | .readCopy r avail t =>
    let out := ringCopyOut s.obj.ringSize s.obj.buf t (min avail r.maxLen)
    some { s with cons := .readStore r avail t out }
  | .readStore r avail t out =>
    some { s with
      obj := { s.obj with tail := ringAdvance s.obj.ringSize t (min avail r.maxLen) }
      cons := .give r avail out }
  | .give r _ out =>
    some ({ s with obj := { s.obj with spaceSem := true } }.receiveReturns r out)
  | .clock r avail =>
    let timeout := r.timeout.getD noWait
    let elapsed := clockTicks w s.clock - r.start
    if timeout ≠ waitForever ∧ timeout ≤ elapsed then some (s.receiveReturns r [])
    else
      let remaining := if timeout = waitForever then waitForever else timeout - elapsed
      some { s with cons := .take r avail remaining }
  | .take r _ remaining =>
    if timedOut then
      if remaining = waitForever then none else some { s with cons := .availHead r }
    else if s.obj.dataSem then
      some { s with obj := { s.obj with dataSem := false }, cons := .availHead r }
    else none
  | .resetHead => some { s with cons := .resetTail s.obj.head }
  | .resetTail h =>
    -- everything between `tail` and the loaded `head` is discarded by the store
    let lost := ringCopyOut s.obj.ringSize s.obj.buf s.obj.tail
      (ringAvailable s.obj.ringSize h s.obj.tail)
    some { s with
      obj := { s.obj with tail := h }
      cons := .idle
      outs := s.outs ++ [.discarded lost] }

/-- One step of the system. A side starts a call only when it has none in
progress: there is one producer and one consumer. -/
def step (s : SbSys w) : SbAct w → Option (SbSys w)
  | .send data timeout =>
    match s.prod with
    | .idle => some (s.beginSend data (some timeout))
    | _ => none
  | .sendIsr data =>
    match s.prod with
    | .idle => some (s.beginSend data none)
    | _ => none
  | .receive maxLen timeout =>
    match s.cons with
    | .idle => some (s.beginReceive maxLen (some timeout))
    | _ => none
  | .receiveIsr maxLen =>
    match s.cons with
    | .idle => some (s.beginReceive maxLen none)
    | _ => none
  | .reset =>
    match s.cons with
    | .idle => some { s with cons := .resetHead }
    | _ => none
  | .producer timedOut => s.stepProducer timedOut
  | .consumer timedOut => s.stepConsumer timedOut
  | .tick => some { s with clock := s.clock + 1 }

end SbSys

/-- A system around a freshly created buffer. -/
def SbSys.ofObj {w : Nat} (obj : EmuSbObj) : SbSys w :=
  { obj := obj, prod := .idle, cons := .idle, clock := 0, sends := [], outs := [] }

/-- The system over a buffer `osal_stream_buffer_create` returned. -/
def sbMachine (w : Nat) (obj : EmuSbObj) : Machine (SbSys w) (SbAct w) where
  init := SbSys.ofObj obj
  step := SbSys.step

end MicrOsal
