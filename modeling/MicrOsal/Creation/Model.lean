import MicrOsal.Core

/-!
# MicrOsal.Creation.Model

The create functions of the emulated primitives (`common/emulated_*.inl`).

Each takes a slot of its static pool, creates the mutexes, semaphores, condition variables
and threads the primitive is made of one after the other, and gives back what it has when one
of them fails. Every function has its own unwinding, written out by hand, and so it is here.

Whether the creation of a part succeeds is given by a function of the part; no create
function tries the same part twice. What is created and destroyed is recorded in order.
-/

namespace MicrOsal.Creation

/-- The underlying objects, by the members of the pool objects that hold them. -/
inductive Part
  | guard
  /-- The semaphore of waiter `i`. -/
  | waiter (i : Nat)
  | sem
  | cv
  | mtx
  | notEmpty
  | flushCv
  | worker
  | dataSem
  | spaceSem
  deriving DecidableEq, Repr

/-- What happens to the parts of the pool object `slot`. -/
inductive Event
  | created (slot : Nat) (part : Part)
  | destroyed (slot : Nat) (part : Part)
  deriving DecidableEq, Repr

/-- What a create function changes. -/
structure World where
  /-- `emu_*_used`. -/
  used : List Bool
  /-- `handle->native`, the pool object by its slot. -/
  native : Option Nat
  events : List Event
  deriving DecidableEq, Repr

namespace World

/-- The slot `emu_*_acquire` takes, the first that is not in use. -/
def freeSlot (w : World) : Option Nat := w.used.findIdx? (fun used => ! used)

def acquire (w : World) (slot : Nat) : World := { w with used := w.used.set slot true }

/-- `emu_*_release`. -/
def release (w : World) (slot : Nat) : World := { w with used := w.used.set slot false }

def create (w : World) (slot : Nat) (part : Part) : World :=
  { w with events := w.events ++ [.created slot part] }

def destroy (w : World) (slot : Nat) (part : Part) : World :=
  { w with events := w.events ++ [.destroyed slot part] }

def setNative (w : World) (native : Option Nat) : World := { w with native := native }

/-- The loop over the waiters of a pool object: `left` more, from waiter `i` on. The result is
the waiter whose semaphore could not be created. -/
def createWaiters (ok : Part → Bool) (slot : Nat) : Nat → Nat → World → Option Nat × World
  | 0, _, w => (none, w)
  | left + 1, i, w =>
      if ok (.waiter i) then createWaiters ok slot left (i + 1) (w.create slot (.waiter i))
      else (some i, w)

/-- The semaphores of the waiters below `n`, one after the other. -/
def destroyWaiters (slot : Nat) (n : Nat) (w : World) : World :=
  (List.range n).foldl (fun w i => w.destroy slot (.waiter i)) w

end World

/-! ### The create functions -/

section

variable (ok : Part → Bool) (w : World)

/-- What `osal_event_flags_create` and `osal_condvar_create` share. The two differ in the
fields they set and in how they count the semaphores. -/
def createWithWaiters (handle : Bool) (maxWaiters : Nat) : ErrorCode × World :=
  if ! handle then (.invalidArgument, w)
  else
    match w.freeSlot with
    | none => (.outOfResources, w)
    | some slot =>
        let w := w.acquire slot
        if ! ok .guard then (.outOfResources, w.release slot)
        else
          let w := w.create slot .guard
          match w.createWaiters ok slot maxWaiters 0 with
          | (some i, w) =>
              (.outOfResources, ((w.destroyWaiters slot i).destroy slot .guard).release slot)
          | (none, w) => (.ok, w.setNative (some slot))

/-- `osal_event_flags_create`. -/
def eventFlagsCreate (handle : Bool) (maxWaiters : Nat) : ErrorCode × World :=
  createWithWaiters ok w handle maxWaiters

/-- `osal_condvar_create`. -/
def condvarCreate (handle : Bool) (maxWaiters : Nat) : ErrorCode × World :=
  createWithWaiters ok w handle maxWaiters

/-- `osal_work_queue_create`. -/
def workQueueCreate (handle : Bool) (maxDepth depth : Nat) : ErrorCode × World :=
  if ! handle || depth = 0 then (.invalidArgument, w)
  else
    match w.freeSlot with
    | none => (.outOfResources, w)
    | some slot =>
        let w := w.acquire slot
        if maxDepth < depth then (.invalidArgument, w.release slot)
        else if ! ok .mtx then (.outOfResources, w.release slot)
        else
          let w := w.create slot .mtx
          if ! ok .notEmpty then (.outOfResources, (w.destroy slot .mtx).release slot)
          else
            let w := w.create slot .notEmpty
            if ! ok .flushCv then
              (.outOfResources, ((w.destroy slot .notEmpty).destroy slot .mtx).release slot)
            else
              let w := w.create slot .flushCv
              if ! ok .worker then
                (.outOfResources,
                  (((w.destroy slot .flushCv).destroy slot .notEmpty).destroy slot
                    .mtx).release slot)
              else (.ok, (w.create slot .worker).setNative (some slot))

/-- `osal_memory_pool_create`; `maxWords` is `kMpoolBitmapWords`. -/
def memoryPoolCreate (handle buffer : Bool) (maxWords bufBytes blockSize blockCount : Nat) :
    ErrorCode × World :=
  if ! handle || ! buffer || blockSize = 0 || blockCount = 0 then (.invalidArgument, w)
  else if bufBytes / blockSize < blockCount then (.invalidArgument, w)
  else
    match w.freeSlot with
    | none => (.outOfResources, w)
    | some slot =>
        let w := w.acquire slot
        if maxWords < (blockCount + 31) % sizeModulus / 32 then
          (.invalidArgument, w.release slot)
        else if ! ok .guard then (.outOfResources, w.release slot)
        else
          let w := w.create slot .guard
          if ! ok .sem then (.outOfResources, (w.destroy slot .guard).release slot)
          else (.ok, (w.create slot .sem).setNative (some slot))

/-- The creation of both semaphores of a buffer; both are tried before either result is
looked at. -/
def createWithSemaphores (slot : Nat) (w : World) : ErrorCode × World :=
  let dOk := ok .dataSem
  let w := if dOk then w.create slot .dataSem else w
  let pOk := ok .spaceSem
  let w := if pOk then w.create slot .spaceSem else w
  if ! dOk || ! pOk then
    let w := if dOk then w.destroy slot .dataSem else w
    (.outOfResources, w.release slot)
  else (.ok, w.setNative (some slot))

/-- What `osal_stream_buffer_create` and `osal_message_buffer_create` share: all but the
arguments they refuse. -/
def bufferCreate (refused : Bool) : ErrorCode × World :=
  if refused then (.invalidArgument, w)
  else
    match w.freeSlot with
    | none => (.outOfResources, w)
    | some slot => createWithSemaphores ok slot (w.acquire slot)

/-- `osal_stream_buffer_create`. -/
def streamBufferCreate (handle buffer : Bool) (capacity : Nat) : ErrorCode × World :=
  bufferCreate ok w (! handle || ! buffer || capacity = 0)

/-- `kMsgHeaderBytes`. -/
def msgHeaderBytes : Nat := 2

/-- `osal_message_buffer_create`. -/
def messageBufferCreate (handle buffer : Bool) (capacity : Nat) : ErrorCode × World :=
  bufferCreate ok w (! handle || ! buffer || capacity ≤ msgHeaderBytes)

/-- `osal_rwlock_create`. -/
def rwlockCreate (handle : Bool) : ErrorCode × World :=
  if ! handle then (.invalidArgument, w)
  else
    match w.freeSlot with
    | none => (.outOfResources, w)
    | some slot =>
        let w := w.acquire slot
        if ! ok .guard then (.outOfResources, w.release slot)
        else
          let w := w.create slot .guard
          if ! ok .cv then (.outOfResources, (w.destroy slot .guard).release slot)
          else (.ok, (w.create slot .cv).setNative (some slot))

/-- `osal_barrier_create`. It clears the handle on every failure. -/
def barrierCreate (handle : Bool) (count : Nat) : ErrorCode × World :=
  if ! handle || count = 0 then
    (.invalidArgument, if handle then w.setNative none else w)
  else
    match w.freeSlot with
    | none => (.outOfResources, w.setNative none)
    | some slot =>
        let w := w.acquire slot
        if ! ok .guard then (.outOfResources, (w.release slot).setNative none)
        else
          let w := w.create slot .guard
          if ! ok .cv then
            (.outOfResources, ((w.destroy slot .guard).release slot).setNative none)
          else (.ok, (w.create slot .cv).setNative (some slot))

end

/-! ### Requests -/

/-- A call of one of the create functions: `handle` and `buffer` tell whether the pointers are
not null, the numbers are its arguments and the limits of the configuration. -/
inductive Request
  | eventFlags (handle : Bool) (maxWaiters : Nat)
  | condvar (handle : Bool) (maxWaiters : Nat)
  | workQueue (handle : Bool) (maxDepth depth : Nat)
  | memoryPool (handle buffer : Bool) (maxWords bufBytes blockSize blockCount : Nat)
  | streamBuffer (handle buffer : Bool) (capacity : Nat)
  | messageBuffer (handle buffer : Bool) (capacity : Nat)
  | rwlock (handle : Bool)
  | barrier (handle : Bool) (count : Nat)
  deriving DecidableEq, Repr

namespace Request

def create (r : Request) (ok : Part → Bool) (w : World) : ErrorCode × World :=
  match r with
  | .eventFlags handle maxWaiters => eventFlagsCreate ok w handle maxWaiters
  | .condvar handle maxWaiters => condvarCreate ok w handle maxWaiters
  | .workQueue handle maxDepth depth => workQueueCreate ok w handle maxDepth depth
  | .memoryPool handle buffer maxWords bufBytes blockSize blockCount =>
      memoryPoolCreate ok w handle buffer maxWords bufBytes blockSize blockCount
  | .streamBuffer handle buffer capacity => streamBufferCreate ok w handle buffer capacity
  | .messageBuffer handle buffer capacity => messageBufferCreate ok w handle buffer capacity
  | .rwlock handle => rwlockCreate ok w handle
  | .barrier handle count => barrierCreate ok w handle count

/-- The objects the primitive is made of. -/
def parts : Request → List Part
  | .eventFlags _ maxWaiters => .guard :: (List.range maxWaiters).map .waiter
  | .condvar _ maxWaiters => .guard :: (List.range maxWaiters).map .waiter
  | .workQueue .. => [.mtx, .notEmpty, .flushCv, .worker]
  | .memoryPool .. => [.guard, .sem]
  | .streamBuffer .. => [.dataSem, .spaceSem]
  | .messageBuffer .. => [.dataSem, .spaceSem]
  | .rwlock _ => [.guard, .cv]
  | .barrier .. => [.guard, .cv]

end Request

end MicrOsal.Creation
