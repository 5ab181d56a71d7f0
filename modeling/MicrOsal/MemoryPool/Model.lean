import MicrOsal.Core
import MicrOsal.Lib.Machine
import MicrOsal.Lib.SlotBitmap

/-!
# MicrOsal.MemoryPool.Model

The emulated memory pool (`src/common/emulated_memory_pool.inl`): blocks of one size in a
buffer of the caller's, a bitmap with a bit for every block, a count of free blocks and a
counting semaphore.

Any number of threads allocate and deallocate. `bitmap` and `available` are accessed with
`guard` held only, so a locked region is one step; the semaphore operations before and
after it are steps of their own. A pointer is its address, and the null pointer is address
zero. Whether a timed `osal_semaphore_take` gives up is decided by the action; it does so
only without a token.

`live` and `frees` are a record of what the calls returned; no step of the program reads
them.
-/

namespace MicrOsal

/-! ### The object -/

/-- What the build configures. -/
structure MpConfig where
  /-- `OSAL_EMULATED_MPOOL_MAX_BLOCKS`. -/
  maxBlocks : Nat
  /-- `OSAL_EMULATED_MPOOL_MAX_BLOCKS + 31U` does not wrap. -/
  fits : maxBlocks + 31 < 2 ^ 32

/-- `kMpoolBitmapWords`. -/
def MpConfig.bitmapWords (cfg : MpConfig) : Nat := (cfg.maxBlocks + 31) / 32

/-- `emulated_pool_obj`; `sem` and `semMax` are the count and the limit of the semaphore. -/
structure EmulatedPoolObj where
  buffer : Nat
  blockSize : Nat
  blockCount : Nat
  bitmap : Nat → BitVec 32
  bitmapWords : Nat
  available : Nat
  sem : Nat
  semMax : Nat

/-- `osal_memory_pool_create` with a handle; whether a pool object is free and whether the
mutex and the semaphore can be created is up to the environment. -/
def osalMemoryPoolCreate (cfg : MpConfig) (buffer bufBytes blockSize blockCount : Nat)
    (acquired mutexCreated semCreated : Bool) : ErrorCode × Option EmulatedPoolObj :=
  if buffer = 0 ∨ blockSize = 0 ∨ blockCount = 0 then (.invalidArgument, none)
  else if blockCount > bufBytes / blockSize then (.invalidArgument, none)
  else if acquired = false then (.outOfResources, none)
  else
    let words := (blockCount + 31) % sizeModulus / 32
    if words > cfg.bitmapWords then (.invalidArgument, none)
    else if mutexCreated = false then (.outOfResources, none)
    else if semCreated = false then (.outOfResources, none)
    else
      (.ok, some {
        buffer := buffer
        blockSize := blockSize
        blockCount := blockCount
        bitmap := fun _ => 0
        bitmapWords := words
        available := blockCount
        sem := blockCount % 2 ^ 32
        semMax := blockCount % 2 ^ 32 })

namespace EmulatedPoolObj

/-- `pool_bitmap_word_mask`, for a word that holds a block. -/
def bitmapWordMask (p : EmulatedPoolObj) (word : Nat) : BitVec 32 :=
  let remaining := p.blockCount - word * 32
  if remaining ≥ 32 then 0xFFFFFFFF#32 else (1#32 <<< remaining) - 1#32

/-- `free_mask` in `pool_bitmap_alloc`. -/
def freeMask (p : EmulatedPoolObj) (word : Nat) : BitVec 32 :=
  ~~~p.bitmap word &&& p.bitmapWordMask word

/-- `pool_bitmap_alloc`. -/
def bitmapAlloc (p : EmulatedPoolObj) : Nat × EmulatedPoolObj :=
  match (List.range p.bitmapWords).find? (fun word => decide (p.freeMask word ≠ 0#32)) with
  | none => (p.blockCount, p)
  | some word =>
      let b := (p.freeMask word).ctz.toNat
      (word * 32 + b, { p with
        bitmap := Function.update p.bitmap word (p.bitmap word ||| 1#32 <<< b)
        available := sizeDecr p.available })

/-- `pool_bitmap_free`. -/
def bitmapFree (p : EmulatedPoolObj) (idx : Nat) : EmulatedPoolObj :=
  { p with
    bitmap := Function.update p.bitmap (idx / 32) (p.bitmap (idx / 32) &&& ~~~(1#32 <<< (idx % 32)))
    available := (p.available + 1) % sizeModulus }

/-- The test for a double free. -/
def isAllocated (p : EmulatedPoolObj) (idx : Nat) : Bool :=
  decide (p.bitmap (idx / 32) &&& (1#32 <<< (idx % 32)) ≠ 0#32)

/-- `osal_semaphore_give`. -/
def give (p : EmulatedPoolObj) : ErrorCode × EmulatedPoolObj :=
  if p.sem < p.semMax then (.ok, { p with sem := p.sem + 1 }) else (.overflow, p)

/-- `pool->buffer + idx * pool->block_size`. -/
def address (p : EmulatedPoolObj) (idx : Nat) : Nat := p.buffer + idx * p.blockSize

/-- The checks of `osal_memory_pool_deallocate` before the lock: `idx`, if they pass. -/
def blockIndex (p : EmulatedPoolObj) (block : Nat) : Option Nat :=
  if block = 0 then none
  else
    let poolBytes := p.blockCount * p.blockSize % sizeModulus
    if block < p.buffer ∨ block - p.buffer ≥ poolBytes then none
    else if (block - p.buffer) % p.blockSize ≠ 0 then none
    else some ((block - p.buffer) / p.blockSize)

end EmulatedPoolObj

/-! ### Threads -/

/-- Where a thread is. -/
inductive MpThread
  | idle
  /-- In the `osal_semaphore_take` of `allocate_timed`. -/
  | take
  /-- Has taken a token, before the locked region of `allocate` or `allocate_timed`. -/
  | claim
  /-- Has found no free block after all: before the `osal_semaphore_give`. -/
  | giveBack
  /-- Before the locked region of `deallocate`. -/
  | free (block idx : Nat)
  /-- Before the `osal_semaphore_give` of `deallocate`. -/
  | give
  deriving DecidableEq, Repr

/-- Record of an `osal_memory_pool_deallocate`: its pointer, whether a block at that address
was allocated then, its result, and the pool before and after its locked region (for a
pointer that is refused without a lock, when it was refused). -/
structure MpFree where
  block : Nat
  wasLive : Bool
  code : ErrorCode
  before : EmulatedPoolObj
  after : EmulatedPoolObj

structure MpState where
  pool : EmulatedPoolObj
  threads : List MpThread
  /-- Record: the pointers that have been returned and not been freed. -/
  live : List Nat
  /-- Record. -/
  frees : List MpFree

/-- What happens next. -/
inductive MpAct
  | allocate (n : Nat)
  | allocateTimed (n : Nat)
  | deallocate (n block : Nat)
  /-- Thread `n` goes on. -/
  | step (n : Nat) (timedOut : Bool)
  deriving DecidableEq, Repr

namespace MpState

def create (pool : EmulatedPoolObj) (numThreads : Nat) : MpState where
  pool := pool
  threads := List.replicate numThreads .idle
  live := []
  frees := []

def setThread (s : MpState) (n : Nat) (th : MpThread) : MpState :=
  { s with threads := s.threads.set n th }

/-- The semaphore has been asked for a token: the caller has it and goes to the locked
region, or there is none and it returns a null pointer. -/
def tryTake (s : MpState) (n : Nat) : MpState :=
  if s.pool.sem = 0 then s.setThread n .idle
  else { s with pool := { s.pool with sem := s.pool.sem - 1 } }.setThread n .claim

/-- A `deallocate` of `block` has its result. -/
def freeReturn (s : MpState) (block : Nat) (code : ErrorCode) (after : EmulatedPoolObj) : MpState :=
  { s with
    pool := after
    live := if code = .ok then s.live.erase block else s.live
    frees := ⟨block, decide (block ∈ s.live), code, s.pool, after⟩ :: s.frees }

/-- The next step of thread `n`. -/
def advance (s : MpState) (n : Nat) (timedOut : Bool) : MpThread → Option MpState
  | .idle => none
  | .take =>
      if s.pool.sem = 0 ∧ timedOut = false then none
      else some (s.tryTake n)
  | .claim =>
      let (idx, pool) := s.pool.bitmapAlloc
      if idx ≥ pool.blockCount then some ({ s with pool := pool }.setThread n .giveBack)
      else
        some ({ s with
          pool := pool
          live := pool.address idx :: s.live }.setThread n .idle)
  | .giveBack => some ({ s with pool := s.pool.give.2 }.setThread n .idle)
  | .free block idx =>
      if s.pool.isAllocated idx then
        some ((s.freeReturn block .ok (s.pool.bitmapFree idx)).setThread n .give)
      else some ((s.freeReturn block .invalidArgument s.pool).setThread n .idle)
  | .give => some ({ s with pool := s.pool.give.2 }.setThread n .idle)

/-- One step of the system. -/
def next (s : MpState) : MpAct → Option MpState
  | .allocate n => if s.threads[n]? = some .idle then some (s.tryTake n) else none
  | .allocateTimed n => if s.threads[n]? = some .idle then some (s.setThread n .take) else none
  | .deallocate n block =>
      if s.threads[n]? = some .idle then
        match s.pool.blockIndex block with
        | none => some (s.freeReturn block .invalidArgument s.pool)
        | some idx => some (s.setThread n (.free block idx))
      else none
  | .step n timedOut => (s.threads[n]?).bind (s.advance n timedOut)

end MpState

/-- A memory pool, used by `numThreads` threads. -/
def memoryPoolMachine (pool : EmulatedPoolObj) (numThreads : Nat) : Machine MpState MpAct where
  init := .create pool numThreads
  step := MpState.next

end MicrOsal
