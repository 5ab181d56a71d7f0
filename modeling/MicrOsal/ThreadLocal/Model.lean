import MicrOsal.Core
import MicrOsal.Lib.Machine
import MicrOsal.Lib.Tally

/-!
# MicrOsal.ThreadLocal.Model

`thread_local_data` over `tls_registry` and `tls_storage`
(`include/osal/thread_local_data.hpp`): the emulated mode.

An object owns a key, a bit of a shared mask. Every thread has one pointer per key, and with
it the generation of the key at the time it was stored; a pointer of another generation is
not returned. `acquire` and `release` change bit and generation in two steps, in this order.

Each atomic access is one step. The pointers of a thread are its own, so storing them goes
with the step after which they are used.
-/

namespace MicrOsal.ThreadLocal

/-- A generation is a `std::uint32_t`. -/
def generationModulus : Nat := 2 ^ 32

/-- Where a thread is. -/
inductive Pc
  | idle
  /-- `acquire`: about to load the mask for key `idx`. -/
  | load (idx : Nat)
  /-- `acquire`: key `idx` is free in `expected`, about to exchange the mask. -/
  | cas (idx : Nat) (expected : BitVec 32)
  /-- `acquire`: has the bit, about to count the generation. -/
  | acquired (key : Nat)
  /-- `set` through object `o`: has read the generation, about to store. -/
  | setting (o : Nat) (value : Option Nat) (gen : Nat)
  /-- `release`: about to clear the bit. -/
  | release (key : Nat)
  /-- `release`: about to count the generation. -/
  | released (key : Nat)
  deriving DecidableEq, Repr

/-- A thread, with its `values_` and `generations_seen_`. A pointer is `none` when it is
null. -/
structure Thread where
  pc : Pc
  values : Nat → Option Nat
  seen : Nat → Nat

/-- The thread is in a call on object `o`. -/
def Thread.uses (o : Nat) (th : Thread) : Bool :=
  match th.pc with
  | .setting o' _ _ => o' = o
  | _ => false

/-- `thread_local_data`. -/
structure Object where
  /-- `key_`, when `valid_`. -/
  key : Option Nat
  /-- Constructed, and its destructor has not been called. -/
  live : Bool
  deriving DecidableEq, Repr

/-- What has happened: thread `n` has set `value` through object `o`. -/
structure Event where
  n : Nat
  o : Nat
  value : Option Nat
  deriving DecidableEq, Repr

structure State where
  /-- `used_mask`. -/
  mask : BitVec 32
  /-- How often each generation has been counted. -/
  bumps : Nat → Nat
  objects : List Object
  threads : List Thread
  /-- The record of the run. No step of the program reads it. -/
  log : List Event

inductive Action
  /-- A thread comes into being. -/
  | spawn
  /-- Thread `n` constructs an object. -/
  | construct (n : Nat)
  /-- Thread `n` destroys object `o`. -/
  | destroy (n o : Nat)
  /-- `o.set(value)`. -/
  | set (n o : Nat) (value : Option Nat)
  /-- Thread `n` takes the next step of its call; `spurious` makes a compare-exchange fail
  although the values agree. -/
  | advance (n : Nat) (spurious : Bool)
  deriving DecidableEq, Repr

namespace State

/-- `generation`. -/
def generation (s : State) (key : Nat) : Nat := s.bumps key % generationModulus

/-- `tls_storage::get` in a thread. -/
def get (s : State) (th : Thread) (key : Nat) : Option Nat :=
  if th.seen key = s.generation key then th.values key else none

/-- The key of a live object. -/
def keyOf (s : State) (o : Nat) : Option Nat :=
  (s.objects[o]?).bind (fun obj => if obj.live then obj.key else none)

def setPc (s : State) (n : Nat) (th : Thread) (pc : Pc) : State :=
  { s with threads := s.threads.set n { th with pc := pc } }

def bump (s : State) (key : Nat) : State :=
  { s with bumps := Function.update s.bumps key (s.bumps key + 1) }

/-- `acquire` returns, and with it the constructor. -/
def constructed (s : State) (n : Nat) (th : Thread) (key : Option Nat) : State :=
  State.setPc { s with objects := s.objects ++ [⟨key, true⟩] } n th .idle

/-- The keys that `acquire` tries. -/
def limit (maxKeys : Nat) : Nat := if 32 ≤ maxKeys then 32 else maxKeys

/-- The head of the loop of `acquire`. -/
def tryKey (s : State) (maxKeys n : Nat) (th : Thread) (idx : Nat) : State :=
  if idx < limit maxKeys then s.setPc n th (.load idx) else s.constructed n th none

/-- `acquire` has read the mask. -/
def check (s : State) (maxKeys n : Nat) (th : Thread) (idx : Nat) : State :=
  if s.mask.getLsbD idx then s.tryKey maxKeys n th (idx + 1)
  else s.setPc n th (.cas idx s.mask)

/-- The bit of a key. -/
def bit (key : Nat) : BitVec 32 := 1#32 <<< key

/-- The next step of thread `n`. -/
def advance (s : State) (maxKeys n : Nat) (spurious : Bool) (th : Thread) : Option State :=
  match th.pc with
  | .idle => none
  | .load idx => some (s.check maxKeys n th idx)
  | .cas idx expected =>
      if s.mask = expected ∧ ¬ spurious then
        some ({ s with mask := expected ||| bit idx }.setPc n th (.acquired idx))
      else some (s.check maxKeys n th idx)
  | .acquired key => some ((s.bump key).constructed n th (some key))
  | .setting o value gen => do
      let key ← s.keyOf o
      some { s with
        threads := s.threads.set n
          ⟨.idle, Function.update th.values key value, Function.update th.seen key gen⟩
        log := s.log ++ [⟨n, o, value⟩] }
  | .release key => some ({ s with mask := s.mask &&& ~~~ bit key }.setPc n th (.released key))
  | .released key => some ((s.bump key).setPc n th .idle)

/-- A call by thread `n`. -/
def call (s : State) (n : Nat) (f : Thread → Option State) : Option State := do
  let th ← s.threads[n]?
  if th.pc = .idle then f th else none

/-- The destructor. It is not called while a call on the object is running. -/
def destroy (s : State) (n o : Nat) (th : Thread) : Option State := do
  let obj ← s.objects[o]?
  if ¬ obj.live ∨ s.threads.any (Thread.uses o) then none
  else
    let s' := { s with objects := s.objects.set o { obj with live := false } }
    match obj.key with
    | none => some s'
    | some key => some (s'.setPc n th (.release key))

/-- `o.set(value)`, up to its load of the generation. An object without a key refuses. -/
def set (s : State) (n o : Nat) (value : Option Nat) (th : Thread) : Option State := do
  let obj ← s.objects[o]?
  if ¬ obj.live then none
  else
    match obj.key with
    | none => some s
    | some key => some (s.setPc n th (.setting o value (s.generation key)))

def step (maxKeys : Nat) (s : State) : Action → Option State
  | .spawn => some { s with threads := s.threads ++ [⟨.idle, fun _ => none, fun _ => 0⟩] }
  | .construct n => s.call n (fun th => some (s.tryKey maxKeys n th 0))
  | .destroy n o => s.call n (s.destroy n o)
  | .set n o value => s.call n (s.set n o value)
  | .advance n spurious => (s.threads[n]?).bind (s.advance maxKeys n spurious)

end State

/-- The registry, with `k_max_keys` keys, and its users. -/
def tlsMachine (maxKeys : Nat) : Machine State Action where
  init := ⟨0, fun _ => 0, [], [], []⟩
  step := State.step maxKeys

end MicrOsal.ThreadLocal
