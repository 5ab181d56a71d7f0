import MicrOsal.Core
import MicrOsal.Lib.Machine
import MicrOsal.Lib.Tally

/-!
# MicrOsal.NuttxCondvar.Model

The condition variables of the NuttX backend (`nuttx/nuttx_backend.cpp`): all waiters share one
counting semaphore, and a counter says how many of them there are. Every access to the counter,
every call of the semaphore and of the mutex is a step.

A permit of the semaphore is anonymous. `State.permits` lists the permits that nobody has taken,
each with what it was posted for, and so do the waits (`State.waits`) and the notifications
(`State.notes`) so far; no step depends on more of them than the number of permits.
-/

namespace MicrOsal.NuttxCondvar

/-- What has become of a wait. -/
inductive Wait
  | waiting
  /-- Out of the semaphore, with what the wait is going to return. -/
  | going (code : ErrorCode)
  | returned (code : ErrorCode)
  deriving DecidableEq, Repr

def Wait.pending (w : Wait) : Bool := w = .waiting

/-- It has been woken by a permit. -/
def Wait.succeeded (w : Wait) : Bool := w = .going .ok ∨ w = .returned .ok

/-- A call of `osal_condvar_notify_one` or `osal_condvar_notify_all`. -/
structure Note where
  all : Bool
  /-- The waits before this one had begun when it looked at `nwaiters`. -/
  horizon : Nat
  /-- Those that had not ended then. -/
  waiters : List Nat
  deriving DecidableEq, Repr

/-- What a permit was posted for: the waits before a horizon, or none in particular. -/
abbrev Permit := Option Nat

/-- The wait had begun when the permit's notification looked at `nwaiters`. -/
def Permit.admits (ticket : Nat) : Permit → Bool
  | none => true
  | some horizon => ticket < horizon

/-- A thread, between two of its steps. -/
inductive Thread
  /-- Outside; `last` is what the last call returned. -/
  | outside (last : Option ErrorCode)
  /-- `osal_condvar_wait`, counted in `nwaiters`: about to unlock the mutex. -/
  | joined (timed : Bool)
  /-- About to call `nxsem_wait` or `nxsem_clockwait`. -/
  | arrives (ticket : Nat) (timed : Bool)
  | blocked (ticket : Nat) (timed : Bool)
  /-- Out of the semaphore: about to leave `nwaiters`. -/
  | leaves (ticket : Nat) (code : ErrorCode)
  /-- About to lock the mutex again. -/
  | relocks (ticket : Nat) (code : ErrorCode)
  /-- `owed + spare` more calls of `nxsem_post`, for note `note`: `owed` for the waits it found. -/
  | posts (note owed spare : Nat)
  deriving DecidableEq, Repr

structure State where
  nwaiters : Nat
  permits : List Permit
  /-- Who has the mutex. -/
  owner : Option Nat
  threads : List Thread
  waits : List Wait
  notes : List Note
  /-- The wait and the permit, whenever one has taken the other. -/
  takes : List (Nat × Permit)
  deriving DecidableEq, Repr

inductive Action
  | spawn
  | lock (n : Nat)
  | unlock (n : Nat)
  | wait (n : Nat) (timed : Bool)
  | release (n : Nat)
  /-- The call of the semaphore, which takes permit `k` if there are any. -/
  | arrive (n k : Nat)
  | expire (n : Nat)
  | interrupt (n : Nat)
  | leave (n : Nat)
  | relock (n : Nat)
  | notify (n : Nat) (all : Bool)
  /-- A call of `nxsem_post`, for a wait it found or not, which wakes thread `m` if one is
  blocked. -/
  | post (n : Nat) (owed : Bool) (m : Option Nat)
  deriving DecidableEq, Repr

/-- It is in the semaphore, or about to call it. -/
def Thread.waits : Thread → Bool
  | .arrives _ _ | .blocked _ _ => true
  | _ => false

def Thread.isBlocked : Thread → Bool
  | .blocked _ _ => true
  | _ => false

/-- A thread that has `owed` and `spare` posts to make for a note. -/
def Thread.posting (note owed spare : Nat) : Thread :=
  if owed + spare = 0 then .outside (some .ok) else .posts note owed spare

namespace State

def setThread (s : State) (n : Nat) (th : Thread) : State :=
  { s with threads := s.threads.set n th }

def lock (s : State) (n : Nat) : Option State :=
  match s.threads[n]?, s.owner with
  | some (.outside _), none => some { s with owner := some n }
  | _, _ => none

def unlock (s : State) (n : Nat) : Option State :=
  match s.threads[n]? with
  | some (.outside _) => if s.owner = some n then some { s with owner := none } else none
  | _ => none

/-- `osal_condvar_wait`, by a thread that has the mutex. -/
def wait (s : State) (n : Nat) (timed : Bool) : Option State :=
  match s.threads[n]? with
  | some (.outside _) =>
      if s.owner = some n then
        some ({ s with nwaiters := s.nwaiters + 1 }.setThread n (.joined timed))
      else none
  | _ => none

/-- The mutex is unlocked: the wait has begun. -/
def release (s : State) (n : Nat) : Option State :=
  match s.threads[n]? with
  | some (.joined timed) =>
      some ({ s with
        owner := none
        waits := s.waits ++ [Wait.waiting] }.setThread n (.arrives s.waits.length timed))
  | _ => none

/-- The wait is out of the semaphore. -/
def settle (s : State) (n ticket : Nat) (code : ErrorCode) : State :=
  { s with waits := s.waits.set ticket (.going code) }.setThread n (.leaves ticket code)

def arrive (s : State) (n k : Nat) : Option State :=
  match s.threads[n]? with
  | some (.arrives ticket timed) =>
      if s.permits = [] then some (s.setThread n (.blocked ticket timed))
      else (s.permits[k]?).map (fun permit =>
        { s with
          permits := s.permits.eraseIdx k
          takes := s.takes ++ [(ticket, permit)] }.settle n ticket .ok)
  | _ => none

/-- `nxsem_clockwait` returns `-ETIMEDOUT`. -/
def expire (s : State) (n : Nat) : Option State :=
  match s.threads[n]? with
  | some (.blocked ticket true) => some (s.settle n ticket .timeout)
  | _ => none

/-- The call of the semaphore returns `-EINTR`; a wait without a timeout calls it again. -/
def interrupt (s : State) (n : Nat) : Option State :=
  match s.threads[n]? with
  | some (.blocked ticket true) => some (s.settle n ticket .unknown)
  | some (.blocked ticket false) => some (s.setThread n (.arrives ticket false))
  | _ => none

def leave (s : State) (n : Nat) : Option State :=
  match s.threads[n]? with
  | some (.leaves ticket code) =>
      some ({ s with nwaiters := s.nwaiters - 1 }.setThread n (.relocks ticket code))
  | _ => none

def relock (s : State) (n : Nat) : Option State :=
  match s.threads[n]?, s.owner with
  | some (.relocks ticket code), none =>
      some ({ s with
        owner := some n
        waits := s.waits.set ticket (.returned code) }.setThread n (.outside (some code)))
  | _, _ => none

/-- The waits that have not ended. -/
def waiters (s : State) : List Nat :=
  (List.range s.waits.length).filter (fun ticket => (s.waits[ticket]?).any Wait.pending)

/-- How often the notification posts. -/
def posts (s : State) (all : Bool) : Nat := if all then s.nwaiters else min s.nwaiters 1

/-- `osal_condvar_notify_one` and `osal_condvar_notify_all`: the load of `nwaiters`. -/
def notify (s : State) (n : Nat) (all : Bool) : Option State :=
  match s.threads[n]? with
  | some (.outside _) =>
      let owed := min s.waiters.length (s.posts all)
      some ({ s with
        notes := s.notes ++ [Note.mk all s.waits.length s.waiters] }.setThread n
          (.posting s.notes.length owed (s.posts all - owed)))
  | _ => none

/-- `nxsem_post` of a permit: a blocked thread has it at once. -/
def give (s : State) (permit : Permit) : Option Nat → Option State
  | none =>
      if s.threads.any Thread.isBlocked then none
      else some { s with permits := s.permits ++ [permit] }
  | some m =>
      match s.threads[m]? with
      | some (.blocked ticket _) =>
          some ({ s with takes := s.takes ++ [(ticket, permit)] }.settle m ticket .ok)
      | _ => none

/-- A permit that is posted for a note, and the waits it found or not. -/
def permitOf (s : State) (note : Nat) (owed : Bool) : Permit :=
  if owed then (s.notes[note]?).map Note.horizon else none

def post (s : State) (n : Nat) (owed : Bool) (m : Option Nat) : Option State :=
  match s.threads[n]?, owed with
  | some (.posts note (owed + 1) spare), true =>
      (s.setThread n (.posting note owed spare)).give (s.permitOf note true) m
  | some (.posts note owed (spare + 1)), false =>
      (s.setThread n (.posting note owed spare)).give (s.permitOf note false) m
  | _, _ => none

def step (s : State) : Action → Option State
  | .spawn => some { s with threads := s.threads ++ [.outside none] }
  | .lock n => s.lock n
  | .unlock n => s.unlock n
  | .wait n timed => s.wait n timed
  | .release n => s.release n
  | .arrive n k => s.arrive n k
  | .expire n => s.expire n
  | .interrupt n => s.interrupt n
  | .leave n => s.leave n
  | .relock n => s.relock n
  | .notify n all => s.notify n all
  | .post n owed m => s.post n owed m

end State

/-- A new condition variable, with its mutex. -/
def machine : Machine State Action where
  init := ⟨0, [], none, [], [], [], []⟩
  step := State.step

end MicrOsal.NuttxCondvar
