import MicrOsal.Core
import MicrOsal.Lib.Machine
import MicrOsal.Lib.Tally

/-!
# MicrOsal.Semaphore.Model

Semaphores with a bound on top of native ones without
(`common/posix/posix_bounded_semaphore.inl`, and the same idea in the NuttX, embOS,
Micrium and CMSIS-RTOS v1 backends).

An atomic counter shadows the native count. A give first moves the counter up, if it is
below the maximum, and then posts; a take first has its native wait return, and then moves
the counter down. Every access to either of them is one step here.

The backends differ in how often the compare-exchange is tried and in what they make of
native failures (`Backend`).
-/

namespace MicrOsal.Semaphore

/-- `--` on an `unsigned`. -/
def unsignedDecr (n : Nat) : Nat := if n = 0 then 2 ^ 32 - 1 else n - 1

/-- The timeout argument of `osal_semaphore_take`. -/
inductive Timeout
  | forever
  | noWait
  | timed
  deriving DecidableEq, Repr

/-- Why a native wait returned without a permit. -/
inductive WaitFailure
  | interrupted
  | timedOut
  | failed
  deriving DecidableEq, Repr

/-- What a backend makes of its native calls. -/
structure Backend where
  /-- How often the reservation tries, if there is a limit. -/
  attempts : Option Nat
  /-- What a give returns whose native post failed; the argument tells whether because of the
  native maximum. `none` for a post that cannot fail. -/
  postError : Bool → Option ErrorCode
  /-- What a take returns whose native wait failed; `none` when it waits again. -/
  waitError : Timeout → WaitFailure → Option ErrorCode

/-! ### The backends -/

/-- `bounded_sem_post`, and `osal_semaphore_take` of the Linux and POSIX backends. -/
def posix : Backend where
  attempts := none
  postError overflow := some (if overflow then .overflow else .unknown)
  waitError
    | .forever, .interrupted => none
    | .forever, _ => some .unknown
    | .noWait, _ => some .wouldBlock
    | .timed, .interrupted => none
    | .timed, .timedOut => some .timeout
    | .timed, .failed => some .unknown

/-- The attempts of `reserve`, in all backends that have it. -/
def reserveAttempts : Nat := 32

def nuttx : Backend where
  attempts := some reserveAttempts
  postError _ := some .unknown
  waitError
    | .forever, .interrupted => none
    | .forever, _ => some .unknown
    | .noWait, _ => some .wouldBlock
    | .timed, .timedOut => some .timeout
    | .timed, _ => some .unknown

/-- `OS_SEMAPHORE_Give` and `OS_SEMAPHORE_Take` return nothing. -/
def embos : Backend where
  attempts := some reserveAttempts
  postError _ := none
  waitError
    | .forever, _ => none
    | .noWait, _ => some .wouldBlock
    | .timed, _ => some .timeout

def micrium : Backend where
  attempts := some reserveAttempts
  postError _ := some .overflow
  waitError
    | .noWait, .timedOut => some .wouldBlock
    | _, .timedOut => some .timeout
    | _, _ => some .unknown

def cmsisRtos : Backend where
  attempts := some reserveAttempts
  postError _ := some .unknown
  waitError
    | .noWait, _ => some .wouldBlock
    | _, _ => some .timeout

/-! ### State -/

/-- Where a thread is. -/
inductive Thread
  /-- Outside; `last` is what its last call returned. -/
  | idle (last : Option ErrorCode)
  /-- `give`: about to load the counter. -/
  | load
  /-- `give`: has read `value`, below the maximum, and is about to exchange it. -/
  | cas (value attempt : Nat)
  /-- `give`: has its reservation, about to post. -/
  | post
  /-- `give`: the post has failed, about to move the counter back. -/
  | rollback (code : ErrorCode)
  /-- `take`: in the native wait. -/
  | wait (timeout : Timeout)
  /-- `take`: has a permit, about to move the counter. -/
  | decrement
  deriving DecidableEq, Repr

/-- A semaphore and its users. -/
structure State where
  /-- The native count. -/
  value : Nat
  /-- The counter. -/
  count : Nat
  threads : List Thread
  deriving DecidableEq, Repr

/-- What the environment decides in one step. -/
structure Env where
  /-- `compare_exchange_weak` fails although the values agree. -/
  spurious : Bool
  /-- The native post fails; the value tells whether because of the native maximum. -/
  post : Option Bool
  /-- The native wait fails. -/
  wait : Option WaitFailure
  deriving DecidableEq, Repr

/-- `max_count`, and the largest count of the native semaphore. -/
structure Limits where
  maximum : Nat
  native : Nat
  deriving DecidableEq, Repr

inductive Action
  | spawn
  | give (n : Nat)
  | take (n : Nat) (timeout : Timeout)
  /-- Thread `n` takes the next step of its call. -/
  | advance (n : Nat) (env : Env)
  deriving DecidableEq, Repr

namespace State

def setThread (s : State) (n : Nat) (th : Thread) : State :=
  { s with threads := s.threads.set n th }

/-- The counter has been read: the head of the reservation loop. -/
def check (s : State) (lim : Limits) (n attempt : Nat) : State :=
  if lim.maximum ≤ s.count then s.setThread n (.idle (some .overflow))
  else s.setThread n (.cas s.count attempt)

/-- `compare_exchange_weak` on the counter, and what follows. -/
def reserve (s : State) (b : Backend) (lim : Limits) (n value attempt : Nat) (spurious : Bool) :
    State :=
  if s.count = value ∧ ¬ spurious then { s with count := value + 1 }.setThread n .post
  else if b.attempts = some (attempt + 1) then s.setThread n (.idle (some .wouldBlock))
  else s.check lim n (attempt + 1)

/-- The native post. It fails at the native maximum, and there only for that reason. -/
def post (s : State) (b : Backend) (lim : Limits) (n : Nat) : Option Bool → Option State
  | none =>
      if s.value < lim.native then
        some ({ s with value := s.value + 1 }.setThread n (.idle (some .ok)))
      else none
  | some overflow =>
      if overflow ∧ s.value < lim.native then none
      else (b.postError overflow).map (fun code => s.setThread n (.rollback code))

/-- The native wait. -/
def wait (s : State) (b : Backend) (n : Nat) (timeout : Timeout) :
    Option WaitFailure → Option State
  | none =>
      if 0 < s.value then some ({ s with value := s.value - 1 }.setThread n .decrement) else none
  | some failure =>
      match b.waitError timeout failure with
      | none => some s
      | some code => some (s.setThread n (.idle (some code)))

/-- The next step of thread `n`. -/
def advance (s : State) (b : Backend) (lim : Limits) (n : Nat) (env : Env) :
    Thread → Option State
  | .idle _ => none
  | .load => some (s.check lim n 0)
  | .cas value attempt => some (s.reserve b lim n value attempt env.spurious)
  | .post => s.post b lim n env.post
  | .rollback code =>
      some ({ s with count := unsignedDecr s.count }.setThread n (.idle (some code)))
  | .wait timeout => s.wait b n timeout env.wait
  | .decrement =>
      some ({ s with count := unsignedDecr s.count }.setThread n (.idle (some .ok)))

/-- A call by thread `n`, which then is at `th`. -/
def call (s : State) (n : Nat) (th : Thread) : Option State :=
  match s.threads[n]? with
  | some (.idle _) => some (s.setThread n th)
  | _ => none

def step (b : Backend) (lim : Limits) (s : State) : Action → Option State
  | .spawn => some { s with threads := s.threads ++ [.idle none] }
  | .give n => s.call n .load
  | .take n timeout => s.call n (.wait timeout)
  | .advance n env => (s.threads[n]?).bind (s.advance b lim n env)

end State

/-- A new semaphore and its users. -/
def semaphoreMachine (b : Backend) (lim : Limits) (initial : Nat) : Machine State Action where
  init := ⟨initial, initial, []⟩
  step := State.step b lim

end MicrOsal.Semaphore
