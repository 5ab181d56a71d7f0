import MicrOsal.Condvar.Model

/-!
# MicrOsal.Barrier.Model

The emulated barrier (`src/common/emulated_barrier.inl`): a mutex, an emulated
condition variable, a count of arrivals and a generation number.

`osal_barrier_wait` is on top of the condition variable's machine: its guard is
the user mutex of `cv`, and while it is inside `osal_condvar_wait` or
`osal_condvar_notify_all` it takes the steps of `cv`. The lock of the guard, the
arrival and the branch on the threshold are one step, since `arrived` and
`generation` are accessed with the guard held only.

`arrived` and `generation` are of type `unsigned`. `round` is the true number of
completed generations, `BarCall.round` the round a call arrived in, and
`returned` the results of the calls with their rounds; no step of the program
reads them.
-/

namespace MicrOsal

/-- `unsigned` is 32 bits wide; arithmetic on it wraps at this modulus. -/
def unsignedModulus : Nat := 2 ^ 32

/-- The result of `osal_condvar_wait`, if the next step of thread `n` is its last. -/
def CvState.waitResult (s : CvState) (n : Nat) : Option ErrorCode :=
  match s.threads n with
  | .register _ => if s.cv.claim s.nextTicket = none then some .outOfResources else none
  | .leave _ _ _ r => some r
  | _ => none

/-- The first or next step of thread `n` in `osal_condvar_notify_all`. -/
def CvState.notifyAllAct (s : CvState) (n : Nat) : CvAct :=
  if s.threads n = .idle then .notifyAll n else .step n false

/-- A call of `osal_barrier_wait` that has arrived. -/
structure BarCall where
  /-- The local `generation`. -/
  generation : Nat
  /-- Record: the true number of the generation. -/
  round : Nat
  deriving DecidableEq, Repr

/-- Where a thread is in `osal_barrier_wait`. -/
inductive BarThread
  | idle
  /-- At `while (generation == barrier->generation)`. -/
  | loop (call : BarCall)
  /-- In `osal_condvar_wait`. -/
  | waiting (call : BarCall)
  /-- The last to arrive: at or in `osal_condvar_notify_all`. -/
  | notify (call : BarCall)
  /-- About to unlock the guard and return `r`. -/
  | finish (call : BarCall) (r : ErrorCode)
  deriving DecidableEq, Repr

structure BarState where
  /-- `cv`, with `guard` as its user mutex. -/
  cv : CvState
  threshold : Nat
  arrived : Nat
  generation : Nat
  threads : List BarThread
  /-- Record: the number of completed generations. -/
  round : Nat
  /-- Record: the round and the result of the calls that have returned. -/
  returned : List (Nat × ErrorCode)

/-- What happens next. -/
inductive BarAct
  /-- An idle thread calls `osal_barrier_wait` and locks the guard. -/
  | wait (n : Nat)
  /-- Thread `n` takes its next step. -/
  | step (n : Nat)
  deriving DecidableEq, Repr

namespace BarState

/-- `osal_barrier_create`. -/
def create (threshold maxWaiters numThreads : Nat) : BarState where
  cv := .fresh maxWaiters
  threshold := threshold
  arrived := 0
  generation := 0
  threads := List.replicate numThreads .idle
  round := 0
  returned := []

/-- Thread `n` goes to `th`, and the condition variable to `cv`. -/
def move (s : BarState) (n : Nat) (cv : CvState) (th : BarThread) : BarState :=
  { s with cv := cv, threads := s.threads.set n th }

/-- `osal_barrier_wait` up to the branch on the threshold, with the guard just
locked. -/
def arrive (s : BarState) (n : Nat) (cv : CvState) : BarState :=
  let call : BarCall := ⟨s.generation, s.round⟩
  let arrived := (s.arrived + 1) % unsignedModulus
  if arrived = s.threshold then
    { s with
      cv := cv
      arrived := 0
      generation := (s.generation + 1) % unsignedModulus
      round := s.round + 1
      threads := s.threads.set n (.notify call) }
  else { s with cv := cv, arrived := arrived, threads := s.threads.set n (.loop call) }

/-- The next step of thread `n`. -/
def advance (s : BarState) (n : Nat) : BarThread → Option BarState
  | .idle => none
  | .loop call =>
      if call.generation = s.generation then
        (s.cv.next (.wait n false)).map (fun cv => s.move n cv (.waiting call))
      else some (s.move n s.cv (.finish call .ok))
  | .waiting call =>
      (s.cv.next (.step n false)).map (fun cv =>
        match s.cv.waitResult n with
        | none => s.move n cv (.waiting call)
        | some .ok => s.move n cv (.loop call)
        | some r => s.move n cv (.finish call r))
  | .notify call =>
      -- `osal_condvar_notify_all` is done when the thread is back from it.
      (s.cv.next (s.cv.notifyAllAct n)).map (fun cv =>
        s.move n cv (if cv.threads n = .idle then .finish call .barrierSerial else .notify call))
  | .finish call r =>
      (s.cv.next (.unlock n)).map (fun cv =>
        { s.move n cv .idle with returned := (call.round, r) :: s.returned })

/-- One step of the system. -/
def next (s : BarState) : BarAct → Option BarState
  | .wait n =>
      if s.threads[n]? = some .idle then (s.cv.next (.lock n)).map (s.arrive n) else none
  | .step n => (s.threads[n]?).bind (s.advance n)

end BarState

/-- A barrier for `threshold` threads whose condition variable has `maxWaiters`
slots, used by `numThreads` threads. -/
def barrierMachine (threshold maxWaiters numThreads : Nat) : Machine BarState BarAct where
  init := .create threshold maxWaiters numThreads
  step := BarState.next

end MicrOsal
