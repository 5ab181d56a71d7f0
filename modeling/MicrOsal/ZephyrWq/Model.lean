import MicrOsal.Core
import MicrOsal.Lib.Machine
import MicrOsal.Lib.Tally

/-!
# MicrOsal.ZephyrWq.Model

The work queue of the Zephyr backend (`zephyr/zephyr_backend.cpp`): a pool of entries, each with a
`k_work` of its own, over one `k_work_q`.

`in_use` is stored under the spinlock of the queue and nowhere else, so a section under that lock
with at most one call of the kernel is one step; `cancel_all` calls the kernel once per entry, and
holds the lock for as many steps. The kernel keeps its flags under a lock of its own: the worker
thread takes an entry from the list, and clears its flags, whoever has the spinlock.

The submissions that were accepted (`State.jobs`) are numbered. What became of them, and what the
calls of `submit` returned, is recorded; no step reads it.
-/

namespace MicrOsal.ZephyrWq

/-- `zephyr_wq_entry`, with the flags of its `k_work`. -/
structure Entry where
  /-- `nullptr` in the entry of a sentinel. -/
  func : Option Nat
  arg : Nat
  inUse : Bool
  /-- Zero in the entry of a submission. -/
  marker : Nat
  queued : Bool
  running : Bool
  canceling : Bool
  /-- The number of the submission it was filled for. -/
  job : Nat
  deriving DecidableEq, Repr

/-- The thread of the queue, between two of its steps. -/
inductive Worker
  | idle
  /-- It has taken entry `k` from the list, and is about to call the handler. -/
  | taken (k : Nat)
  /-- The handler has read the entry, and is about to call the function, if there is one. -/
  | fetched (k : Nat) (func : Option Nat) (arg marker job : Nat)
  /-- The handler has called the function. -/
  | called (k marker : Nat)
  /-- The handler has given back the entry: the kernel is about to clear the flags. -/
  | stored (k : Nat)
  deriving DecidableEq, Repr

/-- The thread that has `flush_mutex`. -/
inductive Flusher
  /-- There is none; `last` is what the last flush returned. -/
  | idle (last : Option ErrorCode)
  | locked
  | checks (marker : Nat)
  | takes (marker : Nat)
  deriving DecidableEq, Repr

/-- A call of the function of a submission. -/
structure Call where
  job : Nat
  func : Nat
  arg : Nat
  deriving DecidableEq, Repr

/-- What a `submit` returned, and whether all entries were in use. -/
structure Answer where
  code : ErrorCode
  full : Bool
  deriving DecidableEq, Repr

structure State where
  /-- As many as the capacity. -/
  entries : List Entry
  /-- The list of the `k_work_q`. -/
  pending : List Nat
  worker : Worker
  /-- The entry that `cancel_all` comes to next; it holds the spinlock. -/
  cancelling : Option Nat
  nextMarker : Nat
  completedMarker : Nat
  /-- The count of `flush_sem`, which is binary. -/
  flushSem : Bool
  flusher : Flusher
  /-- Function and argument of the submissions that were accepted. -/
  jobs : List (Nat × Nat)
  calls : List Call
  /-- The submissions that a `cancel_all` removed. -/
  removed : List Nat
  answers : List Answer
  deriving DecidableEq, Repr

inductive Action
  | submit (func : Option Nat) (arg : Nat)
  /-- `flush` has the mutex. -/
  | flush
  /-- It submits the sentinel. -/
  | place
  | check
  | take
  | expire
  | cancelAll
  /-- `cancel_all` goes on to the next entry, or unlocks the spinlock after the last. -/
  | cancelNext
  /-- The worker thread. -/
  | work
  deriving DecidableEq, Repr

/-! ### The kernel -/

/-- `k_work_submit_to_queue` on a queue that is not plugged, where it has effect. -/
def Entry.workSubmit (e : Entry) : Entry := { e with queued := true }

/-- The flags that `k_work_cancel` returns. -/
def Entry.busy (e : Entry) : Bool := e.running || e.canceling

/-- `k_work_cancel`: what is still running is marked. -/
def Entry.workCancel (e : Entry) : Entry := { e with queued := false, canceling := e.busy }

/-- What is submitted joins the list, unless it is in it. -/
def State.join (s : State) (k : Nat) (e : Entry) : List Nat :=
  if e.queued then s.pending else s.pending ++ [k]

/-- What is cancelled leaves the list, if it is in it. -/
def State.leave (s : State) (k : Nat) (e : Entry) : List Nat :=
  if e.queued then s.pending.erase k else s.pending

/-! ### The entries -/

/-- The submission that an entry stands for. -/
def Entry.submission (e : Entry) : Option Nat := e.func.map (fun _ => e.job)

/-- The entry after the compare-exchange and the stores of `submit` and `flush`. -/
def Entry.fill (e : Entry) (func : Option Nat) (arg marker job : Nat) : Entry :=
  { e with func := func, arg := arg, inUse := true, marker := marker, job := job }

namespace State

def setEntry (s : State) (k : Nat) (e : Entry) : State := { s with entries := s.entries.set k e }

/-- The entry that the compare-exchange succeeds on. -/
def findFree (s : State) : Option Nat := s.entries.findIdx? (fun e => ! e.inUse)

def full (s : State) : Bool := s.entries.all Entry.inUse

/-- The part that `submit` and `flush` have in common, and whether the kernel took the work. -/
def enqueue (s : State) (k : Nat) (e : Entry) (func : Option Nat) (arg marker : Nat) :
    Bool × State :=
  if e.canceling then
    (false, s.setEntry k { e.fill func arg marker s.jobs.length with inUse := false })
  else
    (true, { s with pending := s.join k e }.setEntry k
      (e.fill func arg marker s.jobs.length).workSubmit)

/-- `osal_work_queue_submit`, with a function. -/
def submit (s : State) (func arg : Nat) : ErrorCode × State :=
  match s.findFree with
  | none => (.overflow, s)
  | some k =>
      match s.entries[k]? with
      | none => (.overflow, s)
      | some e =>
          match s.enqueue k e (some func) arg 0 with
          | (false, s') => (.unknown, s')
          | (true, s') => (.ok, { s' with jobs := s'.jobs ++ [(func, arg)] })

/-- `++wq->next_marker`, 64 bits wide. -/
def marker (s : State) : Nat := (s.nextMarker + 1) % 2 ^ 64

/-- The sentinel of `osal_work_queue_flush`. -/
def place (s : State) : State :=
  match s.findFree with
  | none => { s with flusher := .idle (some .overflow) }
  | some k =>
      match s.entries[k]? with
      | none => { s with flusher := .idle (some .overflow) }
      | some e =>
          match { s with nextMarker := s.marker }.enqueue k e none 0 s.marker with
          | (false, s') => { s' with flusher := .idle (some .unknown) }
          | (true, s') =>
              if s.marker = 0 then { s' with flusher := .idle (some .overflow) }
              else { s' with flusher := .checks s.marker }

/-- The loop of `flush`. -/
def check (s : State) : Option State :=
  match s.flusher with
  | .checks marker =>
      if marker ≤ s.completedMarker then some { s with flusher := .idle (some .ok) }
      else some { s with flusher := .takes marker }
  | _ => none

/-- `k_sem_take` of `flush_sem` succeeds. -/
def take (s : State) : Option State :=
  match s.flusher with
  | .takes marker =>
      if s.flushSem then some { s with flushSem := false, flusher := .checks marker } else none
  | _ => none

/-- `k_sem_take` of `flush_sem` comes to the deadline. -/
def expire (s : State) : Option State :=
  match s.flusher with
  | .takes _ => if s.flushSem then none else some { s with flusher := .idle (some .timeout) }
  | _ => none

/-- `osal_work_queue_cancel_all`, for an entry that is in use for a submission. -/
def cancelEntry (s : State) (k : Nat) (e : Entry) : State :=
  { s with
    pending := s.leave k e
    removed := s.removed ++ (if e.queued then e.submission.toList else []) }.setEntry k
      { e.workCancel with inUse := e.busy }

def cancelNext (s : State) : Option State :=
  match s.cancelling with
  | none => none
  | some k =>
      match s.entries[k]? with
      | none => some { s with cancelling := none }
      | some e =>
          if e.inUse && e.marker = 0 then
            some { s.cancelEntry k e with cancelling := some (k + 1) }
          else some { s with cancelling := some (k + 1) }

/-- The worker takes the first entry of the list. -/
def dequeue (s : State) : Option State :=
  match s.pending with
  | [] => none
  | k :: rest =>
      (s.entries[k]?).map (fun e =>
        { s with pending := rest, worker := .taken k }.setEntry k
          { e with queued := false, running := true })

/-- The first section of `zephyr_wq_handler`. -/
def fetch (s : State) (k : Nat) : Option State :=
  (s.entries[k]?).map (fun e =>
    { s with worker := .fetched k e.func e.arg e.marker e.job })

/-- `func(arg)`. -/
def call (s : State) (k : Nat) (func : Option Nat) (arg marker job : Nat) : State :=
  { s with
    worker := .called k marker
    calls := s.calls ++ (func.map (fun f => Call.mk job f arg)).toList }

/-- The second section of `zephyr_wq_handler`. -/
def store (s : State) (k marker : Nat) : Option State :=
  (s.entries[k]?).map (fun e =>
    { s with
      completedMarker := if marker = 0 then s.completedMarker else marker
      flushSem := s.flushSem || marker ≠ 0
      worker := .stored k }.setEntry k { e with inUse := false })

/-- The handler has returned: the kernel clears the flags. -/
def finish (s : State) (k : Nat) : Option State :=
  (s.entries[k]?).map (fun e =>
    { s with worker := .idle }.setEntry k { e with running := false, canceling := false })

/-- A section under the spinlock, which `cancel_all` may hold. -/
def whenUnlocked (s : State) (next : Option State) : Option State :=
  if s.cancelling = none then next else none

def work (s : State) : Option State :=
  match s.worker with
  | .idle => s.dequeue
  | .taken k => s.whenUnlocked (s.fetch k)
  | .fetched k func arg marker job => some (s.call k func arg marker job)
  | .called k marker => s.whenUnlocked (s.store k marker)
  | .stored k => s.finish k

def step (s : State) : Action → Option State
  | .submit none _ => some s
  | .submit (some func) arg => s.whenUnlocked (some { (s.submit func arg).2 with
      answers := s.answers ++ [⟨(s.submit func arg).1, s.full⟩] })
  | .flush =>
      match s.flusher with
      | .idle _ => some { s with flusher := .locked }
      | _ => none
  | .place => if s.flusher = .locked then s.whenUnlocked (some s.place) else none
  | .check => s.whenUnlocked s.check
  | .take => s.take
  | .expire => s.expire
  | .cancelAll => s.whenUnlocked (some { s with cancelling := some 0 })
  | .cancelNext => s.cancelNext
  | .work => s.work

end State

/-- A new work queue. -/
def machine (depth : Nat) : Machine State Action where
  init := ⟨.replicate depth ⟨none, 0, false, 0, false, false, false, 0⟩, [], .idle, none, 0, 0,
    false, .idle none, [], [], [], []⟩
  step := State.step

/-! ### What the entries and the worker stand for -/

/-- The entry whose `RUNNING` flag is set. -/
def Worker.entry : Worker → Option Nat
  | .idle => none
  | .taken k | .fetched k _ _ _ _ | .called k _ | .stored k => some k

/-- The handler has taken the entry, and has not given it back. -/
def Worker.handles (k : Nat) : Worker → Bool
  | .taken m | .fetched m _ _ _ _ | .called m _ => m = k
  | .idle | .stored _ => false

namespace State

/-- The submission that an entry stands for. -/
def jobAt (s : State) (k : Nat) : Option Nat := (s.entries[k]?).bind Entry.submission

/-- The submission whose function the worker is about to call. -/
def upcoming (s : State) : List Nat :=
  match s.worker with
  | .taken k => (s.jobAt k).toList
  | .fetched _ func _ _ job => (func.map (fun _ => job)).toList
  | .idle | .called _ _ | .stored _ => []

/-- The submissions that are still to be executed. -/
def waiting (s : State) : List Nat := s.pending.filterMap s.jobAt ++ s.upcoming

/-! ### The steps that go wrong -/

/-- The entry that a `submit` comes to is still marked by a `cancel_all`. -/
def submitsMarked (s : State) : Bool :=
  match s.findFree with
  | none => false
  | some k => (s.entries[k]?).any Entry.canceling

/-- `cancel_all` comes to an entry that was used again while the kernel has it as running. -/
def cancelsReused (s : State) : Bool :=
  match s.cancelling with
  | none => false
  | some k => (s.entries[k]?).any (fun e => e.inUse && e.marker = 0 && e.queued && e.running)

def heeds (s : State) : Action → Bool
  | .submit (some _) _ => ! s.submitsMarked
  | .cancelNext => ! s.cancelsReused
  | _ => true

end State

/-- No `submit` comes to an entry that is marked, and no `cancel_all` to one that was used
again while it is running. -/
def Heeds (s : State) (a : Action) : Prop := s.heeds a = true

instance (s : State) (a : Action) : Decidable (Heeds s a) := inferInstanceAs (Decidable (_ = _))

end MicrOsal.ZephyrWq
