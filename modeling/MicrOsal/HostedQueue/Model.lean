import MicrOsal.Queue.Model
import MicrOsal.NuttxQueue.Fifo

/-!
# MicrOsal.HostedQueue.Model

The waiting of `osal_queue_send` and `osal_queue_receive` on the hosts with threads of POSIX
(`linux/linux_backend.cpp`, `posix/posix_backend.cpp`, `nuttx/nuttx_backend.cpp`), with the
clock of the condition variables (`common/backend_timeout_adapter.hpp`).

The three backends have one loop: as long as the queue is full, or empty, it computes a deadline
and waits for it on a condition variable. They differ in what the queue is (`Backend`).

A region under the mutex is one step. A wait ends whenever it likes, by a signal or without one;
it times out once the clock shows its deadline. A thread whose wait has ended gets the mutex in
a step of its own.
-/

namespace MicrOsal.HostedQueue

/-! ### The clock -/

/-- `timespec`. -/
structure Timespec where
  tvSec : Nat
  tvNsec : Nat
  deriving DecidableEq

namespace Timespec

/-- The time in nanoseconds. -/
def ns (ts : Timespec) : Nat := ts.tvSec * 1000000000 + ts.tvNsec

/-- `clock_gettime`. -/
def ofNs (ns : Nat) : Timespec := ⟨ns / 1000000000, ns % 1000000000⟩

end Timespec

variable {w : Nat}

/-- A timeout that `backend_timeout_adapter::decode` calls finite. -/
def finite (timeout : Tick w) : Bool := timeout ≠ noWait ∧ timeout ≠ waitForever

/-- `backend_timeout_adapter::to_abs_timespec`; a `time_t` goes up to `maxSeconds`. -/
def toAbsTimespec (maxSeconds : Nat) (now : Timespec) (timeout : Tick w) : Timespec :=
  let ms := if finite timeout then timeout.toNat else 0
  let seconds := ms / 1000
  let nsec := now.tvNsec + ms % 1000 * 1000000
  let (seconds, nsec) :=
    if 1000000000 ≤ nsec then (seconds + 1, nsec - 1000000000) else (seconds, nsec)
  if maxSeconds - now.tvSec < seconds then ⟨maxSeconds, 999999999⟩ else ⟨now.tvSec + seconds, nsec⟩

/-- The last time that a `timespec` shows. -/
def lastNs (maxSeconds : Nat) : Nat := Timespec.ns ⟨maxSeconds, 999999999⟩

/-- The definition, of the function and not of its value: the kernel would look for the value of
the nanoseconds to decide on the carry, and count up to it. -/
theorem toAbsTimespec_def : toAbsTimespec (w := w) = fun maxSeconds now timeout =>
    match
      if 1000000000 ≤
          now.tvNsec + (if finite timeout then timeout.toNat else 0) % 1000 * 1000000 then
        ((if finite timeout then timeout.toNat else 0) / 1000 + 1,
          now.tvNsec + (if finite timeout then timeout.toNat else 0) % 1000 * 1000000 - 1000000000)
      else
        ((if finite timeout then timeout.toNat else 0) / 1000,
          now.tvNsec + (if finite timeout then timeout.toNat else 0) % 1000 * 1000000) with
    | (seconds, nsec) =>
      if maxSeconds - now.tvSec < seconds then ⟨maxSeconds, 999999999⟩
      else ⟨now.tvSec + seconds, nsec⟩ := rfl

/-- The deadline is the timeout in milliseconds away, or the last time there is. -/
theorem ns_toAbsTimespec {maxSeconds time : Nat} {timeout : Tick w} (hfinite : finite timeout)
    (htime : time ≤ lastNs maxSeconds) :
    (toAbsTimespec maxSeconds (.ofNs time) timeout).ns =
      min (time + timeout.toNat * 1000000) (lastNs maxSeconds) := by
  have hsec := Nat.div_add_mod time 1000000000
  have hms := Nat.div_add_mod timeout.toNat 1000
  have hlt : time % 1000000000 < 1000000000 := Nat.mod_lt _ (by decide)
  have hltMs : timeout.toNat % 1000 < 1000 := Nat.mod_lt _ (by decide)
  rw [toAbsTimespec_def]
  beta_reduce
  rw [if_pos hfinite]
  by_cases hcarry : 1000000000 ≤ (Timespec.ofNs time).tvNsec + timeout.toNat % 1000 * 1000000
  · rw [if_pos hcarry]
    dsimp only
    by_cases hlate : maxSeconds - (Timespec.ofNs time).tvSec < timeout.toNat / 1000 + 1
    · rw [if_pos hlate]
      dsimp only [Timespec.ofNs, Timespec.ns, lastNs] at *
      omega
    · rw [if_neg hlate]
      dsimp only [Timespec.ofNs, Timespec.ns, lastNs] at *
      omega
  · rw [if_neg hcarry]
    dsimp only
    by_cases hlate : maxSeconds - (Timespec.ofNs time).tvSec < timeout.toNat / 1000
    · rw [if_pos hlate]
      dsimp only [Timespec.ofNs, Timespec.ns, lastNs] at *
      omega
    · rw [if_neg hlate]
      dsimp only [Timespec.ofNs, Timespec.ns, lastNs] at *
      omega

/-! ### The backends -/

/-- A call that may find the queue full or empty. -/
inductive Call (α : Type)
  | send (item : α)
  | receive
  | peek

def Call.isPeek {α : Type} : Call α → Bool
  | .peek => true
  | _ => false

/-- What a backend keeps under its mutex, and what a call does with it. -/
structure Backend (κ α : Type) where
  create : κ
  /-- `osal_clock_tick_period_us`. -/
  tickUs : Nat
  /-- The test of the loop. -/
  blocked : κ → Call α → Bool
  /-- What follows the loop; `none` is `EAGAIN`. -/
  perform : κ → Call α → Option (Option α × κ)
  /-- `osal_queue_peek` waits as the others do. -/
  peekWaits : Bool
  /-- What holds of the queue between two calls. -/
  Ok : κ → Prop
  ok_create : Ok create
  ok_perform : ∀ {q call}, Ok q → blocked q call = false → ∃ r, perform q call = some r ∧ Ok r.2

section Hosts

variable {size : Nat}

/-- `q->count >= q->capacity`, and `q->count == 0`. -/
def ringBlocked (q : Queue.QueueObj size) : Call (Queue.Item size) → Bool
  | .send _ => q.capacity ≤ q.count
  | .receive => q.count = 0
  | .peek => q.count = 0

/-- What follows. -/
def ringPerform (q : Queue.QueueObj size) :
    Call (Queue.Item size) → Option (Option (Queue.Item size) × Queue.QueueObj size)
  | .send item => some (none, q.put item)
  | .receive => some (some q.front, q.take)
  | .peek => some (some q.front, q)

/-- The ring of the Linux and the POSIX backend, whose ticks are milliseconds. -/
def ringBackend (size : Nat) (buf : Nat → UInt8) (capacity : Nat) :
    Backend (Queue.QueueObj size) (Queue.Item size) where
  create := .create size buf capacity
  tickUs := 1000
  blocked := ringBlocked
  perform := ringPerform
  peekWaits := false
  Ok _ := True
  ok_create := trivial
  ok_perform {_ call} _ _ := by cases call <;> exact ⟨_, rfl, trivial⟩

/-- The Linux backend. -/
def linux (size : Nat) (buf : Nat → UInt8) (capacity : Nat) :
    Backend (Queue.QueueObj size) (Queue.Item size) := ringBackend size buf capacity

/-- The POSIX backend. -/
def posix (size : Nat) (buf : Nat → UInt8) (capacity : Nat) :
    Backend (Queue.QueueObj size) (Queue.Item size) := ringBackend size buf capacity

variable {α : Type}

/-- `q->count == q->capacity`, and `q->count == 0`. -/
def mqBlocked (q : NuttxQueue.QueueObj α) : Call α → Bool
  | .send _ => q.count = q.capacity
  | .receive => q.count = 0
  | .peek => q.count = 0

/-- What follows, with the message queue and the cache. -/
def mqPerform (q : NuttxQueue.QueueObj α) : Call α → Option (Option α × NuttxQueue.QueueObj α)
  | .send item => (q.put item).map (fun q' => (none, q'))
  | .receive => q.take.map (fun r => (some r.1, r.2))
  | .peek => q.peek.map (fun r => (some r.1, r.2))

/-- A call that finds what it wants is not refused by the message queue. -/
theorem mqPerform_spec {capacity : Nat} {q : NuttxQueue.QueueObj α} {call : Call α}
    (hq : q.Ok capacity) (hblocked : mqBlocked q call = false) :
    ∃ r, mqPerform q call = some r ∧ r.2.Ok capacity := by
  cases call with
  | send item =>
      obtain ⟨q', hput, hok, -⟩ := hq.put (of_decide_eq_false hblocked) item
      exact ⟨(none, q'), by rw [mqPerform, hput]; rfl, hok⟩
  | receive =>
      obtain ⟨item, q', htake, hok, -⟩ := hq.take (of_decide_eq_false hblocked)
      exact ⟨(some item, q'), by rw [mqPerform, htake]; rfl, hok⟩
  | peek =>
      obtain ⟨item, q', hpeek, hok, -⟩ := hq.peek (of_decide_eq_false hblocked)
      exact ⟨(some item, q'), by rw [mqPerform, hpeek]; rfl, hok⟩

/-- The NuttX backend: a tick lasts `CONFIG_USEC_PER_TICK` microseconds. -/
def nuttx (usecPerTick : Nat) (cache : α) (capacity : Nat) :
    Backend (NuttxQueue.QueueObj α) α where
  create := .create cache capacity
  tickUs := usecPerTick
  blocked := mqBlocked
  perform := mqPerform
  peekWaits := true
  Ok q := q.Ok capacity
  ok_create := .create cache capacity
  ok_perform := mqPerform_spec

end Hosts

/-! ### Threads -/

/-- How far a call is. -/
inductive Phase
  /-- About to get the mutex for the first time. -/
  | entering
  /-- On the condition variable; without a time for `WAIT_FOREVER`. -/
  | asleep (abs : Option Timespec)
  /-- The wait has returned 0. -/
  | woken
  /-- The wait has returned `ETIMEDOUT`. -/
  | timedOut
  deriving DecidableEq

/-- What a call returns, with the item that it has copied out. -/
abbrev Result (α : Type) := Except ErrorCode (Option α)

inductive Thread (w : Nat) (α : Type)
  /-- `last` is what its last call returned. -/
  | outside (last : Option (Result α))
  /-- The call began at the time `begun`. -/
  | inside (call : Call α) (timeout : Tick w) (begun : Nat) (phase : Phase)

structure State (w : Nat) (κ α : Type) where
  time : Nat
  queue : κ
  threads : List (Thread w α)

inductive Action (w : Nat) (α : Type)
  | spawn
  | tick (ns : Nat)
  | call (n : Nat) (call : Call α) (timeout : Tick w)
  /-- The wait of thread `n` ends, by a signal or without one. -/
  | wake (n : Nat)
  /-- The time of the wait is up. -/
  | expire (n : Nat)
  /-- Thread `n` gets the mutex. -/
  | resume (n : Nat)

namespace State

variable {κ α : Type}

def setThread (s : State w κ α) (n : Nat) (th : Thread w α) : State w κ α :=
  { s with threads := s.threads.set n th }

def finish (s : State w κ α) (n : Nat) (result : Result α) : State w κ α :=
  s.setThread n (.outside (some result))

/-- Thread `n` has the mutex: the test of the loop, and what follows. The deadline is computed
anew in each turn. -/
def attempt (b : Backend κ α) (maxSeconds : Nat) (s : State w κ α) (n : Nat) (call : Call α)
    (timeout : Tick w) (begun : Nat) : State w κ α :=
  if b.blocked s.queue call then
    if timeout = noWait ∨ (call.isPeek && ! b.peekWaits) then s.finish n (.error .wouldBlock)
    else if timeout = waitForever then s.setThread n (.inside call timeout begun (.asleep none))
    else
      let abs := toAbsTimespec maxSeconds (.ofNs s.time) timeout
      s.setThread n (.inside call timeout begun (.asleep (some abs)))
  else
    match b.perform s.queue call with
    | none => s.finish n (.error (if timeout = noWait then .wouldBlock else .timeout))
    | some (item, queue) => { s with queue := queue }.finish n (.ok item)

def resume (b : Backend κ α) (maxSeconds : Nat) (s : State w κ α) (n : Nat) :
    Thread w α → Option (State w κ α)
  | .inside call timeout begun .entering => some (s.attempt b maxSeconds n call timeout begun)
  | .inside call timeout begun .woken => some (s.attempt b maxSeconds n call timeout begun)
  -- only the return code of the wait is looked at
  | .inside _ _ _ .timedOut => some (s.finish n (.error .timeout))
  | .inside _ _ _ (.asleep _) => none
  | .outside _ => none

def step (b : Backend κ α) (maxSeconds : Nat) (s : State w κ α) :
    Action w α → Option (State w κ α)
  | .spawn => some { s with threads := s.threads ++ [.outside none] }
  | .tick ns =>
      if s.time + ns < lastNs maxSeconds then some { s with time := s.time + ns } else none
  | .call n call timeout =>
      match s.threads[n]? with
      | some (.outside _) => some (s.setThread n (.inside call timeout s.time .entering))
      | _ => none
  | .wake n =>
      match s.threads[n]? with
      | some (.inside call timeout begun (.asleep _)) =>
          some (s.setThread n (.inside call timeout begun .woken))
      | _ => none
  | .expire n =>
      match s.threads[n]? with
      | some (.inside call timeout begun (.asleep (some abs))) =>
          if abs.ns ≤ s.time then some (s.setThread n (.inside call timeout begun .timedOut))
          else none
      | _ => none
  | .resume n => (s.threads[n]?).bind (s.resume b maxSeconds n)

end State

/-- The threads that use one queue of a backend. The clock does not reach its last time. -/
def machine {κ α : Type} (w : Nat) (b : Backend κ α) (maxSeconds : Nat) :
    Machine (State w κ α) (Action w α) where
  init := ⟨0, b.create, []⟩
  step := State.step b maxSeconds

end MicrOsal.HostedQueue
