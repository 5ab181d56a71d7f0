import Mathlib.Logic.Function.Basic
import MicrOsal.Core
import MicrOsal.Lib.Machine
import MicrOsal.Lib.TaggedWord

/-!
# MicrOsal.DelayableWork.Model

`osal::delayable_work` (`include/osal/delayable_work.hpp`) with its one-shot
timer and its work queue.

The actors are the caller that holds `mtx_` (calls that wait for the mutex have
not begun to do anything and are not represented), any number of timer
callbacks inside `on_timer` (a callback that fired for an earlier arming may
still be there at any later time) and any number of workers inside `run_work`.
Every load, store and compare-exchange of `state_`, every access to one half of
a timestamp, every clock read and every timer or queue call is a step of its
own. Which results the timer and the queue return, and for how long the timer
was really programmed, is up to the environment and comes with the action.

`armings`, `arming`, `log`, the call identifiers and the fields named after
them are a record of what happened; no step of the program reads them.
-/

namespace MicrOsal

/-! ### The state word and the split timestamps -/

/-- `delayable_work::state`. -/
inductive DwState
  | idle
  | armed
  | queued
  | running
  | stopping
  deriving DecidableEq, Repr

/-- The value of an enumerator. -/
def DwState.code : DwState → Nat
  | idle => 0
  | armed => 1
  | queued => 2
  | running => 3
  | stopping => 4

/-- `kStateMask`. -/
def kStateMask : BitVec 32 := 7

/-- `kGenerationStep`. -/
def kGenerationStep : BitVec 32 := 8

/-- `decode_state`; `none` for a value that is no enumerator. -/
def decodeState (value : BitVec 32) : Option DwState :=
  match (value &&& kStateMask).toNat with
  | 0 => some .idle
  | 1 => some .armed
  | 2 => some .queued
  | 3 => some .running
  | 4 => some .stopping
  | _ => none

/-- `with_state`. -/
def withState (value : BitVec 32) (desired : DwState) : BitVec 32 :=
  (value &&& ~~~kStateMask) ||| BitVec.ofNat 32 desired.code

/-- The word `arm_locked` stores over `value`. -/
def armWord (value : BitVec 32) : BitVec 32 :=
  ((value &&& ~~~kStateMask) + kGenerationStep) ||| BitVec.ofNat 32 DwState.armed.code

/-- `load_time`. -/
def loadTime (low high : BitVec 32) : BitVec 64 := joinHalves high low

/-! ### Calls, the timer and the record -/

/-- The public operations that take the mutex; delays are `milliseconds::count()`. -/
inductive DwOp
  | schedule (delay : Int)
  | reschedule (delay : Int)
  | cancel

/-- The delay of a scheduling operation. -/
def DwOp.delay : DwOp → Option Int
  | schedule delay => some delay
  | reschedule delay => some delay
  | cancel => none

/-- A call: its operation and the monotonic time at which it was made. -/
structure DwCall where
  id : Nat
  op : DwOp
  began : Nat

/-- The delay the call asks for. -/
def DwCall.delay (c : DwCall) : Int := c.op.delay.getD 0

/-- The one-shot timer: the programmed period and, while it runs, the time at
which it is due. -/
structure DwTimer where
  period : Nat
  due : Option Nat

/-- What happened. -/
inductive DwEvent
  /-- `arm_locked` stored `armed`. -/
  | armed (c : DwCall)
  /-- `enqueue_locked` stored `queued`. -/
  | enqueued (c : DwCall)
  /-- A caller's `submit` succeeded. -/
  | callerSubmitted (time : Nat)
  /-- A timer callback's `submit` succeeded; `loaded` is the arming it read and
  `current` the one it took to `queued`. -/
  | expirySubmitted (time loaded current : Nat)
  /-- `func_` was called for the arming or enqueueing of call `id`. -/
  | ran (id : Nat)
  /-- A call returned. -/
  | returned (c : DwCall) (code : ErrorCode)

/-! ### Programs -/

/-- Why the lock holder runs `store_state`, and what it does afterwards. -/
inductive DwNext
  /-- The timer was stopped: `idle`, then go on. -/
  | stopped
  /-- The timer could not be stopped: back to `armed`, then return the error. -/
  | restored (code : ErrorCode)
  /-- `enqueue_locked`: `queued`, then submit. -/
  | enqueue
  /-- `start` or `submit` failed: `idle`, then return the error. -/
  | failed (code : ErrorCode)

/-- The state `store_state` is called with. -/
def DwNext.value : DwNext → DwState
  | stopped => .idle
  | restored _ => .armed
  | enqueue => .queued
  | failed _ => .idle

/-- Where the caller that holds `mtx_` is; `free` when nobody holds it. -/
inductive DwCaller
  | free
  /-- About to `load_state` at the top of the operation. -/
  | load (c : DwCall)
  /-- `compare_exchange_state(armed, stopping)`: about to load. -/
  | casLoad (c : DwCall)
  /-- `compare_exchange_state(armed, stopping)`: about to exchange. -/
  | cas (c : DwCall) (raw : BitVec 32)
  /-- About to call `timer_.stop()`, which will return `result`. -/
  | stop (c : DwCall) (result : Option ErrorCode)
  /-- `store_state`: about to load. -/
  | store (c : DwCall) (next : DwNext)
  /-- `store_state`: about to store over `raw`. -/
  | storeRaw (c : DwCall) (next : DwNext) (raw : BitVec 32)
  /-- About to clear the dispatch error and branch on the delay. -/
  | begin (c : DwCall)
  /-- `arm_locked`: about to read the clock. -/
  | armNow (c : DwCall)
  /-- `arm_locked`: about to call `timer_.set_period`. -/
  | armPeriod (c : DwCall) (now : Nat)
  /-- `arm_locked`: about to store `start_low_`. -/
  | armStartLow (c : DwCall) (now : Nat)
  /-- `arm_locked`: about to store `start_high_`. -/
  | armStartHigh (c : DwCall) (now : Nat)
  /-- `arm_locked`: about to store `delay_low_`. -/
  | armDelayLow (c : DwCall) (now : Nat)
  /-- `arm_locked`: about to store `delay_high_`. -/
  | armDelayHigh (c : DwCall) (now : Nat)
  /-- `arm_locked`: about to load the generation. -/
  | armLoad (c : DwCall) (now : Nat)
  /-- `arm_locked`: about to store `armed` over `raw`. -/
  | armStore (c : DwCall) (now : Nat) (raw : BitVec 32)
  /-- `arm_locked`: about to call `timer_.start()`. -/
  | armStart (c : DwCall)
  /-- `enqueue_locked`: about to call `queue_->submit`. -/
  | submit (c : DwCall)

/-- Where a timer callback is inside `on_timer`; `absent` when it is not there.
`raw` and `loaded` are the word it read and, for the record, the arming then. -/
inductive DwExpiry
  | absent
  /-- About to load `state_`. -/
  | entered
  /-- About to load `start_high_`. -/
  | readStartHigh (raw : BitVec 32) (loaded : Nat)
  /-- About to load `start_low_`. -/
  | readStartLow (raw : BitVec 32) (loaded : Nat) (startHigh : BitVec 32)
  /-- About to load `delay_high_`. -/
  | readDelayHigh (raw : BitVec 32) (loaded : Nat) (started : BitVec 64)
  /-- About to load `delay_low_`. -/
  | readDelayLow (raw : BitVec 32) (loaded : Nat) (started : BitVec 64) (delayHigh : BitVec 32)
  /-- About to read the clock and compare. -/
  | readClock (raw : BitVec 32) (loaded : Nat) (started delay : BitVec 64)
  /-- The delay had passed at `now`: about to exchange. -/
  | cas (raw : BitVec 32) (loaded now : Nat)
  /-- About to call `queue_->submit` for call `id`. -/
  | submit (id loaded current : Nat)
  /-- `submit` failed, `store_state(idle)`: about to load. -/
  | failLoad (id : Nat)
  /-- `submit` failed, `store_state(idle)`: about to store over `raw`. -/
  | failStore (id : Nat) (raw : BitVec 32)

/-- Where a worker is inside `run_work`, for the thunk of call `id`. -/
inductive DwWorker
  | idle
  /-- `compare_exchange_state(queued, running)`: about to load. -/
  | entry (id : Nat)
  /-- `compare_exchange_state(queued, running)`: about to exchange. -/
  | cas (id : Nat) (raw : BitVec 32)
  /-- Inside `func_`. -/
  | callback (id : Nat)
  /-- `compare_exchange_state(running, idle)`: about to load. -/
  | doneLoad (id : Nat)
  /-- `compare_exchange_state(running, idle)`: about to exchange. -/
  | doneCas (id : Nat) (raw : BitVec 32)

/-- The system around one delayable work item that initialised successfully. -/
structure DwSys where
  word : BitVec 32
  startLow : BitVec 32
  startHigh : BitVec 32
  delayLow : BitVec 32
  delayHigh : BitVec 32
  dispatchError : ErrorCode
  dispatchFailed : Bool
  timer : DwTimer
  /-- Monotonic time in milliseconds. -/
  clock : Nat
  holder : DwCaller
  expiries : Nat → DwExpiry
  workers : Nat → DwWorker
  /-- The item's thunks in the work queue, each with the call it is for. -/
  queue : List Nat
  nextCall : Nat
  nextExpiry : Nat
  armings : Nat
  /-- The latest arming: its call and the time `arm_locked` read. -/
  arming : Option (DwCall × Nat)
  log : List DwEvent

/-- What can happen next. `result` is what the timer or queue call of the step
returns (`none` for `ok`); `period` is how long a successful `set_period` really
programs the timer for. -/
inductive DwAct
  | call (op : DwOp) (began : Nat)
  | caller (result : Option ErrorCode) (period : Nat)
  /-- The timer comes due and its callback is started. -/
  | fire
  | expiry (i : Nat) (result : Option ErrorCode)
  /-- Worker `j` takes the item's next thunk. -/
  | dequeue (j : Nat)
  | worker (j : Nat)
  | tick (ms : Nat)
  /-- `work_queue::cancel_all` drops what is queued. -/
  | cancelAll

namespace DwSys

/-- The lock holder returns. -/
def returns (s : DwSys) (c : DwCall) (code : ErrorCode) : DwSys :=
  { s with holder := .free, log := .returned c code :: s.log }

/-- `clear_dispatch_error_locked`. -/
def clearDispatchError (s : DwSys) : DwSys :=
  { s with dispatchError := .ok, dispatchFailed := false }

/-- `set_dispatch_error`. -/
def setDispatchError (s : DwSys) (code : ErrorCode) : DwSys :=
  { s with dispatchError := code, dispatchFailed := true }

/-- `compare_exchange_state(armed, stopping)` failed and left `expected`. -/
def casFails (s : DwSys) (c : DwCall) (expected : Option DwState) : DwSys :=
  match c.op with
  | .cancel => if expected = some .idle then s.returns c .ok else s.returns c .wouldBlock
  | _ => s.returns c .wouldBlock

/-- The branch on `load_state()` at the top of each operation. -/
def stepLoad (s : DwSys) (c : DwCall) : DwSys :=
  let current := decodeState s.word
  match c.op with
  | .schedule _ =>
    if current = some .idle then { s with holder := .begin c } else s.returns c .alreadyExists
  | .reschedule _ =>
    if current = some .queued ∨ current = some .running ∨ current = some .stopping then
      s.returns c .wouldBlock
    else if current = some .armed then { s with holder := .casLoad c }
    else { s with holder := .begin c }
  | .cancel =>
    if current = some .idle then s.clearDispatchError.returns c .ok
    else { s with holder := .casLoad c }

/-- What follows the store of `store_state`. -/
def afterStore (s : DwSys) (c : DwCall) : DwNext → DwSys
  | .stopped =>
    match c.op with
    | .cancel => s.clearDispatchError.returns c .ok
    | _ => { s with holder := .begin c }
  | .restored code => s.returns c code
  | .enqueue => { s with holder := .submit c, log := .enqueued c :: s.log }
  | .failed code => s.returns c code

/-- One step of the lock holder. -/
def stepCaller (s : DwSys) (result : Option ErrorCode) (period : Nat) : Option DwSys :=
  match s.holder with
  | .free => none
  | .load c => some (s.stepLoad c)
  | .casLoad c =>
    if decodeState s.word = some .armed then some { s with holder := .cas c s.word }
    else some (s.casFails c (decodeState s.word))
  | .cas c raw =>
    -- the result of the `stop()` to come is drawn here
    if s.word = raw then
      some { s with word := withState raw .stopping, holder := .stop c result }
    else some (s.casFails c (decodeState s.word))
  | .stop c none =>
    some { s with timer := { s.timer with due := none }, holder := .store c .stopped }
  | .stop c (some code) => some { s with holder := .store c (.restored code) }
  | .store c next => some { s with holder := .storeRaw c next s.word }
  | .storeRaw c next raw =>
    some ({ s with word := withState raw next.value }.afterStore c next)
  | .begin c =>
    if c.delay ≤ 0 then some { s.clearDispatchError with holder := .store c .enqueue }
    else some { s.clearDispatchError with holder := .armNow c }
  | .armNow c => some { s with holder := .armPeriod c s.clock }
  | .armPeriod c now =>
    match result with
    | some code => some (s.returns c code)
    | none =>
      -- a running timer begins a new interval, a stopped one stays stopped
      some { s with
        timer := { period := period, due := s.timer.due.map fun _ => s.clock + period }
        holder := .armStartLow c now }
  | .armStartLow c now =>
    some { s with startLow := lowHalf (BitVec.ofNat 64 now), holder := .armStartHigh c now }
  | .armStartHigh c now =>
    some { s with startHigh := highHalf (BitVec.ofNat 64 now), holder := .armDelayLow c now }
  | .armDelayLow c now =>
    some { s with delayLow := lowHalf (BitVec.ofInt 64 c.delay), holder := .armDelayHigh c now }
  | .armDelayHigh c now =>
    some { s with delayHigh := highHalf (BitVec.ofInt 64 c.delay), holder := .armLoad c now }
  | .armLoad c now => some { s with holder := .armStore c now s.word }
  | .armStore c now raw =>
    some { s with
      word := armWord raw
      holder := .armStart c
      armings := s.armings + 1
      arming := some (c, now)
      log := .armed c :: s.log }
  | .armStart c =>
    match result with
    | some code => some { s with holder := .store c (.failed code) }
    | none =>
      some ({ s with
        timer := { s.timer with due := some (s.clock + s.timer.period) } }.returns c .ok)
  | .submit c =>
    match result with
    | some code => some { s.setDispatchError code with holder := .store c (.failed code) }
    | none =>
      some ({ s with
        queue := s.queue ++ [c.id], log := .callerSubmitted s.clock :: s.log }.returns c .ok)

/-- Timer callback `i` moves to `pc`. -/
def setExpiry (s : DwSys) (i : Nat) (pc : DwExpiry) : DwSys :=
  { s with expiries := Function.update s.expiries i pc }

/-- One step of timer callback `i`. -/
def stepExpiry (s : DwSys) (i : Nat) (result : Option ErrorCode) : Option DwSys :=
  match s.expiries i with
  | .absent => none
  | .entered =>
    if decodeState s.word = some .armed then
      some (s.setExpiry i (.readStartHigh s.word s.armings))
    else some (s.setExpiry i .absent)
  | .readStartHigh raw loaded => some (s.setExpiry i (.readStartLow raw loaded s.startHigh))
  | .readStartLow raw loaded startHigh =>
    some (s.setExpiry i (.readDelayHigh raw loaded (loadTime s.startLow startHigh)))
  | .readDelayHigh raw loaded started =>
    some (s.setExpiry i (.readDelayLow raw loaded started s.delayHigh))
  | .readDelayLow raw loaded started delayHigh =>
    some (s.setExpiry i (.readClock raw loaded started (loadTime s.delayLow delayHigh)))
  | .readClock raw loaded started delay =>
    if BitVec.ofNat 64 s.clock - started < delay then some (s.setExpiry i .absent)
    else some (s.setExpiry i (.cas raw loaded s.clock))
  | .cas raw loaded _ =>
    if s.word = raw then
      let id := s.arming.elim 0 fun a => a.1.id
      some ({ s with word := withState raw .queued }.setExpiry i (.submit id loaded s.armings))
    else some (s.setExpiry i .absent)
  | .submit id loaded current =>
    match result with
    | some code => some ((s.setDispatchError code).setExpiry i (.failLoad id))
    | none =>
      some ({ s with
        queue := s.queue ++ [id]
        log := .expirySubmitted s.clock loaded current :: s.log }.setExpiry i .absent)
  | .failLoad id => some (s.setExpiry i (.failStore id s.word))
  | .failStore _ raw => some ({ s with word := withState raw .idle }.setExpiry i .absent)

/-- Worker `j` moves to `pc`. -/
def setWorker (s : DwSys) (j : Nat) (pc : DwWorker) : DwSys :=
  { s with workers := Function.update s.workers j pc }

/-- One step of worker `j`. -/
def stepWorker (s : DwSys) (j : Nat) : Option DwSys :=
  match s.workers j with
  | .idle => none
  | .entry id =>
    if decodeState s.word = some .queued then some (s.setWorker j (.cas id s.word))
    else some (s.setWorker j .idle)
  | .cas id raw =>
    if s.word = raw then
      some ({ s with
        word := withState raw .running, log := .ran id :: s.log }.setWorker j (.callback id))
    else some (s.setWorker j .idle)
  | .callback id => some (s.setWorker j (.doneLoad id))
  | .doneLoad id =>
    if decodeState s.word = some .running then some (s.setWorker j (.doneCas id s.word))
    else some (s.setWorker j .idle)
  | .doneCas _ raw =>
    if s.word = raw then some ({ s with word := withState raw .idle }.setWorker j .idle)
    else some (s.setWorker j .idle)

/-- One step of the system. `milliseconds::count()` and
`osal_clock_monotonic_ms` are 64-bit signed, so delays and the clock stay below
`2 ^ 63`; a call that fails does not fail with `ok`. -/
def step (s : DwSys) : DwAct → Option DwSys
  | .call op began =>
    match s.holder with
    | .free =>
      if began ≤ s.clock ∧ op.delay.getD 0 < 2 ^ 63 then
        some { s with holder := .load ⟨s.nextCall, op, began⟩, nextCall := s.nextCall + 1 }
      else none
    | _ => none
  | .caller result period =>
    if result = some .ok then none else s.stepCaller result period
  | .fire =>
    match s.timer.due with
    | none => none
    | some due =>
      if due ≤ s.clock then
        some ({ s with
          timer := { s.timer with due := none }
          nextExpiry := s.nextExpiry + 1 }.setExpiry s.nextExpiry .entered)
      else none
  | .expiry i result => if result = some .ok then none else s.stepExpiry i result
  | .dequeue j =>
    match s.workers j, s.queue with
    | .idle, id :: rest => some ({ s with queue := rest }.setWorker j (.entry id))
    | _, _ => none
  | .worker j => s.stepWorker j
  | .tick ms => if s.clock + ms < 2 ^ 63 then some { s with clock := s.clock + ms } else none
  | .cancelAll => some { s with queue := [] }

end DwSys

/-- A freshly constructed item at time `clock`. -/
def DwSys.fresh (clock : Nat) : DwSys where
  word := BitVec.ofNat 32 DwState.idle.code
  startLow := 0
  startHigh := 0
  delayLow := 0
  delayHigh := 0
  dispatchError := .ok
  dispatchFailed := false
  timer := { period := 1, due := none }
  clock := clock
  holder := .free
  expiries := fun _ => .absent
  workers := fun _ => .idle
  queue := []
  nextCall := 0
  nextExpiry := 0
  armings := 0
  arming := none
  log := []

/-- The system around an item constructed at time `clock`. -/
def dwMachine (clock : Nat) : Machine DwSys DwAct where
  init := DwSys.fresh clock
  step := DwSys.step

end MicrOsal
