import MicrOsal.DelayableWork.Model

/-!
# MicrOsal.CDelayable.Model

`osal_delayable_work_handle` (`common/osal_c.cpp`) with its one-shot timer and its work queue.

The handle has the fields of `delayable_work`, and the lock holder, the timer callbacks inside
`c_delayable_work_timer_cb` and the workers inside `c_delayable_work_work_cb` have the same places;
what they do there is written a second time. `delayable_set_dispatch_error` and
`delayable_clear_dispatch_error` make the stores of `set_dispatch_error` and
`clear_dispatch_error_locked`.

The delay of a call is in ticks, and `clock` is how many ticks there really were. The code sees both
as an `osal_tick_t` of `w` bits.
-/

namespace MicrOsal.CDelayable

/-- The delay is a number of ticks. -/
def IsTicks (w : Nat) (op : DwOp) : Prop := 0 ≤ op.delay.getD 0 ∧ op.delay.getD 0 < 2 ^ w

instance (w : Nat) (op : DwOp) : Decidable (IsTicks w op) := inferInstanceAs (Decidable (_ ∧ _))

/-- The `delay_ticks` of the call. -/
def delayTicks (w : Nat) (c : DwCall) : Tick w := BitVec.ofInt w c.delay

/-- The `started` of `delayable_arm_locked`, when the clock was read after `now` ticks. -/
def started (w now : Nat) : BitVec 64 := (clockTicks w now).setWidth 64

/-! ### The lock holder -/

/-- `delayable_state_compare_exchange(armed, stopping)` failed and left `expected`. -/
def casFails (s : DwSys) (c : DwCall) (expected : Option DwState) : DwSys :=
  match c.op with
  | .cancel => s.returns c (if expected = some .idle then .ok else .wouldBlock)
  | _ => s.returns c .wouldBlock

/-- The branch on the state at the top of each operation. -/
def stepLoad (s : DwSys) (c : DwCall) : DwSys :=
  let current := decodeState s.word
  match c.op with
  | .schedule _ =>
    if current ≠ some .idle then s.returns c .alreadyExists else { s with holder := .begin c }
  | .reschedule _ =>
    if current = some .queued ∨ current = some .running ∨ current = some .stopping then
      s.returns c .wouldBlock
    else if current = some .armed then { s with holder := .casLoad c }
    else { s with holder := .begin c }
  | .cancel =>
    if current = some .idle then s.clearDispatchError.returns c .ok
    else { s with holder := .casLoad c }

/-- What follows the store of `delayable_state_store`. -/
def afterStore (s : DwSys) (c : DwCall) : DwNext → DwSys
  | .stopped =>
    match c.op with
    | .cancel => s.clearDispatchError.returns c .ok
    | _ => { s with holder := .begin c }
  | .restored rc => s.returns c rc
  | .enqueue => { s with holder := .submit c, log := .enqueued c :: s.log }
  | .failed rc => s.returns c rc

/-- One step of the lock holder. -/
def stepCaller (w : Nat) (s : DwSys) (result : Option ErrorCode) (period : Nat) : Option DwSys :=
  match s.holder with
  | .free => none
  | .load c => some (stepLoad s c)
  | .casLoad c =>
    if decodeState s.word ≠ some .armed then some (casFails s c (decodeState s.word))
    else some { s with holder := .cas c s.word }
  | .cas c raw =>
    -- the result of the stop to come is drawn here
    if s.word = raw then
      some { s with word := withState raw .stopping, holder := .stop c result }
    else some (casFails s c (decodeState s.word))
  | .stop c none =>
    some { s with timer := { s.timer with due := none }, holder := .store c .stopped }
  | .stop c (some rc) => some { s with holder := .store c (.restored rc) }
  | .store c next => some { s with holder := .storeRaw c next s.word }
  | .storeRaw c next raw => some (afterStore { s with word := withState raw next.value } c next)
  | .begin c =>
    if delayTicks w c = noWait then some { s.clearDispatchError with holder := .store c .enqueue }
    else some { s.clearDispatchError with holder := .armNow c }
  | .armNow c => some { s with holder := .armPeriod c s.clock }
  | .armPeriod c now =>
    match result with
    | some rc => some (s.returns c rc)
    | none =>
      -- a running timer begins a new interval, a stopped one stays stopped
      some { s with
        timer := { period := period, due := s.timer.due.map fun _ => s.clock + period }
        holder := .armStartLow c now }
  | .armStartLow c now =>
    some { s with startLow := lowHalf (started w now), holder := .armStartHigh c now }
  | .armStartHigh c now =>
    some { s with startHigh := highHalf (started w now), holder := .armDelayLow c now }
  | .armDelayLow c now =>
    some { s with
      delayLow := lowHalf ((delayTicks w c).setWidth 64), holder := .armDelayHigh c now }
  | .armDelayHigh c now =>
    some { s with
      delayHigh := highHalf ((delayTicks w c).setWidth 64), holder := .armLoad c now }
  | .armLoad c now => some { s with holder := .armStore c now s.word }
  | .armStore c now raw =>
    some { s with
      word := armWord raw
      holder := .armStart c
      armings := s.armings + 1
      arming := some (c, now)
      log := .armed c :: s.log }
  | .armStart c =>
    match result with
    | some rc => some { s with holder := .store c (.failed rc) }
    | none =>
      some ({ s with
        timer := { s.timer with due := some (s.clock + s.timer.period) } }.returns c .ok)
  | .submit c =>
    match result with
    | some rc => some { s.setDispatchError rc with holder := .store c (.failed rc) }
    | none =>
      some ({ s with
        queue := s.queue ++ [c.id], log := .callerSubmitted s.clock :: s.log }.returns c .ok)

/-! ### The callbacks -/

/-- The time guard of `c_delayable_work_timer_cb`, when there were `clock` ticks: the one-shot is
early. -/
def early (w clock : Nat) (start delay : BitVec 64) : Bool :=
  let elapsed : Tick w := clockTicks w clock - start.setWidth w
  elapsed.setWidth 64 < delay

/-- One step of timer callback `i` in `c_delayable_work_timer_cb`. -/
def stepExpiry (w : Nat) (s : DwSys) (i : Nat) (result : Option ErrorCode) : Option DwSys :=
  match s.expiries i with
  | .absent => none
  | .entered =>
    if decodeState s.word ≠ some .armed then some (s.setExpiry i .absent)
    else some (s.setExpiry i (.readStartHigh s.word s.armings))
  | .readStartHigh raw loaded => some (s.setExpiry i (.readStartLow raw loaded s.startHigh))
  | .readStartLow raw loaded startHigh =>
    some (s.setExpiry i (.readDelayHigh raw loaded (loadTime s.startLow startHigh)))
  | .readDelayHigh raw loaded start =>
    some (s.setExpiry i (.readDelayLow raw loaded start s.delayHigh))
  | .readDelayLow raw loaded start delayHigh =>
    some (s.setExpiry i (.readClock raw loaded start (loadTime s.delayLow delayHigh)))
  | .readClock raw loaded start delay =>
    if early w s.clock start delay then some (s.setExpiry i .absent)
    else some (s.setExpiry i (.cas raw loaded s.clock))
  | .cas raw loaded _ =>
    if s.word = raw then
      let id := s.arming.elim 0 fun a => a.1.id
      some ({ s with word := withState raw .queued }.setExpiry i (.submit id loaded s.armings))
    else some (s.setExpiry i .absent)
  | .submit id loaded current =>
    match result with
    | some rc => some ((s.setDispatchError rc).setExpiry i (.failLoad id))
    | none =>
      some ({ s with
        queue := s.queue ++ [id]
        log := .expirySubmitted s.clock loaded current :: s.log }.setExpiry i .absent)
  | .failLoad id => some (s.setExpiry i (.failStore id s.word))
  | .failStore _ raw => some ({ s with word := withState raw .idle }.setExpiry i .absent)

/-- One step of worker `j` in `c_delayable_work_work_cb`. -/
def stepWorker (s : DwSys) (j : Nat) : Option DwSys :=
  match s.workers j with
  | .idle => none
  | .entry id =>
    if decodeState s.word ≠ some .queued then some (s.setWorker j .idle)
    else some (s.setWorker j (.cas id s.word))
  | .cas id raw =>
    if s.word = raw then
      some ({ s with
        word := withState raw .running, log := .ran id :: s.log }.setWorker j (.callback id))
    else some (s.setWorker j .idle)
  | .callback id => some (s.setWorker j (.doneLoad id))
  | .doneLoad id =>
    if decodeState s.word ≠ some .running then some (s.setWorker j .idle)
    else some (s.setWorker j (.doneCas id s.word))
  | .doneCas _ raw =>
    if s.word = raw then some ({ s with word := withState raw .idle }.setWorker j .idle)
    else some (s.setWorker j .idle)

/-! ### The system -/

/-- One step of the system around one handle that was created successfully. The timer, the queue
and the clock are those of `delayable_work`. -/
def step (w : Nat) (s : DwSys) : DwAct → Option DwSys
  | .call op began => if IsTicks w op then s.step (.call op began) else none
  | .caller result period => if result = some .ok then none else stepCaller w s result period
  | .expiry i result => if result = some .ok then none else stepExpiry w s i result
  | .worker j => stepWorker s j
  | a => s.step a

/-- The system around a handle that was created after `clock` ticks. -/
def handleMachine (w clock : Nat) : Machine DwSys DwAct where
  init := DwSys.fresh clock
  step := step w

/-- The system around a `delayable_work` that is given delays that are numbers of ticks, which are
milliseconds. -/
def workStep (w : Nat) (d : DwSys) : DwAct → Option DwSys
  | .call op began => if IsTicks w op then d.step (.call op began) else none
  | a => d.step a

def workMachine (w clock : Nat) : Machine DwSys DwAct where
  init := DwSys.fresh clock
  step := workStep w

end MicrOsal.CDelayable
