import MicrOsal.Clock
import MicrOsal.Clock.Monotonic
import MicrOsal.Stop.Callbacks

/-!
# MicrOsal.WaitReady.Model

`wait_signal` and `wait_until_ready` (`include/osal/wait_signal.hpp`): one signal, one predicate,
any number of callers and of producers, and the stop source of the tokens.

The callers are threads of the stop source: a wait constructs a `stop_callback` there and closes
it. The body of this callback is a `notify` and nothing else, so a thread that is in it takes the
steps of `notify_impl` before the callback returns.

The atomics, the predicate, the semaphore and the clock are touched one at a time, each in a step
of its own. What the semaphore returns is part of the action. It is binary: a give leaves it with
its permit, and a full one may report the overflow; a take without a timeout does not time out.
-/

namespace MicrOsal.WaitReady

variable {w : Nat}

/-! ### The signal -/

/-- `wait_signal`. -/
structure Signal where
  /-- `status_`. -/
  created : ErrorCode
  /-- `failure_`. -/
  failure : ErrorCode
  generation : BitVec 32
  /-- `waiting_`. -/
  waiting : Bool
  /-- The semaphore has its permit. -/
  permit : Bool
  deriving DecidableEq, Repr

/-- How far a call of `notify_impl` is. -/
inductive Notify
  /-- About to look at `status()`. -/
  | entry
  /-- About to add to the generation. -/
  | count
  /-- About to give. -/
  | give
  | done (status : ErrorCode)
  deriving DecidableEq, Repr

namespace Signal

/-- `status`. -/
def status (sig : Signal) : ErrorCode :=
  if sig.created = .ok then sig.failure else sig.created

/-- The next step of `notify_impl`, when the give returns `give`. -/
def notifyImpl (sig : Signal) (give : ErrorCode) : Notify → Option (Signal × Notify)
  | .entry => some (sig, if sig.status = .ok then .count else .done sig.status)
  | .count => some ({ sig with generation := sig.generation + 1 }, .give)
  | .give =>
      if give = .ok then some ({ sig with permit := true }, .done .ok)
      else if give = .overflow then
        -- Only a semaphore that is full overflows.
        if sig.permit then some (sig, .done .ok) else none
      else some ({ sig with failure := give }, .done give)
  | .done _ => none

end Signal

/-! ### Callers -/

/-- The variables of a call of `wait_until_ready`. -/
structure Call where
  /-- In milliseconds. -/
  timeout : Int
  /-- The token has a source. -/
  token : Bool
  /-- What the clock showed when `deadline` was made. -/
  start : Int
  /-- `deadline.expires_at()`. -/
  expiry : Int
  /-- `callback`, by its position at the stop source. -/
  callback : Nat
  observed : BitVec 32
  /-- What `ready()` has returned last. No step of the program reads it. -/
  wasReady : Bool
  /-- The call has found that stop is requested. No step of the program reads it. -/
  sawStop : Bool
  deriving DecidableEq, Repr

/-- Where a call of `wait_until_ready` is. -/
inductive Phase (w : Nat)
  | out
  /-- `begin_wait`: about to look at `status()`. -/
  | entry
  /-- `begin_wait`: about to set `waiting_`. -/
  | claim
  | deadline
  /-- About to construct `callback`. -/
  | register
  /-- In the constructor of `callback`. -/
  | registering
  /-- The head of the loop: about to load the generation. -/
  | top
  | status
  /-- About to look at `token.stop_requested()`. -/
  | stop
  /-- About to call `ready()`. -/
  | ready
  /-- About to look at `deadline.expired()`. -/
  | expiry
  /-- About to look at `deadline.remaining()`. -/
  | remaining
  /-- `wait_for_change`: about to look at `status()`. -/
  | change (timeout : Int)
  /-- `wait_for_change`: about to compare the generation. -/
  | compare (timeout : Int)
  /-- `wait_for_change`: in `osal_semaphore_take`. -/
  | take (ticks : Tick w)
  /-- `wait_for_change`: about to look at `status()` after the take. -/
  | taken (r : ErrorCode)
  /-- `wait_for_change` has returned. -/
  | changed (r : ErrorCode)
  /-- The result is `r`; about to close `callback`. -/
  | close (r : ErrorCode)
  /-- In `close` of `callback`. -/
  | closing (r : ErrorCode)
  /-- About to clear `waiting_`. -/
  | release (r : ErrorCode)
  deriving DecidableEq, Repr

/-- Between a `begin_wait` that has claimed the signal and its `end_wait`. -/
def Phase.inside : Phase w → Bool
  | .out => false
  | .entry => false
  | .claim => false
  | _ => true

structure Wait (w : Nat) where
  phase : Phase w
  call : Call
  deriving DecidableEq, Repr

/-! ### State -/

/-- Who changes what the predicate looks at, and notifies. -/
structure Producer where
  /-- It has changed the predicate to true, and the predicate has been true since. No step of the
  program reads it. -/
  fresh : Bool
  /-- How far its call of `notify` is. -/
  notify : Option Notify
  deriving DecidableEq, Repr

/-- A call of `wait_until_ready` that has returned. -/
structure Returned where
  call : Call
  result : ErrorCode
  deriving DecidableEq, Repr

structure Config where
  /-- `osal_clock_tick_period_us`. -/
  periodUs : Nat
  /-- `OSAL_STOP_SOURCE_MAX_CALLBACKS`. -/
  maxCallbacks : Nat
  /-- `isr_notification_supported`. -/
  isrNotification : Bool

/-- The whole system. Callers are named as threads of the stop source. -/
structure State (w : Nat) where
  source : Stop.State
  signal : Signal
  /-- What `ready()` returns. -/
  ready : Bool
  /-- What the clock shows. -/
  now : Int
  waits : Nat → Wait w
  /-- The callbacks of the waits, and how far the call of `notify` in each is. -/
  notes : Nat → Option Notify
  producers : Nat → Producer
  /-- The predicate is true by a change that has been notified. No step of the program reads
  it. -/
  announced : Bool
  /-- The record of the run. No step of the program reads it. -/
  returns : List Returned

/-- What happens next. -/
inductive Action
  /-- A step of the stop source and of its threads. -/
  | source (a : Stop.Action)
  /-- Thread `n` calls `wait_until_ready`. -/
  | wait (n : Nat) (timeout : Int) (token : Bool)
  /-- Thread `n` takes the next step of `wait_until_ready`. -/
  | advance (n : Nat) (take : ErrorCode)
  /-- Thread `n` takes the next step of the `notify` in the callback that it is in. -/
  | callback (n : Nat) (give : ErrorCode)
  /-- Producer `p` makes a change, after which the predicate is as given. -/
  | change (p : Nat) (ready : Bool)
  /-- The predicate becomes false. -/
  | consume
  /-- Producer `p` calls `notify`, or `notify_from_isr`. -/
  | notify (p : Nat) (isr : Bool)
  | notifying (p : Nat) (give : ErrorCode)
  | tick (ms : Nat)
  deriving DecidableEq, Repr

namespace State

/-! ### `wait_until_ready` -/

def goto (s : State w) (n : Nat) (call : Call) (phase : Phase w) : State w :=
  { s with waits := Function.update s.waits n ⟨phase, call⟩ }

/-- The call returns. -/
def returned (s : State w) (n : Nat) (call : Call) (result : ErrorCode) : State w :=
  { s.goto n call .out with returns := s.returns ++ [⟨call, result⟩] }

/-- What the last call of thread `n` at the source has returned, when it is in none. -/
def last (s : State w) (n : Nat) : Option Stop.Return :=
  match s.source.threads[n]? with
  | some ⟨[], last⟩ => some last
  | _ => none

/-- The result of `osal_semaphore_take`. -/
def takeResult (s : State w) (ticks : Tick w) (take : ErrorCode) : Option (State w) :=
  if take = .ok then
    if s.signal.permit then some { s with signal := { s.signal with permit := false } } else none
  else if (take = .timeout ∨ take = .wouldBlock) ∧ ticks = waitForever then none
  else some s

/-- The next step of thread `n` in `wait_until_ready`. -/
def advance (cfg : Config) (s : State w) (n : Nat) (take : ErrorCode) : Option (State w) :=
  let call := (s.waits n).call
  let forever : Bool := call.timeout < 0
  let expired := deadlineExpired call.expiry s.now
  match (s.waits n).phase with
  | .out => none
  | .entry =>
      if s.signal.status ≠ .ok then some (s.returned n call s.signal.status)
      else some (s.goto n call .claim)
  | .claim =>
      if s.signal.waiting then some (s.returned n call .alreadyExists)
      else some ({ s with signal := { s.signal with waiting := true } }.goto n call .deadline)
  | .deadline =>
      (deadlineAfter s.now call.timeout).map (fun expiry =>
        s.goto n { call with start := s.now, expiry := expiry } .register)
  | .register =>
      let c := s.source.callbacks.length
      (s.source.step cfg.maxCallbacks (.construct n call.token true)).map (fun source =>
        { s with source := source, notes := Function.update s.notes c (some .entry) }.goto n
          { call with callback := c } .registering)
  | .registering =>
      match s.last n with
      | some (.constructed _ status) =>
          some (s.goto n call (if status ≠ .ok then .close status else .top))
      | _ => none
  | .top => some (s.goto n { call with observed := s.signal.generation } .status)
  | .status =>
      some (s.goto n call (if s.signal.status ≠ .ok then .close s.signal.status else .stop))
  | .stop =>
      if call.token ∧ s.source.source.stopped then
        some (s.goto n { call with sawStop := true } (.close .cancelled))
      else some (s.goto n call .ready)
  | .ready =>
      some (s.goto n { call with wasReady := s.ready } (if s.ready then .close .ok else .expiry))
  | .expiry =>
      some (s.goto n call (if ! forever && expired then .close .timeout else .remaining))
  | .remaining =>
      some (s.goto n call (.change
        (if forever then -1 else if expired then 0 else call.expiry - s.now)))
  | .change timeout =>
      some (s.goto n call
        (if s.signal.status ≠ .ok then .changed s.signal.status else .compare timeout))
  | .compare timeout =>
      if s.signal.generation ≠ call.observed then some (s.goto n call (.changed .ok))
      else some (s.goto n call
        (.take (if timeout < 0 then waitForever else msToTicks w cfg.periodUs timeout)))
  | .take ticks => (s.takeResult ticks take).map (fun s => s.goto n call (.taken take))
  | .taken r =>
      some (s.goto n call (.changed (if s.signal.status ≠ .ok then s.signal.status else r)))
  | .changed r =>
      if r ≠ .ok ∧ (forever ∨ (r ≠ .timeout ∧ r ≠ .wouldBlock) ∨ (r = .wouldBlock ∧ ! expired)) then
        some (s.goto n call (.close r))
      else some (s.goto n call .top)
  | .close r =>
      (s.source.step cfg.maxCallbacks (.close n call.callback false)).map (fun source =>
        { s with source := source }.goto n call (.closing r))
  | .closing r =>
      match s.last n with
      -- The destructor sleeps and tries again.
      | some (.closed _ status) =>
          some (s.goto n call (if status ≠ .ok then .close r else .release r))
      | _ => none
  | .release r =>
      some ({ s with signal := { s.signal with waiting := false } }.returned n call r)

/-! ### The rest of the system -/

/-- The callback that thread `n` is in. -/
def inCallback (s : State w) (n : Nat) : Option Nat :=
  match s.source.top n with
  | some (.running _ c) => some c
  | _ => none

/-- Thread `n` is free to call the source: it is in no `wait_until_ready`, nor in a callback of
one. -/
def free (s : State w) (n : Nat) : Bool :=
  (s.waits n).phase = .out ∧ ((s.inCallback n).bind s.notes).isNone

/-- The step is not for `wait_until_ready` to take: calls that threads make on their own, and a
callback of a wait returns when its `notify` has. -/
def admits (s : State w) : Stop.Action → Bool
  | .spawn => true
  | .construct n _ _ => s.free n
  | .request n => s.free n
  | .close n c _ => s.free n && (s.notes c).isNone
  | .advance n _ =>
      match (s.inCallback n).bind s.notes with
      | none | some (.done _) => true
      | _ => false
  | .repair => true

/-- The constructor of `callback` has found the source of the token stopped. -/
def notice (source : Stop.State) (n : Nat) (wait : Wait w) : Wait w :=
  match source.top n with
  | some (.invoke .constructor _) =>
      if wait.phase = .registering ∧ wait.call.token then
        { wait with call := { wait.call with sawStop := true } }
      else wait
  | _ => wait

/-- The predicate is false, whatever has been done to make it true. -/
def falsified (s : State w) : State w :=
  { s with
    ready := false
    announced := false
    producers := fun p => { s.producers p with fresh := false } }

def setProducer (s : State w) (p : Nat) (producer : Producer) : State w :=
  { s with producers := Function.update s.producers p producer }

/-- One step of the system. -/
def step (cfg : Config) (s : State w) : Action → Option (State w)
  | .source a =>
      if s.admits a then
        (s.source.step cfg.maxCallbacks a).map (fun source =>
          { s with source := source, waits := fun n => notice source n (s.waits n) })
      else none
  | .wait n timeout token =>
      if (s.waits n).phase = .out ∧ (s.last n).isSome then
        some (s.goto n ⟨timeout, token, 0, 0, 0, 0, false, false⟩ .entry)
      else none
  | .advance n take => s.advance cfg n take
  | .callback n give => do
      let c ← s.inCallback n
      let (signal, note) ← s.signal.notifyImpl give (← s.notes c)
      some { s with signal := signal, notes := Function.update s.notes c (some note) }
  | .change p ready =>
      if (s.producers p).notify.isSome then none
      else if ready then some ({ s with ready := true }.setProducer p ⟨true, none⟩)
      else some s.falsified
  | .consume => some s.falsified
  | .notify p isr =>
      if (s.producers p).notify.isSome then none
      -- `notify_from_isr` returns `not_supported`.
      else if isr ∧ ! cfg.isrNotification then some s
      else some (s.setProducer p { s.producers p with notify := some .entry })
  | .notifying p give => do
      let (signal, note) ← s.signal.notifyImpl give (← (s.producers p).notify)
      match note with
      | .done status =>
          some ({ s with
            signal := signal
            announced :=
              s.announced || (status = ErrorCode.ok && (s.producers p).fresh) }.setProducer p
                { s.producers p with notify := none })
      | note => some ({ s with signal := signal }.setProducer p
          { s.producers p with notify := some note })
  | .tick ms => some { s with now := s.now + ms }

end State

/-- The system with a new signal, whose semaphore has been created, and a new source;
`initialization` is what creating the primitives of the source returned. -/
def waitMachine (w : Nat) (cfg : Config) (initialization : ErrorCode) :
    Machine (State w) Action where
  init :=
    { source := (Stop.stopMachine cfg.maxCallbacks initialization).init
      signal := ⟨.ok, .ok, 0, false, false⟩
      ready := false
      now := 0
      waits := fun _ => ⟨.out, ⟨0, false, 0, 0, 0, 0, false, false⟩⟩
      notes := fun _ => none
      producers := fun _ => ⟨false, none⟩
      announced := false
      returns := [] }
  step := State.step cfg

end MicrOsal.WaitReady
