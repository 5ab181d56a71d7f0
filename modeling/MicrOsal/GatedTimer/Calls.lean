import MicrOsal.GatedTimer.Model

/-!
# MicrOsal.GatedTimer.Calls

The calls of a gated timer as functions of the timer, for a call that nobody interrupts, and
that they are what the steps of the machine come to (`stop_steps` and its siblings).
-/

namespace MicrOsal.GatedTimer

/-- Which native calls fail. -/
structure Failures where
  arm : Bool
  cancel : Bool
  deriving DecidableEq, Repr

inductive Op
  | start
  | stop
  | reset
  | setPeriod (period : Nat)
  deriving DecidableEq, Repr

namespace Timer

/-- `osal_timer_start`. -/
def start (b : Backend) (now : Nat) (fails : Failures) (t : Timer) : ErrorCode × Timer :=
  if t.everStarted then (.notSupported, t)
  else
    let started := { t with everStarted := true, active := true }
    if b.mayFail && fails.arm then (.unknown, { started with active := false })
    else (.ok, started.arm now)

/-- `osal_timer_stop`. -/
def stop (b : Backend) (fails : Failures) (t : Timer) : ErrorCode × Timer :=
  if t.gate then (.notSupported, t)
  else
    let stopped := { t with active := false }
    if b.mayFail && fails.cancel then (.ok, stopped) else (.ok, stopped.cancel)

/-- `osal_timer_reset`. -/
def reset (b : Backend) (now : Nat) (fails : Failures) (t : Timer) : ErrorCode × Timer :=
  match t.stop b fails with
  | (.ok, stopped) => stopped.start b now fails
  | (code, stopped) => (code, stopped)

/-- `osal_timer_set_period`. -/
def setPeriod (b : Backend) (period : Nat) (t : Timer) : ErrorCode × Timer :=
  if t.active then (.notSupported, t)
  else if ! b.accepts period then (.invalidArgument, t)
  else if t.gate then (.notSupported, t)
  else (.ok, { t with period := period })

def exec (b : Backend) (now : Nat) (fails : Failures) (t : Timer) : Op → ErrorCode × Timer
  | .start => t.start b now fails
  | .stop => t.stop b fails
  | .reset => t.reset b now fails
  | .setPeriod period => t.setPeriod b period

end Timer

/-! ### Calls and steps -/

variable {b : Backend} {period n : Nat} {autoReload : Bool} {last : Option ErrorCode}
  {s : State}

/-- The steps of thread `n` in a stop. -/
def stopSteps (s : State) (n : Nat) (fails : Failures) : List Action :=
  if s.timer.gate then [.stop n] else [.stop n, .go n false, .go n fails.cancel, .go n false]

/-- The steps of thread `n` in a start. -/
def startSteps (b : Backend) (s : State) (n : Nat) (fails : Failures) : List Action :=
  if s.timer.everStarted then [.start n]
  else if b.mayFail && fails.arm then [.start n, .go n false, .go n true, .go n false]
  else [.start n, .go n false, .go n false]

/-- The steps of thread `n` in a change of the period. -/
def setPeriodSteps (b : Backend) (s : State) (n period : Nat) : List Action :=
  if s.timer.active || ! b.accepts period then [.setPeriod n period]
  else if s.timer.gate then [.setPeriod n period, .go n false]
  else [.setPeriod n period, .go n false, .go n false, .go n false]

theorem stop_steps (hn : s.threads[n]? = some (.idle last)) (fails : Failures) :
    ((machine b period autoReload).run s (stopSteps s n fails)).map
        (fun s' => (s'.timer, s'.threads[n]?)) =
      some ((s.timer.stop b fails).2, some (.idle (some (s.timer.stop b fails).1))) := by
  have hset : ∀ th, (s.threads.set n th)[n]? = some th :=
    fun th => List.getElem?_set_self (List.getElem?_eq_some_iff.mp hn).1
  unfold stopSteps Timer.stop
  cases hgate : s.timer.gate with
  | true =>
      simp [Machine.run, machine, State.step, State.stop, State.finish, State.setThread, hset, hn,
        hgate]
  | false =>
      cases hfails : b.mayFail && fails.cancel <;>
        simp [Machine.run, machine, State.step, State.stop, State.go, State.release,
          State.setThread, hset, hn, hgate, Timer.cancel, hfails]

theorem start_steps (hn : s.threads[n]? = some (.idle last)) (fails : Failures) :
    ((machine b period autoReload).run s (startSteps b s n fails)).map
        (fun s' => (s'.timer, s'.threads[n]?)) =
      some ((s.timer.start b s.now fails).2,
        some (.idle (some (s.timer.start b s.now fails).1))) := by
  have hset : ∀ th, (s.threads.set n th)[n]? = some th :=
    fun th => List.getElem?_set_self (List.getElem?_eq_some_iff.mp hn).1
  unfold startSteps Timer.start
  cases hstarted : s.timer.everStarted with
  | true =>
      simp [Machine.run, machine, State.step, State.start, State.finish, State.setThread, hset, hn,
        hstarted]
  | false =>
      cases hfails : b.mayFail && fails.arm with
      | true =>
          have hmay := (Bool.and_eq_true_iff.mp hfails).1
          simp [Machine.run, machine, State.step, State.start, State.go, State.finish,
            State.setThread, hset, hn, hstarted, hmay]
      | false =>
          simp [Machine.run, machine, State.step, State.start, State.go, State.finish,
            State.setThread, hset, hn, hstarted]

theorem setPeriod_steps (hn : s.threads[n]? = some (.idle last)) (new : Nat) :
    ((machine b period autoReload).run s (setPeriodSteps b s n new)).map
        (fun s' => (s'.timer, s'.threads[n]?)) =
      some ((s.timer.setPeriod b new).2, some (.idle (some (s.timer.setPeriod b new).1))) := by
  have hset : ∀ th, (s.threads.set n th)[n]? = some th :=
    fun th => List.getElem?_set_self (List.getElem?_eq_some_iff.mp hn).1
  unfold setPeriodSteps Timer.setPeriod
  cases hactive : s.timer.active with
  | true =>
      simp [Machine.run, machine, State.step, State.setPeriod, State.finish, State.setThread, hset,
        hn, hactive]
  | false =>
      cases haccepts : b.accepts new with
      | false =>
          simp [Machine.run, machine, State.step, State.setPeriod, State.finish, State.setThread,
            hset, hn, hactive, haccepts]
      | true =>
          cases hgate : s.timer.gate with
          | true =>
              simp [Machine.run, machine, State.step, State.setPeriod, State.go, State.finish,
                State.setThread, hset, hn, hactive, haccepts, hgate]
          | false =>
              simp [Machine.run, machine, State.step, State.setPeriod, State.go, State.release,
                State.setThread, hset, hn, hactive, haccepts, hgate]

end MicrOsal.GatedTimer
