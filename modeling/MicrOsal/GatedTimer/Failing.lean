import MicrOsal.GatedTimer.Calls

/-!
# MicrOsal.GatedTimer.Failing

What a call that fails leaves behind. A timer that is active has been started (`Unstarted`), so
that it cannot be started again: a reset stops it, and fails.
-/

namespace MicrOsal.GatedTimer

variable {b : Backend} {period n : Nat} {autoReload : Bool} {last : Option ErrorCode}
  {s s' : State} {th : Thread}

/-! ### Before the first start -/

/-- In `osal_timer_start` with `ever_started` taken, or in the handler. -/
def Thread.started : Thread → Bool
  | .startSets | .startArms | .startUnsets | .dispatched | .checks | .marks | .calls | .rechecks
  | .rearms | .releases => true
  | _ => false

/-- A timer that was never started is not active, and nothing makes it so but a start. -/
def Unstarted (s : State) : Prop :=
  s.timer.everStarted = false →
    s.timer.active = false ∧ s.timer.armed = none ∧ ∀ th ∈ s.threads, th.started = false

theorem Unstarted.setThread {t : Timer} {cleared stopped : Bool} {begun : List Bool}
    (h : Unstarted s) (hstarted : t.everStarted = s.timer.everStarted)
    (hactive : t.active = true → s.timer.active = true)
    (harmed : s.timer.armed = none → t.armed = none) (hth : th.started = false) :
    Unstarted ⟨t, s.now, s.threads.set n th, cleared, stopped, begun⟩ := by
  intro hnever
  obtain ⟨hinactive, hnone, hthreads⟩ := h (hstarted.symm.trans hnever)
  refine ⟨Bool.eq_false_iff.mpr (fun ht => ?_), harmed hnone, fun u hu => ?_⟩
  · exact nomatch (hactive ht).symm.trans hinactive
  · rcases List.mem_or_eq_of_mem_set hu with hu | rfl
    · exact hthreads u hu
    · exact hth

/-- Once a timer was started, it stays so. -/
theorem Unstarted.of_started (h : s.timer.everStarted = true) : Unstarted s :=
  fun hnever => nomatch h.symm.trans hnever

theorem everStarted_of_go {fails : Bool} (h : s.go b n fails th = some s') :
    s'.timer.everStarted = s.timer.everStarted := by
  cases th with
  | idle => cases h
  | startSets | startUnsets | stopClears | stopReleases | periodStores | periodReleases | marks
  | calls | releases =>
      cases h
      rfl
  | startArms | stopCancels | periodTakes | dispatched | rechecks | rearms =>
      rw [State.go] at h
      split at h
      all_goals
        cases h
        rfl
  | checks =>
      rw [State.go] at h
      split at h
      · cases h
        rfl
      · split at h
        all_goals
          cases h
          rfl

theorem Unstarted.go {fails : Bool} (h : Unstarted s) (hn : s.threads[n]? = some th)
    (hs : s.go b n fails th = some s') : Unstarted s' := by
  cases hstarted : s.timer.everStarted with
  | true => exact .of_started ((everStarted_of_go hs).trans hstarted)
  | false =>
      have hth := (h hstarted).2.2 th (List.mem_of_getElem? hn)
      cases th with
      | idle => cases hs
      | stopClears =>
          cases hs
          exact h.setThread rfl nofun id rfl
      | stopCancels =>
          rw [State.go] at hs
          split at hs
          all_goals obtain rfl := Option.some.inj hs
          · exact h.setThread rfl id id rfl
          · exact h.setThread rfl id (fun _ => rfl) rfl
      | stopReleases | periodStores | periodReleases =>
          cases hs
          exact h.setThread rfl id id rfl
      | periodTakes =>
          rw [State.go] at hs
          split at hs
          all_goals
            cases hs
            exact h.setThread rfl id id rfl
      | startSets | startArms | startUnsets | dispatched | checks | marks | calls | rechecks
      | rearms | releases => cases hth

theorem Unstarted.step {a : Action} (h : Unstarted s) (hs : s.step b a = some s') :
    Unstarted s' := by
  cases a with
  | tick =>
      cases hs
      exact h
  | spawn =>
      cases hs
      intro hnever
      obtain ⟨hactive, harmed, hthreads⟩ := h hnever
      refine ⟨hactive, harmed, fun u hu => ?_⟩
      rcases List.mem_append.mp hu with hu | hu
      · exact hthreads u hu
      · obtain rfl := List.mem_singleton.mp hu
        rfl
  | start n =>
      dsimp only [State.step] at hs
      split at hs
      case h_1 last hn =>
        cases hs
        unfold State.start
        split
        · exact h.setThread rfl id id rfl
        · exact .of_started rfl
      case h_2 => cases hs
  | stop n =>
      dsimp only [State.step] at hs
      split at hs
      case h_1 last hn =>
        cases hs
        unfold State.stop
        split
        · exact h.setThread rfl id id rfl
        · exact h.setThread rfl id id rfl
      case h_2 => cases hs
  | setPeriod n period =>
      dsimp only [State.step] at hs
      split at hs
      case h_1 last hn =>
        cases hs
        unfold State.setPeriod
        split
        · exact h.setThread rfl id id rfl
        · split
          · exact h.setThread rfl id id rfl
          · exact h.setThread rfl id id rfl
      case h_2 => cases hs
  | expire =>
      dsimp only [State.step] at hs
      unfold State.expire at hs
      split at hs
      case h_1 due hdue =>
        split at hs
        case isTrue =>
          cases hs
          intro hnever
          exact nomatch hdue.symm.trans (h hnever).2.1
        case isFalse => cases hs
      case h_2 => cases hs
  | go n fails =>
      obtain ⟨th, hn, hgo⟩ := Option.bind_eq_some_iff.mp hs
      exact h.go hn hgo

theorem Unstarted.of_reachable (h : (machine b period autoReload).Reachable s) : Unstarted s := by
  refine h.invariant (I := Unstarted) ?_ (fun _ _ _ _ hi hs => hi.step hs)
  exact fun _ => ⟨rfl, rfl, fun _ hmem => nomatch hmem⟩

/-! ### Calls that fail -/

/-- What a user of a timer relies on. -/
structure Observed where
  /-- The timer is going to fire. -/
  fires : Bool
  /-- When it is armed for. -/
  due : Option Nat
  period : Nat
  autoReload : Bool
  deriving DecidableEq, Repr

namespace State

/-- It is armed, or an expiry of it is on its way. -/
def willFire (s : State) : Bool :=
  s.timer.active && (s.timer.armed.isSome || s.threads.any Thread.inHandler)

def observed (s : State) : Observed where
  fires := s.willFire
  due := if s.timer.active then s.timer.armed else none
  period := s.timer.period
  autoReload := s.timer.autoReload

/-- A call that nobody interrupts. -/
def exec (b : Backend) (fails : Failures) (s : State) (op : Op) : ErrorCode × State :=
  ((s.timer.exec b s.now fails op).1,
    { s with timer := (s.timer.exec b s.now fails op).2 })

end State

/-- Of a timer that is not active, only the period and the mode can be seen. -/
theorem observed_of_inactive {t : Timer} (hactive : t.active = false)
    (hsilent : s.willFire = false) (hperiod : t.period = s.timer.period)
    (hreload : t.autoReload = s.timer.autoReload) :
    ({ s with timer := t } : State).observed = s.observed := by
  have hdue : (if s.timer.active = true then s.timer.armed else none) = none := by
    cases harmed : s.timer.armed with
    | none => exact ite_self none
    | some due =>
        unfold State.willFire at hsilent
        rw [harmed, Option.isSome_some, Bool.true_or, Bool.and_true] at hsilent
        rw [hsilent]
        rfl
  unfold State.observed
  rw [hdue, hsilent, hperiod, hreload]
  unfold State.willFire
  rw [hactive]
  rfl

theorem Unstarted.silent (h : Unstarted s) (hstarted : s.timer.everStarted = false) :
    s.willFire = false := by
  unfold State.willFire
  rw [(h hstarted).1]
  rfl

namespace Timer

variable {now : Nat} {fails : Failures} {t : Timer}

/-- A start that fails has found the timer started, or has not armed it. -/
theorem start_failed (h : (t.start b now fails).1 ≠ .ok) :
    (t.start b now fails).2 = t ∨ t.everStarted = false ∧
      (t.start b now fails).2 = { t with everStarted := true, active := false } := by
  unfold start at h ⊢
  split
  case isTrue => exact .inl rfl
  case isFalse hstarted =>
    rw [if_neg hstarted] at h
    dsimp only at h ⊢
    split
    case isTrue => exact .inr ⟨Bool.eq_false_iff.mpr hstarted, rfl⟩
    case isFalse harms =>
      rw [if_neg harms] at h
      exact absurd rfl h

theorem stop_failed (h : (t.stop b fails).1 ≠ .ok) : (t.stop b fails).2 = t := by
  unfold stop at h ⊢
  split
  case isTrue => rfl
  case isFalse hgate =>
    rw [if_neg hgate] at h
    dsimp only at h
    split at h <;> exact absurd rfl h

theorem setPeriod_failed {new : Nat} (h : (t.setPeriod b new).1 ≠ .ok) :
    (t.setPeriod b new).2 = t := by
  unfold setPeriod at h ⊢
  split
  case isTrue => rfl
  case isFalse hactive =>
    rw [if_neg hactive] at h
    split
    case isTrue => rfl
    case isFalse haccepts =>
      rw [if_neg haccepts] at h
      split
      case isTrue => rfl
      case isFalse hgate =>
        rw [if_neg hgate] at h
        exact absurd rfl h

/-- With the gate taken, a reset does nothing. -/
theorem reset_of_gate (hgate : t.gate = true) : t.reset b now fails = (.notSupported, t) := by
  rw [reset, stop, if_pos hgate]

/-- Otherwise it stops the timer, and goes on to start it. -/
theorem reset_of_free (hgate : t.gate = false) :
    ∃ armed, t.reset b now fails =
      { t with active := false, armed := armed }.start b now fails := by
  rw [reset, stop, hgate, if_neg nofun]
  dsimp only
  split
  case h_1 stopped hstopped =>
    split at hstopped
    all_goals obtain ⟨-, rfl⟩ := Prod.mk.inj hstopped
    · exact ⟨t.armed, rfl⟩
    · exact ⟨none, rfl⟩
  case h_2 code stopped hcode hstopped =>
    split at hstopped
    all_goals
      obtain ⟨rfl, -⟩ := Prod.mk.inj hstopped
      exact absurd rfl hcode

end Timer

/-- If it fails, the timer is as it was, for its user. -/
def FailsSafely (b : Backend) (s : State) (op : Op) (fails : Failures) : Prop :=
  (s.exec b fails op).1 ≠ .ok → (s.exec b fails op).2.observed = s.observed

/-- A reset of a timer that is going to fire, with the gate free. -/
def ResetsRunning (s : State) (op : Op) : Prop :=
  op = .reset ∧ s.timer.gate = false ∧ s.willFire = true

/-- A start that fails, of a timer that was perhaps just stopped. -/
theorem observed_of_start {t : Timer} {fails : Failures} (h : Unstarted s)
    (hfails : (t.start b s.now fails).1 ≠ .ok)
    (hsame : ({ s with timer := t } : State).observed = s.observed)
    (hstarted : t.everStarted = s.timer.everStarted) (hperiod : t.period = s.timer.period)
    (hreload : t.autoReload = s.timer.autoReload) :
    ({ s with timer := (t.start b s.now fails).2 } : State).observed = s.observed := by
  rcases Timer.start_failed hfails with heq | ⟨hnever, heq⟩
  · rw [heq]
    exact hsame
  · rw [heq]
    exact observed_of_inactive rfl (h.silent (hstarted.symm.trans hnever)) hperiod hreload

theorem failsSafely_iff (h : Unstarted s) (op : Op) (fails : Failures) :
    FailsSafely b s op fails ↔ ¬ ResetsRunning s op := by
  constructor
  · rintro hsafe ⟨rfl, hgate, hfires⟩
    have hactive : s.timer.active = true := (Bool.and_eq_true_iff.mp hfires).1
    have hstarted : s.timer.everStarted = true := by
      by_contra hnever
      exact nomatch hactive.symm.trans (h (Bool.eq_false_iff.mpr hnever)).1
    obtain ⟨armed, hreset⟩ := Timer.reset_of_free (b := b) hgate
    have hrefused : s.timer.reset b s.now fails =
        (.notSupported, { s.timer with active := false, armed := armed }) := by
      rw [hreset, Timer.start]
      exact if_pos hstarted
    unfold FailsSafely State.exec Timer.exec at hsafe
    rw [hrefused] at hsafe
    have hsame := congrArg Observed.fires (hsafe nofun)
    unfold State.observed at hsame
    rw [hfires] at hsame
    cases hsame
  · intro hnot hfails
    cases op with
    | start => exact observed_of_start h hfails rfl rfl rfl rfl
    | stop =>
        have hkept : (s.exec b fails .stop).2 = s := by
          unfold State.exec Timer.exec
          rw [Timer.stop_failed hfails]
        rw [hkept]
    | setPeriod new =>
        have hkept : (s.exec b fails (.setPeriod new)).2 = s := by
          unfold State.exec Timer.exec
          rw [Timer.setPeriod_failed hfails]
        rw [hkept]
    | reset =>
        unfold State.exec Timer.exec at hfails ⊢
        cases hgate : s.timer.gate with
        | true => rw [Timer.reset_of_gate hgate]
        | false =>
            have hsilent : s.willFire = false :=
              Bool.eq_false_iff.mpr (fun hfires => hnot ⟨rfl, hgate, hfires⟩)
            obtain ⟨armed, hreset⟩ :=
              Timer.reset_of_free (b := b) hgate
            dsimp only at hfails ⊢
            rw [hreset] at hfails ⊢
            refine observed_of_start h hfails ?_ rfl rfl rfl
            exact observed_of_inactive rfl hsilent rfl rfl

end MicrOsal.GatedTimer
