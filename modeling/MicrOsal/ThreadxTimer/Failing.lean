import MicrOsal.ThreadxTimer.Model

/-!
# MicrOsal.ThreadxTimer.Failing

What a call that fails leaves behind. A reset and a change of the period stop the timer first;
when a later native call fails, a timer that was running stays stopped (`StopsAndFails`).
-/

namespace MicrOsal.ThreadxTimer

/-- What a user of a timer relies on. -/
structure Observed where
  /-- When the timer fires next, and every how many ticks after that, if it is running. -/
  next : Option (Nat × Nat)
  period : Nat
  periodic : Bool
  deriving DecidableEq, Repr

namespace Timer

def observed (t : Timer) : Observed where
  next := t.armed.map (fun due => (due, t.reschedule))
  period := t.initial
  periodic := t.period ≠ 0

/-- If it fails, the timer is as it was, for its user. -/
def FailsSafely (l : Limits) (now : Nat) (t : Timer) (op : Op) (fails : Failures) : Prop :=
  (t.exec l now fails op).1 ≠ .ok → (t.exec l now fails op).2.observed = t.observed

/-- A running timer is deactivated, and a native call after that fails. -/
def StopsAndFails (l : Limits) (t : Timer) (fails : Failures) : Op → Prop
  | .start | .stop => False
  | .reset => t.active = true ∧ fails.deactivate = false ∧
      (fails.infoGet = true ∨ fails.change = true ∨ fails.activate = true)
  | .setPeriod period => l.accepts period = true ∧ t.active = true ∧ fails.infoGet = false ∧
      fails.deactivate = false ∧ (fails.change = true ∨ fails.activate = true)

variable {l : Limits} {now period : Nat} {fails : Failures} {t : Timer}

theorem deactivate_of_inactive (h : t.active = false) : t.deactivate now = t := by
  unfold active at h
  unfold deactivate
  cases harmed : t.armed with
  | none => rfl
  | some due =>
      rw [harmed] at h
      cases h

theorem armed_of_inactive (h : t.active = false) : t.armed = none := by
  unfold active at h
  cases harmed : t.armed with
  | none => rfl
  | some due =>
      rw [harmed] at h
      cases h

theorem armed_deactivate : (t.deactivate now).armed = none := by
  unfold deactivate
  cases harmed : t.armed with
  | none => exact harmed
  | some due => rfl

theorem next_of_active (h : t.active = true) : t.observed.next ≠ none := by
  unfold active at h
  unfold observed
  cases harmed : t.armed with
  | none =>
      rw [harmed] at h
      cases h
  | some due => nofun

/-- A timer that is not running is seen by what is stored of it. -/
theorem observed_of_inactive {t' : Timer} (harmed : t.armed = none) (harmed' : t'.armed = none)
    (hinitial : t'.initial = t.initial) (hperiod : t'.period = t.period) :
    t'.observed = t.observed := by
  unfold observed
  rw [harmed, harmed', hinitial, hperiod]
  rfl

/-- A start that fails has not activated the timer. -/
theorem start_failed (h : (t.start now fails).1 ≠ .ok) :
    (t.start now fails).2 = t ∨ t.armed = none ∧ (t.start now fails).2.armed = none ∧
      (t.start now fails).2.initial = t.initial ∧ (t.start now fails).2.period = t.period := by
  unfold start at h ⊢
  split
  case isTrue => exact .inl rfl
  case isFalse hinfo =>
    rw [if_neg hinfo] at h
    split
    case isTrue hactive =>
      rw [if_pos hactive] at h
      exact absurd rfl h
    case isFalse hactive =>
      have harmed := armed_of_inactive (Bool.eq_false_iff.mpr hactive)
      rw [if_neg hactive] at h
      dsimp only at h ⊢
      split
      case isTrue => exact .inr ⟨harmed, harmed, rfl, rfl⟩
      case isFalse hchange =>
        rw [if_neg hchange] at h
        split
        case isTrue => exact .inr ⟨harmed, harmed, rfl, rfl⟩
        case isFalse hactivate =>
          rw [if_neg hactivate] at h
          exact absurd rfl h

/-- A stopped timer is started when no native call fails. -/
theorem start_ok_iff (hinactive : t.active = false) : (t.start now fails).1 = .ok ↔
    fails.infoGet = false ∧ fails.change = false ∧ fails.activate = false := by
  unfold start
  rw [hinactive]
  cases fails.infoGet <;> cases fails.change <;> cases fails.activate <;> simp

theorem observed_of_start (h : (t.start now fails).1 ≠ .ok) :
    (t.start now fails).2.observed = t.observed := by
  rcases start_failed h with hsame | ⟨harmed, harmed', hinitial, hperiod⟩
  · rw [hsame]
  · exact observed_of_inactive harmed harmed' hinitial hperiod

theorem reset_of_failure (h : fails.deactivate = true) :
    t.reset now fails = (.unknown, t) := by
  rw [reset, stop, if_pos h]

theorem reset_of_success (h : fails.deactivate = false) :
    t.reset now fails = (t.deactivate now).start now fails := by
  rw [reset, stop, h, if_neg nofun]

theorem failsSafely_reset : t.FailsSafely l now .reset fails ↔
    ¬ t.StopsAndFails l fails .reset := by
  unfold FailsSafely exec
  dsimp only
  cases hdeactivate : fails.deactivate with
  | true =>
      rw [reset_of_failure hdeactivate]
      refine ⟨fun _ hstops => ?_, fun _ _ => rfl⟩
      rw [StopsAndFails, hdeactivate] at hstops
      cases hstops.2.1
  | false =>
      rw [reset_of_success hdeactivate]
      have hinactive : (t.deactivate now).active = false := by rw [active, armed_deactivate]; rfl
      constructor
      · rintro hsafe ⟨hactive, -, hfails⟩
        have herror : ((t.deactivate now).start now fails).1 ≠ .ok := by
          rw [Ne, start_ok_iff hinactive]
          rintro ⟨hinfo, hchange, hactivate⟩
          rw [hinfo, hchange, hactivate] at hfails
          rcases hfails with h | h | h <;> cases h
        refine next_of_active hactive ?_
        rw [← hsafe herror, observed_of_start herror]
        unfold observed
        rw [armed_deactivate]
        rfl
      · intro hnot herror
        rw [observed_of_start herror]
        cases hactive : t.active with
        | false => rw [deactivate_of_inactive hactive]
        | true =>
            refine absurd ⟨hactive, hdeactivate, ?_⟩ hnot
            rw [Ne, start_ok_iff hinactive] at herror
            by_contra hnone
            obtain ⟨hinfo, hrest⟩ := not_or.mp hnone
            obtain ⟨hchange, hactivate⟩ := not_or.mp hrest
            exact herror ⟨Bool.eq_false_iff.mpr hinfo, Bool.eq_false_iff.mpr hchange,
              Bool.eq_false_iff.mpr hactivate⟩

/-- After the native calls that come first, a change of the period fails at one of the others. -/
theorem setPeriod_failed (haccepts : l.accepts period = true) (hinfo : fails.infoGet = false)
    (hdeactivate : fails.deactivate = false) :
    (t.setPeriod l now period fails).1 ≠ .ok ↔
      fails.change = true ∨ t.active = true ∧ fails.activate = true := by
  unfold setPeriod
  rw [haccepts, hinfo, hdeactivate]
  cases fails.change <;> cases t.active <;> cases fails.activate <;> simp

/-- A change of the period that fails does not leave the timer running. -/
theorem armed_of_setPeriod (haccepts : l.accepts period = true) (hinfo : fails.infoGet = false)
    (hdeactivate : fails.deactivate = false) (h : (t.setPeriod l now period fails).1 ≠ .ok) :
    (t.setPeriod l now period fails).2.armed = none := by
  unfold setPeriod at h ⊢
  rw [haccepts, hinfo, hdeactivate] at h ⊢
  dsimp only [Bool.not_true, Bool.or_false] at h ⊢
  rw [if_neg nofun, if_neg nofun] at h ⊢
  split
  case isTrue => exact armed_deactivate
  case isFalse hchange =>
    rw [if_neg hchange] at h
    split
    case isTrue => exact armed_deactivate
    case isFalse hactive =>
      rw [if_neg hactive] at h
      split
      case isTrue => exact armed_deactivate
      case isFalse hactivate =>
        rw [if_neg hactivate] at h
        exact absurd rfl h

theorem setPeriod_of_change (haccepts : l.accepts period = true) (hinfo : fails.infoGet = false)
    (hdeactivate : fails.deactivate = false) (hchange : fails.change = true) :
    (t.setPeriod l now period fails).2 = t.deactivate now := by
  unfold setPeriod
  rw [haccepts, hinfo, hdeactivate, hchange]
  rfl

theorem failsSafely_setPeriod : t.FailsSafely l now (.setPeriod period) fails ↔
    ¬ t.StopsAndFails l fails (.setPeriod period) := by
  constructor
  · rintro hsafe ⟨haccepts, hactive, hinfo, hdeactivate, hfails⟩
    have herror : (t.setPeriod l now period fails).1 ≠ .ok :=
      (setPeriod_failed haccepts hinfo hdeactivate).mpr
        (hfails.imp id (fun hactivate => ⟨hactive, hactivate⟩))
    have harmed := armed_of_setPeriod haccepts hinfo hdeactivate herror
    refine next_of_active hactive ?_
    rw [← hsafe herror, exec, observed, harmed]
    rfl
  · intro hnot herror
    dsimp only [exec] at herror ⊢
    cases haccepts : l.accepts period with
    | false => simp [setPeriod, haccepts]
    | true =>
        cases hinfo : fails.infoGet with
        | true => simp [setPeriod, haccepts, hinfo]
        | false =>
            cases hdeactivate : fails.deactivate with
            | true => simp [setPeriod, haccepts, hdeactivate]
            | false =>
                -- The timer was not running, and there was no call to activate it.
                have hfails := (setPeriod_failed haccepts hinfo hdeactivate).mp herror
                cases hactive : t.active with
                | true =>
                    refine absurd ⟨haccepts, hactive, hinfo, hdeactivate, ?_⟩ hnot
                    exact hfails.imp id And.right
                | false =>
                    rw [hactive] at hfails
                    have hchange := hfails.resolve_right nofun
                    rw [setPeriod_of_change haccepts hinfo hdeactivate hchange,
                      deactivate_of_inactive hactive]

theorem stop_failed (h : (t.stop now fails).1 ≠ .ok) : (t.stop now fails).2 = t := by
  unfold stop at h ⊢
  split
  case isTrue => rfl
  case isFalse hfails =>
    rw [if_neg hfails] at h
    exact absurd rfl h

theorem failsSafely_iff (op : Op) :
    t.FailsSafely l now op fails ↔ ¬ t.StopsAndFails l fails op := by
  cases op with
  | start => exact ⟨fun _ => id, fun _ => observed_of_start⟩
  | stop =>
      refine ⟨fun _ => id, fun _ herror => ?_⟩
      dsimp only [exec] at herror ⊢
      rw [stop_failed herror]
  | reset => exact failsSafely_reset
  | setPeriod period => exact failsSafely_setPeriod

end Timer

end MicrOsal.ThreadxTimer
