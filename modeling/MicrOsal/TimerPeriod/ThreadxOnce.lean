import MicrOsal.TimerPeriod.Threadx

/-!
# MicrOsal.TimerPeriod.ThreadxOnce

The ThreadX timer keeps its mode (`Moded`), a change of the period does not wake it (`Quiet`),
and while the steps meet `Keeps` every callback of a one-shot timer has a start of its own
(`Credit`). A timer that is deactivated to be activated again keeps its start.
-/

namespace MicrOsal.TimerPeriod.Threadx

open ThreadxTimer (Timer Limits)

variable {l : Limits} {period : Nat} {autoReload : Bool} {s s' : State} {a : Action} {t : Timer}

/-! ### What a step does -/

/-- The steps of the task, by what they do to the timer. -/
inductive Goes (s : State) : Bool → State → Prop
  | gaveUp {fails : Bool} {code : ErrorCode} : Goes s fails (s.finish code)
  | stopped {reset : Bool} (htask : s.task = .stops reset) : Goes s false { s with
      timer := s.timer.deactivate s.now
      task := if reset then .starts else .idle (some .ok) }
  | running (htask : s.task = .starts) (hactive : s.timer.active = true) :
      Goes s false { s.finish .ok with account := s.account.start }
  | inactive (htask : s.task = .starts) (hactive : s.timer.active = false) : Goes s false { s with
      timer := { s.timer with started := true }
      task := .startChanges }
  | startChanged (htask : s.task = .startChanges) : Goes s false { s with
      timer := change s.timer.initial s.timer.period s.timer
      task := .startActivates }
  | started (htask : s.task = .startActivates) : Goes s false { s with
      timer := s.timer.activate s.now
      task := .idle (some .ok)
      account := s.account.start }
  | got {period : Nat} (htask : s.task = .gets period) :
      Goes s false { s with task := .deactivates s.timer.active period }
  | deactivated {active : Bool} {period : Nat} (htask : s.task = .deactivates active period) :
      Goes s false { s with
        timer := s.timer.deactivate s.now
        task := .changes active s.timer.active period }
  | changed {active running : Bool} {period : Nat}
      (htask : s.task = .changes active running period) :
      Goes s false { s with
        timer := (change period (if s.timer.period = 0 then 0 else period) s.timer).store period
        task := if active then .activates running else .idle (some .ok) }
  | activated {running : Bool} (htask : s.task = .activates running) : Goes s false { s with
      timer := s.timer.activate s.now
      task := .idle (some .ok) }

theorem goes_of_go {fails : Bool} (hs : s.go fails = some s') : Goes s fails s' := by
  unfold State.go at hs
  generalize htask : s.task = here at hs
  cases here with
  | idle last =>
      cases hs
  | stops reset =>
      cases fails with
      | true => obtain rfl := Option.some.inj hs; exact .gaveUp
      | false => obtain rfl := Option.some.inj hs; exact .stopped htask
  | starts =>
      cases fails with
      | true => obtain rfl := Option.some.inj hs; exact .gaveUp
      | false =>
          dsimp only at hs
          rw [if_neg Bool.false_ne_true] at hs
          split at hs
          all_goals obtain rfl := Option.some.inj hs
          case isTrue hactive => exact .running htask hactive
          case isFalse hactive => exact .inactive htask (Bool.eq_false_iff.mpr hactive)
  | startChanges =>
      cases fails with
      | true => obtain rfl := Option.some.inj hs; exact .gaveUp
      | false => obtain rfl := Option.some.inj hs; exact .startChanged htask
  | startActivates =>
      dsimp only at hs
      split at hs
      all_goals obtain rfl := Option.some.inj hs
      case isTrue => exact .gaveUp
      case isFalse hnot =>
        cases fails with
        | true => exact absurd rfl hnot
        | false => exact .started htask
  | gets period =>
      cases fails with
      | true => obtain rfl := Option.some.inj hs; exact .gaveUp
      | false => obtain rfl := Option.some.inj hs; exact .got htask
  | deactivates active period =>
      cases fails with
      | true => obtain rfl := Option.some.inj hs; exact .gaveUp
      | false => obtain rfl := Option.some.inj hs; exact .deactivated htask
  | changes active running period =>
      cases fails with
      | true => obtain rfl := Option.some.inj hs; exact .gaveUp
      | false => obtain rfl := Option.some.inj hs; exact .changed htask
  | activates running =>
      dsimp only at hs
      split at hs
      all_goals obtain rfl := Option.some.inj hs
      case isTrue => exact .gaveUp
      case isFalse hnot =>
        cases fails with
        | true => exact absurd rfl hnot
        | false => exact .activated htask

theorem call_cases {task : Task} (hs : s.call task = some s') :
    s' = { s with task := task, account := s.account.call } := by
  unfold State.call at hs
  split at hs
  · exact (Option.some.inj hs).symm
  · cases hs

theorem setPeriod_cases (hs : s.setPeriod l period = some s') :
    s' = { s with
      task := if l.accepts period then .gets period else .idle (some .invalidArgument)
      account := s.account.setPeriod s.timer.armed.isNone s.owed } := by
  unfold State.setPeriod at hs
  split at hs
  · exact (Option.some.inj hs).symm
  · cases hs

theorem expire_cases (hs : s.expire = some s') : ∃ due, s.timer.armed = some due ∧
    s.calls = false ∧ s' = { s with timer := expire due s.timer, calls := true } := by
  unfold State.expire at hs
  split at hs
  case h_1 due harmed =>
    split at hs
    case isTrue => cases hs
    case isFalse hnot =>
      refine ⟨due, harmed, Bool.eq_false_iff.mpr (fun hcalls => hnot ?_),
        (Option.some.inj hs).symm⟩
      rw [hcalls]
      rfl
  case h_2 => cases hs

theorem callback_cases (hs : s.callback = some s') : s.calls = true ∧
    s' = { s with calls := false, account := s.account.callback } := by
  unfold State.callback at hs
  split at hs
  case isTrue hcalls => exact ⟨hcalls, (Option.some.inj hs).symm⟩
  case isFalse => cases hs

/-! ### The timer -/

/-- It is periodic, for the next expiry and for the next start. -/
structure Timer.Moded (autoReload : Bool) (t : Timer) : Prop where
  period : t.period ≠ 0 ↔ autoReload = true
  reschedule : t.reschedule ≠ 0 ↔ autoReload = true

theorem moded_deactivate {now : Nat} (h : Timer.Moded autoReload t) :
    Timer.Moded autoReload (t.deactivate now) := by
  unfold Timer.deactivate
  split
  · exact ⟨h.period, h.reschedule⟩
  · exact h

theorem moded_expire {due : Nat} (h : Timer.Moded autoReload t) :
    Timer.Moded autoReload (expire due t) := by
  unfold expire
  split
  · exact ⟨h.period, h.reschedule⟩
  · exact ⟨h.period, h.reschedule⟩

theorem moded_change {initial reschedule : Nat} (h : Timer.Moded autoReload t)
    (hreschedule : reschedule ≠ 0 ↔ autoReload = true) :
    Timer.Moded autoReload (change initial reschedule t) := by
  unfold change
  split
  · exact h
  · exact ⟨h.period, hreschedule⟩

theorem ite_period (h : t.period ≠ 0 ↔ autoReload = true) (hperiod : period ≠ 0) :
    (if t.period = 0 then 0 else period) ≠ 0 ↔ autoReload = true := by
  rw [← h]
  by_cases hzero : t.period = 0
  · rw [if_pos hzero, hzero]
  · rw [if_neg hzero]
    exact ⟨fun _ => hzero, fun _ => hperiod⟩

theorem moded_store (h : Timer.Moded autoReload t) (hperiod : period ≠ 0) :
    Timer.Moded autoReload (t.store period) :=
  ⟨ite_period h.period hperiod, h.reschedule⟩

theorem armed_change {initial reschedule : Nat} :
    (change initial reschedule t).armed = t.armed := by
  unfold change
  split <;> rfl

theorem armed_of_deactivate {now : Nat} : (t.deactivate now).armed = none := by
  unfold Timer.deactivate
  cases harmed : t.armed with
  | none => exact harmed
  | some due => rfl

/-! ### Mode, quiet and credit -/

/-- The period of a change is not 0. -/
def Task.Positive : Task → Prop
  | .gets period | .deactivates _ period | .changes _ _ period => period ≠ 0
  | _ => True

structure Moded (autoReload : Bool) (s : State) : Prop where
  timer : Timer.Moded autoReload s.timer
  task : s.task.Positive

theorem Moded.step (h : Moded autoReload s) (hs : s.step l a = some s') :
    Moded autoReload s' := by
  obtain ⟨htimer, htask⟩ := h
  cases a with
  | tick =>
      obtain rfl := Option.some.inj hs
      exact ⟨htimer, htask⟩
  | expire =>
      obtain ⟨due, -, -, rfl⟩ := expire_cases hs
      exact ⟨moded_expire htimer, htask⟩
  | callback =>
      obtain ⟨-, rfl⟩ := callback_cases hs
      exact ⟨htimer, htask⟩
  | start | stop | reset =>
      obtain rfl := call_cases hs
      exact ⟨htimer, trivial⟩
  | setPeriod period =>
      obtain rfl := setPeriod_cases hs
      refine ⟨htimer, ?_⟩
      dsimp only
      split
      case isTrue haccepts => exact (of_decide_eq_true haccepts).1
      case isFalse => trivial
  | go fails =>
      cases goes_of_go hs with
      | gaveUp | running => exact ⟨htimer, trivial⟩
      | inactive => exact ⟨⟨htimer.period, htimer.reschedule⟩, trivial⟩
      | @stopped reset =>
          refine ⟨moded_deactivate htimer, ?_⟩
          cases reset <;> trivial
      | startChanged => exact ⟨moded_change htimer htimer.period, trivial⟩
      | started | activated => exact ⟨⟨htimer.period, htimer.reschedule⟩, trivial⟩
      | got heq =>
          rw [heq] at htask
          exact ⟨htimer, htask⟩
      | deactivated heq =>
          rw [heq] at htask
          exact ⟨moded_deactivate htimer, htask⟩
      | @changed active _ _ heq =>
          rw [heq] at htask
          refine ⟨moded_store (moded_change htimer (ite_period htimer.period htask)) htask, ?_⟩
          cases active <;> trivial

/-- The tasks that may activate the timer. -/
def Task.sleeps : Task → Bool
  | .idle _ | .gets _ | .deactivates false _ | .changes false _ _ => true
  | _ => false

/-- Since a change of the period found it inactive, the timer has not been activated. -/
def Quiet (s : State) : Prop :=
  ∀ k, s.account.quiet = some k →
    s.timer.armed = none ∧ s.account.callbacks + s.owed ≤ k ∧ s.task.sleeps = true

/-- A callback is made by an expiry that is no longer owed. -/
theorem callbacks_of_callback (hs : s.callback = some s') :
    s'.account.callbacks + s'.owed = s.account.callbacks + s.owed := by
  obtain ⟨hcalls, rfl⟩ := callback_cases hs
  unfold State.owed Account.callback
  rw [hcalls]
  rfl

theorem Quiet.step (h : Quiet s) (hs : s.step l a = some s') : Quiet s' := by
  intro k hk
  cases a with
  | tick =>
      obtain rfl := Option.some.inj hs
      exact h k hk
  | expire =>
      obtain ⟨due, harmed, -, rfl⟩ := expire_cases hs
      exact nomatch harmed.symm.trans (h k hk).1
  | callback =>
      have howed := callbacks_of_callback hs
      obtain ⟨hcalls, rfl⟩ := callback_cases hs
      rw [howed]
      exact h k hk
  | start | stop | reset =>
      obtain rfl := call_cases hs
      cases hk
  | setPeriod period =>
      obtain rfl := setPeriod_cases hs
      have hbegun := Option.ite_none_right_eq_some.mp hk
      refine ⟨Option.isNone_iff_eq_none.mp hbegun.1, (Option.some.inj hbegun.2).le, ?_⟩
      dsimp only
      split <;> rfl
  | go fails =>
      cases goes_of_go hs with
      | gaveUp => exact ⟨(h k hk).1, (h k hk).2.1, rfl⟩
      | stopped heq | inactive heq | startChanged heq | started heq | activated heq =>
          have htask := (h k hk).2.2
          rw [heq] at htask
          cases htask
      | running heq =>
          have htask := (h k hk).2.2
          rw [heq] at htask
          cases htask
      | got heq =>
          obtain ⟨harmed, hcalls, -⟩ := h k hk
          refine ⟨harmed, hcalls, ?_⟩
          unfold Timer.active
          rw [harmed]
          rfl
      | @deactivated active _ heq =>
          obtain ⟨-, hcalls, htask⟩ := h k hk
          refine ⟨armed_of_deactivate, hcalls, ?_⟩
          rw [heq] at htask
          cases active
          · rfl
          · cases htask
      | @changed active _ _ heq =>
          obtain ⟨harmed, hcalls, htask⟩ := h k hk
          refine ⟨armed_change.trans harmed, hcalls, ?_⟩
          rw [heq] at htask
          cases active
          · rfl
          · cases htask

/-- A running timer was deactivated, to be activated again. -/
def Task.holds : Task → Nat
  | .changes true true _ | .activates true => 1
  | _ => 0

/-- Every callback of a one-shot timer, also one that is on its way or to come, has a start. -/
def Credit (s : State) : Prop :=
  s.account.callbacks + s.owed + toCome s.timer.armed + s.task.holds ≤ s.account.starts

theorem Credit.step (h : Credit s) (hmode : Moded false s) (hkeeps : Keeps s a)
    (hs : s.step l a = some s') : Credit s' := by
  unfold Credit at h ⊢
  have hoff : s.timer.period = 0 := by
    by_contra hne
    cases hmode.timer.period.mp hne
  have honce : s.timer.reschedule = 0 := by
    by_contra hne
    cases hmode.timer.reschedule.mp hne
  cases a with
  | tick =>
      obtain rfl := Option.some.inj hs
      exact h
  | expire =>
      obtain ⟨due, harmed, hcalls, rfl⟩ := expire_cases hs
      unfold State.owed at h ⊢
      unfold expire
      rw [if_pos honce]
      rw [harmed, hcalls] at h
      exact h
  | callback =>
      have howed := callbacks_of_callback hs
      obtain ⟨hcalls, rfl⟩ := callback_cases hs
      rw [howed]
      exact h
  | start | stop | reset =>
      obtain rfl := call_cases hs
      exact le_trans (Nat.add_le_add_left (Nat.zero_le _) _) h
  | setPeriod period =>
      obtain rfl := setPeriod_cases hs
      refine le_trans (Nat.add_le_add_left ?_ _) h
      dsimp only
      split <;> exact Nat.zero_le _
  | go fails =>
      cases goes_of_go hs with
      | gaveUp => exact le_trans (Nat.add_le_add_left (Nat.zero_le _) _) h
      | running heq =>
          rw [heq] at h
          exact le_trans h (Nat.le_succ _)
      | inactive heq =>
          rw [heq] at h
          exact h
      | got heq =>
          rw [heq] at h
          exact h
      | @stopped reset =>
          dsimp only [State.owed] at h ⊢
          rw [armed_of_deactivate]
          have hholds : Task.holds (if reset then .starts else .idle (some .ok)) = 0 := by
            cases reset <;> rfl
          rw [hholds]
          dsimp only [toCome]
          omega
      | startChanged heq =>
          rw [heq] at h
          dsimp only [State.owed] at h ⊢
          rw [armed_change]
          exact h
      | started heq =>
          rw [heq] at h
          dsimp only [State.owed, Timer.activate, toCome, Account.start, Task.holds] at h ⊢
          omega
      | @deactivated active period heq =>
          rw [heq] at h
          have hholds : Task.holds (.changes active s.timer.active period) ≤
              toCome s.timer.armed := by
            unfold Timer.active
            cases active <;> cases s.timer.armed <;> simp [Task.holds, toCome]
          dsimp only [State.owed] at h ⊢
          rw [armed_of_deactivate]
          exact le_trans (Nat.add_le_add_left hholds _) h
      | @changed active running _ heq =>
          rw [heq] at h
          dsimp only [State.owed, Timer.store] at h ⊢
          rw [armed_change]
          refine le_trans (Nat.add_le_add_left ?_ _) h
          cases active <;> cases running <;> exact le_rfl
      | @activated running heq =>
          cases running with
          | true =>
              rw [heq] at h
              dsimp only [State.owed, Timer.activate, toCome, Task.holds] at h ⊢
              omega
          | false =>
              rcases hkeeps with hperiod | hnot
              · exact absurd hoff hperiod
              · exact absurd heq hnot

/-! ### Runs -/

theorem Moded.of_reachable (hperiod : 0 < period)
    (h : (machine l period autoReload).Reachable s) : Moded autoReload s := by
  refine h.invariant (I := Moded autoReload) ?_ (fun _ _ _ _ hi hs => hi.step hs)
  refine ⟨⟨?_, ?_⟩, trivial⟩
  all_goals cases autoReload <;> simp [machine, Timer.create, hperiod.ne']

theorem Quiet.of_reachable (h : (machine l period autoReload).Reachable s) : Quiet s := by
  refine h.invariant (I := Quiet) ?_ (fun _ _ _ _ hi hs => hi.step hs)
  exact fun _ hk => nomatch hk

theorem Credit.of_reachable (hperiod : 0 < period)
    (h : (machine l period false).ReachableBy Keeps s) : Credit s := by
  refine h.invariant (I := Credit) le_rfl ?_
  exact fun s a s' hr hi hkeeps hs => hi.step (.of_reachable hperiod hr.reachable) hkeeps hs

theorem noExtra (hperiod : 0 < period) (h : (machine l period autoReload).ReachableBy Keeps s) :
    NoExtra autoReload s.view := by
  have hmode := Moded.of_reachable hperiod h.reachable
  refine ⟨fun k hk => ?_, Bool.eq_iff_iff.mpr ?_, fun hoff => ?_⟩
  · obtain ⟨harmed, hcalls, -⟩ := Quiet.of_reachable h.reachable k hk
    exact ⟨Option.isSome_eq_false_iff.mpr (Option.isNone_iff_eq_none.mpr harmed), hcalls⟩
  · unfold State.view
    rw [decide_eq_true_iff]
    split
    · exact hmode.timer.reschedule
    · exact hmode.timer.period
  · subst hoff
    have hcredit := Credit.of_reachable hperiod h
    unfold Credit at hcredit
    dsimp only [State.view]
    omega

end MicrOsal.TimerPeriod.Threadx
