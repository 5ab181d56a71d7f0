import MicrOsal.TimerPeriod.Linux

/-!
# MicrOsal.TimerPeriod.LinuxOnce

The Linux timer keeps its mode (`Moded`), a change of the period does not wake it (`Quiet`), and
while the steps meet `Keeps` every callback of a one-shot timer has a start of its own
(`Credit`).
-/

namespace MicrOsal.TimerPeriod.Linux

variable {period : Nat} {autoReload : Bool} {s s' : State} {a : Action} {t : Timer}

/-! ### The mode -/

/-- The timer fires again, and is going to be set to fire again, if it is periodic. -/
structure Timer.Moded (t : Timer) : Prop where
  value : t.spec.value ≠ 0
  spec : t.spec.interval ≠ 0 ↔ t.autoReload = true
  native : t.armed ≠ none → (t.interval ≠ 0 ↔ t.autoReload = true)

/-- The period of a change is not 0. -/
def Task.Positive : Task → Prop
  | .gets period | .sets _ period => period ≠ 0
  | _ => True

structure Moded (autoReload : Bool) (s : State) : Prop where
  mode : s.timer.autoReload = autoReload
  timer : s.timer.Moded
  task : s.task.Positive

namespace Timer.Moded

theorem store (h : t.Moded) (hperiod : period ≠ 0) : (t.store period).Moded where
  value := hperiod
  spec := by
    unfold Timer.store
    cases t.autoReload <;> simp [hperiod]
  native := h.native

theorem settime {now : Nat} (h : t.Moded) : (t.settime now t.spec).Moded :=
  ⟨h.value, h.spec, fun _ => h.spec⟩

theorem disarm {now : Nat} (h : t.Moded) : (t.settime now ⟨0, 0⟩).Moded :=
  ⟨h.value, h.spec, fun hne => absurd rfl hne⟩

theorem expire {due : Nat} (h : t.Moded) (harmed : t.armed ≠ none) : (t.expire due).Moded :=
  ⟨h.value, h.spec, fun _ => h.native harmed⟩

theorem read (h : t.Moded) {ticks : Nat} : ({ t with ticks := ticks } : Timer).Moded :=
  ⟨h.value, h.spec, h.native⟩

theorem periodic (h : t.Moded) :
    decide ((if t.armed.isSome then t.interval else t.spec.interval) ≠ 0) = t.autoReload := by
  cases harmed : t.armed with
  | none =>
      refine Bool.eq_iff_iff.mpr ?_
      rw [decide_eq_true_iff]
      exact h.spec
  | some due =>
      refine Bool.eq_iff_iff.mpr ?_
      rw [decide_eq_true_iff]
      exact h.native (by rw [harmed]; nofun)

end Timer.Moded

/-! ### What a step does -/

/-- The steps of the task, by what they do to the timer and to the watcher. -/
inductive Goes (s : State) : Bool → State → Prop
  | gaveUp {code : ErrorCode} : Goes s true (s.finish code)
  | stopped {reset : Bool} (htask : s.task = .stops reset) : Goes s false { s with
      timer := s.timer.settime s.now ⟨0, 0⟩
      task := if reset then .spawns else .idle (some .ok) }
  | watched {fails : Bool} (htask : s.task = .spawns) (hwatcher : s.watcher ≠ .absent) :
      Goes s fails { s with task := .starts }
  | spawned (htask : s.task = .spawns) (hwatcher : s.watcher = .absent) :
      Goes s false { s with watcher := .polls, task := .starts }
  | started (htask : s.task = .starts) : Goes s false { s with
      timer := s.timer.settime s.now s.timer.spec
      task := .idle (some .ok)
      account := s.account.start }
  | got {period : Nat} (htask : s.task = .gets period) :
      Goes s false { s with task := .sets s.timer.armed.isSome period }
  | stored {fails active : Bool} {period : Nat} {code : ErrorCode}
      (htask : s.task = .sets active period) :
      Goes s fails { s with timer := s.timer.store period, task := .idle (some code) }
  | set {period : Nat} (htask : s.task = .sets true period) : Goes s false { s with
      timer := (s.timer.store period).settime s.now (s.timer.store period).spec
      task := .idle (some .ok) }

theorem goes_of_go {fails : Bool} (hs : s.go fails = some s') : Goes s fails s' := by
  unfold State.go at hs
  generalize htask : s.task = here at hs
  cases here with
  | idle last =>
      cases hs
  | stops reset =>
      cases fails with
      | true => obtain rfl := Option.some.inj hs; exact .gaveUp
      | false => obtain rfl := Option.some.inj hs; exact .stopped htask
  | spawns =>
      dsimp only at hs
      split at hs
      case isTrue hwatcher =>
        obtain rfl := Option.some.inj hs
        exact .watched htask hwatcher
      case isFalse hwatcher =>
        cases fails with
        | true => obtain rfl := Option.some.inj hs; exact .gaveUp
        | false =>
            obtain rfl := Option.some.inj hs
            exact .spawned htask (not_not.mp hwatcher)
  | starts =>
      cases fails with
      | true => obtain rfl := Option.some.inj hs; exact .gaveUp
      | false => obtain rfl := Option.some.inj hs; exact .started htask
  | gets period =>
      cases fails with
      | true => obtain rfl := Option.some.inj hs; exact .gaveUp
      | false => obtain rfl := Option.some.inj hs; exact .got htask
  | sets active period =>
      cases active with
      | false => obtain rfl := Option.some.inj hs; exact .stored htask
      | true =>
          cases fails with
          | true => obtain rfl := Option.some.inj hs; exact .stored htask
          | false => obtain rfl := Option.some.inj hs; exact .set htask

theorem call_cases {task : Task} (hs : s.call task = some s') :
    s' = { s with task := task, account := s.account.call } := by
  unfold State.call at hs
  split at hs
  · exact (Option.some.inj hs).symm
  · cases hs

theorem setPeriod_cases (hs : s.setPeriod period = some s') :
    s' = { s with
      task := if period = 0 then .idle (some .invalidArgument) else .gets period
      account := s.account.setPeriod s.timer.armed.isNone s.owed } := by
  unfold State.setPeriod at hs
  split at hs
  · exact (Option.some.inj hs).symm
  · cases hs

theorem expire_cases (hs : s.expire = some s') : ∃ due, s.timer.armed = some due ∧
    due ≤ s.now ∧ s' = { s with timer := s.timer.expire due } := by
  unfold State.expire at hs
  split at hs
  case h_1 due harmed =>
    split at hs
    case isTrue hdue =>
      obtain rfl := Option.some.inj hs
      exact ⟨due, harmed, hdue, rfl⟩
    case isFalse => cases hs
  case h_2 => cases hs

theorem watch_cases (hs : s.watch = some s') :
    (s.watcher = .polls ∧ s' = { s with watcher := .reads }) ∨
      (s.watcher = .reads ∧ s.timer.ticks = 0 ∧ s' = { s with watcher := .polls }) ∨
      (s.watcher = .reads ∧ s.timer.ticks ≠ 0 ∧
        s' = { s with timer := { s.timer with ticks := 0 }, watcher := .calls }) ∨
      (s.watcher = .calls ∧
        s' = { s with watcher := .polls, account := s.account.callback }) := by
  unfold State.watch at hs
  generalize hwatcher : s.watcher = here at hs
  cases here with
  | absent =>
      cases hs
  | polls =>
      dsimp only at hs
      split at hs
      · cases hs
      · exact .inl ⟨rfl, (Option.some.inj hs).symm⟩
  | reads =>
      dsimp only at hs
      split at hs
      case isTrue hticks => exact .inr (.inl ⟨rfl, hticks, (Option.some.inj hs).symm⟩)
      case isFalse hticks => exact .inr (.inr (.inl ⟨rfl, hticks, (Option.some.inj hs).symm⟩))
  | calls =>
      exact .inr (.inr (.inr ⟨rfl, (Option.some.inj hs).symm⟩))

/-! ### Mode, quiet and credit -/

theorem Moded.step (h : Moded autoReload s) (hs : s.step a = some s') : Moded autoReload s' := by
  obtain ⟨hmode, htimer, htask⟩ := h
  cases a with
  | tick =>
      obtain rfl := Option.some.inj hs
      exact ⟨hmode, htimer, htask⟩
  | expire =>
      obtain ⟨due, harmed, -, rfl⟩ := expire_cases hs
      exact ⟨hmode, htimer.expire (by rw [harmed]; nofun), htask⟩
  | watch =>
      rcases watch_cases hs with ⟨-, rfl⟩ | ⟨-, -, rfl⟩ | ⟨-, -, rfl⟩ | ⟨-, rfl⟩
      · exact ⟨hmode, htimer, htask⟩
      · exact ⟨hmode, htimer, htask⟩
      · exact ⟨hmode, htimer.read, htask⟩
      · exact ⟨hmode, htimer, htask⟩
  | start | stop | reset =>
      obtain rfl := call_cases hs
      exact ⟨hmode, htimer, trivial⟩
  | setPeriod period =>
      obtain rfl := setPeriod_cases hs
      refine ⟨hmode, htimer, ?_⟩
      dsimp only
      split
      case isTrue => trivial
      case isFalse hperiod => exact hperiod
  | go fails =>
      cases goes_of_go hs with
      | gaveUp | watched | spawned => exact ⟨hmode, htimer, trivial⟩
      | @stopped reset =>
          refine ⟨hmode, htimer.disarm, ?_⟩
          cases reset <;> trivial
      | started => exact ⟨hmode, htimer.settime, trivial⟩
      | got heq =>
          rw [heq] at htask
          exact ⟨hmode, htimer, htask⟩
      | stored heq =>
          rw [heq] at htask
          exact ⟨hmode, htimer.store htask, trivial⟩
      | set heq =>
          rw [heq] at htask
          exact ⟨hmode, (htimer.store htask).settime, trivial⟩

/-- The tasks that may set the timer. -/
def Task.sleeps : Task → Bool
  | .idle _ | .gets _ | .sets false _ => true
  | _ => false

/-- Since a change of the period found it inactive, the timer has not been set. -/
def Quiet (s : State) : Prop :=
  ∀ k, s.account.quiet = some k →
    s.timer.armed = none ∧ s.account.callbacks + s.owed ≤ k ∧ s.task.sleeps = true

/-- A callback is made by an expiry that is no longer owed. -/
theorem callbacks_of_watch (hs : s.watch = some s') :
    s'.account.callbacks + s'.owed = s.account.callbacks + s.owed ∧
      s'.account.quiet = s.account.quiet ∧ s'.account.starts = s.account.starts ∧
      s'.timer.armed = s.timer.armed ∧ s'.timer.autoReload = s.timer.autoReload ∧
      s'.task = s.task := by
  rcases watch_cases hs with ⟨hw, rfl⟩ | ⟨hw, ht, rfl⟩ | ⟨hw, ht, rfl⟩ | ⟨hw, rfl⟩
  · refine ⟨?_, rfl, rfl, rfl, rfl, rfl⟩
    unfold State.owed
    rw [hw]
    rfl
  · refine ⟨?_, rfl, rfl, rfl, rfl, rfl⟩
    unfold State.owed
    rw [hw]
    rfl
  · refine ⟨?_, rfl, rfl, rfl, rfl, rfl⟩
    unfold State.owed
    rw [hw]
    dsimp only
    rw [if_pos rfl, if_neg nofun]
    omega
  · refine ⟨?_, rfl, rfl, rfl, rfl, rfl⟩
    unfold State.owed Account.callback
    rw [hw]
    dsimp only
    rw [if_pos rfl, if_neg nofun]
    omega

theorem Quiet.step (h : Quiet s) (hs : s.step a = some s') : Quiet s' := by
  intro k hk
  cases a with
  | tick =>
      obtain rfl := Option.some.inj hs
      exact h k hk
  | expire =>
      obtain ⟨due, harmed, -, rfl⟩ := expire_cases hs
      exact nomatch harmed.symm.trans (h k hk).1
  | watch =>
      obtain ⟨howed, hquiet, -, harmed, -, htask⟩ := callbacks_of_watch hs
      rw [howed, harmed, htask]
      exact h k (hquiet.symm.trans hk)
  | start | stop | reset =>
      obtain rfl := call_cases hs
      cases hk
  | setPeriod period =>
      obtain rfl := setPeriod_cases hs
      have hbegun := Option.ite_none_right_eq_some.mp hk
      refine ⟨Option.isNone_iff_eq_none.mp hbegun.1, (Option.some.inj hbegun.2).le, ?_⟩
      dsimp only
      split <;> rfl
  | go fails =>
      cases goes_of_go hs with
      | gaveUp => exact ⟨(h k hk).1, (h k hk).2.1, rfl⟩
      | stopped heq | watched heq | spawned heq | started heq | set heq =>
          have htask := (h k hk).2.2
          rw [heq] at htask
          cases htask
      | got heq =>
          obtain ⟨harmed, hcalls, -⟩ := h k hk
          refine ⟨harmed, hcalls, ?_⟩
          rw [harmed]
          rfl
      | stored => exact ⟨(h k hk).1, (h k hk).2.1, rfl⟩

/-- Every callback of a one-shot timer, also one that is on its way or to come, has a start. -/
def Credit (s : State) : Prop :=
  s.timer.autoReload = false →
    s.account.callbacks + s.owed + toCome s.timer.armed ≤ s.account.starts

theorem Credit.step (h : Credit s) (hmode : Moded autoReload s) (hkeeps : Keeps s a)
    (hs : s.step a = some s') : Credit s' := by
  intro hoff
  cases a with
  | tick =>
      obtain rfl := Option.some.inj hs
      exact h hoff
  | expire =>
      obtain ⟨due, harmed, -, rfl⟩ := expire_cases hs
      have hcredit := h hoff
      have honce : s.timer.interval = 0 := by
        by_contra hne
        have honly := (hmode.timer.native (by rw [harmed]; nofun)).mp hne
        exact nomatch honly.symm.trans hoff
      rw [harmed] at hcredit
      unfold State.owed at hcredit ⊢
      unfold Timer.expire
      rw [if_pos honce]
      dsimp only [toCome] at hcredit ⊢
      omega
  | watch =>
      obtain ⟨howed, -, hstarts, harmed, hreload, -⟩ := callbacks_of_watch hs
      rw [howed, hstarts, harmed]
      exact h (hreload.symm.trans hoff)
  | start | stop | reset =>
      obtain rfl := call_cases hs
      exact h hoff
  | setPeriod period =>
      obtain rfl := setPeriod_cases hs
      exact h hoff
  | go fails =>
      cases goes_of_go hs with
      | gaveUp | watched | got | stored => exact h hoff
      | spawned heq hwatcher =>
          have hcredit := h hoff
          unfold State.owed at hcredit ⊢
          rw [hwatcher] at hcredit
          exact hcredit
      | stopped =>
          have hcredit := h hoff
          unfold State.owed at hcredit ⊢
          unfold Timer.settime
          dsimp only at hcredit ⊢
          rw [if_pos rfl]
          dsimp only [toCome]
          omega
      | started =>
          have hcredit := h hoff
          unfold State.owed at hcredit ⊢
          unfold Timer.settime Account.start
          dsimp only at hcredit ⊢
          rw [if_neg hmode.timer.value]
          dsimp only [toCome]
          omega
      | @set period heq =>
          have hcredit := h hoff
          have hperiod := hmode.task
          rw [heq] at hperiod
          have hheld : 1 ≤ toCome s.timer.armed + min s.timer.ticks 1 := by
            rcases hkeeps with hreload | harmed | hticks | hnot
            · exact nomatch hreload.symm.trans hoff
            · obtain ⟨due, hdue⟩ := Option.ne_none_iff_exists'.mp harmed
              rw [hdue]
              exact Nat.le_add_right _ _
            · omega
            · rw [heq] at hnot
              cases hnot
          have hset : ((s.timer.store period).settime s.now (s.timer.store period).spec).armed =
              some (s.now + period) := if_neg hperiod
          unfold State.owed at hcredit ⊢
          rw [hset]
          dsimp only [toCome, Timer.settime]
          omega

/-! ### Runs -/

theorem Moded.of_reachable (hperiod : 0 < period)
    (h : (machine period autoReload).Reachable s) : Moded autoReload s := by
  refine h.invariant (I := Moded autoReload) ?_ (fun _ _ _ _ hi hs => hi.step hs)
  refine ⟨rfl, ⟨hperiod.ne', ?_, nofun⟩, trivial⟩
  cases autoReload <;> simp [machine, Timer.create, Timer.store, hperiod.ne']

theorem Quiet.of_reachable (h : (machine period autoReload).Reachable s) : Quiet s := by
  refine h.invariant (I := Quiet) ?_ (fun _ _ _ _ hi hs => hi.step hs)
  exact fun _ hk => nomatch hk

theorem Credit.of_reachable (hperiod : 0 < period)
    (h : (machine period autoReload).ReachableBy Keeps s) : Credit s := by
  refine h.invariant (I := Credit) ?_ ?_
  · exact fun _ => le_rfl
  · exact fun s a s' hr hi hkeeps hs => hi.step (.of_reachable hperiod hr.reachable) hkeeps hs

theorem noExtra (hperiod : 0 < period) (h : (machine period autoReload).ReachableBy Keeps s) :
    NoExtra autoReload s.view := by
  have hmode := Moded.of_reachable hperiod h.reachable
  refine ⟨fun k hk => ?_, hmode.timer.periodic.trans hmode.mode, fun hoff => ?_⟩
  · obtain ⟨harmed, hcalls, -⟩ := Quiet.of_reachable h.reachable k hk
    exact ⟨Option.isSome_eq_false_iff.mpr (Option.isNone_iff_eq_none.mpr harmed), hcalls⟩
  · have hcredit := Credit.of_reachable hperiod h (hmode.mode.trans hoff)
    exact le_trans (Nat.le_add_right _ _) (le_trans (Nat.le_add_right _ _) hcredit)

end MicrOsal.TimerPeriod.Linux
