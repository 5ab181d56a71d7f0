import MicrOsal.TimerPeriod.FreertosQueue

/-!
# MicrOsal.TimerPeriod.FreertosOnce

A change of the period does not wake an inactive FreeRTOS timer (`Quiet`), and while the steps
meet `Keeps` every callback of a one-shot timer has a start of its own (`Credit`).

From the command that starts an inactive timer until the fence behind the stop has come back,
what the daemon does stays hidden (`Task.hidden`): its callbacks are suppressed.
-/

namespace MicrOsal.TimerPeriod.Freertos

variable {period : Nat} {autoReload : Bool} {s s' : State} {a : Action} {c : Command}

/-- The timer was inactive, and may be started by the command that changes its period. -/
def Task.hidden : Task → Bool
  | .halts | .refences false | .reawaits false => true
  | _ => false

/-- Behind what is hidden, `suppress` is set. -/
theorem Stage.suppress_of_hidden {task : Task} (h : Stage s task) (hhidden : task.hidden = true) :
    s.suppress = true := by
  cases task with
  | halts => exact h.1
  | refences active | reawaits active =>
      cases active with
      | true => cases hhidden
      | false => exact h.1
  | idle | starts | stops | fences | awaits | looks | suppresses | changes | releases =>
      cases hhidden

/-- Elsewhere nothing is on its way while it is set. -/
theorem Stage.queue_of_suppress {task : Task} (h : Stage s task) (hseen : task.hidden = false)
    (hset : s.suppress = true) : s.queue = [] := by
  cases task with
  | idle | starts | stops | fences | awaits | looks | suppresses =>
      exact nomatch h.1.symm.trans hset
  | changes => exact h.2.2.1
  | releases => exact h.2
  | halts => cases hseen
  | refences active | reawaits active =>
      cases active with
      | true => exact nomatch h.1.symm.trans hset
      | false => cases hseen

/-- When the second fence has come back, the timer is inactive and nothing is owed. -/
theorem Stage.of_returned {active : Bool} (h : Stage s (.reawaits active))
    (hoff : active = false) (hdone : s.done = true) :
    s.queue = [] ∧ s.timer.armed = none ∧ s.calls = false := by
  subst hoff
  rcases h.2 with ⟨hnot, -⟩ | ⟨-, hends⟩
  · exact nomatch hnot.symm.trans hdone
  · exact hends

/-! ### Quiet -/

/-- The tasks that a change of the period of an inactive timer goes through. -/
def Task.sleeps : Task → Bool
  | .starts | .stops | .changes true _ | .refences true | .reawaits true => false
  | _ => true

/-- The callback that the daemon is about to make. -/
def State.calling (s : State) : Nat := s.calls.toNat

/-- The timer is inactive, and nothing on its way starts it. -/
def Asleep (s : State) : Prop := s.timer.armed = none ∧ ∀ c ∈ s.queue, c.arms = false

/-- Since a change of the period found it inactive, the timer has not been started, or what it
does is hidden. -/
def Quiet (s : State) : Prop :=
  ∀ k, s.account.quiet = some k → s.task.sleeps = true ∧
    if s.task.hidden then s.account.callbacks ≤ k
    else s.account.callbacks + s.calling ≤ k ∧ Asleep s

theorem Quiet.of_hidden {k : Nat} (h : Quiet s) (hk : s.account.quiet = some k)
    (hhidden : s.task.hidden = true) : s.account.callbacks ≤ k := by
  have hquiet := (h k hk).2
  rwa [if_pos hhidden] at hquiet

theorem Quiet.of_seen {k : Nat} (h : Quiet s) (hk : s.account.quiet = some k)
    (hseen : s.task.hidden = false) : s.account.callbacks + s.calling ≤ k ∧ Asleep s := by
  have hquiet := (h k hk).2
  rwa [if_neg (by rw [hseen]; nofun)] at hquiet

theorem asleep_of_live (h : s.live = false) (hset : s.suppress = false) : Asleep s := by
  unfold State.live at h
  rw [hset, Bool.not_false, Bool.and_true, Bool.or_eq_false_iff] at h
  refine ⟨Option.isNone_iff_eq_none.mp (Option.isSome_eq_false_iff.mp h.1), fun c hc => ?_⟩
  exact Bool.eq_false_iff.mpr (List.any_eq_false.mp h.2 c hc)

theorem Asleep.send {task : Task} (h : Asleep s) (hc : c.arms = false) :
    Asleep (s.send c task) := by
  refine ⟨h.1, fun c' hc' => ?_⟩
  rcases List.mem_append.mp hc' with hc' | hc'
  · exact h.2 c' hc'
  · obtain rfl := List.mem_singleton.mp hc'
    exact hc

theorem Asleep.command {rest : List Command} (h : Asleep s) (hqueue : s.queue = c :: rest) :
    Asleep (({ s with queue := rest } : State).process c) ∧
      (({ s with queue := rest } : State).process c).calls = s.calls := by
  have hc : c.arms = false := h.2 c (hqueue ▸ List.mem_cons_self)
  have hrest : ∀ c' ∈ rest, c'.arms = false :=
    fun c' hc' => h.2 c' (hqueue ▸ List.mem_cons_of_mem c hc')
  cases c with
  | start | changePeriod => cases hc
  | stop => exact ⟨⟨rfl, hrest⟩, rfl⟩
  | fence => exact ⟨⟨h.1, hrest⟩, rfl⟩

theorem Quiet.go (h : Quiet s) (hstage : Stage s s.task) (hs : Goes s s') : Quiet s' := by
  intro k hk
  cases hs with
  | again => exact h k hk
  | refused htask =>
      have hsleeps := (h k hk).1
      rcases htask with htask | htask
      all_goals
        rw [htask] at hsleeps
        cases hsleeps
  | startSent htask | stopSent htask =>
      have hsleeps := (h k hk).1
      rw [htask] at hsleeps
      cases hsleeps
  | fenced htask =>
      obtain ⟨hcalls, hasleep⟩ := h.of_seen hk (by rw [htask]; rfl)
      exact ⟨rfl, hcalls, hasleep.send rfl⟩
  | settled htask =>
      obtain ⟨hcalls, hasleep⟩ := h.of_seen hk (by rw [htask]; rfl)
      exact ⟨rfl, hcalls, hasleep⟩
  | looked htask =>
      obtain ⟨hcalls, hasleep⟩ := h.of_seen hk (by rw [htask]; rfl)
      rw [hasleep.1]
      exact ⟨rfl, hcalls, hasleep⟩
  | suppressed htask =>
      obtain ⟨hcalls, hasleep⟩ := h.of_seen hk (by rw [htask]; rfl)
      exact ⟨rfl, hcalls, hasleep⟩
  | failed htask =>
      obtain ⟨hcalls, hasleep⟩ := h.of_seen hk (by rw [htask]; rfl)
      exact ⟨rfl, hcalls, hasleep⟩
  | @changed active period htask =>
      have hsleeps := (h k hk).1
      rw [htask] at hsleeps
      cases active with
      | true => cases hsleeps
      | false =>
          have hcalls := (h.of_seen hk (by rw [htask]; rfl)).1
          exact ⟨rfl, le_trans (Nat.le_add_right _ _) hcalls⟩
  | halted htask => exact ⟨rfl, h.of_hidden hk (by rw [htask]; rfl)⟩
  | @refenced active htask =>
      have hsleeps := (h k hk).1
      rw [htask] at hsleeps
      cases active with
      | true => cases hsleeps
      | false => exact ⟨rfl, h.of_hidden hk (by rw [htask]; rfl)⟩
  | @returned active htask hdone =>
      have hsleeps := (h k hk).1
      rw [htask] at hsleeps hstage
      cases active with
      | true => cases hsleeps
      | false =>
          obtain ⟨hqueue, harmed, hcalls⟩ := hstage.of_returned rfl hdone
          have hcount := h.of_hidden hk (by rw [htask]; rfl)
          refine ⟨rfl, ?_, harmed, fun c hc => ?_⟩
          · unfold State.calling
            dsimp only
            rw [hcalls]
            exact hcount
          · rw [hqueue] at hc
            cases hc
  | released htask =>
      obtain ⟨hcalls, hasleep⟩ := h.of_seen hk (by rw [htask]; rfl)
      exact ⟨rfl, hcalls, hasleep⟩

theorem Quiet.step (h : Quiet s) (hstage : Stage s s.task) (hs : s.step a = some s') :
    Quiet s' := by
  intro k hk
  cases a with
  | tick =>
      obtain rfl := Option.some.inj hs
      exact h k hk
  | expire =>
      obtain ⟨harmed, -, armed, -, rfl⟩ := expire_cases hs
      refine ⟨(h k hk).1, ?_⟩
      dsimp only
      split
      case isTrue hhidden => exact h.of_hidden hk hhidden
      case isFalse hseen =>
        exact absurd (h.of_seen hk (Bool.eq_false_iff.mpr hseen)).2.1 harmed
  | callback =>
      obtain ⟨hcalls, rfl⟩ := callback_cases hs
      have hk' : s.account.quiet = some k := by
        dsimp only at hk
        split at hk <;> exact hk
      refine ⟨(h k hk').1, ?_⟩
      dsimp only
      split
      case isTrue hhidden =>
        rw [if_pos (hstage.suppress_of_hidden hhidden)]
        exact h.of_hidden hk' hhidden
      case isFalse hseen =>
        obtain ⟨hcount, hasleep⟩ := h.of_seen hk' (Bool.eq_false_iff.mpr hseen)
        refine ⟨?_, hasleep⟩
        unfold State.calling at hcount ⊢
        rw [hcalls] at hcount
        split
        · exact le_trans (Nat.le_succ _) hcount
        · exact hcount
  | command =>
      obtain ⟨-, c, rest, hqueue, rfl⟩ := command_cases hs
      rw [process_same.2.2.2.1] at hk ⊢
      rw [process_same.2.2.1]
      refine ⟨(h k hk).1, ?_⟩
      dsimp only
      split
      case isTrue hhidden => exact h.of_hidden hk hhidden
      case isFalse hseen =>
        obtain ⟨hcount, hasleep⟩ := h.of_seen hk (Bool.eq_false_iff.mpr hseen)
        obtain ⟨hasleep', hsame⟩ := hasleep.command hqueue
        refine ⟨?_, hasleep'⟩
        unfold State.calling
        rw [hsame]
        exact hcount
  | start | stop =>
      obtain ⟨-, rfl⟩ := call_cases hs
      cases hk
  | setPeriod period fails =>
      obtain ⟨⟨last, htask⟩, task, htask', rfl⟩ := setPeriod_cases hs
      rw [htask] at hstage
      obtain ⟨hlive, hbegun⟩ := Option.ite_none_right_eq_some.mp hk
      have hasleep : Asleep s := asleep_of_live (Bool.not_inj hlive) hstage.1
      have hcount : s.account.callbacks + s.calling ≤ k := by
        rw [← Option.some.inj hbegun]
        unfold State.calling State.owed
        rw [hstage.1]
        cases s.calls <;> exact le_rfl
      rcases htask' with ⟨code, rfl⟩ | rfl
      · exact ⟨rfl, hcount, hasleep⟩
      · exact ⟨rfl, hcount, hasleep⟩
  | go fails => exact h.go hstage (goes_of_go hs) k hk

/-! ### Credit -/

/-- What is on its way to a callback of a one-shot timer. -/
def State.expected (s : State) : Nat :=
  s.calling + toCome s.timer.armed + s.queue.countP Command.isStart

/-- Every callback, also one that is expected unless it is hidden, has a start. -/
def Credit (s : State) : Prop :=
  s.account.callbacks + (if s.task.hidden then 0 else s.expected) ≤ s.account.starts

theorem Credit.of_hidden (h : Credit s) (hhidden : s.task.hidden = true) :
    s.account.callbacks ≤ s.account.starts := by
  unfold Credit at h
  rwa [if_pos hhidden] at h

theorem Credit.of_seen (h : Credit s) (hseen : s.task.hidden = false) :
    s.account.callbacks + s.expected ≤ s.account.starts := by
  unfold Credit at h
  rwa [if_neg (by rw [hseen]; nofun)] at h

theorem credit_of_le (h : s.account.callbacks + s.expected ≤ s.account.starts) : Credit s := by
  unfold Credit
  split
  · exact le_trans (Nat.le_add_right _ _) h
  · exact h

/-- A send that is not a start brings no expiry about. -/
theorem Credit.send {task : Task} (h : Credit s) (hc : c.isStart = false)
    (hseen : s.task.hidden = false) : Credit (s.send c task) := by
  refine credit_of_le (le_trans ?_ (h.of_seen hseen))
  unfold State.expected State.send
  rw [List.countP_append, List.countP_singleton, hc]
  exact le_rfl

theorem Credit.go (h : Credit s) (hstage : Stage s s.task) (hs : Goes s s') : Credit s' := by
  cases hs with
  | again => exact h
  | refused htask =>
      refine credit_of_le (h.of_seen ?_)
      rcases htask with htask | htask
      all_goals
        rw [htask]
        rfl
  | startSent htask =>
      have hcredit := h.of_seen (by rw [htask]; rfl)
      unfold State.expected at hcredit
      refine credit_of_le ?_
      unfold State.expected State.send Account.start
      dsimp only [State.calling] at hcredit ⊢
      rw [List.countP_append, List.countP_singleton, Command.isStart, if_pos rfl]
      omega
  | stopSent htask | fenced htask => exact h.send rfl (by rw [htask]; rfl)
  | settled htask | suppressed htask | failed htask | released htask =>
      exact credit_of_le (h.of_seen (by rw [htask]; rfl))
  | looked htask => exact credit_of_le (h.of_seen (by rw [htask]; rfl))
  | changed htask => exact h.send rfl (by rw [htask]; rfl)
  | halted htask => exact h.of_hidden (by rw [htask]; rfl)
  | @refenced active htask =>
      cases active with
      | true => exact h.send rfl (by rw [htask]; rfl)
      | false => exact h.of_hidden (by rw [htask]; rfl)
  | @returned active htask hdone =>
      rw [htask] at hstage
      cases active with
      | true => exact credit_of_le (h.of_seen (by rw [htask]; rfl))
      | false =>
          obtain ⟨hqueue, harmed, hcalls⟩ := hstage.of_returned rfl hdone
          have hcredit := h.of_hidden (by rw [htask]; rfl)
          refine credit_of_le ?_
          unfold State.expected State.calling
          dsimp only
          rw [hqueue, harmed, hcalls]
          exact hcredit

/-- A command that is taken brings no more about than was expected of it. -/
theorem expected_process {rest : List Command} (hoff : s.timer.autoReload = false)
    (hqueue : s.queue = c :: rest)
    (hrunning : ∀ period, c = .changePeriod period → s.timer.armed ≠ none) :
    (({ s with queue := rest } : State).process c).expected ≤ s.expected := by
  unfold State.expected
  rw [hqueue, process_same.1]
  unfold State.calling
  cases c with
  | fence => exact le_rfl
  | stop => exact Nat.add_le_add_right (Nat.add_le_add_left (Nat.zero_le _) _) _
  | changePeriod period =>
      obtain ⟨due, hdue⟩ := Option.ne_none_iff_exists'.mp (hrunning period rfl)
      rw [hdue]
      exact le_rfl
  | start sent =>
      have hone : ((Command.start sent) :: rest).countP Command.isStart =
          rest.countP Command.isStart + 1 := List.countP_cons_of_pos rfl
      rw [hone]
      rcases insert_cases (s := { s with queue := rest }) (sent + s.timer.period) rfl with
        ⟨armed, hne, heq⟩ | ⟨armed, hnone, heq⟩
      · obtain ⟨due, rfl⟩ := Option.ne_none_iff_exists'.mp hne
        rw [State.process, heq]
        dsimp only [toCome]
        omega
      · obtain rfl := hnone hoff
        rw [State.process, heq]
        dsimp only [toCome, Bool.toNat_true]
        omega

theorem Credit.step (h : Credit s) (hoff : s.timer.autoReload = false)
    (hstage : Stage s s.task) (hkeeps : Keeps s a) (hs : s.step a = some s') : Credit s' := by
  cases a with
  | tick =>
      obtain rfl := Option.some.inj hs
      exact h
  | expire =>
      obtain ⟨harmed, hcalls, armed, hnone, rfl⟩ := expire_cases hs
      obtain ⟨due, hdue⟩ := Option.ne_none_iff_exists'.mp harmed
      obtain rfl := hnone hoff
      unfold Credit State.expected State.calling at h ⊢
      rw [hcalls, hdue] at h
      dsimp only [toCome] at h ⊢
      exact h
  | callback =>
      obtain ⟨hcalls, rfl⟩ := callback_cases hs
      cases hhidden : s.task.hidden with
      | true =>
          have hset := hstage.suppress_of_hidden hhidden
          unfold Credit
          dsimp only
          rw [hset, if_pos rfl, if_pos hhidden]
          exact h.of_hidden hhidden
      | false =>
          have hcredit := h.of_seen hhidden
          refine credit_of_le ?_
          unfold State.expected State.calling at hcredit ⊢
          rw [hcalls] at hcredit
          dsimp only [Bool.toNat_true, Bool.toNat_false] at hcredit ⊢
          split
          · omega
          · dsimp only [Account.callback]
            omega
  | command =>
      obtain ⟨-, c, rest, hqueue, rfl⟩ := command_cases hs
      cases hhidden : s.task.hidden with
      | true =>
          unfold Credit
          rw [process_same.2.2.1, process_same.2.2.2.1, if_pos hhidden]
          exact h.of_hidden hhidden
      | false =>
          refine credit_of_le ?_
          rw [process_same.2.2.2.1]
          refine le_trans (Nat.add_le_add_left ?_ _) (h.of_seen hhidden)
          refine expected_process hoff hqueue ?_
          rintro period rfl
          rcases hkeeps with hreload | hset | harmed | hnot
          · exact nomatch hreload.symm.trans hoff
          · exact nomatch hqueue.symm.trans (hstage.queue_of_suppress hhidden hset)
          · exact harmed
          · rw [hqueue] at hnot
            cases hnot
  | start | stop =>
      obtain ⟨⟨last, htask⟩, rfl⟩ := call_cases hs
      exact credit_of_le (h.of_seen (by rw [htask]; rfl))
  | setPeriod period fails =>
      obtain ⟨⟨last, htask⟩, task, -, rfl⟩ := setPeriod_cases hs
      exact credit_of_le (h.of_seen (by rw [htask]; rfl))
  | go fails => exact h.go hstage (goes_of_go hs)

/-! ### Runs -/

theorem autoReload_of_goes (hs : Goes s s') : s'.timer.autoReload = s.timer.autoReload := by
  cases hs <;> rfl

theorem autoReload_of_step (hs : s.step a = some s') :
    s'.timer.autoReload = s.timer.autoReload := by
  cases a with
  | tick =>
      obtain rfl := Option.some.inj hs
      rfl
  | expire =>
      obtain ⟨-, -, armed, -, rfl⟩ := expire_cases hs
      rfl
  | callback =>
      obtain ⟨-, rfl⟩ := callback_cases hs
      rfl
  | command =>
      obtain ⟨-, c, rest, -, rfl⟩ := command_cases hs
      exact process_same.2.2.2.2
  | start | stop =>
      obtain ⟨-, rfl⟩ := call_cases hs
      rfl
  | setPeriod period fails =>
      obtain ⟨-, task, -, rfl⟩ := setPeriod_cases hs
      rfl
  | go fails => exact autoReload_of_goes (goes_of_go hs)

theorem autoReload_of_reachable (h : (machine period autoReload).Reachable s) :
    s.timer.autoReload = autoReload := by
  refine h.invariant (I := fun s => s.timer.autoReload = autoReload) rfl ?_
  exact fun _ _ _ _ hi hs => (autoReload_of_step hs).trans hi

theorem Stage.of_reachable (h : (machine period autoReload).Reachable s) : Stage s s.task := by
  refine h.invariant (I := fun s => Stage s s.task) ?_ (fun _ _ _ _ hi hs => hi.step hs)
  exact ⟨rfl, rfl, List.not_mem_nil⟩

theorem Quiet.of_reachable (h : (machine period autoReload).Reachable s) : Quiet s := by
  refine h.invariant (I := Quiet) ?_ (fun _ _ _ hr hi hs => hi.step (.of_reachable hr) hs)
  exact fun _ hk => nomatch hk

theorem Credit.of_reachable (h : (machine period false).ReachableBy Keeps s) : Credit s := by
  refine h.invariant (I := Credit) le_rfl (fun s a s' hr hi hkeeps hs => ?_)
  exact hi.step (autoReload_of_reachable hr.reachable) (.of_reachable hr.reachable) hkeeps hs

theorem noExtra (h : (machine period autoReload).ReachableBy Keeps s) :
    NoExtra autoReload s.view := by
  refine ⟨fun k hk => ?_, autoReload_of_reachable h.reachable, fun hoff => ?_⟩
  · have hquiet := Quiet.of_reachable h.reachable
    cases hhidden : s.task.hidden with
    | true =>
        have hset := (Stage.of_reachable h.reachable).suppress_of_hidden hhidden
        dsimp only [State.view, State.live, State.owed]
        rw [hset, Bool.not_true, Bool.and_false, Bool.and_false]
        exact ⟨rfl, hquiet.of_hidden hk hhidden⟩
    | false =>
        obtain ⟨hcount, harmed, hqueue⟩ := hquiet.of_seen hk hhidden
        dsimp only [State.view, State.live]
        have hnone : s.queue.any Command.arms = false := by
          rw [List.any_eq_false]
          exact fun c hc => Bool.eq_false_iff.mp (hqueue c hc)
        rw [harmed, hnone]
        refine ⟨rfl, le_trans (Nat.add_le_add_left ?_ _) hcount⟩
        unfold State.owed State.calling
        cases s.calls <;> cases s.suppress <;> decide
  · subst hoff
    have hcredit := Credit.of_reachable h
    exact le_trans (Nat.le_add_right _ _) hcredit

end MicrOsal.TimerPeriod.Freertos
