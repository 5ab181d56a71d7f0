import MicrOsal.BareMetalTasks.Contexts

/-!
# MicrOsal.BareMetalTasks.RoundRobin

A task that is ready gets the processor within `OSAL_BM_MAX_TASKS` turns (`scheduler_sound`).

Each search begins after the task that the one before has found. So a ready task that is passed
over comes nearer (`Nearer`), whoever else is created, waits or finishes.
-/

namespace MicrOsal.BareMetalTasks

variable {w maxTasks j k next : Nat} {s s' u : State} {t : Task} {call : Call} {a : Action w}

/-- Task `k` could run, and another party does. -/
structure State.Ready (s : State) (k : Nat) : Prop where
  other : s.current ≠ some k
  ready : (s.tasks k).ready false = true

/-- How many tasks the next search looks at before task `k`. -/
def State.rank (maxTasks : Nat) (s : State) (k : Nat) : Nat :=
  cyclicDist maxTasks (s.scanStart maxTasks s.current) k

/-- Task `k` has got the processor, or it is still ready and has come nearer with each turn, and
no task has given the processor to the caller. -/
def Nearer (maxTasks k : Nat) (s s' : State) : Prop :=
  s'.current = some k ∨
    s'.Ready k ∧ (s'.current = none → s.current = none) ∧
      s'.turns + s'.rank maxTasks k ≤ s.turns + s.rank maxTasks k

/-! ### Switches -/

theorem Task.ready_of_not_waiting {b : Bool} (h : t.ready false = true) : t.ready b = true := by
  simp only [Task.ready, Bool.and_eq_true, Bool.false_or] at h ⊢
  exact ⟨h.1, by rw [h.2, Bool.or_true]⟩

theorem State.scanStart_lt (h : 0 < maxTasks) (s : State) (current : Option Nat) :
    s.scanStart maxTasks current < maxTasks := by
  unfold State.scanStart
  split
  · exact h
  · exact cyclicNext_lt h

/-- A search does not fail when task `k` is ready, -/
theorem State.findNextReadyTask_of_ready {b : Bool} (h : s.Ready k) (hk : k < maxTasks) :
    ∃ next, s.findNextReadyTask maxTasks s.current b = some next := by
  cases hfind : s.findNextReadyTask maxTasks s.current b with
  | some next => exact ⟨next, rfl⟩
  | none =>
      have hnot := cyclicScan_none (s.scanStart_lt (Nat.zero_lt_of_lt hk) _) hfind hk
      rw [Task.ready_of_not_waiting h.ready, Bool.and_true, decide_eq_false_iff_not] at hnot
      exact absurd h.other.symm hnot

/-- In a turn, task `k` gets the processor or comes nearer. -/
def Closer (maxTasks k : Nat) (s s' : State) : Prop :=
  s'.turns = s.turns ∧ s'.current ≠ none ∧
    (s'.current = some k ∨ s'.Ready k ∧ s'.rank maxTasks k < s.rank maxTasks k)

/-- and the task that it finds is task `k` or nearer. -/
theorem Switched.closer {b : Bool} (h : Switched u s' next) (hready : s.Ready k)
    (hk : k < maxTasks) (hfind : s.findNextReadyTask maxTasks s.current b = some next)
    (hturns : u.turns = s.turns) (htask : u.tasks k = s.tasks k) : Closer maxTasks k s s' := by
  refine ⟨h.turns.trans hturns, by rw [h.current]; rintro ⟨⟩, ?_⟩
  by_cases heq : k = next
  · exact .inl (by rw [h.current, heq])
  refine .inr ⟨⟨?_, ?_⟩, ?_⟩
  · rw [h.current]
    exact fun hnext => heq (Option.some.inj hnext).symm
  · rw [h.others k heq, htask]
    exact hready.ready
  · have hstart : s'.scanStart maxTasks s'.current = cyclicNext maxTasks next := by
      rw [State.scanStart, h.current]
      rfl
    rw [State.rank, hstart]
    refine cyclicDist_lt_of_scan (s.scanStart_lt (Nat.zero_lt_of_lt hk) _) hfind hk ?_ heq
    rw [Task.ready_of_not_waiting hready.ready, Bool.and_true, decide_eq_true_eq]
    exact hready.other.symm

theorem State.Ready.schedule (h : s.Ready k) (hk : k < maxTasks) :
    Closer maxTasks k s (s.schedule maxTasks) := by
  unfold State.schedule
  split
  case h_1 hcur =>
    obtain ⟨next, hfind⟩ := State.findNextReadyTask_of_ready (b := true) h hk
    rw [hcur] at hfind
    simp only [hfind]
    exact (State.toTask_switched _ next).closer h hk (hcur.symm ▸ hfind) rfl rfl
  case h_2 previous hcur =>
    obtain ⟨next, hfind⟩ := State.findNextReadyTask_of_ready (b := false) h hk
    rw [hcur] at hfind
    simp only [hfind]
    refine (State.toTask_switched _ next).closer h hk (hcur.symm ▸ hfind) rfl ?_
    exact State.tasks_setTask_ne _ _ (fun heq => h.other (hcur.trans (congrArg some heq.symm)))

/-! ### Steps -/

/-- What task `k` and the searches look at has not changed, but for the time. -/
structure Aside (s s' : State) (k : Nat) : Prop where
  current : s'.current = s.current
  last : s'.lastScheduled = s.lastScheduled
  ready : (s.tasks k).ready false = true → (s'.tasks k).ready false = true

theorem Aside.keeps (h : Aside s s' k) (hready : s.Ready k) : s'.Ready k :=
  ⟨by rw [h.current]; exact hready.other, h.ready hready.ready⟩

theorem Aside.rank (h : Aside s s' k) : s'.rank maxTasks k = s.rank maxTasks k := by
  rw [State.rank, State.rank, State.scanStart, State.scanStart, h.current, h.last]

theorem Aside.nearer (h : Aside s s' k) (hready : s.Ready k) (hturns : s'.turns = s.turns) :
    Nearer maxTasks k s s' := by
  refine .inr ⟨h.keeps hready, fun hnone => h.current.symm.trans hnone, ?_⟩
  rw [h.rank, hturns]

theorem Closer.nearer (hc : Closer maxTasks k u s') (h : Aside s u k)
    (hturns : u.turns = s.turns + 1) : Nearer maxTasks k s s' := by
  obtain ⟨hsame, hsome, hnear⟩ := hc
  refine hnear.imp_right (fun hnear => ⟨hnear.1, fun hnone => absurd hnone hsome, ?_⟩)
  have hlt := hnear.2
  rw [h.rank] at hlt
  omega

theorem Nearer.after (hn : Nearer maxTasks k u s') (h : Aside s u k) (hturns : u.turns = s.turns) :
    Nearer maxTasks k s s' := by
  refine hn.imp_right (fun hnear => ⟨hnear.1, fun hnone => ?_, ?_⟩)
  · rw [← h.current]
    exact hnear.2.1 hnone
  · rw [← hturns, ← h.rank]
    exact hnear.2.2

/-- Another task changes. -/
theorem State.aside_setTask (s : State) (t : Task) (h : k ≠ j) : Aside s (s.setTask j t) k :=
  ⟨rfl, rfl, fun hready => by rw [State.tasks_setTask_ne s t h]; exact hready⟩

theorem State.Ready.ne_current (h : s.Ready k) (hcur : s.current = some j) : k ≠ j :=
  fun heq => h.other (hcur.trans (congrArg some heq.symm))

theorem State.Ready.yield (h : s.Ready k) (hk : k < maxTasks) (call : Call) :
    Nearer maxTasks k s (s.yield maxTasks call) := by
  cases hcur : s.current with
  | none =>
      rw [State.yield_of_none hcur]
      have haside : Aside s { s with
          callerCall := call, now := s.now + 1, turns := s.turns + 1,
          previousValid := s.schedCtxValid, schedCtxValid := true } k := ⟨rfl, rfl, id⟩
      exact ((haside.keeps h).schedule hk).nearer haside rfl
  | some j =>
      rw [State.yield_of_current hcur]
      have hother := s.aside_setTask { s.tasks j with call := call } (h.ne_current hcur)
      have haside : Aside s { s.setTask j { s.tasks j with call := call } with
          now := s.now + 1, turns := s.turns + 1 } k :=
        ⟨rfl, rfl, hother.ready⟩
      exact ((haside.keeps h).schedule hk).nearer haside rfl

theorem State.Ready.waitYield (h : s.Ready k) (hk : k < maxTasks) (call : Call) :
    Nearer maxTasks k s (s.waitYield maxTasks call) := by
  unfold State.waitYield
  split
  case h_1 => exact h.yield hk call
  case h_2 j hcur =>
    have haside := s.aside_setTask { s.tasks j with waiting := true } (h.ne_current hcur)
    exact ((haside.keeps h).yield hk call).after haside rfl

theorem State.Ready.finish (h : s.Ready k) (hk : k < maxTasks) (hcur : s.current = some j) :
    Nearer maxTasks k s (s.finish maxTasks j) := by
  unfold State.finish
  simp only
  generalize ht : { s.tasks j with
    finished := true, waiting := false, valid := (s.tasks j).valid && !(s.tasks j).detached } = t
  generalize hu : State.setTask
    { s.record (.returned (s.tasks j).owner) with turns := s.turns + 1 } j t = u
  have haside : Aside s u k := by
    rw [← hu]
    exact ⟨rfl, rfl, (s.aside_setTask t (h.ne_current hcur)).ready⟩
  have hready := haside.keeps h
  obtain ⟨next, hfind⟩ := State.findNextReadyTask_of_ready (b := false) hready hk
  have hcur' : u.current = some j := haside.current.trans hcur
  rw [hcur'] at hfind
  simp only [hfind]
  refine ((State.toTask_switched u next).closer hready hk (hcur'.symm ▸ hfind) rfl
    rfl).nearer haside ?_
  rw [← hu]
  rfl

theorem State.Ready.valid (h : s.Ready k) : (s.tasks k).valid = true :=
  Task.valid_of_live (Task.live_of_ready h.ready)

theorem State.Ready.create (h : s.Ready k) (entry arg : Nat) :
    Nearer maxTasks k s (s.create maxTasks entry arg) := by
  unfold State.create
  split
  case h_1 => exact Aside.nearer ⟨rfl, rfl, id⟩ h rfl
  case h_2 slot hfind =>
    have hfree := List.find?_some hfind
    have hne : k ≠ slot := by
      rintro rfl
      rw [h.valid] at hfree
      cases hfree
    exact Aside.nearer ⟨rfl, rfl, (s.aside_setTask _ hne).ready⟩ h rfl

theorem State.Ready.setCall (h : s.Ready k) (call : Call) : Aside s (s.setCall call) k := by
  cases hcur : s.current with
  | none =>
      rw [State.setCall_of_none hcur]
      exact ⟨rfl, rfl, id⟩
  | some j =>
      rw [State.setCall_of_current hcur]
      exact s.aside_setTask _ (h.ne_current hcur)

theorem State.turns_setCall (s : State) (call : Call) : (s.setCall call).turns = s.turns := by
  unfold State.setCall
  split <;> rfl

theorem State.Ready.detach (h : s.Ready k) (handle : Nat) :
    Nearer maxTasks k s (s.detach handle) := by
  unfold State.detach
  split
  case h_1 => exact Aside.nearer ⟨rfl, rfl, id⟩ h rfl
  case h_2 slot _ =>
    refine Aside.nearer ⟨rfl, rfl, fun hready => ?_⟩ h rfl
    show ((s.setTask slot { s.tasks slot with detached := true }).tasks k).ready false = true
    by_cases heq : k = slot
    · rw [heq, State.tasks_setTask_self]
      rwa [heq] at hready
    · rwa [State.tasks_setTask_ne s _ heq]

theorem State.Ready.joinLoop (h : s.Ready k) (hk : k < maxTasks) (handle slot : Nat)
    (forever : Bool) (deadline : Deadline) :
    Nearer maxTasks k s (s.joinLoop maxTasks handle slot forever deadline) := by
  unfold State.joinLoop
  split
  case isTrue hfinished =>
    have hne : k ≠ slot := by
      rintro rfl
      have hlive := Task.live_of_ready h.ready
      rw [Task.live, hfinished, Bool.not_true, Bool.and_false] at hlive
      cases hlive
    have haside := h.setCall .own
    refine Aside.nearer ⟨haside.current, haside.last, fun hready => ?_⟩ h
      (s.turns_setCall .own)
    exact (State.aside_setTask (s.setCall .own) _ hne).ready (haside.ready hready)
  case isFalse => exact h.yield hk _

theorem State.Ready.leaves (h : s.Ready k) (e : Event) :
    Nearer maxTasks k s ((s.setCall .own).record e) := by
  have haside := h.setCall .own
  exact Aside.nearer ⟨haside.current, haside.last, haside.ready⟩ h
    (s.turns_setCall .own)

theorem State.Ready.sleepLoop (h : s.Ready k) (hk : k < maxTasks) (wake : Deadline) :
    Nearer maxTasks k s (s.sleepLoop maxTasks wake) := by
  unfold State.sleepLoop
  split
  · exact h.waitYield hk _
  · exact h.leaves _

theorem State.Ready.act (h : s.Ready k) (hk : k < maxTasks) (hs : s.act maxTasks a = some s') :
    Nearer maxTasks k s s' := by
  cases a with
  | create entry arg => exact Option.some.inj hs ▸ h.create entry arg
  | yield => exact Option.some.inj hs ▸ h.yield hk .own
  | waitYield => exact Option.some.inj hs ▸ h.waitYield hk .wait
  | join handle timeout =>
      obtain rfl := Option.some.inj hs
      unfold State.join
      split
      · exact Aside.nearer ⟨rfl, rfl, id⟩ h rfl
      · exact State.Ready.joinLoop (s := s.record _) ⟨h.other, h.ready⟩ hk ..
  | sleep ms =>
      cases hs
      exact State.Ready.sleepLoop (s := s.record _) ⟨h.other, h.ready⟩ hk _
  | detach handle => exact Option.some.inj hs ▸ h.detach handle
  | finish =>
      obtain ⟨j, hcur, rfl⟩ := Option.map_eq_some_iff.mp hs
      exact h.finish hk hcur
  | advance => cases hs
  | tick => cases hs

theorem State.Ready.step (h : s.Ready k) (hk : k < maxTasks) (hs : s.step maxTasks a = some s') :
    Nearer maxTasks k s s' := by
  rcases State.step_cases hs with ⟨-, rfl⟩ | ⟨-, hadv⟩ | ⟨-, hact⟩
  · exact Aside.nearer ⟨rfl, rfl, id⟩ h rfl
  · unfold State.advance at hadv
    split at hadv
    case h_1 => cases hadv
    case h_2 => cases hadv
    case h_3 =>
      split at hadv <;> cases hadv
      · exact h.leaves _
      · exact h.joinLoop hk ..
    case h_4 =>
      cases hadv
      exact h.sleepLoop hk _
  · exact h.act hk hact

/-! ### Runs -/

/-- Over a run in which it never gets the processor, a ready task comes nearer with each turn. -/
theorem State.Ready.run {as : List (Action w)} (h : s.Ready k) (hk : k < maxTasks)
    (hrun : (taskMachine w maxTasks).run s as = some s')
    (hnever : ∀ pre post u, as = pre ++ post → (taskMachine w maxTasks).run s pre = some u →
      u.current ≠ some k) :
    s'.turns + s'.rank maxTasks k ≤ s.turns + s.rank maxTasks k := by
  induction as generalizing s with
  | nil =>
      obtain rfl : s = s' := by simpa [Machine.run] using hrun
      exact le_rfl
  | cons a rest ih =>
      rw [Machine.run] at hrun
      obtain ⟨u, hstep, hrest⟩ := Option.bind_eq_some_iff.mp hrun
      have hcons : ∀ pre, (taskMachine w maxTasks).run s (a :: pre) =
          (taskMachine w maxTasks).run u pre := by
        intro pre
        rw [Machine.run, hstep]
        rfl
      rcases h.step hk hstep with hcur | ⟨hready, -, hle⟩
      · exact absurd hcur (hnever [a] rest u rfl (hcons []))
      · refine (ih hready hrest (fun pre post v hsplit hpre => ?_)).trans hle
        exact hnever (a :: pre) post v (by rw [hsplit]; rfl) ((hcons pre).trans hpre)

theorem State.rank_lt (hk : k < maxTasks) (s : State) : s.rank maxTasks k < maxTasks :=
  cyclicDist_lt (s.scanStart_lt (Nat.zero_lt_of_lt hk) _) hk

/-- What the scheduler promises. -/
structure Sound (w maxTasks : Nat) (s : State) : Prop where
  /-- No switch went to a context that was not there, and `std::abort` was not called. -/
  fault : s.fault = false
  /-- The running task has neither finished nor is it marked as waiting. -/
  running : ∀ k, s.current = some k → (s.tasks k).live = true ∧ (s.tasks k).waiting = false
  /-- Each task that has not finished is in its context when it does not run, -/
  saved : ∀ k, s.current ≠ some k → (s.tasks k).live = true → (s.tasks k).ctx ≠ none
  /-- and so is the caller. -/
  caller : s.schedCtx = true ↔ s.current ≠ none
  /-- A task gives the processor to the caller only when no other task is ready. -/
  home : ∀ (a : Action w) s' j, s.step maxTasks a = some s' → s.current = some j →
    s'.current = none → ∀ k, ¬ s.Ready k
  /-- A task that is ready gets the processor before all parties together have given it up
  `maxTasks` times. -/
  fair : ∀ (as : List (Action w)) s' k, s.Ready k →
    (taskMachine w maxTasks).run s as = some s' → s.turns + maxTasks ≤ s'.turns →
    ∃ pre post u, as = pre ++ post ∧ (taskMachine w maxTasks).run s pre = some u ∧
      u.current = some k

theorem Control.sound (h : Control maxTasks s) : Sound w maxTasks s where
  fault := h.fault
  running k hk := ⟨(h.runs k hk).1.live, (h.runs k hk).1.waiting⟩
  saved k hk := (h.rests k hk).saved
  caller := by
    cases hcur : s.current with
    | none => simp [(h.home hcur).2.1]
    | some k => simp [(h.away k hcur).2]
  home a s' j hs hcur hnone k hready := by
    rcases hready.step (h.bounded k hready.valid) hs with hk | ⟨-, hkept, -⟩
    · cases hnone.symm.trans hk
    · cases hcur.symm.trans (hkept hnone)
  fair as s' k hready hrun hturns := by
    by_contra hnot
    have hk := h.bounded k hready.valid
    have hle := hready.run hk hrun
      (fun pre post u hsplit hpre hcur => hnot ⟨pre, post, u, hsplit, hpre, hcur⟩)
    have hlt := s.rank_lt hk
    omega

/-- Whatever tasks and the caller do, and however deep their waits are. -/
theorem scheduler_sound (w maxTasks : Nat) (s : State)
    (h : (taskMachine w maxTasks).Reachable s) : Sound w maxTasks s :=
  (Control.reachable h).sound

/-- Task 0 waits, and tasks 1 and 2 are ready when the caller runs again. -/
def crowd : List (Action 32) :=
  [.create 5 50, .create 6 60, .create 7 70, .yield, .waitYield, .yield]

theorem scheduler_sound_crowd : ∃ s : State, (taskMachine 32 16).Reachable s ∧
    s.current = some 2 ∧ (s.tasks 0).waiting = true ∧ s.Ready 1 ∧ Sound 32 16 s := by
  have hview : ((taskMachine 32 16).run (taskMachine 32 16).init crowd).map
      (fun s => (s.current, (s.tasks 0).waiting, (s.tasks 1).ready false)) =
      some (some 2, true, true) := by
    decide +kernel
  obtain ⟨s, hrun, hs⟩ := Option.map_eq_some_iff.mp hview
  obtain ⟨hcur, hrest⟩ := Prod.mk.inj hs
  obtain ⟨hwaiting, hready⟩ := Prod.mk.inj hrest
  have hreach := Machine.Reachable.of_run hrun
  exact ⟨s, hreach, hcur, hwaiting, ⟨by rw [hcur]; rintro ⟨⟩, hready⟩,
    scheduler_sound 32 16 s hreach⟩

end MicrOsal.BareMetalTasks
