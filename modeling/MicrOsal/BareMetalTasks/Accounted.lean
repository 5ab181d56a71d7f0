import MicrOsal.BareMetalTasks.Handles

/-!
# MicrOsal.BareMetalTasks.Accounted

What a slot is taken for (`tasks_accounted`).

A slot is taken for a task that has not finished, or for the handle with which it can still be
joined. The exception is a task that was detached after it had finished: only its return from the
entry function would have freed the slot, so the slot is lost.
-/

namespace MicrOsal.BareMetalTasks

variable {w maxTasks j k h slot next : Nat} {s s' : State} {t : Task} {a : Action w}

/-! ### Slots that are lost -/

/-- The task was detached after it had finished. -/
def Task.lost (t : Task) : Bool := t.valid && t.finished && t.detached

theorem Task.lost_iff : t.lost = true ↔ t.valid = true ∧ t.finished = true ∧ t.detached = true := by
  simp only [Task.lost, Bool.and_eq_true, and_assoc]

theorem Task.not_live_of_lost (h : t.lost = true) : t.live = false := by
  rw [Task.live, (Task.lost_iff.mp h).2.1, Bool.not_true, Bool.and_false]

/-- Slot `k` is out of use: its task has finished. -/
structure State.Over (s : State) (k : Nat) : Prop where
  other : s.current ≠ some k
  gone : (s.tasks k).live = false

theorem State.Over.ne_current (h : s.Over k) (hcur : s.current = some j) : k ≠ j :=
  fun heq => h.other (hcur.trans (congrArg some heq.symm))

theorem State.Over.of_eq (h : s.Over k) (hcur : s'.current = s.current)
    (htask : s'.tasks k = s.tasks k) : s'.Over k :=
  ⟨by rw [hcur]; exact h.other, by rw [htask]; exact h.gone⟩

theorem State.Over.toTask (h : s.Over k) (hlive : (s.tasks next).live = true) :
    (s.toTask next).tasks k = s.tasks k :=
  (s.toTask_switched next).others k (by rintro rfl; cases h.gone.symm.trans hlive)

theorem State.tasks_toCaller (s : State) : s.toCaller.tasks = s.tasks := by
  unfold State.toCaller
  split <;> rfl

theorem State.Over.schedule (h : s.Over k) : (s.schedule maxTasks).tasks k = s.tasks k := by
  unfold State.schedule
  split
  case h_1 hcur =>
    split
    · rw [State.back_of_none hcur]
    · exact State.Over.toTask (s := { s with schedCtx := true }) ⟨h.other, h.gone⟩
        (Task.live_of_ready (State.findNextReadyTask_some ‹_›).2)
  case h_2 previous hcur =>
    have hsave : (s.save previous).tasks k = s.tasks k :=
      State.tasks_setTask_ne s _ (h.ne_current hcur)
    split
    case h_1 next hfind =>
      obtain ⟨hne, hready⟩ := State.findNextReadyTask_some hfind
      have hover : State.Over (s.save previous) k := h.of_eq rfl hsave
      refine (hover.toTask ?_).trans hsave
      rw [State.save, State.tasks_setTask_ne s _ (fun heq => hne (congrArg some heq))]
      exact Task.live_of_ready hready
    case h_2 =>
      split
      · rw [State.tasks_toCaller, hsave]
      · unfold State.back
        simp only [hcur]
        exact State.tasks_setTask_ne s _ (h.ne_current hcur)

theorem State.Over.setCall (h : s.Over k) (call : Call) : (s.setCall call).tasks k = s.tasks k := by
  cases hcur : s.current with
  | none => rw [State.setCall_of_none hcur]
  | some j =>
      rw [State.setCall_of_current hcur]
      exact State.tasks_setTask_ne s _ (h.ne_current hcur)

theorem State.Over.yield (h : s.Over k) (call : Call) :
    (s.yield maxTasks call).tasks k = s.tasks k := by
  cases hcur : s.current with
  | none =>
      rw [State.yield_of_none hcur]
      exact State.Over.schedule ⟨h.other, h.gone⟩
  | some j =>
      have hset := State.tasks_setTask_ne s { s.tasks j with call := call } (h.ne_current hcur)
      rw [State.yield_of_current hcur]
      have hover : State.Over { s.setTask j { s.tasks j with call := call } with
          now := s.now + 1, turns := s.turns + 1 } k := h.of_eq rfl hset
      exact hover.schedule.trans hset

theorem State.Over.waitYield (h : s.Over k) (call : Call) :
    (s.waitYield maxTasks call).tasks k = s.tasks k := by
  unfold State.waitYield
  split
  case h_1 => exact h.yield call
  case h_2 j hcur =>
    have hset := State.tasks_setTask_ne s { s.tasks j with waiting := true } (h.ne_current hcur)
    have hover : State.Over (s.setTask j { s.tasks j with waiting := true }) k :=
      h.of_eq rfl hset
    exact (hover.yield call).trans hset

theorem State.Over.finish (h : s.Over k) (hcur : s.current = some j) :
    (s.finish maxTasks j).tasks k = s.tasks k := by
  unfold State.finish
  simp only
  generalize ht : { s.tasks j with
    finished := true, waiting := false, valid := (s.tasks j).valid && !(s.tasks j).detached } = t
  generalize hu : State.setTask
    { s.record (.returned (s.tasks j).owner) with turns := s.turns + 1 } j t = u
  have hset : u.tasks k = s.tasks k := hu ▸ State.tasks_setTask_ne _ t (h.ne_current hcur)
  have hcur' : u.current = s.current := by
    rw [← hu]
    rfl
  split
  case h_1 next hfind =>
    exact ((h.of_eq hcur' hset).toTask
      (Task.live_of_ready (State.findNextReadyTask_some hfind).2)).trans hset
  case h_2 =>
    split
    · rw [State.tasks_toCaller, hset]
    · exact hset

theorem State.tasks_create (hvalid : (s.tasks k).valid = true) (entry arg : Nat) :
    (s.create maxTasks entry arg).tasks k = s.tasks k := by
  unfold State.create
  split
  case h_1 => rfl
  case h_2 slot hfind =>
    refine State.tasks_setTask_ne s _ ?_
    rintro rfl
    have hfree := List.find?_some hfind
    rw [hvalid] at hfree
    cases hfree

theorem State.Over.joinLoop (h : s.Over k) (hne : k ≠ slot) (handle : Nat) (forever : Bool)
    (deadline : Deadline) :
    (s.joinLoop maxTasks handle slot forever deadline).tasks k = s.tasks k := by
  unfold State.joinLoop
  split
  · exact (State.tasks_setTask_ne _ _ hne).trans (h.setCall .own)
  · exact h.yield _

theorem State.Over.sleepLoop (h : s.Over k) (wake : Deadline) :
    (s.sleepLoop maxTasks wake).tasks k = s.tasks k := by
  unfold State.sleepLoop
  split
  · exact h.waitYield _
  · exact h.setCall .own

/-- No handle leads to a slot that is lost. -/
theorem Records.ne_of_lost (hr : Records s) (hlost : (s.tasks k).lost = true)
    (hh : s.handles h = some slot) : k ≠ slot := by
  rintro rfl
  cases (hr.handles h k hh).2.2.symm.trans (Task.lost_iff.mp hlost).2.2

theorem Records.act_lost (hr : Records s) (ho : s.Over k) (hlost : (s.tasks k).lost = true)
    (hs : s.act maxTasks a = some s') : s'.tasks k = s.tasks k := by
  cases a with
  | create entry arg =>
      exact Option.some.inj hs ▸ State.tasks_create (Task.lost_iff.mp hlost).1 entry arg
  | yield => exact Option.some.inj hs ▸ ho.yield .own
  | waitYield => exact Option.some.inj hs ▸ ho.waitYield .wait
  | join h timeout =>
      obtain rfl := Option.some.inj hs
      unfold State.join
      split
      · rfl
      · exact State.Over.joinLoop (s := s.record _) ⟨ho.other, ho.gone⟩
          (hr.ne_of_lost hlost ‹_›) ..
  | sleep ms =>
      cases hs
      exact State.Over.sleepLoop (s := s.record _) ⟨ho.other, ho.gone⟩ _
  | detach h =>
      obtain rfl := Option.some.inj hs
      unfold State.detach
      split
      · rfl
      · exact State.tasks_setTask_ne s _ (hr.ne_of_lost hlost ‹_›)
  | finish =>
      obtain ⟨j, hcur, rfl⟩ := Option.map_eq_some_iff.mp hs
      exact ho.finish hcur
  | advance => cases hs
  | tick => cases hs

theorem Records.step_lost (hr : Records s) (hc : Control maxTasks s)
    (hlost : (s.tasks k).lost = true) (hs : s.step maxTasks a = some s') :
    s'.tasks k = s.tasks k := by
  have ho : s.Over k := by
    refine ⟨fun hcur => ?_, Task.not_live_of_lost hlost⟩
    cases (Task.not_live_of_lost hlost).symm.trans (hc.runs k hcur).1.live
  rcases State.step_cases hs with ⟨-, rfl⟩ | ⟨-, hadv⟩ | ⟨-, hact⟩
  · rfl
  · unfold State.advance at hadv
    split at hadv
    case h_1 => cases hadv
    case h_2 => cases hadv
    case h_3 h slot forever deadline hcall =>
      have hh := hr.joins s.current h slot forever deadline (s.callOf_current.trans hcall)
      split at hadv <;> cases hadv
      · exact ho.setCall .own
      · exact ho.joinLoop (hr.ne_of_lost hlost hh) ..
    case h_4 =>
      cases hadv
      exact ho.sleepLoop _
  · exact hr.act_lost ho hlost hact

/-! ### What is accounted for -/

theorem Records.run_lost {as : List (Action w)} (hr : Records s) (hc : Control maxTasks s)
    (hlost : (s.tasks k).lost = true)
    (hok : (taskMachine w maxTasks).RunOk (fun s a => s.orderly maxTasks a = true) s as)
    (hrun : (taskMachine w maxTasks).run s as = some s') : s'.tasks k = s.tasks k := by
  induction as generalizing s with
  | nil =>
      obtain rfl : s = s' := by simpa [Machine.run] using hrun
      rfl
  | cons a rest ih =>
      rw [Machine.run] at hrun
      obtain ⟨u, hstep, hrest⟩ := Option.bind_eq_some_iff.mp hrun
      have hsame := hr.step_lost hc hlost hstep
      refine (ih (hr.step hc hok.1 hstep) (hc.step hstep) ?_ (hok.2 u hstep) hrest).trans hsame
      rw [hsame]
      exact hlost

/-- What can be relied on of slots, handles and tasks. -/
structure Accounted (w maxTasks : Nat) (s : State) : Prop where
  /-- A handle leads to the task that it was filled with. -/
  handles : ∀ h k, s.handles h = some k → (s.tasks k).valid = true ∧ (s.tasks k).owner = h
  /-- No two slots have tasks of one handle. -/
  owners : ∀ j k, (s.tasks j).valid = true → (s.tasks k).valid = true →
    (s.tasks j).owner = (s.tasks k).owner → j = k
  /-- A slot is taken for a task that has not finished, for a handle, or it is lost. -/
  slots : ∀ k, (s.tasks k).valid = true → (s.tasks k).live = true ∨
    s.handles (s.tasks k).owner = some k ∨ (s.tasks k).lost = true
  /-- A slot that is lost stays so. -/
  lost : ∀ k (as : List (Action w)) s', (s.tasks k).lost = true →
    (taskMachine w maxTasks).RunOk (fun s a => s.orderly maxTasks a = true) s as →
    (taskMachine w maxTasks).run s as = some s' → s'.tasks k = s.tasks k
  /-- The entry function of a task is called once, as it was given to `osal_thread_create`; a join
  returns `ok` once, and when it has returned; no sleep and no timeout is early, counted from the
  time at which the call began, unless the sum in its deadline wraps. -/
  order : EachAfter Event.Fits s.log

theorem Records.accounted (hr : Records s) (hc : Control maxTasks s) :
    Accounted w maxTasks s where
  handles h k hh := ⟨(hr.handles h k hh).1, (hr.handles h k hh).2.1⟩
  owners := hr.owners
  slots k hvalid := by
    cases hdetached : (s.tasks k).detached with
    | false => exact .inr (.inl (hr.held k hvalid hdetached))
    | true =>
        cases hfinished : (s.tasks k).finished with
        | false => exact .inl (by rw [Task.live, hvalid, hfinished]; rfl)
        | true => exact .inr (.inr (Task.lost_iff.mpr ⟨hvalid, hfinished, hdetached⟩))
  lost k as s' hlost hok hrun := hr.run_lost hc hlost hok hrun
  order := hr.order

/-- Whatever tasks and the caller do, as long as nobody joins or detaches a handle that another
party is joining. -/
theorem tasks_accounted (w maxTasks : Nat) (s : State)
    (h : (taskMachine w maxTasks).ReachableBy (fun s a => s.orderly maxTasks a = true) s) :
    Accounted w maxTasks s := by
  have hboth := h.invariant (I := fun s => Records s ∧ Control maxTasks s)
    ⟨.initial, .initial⟩ (fun _ _ _ _ hi hok hs => ⟨hi.1.step hi.2 hok hs, hi.2.step hs⟩)
  exact hboth.1.accounted hboth.2

/-- The first task is joined while it runs; the second one is detached when it has finished. -/
def leaks : List (Action 32) :=
  [.create 5 50, .create 6 60, .join 0 waitForever, .finish, .finish, .advance, .detach 1]

theorem tasks_accounted_leaks : ∃ s : State, (taskMachine 32 16).Reachable s ∧
    s.log = [.created 0 5 50, .created 1 6 60, .begins 4294967295 0, .called 0 5 50, .returned 0,
      .called 1 6 60, .returned 1, .joined 0 .ok (.after 0 4294967295) 1] ∧
      (s.tasks 1).lost = true ∧ Accounted 32 16 s := by
  have hok : (taskMachine 32 16).RunOk (fun s a => s.orderly 16 a = true)
      (taskMachine 32 16).init leaks := by
    decide +kernel
  have hview : ((taskMachine 32 16).run (taskMachine 32 16).init leaks).map
      (fun s => (s.log, (s.tasks 1).lost)) =
      some ([.created 0 5 50, .created 1 6 60, .begins 4294967295 0, .called 0 5 50, .returned 0,
        .called 1 6 60, .returned 1, .joined 0 .ok (.after 0 4294967295) 1], true) := by
    decide +kernel
  obtain ⟨s, hrun, hs⟩ := Option.map_eq_some_iff.mp hview
  obtain ⟨hlog, hlost⟩ := Prod.mk.inj hs
  have hreach := Machine.ReachableBy.init.of_run hok hrun
  exact ⟨s, hreach.reachable, hlog, hlost, tasks_accounted 32 16 s hreach⟩

end MicrOsal.BareMetalTasks
