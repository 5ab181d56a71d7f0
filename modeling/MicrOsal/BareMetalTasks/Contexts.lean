import MicrOsal.BareMetalTasks.Model

/-!
# MicrOsal.BareMetalTasks.Contexts

Every switch goes to a context that is there (`Control.step`).

Between the save and the switch nobody runs: each task that has not finished is in its context, and
the caller is in `bm_sched_ctx` (`Parked`). So a switch may go to any of them, and `std::abort` is
not reached. Then one party runs, and the others stay where they are (`Control`).
-/

namespace MicrOsal.BareMetalTasks

variable {w maxTasks k next previous : Nat} {s s' : State} {t t' : Task} {call : Call}
variable {a : Action w}

/-! ### Who runs and who does not -/

/-- A task that does not run. -/
structure Task.Rests (t : Task) : Prop where
  saved : t.live = true → t.ctx ≠ none
  gone : t.live = false → t.ctx = none ∧ t.call = .own
  fresh : t.ctx = some .trampoline → t.call = .own
  waiting : t.waiting = t.call.waits

/-- The task that runs. -/
structure Task.Runs (t : Task) : Prop where
  live : t.live = true
  ctx : t.ctx = none
  waiting : t.waiting = false
  call : t.call ≠ .wait

/-- It rests when it has yielded. -/
theorem Task.Runs.yields {b : Bool} (h : t.Runs) (hb : b = call.waits) :
    Task.Rests { t with waiting := b, call := call, ctx := some .schedule } where
  saved _ := by rintro ⟨⟩
  gone hgone := absurd (h.live.symm.trans hgone) (by rintro ⟨⟩)
  fresh := by rintro ⟨⟩
  waiting := hb

/-- What holds wherever the processor is. -/
structure Base (maxTasks : Nat) (s : State) : Prop where
  fault : s.fault = false
  bounded : ∀ k, (s.tasks k).valid = true → k < maxTasks
  previous : s.previousValid = false
  last : ∀ k, s.lastScheduled = some k → k < maxTasks

/-- Nobody runs. -/
structure Parked (maxTasks : Nat) (s : State) : Prop extends Base maxTasks s where
  rests : ∀ k, (s.tasks k).Rests
  valid : s.schedCtxValid = true
  saved : s.schedCtx = true

/-- One party runs. -/
structure Control (maxTasks : Nat) (s : State) : Prop extends Base maxTasks s where
  rests : ∀ k, s.current ≠ some k → (s.tasks k).Rests
  runs : ∀ k, s.current = some k → (s.tasks k).Runs ∧ s.lastScheduled = some k
  away : ∀ k, s.current = some k → s.schedCtxValid = true ∧ s.schedCtx = true
  home : s.current = none → s.schedCtxValid = false ∧ s.schedCtx = false ∧ s.callerCall ≠ .wait

theorem Call.resumed_ne_wait (call : Call) : call.resumed ≠ .wait := by
  cases call <;> rintro ⟨⟩

theorem Task.live_of_ready {b : Bool} (h : t.ready b = true) : t.live = true := by
  simp only [Task.ready, Bool.and_eq_true] at h
  simp only [Task.live, Bool.and_eq_true]
  exact h.1

theorem Task.valid_of_live (h : t.live = true) : t.valid = true := by
  simp only [Task.live, Bool.and_eq_true] at h
  exact h.1

theorem Control.initial : Control maxTasks State.initial where
  fault := rfl
  bounded k h := by cases h
  previous := rfl
  last k h := by cases h
  rests k _ := ⟨by rintro ⟨⟩, fun _ => ⟨rfl, rfl⟩, by rintro ⟨⟩, rfl⟩
  runs k h := by cases h
  away k h := by cases h
  home _ := ⟨rfl, rfl, by rintro ⟨⟩⟩

/-! ### Small steps -/

@[simp] theorem State.tasks_setTask_self (s : State) (k : Nat) (t : Task) :
    (s.setTask k t).tasks k = t := Function.update_self ..

theorem State.tasks_setTask_ne {j : Nat} (s : State) (t : Task) (h : j ≠ k) :
    (s.setTask k t).tasks j = s.tasks j := Function.update_of_ne h ..

@[simp] theorem State.setTask_setTask (s : State) (k : Nat) (t t' : Task) :
    (s.setTask k t).setTask k t' = s.setTask k t' := by
  simp only [State.setTask, Function.update_idem]

theorem State.call_of_current (h : s.current = some k) : s.call = (s.tasks k).call := by
  rw [State.call, h]

theorem State.setCall_of_none (h : s.current = none) (call : Call) :
    s.setCall call = { s with callerCall := call } := by
  unfold State.setCall
  split
  · rfl
  · rename_i heq
    cases h.symm.trans heq

theorem State.setCall_of_current (h : s.current = some k) (call : Call) :
    s.setCall call = s.setTask k { s.tasks k with call := call } := by
  rw [State.setCall, h]

theorem State.finished_setCall (s : State) (call : Call) (j : Nat) :
    ((s.setCall call).tasks j).finished = (s.tasks j).finished := by
  cases hcur : s.current with
  | none => rw [State.setCall_of_none hcur]
  | some k =>
      rw [State.setCall_of_current hcur]
      by_cases hjk : j = k
      · rw [hjk, State.tasks_setTask_self]
      · rw [State.tasks_setTask_ne s _ hjk]

/-- Changes of what no switch looks at. -/
theorem Control.plain (h : Control maxTasks s) (now filled turns : Nat)
    (handles : Nat → Option Nat) (log : List Event) :
    Control maxTasks { s with
      now := now, filled := filled, turns := turns, handles := handles, log := log } :=
  ⟨⟨h.fault, h.bounded, h.previous, h.last⟩, h.rests, h.runs, h.away, h.home⟩

theorem Base.bounded_set (h : Base maxTasks s) (hk : t.valid = true → k < maxTasks) :
    ∀ j, ((s.setTask k t).tasks j).valid = true → j < maxTasks := by
  intro j hj
  by_cases hjk : j = k
  · subst hjk
    rw [State.tasks_setTask_self] at hj
    exact hk hj
  · rw [State.tasks_setTask_ne s t hjk] at hj
    exact h.bounded j hj

/-- A task changes, and still runs or does not. -/
theorem Control.set (h : Control maxTasks s) (hrests : s.current ≠ some k → t.Rests)
    (hruns : s.current = some k → t.Runs) (hk : t.valid = true → k < maxTasks) :
    Control maxTasks (s.setTask k t) where
  fault := h.fault
  bounded := h.bounded_set hk
  previous := h.previous
  last := h.last
  rests j hj := by
    by_cases hjk : j = k
    · subst hjk
      rw [State.tasks_setTask_self]
      exact hrests hj
    · rw [State.tasks_setTask_ne s t hjk]
      exact h.rests j hj
  runs j hj := by
    by_cases hjk : j = k
    · subst hjk
      rw [State.tasks_setTask_self]
      exact ⟨hruns hj, (h.runs j hj).2⟩
    · rw [State.tasks_setTask_ne s t hjk]
      exact h.runs j hj
  away := h.away
  home := h.home

/-- The running party enters or leaves a loop. -/
theorem Control.setCall (h : Control maxTasks s) (call : Call) (hcall : call ≠ .wait) :
    Control maxTasks (s.setCall call) := by
  cases hcur : s.current with
  | none =>
      rw [State.setCall_of_none hcur]
      refine ⟨⟨h.fault, h.bounded, h.previous, h.last⟩, h.rests, h.runs, h.away, fun _ => ?_⟩
      exact ⟨(h.home hcur).1, (h.home hcur).2.1, hcall⟩
  | some k =>
      rw [State.setCall_of_current hcur]
      have hruns := (h.runs k hcur).1
      exact h.set (fun hne => absurd hcur hne)
        (fun _ => ⟨hruns.live, hruns.ctx, hruns.waiting, hcall⟩)
        (fun hvalid => h.bounded k hvalid)

/-! ### Switches -/

/-- A task begins to run. -/
theorem Parked.runs (h : Parked maxTasks s) (hnext : next < maxTasks) (hruns : t.Runs) :
    Control maxTasks ((s.dispatch next).setTask next t) where
  fault := h.fault
  bounded := h.bounded_set (fun _ => hnext)
  previous := h.previous
  last k hk := by
    obtain rfl := Option.some.inj hk
    exact hnext
  rests k hk := by
    rw [State.tasks_setTask_ne _ t (fun heq => hk (congrArg some heq.symm))]
    exact h.rests k
  runs k hk := by
    obtain rfl := Option.some.inj hk
    rw [State.tasks_setTask_self]
    exact ⟨hruns, rfl⟩
  away k _ := ⟨h.valid, h.saved⟩
  home hk := by cases hk

theorem State.back_of_none (h : s.current = none) :
    s.back = { s with schedCtxValid := s.previousValid, callerCall := s.callerCall.resumed } := by
  unfold State.back
  split
  · rfl
  · rename_i heq
    cases h.symm.trans heq

theorem State.back_setTask (h : s.current = some k) : (s.setTask k t).back =
    s.setTask k { t with waiting := !t.call.waits && t.waiting, call := t.call.resumed } := by
  rw [State.back, show (s.setTask k t).current = some k from h]
  simp only [State.tasks_setTask_self, State.setTask_setTask]

theorem State.toTask_none (h : (s.tasks next).ctx = none) :
    s.toTask next = { s.dispatch next with fault := true } := by
  simp only [State.toTask, h]

theorem State.toTask_trampoline (h : (s.tasks next).ctx = some .trampoline) :
    s.toTask next = ((s.dispatch next).setTask next { s.tasks next with ctx := none }).record
      (.called (s.tasks next).owner (s.tasks next).entry (s.tasks next).arg) := by
  simp only [State.toTask, h]

theorem State.toTask_schedule (h : (s.tasks next).ctx = some .schedule) :
    s.toTask next = (s.dispatch next).setTask next { s.tasks next with
      ctx := none, waiting := !(s.tasks next).call.waits && (s.tasks next).waiting,
      call := (s.tasks next).call.resumed } := by
  simp only [State.toTask, h]
  exact State.back_setTask rfl

/-- What a switch to task `next` leaves. -/
structure Switched (s s' : State) (next : Nat) : Prop where
  current : s'.current = some next
  turns : s'.turns = s.turns
  others : ∀ j, j ≠ next → s'.tasks j = s.tasks j

theorem State.toTask_switched (s : State) (next : Nat) : Switched s (s.toTask next) next := by
  cases hctx : (s.tasks next).ctx with
  | none =>
      rw [State.toTask_none hctx]
      exact ⟨rfl, rfl, fun _ _ => rfl⟩
  | some context =>
      cases context with
      | trampoline =>
          rw [State.toTask_trampoline hctx]
          exact ⟨rfl, rfl, fun _ hne => State.tasks_setTask_ne _ _ hne⟩
      | schedule =>
          rw [State.toTask_schedule hctx]
          exact ⟨rfl, rfl, fun _ hne => State.tasks_setTask_ne _ _ hne⟩

/-- A switch to a task that has not finished. -/
theorem Parked.toTask (h : Parked maxTasks s) (hlive : (s.tasks next).live = true) :
    Control maxTasks (s.toTask next) := by
  have hrests := h.rests next
  have hnext := h.bounded next (Task.valid_of_live hlive)
  cases hctx : (s.tasks next).ctx with
  | none => exact absurd hctx (hrests.saved hlive)
  | some context =>
      cases context with
      | trampoline =>
          have hown := hrests.fresh hctx
          have hruns : Task.Runs { s.tasks next with ctx := none } :=
            ⟨hlive, rfl, hrests.waiting.trans (by rw [hown]; rfl), by rw [hown]; rintro ⟨⟩⟩
          rw [State.toTask_trampoline hctx]
          exact (h.runs hnext hruns).plain _ _ _ _ _
      | schedule =>
          rw [State.toTask_schedule hctx]
          refine h.runs hnext ⟨hlive, rfl, ?_, Call.resumed_ne_wait _⟩
          rw [hrests.waiting]
          exact Bool.not_and_self _

theorem State.findNextReadyTask_some {current : Option Nat} {b : Bool}
    (h : s.findNextReadyTask maxTasks current b = some next) :
    some next ≠ current ∧ (s.tasks next).ready b = true := by
  have hp := (cyclicScan_some h).2
  simp only [Bool.and_eq_true, decide_eq_true_eq] at hp
  exact hp

/-- A switch to the caller. -/
theorem Parked.toCaller (h : Parked maxTasks s) : Control maxTasks s.toCaller := by
  rw [State.toCaller, if_pos h.saved]
  exact ⟨⟨h.fault, h.bounded, h.previous, h.last⟩, fun k _ => h.rests k, by rintro k ⟨⟩,
    by rintro k ⟨⟩, fun _ => ⟨h.previous, rfl, Call.resumed_ne_wait _⟩⟩

/-- The running party has come to `bm_schedule`. -/
structure Leaving (maxTasks : Nat) (s : State) : Prop extends Base maxTasks s where
  others : ∀ k, s.current ≠ some k → (s.tasks k).Rests
  own : ∀ k, s.current = some k → Task.Rests { s.tasks k with ctx := some .schedule }
  valid : s.schedCtxValid = true
  saved : s.schedCtx = true ↔ s.current ≠ none

theorem Base.set (h : Base maxTasks s) (hk : t.valid = true → k < maxTasks) :
    Base maxTasks (s.setTask k t) := ⟨h.fault, h.bounded_set hk, h.previous, h.last⟩

theorem rests_set (h : ∀ j, s.current ≠ some j → (s.tasks j).Rests) (hcur : s.current = some k)
    (ht : t.Rests) (j : Nat) : ((s.setTask k t).tasks j).Rests := by
  by_cases hjk : j = k
  · subst hjk
    rwa [State.tasks_setTask_self]
  · rw [State.tasks_setTask_ne s t hjk]
    exact h j (fun heq => hjk (Option.some.inj (heq.symm.trans hcur)))

theorem Leaving.save (h : Leaving maxTasks s) (hcur : s.current = some k) :
    Parked maxTasks (s.save k) where
  toBase := h.toBase.set (fun hv => h.bounded k hv)
  rests := rests_set h.others hcur (h.own k hcur)
  valid := h.valid
  saved := h.saved.mpr (by rw [hcur]; rintro ⟨⟩)

theorem Leaving.schedule (h : Leaving maxTasks s) : Control maxTasks (s.schedule maxTasks) := by
  unfold State.schedule
  split
  case h_1 hcur =>
    have hrests : ∀ k, (s.tasks k).Rests := fun k => h.others k (by rw [hcur]; rintro ⟨⟩)
    split
    case h_1 =>
      have hsaved : s.schedCtx = false := by
        rw [← Bool.not_eq_true, h.saved, hcur]
        exact fun hne => hne rfl
      rw [State.back_of_none hcur]
      exact ⟨⟨h.fault, h.bounded, h.previous, h.last⟩, fun k _ => hrests k,
        fun k hk => absurd (hcur.symm.trans hk) (by rintro ⟨⟩),
        fun k hk => absurd (hcur.symm.trans hk) (by rintro ⟨⟩),
        fun _ => ⟨h.previous, hsaved, Call.resumed_ne_wait _⟩⟩
    case h_2 next hfind =>
      have hparked : Parked maxTasks { s with schedCtx := true } :=
        ⟨⟨h.fault, h.bounded, h.previous, h.last⟩, hrests, h.valid, rfl⟩
      exact hparked.toTask (Task.live_of_ready (State.findNextReadyTask_some hfind).2)
  case h_2 k hcur =>
    have hparked := h.save hcur
    split
    case h_1 next hfind =>
      obtain ⟨hne, hready⟩ := State.findNextReadyTask_some hfind
      refine hparked.toTask ?_
      rw [State.save, State.tasks_setTask_ne s _ (fun heq => hne (congrArg some heq))]
      exact Task.live_of_ready hready
    case h_2 =>
      rw [if_pos h.valid]
      exact hparked.toCaller

/-! ### Steps -/

theorem Leaving.plain (h : Leaving maxTasks s) (now turns : Nat) :
    Leaving maxTasks { s with now := now, turns := turns } :=
  ⟨⟨h.fault, h.bounded, h.previous, h.last⟩, h.others, h.own, h.valid, h.saved⟩

/-- The running task is about to yield. -/
theorem Control.leaves (h : Control maxTasks s) (hcur : s.current = some k)
    (hrests : Task.Rests { t with ctx := some .schedule })
    (hvalid : t.valid = true → (s.tasks k).valid = true) :
    Leaving maxTasks (s.setTask k t) where
  toBase := h.toBase.set (fun hv => h.bounded k (hvalid hv))
  others j hj := by
    rw [State.tasks_setTask_ne s t (fun heq => hj (hcur.trans (congrArg some heq.symm)))]
    exact h.rests j hj
  own j hj := by
    obtain rfl := Option.some.inj (hcur.symm.trans hj)
    rwa [State.tasks_setTask_self]
  valid := (h.away k hcur).1
  saved := ⟨fun _ => by rw [show (s.setTask k t).current = some k from hcur]; rintro ⟨⟩,
    fun _ => (h.away k hcur).2⟩

theorem State.yield_of_none (h : s.current = none) (call : Call) :
    s.yield maxTasks call = State.schedule maxTasks { s with
      callerCall := call, now := s.now + 1, turns := s.turns + 1,
      previousValid := s.schedCtxValid, schedCtxValid := true } := by
  unfold State.yield
  rw [State.setCall_of_none h]
  simp only [h]

theorem State.yield_of_current (h : s.current = some k) (call : Call) :
    s.yield maxTasks call = State.schedule maxTasks
      { s.setTask k { s.tasks k with call := call } with
        now := s.now + 1, turns := s.turns + 1 } := by
  unfold State.yield
  rw [State.setCall_of_current h]
  simp only [State.setTask, h]

theorem Control.yield_caller (h : Control maxTasks s) (hcur : s.current = none) (call : Call) :
    Control maxTasks (s.yield maxTasks call) := by
  rw [State.yield_of_none hcur]
  have hleaving : Leaving maxTasks { s with
      callerCall := call, now := s.now + 1, turns := s.turns + 1,
      previousValid := s.schedCtxValid, schedCtxValid := true } :=
    ⟨⟨h.fault, h.bounded, (h.home hcur).1, h.last⟩, h.rests,
      fun k hk => absurd (hcur.symm.trans hk) (by rintro ⟨⟩), rfl,
      ⟨fun hsaved => absurd ((h.home hcur).2.1.symm.trans hsaved) (by rintro ⟨⟩),
        fun hne => absurd hcur hne⟩⟩
  exact hleaving.schedule

/-- A plain `osal_thread_yield`, or one in `osal_thread_join`. -/
theorem Control.yield (h : Control maxTasks s) (hcall : call.waits = false) :
    Control maxTasks (s.yield maxTasks call) := by
  cases hcur : s.current with
  | none => exact h.yield_caller hcur call
  | some k =>
      have hruns := (h.runs k hcur).1
      rw [State.yield_of_current hcur]
      exact ((h.leaves (t := { s.tasks k with call := call }) hcur
        (hruns.yields (hruns.waiting.trans hcall.symm)) id).plain _ _).schedule

theorem Control.waitYield (h : Control maxTasks s) (hcall : call.waits = true) :
    Control maxTasks (s.waitYield maxTasks call) := by
  unfold State.waitYield
  split
  case h_1 hcur => exact h.yield_caller hcur call
  case h_2 k hcur =>
    have hcur' : (s.setTask k { s.tasks k with waiting := true }).current = some k := hcur
    rw [State.yield_of_current hcur']
    simp only [State.tasks_setTask_self, State.setTask_setTask]
    exact ((h.leaves (t := { s.tasks k with waiting := true, call := call }) hcur
      ((h.runs k hcur).1.yields hcall.symm) id).plain _ _).schedule

theorem Control.finish (h : Control maxTasks s) (hcur : s.current = some k)
    (hcall : (s.tasks k).call = .own) : Control maxTasks (s.finish maxTasks k) := by
  have hruns := (h.runs k hcur).1
  have hrests : Task.Rests { s.tasks k with
      finished := true, waiting := false,
      valid := (s.tasks k).valid && !(s.tasks k).detached } := by
    refine ⟨fun hlive => ?_, fun _ => ⟨hruns.ctx, hcall⟩, fun _ => hcall, by rw [hcall]; rfl⟩
    simp [Task.live] at hlive
  have hbase := (h.toBase.set (t := { s.tasks k with
      finished := true, waiting := false,
      valid := (s.tasks k).valid && !(s.tasks k).detached })
    (fun _ => h.bounded k (Task.valid_of_live hruns.live)))
  have hparked : Parked maxTasks (State.setTask
      { s.record (.returned (s.tasks k).owner) with turns := s.turns + 1 } k
      { s.tasks k with
        finished := true, waiting := false,
        valid := (s.tasks k).valid && !(s.tasks k).detached }) :=
    ⟨⟨hbase.fault, hbase.bounded, hbase.previous, hbase.last⟩, rests_set h.rests hcur hrests,
      (h.away k hcur).1, (h.away k hcur).2⟩
  unfold State.finish
  simp only
  split
  case h_1 next hfind =>
    exact hparked.toTask (Task.live_of_ready (State.findNextReadyTask_some hfind).2)
  case h_2 =>
    rw [if_pos hparked.valid]
    exact hparked.toCaller

theorem Control.create (h : Control maxTasks s) (entry arg : Nat) :
    Control maxTasks (s.create maxTasks entry arg) := by
  unfold State.create
  split
  case h_1 => exact h
  case h_2 k hfind =>
    have hfree := List.find?_some hfind
    have hk := List.mem_range.mp (List.mem_of_find?_eq_some hfind)
    refine Control.plain (s := s.setTask k _) (h.set (fun _ => ?_) (fun hcur => ?_)
      (fun _ => hk)) _ _ _ _ _
    · exact ⟨fun _ => by rintro ⟨⟩, by rintro ⟨⟩, fun _ => rfl, rfl⟩
    · rw [Task.valid_of_live (h.runs k hcur).1.live] at hfree
      cases hfree

/-- A flag of a task changes that no switch looks at, or a task that has finished becomes
invalid. -/
theorem Control.flag (h : Control maxTasks s) (hlive : t.live = (s.tasks k).live)
    (hctx : t.ctx = (s.tasks k).ctx) (hcall : t.call = (s.tasks k).call)
    (hwaiting : t.waiting = (s.tasks k).waiting)
    (hvalid : t.valid = true → (s.tasks k).valid = true) : Control maxTasks (s.setTask k t) := by
  refine h.set (fun hne => ?_) (fun hcur => ?_) (fun hv => h.bounded k (hvalid hv))
  · have hrests := h.rests k hne
    exact ⟨by rw [hlive, hctx]; exact hrests.saved, by rw [hlive, hctx, hcall]; exact hrests.gone,
      by rw [hctx, hcall]; exact hrests.fresh, by rw [hwaiting, hcall]; exact hrests.waiting⟩
  · have hruns := (h.runs k hcur).1
    exact ⟨hlive.trans hruns.live, hctx.trans hruns.ctx, hwaiting.trans hruns.waiting,
      by rw [hcall]; exact hruns.call⟩

theorem Control.joinLoop (h : Control maxTasks s) (handle slot : Nat) (forever : Bool)
    (deadline : Deadline) :
    Control maxTasks (s.joinLoop maxTasks handle slot forever deadline) := by
  unfold State.joinLoop
  split
  case isTrue hfinished =>
    have hcontrol : Control maxTasks
        ((s.setCall .own).record (.joined handle .ok deadline s.now)) :=
      (h.setCall .own (by rintro ⟨⟩)).plain _ _ _ _ _
    have hfin : ((s.setCall .own).tasks slot).finished = true :=
      (State.finished_setCall s .own slot).trans hfinished
    refine (hcontrol.flag (t := { (s.setCall .own).tasks slot with valid := false }) ?_ rfl rfl rfl
      (by rintro ⟨⟩)).plain _ _ _ _ _
    show false = (((s.setCall .own).tasks slot).valid && !((s.setCall .own).tasks slot).finished)
    rw [hfin, Bool.not_true, Bool.and_false]
  case isFalse => exact h.yield rfl

theorem Control.sleepLoop (h : Control maxTasks s) (wake : Deadline) :
    Control maxTasks (s.sleepLoop maxTasks wake) := by
  unfold State.sleepLoop
  split
  · exact h.waitYield rfl
  · exact (h.setCall .own (by rintro ⟨⟩)).plain _ _ _ _ _

theorem Control.detach (h : Control maxTasks s) (handle : Nat) :
    Control maxTasks (s.detach handle) := by
  unfold State.detach
  split
  case h_1 => exact h
  case h_2 slot _ =>
    exact (h.flag (k := slot) (t := { s.tasks slot with detached := true }) rfl rfl rfl rfl
      id).plain _ _ _ _ _

theorem Control.join (h : Control maxTasks s) (handle : Nat) (timeout : Tick w) :
    Control maxTasks (s.join maxTasks handle timeout) := by
  unfold State.join
  split
  · exact h.plain _ _ _ _ _
  · exact Control.joinLoop (h.plain _ _ _ _ _) ..

theorem Control.act (h : Control maxTasks s) (hcall : s.call = .own)
    (hs : s.act maxTasks a = some s') : Control maxTasks s' := by
  cases a with
  | create entry arg => exact Option.some.inj hs ▸ h.create entry arg
  | yield => exact Option.some.inj hs ▸ h.yield rfl
  | waitYield => exact Option.some.inj hs ▸ h.waitYield rfl
  | join handle timeout => exact Option.some.inj hs ▸ h.join handle timeout
  | sleep ms => exact Option.some.inj hs ▸ Control.sleepLoop (h.plain _ _ _ _ _) _
  | detach handle => exact Option.some.inj hs ▸ h.detach handle
  | finish =>
      obtain ⟨k, hcur, rfl⟩ := Option.map_eq_some_iff.mp hs
      exact h.finish hcur ((State.call_of_current hcur).symm.trans hcall)
  | advance => cases hs
  | tick => cases hs

theorem Control.advance (h : Control maxTasks s) (hs : s.advance maxTasks = some s') :
    Control maxTasks s' := by
  unfold State.advance at hs
  split at hs
  case h_1 => cases hs
  case h_2 => cases hs
  case h_3 =>
    split at hs <;> cases hs
    · exact (h.setCall .own (by rintro ⟨⟩)).plain _ _ _ _ _
    · exact h.joinLoop ..
  case h_4 =>
    cases hs
    exact h.sleepLoop _

theorem State.step_cases (hs : s.step maxTasks a = some s') :
    a = .tick ∧ s' = { s with now := s.now + 1 } ∨ a = .advance ∧ s.advance maxTasks = some s' ∨
      s.call = .own ∧ s.act maxTasks a = some s' := by
  unfold State.step at hs
  split at hs
  case h_1 => exact .inl ⟨rfl, (Option.some.inj hs).symm⟩
  case h_2 =>
    split at hs
    · cases hs
    · exact .inr (.inl ⟨rfl, hs⟩)
  case h_3 =>
    split at hs
    case isTrue hfree => exact .inr (.inr ⟨hfree.2, hs⟩)
    case isFalse => cases hs

theorem Control.step (h : Control maxTasks s) (hs : s.step maxTasks a = some s') :
    Control maxTasks s' := by
  rcases State.step_cases hs with ⟨-, rfl⟩ | ⟨-, hadv⟩ | ⟨hcall, hact⟩
  · exact h.plain _ _ _ _ _
  · exact h.advance hadv
  · exact h.act hcall hact

theorem Control.reachable (h : (taskMachine w maxTasks).Reachable s) : Control maxTasks s :=
  h.invariant (I := Control maxTasks) .initial (fun _ _ _ _ hi hs => hi.step hs)

end MicrOsal.BareMetalTasks
