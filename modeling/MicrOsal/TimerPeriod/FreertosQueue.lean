import MicrOsal.TimerPeriod.Freertos

/-!
# MicrOsal.TimerPeriod.FreertosQueue

What a step does, and what is in the queue of the daemon while a change of the period is on its
way (`Stage`): no other command, and behind the stop a fence that comes back when the timer is
out of the list.
-/

namespace MicrOsal.TimerPeriod.Freertos

variable {period : Nat} {autoReload : Bool} {s s' : State} {a : Action} {c : Command}

/-! ### What a step does -/

/-- The steps of the task. -/
inductive Goes (s : State) : State → Prop
  | refused {code : ErrorCode} (htask : s.task = .starts ∨ s.task = .stops) :
      Goes s (s.finish code)
  | again : Goes s s
  | startSent (htask : s.task = .starts) : Goes s
      { s.send (.start s.now) (.idle (some .ok)) with account := s.account.start }
  | stopSent (htask : s.task = .stops) : Goes s (s.send .stop (.idle (some .ok)))
  | fenced {period : Nat} (htask : s.task = .fences period) :
      Goes s (s.send .fence (.awaits period))
  | settled {period : Nat} (htask : s.task = .awaits period) (hdone : s.done = true) :
      Goes s { s with done := false, task := .looks period }
  | looked {period : Nat} (htask : s.task = .looks period) : Goes s { s with
      task := if s.timer.armed.isSome then .changes true period else .suppresses period }
  | suppressed {period : Nat} (htask : s.task = .suppresses period) :
      Goes s { s with suppress := true, task := .changes false period }
  | failed {active : Bool} {period : Nat} (htask : s.task = .changes active period) :
      Goes s { s with task := .releases .unknown }
  | changed {active : Bool} {period : Nat} (htask : s.task = .changes active period) :
      Goes s (s.send (.changePeriod period) (if active then .refences true else .halts))
  | halted (htask : s.task = .halts) : Goes s (s.send .stop (.refences false))
  | refenced {active : Bool} (htask : s.task = .refences active) :
      Goes s (s.send .fence (.reawaits active))
  | returned {active : Bool} (htask : s.task = .reawaits active) (hdone : s.done = true) :
      Goes s { s with done := false, task := .releases .ok }
  | released {code : ErrorCode} (htask : s.task = .releases code) :
      Goes s { s with suppress := false, task := .idle (some code) }

theorem goes_of_go {fails : Bool} (hs : s.go fails = some s') : Goes s s' := by
  unfold State.go at hs
  generalize htask : s.task = here at hs
  cases here with
  | idle last =>
      cases hs
  | starts =>
      cases fails with
      | true => obtain rfl := Option.some.inj hs; exact .refused (.inl htask)
      | false => obtain rfl := Option.some.inj hs; exact .startSent htask
  | stops =>
      cases fails with
      | true => obtain rfl := Option.some.inj hs; exact .refused (.inr htask)
      | false => obtain rfl := Option.some.inj hs; exact .stopSent htask
  | fences period =>
      cases fails with
      | true => obtain rfl := Option.some.inj hs; exact .again
      | false => obtain rfl := Option.some.inj hs; exact .fenced htask
  | awaits period =>
      dsimp only at hs
      split at hs
      case isTrue hdone => obtain rfl := Option.some.inj hs; exact .settled htask hdone
      case isFalse => cases hs
  | looks period =>
      obtain rfl := Option.some.inj hs
      exact .looked htask
  | suppresses period =>
      obtain rfl := Option.some.inj hs
      exact .suppressed htask
  | changes active period =>
      cases fails with
      | true => obtain rfl := Option.some.inj hs; exact .failed htask
      | false => obtain rfl := Option.some.inj hs; exact .changed htask
  | halts =>
      cases fails with
      | true => obtain rfl := Option.some.inj hs; exact .again
      | false => obtain rfl := Option.some.inj hs; exact .halted htask
  | refences active =>
      cases fails with
      | true => obtain rfl := Option.some.inj hs; exact .again
      | false => obtain rfl := Option.some.inj hs; exact .refenced htask
  | reawaits active =>
      dsimp only at hs
      split at hs
      case isTrue hdone => obtain rfl := Option.some.inj hs; exact .returned htask hdone
      case isFalse => cases hs
  | releases code =>
      obtain rfl := Option.some.inj hs
      exact .released htask

theorem call_cases {task : Task} (hs : s.call task = some s') :
    (∃ last, s.task = .idle last) ∧ s' = { s with task := task, account := s.account.call } := by
  unfold State.call at hs
  split at hs
  case h_1 last htask => exact ⟨⟨last, htask⟩, (Option.some.inj hs).symm⟩
  case h_2 => cases hs

theorem setPeriod_cases {fails : Bool} (hs : s.setPeriod period fails = some s') :
    (∃ last, s.task = .idle last) ∧ ∃ task, ((∃ code, task = .idle (some code)) ∨
      task = .fences period) ∧ s' = { s with
        task := task
        account := s.account.setPeriod (! s.live) s.owed } := by
  unfold State.setPeriod at hs
  split at hs
  case h_1 last htask =>
    obtain rfl := Option.some.inj hs
    refine ⟨⟨last, htask⟩, _, ?_, rfl⟩
    split
    · exact .inl ⟨_, rfl⟩
    · split
      · exact .inl ⟨_, rfl⟩
      · exact .inr rfl
  case h_2 => cases hs

/-- The timer is put in the list, or has expired: then it is inactive, or goes on. -/
theorem insert_cases (due : Nat) (hs : s.insert due = s') :
    (∃ armed, armed ≠ none ∧ s' = { s with timer := { s.timer with armed := armed } }) ∨
      (∃ armed, (s.timer.autoReload = false → armed = none) ∧
        s' = { s with timer := { s.timer with armed := armed }, calls := true }) := by
  unfold State.insert at hs
  split at hs
  · exact .inl ⟨some due, nofun, hs.symm⟩
  · refine .inr ⟨_, fun hoff => ?_, hs.symm⟩
    rw [hoff]
    rfl

theorem expire_cases (hs : s.expire = some s') : s.timer.armed ≠ none ∧ s.calls = false ∧
    ∃ armed, (s.timer.autoReload = false → armed = none) ∧
      s' = { s with timer := { s.timer with armed := armed }, calls := true } := by
  unfold State.expire at hs
  split at hs
  case h_1 due harmed =>
    split at hs
    case isTrue => cases hs
    case isFalse hnot =>
      obtain ⟨hcalls, hdue⟩ := not_or.mp (mt Bool.or_eq_true_iff.mpr hnot)
      have hpast : ¬ s.now < due := fun hlt => hdue (decide_eq_true hlt)
      obtain rfl := Option.some.inj hs
      refine ⟨by rw [harmed]; nofun, Bool.eq_false_iff.mpr hcalls,
        if s.timer.autoReload then some (due + s.timer.period) else none, fun hoff => ?_, ?_⟩
      · rw [hoff]
        rfl
      · rw [State.insert, if_neg hpast]
  case h_2 => cases hs

theorem callback_cases (hs : s.callback = some s') : s.calls = true ∧ s' = { s with
    calls := false
    account := if s.suppress then s.account else s.account.callback } := by
  unfold State.callback at hs
  split at hs
  case isTrue hcalls => exact ⟨hcalls, (Option.some.inj hs).symm⟩
  case isFalse => cases hs

theorem command_cases (hs : s.command = some s') : s.calls = false ∧ ∃ c rest,
    s.queue = c :: rest ∧ s' = ({ s with queue := rest } : State).process c := by
  unfold State.command at hs
  split at hs
  case h_1 => cases hs
  case h_2 c rest hqueue =>
    split at hs
    case isTrue => cases hs
    case isFalse hcalls =>
      exact ⟨Bool.eq_false_iff.mpr hcalls, c, rest, hqueue, (Option.some.inj hs).symm⟩

/-! ### The queue -/

def Unfenced (s : State) : Prop := s.done = false ∧ .fence ∉ s.queue

/-- The fence is the last command, or has come back. -/
def Fenced (s : State) : Prop :=
  (s.done = false ∧ ∃ q, s.queue = q ++ [.fence] ∧ .fence ∉ q) ∨ (s.done = true ∧ s.queue = [])

/-- The stop of a change of the period is on its way, and what was sent after it, or has been
taken. -/
def Stopping (s : State) (tail : List Command) : Prop :=
  (∃ period, s.queue = .changePeriod period :: .stop :: tail) ∨ s.queue = .stop :: tail ∨
    (s.queue = tail ∧ s.timer.armed = none)

/-- What a task may rely on. -/
def Stage (s : State) : Task → Prop
  | .idle _ | .starts | .stops | .fences _ => s.suppress = false ∧ Unfenced s
  | .awaits _ => s.suppress = false ∧ Fenced s
  | .looks _ => s.suppress = false ∧ s.done = false ∧ s.queue = []
  | .suppresses _ => s.suppress = false ∧ s.done = false ∧ s.queue = [] ∧ s.timer.armed = none
  | .changes active _ => s.suppress = ! active ∧ s.done = false ∧ s.queue = [] ∧
      (active = false → s.timer.armed = none)
  | .halts => s.suppress = true ∧ s.done = false ∧
      ((∃ period, s.queue = [.changePeriod period]) ∨ s.queue = [])
  | .refences false => s.suppress = true ∧ s.done = false ∧ Stopping s []
  | .refences true => s.suppress = false ∧ Unfenced s
  | .reawaits false => s.suppress = true ∧ ((s.done = false ∧ Stopping s [.fence]) ∨
      (s.done = true ∧ s.queue = [] ∧ s.timer.armed = none ∧ s.calls = false))
  | .reawaits true => s.suppress = false ∧ Fenced s
  | .releases _ => s.done = false ∧ s.queue = []

theorem queue_send {task : Task} {q : List Command} (h : s.queue = q) :
    (s.send c task).queue = q ++ [c] := by
  rw [State.send, h]

theorem Unfenced.send (h : Unfenced s) (hc : c ≠ .fence) {task : Task} :
    Unfenced (s.send c task) := by
  refine ⟨h.1, fun hmem => ?_⟩
  rcases List.mem_append.mp hmem with hmem | hmem
  · exact h.2 hmem
  · exact hc (List.mem_singleton.mp hmem).symm

theorem Unfenced.fence (h : Unfenced s) {task : Task} : Fenced (s.send .fence task) :=
  .inl ⟨h.1, s.queue, rfl, h.2⟩

theorem Fenced.queue_eq (h : Fenced s) (hdone : s.done = true) : s.queue = [] := by
  rcases h with ⟨hnot, -⟩ | ⟨-, hqueue⟩
  · exact nomatch hnot.symm.trans hdone
  · exact hqueue

theorem unfenced_of_nil (hdone : s.done = false) (hqueue : s.queue = []) : Unfenced s := by
  refine ⟨hdone, ?_⟩
  rw [hqueue]
  exact List.not_mem_nil

/-- The daemon changes when the timer expires, and whether it is about to call back. -/
theorem Stage.timer {armed : Option Nat} {calls : Bool} {account : Account} {task : Task}
    (h : Stage s task) (harmed : s.timer.armed = none → armed = none)
    (hcalls : s.calls = false → s.timer.armed = none → calls = false) :
    Stage { s with
      timer := { s.timer with armed := armed }
      calls := calls
      account := account } task := by
  cases task with
  | idle | starts | stops | fences | awaits | looks | halts | releases =>
      exact h
  | suppresses =>
      exact ⟨h.1, h.2.1, h.2.2.1, harmed h.2.2.2⟩
  | changes =>
      exact ⟨h.1, h.2.1, h.2.2.1, fun hoff => harmed (h.2.2.2 hoff)⟩
  | refences active =>
      cases active with
      | true => exact h
      | false => exact ⟨h.1, h.2.1, h.2.2.imp_right (Or.imp_right (And.imp_right harmed))⟩
  | reawaits active =>
      cases active with
      | true => exact h
      | false =>
          refine ⟨h.1, h.2.imp (And.imp_right (Or.imp_right (Or.imp_right
            (And.imp_right harmed)))) ?_⟩
          rintro ⟨hdone, hqueue, hnone, hidle⟩
          exact ⟨hdone, hqueue, harmed hnone, hcalls hidle hnone⟩

/-- What the daemon leaves alone when it takes a command. -/
theorem process_same : (s.process c).queue = s.queue ∧ (s.process c).suppress = s.suppress ∧
    (s.process c).task = s.task ∧ (s.process c).account = s.account ∧
    (s.process c).timer.autoReload = s.timer.autoReload := by
  cases c with
  | fence | stop | changePeriod => exact ⟨rfl, rfl, rfl, rfl, rfl⟩
  | start sent =>
      rcases insert_cases (s := s) (sent + s.timer.period) rfl with
        ⟨armed, -, heq⟩ | ⟨armed, -, heq⟩
      all_goals
        rw [State.process, heq]
        exact ⟨rfl, rfl, rfl, rfl, rfl⟩

theorem done_process (hc : c ≠ .fence) : (s.process c).done = s.done := by
  cases c with
  | fence => exact absurd rfl hc
  | stop | changePeriod => rfl
  | start sent =>
      rcases insert_cases (s := s) (sent + s.timer.period) rfl with
        ⟨armed, -, heq⟩ | ⟨armed, -, heq⟩
      all_goals rw [State.process, heq]

section Command

variable {rest tail : List Command}

theorem Unfenced.command (h : Unfenced s) (hqueue : s.queue = c :: rest) :
    Unfenced (({ s with queue := rest } : State).process c) := by
  have hmem : .fence ∉ c :: rest := hqueue ▸ h.2
  obtain ⟨hc, hrest⟩ := not_or.mp (mt List.mem_cons.mpr hmem)
  refine ⟨(done_process (Ne.symm hc)).trans h.1, ?_⟩
  rw [process_same.1]
  exact hrest

theorem Fenced.command (h : Fenced s) (hqueue : s.queue = c :: rest) :
    Fenced (({ s with queue := rest } : State).process c) := by
  rcases h with ⟨hdone, q, hq, hmem⟩ | ⟨-, hnil⟩
  · rw [hqueue] at hq
    cases q with
    | nil =>
        obtain ⟨rfl, rfl⟩ := List.cons.inj hq
        exact .inr ⟨rfl, rfl⟩
    | cons first q =>
        obtain ⟨rfl, rfl⟩ := List.cons.inj hq
        obtain ⟨hc, hrest⟩ := not_or.mp (mt List.mem_cons.mpr hmem)
        exact .inl ⟨(done_process (Ne.symm hc)).trans hdone, q, process_same.1, hrest⟩
  · exact nomatch hqueue.symm.trans hnil

/-- The stop takes the timer out of the list, and it stays out. -/
theorem Stopping.command (h : Stopping s tail) (hqueue : s.queue = c :: rest)
    (htail : s.queue ≠ tail) :
    Stopping (({ s with queue := rest } : State).process c) tail ∧ c ≠ .fence := by
  rcases h with ⟨period, hq⟩ | hq | ⟨hq, -⟩
  · obtain ⟨rfl, rfl⟩ := List.cons.inj (hqueue.symm.trans hq)
    exact ⟨.inr (.inl rfl), nofun⟩
  · obtain ⟨rfl, rfl⟩ := List.cons.inj (hqueue.symm.trans hq)
    exact ⟨.inr (.inr ⟨rfl, rfl⟩), nofun⟩
  · exact absurd hq htail

theorem Stage.command {task : Task} (h : Stage s task) (hcalls : s.calls = false)
    (hqueue : s.queue = c :: rest) :
    Stage (({ s with queue := rest } : State).process c) task := by
  have hsuppress := (process_same (s := { s with queue := rest }) (c := c)).2.1
  cases task with
  | idle | starts | stops | fences =>
      exact ⟨hsuppress.trans h.1, h.2.command hqueue⟩
  | awaits =>
      exact ⟨hsuppress.trans h.1, h.2.command hqueue⟩
  | looks =>
      exact nomatch hqueue.symm.trans h.2.2
  | suppresses | changes =>
      exact nomatch hqueue.symm.trans h.2.2.1
  | releases =>
      exact nomatch hqueue.symm.trans h.2
  | halts =>
      obtain ⟨hset, hdone, ⟨period, hq⟩ | hq⟩ := h
      · obtain ⟨rfl, rfl⟩ := List.cons.inj (hqueue.symm.trans hq)
        exact ⟨hset, hdone, .inr rfl⟩
      · exact nomatch hqueue.symm.trans hq
  | refences active =>
      cases active with
      | true => exact ⟨hsuppress.trans h.1, h.2.command hqueue⟩
      | false =>
          obtain ⟨hset, hdone, hstopping⟩ := h
          obtain ⟨hstopping, hc⟩ := hstopping.command hqueue (by rw [hqueue]; nofun)
          exact ⟨hsuppress.trans hset, (done_process hc).trans hdone, hstopping⟩
  | reawaits active =>
      cases active with
      | true => exact ⟨hsuppress.trans h.1, h.2.command hqueue⟩
      | false =>
          refine ⟨hsuppress.trans h.1, ?_⟩
          rcases h.2 with ⟨hdone, hstopping⟩ | ⟨-, hnil, -⟩
          · by_cases hlast : s.queue = [.fence]
            · -- The stop has been taken, so that the fence finds the timer inactive.
              obtain ⟨rfl, rfl⟩ := List.cons.inj (hqueue.symm.trans hlast)
              rcases hstopping with ⟨period, hq⟩ | hq | ⟨-, hnone⟩
              · cases hlast.symm.trans hq
              · cases hlast.symm.trans hq
              · exact .inr ⟨rfl, rfl, hnone, hcalls⟩
            · obtain ⟨hstopping, hc⟩ := hstopping.command hqueue hlast
              exact .inl ⟨(done_process hc).trans hdone, hstopping⟩
          · exact nomatch hqueue.symm.trans hnil

end Command

theorem Stopping.fence (h : Stopping s []) {task : Task} :
    Stopping (s.send .fence task) [.fence] := by
  rcases h with ⟨period, hq⟩ | hq | ⟨hq, hnone⟩
  · exact .inl ⟨period, queue_send hq⟩
  · exact .inr (.inl (queue_send hq))
  · exact .inr (.inr ⟨queue_send hq, hnone⟩)

theorem Stage.go (h : Stage s s.task) (hs : Goes s s') : Stage s' s'.task := by
  cases hs with
  | again => exact h
  | refused htask =>
      rcases htask with htask | htask
      all_goals
        rw [htask] at h
        exact h
  | startSent htask =>
      rw [htask] at h
      have hsent : Unfenced (s.send (.start s.now) (.idle (some .ok))) := h.2.send (by nofun)
      exact ⟨h.1, hsent⟩
  | stopSent htask =>
      rw [htask] at h
      exact ⟨h.1, h.2.send (by nofun)⟩
  | fenced htask =>
      rw [htask] at h
      exact ⟨h.1, h.2.fence⟩
  | settled htask hdone =>
      rw [htask] at h
      exact ⟨h.1, rfl, h.2.queue_eq hdone⟩
  | looked htask =>
      rw [htask] at h
      obtain ⟨hset, hdone, hqueue⟩ := h
      cases harmed : s.timer.armed with
      | none => exact ⟨hset, hdone, hqueue, harmed⟩
      | some due => exact ⟨hset, hdone, hqueue, nofun⟩
  | suppressed htask =>
      rw [htask] at h
      exact ⟨rfl, h.2.1, h.2.2.1, fun _ => h.2.2.2⟩
  | failed htask =>
      rw [htask] at h
      exact ⟨h.2.1, h.2.2.1⟩
  | @changed active period htask =>
      rw [htask] at h
      obtain ⟨hset, hdone, hqueue, -⟩ := h
      cases active with
      | true => exact ⟨hset, (unfenced_of_nil hdone hqueue).send (by nofun)⟩
      | false => exact ⟨hset, hdone, .inl ⟨period, queue_send hqueue⟩⟩
  | halted htask =>
      rw [htask] at h
      obtain ⟨hset, hdone, ⟨period, hq⟩ | hq⟩ := h
      · exact ⟨hset, hdone, .inl ⟨period, queue_send hq⟩⟩
      · exact ⟨hset, hdone, .inr (.inl (queue_send hq))⟩
  | @refenced active htask =>
      rw [htask] at h
      cases active with
      | true => exact ⟨h.1, h.2.fence⟩
      | false => exact ⟨h.1, .inl ⟨h.2.1, h.2.2.fence⟩⟩
  | @returned active htask hdone =>
      rw [htask] at h
      cases active with
      | true => exact ⟨rfl, h.2.queue_eq hdone⟩
      | false =>
          rcases h.2 with ⟨hnot, -⟩ | ⟨-, hqueue, -⟩
          · exact nomatch hnot.symm.trans hdone
          · exact ⟨rfl, hqueue⟩
  | released htask =>
      rw [htask] at h
      exact ⟨rfl, unfenced_of_nil h.1 h.2⟩

theorem Stage.step (h : Stage s s.task) (hs : s.step a = some s') : Stage s' s'.task := by
  cases a with
  | tick =>
      obtain rfl := Option.some.inj hs
      exact h
  | expire =>
      obtain ⟨harmed, -, armed, -, rfl⟩ := expire_cases hs
      exact h.timer (fun hnone => absurd hnone harmed) (fun _ hnone => absurd hnone harmed)
  | callback =>
      obtain ⟨-, rfl⟩ := callback_cases hs
      exact h.timer id (fun _ _ => rfl)
  | command =>
      obtain ⟨hcalls, c, rest, hqueue, rfl⟩ := command_cases hs
      rw [process_same.2.2.1]
      exact h.command hcalls hqueue
  | start | stop =>
      obtain ⟨⟨last, htask⟩, rfl⟩ := call_cases hs
      rw [htask] at h
      exact h
  | setPeriod period fails =>
      obtain ⟨⟨last, htask⟩, task, htask', rfl⟩ := setPeriod_cases hs
      rw [htask] at h
      rcases htask' with ⟨code, rfl⟩ | rfl
      · exact h
      · exact h
  | go fails => exact h.go (goes_of_go hs)

end MicrOsal.TimerPeriod.Freertos
