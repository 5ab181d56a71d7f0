import MicrOsal.WaitReady.Source

/-!
# MicrOsal.WaitReady.Wakeup

A wait on a signal loses no wakeup and is not early (`wait_until_ready_sound`).

A caller that goes to sleep has looked at the stop flag and at the predicate since the semaphore
last lost its permit, because nobody else takes it. So a give that came later is still there,
whatever the generation shows: the comparison with `observed` may only spare the caller a take.
-/

namespace MicrOsal.WaitReady

variable {w : Nat} {cfg : Config} {initialization : ErrorCode} {s s' u : State w} {n m c p : Nat}
variable {call call' : Call} {phase phase' : Phase w} {wait : Wait w} {r give take : ErrorCode}
variable {sig sig' : Signal} {note note' : Notify} {a : Action}

/-! ### What a notification does -/

/-- What a step of `notify_impl` leaves and does. -/
structure Notified (sig sig' : Signal) (give : ErrorCode) (note' : Notify) : Prop where
  created : sig'.created = sig.created
  waiting : sig'.waiting = sig.waiting
  permit : sig.permit = true → sig'.permit = true
  failure : sig'.failure = sig.failure ∨ sig'.failure = give ∧ give ≠ .ok
  begun : note' ≠ .entry
  /-- When it has succeeded, the semaphore has its permit. -/
  given : note' = .done .ok → sig'.permit = true
  failed : sig.created = .ok → ∀ r, note' = .done r → r ≠ .ok → sig'.failure ≠ .ok

theorem Notified.of_step (h : sig.notifyImpl give note = some (sig', note')) :
    Notified sig sig' give note' := by
  cases note with
  | entry =>
      obtain ⟨rfl, rfl⟩ := Prod.mk.inj (Option.some.inj h)
      refine ⟨rfl, rfl, id, .inl rfl, ?_, ?_, ?_⟩
      · split <;> rintro ⟨⟩
      · split
        · rintro ⟨⟩
        · rename_i hbad
          exact fun hdone => absurd (Notify.done.inj hdone) hbad
      · intro hcreated r
        split
        · rintro ⟨⟩
        · rintro hdone hr
          cases Notify.done.inj hdone
          rwa [Signal.status, if_pos hcreated] at hr
  | count =>
      obtain ⟨rfl, rfl⟩ := Prod.mk.inj (Option.some.inj h)
      exact ⟨rfl, rfl, id, .inl rfl, by rintro ⟨⟩, by rintro ⟨⟩, by rintro _ r ⟨⟩⟩
  | give =>
      simp only [Signal.notifyImpl] at h
      split at h
      case isTrue =>
        obtain ⟨rfl, rfl⟩ := Prod.mk.inj (Option.some.inj h)
        exact ⟨rfl, rfl, fun _ => rfl, .inl rfl, by rintro ⟨⟩, fun _ => rfl,
          fun _ r hr hbad => absurd (Notify.done.inj hr).symm hbad⟩
      case isFalse hbad =>
        split at h
        case isTrue =>
          split at h
          case isTrue hfull =>
            obtain ⟨rfl, rfl⟩ := Prod.mk.inj (Option.some.inj h)
            exact ⟨rfl, rfl, id, .inl rfl, by rintro ⟨⟩, fun _ => hfull,
              fun _ r hr hbad => absurd (Notify.done.inj hr).symm hbad⟩
          case isFalse => cases h
        case isFalse =>
          obtain ⟨rfl, rfl⟩ := Prod.mk.inj (Option.some.inj h)
          exact ⟨rfl, rfl, id, .inr ⟨rfl, hbad⟩, (by rintro ⟨⟩),
            fun hdone => absurd (Notify.done.inj hdone) hbad, fun _ _ _ _ => hbad⟩
  | done => cases h

/-! ### The invariant -/

/-- From the look at `token.stop_requested()` to the sleep. -/
def Phase.pastStop : Phase w → Bool
  | .ready => true
  | .expiry => true
  | .remaining => true
  | .change _ => true
  | .compare _ => true
  | .take _ => true
  | _ => false

/-- From the call of `ready()` to the sleep. -/
def Phase.pastReady : Phase w → Bool
  | .ready => false
  | phase => phase.pastStop

/-- `deadline` has been made. -/
def Phase.timed : Phase w → Bool
  | .deadline => false
  | phase => phase.inside

/-- The result `r` of a call is right. -/
structure Answer (s : State w) (call : Call) (r : ErrorCode) : Prop where
  /-- `ok`: the last `ready()` was true, and no stop had been found before it. -/
  ok : r = .ok → call.wasReady = true ∧ call.sawStop = false
  /-- `cancelled`: a stop is requested at the token's source. -/
  cancelled : r = .cancelled → call.token = true ∧ s.source.source.stopped = true
  /-- `timeout`: the deadline that was made of the timeout has expired. -/
  timeout : r = .timeout → 0 ≤ call.timeout ∧
    deadlineAfter call.start call.timeout = some call.expiry ∧
    deadlineExpired call.expiry s.now = true

/-- What the values that a phase carries are worth. -/
def Phase.Holds (s : State w) (call : Call) : Phase w → Prop
  | .change timeout => call.timeout < 0 → timeout < 0
  | .compare timeout => call.timeout < 0 → timeout < 0
  | .take ticks => call.timeout < 0 → ticks = waitForever
  | .taken r => r ≠ .cancelled ∧ (r = .timeout → 0 ≤ call.timeout)
  | .changed r => r ≠ .cancelled ∧ (r = .timeout → 0 ≤ call.timeout)
  | .close r => Answer s call r
  | .closing r => Answer s call r
  | .release r => Answer s call r
  | _ => True

structure Wait.Ok (s : State w) (wait : Wait w) : Prop where
  saw : wait.call.sawStop = true → wait.call.token = true ∧ s.source.source.stopped = true
  unseen : wait.phase.pastStop = true → wait.call.sawStop = false
  /-- When the callback of the wait has notified, the permit is there. -/
  stop : wait.phase.pastStop = true → wait.call.token = true →
    s.notes wait.call.callback = some (.done .ok) → s.signal.permit = true
  /-- When the predicate is true by a change that has been notified, the permit is there. -/
  ready : wait.phase.pastReady = true → s.announced = true → s.signal.permit = true
  deadline : wait.phase.timed = true →
    deadlineAfter wait.call.start wait.call.timeout = some wait.call.expiry
  holds : wait.phase.Holds s wait.call

/-- What concerns no caller in particular. -/
structure Shared (s : State w) : Prop where
  source : Stop.Sane s.source
  created : s.signal.created = .ok
  failure : s.signal.failure.plain = true
  notes : ∀ c note, s.notes c = some note → note ≠ .entry → s.source.source.stopped = true
  failed : ∀ c r, s.notes c = some (.done r) → r ≠ .ok → s.signal.failure ≠ .ok
  fresh : ∀ p, (s.producers p).fresh = true → s.ready = true
  announced : s.announced = true → s.ready = true

/-- Thread `n` is between a `begin_wait` that has claimed the signal and its `end_wait`. -/
def State.inside (s : State w) (n : Nat) : Prop := (s.waits n).phase.inside = true

structure Callers (s : State w) : Prop where
  claimed : ∀ n, s.inside n → s.signal.waiting = true
  alone : ∀ n m, s.inside n → s.inside m → n = m
  waits : ∀ n, (s.waits n).Ok s
  returns : ∀ o ∈ s.returns, Answer s o.call o.result

structure Inv (s : State w) : Prop extends Shared s, Callers s

/-! ### Steps that leave what callers rely on -/

/-- What a caller relies on is still so, or the permit has come. -/
structure Later (s s' : State w) : Prop where
  stopped : s.source.source.stopped = true → s'.source.source.stopped = true
  now : s.now ≤ s'.now
  permit : s.signal.permit = true → s'.signal.permit = true
  notes : ∀ c, s'.notes c = some (.done .ok) →
    s.notes c = some (.done .ok) ∨ s'.signal.permit = true
  announced : s'.announced = true → s.announced = true ∨ s'.signal.permit = true

theorem Later.of_eq (hstopped : s'.source.source.stopped = s.source.source.stopped)
    (hnow : s'.now = s.now) (hpermit : s'.signal.permit = s.signal.permit)
    (hnotes : s'.notes = s.notes) (hannounced : s'.announced = s.announced) : Later s s' where
  stopped h := hstopped.trans h
  now := hnow.ge
  permit h := hpermit.trans h
  notes c h := .inl (by rwa [hnotes] at h)
  announced h := .inl (hannounced.symm.trans h)

theorem Answer.later (h : Answer s call r)
    (hstopped : s.source.source.stopped = true → s'.source.source.stopped = true)
    (hnow : s.now ≤ s'.now) : Answer s' call r where
  ok := h.ok
  cancelled hr := ⟨(h.cancelled hr).1, hstopped (h.cancelled hr).2⟩
  timeout hr := by
    obtain ⟨hpos, hmade, hexpired⟩ := h.timeout hr
    refine ⟨hpos, hmade, ?_⟩
    simp only [deadlineExpired, decide_eq_true_eq] at hexpired ⊢
    omega

/-- A failure answers nothing. -/
theorem Answer.of_plain (hplain : r.plain = true) (hbad : r ≠ .ok) : Answer s call r := by
  simp only [ErrorCode.plain, decide_eq_true_eq] at hplain
  exact ⟨fun h => absurd h hbad, fun h => absurd h hplain.2, fun h => absurd h hplain.1⟩

theorem Phase.Holds.later (h : phase.Holds s call)
    (hstopped : s.source.source.stopped = true → s'.source.source.stopped = true)
    (hnow : s.now ≤ s'.now) : phase.Holds s' call := by
  cases phase with
  | close | closing | release => exact Answer.later h hstopped hnow
  | change | compare | take | taken | changed => exact h
  | _ => trivial

theorem Wait.Ok.later (h : wait.Ok s) (hl : Later s s') : wait.Ok s' where
  saw hsaw := ⟨(h.saw hsaw).1, hl.stopped (h.saw hsaw).2⟩
  unseen := h.unseen
  stop hpast htoken hdone :=
    (hl.notes _ hdone).elim (fun hold => hl.permit (h.stop hpast htoken hold)) id
  ready hpast hann := (hl.announced hann).elim (fun hold => hl.permit (h.ready hpast hold)) id
  deadline := h.deadline
  holds := h.holds.later hl.stopped hl.now

theorem Callers.later (h : Callers s) (hl : Later s s') (hwaits : s'.waits = s.waits)
    (hreturns : s'.returns = s.returns) (hwaiting : s'.signal.waiting = s.signal.waiting) :
    Callers s' where
  claimed n hn := by
    rw [State.inside, hwaits] at hn
    rw [hwaiting]
    exact h.claimed n hn
  alone n m hn hm := by
    rw [State.inside, hwaits] at hn hm
    exact h.alone n m hn hm
  waits n := by
    rw [hwaits]
    exact (h.waits n).later hl
  returns o ho := by
    rw [hreturns] at ho
    exact (h.returns o ho).later hl.stopped hl.now

/-! ### Steps of a caller -/

theorem Phase.inside_of_pastStop (h : phase.pastStop = true) : phase.inside = true := by
  cases phase <;> first | rfl | cases h

theorem Phase.pastStop_of_pastReady (h : phase.pastReady = true) : phase.pastStop = true := by
  cases phase <;> first | rfl | cases h

/-- A caller that is not past the look at the stop flag knows nothing of the permit. -/
theorem Wait.Ok.outside (hpast : phase.pastStop = false)
    (hsaw : call.sawStop = true → call.token = true ∧ s.source.source.stopped = true)
    (hdeadline : phase.timed = true → deadlineAfter call.start call.timeout = some call.expiry)
    (hholds : phase.Holds s call) : Wait.Ok s ⟨phase, call⟩ where
  saw := hsaw
  unseen h := absurd (hpast.symm.trans h) Bool.false_ne_true
  stop h := absurd (hpast.symm.trans h) Bool.false_ne_true
  ready h := absurd (hpast.symm.trans (Phase.pastStop_of_pastReady h)) Bool.false_ne_true
  deadline := hdeadline
  holds := hholds

/-- A caller moves on, and knows no more than before. -/
theorem Wait.Ok.move (h : Wait.Ok s ⟨phase, call⟩)
    (hstop : phase'.pastStop = true → phase.pastStop = true)
    (hready : phase'.pastReady = true → phase.pastReady = true)
    (htimed : phase'.timed = true → phase.timed = true) (hholds : phase'.Holds s call) :
    Wait.Ok s ⟨phase', call⟩ where
  saw := h.saw
  unseen hpast := h.unseen (hstop hpast)
  stop hpast := h.stop (hstop hpast)
  ready hpast := h.ready (hready hpast)
  deadline ht := h.deadline (htimed ht)
  holds := hholds

theorem State.waits_goto (s : State w) (n : Nat) (call : Call) (phase : Phase w) :
    (s.goto n call phase).waits n = ⟨phase, call⟩ := Function.update_self ..

theorem State.waits_goto_ne (s : State w) (call : Call) (phase : Phase w) (h : m ≠ n) :
    (s.goto n call phase).waits m = s.waits m := Function.update_of_ne h ..

theorem Callers.goto (h : Callers s) (hwait : s.waits n = ⟨phase, call⟩)
    (hinside : phase'.inside = true → phase.inside = true) (hok : Wait.Ok s ⟨phase', call'⟩) :
    Callers (s.goto n call' phase') := by
  have hback : ∀ m, (s.goto n call' phase').inside m → s.inside m := by
    intro m hm
    by_cases hmn : m = n
    · subst hmn
      rw [State.inside, State.waits_goto] at hm
      rw [State.inside, hwait]
      exact hinside hm
    · rwa [State.inside, State.waits_goto_ne s call' phase' hmn] at hm
  have hl : Later s (s.goto n call' phase') := .of_eq rfl rfl rfl rfl rfl
  refine ⟨fun m hm => h.claimed m (hback m hm), fun m k hm hk => h.alone m k (hback m hm)
    (hback k hk), fun m => ?_, fun o ho => (h.returns o ho).later hl.stopped hl.now⟩
  by_cases hmn : m = n
  · subst hmn
    rw [State.waits_goto]
    exact hok.later hl
  · rw [State.waits_goto_ne s call' phase' hmn]
    exact (h.waits m).later hl

theorem Inv.goto (hi : Inv s) (hwait : s.waits n = ⟨phase, call⟩)
    (hinside : phase'.inside = true → phase.inside = true) (hok : Wait.Ok s ⟨phase', call'⟩) :
    Inv (s.goto n call' phase') :=
  ⟨⟨hi.source, hi.created, hi.failure, hi.notes, hi.failed, hi.fresh, hi.announced⟩,
    hi.toCallers.goto hwait hinside hok⟩

/-- A caller moves on within its call. -/
theorem Inv.move (hi : Inv s) (hwait : s.waits n = ⟨phase, call⟩)
    (hinside : phase'.inside = true → phase.inside = true)
    (hstop : phase'.pastStop = true → phase.pastStop = true)
    (hready : phase'.pastReady = true → phase.pastReady = true)
    (htimed : phase'.timed = true → phase.timed = true) (hholds : phase'.Holds s call) :
    Inv (s.goto n call phase') := by
  have hok := hi.waits n
  rw [hwait] at hok
  exact hi.goto hwait hinside (hok.move hstop hready htimed hholds)

/-- A caller moves on to where it knows nothing of the permit. -/
theorem Inv.leave (hi : Inv s) (hwait : s.waits n = ⟨phase, call⟩)
    (hinside : phase'.inside = true → phase.inside = true) (hpast : phase'.pastStop = false)
    (htimed : phase'.timed = true → phase.timed = true) (hholds : phase'.Holds s call) :
    Inv (s.goto n call phase') := by
  have hok := hi.waits n
  rw [hwait] at hok
  exact hi.goto hwait hinside (.outside hpast hok.saw (fun ht => hok.deadline (htimed ht)) hholds)

theorem Inv.returned (hi : Inv s) (hwait : s.waits n = ⟨phase, call⟩)
    (hanswer : Answer s call r) : Inv (s.returned n call r) := by
  have hout : Inv (s.goto n call .out) :=
    hi.leave hwait (by rintro ⟨⟩) rfl (by rintro ⟨⟩) trivial
  refine ⟨⟨hi.source, hi.created, hi.failure, hi.notes, hi.failed, hi.fresh, hi.announced⟩,
    hout.claimed, hout.alone, fun m => (hout.waits m).later (.of_eq rfl rfl rfl rfl rfl),
    fun o ho => ?_⟩
  rcases List.mem_append.mp ho with ho | ho
  · exact (hi.returns o ho).later id le_rfl
  · rw [List.mem_singleton] at ho
    subst ho
    exact hanswer.later id le_rfl

theorem Shared.status (h : Shared s) : s.signal.status = s.signal.failure := if_pos h.created

/-- The status of the signal, as a result. -/
theorem Shared.failure_answer (h : Shared s) (hbad : s.signal.status ≠ .ok) :
    Answer s call s.signal.status := by
  refine .of_plain ?_ hbad
  rw [h.status]
  exact h.failure

theorem Shared.failure_waited (h : Shared s) :
    s.signal.status ≠ .cancelled ∧ (s.signal.status = .timeout → 0 ≤ call.timeout) := by
  have hplain := h.failure
  simp only [ErrorCode.plain, decide_eq_true_eq] at hplain
  rw [h.status]
  exact ⟨hplain.2, fun ht => absurd ht hplain.1⟩

/-- The signal is claimed. -/
theorem Inv.claim (hi : Inv s) (hwait : s.waits n = ⟨.claim, call⟩)
    (hfree : s.signal.waiting = false) :
    Inv ({ s with signal := { s.signal with waiting := true } }.goto n call .deadline) := by
  let u : State w := { s with signal := { s.signal with waiting := true } }
  have hnone : ∀ m, ¬ s.inside m := by
    intro m hm
    rw [hi.claimed m hm] at hfree
    cases hfree
  have hself : ∀ m, (u.goto n call .deadline).inside m → m = n := by
    intro m hm
    by_contra hmn
    rw [State.inside, State.waits_goto_ne u call .deadline hmn] at hm
    exact hnone m hm
  refine ⟨⟨hi.source, hi.created, hi.failure, hi.notes, hi.failed, hi.fresh, hi.announced⟩,
    fun _ _ => rfl, fun m k hm hk => (hself m hm).trans (hself k hk).symm, fun m => ?_,
    fun o ho => (hi.returns o ho).later id le_rfl⟩
  have hm := hi.waits m
  by_cases hmn : m = n
  · subst hmn
    rw [hwait] at hm
    rw [State.waits_goto]
    exact .outside rfl hm.saw (by rintro ⟨⟩) trivial
  · rw [State.waits_goto_ne u call .deadline hmn]
    exact hm.later (.of_eq rfl rfl rfl rfl rfl)

/-- The caller takes the permit; nobody else relies on it. -/
theorem Inv.took (hi : Inv s) {ticks : Tick w} (hwait : s.waits n = ⟨.take ticks, call⟩) :
    Inv ({ s with signal := { s.signal with permit := false } }.goto n call (.taken .ok)) := by
  let u : State w := { s with signal := { s.signal with permit := false } }
  have hn : s.inside n := by
    rw [State.inside, hwait]
    rfl
  have hback : ∀ m, (u.goto n call (.taken .ok)).inside m → s.inside m := by
    intro m hm
    by_cases hmn : m = n
    · subst hmn
      exact hn
    · rwa [State.inside, State.waits_goto_ne u call _ hmn] at hm
  refine ⟨⟨hi.source, hi.created, hi.failure, hi.notes, hi.failed, hi.fresh, hi.announced⟩,
    fun m hm => hi.claimed m (hback m hm), fun m k hm hk => hi.alone m k (hback m hm) (hback k hk),
    fun m => ?_, fun o ho => (hi.returns o ho).later id le_rfl⟩
  have hm := hi.waits m
  by_cases hmn : m = n
  · subst hmn
    rw [hwait] at hm
    rw [State.waits_goto]
    exact .outside rfl hm.saw (fun _ => hm.deadline rfl) ⟨by rintro ⟨⟩, by rintro ⟨⟩⟩
  · rw [State.waits_goto_ne u call _ hmn]
    have hout : ¬ s.inside m := fun hin => hmn (hi.alone m n hin hn)
    refine ⟨hm.saw, hm.unseen, fun hpast => absurd (Phase.inside_of_pastStop hpast) hout,
      fun hpast => absurd (Phase.inside_of_pastStop (Phase.pastStop_of_pastReady hpast)) hout,
      hm.deadline, hm.holds.later id le_rfl⟩

/-- The signal is free again. -/
theorem Inv.released (hi : Inv s) (hwait : s.waits n = ⟨.release r, call⟩) :
    Inv ({ s with signal := { s.signal with waiting := false } }.returned n call r) := by
  have hok := hi.waits n
  rw [hwait] at hok
  have hret := hi.returned hwait (r := r) hok.holds
  have hn : s.inside n := by
    rw [State.inside, hwait]
    rfl
  have hnone : ∀ m, ¬ (s.returned n call r).inside m := by
    intro m hm
    by_cases hmn : m = n
    · subst hmn
      rw [State.inside, State.returned, State.waits_goto] at hm
      cases hm
    · rw [State.inside, State.returned, State.waits_goto_ne s call _ hmn] at hm
      exact hmn (hi.alone m n hm hn)
  exact ⟨⟨hi.source, hi.created, hi.failure, hi.notes, hi.failed, hi.fresh, hi.announced⟩,
    fun m hm => absurd hm (hnone m), fun m _ hm => absurd hm (hnone m),
    fun m => (hret.waits m).later (.of_eq rfl rfl rfl rfl rfl),
    fun o ho => (hret.returns o ho).later id le_rfl⟩

/-! ### `wait_until_ready` -/

/-- The stop source moves. -/
theorem Inv.sourced (hi : Inv s) {source : Stop.State} (hafter : Stop.After s.source source) :
    Inv { s with source := source } :=
  ⟨⟨hafter.sane, hi.created, hi.failure, fun c note hnote hne =>
      hafter.stopped (hi.notes c note hnote hne), hi.failed, hi.fresh, hi.announced⟩,
    hi.toCallers.later ⟨hafter.stopped, le_rfl, id, fun _ => .inl, .inl⟩ rfl rfl rfl⟩

/-- A callback of a wait comes into being. -/
theorem Inv.noted (hi : Inv s) (c : Nat) :
    Inv { s with notes := Function.update s.notes c (some .entry) } := by
  have hold : ∀ k note, Function.update s.notes c (some .entry) k = some note →
      note ≠ .entry → s.notes k = some note := by
    intro k note hnote hne
    by_cases hk : k = c
    · subst hk
      rw [Function.update_self] at hnote
      exact absurd (Option.some.inj hnote).symm hne
    · rwa [Function.update_of_ne hk] at hnote
  exact ⟨⟨hi.source, hi.created, hi.failure,
      fun k note hnote hne => hi.notes k note (hold k note hnote hne) hne,
      fun k r hnote => hi.failed k r (hold k _ hnote (by rintro ⟨⟩)), hi.fresh, hi.announced⟩,
    hi.toCallers.later ⟨id, le_rfl, id, fun k hk => .inl (hold k _ hk (by rintro ⟨⟩)), .inl⟩ rfl rfl
      rfl⟩

theorem Shared.plain_of_last (h : Shared s) {last : Stop.Return} (hlast : s.last n = some last) :
    last.plain = true := by
  unfold State.last at hlast
  split at hlast
  case h_1 last' hth =>
    cases hlast
    exact (h.source.threads _ (List.mem_of_getElem? hth)).last
  case h_2 => cases hlast

/-- The call constructs its stop callback. -/
theorem Inv.registers (hi : Inv s) (hwait : s.waits n = ⟨.register, call⟩)
    (hs : s.advance cfg n take = some s') : Inv s' := by
  unfold State.advance at hs
  rw [hwait] at hs
  obtain ⟨source, hsource, rfl⟩ := Option.map_eq_some_iff.mp hs
  have hmoved := (hi.sourced (.step hi.source rfl hsource)).noted s.source.callbacks.length
  have hok' := hmoved.waits n
  rw [show _ = _ from hwait] at hok'
  exact hmoved.goto hwait (fun _ => rfl)
    (.outside rfl hok'.saw (fun _ => hok'.deadline rfl) trivial)

/-- The call looks at the stop token. -/
theorem Inv.looksAtToken (hi : Inv s) (hwait : s.waits n = ⟨.stop, call⟩)
    (hs : s.advance cfg n take = some s') : Inv s' := by
  have hok := hi.waits n
  rw [hwait] at hok
  unfold State.advance at hs
  rw [hwait] at hs
  dsimp only at hs
  split at hs
  case isTrue hstop =>
    cases hs
    exact hi.goto hwait (fun _ => rfl) (.outside rfl (fun _ => hstop)
      (fun _ => hok.deadline rfl) ⟨by rintro ⟨⟩, fun _ => hstop, by rintro ⟨⟩⟩)
  case isFalse hstop =>
    cases hs
    -- The callback has not begun: it does so only when stop has been requested.
    refine hi.goto hwait (fun _ => rfl) ⟨hok.saw, fun _ => ?_, fun _ htoken hdone => ?_,
      by rintro ⟨⟩, fun _ => hok.deadline rfl, trivial⟩
    · by_contra hsaw
      exact hstop (hok.saw (by simpa using hsaw))
    · exact absurd ⟨htoken, hi.notes _ _ hdone (by rintro ⟨⟩)⟩ hstop

/-- The call looks at the predicate. -/
theorem Inv.looksAtReady (hi : Inv s) (hwait : s.waits n = ⟨.ready, call⟩)
    (hs : s.advance cfg n take = some s') : Inv s' := by
  have hok := hi.waits n
  rw [hwait] at hok
  unfold State.advance at hs
  rw [hwait] at hs
  cases hs
  dsimp only
  split
  case isTrue hready =>
    exact hi.goto hwait (fun _ => rfl) (.outside rfl hok.saw (fun _ => hok.deadline rfl)
      ⟨fun _ => ⟨hready, hok.unseen rfl⟩, by rintro ⟨⟩, by rintro ⟨⟩⟩)
  case isFalse hready =>
    exact hi.goto hwait (fun _ => rfl) ⟨hok.saw, fun _ => hok.unseen rfl,
      fun _ => hok.stop rfl, fun _ hann => absurd (hi.announced hann) hready,
      fun _ => hok.deadline rfl, trivial⟩

/-- The call looks at the clock. -/
theorem Inv.looksAtClock (hi : Inv s) (hwait : s.waits n = ⟨.expiry, call⟩)
    (hs : s.advance cfg n take = some s') : Inv s' := by
  have hok := hi.waits n
  rw [hwait] at hok
  unfold State.advance at hs
  rw [hwait] at hs
  cases hs
  dsimp only
  split
  case isTrue hexpired =>
    simp only [Bool.and_eq_true, Bool.not_eq_true', decide_eq_false_iff_not, not_lt]
      at hexpired
    exact hi.leave hwait (fun _ => rfl) rfl (fun _ => rfl)
      ⟨by rintro ⟨⟩, by rintro ⟨⟩, fun _ => ⟨hexpired.1, hok.deadline rfl, hexpired.2⟩⟩
  case isFalse =>
    exact hi.move hwait (fun _ => rfl) (fun _ => rfl) (fun _ => rfl) (fun _ => rfl) trivial

/-- The take returns. -/
theorem Inv.takeReturns {ticks : Tick w} (hi : Inv s)
    (hwait : s.waits n = ⟨.take ticks, call⟩) (htake : take ≠ .cancelled)
    (hs : s.advance cfg n take = some s') : Inv s' := by
  have hok := hi.waits n
  rw [hwait] at hok
  unfold State.advance at hs
  rw [hwait] at hs
  obtain ⟨u, htook, rfl⟩ := Option.map_eq_some_iff.mp hs
  unfold State.takeResult at htook
  split at htook
  case isTrue hgot =>
    subst hgot
    split at htook <;> cases htook
    exact hi.took hwait
  case isFalse =>
    split at htook <;> cases htook
    rename_i hcontract
    -- A take without a deadline that times out would break the contract of the semaphore.
    refine hi.leave hwait (fun _ => rfl) rfl (fun _ => rfl) ⟨htake, fun htimeout => ?_⟩
    by_contra hforever
    exact hcontract ⟨.inl htimeout, hok.holds (by omega)⟩

/-- The call looks at what its take has returned. -/
theorem Inv.looksAtTaken {r : ErrorCode} (hi : Inv s) (hwait : s.waits n = ⟨.changed r, call⟩)
    (hs : s.advance cfg n take = some s') : Inv s' := by
  have hok := hi.waits n
  rw [hwait] at hok
  unfold State.advance at hs
  rw [hwait] at hs
  dsimp only at hs
  split at hs
  case isTrue hends =>
    cases hs
    refine hi.leave hwait (fun _ => rfl) rfl (fun _ => rfl)
      ⟨fun h => absurd h hends.1, fun h => absurd h hok.holds.1, fun htimeout => ?_⟩
    have hpos := hok.holds.2 htimeout
    subst htimeout
    rcases hends.2 with hforever | ⟨hne, -⟩ | ⟨hne, -⟩
    · exact absurd (of_decide_eq_true hforever) (Int.not_lt.mpr hpos)
    · exact absurd rfl hne
    · cases hne
  case isFalse =>
    cases hs
    exact hi.leave hwait (fun _ => rfl) rfl (fun _ => rfl) trivial

/-- What a call does keeps the invariant, whatever its take returns. -/
theorem Inv.advance (hi : Inv s) (htake : take ≠ .cancelled)
    (hs : s.advance cfg n take = some s') : Inv s' := by
  obtain ⟨⟨phase, call⟩, hwait⟩ : ∃ wait, s.waits n = wait := ⟨_, rfl⟩
  have hok := hi.waits n
  rw [hwait] at hok
  cases phase with
  | out =>
      rw [State.advance, hwait] at hs
      cases hs
  | entry =>
      rw [State.advance, hwait] at hs
      dsimp only at hs
      split at hs
      case isTrue hbad =>
        cases hs
        exact hi.returned hwait (hi.failure_answer hbad)
      case isFalse =>
        cases hs
        exact hi.leave hwait (by rintro ⟨⟩) rfl (by rintro ⟨⟩) trivial
  | claim =>
      rw [State.advance, hwait] at hs
      dsimp only at hs
      split at hs
      case isTrue =>
        cases hs
        exact hi.returned hwait ⟨by rintro ⟨⟩, by rintro ⟨⟩, by rintro ⟨⟩⟩
      case isFalse hfree =>
        cases hs
        exact hi.claim hwait (by simpa using hfree)
  | deadline =>
      rw [State.advance, hwait] at hs
      obtain ⟨expiry, hmade, rfl⟩ := Option.map_eq_some_iff.mp hs
      exact hi.goto hwait (fun _ => rfl)
        (.outside rfl hok.saw (fun _ => hmade) trivial)
  | register => exact hi.registers hwait hs
  | registering =>
      rw [State.advance, hwait] at hs
      dsimp only at hs
      split at hs
      case h_1 c status hlast =>
        cases hs
        split
        case isTrue hbad =>
          exact hi.leave hwait (fun _ => rfl) rfl (fun _ => rfl)
            (.of_plain (hi.plain_of_last hlast) hbad)
        case isFalse => exact hi.leave hwait (fun _ => rfl) rfl (fun _ => rfl) trivial
      case h_2 => cases hs
  | top =>
      rw [State.advance, hwait] at hs
      cases hs
      exact hi.goto hwait (fun _ => rfl)
        (.outside rfl hok.saw (fun _ => hok.deadline rfl) trivial)
  | status =>
      rw [State.advance, hwait] at hs
      cases hs
      dsimp only
      split
      case isTrue hbad =>
        exact hi.leave hwait (fun _ => rfl) rfl (fun _ => rfl) (hi.failure_answer hbad)
      case isFalse => exact hi.leave hwait (fun _ => rfl) rfl (fun _ => rfl) trivial
  | stop => exact hi.looksAtToken hwait hs
  | ready => exact hi.looksAtReady hwait hs
  | expiry => exact hi.looksAtClock hwait hs
  | remaining =>
      rw [State.advance, hwait] at hs
      cases hs
      refine hi.move hwait (fun _ => rfl) (fun _ => rfl) (fun _ => rfl) (fun _ => rfl) ?_
      intro hforever
      rw [if_pos (decide_eq_true hforever)]
      decide
  | change timeout =>
      rw [State.advance, hwait] at hs
      cases hs
      dsimp only
      split
      case isTrue =>
        exact hi.leave hwait (fun _ => rfl) rfl (fun _ => rfl) hi.failure_waited
      case isFalse =>
        exact hi.move hwait (fun _ => rfl) (fun _ => rfl) (fun _ => rfl) (fun _ => rfl) hok.holds
  | compare timeout =>
      rw [State.advance, hwait] at hs
      dsimp only at hs
      split at hs
      case isTrue =>
        cases hs
        exact hi.leave hwait (fun _ => rfl) rfl (fun _ => rfl) ⟨by rintro ⟨⟩, by rintro ⟨⟩⟩
      case isFalse =>
        cases hs
        exact hi.move hwait (fun _ => rfl) (fun _ => rfl) (fun _ => rfl) (fun _ => rfl)
          (fun hforever => if_pos (hok.holds hforever))
  | take => exact hi.takeReturns hwait htake hs
  | taken r =>
      rw [State.advance, hwait] at hs
      cases hs
      refine hi.leave hwait (fun _ => rfl) rfl (fun _ => rfl) ?_
      dsimp only [Phase.Holds]
      split
      · exact hi.failure_waited
      · exact hok.holds
  | changed => exact hi.looksAtTaken hwait hs
  | close r =>
      rw [State.advance, hwait] at hs
      obtain ⟨source, hsource, rfl⟩ := Option.map_eq_some_iff.mp hs
      have hmoved := hi.sourced (.step hi.source rfl hsource)
      have hok' := hmoved.waits n
      rw [show _ = _ from hwait] at hok'
      exact hmoved.leave hwait (fun _ => rfl) rfl (fun _ => rfl) hok'.holds
  | closing r =>
      rw [State.advance, hwait] at hs
      dsimp only at hs
      split at hs
      case h_1 c status hlast =>
        cases hs
        split
        · exact hi.leave hwait (fun _ => rfl) rfl (fun _ => rfl) hok.holds
        · exact hi.leave hwait (fun _ => rfl) rfl (fun _ => rfl) hok.holds
      case h_2 => cases hs
  | release r =>
      rw [State.advance, hwait] at hs
      cases hs
      exact hi.released hwait

/-! ### The other steps -/

/-- No primitive returns a code that only a wait returns. -/
def State.sound (s : State w) : Action → Bool
  | .source a => s.source.plain a
  | .advance _ take => take ≠ .cancelled
  | .callback _ give => give.plain
  | .notifying _ give => give.plain
  | _ => true

theorem State.notice_phase (source : Stop.State) (n : Nat) (wait : Wait w) :
    (State.notice source n wait).phase = wait.phase := by
  unfold State.notice
  split
  · split <;> rfl
  · rfl

theorem Wait.Ok.noticed (hsane : Stop.Sane s.source) (h : wait.Ok s) (n : Nat) :
    (State.notice s.source n wait).Ok s := by
  unfold State.notice
  split
  case h_1 c htop =>
    split
    case isTrue hreg =>
      obtain ⟨phase, call⟩ := wait
      obtain ⟨rfl, htoken⟩ := hreg
      exact .outside rfl (fun _ => ⟨htoken, hsane.stopped_of_top htop rfl⟩) h.deadline trivial
    case isFalse => exact h
  case h_2 => exact h

theorem Inv.noticed (hi : Inv s) :
    Inv { s with waits := fun n => State.notice s.source n (s.waits n) } := by
  have hback : ∀ n,
      State.inside { s with waits := fun n => State.notice s.source n (s.waits n) } n →
        s.inside n := by
    intro n hn
    unfold State.inside at hn
    rwa [State.notice_phase] at hn
  exact ⟨⟨hi.source, hi.created, hi.failure, hi.notes, hi.failed, hi.fresh, hi.announced⟩,
    fun n hn => hi.claimed n (hback n hn), fun n m hn hm => hi.alone n m (hback n hn) (hback m hm),
    fun n => ((hi.waits n).noticed hi.source n).later (.of_eq rfl rfl rfl rfl rfl),
    fun o ho => (hi.returns o ho).later id le_rfl⟩

theorem Shared.of_notified (h : Shared s) (hgive : give.plain = true)
    (hnot : Notified s.signal sig' give note') :
    sig'.created = .ok ∧ sig'.failure.plain = true ∧
      (s.signal.failure ≠ .ok → sig'.failure ≠ .ok) := by
  refine ⟨hnot.created.trans h.created, ?_, ?_⟩
  · rcases hnot.failure with heq | ⟨heq, -⟩
    · rw [heq]
      exact h.failure
    · rw [heq]
      exact hgive
  · rcases hnot.failure with heq | ⟨heq, hbad⟩
    · rw [heq]
      exact id
    · rw [heq]
      exact fun _ => hbad

/-- The callback of a wait takes a step. -/
theorem Inv.callback (hi : Inv s) (hgive : give.plain = true)
    (htop : s.inCallback n = some c) (hnot : Notified s.signal sig' give note') :
    Inv { s with signal := sig', notes := Function.update s.notes c (some note') } := by
  obtain ⟨hcreated, hfailure, hfailed⟩ := hi.of_notified hgive hnot
  have hstopped : s.source.source.stopped = true := by
    unfold State.inCallback at htop
    split at htop
    case h_1 htop' => exact hi.source.stopped_of_top htop' rfl
    case h_2 => cases htop
  have hold : ∀ k note, Function.update s.notes c (some note') k = some note →
      note = note' ∨ s.notes k = some note := by
    intro k note hnote
    by_cases hk : k = c
    · subst hk
      rw [Function.update_self] at hnote
      exact .inl (Option.some.inj hnote).symm
    · rw [Function.update_of_ne hk] at hnote
      exact .inr hnote
  refine ⟨⟨hi.source, hcreated, hfailure, fun _ _ _ _ => hstopped, fun k r hnote hbad => ?_,
    hi.fresh, hi.announced⟩, hi.toCallers.later ⟨id, le_rfl, hnot.permit, fun k hnote => ?_, .inl⟩
    rfl rfl hnot.waiting⟩
  · rcases hold k _ hnote with heq | hnote
    · exact hnot.failed hi.created r heq.symm hbad
    · exact hfailed (hi.failed k r hnote hbad)
  · rcases hold k _ hnote with heq | hnote
    · exact .inr (hnot.given heq.symm)
    · exact .inl hnote

theorem State.fresh_setProducer (s : State w) (p q : Nat) (notify : Option Notify) :
    ((s.setProducer p ⟨(s.producers p).fresh, notify⟩).producers q).fresh =
      (s.producers q).fresh := by
  by_cases hq : q = p
  · subst hq
    simp [State.setProducer]
  · simp [State.setProducer, Function.update_of_ne hq]

/-- A producer takes a step of its `notify`. -/
theorem Inv.producer (hi : Inv s) (notify : Option Notify) :
    Inv (s.setProducer p ⟨(s.producers p).fresh, notify⟩) := by
  refine ⟨⟨hi.source, hi.created, hi.failure, hi.notes, hi.failed, fun q hq => ?_, hi.announced⟩,
    hi.toCallers.later (.of_eq rfl rfl rfl rfl rfl) rfl rfl rfl⟩
  rw [State.fresh_setProducer] at hq
  exact hi.fresh q hq

/-- A producer's notification touches the signal; `announced` tells whether it is done. -/
theorem Inv.signalled (hi : Inv s) (hgive : give.plain = true)
    (hnot : Notified s.signal sig' give note') {announced : Bool}
    (hann : announced = true → s.announced = true ∨
      (s.producers p).fresh = true ∧ sig'.permit = true) :
    Inv { s with signal := sig', announced := announced } := by
  obtain ⟨hcreated, hfailure, hfailed⟩ := hi.of_notified hgive hnot
  refine ⟨⟨hi.source, hcreated, hfailure, hi.notes,
    fun k r hnote hbad => hfailed (hi.failed k r hnote hbad), hi.fresh, fun h => ?_⟩,
    hi.toCallers.later ⟨id, le_rfl, hnot.permit, fun _ => .inl, fun h => (hann h).imp_right
      And.right⟩ rfl rfl hnot.waiting⟩
  rcases hann h with h | ⟨h, -⟩
  · exact hi.announced h
  · exact hi.fresh p h

theorem Inv.falsified (hi : Inv s) : Inv s.falsified :=
  ⟨⟨hi.source, hi.created, hi.failure, hi.notes, hi.failed, by rintro p ⟨⟩, by rintro ⟨⟩⟩,
    hi.toCallers.later ⟨id, le_rfl, id, fun _ => .inl, by rintro ⟨⟩⟩ rfl rfl rfl⟩

theorem Inv.step (hi : Inv s) (hsound : s.sound a = true) (hs : s.step cfg a = some s') :
    Inv s' := by
  cases a with
  | source a =>
      simp only [State.step] at hs
      split at hs
      case isTrue =>
        obtain ⟨source, hsource, rfl⟩ := Option.map_eq_some_iff.mp hs
        exact (hi.sourced (.step hi.source hsound hsource)).noticed
      case isFalse => cases hs
  | wait n timeout token =>
      simp only [State.step] at hs
      split at hs <;> cases hs
      rename_i hfree
      have hwait : s.waits n = ⟨.out, (s.waits n).call⟩ := by rw [← hfree.1]
      exact hi.goto hwait (by rintro ⟨⟩) (.outside rfl (by rintro ⟨⟩) (by rintro ⟨⟩) trivial)
  | advance n take =>
      exact hi.advance (of_decide_eq_true hsound) hs
  | callback n give =>
      obtain ⟨c, hc, hs⟩ := Option.bind_eq_some_iff.mp hs
      obtain ⟨note, -, hs⟩ := Option.bind_eq_some_iff.mp hs
      obtain ⟨⟨sig', note'⟩, hnotify, hs⟩ := Option.bind_eq_some_iff.mp hs
      cases hs
      exact hi.callback hsound hc (.of_step hnotify)
  | change p ready =>
      simp only [State.step] at hs
      split at hs
      case isTrue => cases hs
      case isFalse =>
        split at hs <;> cases hs
        · exact ⟨⟨hi.source, hi.created, hi.failure, hi.notes, hi.failed, fun _ _ => rfl,
            fun _ => rfl⟩, hi.toCallers.later (.of_eq rfl rfl rfl rfl rfl) rfl rfl rfl⟩
        · exact hi.falsified
  | consume =>
      cases hs
      exact hi.falsified
  | notify p isr =>
      simp only [State.step] at hs
      split at hs
      case isTrue => cases hs
      case isFalse =>
        split at hs <;> cases hs
        · exact hi
        · exact hi.producer (some .entry)
  | notifying p give =>
      obtain ⟨note, -, hs⟩ := Option.bind_eq_some_iff.mp hs
      obtain ⟨⟨sig', note'⟩, hnotify, hs⟩ := Option.bind_eq_some_iff.mp hs
      have hnot := Notified.of_step hnotify
      dsimp only at hs
      split at hs <;> cases hs
      case h_1 status =>
        refine (hi.signalled (p := p) hsound hnot (fun hann => ?_)).producer none
        simp only [Bool.or_eq_true, Bool.and_eq_true, decide_eq_true_eq] at hann
        exact hann.imp_right (fun h => ⟨h.2, hnot.given (congrArg Notify.done h.1)⟩)
      case h_2 => exact (hi.signalled (p := p) hsound hnot .inl).producer (some note')
  | tick ms =>
      cases hs
      exact ⟨⟨hi.source, hi.created, hi.failure, hi.notes, hi.failed, hi.fresh, hi.announced⟩,
        hi.toCallers.later ⟨id, by dsimp only; omega, id, fun _ => .inl, .inl⟩ rfl rfl rfl⟩

/-! ### What waits promise -/

/-- What callers of `wait_until_ready` can rely on. -/
structure Sound (cfg : Config) (s : State w) : Prop where
  /-- Nobody sleeps on an empty semaphore while the predicate is true by a change that has been
  notified. -/
  awake : ∀ n ticks, (s.waits n).phase = .take ticks → s.signal.permit = false →
    ¬ (s.ready = true ∧ s.announced = true)
  /-- Nobody sleeps on an empty semaphore when stop is requested and the callback has run. -/
  stopped : ∀ n ticks, (s.waits n).phase = .take ticks → s.signal.permit = false →
    (s.waits n).call.token = true → s.notes (s.waits n).call.callback ≠ some (.done .ok)
  /-- A callback that has run has notified, unless a give has failed and the signal shows it. -/
  notified : ∀ c r, s.notes c = some (.done r) → r = .ok ∨ s.signal.status ≠ .ok
  /-- The results are right. -/
  returns : ∀ o ∈ s.returns, Answer s o.call o.result
  /-- Two callers are never inside at once. -/
  alone : ∀ n m, s.inside n → s.inside m → n = m
  /-- Who comes to claim the signal while another is inside gets `already_exists`, and changes
  nothing. -/
  refused : ∀ n m take s', s.inside m → (s.waits n).phase = .claim →
    s.advance cfg n take = some s' → s' = s.returned n (s.waits n).call .alreadyExists

theorem Inv.sound (hi : Inv s) : Sound cfg s where
  awake n ticks hphase hempty := by
    rintro ⟨-, hann⟩
    have hpermit := (hi.waits n).ready (by rw [hphase]; rfl) hann
    rw [hempty] at hpermit
    cases hpermit
  stopped n ticks hphase hempty htoken hdone := by
    have hpermit := (hi.waits n).stop (by rw [hphase]; rfl) htoken hdone
    rw [hempty] at hpermit
    cases hpermit
  notified c r hnote := by
    rw [hi.status]
    by_cases hr : r = .ok
    · exact .inl hr
    · exact .inr (hi.failed c r hnote hr)
  returns := hi.returns
  alone := hi.alone
  refused n m take s' hm hphase hs := by
    simp only [State.advance, hphase, hi.claimed m hm, if_true] at hs
    exact (Option.some.inj hs).symm

/-- Whatever callers, producers and the stop source do, in any order, and however often the
generation wraps. -/
theorem wait_until_ready_sound (w : Nat) (cfg : Config) (initialization : ErrorCode)
    (hinit : initialization.plain = true) (s : State w)
    (h : (waitMachine w cfg initialization).ReachableBy (fun s a => s.sound a = true) s) :
    Sound cfg s := by
  refine Inv.sound (Machine.ReachableBy.invariant (I := Inv) ?_ (fun s a s' _ hi hsound hs =>
    hi.step hsound hs) h)
  have hsane : Stop.Sane (waitMachine w cfg initialization).init.source :=
    ⟨hinit, rfl, by rintro th ⟨⟩⟩
  exact ⟨⟨hsane, rfl, rfl, by rintro c note ⟨⟩, by rintro c r ⟨⟩, by rintro p ⟨⟩, by rintro ⟨⟩⟩,
    by rintro n ⟨⟩, by rintro n m ⟨⟩,
    fun _ => .outside rfl (by rintro ⟨⟩) (by rintro ⟨⟩) trivial,
    by rintro o ⟨⟩⟩

/-- A step of thread `n` at the stop source. -/
def fine (n : Nat) : Action := .source (.advance n ⟨.ok, .ok, false, .ok, .ok, false⟩)

/-- From the call to the sleep. -/
def sleeps : List Action :=
  List.flatten [
    [.wait 0 (-1) true], List.replicate 4 (.advance 0 .ok), [fine 0],
    List.replicate 9 (.advance 0 .ok)]

/-- Thread 0 is woken by a producer, and the next time by the callback that a request calls. -/
def wokenTwice : List Action :=
  List.flatten [
    [.source .spawn, .source .spawn], sleeps,
    [.change 0 true, .notify 0 false], List.replicate 3 (.notifying 0 .ok),
    List.replicate 8 (.advance 0 .ok), [fine 0], List.replicate 2 (.advance 0 .ok),
    [.consume], sleeps,
    [.source (.request 1), fine 1, fine 1], List.replicate 3 (.callback 1 .ok), [fine 1, fine 1],
    List.replicate 7 (.advance 0 .ok), [fine 0], List.replicate 2 (.advance 0 .ok)]

theorem wait_until_ready_sound_woken :
    ∃ s, (waitMachine 32 ⟨1000, 4, true⟩ .ok).Reachable s ∧
      s.returns.map Returned.result = [.ok, .cancelled] ∧ Sound ⟨1000, 4, true⟩ s := by
  have hok : (waitMachine 32 ⟨1000, 4, true⟩ .ok).RunOk (fun s a => s.sound a = true)
      (waitMachine 32 ⟨1000, 4, true⟩ .ok).init wokenTwice := by
    decide +kernel
  have hview : ((waitMachine 32 ⟨1000, 4, true⟩ .ok).run
      (waitMachine 32 ⟨1000, 4, true⟩ .ok).init wokenTwice).map
        (fun s => s.returns.map Returned.result) = some [.ok, .cancelled] := by
    decide +kernel
  obtain ⟨s, hrun, hresults⟩ := Option.map_eq_some_iff.mp hview
  have hs := Machine.ReachableBy.init.of_run hok hrun
  exact ⟨s, hs.reachable, hresults, wait_until_ready_sound 32 ⟨1000, 4, true⟩ .ok (by decide) s hs⟩

end MicrOsal.WaitReady
