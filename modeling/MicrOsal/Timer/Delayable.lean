import MicrOsal.Timer.Item

/-!
# MicrOsal.Timer.Delayable

As long as the POSIX timer is on time, it does what `DwSys.timer` says (`Linked`), and what is
known of a delayable work item holds for one that uses it. An item whose timer could not be
started is the exception: it gives up an arming that nobody has seen (`Abandons`).
-/

namespace MicrOsal.Timer

/-! ### The calls of the item -/

variable {w : Nat}

theorem broadcast_eq (s : State w) : s.broadcast = { s with watcher := s.broadcast.watcher } := by
  unfold State.broadcast
  split <;> rfl

theorem broadcast_callback {s : State w} (h : s.watcher = .callback) :
    s.broadcast.watcher = .callback := by
  unfold State.broadcast
  rw [h]
  exact h

theorem broadcast_started {s : State w} (h : s.watcher ≠ .absent) :
    s.broadcast.watcher ≠ .absent := by
  obtain ⟨hw, -⟩ | ⟨hw, -⟩ := s.broadcast_watcher
  · rw [hw]
    exact h
  · rw [hw]
    nofun

theorem stop_eq {s : State w} (h : s.shutdown = false) : ∃ watcher,
    s.stop = (.ok, { s with active := false, watcher := watcher }) ∧
      (s.watcher = .callback → watcher = .callback) := by
  refine ⟨({ s with active := false } : State w).broadcast.watcher, ?_,
    fun hc => broadcast_callback hc⟩
  unfold State.stop
  rw [if_neg (by rw [h]; nofun), broadcast_eq]

theorem armLocked_eq {s : State w} (h : s.shutdown = false) (hperiod : s.period ≠ noWait)
    (created : Bool) :
    (s.watcher = .absent ∧ s.armLocked created = (.outOfResources, s)) ∨
      ∃ watcher, s.armLocked created =
          (.ok, { s with active := true, armedAt := s.now, watcher := watcher }) ∧
        watcher ≠ .absent ∧ (s.watcher = .callback → watcher = .callback) := by
  unfold State.armLocked
  rw [if_neg (by rw [h]; nofun), if_neg hperiod]
  split
  case isTrue habsent => exact .inl ⟨habsent.1, rfl⟩
  case isFalse =>
    have hlaunch : ∃ watcher, s.launch = { s with watcher := watcher } ∧
        watcher ≠ .absent ∧ (s.watcher = .callback → watcher = .callback) := by
      unfold State.launch
      split
      case isTrue habsent => exact ⟨_, rfl, nofun, fun hc => (nomatch habsent.symm.trans hc)⟩
      case isFalse hne => exact ⟨_, rfl, hne, id⟩
    obtain ⟨watcher, heq, hne, hcallback⟩ := hlaunch
    rw [heq]
    refine .inr ⟨State.watcher (State.broadcast
      { s with active := true, armedAt := s.now, watcher := watcher }), ?_, ?_, fun hc => ?_⟩
    · exact congrArg (Prod.mk ErrorCode.ok) (broadcast_eq _)
    · exact broadcast_started hne
    · exact broadcast_callback (hcallback hc)

/-- What `set_period` and `start` are asked for by the item. -/
theorem msToTicks_delay (hw : 16 ≤ w) {delay : Int} (hpos : 0 < delay) :
    msToTicks w 1000 delay ≠ 0 ∧ msToTicks w 1000 delay ≠ waitForever := by
  have hpow : 2 ^ 16 ≤ 2 ^ w := Nat.pow_le_pow_right (by decide) hw
  have htoNat := toNat_msToTicks hw hpos
  constructor
  · intro hzero
    rw [hzero] at htoNat
    have hnil : (0 : Tick w).toNat = 0 := by simp
    omega
  · intro hforever
    rw [hforever] at htoNat
    simp only [waitForever, BitVec.toNat_allOnes] at htoNat
    omega

/-! ### The timer does what is expected of it -/

/-- When the timer is due, in milliseconds. -/
def State.due (s : State w) : Option Nat :=
  if s.active then some (s.armedAt / tickNs + s.period.toNat) else none

/-- The POSIX timer is the timer of the item. -/
structure Linked (s : ItemState w) : Prop where
  punctual : Punctual s.timer
  clock : s.dw.clock = s.timer.now / tickNs
  period : s.dw.timer.period = s.timer.period.toNat
  period_ne : s.timer.period ≠ noWait
  finite : s.timer.period ≠ waitForever
  oneShot : s.timer.autoReload = false
  alive : s.timer.shutdown = false
  due : s.dw.timer.due = s.timer.due
  started : s.timer.active = true → s.timer.watcher ≠ .absent
  /-- The watcher is in the only callback there is. -/
  busy : ∀ k : Nat, s.dw.expiries k ≠ .absent →
    s.timer.watcher = .callback ∧ k + 1 = s.dw.nextExpiry
  unfailing : ¬ s.dw.holder.FailingStop

namespace Linked

variable {s : ItemState w} {dw : DwSys}

/-- The item takes a step that the timer has no part in. -/
theorem item (h : Linked s) (htimer : dw.timer = s.dw.timer) (hsame : SameClock s.dw dw)
    (hexp : ∀ k : Nat, dw.expiries k ≠ .absent → s.dw.expiries k ≠ .absent)
    (hholder : ¬ dw.holder.FailingStop) : Linked ⟨dw, s.timer⟩ where
  punctual := h.punctual
  clock := hsame.clock.trans h.clock
  period := by
    rw [htimer]
    exact h.period
  period_ne := h.period_ne
  finite := h.finite
  oneShot := h.oneShot
  alive := h.alive
  due := by
    rw [htimer]
    exact h.due
  started := h.started
  busy k hk := by
    rw [hsame.nextExpiry]
    exact h.busy k (hexp k hk)
  unfailing := hholder

/-- The watcher takes a step that the item has no part in. -/
theorem watcher (h : Linked s) {watcher : Watcher}
    (hp : Punctual { s.timer with watcher := watcher }) (hne : watcher ≠ .absent)
    (hbusy : s.timer.watcher = .callback → ∀ k, s.dw.expiries k = .absent) :
    Linked ⟨s.dw, { s.timer with watcher := watcher }⟩ where
  punctual := hp
  clock := h.clock
  period := h.period
  period_ne := h.period_ne
  finite := h.finite
  oneShot := h.oneShot
  alive := h.alive
  due := h.due
  started _ := hne
  busy k hk := absurd (hbusy (h.busy k hk).1 k) hk
  unfailing := h.unfailing

/-- The timer is stopped. -/
theorem stop (h : Linked s) (hdue : dw.timer = { s.dw.timer with due := none })
    (hsame : SameClock s.dw dw) (hexp : dw.expiries = s.dw.expiries)
    (hholder : ¬ dw.holder.FailingStop) : Linked ⟨dw, s.timer.stop.2⟩ := by
  have hp := h.punctual.stop
  obtain ⟨watcher, heq, hcallback⟩ := stop_eq h.alive
  rw [heq] at hp ⊢
  exact {
    punctual := hp
    clock := hsame.clock.trans h.clock
    period := by
      rw [hdue]
      exact h.period
    period_ne := h.period_ne
    finite := h.finite
    oneShot := h.oneShot
    alive := h.alive
    due := by
      rw [hdue]
      rfl
    started := nofun
    busy := by
      intro k hk
      rw [hexp] at hk
      rw [hsame.nextExpiry]
      exact ⟨hcallback (h.busy k hk).1, (h.busy k hk).2⟩
    unfailing := hholder }

/-- The timer is armed. -/
theorem arm (h : Linked s) {period : Tick w} {watcher : Watcher} (hperiod : period ≠ noWait)
    (hforever : period ≠ waitForever) (hp : Punctual
      { s.timer with period := period, active := true, armedAt := s.timer.now, watcher := watcher })
    (hne : watcher ≠ .absent) (hcallback : s.timer.watcher = .callback → watcher = .callback)
    (hdue : dw.timer = ⟨period.toNat, some (s.dw.clock + period.toNat)⟩)
    (hsame : SameClock s.dw dw) (hexp : dw.expiries = s.dw.expiries)
    (hholder : ¬ dw.holder.FailingStop) :
    Linked ⟨dw, { s.timer with
      period := period, active := true, armedAt := s.timer.now, watcher := watcher }⟩ where
  punctual := hp
  clock := hsame.clock.trans h.clock
  period := by
    rw [hdue]
  period_ne := hperiod
  finite := hforever
  oneShot := h.oneShot
  alive := h.alive
  due := by
    rw [hdue, h.clock]
    rfl
  started _ := hne
  busy k hk := by
    rw [hexp] at hk
    rw [hsame.nextExpiry]
    exact ⟨hcallback (h.busy k hk).1, (h.busy k hk).2⟩
  unfailing := hholder

/-- The period of a timer that does not run changes. -/
theorem setInactive (h : Linked s) {period : Tick w} (hperiod : period ≠ noWait)
    (hforever : period ≠ waitForever) (hactive : s.timer.active = false)
    (hdue : dw.timer = ⟨period.toNat, none⟩) (hsame : SameClock s.dw dw)
    (hexp : dw.expiries = s.dw.expiries) (hholder : ¬ dw.holder.FailingStop) :
    Linked ⟨dw, { s.timer with period := period }⟩ where
  punctual := .inactive h.punctual.now_lt h.punctual.armedAt_le hactive
  clock := hsame.clock.trans h.clock
  period := by
    rw [hdue]
  period_ne := hperiod
  finite := hforever
  oneShot := h.oneShot
  alive := h.alive
  due := by
    rw [hdue]
    dsimp only [State.due]
    rw [hactive, if_neg nofun]
  started := h.started
  busy k hk := by
    rw [hexp] at hk
    rw [hsame.nextExpiry]
    exact h.busy k hk
  unfailing := hholder

/-- Nobody is in a callback while the watcher is not. -/
theorem absent (h : Linked s) (hw : s.timer.watcher ≠ .callback) (k : Nat) :
    s.dw.expiries k = .absent := by
  by_contra hk
  exact hw (h.busy k hk).1

/-- The timer fires when it is due. -/
theorem fire (h : Linked s) (ht : s.timer.watcher = .timedOut) (hactive : s.timer.active = true) :
    s.dw.step .fire = some s.dw.fires := by
  have helapsed := h.punctual.timedOut ht hactive
  have hdue := h.due
  dsimp only [State.due] at hdue
  rw [hactive, if_pos rfl] at hdue
  have hle : s.timer.armedAt / tickNs + s.timer.period.toNat ≤ s.dw.clock := by
    rw [h.clock, ← Nat.add_mul_div_right _ _ (show 0 < tickNs by decide)]
    exact Nat.div_le_div_right helapsed
  simp only [DwSys.step, hdue]
  rw [if_pos hle]
  rfl

theorem fires (h : Linked s) (ht : s.timer.watcher = .timedOut) :
    Linked ⟨s.dw.fires, { s.timer with active := s.timer.autoReload, watcher := .callback }⟩ where
  punctual := .of_not_waiting (fun _ => h.finite) h.punctual.now_lt h.punctual.armedAt_le
    (fun _ => h.period_ne) nofun nofun
  clock := h.clock
  period := h.period
  period_ne := h.period_ne
  finite := h.finite
  oneShot := h.oneShot
  alive := h.alive
  due := by
    dsimp only [State.due]
    rw [h.oneShot, if_neg nofun]
    rfl
  started := nofun
  busy k hk := by
    refine ⟨rfl, ?_⟩
    by_contra hne
    have hk' : k ≠ s.dw.nextExpiry := fun heq => hne (by rw [heq]; rfl)
    refine hk ?_
    dsimp only [DwSys.fires, DwSys.setExpiry]
    rw [Function.update_of_ne hk']
    exact h.absent (by rw [ht]; nofun) k
  unfailing := h.unfailing

end Linked

/-! ### What is known of the item -/

/-- The timer could not be started, for want of a watcher: the lock holder gives up an arming
that nobody has seen. -/
structure Abandons (s : ItemState w) (c : DwCall) : Prop where
  absent : s.timer.watcher = .absent
  holder : (∃ code, s.dw.holder = .store c (.failed code)) ∨
    ∃ code, s.dw.holder = .storeRaw c (.failed code) s.dw.word
  armed : decodeState s.dw.word = some .armed
  base : DwBase { s.dw with holder := .armStart c }
  hope : DwHope { s.dw with holder := .armStart c }

/-- What is known of the item holds. -/
def Sound (s : ItemState w) : Prop := (DwBase s.dw ∧ DwHope s.dw) ∨ ∃ c, Abandons s c

theorem callerAssumptions {s : DwSys} {result : Option ErrorCode} {period : Nat}
    (hstart : ∀ c, s.holder = .armStart c → result = none)
    (hperiod : ∀ c now, s.holder = .armPeriod c now → c.delay ≤ period) :
    ArmingAssumptions s (.caller result period) := by
  refine ⟨?_, ?_, trivial⟩
  · show s.holder.Starts result
    cases hc : s.holder with
    | armStart c => exact hstart c hc
    | _ => trivial
  · show s.holder.ProgramsDelay result period
    cases hc : s.holder with
    | armPeriod c now => exact fun _ => hperiod c now hc
    | _ => trivial

/-- A step of the item that keeps to the assumptions. -/
theorem sound_step {s : DwSys} {s' : DwSys} {a : DwAct} (h : DwBase s ∧ DwHope s)
    (hok : ArmingAssumptions s a) (hs : s.step a = some s') : DwBase s' ∧ DwHope s' :=
  ⟨h.1.step hok.1 hs, h.2.step h.1 hok hs⟩

namespace Abandons

variable {s : ItemState w} {c : DwCall}

/-- Nothing of the item is queued or runs. -/
theorem nothing (h : Abandons s c) (a : DwAgent) :
    ({ s.dw with holder := .armStart c } : DwSys).token a = none := by
  obtain ⟨st, o, htok⟩ := h.base.tok
  have hst : st = .armed := Option.some.inj (htok.decode.symm.trans h.armed)
  exact htok.none_of_state (by rw [hst]; nofun) (by rw [hst]; nofun) a

/-- The arming is given up. -/
theorem done (h : Abandons s c) (code : ErrorCode) :
    DwBase ({ s.dw with word := withState s.dw.word .idle }.returns c code) ∧
      DwHope ({ s.dw with word := withState s.dw.word .idle }.returns c code) := by
  obtain ⟨st, o, htok⟩ := h.base.tok
  have hdecode : decodeState (withState s.dw.word .idle) = some .idle := decodeState_withState _ _
  have hword : withState s.dw.word .idle = dwWord s.dw.armings .idle := by
    have hw : s.dw.word = dwWord s.dw.armings st := htok.word
    rw [hw, withState_dwWord]
  have hdead : ¬ ({ s.dw with word := withState s.dw.word .idle }.returns c code).Live := by
    rintro (hl | hl)
    · exact (nomatch hdecode.symm.trans hl)
    · exact (nomatch hdecode.symm.trans hl)
  refine ⟨⟨⟨.idle, some .caller, ?_⟩, ?_, ?_⟩, ?_⟩
  · exact htok.holderStores (fun a _ => h.nothing a) rfl rfl rfl hword (fun hne => absurd rfl hne)
      trivial
  · exact h.base.times.writes hdead rfl rfl rfl trivial
  · exact h.base.callbacks.same ⟨rfl, rfl⟩ rfl
  · exact DwHope.gives_up (fun ha => (nomatch hdecode.symm.trans ha)) id trivial

end Abandons

/-! ### Every step -/

variable {s s' : ItemState w}

/-- A call of the item that arms has a delay. -/
theorem Sound.delay_pos (h : Sound s) {c : DwCall} {now : Nat}
    (hc : s.dw.holder = .armPeriod c now) : 0 < c.delay := by
  obtain ⟨hbase, -⟩ | ⟨c', habandons⟩ := h
  · have hcaller := hbase.times.caller
    rw [hc] at hcaller
    exact hcaller.pos
  · obtain ⟨code, hholder⟩ | ⟨code, hholder⟩ := habandons.holder
    · exact (nomatch hc.symm.trans hholder)
    · exact (nomatch hc.symm.trans hholder)

/-- The lock holder does not give up. -/
theorem Sound.normal (h : Sound s) (hstore : ∀ c code, s.dw.holder ≠ .store c (.failed code))
    (hraw : ∀ c code raw, s.dw.holder ≠ .storeRaw c (.failed code) raw) :
    DwBase s.dw ∧ DwHope s.dw := by
  obtain hn | ⟨c, habandons⟩ := h
  · exact hn
  · obtain ⟨code, hholder⟩ | ⟨code, hholder⟩ := habandons.holder
    · exact absurd hholder (hstore c code)
    · exact absurd hholder (hraw c code _)

/-- A step of the lock holder as a step of the item. -/
theorem stepCaller_of_step {d d' : DwSys} {result : Option ErrorCode} {period : Nat}
    (h : d.step (.caller result period) = some d') : d.stepCaller result period = some d' := by
  simp only [DwSys.step] at h
  split at h
  · cases h
  · exact h

/-- A step of the lock holder that is no call of the timer. -/
theorem Sound.caller (h : Sound s) {dw : DwSys} {result : Option ErrorCode}
    {period : Nat} (hcalls : DwSys.callsTimer s.dw.holder = false)
    (hs : s.dw.step (.caller result period) = some dw) : Sound ⟨dw, s.timer⟩ := by
  obtain hn | ⟨c, habandons⟩ := h
  · refine .inl (sound_step hn (callerAssumptions (fun c hc => ?_) (fun c now hc => ?_)) hs)
    · rw [hc] at hcalls
      cases hcalls
    · rw [hc] at hcalls
      cases hcalls
  · have hstep := stepCaller_of_step hs
    unfold DwSys.stepCaller at hstep
    obtain ⟨code, hc⟩ | ⟨code, hc⟩ := habandons.holder
    · rw [hc] at hstep
      cases hstep
      exact .inr ⟨c, habandons.absent, .inr ⟨code, rfl⟩, habandons.armed, habandons.base,
        habandons.hope⟩
    · rw [hc] at hstep
      cases hstep
      exact .inl (habandons.done code)

/-- The lock holder takes a step that is no call of the timer. -/
theorem Linked.caller (hl : Linked s) {dw : DwSys} {result : Option ErrorCode} {period : Nat}
    (hcalls : DwSys.callsTimer s.dw.holder = false)
    (hcas : ∀ c raw, s.dw.holder = .cas c raw → result = none)
    (hs : s.dw.step (.caller result period) = some dw) : Linked ⟨dw, s.timer⟩ := by
  have hstep := stepCaller_of_step hs
  obtain ⟨hsame, hexp⟩ := DwSys.stepCaller_sameClock hstep
  refine hl.item (DwSys.stepCaller_timer hstep hcalls) hsame (fun k hk => ?_)
    (DwSys.stepCaller_unfailing hstep hl.unfailing hcas)
  rw [← hexp]
  exact hk

/-- The lock holder stops the timer. -/
theorem stop_step (hl : Linked s) (hsound : Sound s) {c : DwCall} {r : Option ErrorCode}
    {dw : DwSys} (hc : s.dw.holder = .stop c r) (hs : s.dw.step (.caller none 0) = some dw) :
    Linked ⟨dw, s.timer.stop.2⟩ ∧ Sound ⟨dw, s.timer.stop.2⟩ := by
  have hstep := stepCaller_of_step hs
  obtain ⟨hsame, hexp⟩ := DwSys.stepCaller_sameClock hstep
  have hunfailing := DwSys.stepCaller_unfailing hstep hl.unfailing (by rw [hc]; nofun)
  have htimer : dw.timer = { s.dw.timer with due := none } := by
    have hr := hl.unfailing
    unfold DwSys.stepCaller at hstep
    rw [hc] at hstep hr
    cases r with
    | none =>
        cases hstep
        rfl
    | some code => exact absurd trivial hr
  refine ⟨hl.stop htimer hsame hexp hunfailing, .inl ?_⟩
  refine sound_step (hsound.normal ?_ ?_) (callerAssumptions ?_ ?_) hs
  all_goals rw [hc]
  all_goals nofun

/-- The lock holder sets the period of the timer: for no less than the delay. -/
theorem armPeriod_step (hw : 16 ≤ w) (hl : Linked s) (hsound : Sound s) {c : DwCall} {now : Nat}
    {created : Bool} {dw : DwSys} (hc : s.dw.holder = .armPeriod c now)
    (htimedOut : s.timer.active = true → s.timer.watcher ≠ .timedOut)
    (hdelay : c.delay.toNat ≤ 2 ^ w - 2)
    (hs : s.dw.step (.caller (failure (s.timer.setPeriod (msToTicks w 1000 c.delay) created).1)
      (msToTicks w 1000 c.delay).toNat) = some dw) :
    Linked ⟨dw, (s.timer.setPeriod (msToTicks w 1000 c.delay) created).2⟩ ∧
      Sound ⟨dw, (s.timer.setPeriod (msToTicks w 1000 c.delay) created).2⟩ := by
  have hpos := hsound.delay_pos hc
  have htoNat := toNat_msToTicks hw hpos
  obtain ⟨hne, hforever⟩ := msToTicks_delay hw hpos
  have hp := hl.punctual.setPeriod (fun ha => ⟨htimedOut ha, hforever⟩) created
  have hcover : c.delay ≤ (msToTicks w 1000 c.delay).toNat := by
    rw [htoNat, Nat.min_eq_left hdelay]
    omega
  have hbase : DwBase dw ∧ DwHope dw := by
    refine sound_step (hsound.normal ?_ ?_) (callerAssumptions ?_ ?_) hs
    · rw [hc]
      nofun
    · rw [hc]
      nofun
    · rw [hc]
      nofun
    · intro c' now' hc'
      obtain ⟨rfl, rfl⟩ := DwCaller.armPeriod.inj (hc.symm.trans hc')
      exact hcover
  have hstep := stepCaller_of_step hs
  obtain ⟨hsame, hexp⟩ := DwSys.stepCaller_sameClock hstep
  have hunfailing := DwSys.stepCaller_unfailing hstep hl.unfailing (by rw [hc]; nofun)
  generalize msToTicks w 1000 c.delay = ticks at *
  refine ⟨?_, .inl hbase⟩
  have hdue := hl.due
  unfold State.due at hdue
  unfold State.setPeriod at hstep hp ⊢
  rw [if_neg (by rw [hl.alive]; nofun), if_neg hne] at hstep hp ⊢
  by_cases hactive : s.timer.active = true
  · rw [if_pos hactive] at hstep hp hdue ⊢
    obtain ⟨habsent, -⟩ | ⟨watcher, heq, hstarted, hcallback⟩ :=
      armLocked_eq (s := { s.timer with period := ticks }) hl.alive hne created
    · exact absurd habsent (hl.started hactive)
    · rw [heq] at hstep hp ⊢
      refine hl.arm hne hforever hp hstarted hcallback ?_ hsame hexp hunfailing
      unfold DwSys.stepCaller at hstep
      rw [hc] at hstep
      cases hstep
      dsimp only
      rw [hdue]
      rfl
  · rw [if_neg hactive] at hstep hdue ⊢
    refine hl.setInactive hne hforever (eq_false_of_ne_true hactive) ?_ hsame hexp hunfailing
    unfold DwSys.stepCaller at hstep
    rw [hc] at hstep
    cases hstep
    dsimp only
    rw [hdue]
    rfl

/-- While there is no watcher, nobody sees an arming. -/
def Unseen (s : ItemState w) : Prop :=
  s.timer.watcher = .absent → ∀ c, s.dw.holder = .armStart c → decodeState s.dw.word = some .armed

/-- The lock holder starts the timer. -/
theorem armStart_step (hl : Linked s) (hsound : Sound s) (hunseen : Unseen s) {c : DwCall}
    {created : Bool} {dw : DwSys}
    (hc : s.dw.holder = .armStart c) (htimedOut : s.timer.watcher ≠ .timedOut)
    (hs : s.dw.step (.caller (failure (s.timer.start created).1) 0) = some dw) :
    Linked ⟨dw, (s.timer.start created).2⟩ ∧ Sound ⟨dw, (s.timer.start created).2⟩ := by
  have hn : DwBase s.dw ∧ DwHope s.dw := by
    refine hsound.normal ?_ ?_
    · rw [hc]
      nofun
    · rw [hc]
      nofun
  have hp := hl.punctual.arm htimedOut hl.finite created
  have hstep := stepCaller_of_step hs
  obtain ⟨hsame, hexp⟩ := DwSys.stepCaller_sameClock hstep
  have hunfailing := DwSys.stepCaller_unfailing hstep hl.unfailing (by rw [hc]; nofun)
  unfold State.start at hs hstep ⊢
  obtain ⟨habsent, heq⟩ | ⟨watcher, heq, hstarted, hcallback⟩ :=
    armLocked_eq hl.alive hl.period_ne created
  · rw [heq] at hstep ⊢
    unfold DwSys.stepCaller at hstep
    rw [hc] at hstep
    cases hstep
    refine ⟨hl.item rfl hsame (fun k hk => hk) hunfailing,
      .inr ⟨c, habsent, .inl ⟨_, rfl⟩, ?_, ?_, ?_⟩⟩
    · exact hunseen habsent c hc
    · dsimp only
      rw [← hc]
      exact hn.1
    · dsimp only
      rw [← hc]
      exact hn.2
  · rw [heq] at hs hstep hp ⊢
    refine ⟨hl.arm hl.period_ne hl.finite hp hstarted hcallback ?_ hsame hexp hunfailing, .inl ?_⟩
    · unfold DwSys.stepCaller at hstep
      rw [hc] at hstep
      cases hstep
      dsimp only [DwSys.returns]
      rw [hl.period]
    · refine sound_step hn (callerAssumptions (fun _ _ => rfl) ?_) hs
      rw [hc]
      nofun

/-- A worker without a token does nothing. -/
theorem stepWorker_none {d : DwSys} {j : Nat} (h : (d.workers j).token = none) :
    d.step (.worker j) = none := by
  cases hc : d.workers j with
  | idle => simp only [DwSys.step, DwSys.stepWorker, hc]
  | _ =>
      rw [hc] at h
      cases h

namespace Abandons

variable {c : DwCall}

theorem no_expiry (h : Abandons s c) (hl : Linked s) (i : Nat) (result : Option ErrorCode) :
    s.dw.step (.expiry i result) = none := by
  simp only [DwSys.step, DwSys.stepExpiry, hl.absent (by rw [h.absent]; intro h; cases h) i]
  split <;> rfl

theorem no_dequeue (h : Abandons s c) (j : Nat) : s.dw.step (.dequeue j) = none := by
  have hqueue : s.dw.queue = [] := DwTok.queue_nil (s := { s.dw with holder := .armStart c })
    (fun k => h.nothing (.slot k))
  simp only [DwSys.step, hqueue]
  split
  case h_1 heq => cases heq
  case h_2 => rfl

theorem no_worker (h : Abandons s c) (j : Nat) : s.dw.step (.worker j) = none :=
  stepWorker_none (h.nothing (.worker j))

end Abandons

/-- What holds along every run in which the timer is on time. -/
structure ItemInv (s : ItemState w) : Prop where
  linked : Linked s
  sound : Sound s
  unseen : Unseen s

namespace ItemInv

/-- The item takes a step of its own that is none of the lock holder's. -/
theorem item (h : ItemInv s) {a : DwAct} {dw : DwSys} (hok : ArmingAssumptions s.dw a)
    (hs : s.dw.step a = some dw) (htimer : dw.timer = s.dw.timer) (hsame : SameClock s.dw dw)
    (hexp : ∀ k : Nat, dw.expiries k ≠ .absent → s.dw.expiries k ≠ .absent)
    (hholder : dw.holder = s.dw.holder) (hnone : ∀ c, ¬ Abandons s c)
    (hword : s.timer.watcher = .absent → decodeState s.dw.word = some .armed →
      dw.word = s.dw.word) : ItemInv ⟨dw, s.timer⟩ where
  linked := h.linked.item htimer hsame hexp (by rw [hholder]; exact h.linked.unfailing)
  sound := by
    obtain hn | ⟨c, habandons⟩ := h.sound
    · exact .inl (sound_step hn hok hs)
    · exact absurd habandons (hnone c)
  unseen habsent c hc := by
    have harmed := h.unseen habsent c (hholder.symm.trans hc)
    rw [hword habsent harmed]
    exact harmed

theorem caller (hw : 16 ≤ w) (h : ItemInv s) {result : Option ErrorCode} {created : Bool}
    (hok : ItemOnTime s (.caller result created)) (hs : s.stepCaller result created = some s') :
    ItemInv s' := by
  have hunseen : ∀ {dw : DwSys} {timer : State w} {r : Option ErrorCode} {period : Nat},
      s.dw.step (.caller r period) = some dw → Unseen ⟨dw, timer⟩ :=
    fun hstep _ _ hc => DwSys.stepCaller_armed (stepCaller_of_step hstep) hc
  have hstop : failure s.timer.stop.1 = none := by
    obtain ⟨watcher, heq, -⟩ := stop_eq h.linked.alive
    rw [heq]
    rfl
  unfold ItemState.stepCaller at hs
  split at hs
  case h_1 c raw hc =>
    obtain ⟨dw, hdw, rfl⟩ := Option.map_eq_some_iff.mp hs
    rw [hstop] at hdw
    have hcalls : DwSys.callsTimer s.dw.holder = false := by
      rw [hc]
      rfl
    exact ⟨h.linked.caller hcalls (fun _ _ _ => rfl) hdw, h.sound.caller hcalls hdw,
      hunseen hdw⟩
  case h_2 c r hc =>
    obtain ⟨dw, hdw, rfl⟩ := Option.map_eq_some_iff.mp hs
    obtain ⟨hlinked, hsound⟩ := stop_step h.linked h.sound hc hdw
    exact ⟨hlinked, hsound, hunseen hdw⟩
  case h_3 c now hc =>
    obtain ⟨dw, hdw, rfl⟩ := Option.map_eq_some_iff.mp hs
    unfold ItemOnTime at hok
    rw [hc] at hok
    obtain ⟨hlinked, hsound⟩ := armPeriod_step hw h.linked h.sound hc hok.1 hok.2 hdw
    exact ⟨hlinked, hsound, hunseen hdw⟩
  case h_4 c hc =>
    obtain ⟨dw, hdw, rfl⟩ := Option.map_eq_some_iff.mp hs
    unfold ItemOnTime at hok
    rw [hc] at hok
    obtain ⟨hlinked, hsound⟩ := armStart_step h.linked h.sound h.unseen hc hok hdw
    exact ⟨hlinked, hsound, hunseen hdw⟩
  case h_5 hcas hstop hperiod hstart =>
    obtain ⟨dw, hdw, rfl⟩ := Option.map_eq_some_iff.mp hs
    have hcalls : DwSys.callsTimer s.dw.holder = false := by
      unfold DwSys.callsTimer
      split
      case h_1 c r hc => exact absurd hc (hstop c r)
      case h_2 c now hc => exact absurd hc (hperiod c now)
      case h_3 c hc => exact absurd hc (hstart c)
      case h_4 => rfl
    exact ⟨h.linked.caller hcalls (fun c raw hc => absurd hc (hcas c raw)) hdw,
      h.sound.caller hcalls hdw, hunseen hdw⟩

/-- The watcher takes a step that is no callback. -/
theorem watcher (h : ItemInv s) {watcher : Watcher}
    (hp : Punctual { s.timer with watcher := watcher }) (hstarted : s.timer.watcher ≠ .absent)
    (hne : watcher ≠ .absent)
    (hbusy : s.timer.watcher = .callback → ∀ k, s.dw.expiries k = .absent) :
    ItemInv ⟨s.dw, { s.timer with watcher := watcher }⟩ where
  linked := h.linked.watcher hp hne hbusy
  sound := by
    obtain hn | ⟨c, habandons⟩ := h.sound
    · exact .inl hn
    · exact absurd habandons.absent hstarted
  unseen habsent := absurd habsent hne

/-- The watcher calls back. -/
theorem fires (h : ItemInv s) (ht : s.timer.watcher = .timedOut)
    (hactive : s.timer.active = true) :
    ItemInv ⟨s.dw.fires, { s.timer with active := s.timer.autoReload, watcher := .callback }⟩ where
  linked := h.linked.fires ht
  sound := by
    obtain hn | ⟨c, habandons⟩ := h.sound
    · exact .inl (sound_step (a := .fire) hn ⟨trivial, trivial, trivial⟩
        (h.linked.fire ht hactive))
    · exact (nomatch habandons.absent.symm.trans ht)
  unseen := nofun

theorem stepWatcher (h : ItemInv s) (hs : s.stepWatcher = some s') : ItemInv s' := by
  unfold ItemState.stepWatcher at hs
  split at hs
  case isTrue => cases hs
  case isFalse hfree =>
    obtain ⟨timer, ht, rfl⟩ := Option.map_eq_some_iff.mp hs
    have hp := h.linked.punctual.stepWatcher ht
    obtain ⟨hout, hactive, rfl⟩ | ⟨hstarted, watcher, rfl, hne, habsent⟩ := stepWatcher_cases ht
    · rw [if_pos rfl]
      exact h.fires hout hactive
    · rw [if_neg hne]
      refine h.watcher hp hstarted habsent (fun hcallback k => ?_)
      by_contra hk
      have hlast := (h.linked.busy k hk).2
      refine hfree ⟨hcallback, ?_⟩
      rw [← hlast, Nat.add_sub_cancel]
      cases hpc : s.dw.expiries k with
      | absent => exact absurd hpc hk
      | _ => rfl

theorem tick (h : ItemInv s) {ns : Nat} (hs : s.step (.tick ns) = some s') : ItemInv s' := by
  obtain ⟨timer, ht, hmap⟩ := Option.bind_eq_some_iff.mp hs
  obtain ⟨dw, hdw, rfl⟩ := Option.map_eq_some_iff.mp hmap
  have hp := h.linked.punctual.step (a := .tick ns) trivial ht
  have hl := h.linked
  dsimp only [State.step] at ht
  split at ht
  case isFalse => cases ht
  case isTrue hlt =>
    cases ht
    have hstep := hdw
    simp only [DwSys.step] at hdw
    split at hdw
    case isFalse => cases hdw
    case isTrue =>
      cases hdw
      refine ⟨⟨hp, ?_, hl.period, hl.period_ne, hl.finite, hl.oneShot, hl.alive, hl.due, hl.started,
        hl.busy, hl.unfailing⟩, ?_, h.unseen⟩
      · dsimp only
        rw [hl.clock]
        exact Nat.add_sub_of_le (Nat.div_le_div_right (Nat.le_add_right _ _))
      · obtain hn | ⟨c, habandons⟩ := h.sound
        · exact .inl (sound_step (a := .tick _) hn ⟨trivial, trivial, trivial⟩ hstep)
        · have hwait := sound_step ⟨habandons.base, habandons.hope⟩
            (a := .tick ((s.timer.now + ns) / tickNs - s.timer.now / tickNs))
            ⟨trivial, trivial, trivial⟩ (if_pos ‹_›)
          exact .inr ⟨c, habandons.absent, habandons.holder, habandons.armed, hwait.1, hwait.2⟩

theorem call (h : ItemInv s) {op : DwOp} {began : Nat} {dw : DwSys}
    (hs : s.dw.step (.call op began) = some dw) : ItemInv ⟨dw, s.timer⟩ := by
  have hstep := hs
  simp only [DwSys.step] at hs
  split at hs
  case h_2 => cases hs
  case h_1 hc =>
    split at hs
    case isFalse => cases hs
    case isTrue =>
      cases hs
      refine ⟨h.linked.item rfl ⟨rfl, rfl⟩ (fun _ hk => hk) id, .inl ?_, fun _ _ h => by cases h⟩
      refine sound_step (a := .call op began) (h.sound.normal ?_ ?_) ⟨trivial, trivial, trivial⟩
        hstep
      · rw [hc]
        exact fun _ _ h => by cases h
      · rw [hc]
        exact fun _ _ _ h => by cases h

theorem expiry (h : ItemInv s) {i : Nat} {result : Option ErrorCode} {dw : DwSys}
    (hs : s.dw.step (.expiry i result) = some dw) : ItemInv ⟨dw, s.timer⟩ := by
  have hstep := hs
  simp only [DwSys.step] at hs
  split at hs
  case isTrue => cases hs
  case isFalse =>
    obtain ⟨htimer, hholder⟩ := DwSys.stepExpiry_timer hs
    obtain ⟨hsame, hhere, hother⟩ := DwSys.stepExpiry_sameClock hs
    refine h.item (a := .expiry i result) ⟨trivial, trivial, fun hf => ?_⟩ hstep htimer hsame
      (fun k hk => ?_) hholder (fun c habandons => ?_) (fun habsent => ?_)
    · exact absurd hf h.linked.unfailing
    · by_cases hki : k = i
      · rw [hki]
        exact hhere
      · rw [← hother k hki]
        exact hk
    · exact absurd hstep (by simp [habandons.no_expiry h.linked i result])
    · exact absurd (h.linked.absent (by rw [habsent]; intro h; cases h) i) hhere

theorem dequeue (h : ItemInv s) {j : Nat} {dw : DwSys}
    (hs : s.dw.step (.dequeue j) = some dw) : ItemInv ⟨dw, s.timer⟩ := by
  have hstep := hs
  simp only [DwSys.step] at hs
  split at hs
  case h_1 =>
    cases hs
    refine h.item (a := .dequeue j) ⟨trivial, trivial, trivial⟩ hstep rfl ⟨rfl, rfl⟩
      (fun _ hk => hk) rfl (fun c habandons => ?_) (fun _ _ => rfl)
    exact absurd hstep (by simp [habandons.no_dequeue j])
  case h_2 => cases hs

theorem worker (h : ItemInv s) {j : Nat} {dw : DwSys}
    (hs : s.dw.step (.worker j) = some dw) : ItemInv ⟨dw, s.timer⟩ := by
  obtain ⟨htimer, hholder⟩ := DwSys.stepWorker_timer hs
  obtain ⟨hsame, hexp⟩ := DwSys.stepWorker_sameClock hs
  refine h.item (a := .worker j) ⟨trivial, trivial, trivial⟩ hs htimer hsame (fun k hk => ?_)
    hholder (fun c habandons => ?_) (fun habsent harmed => ?_)
  · rw [← hexp]
    exact hk
  · exact (nomatch (habandons.no_worker j).symm.trans hs)
  · obtain ⟨hbase, -⟩ | ⟨c, habandons⟩ := h.sound
    · obtain ⟨st, o, htok⟩ := hbase.tok
      have hst : st = .armed := Option.some.inj (htok.decode.symm.trans harmed)
      have htoken := htok.none_of_state (by rw [hst]; nofun) (by rw [hst]; nofun) (.worker j)
      exact (nomatch (stepWorker_none htoken).symm.trans hs)
    · exact (nomatch (habandons.no_worker j).symm.trans hs)

theorem cancelAll (h : ItemInv s) {dw : DwSys} (hs : s.dw.step .cancelAll = some dw) :
    ItemInv ⟨dw, s.timer⟩ := by
  have hl := h.linked
  have hstep := hs
  cases hs
  refine ⟨hl.item rfl ⟨rfl, rfl⟩ (fun _ hk => hk) hl.unfailing, ?_, h.unseen⟩
  obtain hn | ⟨c, habandons⟩ := h.sound
  · exact .inl (sound_step (a := .cancelAll) hn ⟨trivial, trivial, trivial⟩ hstep)
  · have hwait := sound_step ⟨habandons.base, habandons.hope⟩ (a := .cancelAll)
      ⟨trivial, trivial, trivial⟩ rfl
    exact .inr ⟨c, habandons.absent, habandons.holder, habandons.armed, hwait.1, hwait.2⟩

theorem step (hw : 16 ≤ w) (h : ItemInv s) {a : ItemAction} (hok : ItemOnTime s a)
    (hs : s.step a = some s') : ItemInv s' := by
  cases a with
  | call op began =>
      obtain ⟨dw, hdw, rfl⟩ := Option.map_eq_some_iff.mp hs
      exact h.call hdw
  | caller result created => exact h.caller hw hok hs
  | expiry i result =>
      obtain ⟨dw, hdw, rfl⟩ := Option.map_eq_some_iff.mp hs
      exact h.expiry hdw
  | watcher => exact h.stepWatcher hs
  | wakeUp =>
      obtain ⟨timer, ht, rfl⟩ := Option.map_eq_some_iff.mp hs
      have hp := h.linked.punctual.step (a := .wakeUp) trivial ht
      dsimp only [State.step] at ht
      split at ht
      case h_1 hasleep =>
        cases ht
        exact h.watcher hp (by rw [hasleep]; nofun) nofun (by rw [hasleep]; nofun)
      case h_2 hasleep =>
        cases ht
        exact h.watcher hp (by rw [hasleep]; nofun) nofun (by rw [hasleep]; nofun)
      case h_3 => cases ht
  | expire =>
      obtain ⟨timer, ht, rfl⟩ := Option.map_eq_some_iff.mp hs
      have hp := h.linked.punctual.step (a := .expire) trivial ht
      dsimp only [State.step] at ht
      split at ht
      case h_1 deadline hwaits =>
        split at ht
        case isTrue =>
          cases ht
          exact h.watcher hp (by rw [hwaits]; nofun) nofun (by rw [hwaits]; nofun)
        case isFalse => cases ht
      case h_2 => cases ht
  | dequeue j =>
      obtain ⟨dw, hdw, rfl⟩ := Option.map_eq_some_iff.mp hs
      exact h.dequeue hdw
  | worker j =>
      obtain ⟨dw, hdw, rfl⟩ := Option.map_eq_some_iff.mp hs
      exact h.worker hdw
  | tick ns => exact h.tick hs
  | cancelAll =>
      cases hs
      exact h.cancelAll rfl

theorem init (hw : 16 ≤ w) {now : Nat} (hnow : now / tickNs < 2 ^ 63) :
    ItemInv (ItemState.init w now) := by
  have hpow : 2 ^ 16 ≤ 2 ^ w := Nat.pow_le_pow_right (by decide) hw
  have hlt : now < maxTime := by
    unfold maxTime
    unfold tickNs at hnow
    omega
  obtain ⟨hne, hforever⟩ := msToTicks_delay hw (show (0 : Int) < 1 by decide)
  have hone : (msToTicks w 1000 1).toNat = 1 := by
    rw [toNat_msToTicks hw (by decide)]
    exact Nat.min_eq_left (by omega)
  refine ⟨⟨.inactive hlt (Nat.le_refl _) rfl, rfl, hone.symm, hne, hforever, rfl, rfl, rfl, nofun,
    fun k hk => absurd rfl hk, id⟩, .inl ⟨?_, .fresh _⟩, nofun⟩
  exact DwBase.reachable hnow (fun _ _ h => h) .init

theorem of_reachable (hw : 16 ≤ w) {now : Nat} (hnow : now / tickNs < 2 ^ 63)
    (h : (itemMachine w now).ReachableBy ItemOnTime s) : ItemInv s :=
  h.invariant (I := ItemInv) (init hw hnow) (fun _ _ _ _ hi hok hs => hi.step hw hok hs)

end ItemInv

/-! ### What an item can rely on -/

/-- The lock holder has stored `armed`, and `arm_locked` is not over. -/
def arming : DwCaller → Bool
  | .armStart _ | .store _ (.failed _) | .storeRaw _ (.failed _) _ => true
  | _ => false

/-- An armed item has a timer that runs, or a callback that will find the delay over and take
the item to `queued`. -/
def ItemOk (s : ItemState w) : Prop :=
  decodeState s.dw.word = some .armed → arming s.dw.holder = false →
    s.timer.active = true ∨
      s.timer.watcher = .callback ∧ ∃ i, i + 1 = s.dw.nextExpiry ∧ s.dw.Accepts i

theorem ItemInv.itemOk (h : ItemInv s) : ItemOk s := by
  intro harmed harming
  obtain ⟨hbase, hhope⟩ : DwBase s.dw ∧ DwHope s.dw := by
    refine h.sound.normal (fun c code hc => ?_) (fun c code raw hc => ?_)
    · rw [hc] at harming
      cases harming
    · rw [hc] at harming
      cases harming
  have hwaiting : s.dw.Waiting := by
    refine .inl ⟨harmed, fun c hc => ?_⟩
    rw [hc] at harming
    cases harming
  obtain ⟨c, t, hc, -, hpast⟩ := hhope.waiting hwaiting
  have hdue := h.linked.due
  unfold State.due at hdue
  by_cases hactive : s.timer.active = true
  · exact .inl hactive
  · rw [if_neg hactive] at hdue
    obtain ⟨hle, i, hway⟩ := hpast hdue
    have hhere : s.dw.expiries i ≠ .absent := by
      intro habsent
      rw [habsent] at hway
      exact hway
    obtain ⟨hcallback, hlast⟩ := h.linked.busy i hhere
    exact .inr ⟨hcallback, i, hlast,
      DwSys.accepts_of_onItsWay _ rfl hbase harmed hway ⟨c, t, hc, hle⟩⟩

/-- A timer that is not armed while an expiry is on its way is on time, and an item can rely
on it. -/
theorem posixTimer_on_time (w : Nat) (hw : 16 ≤ w) :
    (∀ (period : Tick w) (autoReload : Bool) (now : Nat), now < maxTime →
      ∀ s : State w, (machine period autoReload now).ReachableBy OnTime s → TimerOk s) ∧
    ∀ now : Nat, now / tickNs < 2 ^ 63 →
      ∀ s : ItemState w, (itemMachine w now).ReachableBy ItemOnTime s → ItemOk s := by
  constructor
  · intro period autoReload now hnow s hs
    exact (Punctual.of_reachable hnow hs).timerOk
  · intro now hnow s hs
    exact (ItemInv.of_reachable hw hnow hs).itemOk

/-- `schedule` for a millisecond. -/
def scheduled : List ItemAction :=
  ItemAction.call (.schedule 1) 0 :: List.replicate 11 (ItemAction.caller none true) ++
    [ItemAction.watcher]

theorem posixTimer_on_time_scheduled :
    (∃ s : State 32, (machine 5 false 0).ReachableBy OnTime s ∧ s.watcher = .timedOut ∧
      TimerOk s) ∧
    ∃ s : ItemState 32, (itemMachine 32 0).ReachableBy ItemOnTime s ∧
      decodeState s.dw.word = some .armed ∧ s.dw.holder.isFree = true ∧ ItemOk s := by
  obtain ⟨htimer, hitem⟩ := posixTimer_on_time 32 (by decide)
  constructor
  · have hok : (machine (w := 32) 5 false 0).RunOk OnTime (.create 5 false 0)
        [.start true, .watcher, .tick 5000000, .expire] := by
      decide +kernel
    have hview : ((machine (w := 32) 5 false 0).run (.create 5 false 0)
        [.start true, .watcher, .tick 5000000, .expire]).map State.watcher =
          some .timedOut := by
      decide +kernel
    obtain ⟨s, hrun, hout⟩ := Option.map_eq_some_iff.mp hview
    have hs := Machine.ReachableBy.of_run .init hok hrun
    exact ⟨s, hs, hout, htimer 5 false 0 (by decide) s hs⟩
  · have hok : (itemMachine 32 0).RunOk ItemOnTime (.init 32 0) scheduled := by
      decide +kernel
    have hview : ((itemMachine 32 0).run (.init 32 0) scheduled).map
        (fun s => (decodeState s.dw.word, s.dw.holder.isFree)) = some (some .armed, true) := by
      decide +kernel
    obtain ⟨s, hrun, hfields⟩ := Option.map_eq_some_iff.mp hview
    have hs := Machine.ReachableBy.of_run .init hok hrun
    exact ⟨s, hs, congrArg Prod.fst hfields, congrArg Prod.snd hfields,
      hitem 0 (by decide) s hs⟩

/-- The watcher has timed out for the millisecond of the first arming when the timer is armed
for a second: the callback comes at once. An item that is rescheduled in that moment stays
armed, with a timer that does not run and no callback. -/
theorem posixTimer_stale :
    (¬ ∀ s : State 32, (machine 1 false 0).Reachable s → TimerOk s) ∧
    ¬ ∀ s : ItemState 32, (itemMachine 32 0).Reachable s → ItemOk s := by
  constructor
  · intro hall
    have hview : ((machine (w := 32) 1 false 0).run (.create 1 false 0)
        [.start true, .watcher, .tick 1000000, .expire, .stop, .setPeriod 1000 true,
          .start true]).map
          (fun s => (s.watcher, s.active, s.shutdown, s.armedAt, s.period, s.now)) =
          some (.timedOut, true, false, 1000000, 1000, 1000000) := by
      decide +kernel
    obtain ⟨s, hrun, hfields⟩ := Option.map_eq_some_iff.mp hview
    simp only [Prod.mk.injEq] at hfields
    obtain ⟨hwatcher, hactive, hshutdown, harmed, hperiod, hnow⟩ := hfields
    have hstep : s.step .watcher =
        some { s with active := s.autoReload, watcher := .callback } := by
      simp only [State.step, State.stepWatcher, hwatcher, hactive, hshutdown]
      rfl
    have helapsed := (hall s (Machine.Reachable.of_run hrun)).fires _ hstep rfl
    unfold State.Elapsed at helapsed
    rw [harmed, hperiod, hnow] at helapsed
    exact absurd helapsed (by decide)
  · intro hall
    have hview : ((itemMachine 32 0).run (.init 32 0) (scheduled ++
        ([.tick 1000000, .expire, .call (.reschedule 1000) 1] : List ItemAction) ++
        List.replicate 16 (ItemAction.caller none true) ++ [ItemAction.watcher] ++
        List.replicate 6 (ItemAction.expiry 0 none) ++
        ([.watcher, .watcher] : List ItemAction))).map
          (fun s => (decodeState s.dw.word, arming s.dw.holder, s.timer.active, s.timer.watcher)) =
          some (some .armed, false, false, .asleep) := by
      decide +kernel
    obtain ⟨s, hrun, hfields⟩ := Option.map_eq_some_iff.mp hview
    simp only [Prod.mk.injEq] at hfields
    obtain ⟨harmed, harming, hactive, hwatcher⟩ := hfields
    obtain ha | ⟨hcallback, -⟩ := hall s (Machine.Reachable.of_run hrun) harmed harming
    · exact (nomatch hactive.symm.trans ha)
    · exact (nomatch hwatcher.symm.trans hcallback)

end MicrOsal.Timer
