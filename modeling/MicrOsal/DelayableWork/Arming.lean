import MicrOsal.DelayableWork.Times

/-!
# MicrOsal.DelayableWork.Arming

An armed item and its timer.

While the item is armed and the lock is free, the timer should still run, or a
callback it has started should be on its way to the exchange that takes the
arming. `reschedule` and `cancel` break this when `timer_.stop()` fails: they
put `armed` back, but a callback that looked at the word in between has gone,
and the one-shot timer with it. The invariant (`DwHope`) holds along every run
in which that does not happen and the timer is not programmed for less than the
delay.
-/

namespace MicrOsal

/-! ### What goes wrong, and when -/

/-- The lock holder is between the exchange to `stopping` and the store that
puts `armed` back, with a `stop()` that fails. -/
def DwCaller.FailingStop : DwCaller → Prop
  | .stop _ (some _) | .store _ (.restored _) | .storeRaw _ (.restored _) _ => True
  | _ => False

instance DwCaller.FailingStop.decidable : (c : DwCaller) → Decidable c.FailingStop
  | .stop _ (some _) | .store _ (.restored _) | .storeRaw _ (.restored _) _ => .isTrue trivial
  | .stop _ none | .store _ .stopped | .store _ .enqueue | .store _ (.failed _)
  | .storeRaw _ .stopped _ | .storeRaw _ .enqueue _ | .storeRaw _ (.failed _) _
  | .free | .load _ | .casLoad _ | .cas _ _ | .begin _ | .armNow _ | .armPeriod _ _
  | .armStartLow _ _ | .armStartHigh _ _ | .armDelayLow _ _ | .armDelayHigh _ _ | .armLoad _ _
  | .armStore _ _ _ | .armStart _ | .submit _ => .isFalse id

/-- A callback that is about to load `state_`, or has loaded it in arming `n` and
not been turned away. -/
def DwExpiry.OnItsWay (n : Nat) : DwExpiry → Prop
  | .entered => True
  | .readStartHigh _ loaded | .readStartLow _ loaded _ | .readDelayHigh _ loaded _
  | .readDelayLow _ loaded _ _ | .readClock _ loaded _ _ | .cas _ loaded _ => loaded = n
  | _ => False

/-- The callback's next step looks at `state_`. -/
def DwExpiry.Looks : DwExpiry → Prop
  | .entered | .cas _ _ _ => True
  | _ => False

/-- While a failing `stop()` has the item in `stopping`, a callback looks at
`state_` only if the timer still runs or another callback is on its way. -/
def StopsUnseen (s : DwSys) : DwAct → Prop
  | .expiry i _ => s.holder.FailingStop → (s.expiries i).Looks →
      s.timer.due ≠ none ∨ ∃ k, k ≠ i ∧ (s.expiries k).OnItsWay s.armings
  | _ => True

/-- A successful `set_period` programs the timer for at least the delay. -/
def DwCaller.ProgramsDelay (result : Option ErrorCode) (period : Nat) : DwCaller → Prop
  | .armPeriod c _ => result = none → c.delay ≤ period
  | _ => True

instance DwCaller.ProgramsDelay.decidable (result : Option ErrorCode) (period : Nat) :
    (c : DwCaller) → Decidable (c.ProgramsDelay result period)
  | .armPeriod c _ => inferInstanceAs (Decidable (result = none → c.delay ≤ period))
  | .free | .load _ | .casLoad _ | .cas _ _ | .stop _ _ | .store _ _ | .storeRaw _ _ _
  | .begin _ | .armNow _ | .armStartLow _ _ | .armStartHigh _ _ | .armDelayLow _ _
  | .armDelayHigh _ _ | .armLoad _ _ | .armStore _ _ _ | .armStart _ | .submit _ => .isTrue trivial

/-- The timer never comes due before the delay it was asked for. -/
def TimerNotEarly (s : DwSys) : DwAct → Prop
  | .caller result period => s.holder.ProgramsDelay result period
  | _ => True

instance TimerNotEarly.decidable (s : DwSys) : (a : DwAct) → Decidable (TimerNotEarly s a)
  | .caller result period => inferInstanceAs (Decidable (s.holder.ProgramsDelay result period))
  | .call _ _ | .fire | .expiry _ _ | .dequeue _ | .worker _ | .tick _ | .cancelAll =>
    .isTrue trivial

/-! ### The invariant -/

/-- The timer runs and is due no earlier than the arming's delay, or the delay
has passed and a callback is on its way. -/
def DwSys.Hope (s : DwSys) : Prop :=
  ∃ c t, s.arming = some (c, t) ∧
    (∀ due, s.timer.due = some due → (t : Int) + c.delay ≤ due) ∧
    (s.timer.due = none → (t : Int) + c.delay ≤ s.clock ∧
      ∃ i, (s.expiries i).OnItsWay s.armings)

/-- The item is armed with its timer started, or will be again. -/
def DwSys.Waiting (s : DwSys) : Prop :=
  (decodeState s.word = some .armed ∧ ∀ c, s.holder ≠ .armStart c) ∨ s.holder.FailingStop

/-- What `arm_locked` has programmed the timer for. -/
def CallerPeriod (s : DwSys) : DwCaller → Prop
  | .armStartLow c _ | .armStartHigh c _ | .armDelayLow c _ | .armDelayHigh c _ | .armLoad c _
  | .armStore c _ _ => c.delay ≤ s.timer.period
  | .armStart c => c.delay ≤ s.timer.period ∧ ∃ t, s.arming = some (c, t) ∧ t ≤ s.clock
  | _ => True

/-- The arming invariant. -/
structure DwHope (s : DwSys) : Prop where
  waiting : s.Waiting → s.Hope
  caller : CallerPeriod s s.holder

namespace DwHope

variable {s s' : DwSys}

/-- A failing `stop()` has the item in `stopping`. -/
theorem stopping_of_failing {st : DwState} {o : Option DwAgent} (htok : DwTok s st o)
    (hf : s.holder.FailingStop) : st = .stopping := by
  have hk := htok.holder
  cases hc : s.holder with
  | stop c res =>
      rw [hc] at hk
      exact hk
  | store c next =>
      rw [hc] at hk hf
      cases next with
      | restored code => exact hk
      | _ => exact absurd hf id
  | storeRaw c next raw =>
      rw [hc] at hk hf
      cases next with
      | restored code => exact hk.1
      | _ => exact absurd hf id
  | _ =>
      rw [hc] at hf
      exact absurd hf id

/-- The arming lasts while the item waits. -/
theorem live_of_waiting {st : DwState} {o : Option DwAgent} (htok : DwTok s st o)
    (hw : s.Waiting) : s.Live := by
  rcases hw with ⟨harmed, -⟩ | hf
  · exact Or.inl harmed
  · exact Or.inr (by rw [htok.decode, stopping_of_failing htok hf])

/-- Hope survives whatever leaves the timer and the arming alone and turns no
callback away. -/
theorem hope_same (h : s.Hope) (hdue : s'.timer.due = s.timer.due) (harm : s'.arming = s.arming)
    (hn : s'.armings = s.armings) (hclock : s.clock ≤ s'.clock)
    (hexp : ∀ i, (s.expiries i).OnItsWay s.armings → (s'.expiries i).OnItsWay s.armings) :
    s'.Hope := by
  obtain ⟨c, t, ha, hrun, hnot⟩ := h
  refine ⟨c, t, harm.trans ha, by rw [hdue]; exact hrun, fun hnone => ?_⟩
  obtain ⟨hpast, i, hi⟩ := hnot (hdue.symm.trans hnone)
  rw [hn]
  exact ⟨hpast.trans (by exact_mod_cast hclock), i, hexp i hi⟩

/-- A step of the lock holder that leaves the timer and the arming alone. -/
theorem moveHolder (h : DwHope s) (hdue : s'.timer = s.timer) (harm : s'.arming = s.arming)
    (hn : s'.armings = s.armings) (hclock : s'.clock = s.clock) (hexp : s'.expiries = s.expiries)
    (hwait : s'.Waiting → s.Waiting) (hcaller : CallerPeriod s' s'.holder) : DwHope s' where
  waiting hw := by
    refine hope_same (h.waiting (hwait hw)) (by rw [hdue]) harm hn hclock.ge fun i hi => ?_
    rw [hexp]
    exact hi
  caller := hcaller

/-- A step of the lock holder that also leaves `state_` alone. -/
theorem keep (h : DwHope s) (hstart : ∀ c, s.holder ≠ .armStart c) (hword : s'.word = s.word)
    (hdue : s'.timer = s.timer) (harm : s'.arming = s.arming) (hn : s'.armings = s.armings)
    (hclock : s'.clock = s.clock) (hexp : s'.expiries = s.expiries)
    (hfail : s'.holder.FailingStop → s.holder.FailingStop)
    (hcaller : CallerPeriod s' s'.holder) : DwHope s' := by
  refine h.moveHolder hdue harm hn hclock hexp ?_ hcaller
  rintro (⟨harmed, -⟩ | hf)
  · rw [hword] at harmed
    exact Or.inl ⟨harmed, hstart⟩
  · exact Or.inr (hfail hf)

/-- A step of the lock holder after which the item does not wait. -/
theorem gives_up (hdead : decodeState s'.word ≠ some .armed) (hfail : ¬ s'.holder.FailingStop)
    (hcaller : CallerPeriod s' s'.holder) : DwHope s' where
  waiting hw := by
    rcases hw with ⟨harmed, -⟩ | hf
    · exact absurd harmed hdead
    · exact absurd hf hfail
  caller := hcaller

/-! ### The lock holder's steps -/

theorem returns (h : DwHope s) (hstart : ∀ c, s.holder ≠ .armStart c) (c : DwCall)
    (code : ErrorCode) : DwHope (s.returns c code) :=
  h.keep hstart rfl rfl rfl rfl rfl rfl (fun hf => absurd hf id) trivial

theorem casFails (h : DwHope s) (hstart : ∀ c, s.holder ≠ .armStart c) (c : DwCall)
    (expected : Option DwState) : DwHope (s.casFails c expected) := by
  unfold DwSys.casFails
  split
  · split
    · exact h.returns hstart c _
    · exact h.returns hstart c _
  · exact h.returns hstart c _

theorem stepLoad (h : DwHope s) (hstart : ∀ c, s.holder ≠ .armStart c) (c : DwCall) :
    DwHope (s.stepLoad c) := by
  have hmove : ∀ pc : DwCaller, ¬ pc.FailingStop → CallerPeriod s pc →
      DwHope { s with holder := pc } := fun pc hf hpc =>
    h.keep hstart rfl rfl rfl rfl rfl rfl (fun hf' => absurd hf' hf)
      (by cases pc <;> exact hpc)
  unfold DwSys.stepLoad
  dsimp only
  split
  · split
    · exact hmove _ id trivial
    · exact h.returns hstart c _
  · split
    · exact h.returns hstart c _
    · split
      · exact hmove _ id trivial
      · exact hmove _ id trivial
  · split
    · exact h.keep hstart rfl rfl rfl rfl rfl rfl (fun hf => absurd hf id) trivial
    · exact hmove _ id trivial

/-- The store of `store_state` by the lock holder. -/
theorem storeRaw (h : DwHope s) {c : DwCall} {next : DwNext} {raw : BitVec 32}
    (hc : s.holder = .storeRaw c next raw) :
    DwHope ({ s with word := withState raw next.value }.afterStore c next) := by
  have hdead : ∀ {w : DwSys} {st : DwState}, st ≠ .armed → w.word = withState raw st →
      decodeState w.word ≠ some .armed := by
    intro w st hst hw
    rw [hw, decodeState_withState]
    exact fun heq => hst (Option.some.inj heq)
  cases next with
  | stopped =>
      simp only [DwSys.afterStore]
      split
      · exact gives_up (hdead (show DwState.idle ≠ .armed by decide) rfl) id trivial
      · exact gives_up (hdead (show DwState.idle ≠ .armed by decide) rfl) id trivial
  | restored code =>
      refine h.moveHolder rfl rfl rfl rfl rfl (fun _ => Or.inr ?_) trivial
      rw [hc]
      trivial
  | enqueue => exact gives_up (hdead (show DwState.queued ≠ .armed by decide) rfl) id trivial
  | failed code => exact gives_up (hdead (show DwState.idle ≠ .armed by decide) rfl) id trivial

theorem stepCaller {st : DwState} {o : Option DwAgent} {result : Option ErrorCode} {period : Nat}
    (htok : DwTok s st o) (htimes : DwTimes s)
    (hstarts : ∀ c, s.holder = .armStart c → result = none)
    (hperiod : s.holder.ProgramsDelay result period) (h : DwHope s)
    (hs : s.stepCaller result period = some s') : DwHope s' := by
  have hcp := h.caller
  have hk := htok.holder
  have hcall := htimes.caller
  unfold DwSys.stepCaller at hs
  generalize hc : s.holder = here at hs
  cases here with
  | free => cases hs
  | load c =>
      cases hs
      exact h.stepLoad (by simp [hc]) c
  | casLoad c =>
      have hstart : ∀ c, s.holder ≠ .armStart c := by simp [hc]
      dsimp only at hs
      split at hs
      · cases hs
        exact h.keep hstart rfl rfl rfl rfl rfl rfl (fun hf => absurd hf id) trivial
      · cases hs
        exact h.casFails hstart c _
  | cas c raw =>
      rw [hc] at hk
      have hstart : ∀ c, s.holder ≠ .armStart c := by simp [hc]
      dsimp only at hs
      split at hs
      · rename_i heq
        cases hs
        obtain ⟨n, rfl⟩ := hk
        refine h.moveHolder rfl rfl rfl rfl rfl (fun _ => Or.inl ⟨?_, hstart⟩) trivial
        rw [heq, decodeState_dwWord]
      · cases hs
        exact h.casFails hstart c _
  | stop c res =>
      rw [hc] at hk
      have hstart : ∀ c, s.holder ≠ .armStart c := by simp [hc]
      cases res with
      | none =>
          cases hs
          refine gives_up ?_ id trivial
          show decodeState s.word ≠ some .armed
          rw [htok.decode, show st = .stopping from hk]
          decide
      | some code =>
          cases hs
          exact h.keep hstart rfl rfl rfl rfl rfl rfl (fun _ => by rw [hc]; trivial) trivial
  | store c next =>
      have hstart : ∀ c, s.holder ≠ .armStart c := by simp [hc]
      cases hs
      refine h.keep hstart rfl rfl rfl rfl rfl rfl (fun hf => ?_) trivial
      rw [hc]
      cases next <;> exact hf
  | storeRaw c next raw =>
      cases hs
      exact h.storeRaw hc
  | begin c =>
      have hstart : ∀ c, s.holder ≠ .armStart c := by simp [hc]
      dsimp only at hs
      split at hs
      · cases hs
        exact h.keep hstart rfl rfl rfl rfl rfl rfl (fun hf => absurd hf id) trivial
      · cases hs
        exact h.keep hstart rfl rfl rfl rfl rfl rfl (fun hf => absurd hf id) trivial
  | armNow c =>
      cases hs
      exact h.keep (by simp [hc]) rfl rfl rfl rfl rfl rfl (fun hf => absurd hf id) trivial
  | armPeriod c now =>
      rw [hc] at hk hperiod
      have hstart : ∀ c, s.holder ≠ .armStart c := by simp [hc]
      cases result with
      | some code =>
          cases hs
          exact h.returns hstart c _
      | none =>
          cases hs
          refine gives_up ?_ id (hperiod rfl)
          show decodeState s.word ≠ some .armed
          rw [htok.decode, show st = .idle from hk]
          decide
  | armStartLow c now | armStartHigh c now | armDelayLow c now | armDelayHigh c now
  | armLoad c now =>
      rw [hc] at hcp
      cases hs
      exact h.keep (by simp [hc]) rfl rfl rfl rfl rfl rfl (fun hf => absurd hf id) hcp
  | armStore c now raw =>
      rw [hc] at hcp hcall
      cases hs
      refine ⟨?_, hcp, now, rfl, hcall.1.now⟩
      rintro (⟨-, hstart⟩ | hf)
      · exact absurd rfl (hstart c)
      · exact absurd hf id
  | armStart c =>
      rw [hc] at hcp
      obtain rfl := hstarts c hc
      cases hs
      obtain ⟨hprog, t, harm, hle⟩ := hcp
      -- the timer starts now, at or after the time `arm_locked` read
      refine ⟨fun _ => ⟨c, t, harm, fun due hdue => ?_, fun hnone => by cases hnone⟩, trivial⟩
      cases hdue
      have ht : (t : Int) ≤ s.clock := by exact_mod_cast hle
      push_cast
      omega
  | submit c =>
      have hstart : ∀ c, s.holder ≠ .armStart c := by simp [hc]
      cases result with
      | some code =>
          cases hs
          exact h.keep hstart rfl rfl rfl rfl rfl rfl (fun hf => absurd hf id) trivial
      | none =>
          cases hs
          exact h.keep hstart rfl rfl rfl rfl rfl rfl (fun hf => absurd hf id) trivial

/-! ### The timer callbacks' steps -/

theorem callerPeriod_same {c : DwCaller} (h : CallerPeriod s c)
    (hperiod : s'.timer.period = s.timer.period) (harm : s'.arming = s.arming)
    (hclock : s.clock ≤ s'.clock) : CallerPeriod s' c := by
  cases c with
  | armStartLow c now | armStartHigh c now | armDelayLow c now | armDelayHigh c now
  | armLoad c now | armStore c now raw =>
      show c.delay ≤ s'.timer.period
      rw [hperiod]
      exact h
  | armStart c =>
      obtain ⟨hprog, t, ha, hle⟩ := h
      refine ⟨?_, t, harm.trans ha, hle.trans hclock⟩
      rw [hperiod]
      exact hprog
  | _ => trivial

/-- A step that touches neither the lock holder, the timer nor the callbacks. -/
theorem others (h : DwHope s) (hholder : s'.holder = s.holder) (htimer : s'.timer = s.timer)
    (harm : s'.arming = s.arming) (hn : s'.armings = s.armings) (hclock : s.clock ≤ s'.clock)
    (hexp : s'.expiries = s.expiries) (hword : decodeState s'.word = some .armed →
      decodeState s.word = some .armed) : DwHope s' where
  waiting hw := by
    have hw' : s.Waiting := by
      rcases hw with ⟨harmed, hstart⟩ | hf
      · exact Or.inl ⟨hword harmed, by rw [← hholder]; exact hstart⟩
      · exact Or.inr (by rw [← hholder]; exact hf)
    refine hope_same (h.waiting hw') (by rw [htimer]) harm hn hclock fun i hi => ?_
    rw [hexp]
    exact hi
  caller := by
    rw [hholder]
    exact callerPeriod_same h.caller (by rw [htimer]) harm hclock

/-- A callback moves on: if it was on its way it still is, or there is another. -/
theorem moveExpiry (h : DwHope s) (i : Nat) {pc : DwExpiry}
    (hpc : s.Waiting → s.timer.due = none →
      (∃ c t, s.arming = some (c, t) ∧ (t : Int) + c.delay ≤ s.clock) →
      (s.expiries i).OnItsWay s.armings →
        pc.OnItsWay s.armings ∨ ∃ k, k ≠ i ∧ (s.expiries k).OnItsWay s.armings) :
    DwHope (s.setExpiry i pc) where
  waiting hw := by
    obtain ⟨c, t, harm, hrun, hnot⟩ := h.waiting hw
    refine ⟨c, t, harm, hrun, fun hnone => ?_⟩
    obtain ⟨hpast, k, hk⟩ := hnot hnone
    refine ⟨hpast, ?_⟩
    have hother : ∀ k, k ≠ i → (s.expiries k).OnItsWay s.armings →
        ∃ k, ((s.setExpiry i pc).expiries k).OnItsWay s.armings := by
      intro k hki hk
      refine ⟨k, ?_⟩
      simpa only [DwSys.setExpiry, Function.update_of_ne hki] using hk
    by_cases hki : k = i
    · subst hki
      rcases hpc hw hnone ⟨c, t, harm, hpast⟩ hk with hpc | ⟨k', hne, hk'⟩
      · exact ⟨k, by simpa only [DwSys.setExpiry, Function.update_self] using hpc⟩
      · exact hother k' hne hk'
    · exact hother k hki hk
  caller := callerPeriod_same h.caller rfl rfl le_rfl

/-- A step by anybody else after which the item is not armed. -/
theorem not_armed (h : DwHope s) {st : DwState} {o : Option DwAgent} (htok : DwTok s st o)
    (hst : st ≠ .stopping) (hholder : s'.holder = s.holder) (htimer : s'.timer = s.timer)
    (harm : s'.arming = s.arming) (hclock : s'.clock = s.clock)
    (hdead : decodeState s'.word ≠ some .armed) : DwHope s' where
  waiting hw := by
    rcases hw with ⟨harmed, -⟩ | hf
    · exact absurd harmed hdead
    · rw [hholder] at hf
      exact absurd (stopping_of_failing htok hf) hst
  caller := by
    rw [hholder]
    exact callerPeriod_same h.caller (by rw [htimer]) harm hclock.ge

/-- The callback's guard lets through an arming whose delay has passed. -/
theorem guard_passes {started delay : BitVec 64} {raw : BitVec 32} (hclock : s.clock < 2 ^ 63)
    (htimes : DwTimes s) (hl : s.Live) {i : Nat}
    (hi : s.expiries i = .readClock raw s.armings started delay)
    (hpast : ∃ c t, s.arming = some (c, t) ∧ (t : Int) + c.delay ≤ s.clock) :
    ¬ BitVec.ofNat 64 s.clock - started < delay := by
  have hread := htimes.expiry i
  rw [hi] at hread
  obtain ⟨rfl, rfl⟩ := hread.2 rfl hl
  obtain ⟨c, t, harm, harms, hold⟩ := htimes.arming hl
  obtain ⟨c', t', harm', hle⟩ := hpast
  rw [harm] at harm'
  obtain ⟨rfl, rfl⟩ := Prod.mk.inj (Option.some.inj harm')
  rw [hold.start_eq, hold.delay_eq, DwTimes.guard_iff harms.now hclock harms.pos harms.lt]
  exact not_lt.mpr hle

theorem stepExpiry {st : DwState} {o : Option DwAgent} {i : Nat} {result : Option ErrorCode}
    (hclock : s.clock < 2 ^ 63) (htok : DwTok s st o) (htimes : DwTimes s)
    (hunseen : StopsUnseen s (.expiry i result)) (h : DwHope s)
    (hs : s.stepExpiry i result = some s') : DwHope s' := by
  have hraw := htok.expiry i
  -- outside a failing stop the item that waits is armed
  have harmed_of : s.Waiting → ¬ s.holder.FailingStop → st = .armed := by
    rintro (⟨harmed, -⟩ | hf) hnf
    · rw [htok.decode] at harmed
      exact Option.some.inj harmed
    · exact absurd hf hnf
  have hstate : (s.expiries i).token ≠ none → st = .queued := fun hne =>
    ((htok.agent (.expiry i) hne).1).symm
  unfold DwSys.stepExpiry at hs
  generalize hc : s.expiries i = here at hs
  cases here with
  | absent => cases hs
  | entered =>
      dsimp only at hs
      split at hs
      · cases hs
        exact h.moveExpiry i fun _ _ _ _ => Or.inl rfl
      · rename_i hnot
        cases hs
        refine h.moveExpiry i fun hw hnone _ _ => ?_
        by_cases hf : s.holder.FailingStop
        · exact Or.inr ((hunseen hf (by rw [hc]; trivial)).resolve_left fun hdue => hdue hnone)
        · exact absurd (by rw [htok.decode, harmed_of hw hf]) hnot
  | readStartHigh raw loaded | readStartLow raw loaded startHigh
  | readDelayHigh raw loaded started | readDelayLow raw loaded started delayHigh =>
      cases hs
      exact h.moveExpiry i fun _ _ _ hway => Or.inl (by rw [hc] at hway; exact hway)
  | readClock raw loaded started delay =>
      dsimp only at hs
      split at hs
      · rename_i hguard
        cases hs
        refine h.moveExpiry i fun hw _ hpast hway => ?_
        rw [hc] at hway
        obtain rfl : loaded = s.armings := hway
        exact absurd hguard (guard_passes hclock htimes (live_of_waiting htok hw) hc hpast)
      · cases hs
        exact h.moveExpiry i fun _ _ _ hway => Or.inl (by rw [hc] at hway; exact hway)
  | cas raw loaded now =>
      rw [hc] at hraw
      obtain rfl : raw = dwWord loaded .armed := hraw
      dsimp only at hs
      split at hs
      · rename_i heq
        cases hs
        obtain ⟨rfl, -⟩ := dwWord_inj.mp (htok.word.symm.trans heq)
        refine h.not_armed htok (by decide) rfl rfl rfl rfl ?_
        show decodeState (withState _ .queued) ≠ some .armed
        rw [decodeState_withState]
        decide
      · rename_i hne
        cases hs
        refine h.moveExpiry i fun hw hnone _ hway => ?_
        rw [hc] at hway
        obtain rfl : loaded = s.armings := hway
        by_cases hf : s.holder.FailingStop
        · exact Or.inr ((hunseen hf (by rw [hc]; trivial)).resolve_left fun hdue => hdue hnone)
        · exact absurd (by rw [htok.word, harmed_of hw hf]) hne
  | submit id loaded current =>
      rw [hc] at hstate
      have hst := hstate (Option.some_ne_none _)
      have hdead : decodeState s.word ≠ some .armed := by
        rw [htok.decode, hst]
        decide
      dsimp only at hs
      split at hs
      · cases hs
        exact h.not_armed htok (by rw [hst]; decide) rfl rfl rfl rfl hdead
      · cases hs
        exact h.not_armed htok (by rw [hst]; decide) rfl rfl rfl rfl hdead
  | failLoad id =>
      cases hs
      exact h.moveExpiry i fun _ _ _ hway => by rw [hc] at hway; exact False.elim hway
  | failStore id raw =>
      rw [hc] at hstate
      have hst := hstate (Option.some_ne_none _)
      cases hs
      refine h.not_armed htok (by rw [hst]; decide) rfl rfl rfl rfl ?_
      show decodeState (withState raw .idle) ≠ some .armed
      rw [decodeState_withState]
      decide

theorem stepWorker {j : Nat} (h : DwHope s) (hs : s.stepWorker j = some s') : DwHope s' := by
  have hdead : ∀ {raw : BitVec 32} {st : DwState}, st ≠ .armed →
      decodeState (withState raw st) = some .armed → decodeState s.word = some .armed := by
    intro raw st hst harmed
    rw [decodeState_withState] at harmed
    exact absurd (Option.some.inj harmed) hst
  unfold DwSys.stepWorker at hs
  cases hc : s.workers j with
  | idle => rw [hc] at hs; cases hs
  | entry id | doneLoad id =>
      rw [hc] at hs
      dsimp only at hs
      split at hs
      · cases hs
        exact h.others rfl rfl rfl rfl le_rfl rfl fun ha => ha
      · cases hs
        exact h.others rfl rfl rfl rfl le_rfl rfl fun ha => ha
  | cas id raw | doneCas id raw =>
      rw [hc] at hs
      dsimp only at hs
      split at hs
      · cases hs
        exact h.others rfl rfl rfl rfl le_rfl rfl (hdead (by decide))
      · cases hs
        exact h.others rfl rfl rfl rfl le_rfl rfl fun ha => ha
  | callback id =>
      rw [hc] at hs
      cases hs
      exact h.others rfl rfl rfl rfl le_rfl rfl fun ha => ha

/-- The timer fires: its callback is on its way. -/
theorem fires (h : DwHope s) {due : Nat} (hdue : s.timer.due = some due) (hle : due ≤ s.clock) :
    DwHope ({ s with
      timer := { s.timer with due := none }
      nextExpiry := s.nextExpiry + 1 }.setExpiry s.nextExpiry .entered) where
  waiting hw := by
    obtain ⟨c, t, harm, hrun, -⟩ := h.waiting hw
    refine ⟨c, t, harm, fun due' hdue' => (by cases hdue'), fun _ => ⟨?_, s.nextExpiry, ?_⟩⟩
    · exact (hrun due hdue).trans (by exact_mod_cast hle)
    · simp only [DwSys.setExpiry, Function.update_self]
      trivial
  caller := callerPeriod_same h.caller rfl rfl le_rfl

end DwHope

/-! ### Whole runs -/

/-- What an armed item's timer needs: it starts, is not programmed for less than
the delay, and a failing `stop()` goes unseen. -/
def ArmingAssumptions (s : DwSys) (a : DwAct) : Prop :=
  TimerStarts s a ∧ TimerNotEarly s a ∧ StopsUnseen s a

/-- Every step of the system leaves a waiting item some hope. -/
theorem DwHope.step {s s' : DwSys} {a : DwAct} (hbase : DwBase s) (h : DwHope s)
    (hok : ArmingAssumptions s a) (hs : s.step a = some s') : DwHope s' := by
  obtain ⟨st, o, htok⟩ := hbase.tok
  obtain ⟨hstarts, hperiod, hunseen⟩ := hok
  cases a with
  | call op began =>
      simp only [DwSys.step] at hs
      split at hs
      · rename_i hc
        split at hs
        · cases hs
          exact h.keep (by simp [hc]) rfl rfl rfl rfl rfl rfl (fun hf => absurd hf id) trivial
        · cases hs
      · cases hs
  | caller result period =>
      simp only [DwSys.step] at hs
      split at hs
      · cases hs
      · refine DwHope.stepCaller htok hbase.times (fun c hc => ?_) hperiod h hs
        simpa only [TimerStarts, hc, DwCaller.Starts] using hstarts
  | fire =>
      simp only [DwSys.step] at hs
      split at hs
      · cases hs
      · rename_i due hdue
        split at hs
        · rename_i hle
          cases hs
          exact h.fires hdue hle
        · cases hs
  | expiry i result =>
      simp only [DwSys.step] at hs
      split at hs
      · cases hs
      · exact DwHope.stepExpiry hbase.clock htok hbase.times hunseen h hs
  | dequeue j =>
      simp only [DwSys.step] at hs
      split at hs
      · cases hs
        exact h.others rfl rfl rfl rfl le_rfl rfl fun ha => ha
      · cases hs
  | worker j => exact h.stepWorker hs
  | tick ms =>
      simp only [DwSys.step] at hs
      split at hs
      · cases hs
        exact h.others rfl rfl rfl rfl (Nat.le_add_right _ _) rfl fun ha => ha
      · cases hs
  | cancelAll =>
      cases hs
      exact h.others rfl rfl rfl rfl le_rfl rfl fun ha => ha

theorem DwHope.fresh (clock : Nat) : DwHope (DwSys.fresh clock) := by
  refine ⟨?_, trivial⟩
  rintro (⟨harmed, -⟩ | hf)
  · have hidle : decodeState (DwSys.fresh clock).word = some .idle := by
      show decodeState (BitVec.ofNat 32 DwState.idle.code) = some .idle
      decide
    rw [hidle] at harmed
    cases harmed
  · exact absurd hf id

theorem DwHope.reachable {clock : Nat} (hclock : clock < 2 ^ 63) {s : DwSys}
    (hs : (dwMachine clock).ReachableBy ArmingAssumptions s) : DwHope s :=
  Machine.ReachableBy.invariant (DwHope.fresh clock)
    (fun _ _ _ hr h hok hstep =>
      h.step (DwBase.reachable hclock (fun _ _ hok => hok.1) hr) hok hstep) hs

/-! ### An expiry that `on_timer` accepts -/

/-- The callback's own steps, with nobody interfering, take the item to `queued`. -/
def DwSys.Accepts (s : DwSys) (i : Nat) : Prop :=
  ∃ n s', (dwMachine s.clock).run s (List.replicate n (.expiry i none)) = some s' ∧
    decodeState s'.word = some .queued

/-- How many steps a callback is away from its compare-exchange. -/
def DwExpiry.rank : DwExpiry → Nat
  | .entered => 6
  | .readStartHigh _ _ => 5
  | .readStartLow _ _ _ => 4
  | .readDelayHigh _ _ _ => 3
  | .readDelayLow _ _ _ _ => 2
  | .readClock _ _ _ _ => 1
  | _ => 0

theorem DwSys.Accepts.cons {s : DwSys} {i : Nat} {pc : DwExpiry}
    (hs : s.step (.expiry i none) = some (s.setExpiry i pc)) (h : (s.setExpiry i pc).Accepts i) :
    s.Accepts i := by
  obtain ⟨n, s', hrun, hq⟩ := h
  refine ⟨n + 1, s', ?_, hq⟩
  rw [List.replicate_succ, Machine.run]
  show (s.step (.expiry i none)).bind _ = some s'
  rw [hs]
  exact hrun

/-- A callback that is on its way once the delay has passed is accepted. -/
theorem DwSys.accepts_of_onItsWay {i : Nat} :
    ∀ (n : Nat) {s : DwSys}, (s.expiries i).rank = n → DwBase s →
      decodeState s.word = some .armed → (s.expiries i).OnItsWay s.armings →
      (∃ c t, s.arming = some (c, t) ∧ (t : Int) + c.delay ≤ s.clock) → s.Accepts i := by
  intro n
  induction n with
  | zero =>
      intro s hrank hbase harmed hway _
      obtain ⟨st, o, htok⟩ := hbase.tok
      have hraw := htok.expiry i
      cases hc : s.expiries i with
      | cas raw loaded now =>
          rw [hc] at hway hraw
          obtain rfl : loaded = s.armings := hway
          obtain rfl : raw = dwWord s.armings .armed := hraw
          rw [htok.decode] at harmed
          cases harmed
          have hs : s.step (.expiry i none) = some
              ({ s with word := withState (dwWord s.armings .armed) .queued }.setExpiry i
                (.submit (s.arming.elim 0 fun a => a.1.id) s.armings s.armings)) := by
            simp only [DwSys.step, DwSys.stepExpiry, hc, if_pos htok.word]
            rfl
          have hrun : (dwMachine s.clock).run s (List.replicate 1 (.expiry i none)) = some
              ({ s with word := withState (dwWord s.armings .armed) .queued }.setExpiry i
                (.submit (s.arming.elim 0 fun a => a.1.id) s.armings s.armings)) := by
            show (s.step (.expiry i none)).bind some = _
            rw [hs, Option.bind_some]
          exact ⟨1, _, hrun, decodeState_withState _ _⟩
      | absent | submit id loaded current | failLoad id | failStore id raw =>
          rw [hc] at hway
          exact False.elim hway
      | _ => rw [hc] at hrank; cases hrank
  | succ n ih =>
      intro s hrank hbase harmed hway hpast
      obtain ⟨st, o, htok⟩ := hbase.tok
      -- any step that moves the callback one point on
      have hmove : ∀ pc : DwExpiry, s.step (.expiry i none) = some (s.setExpiry i pc) →
          pc.rank = n → pc.OnItsWay s.armings → s.Accepts i := by
        intro pc hs hpc hway'
        have hi : (s.setExpiry i pc).expiries i = pc := by simp [DwSys.setExpiry]
        exact .cons hs (ih (by rw [hi]; exact hpc) (hbase.step (a := .expiry i none) trivial hs)
          harmed (by rw [hi]; exact hway') hpast)
      cases hc : s.expiries i with
      | entered =>
          rw [hc] at hrank
          refine hmove (.readStartHigh s.word s.armings) ?_ (Nat.succ.inj hrank) rfl
          simp only [DwSys.step, DwSys.stepExpiry, hc, harmed]
          rfl
      | readStartHigh raw loaded =>
          rw [hc] at hrank hway
          refine hmove (.readStartLow raw loaded s.startHigh) ?_ (Nat.succ.inj hrank) hway
          simp only [DwSys.step, DwSys.stepExpiry, hc]
          rfl
      | readStartLow raw loaded startHigh =>
          rw [hc] at hrank hway
          refine hmove (.readDelayHigh raw loaded (loadTime s.startLow startHigh)) ?_
            (Nat.succ.inj hrank) hway
          simp only [DwSys.step, DwSys.stepExpiry, hc]
          rfl
      | readDelayHigh raw loaded started =>
          rw [hc] at hrank hway
          refine hmove (.readDelayLow raw loaded started s.delayHigh) ?_ (Nat.succ.inj hrank) hway
          simp only [DwSys.step, DwSys.stepExpiry, hc]
          rfl
      | readDelayLow raw loaded started delayHigh =>
          rw [hc] at hrank hway
          refine hmove (.readClock raw loaded started (loadTime s.delayLow delayHigh)) ?_
            (Nat.succ.inj hrank) hway
          simp only [DwSys.step, DwSys.stepExpiry, hc]
          rfl
      | readClock raw loaded started delay =>
          rw [hc] at hrank hway
          obtain rfl : loaded = s.armings := hway
          refine hmove (.cas raw s.armings s.clock) ?_ (Nat.succ.inj hrank) rfl
          have hguard := DwHope.guard_passes hbase.clock hbase.times (Or.inl harmed) hc hpast
          simp only [DwSys.step, DwSys.stepExpiry, hc, if_neg hguard]
          rfl
      | absent | cas raw loaded now | submit id loaded current | failLoad id | failStore id raw =>
          rw [hc] at hrank
          cases hrank

/-- The timer runs, and whenever it comes due the callback it starts is one that
`on_timer` accepts. -/
def DwSys.TimerDelivers (s : DwSys) : Prop :=
  ∃ due, s.timer.due = some due ∧ ∀ ms, due ≤ s.clock + ms → s.clock + ms < 2 ^ 63 →
    ∃ s', { s with clock := s.clock + ms }.step .fire = some s' ∧ s'.Accepts s.nextExpiry

theorem DwSys.timerDelivers_of_hope {s : DwSys} (hbase : DwBase s)
    (harmed : decodeState s.word = some .armed) {due : Nat} (hdue : s.timer.due = some due)
    (hpast : ∃ c t, s.arming = some (c, t) ∧ (t : Int) + c.delay ≤ due) : s.TimerDelivers := by
  obtain ⟨c, t, harm, hle⟩ := hpast
  refine ⟨due, hdue, fun ms hms hlt => ?_⟩
  -- time passes, then the timer fires
  have htick : s.step (.tick ms) = some { s with clock := s.clock + ms } := if_pos hlt
  have hfire : { s with clock := s.clock + ms }.step .fire = some
      ({ s with
        clock := s.clock + ms
        timer := { s.timer with due := none }
        nextExpiry := s.nextExpiry + 1 }.setExpiry s.nextExpiry .entered) := by
    simp only [DwSys.step, hdue, if_pos hms]
  have hbase' := (hbase.step (a := .tick ms) trivial htick).step (a := .fire) trivial hfire
  have hpc : ({ s with
      clock := s.clock + ms
      timer := { s.timer with due := none }
      nextExpiry := s.nextExpiry + 1 }.setExpiry s.nextExpiry .entered).expiries s.nextExpiry =
        .entered := by
    simp [DwSys.setExpiry]
  refine ⟨_, hfire, DwSys.accepts_of_onItsWay 6 (by rw [hpc]; rfl) hbase' harmed
    (by rw [hpc]; trivial) ⟨c, t, harm, ?_⟩⟩
  show (t : Int) + c.delay ≤ ((s.clock + ms : Nat) : Int)
  exact hle.trans (by exact_mod_cast hms)

/-! ### No arming is lost -/

/-- In every run in which the timer starts, is not programmed for less than the
delay, and no callback that is the last hope of the arming looks at `state_`
while a failing `stop()` has it in `stopping`: whenever the item is armed and
the lock is free, the timer will deliver an expiry that `on_timer` accepts, or
has started a callback that `on_timer` is about to accept. -/
theorem delayableWork_arming_delivered {clock : Nat} (hclock : clock < 2 ^ 63) {s : DwSys}
    (hs : (dwMachine clock).ReachableBy ArmingAssumptions s)
    (harmed : decodeState s.word = some .armed) (hfree : s.holder = .free) :
    s.TimerDelivers ∨ ∃ i, s.Accepts i := by
  have hbase := DwBase.reachable hclock (fun _ _ hok => hok.1) hs
  obtain ⟨c, t, harm, hrun, hnot⟩ := (DwHope.reachable hclock hs).waiting
    (Or.inl ⟨harmed, by simp [hfree]⟩)
  cases hdue : s.timer.due with
  | some due =>
      exact Or.inl (DwSys.timerDelivers_of_hope hbase harmed hdue ⟨c, t, harm, hrun due hdue⟩)
  | none =>
      obtain ⟨hpast, i, hi⟩ := hnot hdue
      exact Or.inr ⟨i, DwSys.accepts_of_onItsWay _ rfl hbase harmed hi ⟨c, t, harm, hpast⟩⟩

/-- Nobody holds `mtx_`. -/
def DwCaller.isFree : DwCaller → Bool
  | .free => true
  | _ => false

theorem DwCaller.eq_free {c : DwCaller} (h : c.isFree = true) : c = .free := by
  cases c with
  | free => rfl
  | _ => cases h

/-- The callback is not there. -/
def DwExpiry.isAbsent : DwExpiry → Bool
  | .absent => true
  | _ => false

theorem DwExpiry.eq_absent {pc : DwExpiry} (h : pc.isAbsent = true) : pc = .absent := by
  cases pc with
  | absent => rfl
  | _ => cases h

/-- The schedule that arms the item with 5 ms of delay at time 0. -/
def armFor5 : List DwAct := DwAct.call (.schedule 5) 0 :: List.replicate 11 (DwAct.caller none 5)

/-- Right after `schedule` returned. -/
theorem delayableWork_arming_delivered_scheduled :
    ∃ s : DwSys, (dwMachine 0).ReachableBy ArmingAssumptions s ∧
      decodeState s.word = some .armed ∧ (s.TimerDelivers ∨ ∃ i, s.Accepts i) := by
  have hquiet : (dwMachine 0).RunOk
      (fun s a => TimerStarts s a ∧ TimerNotEarly s a ∧ ¬ s.holder.FailingStop)
      (DwSys.fresh 0) armFor5 := by
    decide +kernel
  have hok : (dwMachine 0).RunOk ArmingAssumptions (DwSys.fresh 0) armFor5 := by
    refine hquiet.mono fun s a h => ⟨h.1, h.2.1, ?_⟩
    cases a with
    | expiry i result => exact fun hf => absurd hf h.2.2
    | _ => trivial
  have hview : ((dwMachine 0).run (DwSys.fresh 0) armFor5).map
      (fun s => (decodeState s.word, s.holder.isFree)) = some (some .armed, true) := by
    decide +kernel
  obtain ⟨s, hrun, hres⟩ := Option.map_eq_some_iff.mp hview
  obtain ⟨harmed, hfree⟩ := Prod.mk.inj hres
  have hs := Machine.ReachableBy.of_run .init hok hrun
  exact ⟨s, hs, harmed, delayableWork_arming_delivered (by decide) hs harmed
    (DwCaller.eq_free hfree)⟩

/-- The timer is not running and no callback is there: nothing will come. -/
theorem DwSys.not_delivered {s : DwSys} (harmed : decodeState s.word = some .armed)
    (hdue : s.timer.due = none) (habsent : ∀ i, s.expiries i = .absent) :
    ¬ (s.TimerDelivers ∨ ∃ i, s.Accepts i) := by
  rintro (⟨due, hsome, -⟩ | ⟨i, n, s', hrun, hq⟩)
  · rw [hdue] at hsome
    cases hsome
  · cases n with
    | zero =>
        obtain rfl : s = s' := Option.some.inj hrun
        rw [harmed] at hq
        cases hq
    | succ n =>
        rw [List.replicate_succ, Machine.run] at hrun
        have hnone : (dwMachine s.clock).step s (.expiry i none) = none := by
          show s.step (.expiry i none) = none
          simp only [DwSys.step, DwSys.stepExpiry, habsent i]
          rfl
        rw [hnone] at hrun
        cases hrun

/-- `schedule(5ms)`; just as the delay passes, `reschedule(10ms)` takes the item
to `stopping`, the timer fires, its callback sees `stopping` and returns, and
`stop()` fails: `armed` is put back with a dead timer. -/
theorem delayableWork_arming_lost :
    ∃ s : DwSys, (dwMachine 0).ReachableBy (fun s a => TimerStarts s a ∧ TimerNotEarly s a) s ∧
      decodeState s.word = some .armed ∧ s.holder = .free ∧
      ¬ (s.TimerDelivers ∨ ∃ i, s.Accepts i) := by
  let schedule : List DwAct :=
    armFor5 ++ ([.tick 5, .call (.reschedule 10) 5, .caller none 0, .caller none 0,
      .caller (some .permissionDenied) 0, .fire, .expiry 0 none, .caller none 0, .caller none 0,
      .caller none 0] : List DwAct)
  have hok : (dwMachine 0).RunOk (fun s a => TimerStarts s a ∧ TimerNotEarly s a)
      (DwSys.fresh 0) schedule := by
    decide +kernel
  have hview : ((dwMachine 0).run (DwSys.fresh 0) schedule).map (fun s =>
      (decodeState s.word, s.holder.isFree, s.timer.due, s.nextExpiry, (s.expiries 0).isAbsent)) =
        some (some .armed, true, none, 1, true) := by
    decide +kernel
  obtain ⟨s, hrun, hres⟩ := Option.map_eq_some_iff.mp hview
  simp only [Prod.mk.injEq] at hres
  obtain ⟨harmed, hfree, hdue, hnext, hgone⟩ := hres
  have hs := Machine.ReachableBy.of_run .init hok hrun
  have hbase := DwBase.reachable (by decide) (fun _ _ hok => hok.1) hs
  refine ⟨s, hs, harmed, DwCaller.eq_free hfree, DwSys.not_delivered harmed hdue fun i => ?_⟩
  cases i with
  | zero => exact DwExpiry.eq_absent hgone
  | succ i => exact hbase.callbacks.absent _ (by rw [hnext]; exact Nat.le_add_left 1 i)

end MicrOsal
