import MicrOsal.DelayableWork.Tokens

/-!
# MicrOsal.DelayableWork.Times

What the split timestamps say while an arming lasts.

From the store of `armed` until the state leaves `armed` and `stopping`, nobody
writes the four halves: `arm_locked` writes them only after it has seen `idle`,
and bumps the generation before the state is `armed` again. So a timer callback
that still sees its own arming at the compare-exchange has read the timestamps
of exactly that arming, however its loads were interleaved.
-/

namespace MicrOsal

/-- The current arming lasts: the item is armed, or a caller is trying to stop
its timer. -/
def DwSys.Live (s : DwSys) : Prop :=
  decodeState s.word = some .armed ∨ decodeState s.word = some .stopping

/-- The four halves hold these timestamps. -/
structure HoldsTimes (s : DwSys) (now : Nat) (delay : Int) : Prop where
  startLow : s.startLow = lowHalf (BitVec.ofNat 64 now)
  startHigh : s.startHigh = highHalf (BitVec.ofNat 64 now)
  delayLow : s.delayLow = lowHalf (BitVec.ofInt 64 delay)
  delayHigh : s.delayHigh = highHalf (BitVec.ofInt 64 delay)

theorem HoldsTimes.start_eq {s : DwSys} {now : Nat} {delay : Int} (h : HoldsTimes s now delay) :
    loadTime s.startLow s.startHigh = BitVec.ofNat 64 now := by
  rw [h.startLow, h.startHigh]
  exact joinHalves_halves (h := 32) _

theorem HoldsTimes.delay_eq {s : DwSys} {now : Nat} {delay : Int} (h : HoldsTimes s now delay) :
    loadTime s.delayLow s.delayHigh = BitVec.ofInt 64 delay := by
  rw [h.delayLow, h.delayHigh]
  exact joinHalves_halves (h := 32) _

/-- A call made in the past, with a 64-bit delay. -/
def DwCall.Ready (c : DwCall) (clock : Nat) : Prop := c.began ≤ clock ∧ c.delay < 2 ^ 63

/-- A call that read the clock in `arm_locked`. -/
structure DwCall.Arms (c : DwCall) (now clock : Nat) : Prop where
  pos : 0 < c.delay
  lt : c.delay < 2 ^ 63
  began : c.began ≤ now
  now : now ≤ clock

/-- What the lock holder has read and stored at each point. -/
def CallerTimes (s : DwSys) : DwCaller → Prop
  | .free => True
  | .load c | .casLoad c | .cas c _ | .stop c _ | .store c _ | .storeRaw c _ _ | .begin c
  | .armStart c | .submit c => c.Ready s.clock
  | .armNow c => c.Ready s.clock ∧ 0 < c.delay
  | .armPeriod c now | .armStartLow c now => c.Arms now s.clock
  | .armStartHigh c now =>
    c.Arms now s.clock ∧ s.startLow = lowHalf (BitVec.ofNat 64 now)
  | .armDelayLow c now =>
    c.Arms now s.clock ∧ s.startLow = lowHalf (BitVec.ofNat 64 now) ∧
      s.startHigh = highHalf (BitVec.ofNat 64 now)
  | .armDelayHigh c now =>
    c.Arms now s.clock ∧ s.startLow = lowHalf (BitVec.ofNat 64 now) ∧
      s.startHigh = highHalf (BitVec.ofNat 64 now) ∧
      s.delayLow = lowHalf (BitVec.ofInt 64 c.delay)
  | .armLoad c now | .armStore c now _ => c.Arms now s.clock ∧ HoldsTimes s now c.delay

/-- What a timer callback read is what stands there, as long as the arming it
read still lasts. -/
def ExpiryTimes (s : DwSys) : DwExpiry → Prop
  | .readStartHigh _ loaded => loaded ≤ s.armings
  | .readStartLow _ loaded startHigh =>
    loaded ≤ s.armings ∧ (loaded = s.armings → s.Live → startHigh = s.startHigh)
  | .readDelayHigh _ loaded started =>
    loaded ≤ s.armings ∧
      (loaded = s.armings → s.Live → started = loadTime s.startLow s.startHigh)
  | .readDelayLow _ loaded started delayHigh =>
    loaded ≤ s.armings ∧
      (loaded = s.armings → s.Live →
        started = loadTime s.startLow s.startHigh ∧ delayHigh = s.delayHigh)
  | .readClock _ loaded started delay =>
    loaded ≤ s.armings ∧
      (loaded = s.armings → s.Live →
        started = loadTime s.startLow s.startHigh ∧ delay = loadTime s.delayLow s.delayHigh)
  | .cas _ loaded now =>
    loaded ≤ s.armings ∧ now ≤ s.clock ∧
      (loaded = s.armings → s.Live →
        ∃ c t, s.arming = some (c, t) ∧ (t : Int) + c.delay ≤ now)
  | _ => True

/-- The timestamp invariant. -/
structure DwTimes (s : DwSys) : Prop where
  arming : s.Live → ∃ c now, s.arming = some (c, now) ∧ c.Arms now s.clock ∧
    HoldsTimes s now c.delay
  caller : CallerTimes s s.holder
  expiry : ∀ i, ExpiryTimes s (s.expiries i)

/-- The timestamps, the arming and the clock of `s'` are those of `s`, or later. -/
structure SameTimes (s s' : DwSys) : Prop where
  startLow : s'.startLow = s.startLow
  startHigh : s'.startHigh = s.startHigh
  delayLow : s'.delayLow = s.delayLow
  delayHigh : s'.delayHigh = s.delayHigh
  armings : s'.armings = s.armings
  arming : s'.arming = s.arming
  clock : s.clock ≤ s'.clock

namespace DwTimes

variable {s s' : DwSys}

theorem holds_same {now : Nat} {delay : Int} (h : HoldsTimes s now delay) (hf : SameTimes s s') :
    HoldsTimes s' now delay :=
  ⟨hf.startLow.trans h.startLow, hf.startHigh.trans h.startHigh, hf.delayLow.trans h.delayLow,
    hf.delayHigh.trans h.delayHigh⟩

theorem arms_mono {c : DwCall} {now clock clock' : Nat} (h : c.Arms now clock)
    (hle : clock ≤ clock') : c.Arms now clock' :=
  ⟨h.pos, h.lt, h.began, h.now.trans hle⟩

/-- What the lock holder has read and stored survives everybody else's steps. -/
theorem caller_same {c : DwCaller} (h : CallerTimes s c) (hf : SameTimes s s') :
    CallerTimes s' c := by
  cases c with
  | free => trivial
  | armNow c => exact ⟨⟨h.1.1.trans hf.clock, h.1.2⟩, h.2⟩
  | armPeriod c now | armStartLow c now => exact arms_mono h hf.clock
  | armStartHigh c now => exact ⟨arms_mono h.1 hf.clock, hf.startLow.trans h.2⟩
  | armDelayLow c now =>
      exact ⟨arms_mono h.1 hf.clock, hf.startLow.trans h.2.1, hf.startHigh.trans h.2.2⟩
  | armDelayHigh c now =>
      exact ⟨arms_mono h.1 hf.clock, hf.startLow.trans h.2.1, hf.startHigh.trans h.2.2.1,
        hf.delayLow.trans h.2.2.2⟩
  | armLoad c now | armStore c now raw =>
      exact ⟨arms_mono h.1 hf.clock, holds_same h.2 hf⟩
  | _ => exact ⟨h.1.trans hf.clock, h.2⟩

/-- What a timer callback read stays right while the arming lasts. -/
theorem expiry_same {pc : DwExpiry} (h : ExpiryTimes s pc) (hf : SameTimes s s')
    (hlive : s'.Live → s.Live) : ExpiryTimes s' pc := by
  cases pc with
  | readStartHigh raw loaded =>
      simp only [ExpiryTimes, hf.armings] at h ⊢
      exact h
  | readStartLow raw loaded startHigh =>
      simp only [ExpiryTimes, hf.armings, hf.startHigh] at h ⊢
      exact ⟨h.1, fun hn hl => h.2 hn (hlive hl)⟩
  | readDelayHigh raw loaded started =>
      simp only [ExpiryTimes, hf.armings, hf.startLow, hf.startHigh] at h ⊢
      exact ⟨h.1, fun hn hl => h.2 hn (hlive hl)⟩
  | readDelayLow raw loaded started delayHigh =>
      simp only [ExpiryTimes, hf.armings, hf.startLow, hf.startHigh, hf.delayHigh] at h ⊢
      exact ⟨h.1, fun hn hl => h.2 hn (hlive hl)⟩
  | readClock raw loaded started delay =>
      simp only [ExpiryTimes, hf.armings, hf.startLow, hf.startHigh, hf.delayLow,
        hf.delayHigh] at h ⊢
      exact ⟨h.1, fun hn hl => h.2 hn (hlive hl)⟩
  | cas raw loaded now =>
      simp only [ExpiryTimes, hf.armings, hf.arming] at h ⊢
      exact ⟨h.1, h.2.1.trans hf.clock, fun hn hl => h.2.2 hn (hlive hl)⟩
  | _ => trivial

/-- A callback that is not looking at the current arming constrains nothing. -/
theorem expiry_stale {pc : DwExpiry} (h : ExpiryTimes s pc) (harm : s.armings ≤ s'.armings)
    (hclock : s.clock ≤ s'.clock) (hstale : s.armings < s'.armings ∨ ¬ s'.Live) :
    ExpiryTimes s' pc := by
  have hno : ∀ {loaded : Nat}, loaded ≤ s.armings → loaded = s'.armings → s'.Live → False := by
    intro loaded hle heq hlive
    rcases hstale with hlt | hdead
    · omega
    · exact hdead hlive
  cases pc with
  | readStartHigh raw loaded => exact h.trans harm
  | readStartLow raw loaded startHigh => exact ⟨h.1.trans harm, fun hn hl => (hno h.1 hn hl).elim⟩
  | readDelayHigh raw loaded started => exact ⟨h.1.trans harm, fun hn hl => (hno h.1 hn hl).elim⟩
  | readDelayLow raw loaded started delayHigh =>
      exact ⟨h.1.trans harm, fun hn hl => (hno h.1 hn hl).elim⟩
  | readClock raw loaded started delay =>
      exact ⟨h.1.trans harm, fun hn hl => (hno h.1 hn hl).elim⟩
  | cas raw loaded now =>
      exact ⟨h.1.trans harm, h.2.1.trans hclock, fun hn hl => (hno h.1 hn hl).elim⟩
  | _ => trivial

/-- A step that touches neither the timestamps nor the arming. -/
theorem same (h : DwTimes s) (hf : SameTimes s s') (hlive : s'.Live → s.Live)
    (hcaller : CallerTimes s' s'.holder) (hexp : ∀ i, ExpiryTimes s' (s'.expiries i)) :
    DwTimes s' where
  arming hl := by
    obtain ⟨c, now, harm, harms, hold⟩ := h.arming (hlive hl)
    exact ⟨c, now, hf.arming.trans harm, arms_mono harms hf.clock, holds_same hold hf⟩
  caller := hcaller
  expiry := hexp

/-- A step of the lock holder that touches neither. -/
theorem moveHolder (h : DwTimes s) (hf : SameTimes s s') (hlive : s'.Live → s.Live)
    (hexp : s'.expiries = s.expiries) (hcaller : CallerTimes s' s'.holder) : DwTimes s' :=
  h.same hf hlive hcaller fun i => by
    rw [hexp]
    exact expiry_same (h.expiry i) hf hlive

/-- A step of the lock holder that writes a timestamp, while nothing is armed. -/
theorem writes (h : DwTimes s) (hdead : ¬ s'.Live) (harm : s'.armings = s.armings)
    (hclock : s'.clock = s.clock) (hexp : s'.expiries = s.expiries)
    (hcaller : CallerTimes s' s'.holder) : DwTimes s' where
  arming hl := absurd hl hdead
  caller := hcaller
  expiry i := by
    rw [hexp]
    exact expiry_stale (h.expiry i) harm.ge hclock.ge (Or.inr hdead)

theorem live_withState {raw : BitVec 32} {st : DwState} (hw : s.word = withState raw st)
    (harmed : st ≠ .armed) (hstop : st ≠ .stopping) : ¬ s.Live := by
  rintro (hl | hl)
  · rw [hw, decodeState_withState] at hl
    exact harmed (Option.some.inj hl)
  · rw [hw, decodeState_withState] at hl
    exact hstop (Option.some.inj hl)

/-! ### The lock holder's steps -/

theorem returns (h : DwTimes s) (c : DwCall) (code : ErrorCode) : DwTimes (s.returns c code) :=
  h.moveHolder ⟨rfl, rfl, rfl, rfl, rfl, rfl, le_rfl⟩ id rfl trivial

theorem casFails (h : DwTimes s) (c : DwCall) (expected : Option DwState) :
    DwTimes (s.casFails c expected) := by
  unfold DwSys.casFails
  split
  · split
    · exact h.returns c _
    · exact h.returns c _
  · exact h.returns c _

theorem clearDispatchError (h : DwTimes s) : DwTimes s.clearDispatchError :=
  h.moveHolder ⟨rfl, rfl, rfl, rfl, rfl, rfl, le_rfl⟩ id rfl
    (caller_same h.caller ⟨rfl, rfl, rfl, rfl, rfl, rfl, le_rfl⟩)

theorem stepLoad (h : DwTimes s) {c : DwCall} (hc : c.Ready s.clock) : DwTimes (s.stepLoad c) := by
  unfold DwSys.stepLoad
  dsimp only
  split
  · split
    · exact h.moveHolder ⟨rfl, rfl, rfl, rfl, rfl, rfl, le_rfl⟩ id rfl hc
    · exact h.returns c _
  · split
    · exact h.returns c _
    · split
      · exact h.moveHolder ⟨rfl, rfl, rfl, rfl, rfl, rfl, le_rfl⟩ id rfl hc
      · exact h.moveHolder ⟨rfl, rfl, rfl, rfl, rfl, rfl, le_rfl⟩ id rfl hc
  · split
    · exact h.clearDispatchError.returns c _
    · exact h.moveHolder ⟨rfl, rfl, rfl, rfl, rfl, rfl, le_rfl⟩ id rfl hc

theorem storeRaw {st : DwState} {o : Option DwAgent} (htok : DwTok s st o) (h : DwTimes s)
    {c : DwCall} {next : DwNext} {raw : BitVec 32} (hc : s.holder = .storeRaw c next raw) :
    DwTimes ({ s with word := withState raw next.value }.afterStore c next) := by
  have hready := h.caller
  have hknows := htok.holder
  rw [hc] at hready hknows
  -- `armed` is stored only over `stopping`, so no arming begins here
  have hlive : { s with word := withState raw next.value }.Live → s.Live := by
    intro hl
    cases next with
    | restored code => exact Or.inr (by rw [htok.decode, hknows.1])
    | stopped => exact absurd hl (live_withState rfl (by decide) (by decide))
    | enqueue => exact absurd hl (live_withState rfl (by decide) (by decide))
    | failed code =>
        exact absurd hl (live_withState rfl (show DwState.idle ≠ .armed by decide)
          (show DwState.idle ≠ .stopping by decide))
  have h' : DwTimes { s with word := withState raw next.value } :=
    h.moveHolder ⟨rfl, rfl, rfl, rfl, rfl, rfl, le_rfl⟩ hlive rfl
      (caller_same h.caller ⟨rfl, rfl, rfl, rfl, rfl, rfl, le_rfl⟩)
  cases next with
  | stopped =>
      simp only [DwSys.afterStore]
      split
      · exact h'.clearDispatchError.returns c _
      · exact h'.moveHolder ⟨rfl, rfl, rfl, rfl, rfl, rfl, le_rfl⟩ id rfl hready
  | restored code => exact h'.returns c _
  | enqueue => exact h'.moveHolder ⟨rfl, rfl, rfl, rfl, rfl, rfl, le_rfl⟩ id rfl hready
  | failed code => exact h'.returns c _

theorem stepCaller {st : DwState} {o : Option DwAgent} {result : Option ErrorCode} {period : Nat}
    (htok : DwTok s st o) (h : DwTimes s) (hs : s.stepCaller result period = some s') :
    DwTimes s' := by
  have hcall := h.caller
  have hknows := htok.holder
  -- before the arming's own store nothing is armed
  have hdead : st = .idle → ¬ s.Live := by
    rintro rfl (hl | hl) <;> rw [htok.decode] at hl <;> cases hl
  unfold DwSys.stepCaller at hs
  cases hc : s.holder with
  | free => rw [hc] at hs; cases hs
  | load c =>
      rw [hc] at hs hcall
      cases hs
      exact h.stepLoad hcall
  | casLoad c =>
      rw [hc] at hs hcall
      dsimp only at hs
      split at hs
      · cases hs
        exact h.moveHolder ⟨rfl, rfl, rfl, rfl, rfl, rfl, le_rfl⟩ id rfl hcall
      · cases hs
        exact h.casFails c _
  | cas c raw =>
      rw [hc] at hs hcall hknows
      obtain ⟨n, rfl⟩ := hknows
      dsimp only at hs
      split at hs
      · rename_i heq
        cases hs
        exact h.moveHolder ⟨rfl, rfl, rfl, rfl, rfl, rfl, le_rfl⟩
          (fun _ => Or.inl (by rw [heq, decodeState_dwWord])) rfl hcall
      · cases hs
        exact h.casFails c _
  | stop c res =>
      rw [hc] at hs hcall
      cases res with
      | none =>
          cases hs
          exact h.moveHolder ⟨rfl, rfl, rfl, rfl, rfl, rfl, le_rfl⟩ id rfl hcall
      | some code =>
          cases hs
          exact h.moveHolder ⟨rfl, rfl, rfl, rfl, rfl, rfl, le_rfl⟩ id rfl hcall
  | store c next =>
      rw [hc] at hs hcall
      cases hs
      exact h.moveHolder ⟨rfl, rfl, rfl, rfl, rfl, rfl, le_rfl⟩ id rfl hcall
  | storeRaw c next raw =>
      rw [hc] at hs
      cases hs
      exact storeRaw htok h hc
  | begin c =>
      rw [hc] at hs hcall
      dsimp only at hs
      split at hs
      · cases hs
        exact h.clearDispatchError.moveHolder ⟨rfl, rfl, rfl, rfl, rfl, rfl, le_rfl⟩ id rfl hcall
      · rename_i hpos
        cases hs
        exact h.clearDispatchError.moveHolder ⟨rfl, rfl, rfl, rfl, rfl, rfl, le_rfl⟩ id rfl
          ⟨hcall, not_le.mp hpos⟩
  | armNow c =>
      rw [hc] at hs hcall
      cases hs
      exact h.moveHolder ⟨rfl, rfl, rfl, rfl, rfl, rfl, le_rfl⟩ id rfl
        ⟨hcall.2, hcall.1.2, hcall.1.1, le_rfl⟩
  | armPeriod c now =>
      rw [hc] at hs hcall
      dsimp only at hs
      split at hs
      · cases hs
        exact h.returns c _
      · cases hs
        exact h.moveHolder ⟨rfl, rfl, rfl, rfl, rfl, rfl, le_rfl⟩ id rfl hcall
  | armStartLow c now =>
      rw [hc] at hs hcall hknows
      cases hs
      exact h.writes (hdead hknows) rfl rfl rfl ⟨hcall, rfl⟩
  | armStartHigh c now =>
      rw [hc] at hs hcall hknows
      cases hs
      exact h.writes (hdead hknows) rfl rfl rfl ⟨hcall.1, hcall.2, rfl⟩
  | armDelayLow c now =>
      rw [hc] at hs hcall hknows
      cases hs
      exact h.writes (hdead hknows) rfl rfl rfl ⟨hcall.1, hcall.2.1, hcall.2.2, rfl⟩
  | armDelayHigh c now =>
      rw [hc] at hs hcall hknows
      cases hs
      exact h.writes (hdead hknows) rfl rfl rfl
        ⟨hcall.1, hcall.2.1, hcall.2.2.1, hcall.2.2.2, rfl⟩
  | armLoad c now =>
      rw [hc] at hs hcall
      cases hs
      exact h.moveHolder ⟨rfl, rfl, rfl, rfl, rfl, rfl, le_rfl⟩ id rfl
        ⟨hcall.1, hcall.2.1, hcall.2.2, hcall.2.3, hcall.2.4⟩
  | armStore c now raw =>
      rw [hc] at hs hcall
      obtain ⟨harms, hold⟩ := hcall
      cases hs
      refine ⟨fun _ => ⟨c, now, rfl, harms, ⟨hold.1, hold.2, hold.3, hold.4⟩⟩,
        ⟨harms.began.trans harms.now, harms.lt⟩, fun i => ?_⟩
      exact expiry_stale (h.expiry i) (Nat.le_succ _) le_rfl (Or.inl (Nat.lt_succ_self _))
  | armStart c =>
      rw [hc] at hs hcall
      dsimp only at hs
      split at hs
      · cases hs
        exact h.moveHolder ⟨rfl, rfl, rfl, rfl, rfl, rfl, le_rfl⟩ id rfl hcall
      · cases hs
        exact h.moveHolder ⟨rfl, rfl, rfl, rfl, rfl, rfl, le_rfl⟩ id rfl trivial
  | submit c =>
      rw [hc] at hs hcall
      dsimp only at hs
      split at hs
      · cases hs
        exact h.moveHolder ⟨rfl, rfl, rfl, rfl, rfl, rfl, le_rfl⟩ id rfl hcall
      · cases hs
        exact h.moveHolder ⟨rfl, rfl, rfl, rfl, rfl, rfl, le_rfl⟩ id rfl trivial

/-! ### The timer callbacks' steps -/

/-- A step of one timer callback. -/
theorem moveExpiry (h : DwTimes s) (hf : SameTimes s s') (hlive : s'.Live → s.Live)
    (hholder : s'.holder = s.holder) (i : Nat) {pc : DwExpiry}
    (hexp : s'.expiries = Function.update s.expiries i pc) (hpc : ExpiryTimes s' pc) :
    DwTimes s' := by
  refine h.same hf hlive ?_ fun k => ?_
  · rw [hholder]
    exact caller_same h.caller hf
  · rw [hexp]
    by_cases hk : k = i
    · subst hk
      simpa using hpc
    · simpa [hk] using expiry_same (h.expiry k) hf hlive

/-- The guard of `on_timer`, on the timestamps of one arming, lets through
exactly when the delay has passed. -/
theorem guard_iff {t clock : Nat} {delay : Int} (ht : t ≤ clock) (hclock : clock < 2 ^ 63)
    (hpos : 0 < delay) (hlt : delay < 2 ^ 63) :
    BitVec.ofNat 64 clock - BitVec.ofNat 64 t < BitVec.ofInt 64 delay ↔
      (clock : Int) < t + delay := by
  obtain ⟨d, rfl⟩ := Int.eq_ofNat_of_zero_le hpos.le
  have hd : d < 2 ^ 63 := by omega
  rw [BitVec.ofInt_natCast, elapsed_eq 64 ht, BitVec.lt_def, BitVec.toNat_ofNat,
    BitVec.toNat_ofNat, Nat.mod_eq_of_lt (by omega), Nat.mod_eq_of_lt (by omega)]
  omega

theorem stepExpiry {i : Nat} {result : Option ErrorCode} (hclock : s.clock < 2 ^ 63)
    (h : DwTimes s) (hs : s.stepExpiry i result = some s') : DwTimes s' := by
  have hexp := h.expiry i
  unfold DwSys.stepExpiry at hs
  generalize hc : s.expiries i = here at hs
  cases here with
  | absent => cases hs
  | entered =>
      dsimp only at hs
      split at hs
      · cases hs
        exact h.moveExpiry ⟨rfl, rfl, rfl, rfl, rfl, rfl, le_rfl⟩ id rfl i rfl
          (show s.armings ≤ s.armings from le_rfl)
      · cases hs
        exact h.moveExpiry ⟨rfl, rfl, rfl, rfl, rfl, rfl, le_rfl⟩ id rfl i rfl trivial
  | readStartHigh raw loaded =>
      rw [hc] at hexp
      cases hs
      exact h.moveExpiry ⟨rfl, rfl, rfl, rfl, rfl, rfl, le_rfl⟩ id rfl i rfl
        ⟨hexp, fun _ _ => rfl⟩
  | readStartLow raw loaded startHigh =>
      rw [hc] at hexp
      cases hs
      exact h.moveExpiry ⟨rfl, rfl, rfl, rfl, rfl, rfl, le_rfl⟩ id rfl i rfl
        ⟨hexp.1, fun hn hl => by rw [hexp.2 hn hl]; rfl⟩
  | readDelayHigh raw loaded started =>
      rw [hc] at hexp
      cases hs
      exact h.moveExpiry ⟨rfl, rfl, rfl, rfl, rfl, rfl, le_rfl⟩ id rfl i rfl
        ⟨hexp.1, fun hn hl => ⟨hexp.2 hn hl, rfl⟩⟩
  | readDelayLow raw loaded started delayHigh =>
      rw [hc] at hexp
      cases hs
      refine h.moveExpiry ⟨rfl, rfl, rfl, rfl, rfl, rfl, le_rfl⟩ id rfl i rfl
        ⟨hexp.1, fun hn hl => ?_⟩
      obtain ⟨hstarted, hhigh⟩ := hexp.2 hn hl
      exact ⟨hstarted, by rw [hhigh]; rfl⟩
  | readClock raw loaded started delay =>
      rw [hc] at hexp
      dsimp only at hs
      split at hs
      · cases hs
        exact h.moveExpiry ⟨rfl, rfl, rfl, rfl, rfl, rfl, le_rfl⟩ id rfl i rfl trivial
      · rename_i hguard
        cases hs
        refine h.moveExpiry ⟨rfl, rfl, rfl, rfl, rfl, rfl, le_rfl⟩ id rfl i rfl
          ⟨hexp.1, le_rfl, fun hn hl => ?_⟩
        obtain ⟨c, t, harm, harms, hold⟩ := h.arming hl
        obtain ⟨rfl, rfl⟩ := hexp.2 hn hl
        rw [hold.start_eq, hold.delay_eq, guard_iff harms.now hclock harms.pos harms.lt] at hguard
        exact ⟨c, t, harm, not_lt.mp hguard⟩
  | cas raw loaded now =>
      dsimp only at hs
      split at hs
      · cases hs
        exact h.moveExpiry ⟨rfl, rfl, rfl, rfl, rfl, rfl, le_rfl⟩
          (fun hl => absurd hl (live_withState rfl (by decide) (by decide))) rfl i rfl trivial
      · cases hs
        exact h.moveExpiry ⟨rfl, rfl, rfl, rfl, rfl, rfl, le_rfl⟩ id rfl i rfl trivial
  | submit id loaded current =>
      dsimp only at hs
      split at hs
      · cases hs
        exact h.moveExpiry ⟨rfl, rfl, rfl, rfl, rfl, rfl, le_rfl⟩ (fun hl => hl) rfl i rfl trivial
      · cases hs
        exact h.moveExpiry ⟨rfl, rfl, rfl, rfl, rfl, rfl, le_rfl⟩ (fun hl => hl) rfl i rfl trivial
  | failLoad id =>
      cases hs
      exact h.moveExpiry ⟨rfl, rfl, rfl, rfl, rfl, rfl, le_rfl⟩ (fun hl => hl) rfl i rfl trivial
  | failStore id raw =>
      cases hs
      exact h.moveExpiry ⟨rfl, rfl, rfl, rfl, rfl, rfl, le_rfl⟩
        (fun hl => absurd hl (live_withState rfl (by decide) (by decide))) rfl i rfl trivial

/-- A step that touches neither the holder nor the callbacks, and arms nothing. -/
theorem others (h : DwTimes s) (hf : SameTimes s s') (hlive : s'.Live → s.Live)
    (hholder : s'.holder = s.holder) (hexp : s'.expiries = s.expiries) : DwTimes s' :=
  h.moveHolder hf hlive hexp (by rw [hholder]; exact caller_same h.caller hf)

theorem stepWorker {j : Nat} (h : DwTimes s) (hs : s.stepWorker j = some s') : DwTimes s' := by
  unfold DwSys.stepWorker at hs
  cases hc : s.workers j with
  | idle => rw [hc] at hs; cases hs
  | entry id | doneLoad id =>
      rw [hc] at hs
      dsimp only at hs
      split at hs
      · cases hs
        exact h.others ⟨rfl, rfl, rfl, rfl, rfl, rfl, le_rfl⟩ (fun hl => hl) rfl rfl
      · cases hs
        exact h.others ⟨rfl, rfl, rfl, rfl, rfl, rfl, le_rfl⟩ (fun hl => hl) rfl rfl
  | cas id raw | doneCas id raw =>
      rw [hc] at hs
      dsimp only at hs
      split at hs
      · cases hs
        exact h.others ⟨rfl, rfl, rfl, rfl, rfl, rfl, le_rfl⟩
          (fun hl => absurd hl (live_withState rfl (by decide) (by decide))) rfl rfl
      · cases hs
        exact h.others ⟨rfl, rfl, rfl, rfl, rfl, rfl, le_rfl⟩ (fun hl => hl) rfl rfl
  | callback id =>
      rw [hc] at hs
      cases hs
      exact h.others ⟨rfl, rfl, rfl, rfl, rfl, rfl, le_rfl⟩ (fun hl => hl) rfl rfl

/-- Every step of the system keeps the timestamps in order. -/
theorem step {st : DwState} {o : Option DwAgent} {a : DwAct} (htok : DwTok s st o)
    (hclock : s.clock < 2 ^ 63) (h : DwTimes s) (hs : s.step a = some s') : DwTimes s' := by
  cases a with
  | call op began =>
      simp only [DwSys.step] at hs
      split at hs
      · split at hs
        · rename_i hready
          cases hs
          exact h.moveHolder ⟨rfl, rfl, rfl, rfl, rfl, rfl, le_rfl⟩ (fun hl => hl) rfl hready
        · cases hs
      · cases hs
  | caller result period =>
      simp only [DwSys.step] at hs
      split at hs
      · cases hs
      · exact stepCaller htok h hs
  | fire =>
      simp only [DwSys.step] at hs
      split at hs
      · cases hs
      · split at hs
        · cases hs
          exact h.moveExpiry ⟨rfl, rfl, rfl, rfl, rfl, rfl, le_rfl⟩ (fun hl => hl) rfl s.nextExpiry
            rfl trivial
        · cases hs
  | expiry i result =>
      simp only [DwSys.step] at hs
      split at hs
      · cases hs
      · exact stepExpiry hclock h hs
  | dequeue j =>
      simp only [DwSys.step] at hs
      split at hs
      · cases hs
        exact h.others ⟨rfl, rfl, rfl, rfl, rfl, rfl, le_rfl⟩ (fun hl => hl) rfl rfl
      · cases hs
  | worker j => exact stepWorker h hs
  | tick ms =>
      simp only [DwSys.step] at hs
      split at hs
      · cases hs
        exact h.others ⟨rfl, rfl, rfl, rfl, rfl, rfl, Nat.le_add_right _ _⟩ (fun hl => hl) rfl rfl
      · cases hs
  | cancelAll =>
      cases hs
      exact h.others ⟨rfl, rfl, rfl, rfl, rfl, rfl, le_rfl⟩ (fun hl => hl) rfl rfl

theorem fresh (clock : Nat) : DwTimes (DwSys.fresh clock) := by
  have hidle : decodeState (DwSys.fresh clock).word = some .idle := by
    show decodeState (BitVec.ofNat 32 DwState.idle.code) = some .idle
    decide
  refine ⟨fun hl => ?_, trivial, fun i => trivial⟩
  rcases hl with hl | hl <;> rw [hidle] at hl <;> cases hl

end DwTimes

/-! ### The clock -/

/-- What only time and the timer change. -/
structure SameClock (s s' : DwSys) : Prop where
  clock : s'.clock = s.clock
  nextExpiry : s'.nextExpiry = s.nextExpiry

theorem DwSys.casFails_sameClock (s : DwSys) (c : DwCall) (expected : Option DwState) :
    SameClock s (s.casFails c expected) ∧ (s.casFails c expected).expiries = s.expiries := by
  unfold DwSys.casFails
  split
  · split <;> exact ⟨⟨rfl, rfl⟩, rfl⟩
  · exact ⟨⟨rfl, rfl⟩, rfl⟩

theorem DwSys.stepLoad_sameClock (s : DwSys) (c : DwCall) :
    SameClock s (s.stepLoad c) ∧ (s.stepLoad c).expiries = s.expiries := by
  unfold DwSys.stepLoad
  dsimp only
  split
  · split <;> exact ⟨⟨rfl, rfl⟩, rfl⟩
  · split
    · exact ⟨⟨rfl, rfl⟩, rfl⟩
    · split <;> exact ⟨⟨rfl, rfl⟩, rfl⟩
  · split <;> exact ⟨⟨rfl, rfl⟩, rfl⟩

theorem DwSys.afterStore_sameClock (s : DwSys) (c : DwCall) (next : DwNext) :
    SameClock s (s.afterStore c next) ∧ (s.afterStore c next).expiries = s.expiries := by
  cases next with
  | stopped =>
      simp only [DwSys.afterStore]
      split <;> exact ⟨⟨rfl, rfl⟩, rfl⟩
  | _ => exact ⟨⟨rfl, rfl⟩, rfl⟩

theorem DwSys.stepCaller_sameClock {s s' : DwSys} {result : Option ErrorCode} {period : Nat}
    (hs : s.stepCaller result period = some s') : SameClock s s' ∧ s'.expiries = s.expiries := by
  unfold DwSys.stepCaller at hs
  cases hc : s.holder <;> rw [hc] at hs <;> dsimp only at hs
  case free => cases hs
  case load c => cases hs; exact s.stepLoad_sameClock c
  case casLoad c =>
    split at hs <;> cases hs <;> [exact ⟨⟨rfl, rfl⟩, rfl⟩; exact s.casFails_sameClock c _]
  case cas c raw =>
    split at hs <;> cases hs <;> [exact ⟨⟨rfl, rfl⟩, rfl⟩; exact s.casFails_sameClock c _]
  case stop c res => cases res <;> cases hs <;> exact ⟨⟨rfl, rfl⟩, rfl⟩
  case storeRaw c next raw =>
    cases hs
    obtain ⟨⟨hclock, hnext⟩, hexp⟩ :=
      DwSys.afterStore_sameClock { s with word := withState raw next.value } c next
    exact ⟨⟨hclock, hnext⟩, hexp⟩
  case begin => split at hs <;> cases hs <;> exact ⟨⟨rfl, rfl⟩, rfl⟩
  case armPeriod => split at hs <;> cases hs <;> exact ⟨⟨rfl, rfl⟩, rfl⟩
  case armStart => split at hs <;> cases hs <;> exact ⟨⟨rfl, rfl⟩, rfl⟩
  case submit => split at hs <;> cases hs <;> exact ⟨⟨rfl, rfl⟩, rfl⟩
  all_goals cases hs; exact ⟨⟨rfl, rfl⟩, rfl⟩

/-- A callback that takes a step is there, and no other callback moves. -/
theorem DwSys.stepExpiry_sameClock {s s' : DwSys} {i : Nat} {result : Option ErrorCode}
    (hs : s.stepExpiry i result = some s') :
    SameClock s s' ∧ s.expiries i ≠ .absent ∧ ∀ k, k ≠ i → s'.expiries k = s.expiries k := by
  have hother : ∀ (w : DwSys) (pc : DwExpiry) (k : Nat), k ≠ i →
      (w.setExpiry i pc).expiries k = w.expiries k := fun w pc k hk => Function.update_of_ne hk _ _
  unfold DwSys.stepExpiry at hs
  cases hc : s.expiries i <;> rw [hc] at hs <;> dsimp only at hs
  case absent => cases hs
  case entered => split at hs <;> cases hs <;> exact ⟨⟨rfl, rfl⟩, by simp, hother _ _⟩
  case readClock => split at hs <;> cases hs <;> exact ⟨⟨rfl, rfl⟩, by simp, hother _ _⟩
  case cas =>
    split at hs <;> cases hs
    · exact ⟨⟨rfl, rfl⟩, by simp, fun k hk => hother _ _ k hk⟩
    · exact ⟨⟨rfl, rfl⟩, by simp, hother _ _⟩
  case submit =>
    split at hs <;> cases hs <;> exact ⟨⟨rfl, rfl⟩, by simp, fun k hk => hother _ _ k hk⟩
  all_goals cases hs; exact ⟨⟨rfl, rfl⟩, by simp, fun k hk => hother _ _ k hk⟩

theorem DwSys.stepWorker_sameClock {s s' : DwSys} {j : Nat} (hs : s.stepWorker j = some s') :
    SameClock s s' ∧ s'.expiries = s.expiries := by
  unfold DwSys.stepWorker at hs
  cases hc : s.workers j <;> rw [hc] at hs <;> dsimp only at hs
  case idle => cases hs
  case callback => cases hs; exact ⟨⟨rfl, rfl⟩, rfl⟩
  all_goals split at hs <;> cases hs <;> exact ⟨⟨rfl, rfl⟩, rfl⟩

/-- The clock stays inside its 64-bit signed range, and the callbacks that have
not been started are not there. -/
structure DwClock (s : DwSys) : Prop where
  lt : s.clock < 2 ^ 63
  absent : ∀ i, s.nextExpiry ≤ i → s.expiries i = .absent

theorem DwClock.same {s s' : DwSys} (h : DwClock s) (hsame : SameClock s s')
    (hexp : s'.expiries = s.expiries) : DwClock s' := by
  refine ⟨by rw [hsame.clock]; exact h.lt, fun i hi => ?_⟩
  rw [hexp]
  exact h.absent i (hsame.nextExpiry ▸ hi)

theorem DwClock.step {s s' : DwSys} {a : DwAct} (h : DwClock s) (hs : s.step a = some s') :
    DwClock s' := by
  cases a with
  | call op began =>
      simp only [DwSys.step] at hs
      split at hs <;> [skip; cases hs]
      split at hs <;> cases hs
      exact h.same ⟨rfl, rfl⟩ rfl
  | caller result period =>
      simp only [DwSys.step] at hs
      split at hs <;> [cases hs; skip]
      obtain ⟨hsame, hexp⟩ := DwSys.stepCaller_sameClock hs
      exact h.same hsame hexp
  | fire =>
      simp only [DwSys.step] at hs
      split at hs <;> [cases hs; skip]
      split at hs <;> cases hs
      refine ⟨h.lt, fun i hi => ?_⟩
      have hi' : s.nextExpiry + 1 ≤ i := hi
      show Function.update s.expiries s.nextExpiry .entered i = .absent
      rw [Function.update_of_ne (by omega)]
      exact h.absent i (Nat.le_of_succ_le hi')
  | expiry i result =>
      simp only [DwSys.step] at hs
      split at hs <;> [cases hs; skip]
      obtain ⟨hsame, hhere, hother⟩ := DwSys.stepExpiry_sameClock hs
      refine ⟨by rw [hsame.clock]; exact h.lt, fun k hk => ?_⟩
      have hk' := h.absent k (hsame.nextExpiry ▸ hk)
      rw [hother k fun hki => hhere (hki ▸ hk')]
      exact hk'
  | dequeue j =>
      simp only [DwSys.step] at hs
      split at hs <;> cases hs
      exact h.same ⟨rfl, rfl⟩ rfl
  | worker j =>
      obtain ⟨hsame, hexp⟩ := DwSys.stepWorker_sameClock hs
      exact h.same hsame hexp
  | tick ms =>
      simp only [DwSys.step] at hs
      split at hs <;> cases hs
      rename_i hlt
      exact ⟨hlt, h.absent⟩
  | cancelAll =>
      cases hs
      exact h.same ⟨rfl, rfl⟩ rfl

/-! ### Whole runs -/

/-- What holds along every run in which the timer starts. -/
structure DwBase (s : DwSys) : Prop where
  tok : s.Tokens
  times : DwTimes s
  callbacks : DwClock s

theorem DwBase.clock {s : DwSys} (h : DwBase s) : s.clock < 2 ^ 63 := h.callbacks.lt

theorem DwBase.step {s s' : DwSys} {a : DwAct} (h : DwBase s) (hok : TimerStarts s a)
    (hs : s.step a = some s') : DwBase s' := by
  obtain ⟨st, o, htok⟩ := h.tok
  exact ⟨DwTok.step h.tok hok hs, DwTimes.step htok h.clock h.times hs, h.callbacks.step hs⟩

theorem DwBase.reachable {clock : Nat} (hclock : clock < 2 ^ 63) {ok : DwSys → DwAct → Prop}
    (hok : ∀ s a, ok s a → TimerStarts s a) {s : DwSys} (hs : (dwMachine clock).ReachableBy ok s) :
    DwBase s :=
  Machine.ReachableBy.invariant ⟨DwTok.fresh clock, DwTimes.fresh clock, hclock, fun _ _ => rfl⟩
    (fun _ _ _ _ hi hstep h => hi.step (hok _ _ hstep) h) hs

end MicrOsal
