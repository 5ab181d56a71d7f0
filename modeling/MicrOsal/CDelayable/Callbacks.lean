import MicrOsal.CDelayable.Lockstep

/-!
# MicrOsal.CDelayable.Callbacks

The timer callbacks of the handle beside those of `osal::delayable_work`.

What the one reads of the start is what the other reads, cut to the width of a tick. As long as the
arming that a callback saw lasts, this is the timestamp of that arming, and both decide the same
(`Related.guard_iff`). A callback that reads while the next arming is written may go on in one and
give up in the other. Then its arming is over (`Past`), and what goes on comes to nothing: its
exchange fails.
-/

namespace MicrOsal.CDelayable

variable {w : Nat} {s s' d d' : DwSys} {st : DwState} {o : Option DwAgent}

/-! ### Armings that are over -/

/-- Arming `loaded` is over. -/
structure Past (d : DwSys) (loaded : Nat) : Prop where
  le : loaded ≤ d.armings
  dead : loaded = d.armings → ¬ d.Live

/-- No step begins a call in the middle, and none makes an arming last that is over. -/
structure Onward (d d' : DwSys) : Prop where
  calls : ∀ c ∈ callOf d'.holder, c ∈ callOf d.holder
  ages : d.armings < d'.armings ∨ (d'.armings = d.armings ∧ (d'.Live → d.Live))

theorem Past.onward {loaded : Nat} (h : Past d loaded) (hd : Onward d d') : Past d' loaded := by
  have hle := h.le
  rcases hd.ages with hlt | ⟨heq, hlive⟩
  · exact ⟨by omega, fun hloaded => by omega⟩
  · exact ⟨by omega, fun hloaded hl => h.dead (by omega) (hlive hl)⟩

theorem Onward.same (hholder : d'.holder = d.holder) (harm : d'.armings = d.armings)
    (hlive : d'.Live → d.Live) : Onward d d' :=
  ⟨fun _ hc => hholder ▸ hc, .inr ⟨harm, hlive⟩⟩

theorem Onward.leaves (hholder : d'.holder = d.holder) (harm : d'.armings = d.armings)
    (hword : d'.word = d.word) : Onward d d' := by
  refine .same hholder harm (fun hl => ?_)
  rwa [DwSys.Live, hword] at hl

theorem Onward.stores {raw : BitVec 32} (hholder : d'.holder = d.holder)
    (harm : d'.armings = d.armings) (hword : d'.word = withState raw st) (harmed : st ≠ .armed)
    (hstop : st ≠ .stopping) : Onward d d' :=
  .same hholder harm (fun hl => absurd hl (DwTimes.live_withState hword harmed hstop))

theorem Onward.free (hholder : d'.holder = .free) (harm : d'.armings = d.armings)
    (hlive : d'.Live → d.Live) : Onward d d' := by
  refine ⟨fun c hc => ?_, .inr ⟨harm, hlive⟩⟩
  rw [hholder] at hc
  cases hc

theorem Onward.casFails (d : DwSys) (c : DwCall) (expected : Option DwState) :
    Onward d (d.casFails c expected) := by
  unfold DwSys.casFails
  split
  · split <;> exact .free rfl rfl id
  · exact .free rfl rfl id

theorem Onward.stepLoad {c : DwCall} (hc : d.holder = .load c) : Onward d (d.stepLoad c) := by
  have hmoves : ∀ pc, callOf pc = some c → Onward d { d with holder := pc } :=
    fun pc hpc => ⟨fun b hb => by rw [hc]; exact hpc.symm.trans hb, .inr ⟨rfl, id⟩⟩
  unfold DwSys.stepLoad
  dsimp only
  split
  · split
    · exact hmoves _ rfl
    · exact .free rfl rfl id
  · split
    · exact .free rfl rfl id
    · split <;> exact hmoves _ rfl
  · split
    · exact .free rfl rfl id
    · exact hmoves _ rfl

theorem Onward.storeRaw (htok : DwTok d st o) {c : DwCall} {next : DwNext} {raw : BitVec 32}
    (hc : d.holder = .storeRaw c next raw) :
    Onward d ({ d with word := withState raw next.value }.afterStore c next) := by
  have hknows := htok.holder
  rw [hc] at hknows
  have hcalls : ∀ b, some c = some b → b ∈ callOf d.holder := fun b hb => by rw [hc]; exact hb
  cases next with
  | stopped =>
      simp only [DwSys.afterStore]
      split
      · exact .free rfl rfl
          (fun hl => absurd hl (DwTimes.live_withState rfl (by decide) (by decide)))
      · exact ⟨hcalls, .inr ⟨rfl,
          fun hl => absurd hl (DwTimes.live_withState rfl (by decide) (by decide))⟩⟩
  | restored code =>
      -- `armed` is stored over `stopping` only
      exact .free rfl rfl (fun _ => .inr (by rw [htok.decode, hknows.1]))
  | enqueue =>
      exact ⟨hcalls, .inr ⟨rfl,
        fun hl => absurd hl (DwTimes.live_withState rfl (by decide) (by decide))⟩⟩
  | failed code =>
      have hidle : (DwNext.failed code).value = .idle := rfl
      refine .free rfl rfl (fun hl => absurd hl (DwTimes.live_withState rfl ?_ ?_))
      · rw [hidle]
        decide
      · rw [hidle]
        decide

theorem Onward.stepCaller {result : Option ErrorCode} {period : Nat} (htok : DwTok d st o)
    (hs : d.stepCaller result period = some d') : Onward d d' := by
  have hknows := htok.holder
  unfold DwSys.stepCaller at hs
  generalize hc : d.holder = here at hs
  cases here with
  | free =>
      cases hs
  | load c =>
      cases hs
      exact .stepLoad hc
  | casLoad c =>
      simp only at hs
      split at hs <;> cases hs
      · exact ⟨fun b hb => by rw [hc]; exact hb, .inr ⟨rfl, id⟩⟩
      · exact .casFails d c _
  | cas c raw =>
      rw [hc] at hknows
      simp only at hs
      split at hs
      · rename_i heq
        cases hs
        obtain ⟨n, hraw⟩ := hknows
        have harmed : decodeState d.word = some .armed := by rw [heq, hraw, decodeState_dwWord]
        exact ⟨fun b hb => by rw [hc]; exact hb, .inr ⟨rfl, fun _ => .inl harmed⟩⟩
      · cases hs
        exact .casFails d c _
  | storeRaw c next raw =>
      cases hs
      exact .storeRaw htok hc
  | stop c stopped =>
      cases stopped <;> cases hs <;>
        exact ⟨fun b hb => by rw [hc]; exact hb, .inr ⟨rfl, id⟩⟩
  | begin c =>
      simp only at hs
      split at hs <;> cases hs <;>
        exact ⟨fun b hb => by rw [hc]; exact hb, .inr ⟨rfl, id⟩⟩
  | armPeriod c now | armStart c | submit c =>
      cases result <;> cases hs <;>
        first
        | exact .free rfl rfl id
        | exact ⟨fun b hb => by rw [hc]; exact hb, .inr ⟨rfl, id⟩⟩
  | armStore c now raw =>
      cases hs
      exact ⟨fun b hb => by rw [hc]; exact hb, .inl (Nat.lt_succ_self _)⟩
  | store c next | armNow c | armStartLow c now | armStartHigh c now | armDelayLow c now
  | armDelayHigh c now | armLoad c now =>
      cases hs
      exact ⟨fun b hb => by rw [hc]; exact hb, .inr ⟨rfl, id⟩⟩

theorem Onward.stepWorker {j : Nat} (hs : d.stepWorker j = some d') : Onward d d' := by
  unfold DwSys.stepWorker at hs
  generalize hc : d.workers j = here at hs
  cases here with
  | idle =>
      cases hs
  | entry id | doneLoad id =>
      simp only at hs
      split at hs <;> cases hs <;> exact .leaves rfl rfl rfl
  | cas id raw | doneCas id raw =>
      simp only at hs
      split at hs <;> cases hs
      · exact .stores rfl rfl rfl (by decide) (by decide)
      · exact .leaves rfl rfl rfl
  | callback id =>
      cases hs
      exact .leaves rfl rfl rfl

theorem Onward.stepExpiry {i : Nat} {result : Option ErrorCode}
    (hs : d.stepExpiry i result = some d') : Onward d d' := by
  unfold DwSys.stepExpiry at hs
  generalize hc : d.expiries i = here at hs
  cases here with
  | absent =>
      cases hs
  | entered | readClock =>
      simp only at hs
      split at hs <;> cases hs <;> exact .leaves rfl rfl rfl
  | cas raw loaded now =>
      simp only at hs
      split at hs <;> cases hs
      · exact .stores rfl rfl rfl (by decide) (by decide)
      · exact .leaves rfl rfl rfl
  | submit id loaded current =>
      cases result <;> cases hs <;> exact .leaves rfl rfl rfl
  | readStartHigh | readStartLow | readDelayHigh | readDelayLow | failLoad =>
      cases hs
      exact .leaves rfl rfl rfl
  | failStore id raw =>
      cases hs
      exact .stores rfl rfl rfl (by decide) (by decide)

theorem Onward.step {a : DwAct} (htok : DwTok d st o) (hs : workStep w d a = some d') :
    (∀ c ∈ callOf d'.holder, IsTicks w c.op ∨ c ∈ callOf d.holder) ∧
      (∀ loaded, Past d loaded → Past d' loaded) ∧
      (Plain a = true → d'.expiries = callbacksAfter d d.expiries a) := by
  have hon : Onward d d' → (Plain a = true → d'.expiries = callbacksAfter d d.expiries a) →
      (∀ c ∈ callOf d'.holder, IsTicks w c.op ∨ c ∈ callOf d.holder) ∧
      (∀ loaded, Past d loaded → Past d' loaded) ∧
      (Plain a = true → d'.expiries = callbacksAfter d d.expiries a) :=
    fun hon hexp => ⟨fun c hc => .inr (hon.calls c hc), fun loaded h => h.onward hon, hexp⟩
  cases a with
  | call op began =>
      simp only [workStep, DwSys.step] at hs
      split at hs <;> [skip; cases hs]
      rename_i hticks
      split at hs <;> [skip; cases hs]
      split at hs <;> cases hs
      exact ⟨fun c hc => by cases hc; exact .inl hticks, fun loaded h => ⟨h.le, h.dead⟩,
        fun _ => rfl⟩
  | caller result period =>
      simp only [workStep, DwSys.step] at hs
      split at hs <;> [cases hs; skip]
      exact hon (.stepCaller htok hs) (fun _ => (DwSys.stepCaller_sameClock hs).2)
  | fire =>
      simp only [workStep, DwSys.step] at hs
      split at hs <;> [cases hs; skip]
      split at hs <;> cases hs
      exact hon (.leaves rfl rfl rfl) (fun _ => rfl)
  | expiry i result =>
      simp only [workStep, DwSys.step] at hs
      split at hs <;> [cases hs; exact hon (.stepExpiry hs) (fun hplain => by cases hplain)]
  | dequeue j =>
      simp only [workStep, DwSys.step] at hs
      split at hs <;> cases hs
      exact hon (.leaves rfl rfl rfl) (fun _ => rfl)
  | worker j => exact hon (.stepWorker hs) (fun _ => (DwSys.stepWorker_sameClock hs).2)
  | tick n =>
      simp only [workStep, DwSys.step] at hs
      split at hs <;> cases hs
      exact hon (.leaves rfl rfl rfl) (fun _ => rfl)
  | cancelAll =>
      cases hs
      exact hon (.leaves rfl rfl rfl) (fun _ => rfl)

/-! ### Two callbacks -/

/-- Where the callback of a handle is that has read what this one has read. -/
def cutStart (w : Nat) : DwExpiry → DwExpiry
  | .readStartLow raw loaded high => .readStartLow raw loaded (cutHigh w high)
  | .readDelayHigh raw loaded start => .readDelayHigh raw loaded (cut w start)
  | .readDelayLow raw loaded start delayHigh => .readDelayLow raw loaded (cut w start) delayHigh
  | .readClock raw loaded start delay => .readClock raw loaded (cut w start) delay
  | pc => pc

/-- The callback is about to read the clock. -/
def ReadsClock : DwExpiry → Bool
  | .readClock _ _ _ _ => true
  | _ => false

/-- Where a callback of the handle is and where that of `delayable_work` is. -/
inductive Paired (w : Nat) (d : DwSys) : DwExpiry → DwExpiry → Prop
  | sync (pc : DwExpiry) : Paired w d (cutStart w pc) pc
  /-- The arming is over, and only the handle's callback goes on. -/
  | ahead {raw : BitVec 32} {loaded now : Nat} (hraw : raw = dwWord loaded .armed)
      (h : Past d loaded) : Paired w d (.cas raw loaded now) .absent
  /-- Only the other callback goes on. -/
  | behind {raw : BitVec 32} {loaded now : Nat} : Paired w d .absent (.cas raw loaded now)

theorem Paired.onward {pc pc' : DwExpiry} (h : Paired w d pc pc')
    (hon : ∀ loaded, Past d loaded → Past d' loaded) : Paired w d' pc pc' := by
  cases h with
  | sync => exact .sync pc'
  | ahead hraw hpast => exact .ahead hraw (hon _ hpast)
  | behind => exact .behind

/-- But for the comparison of the clock, a callback of the handle does what the other does. -/
theorem stepExpiry_handleOf {i : Nat} {expiries : Nat → DwExpiry} {result : Option ErrorCode}
    (hi : expiries i = cutStart w (d.expiries i)) (hclock : ReadsClock (d.expiries i) = false) :
    stepExpiry w (handleOf w d expiries) i result =
      (d.stepExpiry i result).map (fun d' =>
        handleOf w d' (Function.update expiries i (cutStart w (d'.expiries i)))) := by
  have hexpiries : (handleOf w d expiries).expiries i = cutStart w (d.expiries i) := hi
  have hword : (handleOf w d expiries).word = d.word := rfl
  unfold DwSys.stepExpiry stepExpiry
  rw [hexpiries]
  cases hpc : d.expiries i with
  | absent => rfl
  | readClock =>
      rw [hpc] at hclock
      cases hclock
  | entered =>
      simp only [cutStart, hword, ne_eq, ite_not]
      split
      · rw [Option.map_some, DwSys.setExpiry_self]
        rfl
      · rw [Option.map_some, DwSys.setExpiry_self]
        rfl
  | cas raw loaded now =>
      simp only [cutStart, hword]
      split
      · rw [Option.map_some, DwSys.setExpiry_self]
        rfl
      · rw [Option.map_some, DwSys.setExpiry_self]
        rfl
  | submit id loaded current =>
      cases result with
      | none =>
          simp only [cutStart, Option.map_some, DwSys.setExpiry_self]
          rfl
      | some rc =>
          simp only [cutStart, Option.map_some, DwSys.setExpiry_self]
          rfl
  | readStartLow raw loaded high =>
      have hload := loadTime_cut w d.startLow high
      simp only [cutStart, Option.map_some, DwSys.setExpiry_self, ← hload]
      rfl
  | readStartHigh | readDelayHigh | readDelayLow | failLoad | failStore =>
      simp only [cutStart, Option.map_some, DwSys.setExpiry_self]
      rfl

/-! ### The relation -/

/-- The handle and a `delayable_work` that is driven in the same way. -/
structure Related (w : Nat) (s d : DwSys) : Prop where
  rest : s = handleOf w d s.expiries
  base : DwBase d
  ticks : ∀ c ∈ callOf d.holder, IsTicks w c.op
  callbacks : ∀ i, Paired w d (s.expiries i) (d.expiries i)

theorem Related.armings (h : Related w s d) : s.armings = d.armings := by
  rw [h.rest]
  rfl

/-- While an arming lasts, there were fewer than `2 ^ w` ticks since it read the clock. -/
def InTurn (w : Nat) (d : DwSys) : Prop := d.Live → ∀ a ∈ d.arming, d.clock < a.2 + 2 ^ w

theorem Related.init {clock : Nat} (hclock : clock < 2 ^ 63) :
    Related w (DwSys.fresh clock) (DwSys.fresh clock) where
  rest := by
    have hlow : cutLow w (DwSys.fresh clock).startLow = 0 := by simp [cutLow, DwSys.fresh]
    have hhigh : cutHigh w (DwSys.fresh clock).startHigh = 0 := by simp [cutHigh, DwSys.fresh]
    simp only [handleOf, hlow, hhigh]
    rfl
  base := ⟨DwTok.fresh clock, DwTimes.fresh clock, hclock, fun _ _ => rfl⟩
  ticks c hc := by cases hc
  callbacks _ := .sync .absent

/-- `delayable_work` takes a step, and the handle another or the same. -/
theorem Related.next (h : Related w s d) {a : DwAct} (hstarts : TimerStarts d a)
    (hd : workStep w d a = some d') {expiries : Nat → DwExpiry}
    (hcallbacks : ∀ i, Paired w d' (expiries i) (d'.expiries i)) :
    Related w (handleOf w d' expiries) d' := by
  obtain ⟨st, o, htok⟩ := h.base.tok
  have hstep : d.step a = some d' := by
    cases a with
    | call op began =>
        simp only [workStep] at hd
        split at hd <;> [exact hd; cases hd]
    | _ => exact hd
  refine ⟨rfl, h.base.step hstarts hstep, fun c hc => ?_, hcallbacks⟩
  rcases (Onward.step htok hd).1 c hc with hticks | hold
  · exact hticks
  · exact h.ticks c hold

/-- The timer may start one more callback, of both. -/
theorem Paired.after {expiries : Nat → DwExpiry} {a : DwAct}
    (h : ∀ i, Paired w d' (expiries i) (d.expiries i)) (i : Nat) :
    Paired w d' (callbacksAfter d expiries a i) (callbacksAfter d d.expiries a i) := by
  cases a with
  | fire =>
      simp only [callbacksAfter]
      by_cases hi : i = d.nextExpiry
      · subst hi
        rw [Function.update_self, Function.update_self]
        exact .sync .entered
      · rw [Function.update_of_ne hi, Function.update_of_ne hi]
        exact h i
  | _ => exact h i

/-- Steps that no callback takes are taken together. -/
theorem Related.step_plain (hw : w < 64) (h : Related w s d) {a : DwAct} (ha : Plain a = true)
    (hstarts : TimerStarts d a) : Option.Rel (Related w) (step w s a) (workStep w d a) := by
  have hstep : step w (handleOf w d s.expiries) a = _ := step_handleOf hw h.ticks ha
  rw [h.rest, hstep]
  cases hd : workStep w d a with
  | none => exact .none
  | some d' =>
      obtain ⟨st, o, htok⟩ := h.base.tok
      obtain ⟨-, hpast, hexpiries⟩ := Onward.step htok hd
      refine .some (h.next hstarts hd (fun i => ?_))
      rw [hexpiries ha]
      exact Paired.after (fun k => (h.callbacks k).onward hpast) i

/-! ### The callbacks' steps -/

/-- A callback of `delayable_work` moves, and that of the handle with it. -/
theorem Related.moves (h : Related w s d) {i : Nat} {result : Option ErrorCode} {pc : DwExpiry}
    (hresult : result ≠ some .ok) (hd : d.stepExpiry i result = some d')
    (hpair : Paired w d' pc (d'.expiries i)) :
    Related w (handleOf w d' (Function.update s.expiries i pc)) d' := by
  obtain ⟨st, o, htok⟩ := h.base.tok
  have hwork : workStep w d (.expiry i result) = some d' := (if_neg hresult).trans hd
  have hstarts : TimerStarts d (.expiry i result) := trivial
  refine h.next hstarts hwork (fun k => ?_)
  by_cases hk : k = i
  · subst hk
    rw [Function.update_self]
    exact hpair
  · rw [Function.update_of_ne hk, (ExpiryStep.of_stepExpiry hd).others k hk]
    exact (h.callbacks k).onward (Onward.step htok hwork).2.1

/-- As long as the arming lasts, both callbacks decide the same. -/
theorem Related.guard_iff (hw : w < 64) (h : Related w s d) (hturn : InTurn w d) {i loaded : Nat}
    {raw : BitVec 32} {start delay : BitVec 64}
    (hi : d.expiries i = .readClock raw loaded start delay) (heq : loaded = d.armings)
    (hlive : d.Live) :
    early w d.clock (cut w start) delay = true ↔ BitVec.ofNat 64 d.clock - start < delay := by
  obtain ⟨c, t, harming, harms, holds⟩ := h.base.times.arming hlive
  have hread := h.base.times.expiry i
  rw [hi] at hread
  obtain ⟨hstart, hdelay⟩ := hread.2 heq hlive
  rw [holds.start_eq] at hstart
  rw [holds.delay_eq] at hdelay
  have hlt : d.clock < t + 2 ^ w := hturn hlive _ harming
  have hle : t ≤ d.clock := harms.now
  have hpow : 2 ^ w < 2 ^ 64 := Nat.pow_lt_pow_right (by decide) hw
  have hcast : (cut w start).setWidth w = clockTicks w t := by
    rw [hstart, ← started_eq_cut hw]
    exact (BitVec.setWidth_setWidth_of_le _ hw.le).trans (BitVec.setWidth_eq _)
  have hdiff : clockTicks w d.clock - clockTicks w t = BitVec.ofNat w (d.clock - t) :=
    elapsed_eq w hle
  have helapsed : (BitVec.ofNat w (d.clock - t)).setWidth 64 = BitVec.ofNat 64 (d.clock - t) := by
    apply BitVec.eq_of_toNat_eq
    rw [BitVec.toNat_setWidth, BitVec.toNat_ofNat, BitVec.toNat_ofNat,
      Nat.mod_eq_of_lt (by omega : d.clock - t < 2 ^ w)]
  simp only [early, decide_eq_true_eq, hcast, hdiff, helapsed]
  rw [hstart, elapsed_eq 64 hle]

/-- Both callbacks compare the clock. -/
theorem Related.stepClock (hw : w < 64) (h : Related w s d) {i loaded : Nat}
    {result : Option ErrorCode} {raw : BitVec 32} {start delay : BitVec 64}
    (hresult : result ≠ some .ok) (hturn : InTurn w d)
    (hpc : s.expiries i = .readClock raw loaded (cut w start) delay)
    (hpc' : d.expiries i = .readClock raw loaded start delay) :
    Option.Rel (Related w) (stepExpiry w s i result) (d.stepExpiry i result) := by
  obtain ⟨st, o, htok⟩ := h.base.tok
  have hraw := htok.expiry i
  have hle := h.base.times.expiry i
  rw [hpc'] at hraw hle
  have hclock : s.clock = d.clock := by
    rw [h.rest]
    rfl
  have hs : stepExpiry w s i result = if early w d.clock (cut w start) delay = true then
      some (s.setExpiry i .absent) else some (s.setExpiry i (.cas raw loaded d.clock)) := by
    rw [stepExpiry, hpc, hclock]
  have hd : d.stepExpiry i result = if BitVec.ofNat 64 d.clock - start < delay then
      some (d.setExpiry i .absent) else some (d.setExpiry i (.cas raw loaded d.clock)) := by
    rw [DwSys.stepExpiry, hpc']
  have hmove : ∀ pc pc', d.stepExpiry i result = some (d.setExpiry i pc') →
      Paired w (d.setExpiry i pc') pc pc' →
      Option.Rel (Related w) (some (s.setExpiry i pc)) (some (d.setExpiry i pc')) := by
    intro pc pc' hd hpair
    have hmoved : s.setExpiry i pc =
        handleOf w (d.setExpiry i pc') (Function.update s.expiries i pc) := by
      conv_lhs => rw [h.rest]
      rfl
    rw [hmoved]
    refine .some (h.moves hresult hd ?_)
    rw [DwSys.setExpiry_self]
    exact hpair
  by_cases hearly : early w d.clock (cut w start) delay = true
  · by_cases hearly' : BitVec.ofNat 64 d.clock - start < delay
    · rw [if_pos hearly'] at hd
      rw [hs, if_pos hearly, hd]
      exact hmove _ _ hd (.sync .absent)
    · rw [if_neg hearly'] at hd
      rw [hs, if_pos hearly, hd]
      exact hmove _ _ hd .behind
  · by_cases hearly' : BitVec.ofNat 64 d.clock - start < delay
    · rw [if_pos hearly'] at hd
      rw [hs, if_neg hearly, hd]
      exact hmove _ _ hd (.ahead hraw
        ⟨hle.1, fun heq hlive => hearly ((h.guard_iff hw hturn hpc' heq hlive).mpr hearly')⟩)
    · rw [if_neg hearly'] at hd
      rw [hs, if_neg hearly, hd]
      exact hmove _ _ hd (.sync (.cas raw loaded d.clock))

/-- Callbacks that are at the same place move together. -/
theorem Related.step_sync (hw : w < 64) (h : Related w s d) {i : Nat}
    {result : Option ErrorCode} (hresult : result ≠ some .ok)
    (hturn : ReadsClock (d.expiries i) = true → InTurn w d)
    (hsync : s.expiries i = cutStart w (d.expiries i)) :
    Option.Rel (Related w) (stepExpiry w s i result) (d.stepExpiry i result) := by
  cases hreads : ReadsClock (d.expiries i) with
  | true =>
      cases hpc' : d.expiries i <;> rw [hpc'] at hreads hsync <;> try cases hreads
      exact h.stepClock hw hresult (hturn (by rw [hpc']; rfl)) hsync hpc'
  | false =>
      have hs : stepExpiry w (handleOf w d s.expiries) i result = _ :=
        stepExpiry_handleOf hsync hreads
      rw [h.rest, hs]
      cases hd : d.stepExpiry i result with
      | none => exact .none
      | some d' => exact .some (h.moves hresult hd (.sync _))

/-- A callback that goes on alone fails. -/
theorem Related.cas_fails (h : Related w s d) {raw : BitVec 32} {loaded : Nat}
    (hraw : raw = dwWord loaded .armed) (hpast : Past d loaded)
    (hfresh : d.armings < loaded + 2 ^ 29) : d.word ≠ raw := by
  intro heq
  obtain ⟨st, o, htok⟩ := h.base.tok
  have hle := hpast.le
  rw [htok.word, hraw, dwWord_inj] at heq
  obtain ⟨rfl, hmod⟩ := heq
  exact hpast.dead (by omega) (.inl htok.decode)

/-- Only the handle's callback is there, and gives up. -/
theorem Related.step_ahead (h : Related w s d) {i loaded now : Nat} {raw : BitVec 32}
    {result : Option ErrorCode} (hs : s.expiries i = .cas raw loaded now)
    (hd : d.expiries i = .absent) (hraw : raw = dwWord loaded .armed) (hpast : Past d loaded)
    (hfresh : d.armings < loaded + 2 ^ 29) :
    stepExpiry w s i result = some (s.setExpiry i .absent) ∧
      Related w (s.setExpiry i .absent) d := by
  have hword : s.word = d.word := by
    rw [h.rest]
    rfl
  refine ⟨?_, ?_, h.base, h.ticks, fun k => ?_⟩
  · rw [stepExpiry, hs, hword]
    exact if_neg (h.cas_fails hraw hpast hfresh)
  · conv_lhs => rw [h.rest]
    rfl
  · by_cases hk : k = i
    · subst hk
      rw [DwSys.setExpiry_self, hd]
      exact .sync .absent
    · rw [DwSys.setExpiry_other _ hk]
      exact h.callbacks k

end MicrOsal.CDelayable
