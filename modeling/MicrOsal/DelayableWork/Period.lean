import MicrOsal.DelayableWork.Arming
import MicrOsal.Clock.Ticks

/-!
# MicrOsal.DelayableWork.Period

How long `arm_locked` programs the timer for.

`timer::set_period` turns the delay into ticks, of which there are only so many, while the guard
of `on_timer` compares milliseconds. A delay that has no ticks leaves an item that is armed
although its timer has fired.
-/

namespace MicrOsal

/-! ### What the timer is programmed for -/

/-- The ticks that `timer::set_period` of a valid timer hands to the backend. -/
def timerSetPeriod (w periodUs : Nat) (period : Int) : Except ErrorCode (Tick w) :=
  if period ≤ 0 then .error .invalidArgument else .ok (msToTicks w periodUs period)

/-- The whole milliseconds that these ticks take. -/
def programmedMs (w periodUs : Nat) (period : Int) : Nat :=
  (msToTicks w periodUs period).toNat * periodUs / 1000

theorem le_programmedMs_iff {w periodUs : Nat} (hw : 16 ≤ w) (hperiod : 0 < periodUs)
    {delay : Int} (hpos : 0 < delay) : delay ≤ programmedMs w periodUs delay ↔
      delay.toNat * 1000 ≤ (2 ^ w - 2) * periodUs := by
  rw [← covers_iff hw hperiod hpos, programmedMs]
  omega

/-! ### `arm_locked` and `on_timer` alone -/

/-- `arm_locked` from its reading of the clock on; `wait₁` milliseconds pass before it programs
the timer, and `wait₂` before it starts it. -/
def armLocked (period wait₁ wait₂ : Nat) : List DwAct :=
  [DwAct.caller none 0, DwAct.tick wait₁, DwAct.caller none period, DwAct.caller none 0,
    DwAct.caller none 0, DwAct.caller none 0, DwAct.caller none 0, DwAct.caller none 0,
    DwAct.caller none 0, DwAct.tick wait₂, DwAct.caller none 0]

/-- The timer fires `late` milliseconds after it is due. -/
def fireLate (period late : Nat) : List DwAct := [DwAct.tick (period + late), DwAct.fire]

/-- The item that `arm_locked` leaves. -/
def DwSys.armedBy (s : DwSys) (c : DwCall) (period wait₁ wait₂ : Nat) : DwSys :=
  { s with
    word := armWord s.word
    startLow := lowHalf (BitVec.ofNat 64 s.clock)
    startHigh := highHalf (BitVec.ofNat 64 s.clock)
    delayLow := lowHalf (BitVec.ofInt 64 c.delay)
    delayHigh := highHalf (BitVec.ofInt 64 c.delay)
    timer := ⟨period, some (s.clock + wait₁ + wait₂ + period)⟩
    clock := s.clock + wait₁ + wait₂
    holder := .free
    armings := s.armings + 1
    arming := some (c, s.clock)
    log := .returned c .ok :: .armed c :: s.log }

/-- The item when its timer has fired. -/
def DwSys.firedBy (s : DwSys) (c : DwCall) (period wait₁ wait₂ late : Nat) : DwSys :=
  { s.armedBy c period wait₁ wait₂ with
    timer := ⟨period, none⟩
    clock := s.clock + wait₁ + wait₂ + (period + late)
    nextExpiry := s.nextExpiry + 1 }.setExpiry s.nextExpiry .entered

variable {s : DwSys} {c : DwCall} {period wait₁ wait₂ late : Nat}

theorem run_armLocked (hclock : s.clock + wait₁ + wait₂ < 2 ^ 63) (clock : Nat) :
    (dwMachine clock).run { s with holder := .armNow c } (armLocked period wait₁ wait₂) =
      some (s.armedBy c period wait₁ wait₂) := by
  have hfirst : s.clock + wait₁ < 2 ^ 63 := by omega
  simp only [armLocked, Machine.run, dwMachine, DwSys.step, DwSys.stepCaller, DwSys.returns,
    if_pos hfirst, if_pos hclock, reduceCtorEq, if_false, Option.bind_some]
  rfl

theorem run_fireLate (hclock : s.clock + wait₁ + wait₂ + (period + late) < 2 ^ 63)
    (clock : Nat) : (dwMachine clock).run { s with holder := .armNow c }
      (armLocked period wait₁ wait₂ ++ fireLate period late) =
        some (s.firedBy c period wait₁ wait₂ late) := by
  have hdue : s.clock + wait₁ + wait₂ + period ≤ s.clock + wait₁ + wait₂ + (period + late) := by
    omega
  rw [Machine.run_append, run_armLocked (by omega), Option.bind_some]
  simp only [fireLate, Machine.run, dwMachine, DwSys.step, DwSys.armedBy, if_pos hclock,
    if_pos hdue, Option.bind_some]
  rfl

theorem DwSys.setExpiry_setExpiry (s : DwSys) (i : Nat) (pc pc' : DwExpiry) :
    (s.setExpiry i pc).setExpiry i pc' = s.setExpiry i pc' := by
  simp only [DwSys.setExpiry, Function.update_idem]

/-- `on_timer` reads the timestamps and the clock, and gives up on an expiry that is early. -/
theorem run_onTimer {i : Nat} (hentered : s.expiries i = .entered)
    (harmed : decodeState s.word = some .armed) :
    (dwMachine s.clock).run s (List.replicate 6 (DwAct.expiry i none)) =
      some (s.setExpiry i (if BitVec.ofNat 64 s.clock - loadTime s.startLow s.startHigh <
          loadTime s.delayLow s.delayHigh then .absent else .cas s.word s.armings s.clock)) := by
  have hself : ∀ pc, (s.setExpiry i pc).expiries i = pc := fun pc => Function.update_self ..
  simp only [List.replicate, Machine.run, dwMachine, DwSys.step, DwSys.stepExpiry, hentered,
    harmed, if_true, reduceCtorEq, if_false, Option.bind_some, hself, DwSys.setExpiry_setExpiry]
  split
  case isTrue hearly =>
    exact (congrArg (fun pc => some (s.setExpiry i pc)) (if_pos hearly)).symm
  case isFalse hdue =>
    exact (congrArg (fun pc => some (s.setExpiry i pc)) (if_neg hdue)).symm

theorem firedBy_entered (s : DwSys) (c : DwCall) (period wait₁ wait₂ late : Nat) :
    (s.firedBy c period wait₁ wait₂ late).expiries s.nextExpiry = .entered :=
  Function.update_self ..

theorem firedBy_early_iff (hclock : s.clock + wait₁ + wait₂ + (period + late) < 2 ^ 63)
    (hpos : 0 < c.delay) (hlt : c.delay < 2 ^ 63) :
    BitVec.ofNat 64 (s.firedBy c period wait₁ wait₂ late).clock -
        loadTime (s.firedBy c period wait₁ wait₂ late).startLow
          (s.firedBy c period wait₁ wait₂ late).startHigh <
        loadTime (s.firedBy c period wait₁ wait₂ late).delayLow
          (s.firedBy c period wait₁ wait₂ late).delayHigh ↔
      (wait₁ + wait₂ + period + late : Nat) < c.delay := by
  have htimes : HoldsTimes (s.firedBy c period wait₁ wait₂ late) s.clock c.delay :=
    ⟨rfl, rfl, rfl, rfl⟩
  have hclock' : (s.firedBy c period wait₁ wait₂ late).clock =
      s.clock + wait₁ + wait₂ + (period + late) := rfl
  rw [htimes.start_eq, htimes.delay_eq, hclock', DwTimes.guard_iff (by omega) hclock hpos hlt]
  omega

/-- A callback that finds the delay over takes the item to `queued`. -/
theorem firedBy_accepts (hclock : s.clock + wait₁ + wait₂ + (period + late) < 2 ^ 63)
    (hpos : 0 < c.delay) (hlt : c.delay < 2 ^ 63) (hover : c.delay ≤ period) :
    (s.firedBy c period wait₁ wait₂ late).Accepts s.nextExpiry := by
  have hrun := run_onTimer (firedBy_entered s c period wait₁ wait₂ late)
    (decodeState_armWord s.word)
  rw [if_neg (mt (firedBy_early_iff hclock hpos hlt).mp (by omega))] at hrun
  have hqueued : ∃ s', (dwMachine (s.firedBy c period wait₁ wait₂ late).clock).run
      ((s.firedBy c period wait₁ wait₂ late).setExpiry s.nextExpiry
        (.cas (s.firedBy c period wait₁ wait₂ late).word
          (s.firedBy c period wait₁ wait₂ late).armings
          (s.firedBy c period wait₁ wait₂ late).clock))
      (List.replicate 1 (.expiry s.nextExpiry none)) = some s' ∧
      decodeState s'.word = some .queued := by
    simp only [List.replicate, Machine.run, dwMachine, DwSys.step, DwSys.stepExpiry,
      DwSys.setExpiry, Function.update_self, reduceCtorEq, if_false, if_true, Option.bind_some]
    exact ⟨_, rfl, decodeState_withState _ .queued⟩
  obtain ⟨s', hcas, hq⟩ := hqueued
  refine ⟨6 + 1, s', ?_, hq⟩
  rw [List.replicate_add, Machine.run_append, hrun, Option.bind_some]
  exact hcas

/-- The callback, alone, goes away and leaves an item that is armed and whose timer does not
run. -/
def DwSys.StaysArmed (s : DwSys) (i : Nat) : Prop :=
  ∃ n s', (dwMachine s.clock).run s (List.replicate n (DwAct.expiry i none)) = some s' ∧
    s'.expiries i = .absent ∧ decodeState s'.word = some .armed ∧ s'.timer.due = none

/-- A callback that finds the delay not over gives up. -/
theorem firedBy_staysArmed (hclock : s.clock + wait₁ + wait₂ + (period + late) < 2 ^ 63)
    (hpos : 0 < c.delay) (hlt : c.delay < 2 ^ 63)
    (hearly : (wait₁ + wait₂ + period + late : Nat) < c.delay) :
    (s.firedBy c period wait₁ wait₂ late).StaysArmed s.nextExpiry := by
  have hrun := run_onTimer (firedBy_entered s c period wait₁ wait₂ late)
    (decodeState_armWord s.word)
  rw [if_pos ((firedBy_early_iff hclock hpos hlt).mpr hearly)] at hrun
  exact ⟨6, _, hrun, Function.update_self .., decodeState_armWord s.word, rfl⟩

/-! ### Delays -/

/-- A delay is kept: its ticks cover it, and an expiry of the timer that is programmed for them
is accepted, whenever it fires. -/
structure DelayKept (w periodUs : Nat) (delay : Int) : Prop where
  covers : ∃ ticks, timerSetPeriod w periodUs delay = .ok ticks ∧
    delay * 1000 ≤ ticks.toNat * periodUs
  accepted : ∀ (s : DwSys) (c : DwCall) (wait₁ wait₂ late : Nat), c.delay = delay →
    s.clock + wait₁ + wait₂ + (programmedMs w periodUs delay + late) < 2 ^ 63 →
    ∃ s', (dwMachine s.clock).run { s with holder := .armNow c }
        (armLocked (programmedMs w periodUs delay) wait₁ wait₂ ++
          fireLate (programmedMs w periodUs delay) late) = some s' ∧ s'.Accepts s.nextExpiry

/-- A delay is kept exactly when the longest period of the timer covers it. An item with another
delay stays armed when its timer fires on time. -/
theorem delayableWork_delay_kept {w periodUs : Nat} (hw : 16 ≤ w) (hperiod : 0 < periodUs)
    {delay : Int} (hpos : 0 < delay) (hlt : delay < 2 ^ 63) :
    (DelayKept w periodUs delay ↔ delay * 1000 ≤ (2 ^ w - 2 : Nat) * (periodUs : Int)) ∧
      (¬ delay * 1000 ≤ (2 ^ w - 2 : Nat) * (periodUs : Int) →
        ∀ (s : DwSys) (c : DwCall), c.delay = delay →
          s.clock + programmedMs w periodUs delay < 2 ^ 63 →
          ∃ s', (dwMachine s.clock).run { s with holder := .armNow c }
              (armLocked (programmedMs w periodUs delay) 0 0 ++
                fireLate (programmedMs w periodUs delay) 0) = some s' ∧
            s'.StaysArmed s.nextExpiry) := by
  have hnat : ∀ n : Nat, delay * 1000 ≤ n ↔ delay.toNat * 1000 ≤ n := by omega
  have hcond : delay * 1000 ≤ (2 ^ w - 2 : Nat) * (periodUs : Int) ↔
      delay.toNat * 1000 ≤ (2 ^ w - 2) * periodUs := by
    rw [← Nat.cast_mul]
    exact hnat _
  have hprogrammed := le_programmedMs_iff hw hperiod hpos
  rw [hcond]
  refine ⟨⟨fun hkept => ?_, fun hlong => ⟨?_, ?_⟩⟩, fun hshort s c hdelay hclock => ?_⟩
  · obtain ⟨ticks, hticks, hcovers⟩ := hkept.covers
    rw [timerSetPeriod, if_neg (by omega)] at hticks
    obtain rfl := Except.ok.inj hticks
    rw [← Nat.cast_mul, hnat] at hcovers
    exact (covers_iff hw hperiod hpos).mp hcovers
  · refine ⟨_, if_neg (by omega), ?_⟩
    rw [← Nat.cast_mul, hnat]
    exact (covers_iff hw hperiod hpos).mpr hlong
  · intro s c wait₁ wait₂ late hdelay hclock
    subst hdelay
    exact ⟨_, run_fireLate hclock _, firedBy_accepts hclock hpos hlt (hprogrammed.mpr hlong)⟩
  · subst hdelay
    have hearly : (0 + 0 + programmedMs w periodUs c.delay + 0 : Nat) < c.delay := by
      have := mt hprogrammed.mp hshort
      omega
    exact ⟨_, run_fireLate (by omega) _, firedBy_staysArmed (by omega) hpos hlt hearly⟩

/-- A minute, with 16-bit ticks of a millisecond. -/
theorem delayableWork_delay_kept_minute : DelayKept 16 1000 60000 :=
  (delayableWork_delay_kept (by decide) (by decide) (by decide) (by decide)).1.mpr (by decide)

/-- An item is scheduled for 66 seconds, with 16-bit ticks of a millisecond: the timer fires
after 65.534 seconds, its callback goes away, and the item stays armed. -/
theorem delayableWork_delay_forgotten :
    timerSetPeriod 16 1000 66000 = .ok 65534 ∧ ¬ DelayKept 16 1000 66000 ∧
      ∃ s : DwSys, (dwMachine 0).Reachable s ∧ s.arming.map (fun a => a.1.delay) = some 66000 ∧
        decodeState s.word = some .armed ∧ s.timer.due = none ∧ ∀ i, s.expiries i = .absent := by
  have hticks : timerSetPeriod 16 1000 66000 = .ok 65534 := by decide +kernel
  let schedule : List DwAct :=
    DwAct.call (.schedule 66000) 0 :: List.replicate 2 (DwAct.caller none 0) ++
      (armLocked 65534 0 0 ++ fireLate 65534 0 ++ List.replicate 6 (DwAct.expiry 0 none))
  have hok : (dwMachine 0).RunOk TimerStarts (DwSys.fresh 0) schedule := by decide +kernel
  have hview : ((dwMachine 0).run (DwSys.fresh 0) schedule).map (fun s =>
      (s.arming.map (fun a => a.1.delay), decodeState s.word, s.timer.due, s.nextExpiry,
        (s.expiries 0).isAbsent)) = some (some 66000, some .armed, none, 1, true) := by
    decide +kernel
  obtain ⟨s, hrun, hres⟩ := Option.map_eq_some_iff.mp hview
  simp only [Prod.mk.injEq] at hres
  obtain ⟨harming, harmed, hdue, hnext, hgone⟩ := hres
  have hs := Machine.ReachableBy.of_run .init hok hrun
  refine ⟨hticks, fun hkept => ?_, s, hs.reachable, harming, harmed, hdue, fun i => ?_⟩
  · obtain ⟨ticks, heq, hcovers⟩ := hkept.covers
    obtain rfl := Except.ok.inj (hticks.symm.trans heq)
    exact absurd hcovers (by decide)
  · cases i with
    | zero => exact DwExpiry.eq_absent hgone
    | succ i =>
        have hbase := DwBase.reachable (by decide) (fun _ _ hok => hok) hs
        exact hbase.callbacks.absent _ (by rw [hnext]; exact Nat.le_add_left 1 i)

end MicrOsal
