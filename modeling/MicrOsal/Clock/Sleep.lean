import MicrOsal.Lib.Checked
import Mathlib.Tactic.Ring

/-!
# MicrOsal.Clock.Sleep

`thread::sleep_for` (`include/osal/thread.hpp`) and the ticks that `osal_thread_sleep_ms` programs
for it on FreeRTOS, ThreadX and embOS. A sleep blocks for at least the time it is asked for
(`Lasts`).

Each backend has a formula of its own. FreeRTOS divides by `portTICK_PERIOD_MS`, which is the tick
period in whole milliseconds; ThreadX multiplies with the rate in the width of `ULONG` and divides
by 1000; embOS takes the milliseconds for ticks. The first two round down.
-/

namespace MicrOsal.Sleep

/-! ### The code -/

/-- `osal_thread_sleep_ms` (`freertos_backend.cpp`), with a `TickType_t` of `tickBits`: the
argument of `vTaskDelay`. There is none where the division is one by zero. -/
def freertosTicks (tickBits portTickPeriodMs ms : Nat) : Option Nat :=
  if portTickPeriodMs = 0 then none
  else
    let ticks := ms / portTickPeriodMs % 2 ^ tickBits
    some (if 0 < ticks then ticks else 1)

/-- `osal_thread_sleep_ms` (`threadx_backend.cpp`), with a `ULONG` of `ulongBits`: the argument of
`tx_thread_sleep`. -/
def threadxTicks (ulongBits ticksPerSecond ms : Nat) : Nat :=
  let ticks := ms * ticksPerSecond % 2 ^ ulongBits / 1000
  if ticks = 0 then 1 else ticks

/-- The integer type `OS_TIME`. -/
structure OsTime where
  bits : Nat
  signed : Bool

namespace OsTime

/-- `static_cast<OS_TIME>`. -/
def cast (t : OsTime) (x : Nat) : Int :=
  if t.signed then Int.bmod x (2 ^ t.bits) else (x % 2 ^ t.bits : Nat)

/-- `std::numeric_limits<OS_TIME>::max()`. -/
def max (t : OsTime) : Nat := (if t.signed then 2 ^ (t.bits - 1) else 2 ^ t.bits) - 1

end OsTime

/-- `osal_thread_sleep_ms` (`embos_backend.cpp`): the argument of `OS_TASK_Delay`. -/
def embosTicks (osTime : OsTime) (ms : Nat) : Int := osTime.cast ms

/-- `thread::sleep_for`: the argument of `osal_thread_sleep_ms`, if it is called. -/
def sleepFor (duration : Int) : Option Nat :=
  if duration ≤ 0 then none
  else
    let kMax : Int := 4294967295
    let ms := if kMax < duration then kMax else duration
    some (ms.toNat % 2 ^ 32)

/-! ### The promise -/

/-- So many ticks, `rate` of them a second, are no shorter than the milliseconds. -/
def Lasts (rate ms : Nat) (ticks : Int) : Prop := (ms * rate : Int) ≤ ticks * 1000

section

variable {rate ms : Nat}

/-- The quotient loses the rest of its own division and gains that of `portTICK_PERIOD_MS`. -/
theorem quotient_lasts_iff (rate ms : Nat) :
    ms * rate ≤ ms / (1000 / rate) * 1000 ↔
      ms % (1000 / rate) * rate ≤ ms / (1000 / rate) * (1000 % rate) := by
  have hms := Nat.div_add_mod ms (1000 / rate)
  have hrate := Nat.div_add_mod 1000 rate
  generalize 1000 / rate = period at *
  generalize 1000 % rate = gained at *
  generalize ms / period = ticks at *
  generalize ms % period = lost at *
  have hasked : ms * rate = ticks * (rate * period) + lost * rate := by
    rw [← hms]
    ring
  have hgot : ticks * 1000 = ticks * (rate * period) + ticks * gained := by
    rw [← hrate]
    ring
  omega

/-- A quotient that is too large for the type falls short of the time: what is left of it is
less than half of it. -/
theorem truncated_short {tickBits : Nat} (hbits : 16 ≤ tickBits) (hrate : 1 ≤ rate)
    (hadmitted : rate ≤ 1000) (hlarge : 2 ^ tickBits ≤ ms / (1000 / rate)) :
    max (ms / (1000 / rate) % 2 ^ tickBits) 1 * 1000 < ms * rate := by
  have hpow : 2 ^ 16 ≤ 2 ^ tickBits := Nat.pow_le_pow_right (by decide) hbits
  have hperiod : 1 ≤ 1000 / rate := (Nat.one_le_div_iff hrate).mpr hadmitted
  have hhalf : 500 < 1000 / rate * rate := by
    have hdiv := Nat.div_add_mod 1000 rate
    have hmod := Nat.mod_lt 1000 hrate
    have hmul : rate * 1 ≤ rate * (1000 / rate) := Nat.mul_le_mul_left rate hperiod
    rw [Nat.mul_comm (1000 / rate) rate]
    omega
  have hasked : ms / (1000 / rate) * 501 ≤ ms * rate := calc
    ms / (1000 / rate) * 501 ≤ ms / (1000 / rate) * (1000 / rate * rate) :=
      Nat.mul_le_mul_left _ hhalf
    _ = ms / (1000 / rate) * (1000 / rate) * rate := (Nat.mul_assoc ..).symm
    _ ≤ ms * rate := Nat.mul_le_mul_right rate (Nat.div_mul_le_self ms _)
  have hrest : 2 * (ms / (1000 / rate) % 2 ^ tickBits) < ms / (1000 / rate) := by
    have hlt := Nat.mod_lt (ms / (1000 / rate)) (Nat.two_pow_pos tickBits)
    have hdiv := Nat.div_add_mod (ms / (1000 / rate)) (2 ^ tickBits)
    have hfull : 1 ≤ ms / (1000 / rate) / 2 ^ tickBits :=
      (Nat.one_le_div_iff (Nat.two_pow_pos tickBits)).mpr hlarge
    have hmul : 2 ^ tickBits * 1 ≤ 2 ^ tickBits * (ms / (1000 / rate) / 2 ^ tickBits) :=
      Nat.mul_le_mul_left _ hfull
    omega
  omega

/-- FreeRTOS sleeps long enough if the ticks fit their type, and are the least possible delay or
gain as much from the rounded period as they lose. -/
theorem freertosTicks_lasts_iff {tickBits : Nat} (hbits : 16 ≤ tickBits) (hrate : 1 ≤ rate) :
    (∃ ticks, freertosTicks tickBits (1000 / rate) ms = some ticks ∧ Lasts rate ms ticks) ↔
      rate ≤ 1000 ∧ ms / (1000 / rate) < 2 ^ tickBits ∧
        (ms < 1000 / rate ∨
          ms % (1000 / rate) * rate ≤ ms / (1000 / rate) * (1000 % rate)) := by
  unfold freertosTicks Lasts
  by_cases hadmitted : rate ≤ 1000
  case neg =>
    rw [if_pos (Nat.div_eq_of_lt (by omega))]
    exact iff_of_false (fun ⟨_, h, _⟩ => nomatch h) (fun h => hadmitted h.1)
  have hperiod : 1 ≤ 1000 / rate := (Nat.one_le_div_iff hrate).mpr hadmitted
  rw [if_neg (by omega)]
  dsimp only
  simp only [Option.some.injEq, exists_eq_left', hadmitted, true_and]
  have hnorm : ∀ n : Nat, (ms * rate : Int) ≤ n * 1000 ↔ ms * rate ≤ n * 1000 := by
    intro n
    exact_mod_cast Iff.rfl
  rw [hnorm]
  by_cases hfits : ms / (1000 / rate) < 2 ^ tickBits
  case neg =>
    have hshort := truncated_short hbits hrate hadmitted (Nat.le_of_not_lt hfits)
    refine iff_of_false (fun hle => ?_) (fun h => hfits h.1)
    split at hle <;> omega
  rw [Nat.mod_eq_of_lt hfits, ← quotient_lasts_iff]
  simp only [hfits, true_and]
  by_cases hwhole : ms < 1000 / rate
  · -- Less than a period: one tick.
    have hmul : (ms + 1) * rate ≤ 1000 / rate * rate := Nat.mul_le_mul_right rate hwhole
    have hdiv := Nat.div_mul_le_self 1000 rate
    rw [Nat.add_one_mul] at hmul
    rw [Nat.div_eq_of_lt hwhole]
    refine iff_of_true ?_ (.inl hwhole)
    rw [if_neg (Nat.lt_irrefl 0)]
    omega
  · have hpos : 0 < ms / (1000 / rate) := Nat.div_pos (by omega) hperiod
    rw [if_pos hpos]
    exact ⟨.inr, fun h => h.resolve_left hwhole⟩

/-- ThreadX sleeps long enough if the product fits, and is at most a tick or without a rest. -/
theorem threadxTicks_lasts_iff {ulongBits : Nat} (hbits : 32 ≤ ulongBits) :
    Lasts rate ms (threadxTicks ulongBits rate ms) ↔
      ms * rate < 2 ^ ulongBits ∧ (ms * rate ≤ 1000 ∨ 1000 ∣ ms * rate) := by
  have hpow : 2 ^ 32 ≤ 2 ^ ulongBits := Nat.pow_le_pow_right (by decide) hbits
  have hlasts : Lasts rate ms (threadxTicks ulongBits rate ms) ↔
      ms * rate ≤ threadxTicks ulongBits rate ms * 1000 := by
    unfold Lasts
    exact_mod_cast Iff.rfl
  rw [hlasts]
  unfold threadxTicks
  dsimp only
  generalize ms * rate = product
  by_cases hfits : product < 2 ^ ulongBits
  · rw [Nat.mod_eq_of_lt hfits]
    simp only [hfits, true_and]
    split <;> omega
  · have hdiv := Nat.div_add_mod product (2 ^ ulongBits)
    have hfull : 1 ≤ product / 2 ^ ulongBits :=
      (Nat.one_le_div_iff (Nat.two_pow_pos _)).mpr (Nat.le_of_not_lt hfits)
    have hmul : 2 ^ ulongBits * 1 ≤ 2 ^ ulongBits * (product / 2 ^ ulongBits) :=
      Nat.mul_le_mul_left _ hfull
    refine iff_of_false (fun hle => ?_) (fun h => hfits h.1)
    split at hle <;> omega

/-- The values up to the largest are the ones that a cast keeps. -/
theorem OsTime.cast_eq_iff {t : OsTime} (hbits : 0 < t.bits) (n : Nat) :
    t.cast n = n ↔ n ≤ t.max := by
  obtain ⟨bits, signed⟩ := t
  dsimp only at hbits
  have hpow : 2 ^ bits = 2 * 2 ^ (bits - 1) := by
    obtain ⟨k, rfl⟩ := Nat.exists_eq_add_of_lt hbits
    rw [Nat.zero_add, Nat.add_sub_cancel, Nat.pow_succ, Nat.mul_comm]
  have hpos : 0 < 2 ^ (bits - 1) := Nat.two_pow_pos _
  unfold OsTime.cast OsTime.max
  cases signed with
  | false =>
      simp only [Bool.false_eq_true, if_false, Nat.cast_inj]
      rw [Nat.mod_eq_iff_lt (by omega)]
      omega
  | true =>
      simp only [if_true]
      constructor
      · intro h
        have hlt := Int.bmod_lt (x := (n : Int)) (m := 2 ^ bits) (Nat.two_pow_pos _)
        rw [h] at hlt
        omega
      · intro hle
        exact Int.bmod_eq_of_le (by omega) (by omega)

/-- The milliseconds as ticks are enough for rates of at most a thousand. -/
theorem millis_lasts_iff : Lasts rate ms ms ↔ rate ≤ 1000 ∨ ms = 0 := by
  have hnorm : Lasts rate ms ms ↔ ms * rate ≤ ms * 1000 := by
    unfold Lasts
    exact_mod_cast Iff.rfl
  rw [hnorm]
  rcases Nat.eq_zero_or_pos ms with rfl | hpos
  · simp
  · rw [Nat.mul_le_mul_left_iff hpos]
    omega

/-- The duration in milliseconds, up to the largest that the backend takes. -/
theorem sleepFor_eq {duration : Int} (hpos : 0 < duration) :
    sleepFor duration = some (min duration.toNat (2 ^ 32 - 1)) := by
  unfold sleepFor
  rw [if_neg (by omega)]
  dsimp only
  split <;> exact congrArg some (by omega)

end

/-! ### The sleeps of the backends -/

/-- When the ticks of a backend are no shorter than the milliseconds, in terms of the tick rate
and the milliseconds. -/
structure SleepsLongEnough (tickBits portTickPeriodMs ulongBits : Nat) (osTime : OsTime)
    (rate ms : Nat) : Prop where
  freertos : (∃ ticks, freertosTicks tickBits portTickPeriodMs ms = some ticks ∧
      Lasts rate ms ticks) ↔
    rate ≤ 1000 ∧ ms / (1000 / rate) < 2 ^ tickBits ∧
      (ms < 1000 / rate ∨ ms % (1000 / rate) * rate ≤ ms / (1000 / rate) * (1000 % rate))
  threadx : Lasts rate ms (threadxTicks ulongBits rate ms) ↔
    ms * rate < 2 ^ ulongBits ∧ (ms * rate ≤ 1000 ∨ 1000 ∣ ms * rate)
  /-- The milliseconds are not changed on the way to `OS_TIME`, and are ticks enough. -/
  embos : embosTicks osTime ms = ms ∧ Lasts rate ms (embosTicks osTime ms) ↔
    ms ≤ osTime.max ∧ (rate ≤ 1000 ∨ ms = 0)

/-- What `sleep_for` asks its backend for is the duration up to the largest number of
milliseconds, and each backend sleeps that long exactly where its formula loses nothing. -/
theorem sleeps_last {tickBits portTickPeriodMs ulongBits rate : Nat} {osTime : OsTime}
    (htick : 16 ≤ tickBits) (hulong : 32 ≤ ulongBits) (htime : 0 < osTime.bits)
    (hrate : 1 ≤ rate) (hperiod : portTickPeriodMs = 1000 / rate) :
    (∀ duration : Int, 0 < duration →
      sleepFor duration = some (min duration.toNat (2 ^ 32 - 1))) ∧
    (∀ ms < 2 ^ 32, SleepsLongEnough tickBits portTickPeriodMs ulongBits osTime rate ms) := by
  subst hperiod
  refine ⟨fun _ hpos => sleepFor_eq hpos, fun ms _ => ⟨?_, ?_, ?_⟩⟩
  · exact freertosTicks_lasts_iff htick hrate
  · exact threadxTicks_lasts_iff hulong
  · unfold embosTicks
    rw [OsTime.cast_eq_iff htime]
    refine and_congr_right fun hfits => ?_
    rw [(OsTime.cast_eq_iff htime ms).mpr hfits]
    exact millis_lasts_iff

/-- A second and a half on each of them with a thousand ticks a second. -/
theorem sleeps_last_thousand :
    sleepFor 1500 = some 1500 ∧
    (∃ ticks, freertosTicks 32 1 1500 = some ticks ∧ Lasts 1000 1500 ticks) ∧
    Lasts 1000 1500 (threadxTicks 32 1000 1500) ∧
    Lasts 1000 1500 (embosTicks ⟨32, true⟩ 1500) :=
  have h : _ ∧ ∀ ms < 2 ^ 32, SleepsLongEnough 32 1 32 ⟨32, true⟩ 1000 ms :=
    sleeps_last (by decide) (by decide) (by decide) (by decide) (by decide)
  ⟨h.1 1500 (by decide), (h.2 1500 (by decide)).freertos.2 (by decide),
    (h.2 1500 (by decide)).threadx.2 (by decide),
    ((h.2 1500 (by decide)).embos.2 (by decide)).2⟩

/-- Fifteen milliseconds are one tick of ten on FreeRTOS and ThreadX, and with ticks of a tenth of
a millisecond a tenth of the time on embOS; FreeRTOS divides by zero there. -/
theorem sleeps_short :
    sleepFor 15 = some 15 ∧
    (1000 / 100 = 10 ∧ freertosTicks 32 10 15 = some 1 ∧ ¬ Lasts 100 15 1) ∧
    (1000 / 10000 = 0 ∧ freertosTicks 32 0 15 = none) ∧
    (threadxTicks 32 100 15 = 1 ∧ ¬ Lasts 100 15 1) ∧
    (embosTicks ⟨32, true⟩ 15 = 15 ∧ ¬ Lasts 10000 15 15) := by
  unfold Lasts
  decide

end MicrOsal.Sleep
