import MicrOsal.Core
import Mathlib.Data.Int.ModEq
import Mathlib.Data.Rat.Floor
import Mathlib.Tactic.Linarith

/-!
# MicrOsal.Clock.Monotonic

`osal_clock_monotonic_ms` of the backends that count ticks (`freertos/freertos_backend.cpp`,
`threadx/threadx_backend.cpp`, `chibios/chibios_backend.cpp`, `micrium/micrium_backend.cpp`),
and the deadlines that `basic_deadline` makes of it (`include/osal/clock.hpp`).

All four multiply the native counter in 64 bits. The counter has fewer, and wraps.
-/

namespace MicrOsal

/-- In the range of `std::int64_t`. -/
def InInt64 (x : Int) : Prop := -9223372036854775808 ≤ x ∧ x ≤ 9223372036854775807

instance (x : Int) : Decidable (InInt64 x) := by
  unfold InInt64
  infer_instance

/-- `static_cast<std::int64_t>` of an unsigned value. -/
def toInt64 (n : Nat) : Int := (BitVec.ofNat 64 n).toInt

/-! ### The backends -/

section Backends

variable (width rate : Nat)

/-- What a native counter of `width` bits shows after `n` ticks, as a signed value. -/
def reading (n : Nat) : Int := toInt64 (BitVec.ofNat width n).toNat

/-- The ticks in milliseconds; `none` when the product overflows. -/
def ticksAsMs (n : Nat) : Option Int :=
  let scaled := reading width n * 1000
  if InInt64 scaled then some (scaled.tdiv rate) else none

/-- With `xTaskGetTickCount` and `configTICK_RATE_HZ`. -/
def freertosMonotonicMs : Nat → Option Int := ticksAsMs width rate

/-- With `tx_time_get` and `TX_TIMER_TICKS_PER_SECOND`. -/
def threadxMonotonicMs : Nat → Option Int := ticksAsMs width rate

/-- With `chVTGetSystemTimeX` and `CH_CFG_ST_FREQUENCY`. -/
def chibiosMonotonicMs : Nat → Option Int := ticksAsMs width rate

/-- With `OSTimeGet` and `OSCfg_TickRate_Hz`. -/
def micriumMonotonicMs : Nat → Option Int := ticksAsMs width rate

end Backends

/-- The backends whose clock is a tick counter. -/
inductive TickBackend
  | freertos
  | threadx
  | chibios
  | micrium
  deriving DecidableEq, Repr

/-- `osal_clock_monotonic_ms` after `n` ticks. -/
def TickBackend.monotonicMs : TickBackend → Nat → Nat → Nat → Option Int
  | .freertos => freertosMonotonicMs
  | .threadx => threadxMonotonicMs
  | .chibios => chibiosMonotonicMs
  | .micrium => micriumMonotonicMs

theorem TickBackend.monotonicMs_eq (b : TickBackend) : b.monotonicMs = ticksAsMs := by
  cases b <;> rfl

/-! ### Deadlines -/

/-- `detail::ceil_duration` to milliseconds. -/
def ceilDuration (value : ℚ) : Int :=
  let casted := value.num.tdiv value.den
  if (casted : ℚ) < value then casted + 1 else casted

/-- `time_point::max()`. -/
def timePointMax : Int := 9223372036854775807

/-- `detail::saturating_add`; `none` when the difference overflows. -/
def saturatingAdd (base delta : Int) : Option Int :=
  let maxDelta := timePointMax - base
  if InInt64 maxDelta then some (if maxDelta ≤ delta then timePointMax else base + delta) else none

/-- `basic_deadline::after`, with a timeout in milliseconds of which `timeout` may be a
fraction; `none` when the milliseconds overflow. -/
def deadlineAfter (now : Int) (timeout : ℚ) : Option Int :=
  if timeout ≤ 0 then some now
  else if InInt64 (ceilDuration timeout) then saturatingAdd now (ceilDuration timeout)
  else none

/-- `basic_deadline::expired`. -/
def deadlineExpired (expiry now : Int) : Bool := expiry ≤ now

theorem ceilDuration_eq {value : ℚ} (h : 0 < value) : ceilDuration value = ⌈value⌉ := by
  have hnum : 0 ≤ value.num := (Rat.num_pos.mpr h).le
  have hfloor : value.num.tdiv value.den = ⌊value⌋ := by
    rw [Int.tdiv_eq_ediv_of_nonneg hnum, Rat.floor_def']
  unfold ceilDuration
  rw [hfloor]
  dsimp only
  split
  case isTrue hlt =>
    refine (Int.ceil_eq_iff.mpr ⟨?_, ?_⟩).symm
    · push_cast
      linarith
    · push_cast
      exact (Int.lt_floor_add_one value).le
  case isFalse hge =>
    have heq : (⌊value⌋ : ℚ) = value := le_antisymm (Int.floor_le value) (not_lt.mp hge)
    conv_rhs => rw [← heq]
    exact (Int.ceil_intCast _).symm

/-- A deadline that a clock at or after zero makes is met as soon as the timeout, rounded up, has
passed on this clock. -/
theorem deadlineAfter_spec {now later : Int} (hnow : 0 ≤ now) (hlater : now ≤ later)
    (hmax : later < timePointMax) {timeout : ℚ} (hfits : InInt64 ⌈timeout⌉) :
    ∃ expiry, deadlineAfter now timeout = some expiry ∧
      (deadlineExpired expiry later = true ↔ ⌈timeout⌉ ≤ later - now) := by
  unfold deadlineAfter
  split
  case isTrue hle =>
    have hceil : ⌈timeout⌉ ≤ 0 := Int.ceil_le.mpr (by exact_mod_cast hle)
    refine ⟨now, rfl, ?_⟩
    simp only [deadlineExpired, decide_eq_true_eq]
    omega
  case isFalse hpos =>
    rw [ceilDuration_eq (not_le.mp hpos), if_pos hfits, saturatingAdd]
    have hdelta : InInt64 (timePointMax - now) := by
      unfold InInt64 timePointMax at *
      omega
    rw [if_pos hdelta]
    refine ⟨_, rfl, ?_⟩
    simp only [deadlineExpired, decide_eq_true_eq]
    split <;> omega

/-- A clock below zero makes no deadlines. -/
theorem deadlineAfter_of_neg {now : Int} (hnow : now < 0) : deadlineAfter now 1 = none := by
  have hone : ceilDuration 1 = 1 := by decide +kernel
  have hdelta : ¬ InInt64 (timePointMax - now) := by
    unfold InInt64 timePointMax
    omega
  unfold deadlineAfter
  rw [if_neg (by norm_num), hone, if_pos (by decide), saturatingAdd]
  exact if_neg hdelta

/-! ### What the clock loses -/

/-- The whole milliseconds of `n` ticks. -/
def trueMs (rate n : Nat) : Int := n * 1000 / rate

/-- The milliseconds of the laps that the counter has made before its reading, with what the
reading's own conversion cuts off. -/
def lostMs (width rate n : Nat) : Int :=
  ((n - reading width n) * 1000 + (reading width n * 1000).tmod rate) / rate

/-- The ticks of a lap. The reading has 64 bits of a wider counter. -/
def lapTicks (width : Nat) : Int := 2 ^ min width 64

/-- The laps that the counter has made before its reading. -/
def laps (width n : Nat) : Int := (n - reading width n) / lapTicks width

/-- What the whole milliseconds of the laps leave over, and what the conversion cuts off the
reading, can make one more together. -/
def carryMs (width rate n : Nat) : Int :=
  (laps width n * lapTicks width * 1000 % rate + (reading width n * 1000).tmod rate) / rate

variable {width rate n n₁ n₂ : Nat}

theorem laps_mul (width n : Nat) : laps width n * lapTicks width = n - reading width n := by
  refine Int.ediv_mul_cancel (Int.ModEq.dvd ?_)
  have hlow : (2 : Int) ^ min width 64 ∣ 2 ^ 64 := pow_dvd_pow 2 (min_le_right width 64)
  have hwidth : (2 : Int) ^ min width 64 ∣ 2 ^ width := pow_dvd_pow 2 (min_le_left width 64)
  have hread : reading width n ≡ (n % 2 ^ width : Nat) [ZMOD 2 ^ 64] := by
    rw [reading, toInt64, BitVec.toInt_ofNat', BitVec.toNat_ofNat]
    exact Int.bmod_emod
  have hturn : ((n % 2 ^ width : Nat) : Int) ≡ n [ZMOD 2 ^ width] := by
    push_cast
    exact Int.mod_modEq n (2 ^ width)
  exact (hread.of_dvd hlow).trans (hturn.of_dvd hwidth)

theorem lostMs_eq (width n : Nat) (hrate : 0 < rate) :
    lostMs width rate n =
      laps width n * lapTicks width * 1000 / rate + carryMs width rate n := by
  have hsplit := Int.mul_ediv_add_emod (laps width n * lapTicks width * 1000) rate
  rw [lostMs, carryMs, ← laps_mul, ← Int.mul_add_ediv_left _ _ (show (rate : Int) ≠ 0 by omega),
    ← Int.add_assoc, hsplit]

theorem carryMs_bounds (width n : Nat) (hrate : 0 < rate) :
    -1 ≤ carryMs width rate n ∧ carryMs width rate n ≤ 1 := by
  have hrate' : (0 : Int) < rate := by omega
  have hleft := Int.emod_nonneg (laps width n * lapTicks width * 1000) hrate'.ne'
  have hleft' := Int.emod_lt_of_pos (laps width n * lapTicks width * 1000) hrate'
  have hcut := Int.lt_tmod_of_pos (reading width n * 1000) hrate'
  have hcut' := Int.tmod_lt_of_pos (reading width n * 1000) hrate'
  unfold carryMs
  constructor
  · exact (Int.le_ediv_iff_mul_le hrate').mpr (by omega)
  · exact Int.lt_add_one_iff.mp ((Int.ediv_lt_iff_lt_mul hrate').mpr (by omega))

/-- A later lap of three milliseconds or more has lost more, whatever the carries. -/
theorem laps_le_of_lost (hrate : 0 < rate) (hlong : 3 * (rate : Int) ≤ lapTicks width * 1000)
    (hlost : laps width n₁ * lapTicks width * 1000 / rate + carryMs width rate n₁ ≤
      laps width n₂ * lapTicks width * 1000 / rate + carryMs width rate n₂) :
    laps width n₁ ≤ laps width n₂ := by
  by_contra hlater
  have hrate' : (0 : Int) < rate := by omega
  obtain ⟨hlow, -⟩ := carryMs_bounds width n₁ hrate
  obtain ⟨-, hhigh⟩ := carryMs_bounds width n₂ hrate
  have hmul : (laps width n₂ + 1) * (lapTicks width * 1000) ≤
      laps width n₁ * (lapTicks width * 1000) :=
    mul_le_mul_of_nonneg_right (by omega) (by omega)
  have hdiv : laps width n₂ * lapTicks width * 1000 / rate + 3 ≤
      laps width n₁ * lapTicks width * 1000 / rate := by
    rw [← Int.add_mul_ediv_right _ _ hrate'.ne']
    exact Int.ediv_le_ediv hrate' (by linarith)
  -- The two carries make up for two milliseconds at most.
  omega

/-- The clock shows the true milliseconds but for those that are lost. -/
theorem trueMs_eq (width n : Nat) (hrate : 0 < rate) :
    trueMs rate n = (reading width n * 1000).tdiv rate + lostMs width rate n := by
  have hne : (rate : Int) ≠ 0 := by omega
  have hsplit := Int.mul_tdiv_add_tmod (reading width n * 1000) rate
  have hsum : (n : Int) * 1000 =
      ((n - reading width n) * 1000 + (reading width n * 1000).tmod rate) +
        rate * (reading width n * 1000).tdiv rate := by
    linarith
  rw [trueMs, hsum, Int.add_mul_ediv_left _ _ hne, Int.add_comm]
  rfl

theorem ticksAsMs_eq_some {now : Int} (h : ticksAsMs width rate n = some now) :
    InInt64 (reading width n * 1000) ∧ now = (reading width n * 1000).tdiv rate := by
  unfold ticksAsMs at h
  dsimp only at h
  split at h
  case isTrue hfits => exact ⟨hfits, (Option.some.inj h).symm⟩
  case isFalse => cases h

/-- A quotient is not negative as long as the dividend is less than a divisor below zero. -/
theorem tdiv_nonneg_iff (hrate : 0 < rate) (x : Int) : 0 ≤ x.tdiv rate ↔ -(rate : Int) < x := by
  have hrate' : (0 : Int) < rate := by omega
  rcases le_or_gt 0 x with hx | hx
  · exact ⟨fun _ => by omega, fun _ => Int.tdiv_nonneg hx hrate'.le⟩
  · have hneg : x.tdiv rate = -(-x / rate) := by
      rw [← Int.tdiv_eq_ediv_of_nonneg (by omega), Int.neg_tdiv, Int.neg_neg]
    have hlt : -x / rate < 1 ↔ -x < 1 * rate := Int.ediv_lt_iff_lt_mul hrate'
    rw [hneg]
    constructor
    · intro h
      have := hlt.mp (by omega)
      omega
    · intro h
      have := hlt.mpr (by omega)
      omega

/-- The largest time point is never shown. -/
theorem tdiv_lt_max (rate : Nat) (hfits : InInt64 (reading width n * 1000)) :
    (reading width n * 1000).tdiv rate < timePointMax := by
  have hbound : reading width n * 1000 < timePointMax := by
    unfold InInt64 timePointMax at *
    omega
  rcases le_or_gt 0 (reading width n * 1000) with hpos | hneg
  · exact lt_of_le_of_lt (Int.tdiv_le_self _ hpos) hbound
  · have hle : (reading width n * 1000).tdiv rate ≤ 0 := by
      have hopp := Int.tdiv_nonneg (b := rate) (neg_nonneg.mpr hneg.le) (Int.natCast_nonneg rate)
      rw [Int.neg_tdiv] at hopp
      omega
    exact lt_of_le_of_lt hle (by decide)

/-! ### Two readings -/

/-- Two calls after `n₁` and `n₂` ticks: the second shows as many milliseconds more as have
passed, and every deadline made by the first is met then exactly when its timeout, rounded up,
has passed. -/
def ClockKept (monotonicMs : Nat → Option Int) (rate n₁ n₂ : Nat) : Prop :=
  ∃ now later, monotonicMs n₁ = some now ∧ monotonicMs n₂ = some later ∧ now ≤ later ∧
    later - now = trueMs rate n₂ - trueMs rate n₁ ∧
    ∀ timeout : ℚ, InInt64 ⌈timeout⌉ → ∃ expiry, deadlineAfter now timeout = some expiry ∧
      (deadlineExpired expiry later = true ↔
        ⌈timeout⌉ ≤ trueMs rate n₂ - trueMs rate n₁)

/-- The same lap and the same carry; laps of less than three milliseconds are told apart by
their whole milliseconds only. -/
def SameLap (width rate n₁ n₂ : Nat) : Prop :=
  if 3 * (rate : Int) ≤ lapTicks width * 1000 then
    laps width n₁ = laps width n₂ ∧ carryMs width rate n₁ = carryMs width rate n₂
  else
    laps width n₁ * lapTicks width * 1000 / rate + carryMs width rate n₁ =
      laps width n₂ * lapTicks width * 1000 / rate + carryMs width rate n₂

/-- Both readings can be converted, the first not to a time below zero, and they are of the same
lap. -/
structure Comparable (width rate n₁ n₂ : Nat) : Prop where
  first : InInt64 (reading width n₁ * 1000)
  second : InInt64 (reading width n₂ * 1000)
  base : -(rate : Int) < reading width n₁ * 1000
  lap : SameLap width rate n₁ n₂

/-- So much is lost alike before the two readings exactly when they are of the same lap. -/
theorem lap_eq_of_lostMs (hrate : 0 < rate) :
    lostMs width rate n₁ = lostMs width rate n₂ ↔ SameLap width rate n₁ n₂ := by
  rw [lostMs_eq width n₁ hrate, lostMs_eq width n₂ hrate]
  unfold SameLap
  split
  case isFalse => rfl
  case isTrue hlong =>
    refine ⟨fun hlost => ?_, fun ⟨hlap, hcarry⟩ => by rw [hlap, hcarry]⟩
    have hlap := le_antisymm (laps_le_of_lost hrate hlong hlost.le)
      (laps_le_of_lost hrate hlong hlost.ge)
    rw [hlap] at hlost
    exact ⟨hlap, Int.add_left_cancel hlost⟩

theorem trueMs_le (hrate : 0 < rate) (h : n₁ ≤ n₂) : trueMs rate n₁ ≤ trueMs rate n₂ :=
  Int.ediv_le_ediv (by omega) (by omega)

/-- The clock keeps the time between two calls exactly when their readings are of the same lap of
the counter. -/
theorem monotonicMs_kept (b : TickBackend) {width rate n₁ n₂ : Nat} (hrate : 0 < rate)
    (hle : n₁ ≤ n₂) :
    ClockKept (b.monotonicMs width rate) rate n₁ n₂ ↔ Comparable width rate n₁ n₂ := by
  rw [b.monotonicMs_eq]
  have hfirst := trueMs_eq width n₁ hrate
  have hsecond := trueMs_eq width n₂ hrate
  constructor
  · rintro ⟨now, later, hnow, hlater, -, hdiff, hdeadline⟩
    obtain ⟨hfits₁, rfl⟩ := ticksAsMs_eq_some hnow
    obtain ⟨hfits₂, rfl⟩ := ticksAsMs_eq_some hlater
    refine ⟨hfits₁, hfits₂, ?_, (lap_eq_of_lostMs hrate).mp (by omega)⟩
    by_contra hbase
    have hneg : (reading width n₁ * 1000).tdiv rate < 0 :=
      not_le.mp (fun h => hbase ((tdiv_nonneg_iff hrate _).mp h))
    obtain ⟨expiry, hexpiry, -⟩ := hdeadline 1 (by decide +kernel)
    rw [deadlineAfter_of_neg hneg] at hexpiry
    cases hexpiry
  · rintro ⟨hfits₁, hfits₂, hbase, hlap⟩
    have hlost := (lap_eq_of_lostMs hrate).mpr hlap
    have hmono := trueMs_le hrate hle
    have hnow := (tdiv_nonneg_iff hrate _).mpr hbase
    refine ⟨_, _, if_pos hfits₁, if_pos hfits₂, by omega, by omega, fun timeout hfits => ?_⟩
    obtain ⟨expiry, hexpiry, hmet⟩ :=
      deadlineAfter_spec hnow (by omega) (tdiv_lt_max rate hfits₂) hfits
    refine ⟨expiry, hexpiry, hmet.trans ?_⟩
    rw [show (reading width n₂ * 1000).tdiv rate - (reading width n₁ * 1000).tdiv rate =
      trueMs rate n₂ - trueMs rate n₁ by omega]

/-! ### Laps -/

/-- A counter of less than 64 bits shows the ticks of its lap. -/
theorem reading_eq (hwidth : width < 64) (n : Nat) : reading width n = (n % 2 ^ width : Nat) := by
  have hpow : 2 ^ width ≤ 2 ^ 63 := Nat.pow_le_pow_right (by decide) (by omega)
  have hlt : n % 2 ^ width < 2 ^ width := Nat.mod_lt _ (Nat.two_pow_pos _)
  rw [reading, toInt64, BitVec.toNat_ofNat]
  rw [BitVec.toInt_eq_toNat_of_lt, BitVec.toNat_ofNat, Nat.mod_eq_of_lt (by omega)]
  rw [BitVec.toNat_ofNat, Nat.mod_eq_of_lt (by omega)]
  omega

/-- Its laps are the times that it has come round. -/
theorem laps_eq (hwidth : width < 64) (n : Nat) : laps width n = (n / 2 ^ width : Nat) := by
  have hpow : ((2 ^ width : Nat) : Int) ≠ 0 := by exact_mod_cast (Nat.two_pow_pos width).ne'
  have hsplit : (n : Int) - (n % 2 ^ width : Nat) = (2 ^ width : Nat) * (n / 2 ^ width : Nat) := by
    have := Nat.div_add_mod n (2 ^ width)
    rw [← Int.natCast_mul]
    omega
  have hcast : (2 : Int) ^ width = (2 ^ width : Nat) := by
    push_cast
    rfl
  rw [laps, lapTicks, reading_eq hwidth, min_eq_left hwidth.le, hsplit, hcast,
    Int.mul_ediv_cancel_left _ hpow]

/-- In its first lap nothing is left over. -/
theorem carryMs_eq_zero (hwidth : width < 64) (hrate : 0 < rate) (h : n < 2 ^ width) :
    carryMs width rate n = 0 := by
  have hrate' : (0 : Int) < rate := by omega
  rw [carryMs, laps_eq hwidth, Nat.div_eq_of_lt h, reading_eq hwidth,
    Int.tmod_eq_emod_of_nonneg (by omega)]
  simp only [Int.natCast_zero, Int.zero_mul, Int.zero_emod, Int.zero_add]
  exact Int.ediv_eq_zero_of_lt (Int.emod_nonneg _ hrate'.ne') (Int.emod_lt_of_pos _ hrate')

/-- As long as the counter has not wrapped, and its product does not overflow, the clock is kept. -/
theorem comparable_of_lt (hwidth : width < 64) (hrate : 0 < rate) (hle : n₁ ≤ n₂)
    (hlt : n₂ < 2 ^ width) (hfits : n₂ * 1000 < 2 ^ 63) : Comparable width rate n₁ n₂ := by
  have hlt₁ : n₁ < 2 ^ width := lt_of_le_of_lt hle hlt
  have hfirst := reading_eq hwidth n₁
  have hsecond := reading_eq hwidth n₂
  rw [Nat.mod_eq_of_lt hlt₁] at hfirst
  rw [Nat.mod_eq_of_lt hlt] at hsecond
  constructor
  case first =>
    rw [hfirst]
    unfold InInt64
    omega
  case second =>
    rw [hsecond]
    unfold InInt64
    omega
  case base => omega
  case lap =>
    rw [SameLap, laps_eq hwidth, laps_eq hwidth, Nat.div_eq_of_lt hlt₁, Nat.div_eq_of_lt hlt,
      carryMs_eq_zero hwidth hrate hlt₁, carryMs_eq_zero hwidth hrate hlt]
    split
    · exact ⟨rfl, rfl⟩
    · rfl

/-! ### A wrap -/

/-- Half an hour before the wrap of a 32-bit counter of milliseconds, and a minute later. -/
theorem monotonicMs_kept_before :
    ClockKept (TickBackend.freertos.monotonicMs 32 1000) 1000 4293167296 4293227296 :=
  (monotonicMs_kept .freertos (by decide) (by decide)).mpr
    (comparable_of_lt (by decide) (by decide) (by decide) (by decide) (by decide))

/-- The tick after the wrap, the clock is back at zero. -/
theorem monotonicMs_wraps :
    TickBackend.freertos.monotonicMs 32 1000 4294967295 = some 4294967295 ∧
      TickBackend.freertos.monotonicMs 32 1000 4294967296 = some 0 ∧
      ¬ ClockKept (TickBackend.freertos.monotonicMs 32 1000) 1000 4294967295 4294967296 := by
  have hfirst : TickBackend.freertos.monotonicMs 32 1000 4294967295 = some 4294967295 := by
    decide +kernel
  have hsecond : TickBackend.freertos.monotonicMs 32 1000 4294967296 = some 0 := by
    decide +kernel
  refine ⟨hfirst, hsecond, ?_⟩
  rintro ⟨now, later, hnow, hlater, hle, -⟩
  obtain rfl := Option.some.inj (hfirst.symm.trans hnow)
  obtain rfl := Option.some.inj (hsecond.symm.trans hlater)
  exact absurd hle (by decide)

end MicrOsal
