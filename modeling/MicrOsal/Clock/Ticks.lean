import MicrOsal.Clock

/-!
# MicrOsal.Clock.Ticks

What `clock_utils::ms_to_ticks` and `clock_utils::ticks_to_ms` make of a duration, for every
tick period: the first rounds up and stops at the largest tick but one, the second rounds down.
-/

namespace MicrOsal

/-- `clock_utils::ticks_to_ms`, for ticks of `periodUs` microseconds; the product is one of
64 bits. -/
def ticksToMs {w : Nat} (periodUs : Nat) (ticks : Tick w) : Nat :=
  ticks.toNat * periodUs % 2 ^ 64 / 1000

/-- As many ticks as the duration fills, the last one perhaps in part. -/
def ticksFor (periodUs ms : Nat) : Nat := (ms * 1000 + periodUs - 1) / periodUs

/-- The ticks in full periods, and those of the rest. -/
theorem ticksFor_eq {periodUs : Nat} (hperiod : 0 < periodUs) (ms : Nat) :
    ticksFor periodUs ms =
      ms / periodUs * 1000 + (ms % periodUs * 1000 + periodUs - 1) / periodUs := by
  have hsplit : ms * 1000 + periodUs - 1 =
      ms % periodUs * 1000 + periodUs - 1 + periodUs * (ms / periodUs * 1000) := by
    have hms := Nat.div_add_mod ms periodUs
    have hmul : ms * 1000 = periodUs * (ms / periodUs * 1000) + ms % periodUs * 1000 := by
      rw [← Nat.mul_assoc, ← Nat.add_mul, hms]
    omega
  rw [ticksFor, hsplit, Nat.add_mul_div_left _ _ hperiod, Nat.add_comm]

theorem le_ticksFor_iff {periodUs : Nat} (hperiod : 0 < periodUs) (ms ticks : Nat) :
    ticksFor periodUs ms ≤ ticks ↔ ms * 1000 ≤ ticks * periodUs := by
  rw [ticksFor, Nat.div_le_iff_le_mul hperiod]
  omega

/-- The rest of a full period is at most 1000 ticks. -/
theorem rest_le {periodUs : Nat} (hperiod : 0 < periodUs) (ms : Nat) :
    (ms % periodUs * 1000 + periodUs - 1) / periodUs ≤ 1000 := by
  rw [Nat.div_le_iff_le_mul hperiod]
  have := Nat.mod_lt ms hperiod
  have : ms % periodUs * 1000 ≤ periodUs * 1000 := Nat.mul_le_mul_right _ (by omega)
  omega

/-- The ticks are rounded up, and stop below `WAIT_FOREVER`. -/
theorem toNat_msToTicks_eq {w periodUs : Nat} (hw : 16 ≤ w) (hperiod : 0 < periodUs) {ms : Int}
    (hpos : 0 < ms) :
    (msToTicks w periodUs ms).toNat = min (ticksFor periodUs ms.toNat) (2 ^ w - 2) := by
  have hpow : 2 ^ 16 ≤ 2 ^ w := Nat.pow_le_pow_right (by decide) hw
  have hfit : ∀ n, n ≤ 2 ^ w - 2 → (BitVec.ofNat w n).toNat = n := by
    intro n hn
    exact (BitVec.toNat_ofNat n w).trans (Nat.mod_eq_of_lt (by omega))
  have hrest := rest_le hperiod ms.toNat
  have hticks := ticksFor_eq hperiod ms.toNat
  unfold msToTicks
  rw [if_neg (by omega), if_neg (by omega)]
  dsimp only
  split
  case isTrue hbig =>
    rw [hfit _ (Nat.le_refl _)]
    have := (Nat.div_lt_iff_lt_mul (by decide)).mp hbig
    omega
  case isFalse => rw [hfit _ (Nat.min_le_right _ _), hticks]

/-- The ticks cover the duration exactly when the largest tick but one does. -/
theorem covers_iff {w periodUs : Nat} (hw : 16 ≤ w) (hperiod : 0 < periodUs) {ms : Int}
    (hpos : 0 < ms) :
    ms.toNat * 1000 ≤ (msToTicks w periodUs ms).toNat * periodUs ↔
      ms.toNat * 1000 ≤ (2 ^ w - 2) * periodUs := by
  rw [toNat_msToTicks_eq hw hperiod hpos, ← le_ticksFor_iff hperiod, ← le_ticksFor_iff hperiod]
  omega

end MicrOsal
