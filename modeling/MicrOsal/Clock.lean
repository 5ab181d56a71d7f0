import MicrOsal.Core

/-!
# MicrOsal.Clock

`clock_utils::ms_to_ticks` (`include/osal/clock.hpp`).
-/

namespace MicrOsal

/-- `clock_utils::ms_to_ticks`, for ticks of `periodUs` microseconds. The largest tick is never
returned: it is `WAIT_FOREVER`. -/
def msToTicks (w periodUs : Nat) (ms : Int) : Tick w :=
  if ms ≤ 0 then noWait
  else
    let kMax := 2 ^ w - 2
    let raw := ms.toNat
    if periodUs = 0 then BitVec.ofNat w (min raw kMax)
    else
      let quotient := raw / periodUs
      let remainderTicks := (raw % periodUs * 1000 + periodUs - 1) / periodUs
      if quotient > (kMax - remainderTicks) / 1000 then BitVec.ofNat w kMax
      else BitVec.ofNat w (min (quotient * 1000 + remainderTicks) kMax)

/-- Ticks of a millisecond. -/
theorem toNat_msToTicks {w : Nat} (hw : 16 ≤ w) {ms : Int} (hpos : 0 < ms) :
    (msToTicks w 1000 ms).toNat = min ms.toNat (2 ^ w - 2) := by
  have hpow : 2 ^ 16 ≤ 2 ^ w := Nat.pow_le_pow_right (by decide) hw
  have hfit : ∀ n, n ≤ 2 ^ w - 2 → (BitVec.ofNat w n).toNat = n := by
    intro n hn
    exact (BitVec.toNat_ofNat n w).trans (Nat.mod_eq_of_lt (by omega))
  unfold msToTicks
  rw [if_neg (by omega), if_neg (by decide)]
  dsimp only
  split
  case isTrue hbig =>
    rw [hfit _ (Nat.le_refl _)]
    omega
  case isFalse hsmall =>
    rw [hfit _ (Nat.min_le_right _ _)]
    omega

end MicrOsal
