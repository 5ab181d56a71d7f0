import MicrOsal.Clock.Monotonic
import MicrOsal.Clock.Ticks
import MicrOsal.Lib.Checked

/-!
# MicrOsal.Clock.Conversions

`clock_utils::ms_to_ticks` and `clock_utils::ticks_to_ms` for every value of their arguments.

The first is the exact ceiling, cut off below `WAIT_FOREVER`, and none of its operations on
`std::uint64_t` leaves the range of that type (`msToTicks64`). The second takes a period of 0 for
no time at all, where the first takes it for a millisecond, and its product wraps.
-/

namespace MicrOsal

variable {w periodUs : Nat}

/-! ### Milliseconds to ticks -/

/-- The result of an operation on `std::uint64_t`. -/
abbrev u64 (x : Int) : Option Int := inRange (Unsigned 64) x

/-- `clock_utils::ms_to_ticks` with every operation in the type it is done in; there is no value
if one of them leaves its range. -/
def msToTicks64 (w periodUs : Nat) (ms : Int) : Option (Tick w) :=
  if ms ≤ 0 then some noWait
  else do
    let kMax : Int := (waitForever : Tick w).toNat - 1
    let raw ← u64 ms
    if periodUs = 0 then return BitVec.ofInt w (if raw < kMax then raw else kMax)
    else
      let quotient := raw / periodUs
      let remainder := raw % periodUs
      let remainderUs ← u64 (remainder * 1000)
      let roundedUs ← u64 (remainderUs + periodUs)
      let roundedUs ← u64 (roundedUs - 1)
      let remainderTicks := roundedUs / periodUs
      let room ← u64 (kMax - remainderTicks)
      if quotient > room / 1000 then return BitVec.ofInt w kMax
      else
        let whole ← u64 (quotient * 1000)
        let ticks ← u64 (whole + remainderTicks)
        return BitVec.ofInt w (if ticks < kMax then ticks else kMax)

/-- The largest tick that is not `WAIT_FOREVER`. -/
theorem kMax_eq (hw : 16 ≤ w) : ((waitForever : Tick w).toNat - 1 : Int) = (2 ^ w - 2 : Nat) := by
  have hpow : 2 ^ 16 ≤ 2 ^ w := Nat.pow_le_pow_right (by decide) hw
  rw [waitForever, BitVec.toNat_allOnes]
  omega

/-- No operation leaves its range. -/
theorem msToTicks64_eq (hw : 16 ≤ w) (hw64 : w ≤ 64) (hperiod : periodUs < 2 ^ 32) {ms : Int}
    (hms : InInt64 ms) : msToTicks64 w periodUs ms = some (msToTicks w periodUs ms) := by
  have hpow : 2 ^ 16 ≤ 2 ^ w := Nat.pow_le_pow_right (by decide) hw
  have hpow64 : 2 ^ w ≤ 2 ^ 64 := Nat.pow_le_pow_right (by decide) hw64
  unfold msToTicks64 msToTicks
  split
  · rfl
  rename_i hpos
  obtain ⟨raw, rfl⟩ := Int.eq_ofNat_of_zero_le (by omega : 0 ≤ ms)
  have hraw : raw < 2 ^ 63 := by
    have := hms.2
    omega
  rw [kMax_eq hw, Int.toNat_natCast]
  generalize hmax : 2 ^ w - 2 = kMax
  dsimp only
  rw [unsigned_bind rfl (by omega)]
  split
  · have hmin : (if (raw : Int) < kMax then (raw : Int) else kMax) = (min raw kMax : Nat) := by
      split <;> omega
    rw [hmin, BitVec.ofInt_natCast]
    rfl
  rename_i hzero
  have hP : 0 < periodUs := Nat.pos_of_ne_zero hzero
  have hrest := rest_le hP raw
  have hmod := Nat.mod_lt raw hP
  have hdiv := Nat.div_add_mod raw periodUs
  rw [unsigned_bind (n := raw % periodUs * 1000) (by push_cast; rfl) (by omega),
    unsigned_bind (n := raw % periodUs * 1000 + periodUs) (by push_cast; rfl) (by omega),
    unsigned_bind (n := raw % periodUs * 1000 + periodUs - 1) (by omega) (by omega)]
  rw [← Int.natCast_div, ← Int.natCast_div]
  generalize (raw % periodUs * 1000 + periodUs - 1) / periodUs = rest at hrest ⊢
  generalize raw / periodUs = quotient
  rw [unsigned_bind (n := kMax - rest) (by omega) (by omega)]
  by_cases hbig : quotient > (kMax - rest) / 1000
  · rw [if_pos hbig, if_pos (by omega), BitVec.ofInt_natCast]
    rfl
  · rw [if_neg hbig, if_neg (by omega), unsigned_bind (n := quotient * 1000) (by omega) (by omega),
      unsigned_bind (n := quotient * 1000 + rest) (by omega) (by omega)]
    have hmin : (if ((quotient * 1000 + rest : Nat) : Int) < kMax then
        ((quotient * 1000 + rest : Nat) : Int) else kMax) =
          (min (quotient * 1000 + rest) kMax : Nat) := by
      split <;> omega
    rw [hmin, BitVec.ofInt_natCast]
    rfl

/-- The ticks that a duration fills are its exact quotient by the period, rounded up. -/
theorem ticksFor_eq_ceil (hperiod : 0 < periodUs) (ms : Nat) :
    ticksFor periodUs ms = ⌈((ms * 1000 : Nat) : ℚ) / periodUs⌉₊ := by
  have hpos : (0 : ℚ) < periodUs := by exact_mod_cast hperiod
  refine eq_of_forall_ge_iff fun ticks => ?_
  rw [le_ticksFor_iff hperiod, Nat.ceil_le, div_le_iff₀ hpos]
  norm_cast

/-- More time fills no fewer ticks. -/
theorem ticksFor_mono (hperiod : 0 < periodUs) {ms ms' : Nat} (hle : ms ≤ ms') :
    ticksFor periodUs ms ≤ ticksFor periodUs ms' :=
  (le_ticksFor_iff hperiod _ _).mpr
    ((Nat.mul_le_mul_right 1000 hle).trans ((le_ticksFor_iff hperiod _ _).mp (Nat.le_refl _)))

/-- A duration of some time fills a tick. -/
theorem ticksFor_pos (hperiod : 0 < periodUs) {ms : Nat} (hms : 0 < ms) :
    0 < ticksFor periodUs ms := by
  by_contra hzero
  have := (le_ticksFor_iff hperiod ms 0).mp (by omega)
  omega

/-- `clock_utils::ms_to_ticks` is the saturating ceiling, for ticks of `w` bits and `periodUs`
microseconds. -/
structure SaturatingCeiling (w periodUs : Nat) : Prop where
  /-- No operation wraps or overflows. -/
  safe : ∀ ms, InInt64 ms → msToTicks64 w periodUs ms = some (msToTicks w periodUs ms)
  /-- A negative or zero duration is `NO_WAIT`. -/
  nonpos : ∀ ms : Int, ms ≤ 0 → msToTicks w periodUs ms = noWait
  /-- Any other is rounded up to whole ticks, and cut off at `WAIT_FOREVER - 1`. -/
  exact : ∀ ms : Int, 0 < ms → (msToTicks w periodUs ms).toNat =
    min ⌈(ms * 1000 : ℚ) / periodUs⌉₊ ((waitForever : Tick w).toNat - 1)
  mono : ∀ ms ms' : Int, ms ≤ ms' → msToTicks w periodUs ms ≤ msToTicks w periodUs ms'
  finite : ∀ ms, msToTicks w periodUs ms ≠ waitForever
  nonzero : ∀ ms : Int, 0 < ms → msToTicks w periodUs ms ≠ noWait

/-- The conversion is the exact saturating ceiling for every duration, period and width. -/
theorem msToTicks_exact (hw : w = 16 ∨ w = 32 ∨ w = 64) (hperiod : 1 ≤ periodUs)
    (hperiod32 : periodUs < 2 ^ 32) : SaturatingCeiling w periodUs := by
  have hw16 : 16 ≤ w := by omega
  have hpow : 2 ^ 16 ≤ 2 ^ w := Nat.pow_le_pow_right (by decide) hw16
  have hticks : ∀ ms : Int, 0 < ms →
      (msToTicks w periodUs ms).toNat = min (ticksFor periodUs ms.toNat) (2 ^ w - 2) :=
    fun ms hpos => toNat_msToTicks_eq hw16 hperiod hpos
  have hzero : ∀ ms : Int, ms ≤ 0 → msToTicks w periodUs ms = noWait := fun ms hle => if_pos hle
  have hforever : (waitForever : Tick w).toNat = 2 ^ w - 1 := BitVec.toNat_allOnes
  have hnoWait : (noWait : Tick w).toNat = 0 := BitVec.toNat_zero
  refine ⟨fun ms hms => msToTicks64_eq hw16 (by omega) hperiod32 hms, hzero, ?_, ?_, ?_, ?_⟩
  · intro ms hpos
    obtain ⟨raw, rfl⟩ := Int.eq_ofNat_of_zero_le hpos.le
    rw [hticks _ hpos, Int.toNat_natCast, ticksFor_eq_ceil hperiod, hforever]
    push_cast
    rfl
  · intro ms ms' hle
    rw [BitVec.le_def]
    rcases le_or_gt ms 0 with hnonpos | hpos
    · rw [hzero ms hnonpos]
      exact Nat.zero_le _
    · rw [hticks ms hpos, hticks ms' (by omega)]
      have := ticksFor_mono hperiod (Int.toNat_le_toNat hle)
      omega
  · intro ms heq
    have htoNat := congrArg BitVec.toNat heq
    rcases le_or_gt ms 0 with hnonpos | hpos
    · rw [hzero ms hnonpos, hforever, hnoWait] at htoNat
      omega
    · rw [hticks ms hpos, hforever] at htoNat
      omega
  · intro ms hpos heq
    have htoNat := congrArg BitVec.toNat heq
    have := ticksFor_pos hperiod (by omega : 0 < ms.toNat)
    rw [hticks ms hpos, hnoWait] at htoNat
    omega

/-- 16-bit ticks of 1.5 ms. -/
theorem msToTicks_exact_short : SaturatingCeiling 16 1500 :=
  msToTicks_exact (by decide) (by decide) (by decide)

/-! ### And back -/

/-- The ticks of a duration, if they were not cut off; a tick is a millisecond if the period
is 0. -/
def wantedTicks (periodUs ms : Nat) : Nat := if periodUs = 0 then ms else ticksFor periodUs ms

/-- `clock_utils::ms_to_ticks` does not saturate. -/
def Unsaturated (w periodUs : Nat) (ms : Int) : Prop := wantedTicks periodUs ms.toNat ≤ 2 ^ w - 2

/-- The last tick is at most a period more than is needed. -/
theorem ticksFor_mul_lt (hperiod : 0 < periodUs) (ms : Nat) :
    ticksFor periodUs ms * periodUs < ms * 1000 + periodUs := by
  have := Nat.div_mul_le_self (ms * 1000 + periodUs - 1) periodUs
  unfold ticksFor
  omega

/-- A product that does not wrap keeps the order. -/
theorem ticksToMs_of_lt {ticks : Tick w} (hfits : ticks.toNat * periodUs < 2 ^ 64) :
    ticksToMs periodUs ticks = ticks.toNat * periodUs / 1000 := by
  rw [ticksToMs, Nat.mod_eq_of_lt hfits]

/-- The first tick whose product wraps is shown as less than its period, and the one before it as
almost everything. -/
theorem ticksToMs_drops (hperiod : periodUs < 2 ^ 32)
    (hwraps : 2 ^ 64 ≤ (2 ^ w - 1) * periodUs) :
    ∃ a b : Tick w, a ≤ b ∧ ticksToMs periodUs b < ticksToMs periodUs a := by
  have hpos : 0 < periodUs := by
    rcases Nat.eq_zero_or_pos periodUs with rfl | hpos
    · simp at hwraps
    · exact hpos
  have hdiv := Nat.div_add_mod (2 ^ 64 - 1) periodUs
  have hmod := Nat.mod_lt (2 ^ 64 - 1) hpos
  generalize (2 ^ 64 - 1) / periodUs = last at hdiv
  generalize (2 ^ 64 - 1) % periodUs = rest at hdiv hmod
  have hlast : last + 1 ≤ 2 ^ w - 1 := by
    by_contra hover
    have : (2 ^ w - 1) * periodUs ≤ last * periodUs := Nat.mul_le_mul_right _ (by omega)
    rw [Nat.mul_comm last] at this
    omega
  have hval : ∀ n, n ≤ last + 1 → (BitVec.ofNat w n).toNat = n := by
    intro n hn
    exact (BitVec.toNat_ofNat n w).trans (Nat.mod_eq_of_lt (by omega))
  have hprod : (last + 1) * periodUs = periodUs * last + periodUs := by
    rw [Nat.add_mul, Nat.one_mul, Nat.mul_comm]
  refine ⟨BitVec.ofNat w last, BitVec.ofNat w (last + 1), ?_, ?_⟩
  · rw [BitVec.le_def, hval _ (by omega), hval _ (by omega)]
    omega
  · rw [ticksToMs, ticksToMs, hval _ (by omega), hval _ (by omega), hprod, Nat.mul_comm last]
    omega

/-- A duration survives the way there and back exactly if the period is not 0 and the time of its
ticks, in microseconds, fits in 64 bits; and more ticks are never shown as less time exactly if
the time of the largest tick fits. -/
theorem tickConversions_lossless (hw : 16 ≤ w) (hperiod : periodUs < 2 ^ 32) :
    (∀ ms : Int, 0 < ms → InInt64 ms → Unsaturated w periodUs ms →
      (ms ≤ ticksToMs periodUs (msToTicks w periodUs ms) ↔
        periodUs ≠ 0 ∧ ticksFor periodUs ms.toNat * periodUs < 2 ^ 64)) ∧
    ((∀ a b : Tick w, a ≤ b → ticksToMs periodUs a ≤ ticksToMs periodUs b) ↔
      (2 ^ w - 1) * periodUs < 2 ^ 64) := by
  constructor
  · intro ms hpos _ hfits
    rcases Nat.eq_zero_or_pos periodUs with rfl | hP
    · refine iff_of_false ?_ (fun h => h.1 rfl)
      simp only [ticksToMs, Nat.mul_zero, Nat.zero_mod, Nat.zero_div]
      omega
    have hticks := toNat_msToTicks_eq hw hP hpos
    rw [Unsaturated, wantedTicks, if_neg hP.ne'] at hfits
    rw [Nat.min_eq_left hfits] at hticks
    have hcovers := (le_ticksFor_iff hP ms.toNat _).mp (Nat.le_refl _)
    have hclose := ticksFor_mul_lt hP ms.toNat
    rw [ticksToMs, hticks]
    generalize ticksFor periodUs ms.toNat * periodUs = us at *
    constructor
    · intro hkept
      refine ⟨hP.ne', ?_⟩
      by_contra hwraps
      omega
    · rintro ⟨-, hlt⟩
      omega
  · constructor
    · intro hmono
      by_contra hwraps
      obtain ⟨a, b, hab, hdrop⟩ := ticksToMs_drops hperiod (not_lt.mp hwraps)
      exact absurd (hmono a b hab) (not_le.mpr hdrop)
    · intro hfits a b hab
      have hle : ∀ t : Tick w, t.toNat * periodUs < 2 ^ 64 := fun t =>
        (Nat.mul_le_mul_right _ (by have := t.isLt; omega)).trans_lt hfits
      rw [ticksToMs_of_lt (hle a), ticksToMs_of_lt (hle b)]
      exact Nat.div_le_div_right (Nat.mul_le_mul_right _ (BitVec.le_def.mp hab))

/-- 5 ms in 32-bit ticks of 1.5 ms. -/
theorem tickConversions_lossless_short :
    (5 : Int) ≤ ticksToMs 1500 (msToTicks 32 1500 5) ∧
      ∀ a b : Tick 32, a ≤ b → ticksToMs 1500 a ≤ ticksToMs 1500 b := by
  have hboth := tickConversions_lossless (w := 32) (by decide) (by decide : 1500 < 2 ^ 32)
  exact ⟨(hboth.1 5 (by decide) (by decide) (by unfold Unsaturated; decide)).mpr (by decide),
    hboth.2.mpr (by decide)⟩

/-- Where a tick is a millisecond because there is no period, 5 ms come back as none; and of two
64-bit ticks of 2 ms, the later one is shown as less time. -/
theorem tickConversions_lossy :
    (Unsaturated 32 0 5 ∧ ¬ (5 : Int) ≤ ticksToMs 0 (msToTicks 32 0 5)) ∧
      ¬ ∀ a b : Tick 64, a ≤ b → ticksToMs 2000 a ≤ ticksToMs 2000 b := by
  refine ⟨⟨by unfold Unsaturated; decide, by decide⟩, fun hmono => ?_⟩
  have hkept := hmono 9000000000000000 10000000000000000 (by decide +kernel)
  exact absurd hkept (by decide +kernel)

end MicrOsal
