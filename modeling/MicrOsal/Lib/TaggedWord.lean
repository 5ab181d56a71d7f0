import Mathlib.Data.BitVec

/-!
# MicrOsal.Lib.TaggedWord

Machine words that carry a small tag in their low bits and a counter above it,
and double words that are stored as two halves.

A `w`-bit word with `k` tag bits is `tagged w k n t`: the counter `n`, which
wraps at `2 ^ (w - k)`, shifted above the tag `t`. Masks act on such a word as
they should: one reads the tag, the complement clears it, and adding one above
the tag steps the counter.
-/

namespace MicrOsal

/-! ### Tagged words -/

section Tagged

variable {w k : Nat}

/-- Counter `n` above the `k`-bit tag `t`. -/
def tagged (w k n t : Nat) : BitVec w := BitVec.ofNat w (n * 2 ^ k + t)

/-- The mask that selects the tag. -/
def tagMask (w k : Nat) : BitVec w := BitVec.ofNat w (2 ^ k - 1)

theorem tagMask_toNat (hk : k ≤ w) : (tagMask w k).toNat = 2 ^ k - 1 := by
  have hle : 2 ^ k ≤ 2 ^ w := Nat.pow_le_pow_right (by decide) hk
  have hpos : 0 < 2 ^ k := Nat.two_pow_pos k
  rw [tagMask, BitVec.toNat_ofNat, Nat.mod_eq_of_lt (by omega)]

/-- The low bits of a tagged word survive the wrap of its counter. -/
theorem tagged_toNat_mod (hk : k ≤ w) {n t : Nat} (ht : t < 2 ^ k) :
    (tagged w k n t).toNat % 2 ^ k = t := by
  rw [tagged, BitVec.toNat_ofNat, Nat.mod_mod_of_dvd _ (pow_dvd_pow 2 hk), Nat.add_comm,
    Nat.add_mul_mod_self_right, Nat.mod_eq_of_lt ht]

/-- Masking reads the tag. -/
theorem tagged_and_mask (hk : k ≤ w) {n t : Nat} (ht : t < 2 ^ k) :
    tagged w k n t &&& tagMask w k = BitVec.ofNat w t := by
  have hle : 2 ^ k ≤ 2 ^ w := Nat.pow_le_pow_right (by decide) hk
  apply BitVec.eq_of_toNat_eq
  rw [BitVec.toNat_and, tagMask_toNat hk, Nat.and_two_pow_sub_one_eq_mod, tagged_toNat_mod hk ht,
    BitVec.toNat_ofNat, Nat.mod_eq_of_lt (by omega)]

/-- A word is its tag plus what the complement of the mask leaves of it. -/
theorem and_mask_add_and_not (x m : BitVec w) : (x &&& ~~~m) + (x &&& m) = x := by
  have hzero : (x &&& ~~~m) &&& (x &&& m) = 0#w := by
    ext i hi
    simp only [BitVec.getElem_and, BitVec.getElem_not, BitVec.getElem_zero]
    cases x[i] <;> cases m[i] <;> rfl
  rw [BitVec.add_eq_or_of_and_eq_zero _ _ hzero]
  ext i hi
  simp only [BitVec.getElem_or, BitVec.getElem_and, BitVec.getElem_not]
  cases x[i] <;> cases m[i] <;> rfl

/-- Masking with the complement clears the tag. -/
theorem tagged_and_not_mask (hk : k ≤ w) {n t : Nat} (ht : t < 2 ^ k) :
    tagged w k n t &&& ~~~tagMask w k = tagged w k n 0 := by
  have hsum := and_mask_add_and_not (tagged w k n t) (tagMask w k)
  rw [tagged_and_mask hk ht] at hsum
  have htag : tagged w k n t = tagged w k n 0 + BitVec.ofNat w t := by
    rw [tagged, tagged, ← BitVec.ofNat_add, Nat.add_zero]
  rw [htag] at hsum ⊢
  exact add_right_cancel hsum

/-- Putting a tag into a cleared word. -/
theorem tagged_or (hk : k ≤ w) {n t : Nat} (ht : t < 2 ^ k) :
    tagged w k n 0 ||| BitVec.ofNat w t = tagged w k n t := by
  have hle : 2 ^ k ≤ 2 ^ w := Nat.pow_le_pow_right (by decide) hk
  have hzero : tagged w k n 0 &&& BitVec.ofNat w t = 0#w := by
    -- the tag lies under the mask, the rest of the word outside it
    have hsub : BitVec.ofNat w t = BitVec.ofNat w t &&& tagMask w k := by
      apply BitVec.eq_of_toNat_eq
      rw [BitVec.toNat_and, tagMask_toNat hk, Nat.and_two_pow_sub_one_eq_mod, BitVec.toNat_ofNat,
        Nat.mod_eq_of_lt (show t < 2 ^ w by omega), Nat.mod_eq_of_lt ht]
    rw [hsub, BitVec.and_comm (BitVec.ofNat w t), ← BitVec.and_assoc,
      tagged_and_mask hk (Nat.two_pow_pos k)]
    simp
  rw [← BitVec.add_eq_or_of_and_eq_zero _ _ hzero, tagged, tagged, ← BitVec.ofNat_add,
    Nat.add_zero]

/-- One above the tag steps the counter. -/
theorem tagged_step (n : Nat) :
    tagged w k n 0 + BitVec.ofNat w (2 ^ k) = tagged w k (n + 1) 0 := by
  rw [tagged, tagged, ← BitVec.ofNat_add, Nat.add_zero, Nat.add_zero, Nat.succ_mul]

/-- Two tagged words agree exactly when their tags do and their counters are
congruent. -/
theorem tagged_inj (hk : k ≤ w) {n m t u : Nat} (ht : t < 2 ^ k) (hu : u < 2 ^ k) :
    tagged w k n t = tagged w k m u ↔ t = u ∧ n % 2 ^ (w - k) = m % 2 ^ (w - k) := by
  have hpow : 2 ^ w = 2 ^ (w - k) * 2 ^ k := by rw [← pow_add, Nat.sub_add_cancel hk]
  have hval : ∀ n t, t < 2 ^ k →
      (n * 2 ^ k + t) % 2 ^ w = (n % 2 ^ (w - k)) * 2 ^ k + t := by
    intro n t ht
    rw [hpow, Nat.mul_comm (2 ^ (w - k)), Nat.mod_mul, Nat.add_comm (n * 2 ^ k) t,
      Nat.add_mul_mod_self_right, Nat.mod_eq_of_lt ht,
      Nat.add_mul_div_right _ _ (Nat.two_pow_pos k), Nat.div_eq_of_lt ht, Nat.zero_add,
      Nat.add_comm, Nat.mul_comm]
  rw [← BitVec.toNat_inj, tagged, tagged, BitVec.toNat_ofNat, BitVec.toNat_ofNat, hval n t ht,
    hval m u hu]
  constructor
  · intro h
    have hmod := congrArg (· % 2 ^ k) h
    simp only [Nat.mul_comm _ (2 ^ k), Nat.mul_add_mod, Nat.mod_eq_of_lt ht,
      Nat.mod_eq_of_lt hu] at hmod
    subst hmod
    exact ⟨rfl, Nat.eq_of_mul_eq_mul_right (Nat.two_pow_pos k) (Nat.add_right_cancel h)⟩
  · rintro ⟨rfl, h⟩
    rw [h]

/-- Counters less than a full turn apart and congruent are equal. -/
theorem eq_of_mod_eq_of_lt_turn {n m b : Nat} (hle : n ≤ m) (hlt : m < n + b)
    (h : n % b = m % b) : n = m := by
  obtain ⟨d, rfl⟩ := Nat.exists_eq_add_of_le hle
  have hd : d % b = 0 := by
    have := Nat.sub_mod_eq_zero_of_mod_eq h.symm
    rwa [Nat.add_sub_cancel_left] at this
  rw [Nat.mod_eq_of_lt (by omega)] at hd
  omega

end Tagged

/-! ### Double words in two halves -/

section Halves

variable {h : Nat}

/-- Join two halves, the high one first. -/
def joinHalves (high low : BitVec h) : BitVec (h + h) :=
  (high.setWidth (h + h) <<< h) ||| low.setWidth (h + h)

/-- The low half. -/
def lowHalf (v : BitVec (h + h)) : BitVec h := v.setWidth h

/-- The high half. -/
def highHalf (v : BitVec (h + h)) : BitVec h := (v >>> h).setWidth h

/-- Joining the two halves of a double word gives it back. -/
theorem joinHalves_halves (v : BitVec (h + h)) : joinHalves (highHalf v) (lowHalf v) = v := by
  ext i hi
  simp only [joinHalves, highHalf, lowHalf, BitVec.getElem_or, BitVec.getElem_shiftLeft,
    BitVec.getElem_setWidth, BitVec.getLsbD_setWidth, BitVec.getLsbD_ushiftRight]
  by_cases hlow : i < h
  · simp [hlow, BitVec.getLsbD_eq_getElem hi]
  · have hsub : i - h < h := by omega
    have hadd : h + (i - h) = i := by omega
    simp [hlow, hsub, hadd, BitVec.getLsbD_eq_getElem hi]

end Halves

end MicrOsal
