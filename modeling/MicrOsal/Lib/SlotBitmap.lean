import Mathlib.Algebra.Order.Ring.Nat
import Mathlib.Data.Finset.Card
import Mathlib.Logic.Function.Basic

/-!
# MicrOsal.Lib.SlotBitmap

A set of slots stored as bits of an array of machine words.

Slot `i` is bit `i % w` of word `i / w`. The operations are the usual ones: a
read-modify-write of one word to set or clear a slot, the mask of the slots that
exist in a word (the last word may be partial), a search for the lowest set bit,
and the step `x & (x - 1)` of a scan over a snapshot of one word.
-/

namespace MicrOsal

/-! ### Slots and words -/

/-- Slot `i` is set. -/
def slotSet {w : Nat} (words : Nat → BitVec w) (i : Nat) : Bool := (words (i / w)).getLsbD (i % w)

/-- The mask of slot `i` in its word. -/
def slotMask (w i : Nat) : BitVec w := 1#w <<< (i % w)

/-- `fetch_or` of the slot's mask. -/
def setSlot {w : Nat} (words : Nat → BitVec w) (i : Nat) : Nat → BitVec w :=
  Function.update words (i / w) (words (i / w) ||| slotMask w i)

/-- `fetch_and` of the complement of the slot's mask. -/
def clearSlot {w : Nat} (words : Nat → BitVec w) (i : Nat) : Nat → BitVec w :=
  Function.update words (i / w) (words (i / w) &&& ~~~slotMask w i)

theorem getLsbD_slotMask {w : Nat} (hw : 0 < w) (i b : Nat) :
    (slotMask w i).getLsbD b = decide (b = i % w) := by
  have hi : i % w < w := Nat.mod_lt i hw
  simp only [slotMask, BitVec.getLsbD_shiftLeft, BitVec.getLsbD_one]
  by_cases hb : b = i % w
  · subst hb
    simp [hi, hw]
  · simp only [hb, decide_false]
    by_cases hlt : b < i % w
    · simp [hlt]
    · have : b - i % w ≠ 0 := by omega
      simp [this]

/-- Slots are told apart by word and bit. -/
theorem slot_eq_iff {w : Nat} (i j : Nat) : i = j ↔ i / w = j / w ∧ i % w = j % w := by
  constructor
  · rintro rfl
    exact ⟨rfl, rfl⟩
  · rintro ⟨hdiv, hmod⟩
    rw [← Nat.div_add_mod i w, ← Nat.div_add_mod j w, hdiv, hmod]

@[simp] theorem slotSet_setSlot {w : Nat} (hw : 0 < w) (words : Nat → BitVec w) (i j : Nat) :
    slotSet (setSlot words i) j = (decide (j = i) || slotSet words j) := by
  unfold slotSet setSlot
  by_cases hdiv : j / w = i / w
  · rw [hdiv, Function.update_self, BitVec.getLsbD_or, getLsbD_slotMask hw, Bool.or_comm]
    congr 1
    simp [slot_eq_iff (w := w) j i, hdiv]
  · have hne : j ≠ i := fun h => hdiv (by rw [h])
    rw [Function.update_of_ne hdiv]
    simp [hne]

@[simp] theorem slotSet_clearSlot {w : Nat} (hw : 0 < w) (words : Nat → BitVec w) (i j : Nat) :
    slotSet (clearSlot words i) j = (decide (j ≠ i) && slotSet words j) := by
  unfold slotSet clearSlot
  by_cases hdiv : j / w = i / w
  · have hmod : j % w < w := Nat.mod_lt j hw
    rw [hdiv, Function.update_self, BitVec.getLsbD_and, BitVec.getLsbD_not, getLsbD_slotMask hw,
      Bool.and_comm]
    congr 1
    simp [slot_eq_iff (w := w) j i, hdiv, hmod]
  · have hne : j ≠ i := fun h => hdiv (by rw [h])
    rw [Function.update_of_ne hdiv]
    simp [hne]

/-! ### Counting the set slots -/

/-- How many of the slots below `n` are set. -/
def slotCount {w : Nat} (words : Nat → BitVec w) (n : Nat) : Nat :=
  ((Finset.range n).filter fun i => slotSet words i = true).card

theorem slotCount_setSlot {w : Nat} (hw : 0 < w) {words : Nat → BitVec w} {n i : Nat} (hi : i < n)
    (hfree : slotSet words i = false) : slotCount (setSlot words i) n = slotCount words n + 1 := by
  have hins : (Finset.range n).filter (fun j => slotSet (setSlot words i) j = true) =
      insert i ((Finset.range n).filter fun j => slotSet words j = true) := by
    ext j
    simp only [slotSet_setSlot hw, Finset.mem_filter, Finset.mem_range, Finset.mem_insert,
      Bool.or_eq_true, decide_eq_true_eq]
    constructor
    · rintro ⟨hj, rfl | hset⟩
      · exact Or.inl rfl
      · exact Or.inr ⟨hj, hset⟩
    · rintro (rfl | ⟨hj, hset⟩)
      · exact ⟨hi, Or.inl rfl⟩
      · exact ⟨hj, Or.inr hset⟩
  rw [slotCount, hins, Finset.card_insert_of_notMem, slotCount]
  simp [hfree]

theorem slotCount_clearSlot {w : Nat} (hw : 0 < w) {words : Nat → BitVec w} {n i : Nat} (hi : i < n)
    (hset : slotSet words i = true) : slotCount (clearSlot words i) n + 1 = slotCount words n := by
  have hback : setSlot (clearSlot words i) i = setSlot words i := by
    funext k
    simp only [setSlot, clearSlot, Function.update_idem, Function.update_self]
    congr 1
    ext b hb
    rw [BitVec.getElem_or, BitVec.getElem_and, BitVec.getElem_not, BitVec.getElem_or]
    cases (slotMask w i)[b] <;> simp
  have hsame : slotCount (setSlot words i) n = slotCount words n := by
    unfold slotCount
    congr 1
    ext j
    simp only [slotSet_setSlot hw, Finset.mem_filter, Bool.or_eq_true, decide_eq_true_eq]
    refine and_congr_right fun _ => ⟨?_, Or.inr⟩
    rintro (rfl | hj)
    · exact hset
    · exact hj
  have hfree : slotSet (clearSlot words i) i = false := by simp [hw]
  rw [← slotCount_setSlot hw hi hfree, hback, hsame]

theorem slotCount_le {w : Nat} (words : Nat → BitVec w) (n : Nat) : slotCount words n ≤ n := by
  simpa [slotCount] using Finset.card_filter_le (Finset.range n) fun i => slotSet words i = true

theorem slotCount_pos {w : Nat} {words : Nat → BitVec w} {n i : Nat} (hi : i < n)
    (hset : slotSet words i = true) : 0 < slotCount words n :=
  Finset.card_pos.mpr ⟨i, Finset.mem_filter.mpr ⟨Finset.mem_range.mpr hi, hset⟩⟩

theorem slotCount_two {w : Nat} {words : Nat → BitVec w} {n i j : Nat} (hi : i < n) (hj : j < n)
    (hij : i ≠ j) (hset : slotSet words i = true) (hset' : slotSet words j = true) :
    1 < slotCount words n :=
  Finset.one_lt_card.mpr ⟨i, Finset.mem_filter.mpr ⟨Finset.mem_range.mpr hi, hset⟩, j,
    Finset.mem_filter.mpr ⟨Finset.mem_range.mpr hj, hset'⟩, hij⟩

/-- All slots are set exactly when the count says so. -/
theorem slotCount_eq_iff {w : Nat} (words : Nat → BitVec w) (n : Nat) :
    slotCount words n = n ↔ ∀ i, i < n → slotSet words i = true := by
  unfold slotCount
  conv_lhs => rhs; rw [← Finset.card_range n]
  rw [Finset.card_filter_eq_iff]
  simp only [Finset.mem_range]

/-- How many of the slots below `n` are not set. -/
def clearCount {w : Nat} (words : Nat → BitVec w) (n : Nat) : Nat :=
  ((Finset.range n).filter fun i => slotSet words i = false).card

theorem slotCount_add_clearCount {w : Nat} (words : Nat → BitVec w) (n : Nat) :
    slotCount words n + clearCount words n = n := by
  have h := Finset.card_filter_add_card_filter_not (s := Finset.range n)
    (fun i => slotSet words i = true)
  simp only [Bool.not_eq_true, Finset.card_range] at h
  exact h

theorem exists_clear {w : Nat} {words : Nat → BitVec w} {n : Nat} (h : 0 < clearCount words n) :
    ∃ i, i < n ∧ slotSet words i = false := by
  obtain ⟨i, hi⟩ := Finset.card_pos.mp h
  obtain ⟨hrange, hclear⟩ := Finset.mem_filter.mp hi
  exact ⟨i, Finset.mem_range.mp hrange, hclear⟩

/-! ### The slots of one word -/

/-- The slots below `n` that word `k` holds. -/
def wordMask (w n k : Nat) : BitVec w :=
  if k * w + w ≤ n then BitVec.allOnes w else (1#w <<< (n - k * w)) - 1#w

theorem getLsbD_wordMask {w n k b : Nat} (hk : k * w < n) (hb : b < w) :
    (wordMask w n k).getLsbD b = decide (k * w + b < n) := by
  unfold wordMask
  split
  · rename_i hfull
    have hlt : k * w + b < n := by omega
    simp [hb, hlt]
  · rename_i hpart
    have hrem : n - k * w < w := by omega
    have hpow : 2 ^ (n - k * w) < 2 ^ w := Nat.pow_lt_pow_right (by omega) hrem
    have hval : ((1#w <<< (n - k * w)) - 1#w).toNat = 2 ^ (n - k * w) - 1 := by
      have hone : 1 < 2 ^ w := Nat.one_lt_two_pow (by omega)
      have hpos : 0 < 2 ^ (n - k * w) := Nat.two_pow_pos _
      rw [BitVec.toNat_sub, BitVec.toNat_shiftLeft, BitVec.toNat_ofNat, Nat.one_mod_eq_one.mpr
        (by omega), Nat.one_shiftLeft, Nat.mod_eq_of_lt hpow]
      rw [show 2 ^ w - 1 + 2 ^ (n - k * w) = 2 ^ (n - k * w) - 1 + 2 ^ w by omega,
        Nat.add_mod_right, Nat.mod_eq_of_lt (by omega)]
    rw [BitVec.getLsbD, hval, Nat.testBit_two_pow_sub_one]
    congr 1
    exact propext ⟨fun h => by omega, fun h => by omega⟩

/-- The slot a bit of a word stands for. -/
theorem slot_div_mod {w k b : Nat} (hb : b < w) : (k * w + b) / w = k ∧ (k * w + b) % w = b := by
  have hw : 0 < w := by omega
  constructor
  · rw [Nat.add_comm, Nat.add_mul_div_right _ _ hw, Nat.div_eq_of_lt hb, Nat.zero_add]
  · rw [Nat.add_comm, Nat.add_mul_mod_self_right, Nat.mod_eq_of_lt hb]

/-! ### The lowest set bit -/

theorem ctz_lt {w : Nat} {x : BitVec w} (hx : x ≠ 0#w) : x.ctz.toNat < w := by
  by_contra hge
  have hbit := BitVec.getLsbD_true_ctz_of_ne_zero hx
  rw [BitVec.getLsbD_of_ge x _ (by omega)] at hbit
  cases hbit

/-! ### Searching a word for a free slot -/

/-- The bits of word `k` that stand for slots below `n` that are not set. -/
def freeBits {w : Nat} (words : Nat → BitVec w) (n k : Nat) : BitVec w :=
  ~~~words k &&& wordMask w n k

theorem getLsbD_freeBits {w : Nat} (words : Nat → BitVec w) {n k b : Nat} (hk : k * w < n)
    (hb : b < w) :
    (freeBits words n k).getLsbD b =
      (decide (k * w + b < n) && !slotSet words (k * w + b)) := by
  obtain ⟨hdiv, hmod⟩ := slot_div_mod (k := k) hb
  rw [freeBits, BitVec.getLsbD_and, BitVec.getLsbD_not, getLsbD_wordMask hk hb, slotSet, hdiv,
    hmod]
  cases (words k).getLsbD b <;> simp [hb]

/-- The slot of the lowest free bit exists and is not set. -/
theorem freeBits_slot {w : Nat} {words : Nat → BitVec w} {n k : Nat} (hk : k * w < n)
    (hfree : freeBits words n k ≠ 0#w) :
    k * w + (freeBits words n k).ctz.toNat < n ∧
      slotSet words (k * w + (freeBits words n k).ctz.toNat) = false := by
  have hbit := BitVec.getLsbD_true_ctz_of_ne_zero hfree
  rw [getLsbD_freeBits words hk (ctz_lt hfree), Bool.and_eq_true, decide_eq_true_eq,
    Bool.not_eq_true'] at hbit
  exact hbit

/-- A word without free bits has all its slots set. -/
theorem freeBits_full {w : Nat} (hw : 0 < w) {words : Nat → BitVec w} {n k : Nat} (hk : k * w < n)
    (hfree : freeBits words n k = 0#w) {i : Nat} (hi : i < n) (hik : i / w = k) :
    slotSet words i = true := by
  have hform : k * w + i % w = i := by
    rw [← hik, Nat.mul_comm, Nat.div_add_mod]
  have hbit := getLsbD_freeBits words hk (Nat.mod_lt i hw)
  rw [hfree, hform, BitVec.getLsbD_zero] at hbit
  simpa [hi] using hbit.symm

/-- Masking the word before it is complemented makes no difference. -/
theorem freeBits_masked {w : Nat} (words : Nat → BitVec w) (n k : Nat) :
    ~~~(words k &&& wordMask w n k) &&& wordMask w n k = freeBits words n k := by
  ext b hb
  simp only [freeBits, BitVec.getElem_and, BitVec.getElem_not]
  cases (words k)[b] <;> cases (wordMask w n k)[b] <;> rfl

/-- A word with a set bit is not zero. -/
theorem ne_zero_of_getLsbD {w : Nat} {x : BitVec w} {b : Nat} (h : x.getLsbD b = true) :
    x ≠ 0#w := by
  rintro rfl
  rw [BitVec.getLsbD_zero] at h
  cases h

/-- A number whose lowest set bit is bit `c`. -/
theorem eq_lowest_of_testBit {n c : Nat} (hc : n.testBit c = true)
    (hlow : ∀ i, i < c → n.testBit i = false) : n = 2 ^ (c + 1) * (n / 2 ^ (c + 1)) + 2 ^ c := by
  have hmod : n % 2 ^ (c + 1) = 2 ^ c := by
    apply Nat.eq_of_testBit_eq
    intro i
    rw [Nat.testBit_mod_two_pow, Nat.testBit_two_pow]
    rcases Nat.lt_trichotomy i c with hlt | rfl | hgt
    · rw [hlow i hlt]
      simp [Nat.ne_of_gt hlt]
    · simp [hc]
    · have hnot : ¬ i < c + 1 := by omega
      simp [hnot, Nat.ne_of_lt hgt]
  conv_lhs => rw [← Nat.div_add_mod n (2 ^ (c + 1)), hmod]

/-- `x & (x - 1)` drops the lowest set bit and nothing else. -/
theorem getLsbD_dropLowest {w : Nat} {x : BitVec w} (hx : x ≠ 0#w) (b : Nat) :
    (x &&& (x - 1#w)).getLsbD b = (decide (b ≠ x.ctz.toNat) && x.getLsbD b) := by
  have hc := BitVec.getLsbD_true_ctz_of_ne_zero hx
  have hlow : ∀ i, i < x.ctz.toNat → x.toNat.testBit i = false := fun i hi =>
    BitVec.getLsbD_false_of_lt_ctz hi
  generalize hce : x.ctz.toNat = c at hc hlow
  have hform := eq_lowest_of_testBit (n := x.toNat) hc hlow
  have hpos : 0 < 2 ^ c := Nat.two_pow_pos c
  have hval : (x - 1#w).toNat = 2 ^ (c + 1) * (x.toNat / 2 ^ (c + 1)) + (2 ^ c - 1) := by
    have hw : 0 < w := by
      have := ctz_lt hx
      omega
    have hone : 1 < 2 ^ w := Nat.one_lt_two_pow (by omega)
    have hlt := x.isLt
    rw [BitVec.toNat_sub, BitVec.toNat_ofNat, Nat.mod_eq_of_lt hone,
      show 2 ^ w - 1 + x.toNat = x.toNat - 1 + 2 ^ w by omega, Nat.add_mod_right,
      Nat.mod_eq_of_lt (by omega)]
    omega
  rw [BitVec.getLsbD_and]
  by_cases hb : b < c
  · rw [BitVec.getLsbD, BitVec.getLsbD, hlow b hb]
    simp
  · have hsub : (x - 1#w).getLsbD b = (decide (b ≠ c) && x.getLsbD b) := by
      rw [BitVec.getLsbD, BitVec.getLsbD, hval]
      conv_rhs => rw [hform]
      rw [Nat.testBit_two_pow_mul_add _ (by rw [Nat.pow_succ]; omega),
        Nat.testBit_two_pow_mul_add _ (by rw [Nat.pow_succ]; omega)]
      by_cases hbc : b = c
      · subst hbc
        simp [Nat.testBit_two_pow_sub_one]
      · have hge : ¬ b < c + 1 := by omega
        simp [hbc, hge]
    rw [hsub]
    cases x.getLsbD b <;> simp

end MicrOsal
