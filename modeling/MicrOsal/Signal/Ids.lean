import Mathlib.Data.BitVec
import MicrOsal.Lib.SkipCounter

/-!
# MicrOsal.Signal.Ids

Subscriber ids of the generic `osal_signal`
(`include/osal/bus/detail/osal_signal_backend_generic.hpp`).

A slot and its generation are packed in mixed radix, generation above slot,
plus one, and the packed word is combined with a cookie made from the object's
address. `subscriber_id` is `std::size_t`; its width `w` is left open, and `n`
is `MaxSubscribers`.

On packed words that decode at all, packing and decoding are inverse
(`pack_decode`, `slotIndex_pack`, `generation_pack`). The largest `std::size_t`
is reserved: at most one slot has a generation that would encode to it
(`excluded`), and `advance` is the counter that steps over that generation
(`advance_toNat`).
-/

namespace MicrOsal.Signal

variable {w : Nat}

/-! ### The functions of the source -/

/-- `invalid_subscriber_id`. -/
def invalidSubscriberId : BitVec w := BitVec.allOnes w

/-- `subscriber_id_span_`. -/
def subscriberIdSpan (n : Nat) : BitVec w := BitVec.ofNat w n

/-- `subscriber_generation_modulus_`. -/
def subscriberGenerationModulus (n : Nat) : BitVec w := invalidSubscriberId / subscriberIdSpan n

/-- `subscriber_cookie_` of the object at address `this`. -/
def subscriberCookie (this : BitVec w) : BitVec w := this ^^^ BitVec.ofNat w 0x9E3779B97F4A7C15

/-- `pack_subscriber_id_`. -/
def packSubscriberId (n i : Nat) (generation : BitVec w) : BitVec w :=
  generation * subscriberIdSpan n + BitVec.ofNat w i + 1

/-- `encode_subscriber_id_`. -/
def encodeSubscriberId (this : BitVec w) (n i : Nat) (generation : BitVec w) : BitVec w :=
  subscriberCookie this ^^^ packSubscriberId n i generation

/-- `unpack_subscriber_counter_`. -/
def unpackSubscriberCounter (packedId : BitVec w) : BitVec w := packedId - 1

/-- `slot_index_from_packed_subscriber_id_`. -/
def slotIndexFromPacked (n : Nat) (packedId : BitVec w) : Nat :=
  (unpackSubscriberCounter packedId % subscriberIdSpan n).toNat

/-- `generation_from_packed_subscriber_id_`. -/
def generationFromPacked (n : Nat) (packedId : BitVec w) : BitVec w :=
  unpackSubscriberCounter packedId / subscriberIdSpan n

/-- The packed word is none that `pack_subscriber_id_` makes: the check of both
decoding functions. -/
def outOfRange (n : Nat) (packedId : BitVec w) : Bool :=
  packedId = 0 ∨ packedId > subscriberGenerationModulus n * subscriberIdSpan n

/-- `slot_index_from_id_`; `MaxSubscribers` for an id of no slot. -/
def slotIndexFromId (this : BitVec w) (n : Nat) (id : BitVec w) : Nat :=
  if id = invalidSubscriberId then n
  else if outOfRange n (id ^^^ subscriberCookie this) then n
  else slotIndexFromPacked n (id ^^^ subscriberCookie this)

/-- `subscriber_id_matches_slot_` for slot `i`, given its `in_use_` and
`generation_`. -/
def subscriberIdMatchesSlot (this : BitVec w) (n : Nat) (id : BitVec w) (i : Nat) (inUse : Bool)
    (generation : BitVec w) : Bool :=
  if i ≥ n ∨ ¬ inUse ∨ id = invalidSubscriberId then false
  else if outOfRange n (id ^^^ subscriberCookie this) then false
  else slotIndexFromPacked n (id ^^^ subscriberCookie this) = i ∧
    generationFromPacked n (id ^^^ subscriberCookie this) = generation

/-- `advance_subscriber_generation_`. -/
def advanceSubscriberGeneration (this : BitVec w) (n i : Nat) (generation : BitVec w) : BitVec w :=
  let next := (generation + 1) % subscriberGenerationModulus n
  if encodeSubscriberId this n i next = invalidSubscriberId then
    (next + 1) % subscriberGenerationModulus n
  else next

/-- `ensure_subscriber_id_`: the slot's generation after the call, and the id. -/
def ensureSubscriberId (this : BitVec w) (n i : Nat) (generation : BitVec w) :
    BitVec w × BitVec w :=
  if encodeSubscriberId this n i generation = invalidSubscriberId then
    (advanceSubscriberGeneration this n i generation,
      encodeSubscriberId this n i (advanceSubscriberGeneration this n i generation))
  else (generation, encodeSubscriberId this n i generation)

/-! ### Packing and decoding -/

/-- `subscriber_generation_modulus_` as a number. -/
def modulus (w n : Nat) : Nat := (2 ^ w - 1) / n

section Codec

variable {n i i' : Nat} {g g' : BitVec w} {this p id : BitVec w}

theorem modulus_mul_lt (w n : Nat) : modulus w n * n < 2 ^ w := by
  have hle : modulus w n * n ≤ 2 ^ w - 1 := Nat.div_mul_le_self _ _
  have hpos : 0 < 2 ^ w := Nat.two_pow_pos w
  omega

theorem span_lt (hm : 0 < modulus w n) : n < 2 ^ w := by
  have hle : 1 * n ≤ modulus w n * n := Nat.mul_le_mul_right n hm
  have := modulus_mul_lt w n
  omega

theorem span_toNat (hm : 0 < modulus w n) : (subscriberIdSpan n : BitVec w).toNat = n := by
  rw [subscriberIdSpan, BitVec.toNat_ofNat, Nat.mod_eq_of_lt (span_lt hm)]

theorem modulus_toNat (hm : 0 < modulus w n) :
    (subscriberGenerationModulus n : BitVec w).toNat = modulus w n := by
  rw [subscriberGenerationModulus, BitVec.toNat_udiv, span_toNat hm, invalidSubscriberId,
    BitVec.toNat_allOnes, modulus]

theorem modulus_lt (hn : 0 < n) : modulus w n < 2 ^ w := by
  have hle : modulus w n * 1 ≤ modulus w n * n := Nat.mul_le_mul_left _ hn
  have := modulus_mul_lt w n
  omega

theorem outOfRange_iff (hm : 0 < modulus w n) :
    outOfRange n p = true ↔ p.toNat = 0 ∨ modulus w n * n < p.toNat := by
  have hlimit : (subscriberGenerationModulus n * subscriberIdSpan n : BitVec w).toNat =
      modulus w n * n := by
    rw [BitVec.toNat_mul, modulus_toNat hm, span_toNat hm, Nat.mod_eq_of_lt (modulus_mul_lt w n)]
  rw [outOfRange, decide_eq_true_iff, gt_iff_lt, BitVec.lt_def, hlimit, ← BitVec.toNat_inj]
  simp

/-- The packed word of a slot and a generation, without wrapping. -/
theorem pack_toNat (hm : 0 < modulus w n) (hi : i < n) (hg : g.toNat < modulus w n) :
    (packSubscriberId n i g).toNat = g.toNat * n + i + 1 := by
  have hle : (g.toNat + 1) * n ≤ modulus w n * n := Nat.mul_le_mul_right n hg
  have hlt := modulus_mul_lt w n
  have hspan := span_lt hm
  rw [Nat.succ_mul] at hle
  have hmul : (g * subscriberIdSpan n).toNat = g.toNat * n := by
    rw [BitVec.toNat_mul, span_toNat hm, Nat.mod_eq_of_lt (by omega)]
  have hone : (1#w).toNat = 1 := by rw [BitVec.toNat_ofNat, Nat.mod_eq_of_lt (by omega)]
  show (g * subscriberIdSpan n + BitVec.ofNat w i + 1#w).toNat = _
  rw [BitVec.toNat_add, BitVec.toNat_add, hmul, hone, BitVec.toNat_ofNat,
    Nat.mod_eq_of_lt (a := i) (by omega), Nat.mod_eq_of_lt (a := g.toNat * n + i) (by omega),
    Nat.mod_eq_of_lt (by omega)]

theorem pack_inRange (hm : 0 < modulus w n) (hi : i < n) (hg : g.toNat < modulus w n) :
    outOfRange n (packSubscriberId n i g) = false := by
  have hle : (g.toNat + 1) * n ≤ modulus w n * n := Nat.mul_le_mul_right n hg
  rw [Nat.succ_mul] at hle
  rw [Bool.eq_false_iff, Ne, outOfRange_iff hm, pack_toNat hm hi hg]
  omega

theorem unpack_toNat (h : p.toNat ≠ 0) : (unpackSubscriberCounter p).toNat = p.toNat - 1 := by
  have hlt := p.isLt
  have hone : (1#w).toNat = 1 := by rw [BitVec.toNat_ofNat, Nat.mod_eq_of_lt (by omega)]
  show (p - 1#w).toNat = _
  rw [BitVec.toNat_sub, hone, show 2 ^ w - 1 + p.toNat = p.toNat - 1 + 2 ^ w by omega,
    Nat.add_mod_right, Nat.mod_eq_of_lt (by omega)]

theorem slotIndexFromPacked_eq (hm : 0 < modulus w n) (h : p.toNat ≠ 0) :
    slotIndexFromPacked n p = (p.toNat - 1) % n := by
  rw [slotIndexFromPacked, BitVec.toNat_umod, unpack_toNat h, span_toNat hm]

theorem generationFromPacked_toNat (hm : 0 < modulus w n) (h : p.toNat ≠ 0) :
    (generationFromPacked n p).toNat = (p.toNat - 1) / n := by
  rw [generationFromPacked, BitVec.toNat_udiv, unpack_toNat h, span_toNat hm]

/-- The slot of a packed word. -/
theorem slotIndex_pack (hm : 0 < modulus w n) (hi : i < n) (hg : g.toNat < modulus w n) :
    slotIndexFromPacked n (packSubscriberId n i g) = i := by
  have hpack := pack_toNat hm hi hg
  rw [slotIndexFromPacked_eq hm (by omega), hpack, Nat.add_sub_cancel, Nat.add_comm,
    Nat.add_mul_mod_self_right, Nat.mod_eq_of_lt hi]

/-- The generation of a packed word. -/
theorem generation_pack (hm : 0 < modulus w n) (hi : i < n) (hg : g.toNat < modulus w n) :
    generationFromPacked n (packSubscriberId n i g) = g := by
  have hpack := pack_toNat hm hi hg
  apply BitVec.eq_of_toNat_eq
  rw [generationFromPacked_toNat hm (by omega), hpack, Nat.add_sub_cancel, Nat.add_comm,
    Nat.add_mul_div_right _ _ (by omega), Nat.div_eq_of_lt hi, Nat.zero_add]

/-- Every word in range is the packed word of a slot and a generation. -/
theorem pack_decode (hn : 0 < n) (hm : 0 < modulus w n) (h : outOfRange n p = false) :
    slotIndexFromPacked n p < n ∧ (generationFromPacked n p).toNat < modulus w n ∧
      packSubscriberId n (slotIndexFromPacked n p) (generationFromPacked n p) = p := by
  rw [Bool.eq_false_iff, Ne, outOfRange_iff hm, not_or, Nat.not_lt] at h
  obtain ⟨hzero, hle⟩ := h
  have hslot : slotIndexFromPacked n p < n := by
    rw [slotIndexFromPacked_eq hm hzero]
    exact Nat.mod_lt _ hn
  have hgen : (generationFromPacked n p).toNat < modulus w n := by
    rw [generationFromPacked_toNat hm hzero, Nat.div_lt_iff_lt_mul hn]
    omega
  refine ⟨hslot, hgen, ?_⟩
  apply BitVec.eq_of_toNat_eq
  rw [pack_toNat hm hslot hgen, generationFromPacked_toNat hm hzero,
    slotIndexFromPacked_eq hm hzero, Nat.div_add_mod']
  omega

/-! ### Ids -/

theorem encode_xor_cookie :
    encodeSubscriberId this n i g ^^^ subscriberCookie this = packSubscriberId n i g := by
  rw [encodeSubscriberId, BitVec.xor_comm, ← BitVec.xor_assoc, BitVec.xor_self, BitVec.zero_xor]

theorem eq_encode_iff :
    id = encodeSubscriberId this n i g ↔ id ^^^ subscriberCookie this = packSubscriberId n i g := by
  constructor
  · intro h
    rw [h, encode_xor_cookie]
  · intro h
    rw [encodeSubscriberId, ← h, BitVec.xor_comm, BitVec.xor_assoc, BitVec.xor_self,
      BitVec.xor_zero]

/-- Different slots or generations have different ids. -/
theorem encode_inj (hm : 0 < modulus w n) (hi : i < n) (hi' : i' < n) (hg : g.toNat < modulus w n)
    (hg' : g'.toNat < modulus w n)
    (h : encodeSubscriberId this n i g = encodeSubscriberId this n i' g') : i = i' ∧ g = g' := by
  have hpack : packSubscriberId n i g = packSubscriberId n i' g' := by
    have hxor := congrArg (· ^^^ subscriberCookie this) h
    simpa only [encode_xor_cookie] using hxor
  constructor
  · rw [← slotIndex_pack hm hi hg, hpack, slotIndex_pack hm hi' hg']
  · rw [← generation_pack hm hi hg, hpack, generation_pack hm hi' hg']

/-- An id decodes to the slot it was made for. -/
theorem slotIndexFromId_encode (hm : 0 < modulus w n) (hi : i < n) (hg : g.toNat < modulus w n)
    (hid : encodeSubscriberId this n i g ≠ invalidSubscriberId) :
    slotIndexFromId this n (encodeSubscriberId this n i g) = i := by
  rw [slotIndexFromId, if_neg hid, encode_xor_cookie, pack_inRange hm hi hg]
  exact slotIndex_pack hm hi hg

/-- An id matches the slot in use it was made for, with the generation it was made
with, and no other. -/
theorem matches_iff (hn : 0 < n) (hm : 0 < modulus w n) (hi : i < n) (hg : g.toNat < modulus w n)
    {inUse : Bool} :
    subscriberIdMatchesSlot this n id i inUse g = true ↔
      inUse = true ∧ id ≠ invalidSubscriberId ∧ id = encodeSubscriberId this n i g := by
  rw [eq_encode_iff]
  unfold subscriberIdMatchesSlot
  constructor
  · intro h
    split at h
    case isTrue => cases h
    case isFalse hcheck =>
      split at h
      case isTrue => cases h
      case isFalse hrange =>
        obtain ⟨hslot, hgen⟩ := of_decide_eq_true h
        have hpack := (pack_decode hn hm (Bool.eq_false_iff.mpr hrange)).2.2
        rw [hslot, hgen] at hpack
        simp only [not_or, not_not] at hcheck
        exact ⟨hcheck.2.1, hcheck.2.2, hpack.symm⟩
  · intro h
    obtain ⟨huse, hid, hpack⟩ := h
    rw [hpack, if_neg (by simp [huse, hid, hi]), pack_inRange hm hi hg]
    exact decide_eq_true ⟨slotIndex_pack hm hi hg, generation_pack hm hi hg⟩

/-! ### Generations -/

/-- The generation with which slot `i` would get the reserved id. -/
def excludedGeneration (this : BitVec w) (n i : Nat) : Option Nat :=
  let p := invalidSubscriberId ^^^ subscriberCookie this
  if outOfRange n p ∨ slotIndexFromPacked n p ≠ i then none
  else some (generationFromPacked n p).toNat

theorem excluded_iff (hn : 0 < n) (hm : 0 < modulus w n) (hi : i < n)
    (hg : g.toNat < modulus w n) :
    excludedGeneration this n i = some g.toNat ↔
      encodeSubscriberId this n i g = invalidSubscriberId := by
  rw [eq_comm (a := encodeSubscriberId this n i g), eq_encode_iff, excludedGeneration]
  constructor
  · intro h
    split at h
    case isTrue => cases h
    case isFalse hcheck =>
      simp only [not_or, not_not] at hcheck
      have hgen := BitVec.eq_of_toNat_eq (Option.some.inj h)
      have hpack := (pack_decode hn hm (Bool.eq_false_iff.mpr hcheck.1)).2.2
      rw [hcheck.2, hgen] at hpack
      exact hpack.symm
  · intro h
    rw [h, if_neg (by simp [pack_inRange hm hi hg, slotIndex_pack hm hi hg]),
      generation_pack hm hi hg]

theorem excluded_lt (hn : 0 < n) (hm : 0 < modulus w n) {b : Nat}
    (h : excludedGeneration this n i = some b) : b < modulus w n := by
  rw [excludedGeneration] at h
  split at h
  case isTrue => cases h
  case isFalse hcheck =>
    simp only [not_or, not_not] at hcheck
    have hlt := (pack_decode hn hm (Bool.eq_false_iff.mpr hcheck.1)).2.1
    rwa [Option.some.inj h] at hlt

theorem succ_mod_toNat (hn : 0 < n) (hm : 0 < modulus w n) (hg : g.toNat < modulus w n) :
    ((g + 1) % subscriberGenerationModulus n).toNat = (g.toNat + 1) % modulus w n := by
  have hlt : modulus w n < 2 ^ w := modulus_lt hn
  have hone : (1#w).toNat = 1 := by rw [BitVec.toNat_ofNat, Nat.mod_eq_of_lt (by omega)]
  show ((g + 1#w) % _).toNat = _
  rw [BitVec.toNat_umod, BitVec.toNat_add, hone, modulus_toNat hm,
    Nat.mod_eq_of_lt (a := g.toNat + 1) (by omega)]

/-- `advance_subscriber_generation_` steps over the generation of the reserved id. -/
theorem advance_toNat (hn : 0 < n) (hm : 0 < modulus w n) (hi : i < n)
    (hg : g.toNat < modulus w n) :
    (advanceSubscriberGeneration this n i g).toNat =
      skipNext (modulus w n) (excludedGeneration this n i) g.toNat := by
  have hsucc := succ_mod_toNat hn hm hg
  have hlt : ((g + 1) % subscriberGenerationModulus n).toNat < modulus w n := by
    rw [hsucc]
    exact Nat.mod_lt _ hm
  simp only [advanceSubscriberGeneration, skipNext]
  rw [← hsucc]
  split
  case isTrue hbad =>
    rw [if_pos ((excluded_iff hn hm hi hlt).mpr hbad), succ_mod_toNat hn hm hlt]
  case isFalse hgood => rw [if_neg (fun h => hgood ((excluded_iff hn hm hi hlt).mp h))]

/-- The generation may be used: it is below the modulus and not the excluded one. -/
def GenerationOk (this : BitVec w) (n i : Nat) (g : BitVec w) : Prop :=
  SkipOk (modulus w n) (excludedGeneration this n i) g.toNat

theorem GenerationOk.encode_ne (hn : 0 < n) (hm : 0 < modulus w n) (hi : i < n)
    (h : GenerationOk this n i g) : encodeSubscriberId this n i g ≠ invalidSubscriberId :=
  fun hbad => h.ne ((excluded_iff hn hm hi h.lt).mpr hbad)

theorem GenerationOk.advance (hn : 0 < n) (hm : 0 < modulus w n) (hi : i < n)
    (h : GenerationOk this n i g) :
    GenerationOk this n i (advanceSubscriberGeneration this n i g) := by
  rw [GenerationOk, advance_toNat hn hm hi h.lt]
  exact skipNext_ok h

theorem advance_lt (this : BitVec w) (hn : 0 < n) (hm : 0 < modulus w n) (hi : i < n)
    (hg : g.toNat < modulus w n) :
    (advanceSubscriberGeneration this n i g).toNat < modulus w n := by
  rw [advance_toNat hn hm hi hg]
  unfold skipNext
  split
  case isTrue => exact Nat.mod_lt _ hm
  case isFalse => exact Nat.mod_lt _ hm

/-- `ensure_subscriber_id_` returns the id of the generation it leaves; it keeps a
generation that may be used, and where it fails it keeps the generation, too. -/
theorem ensure_spec (this : BitVec w) (hn : 0 < n) (hm : 0 < modulus w n) (hi : i < n)
    (hg : g.toNat < modulus w n) :
    (ensureSubscriberId this n i g).2 =
        encodeSubscriberId this n i (ensureSubscriberId this n i g).1 ∧
      ((ensureSubscriberId this n i g).2 ≠ invalidSubscriberId →
        GenerationOk this n i (ensureSubscriberId this n i g).1) ∧
      ((ensureSubscriberId this n i g).2 = invalidSubscriberId →
        (ensureSubscriberId this n i g).1 = g) ∧
      (GenerationOk this n i g → (ensureSubscriberId this n i g).1 = g) := by
  have hadv := advance_lt this hn hm hi hg
  have hok : ∀ {g : BitVec w}, g.toNat < modulus w n →
      encodeSubscriberId this n i g ≠ invalidSubscriberId → GenerationOk this n i g :=
    fun hlt hne => ⟨hlt, fun h => hne ((excluded_iff hn hm hi hlt).mp h)⟩
  unfold ensureSubscriberId
  split
  case isTrue hbad =>
    refine ⟨rfl, hok hadv, fun hagain => ?_, fun hgood => absurd hbad (hgood.encode_ne hn hm hi)⟩
    exact (encode_inj hm hi hi hadv hg (hagain.trans hbad.symm)).2
  case isFalse hgood => exact ⟨rfl, hok hg, fun hbad => absurd hbad hgood, fun _ => rfl⟩

/-- With two generations to choose from it does not fail. -/
theorem ensure_ne (this : BitVec w) (hn : 0 < n) (hm : 2 ≤ modulus w n) (hi : i < n)
    (hg : g.toNat < modulus w n) : (ensureSubscriberId this n i g).2 ≠ invalidSubscriberId := by
  have hm0 : 0 < modulus w n := by omega
  unfold ensureSubscriberId
  split
  case isTrue hbad =>
    have hok : GenerationOk this n i (advanceSubscriberGeneration this n i g) := by
      rw [GenerationOk, advance_toNat hn hm0 hi hg]
      exact skipNext_ok_of_two hm
    exact hok.encode_ne hn hm0 hi
  case isFalse hgood => exact hgood

end Codec

end MicrOsal.Signal
