import Mathlib.Data.List.Basic
import Mathlib.Data.Nat.ModEq

/-!
# MicrOsal.Lib.RingIndex

Index arithmetic and bulk copies of a single-producer / single-consumer ring.

A ring of `n` cells is addressed by two wrapped indices. Reasoning about the
wrapped values directly splits every statement on which side has wrapped, so
the lemmas here relate them to **absolute positions**: unbounded counters `H`
(total written) and `T` (total consumed) whose residues modulo `n` are the two
indices. In these terms the bytes in flight are the span `[T, H)`, a write
appends to it, a read shortens it from the left, and a stale snapshot of an
index is simply an older absolute position.
-/

namespace MicrOsal

/-! ### The operations -/

section Ops

variable {β : Type*}

/-- Cells between the read index `t` and the write index `h`. -/
def ringAvailable (n h t : Nat) : Nat :=
  if t ≤ h then h - t else n - t + h

/-- Move an index forward by `len`, wrapping at most once. -/
def ringAdvance (n index len : Nat) : Nat :=
  if index + len < n then index + len else index + len - n

/-- Copy `src` over the cells from `dst` on. -/
def memcpy (buf : Nat → β) (dst : Nat) (src : List β) : Nat → β := fun j =>
  if dst ≤ j then (src[j - dst]?).getD (buf j) else buf j

/-- The `len` cells from `src` on. -/
def memread (buf : Nat → β) (src len : Nat) : List β :=
  (List.range len).map fun k => buf (src + k)

/-- Copy `data` into the ring at `index`: one chunk up to the end of the
storage, and the rest, if any, from its start. -/
def ringCopyIn (n : Nat) (buf : Nat → β) (index : Nat) (data : List β) : Nat → β :=
  let first := min data.length (n - index)
  let buf₁ := memcpy buf index (data.take first)
  if first < data.length then memcpy buf₁ 0 (data.drop first) else buf₁

/-- Copy `len` cells out of the ring from `index` on, in the same two chunks. -/
def ringCopyOut (n : Nat) (buf : Nat → β) (index len : Nat) : List β :=
  let first := min len (n - index)
  memread buf index first ++ if first < len then memread buf 0 (len - first) else []

/-- The cells at absolute positions `p, …, p + len - 1`. -/
def ringSpan (n : Nat) (buf : Nat → β) (p len : Nat) : List β :=
  (List.range len).map fun k => buf ((p + k) % n)

end Ops

/-! ### Indices as residues of absolute positions -/

/-- Advancing a wrapped index by less than a turn is advancing the position. -/
theorem ringAdvance_mod {n p len : Nat} (hn : 0 < n) (hlen : len ≤ n) :
    ringAdvance n (p % n) len = (p + len) % n := by
  have hp : p % n < n := Nat.mod_lt p hn
  rw [← Nat.mod_add_mod]
  generalize p % n = i at hp
  rw [ringAdvance]
  split
  · exact (Nat.mod_eq_of_lt ‹_›).symm
  · rw [Nat.mod_eq_sub_mod (by omega), Nat.mod_eq_of_lt (by omega)]

theorem ringAdvance_lt {n index len : Nat} (h : index < n) (hlen : len ≤ n) :
    ringAdvance n index len < n := by
  unfold ringAdvance
  split <;> omega

/-- Two advances are one, as long as they make less than a turn together. -/
theorem ringAdvance_add {n index a b : Nat} (h : index < n) (hab : a + b ≤ n) :
    ringAdvance n (ringAdvance n index a) b = ringAdvance n index (a + b) := by
  unfold ringAdvance
  split <;> split <;> split <;> omega

theorem ringAdvance_zero {n index : Nat} (h : index < n) : ringAdvance n index 0 = index :=
  if_pos h

/-- The distance between two wrapped indices is the distance between the
positions, as long as these are less than a turn apart. -/
theorem ringAvailable_mod {n h t : Nat} (hth : t ≤ h) (hlt : h < t + n) :
    ringAvailable n (h % n) (t % n) = h - t := by
  have hn : 0 < n := by omega
  have ht : t % n < n := Nat.mod_lt t hn
  obtain ⟨d, rfl⟩ := Nat.exists_eq_add_of_le hth
  rw [← ringAdvance_mod hn (by omega : d ≤ n), ringAdvance, ringAvailable]
  split <;> split <;> omega

/-- Positions less than a turn apart occupy different cells. -/
theorem mod_ne_of_lt_turn {n p q : Nat} (hpq : p < q) (hlt : q < p + n) : p % n ≠ q % n := by
  intro heq
  have hdvd : n ∣ q - p := (Nat.modEq_iff_dvd' hpq.le).mp heq
  have := Nat.le_of_dvd (by omega) hdvd
  omega

/-! ### Spans -/

section Spans

variable {β : Type*} {n : Nat} {buf buf' : Nat → β}

@[simp] theorem ringSpan_length (p len : Nat) : (ringSpan n buf p len).length = len := by
  simp [ringSpan]

@[simp] theorem ringSpan_zero (p : Nat) : ringSpan n buf p 0 = [] := rfl

theorem ringSpan_add (p a b : Nat) :
    ringSpan n buf p (a + b) = ringSpan n buf p a ++ ringSpan n buf (p + a) b := by
  simp only [ringSpan, List.range_add, List.map_append, List.map_map]
  congr 1
  exact List.map_congr_left fun k _ => by simp [Nat.add_assoc]

theorem ringSpan_congr {p len : Nat}
    (h : ∀ k < len, buf ((p + k) % n) = buf' ((p + k) % n)) :
    ringSpan n buf p len = ringSpan n buf' p len :=
  List.map_congr_left fun k hk => h k (List.mem_range.mp hk)

/-- Writing the cell of a position past a span leaves the span alone. -/
theorem ringSpan_update_frame {p q len : Nat} (x : β) (hqp : q + len ≤ p) (hlt : p < q + n) :
    ringSpan n (Function.update buf (p % n) x) q len = ringSpan n buf q len :=
  ringSpan_congr fun k hk =>
    Function.update_of_ne (mod_ne_of_lt_turn (by omega) (by omega)) _ _

/-- Writing the cell after a span makes the span longer. -/
theorem ringSpan_update_concat {p k : Nat} (x : β) (hk : k < n) :
    ringSpan n (Function.update buf ((p + k) % n) x) p (k + 1) = ringSpan n buf p k ++ [x] := by
  rw [ringSpan_add, ringSpan_update_frame x le_rfl (by omega)]
  simp [ringSpan]

/-- The front of a span is the span of the front. -/
theorem ringSpan_take {p a len : Nat} (h : a ≤ len) :
    (ringSpan n buf p len).take a = ringSpan n buf p a := by
  obtain ⟨b, rfl⟩ := Nat.exists_eq_add_of_le h
  rw [ringSpan_add, List.take_left' (ringSpan_length p a)]

end Spans

/-! ### Copies act on spans -/

section Copies

variable {β : Type*} {n : Nat} {buf : Nat → β}

/-- Copying out is reading the span, wherever the wrap falls. -/
theorem ringCopyOut_mod {p len : Nat} (hn : 0 < n) (hlen : len ≤ n) :
    ringCopyOut n buf (p % n) len = ringSpan n buf p len := by
  have hp : p % n < n := Nat.mod_lt p hn
  have hchunk : ∀ a, a ≤ n - p % n → memread buf (p % n) a = ringSpan n buf p a := by
    intro a ha
    refine List.map_congr_left fun k hk => ?_
    have hk' : p % n + k < n := by have := List.mem_range.mp hk; omega
    rw [← Nat.mod_add_mod p n k, Nat.mod_eq_of_lt hk']
  unfold ringCopyOut
  by_cases hfit : len ≤ n - p % n
  · simp [Nat.min_eq_left hfit, hchunk len hfit]
  · -- the read wraps: the second chunk starts a full turn after the first index
    have hmin : min len (n - p % n) = n - p % n := by omega
    obtain ⟨b, rfl⟩ : ∃ b, len = (n - p % n) + b := ⟨len - (n - p % n), by omega⟩
    dsimp only
    rw [hmin, if_pos (by omega), hchunk _ le_rfl, ringSpan_add, Nat.add_sub_cancel_left]
    congr 1
    refine List.map_congr_left fun k hk => ?_
    have hk' : k < n := by have := List.mem_range.mp hk; omega
    have hturn : p + (n - p % n) + k = n * (p / n + 1) + k := by
      have := Nat.div_add_mod p n
      rw [Nat.mul_add]
      omega
    rw [hturn, Nat.mul_add_mod, Nat.mod_eq_of_lt hk', Nat.zero_add]

theorem memcpy_get {dst : Nat} {src : List β} {k : Nat} (hk : k < src.length) :
    memcpy buf dst src (dst + k) = src[k] := by
  simp [memcpy, List.getElem?_eq_getElem hk]

theorem memcpy_frame {dst j : Nat} {src : List β} (h : j < dst ∨ dst + src.length ≤ j) :
    memcpy buf dst src j = buf j := by
  unfold memcpy
  split
  · rw [List.getElem?_eq_none (by omega)]
    rfl
  · rfl

@[simp] theorem ringCopyIn_nil (index : Nat) : ringCopyIn n buf index [] = buf := by
  funext j
  simp [ringCopyIn, memcpy]

/-- A copied-in byte sits at its absolute position. -/
theorem ringCopyIn_get {p k : Nat} {data : List β} (hn : 0 < n) (hlen : data.length ≤ n)
    (hk : k < data.length) :
    ringCopyIn n buf (p % n) data ((p + k) % n) = data[k] := by
  have hp : p % n < n := Nat.mod_lt p hn
  have hidx : (p + k) % n = ringAdvance n (p % n) k := (ringAdvance_mod hn (by omega)).symm
  rw [hidx, ringAdvance, ringCopyIn]
  by_cases hfit : data.length ≤ n - p % n
  · have hlt : p % n + k < n := by omega
    simp [Nat.min_eq_left hfit, hlt, memcpy_get hk]
  · have hmin : min data.length (n - p % n) = n - p % n := by omega
    rw [hmin, if_pos (by omega)]
    by_cases hfirst : p % n + k < n
    · rw [if_pos hfirst, memcpy_frame (by simp; omega), memcpy_get (by simp; omega)]
      simp
    · rw [if_neg hfirst]
      have hcell : p % n + k - n = 0 + (k - (n - p % n)) := by omega
      rw [hcell, memcpy_get (by simp; omega), List.getElem_drop]
      congr 1
      omega

/-- Copying in leaves every cell outside the written stretch alone. -/
theorem ringCopyIn_frame {p q : Nat} {data : List β} (hn : 0 < n) (hqp : q < p)
    (hfree : p + data.length ≤ q + n) :
    ringCopyIn n buf (p % n) data (q % n) = buf (q % n) := by
  have hp : p % n < n := Nat.mod_lt p hn
  have hq : q % n < n := Nat.mod_lt q hn
  -- the cell of `q` is not the cell of any written position
  have hne : ∀ k < data.length, q % n ≠ ringAdvance n (p % n) k := by
    intro k hk
    rw [ringAdvance_mod hn (by omega)]
    exact mod_ne_of_lt_turn (by omega) (by omega)
  unfold ringCopyIn
  by_cases hfit : data.length ≤ n - p % n
  · rw [Nat.min_eq_left hfit, if_neg (lt_irrefl _), List.take_length]
    refine memcpy_frame ?_
    by_contra hcon
    refine hne (q % n - p % n) (by omega) ?_
    rw [ringAdvance, if_pos (by omega)]
    omega
  · have hmin : min data.length (n - p % n) = n - p % n := by omega
    rw [hmin, if_pos (by omega), memcpy_frame, memcpy_frame]
    · left
      by_contra hcon
      refine hne (q % n - p % n) (by omega) ?_
      rw [ringAdvance, if_pos (by omega)]
      omega
    · right
      by_contra hcon
      simp only [List.length_drop, Nat.zero_add, Nat.not_le] at hcon
      refine hne (q % n + (n - p % n)) (by omega) ?_
      rw [ringAdvance, if_neg (by omega)]
      omega

/-- What a copy into the ring leaves in each cell. -/
theorem ringCopyIn_apply {i : Nat} {data : List β} (hi : i < n) (hlen : data.length ≤ n) (j : Nat) :
    ringCopyIn n buf i data j =
      if j < i then (data[j + (n - i)]?).getD (buf j)
      else if j < n then (data[j - i]?).getD (buf j) else buf j := by
  unfold ringCopyIn
  by_cases hfit : data.length ≤ n - i
  · -- one chunk: the cells before `i` are not reached
    rw [Nat.min_eq_left hfit, if_neg (lt_irrefl _), List.take_length, memcpy]
    by_cases hji : j < i
    · rw [if_neg (by omega), if_pos hji, List.getElem?_eq_none (by omega), Option.getD_none]
    · rw [if_pos (by omega), if_neg hji]
      by_cases hjn : j < n
      · rw [if_pos hjn]
      · rw [if_neg hjn, List.getElem?_eq_none (by omega), Option.getD_none]
  · have hmin : min data.length (n - i) = n - i := by omega
    rw [hmin, if_pos (by omega), memcpy, if_pos (Nat.zero_le j), List.getElem?_drop, Nat.sub_zero,
      Nat.add_comm (n - i) j]
    by_cases hji : j < i
    · rw [if_pos hji, memcpy, if_neg (by omega)]
    · rw [if_neg hji, List.getElem?_eq_none (by omega), Option.getD_none, memcpy,
        if_pos (by omega)]
      by_cases hjn : j < n
      · rw [if_pos hjn, List.getElem?_take_of_lt (by omega)]
      · rw [if_neg hjn, List.getElem?_eq_none (by simp; omega), Option.getD_none]

/-- The first item of a copy is a write of its own. -/
theorem ringCopyIn_cons {i : Nat} {x : β} {data : List β} (hi : i < n) (hlen : data.length < n) :
    ringCopyIn n buf i (x :: data) =
      ringCopyIn n (Function.update buf i x) (ringAdvance n i 1) data := by
  have hnext : ringAdvance n i 1 < n := ringAdvance_lt hi (Nat.zero_lt_of_lt hi)
  funext j
  rw [ringCopyIn_apply hi (by rw [List.length_cons]; exact hlen), ringCopyIn_apply hnext hlen.le]
  unfold ringAdvance
  by_cases hji : j = i
  · -- the cell that is written: no later item comes back to it
    subst hji
    rw [if_neg (lt_irrefl _), if_pos hi, Nat.sub_self, Function.update_self]
    by_cases hwrap : j + 1 < n
    · rw [if_pos hwrap, if_pos (by omega), List.getElem?_eq_none (l := data) (by omega)]
      rfl
    · rw [if_neg hwrap, if_neg (by omega), if_pos hi, List.getElem?_eq_none (l := data) (by omega)]
      rfl
  · rw [Function.update_of_ne hji]
    by_cases hwrap : i + 1 < n
    · rw [if_pos hwrap]
      by_cases hlt : j < i
      · rw [if_pos hlt, if_pos (by omega), show j + (n - i) = j + (n - (i + 1)) + 1 by omega,
          List.getElem?_cons_succ]
      · have hge : ¬ j < i + 1 := by omega
        rw [if_neg hlt, if_neg hge, show j - i = j - (i + 1) + 1 by omega,
          List.getElem?_cons_succ]
    · rw [if_neg hwrap, show i + 1 - n = 0 by omega, if_neg (Nat.not_lt_zero j)]
      by_cases hlt : j < i
      · rw [if_pos hlt, if_pos (by omega), show j + (n - i) = j - 0 + 1 by omega,
          List.getElem?_cons_succ]
      · rw [if_neg hlt, if_neg (by omega), if_neg (by omega)]

/-- What was copied in is what the span at that position reads back. -/
theorem ringSpan_copyIn {p : Nat} {data : List β} (hn : 0 < n) (hlen : data.length ≤ n) :
    ringSpan n (ringCopyIn n buf (p % n) data) p data.length = data := by
  refine List.ext_getElem (by simp) fun k h₁ h₂ => ?_
  simp only [ringSpan, List.getElem_map, List.getElem_range]
  exact ringCopyIn_get hn hlen h₂

/-- A copy into free cells leaves the span before it alone. -/
theorem ringSpan_copyIn_frame {p q len : Nat} {data : List β} (hn : 0 < n)
    (hqp : q + len ≤ p) (hfree : p + data.length ≤ q + n) :
    ringSpan n (ringCopyIn n buf (p % n) data) q len = ringSpan n buf q len :=
  ringSpan_congr fun k hk => ringCopyIn_frame hn (by omega) (by omega)

end Copies

/-! ### A ring at absolute positions -/

/-- Indices `head` and `tail` of a ring of `n = cap + 1` cells are the residues
of `H` (written so far) and `T` (consumed so far), at most `cap` apart. -/
structure RingPos (n cap head tail H T : Nat) : Prop where
  size : n = cap + 1
  head : head = H % n
  tail : tail = T % n
  le : T ≤ H
  cap : H ≤ T + cap

namespace RingPos

variable {β : Type*} {n cap head tail H T : Nat}

theorem size_pos (h : RingPos n cap head tail H T) : 0 < n := by
  have := h.size
  omega

/-- A `head` loaded at position `H₀` shows `H₀ - T` cells. -/
theorem available_eq (h : RingPos n cap head tail H T) {H₀ : Nat} (hle : T ≤ H₀) (hH : H₀ ≤ H) :
    ringAvailable n (H₀ % n) tail = H₀ - T := by
  have := h.size
  have := h.cap
  rw [h.tail]
  exact ringAvailable_mod hle (by omega)

/-- A `head` loaded `k` cells past `T` shows these `k` cells. -/
theorem available_add (h : RingPos n cap head tail H T) {k : Nat} (hH : T + k ≤ H) :
    ringAvailable n ((T + k) % n) tail = k := by
  rw [h.available_eq (Nat.le_add_right T k) hH, Nat.add_sub_cancel_left]

theorem available_now (h : RingPos n cap head tail H T) : ringAvailable n head tail = H - T := by
  rw [h.head]
  exact h.available_eq h.le le_rfl

theorem head_lt (h : RingPos n cap head tail H T) : head < n := by
  rw [h.head]
  exact Nat.mod_lt _ h.size_pos

theorem tail_lt (h : RingPos n cap head tail H T) : tail < n := by
  rw [h.tail]
  exact Nat.mod_lt _ h.size_pos

/-- Copying out from `tail` reads the span from `T`. -/
theorem copyOut (h : RingPos n cap head tail H T) {buf : Nat → β} {len : Nat} (hlen : len ≤ cap) :
    ringCopyOut n buf tail len = ringSpan n buf T len := by
  have := h.size
  rw [h.tail]
  exact ringCopyOut_mod h.size_pos (by omega)

/-- The producer publishes `len` more cells. -/
theorem advanceHead (h : RingPos n cap head tail H T) {len : Nat} (hfree : H + len ≤ T + cap) :
    RingPos n cap (ringAdvance n head len) tail (H + len) T where
  size := h.size
  head := by
    have := h.size
    have := h.le
    rw [h.head]
    exact ringAdvance_mod h.size_pos (by omega)
  tail := h.tail
  le := h.le.trans (Nat.le_add_right _ _)
  cap := hfree

/-- The consumer gives back `len` cells. -/
theorem advanceTail (h : RingPos n cap head tail H T) {len : Nat} (hlen : T + len ≤ H) :
    RingPos n cap head (ringAdvance n tail len) H (T + len) where
  size := h.size
  head := h.head
  tail := by
    have := h.size
    have := h.cap
    rw [h.tail]
    exact ringAdvance_mod h.size_pos (by omega)
  le := hlen
  cap := by
    have := h.cap
    omega

/-- The consumer gives back everything up to a `head` it loaded at `H₀`. -/
theorem resetTail (h : RingPos n cap head tail H T) {H₀ : Nat} (hle : T ≤ H₀) (hH : H₀ ≤ H) :
    RingPos n cap head (H₀ % n) H H₀ where
  size := h.size
  head := h.head
  tail := rfl
  le := hH
  cap := by
    have := h.cap
    omega

end RingPos

end MicrOsal
