import MicrOsal.RingBuffer.Model

/-!
# MicrOsal.RingBuffer.Fifo

The ring buffer is a bounded FIFO under every interleaving of its producer and its
consumer.

The invariant (`RbInv`) is stated at absolute positions, as for the stream buffer: `H` items
pushed and `T` taken so far. What is different here is that a bulk call accesses its slots
one by one, so a program point in the middle of a copy says how far it has come, and that
every item enters or leaves with the store of an index, which is also where its call returns.
-/

namespace MicrOsal

universe u

open RingBuffer

variable {α : Type u} {N : Nat}

/-! ### Indices -/

/-- The buffer at absolute positions `H` (pushed) and `T` (taken). -/
abbrev RingBuffer.At (rb : RingBuffer α N) (H T : Nat) : Prop :=
  RingPos (kCapacity N) N rb.head rb.tail H T

namespace RingBuffer

theorem increment_eq {idx : Nat} (h : idx < kCapacity N) :
    increment N idx = ringAdvance (kCapacity N) idx 1 := by
  unfold increment ringAdvance
  by_cases hlast : idx + 1 = kCapacity N
  · rw [if_pos hlast, if_neg (by omega)]
    omega
  · rw [if_neg hlast, if_pos (by omega)]

/-- The two `memcpy` go through consecutive positions. -/
theorem slotAt_eq {index n k : Nat} (hindex : index < kCapacity N) (hk : k < n) :
    slotAt N index n k = ringAdvance (kCapacity N) index k := by
  unfold slotAt ringAdvance
  dsimp only
  by_cases hin : index + k < kCapacity N
  · rw [if_pos hin, if_pos (by omega)]
  · rw [if_neg hin, if_neg (by omega)]
    omega

variable {rb : RingBuffer α N} {H T : Nat}

theorem size_eq (h : rb.At H T) : rb.size = H - T := h.available_now

theorem pushAvail_eq (h : rb.At H T) : pushAvail N rb.head rb.tail + (H - T) = N := by
  have hsize := h.available_now
  have hhead := h.head_lt
  have htail := h.tail_lt
  have hle := h.le
  have hcap := h.cap
  unfold ringAvailable at hsize
  unfold pushAvail
  unfold kCapacity at *
  split at hsize <;> split <;> omega

/-- `try_push` finds the buffer full. -/
theorem increment_eq_tail_iff (h : rb.At H T) : increment N rb.head = rb.tail ↔ H - T = N := by
  have hle := h.le
  have hcap := h.cap
  have hsize := h.size
  rw [increment_eq h.head_lt, h.head, ringAdvance_mod h.size_pos h.size_pos, h.tail]
  constructor
  · intro heq
    by_contra hne
    exact mod_ne_of_lt_turn (n := kCapacity N) (show T < H + 1 by omega) (by omega) heq.symm
  · intro hfull
    rw [show H + 1 = T + kCapacity N by omega, Nat.add_mod_right]

/-- The consumer finds the buffer empty. -/
theorem tail_eq_head_iff (h : rb.At H T) : rb.tail = rb.head ↔ H = T := by
  have hle := h.le
  have hcap := h.cap
  have hsize := h.size
  rw [h.head, h.tail]
  constructor
  · intro heq
    by_contra hne
    exact mod_ne_of_lt_turn (n := kCapacity N) (show T < H by omega) (by omega) heq
  · rintro rfl
    rfl

/-- The items between `tail_` and `head_`, oldest first. -/
def contents (rb : RingBuffer α N) : List α :=
  ringCopyOut (kCapacity N) rb.buf rb.tail rb.size

theorem contents_eq (h : rb.At H T) :
    rb.contents = ringSpan (kCapacity N) rb.buf T (H - T) := by
  have hcap := h.cap
  rw [contents, size_eq h]
  exact h.copyOut (by omega)

/-- Slot `i` is in `[tail_, head_)`. -/
def InUse (rb : RingBuffer α N) (i : Nat) : Prop :=
  i < kCapacity N ∧ ringAvailable (kCapacity N) i rb.tail < rb.size

/-- The slot of a position that is stored. -/
theorem inUse_of_stored (h : rb.At H T) {p : Nat} (hT : T ≤ p) (hH : p < H) :
    rb.InUse (p % kCapacity N) := by
  have hcap := h.cap
  have hsize := h.size
  refine ⟨Nat.mod_lt _ h.size_pos, ?_⟩
  rw [size_eq h, h.tail, ringAvailable_mod hT (by omega)]
  omega

/-- The slot of a position that is not stored yet. -/
theorem not_inUse_of_free (h : rb.At H T) {p : Nat} (hH : H ≤ p) (hfree : p < T + N + 1) :
    ¬ rb.InUse (p % kCapacity N) := by
  have hle := h.le
  have hsize := h.size
  rintro ⟨-, hlt⟩
  rw [size_eq h, h.tail, ringAvailable_mod (by omega) (by omega)] at hlt
  omega

end RingBuffer

/-! ### What the record says -/

/-- The items that have been pushed, in order. -/
def pushedItems (pushes : List (RbPush α)) : List α := pushes.flatMap fun r => r.items.take r.pushed

/-- The items that have left the buffer, in order. -/
def takenItems (outs : List (RbOut α)) : List α := outs.flatMap RbOut.taken

/-- A push that has returned: what it could not push did not fit, given what the buffer held
when `tail_` was loaded. -/
def RbPush.Honest (N : Nat) (r : RbPush α) : Prop :=
  r.pushed ≤ r.items.length ∧ (r.pushed < r.items.length → r.held + r.pushed = N)

/-- A call of the consumer that has returned: it came back with nothing only if the buffer
was empty when `head_` was loaded. -/
def RbOut.Honest : RbOut α → Prop
  | .popped count items held => items.length ≤ count ∧ (items = [] → count = 0 ∨ held = 0)
  | .peeked item held => item = none → held = 0
  | .discarded _ => True

/-! ### The invariant -/

/-- What the producer has established at each point. -/
def RbProdOk (rb : RingBuffer α N) (H T : Nat) : RbProducer α → Prop
  | .idle | .pushHead _ | .pushNHead _ => True
  | .pushTail _ h | .pushNTail _ h => h = rb.head
  | .pushWrite _ h _ => h = rb.head ∧ H < T + N
  | .pushStore item h _ =>
    h = rb.head ∧ H < T + N ∧ ringSpan (kCapacity N) rb.buf H 1 = [item]
  | .pushNWrite items h n k held =>
    h = rb.head ∧ k < n ∧ n ≤ items.length ∧ H + n ≤ T + N ∧
      ringSpan (kCapacity N) rb.buf H k = items.take k ∧ (n < items.length → held + n = N)
  | .pushNStore items h n held =>
    h = rb.head ∧ n ≤ items.length ∧ H + n ≤ T + N ∧
      ringSpan (kCapacity N) rb.buf H n = items.take n ∧ (n < items.length → held + n = N)

/-- What the consumer has established at each point. -/
def RbConsOk (rb : RingBuffer α N) (H T : Nat) : RbConsumer α → Prop
  | .idle | .popTail | .popNTail _ | .peekTail | .resetHead => True
  | .popHead t | .popNHead _ t | .peekHead t => t = rb.tail
  | .popRead t _ | .peekRead t _ => t = rb.tail ∧ T < H
  | .popStore t item _ =>
    t = rb.tail ∧ T < H ∧ ringSpan (kCapacity N) rb.buf T 1 = [item]
  | .popNRead count t n items _ =>
    t = rb.tail ∧ items.length < n ∧ n ≤ count ∧ T + n ≤ H ∧
      ringSpan (kCapacity N) rb.buf T items.length = items
  | .popNStore count t n items _ =>
    t = rb.tail ∧ 0 < n ∧ n ≤ count ∧ T + n ≤ H ∧ ringSpan (kCapacity N) rb.buf T n = items
  | .resetTail h => ∃ H₀, h = H₀ % kCapacity N ∧ T ≤ H₀ ∧ H₀ ≤ H

structure RbInv (s : RbSys α N) (H T : Nat) : Prop where
  ring : s.rb.At H T
  prod : RbProdOk s.rb H T s.prod
  cons : RbConsOk s.rb H T s.cons
  fifo : takenItems s.outs ++ ringSpan (kCapacity N) s.rb.buf T (H - T) = pushedItems s.pushes
  pushes : ∀ r ∈ s.pushes, r.Honest N
  outs : ∀ r ∈ s.outs, r.Honest

namespace RbInv

variable {s : RbSys α N} {H T : Nat}

/-! ### The producer's steps -/

/-- What the consumer knows survives a write to a slot of a free position. -/
theorem consOk_write {rb : RingBuffer α N} {cons : RbConsumer α} (h : RbConsOk rb H T cons)
    {p : Nat} (x : α) (hp : H ≤ p) (hfree : p < T + kCapacity N) :
    RbConsOk (rb.write (p % kCapacity N) x) H T cons := by
  cases cons with
  | popStore t item held =>
      obtain ⟨ht, hlt, hitem⟩ := h
      refine ⟨ht, hlt, ?_⟩
      rw [RingBuffer.write, ringSpan_update_frame x (by omega) hfree]
      exact hitem
  | popNRead count t n items held =>
      obtain ⟨ht, hk, hn, hle, hitems⟩ := h
      refine ⟨ht, hk, hn, hle, ?_⟩
      rw [RingBuffer.write, ringSpan_update_frame x (by omega) hfree]
      exact hitems
  | popNStore count t n items held =>
      obtain ⟨ht, hpos, hn, hle, hitems⟩ := h
      refine ⟨ht, hpos, hn, hle, ?_⟩
      rw [RingBuffer.write, ringSpan_update_frame x (by omega) hfree]
      exact hitems
  | _ => exact h

/-- What the consumer knows survives the publication of more items. -/
theorem consOk_publish {rb : RingBuffer α N} {cons : RbConsumer α} (h : RbConsOk rb H T cons)
    {H' : Nat} (head' : Nat) (hle : H ≤ H') : RbConsOk (rb.storeHead head') H' T cons := by
  cases cons with
  | popRead t held => exact ⟨h.1, h.2.trans_le hle⟩
  | peekRead t held => exact ⟨h.1, h.2.trans_le hle⟩
  | popStore t item held => exact ⟨h.1, h.2.1.trans_le hle, h.2.2⟩
  | popNRead count t n items held =>
      exact ⟨h.1, h.2.1, h.2.2.1, h.2.2.2.1.trans hle, h.2.2.2.2⟩
  | popNStore count t n items held =>
      exact ⟨h.1, h.2.1, h.2.2.1, h.2.2.2.1.trans hle, h.2.2.2.2⟩
  | resetTail hd =>
      obtain ⟨H₀, hH₀, hT, hH⟩ := h
      exact ⟨H₀, hH₀, hT, hH.trans hle⟩
  | _ => exact h

/-- The producer moves and touches nothing. -/
theorem moveProducer (h : RbInv s H T) {prod : RbProducer α} (hp : RbProdOk s.rb H T prod) :
    RbInv { s with prod := prod } H T :=
  { h with prod := hp }

/-- The producer writes the slot of position `p`. -/
theorem write (h : RbInv s H T) {p : Nat} (x : α) (hp : H ≤ p) (hfree : p < T + kCapacity N)
    {prod : RbProducer α}
    (hprod : RbProdOk (s.rb.write (p % kCapacity N) x) H T prod) :
    RbInv { s with rb := s.rb.write (p % kCapacity N) x, prod := prod } H T where
  ring := h.ring
  prod := hprod
  cons := consOk_write h.cons x hp hfree
  fifo := by
    have hle := h.ring.le
    rw [RingBuffer.write, ringSpan_update_frame x (by omega) hfree]
    exact h.fifo
  pushes := h.pushes
  outs := h.outs

/-- A push that has found no room returns. -/
theorem pushFails (h : RbInv s H T) {items : List α}
    (hheld : 0 < items.length → s.rb.size = N) : RbInv (s.pushReturns items 0 s.rb.size) H T where
  ring := h.ring
  prod := trivial
  cons := h.cons
  fifo := by
    have hfifo := h.fifo
    simpa [RbSys.pushReturns, pushedItems] using hfifo
  pushes := by
    intro r hr
    rcases List.mem_append.mp hr with hr | hr
    · exact h.pushes r hr
    · obtain rfl := List.mem_singleton.mp hr
      exact ⟨Nat.zero_le _, hheld⟩
  outs := h.outs

/-- The producer publishes the `n` items it has written. -/
theorem publish (h : RbInv s H T) {items : List α} {n held : Nat} (hn : n ≤ items.length)
    (hfree : H + n ≤ T + N) (hspan : ringSpan (kCapacity N) s.rb.buf H n = items.take n)
    (hheld : n < items.length → held + n = N) :
    RbInv ({ s with rb := s.rb.storeHead (ringAdvance (kCapacity N) s.rb.head n) }.pushReturns
      items n held) (H + n) T where
  ring := h.ring.advanceHead hfree
  prod := trivial
  cons := consOk_publish h.cons _ (Nat.le_add_right H n)
  fifo := by
    have hle := h.ring.le
    have hfifo := h.fifo
    show takenItems s.outs ++ ringSpan _ s.rb.buf T (H + n - T) =
      pushedItems (s.pushes ++ [⟨items, n, held⟩])
    rw [show H + n - T = H - T + n by omega, ringSpan_add, Nat.add_sub_cancel' hle, hspan,
      ← List.append_assoc, hfifo]
    simp [pushedItems]
  pushes := by
    intro r hr
    rcases List.mem_append.mp hr with hr | hr
    · exact h.pushes r hr
    · obtain rfl := List.mem_singleton.mp hr
      exact ⟨hn, hheld⟩
  outs := h.outs

theorem stepProducer (h : RbInv s H T) {s' : RbSys α N} (hs : s.stepProducer = some s') :
    ∃ H', RbInv s' H' T := by
  have hprod := h.prod
  have hring := h.ring
  have hle := hring.le
  have hsize := hring.size
  have hlt := hring.head_lt
  unfold RbSys.stepProducer at hs
  generalize hp : s.prod = here at hprod
  cases here with
  | idle => simp [hp] at hs
  | pushHead item | pushNHead items =>
      simp only [hp] at hs
      cases hs
      exact ⟨H, h.moveProducer rfl⟩
  | pushTail item hd =>
      obtain rfl : hd = s.rb.head := hprod
      simp only [hp] at hs
      split at hs
      · rename_i hfull
        cases hs
        refine ⟨H, h.pushFails fun _ => ?_⟩
        rw [size_eq hring]
        exact (increment_eq_tail_iff hring).mp hfull
      · rename_i hroom
        cases hs
        rw [increment_eq_tail_iff hring] at hroom
        have hcap := hring.cap
        exact ⟨H, h.moveProducer ⟨rfl, by omega⟩⟩
  | pushWrite item hd held =>
      obtain ⟨rfl, hroom⟩ := hprod
      simp only [hp] at hs
      cases hs
      have hspan : ringSpan (kCapacity N) (Function.update s.rb.buf (H % kCapacity N) item) H 1 =
          [item] := ringSpan_update_concat (k := 0) item hring.size_pos
      refine ⟨H, ?_⟩
      nth_rewrite 1 [hring.head]
      exact h.write item le_rfl (by omega) ⟨rfl, hroom, hspan⟩
  | pushStore item hd held =>
      obtain ⟨rfl, hroom, hspan⟩ := hprod
      simp only [hp] at hs
      cases hs
      rw [increment_eq hlt]
      exact ⟨H + 1, h.publish (by simp) (by omega) (by simpa using hspan) (by simp)⟩
  | pushNTail items hd =>
      obtain rfl : hd = s.rb.head := hprod
      have havail := pushAvail_eq hring
      simp only [hp] at hs
      split at hs
      · rename_i hzero
        cases hs
        refine ⟨H, h.pushFails fun hpos => ?_⟩
        rw [size_eq hring]
        omega
      · rename_i hpos
        cases hs
        refine ⟨H, h.moveProducer ⟨rfl, by omega, by omega, by omega, rfl, fun hshort => ?_⟩⟩
        rw [size_eq hring]
        omega
  | pushNWrite items hd n k held =>
      obtain ⟨rfl, hk, hn, hroom, hspan, hheld⟩ := hprod
      have hget : items[k]? = some items[k] := List.getElem?_eq_getElem (by omega)
      simp only [hp, hget, Option.map_some] at hs
      cases hs
      have hslot : slotAt N s.rb.head n k = (H + k) % kCapacity N := by
        rw [slotAt_eq hlt hk, hring.head]
        exact ringAdvance_mod hring.size_pos (by omega)
      have hspan' : ringSpan (kCapacity N)
          (Function.update s.rb.buf ((H + k) % kCapacity N) items[k]) H (k + 1) =
            items.take (k + 1) := by
        rw [ringSpan_update_concat items[k] (by omega), hspan, List.take_append_getElem]
      rw [hslot]
      refine ⟨H, h.write items[k] (Nat.le_add_right H k) (by omega) ?_⟩
      by_cases hmore : k + 1 < n
      · rw [if_pos hmore]
        exact ⟨rfl, hmore, hn, hroom, hspan', hheld⟩
      · obtain rfl : n = k + 1 := by omega
        rw [if_neg hmore]
        exact ⟨rfl, hn, hroom, hspan', hheld⟩
  | pushNStore items hd n held =>
      obtain ⟨rfl, hn, hroom, hspan, hheld⟩ := hprod
      simp only [hp] at hs
      cases hs
      exact ⟨H + n, h.publish hn hroom hspan hheld⟩

/-! ### The consumer's steps -/

/-- What the producer knows survives the consumer giving back slots. -/
theorem prodOk_take {rb : RingBuffer α N} {prod : RbProducer α} (h : RbProdOk rb H T prod)
    {T' : Nat} (tail' : Nat) (hle : T ≤ T') : RbProdOk (rb.storeTail tail') H T' prod := by
  cases prod with
  | pushWrite item hd held => exact ⟨h.1, by have := h.2; omega⟩
  | pushStore item hd held => exact ⟨h.1, by have := h.2.1; omega, h.2.2⟩
  | pushNWrite items hd n k held =>
      obtain ⟨hhd, hk, hn, hroom, hspan, hheld⟩ := h
      exact ⟨hhd, hk, hn, by omega, hspan, hheld⟩
  | pushNStore items hd n held =>
      obtain ⟨hhd, hn, hroom, hspan, hheld⟩ := h
      exact ⟨hhd, hn, by omega, hspan, hheld⟩
  | _ => exact h

/-- The consumer moves and touches nothing. -/
theorem moveConsumer (h : RbInv s H T) {cons : RbConsumer α} (hc : RbConsOk s.rb H T cons) :
    RbInv { s with cons := cons } H T :=
  { h with cons := hc }

/-- A call of the consumer that takes nothing returns. -/
theorem takesNothing (h : RbInv s H T) {out : RbOut α} (htaken : out.taken = [])
    (hout : out.Honest) : RbInv (s.outReturns out) H T where
  ring := h.ring
  prod := h.prod
  cons := trivial
  fifo := by
    have hfifo := h.fifo
    simpa [RbSys.outReturns, takenItems, htaken] using hfifo
  pushes := h.pushes
  outs := by
    intro r hr
    rcases List.mem_append.mp hr with hr | hr
    · exact h.outs r hr
    · obtain rfl := List.mem_singleton.mp hr
      exact hout

/-- The consumer gives back the slots of the `n` items it has taken. -/
theorem takes (h : RbInv s H T) {n t : Nat} {out : RbOut α} (hle : T + n ≤ H)
    (ht : t = (T + n) % kCapacity N)
    (htaken : out.taken = ringSpan (kCapacity N) s.rb.buf T n) (hout : out.Honest) :
    RbInv ({ s with rb := s.rb.storeTail t }.outReturns out) H (T + n) where
  ring := by
    have hring := h.ring.resetTail (Nat.le_add_right T n) hle
    rw [← ht] at hring
    exact hring
  prod := prodOk_take h.prod t (Nat.le_add_right T n)
  cons := trivial
  fifo := by
    have hfifo := h.fifo
    show takenItems (s.outs ++ [out]) ++ ringSpan _ s.rb.buf (T + n) (H - (T + n)) =
      pushedItems s.pushes
    rw [show H - T = n + (H - (T + n)) by omega, ringSpan_add, ← htaken, ← List.append_assoc]
      at hfifo
    simpa [takenItems] using hfifo
  pushes := h.pushes
  outs := by
    intro r hr
    rcases List.mem_append.mp hr with hr | hr
    · exact h.outs r hr
    · obtain rfl := List.mem_singleton.mp hr
      exact hout

theorem stepConsumer (h : RbInv s H T) {s' : RbSys α N} (hs : s.stepConsumer = some s') :
    ∃ T', RbInv s' H T' := by
  have hcons := h.cons
  have hring := h.ring
  have hle := hring.le
  have hcap := hring.cap
  have hsize := hring.size
  have hlt := hring.tail_lt
  unfold RbSys.stepConsumer at hs
  generalize hc : s.cons = here at hcons
  cases here with
  | idle => simp [hc] at hs
  | popTail | popNTail count | peekTail =>
      simp only [hc] at hs
      cases hs
      exact ⟨T, h.moveConsumer rfl⟩
  | popHead t | peekHead t =>
      obtain rfl : t = s.rb.tail := hcons
      simp only [hc] at hs
      split at hs
      · rename_i hempty
        cases hs
        rw [tail_eq_head_iff hring] at hempty
        have hheld : s.rb.size = 0 := by
          rw [size_eq hring]
          omega
        first
          | exact ⟨T, h.takesNothing rfl ⟨Nat.zero_le _, fun _ => Or.inr hheld⟩⟩
          | exact ⟨T, h.takesNothing rfl fun _ => hheld⟩
      · rename_i hsome
        cases hs
        rw [tail_eq_head_iff hring] at hsome
        exact ⟨T, h.moveConsumer ⟨rfl, by omega⟩⟩
  | popRead t held =>
      obtain ⟨rfl, hpos⟩ := hcons
      simp only [hc] at hs
      cases hs
      refine ⟨T, h.moveConsumer ⟨rfl, hpos, ?_⟩⟩
      simp [ringSpan, hring.tail]
  | popStore t item held =>
      obtain ⟨rfl, hpos, hitem⟩ := hcons
      simp only [hc] at hs
      cases hs
      refine ⟨T + 1, h.takes (by omega) ?_ hitem.symm ⟨le_rfl, fun h => by cases h⟩⟩
      rw [increment_eq hlt, hring.tail]
      exact ringAdvance_mod hring.size_pos hring.size_pos
  | popNHead count t =>
      obtain rfl : t = s.rb.tail := hcons
      have havail : popAvail N s.rb.head s.rb.tail = H - T := hring.available_now
      simp only [hc, havail] at hs
      split at hs
      · rename_i hzero
        cases hs
        refine ⟨T, h.takesNothing rfl ⟨Nat.zero_le _, fun _ => ?_⟩⟩
        rw [size_eq hring]
        omega
      · rename_i hpos
        cases hs
        exact ⟨T, h.moveConsumer ⟨rfl, Nat.pos_of_ne_zero hpos, Nat.min_le_left _ _, by omega, rfl⟩⟩
  | popNRead count t n items held =>
      obtain ⟨rfl, hk, hn, hin, hitems⟩ := hcons
      simp only [hc] at hs
      cases hs
      have hslot : slotAt N s.rb.tail n items.length = (T + items.length) % kCapacity N := by
        rw [slotAt_eq hlt hk, hring.tail]
        exact ringAdvance_mod hring.size_pos (by omega)
      have hitems' : ringSpan (kCapacity N) s.rb.buf T (items.length + 1) =
          items ++ [s.rb.buf (slotAt N s.rb.tail n items.length)] := by
        rw [ringSpan_add, hitems, hslot]
        rfl
      refine ⟨T, h.moveConsumer ?_⟩
      rw [List.length_append, List.length_singleton]
      by_cases hmore : items.length + 1 < n
      · rw [if_pos hmore]
        refine ⟨rfl, by simpa using hmore, hn, hin, ?_⟩
        rw [List.length_append, List.length_singleton]
        exact hitems'
      · obtain rfl : n = items.length + 1 := by omega
        rw [if_neg hmore]
        exact ⟨rfl, Nat.succ_pos _, hn, hin, hitems'⟩
  | popNStore count t n items held =>
      obtain ⟨rfl, hpos, hn, hin, hitems⟩ := hcons
      simp only [hc] at hs
      cases hs
      refine ⟨T + n, h.takes hin ?_ hitems.symm ?_⟩
      · rw [show advance N s.rb.tail n = ringAdvance (kCapacity N) s.rb.tail n from rfl, hring.tail]
        exact ringAdvance_mod hring.size_pos (by omega)
      · rw [← hitems]
        refine ⟨by simpa using hn, fun hnil => ?_⟩
        rw [← List.length_eq_zero_iff, ringSpan_length] at hnil
        omega
  | peekRead t held =>
      simp only [hc] at hs
      cases hs
      exact ⟨T, h.takesNothing rfl (fun h => by cases h)⟩
  | resetHead =>
      simp only [hc] at hs
      cases hs
      exact ⟨T, h.moveConsumer ⟨H, hring.head, hle, le_rfl⟩⟩
  | resetTail hd =>
      obtain ⟨H₀, hH₀, hT, hH⟩ := hcons
      have havail : popAvail N hd s.rb.tail = H₀ - T := by
        rw [hH₀]
        exact hring.available_eq hT hH
      simp only [hc, havail] at hs
      cases hs
      refine ⟨T + (H₀ - T), h.takes (by omega) ?_ (hring.copyOut (by omega)) trivial⟩
      rw [hH₀, Nat.add_sub_cancel' hT]

/-- Every step keeps the invariant. -/
theorem step (h : RbInv s H T) {a : RbAct α} {s' : RbSys α N} (hs : s.step a = some s') :
    ∃ H' T', RbInv s' H' T' := by
  cases a with
  | producer =>
      obtain ⟨H', hinv⟩ := h.stepProducer hs
      exact ⟨H', T, hinv⟩
  | consumer => exact ⟨H, h.stepConsumer hs⟩
  | tryPush item | tryPushN items =>
      simp only [RbSys.step, RbSys.beginPush] at hs
      split at hs
      · cases hs
        exact ⟨H, T, h.moveProducer trivial⟩
      · cases hs
  | tryPop | tryPopN count | peek | reset =>
      simp only [RbSys.step, RbSys.beginOut] at hs
      split at hs
      · cases hs
        exact ⟨H, T, h.moveConsumer trivial⟩
      · cases hs

theorem create [Inhabited α] (N : Nat) : RbInv (.create N : RbSys α N) 0 0 where
  ring := ⟨rfl, (Nat.zero_mod _).symm, (Nat.zero_mod _).symm, le_rfl, Nat.zero_le _⟩
  prod := trivial
  cons := trivial
  fifo := rfl
  pushes := nofun
  outs := nofun

theorem reachable [Inhabited α] {s : RbSys α N} (hs : (ringBufferMachine α N).Reachable s) :
    ∃ H T, RbInv s H T := by
  refine hs.invariant (I := fun s => ∃ H T, RbInv s H T) ⟨0, 0, create N⟩ ?_
  rintro s a s' - ⟨H, T, h⟩ hstep
  exact h.step hstep

end RbInv

end MicrOsal
