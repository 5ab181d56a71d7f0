import MicrOsal.Lib.RingIndex

/-!
# MicrOsal.Lib.Ring

A bounded queue in a circular array, with the index of the front, the index of
the first free cell and the number of elements kept separately.

`Ring.contents` is the queue as a list. `push` appends to it, `pop` removes its
front, and what the cell before `tail` holds is its last element.
-/

namespace MicrOsal

universe u

/-- A circular array of `capacity` cells that holds `count` elements. -/
structure Ring (α : Type u) where
  slots : Nat → α
  capacity : Nat
  /-- The cell of the front. -/
  head : Nat
  /-- The first cell after the last element. -/
  tail : Nat
  count : Nat

namespace Ring

variable {α : Type u}

/-- A ring of `capacity` cells, without elements. -/
def create (capacity : Nat) (fill : α) : Ring α := ⟨fun _ => fill, capacity, 0, 0, 0⟩

/-- The elements, from the front on. -/
def contents (r : Ring α) : List α := ringSpan r.capacity r.slots r.head r.count

/-- The element at the front. -/
def front (r : Ring α) : α := r.slots r.head

def push (r : Ring α) (x : α) : Ring α :=
  { r with
    slots := Function.update r.slots r.tail x
    tail := (r.tail + 1) % r.capacity
    count := r.count + 1 }

def pop (r : Ring α) : Ring α :=
  { r with head := (r.head + 1) % r.capacity, count := r.count - 1 }

def clear (r : Ring α) : Ring α := { r with head := 0, tail := 0, count := 0 }

/-- The indices fit the number of elements. -/
structure Ok (r : Ring α) : Prop where
  head_lt : r.head < r.capacity
  count_le : r.count ≤ r.capacity
  tail_eq : r.tail = (r.head + r.count) % r.capacity

variable {r : Ring α}

theorem create_ok {capacity : Nat} (h : 0 < capacity) (fill : α) : (create capacity fill).Ok :=
  ⟨h, Nat.zero_le _, (Nat.zero_mod _).symm⟩

@[simp] theorem contents_create (capacity : Nat) (fill : α) :
    (create capacity fill).contents = [] := rfl

@[simp] theorem length_contents (r : Ring α) : r.contents.length = r.count :=
  ringSpan_length _ _

theorem contents_eq_nil_iff : r.contents = [] ↔ r.count = 0 := by
  rw [← List.length_eq_zero_iff, length_contents]

theorem Ok.tail_lt (h : r.Ok) : r.tail < r.capacity := by
  rw [h.tail_eq]
  exact Nat.mod_lt _ (Nat.zero_lt_of_lt h.head_lt)

theorem Ok.push (h : r.Ok) (hlt : r.count < r.capacity) (x : α) : (r.push x).Ok := by
  refine ⟨h.head_lt, hlt, ?_⟩
  simp only [Ring.push, h.tail_eq, Nat.mod_add_mod, Nat.add_assoc]

/-- The new element lies in a cell that held none, and so after the others. -/
theorem Ok.contents_push (h : r.Ok) (hlt : r.count < r.capacity) (x : α) :
    (r.push x).contents = r.contents ++ [x] := by
  simp only [Ring.push, contents, h.tail_eq]
  exact ringSpan_update_concat x hlt

theorem Ok.pop (h : r.Ok) (hpos : r.count ≠ 0) : r.pop.Ok := by
  have hcap : 0 < r.capacity := Nat.zero_lt_of_lt h.head_lt
  refine ⟨Nat.mod_lt _ hcap, (Nat.sub_le _ _).trans h.count_le, ?_⟩
  simp only [Ring.pop, h.tail_eq, Nat.mod_add_mod]
  congr 1
  omega

theorem Ok.contents_pop (h : r.Ok) (hpos : r.count ≠ 0) :
    r.contents = r.front :: r.pop.contents := by
  obtain ⟨n, hn⟩ := Nat.exists_eq_succ_of_ne_zero hpos
  have hrest : ringSpan r.capacity r.slots (r.head + 1) n = r.pop.contents := by
    simp only [contents, Ring.pop, ringSpan, hn, Nat.succ_sub_one, Nat.mod_add_mod]
  have hfront : ringSpan r.capacity r.slots r.head 1 = [r.front] := by
    simp [ringSpan, front, Nat.mod_eq_of_lt h.head_lt]
  rw [contents, hn, Nat.succ_eq_one_add, ringSpan_add, hrest, hfront]
  rfl

theorem Ok.clear (h : r.Ok) : r.clear.Ok :=
  ⟨Nat.zero_lt_of_lt h.head_lt, Nat.zero_le _, (Nat.zero_mod _).symm⟩

@[simp] theorem contents_clear (r : Ring α) : r.clear.contents = [] := rfl

/-- The cell before `tail`. -/
theorem Ok.contents_last (h : r.Ok) (hpos : r.count ≠ 0) :
    r.contents.getLast? = some (r.slots (if r.tail = 0 then r.capacity - 1 else r.tail - 1)) := by
  obtain ⟨n, hn⟩ := Nat.exists_eq_succ_of_ne_zero hpos
  have hcap : 0 < r.capacity := Nat.zero_lt_of_lt h.head_lt
  have hlast : (if r.tail = 0 then r.capacity - 1 else r.tail - 1) = (r.head + n) % r.capacity := by
    have hlt : (r.head + n) % r.capacity < r.capacity := Nat.mod_lt _ hcap
    have hsucc : r.tail = ((r.head + n) % r.capacity + 1) % r.capacity := by
      rw [h.tail_eq, hn, Nat.mod_add_mod, Nat.succ_eq_add_one, Nat.add_assoc]
    rcases Nat.lt_or_ge ((r.head + n) % r.capacity + 1) r.capacity with hin | hout
    · rw [Nat.mod_eq_of_lt hin] at hsucc
      rw [if_neg (by omega)]
      omega
    · have heq : (r.head + n) % r.capacity + 1 = r.capacity := by omega
      rw [heq, Nat.mod_self] at hsucc
      rw [if_pos hsucc]
      omega
  rw [hlast, contents, hn, Nat.succ_eq_add_one, ringSpan_add]
  simp [ringSpan]

end Ring

end MicrOsal
