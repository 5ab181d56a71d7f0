import Mathlib.Algebra.Order.Ring.Int

/-!
# MicrOsal.Lib.Checked

Arithmetic of machine integers that must not leave their range. An operation is the exact one on
`Int`, checked against the range of its type: a computation has a value only if none of its
operations wraps or overflows.
-/

namespace MicrOsal

universe u

/-- `x`, if it is in the range `R`. -/
def inRange {α : Type*} (R : α → Prop) [DecidablePred R] (x : α) : Option α :=
  if R x then some x else none

section

variable {α β : Type u} {R : α → Prop} [DecidablePred R] {x : α}

theorem inRange_of (h : R x) : inRange R x = some x := if_pos h

theorem inRange_not (h : ¬ R x) : inRange R x = none := if_neg h

/-- A computation goes on with what is in range. -/
theorem inRange_bind (h : R x) (f : α → Option β) : (inRange R x >>= f) = f x := by
  rw [inRange_of h]
  rfl

theorem inRange_bind_not (h : ¬ R x) (f : α → Option β) : (inRange R x >>= f) = none := by
  rw [inRange_not h]
  rfl

end

/-- The values of an unsigned type of `bits` bits. -/
def Unsigned (bits : Nat) (x : Int) : Prop := 0 ≤ x ∧ x < 2 ^ bits

/-- The values of a signed type of `bits` bits. -/
def Signed (bits : Nat) (x : Int) : Prop := -2 ^ (bits - 1) ≤ x ∧ x < 2 ^ (bits - 1)

instance (bits : Nat) : DecidablePred (Unsigned bits) :=
  fun _ => inferInstanceAs (Decidable (_ ∧ _))

instance (bits : Nat) : DecidablePred (Signed bits) :=
  fun _ => inferInstanceAs (Decidable (_ ∧ _))

/-- A natural number below a bound that the type has room for. -/
theorem Unsigned.of_lt {bits n : Nat} (h : n < 2 ^ bits) : Unsigned bits n :=
  ⟨Int.natCast_nonneg n, by exact_mod_cast h⟩

/-- A computation goes on with the natural number that an unsigned operation gives. -/
theorem unsigned_bind {β : Type} {bits n : Nat} {x : Int} (hx : x = n) (hn : n < 2 ^ bits)
    (f : Int → Option β) : (inRange (Unsigned bits) x >>= f) = f n := by
  subst hx
  exact inRange_bind (Unsigned.of_lt hn) f

theorem Signed.of_lt {bits n : Nat} (h : n < 2 ^ (bits - 1)) : Signed bits n := by
  have hcast : (n : Int) < 2 ^ (bits - 1) := by exact_mod_cast h
  have hpos : (0 : Int) < 2 ^ (bits - 1) := pow_pos (by decide) _
  exact ⟨by omega, hcast⟩

end MicrOsal
