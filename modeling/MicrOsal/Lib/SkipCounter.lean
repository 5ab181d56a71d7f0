import Mathlib.Data.Nat.ModEq
import Mathlib.Logic.Function.Iterate

/-!
# MicrOsal.Lib.SkipCounter

A counter modulo `m` that steps over at most one excluded residue, as
generation counters do that must not produce a reserved value.

`skipRank` numbers the residues in use in the order the counter takes them,
from the one behind the excluded residue on. In this numbering the counter is
the plain one modulo `skipPeriod`, so a residue comes back exactly after every
`skipPeriod` steps.
-/

namespace MicrOsal

/-- The next residue modulo `m`, or the one after it when that is excluded. -/
def skipNext (m : Nat) (excluded : Option Nat) (g : Nat) : Nat :=
  if excluded = some ((g + 1) % m) then ((g + 1) % m + 1) % m else (g + 1) % m

/-- How many residues the counter takes. -/
def skipPeriod (m : Nat) : Option Nat → Nat
  | none => m
  | some _ => m - 1

/-- The place of a residue in the order in which the counter takes them. -/
def skipRank (m : Nat) : Option Nat → Nat → Nat
  | none, g => g
  | some b, g => if b < g then g - (b + 1) else g + m - (b + 1)

variable {m : Nat} {excluded : Option Nat} {g g' : Nat}

/-- `g` is a residue the counter may take. -/
structure SkipOk (m : Nat) (excluded : Option Nat) (g : Nat) : Prop where
  lt : g < m
  ne : excluded ≠ some g

theorem succ_mod_eq (h : g < m) : (g + 1) % m = if g + 1 = m then 0 else g + 1 := by
  split
  case isTrue heq => rw [heq, Nat.mod_self]
  case isFalse hne => exact Nat.mod_eq_of_lt (by omega)

theorem skipNext_some {b : Nat} (hm : 2 ≤ m) (h : g < m) :
    skipNext m (some b) g =
      if g + 1 = m then (if b = 0 then 1 else 0)
      else if b = g + 1 then (if g + 2 = m then 0 else g + 2) else g + 1 := by
  unfold skipNext
  rw [succ_mod_eq h]
  split
  case isTrue hlast =>
    have hone : (0 + 1) % m = 1 := Nat.mod_eq_of_lt (by omega)
    simp only [Option.some.injEq, hone]
  case isFalse hlt =>
    simp only [Option.some.injEq]
    rw [succ_mod_eq (by omega)]

theorem skipNext_ok_of_two (hm : 2 ≤ m) : SkipOk m excluded (skipNext m excluded g) := by
  have hlt : (g + 1) % m < m := Nat.mod_lt _ (by omega)
  unfold skipNext
  split
  case isTrue heq =>
    refine ⟨Nat.mod_lt _ (by omega), ?_⟩
    rw [heq, succ_mod_eq hlt]
    intro hself
    have := Option.some.inj hself
    split at this <;> omega
  case isFalse hne => exact ⟨hlt, hne⟩

theorem skipNext_ok (h : SkipOk m excluded g) : SkipOk m excluded (skipNext m excluded g) := by
  by_cases hm : 2 ≤ m
  · exact skipNext_ok_of_two hm
  · -- The only residue is followed by itself.
    have hlt := h.lt
    obtain rfl : m = 1 := by omega
    obtain rfl : g = 0 := by omega
    have hnext : skipNext 1 excluded 0 = 0 := if_neg h.ne
    rw [hnext]
    exact h

theorem skipRank_lt (h : SkipOk m excluded g) (hb : ∀ b, excluded = some b → b < m) :
    skipRank m excluded g < skipPeriod m excluded := by
  obtain ⟨hlt, hne⟩ := h
  cases excluded with
  | none => exact hlt
  | some b =>
      have hbm := hb b rfl
      have hgb : b ≠ g := fun heq => hne (congrArg some heq)
      simp only [skipRank, skipPeriod]
      split <;> omega

theorem skipRank_inj (h : SkipOk m excluded g) (h' : SkipOk m excluded g')
    (hb : ∀ b, excluded = some b → b < m)
    (heq : skipRank m excluded g = skipRank m excluded g') : g = g' := by
  have hlt := h.lt
  have hlt' := h'.lt
  cases excluded with
  | none => exact heq
  | some b =>
      have hbm := hb b rfl
      have hgb : b ≠ g := fun heq => h.ne (congrArg some heq)
      have hgb' : b ≠ g' := fun heq => h'.ne (congrArg some heq)
      simp only [skipRank] at heq
      split at heq <;> split at heq <;> omega

/-- In the order of the residues the counter is the plain one. -/
theorem skipRank_next (h : SkipOk m excluded g) (hb : ∀ b, excluded = some b → b < m) :
    skipRank m excluded (skipNext m excluded g) =
      (skipRank m excluded g + 1) % skipPeriod m excluded := by
  have hlt := h.lt
  cases excluded with
  | none => rfl
  | some b =>
      have hbm := hb b rfl
      have hgb : b ≠ g := fun heq => h.ne (congrArg some heq)
      have hrank : skipRank m (some b) g < m - 1 := skipRank_lt h hb
      show _ = (_ + 1) % (m - 1)
      rw [succ_mod_eq hrank, skipNext_some (by omega) hlt]
      simp only [skipRank] at hrank ⊢
      split_ifs <;> omega

theorem skipNext_iterate_ok (h : SkipOk m excluded g) (n : Nat) :
    SkipOk m excluded ((skipNext m excluded)^[n] g) := by
  induction n with
  | zero => exact h
  | succ n ih =>
      rw [Function.iterate_succ_apply']
      exact skipNext_ok ih

theorem skipRank_iterate (h : SkipOk m excluded g)
    (hb : ∀ b, excluded = some b → b < m) (n : Nat) :
    skipRank m excluded ((skipNext m excluded)^[n] g) =
      (skipRank m excluded g + n) % skipPeriod m excluded := by
  induction n with
  | zero => exact (Nat.mod_eq_of_lt (skipRank_lt h hb)).symm
  | succ n ih =>
      rw [Function.iterate_succ_apply', skipRank_next (skipNext_iterate_ok h n) hb, ih,
        Nat.mod_add_mod, Nat.add_assoc]

/-- A residue comes back exactly after every `skipPeriod` steps. -/
theorem skipNext_iterate_eq_iff (h : SkipOk m excluded g)
    (hb : ∀ b, excluded = some b → b < m) (n : Nat) :
    (skipNext m excluded)^[n] g = g ↔ skipPeriod m excluded ∣ n := by
  have hiter := skipNext_iterate_ok h n
  have hrank := skipRank_iterate h hb n
  have hlt := skipRank_lt h hb
  rw [Nat.dvd_iff_mod_eq_zero]
  constructor
  · intro heq
    rw [heq] at hrank
    have hmod : skipRank m excluded g + 0 ≡ skipRank m excluded g + n
        [MOD skipPeriod m excluded] := by
      rw [Nat.ModEq, ← hrank, Nat.add_zero, Nat.mod_eq_of_lt hlt]
    have hn : n ≡ 0 [MOD skipPeriod m excluded] := (Nat.ModEq.add_left_cancel' _ hmod).symm
    rw [hn, Nat.zero_mod]
  · intro hn
    apply skipRank_inj hiter h hb
    rw [hrank, Nat.add_mod, hn, Nat.add_zero, Nat.mod_mod, Nat.mod_eq_of_lt hlt]

end MicrOsal
