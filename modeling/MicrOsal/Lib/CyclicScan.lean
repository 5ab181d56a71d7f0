import Mathlib.Data.List.Basic
import Mathlib.Tactic.SplitIfs

/-!
# MicrOsal.Lib.CyclicScan

The search for a slot that goes round a table.

`cyclicScan n start p` looks at the slots `start`, `start + 1`, … of a table of `n`, goes on at `0`
after the last one, and ends at the first slot with `p`. `cyclicDist n start k` is the number of
slots it looks at before `k`. When each search starts after the slot that the one before has found,
a slot with `p` that is passed over comes nearer (`cyclicDist_lt_of_scan`), so it is found after
fewer than `n` searches.
-/

namespace MicrOsal

variable {n start j k : Nat} {p : Nat → Bool}

/-- The first slot with `p`, from `start` on and round the table. -/
def cyclicScan (n start : Nat) (p : Nat → Bool) : Option Nat :=
  ((List.range n).map (fun i => (start + i) % n)).find? p

/-- The number of slots before `k` in a scan from `start`. -/
def cyclicDist (n start k : Nat) : Nat := if start ≤ k then k - start else k + n - start

/-- The slot after `k`. -/
def cyclicNext (n k : Nat) : Nat := (k + 1) % n

theorem cyclicDist_lt (hstart : start < n) (hk : k < n) : cyclicDist n start k < n := by
  unfold cyclicDist
  split <;> omega

theorem cyclicNext_lt (h : 0 < n) : cyclicNext n k < n := Nat.mod_lt _ h

theorem add_cyclicDist_mod (hstart : start < n) (hk : k < n) :
    (start + cyclicDist n start k) % n = k := by
  unfold cyclicDist
  split
  · rw [Nat.add_sub_cancel' ‹_›, Nat.mod_eq_of_lt hk]
  · have hsum : start + (k + n - start) = k + n := by omega
    rw [hsum, Nat.add_mod_right, Nat.mod_eq_of_lt hk]

theorem cyclicDist_add_mod {i : Nat} (hstart : start < n) (hi : i < n) :
    cyclicDist n start ((start + i) % n) = i := by
  unfold cyclicDist
  by_cases hlt : start + i < n
  · rw [Nat.mod_eq_of_lt hlt]
    split <;> omega
  · have hmod : (start + i) % n = start + i - n := by
      rw [Nat.mod_eq_sub_mod (by omega), Nat.mod_eq_of_lt (by omega)]
    rw [hmod]
    split <;> omega

theorem cyclicScan_some (h : cyclicScan n start p = some k) : k < n ∧ p k = true := by
  obtain ⟨i, hi, rfl⟩ := List.mem_map.mp (List.mem_of_find?_eq_some h)
  have hpos : 0 < n := Nat.zero_lt_of_lt (List.mem_range.mp hi)
  exact ⟨Nat.mod_lt _ hpos, List.find?_some h⟩

/-- A scan finds the nearest slot with `p`. -/
theorem cyclicDist_le_of_scan (hstart : start < n) (h : cyclicScan n start p = some k) (hj : j < n)
    (hp : p j = true) : cyclicDist n start k ≤ cyclicDist n start j := by
  obtain ⟨-, i, hi, hk, hbefore⟩ := List.find?_eq_some_iff_getElem.mp h
  rw [List.length_map, List.length_range] at hi
  rw [List.getElem_map, List.getElem_range] at hk
  subst hk
  rw [cyclicDist_add_mod hstart hi]
  by_contra hlt
  have hnot := hbefore (cyclicDist n start j) (by omega)
  rw [List.getElem_map, List.getElem_range, add_cyclicDist_mod hstart hj, hp] at hnot
  cases hnot

theorem cyclicScan_none (hstart : start < n) (h : cyclicScan n start p = none) (hj : j < n) :
    p j = false := by
  have hnot := List.find?_eq_none.mp h j (List.mem_map.mpr
    ⟨cyclicDist n start j, List.mem_range.mpr (cyclicDist_lt hstart hj),
      add_cyclicDist_mod hstart hj⟩)
  simpa using hnot

theorem cyclicDist_next_lt (hstart : start < n) (hk : k < n) (hj : j < n) (hne : j ≠ k)
    (hle : cyclicDist n start k ≤ cyclicDist n start j) :
    cyclicDist n (cyclicNext n k) j < cyclicDist n start j := by
  have hnext : cyclicNext n k = if k + 1 < n then k + 1 else 0 := by
    unfold cyclicNext
    split
    · exact Nat.mod_eq_of_lt ‹_›
    · rw [show k + 1 = n by omega, Nat.mod_self]
  rw [hnext]
  unfold cyclicDist at *
  split_ifs at hle ⊢ <;> omega

/-- A slot with `p` that a scan passes over is nearer in a scan from the slot found. -/
theorem cyclicDist_lt_of_scan (hstart : start < n) (h : cyclicScan n start p = some k) (hj : j < n)
    (hp : p j = true) (hne : j ≠ k) :
    cyclicDist n (cyclicNext n k) j < cyclicDist n start j := by
  exact cyclicDist_next_lt hstart (cyclicScan_some h).1 hj hne
    (cyclicDist_le_of_scan hstart h hj hp)

end MicrOsal
