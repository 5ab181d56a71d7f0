import Mathlib.Data.List.Basic

/-!
# MicrOsal.Lib.History

Records of a run in which every entry must fit what stands before it.
-/

namespace MicrOsal

universe u

variable {ε : Type u} {P : List ε → ε → Prop} {log pre post : List ε} {e : ε}

/-- Every entry has `P` of the entries before it. -/
def EachAfter (P : List ε → ε → Prop) (log : List ε) : Prop :=
  ∀ pre e post, log = pre ++ e :: post → P pre e

theorem EachAfter.nil : EachAfter P [] := by
  intro pre e post h
  exact absurd h.symm (List.append_ne_nil_of_right_ne_nil pre (List.cons_ne_nil e post))

/-- A record grows by an entry that fits. -/
theorem EachAfter.concat (h : EachAfter P log) (he : P log e) : EachAfter P (log ++ [e]) := by
  intro pre x post hsplit
  rcases List.eq_nil_or_concat post with rfl | ⟨post', last, rfl⟩
  · obtain ⟨rfl, hx⟩ := List.append_inj' hsplit rfl
    obtain rfl := List.head_eq_of_cons_eq hx
    exact he
  · rw [List.concat_eq_append, ← List.cons_append, ← List.append_assoc] at hsplit
    exact h pre x post' (List.append_inj' hsplit rfl).1

end MicrOsal
