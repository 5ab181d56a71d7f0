import Mathlib.Data.List.Nodup
import Mathlib.Logic.Function.Basic

/-!
# MicrOsal.Lib.LinkedList

Intrusive, singly linked lists: a head pointer and a `next` pointer in every node.

`Chain next p l` says that following `next` from `p` visits the nodes `l` and ends. The
operations are those of a list that is pushed and popped at its head and from which any
node can be unlinked, by a walk over the pointers that lead to nodes (`findLink`).
-/

namespace MicrOsal

universe u

variable {α : Type u}

/-- Following `next` from `p` visits `l`. -/
inductive Chain (next : α → Option α) : Option α → List α → Prop
  | nil : Chain next none []
  | cons {a : α} {l : List α} : Chain next (next a) l → Chain next (some a) (a :: l)

/-- A place that holds a pointer to a node. -/
inductive Link (α : Type u)
  | head
  | next (a : α)
  deriving DecidableEq, Repr

/-- The place that points to `target`, searched from `link`, which points to `p`. The search
ends without result at the end of the list (`some none`); `none` is a list longer than
`fuel`. -/
def findLink [DecidableEq α] (next : α → Option α) (target : α) :
    Nat → Link α → Option α → Option (Option (Link α))
  | 0, _, _ => none
  | _ + 1, _, none => some none
  | fuel + 1, link, some a =>
      if a = target then some (some link) else findLink next target fuel (.next a) (next a)

namespace Chain

variable {next : α → Option α} {p : Option α} {l l' : List α} {a b c : α}

theorem eq_nil (h : Chain next none l) : l = [] := by
  cases h
  rfl

/-- The list behind a pointer to a node. -/
theorem pop (h : Chain next (some c) l) : ∃ rest, l = c :: rest ∧ Chain next (next c) rest := by
  cases h with
  | cons h => exact ⟨_, rfl, h⟩

variable [DecidableEq α]

/-- Nodes that are not on the list may change. -/
theorem update (h : Chain next p l) (hc : c ∉ l) (q : Option α) :
    Chain (Function.update next c q) p l := by
  induction h with
  | nil => exact .nil
  | @cons a rest _ ih =>
      have hne : c ≠ a := List.ne_of_not_mem_cons hc
      have hrest : c ∉ rest := List.not_mem_of_not_mem_cons hc
      refine .cons ?_
      rw [Function.update_of_ne (Ne.symm hne)]
      exact ih hrest

/-- A node that is not on the list is put in front of it. -/
theorem push (h : Chain next p l) (hc : c ∉ l) :
    Chain (Function.update next c p) (some c) (c :: l) := by
  refine .cons ?_
  rw [Function.update_self]
  exact h.update hc p

theorem findLink_of_not_mem (h : Chain next p l) (hc : c ∉ l) {fuel : Nat}
    (hfuel : l.length < fuel) (link : Link α) : findLink next c fuel link p = some none := by
  induction h generalizing fuel link with
  | nil =>
      cases fuel with
      | zero => exact absurd hfuel (Nat.not_lt_zero _)
      | succ fuel => rfl
  | @cons a rest _ ih =>
      have hne : c ≠ a := List.ne_of_not_mem_cons hc
      have hrest : c ∉ rest := List.not_mem_of_not_mem_cons hc
      cases fuel with
      | zero => exact absurd hfuel (Nat.not_lt_zero _)
      | succ fuel =>
          rw [findLink, if_neg (Ne.symm hne)]
          exact ih hrest (Nat.lt_of_succ_lt_succ hfuel) _

/-- A node of the list is found, and storing its `next` where the search ended takes it
out. -/
theorem unlink (h : Chain next p l) (hnodup : l.Nodup) (hc : c ∈ l) {fuel : Nat}
    (hfuel : l.length < fuel) (link : Link α) :
    (findLink next c fuel link p = some (some link) ∧ p = some c ∧
      Chain next (next c) (l.erase c)) ∨
    ∃ b ∈ l, b ≠ c ∧ findLink next c fuel link p = some (some (.next b)) ∧
      Chain (Function.update next b (next c)) p (l.erase c) := by
  induction h generalizing fuel link with
  | nil => cases hc
  | @cons a rest hrest ih =>
      obtain ⟨ha, hnodup⟩ := List.nodup_cons.mp hnodup
      cases fuel with
      | zero => exact absurd hfuel (Nat.not_lt_zero _)
      | succ fuel =>
          rw [findLink]
          by_cases heq : a = c
          · subst heq
            rw [if_pos rfl, List.erase_cons_head]
            exact .inl ⟨rfl, rfl, hrest⟩
          · have hmem : c ∈ rest := (List.mem_cons.mp hc).resolve_left (Ne.symm heq)
            have herase : a ∉ rest.erase c := fun h => ha (List.mem_of_mem_erase h)
            rw [if_neg heq, List.erase_cons_tail (by simpa using heq)]
            refine .inr ?_
            rcases ih hnodup hmem (Nat.lt_of_succ_lt_succ hfuel) (.next a) with
              ⟨hfind, -, htail⟩ | ⟨b, hb, hbc, hfind, htail⟩
            · refine ⟨a, List.mem_cons_self .., heq, hfind, .cons ?_⟩
              rw [Function.update_self]
              exact htail.update herase _
            · refine ⟨b, List.mem_cons_of_mem _ hb, hbc, hfind, .cons ?_⟩
              rw [Function.update_of_ne (by rintro rfl; exact ha hb)]
              exact htail

end Chain

end MicrOsal
