import Mathlib.Algebra.BigOperators.Group.List.Basic
import Mathlib.Algebra.Order.BigOperators.Group.List
import Mathlib.Algebra.Order.Ring.Nat
import Mathlib.Data.List.Perm.Basic
import Mathlib.Data.List.Nodup
import Mathlib.Data.List.Induction

/-!
# MicrOsal.Lib.Tally

Lists that are updated in place, and weighted counts over them.

`tally f l` adds up `f` over `l`. Systems that keep their parties in a list and
change one of them per step account for what the parties hold with it: the
update rule `tally_set` is stated additively, so that a step's effect on several
tallies is a system of linear equations over `Nat`.
-/

namespace MicrOsal

universe u

variable {α : Type u}

/-- The sum of `f` over the elements of `l`. -/
def tally (f : α → Nat) (l : List α) : Nat := (l.map f).sum

variable {f g : α → Nat} {l : List α} {n : Nat} {a b : α}

@[simp] theorem tally_nil : tally f [] = 0 := rfl

@[simp] theorem tally_cons : tally f (a :: l) = f a + tally f l := by simp [tally]

@[simp] theorem tally_append (l₁ l₂ : List α) : tally f (l₁ ++ l₂) = tally f l₁ + tally f l₂ := by
  simp [tally]

/-- What an updated list holds at a position: the new element or an old one. -/
theorem getElem?_set_cases {m : Nat} (h : (l.set n b)[m]? = some a) :
    (m = n ∧ a = b) ∨ (m ≠ n ∧ l[m]? = some a) := by
  rw [List.getElem?_set] at h
  by_cases hnm : n = m
  · rw [if_pos hnm] at h
    split at h
    · exact .inl ⟨hnm.symm, (Option.some.inj h).symm⟩
    · cases h
  · rw [if_neg hnm] at h
    exact .inr ⟨Ne.symm hnm, h⟩

/-- What an extended list holds at a position. -/
theorem getElem?_concat_cases (h : (l ++ [b])[n]? = some a) :
    l[n]? = some a ∨ (n = l.length ∧ a = b) := by
  rcases Nat.lt_trichotomy n l.length with hlt | heq | hgt
  · rw [List.getElem?_append_left hlt] at h
    exact .inl h
  · subst heq
    rw [List.getElem?_concat_length] at h
    exact .inr ⟨rfl, (Option.some.inj h).symm⟩
  · rw [List.getElem?_eq_none (by simp; omega)] at h
    cases h

/-- What a list with one element modified holds at a position. -/
theorem getElem?_modify_cases {m : Nat} {g : α → α} (h : (l.modify n g)[m]? = some a) :
    (m = n ∧ ∃ b, l[m]? = some b ∧ a = g b) ∨ (m ≠ n ∧ l[m]? = some a) := by
  by_cases hnm : n = m
  · subst hnm
    rw [List.getElem?_modify_eq] at h
    obtain ⟨b, hb, rfl⟩ := Option.map_eq_some_iff.mp h
    exact .inl ⟨rfl, b, hb, rfl⟩
  · rw [List.getElem?_modify_ne _ _ hnm] at h
    exact .inr ⟨Ne.symm hnm, h⟩

/-- Replacing an element does not show where the two look alike. -/
theorem map_set_of_eq {β : Type u} {f : α → β} (h : l[n]? = some a) (hf : f b = f a) :
    (l.set n b).map f = l.map f := by
  apply List.ext_getElem?
  intro m
  rw [List.getElem?_map, List.getElem?_map, List.getElem?_set]
  by_cases hnm : n = m
  · subst hnm
    rw [if_pos rfl, if_pos (List.getElem?_eq_some_iff.mp h).1, h]
    exact congrArg some hf
  · rw [if_neg hnm]

/-- Modifying an element, seen through `f`. -/
theorem map_modify {β : Type u} {f : α → β} {g : α → α} {g' : β → β}
    (hf : ∀ a, f (g a) = g' (f a)) : (l.modify n g).map f = (l.map f).modify n g' := by
  apply List.ext_getElem?
  intro m
  by_cases hnm : n = m
  · subst hnm
    rw [List.getElem?_map, List.getElem?_modify_eq, List.getElem?_modify_eq, List.getElem?_map]
    cases l[n]? with
    | none => rfl
    | some a => exact congrArg some (hf a)
  · rw [List.getElem?_map, List.getElem?_modify_ne _ _ hnm, List.getElem?_modify_ne _ _ hnm,
      List.getElem?_map]

theorem map_modify_of_eq {β : Type u} {f : α → β} {g : α → α} (hf : ∀ a, f (g a) = f a) :
    (l.modify n g).map f = l.map f := by
  have hmod : (l.modify n g).map f = (l.map f).modify n id := map_modify hf
  rw [hmod, List.modify_id]

/-- Replacing one element exchanges its weight. -/
theorem tally_set (h : l[n]? = some a) : tally f (l.set n b) + f a = tally f l + f b := by
  induction l generalizing n with
  | nil => simp at h
  | cons x rest ih =>
      cases n with
      | zero =>
          obtain rfl : x = a := by simpa using h
          simp only [List.set_cons_zero, tally_cons]
          omega
      | succ n =>
          have hrest := ih (n := n) (by simpa using h)
          simp only [List.set_cons_succ, tally_cons]
          omega

/-- Replacing an element by one of the same weight changes nothing. -/
theorem tally_set_eq (h : l[n]? = some a) (hf : f b = f a) : tally f (l.set n b) = tally f l := by
  have := tally_set (f := f) (b := b) h
  omega

theorem le_tally (h : l[n]? = some a) : f a ≤ tally f l := by
  have := List.single_le_sum (l := l.map f) (fun _ _ => Nat.zero_le _) (f a)
    (List.mem_map_of_mem (List.mem_of_getElem? h))
  exact this

/-- Two positions count both. -/
theorem add_le_tally {m : Nat} (hn : l[n]? = some a) (hm : l[m]? = some b) (hne : n ≠ m) :
    f a + f b ≤ tally f l := by
  induction l generalizing n m with
  | nil => simp at hn
  | cons x rest ih =>
      cases n with
      | zero =>
          cases m with
          | zero => exact absurd rfl hne
          | succ m =>
              obtain rfl : x = a := by simpa using hn
              have := le_tally (f := f) (l := rest) (n := m) (by simpa using hm)
              simp only [tally_cons]
              omega
      | succ n =>
          cases m with
          | zero =>
              obtain rfl : x = b := by simpa using hm
              have := le_tally (f := f) (l := rest) (n := n) (by simpa using hn)
              simp only [tally_cons]
              omega
          | succ m =>
              have := ih (n := n) (m := m) (by simpa using hn) (by simpa using hm) (by omega)
              simp only [tally_cons]
              omega

/-- A tally is positive exactly when some element has a positive weight. -/
theorem tally_pos_iff : 0 < tally f l ↔ ∃ (n : Nat) (a : α), l[n]? = some a ∧ 0 < f a := by
  constructor
  · intro h
    by_contra hno
    have hzero : tally f l = 0 := by
      rw [tally, List.sum_eq_zero_iff]
      intro x hx
      obtain ⟨a, ha, rfl⟩ := List.mem_map.mp hx
      obtain ⟨n, hn⟩ := List.mem_iff_getElem?.mp ha
      by_contra hne
      exact hno ⟨n, a, hn, Nat.pos_of_ne_zero hne⟩
    omega
  · rintro ⟨n, a, hn, ha⟩
    exact lt_of_lt_of_le ha (le_tally hn)

/-- A tally is zero when every element has weight zero. -/
theorem tally_eq_zero (h : ∀ (n : Nat) (a : α), l[n]? = some a → f a = 0) : tally f l = 0 := by
  by_contra hne
  obtain ⟨n, a, hn, ha⟩ := tally_pos_iff.mp (Nat.pos_of_ne_zero hne)
  have := h n a hn
  omega

/-- Weights that are smaller for every element of the list. -/
theorem tally_le_of_mem (h : ∀ a ∈ l, f a ≤ g a) : tally f l ≤ tally g l := by
  induction l with
  | nil => simp
  | cons x rest ih =>
      have hx := h x (List.mem_cons_self ..)
      have hrest := ih (fun a ha => h a (List.mem_cons_of_mem _ ha))
      simp only [tally_cons]
      omega

theorem tally_le (h : ∀ a, f a ≤ g a) : tally f l ≤ tally g l :=
  tally_le_of_mem (fun a _ => h a)

theorem tally_add : tally (fun a => f a + g a) l = tally f l + tally g l := by
  induction l with
  | nil => simp
  | cons x rest ih =>
      simp only [tally_cons, ih]
      omega

/-- Adding up in the other order. -/
theorem tally_comm {β : Type u} (f : β → α → Nat) (ks : List β) (l : List α) :
    tally (fun k => tally (f k) l) ks = tally (fun a => tally (fun k => f k a) ks) l := by
  induction l with
  | nil =>
      rw [tally_nil]
      exact tally_eq_zero (fun _ _ _ => rfl)
  | cons x rest ih =>
      simp only [tally_cons]
      rw [tally_add, ih]

/-- A tally against bounds for the positions. -/
theorem tally_le_range {g : Nat → Nat} (h : ∀ k a, l[k]? = some a → f a ≤ g k) :
    tally f l ≤ tally g (List.range l.length) := by
  induction l using List.reverseRecOn with
  | nil => exact Nat.zero_le _
  | append_singleton rest x ih =>
      have hrest : tally f rest ≤ tally g (List.range rest.length) := by
        refine ih (fun k a hk => h k a ?_)
        rw [List.getElem?_append_left (List.getElem?_eq_some_iff.mp hk).1]
        exact hk
      have hlast : f x ≤ g rest.length := h _ x List.getElem?_concat_length
      rw [List.length_append, List.length_singleton, List.range_succ, tally_append, tally_append]
      simp only [tally_cons, tally_nil]
      omega

/-- Counting is a tally of indicators. -/
theorem countP_eq_tally (p : α → Bool) (l : List α) :
    l.countP p = tally (fun a => if p a then 1 else 0) l := by
  induction l with
  | nil => rfl
  | cons x rest ih =>
      rw [List.countP_cons, tally_cons, ih]
      omega

/-- `tally_set` for `List.countP`. -/
theorem countP_set (p : α → Bool) (h : l[n]? = some a) :
    (l.set n b).countP p + (if p a then 1 else 0) = l.countP p + (if p b then 1 else 0) := by
  rw [countP_eq_tally, countP_eq_tally]
  exact tally_set h

/-- An element that is not counted, or stands for one that was, adds nothing. -/
theorem countP_set_le {p : α → Bool} (h : l[n]? = some a) (hp : p b = true → p a = true) :
    (l.set n b).countP p ≤ l.countP p := by
  have hset := countP_set (b := b) p h
  by_cases hb : p b = true
  · rw [if_pos hb, if_pos (hp hb)] at hset
    omega
  · rw [if_neg hb] at hset
    omega

/-- An element that is counted, or stands for one that was not, takes nothing away. -/
theorem le_countP_set {p : α → Bool} (h : l[n]? = some a) (hp : p a = true → p b = true) :
    l.countP p ≤ (l.set n b).countP p := by
  have hset := countP_set (b := b) p h
  by_cases ha : p a = true
  · rw [if_pos ha, if_pos (hp ha)] at hset
    omega
  · rw [if_neg ha] at hset
    omega

theorem countP_le_set_succ (p : α → Bool) (h : l[n]? = some a) :
    l.countP p ≤ (l.set n b).countP p + 1 := by
  have hset := countP_set (b := b) p h
  have hone : (if p a = true then 1 else 0) ≤ 1 := by split <;> omega
  omega

/-- What is counted once stands at one position. -/
theorem eq_of_countP_le_one {p : α → Bool} {m : Nat} (hle : l.countP p ≤ 1)
    (hn : l[n]? = some a) (hm : l[m]? = some b) (ha : p a = true) (hb : p b = true) : n = m := by
  by_contra hne
  have := add_le_tally (f := fun a => if p a then 1 else 0) hn hm hne
  rw [countP_eq_tally] at hle
  simp only [ha, hb, if_true] at this
  omega

/-- What the elements of an updated list stand for: the new one's share for the old
one's. -/
theorem filterMap_set_perm {β : Type u} {f : α → Option β} (h : l[n]? = some a) :
    ((f a).toList ++ (l.set n b).filterMap f).Perm ((f b).toList ++ l.filterMap f) := by
  induction l generalizing n with
  | nil => simp at h
  | cons x rest ih =>
      cases n with
      | zero =>
          obtain rfl : x = a := by simpa using h
          simp only [List.set_cons_zero, List.filterMap_cons]
          cases f x with
          | none => cases f b <;> exact .refl _
          | some y =>
              cases f b with
              | none => exact .refl _
              | some z => exact .swap z y _
      | succ n =>
          have hrest := ih (n := n) (by simpa using h)
          simp only [List.set_cons_succ, List.filterMap_cons]
          cases f x with
          | none => exact hrest
          | some y =>
              exact List.perm_middle.trans ((hrest.cons y).trans List.perm_middle.symm)

/-- Counting positions. -/
theorem countP_eq_length_filter_range (p : α → Bool) (l : List α) :
    l.countP p = ((List.range l.length).filter (fun k => (l[k]?).any p)).length := by
  induction l using List.reverseRecOn with
  | nil => rfl
  | append_singleton rest x ih =>
      have hrest : (List.range rest.length).filter (fun k => ((rest ++ [x])[k]?).any p) =
          (List.range rest.length).filter (fun k => (rest[k]?).any p) := by
        refine List.filter_congr (fun k hk => ?_)
        rw [List.getElem?_append_left (List.mem_range.mp hk)]
      rw [List.countP_append, ih, List.length_append, List.length_singleton, List.range_succ,
        List.filter_append, List.length_append, hrest]
      cases hp : p x <;> simp [hp]

/-- As many elements have the property as there are positions of such elements. -/
theorem countP_eq_length {p : α → Bool} {slots : List Nat} (hnodup : slots.Nodup)
    (h : ∀ k, k ∈ slots ↔ ∃ a, l[k]? = some a ∧ p a = true) : l.countP p = slots.length := by
  rw [countP_eq_length_filter_range]
  refine List.Perm.length_eq
    ((List.perm_ext_iff_of_nodup (List.nodup_range.filter _) hnodup).mpr ?_)
  intro k
  rw [h k, List.mem_filter, List.mem_range]
  constructor
  · rintro ⟨-, hany⟩
    exact (Option.any_eq_true _ _).mp hany
  · rintro ⟨a, ha, hp⟩
    exact ⟨(List.getElem?_eq_some_iff.mp ha).1, by rw [ha]; exact hp⟩

end MicrOsal
