import Mathlib.Logic.Function.Basic

/-!
# MicrOsal.Lib.SlotOwners

Slots that are marked while somebody holds them.

A party holds at most one slot of a pool, and a slot is marked exactly as long as some party
holds it. `SlotOwners` says this together with the fact that no two parties hold one slot; taking
a slot that is not marked and giving one back keep it.
-/

namespace MicrOsal

universe u v

variable {ι : Type u} {κ : Type v} {holder holder' : ι → Option κ} {used used' : κ → Bool}
variable {o : ι} {p : κ}

/-- Who holds which slot, and which slots are marked. -/
structure SlotOwners (holder : ι → Option κ) (used : κ → Bool) : Prop where
  unique : ∀ o o' p, holder o = some p → holder o' = some p → o = o'
  marked : ∀ p, used p = true ↔ ∃ o, holder o = some p

namespace SlotOwners

/-- In the beginning nothing is held. -/
theorem empty (hholder : ∀ o, holder o = none) (hused : ∀ p, used p = false) :
    SlotOwners holder used where
  unique o o' p ho := by
    rw [hholder o] at ho
    cases ho
  marked p := by
    constructor
    · intro hp
      rw [hused p] at hp
      cases hp
    · rintro ⟨o, ho⟩
      rw [hholder o] at ho
      cases ho

theorem used_of_holder (h : SlotOwners holder used) (ho : holder o = some p) : used p = true :=
  (h.marked p).mpr ⟨o, ho⟩

theorem congr (h : SlotOwners holder used) (hholder : ∀ o, holder' o = holder o)
    (hused : ∀ p, used' p = used p) : SlotOwners holder' used' := by
  rwa [funext hholder, funext hused]

variable [DecidableEq ι] [DecidableEq κ]

/-- A party that holds nothing takes a slot that is not marked. -/
theorem take (h : SlotOwners holder used) (ho : holder o = none) (hp : used p = false) :
    SlotOwners (Function.update holder o (some p)) (Function.update used p true) := by
  have hfree : ∀ o', holder o' ≠ some p := by
    intro o' ho'
    rw [h.used_of_holder ho'] at hp
    cases hp
  constructor
  · intro o₁ o₂ q h₁ h₂
    by_cases e₁ : o₁ = o <;> by_cases e₂ : o₂ = o
    · rw [e₁, e₂]
    · subst e₁
      rw [Function.update_self] at h₁
      rw [Function.update_of_ne e₂, ← Option.some.inj h₁] at h₂
      exact absurd h₂ (hfree o₂)
    · subst e₂
      rw [Function.update_self] at h₂
      rw [Function.update_of_ne e₁, ← Option.some.inj h₂] at h₁
      exact absurd h₁ (hfree o₁)
    · rw [Function.update_of_ne e₁] at h₁
      rw [Function.update_of_ne e₂] at h₂
      exact h.unique o₁ o₂ q h₁ h₂
  · intro q
    by_cases hq : q = p
    · subst hq
      rw [Function.update_self]
      exact ⟨fun _ => ⟨o, Function.update_self ..⟩, fun _ => rfl⟩
    · rw [Function.update_of_ne hq, h.marked q]
      constructor
      · rintro ⟨o', ho'⟩
        have hne : o' ≠ o := by
          rintro rfl
          rw [ho] at ho'
          cases ho'
        exact ⟨o', by rw [Function.update_of_ne hne]; exact ho'⟩
      · rintro ⟨o', ho'⟩
        by_cases hne : o' = o
        · subst hne
          rw [Function.update_self] at ho'
          exact absurd (Option.some.inj ho').symm hq
        · rw [Function.update_of_ne hne] at ho'
          exact ⟨o', ho'⟩

/-- A party gives its slot back. -/
theorem release (h : SlotOwners holder used) (ho : holder o = some p) :
    SlotOwners (Function.update holder o none) (Function.update used p false) := by
  have hback : ∀ o' q, Function.update holder o none o' = some q → o' ≠ o ∧ holder o' = some q := by
    intro o' q ho'
    by_cases hne : o' = o
    · subst hne
      rw [Function.update_self] at ho'
      cases ho'
    · rw [Function.update_of_ne hne] at ho'
      exact ⟨hne, ho'⟩
  constructor
  · intro o₁ o₂ q h₁ h₂
    exact h.unique o₁ o₂ q (hback o₁ q h₁).2 (hback o₂ q h₂).2
  · intro q
    by_cases hq : q = p
    · subst hq
      rw [Function.update_self]
      constructor
      · intro hf
        cases hf
      · rintro ⟨o', ho'⟩
        obtain ⟨hne, ho'⟩ := hback o' q ho'
        exact absurd (h.unique o' o q ho' ho) hne
    · rw [Function.update_of_ne hq, h.marked q]
      constructor
      · rintro ⟨o', ho'⟩
        have hne : o' ≠ o := by
          rintro rfl
          exact hq (Option.some.inj (ho'.symm.trans ho))
        exact ⟨o', by rw [Function.update_of_ne hne]; exact ho'⟩
      · rintro ⟨o', ho'⟩
        exact ⟨o', (hback o' q ho').2⟩

end SlotOwners

end MicrOsal
