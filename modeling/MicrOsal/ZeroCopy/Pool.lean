import MicrOsal.Core
import MicrOsal.Lib.Tally

/-!
# MicrOsal.ZeroCopy.Pool

`message_pool` (`include/osal/bus/zero_copy_signal.hpp`): payload slots with a
reference count each. The payloads themselves never pass through the modelled
operations, so a slot is its count.

`try_loan`, `retain_` and `release_` hold the pool's mutex from beginning to end
and call nothing else under it, so each is a function on the pool. What the
counts are for is said by `MessagePool.Backs`: the pool backs an ownership
function `own` when slot `i` has as many references as `own i` says there are
owners of `i`.
-/

namespace MicrOsal

/-- `message_pool`. -/
structure MessagePool where
  /-- `mutex_.valid()`. -/
  mutexValid : Bool
  /-- `slots_[i].references`, for every slot. -/
  references : List Nat
  /-- `stats_.current`. -/
  current : Nat
  /-- `stats_.high_water`. -/
  highWater : Nat
  /-- `stats_.exhaustion`. -/
  exhaustion : Nat
  /-- A record, read by no operation: some count was decremented at zero. -/
  underflow : Bool
  deriving DecidableEq, Repr

namespace MessagePool

/-- A pool of `capacity` slots, none of them in use. -/
def create (capacity : Nat) (mutexValid : Bool) : MessagePool where
  mutexValid := mutexValid
  references := List.replicate capacity 0
  current := 0
  highWater := 0
  exhaustion := 0
  underflow := false

/-- `slots_[i].references`. -/
def refs (p : MessagePool) (i : Nat) : Nat := p.references[i]?.getD 0

/-- `try_loan` once `valid()` has been checked: the slot that is lent, if any. -/
def tryLoan (p : MessagePool) : MessagePool × Option Nat :=
  match p.references.findIdx? (· = 0) with
  | some i =>
      ({ p with
          references := p.references.set i 1
          current := p.current + 1
          highWater := if p.current + 1 > p.highWater then p.current + 1 else p.highWater },
        some i)
  | none => ({ p with exhaustion := p.exhaustion + 1 }, none)

/-- `retain_`; `none` when its assertion fails. -/
def retain (p : MessagePool) (i : Nat) : Option MessagePool :=
  if p.refs i = sizeModulus - 1 then none
  else some { p with references := p.references.set i (p.refs i + 1) }

/-- `release_`. -/
def release (p : MessagePool) (i : Nat) : MessagePool :=
  let left := sizeDecr (p.refs i)
  { p with
    references := p.references.set i left
    current := if left = 0 then sizeDecr p.current else p.current
    underflow := p.underflow || p.refs i == 0 || (left == 0 && p.current == 0) }

/-- `release()` of a loan: `release_` unless the loan is empty. -/
def drop (p : MessagePool) : Option Nat → MessagePool
  | none => p
  | some i => p.release i

/-- The copy constructor of a read loan: `retain_` unless the loan is empty. -/
def share (p : MessagePool) : Option Nat → Option MessagePool
  | none => some p
  | some i => p.retain i

/-! ### Owners -/

/-- The pool of `capacity` slots backs the ownership function `own`: slot `i`
has `own i` references, `current` counts the slots in use, and no decrement
has wrapped. -/
structure Backs (p : MessagePool) (capacity : Nat) (own : Nat → Nat) : Prop where
  size : p.references.length = capacity
  refs : ∀ i, p.refs i = own i
  current : p.current = p.references.countP (0 < ·)
  underflow : p.underflow = false

/-- The one owner of `i` that a loan object or a variable with content `x` is. -/
def owns (x : Option Nat) (i : Nat) : Nat := if x = some i then 1 else 0

@[simp] theorem owns_none (i : Nat) : owns none i = 0 := rfl

theorem owns_some (i j : Nat) : owns (some i) j = if j = i then 1 else 0 := by
  simp only [owns, Option.some.injEq, eq_comm]

variable {p p' : MessagePool} {capacity i : Nat} {own own' : Nat → Nat} {x : Option Nat}

theorem backs_create (capacity : Nat) (mutexValid : Bool) :
    (create capacity mutexValid).Backs capacity (fun _ => 0) where
  size := List.length_replicate
  refs := by
    intro i
    simp only [MessagePool.refs, create, List.getElem?_replicate]
    split <;> rfl
  current := by simp [create, List.countP_replicate]
  underflow := rfl

theorem Backs.congr (h : p.Backs capacity own) (hown : ∀ j, own' j = own j) :
    p.Backs capacity own' where
  size := h.size
  refs := fun j => (h.refs j).trans (hown j).symm
  current := h.current
  underflow := h.underflow

/-- An index with a reference is the index of a slot. -/
theorem getElem?_of_refs_pos (h : 0 < p.refs i) : p.references[i]? = some (p.refs i) := by
  unfold MessagePool.refs at h ⊢
  cases hi : p.references[i]? with
  | none => simp [hi] at h
  | some r => rfl

theorem refs_set {r v : Nat} (h : p.references[i]? = some r) (j : Nat) :
    ((p.references.set i v)[j]?).getD 0 = if j = i then v else p.refs j := by
  obtain ⟨hi, -⟩ := List.getElem?_eq_some_iff.mp h
  rw [List.getElem?_set]
  by_cases hj : j = i
  · simp [hj, hi]
  · rw [if_neg (Ne.symm hj), if_neg hj, MessagePool.refs]

/-- One more owner of a slot that has an owner already. -/
theorem Backs.retain (h : p.Backs capacity own) (hr : p.retain i = some p') (hpos : 0 < own i)
    (hown : ∀ j, own' j = own j + owns (some i) j) : p'.Backs capacity own' := by
  have hrefs : 0 < p.refs i := by rwa [h.refs]
  have hget := getElem?_of_refs_pos hrefs
  rw [MessagePool.retain] at hr
  split at hr
  · cases hr
  · cases hr
    refine ⟨by simpa using h.size, ?_, ?_, h.underflow⟩
    · intro j
      have hj : p.refs j = own j := h.refs j
      have hj' := hown j
      rw [owns_some] at hj'
      refine (refs_set hget j).trans ?_
      by_cases hji : j = i
      · subst hji
        rw [if_pos rfl] at hj' ⊢
        omega
      · rw [if_neg hji] at hj' ⊢
        omega
    · have hcount := countP_set (b := p.refs i + 1) (0 < ·) hget
      have := h.current
      simp only [decide_eq_true_eq] at hcount
      rw [if_pos hrefs, if_pos (Nat.succ_pos _)] at hcount
      exact this.trans (Nat.add_right_cancel hcount.symm)

/-- One owner fewer. -/
theorem Backs.release (h : p.Backs capacity own)
    (hown : ∀ j, own' j + owns (some i) j = own j) :
    (p.release i).Backs capacity own' := by
  have hpos : 0 < own i := by
    have := hown i
    rw [owns_some, if_pos rfl] at this
    omega
  have hrefs : 0 < p.refs i := by rwa [h.refs]
  have hget := getElem?_of_refs_pos hrefs
  have hleft : sizeDecr (p.refs i) = p.refs i - 1 := sizeDecr_of_pos hrefs
  have hcur : 0 < p.current := by
    rw [h.current, List.countP_pos_iff]
    exact ⟨_, List.mem_of_getElem? hget, by simpa using hrefs⟩
  refine ⟨by simpa [MessagePool.release] using h.size, ?_, ?_, ?_⟩
  · intro j
    have hj : p.refs j = own j := h.refs j
    have hj' := hown j
    rw [owns_some] at hj'
    simp only [MessagePool.release, hleft]
    refine (refs_set hget j).trans ?_
    by_cases hji : j = i
    · subst hji
      rw [if_pos rfl] at hj' ⊢
      omega
    · rw [if_neg hji] at hj' ⊢
      omega
  · have hcount := countP_set (b := p.refs i - 1) (0 < ·) hget
    have := h.current
    simp only [decide_eq_true_eq] at hcount
    simp only [MessagePool.release, hleft, sizeDecr_of_pos hcur]
    rw [if_pos hrefs] at hcount
    split
    · rw [if_neg (by omega)] at hcount
      omega
    · rw [if_pos (by omega)] at hcount
      omega
  · simp only [MessagePool.release, h.underflow, Bool.false_or, Bool.or_eq_false_iff,
      beq_eq_false_iff_ne, Bool.and_eq_false_imp]
    exact ⟨by omega, fun _ => by omega⟩

theorem Backs.drop (h : p.Backs capacity own) (hown : ∀ j, own' j + owns x j = own j) :
    (p.drop x).Backs capacity own' := by
  cases x with
  | none => exact h.congr hown
  | some i => exact h.release hown

theorem Backs.share (h : p.Backs capacity own) (hr : p.share x = some p')
    (hpos : ∀ i, x = some i → 0 < own i) (hown : ∀ j, own' j = own j + owns x j) :
    p'.Backs capacity own' := by
  cases x with
  | none =>
      obtain rfl : p = p' := by simpa [MessagePool.share] using hr
      exact h.congr hown
  | some i => exact h.retain hr (hpos i rfl) hown

/-- The slot that is lent has no reference. -/
theorem refs_of_tryLoan (h : p.tryLoan.2 = some i) : p.refs i = 0 := by
  rw [MessagePool.tryLoan] at h
  split at h
  case h_1 j hfind =>
    obtain rfl : j = i := Option.some.inj h
    obtain ⟨hj, hzero, -⟩ := List.findIdx?_eq_some_iff_getElem.mp hfind
    rw [MessagePool.refs, List.getElem?_eq_getElem hj]
    simpa using hzero
  case h_2 => cases h

/-- A lent slot had no owner and has one. -/
theorem Backs.tryLoan (h : p.Backs capacity own) (hown : ∀ j, own' j = own j + owns p.tryLoan.2 j) :
    p.tryLoan.1.Backs capacity own' := by
  cases hfind : p.references.findIdx? (· = 0) with
  | none =>
      simp only [MessagePool.tryLoan, hfind, owns_none] at hown ⊢
      exact ⟨h.size, fun j => (h.refs j).trans (hown j).symm, h.current, h.underflow⟩
  | some i =>
      obtain ⟨hi, hzero, -⟩ := List.findIdx?_eq_some_iff_getElem.mp hfind
      have hget : p.references[i]? = some 0 := by
        rw [List.getElem?_eq_getElem hi]
        simpa using hzero
      simp only [MessagePool.tryLoan, hfind, owns_some] at hown ⊢
      refine ⟨by simpa using h.size, ?_, ?_, h.underflow⟩
      · intro j
        have hj : p.refs j = own j := h.refs j
        have hj' := hown j
        refine (refs_set hget j).trans ?_
        by_cases hji : j = i
        · subst hji
          have hfree : p.refs j = 0 := by rw [MessagePool.refs, hget]; rfl
          rw [if_pos rfl] at hj' ⊢
          omega
        · rw [if_neg hji] at hj' ⊢
          omega
      · have hcount := countP_set (b := 1) (0 < ·) hget
        have := h.current
        simp only [decide_eq_true_eq, Nat.lt_irrefl, if_false, Nat.zero_lt_one, if_true] at hcount
        simp only
        omega

end MessagePool

end MicrOsal
