import MicrOsal.FreertosTimer.Model
import MicrOsal.Lib.SlotOwners

/-!
# MicrOsal.FreertosTimer.Slots

What a timer object holds of the pools: a callback pair and a native timer are marked exactly as
long as one object holds them, and nobody else writes to the pair of an object.
-/

namespace MicrOsal.FreertosTimer

variable {s r : State} {o p p' t t' : Nat} {obj : Object} {φ : Phase} {pair : Pair}
variable {f : Pair → Pair}

/-! ### What an object holds -/

namespace Phase

/-- The pair has been written, and is not cleared yet. -/
def filled? : Phase → Option Nat
  | .store p => some p
  | .create p _ => some p
  | .unstore p _ => some p
  | .live p _ => some p
  | .semaphore p _ => some p
  | .delete p _ => some p
  | .fence p _ => some p
  | .await p _ _ => some p
  | .reclaim p _ => some p
  | .retire p _ => some p
  | _ => none

/-- The native timer is there, and its deletion has not been sent. -/
def made? : Phase → Option (Nat × Nat)
  | .live p t => some (p, t)
  | .semaphore p t => some (p, t)
  | .delete p t => some (p, t)
  | _ => none

/-- The deletion has been sent, and the fence has not come back. -/
def closing? : Phase → Option (Nat × Nat)
  | .fence p t => some (p, t)
  | .await p t false => some (p, t)
  | _ => none

/-- The fence has been sent and has not come back. -/
def awaits? : Phase → Option Nat
  | .await _ t false => some t
  | _ => none

/-- It makes no difference to the daemon which one of the two an object is in. -/
def Alike (φ ψ : Phase) : Prop :=
  ψ.made? = φ.made? ∧ ψ.closing? = φ.closing? ∧ ψ.awaits? = φ.awaits?

/-- There may be a native timer. -/
def timer? (φ : Phase) : Option (Nat × Nat) := φ.made?.or φ.closing?

theorem store_of_timer (h : φ.timer? = some (p, t)) : φ.store? = some t := by
  cases φ with
  | await p t done =>
      cases done <;> simp_all [timer?, made?, closing?, store?]
  | _ => simp_all [timer?, made?, closing?, store?]

theorem filled_of_timer (h : φ.timer? = some (p, t)) : φ.filled? = some p := by
  cases φ with
  | await p t done =>
      cases done <;> simp_all [timer?, made?, closing?, filled?]
  | _ => simp_all [timer?, made?, closing?, filled?]

theorem closing_of_awaits (h : φ.awaits? = some t) : ∃ p, φ.closing? = some (p, t) := by
  cases φ with
  | await p t done => cases done <;> simp_all [awaits?, closing?]
  | _ => simp_all [awaits?]

theorem await_of_awaits (h : φ.awaits? = some t) : ∃ p, φ = .await p t false := by
  cases φ with
  | await p t done => cases done <;> simp_all [awaits?]
  | _ => simp_all [awaits?]

theorem not_made_closing (hmade : φ.made? = some (p, t)) (hclosing : φ.closing? = some (p', t')) :
    False := by
  cases φ <;> simp_all [made?, closing?]

theorem pair_of_filled (h : φ.filled? = some p) : φ.pair? = some p := by
  cases φ <;> simp_all [filled?, pair?]

theorem timer_of_made (h : φ.made? = some (p, t)) : φ.timer? = some (p, t) := by
  rw [timer?, h]
  rfl

theorem timer_of_closing (h : φ.closing? = some (p, t)) : φ.timer? = some (p, t) := by
  cases φ with
  | await p t done => cases done <;> simp_all [timer?, made?, closing?]
  | _ => simp_all [timer?, made?, closing?]

end Phase

namespace State

def pairOf (s : State) (o : Nat) : Option Nat := (s.phase o).bind Phase.pair?

def storeOf (s : State) (o : Nat) : Option Nat := (s.phase o).bind Phase.store?

def pairUsed (s : State) (p : Nat) : Bool := (s.pairs[p]?).any (·.used)

def storeUsed (s : State) (t : Nat) : Bool := (s.used[t]?).getD false

theorem phase_of (hobj : s.objects[o]? = some obj) : s.phase o = some obj.phase := by
  rw [phase, hobj]
  rfl

theorem phase_eq_some (h : s.phase o = some φ) : ∃ obj, s.objects[o]? = some obj ∧ obj.phase = φ :=
  Option.map_eq_some_iff.mp h

theorem phase_setPhase (hobj : s.objects[o]? = some obj) (φ : Phase) :
    (s.setPhase o φ).phase = Function.update s.phase o (some φ) := by
  funext o'
  by_cases h : o' = o
  · subst h
    rw [Function.update_self]
    simp [phase, setPhase, hobj]
  · rw [Function.update_of_ne h]
    simp [phase, setPhase, List.getElem?_modify_ne _ _ (Ne.symm h)]

/-- What can be read off the phases after one of them has changed. -/
theorem bind_setPhase {β : Type} (hobj : s.objects[o]? = some obj) (φ : Phase)
    (g : Phase → Option β) :
    (fun o' => ((s.setPhase o φ).phase o').bind g) =
      Function.update (fun o' => (s.phase o').bind g) o (g φ) := by
  funext o'
  rw [phase_setPhase hobj]
  by_cases h : o' = o
  · subst h
    rw [Function.update_self, Function.update_self]
    rfl
  · rw [Function.update_of_ne h, Function.update_of_ne h]

theorem pairOf_setPhase (hobj : s.objects[o]? = some obj) (φ : Phase) :
    (s.setPhase o φ).pairOf = Function.update s.pairOf o φ.pair? := bind_setPhase hobj φ _

theorem storeOf_setPhase (hobj : s.objects[o]? = some obj) (φ : Phase) :
    (s.setPhase o φ).storeOf = Function.update s.storeOf o φ.store? := bind_setPhase hobj φ _

theorem pairUsed_setPair (hpair : s.pairs[p]? = some pair) (f : Pair → Pair) :
    (s.setPair p f).pairUsed = Function.update s.pairUsed p (f pair).used := by
  funext p'
  by_cases h : p' = p
  · subst h
    rw [Function.update_self]
    simp [pairUsed, setPair, hpair]
  · rw [Function.update_of_ne h]
    simp [pairUsed, setPair, List.getElem?_modify_ne _ _ (Ne.symm h)]

theorem storeUsed_setUsed (ht : t < s.used.length) (used : Bool) :
    (s.setUsed t used).storeUsed = Function.update s.storeUsed t used := by
  funext t'
  by_cases h : t' = t
  · subst h
    rw [Function.update_self]
    simp [storeUsed, setUsed, ht]
  · rw [Function.update_of_ne h]
    simp [storeUsed, setUsed, List.getElem?_set_ne (Ne.symm h)]

theorem lt_of_storeUsed (h : s.storeUsed t = true) : t < s.used.length := by
  by_contra hlt
  rw [storeUsed, List.getElem?_eq_none (by omega)] at h
  cases h

theorem pair_of_pairUsed (h : s.pairUsed p = true) :
    ∃ pair, s.pairs[p]? = some pair ∧ pair.used = true := by
  unfold pairUsed at h
  cases hp : s.pairs[p]? with
  | none =>
      rw [hp] at h
      cases h
  | some pair =>
      rw [hp] at h
      exact ⟨pair, rfl, h⟩

theorem pairOf_of (hobj : s.objects[o]? = some obj) : s.pairOf o = obj.phase.pair? := by
  rw [pairOf, phase_of hobj]
  rfl

theorem storeOf_of (hobj : s.objects[o]? = some obj) : s.storeOf o = obj.phase.store? := by
  rw [storeOf, phase_of hobj]
  rfl

end State

/-! ### The pools -/

/-- A pair is marked as used, and a native timer too, exactly as long as one object holds it. -/
structure Pools (s : State) : Prop where
  pairs : SlotOwners s.pairOf s.pairUsed
  stores : SlotOwners s.storeOf s.storeUsed
  length : s.natives.length = s.used.length

namespace Pools

/-- Nothing that the pools look at changes. -/
theorem congr (h : Pools s) (hobjects : r.objects = s.objects) (hpairs : r.pairs = s.pairs)
    (hused : r.used = s.used) (hlength : r.natives.length = s.natives.length) : Pools r where
  pairs := h.pairs.congr (fun o => by rw [State.pairOf, State.phase, hobjects]; rfl)
    (fun p => by rw [State.pairUsed, hpairs]; rfl)
  stores := h.stores.congr (fun o => by rw [State.storeOf, State.phase, hobjects]; rfl)
    (fun t => by rw [State.storeUsed, hused]; rfl)
  length := by rw [hlength, hused, h.length]

/-- An object goes on with what it holds. -/
theorem setPhase (h : Pools s) (hobj : s.objects[o]? = some obj)
    (hpair : φ.pair? = obj.phase.pair?) (hstore : φ.store? = obj.phase.store?) :
    Pools (s.setPhase o φ) where
  pairs := by
    rw [State.pairOf_setPhase hobj, hpair, ← State.pairOf_of hobj, Function.update_eq_self]
    exact h.pairs
  stores := by
    rw [State.storeOf_setPhase hobj, hstore, ← State.storeOf_of hobj, Function.update_eq_self]
    exact h.stores
  length := h.length

/-- A pair is written to, and stays as used as it is. -/
theorem setPair (h : Pools s) (hused : ∀ pair, (f pair).used = pair.used) :
    Pools (s.setPair p f) where
  pairs := by
    refine h.pairs.congr (fun _ => rfl) (fun q => ?_)
    by_cases hq : q = p
    · subst hq
      cases hpair : s.pairs[q]? with
      | none => simp [State.pairUsed, State.setPair, hpair]
      | some pair => simp [State.pairUsed, State.setPair, hpair, hused pair]
    · simp [State.pairUsed, State.setPair, List.getElem?_modify_ne _ _ (Ne.symm hq)]
  stores := h.stores
  length := h.length

theorem takePair (h : Pools s) (hobj : s.objects[o]? = some obj) (hnone : obj.phase.pair? = none)
    (hpair : s.pairs[p]? = some pair) (hfree : pair.used = false) (hused : (f pair).used = true)
    (hphase : φ.pair? = some p) (hstore : φ.store? = obj.phase.store?) :
    Pools ((s.setPair p f).setPhase o φ) where
  pairs := by
    have heq : s.pairUsed p = false := by
      rw [State.pairUsed, hpair]
      exact hfree
    rw [State.pairOf_setPhase (s := s.setPair p f) hobj, hphase]
    show SlotOwners _ (s.setPair p f).pairUsed
    rw [State.pairUsed_setPair hpair, hused]
    exact h.pairs.take ((State.pairOf_of hobj).trans hnone) heq
  stores := by
    rw [State.storeOf_setPhase (s := s.setPair p f) hobj, hstore, ← State.storeOf_of hobj]
    exact (Function.update_eq_self o s.storeOf).symm ▸ h.stores
  length := h.length

theorem releasePair (h : Pools s) (hobj : s.objects[o]? = some obj)
    (hheld : obj.phase.pair? = some p) (hused : ∀ pair, (f pair).used = false)
    (hphase : φ.pair? = none) (hstore : φ.store? = obj.phase.store?) :
    Pools ((s.setPair p f).setPhase o φ) where
  pairs := by
    have hholds := (State.pairOf_of hobj).trans hheld
    obtain ⟨pair, hpair, -⟩ := State.pair_of_pairUsed (h.pairs.used_of_holder hholds)
    rw [State.pairOf_setPhase (s := s.setPair p f) hobj, hphase]
    show SlotOwners _ (s.setPair p f).pairUsed
    rw [State.pairUsed_setPair hpair, hused]
    exact h.pairs.release hholds
  stores := by
    rw [State.storeOf_setPhase (s := s.setPair p f) hobj, hstore, ← State.storeOf_of hobj]
    exact (Function.update_eq_self o s.storeOf).symm ▸ h.stores
  length := h.length

theorem takeStore (h : Pools s) (hobj : s.objects[o]? = some obj)
    (hnone : obj.phase.store? = none) (ht : t < s.used.length) (hfree : s.storeUsed t = false)
    (hphase : φ.store? = some t) (hpair : φ.pair? = obj.phase.pair?) :
    Pools ((s.setUsed t true).setPhase o φ) where
  pairs := by
    rw [State.pairOf_setPhase (s := s.setUsed t true) hobj, hpair, ← State.pairOf_of hobj]
    exact (Function.update_eq_self o s.pairOf).symm ▸ h.pairs
  stores := by
    rw [State.storeOf_setPhase (s := s.setUsed t true) hobj, hphase]
    show SlotOwners _ (s.setUsed t true).storeUsed
    rw [State.storeUsed_setUsed ht]
    exact h.stores.take ((State.storeOf_of hobj).trans hnone) hfree
  length := by
    show s.natives.length = (s.used.set t true).length
    rw [List.length_set, h.length]

theorem releaseStore (h : Pools s) (hobj : s.objects[o]? = some obj)
    (hheld : obj.phase.store? = some t) (hphase : φ.store? = none)
    (hpair : φ.pair? = obj.phase.pair?) : Pools ((s.setUsed t false).setPhase o φ) where
  pairs := by
    rw [State.pairOf_setPhase (s := s.setUsed t false) hobj, hpair, ← State.pairOf_of hobj]
    exact (Function.update_eq_self o s.pairOf).symm ▸ h.pairs
  stores := by
    have hholds := (State.storeOf_of hobj).trans hheld
    have ht := State.lt_of_storeUsed (h.stores.used_of_holder hholds)
    rw [State.storeOf_setPhase (s := s.setUsed t false) hobj, hphase]
    show SlotOwners _ (s.setUsed t false).storeUsed
    rw [State.storeUsed_setUsed ht]
    exact h.stores.release hholds
  length := by
    show s.natives.length = (s.used.set t false).length
    rw [List.length_set, h.length]

end Pools

/-! ### The pairs -/

/-- The pair of an object says what the object was created with. -/
def Filled (s : State) : Prop :=
  ∀ (o : Nat) (obj : Object) (p : Nat), s.objects[o]? = some obj → obj.phase.filled? = some p →
    ∃ pair, s.pairs[p]? = some pair ∧ pair.fn = some obj.fn ∧ pair.arg = obj.arg

namespace Filled

theorem congr (h : Filled s) (hobjects : r.objects = s.objects) (hpairs : r.pairs = s.pairs) :
    Filled r := by
  unfold Filled
  rw [hobjects, hpairs]
  exact h

theorem setPhase (h : Filled s) (hobj : s.objects[o]? = some obj)
    (hφ : ∀ p, φ.filled? = some p → obj.phase.filled? = some p) : Filled (s.setPhase o φ) := by
  intro o' obj' p hobj' hp
  rcases getElem?_modify_cases hobj' with ⟨rfl, old, hold, rfl⟩ | ⟨-, hobj'⟩
  · obtain rfl : obj = old := Option.some.inj (hobj.symm.trans hold)
    exact h o' obj p hobj (hφ p hp)
  · exact h o' obj' p hobj' hp

/-- What says what to call is not written. -/
theorem setPair (h : Filled s) (hf : ∀ pair, (f pair).fn = pair.fn ∧ (f pair).arg = pair.arg) :
    Filled (s.setPair p f) := by
  intro o obj q hobj hq
  obtain ⟨pair, hpair, hfn, harg⟩ := h o obj q hobj hq
  by_cases hqp : q = p
  · subst hqp
    refine ⟨f pair, ?_, (hf pair).1.trans hfn, (hf pair).2.trans harg⟩
    simp [State.setPair, hpair]
  · refine ⟨pair, ?_, hfn, harg⟩
    simpa [State.setPair, List.getElem?_modify_ne _ _ (Ne.symm hqp)] using hpair

/-- Who holds a pair writes to it; nobody else relies on it. -/
theorem write (h : Filled s) (hpools : Pools s) (hobj : s.objects[o]? = some obj)
    (hheld : obj.phase.pair? = some p)
    (hself : ∀ q, φ.filled? = some q →
      q = p ∧ ∀ pair, (f pair).fn = some obj.fn ∧ (f pair).arg = obj.arg) :
    Filled ((s.setPair p f).setPhase o φ) := by
  have hholds := (State.pairOf_of hobj).trans hheld
  intro o' obj' q hobj' hq
  rcases getElem?_modify_cases hobj' with ⟨rfl, old, hold, rfl⟩ | ⟨hne, hobj'⟩
  · obtain rfl : obj = old := Option.some.inj (hobj.symm.trans hold)
    obtain ⟨rfl, hf⟩ := hself q hq
    obtain ⟨pair, hpair, -⟩ := State.pair_of_pairUsed (hpools.pairs.used_of_holder hholds)
    refine ⟨f pair, ?_, (hf pair).1, (hf pair).2⟩
    simp [State.setPhase, State.setPair, hpair]
  · obtain ⟨pair, hpair, hfn, harg⟩ := h o' obj' q hobj' hq
    have hqp : q ≠ p := by
      rintro rfl
      have hholds' := (State.pairOf_of hobj').trans (Phase.pair_of_filled hq)
      exact hne (hpools.pairs.unique o' o q hholds' hholds)
    refine ⟨pair, ?_, hfn, harg⟩
    simpa [State.setPhase, State.setPair, List.getElem?_modify_ne _ _ (Ne.symm hqp)] using hpair

end Filled

end MicrOsal.FreertosTimer
