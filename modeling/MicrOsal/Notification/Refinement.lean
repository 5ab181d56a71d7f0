import Mathlib.Data.List.GetD
import MicrOsal.Notification.Model
import MicrOsal.Lib.Tally

/-!
# MicrOsal.Notification.Refinement

Both implementations of notifications do on their slots what `Board` does: `cpp` and `c` are
the two as `Impl`. It follows that sequences of calls that do not block cannot tell them
apart.
-/

namespace MicrOsal.Notification

variable {α : Type} {index : Nat}

/-! ### The C++ class -/

/-- The slots, if the mutex and the condition variable exist. -/
def board (o : Notification) : Board := if o.valid then some o.slots else none

variable {o : Notification}

theorem board_setSlot (index : Nat) (slot : Slot) (h : o.valid = true) :
    (o.setSlot index slot).board = some (o.slots.set index slot) := if_pos h

theorem getElem?_slot (h : o.indexValid index = true) :
    o.slots[index]? = some (o.slot index) := by
  have hlt : index < o.slots.length := of_decide_eq_true h
  rw [slot, List.getD_eq_getElem _ _ hlt, List.getElem?_eq_getElem hlt]

theorem set_slot : o.slots.set index (o.slot index) = o.slots := by
  apply List.ext_getElem?
  intro k
  rw [List.getElem?_set]
  split
  case isTrue h =>
    subst h
    split
    case isTrue h =>
      rw [getElem?_slot (decide_eq_true h)]
    case isFalse h => rw [List.getElem?_eq_none (Nat.le_of_not_lt h)]
  case isFalse => rfl

/-- Nothing is written. -/
theorem board_keep (h : o.valid = true) :
    o.board = some (o.slots.set index (o.slot index)) := by
  rw [set_slot]
  exact if_pos h

/-- The checks at the head of every function, and its work on one slot. -/
theorem board_access (bad : ErrorCode → α) {f : Slot → α × Slot} {r : α × Notification}
    (h : o.valid = true → o.indexValid index = true →
      r.1 = (f (o.slot index)).1 ∧
        r.2.board = some (o.slots.set index (f (o.slot index)).2)) :
    (if (! o.valid) = true then (bad .notInitialized, o)
      else if (! o.indexValid index) = true then (bad .invalidArgument, o) else r).map id board =
      o.board.access index bad f := by
  cases hv : o.valid with
  | false => simp [board, hv, Board.access]
  | true =>
      have hb : o.board = some o.slots := if_pos hv
      cases hi : o.indexValid index with
      | false =>
          have hnone : o.slots[index]? = none := by
            rw [List.getElem?_eq_none_iff]
            exact Nat.le_of_not_lt (of_decide_eq_false hi)
          simp [hb, Board.access, hnone]
      | true =>
          obtain ⟨h₁, h₂⟩ := h hv hi
          simp [hb, Board.access, getElem?_slot hi, Prod.map, h₁, h₂]

/-- A function that only looks at a slot. -/
theorem board_read (bad : α) (f : Slot → α) (o : Notification) (index : Nat) :
    (if (! o.valid || ! o.indexValid index) = true then bad else f (o.slot index), o.board) =
      o.board.access index (fun _ => bad) (fun slot => (f slot, slot)) := by
  have h : _ = o.board.access index (fun _ => bad) (fun slot => (f slot, slot)) :=
    board_access (fun _ => bad) (r := (f (o.slot index), o))
      (fun hv _ => ⟨rfl, board_keep hv⟩)
  rw [← h]
  cases o.valid <;> cases o.indexValid index <;> rfl

theorem notify_spec (o : Notification) (value : BitVec 32) (action : NotifyAction)
    (index : Nat) :
    (o.notify value action index).map id board =
      o.board.access index id (fun slot => slot.notify value action) := by
  refine board_access id (fun hv hi => ?_)
  cases action with
  | noOverwrite =>
      dsimp only [Slot.notify]
      split
      · exact ⟨rfl, board_keep hv⟩
      · exact ⟨rfl, board_setSlot _ _ hv⟩
  | other code => exact ⟨rfl, board_keep hv⟩
  | _ => exact ⟨rfl, board_setSlot _ _ hv⟩

theorem clear_spec (o : Notification) (bits : BitVec 32) (index : Nat) :
    (o.clear bits index).map id board =
      o.board.access index id (fun slot => (.ok, slot.clear bits)) :=
  board_access id (fun hv _ => ⟨rfl, board_setSlot _ _ hv⟩)

theorem reset_spec (o : Notification) (index : Nat) :
    (o.reset index).map id board = o.board.access index id (fun _ => (.ok, {})) :=
  board_access id (fun hv _ => ⟨rfl, board_setSlot _ _ hv⟩)

theorem slot_setSlot (slot : Slot) (hi : o.indexValid index = true) :
    (o.setSlot index slot).slot index = slot := by
  have hlt : index < o.slots.length := of_decide_eq_true hi
  simp [Notification.slot, setSlot, List.getD_eq_getElem?_getD, hlt]

theorem finish_spec {w : WaitArgs} (hv : o.valid = true) :
    (o.finish w).1 = ((o.slot w.index).take w).1 ∧
      (o.finish w).2.board = some (o.slots.set w.index ((o.slot w.index).take w).2) :=
  ⟨rfl, board_setSlot _ _ hv⟩

theorem start_spec (o : Notification) (w : WaitArgs) (clock : Bool) :
    (o.start w clock).map id board = o.board.start w clock := by
  refine board_access (fun code => Outcome.returned code none) (fun hv hi => ?_)
  have hset := board_setSlot (o := o) w.index ((o.slot w.index).clear w.clearOnEntry) hv
  dsimp only [Slot.start]
  by_cases hp : (o.slot w.index).pending = true
  · have hslot := slot_setSlot (o := o) ((o.slot w.index).clear w.clearOnEntry) hi
    have htake := finish_spec (w := w)
      (show (o.setSlot w.index ((o.slot w.index).clear w.clearOnEntry)).valid = true from hv)
    rw [hslot, show (o.setSlot _ _).slots = o.slots.set _ _ from rfl, List.set_set] at htake
    rw [if_pos hp, if_pos (show ((o.slot w.index).clear w.clearOnEntry).pending = true from hp)]
    exact htake
  · rw [if_neg hp, if_neg (show ¬ ((o.slot w.index).clear w.clearOnEntry).pending = true from hp)]
    by_cases hf : w.timeout = .forever
    · rw [if_pos hf, if_neg (fun h => h.1 hf)]
      exact ⟨rfl, hset⟩
    · rw [if_neg hf]
      by_cases he : w.expired clock = true
      · rw [if_pos he, if_pos ⟨hf, he⟩]
        exact ⟨rfl, hset⟩
      · rw [if_neg he, if_neg (fun h => he h.2)]
        exact ⟨rfl, hset⟩

/-- A slot that is pending is one of the object's. -/
theorem indexValid_of_pending (hp : (o.slot index).pending = true) : o.indexValid index = true := by
  by_contra hi
  rw [slot, List.getD_eq_default _ _ (by simpa [indexValid] using hi)] at hp
  cases hp

theorem resume_spec (o : Notification) (w : WaitArgs) (rc : ErrorCode) (clock : Bool)
    (hv : o.valid = true) :
    Board.Resumed w o.board (o.resume w rc clock).1 (o.resume w rc clock).2.board := by
  rw [resume]
  split
  case isTrue hp =>
    rw [show o.board = some o.slots from if_pos hv, (finish_spec hv).1, (finish_spec hv).2]
    exact .take (getElem?_slot (indexValid_of_pending hp)) hp
  split
  · exact .block
  split
  · exact .fail nofun
  split
  · exact .fail nofun
  · exact .block

/-! ### The C functions -/

namespace Handle

variable {h : Handle}

/-- The slot the two arrays make up at a place. -/
def slot (h : Handle) (index : Nat) : Slot := ⟨h.value index, h.flag index ≠ 0⟩

def slots (h : Handle) : List Slot :=
  List.zipWith (fun value flag => ⟨value, flag ≠ 0⟩) h.values h.pending

/-- The slots, if the handle is valid. -/
def board (h : Handle) : Board := if h.isValid then some h.slots else none

theorem getElem?_slots (hlt : index < h.slotCount) : h.slots[index]? = some (h.slot index) := by
  have hv : index < h.values.length := by rw [h.values_length]; exact hlt
  have hp : index < h.pending.length := by rw [h.pending_length]; exact hlt
  rw [slots, List.getElem?_zipWith, List.getElem?_eq_getElem hv, List.getElem?_eq_getElem hp,
    slot, value, flag, List.getD_eq_getElem _ _ hv, List.getD_eq_getElem _ _ hp]

theorem length_slots : h.slots.length = h.slotCount := by
  rw [slots, List.length_zipWith, h.values_length, h.pending_length, Nat.min_self]

/-- A handle that differs in one slot. -/
theorem slots_eq_set {h' : Handle} {slot : Slot} (hcount : h'.slotCount = h.slotCount)
    (hat : h'.slot index = slot) (hrest : ∀ k, k ≠ index → h'.slot k = h.slot k) :
    h'.slots = h.slots.set index slot := by
  refine List.ext_getElem? (fun k => ?_)
  rw [List.getElem?_set]
  by_cases hk : k < h.slotCount
  · rw [getElem?_slots (hcount ▸ hk)]
    split
    case isTrue heq => rw [length_slots, if_pos (heq ▸ hk), ← heq, hat]
    case isFalse hne => rw [getElem?_slots hk, hrest k (Ne.symm hne)]
  · have hnone : ∀ {g : Handle}, g.slotCount = h.slotCount → g.slots[k]? = none := fun hg =>
      List.getElem?_eq_none (by rw [length_slots, hg]; exact Nat.le_of_not_lt hk)
    rw [hnone hcount, hnone rfl]
    split
    case isTrue heq => rw [if_neg]; rw [length_slots, heq]; exact hk
    case isFalse => rfl

theorem set_slot : h.slots.set index (h.slot index) = h.slots :=
  (slots_eq_set rfl rfl (fun _ _ => rfl)).symm

/-- Nothing is written. -/
theorem board_keep (hv : h.isValid = true) :
    h.board = some (h.slots.set index (h.slot index)) := by
  rw [set_slot]
  exact if_pos hv

theorem value_setValue (hlt : index < h.slotCount) (value : BitVec 32) :
    (h.setValue index value).value index = value := by
  have hv : index < h.values.length := by rw [h.values_length]; exact hlt
  simp [Handle.value, setValue, List.getD_eq_getElem?_getD, hv]

theorem value_setValue_ne {k : Nat} (hne : k ≠ index) (value : BitVec 32) :
    (h.setValue index value).value k = h.value k := by
  simp [Handle.value, setValue, List.getD_eq_getElem?_getD, Ne.symm hne]

theorem flag_setFlag (hlt : index < h.slotCount) (flag : BitVec 8) :
    (h.setFlag index flag).flag index = flag := by
  have hv : index < h.pending.length := by rw [h.pending_length]; exact hlt
  simp [Handle.flag, setFlag, List.getD_eq_getElem?_getD, hv]

theorem flag_setFlag_ne {k : Nat} (hne : k ≠ index) (flag : BitVec 8) :
    (h.setFlag index flag).flag k = h.flag k := by
  simp [Handle.flag, setFlag, List.getD_eq_getElem?_getD, Ne.symm hne]

theorem slots_setValue (hlt : index < h.slotCount) (value : BitVec 32) :
    (h.setValue index value).slots = h.slots.set index ⟨value, h.flag index ≠ 0⟩ := by
  refine slots_eq_set rfl ?_ (fun k hne => ?_)
  · rw [slot, value_setValue hlt]
    rfl
  · rw [slot, value_setValue_ne hne]
    rfl

theorem slots_setFlag (hlt : index < h.slotCount) (flag : BitVec 8) :
    (h.setFlag index flag).slots = h.slots.set index ⟨h.value index, flag ≠ 0⟩ := by
  refine slots_eq_set rfl ?_ (fun k hne => ?_)
  · rw [slot, flag_setFlag hlt]
    rfl
  · rw [slot, flag_setFlag_ne hne]
    rfl

/-- Both halves of a slot are written. -/
theorem slots_store (hlt : index < h.slotCount) (value : BitVec 32) (flag : BitVec 8) :
    ((h.setValue index value).setFlag index flag).slots =
      h.slots.set index ⟨value, flag ≠ 0⟩ := by
  rw [slots_setFlag (h := h.setValue index value) hlt, slots_setValue hlt, List.set_set,
    value_setValue hlt]

/-- The check at the head of every function, and its work on one slot. -/
theorem board_access (bad : ErrorCode → α) {f : Slot → α × Slot} {r : α × Handle}
    (hr : h.isValid = true → index < h.slotCount →
      r.1 = (f (h.slot index)).1 ∧
        r.2.board = some (h.slots.set index (f (h.slot index)).2)) :
    (if (! h.indexValid index) = true then (bad h.indexError, h) else r).map id board =
      h.board.access index bad f := by
  cases hv : h.isValid with
  | false => simp [board, hv, Board.access, indexValid, indexError]
  | true =>
      have hb : h.board = some h.slots := if_pos hv
      by_cases hlt : index < h.slotCount
      · obtain ⟨h₁, h₂⟩ := hr hv hlt
        simp [hb, Board.access, getElem?_slots hlt, Prod.map, h₁, h₂, indexValid, hv, hlt]
      · have hnone : h.slots[index]? = none := by
          rw [List.getElem?_eq_none_iff, length_slots]
          exact Nat.le_of_not_lt hlt
        simp [hb, Board.access, hnone, indexValid, hv, hlt, indexError]

/-- A function that only looks at a slot. -/
theorem board_read (bad : α) (f : Slot → α) (h : Handle) (index : Nat) :
    (if (! h.indexValid index) = true then bad else f (h.slot index), h.board) =
      h.board.access index (fun _ => bad) (fun slot => (f slot, slot)) := by
  have heq : _ = h.board.access index (fun _ => bad) (fun slot => (f slot, slot)) :=
    board_access (fun _ => bad) (r := (f (h.slot index), h))
      (fun hv _ => ⟨rfl, board_keep hv⟩)
  rw [← heq]
  cases h.indexValid index <;> rfl

theorem board_store (hv : h.isValid = true) (hlt : index < h.slotCount) (value : BitVec 32)
    (flag : BitVec 8) :
    ((h.setValue index value).setFlag index flag).board =
      some (h.slots.set index ⟨value, flag ≠ 0⟩) := by
  rw [← slots_store hlt]
  exact if_pos hv

theorem board_setValue (hv : h.isValid = true) (hlt : index < h.slotCount) (value : BitVec 32) :
    (h.setValue index value).board =
      some (h.slots.set index ⟨value, h.flag index ≠ 0⟩) := by
  rw [← slots_setValue hlt]
  exact if_pos hv

theorem notify_spec (h : Handle) (value : BitVec 32) (action : NotifyAction) (index : Nat) :
    (h.notify value action index).map id board =
      h.board.access index id (fun slot => slot.notify value action) := by
  refine board_access id (fun hv hlt => ?_)
  cases action with
  | noOverwrite =>
      dsimp only [Slot.notify, slot]
      by_cases hp : h.flag index ≠ 0
      · rw [if_pos hp, if_pos (decide_eq_true hp)]
        exact ⟨rfl, board_keep hv⟩
      · rw [if_neg hp, if_neg (fun hd => hp (of_decide_eq_true hd))]
        exact ⟨rfl, board_store hv hlt _ _⟩
  | other code => exact ⟨rfl, board_keep hv⟩
  | _ => exact ⟨rfl, board_store hv hlt _ _⟩

theorem clear_spec (h : Handle) (bits : BitVec 32) (index : Nat) :
    (h.clear bits index).map id board =
      h.board.access index id (fun slot => (.ok, slot.clear bits)) :=
  board_access id (fun hv hlt => ⟨rfl, board_setValue hv hlt _⟩)

theorem reset_spec (h : Handle) (index : Nat) :
    (h.reset index).map id board = h.board.access index id (fun _ => (.ok, {})) :=
  board_access id (fun hv hlt => ⟨rfl, board_store hv hlt _ _⟩)

theorem finish_spec {w : WaitArgs} (hv : h.isValid = true) (hlt : w.index < h.slotCount) :
    (h.finish w).1 = ((h.slot w.index).take w).1 ∧
      (h.finish w).2.board = some (h.slots.set w.index ((h.slot w.index).take w).2) :=
  ⟨rfl, board_store hv hlt _ _⟩

theorem slot_setValue (hlt : index < h.slotCount) (value : BitVec 32) :
    (h.setValue index value).slot index = ⟨value, h.flag index ≠ 0⟩ := by
  rw [slot, value_setValue hlt]
  rfl

theorem start_spec (h : Handle) (w : WaitArgs) (clock : Bool) :
    (h.start w clock).map id board = h.board.start w clock := by
  refine board_access (fun code => Outcome.returned code none) (fun hv hlt => ?_)
  have hset := board_setValue hv hlt (h.value w.index &&& ~~~ w.clearOnEntry)
  dsimp only [Slot.start]
  by_cases hp : h.flag w.index ≠ 0
  · have hslot := slot_setValue hlt (h.value w.index &&& ~~~ w.clearOnEntry)
    have htake := finish_spec (w := w)
      (show (h.setValue w.index (h.value w.index &&& ~~~ w.clearOnEntry)).isValid = true from hv)
      hlt
    rw [hslot, slots_setValue hlt, List.set_set] at htake
    rw [if_pos (show (h.setValue _ _).flag w.index ≠ 0 from hp),
      if_pos (show ((h.slot w.index).clear w.clearOnEntry).pending = true from
        decide_eq_true hp)]
    exact htake
  · rw [if_neg (show ¬ (h.setValue _ _).flag w.index ≠ 0 from hp),
      if_neg (show ¬ ((h.slot w.index).clear w.clearOnEntry).pending = true from
        fun hd => hp (of_decide_eq_true hd))]
    by_cases hf : w.timeout = .forever
    · rw [if_pos hf, if_neg (fun h => h.1 hf)]
      exact ⟨rfl, hset⟩
    · rw [if_neg hf]
      by_cases he : w.expired clock = true
      · rw [if_pos he, if_pos ⟨hf, he⟩]
        exact ⟨rfl, hset⟩
      · rw [if_neg he, if_neg (fun h => he h.2)]
        exact ⟨rfl, hset⟩

theorem lt_of_flag (hp : h.flag index ≠ 0) : index < h.slotCount := by
  by_contra hlt
  rw [← h.pending_length] at hlt
  exact hp (List.getD_eq_default _ _ (Nat.le_of_not_lt hlt))

/-- The wait finds its slot pending. -/
theorem resumed_finish {w : WaitArgs} (hv : h.isValid = true) (hp : h.flag w.index ≠ 0) :
    Board.Resumed w h.board (h.finish w).1 (h.finish w).2.board := by
  have hlt := lt_of_flag hp
  rw [show h.board = some h.slots from if_pos hv, (finish_spec hv hlt).1, (finish_spec hv hlt).2]
  exact .take (getElem?_slots hlt) (decide_eq_true hp)

theorem resume_spec (h : Handle) (w : WaitArgs) (rc : ErrorCode) (clock : Bool)
    (hv : h.isValid = true) :
    Board.Resumed w h.board (h.resume w rc clock).1 (h.resume w rc clock).2.board := by
  rw [resume]
  split
  · split
    case isTrue hrc => exact .fail hrc
    split
    case isTrue hp => exact resumed_finish hv hp
    case isFalse => exact .block
  split
  · exact .fail nofun
  split
  case isTrue hrc => exact .fail hrc.1
  split
  case isTrue hp => exact resumed_finish hv hp
  split
  · exact .fail nofun
  · exact .block

end Handle

/-! ### Both as implementations of a board -/

theorem Board.access_map {β : Type} (b : Board) (bad : ErrorCode → α) (f : Slot → α × Slot)
    (g : α → β) :
    (b.access index bad f).map g id =
      b.access index (fun code => g (bad code)) (fun slot => (f slot).map g id) := by
  cases b with
  | none => rfl
  | some slots =>
      dsimp only [Board.access]
      split
      · rfl
      · rfl

/-- A function that returns a code, as a call. -/
theorem Board.call_code {σ : Type} {view : σ → Board} {r : ErrorCode × σ} {b : Board}
    {f : Slot → ErrorCode × Slot} (h : r.map id view = b.access index id f) :
    (r.map Reply.code id).map id view =
      b.access index .code (fun slot => (f slot).map Reply.code id) := by
  have := congrArg (Prod.map Reply.code id) h
  rw [Board.access_map] at this
  exact this

theorem call_spec (o : Notification) (c : Call) :
    (o.call c).map id board = o.board.call c := by
  cases c with
  | notify value action index => exact Board.call_code (notify_spec o value action index)
  | clear bits index => exact Board.call_code (clear_spec o bits index)
  | reset index => exact Board.call_code (reset_spec o index)
  | pending index =>
      have h := board_read (.flag false) (fun slot => Reply.flag slot.pending) o index
      rw [← apply_ite Reply.flag] at h
      exact h
  | peek index =>
      have h := board_read (.value 0) (fun slot => Reply.value slot.value) o index
      rw [← apply_ite Reply.value] at h
      exact h

theorem Handle.call_spec (h : Handle) (c : Call) :
    (h.call c).map id Handle.board = h.board.call c := by
  cases c with
  | notify value action index => exact Board.call_code (h.notify_spec value action index)
  | clear bits index => exact Board.call_code (h.clear_spec bits index)
  | reset index => exact Board.call_code (h.reset_spec index)
  | pending index =>
      have hread := board_read (.flag false) (fun slot => Reply.flag slot.pending) h index
      rw [← apply_ite Reply.flag] at hread
      refine Eq.trans ?_ hread
      simp only [Handle.call, Prod.map, id, isPending, slot]
      split <;> simp
  | peek index =>
      have hread := board_read (.value 0) (fun slot => Reply.value slot.value) h index
      rw [← apply_ite Reply.value] at hread
      exact hread

/-- `osal::notification`. -/
def cpp : Impl Notification where
  board := board
  call := call
  start := start
  resume := resume
  call_spec := call_spec
  start_spec := start_spec
  resume_spec := fun o w rc clock h => resume_spec o w rc clock (by
    by_contra hv
    rw [board, if_neg hv] at h
    cases h)

/-- The functions on `osal_notification_handle`. -/
def c : Impl Handle where
  board := Handle.board
  call := Handle.call
  start := Handle.start
  resume := Handle.resume
  call_spec := Handle.call_spec
  start_spec := Handle.start_spec
  resume_spec := fun h w rc clock hb => h.resume_spec w rc clock (by
    by_contra hv
    rw [Handle.board, if_neg hv] at hb
    cases hb)

end MicrOsal.Notification
