import MicrOsal.Lib.Tally
import MicrOsal.WorkQueue.Nuttx

/-!
# MicrOsal.WorkQueue.NuttxSlots

The slots of the NuttX work queue.

The trampoline clears `pending` and leaves `allocated`: a slot whose work has run is
never used again, and after as many works as there are slots the queue accepts nothing.
`cancel_all` on a work that a worker has taken gives its slot back while the work still
runs, and the trampoline then clears the flag of whatever the slot was reused for.

Until the first trampoline returns, and as long as `cancel_all` finds only works that no
worker has taken, the slots are accounted for (`NxOk`).
-/

namespace MicrOsal

/-! ### What is accounted for -/

namespace NxState

/-- What the slots and flags say about the outstanding works. -/
structure Accounted (maxItems : Nat) (s : NxState) : Prop where
  allocated : ∀ k item, s.wq.items[k]? = some item →
    (item.allocated = true ↔ ∃ work ∈ s.outstanding, work.slot = k)
  pending : ∀ k item, s.wq.items[k]? = some item →
    (item.pending = true ↔ ∃ work ∈ s.outstanding, work.slot = k)
  /-- No slot was used again under a work that is not finished. -/
  current : ∀ work ∈ s.outstanding, s.jobOf work.slot = work.job
  count : s.wq.pending = s.outstanding.length
  flushTest : s.wq.anyPending = true ↔ s.outstanding ≠ []
  refused : s.wq.findFree = none → s.outstanding.length = maxItems

/-- The trampoline of worker `n` is about to return. -/
def returning (s : NxState) (n : Nat) : Bool :=
  match s.workers[n]? with
  | some (.done _) => true
  | _ => false

/-- `cancel_all` comes to a pending item whose work a worker has taken. -/
def cancelsTaken (s : NxState) : Bool :=
  match s.cancelling with
  | none => false
  | some k =>
      match s.wq.items[k]? with
      | none => false
      | some item => item.isPending && s.queue.all (fun work => work.slot != k)

end NxState

/-- No trampoline returns, and `cancel_all` finds no work that a worker has taken. -/
def KeepsSlots (s : NxState) : NxAct → Prop
  | .worker n => s.returning n = false
  | .cancelNext => s.cancelsTaken = false
  | _ => True

instance (s : NxState) (a : NxAct) : Decidable (KeepsSlots s a) :=
  match a with
  | .worker _ => inferInstanceAs (Decidable (_ = _))
  | .cancelNext => inferInstanceAs (Decidable (_ = _))
  | .submit _ _ _ => .isTrue trivial
  | .cancelAll => .isTrue trivial
  | .flush _ => .isTrue trivial
  | .poll _ => .isTrue trivial
  | .take _ _ => .isTrue trivial

/-- Slots and outstanding works belong to each other. -/
structure NxOk (maxItems : Nat) (s : NxState) : Prop where
  valid : s.wq.valid = true
  length : s.wq.items.length = maxItems
  slots : (s.outstanding.map (·.slot)).Nodup
  used : ∀ work ∈ s.outstanding, ∃ item, s.wq.items[work.slot]? = some item ∧
    item.allocated = true ∧ item.pending = true ∧ item.func ≠ 0
  current : ∀ work ∈ s.outstanding, s.jobOf work.slot = work.job
  free : ∀ k item, s.wq.items[k]? = some item → item.allocated = true ∨ item.pending = true →
    ∃ work ∈ s.outstanding, work.slot = k

namespace NxOk

variable {maxItems : Nat} {s s' : NxState}

theorem create (maxItems numWorkers numFlushers : Nat) :
    NxOk maxItems (.create maxItems numWorkers numFlushers) := by
  have hnone : (NxState.create maxItems numWorkers numFlushers).outstanding = [] := by
    rw [NxState.outstanding, NxState.create, List.nil_append, List.filterMap_eq_nil_iff]
    intro worker hworker
    rw [List.eq_of_mem_replicate hworker]
    rfl
  refine ⟨rfl, List.length_replicate .., ?_, ?_, ?_, ?_⟩
  · rw [hnone]
    exact .nil
  · rw [hnone]
    exact nofun
  · rw [hnone]
    exact nofun
  · intro k item hitem hset
    rw [List.eq_of_mem_replicate (List.mem_of_getElem? hitem)] at hset
    rcases hset with h | h <;> cases h

/-- The slots of the outstanding works are those of the items that are set. -/
theorem mem_slots (h : NxOk maxItems s) {p : NxItem → Bool}
    (hset : ∀ item : NxItem, item.allocated = true → item.pending = true → p item = true)
    (hp : ∀ item : NxItem, p item = true → item.allocated = true ∨ item.pending = true) (k : Nat) :
    k ∈ s.outstanding.map (·.slot) ↔ ∃ item, s.wq.items[k]? = some item ∧ p item = true := by
  rw [List.mem_map]
  constructor
  · rintro ⟨work, hwork, rfl⟩
    obtain ⟨item, hitem, hallocated, hpending, -⟩ := h.used work hwork
    exact ⟨item, hitem, hset item hallocated hpending⟩
  · rintro ⟨item, hitem, hitemp⟩
    exact h.free k item hitem (hp item hitemp)

theorem countP (h : NxOk maxItems s) {p : NxItem → Bool}
    (hset : ∀ item : NxItem, item.allocated = true → item.pending = true → p item = true)
    (hp : ∀ item : NxItem, p item = true → item.allocated = true ∨ item.pending = true) :
    s.wq.items.countP p = s.outstanding.length := by
  rw [countP_eq_length h.slots (h.mem_slots hset hp), List.length_map]

theorem isPending_set {item : NxItem} (hallocated : item.allocated = true)
    (hpending : item.pending = true) : item.isPending = true := by
  rw [NxItem.isPending, hallocated, hpending]
  rfl

theorem allocated_of_isPending {item : NxItem} (h : item.isPending = true) :
    item.allocated = true ∨ item.pending = true :=
  .inl (Bool.and_eq_true_iff.mp h).1

theorem accounted (h : NxOk maxItems s) : s.Accounted maxItems where
  allocated := by
    intro k item hitem
    refine ⟨fun hset => h.free k item hitem (.inl hset), ?_⟩
    rintro ⟨work, hwork, rfl⟩
    obtain ⟨item', hitem', hallocated, -⟩ := h.used work hwork
    rw [hitem] at hitem'
    cases hitem'
    exact hallocated
  pending := by
    intro k item hitem
    refine ⟨fun hset => h.free k item hitem (.inr hset), ?_⟩
    rintro ⟨work, hwork, rfl⟩
    obtain ⟨item', hitem', -, hpending, -⟩ := h.used work hwork
    rw [hitem] at hitem'
    cases hitem'
    exact hpending
  current := h.current
  count := by
    rw [NuttxWq.pending, if_pos h.valid]
    exact h.countP (fun _ => isPending_set) (fun _ => allocated_of_isPending)
  flushTest := by
    have hcount := h.countP (fun _ => isPending_set) (fun _ => allocated_of_isPending)
    rw [NuttxWq.anyPending, List.any_eq_true, ← List.length_pos_iff, ← hcount, List.countP_pos_iff]
  refused := by
    intro hnone
    have hall : ∀ item ∈ s.wq.items, item.allocated = true := by
      intro item hitem
      simpa using List.findIdx?_eq_none_iff.mp hnone item hitem
    have hcount := h.countP (p := NxItem.allocated) (fun _ hset _ => hset) (fun _ => Or.inl)
    rw [← hcount, ← h.length]
    exact List.countP_eq_length.mpr hall

/-- Works may change places. -/
theorem perm (h : NxOk maxItems s) (hitems : s'.wq.items = s.wq.items)
    (hvalid : s'.wq.valid = s.wq.valid) (hjob : s'.jobOf = s.jobOf)
    (hperm : s'.outstanding.Perm s.outstanding) : NxOk maxItems s' := by
  refine ⟨hvalid.trans h.valid, hitems ▸ h.length, ?_, ?_, ?_, ?_⟩
  · exact (hperm.map (·.slot)).nodup_iff.mpr h.slots
  · intro work hwork
    rw [hitems]
    exact h.used work (hperm.mem_iff.mp hwork)
  · intro work hwork
    rw [hjob]
    exact h.current work (hperm.mem_iff.mp hwork)
  · intro k item hitem hset
    rw [hitems] at hitem
    obtain ⟨work, hwork, hslot⟩ := h.free k item hitem hset
    exact ⟨work, hperm.mem_iff.mpr hwork, hslot⟩

/-- A worker that goes on with its work. -/
theorem moveWorker (h : NxOk maxItems s) {n : Nat} {worker worker' : NxWorker}
    (hworker : s.workers[n]? = some worker) (hwork : worker'.work = worker.work) :
    NxOk maxItems (s.setWorker n worker') := by
  refine h.perm rfl rfl rfl (List.Perm.append_left _ ?_)
  have hset := filterMap_set_perm (f := NxWorker.work) (b := worker') hworker
  rw [hwork] at hset
  exact (List.perm_append_left_iff _).mp hset

/-- The kernel calls the trampoline. -/
theorem take (h : NxOk maxItems s) {n i : Nat} {work : NxWork}
    (hworker : s.workers[n]? = some .idle) (hwork : s.queue[i]? = some work) :
    NxOk maxItems ({ s with queue := s.queue.eraseIdx i }.setWorker n (.entered work)) := by
  refine h.perm rfl rfl rfl ?_
  have hset := filterMap_set_perm (f := NxWorker.work) (b := .entered work) hworker
  obtain ⟨hlt, hget⟩ := List.getElem?_eq_some_iff.mp hwork
  have herase := List.getElem_cons_eraseIdx_perm hlt
  rw [hget] at herase
  exact ((hset.append_left _).trans List.perm_middle).trans (herase.append_right _)

/-- The free slot that a submit finds is nobody's. -/
theorem findFree_spec (h : NxOk maxItems s) {k : Nat} (hfree : s.wq.findFree = some k) :
    ∃ item, s.wq.items[k]? = some item ∧ item.allocated = false ∧
      ∀ work ∈ s.outstanding, work.slot ≠ k := by
  obtain ⟨hlt, hitem, -⟩ := List.findIdx?_eq_some_iff_getElem.mp hfree
  have hget : s.wq.items[k]? = some s.wq.items[k] := List.getElem?_eq_getElem hlt
  refine ⟨_, hget, by simpa using hitem, ?_⟩
  rintro work hwork rfl
  obtain ⟨item, hused, hallocated, -⟩ := h.used work hwork
  rw [hget] at hused
  cases hused
  simp [hallocated] at hitem

/-- An item that no outstanding work uses may change, if it stays free. -/
theorem setFree (h : NxOk maxItems s) {k : Nat} {item : NxItem}
    (hnobody : ∀ work ∈ s.outstanding, work.slot ≠ k) (hallocated : item.allocated = false)
    (hpending : item.pending = false) :
    NxOk maxItems { s with wq := { s.wq with items := s.wq.items.set k item } } := by
  refine ⟨h.valid, (List.length_set ..).trans h.length, h.slots, ?_, h.current, ?_⟩
  · intro work hwork
    obtain ⟨old, hold, hrest⟩ := h.used work hwork
    refine ⟨old, ?_, hrest⟩
    exact (List.getElem?_set_ne (hnobody work hwork).symm).trans hold
  · intro m item' hitem' hset
    rcases getElem?_set_cases hitem' with ⟨-, rfl⟩ | ⟨-, hold⟩
    · rw [hallocated, hpending] at hset
      rcases hset with h' | h' <;> cases h'
    · exact h.free m item' hold hset

/-- A submit that the kernel accepts. -/
theorem accept (h : NxOk maxItems s) {k func arg : Nat} (hfunc : func ≠ 0)
    (hfree : s.wq.findFree = some k) (count : Nat) :
    NxOk maxItems { s with
      wq := { s.wq with items := s.wq.items.set k ⟨func, arg, true, true⟩, pendingCount := count }
      queue := s.queue ++ [⟨k, s.nextJob⟩]
      jobOf := Function.update s.jobOf k s.nextJob
      nextJob := s.nextJob + 1 } := by
  obtain ⟨item, hitem, -, hnobody⟩ := h.findFree_spec hfree
  have hlt := (List.getElem?_eq_some_iff.mp hitem).1
  have hperm : ((s.queue ++ [NxWork.mk k s.nextJob]) ++ s.workers.filterMap NxWorker.work).Perm
      (NxWork.mk k s.nextJob :: s.outstanding) := by
    rw [List.append_assoc]
    exact List.perm_middle
  have hmem : ∀ work : NxWork,
      work ∈ (s.queue ++ [⟨k, s.nextJob⟩]) ++ s.workers.filterMap NxWorker.work ↔
      work = ⟨k, s.nextJob⟩ ∨ work ∈ s.outstanding := fun work =>
    hperm.mem_iff.trans List.mem_cons
  refine ⟨h.valid, (List.length_set ..).trans h.length, ?_, ?_, ?_, ?_⟩
  · refine (hperm.map (·.slot)).nodup_iff.mpr (List.nodup_cons.mpr ⟨?_, h.slots⟩)
    intro hk
    obtain ⟨work, hwork, hslot⟩ := List.mem_map.mp hk
    exact hnobody work hwork hslot
  · intro work hwork
    rcases (hmem work).mp hwork with rfl | hold
    · exact ⟨_, List.getElem?_set_self hlt, rfl, rfl, hfunc⟩
    · obtain ⟨old, hget, hrest⟩ := h.used work hold
      exact ⟨old, (List.getElem?_set_ne (hnobody work hold).symm).trans hget, hrest⟩
  · intro work hwork
    rcases (hmem work).mp hwork with rfl | hold
    · exact Function.update_self _ _ _
    · exact (Function.update_of_ne (hnobody work hold) _ _).trans (h.current work hold)
  · intro m item' hitem' hset
    rcases getElem?_set_cases hitem' with ⟨rfl, -⟩ | ⟨-, hold⟩
    · exact ⟨_, (hmem _).mpr (.inl rfl), rfl⟩
    · obtain ⟨work, hwork, hslot⟩ := h.free m item' hold hset
      exact ⟨work, (hmem work).mpr (.inr hwork), hslot⟩

theorem submit (h : NxOk maxItems s) (func arg : Nat) (accepted : Bool) :
    NxOk maxItems (s.submit func arg accepted) := by
  unfold NxState.submit NuttxWq.submit
  by_cases hfunc : func = 0
  · rw [if_pos hfunc]
    exact h
  rw [if_neg hfunc, if_neg (by rw [h.valid]; exact nofun)]
  cases hfree : s.wq.findFree with
  | none => exact h
  | some k =>
      cases accepted with
      | true => exact h.accept hfunc hfree _
      | false =>
          obtain ⟨item, -, -, hnobody⟩ := h.findFree_spec hfree
          exact h.setFree hnobody rfl rfl

/-- `cancel_all` comes to a work that is still queued: `work_cancel` removes it. -/
theorem cancel (h : NxOk maxItems s) {k : Nat} {item : NxItem} {work : NxWork}
    (hwork : work ∈ s.queue) (hslot : work.slot = k) (cancelling : Option Nat) :
    NxOk maxItems { s.workCancel k with
      wq := { s.wq with
        items := s.wq.items.set k { item with pending := false, allocated := false } }
      cancelling := cancelling } := by
  -- The slot is used once, so no worker has a work of it.
  have houtstanding : s.queue.filter (fun work => work.slot != k) ++
      s.workers.filterMap NxWorker.work = s.outstanding.filter (fun work => work.slot != k) := by
    have hslots := h.slots
    rw [NxState.outstanding, List.map_append, List.nodup_append] at hslots
    have hworkers : (s.workers.filterMap NxWorker.work).filter (fun work => work.slot != k) =
        s.workers.filterMap NxWorker.work := by
      refine List.filter_eq_self.mpr (fun other hother => ?_)
      have hne := hslots.2.2 _ (List.mem_map_of_mem hwork) _ (List.mem_map_of_mem hother)
      rw [hslot] at hne
      simpa using hne.symm
    rw [NxState.outstanding, List.filter_append, hworkers]
  have hmem : ∀ other, other ∈ s.queue.filter (fun work => work.slot != k) ++
      s.workers.filterMap NxWorker.work ↔ other ∈ s.outstanding ∧ other.slot ≠ k := by
    intro other
    rw [houtstanding, List.mem_filter]
    simp
  refine ⟨h.valid, (List.length_set ..).trans h.length, ?_, ?_, ?_, ?_⟩
  · have hsub := (List.filter_sublist (l := s.outstanding)
      (p := fun work => work.slot != k)).map (·.slot)
    rw [← houtstanding] at hsub
    exact hsub.nodup h.slots
  · intro other hother
    obtain ⟨hold, hne⟩ := (hmem other).mp hother
    obtain ⟨old, hget, hrest⟩ := h.used other hold
    exact ⟨old, (List.getElem?_set_ne hne.symm).trans hget, hrest⟩
  · intro other hother
    exact h.current other ((hmem other).mp hother).1
  · intro m item' hitem' hset
    rcases getElem?_set_cases hitem' with ⟨-, rfl⟩ | ⟨hne, hold⟩
    · rcases hset with h' | h' <;> cases h'
    · obtain ⟨other, hother, rfl⟩ := h.free m item' hold hset
      exact ⟨other, (hmem other).mpr ⟨hother, hne⟩, rfl⟩

theorem cancelItem (h : NxOk maxItems s) {k : Nat} (hk : s.cancelling = some k)
    (htaken : s.cancelsTaken = false) : NxOk maxItems (s.cancelItem k) := by
  unfold NxState.cancelItem
  cases hitem : s.wq.items[k]? with
  | none => exact h.perm rfl rfl rfl (.refl _)
  | some item =>
      simp only
      split
      · next hpending =>
        simp only [NxState.cancelsTaken, hk, hitem, hpending, Bool.true_and] at htaken
        obtain ⟨work, hwork, hslot⟩ := List.all_eq_false.mp htaken
        exact h.cancel hwork (by simpa using hslot) _
      · exact h.perm rfl rfl rfl (.refl _)

/-- The trampoline, until it returns. -/
theorem trampoline (h : NxOk maxItems s) {n : Nat} {worker : NxWorker}
    (hworker : s.workers[n]? = some worker) (hnot : s.returning n = false)
    (hs : s.trampoline n worker = some s') : NxOk maxItems s' := by
  cases worker with
  | idle => cases hs
  | entered work =>
      have hmem : work ∈ s.outstanding := by
        refine List.mem_append_right _ (List.mem_filterMap.mpr ?_)
        exact ⟨.entered work, List.mem_of_getElem? hworker, rfl⟩
      obtain ⟨item, hitem, -, -, hfunc⟩ := h.used work hmem
      simp only [NxState.trampoline, hitem, Option.map_some, if_neg hfunc] at hs
      cases hs
      exact h.moveWorker hworker rfl
  | run work func arg =>
      cases hs
      exact h.moveWorker hworker rfl
  | done work =>
      rw [NxState.returning, hworker] at hnot
      cases hnot

theorem step (h : NxOk maxItems s) {a : NxAct} (hok : KeepsSlots s a)
    (hs : s.next a = some s') : NxOk maxItems s' := by
  cases a with
  | submit func arg accepted =>
      simp only [NxState.next] at hs
      split at hs
      · cases hs
      · cases hs
        exact h.submit func arg accepted
  | cancelAll =>
      simp only [NxState.next] at hs
      split at hs
      · cases hs
      · split at hs
        · cases hs
        · cases hs
          exact h.perm rfl rfl rfl (.refl _)
  | cancelNext =>
      obtain ⟨k, hk, rfl⟩ := Option.map_eq_some_iff.mp hs
      exact h.cancelItem hk hok
  | flush n =>
      simp only [NxState.next] at hs
      split at hs
      · cases hs
      · split at hs
        all_goals
          cases hs
          exact h.perm rfl rfl rfl (.refl _)
  | poll n =>
      simp only [NxState.next] at hs
      split at hs
      · split at hs
        · cases hs
        · cases hs
          exact h.perm rfl rfl rfl (.refl _)
      · cases hs
  | take n i =>
      simp only [NxState.next] at hs
      split at hs
      · next hworker hwork =>
        cases hs
        exact h.take hworker hwork
      · cases hs
  | worker n =>
      obtain ⟨worker, hworker, hs⟩ := Option.bind_eq_some_iff.mp hs
      exact h.trampoline hworker hok hs

theorem reachable {numWorkers numFlushers : Nat}
    (hs : (nuttxWqMachine maxItems numWorkers numFlushers).ReachableBy KeepsSlots s) :
    NxOk maxItems s :=
  hs.invariant (create maxItems numWorkers numFlushers)
    (fun _ _ _ _ h hok hstep => h.step hok hstep)

/-! ### The steps that break it -/

/-- A trampoline that returns leaves its slot allocated, with no work. -/
theorem not_accounted_of_returning (h : NxOk maxItems s) {n : Nat}
    (hreturning : s.returning n = true) (hs : s.next (.worker n) = some s') :
    ¬ s'.Accounted maxItems := by
  obtain ⟨worker, hworker, hs⟩ := Option.bind_eq_some_iff.mp hs
  rw [NxState.returning, hworker] at hreturning
  cases worker with
  | done work =>
      cases hs
      intro hacc
      have hset := filterMap_set_perm (f := NxWorker.work) (b := .idle) hworker
      have hperm : (work :: (s.queue ++ (s.workers.set n .idle).filterMap NxWorker.work)).Perm
          s.outstanding := List.perm_middle.symm.trans (hset.append_left _)
      obtain ⟨item, hitem, hallocated, -⟩ := h.used work (hperm.mem_iff.mp List.mem_cons_self)
      have hitem' : (s.wq.items.modify work.slot (fun item => { item with pending := false }))[
          work.slot]? = some { item with pending := false } := by
        rw [List.getElem?_modify_eq, hitem]
        rfl
      obtain ⟨other, hother, hslot⟩ := (hacc.allocated work.slot _ hitem').mp hallocated
      -- The slot was used once only.
      have hnodup := (hperm.map (·.slot)).nodup_iff.mpr h.slots
      rw [List.map_cons, List.nodup_cons] at hnodup
      exact hnodup.1 (List.mem_map.mpr ⟨other, hother, hslot⟩)
  | _ => cases hreturning

/-- `cancel_all` on a work that a worker has taken frees its slot, and the work goes on. -/
theorem not_accounted_of_cancelsTaken (h : NxOk maxItems s) (htaken : s.cancelsTaken = true)
    (hs : s.next .cancelNext = some s') : ¬ s'.Accounted maxItems := by
  obtain ⟨k, hk, rfl⟩ := Option.map_eq_some_iff.mp hs
  simp only [NxState.cancelsTaken, hk] at htaken
  cases hitem : s.wq.items[k]? with
  | none =>
      rw [hitem] at htaken
      cases htaken
  | some item =>
      simp only [hitem] at htaken
      obtain ⟨hpending, hqueue⟩ := Bool.and_eq_true_iff.mp htaken
      obtain ⟨work, hwork, rfl⟩ := h.free k item hitem (allocated_of_isPending hpending)
      have hworker : work ∈ s.workers.filterMap NxWorker.work := by
        rcases List.mem_append.mp hwork with hq | hw
        · have hne := List.all_eq_true.mp hqueue work hq
          simp at hne
        · exact hw
      intro hacc
      have hlt := (List.getElem?_eq_some_iff.mp hitem).1
      simp only [NxState.cancelItem, hitem, if_pos hpending] at hacc
      have hfreed := (hacc.allocated work.slot _ (List.getElem?_set_self hlt)).mpr
        ⟨work, List.mem_append_right _ hworker, rfl⟩
      cases hfreed

end NxOk

/-! ### One work after the other -/

/-- A submit, and worker 0 takes the work and finishes it. -/
def nuttxRound (func arg : Nat) : List NxAct :=
  [.submit func arg true, .take 0 0, .worker 0, .worker 0, .worker 0]

/-- As many works, each finished before the next is submitted. -/
def nuttxRounds (func arg n : Nat) : List NxAct := (List.replicate n (nuttxRound func arg)).flatten

/-- After `m` works, `m` slots are gone. -/
structure NxState.RoundsDone (maxItems func arg m : Nat) (s : NxState) : Prop where
  items : s.wq.items = List.replicate m ⟨func, arg, false, true⟩ ++
    List.replicate (maxItems - m) ⟨0, 0, false, false⟩
  valid : s.wq.valid = true
  cancelling : s.cancelling = none
  queue : s.queue = []
  workers : s.workers = [.idle]

section Rounds

variable {maxItems func arg m : Nat} {s : NxState}

/-- The slot that the next work uses. -/
theorem NxState.RoundsDone.split (h : s.RoundsDone maxItems func arg m) (hlt : m < maxItems) :
    s.wq.items = List.replicate m ⟨func, arg, false, true⟩ ++
      ⟨0, 0, false, false⟩ :: List.replicate (maxItems - (m + 1)) ⟨0, 0, false, false⟩ := by
  rw [h.items, ← List.replicate_succ]
  congr 2
  omega

theorem NxState.RoundsDone.findFree (h : s.RoundsDone maxItems func arg m) (hlt : m < maxItems) :
    s.wq.findFree = some m := by
  rw [NuttxWq.findFree, h.split hlt]
  simp [List.findIdx?_append, List.findIdx?_cons, List.findIdx?_replicate]

theorem NxState.RoundsDone.round (h : s.RoundsDone maxItems func arg m) (hfunc : func ≠ 0)
    (hlt : m < maxItems) :
    ∃ s', (nuttxWqMachine maxItems 1 0).run s (nuttxRound func arg) = some s' ∧
      s'.RoundsDone maxItems func arg (m + 1) := by
  have hfree := h.findFree hlt
  have hitems := h.split hlt
  have hset : s.wq.items.set m ⟨func, arg, true, true⟩ =
      List.replicate m ⟨func, arg, false, true⟩ ++
        ⟨func, arg, true, true⟩ :: List.replicate (maxItems - (m + 1)) ⟨0, 0, false, false⟩ := by
    rw [hitems, List.set_append_right _ _ (by simp)]
    simp
  have hget : (s.wq.items.set m ⟨func, arg, true, true⟩)[m]? = some ⟨func, arg, true, true⟩ := by
    rw [hset, List.getElem?_append_right (by simp)]
    simp
  have hsubmit : (nuttxWqMachine maxItems 1 0).step s (.submit func arg true) = some { s with
      wq := { s.wq with
        items := s.wq.items.set m ⟨func, arg, true, true⟩
        pendingCount := s.wq.pendingCount + 1 }
      queue := [⟨m, s.nextJob⟩]
      jobOf := Function.update s.jobOf m s.nextJob
      nextJob := s.nextJob + 1 } := by
    simp [nuttxWqMachine, NxState.next, NxState.submit, NuttxWq.submit, h.cancelling, hfunc,
      h.valid, hfree, h.queue]
  refine ⟨{ s with
    wq := { s.wq with
      items := (s.wq.items.set m ⟨func, arg, true, true⟩).modify m
        (fun item => { item with pending := false })
      pendingCount := s.wq.pendingCount + 1 }
    queue := []
    workers := [.idle]
    jobOf := Function.update s.jobOf m s.nextJob
    nextJob := s.nextJob + 1 }, ?_, ?_⟩
  · rw [nuttxRound, Machine.run, hsubmit]
    simp [Machine.run, nuttxWqMachine, NxState.next, NxState.setWorker, NxState.trampoline,
      NxState.clearPending, h.workers, hget, hfunc]
  · refine ⟨?_, h.valid, h.cancelling, rfl, rfl⟩
    simp only [hset]
    rw [List.modify_eq_take_cons_drop (by simp), List.replicate_succ']
    simp [List.drop_append]

theorem NxState.RoundsDone.refused (h : s.RoundsDone maxItems func arg maxItems)
    (hfunc : func ≠ 0) :
    (nuttxWqMachine maxItems 1 0).run s (nuttxRound func arg) = none := by
  have hfull : s.wq.findFree = none := by
    rw [NuttxWq.findFree, h.items, Nat.sub_self]
    simp [List.findIdx?_replicate]
  simp [nuttxRound, Machine.run, nuttxWqMachine, NxState.next, NxState.submit, NuttxWq.submit,
    h.cancelling, hfunc, h.valid, hfull, h.queue, h.workers]

theorem nuttxRounds_succ (func arg n : Nat) :
    nuttxRounds func arg (n + 1) = nuttxRound func arg ++ nuttxRounds func arg n := by
  rw [nuttxRounds, List.replicate_succ, List.flatten_cons]
  rfl

theorem NxState.RoundsDone.rounds (hfunc : func ≠ 0) {n : Nat}
    (h : s.RoundsDone maxItems func arg m) (hle : m + n ≤ maxItems) :
    ∃ s', (nuttxWqMachine maxItems 1 0).run s (nuttxRounds func arg n) = some s' ∧
      s'.RoundsDone maxItems func arg (m + n) := by
  induction n generalizing m s with
  | zero => exact ⟨s, rfl, h⟩
  | succ n ih =>
      obtain ⟨s₁, hround, h₁⟩ := h.round hfunc (by omega)
      obtain ⟨s₂, hrest, h₂⟩ := ih h₁ (by omega)
      refine ⟨s₂, ?_, by rw [show m + (n + 1) = m + 1 + n by omega]; exact h₂⟩
      rw [nuttxRounds_succ, Machine.run_append, hround]
      exact hrest

theorem NxState.roundsDone_create (maxItems func arg : Nat) :
    (NxState.create maxItems 1 0).RoundsDone maxItems func arg 0 :=
  ⟨rfl, rfl, rfl, rfl, rfl⟩

/-- As many works as there are slots, and no more. -/
theorem nuttxRounds_run_iff (maxItems arg n : Nat) (hfunc : func ≠ 0) :
    ((nuttxWqMachine maxItems 1 0).run (nuttxWqMachine maxItems 1 0).init
      (nuttxRounds func arg n)).isSome = true ↔ n ≤ maxItems := by
  constructor
  · intro hsome
    by_contra hgt
    obtain ⟨s, hrun, hdone⟩ := (NxState.roundsDone_create maxItems func arg).rounds hfunc
      (n := maxItems) (by omega)
    have hsplit : nuttxRounds func arg n = nuttxRounds func arg maxItems ++
        (nuttxRound func arg ++ nuttxRounds func arg (n - maxItems - 1)) := by
      rw [← nuttxRounds_succ, nuttxRounds, nuttxRounds, nuttxRounds, ← List.flatten_append,
        List.replicate_append_replicate]
      congr 2
      omega
    rw [Nat.zero_add] at hdone
    rw [hsplit, Machine.run_append] at hsome
    change (((nuttxWqMachine maxItems 1 0).run (NxState.create maxItems 1 0)
      (nuttxRounds func arg maxItems)).bind _).isSome = true at hsome
    rw [hrun, Option.bind_some, Machine.run_append, hdone.refused hfunc] at hsome
    cases hsome
  · intro hle
    obtain ⟨s, hrun, -⟩ := (NxState.roundsDone_create maxItems func arg).rounds hfunc
      (n := n) (by omega)
    exact Option.isSome_iff_exists.mpr ⟨s, hrun⟩

end Rounds

/-! ### The contract -/

/-- Until a trampoline returns, and as long as `cancel_all` comes only to works that no
worker has taken, the slots are accounted for; and it is these steps, and no others, that
break it. One after the other, as many works are accepted as there are slots. -/
theorem nuttxWq_slots_accounted (maxItems : Nat) :
    (∀ numWorkers numFlushers s,
      (nuttxWqMachine maxItems numWorkers numFlushers).ReachableBy KeepsSlots s →
        s.Accounted maxItems ∧
          ∀ a s', s.next a = some s' → (s'.Accounted maxItems ↔ KeepsSlots s a)) ∧
      ∀ func arg n, func ≠ 0 →
        (((nuttxWqMachine maxItems 1 0).run (nuttxWqMachine maxItems 1 0).init
          (nuttxRounds func arg n)).isSome = true ↔ n ≤ maxItems) := by
  refine ⟨fun numWorkers numFlushers s hs => ?_, fun func arg n hfunc =>
    nuttxRounds_run_iff maxItems arg n hfunc⟩
  have h := NxOk.reachable hs
  refine ⟨h.accounted, fun a s' hstep => ⟨fun hacc => ?_, fun hok => (h.step hok hstep).accounted⟩⟩
  cases a with
  | worker n =>
      by_contra hreturning
      exact h.not_accounted_of_returning (Bool.eq_true_of_not_eq_false hreturning) hstep hacc
  | cancelNext =>
      by_contra htaken
      exact h.not_accounted_of_cancelsTaken (Bool.eq_true_of_not_eq_false htaken) hstep hacc
  | _ => trivial

/-- One work is cancelled in the queue, its slot is used again, and the new work runs. -/
def nuttxReuse : List NxAct :=
  [.submit 7 1 true, .cancelAll, .cancelNext, .cancelNext, .cancelNext, .submit 8 2 true,
    .take 0 0, .worker 0]

theorem nuttxWq_slots_accounted_reused : ∃ s,
    (nuttxWqMachine 2 1 0).run (nuttxWqMachine 2 1 0).init nuttxReuse = some s ∧
      s.outstanding = [⟨0, 1⟩] ∧ s.Accounted 2 := by
  have hok : (nuttxWqMachine 2 1 0).RunOk KeepsSlots (nuttxWqMachine 2 1 0).init nuttxReuse := by
    decide +kernel
  have hview : ((nuttxWqMachine 2 1 0).run (nuttxWqMachine 2 1 0).init nuttxReuse).map
      NxState.outstanding = some [⟨0, 1⟩] := by
    decide +kernel
  obtain ⟨s, hrun, hworks⟩ := Option.map_eq_some_iff.mp hview
  have hacc := ((nuttxWq_slots_accounted 2).1 1 0 s (.of_run .init hok hrun)).1
  exact ⟨s, hrun, hworks, hacc⟩

/-- After as many works as there are slots, one after the other, nothing is outstanding and
the next submit is refused. And a work that was cancelled while it ran clears, when it
returns, the flag of the work that has its slot by then. -/
theorem nuttxWq_slots_lost :
    ((nuttxWqMachine osalNuttxMaxWorkItems 1 0).run
        (nuttxWqMachine osalNuttxMaxWorkItems 1 0).init
        (nuttxRounds 7 1 osalNuttxMaxWorkItems)).map
        (fun s => (s.outstanding, s.wq.pending, (s.wq.submit 7 1 true).1)) =
      some ([], 0, .outOfResources) ∧
    ((nuttxWqMachine 2 1 0).run (nuttxWqMachine 2 1 0).init
        [.submit 7 1 true, .take 0 0, .worker 0, .cancelAll, .cancelNext, .cancelNext,
          .cancelNext, .submit 8 2 true, .worker 0, .worker 0]).map
        (fun s => (s.outstanding, s.wq.pending, s.wq.anyPending)) =
      some ([⟨0, 1⟩], 0, false) := by
  constructor <;> decide +kernel

end MicrOsal
