import MicrOsal.EventFlags.Model

/-!
# MicrOsal.EventFlags.Table

The waiter table. Membership is stored three times: `in_use`, a bit of
`active_waiter_words`, and `waiter_count`. They change one after the other, but
only under the guard, so the invariant (`EfTable`) relates each of them to the
points the threads are at, and outside the guard they agree.
-/

namespace MicrOsal

variable {cfg : EfConfig}

/-! ### What a thread holds -/

namespace EfThread

/-- The thread holds the guard. -/
def HoldsGuard : EfThread cfg → Prop
  | .check _ _ | .report _ _ | .consume _ _ _ | .poll _ | .claim _ _ | .drain _ _ | .describe _ _
  | .openSlot _ _ | .enter _ _ | .mark _ _ | .count _ _ | .unlockSleep _ _ _ | .reopen _ _ _
  | .timeoutLoad _ _ | .releasePending _ _ _ | .releaseInUse _ _ _ | .releaseMark _ _ _
  | .releaseCount _ _ _ | .unlockReturn _ _ _ | .setUnlock | .clearAnd _ | .clearUnlock => True
  | .setOr _ isr | .setCount _ isr | .scanWord _ isr _ | .scanUse _ isr _ _ | .scanMatch _ isr _ _
  | .scanPending _ isr _ _ | .scanGive _ isr _ _ => isr = false
  | _ => False

/-- The slot the thread has claimed. -/
def slot : EfThread cfg → Option Nat
  | .check _ phase | .report _ phase | .consume _ phase _ => phase.slot
  | .drain _ i | .describe _ i | .openSlot _ i | .enter _ i | .mark _ i | .count _ i
  | .unlockSleep _ i _ | .readStart _ i | .top _ i _ | .sleep _ i _ _ | .relock _ i _
  | .reopen _ i _ | .timeoutLock _ i | .timeoutLoad _ i | .releasePending _ i _
  | .releaseInUse _ i _ | .releaseMark _ i _ | .releaseCount _ i _ => some i
  | _ => none

/-- The slot whose `in_use` the thread has set. -/
def uses : EfThread cfg → Option Nat
  | .drain _ _ | .describe _ _ | .openSlot _ _ | .enter _ _ | .releaseMark _ _ _
  | .releaseCount _ _ _ => none
  | pc => pc.slot

/-- The slot whose bit the thread has set. -/
def marks : EfThread cfg → Option Nat
  | .drain _ _ | .describe _ _ | .openSlot _ _ | .enter _ _ | .mark _ _
  | .releaseCount _ _ _ => none
  | pc => pc.slot

/-- By how much `waiter_count` still differs from the number of bits. -/
def owes : EfThread cfg → Int
  | .count _ _ => 1
  | .releaseCount _ _ _ => -1
  | _ => 0

theorem slot_of_uses {pc : EfThread cfg} {i : Nat} (h : pc.uses = some i) : pc.slot = some i := by
  cases pc with
  | drain | describe | openSlot | enter | releaseMark | releaseCount => cases h
  | _ => exact h

theorem slot_of_marks {pc : EfThread cfg} {i : Nat} (h : pc.marks = some i) : pc.slot = some i := by
  cases pc with
  | drain | describe | openSlot | enter | mark | releaseCount => cases h
  | _ => exact h

/-- Outside the guard, whoever has a slot has set its bit and its flag. -/
theorem marks_of_slot {pc : EfThread cfg} {i : Nat} (h : pc.slot = some i)
    (hout : ¬ pc.HoldsGuard) : pc.marks = some i ∧ pc.uses = some i := by
  cases pc with
  | drain | describe | openSlot | enter | mark | releaseMark | releaseCount =>
      exact absurd trivial hout
  | _ => exact ⟨h, h⟩

/-- Where a scan can be after one of its steps: over, at a word, or at a slot
of a word that has slots left. -/
inductive InScan (isr : Bool) : EfThread cfg → Prop
  | ended : InScan isr (.setEnd isr)
  | word (updated : EventBits) (word : Nat) : InScan isr (.scanWord updated isr word)
  | slot (updated : EventBits) (word : Nat) {active : BitVec cfg.wordBits} (h : active ≠ 0#_) :
      InScan isr (.scanUse updated isr word active)

theorem inScan_nextWord (updated : EventBits) (isr : Bool) (word : Nat) :
    InScan isr (nextWord updated isr word : EfThread cfg) := by
  unfold nextWord
  split
  · exact .word updated word
  · exact .ended

theorem inScan_nextSlot (updated : EventBits) (isr : Bool) (word : Nat)
    (active : BitVec cfg.wordBits) :
    InScan isr (nextSlot updated isr word active : EfThread cfg) := by
  unfold nextSlot
  split
  · exact inScan_nextWord updated isr (word + 1)
  · rename_i hne
    exact .slot updated word hne

end EfThread

/-- The count the guard's holder still owes. -/
def owed (o : EmuEfObj cfg) (ths : Nat → EfThread cfg) : Int :=
  match o.guard with
  | none => 0
  | some t => (ths t).owes

/-- What a thread that holds the guard knows about the table. -/
def TableKnows (o : EmuEfObj cfg) : EfThread cfg → Prop
  | .claim _ word =>
    ∀ i, i < cfg.maxWaiters → i < word * cfg.wordBits → slotSet o.activeWaiterWords i = true
  | .unlockReturn _ res had =>
    (res.code = .outOfResources → ∀ i, i < cfg.maxWaiters → slotSet o.activeWaiterWords i = true) ∧
      ∀ i, had = some i → o.inUse i = false ∧ slotSet o.activeWaiterWords i = false
  | .releasePending _ _ res | .releaseInUse _ _ res | .releaseMark _ _ res
  | .releaseCount _ _ res => res.code ≠ .outOfResources
  | _ => True

/-- The table invariant. -/
structure EfTable (o : EmuEfObj cfg) (ths : Nat → EfThread cfg) : Prop where
  guard : ∀ t, (ths t).HoldsGuard → o.guard = some t
  unique : ∀ t u i, (ths t).slot = some i → (ths u).slot = some i → t = u
  range : ∀ t i, (ths t).slot = some i → i < cfg.maxWaiters
  inUse : ∀ i, o.inUse i = true ↔ ∃ t, (ths t).uses = some i
  words : ∀ i, slotSet o.activeWaiterWords i = true ↔ ∃ t, (ths t).marks = some i
  count : (o.waiterCount : Int) + owed o ths = slotCount o.activeWaiterWords cfg.maxWaiters
  knows : ∀ t, TableKnows o (ths t)

/-- Nothing of the table changes between two objects. -/
structure SameTable (o o' : EmuEfObj cfg) : Prop where
  guard : o'.guard = o.guard
  inUse : o'.inUse = o.inUse
  words : o'.activeWaiterWords = o.activeWaiterWords
  count : o'.waiterCount = o.waiterCount

/-- Two points at which a thread has the same part in the table. -/
structure SameStanding (pc pc' : EfThread cfg) : Prop where
  slot : pc'.slot = pc.slot
  uses : pc'.uses = pc.uses
  marks : pc'.marks = pc.marks
  owes : pc'.owes = pc.owes

namespace EfTable

variable {o o' : EmuEfObj cfg} {ths : Nat → EfThread cfg} {t : Nat} {p pc : EfThread cfg}

/-- Membership read off the threads, after one of them moved. -/
theorem exists_update {f : EfThread cfg → Option Nat} {i : Nat} :
    (∃ u, f (Function.update ths t pc u) = some i) ↔
      f pc = some i ∨ ∃ u, u ≠ t ∧ f (ths u) = some i := by
  constructor
  · rintro ⟨u, hu⟩
    by_cases hut : u = t
    · subst hut
      rw [Function.update_self] at hu
      exact Or.inl hu
    · rw [Function.update_of_ne hut] at hu
      exact Or.inr ⟨u, hut, hu⟩
  · rintro (hpc | ⟨u, hut, hu⟩)
    · exact ⟨t, by rw [Function.update_self]; exact hpc⟩
    · exact ⟨u, by rw [Function.update_of_ne hut]; exact hu⟩

/-- Membership does not change when the moving thread's does not. -/
theorem exists_same {f : EfThread cfg → Option Nat} (hf : f pc = f (ths t)) {i : Nat} :
    (∃ u, f (Function.update ths t pc u) = some i) ↔ ∃ u, f (ths u) = some i := by
  rw [exists_update, hf]
  constructor
  · rintro (ht | ⟨u, -, hu⟩)
    · exact ⟨t, ht⟩
    · exact ⟨u, hu⟩
  · rintro ⟨u, hu⟩
    by_cases hut : u = t
    · subst hut
      exact Or.inl hu
    · exact Or.inr ⟨u, hut, hu⟩

/-- Only one thread knows anything: the others do not hold the guard. -/
theorem knows_of_not_holds {pc : EfThread cfg} (h : ¬ pc.HoldsGuard) : TableKnows o pc := by
  cases pc with
  | claim | unlockReturn | releasePending | releaseInUse | releaseMark | releaseCount =>
      exact absurd trivial h
  | _ => trivial

/-- A slot that a thread has claimed and whose bit it has not set is clear. -/
theorem clear_of_slot (h : EfTable o ths) {i : Nat} (hs : (ths t).slot = some i)
    (hm : (ths t).marks = none) : slotSet o.activeWaiterWords i = false := by
  by_contra hset
  obtain ⟨u, hu⟩ := (h.words i).mp (by simpa using hset)
  obtain rfl := h.unique u t i (EfThread.slot_of_marks hu) hs
  rw [hm] at hu
  cases hu

theorem unused_of_slot (h : EfTable o ths) {i : Nat} (hs : (ths t).slot = some i)
    (hm : (ths t).uses = none) : o.inUse i = false := by
  by_contra hset
  obtain ⟨u, hu⟩ := (h.inUse i).mp (by simpa using hset)
  obtain rfl := h.unique u t i (EfThread.slot_of_uses hu) hs
  rw [hm] at hu
  cases hu

/-- Whoever has set the flag or the bit of a slot has the slot. -/
theorem owner (h : EfTable o ths) {i : Nat}
    (hi : o.inUse i = true ∨ slotSet o.activeWaiterWords i = true) :
    ∃ t, (ths t).slot = some i := by
  rcases hi with huse | hmark
  · obtain ⟨t, ht⟩ := (h.inUse i).mp huse
    exact ⟨t, EfThread.slot_of_uses ht⟩
  · obtain ⟨t, ht⟩ := (h.words i).mp hmark
    exact ⟨t, EfThread.slot_of_marks ht⟩

/-! ### The kinds of steps -/

/-- Uniqueness and range survive when the moving thread's slot does not change. -/
theorem slots_same (h : EfTable o ths) (hslot : ∀ i, pc.slot = some i → (ths t).slot = some i) :
    (∀ u v i, (Function.update ths t pc u).slot = some i →
      (Function.update ths t pc v).slot = some i → u = v) ∧
    ∀ u i, (Function.update ths t pc u).slot = some i → i < cfg.maxWaiters := by
  have hback : ∀ u i, (Function.update ths t pc u).slot = some i → (ths u).slot = some i := by
    intro u i hu
    by_cases hut : u = t
    · subst hut
      rw [Function.update_self] at hu
      exact hslot i hu
    · rw [Function.update_of_ne hut] at hu
      exact hu
  exact ⟨fun u v i hu hv => h.unique u v i (hback u i hu) (hback v i hv),
    fun u i hu => h.range u i (hback u i hu)⟩

/-- Nobody but the mover can hold the guard while the mover does. -/
theorem guard_update (hself : pc.HoldsGuard → o'.guard = some t)
    (hother : ∀ u, u ≠ t → (ths u).HoldsGuard → o'.guard = some u) (u : Nat)
    (hu : (Function.update ths t pc u).HoldsGuard) : o'.guard = some u := by
  by_cases hut : u = t
  · subst hut
    rw [Function.update_self] at hu
    exact hself hu
  · rw [Function.update_of_ne hut] at hu
    exact hother u hut hu

theorem knows_update (hself : TableKnows o' pc)
    (hother : ∀ u, u ≠ t → TableKnows o' (ths u)) (u : Nat) :
    TableKnows o' (Function.update ths t pc u) := by
  by_cases hut : u = t
  · subst hut
    rw [Function.update_self]
    exact hself
  · rw [Function.update_of_ne hut]
    exact hother u hut

theorem knows_same {pc : EfThread cfg} (hu : o'.inUse = o.inUse)
    (hw : o'.activeWaiterWords = o.activeWaiterWords) (h : TableKnows o pc) : TableKnows o' pc := by
  cases pc with
  | claim c word =>
      simp only [TableKnows, hw] at h ⊢
      exact h
  | unlockReturn c res had =>
      simp only [TableKnows, hw, hu] at h ⊢
      exact h
  | releasePending | releaseInUse | releaseMark | releaseCount => exact h
  | _ => trivial

/-- A step that changes nothing in the table and moves between points of the
same standing. -/
theorem quiet (h : EfTable o ths) (hc : ths t = p) (hsame : SameTable o o')
    (hst : SameStanding p pc) (hheld : pc.HoldsGuard → p.HoldsGuard) (hknows : TableKnows o pc) :
    EfTable o' (Function.update ths t pc) where
  guard := guard_update (fun hpc => hsame.guard.trans (h.guard t (hc ▸ hheld hpc)))
    fun u _ hu => hsame.guard.trans (h.guard u hu)
  unique := (h.slots_same fun i hi => by rw [hc, ← hst.slot]; exact hi).1
  range := (h.slots_same fun i hi => by rw [hc, ← hst.slot]; exact hi).2
  inUse i := by rw [hsame.inUse, h.inUse, exists_same (hc ▸ hst.uses)]
  words i := by rw [hsame.words, h.words, exists_same (hc ▸ hst.marks)]
  count := by
    have howed : owed o' (Function.update ths t pc) = owed o ths := by
      unfold owed
      rw [hsame.guard]
      split
      · rfl
      · rename_i v hv
        by_cases hvt : v = t
        · rw [hvt, Function.update_self, hst.owes, hc]
        · rw [Function.update_of_ne hvt]
    rw [hsame.count, hsame.words, howed]
    exact h.count
  knows := knows_update (knows_same hsame.inUse hsame.words hknows)
    fun u _ => knows_same hsame.inUse hsame.words (h.knows u)

/-- A thread takes the guard. -/
theorem locks (h : EfTable o ths) (hc : ths t = p) (hfree : o.guard = none)
    (hst : SameStanding p pc) (howes : pc.owes = 0) (hknows : TableKnows o pc) :
    EfTable { o with guard := some t } (Function.update ths t pc) where
  guard := by
    refine guard_update (fun _ => rfl) fun u _ hu => ?_
    have := h.guard u hu
    rw [hfree] at this
    cases this
  unique := (h.slots_same fun i hi => by rw [hc, ← hst.slot]; exact hi).1
  range := (h.slots_same fun i hi => by rw [hc, ← hst.slot]; exact hi).2
  inUse i := by rw [exists_same (hc ▸ hst.uses)]; exact h.inUse i
  words i := by rw [exists_same (hc ▸ hst.marks)]; exact h.words i
  count := by
    have hold := h.count
    simp only [owed, hfree] at hold
    simp only [owed, Function.update_self, howes]
    exact hold
  knows := knows_update (knows_same rfl rfl hknows) fun u _ => knows_same rfl rfl (h.knows u)

/-- The guard's holder gives it back. -/
theorem unlocks (h : EfTable o ths) (hc : ths t = p) (hheld : p.HoldsGuard)
    (hst : SameStanding p pc) (howes : p.owes = 0) (hpc : ¬ pc.HoldsGuard) :
    EfTable { o with guard := none } (Function.update ths t pc) where
  guard := by
    refine guard_update (fun hpc' => absurd hpc' hpc) fun u hut hu => ?_
    have := (h.guard u hu).symm.trans (h.guard t (hc ▸ hheld))
    exact absurd (Option.some.inj this) hut
  unique := (h.slots_same fun i hi => by rw [hc, ← hst.slot]; exact hi).1
  range := (h.slots_same fun i hi => by rw [hc, ← hst.slot]; exact hi).2
  inUse i := by rw [exists_same (hc ▸ hst.uses)]; exact h.inUse i
  words i := by rw [exists_same (hc ▸ hst.marks)]; exact h.words i
  count := by
    have hold := h.count
    simp only [owed, h.guard t (hc ▸ hheld), hc, howes] at hold
    exact hold
  knows := knows_update (knows_of_not_holds hpc) fun u _ => knows_same rfl rfl (h.knows u)

/-- The guard's holder changes the table. -/
theorem holds (h : EfTable o ths) (hheld : (ths t).HoldsGuard) (hg : o'.guard = o.guard)
    (hslots : (∀ u v i, (Function.update ths t pc u).slot = some i →
        (Function.update ths t pc v).slot = some i → u = v) ∧
      ∀ u i, (Function.update ths t pc u).slot = some i → i < cfg.maxWaiters)
    (hin : ∀ i, o'.inUse i = true ↔ ∃ u, (Function.update ths t pc u).uses = some i)
    (hwords : ∀ i, slotSet o'.activeWaiterWords i = true ↔
      ∃ u, (Function.update ths t pc u).marks = some i)
    (hcount : (o'.waiterCount : Int) + pc.owes = slotCount o'.activeWaiterWords cfg.maxWaiters)
    (hknows : TableKnows o' pc) : EfTable o' (Function.update ths t pc) where
  guard := guard_update (fun _ => hg.trans (h.guard t hheld)) fun u _ hu => hg.trans (h.guard u hu)
  unique := hslots.1
  range := hslots.2
  inUse := hin
  words := hwords
  count := by
    simp only [owed, hg, h.guard t hheld, Function.update_self]
    exact hcount
  knows := by
    refine knows_update hknows fun u hut => knows_of_not_holds fun hu => hut ?_
    exact Option.some.inj ((h.guard u hu).symm.trans (h.guard t hheld))

/-- The holder's count, with what it owes. -/
theorem count_of_holds (h : EfTable o ths) (hheld : (ths t).HoldsGuard) :
    (o.waiterCount : Int) + (ths t).owes = slotCount o.activeWaiterWords cfg.maxWaiters := by
  have hold := h.count
  simp only [owed, h.guard t hheld] at hold
  exact hold

/-- One thread at a time holds the guard. -/
theorem holder_unique (h : EfTable o ths) {u v : Nat} (hu : (ths u).HoldsGuard)
    (hv : (ths v).HoldsGuard) : u = v :=
  Option.some.inj ((h.guard u hu).symm.trans (h.guard v hv))

/-- A waiter that owes nothing has been counted. -/
theorem counted (h : EfTable o ths) {i : Nat} (hm : (ths t).marks = some i)
    (howes : (ths t).owes = 0) : o.waiterCount ≠ 0 := by
  have hset : slotSet o.activeWaiterWords i = true := (h.words i).mpr ⟨t, hm⟩
  have hrange := h.range t i (EfThread.slot_of_marks hm)
  have hcount := h.count
  intro hzero
  rw [hzero] at hcount
  have hpos : 0 < slotCount o.activeWaiterWords cfg.maxWaiters :=
    slotCount_pos hrange hset
  -- only a holder that has marked its own slot and not counted it owes something
  unfold owed at hcount
  split at hcount
  · push_cast at hcount
    omega
  · rename_i u hu
    cases hc : ths u with
    | count c j =>
        have hmu : (ths u).marks = some j := by rw [hc]; rfl
        have hij : i ≠ j := by
          rintro rfl
          obtain rfl := h.unique t u i (EfThread.slot_of_marks hm) (EfThread.slot_of_marks hmu)
          rw [hc] at howes
          cases howes
        have htwo := slotCount_two hrange (h.range u j (EfThread.slot_of_marks hmu)) hij hset
          ((h.words j).mpr ⟨u, hmu⟩)
        rw [hc] at hcount
        simp only [EfThread.owes] at hcount
        push_cast at hcount
        omega
    | releaseCount c j res =>
        rw [hc] at hcount
        simp only [EfThread.owes] at hcount
        omega
    | _ =>
        rw [hc] at hcount
        simp only [EfThread.owes] at hcount
        omega

/-! ### The points of the scan -/

/-- A point of a scan, or after it: outside the table. -/
structure ScanPoint (isr : Bool) (pc : EfThread cfg) : Prop where
  slot : pc.slot = none
  uses : pc.uses = none
  marks : pc.marks = none
  owes : pc.owes = 0
  holds : pc.HoldsGuard → isr = false
  knows : ∀ o, TableKnows o pc

theorem scanPoint {isr : Bool} (h : pc.InScan isr) : ScanPoint isr pc := by
  cases h with
  | ended =>
      cases isr with
      | false => exact ⟨rfl, rfl, rfl, rfl, fun _ => rfl, fun _ => trivial⟩
      | true => exact ⟨rfl, rfl, rfl, rfl, fun h => absurd h id, fun _ => trivial⟩
  | word | slot => exact ⟨rfl, rfl, rfl, rfl, id, fun _ => trivial⟩

/-- A step within a scan. -/
theorem scans (h : EfTable o ths) {isr : Bool} (hc : ths t = p) (hsame : SameTable o o')
    (hfrom : SameStanding p .idle) (hheld : isr = false → p.HoldsGuard)
    (hpc : ScanPoint isr pc) : EfTable o' (Function.update ths t pc) :=
  h.quiet hc hsame ⟨hpc.slot.trans hfrom.slot, hpc.uses.trans hfrom.uses,
    hpc.marks.trans hfrom.marks, hpc.owes.trans hfrom.owes⟩
    (fun hh => hheld (hpc.holds hh)) (hpc.knows o)

end EfTable

/-! ### Claiming a slot -/

theorem EfConfig.lt_wordCount_iff (cfg : EfConfig) {k : Nat} :
    k < cfg.wordCount ↔ k * cfg.wordBits < cfg.maxWaiters := by
  have hw := cfg.wordBits_pos
  rw [EfConfig.wordCount, Nat.lt_iff_add_one_le, Nat.le_div_iff_mul_le hw, Nat.add_mul, Nat.one_mul]
  omega

/-- A slot that exists lies in one of the words. -/
theorem EfConfig.slot_word_lt (cfg : EfConfig) {i : Nat} (hi : i < cfg.maxWaiters) :
    i / cfg.wordBits < cfg.wordCount := by
  rw [cfg.lt_wordCount_iff]
  exact (Nat.div_mul_le_self i cfg.wordBits).trans_lt hi

/-- The bits of a word that stand for slots. -/
theorem EfConfig.getLsbD_activeWordMask (cfg : EfConfig) {k b : Nat} (hk : k < cfg.wordCount)
    (hb : b < cfg.wordBits) :
    (cfg.activeWordMask k).getLsbD b = decide (k * cfg.wordBits + b < cfg.maxWaiters) :=
  getLsbD_wordMask (cfg.lt_wordCount_iff.mp hk) hb

/-- The slot that `emu_ef_claim_waiter_slot` finds exists and is not set. -/
theorem EfConfig.claimed_slot (cfg : EfConfig) {words : Nat → BitVec cfg.wordBits} {k : Nat}
    (hk : k < cfg.wordCount)
    (hfree : ~~~(words k &&& cfg.activeWordMask k) &&& cfg.activeWordMask k ≠ 0#_) :
    scanSlot k (~~~(words k &&& cfg.activeWordMask k) &&& cfg.activeWordMask k) < cfg.maxWaiters ∧
      slotSet words (scanSlot k (~~~(words k &&& cfg.activeWordMask k) &&&
        cfg.activeWordMask k)) = false := by
  rw [EfConfig.activeWordMask, freeBits_masked] at hfree ⊢
  exact freeBits_slot (cfg.lt_wordCount_iff.mp hk) hfree

/-- A word without free bits has all its slots set. -/
theorem EfConfig.full_word (cfg : EfConfig) {words : Nat → BitVec cfg.wordBits} {k : Nat}
    (hk : k < cfg.wordCount)
    (hfree : ~~~(words k &&& cfg.activeWordMask k) &&& cfg.activeWordMask k = 0#_) {i : Nat}
    (hi : i < cfg.maxWaiters) (hik : i / cfg.wordBits = k) : slotSet words i = true := by
  rw [EfConfig.activeWordMask, freeBits_masked] at hfree
  exact freeBits_full cfg.wordBits_pos (cfg.lt_wordCount_iff.mp hk) hfree hi hik

namespace EfTable

variable {o o' : EmuEfObj cfg} {ths : Nat → EfThread cfg} {t : Nat} {p pc : EfThread cfg}

/-- While one thread holds the guard, whoever else has a slot has set its bit. -/
theorem other_marks (h : EfTable o ths) (hheld : (ths t).HoldsGuard) {u i : Nat} (hut : u ≠ t)
    (hu : (ths u).slot = some i) : slotSet o.activeWaiterWords i = true := by
  exact (h.words i).mpr
    ⟨u, (EfThread.marks_of_slot hu fun hu' => hut (h.holder_unique hu' hheld)).1⟩

/-- The guard's holder claims a slot whose bit is clear. -/
theorem takesSlot (h : EfTable o ths) {c : EfWait cfg} {word i : Nat} (hc : ths t = .claim c word)
    (hi : i < cfg.maxWaiters) (hclear : slotSet o.activeWaiterWords i = false) :
    EfTable o (Function.update ths t (.drain c i)) := by
  have hheld : (ths t).HoldsGuard := by rw [hc]; trivial
  have hfresh : ∀ u, u ≠ t → (ths u).slot ≠ some i := by
    intro u hut hu
    rw [h.other_marks hheld hut hu] at hclear
    cases hclear
  have hcount := h.count_of_holds hheld
  rw [hc] at hcount
  refine h.holds hheld rfl ⟨?_, ?_⟩ (fun j => ?_) (fun j => ?_) hcount trivial
  · intro u v j hu hv
    by_cases hut : u = t
    · by_cases hvt : v = t
      · rw [hut, hvt]
      · rw [hut, Function.update_self] at hu
        rw [Function.update_of_ne hvt] at hv
        obtain rfl : i = j := Option.some.inj hu
        exact absurd hv (hfresh v hvt)
    · by_cases hvt : v = t
      · rw [Function.update_of_ne hut] at hu
        rw [hvt, Function.update_self] at hv
        obtain rfl : i = j := Option.some.inj hv
        exact absurd hu (hfresh u hut)
      · rw [Function.update_of_ne hut] at hu
        rw [Function.update_of_ne hvt] at hv
        exact h.unique u v j hu hv
  · intro u j hu
    by_cases hut : u = t
    · rw [hut, Function.update_self] at hu
      cases hu
      exact hi
    · rw [Function.update_of_ne hut] at hu
      exact h.range u j hu
  · rw [exists_same (f := EfThread.uses) (by rw [hc]; rfl)]
    exact h.inUse j
  · rw [exists_same (f := EfThread.marks) (by rw [hc]; rfl)]
    exact h.words j

theorem claims (h : EfTable o ths) {c : EfWait cfg} {word clock : Nat} {timedOut : Bool}
    (hc : ths t = .claim c word) (hs : o.next t clock timedOut (.claim c word) = some (o', pc)) :
    EfTable o' (Function.update ths t pc) := by
  have hknows := h.knows t
  rw [hc] at hknows
  simp only [EmuEfObj.next] at hs
  split at hs
  · rename_i hword
    split at hs
    · rename_i hfull
      cases hs
      refine h.quiet hc ⟨rfl, rfl, rfl, rfl⟩ ⟨rfl, rfl, rfl, rfl⟩ (fun _ => trivial)
        fun i hi hlt => ?_
      by_cases hold : i < word * cfg.wordBits
      · exact hknows i hi hold
      · refine cfg.full_word hword hfull hi ?_
        rw [Nat.add_mul, Nat.one_mul] at hlt
        exact Nat.div_eq_of_lt_le (by omega) (by rw [Nat.add_mul, Nat.one_mul]; omega)
    · rename_i hfree
      cases hs
      obtain ⟨hlt, hclear⟩ := cfg.claimed_slot hword hfree
      exact h.takesSlot hc hlt hclear
  · rename_i hword
    cases hs
    refine h.quiet hc ⟨rfl, rfl, rfl, rfl⟩ ⟨rfl, rfl, rfl, rfl⟩ (fun _ => trivial)
      ⟨fun _ i hi => hknows i hi ?_, ?_⟩
    · rw [cfg.lt_wordCount_iff] at hword
      omega
    · intro i hi
      cases hi

/-- The holder changes which slots are in use or marked, and by itself only. -/
theorem retable (h : EfTable o ths) (hheld : (ths t).HoldsGuard) (hg : o'.guard = o.guard)
    (hslot : pc.slot = (ths t).slot)
    (hin : ∀ i, o'.inUse i = true ↔ pc.uses = some i ∨ ∃ u, u ≠ t ∧ (ths u).uses = some i)
    (hwords : ∀ i, slotSet o'.activeWaiterWords i = true ↔
      pc.marks = some i ∨ ∃ u, u ≠ t ∧ (ths u).marks = some i)
    (hcount : (o'.waiterCount : Int) + pc.owes = slotCount o'.activeWaiterWords cfg.maxWaiters)
    (hknows : TableKnows o' pc) : EfTable o' (Function.update ths t pc) :=
  h.holds hheld hg (h.slots_same fun _ hi => hslot ▸ hi)
    (fun i => (hin i).trans exists_update.symm) (fun i => (hwords i).trans exists_update.symm)
    hcount hknows

/-- Who else uses or marks a slot when the mover does not. -/
theorem others_iff {f : EfThread cfg → Option Nat} {p : Nat → Prop}
    (hf : ∀ i, p i ↔ ∃ u, f (ths u) = some i) (ht : f (ths t) = none) (i : Nat) :
    (∃ u, u ≠ t ∧ f (ths u) = some i) ↔ p i := by
  rw [hf]
  constructor
  · rintro ⟨u, -, hu⟩
    exact ⟨u, hu⟩
  · rintro ⟨u, hu⟩
    refine ⟨u, fun hut => ?_, hu⟩
    rw [hut, ht] at hu
    cases hu

/-- Who else uses or marks a slot when the mover has slot `j`. -/
theorem others_iff_ne {f : EfThread cfg → Option Nat} {p : Nat → Prop} {j : Nat}
    (hf : ∀ i, p i ↔ ∃ u, f (ths u) = some i)
    (hsub : ∀ u i, f (ths u) = some i → (ths u).slot = some i) (h : EfTable o ths)
    (hslot : (ths t).slot = some j) (i : Nat) :
    (∃ u, u ≠ t ∧ f (ths u) = some i) ↔ i ≠ j ∧ p i := by
  rw [hf]
  constructor
  · rintro ⟨u, hut, hu⟩
    refine ⟨?_, u, hu⟩
    rintro rfl
    exact hut (h.unique u t i (hsub u i hu) hslot)
  · rintro ⟨hij, u, hu⟩
    refine ⟨u, fun hut => hij ?_, hu⟩
    have := hsub u i hu
    rw [hut, hslot] at this
    exact (Option.some.inj this).symm

/-- `in_use` is set. -/
theorem enters (h : EfTable o ths) {c : EfWait cfg} {j : Nat} (hc : ths t = .enter c j) :
    EfTable { o with inUse := Function.update o.inUse j true }
      (Function.update ths t (.mark c j)) := by
  have hheld : (ths t).HoldsGuard := by rw [hc]; trivial
  have hcount := h.count_of_holds hheld
  rw [hc] at hcount
  refine h.retable hheld rfl (by rw [hc]; rfl) (fun i => ?_) (fun i => ?_) hcount trivial
  · rw [others_iff h.inUse (by rw [hc]; rfl)]
    show Function.update o.inUse j true i = true ↔ some j = some i ∨ _
    by_cases hij : i = j
    · subst hij
      simp
    · simp [hij, Ne.symm hij]
  · rw [others_iff h.words (by rw [hc]; rfl)]
    simp [EfThread.marks]

/-- `emu_ef_mark_waiter_active`. -/
theorem marks (h : EfTable o ths) {c : EfWait cfg} {j : Nat} (hc : ths t = .mark c j) :
    EfTable { o with activeWaiterWords := setSlot o.activeWaiterWords j }
      (Function.update ths t (.count c j)) := by
  have hheld : (ths t).HoldsGuard := by rw [hc]; trivial
  have hslot : (ths t).slot = some j := by rw [hc]; rfl
  have hclear := h.clear_of_slot hslot (by rw [hc]; rfl)
  have hcount := h.count_of_holds hheld
  rw [hc] at hcount
  refine h.retable hheld rfl (by rw [hc]; rfl) (fun i => ?_) (fun i => ?_) ?_ trivial
  · rw [others_iff_ne h.inUse (fun _ _ => EfThread.slot_of_uses) h hslot]
    have hj : o.inUse j = true := (h.inUse j).mpr ⟨t, by rw [hc]; rfl⟩
    show o.inUse i = true ↔ some j = some i ∨ _
    by_cases hij : i = j
    · subst hij
      simp [hj]
    · simp [hij, Ne.symm hij]
  · rw [others_iff h.words (by rw [hc]; rfl), slotSet_setSlot cfg.wordBits_pos]
    show (decide (i = j) || slotSet o.activeWaiterWords i) = true ↔ some j = some i ∨ _
    rw [Bool.or_eq_true, decide_eq_true_eq, Option.some.injEq, eq_comm]
  · have hnew := slotCount_setSlot cfg.wordBits_pos (h.range t j hslot) hclear
    simp only [EfThread.owes] at hcount ⊢
    rw [hnew]
    push_cast
    omega

/-- `waiter_count` is incremented. -/
theorem counts (h : EfTable o ths) {c : EfWait cfg} {j : Nat} (hc : ths t = .count c j) :
    EfTable { o with waiterCount := o.waiterCount + 1 }
      (Function.update ths t (.check c (.registered j))) := by
  have hheld : (ths t).HoldsGuard := by rw [hc]; trivial
  have hcount := h.count_of_holds hheld
  rw [hc] at hcount
  refine h.holds hheld rfl (h.slots_same fun i hi => by rw [hc]; exact hi) (fun i => ?_)
    (fun i => ?_) ?_ trivial
  · rw [exists_same (f := EfThread.uses) (by rw [hc]; rfl)]
    exact h.inUse i
  · rw [exists_same (f := EfThread.marks) (by rw [hc]; rfl)]
    exact h.words i
  · simp only [EfThread.owes] at hcount ⊢
    push_cast
    omega

/-- `release_waiter` resets `in_use`. -/
theorem leaves (h : EfTable o ths) {c : EfWait cfg} {j : Nat} {res : EfResult}
    (hc : ths t = .releaseInUse c j res) :
    EfTable { o with inUse := Function.update o.inUse j false }
      (Function.update ths t (.releaseMark c j res)) := by
  have hheld : (ths t).HoldsGuard := by rw [hc]; trivial
  have hslot : (ths t).slot = some j := by rw [hc]; rfl
  have hcount := h.count_of_holds hheld
  have hknows := h.knows t
  rw [hc] at hcount hknows
  refine h.retable hheld rfl (by rw [hc]; rfl) (fun i => ?_) (fun i => ?_) hcount hknows
  · rw [others_iff_ne h.inUse (fun _ _ => EfThread.slot_of_uses) h hslot]
    show Function.update o.inUse j false i = true ↔ none = some i ∨ _
    by_cases hij : i = j
    · subst hij
      simp
    · simp [hij]
  · rw [others_iff_ne h.words (fun _ _ => EfThread.slot_of_marks) h hslot]
    have hj : slotSet o.activeWaiterWords j = true := (h.words j).mpr ⟨t, by rw [hc]; rfl⟩
    show slotSet o.activeWaiterWords i = true ↔ some j = some i ∨ _
    by_cases hij : i = j
    · subst hij
      simp [hj]
    · simp [hij, Ne.symm hij]

/-- `emu_ef_mark_waiter_inactive`. -/
theorem unmarks (h : EfTable o ths) {c : EfWait cfg} {j : Nat} {res : EfResult}
    (hc : ths t = .releaseMark c j res) :
    EfTable { o with activeWaiterWords := clearSlot o.activeWaiterWords j }
      (Function.update ths t (.releaseCount c j res)) := by
  have hheld : (ths t).HoldsGuard := by rw [hc]; trivial
  have hslot : (ths t).slot = some j := by rw [hc]; rfl
  have hj : slotSet o.activeWaiterWords j = true := (h.words j).mpr ⟨t, by rw [hc]; rfl⟩
  have hcount := h.count_of_holds hheld
  have hknows := h.knows t
  rw [hc] at hcount hknows
  refine h.retable hheld rfl (by rw [hc]; rfl) (fun i => ?_) (fun i => ?_) ?_ hknows
  · rw [others_iff h.inUse (by rw [hc]; rfl)]
    simp [EfThread.uses]
  · rw [others_iff_ne h.words (fun _ _ => EfThread.slot_of_marks) h hslot,
      slotSet_clearSlot cfg.wordBits_pos]
    simp [EfThread.marks]
  · have hnew := slotCount_clearSlot cfg.wordBits_pos (h.range t j hslot) hj
    simp only [EfThread.owes] at hcount ⊢
    rw [← hnew] at hcount
    push_cast at hcount
    omega

/-- `waiter_count` is decremented: the slot is released. -/
theorem uncounts (h : EfTable o ths) {c : EfWait cfg} {j : Nat} {res : EfResult}
    (hc : ths t = .releaseCount c j res) :
    EfTable { o with waiterCount := o.waiterCount - 1 }
      (Function.update ths t (.unlockReturn c res (some j))) := by
  have hheld : (ths t).HoldsGuard := by rw [hc]; trivial
  have hslot : (ths t).slot = some j := by rw [hc]; rfl
  have hcount := h.count_of_holds hheld
  have hknows := h.knows t
  rw [hc] at hcount hknows
  refine h.holds hheld rfl (h.slots_same fun i hi => by cases hi) (fun i => ?_) (fun i => ?_) ?_
    ⟨fun hres => absurd hres hknows, fun i hi => ?_⟩
  · rw [exists_same (f := EfThread.uses) (by rw [hc]; rfl)]
    exact h.inUse i
  · rw [exists_same (f := EfThread.marks) (by rw [hc]; rfl)]
    exact h.words i
  · simp only [EfThread.owes] at hcount ⊢
    have hpos : 0 < o.waiterCount := by omega
    push_cast [hpos]
    omega
  · cases hi
    exact ⟨h.unused_of_slot hslot (by rw [hc]; rfl), h.clear_of_slot hslot (by rw [hc]; rfl)⟩

/-- A look at the bits ends the wait, or the waiter claims a slot or sleeps. -/
theorem checks (h : EfTable o ths) {clock : Nat} {timedOut : Bool} {c : EfWait cfg}
    {phase : EfPhase cfg} (hc : ths t = .check c phase)
    (hs : o.next t clock timedOut (.check c phase) = some (o', pc)) :
    EfTable o' (Function.update ths t pc) := by
  simp only [EmuEfObj.next] at hs
  split at hs
  · cases hs
    exact h.quiet hc ⟨rfl, rfl, rfl, rfl⟩ ⟨rfl, rfl, rfl, rfl⟩ (fun _ => trivial) trivial
  · cases hs
    cases phase with
    | quick =>
        simp only [EfThread.unmatched]
        split
        · exact h.quiet hc ⟨rfl, rfl, rfl, rfl⟩ ⟨rfl, rfl, rfl, rfl⟩ (fun _ => trivial) trivial
        · exact h.quiet hc ⟨rfl, rfl, rfl, rfl⟩ ⟨rfl, rfl, rfl, rfl⟩ (fun _ => trivial)
            fun i _ hi => by
              rw [Nat.zero_mul] at hi
              exact absurd hi (Nat.not_lt_zero i)
    | _ =>
        exact h.quiet hc ⟨rfl, rfl, rfl, rfl⟩ ⟨rfl, rfl, rfl, rfl⟩ (fun _ => trivial) trivial

/-- The reported bits are removed: without a slot the wait returns. -/
theorem consumes (h : EfTable o ths) {clock : Nat} {timedOut : Bool} {c : EfWait cfg}
    {phase : EfPhase cfg} {reported : EventBits} (hc : ths t = .consume c phase reported)
    (hs : o.next t clock timedOut (.consume c phase reported) = some (o', pc)) :
    EfTable o' (Function.update ths t pc) := by
  cases hs
  have hsame : SameTable o
      (if c.clearOnExit then { o with bits := o.bits &&& ~~~c.waitBits } else o) := by
    split <;> exact ⟨rfl, rfl, rfl, rfl⟩
  cases phase with
  | quick =>
      exact h.quiet hc hsame ⟨rfl, rfl, rfl, rfl⟩ (fun _ => trivial)
        ⟨nofun, nofun⟩
  | _ =>
      exact h.quiet hc hsame ⟨rfl, rfl, rfl, rfl⟩ (fun _ => trivial) nofun

/-- The top of the loop leaves the table alone. -/
theorem tops (h : EfTable o ths) {clock : Nat} {timedOut : Bool} {c : EfWait cfg} {slot : Nat}
    {start : Tick cfg.tickBits} (hc : ths t = .top c slot start)
    (hs : o.next t clock timedOut (.top c slot start) = some (o', pc)) :
    EfTable o' (Function.update ths t pc) := by
  simp only [EmuEfObj.next] at hs
  split at hs
  · cases hs
    exact h.quiet hc ⟨rfl, rfl, rfl, rfl⟩ ⟨rfl, rfl, rfl, rfl⟩ nofun trivial
  · split at hs
    · cases hs
      exact h.quiet hc ⟨rfl, rfl, rfl, rfl⟩ ⟨rfl, rfl, rfl, rfl⟩ nofun trivial
    · cases hs
      exact h.quiet hc ⟨rfl, rfl, rfl, rfl⟩ ⟨rfl, rfl, rfl, rfl⟩ nofun trivial

/-- So does a sleep, however it ends. -/
theorem sleeps (h : EfTable o ths) {clock : Nat} {timedOut : Bool} {c : EfWait cfg} {slot : Nat}
    {start remaining : Tick cfg.tickBits} (hc : ths t = .sleep c slot start remaining)
    (hs : o.next t clock timedOut (.sleep c slot start remaining) = some (o', pc)) :
    EfTable o' (Function.update ths t pc) := by
  simp only [EmuEfObj.next] at hs
  split at hs
  · split at hs
    · cases hs
    · cases hs
      exact h.quiet hc ⟨rfl, rfl, rfl, rfl⟩ ⟨rfl, rfl, rfl, rfl⟩ nofun trivial
  · split at hs
    · cases hs
      exact h.quiet hc ⟨rfl, rfl, rfl, rfl⟩ ⟨rfl, rfl, rfl, rfl⟩ nofun trivial
    · cases hs

/-- A setter looks for waiters. -/
theorem looksAtCount (h : EfTable o ths) {clock : Nat} {timedOut : Bool} {updated : EventBits}
    {isr : Bool} (hc : ths t = .setCount updated isr)
    (hs : o.next t clock timedOut (.setCount updated isr) = some (o', pc)) :
    EfTable o' (Function.update ths t pc) := by
  simp only [EmuEfObj.next] at hs
  split at hs
  · cases hs
    exact h.scans hc ⟨rfl, rfl, rfl, rfl⟩ ⟨rfl, rfl, rfl, rfl⟩ id (scanPoint .ended)
  · cases hs
    exact h.scans hc ⟨rfl, rfl, rfl, rfl⟩ ⟨rfl, rfl, rfl, rfl⟩ id
      (scanPoint (EfThread.inScan_nextWord _ _ _))

/-- Every step of a thread keeps the table in order. -/
theorem next (h : EfTable o ths) {clock : Nat} {timedOut : Bool}
    (hs : o.next t clock timedOut (ths t) = some (o', pc)) :
    EfTable o' (Function.update ths t pc) := by
  generalize hc : ths t = pc₀ at hs
  cases pc₀ with
  | idle => cases hs
  | lock c | relock c slot start | timeoutLock c slot =>
      simp only [EmuEfObj.next] at hs
      split at hs
      · rename_i hfree
        cases hs
        exact h.locks hc hfree ⟨rfl, rfl, rfl, rfl⟩ rfl trivial
      · cases hs
  | setLock bits | clearLock bits =>
      simp only [EmuEfObj.next] at hs
      split at hs
      · rename_i hfree
        cases hs
        exact h.locks hc hfree ⟨rfl, rfl, rfl, rfl⟩ rfl trivial
      · cases hs
  | check c phase =>
      exact h.checks hc hs
  | report c phase =>
      cases hs
      exact h.quiet hc ⟨rfl, rfl, rfl, rfl⟩ ⟨rfl, rfl, rfl, rfl⟩ (fun _ => trivial) trivial
  | consume c phase reported =>
      exact h.consumes hc hs
  | poll c =>
      cases hs
      exact h.quiet hc ⟨rfl, rfl, rfl, rfl⟩ ⟨rfl, rfl, rfl, rfl⟩ (fun _ => trivial)
        ⟨nofun, nofun⟩
  | claim c word =>
      exact h.claims hc hs
  | drain c slot | describe c slot | openSlot c slot =>
      cases hs
      exact h.quiet hc ⟨rfl, rfl, rfl, rfl⟩ ⟨rfl, rfl, rfl, rfl⟩ (fun _ => trivial) trivial
  | enter c slot =>
      cases hs
      exact h.enters hc
  | mark c slot =>
      cases hs
      exact h.marks hc
  | count c slot =>
      cases hs
      exact h.counts hc
  | unlockSleep c slot start =>
      cases start with
      | none =>
          cases hs
          exact h.unlocks hc trivial ⟨rfl, rfl, rfl, rfl⟩ rfl id
      | some start =>
          cases hs
          exact h.unlocks hc trivial ⟨rfl, rfl, rfl, rfl⟩ rfl id
  | readStart c slot =>
      cases hs
      exact h.quiet hc ⟨rfl, rfl, rfl, rfl⟩ ⟨rfl, rfl, rfl, rfl⟩ nofun trivial
  | top c slot start =>
      exact h.tops hc hs
  | sleep c slot start remaining =>
      exact h.sleeps hc hs
  | reopen c slot start =>
      cases hs
      exact h.quiet hc ⟨rfl, rfl, rfl, rfl⟩ ⟨rfl, rfl, rfl, rfl⟩ (fun _ => trivial) trivial
  | timeoutLoad c slot =>
      cases hs
      exact h.quiet hc ⟨rfl, rfl, rfl, rfl⟩ ⟨rfl, rfl, rfl, rfl⟩ (fun _ => trivial) nofun
  | releasePending c slot res =>
      have hknows := h.knows t
      rw [hc] at hknows
      cases hs
      exact h.quiet hc ⟨rfl, rfl, rfl, rfl⟩ ⟨rfl, rfl, rfl, rfl⟩ (fun _ => trivial) hknows
  | releaseInUse c slot res =>
      cases hs
      exact h.leaves hc
  | releaseMark c slot res =>
      cases hs
      exact h.unmarks hc
  | releaseCount c slot res =>
      cases hs
      exact h.uncounts hc
  | unlockReturn c res had =>
      cases hs
      exact h.unlocks hc trivial ⟨rfl, rfl, rfl, rfl⟩ rfl id
  | setOr bits isr =>
      cases hs
      exact h.scans hc ⟨rfl, rfl, rfl, rfl⟩ ⟨rfl, rfl, rfl, rfl⟩ id
        ⟨rfl, rfl, rfl, rfl, id, fun _ => trivial⟩
  | setCount updated isr =>
      exact h.looksAtCount hc hs
  | scanWord updated isr word =>
      cases hs
      exact h.scans hc ⟨rfl, rfl, rfl, rfl⟩ ⟨rfl, rfl, rfl, rfl⟩ id
        (scanPoint (EfThread.inScan_nextSlot _ _ _ _))
  | scanUse updated isr word active | scanMatch updated isr word active
  | scanPending updated isr word active =>
      simp only [EmuEfObj.next] at hs
      split at hs
      · cases hs
        exact h.scans hc ⟨rfl, rfl, rfl, rfl⟩ ⟨rfl, rfl, rfl, rfl⟩ id
          (by first
            | exact ⟨rfl, rfl, rfl, rfl, id, fun _ => trivial⟩
            | exact scanPoint (EfThread.inScan_nextSlot _ _ _ _))
      · cases hs
        exact h.scans hc ⟨rfl, rfl, rfl, rfl⟩ ⟨rfl, rfl, rfl, rfl⟩ id
          (by first
            | exact ⟨rfl, rfl, rfl, rfl, id, fun _ => trivial⟩
            | exact scanPoint (EfThread.inScan_nextSlot _ _ _ _))
  | scanGive updated isr word active =>
      cases hs
      exact h.scans hc ⟨rfl, rfl, rfl, rfl⟩ ⟨rfl, rfl, rfl, rfl⟩ id
        (scanPoint (EfThread.inScan_nextSlot _ _ _ _))
  | setUnlock | clearUnlock =>
      cases hs
      exact h.unlocks hc trivial ⟨rfl, rfl, rfl, rfl⟩ rfl id
  | clearAnd bits =>
      cases hs
      exact h.quiet hc ⟨rfl, rfl, rfl, rfl⟩ ⟨rfl, rfl, rfl, rfl⟩ (fun _ => trivial) trivial

/-- A call begins outside the table. -/
theorem begins (h : EfTable o ths) (hidle : ths t = .idle) (op : EfOp cfg) :
    EfTable o (Function.update ths t op.entry) := by
  have hentry : op.entry.slot = none ∧ op.entry.uses = none ∧ op.entry.marks = none ∧
      op.entry.owes = 0 ∧ ¬ op.entry.HoldsGuard := by
    cases op with
    | setIsr bits =>
        simp only [EfOp.entry]
        split
        · exact ⟨rfl, rfl, rfl, rfl, fun hf => by cases hf⟩
        · exact ⟨rfl, rfl, rfl, rfl, id⟩
    | _ => exact ⟨rfl, rfl, rfl, rfl, id⟩
  obtain ⟨hslot, huses, hmarks, howes, hout⟩ := hentry
  exact h.quiet hidle ⟨rfl, rfl, rfl, rfl⟩ ⟨hslot, huses, hmarks, howes⟩
    (fun hf => absurd hf hout) (knows_of_not_holds hout)

theorem fresh (cfg : EfConfig) : EfTable (osalEventFlagsCreate cfg) fun _ => .idle where
  guard t ht := absurd ht id
  unique t u i ht := by cases ht
  range t i ht := by cases ht
  inUse i := ⟨nofun, fun ⟨t, ht⟩ => (by cases ht)⟩
  words i := by
    refine ⟨fun h => ?_, fun ⟨t, ht⟩ => by cases ht⟩
    simp [slotSet, osalEventFlagsCreate] at h
  count := by simp [osalEventFlagsCreate, owed, slotCount, slotSet]
  knows t := trivial

end EfTable

/-! ### Whole runs -/

/-- What a step of the system does to the object and the threads. -/
theorem EfSys.step_cases {s s' : EfSys cfg} {a : EfAct cfg} (hs : s.step a = some s') :
    (∃ t op, a = .call t op ∧ s.threads t = .idle ∧
      s' = { s with
        threads := Function.update s.threads t op.entry
        changed := Function.update s.changed t 0 }) ∨
    (∃ t timedOut o pc, a = .step t timedOut ∧
      s.obj.next t s.clock timedOut (s.threads t) = some (o, pc) ∧
      s' = { s with
        obj := o
        threads := Function.update s.threads t pc
        changed := Function.update s.changed t (s.changed t ||| (s.obj.bits ^^^ o.bits))
        log := ((s.threads t).returns t (s.changed t)).toList ++ s.log }) ∨
    ∃ n, a = .tick n ∧ s' = { s with clock := s.clock + n } := by
  cases a with
  | call t op =>
      simp only [EfSys.step] at hs
      split at hs
      · rename_i hidle
        exact Or.inl ⟨t, op, rfl, hidle, (Option.some.inj hs).symm⟩
      · cases hs
  | step t timedOut =>
      simp only [EfSys.step] at hs
      split at hs
      · cases hs
      · rename_i o pc hnext
        exact Or.inr (Or.inl ⟨t, timedOut, o, pc, rfl, hnext, (Option.some.inj hs).symm⟩)
  | tick n => exact Or.inr (Or.inr ⟨n, rfl, (Option.some.inj hs).symm⟩)

/-- The table is in order in every reachable state. -/
theorem EfTable.reachable {s : EfSys cfg} (hs : (efMachine cfg).Reachable s) :
    EfTable s.obj s.threads := by
  refine Machine.Reachable.invariant (I := fun s => EfTable s.obj s.threads) (EfTable.fresh cfg)
    ?_ hs
  intro s a s' _ h hstep
  obtain ⟨t, op, -, hidle, rfl⟩ | ⟨t, timedOut, o, pc, -, hnext, rfl⟩ | ⟨n, -, rfl⟩ :=
    EfSys.step_cases hstep
  · exact h.begins hidle op
  · exact h.next hnext
  · exact h

/-! ### What the table says -/

namespace EfTable

variable {o : EmuEfObj cfg} {ths : Nat → EfThread cfg} {t : Nat}

/-- A bit is set for slots that exist only. -/
theorem set_lt (h : EfTable o ths) {i : Nat} (hset : slotSet o.activeWaiterWords i = true) :
    i < cfg.maxWaiters := by
  obtain ⟨u, hu⟩ := (h.words i).mp hset
  exact h.range u i (EfThread.slot_of_marks hu)

/-- Outside the guard the three copies of the table agree. -/
theorem agree (h : EfTable o ths) (hfree : o.guard = none) :
    (∀ i, o.inUse i = true ↔ slotSet o.activeWaiterWords i = true) ∧
      o.waiterCount = slotCount o.activeWaiterWords cfg.maxWaiters := by
  have hout : ∀ u, ¬ (ths u).HoldsGuard := by
    intro u hu
    have := h.guard u hu
    rw [hfree] at this
    cases this
  refine ⟨fun i => ?_, ?_⟩
  · rw [h.inUse, h.words]
    constructor
    · rintro ⟨u, hu⟩
      exact ⟨u, (EfThread.marks_of_slot (EfThread.slot_of_uses hu) (hout u)).1⟩
    · rintro ⟨u, hu⟩
      exact ⟨u, (EfThread.marks_of_slot (EfThread.slot_of_marks hu) (hout u)).2⟩
  · have hcount := h.count
    simp only [owed, hfree] at hcount
    omega

/-- A claim that failed found every slot set, and counted. -/
theorem full_of_failed (h : EfTable o ths) {c : EfWait cfg} {res : EfResult} {had : Option Nat}
    (hc : ths t = .unlockReturn c res had) (hres : res.code = .outOfResources) :
    o.waiterCount = cfg.maxWaiters := by
  have hheld : (ths t).HoldsGuard := by rw [hc]; trivial
  have hcount := h.count_of_holds hheld
  have hknows := h.knows t
  rw [hc] at hcount hknows
  rw [(slotCount_eq_iff _ _).mpr (hknows.1 hres)] at hcount
  simp only [EfThread.owes] at hcount
  omega

/-- A claim that succeeded found a slot that was not set. -/
theorem room_of_claimed (h : EfTable o ths) {c : EfWait cfg} {i : Nat} (hc : ths t = .drain c i) :
    o.waiterCount < cfg.maxWaiters := by
  have hheld : (ths t).HoldsGuard := by rw [hc]; trivial
  have hslot : (ths t).slot = some i := by rw [hc]; rfl
  have hcount := h.count_of_holds hheld
  have hclear := h.clear_of_slot hslot (by rw [hc]; rfl)
  have hlt := slotCount_setSlot cfg.wordBits_pos (h.range t i hslot) hclear
  have hle := slotCount_le (setSlot o.activeWaiterWords i) cfg.maxWaiters
  rw [hc] at hcount
  simp only [EfThread.owes] at hcount
  omega

end EfTable

/-- A step of a thread that leaves the object alone. -/
theorem EfSys.step_quiet {s : EfSys cfg} {t : Nat} (pc : EfThread cfg)
    (hnext : s.obj.next t s.clock false (s.threads t) = some (s.obj, pc)) :
    ∃ s₁, (efMachine cfg).step s (.step t false) = some s₁ ∧ s₁.obj = s.obj ∧
      s₁.threads t = pc := by
  let s₁ : EfSys cfg := { s with
    threads := Function.update s.threads t pc
    changed := Function.update s.changed t (s.changed t ||| (s.obj.bits ^^^ s.obj.bits))
    log := ((s.threads t).returns t (s.changed t)).toList ++ s.log }
  refine ⟨s₁, ?_, rfl, Function.update_self ..⟩
  show s.step (.step t false) = some s₁
  simp only [EfSys.step, hnext, s₁]

/-- The thread's own steps take a claim to its end without changing the table. -/
theorem EfSys.claim_ends {c : EfWait cfg} {t : Nat} :
    ∀ (n : Nat) {s : EfSys cfg} {word : Nat}, s.threads t = .claim c word →
      cfg.wordCount ≤ word + n →
      ∃ m s', (efMachine cfg).run s (List.replicate m (.step t false)) = some s' ∧ s'.obj = s.obj ∧
        (s'.threads t = .unlockReturn c ⟨.outOfResources, none⟩ none ∨
          ∃ i, s'.threads t = .drain c i) := by
  intro n
  induction n with
  | zero =>
      intro s word hc hle
      have hend : ¬ word < cfg.wordCount := by omega
      obtain ⟨s₁, hstep, hobj, hpc⟩ := EfSys.step_quiet (s := s) (t := t)
        (.unlockReturn c ⟨.outOfResources, none⟩ none) (by
          rw [hc]
          simp only [EmuEfObj.next, if_neg hend])
      refine ⟨1, s₁, ?_, hobj, Or.inl hpc⟩
      rw [List.replicate_one, Machine.run, hstep]
      rfl
  | succ n ih =>
      intro s word hc hle
      by_cases hword : word < cfg.wordCount
      · by_cases hfree : ~~~(s.obj.activeWaiterWords word &&& cfg.activeWordMask word) &&&
            cfg.activeWordMask word = 0#_
        · -- the word is full: go on with the next one
          obtain ⟨s₁, hstep, hobj, hpc⟩ := EfSys.step_quiet (s := s) (t := t)
            (.claim c (word + 1)) (by
              rw [hc]
              simp only [EmuEfObj.next, if_pos hword, if_pos hfree])
          obtain ⟨m, s', hrun, hobj', hend⟩ := ih hpc (by omega)
          refine ⟨m + 1, s', ?_, hobj'.trans hobj, hend⟩
          rw [List.replicate_succ, Machine.run, hstep]
          exact hrun
        · obtain ⟨s₁, hstep, hobj, hpc⟩ := EfSys.step_quiet (s := s) (t := t)
            (.drain c (scanSlot word
              (~~~(s.obj.activeWaiterWords word &&& cfg.activeWordMask word) &&&
                cfg.activeWordMask word))) (by
              rw [hc]
              simp only [EmuEfObj.next, if_pos hword, if_neg hfree])
          refine ⟨1, s₁, ?_, hobj, Or.inr ⟨_, hpc⟩⟩
          rw [List.replicate_one, Machine.run, hstep]
          rfl
      · exact ih hc (by omega)

end MicrOsal
