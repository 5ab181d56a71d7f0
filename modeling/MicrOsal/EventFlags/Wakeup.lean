import MicrOsal.EventFlags.Table

/-!
# MicrOsal.EventFlags.Wakeup

No wakeup is lost.

A waiter that has looked at the bits for the last time before it sleeps is
parked. If its predicate becomes true after that, the `fetch_or` that made it so
belongs to a `set` or `set_isr` that has not scanned the table yet; the waiter is
registered by then, so the scan cannot miss it: it finds the slot counted, marked,
in use and matching, and then either gives the semaphore or finds `wake_pending`
set, which means that somebody else gave it or is about to.

The guard plays no part in this argument, so `set_isr` needs none.
-/

namespace MicrOsal

variable {cfg : EfConfig}

/-! ### Waiters and wakers -/

namespace EfThread

/-- The slot and the wait whose predicate is stored in it. -/
def described : EfThread cfg → Option (Nat × EfWait cfg)
  | .openSlot c i | .enter c i | .mark c i | .count c i | .unlockSleep c i _ | .readStart c i
  | .top c i _ | .sleep c i _ _ | .relock c i _ | .reopen c i _ => some (i, c)
  | .check c phase => phase.slot.map fun i => (i, c)
  | _ => none

/-- The slot whose `wake_pending` has been reset, with no token taken since. -/
def opened : EfThread cfg → Option Nat
  | .enter _ i | .mark _ i | .count _ i | .check _ (.registered i) | .check _ (.reopened i _)
  | .unlockSleep _ i _ | .readStart _ i | .top _ i _ | .sleep _ i _ _ => some i
  | _ => none

/-- The slot and the wait of a thread that will not look at the bits again before
it sleeps. -/
def parked : EfThread cfg → Option (Nat × EfWait cfg)
  | .unlockSleep c i _ | .readStart c i | .top c i _ | .sleep c i _ _ => some (i, c)
  | _ => none

/-- The slot whose semaphore the thread is about to give. -/
def gives : EfThread cfg → Option Nat
  | .scanGive _ _ word active => some (scanSlot word active)
  | _ => none

/-- Slot `i` is still ahead of the scan. -/
def Ahead (i word : Nat) (active : BitVec cfg.wordBits) : Prop :=
  word < i / cfg.wordBits ∨ word = i / cfg.wordBits ∧ active.getLsbD (i % cfg.wordBits) = true

/-- The thread has ORed bits that satisfy the wait and its scan has not passed
slot `i`. -/
def Covers (c : EfWait cfg) (i : Nat) : EfThread cfg → Prop
  | .setCount updated _ => c.matched updated = true
  | .scanWord updated _ word => c.matched updated = true ∧ word ≤ i / cfg.wordBits
  | .scanUse updated _ word active | .scanMatch updated _ word active
  | .scanPending updated _ word active | .scanGive updated _ word active =>
    c.matched updated = true ∧ Ahead i word active
  | _ => False

/-- A scan that is inside a word has slots left there. -/
def ScanOk : EfThread cfg → Prop
  | .scanUse _ _ _ active | .scanMatch _ _ _ active | .scanPending _ _ _ active
  | .scanGive _ _ _ active => active ≠ 0#_
  | _ => True

theorem slot_of_opened {pc : EfThread cfg} {i : Nat} (h : pc.opened = some i) :
    pc.slot = some i := by
  cases pc with
  | check c phase =>
      cases phase with
      | registered j => exact h
      | reopened j start => exact h
      | _ => cases h
  | enter | mark | count | unlockSleep | readStart | top | sleep => exact h
  | _ => cases h

theorem slot_of_described {pc : EfThread cfg} {i : Nat} {c : EfWait cfg}
    (h : pc.described = some (i, c)) : pc.slot = some i := by
  cases pc with
  | check c' phase =>
      obtain ⟨j, hj, heq⟩ := Option.map_eq_some_iff.mp h
      obtain ⟨rfl, -⟩ := Prod.mk.inj heq
      exact hj
  | openSlot | enter | mark | count | unlockSleep | readStart | top | sleep | relock | reopen =>
      obtain ⟨rfl, -⟩ := Prod.mk.inj (Option.some.inj h)
      rfl
  | _ => cases h

theorem described_of_parked {pc : EfThread cfg} {i : Nat} {c : EfWait cfg}
    (h : pc.parked = some (i, c)) : pc.described = some (i, c) := by
  cases pc with
  | unlockSleep | readStart | top | sleep => exact h
  | _ => cases h

/-- A parked waiter is in the table: in use, marked and counted. -/
theorem registered_of_parked {pc : EfThread cfg} {i : Nat} {c : EfWait cfg}
    (h : pc.parked = some (i, c)) : pc.slot = some i ∧ pc.uses = some i ∧ pc.marks = some i ∧
      pc.owes = 0 := by
  cases pc with
  | unlockSleep | readStart | top | sleep =>
      obtain ⟨rfl, -⟩ := Prod.mk.inj (Option.some.inj h)
      exact ⟨rfl, rfl, rfl, rfl⟩
  | _ => cases h

/-- A point at which a thread neither waits nor is about to give. -/
structure Plain (pc : EfThread cfg) : Prop where
  opened : pc.opened = none
  parked : pc.parked = none
  described : pc.described = none
  scanOk : pc.ScanOk

theorem InScan.plain {isr : Bool} {pc : EfThread cfg} (h : pc.InScan isr) : Plain pc := by
  cases h with
  | ended => cases isr <;> exact ⟨rfl, rfl, rfl, trivial⟩
  | word => exact ⟨rfl, rfl, rfl, trivial⟩
  | slot _ _ hne => exact ⟨rfl, rfl, rfl, hne⟩

theorem plain_satisfied (c : EfWait cfg) (phase : EfPhase cfg) (reported : EventBits) :
    Plain (satisfied c phase reported) := by
  cases phase <;> exact ⟨rfl, rfl, rfl, trivial⟩

theorem scanOk_unmatched (c : EfWait cfg) (phase : EfPhase cfg) : (unmatched c phase).ScanOk := by
  cases phase with
  | quick =>
      simp only [unmatched]
      split <;> trivial
  | _ => trivial

end EfThread

/-! ### What one step can do -/

section Footprint

variable {o o' : EmuEfObj cfg} {t clock : Nat} {timedOut : Bool} {pc pc' : EfThread cfg}

/-- A token disappears only when the slot's owner takes it. -/
theorem next_sem (hs : o.next t clock timedOut pc = some (o', pc')) {i : Nat}
    (hi : pc.slot ≠ some i) (hsem : o.sem i = true) : o'.sem i = true := by
  cases pc <;> simp only [EmuEfObj.next] at hs <;> repeat' split at hs
  all_goals cases hs
  case drain j =>
    have hij : i ≠ j := fun h => hi (by rw [h]; rfl)
    simpa [hij] using hsem
  case sleep.isFalse.isTrue j _ _ _ _ =>
    have hij : i ≠ j := fun h => hi (by rw [h]; rfl)
    simpa [hij] using hsem
  case scanGive word active =>
    by_cases hij : i = scanSlot word active
    · simp [hij]
    · simpa [hij] using hsem
  all_goals exact hsem

/-- `wake_pending` is set only by a thread that then gives, unless it was set. -/
theorem next_pending (hs : o.next t clock timedOut pc = some (o', pc')) {i : Nat}
    (hi : pc.slot ≠ some i) (hpend : o'.wakePending i = true) :
    o.wakePending i = true ∨ pc'.gives = some i := by
  cases pc <;> simp only [EmuEfObj.next] at hs <;> repeat' split at hs
  all_goals cases hs
  case openSlot j =>
    have hij : i ≠ j := fun h => hi (by rw [h]; rfl)
    exact Or.inl (by simpa [hij] using hpend)
  case reopen j _ =>
    have hij : i ≠ j := fun h => hi (by rw [h]; rfl)
    exact Or.inl (by simpa [hij] using hpend)
  case releasePending j _ =>
    have hij : i ≠ j := fun h => hi (by rw [h]; rfl)
    exact Or.inl (by simpa [hij] using hpend)
  case scanPending.isTrue word active hold =>
    by_cases hij : i = scanSlot word active
    · exact Or.inl (by rw [hij]; exact hold)
    · exact Or.inl (by simpa [hij] using hpend)
  case scanPending.isFalse word active hold =>
    by_cases hij : i = scanSlot word active
    · exact Or.inr (by rw [hij]; rfl)
    · exact Or.inl (by simpa [hij] using hpend)
  all_goals exact Or.inl hpend

/-- A slot's predicate is stored by its owner only. -/
theorem next_describes (hs : o.next t clock timedOut pc = some (o', pc')) {i : Nat}
    (hi : pc.slot ≠ some i) : o'.waitBits i = o.waitBits i ∧ o'.waitAll i = o.waitAll i := by
  cases pc <;> simp only [EmuEfObj.next] at hs <;> repeat' split at hs
  all_goals cases hs
  case describe j =>
    have hij : i ≠ j := fun h => hi (by rw [h]; rfl)
    simp [hij]
  all_goals exact ⟨rfl, rfl⟩

/-- Whoever is about to give, gives. -/
theorem next_gives (hs : o.next t clock timedOut pc = some (o', pc')) {i : Nat}
    (hi : pc.gives = some i) : o'.sem i = true := by
  cases pc with
  | scanGive updated isr word active =>
      obtain rfl := Option.some.inj hi
      obtain ⟨rfl, -⟩ := Prod.mk.inj (Option.some.inj hs)
      simp
  | _ => cases hi

/-- A predicate that holds of fewer bits holds of more. -/
theorem EfWait.matched_mono {c : EfWait cfg} {bits bits' : EventBits} (hsub : bits &&& bits' = bits)
    (h : c.matched bits = true) : c.matched bits' = true := by
  unfold EfWait.matched waiterMatches at h ⊢
  split at h
  · rename_i hall
    rw [if_pos hall]
    simp only [decide_eq_true_eq] at h ⊢
    rw [← h, ← hsub]
    ext b
    simp only [BitVec.getElem_and]
    cases bits[b] <;> cases bits'[b] <;> simp
  · rename_i hall
    rw [if_neg hall]
    simp only [decide_eq_true_eq] at h ⊢
    intro hzero
    apply h
    rw [← hsub, BitVec.and_assoc, hzero]
    exact BitVec.and_zero

/-- A predicate becomes true only by the OR of a thread whose scan is to come. -/
theorem next_matched (hs : o.next t clock timedOut pc = some (o', pc')) {c : EfWait cfg} (i : Nat)
    (hm : c.matched o'.bits = true) : c.matched o.bits = true ∨ pc'.Covers c i := by
  have hless : ∀ x : EventBits, (o.bits &&& x) &&& o.bits = o.bits &&& x := by
    intro x
    rw [BitVec.and_comm, ← BitVec.and_assoc, BitVec.and_self]
  cases pc <;> simp only [EmuEfObj.next] at hs <;> repeat' split at hs
  all_goals cases hs
  case setOr => exact Or.inr hm
  case clearAnd => exact Or.inl (EfWait.matched_mono (hless _) hm)
  case consume.isTrue => exact Or.inl (EfWait.matched_mono (hless _) hm)
  all_goals exact Or.inl hm

/-- A step to a plain point, or between points of one wait. -/
theorem EfThread.Plain.elim_opened {pc : EfThread cfg} (h : pc.Plain) {i : Nat} {p : Prop}
    (hi : pc.opened = some i) : p := by
  rw [h.opened] at hi
  cases hi

theorem EfThread.Plain.elim_parked {pc : EfThread cfg} (h : pc.Plain) {x : Nat × EfWait cfg}
    {p : Prop} (hi : pc.parked = some x) : p := by
  rw [h.parked] at hi
  cases hi

theorem EfThread.Plain.elim_described {pc : EfThread cfg} (h : pc.Plain) {x : Nat × EfWait cfg}
    {p : Prop} (hi : pc.described = some x) : p := by
  rw [h.described] at hi
  cases hi

/-- A thread whose slot is open was there before, or has just reset
`wake_pending`. -/
theorem next_opened (hs : o.next t clock timedOut pc = some (o', pc')) {i : Nat}
    (hi : pc'.opened = some i) :
    (pc.opened = some i ∧ o'.sem i = o.sem i ∧ o'.wakePending i = o.wakePending i) ∨
      o'.wakePending i = false := by
  cases pc <;> simp only [EmuEfObj.next] at hs <;> repeat' split at hs
  all_goals cases hs
  case check.isFalse c phase _ =>
    cases phase with
    | quick =>
        simp only [EfThread.unmatched] at hi
        split at hi <;> cases hi
    | registered j => exact Or.inl ⟨hi, rfl, rfl⟩
    | woken j start => cases hi
    | reopened j start => exact Or.inl ⟨hi, rfl, rfl⟩
  case openSlot j =>
    obtain rfl := Option.some.inj hi
    exact Or.inr (by simp)
  case reopen j _ =>
    obtain rfl := Option.some.inj hi
    exact Or.inr (by simp)
  all_goals first
    | exact Or.inl ⟨hi, rfl, rfl⟩
    | exact (EfThread.plain_satisfied _ _ _).elim_opened hi
    | exact EfThread.InScan.ended.plain.elim_opened hi
    | exact (EfThread.inScan_nextWord _ _ _).plain.elim_opened hi
    | exact (EfThread.inScan_nextSlot _ _ _ _).plain.elim_opened hi
    | cases hi

/-- A parked thread was parked before, or has just seen its predicate fail. -/
theorem next_parked (hs : o.next t clock timedOut pc = some (o', pc')) {i : Nat} {c : EfWait cfg}
    (hi : pc'.parked = some (i, c)) :
    (pc.parked = some (i, c) ∧ o'.sem = o.sem ∧ o'.bits = o.bits) ∨ c.matched o'.bits = false := by
  cases pc <;> simp only [EmuEfObj.next] at hs <;> repeat' split at hs
  all_goals cases hs
  case check.isFalse c' phase hm =>
    have hm' : c'.matched o.bits = false := by simpa using hm
    cases phase with
    | quick =>
        simp only [EfThread.unmatched] at hi
        split at hi <;> cases hi
    | registered j =>
        obtain ⟨-, rfl⟩ := Prod.mk.inj (Option.some.inj hi)
        exact Or.inr hm'
    | woken j start => cases hi
    | reopened j start =>
        obtain ⟨-, rfl⟩ := Prod.mk.inj (Option.some.inj hi)
        exact Or.inr hm'
  all_goals first
    | exact Or.inl ⟨hi, rfl, rfl⟩
    | exact (EfThread.plain_satisfied _ _ _).elim_parked hi
    | exact EfThread.InScan.ended.plain.elim_parked hi
    | exact (EfThread.inScan_nextWord _ _ _).plain.elim_parked hi
    | exact (EfThread.inScan_nextSlot _ _ _ _).plain.elim_parked hi
    | cases hi

/-- A thread whose predicate is stored stored it before, or just has. -/
theorem next_described (hs : o.next t clock timedOut pc = some (o', pc')) {i : Nat}
    {c : EfWait cfg} (hi : pc'.described = some (i, c)) :
    (pc.described = some (i, c) ∧ o'.waitBits = o.waitBits ∧ o'.waitAll = o.waitAll) ∨
      o'.waitBits i = c.waitBits ∧ o'.waitAll i = c.all := by
  cases pc <;> simp only [EmuEfObj.next] at hs <;> repeat' split at hs
  all_goals cases hs
  case check.isFalse c' phase _ =>
    cases phase with
    | quick =>
        simp only [EfThread.unmatched] at hi
        split at hi <;> cases hi
    | _ => exact Or.inl ⟨hi, rfl, rfl⟩
  case describe j =>
    obtain ⟨rfl, rfl⟩ := Prod.mk.inj (Option.some.inj hi)
    exact Or.inr ⟨by simp, by simp⟩
  all_goals first
    | exact Or.inl ⟨hi, rfl, rfl⟩
    | exact (EfThread.plain_satisfied _ _ _).elim_described hi
    | exact EfThread.InScan.ended.plain.elim_described hi
    | exact (EfThread.inScan_nextWord _ _ _).plain.elim_described hi
    | exact (EfThread.inScan_nextSlot _ _ _ _).plain.elim_described hi
    | cases hi

/-- The scan's points are well formed. -/
theorem next_scanOk (hs : o.next t clock timedOut pc = some (o', pc')) (h : pc.ScanOk) :
    pc'.ScanOk := by
  cases pc <;> simp only [EmuEfObj.next] at hs <;> repeat' split at hs
  all_goals cases hs
  all_goals first
    | trivial
    | exact h
    | exact EfThread.scanOk_unmatched _ _
    | exact (EfThread.plain_satisfied _ _ _).scanOk
    | exact EfThread.InScan.ended.plain.scanOk
    | exact (EfThread.inScan_nextWord _ _ _).plain.scanOk
    | exact (EfThread.inScan_nextSlot _ _ _ _).plain.scanOk

end Footprint

/-! ### The scan does not miss a registered waiter -/

section Scan

variable {c : EfWait cfg} {i word : Nat} {updated : EventBits} {isr : Bool}
  {active : BitVec cfg.wordBits}

theorem covers_nextWord (hm : c.matched updated = true) (hi : i < cfg.maxWaiters)
    (hword : word ≤ i / cfg.wordBits) : (EfThread.nextWord updated isr word).Covers c i := by
  unfold EfThread.nextWord
  rw [if_pos (hword.trans_lt (cfg.slot_word_lt hi))]
  exact ⟨hm, hword⟩

theorem covers_nextSlot (hm : c.matched updated = true) (hi : i < cfg.maxWaiters)
    (hahead : EfThread.Ahead i word active) :
    (EfThread.nextSlot updated isr word active).Covers c i := by
  unfold EfThread.nextSlot
  split
  · rename_i hzero
    refine covers_nextWord hm hi ?_
    rcases hahead with hlt | ⟨-, hbit⟩
    · exact hlt
    · exact absurd hzero (ne_zero_of_getLsbD hbit)
  · exact ⟨hm, hahead⟩

/-- The scan is past slot `i` only once it has been at slot `i`. -/
theorem covers_skipSlot (hm : c.matched updated = true) (hi : i < cfg.maxWaiters)
    (hne : active ≠ 0#_) (hahead : EfThread.Ahead i word active)
    (hslot : scanSlot word active ≠ i) :
    (EfThread.skipSlot updated isr word active).Covers c i := by
  refine covers_nextSlot hm hi ?_
  rcases hahead with hlt | ⟨rfl, hbit⟩
  · exact Or.inl hlt
  · refine Or.inr ⟨rfl, ?_⟩
    rw [getLsbD_dropLowest hne, hbit, Bool.and_true, decide_eq_true_eq]
    intro hlow
    apply hslot
    rw [scanSlot, ← hlow, Nat.mul_comm, Nat.div_add_mod]

/-- What a scan needs to find a waiter. -/
structure Findable (o : EmuEfObj cfg) (c : EfWait cfg) (i : Nat) : Prop where
  range : i < cfg.maxWaiters
  counted : o.waiterCount ≠ 0
  marked : slotSet o.activeWaiterWords i = true
  inUse : o.inUse i = true
  waitBits : o.waitBits i = c.waitBits
  waitAll : o.waitAll i = c.all

/-- A step of a scan that covers a waiter still covers it, or gives its
semaphore, or finds `wake_pending` set. -/
theorem next_covers {o o' : EmuEfObj cfg} {t clock : Nat} {timedOut : Bool} {pc pc' : EfThread cfg}
    (hs : o.next t clock timedOut pc = some (o', pc')) (hfind : Findable o c i) (hok : pc.ScanOk)
    (hcov : pc.Covers c i) :
    pc'.Covers c i ∨ o'.sem i = true ∨ o.wakePending i = true := by
  cases pc with
  | setCount updated isr =>
      simp only [EmuEfObj.next, if_neg hfind.counted] at hs
      obtain ⟨-, rfl⟩ := Prod.mk.inj (Option.some.inj hs)
      exact Or.inl (covers_nextWord hcov hfind.range (Nat.zero_le _))
  | scanWord updated isr word =>
      obtain ⟨-, rfl⟩ := Prod.mk.inj (Option.some.inj hs)
      obtain ⟨hm, hword⟩ := hcov
      refine Or.inl (covers_nextSlot hm hfind.range ?_)
      rcases Nat.lt_or_eq_of_le hword with hlt | rfl
      · exact Or.inl hlt
      · refine Or.inr ⟨rfl, ?_⟩
        have hbit : i % cfg.wordBits < cfg.wordBits := Nat.mod_lt _ cfg.wordBits_pos
        rw [BitVec.getLsbD_and,
          cfg.getLsbD_activeWordMask (cfg.slot_word_lt hfind.range) hbit, Nat.mul_comm,
          Nat.div_add_mod, decide_eq_true hfind.range, Bool.and_true]
        exact hfind.marked
  | scanUse updated isr word active =>
      obtain ⟨hm, hahead⟩ := hcov
      simp only [EmuEfObj.next] at hs
      split at hs
      · obtain ⟨-, rfl⟩ := Prod.mk.inj (Option.some.inj hs)
        exact Or.inl ⟨hm, hahead⟩
      · rename_i huse
        obtain ⟨-, rfl⟩ := Prod.mk.inj (Option.some.inj hs)
        refine Or.inl (covers_skipSlot hm hfind.range hok hahead ?_)
        rintro hslot
        rw [hslot] at huse
        exact huse hfind.inUse
  | scanMatch updated isr word active =>
      obtain ⟨hm, hahead⟩ := hcov
      simp only [EmuEfObj.next] at hs
      split at hs
      · obtain ⟨-, rfl⟩ := Prod.mk.inj (Option.some.inj hs)
        exact Or.inl ⟨hm, hahead⟩
      · rename_i hmatch
        obtain ⟨-, rfl⟩ := Prod.mk.inj (Option.some.inj hs)
        refine Or.inl (covers_skipSlot hm hfind.range hok hahead ?_)
        rintro hslot
        rw [hslot, hfind.waitBits, hfind.waitAll] at hmatch
        exact hmatch hm
  | scanPending updated isr word active =>
      obtain ⟨hm, hahead⟩ := hcov
      simp only [EmuEfObj.next] at hs
      split at hs
      · rename_i hold
        obtain ⟨-, rfl⟩ := Prod.mk.inj (Option.some.inj hs)
        by_cases hslot : scanSlot word active = i
        · rw [hslot] at hold
          exact Or.inr (Or.inr hold)
        · exact Or.inl (covers_skipSlot hm hfind.range hok hahead hslot)
      · obtain ⟨-, rfl⟩ := Prod.mk.inj (Option.some.inj hs)
        exact Or.inl ⟨hm, hahead⟩
  | scanGive updated isr word active =>
      obtain ⟨hm, hahead⟩ := hcov
      obtain ⟨rfl, rfl⟩ := Prod.mk.inj (Option.some.inj hs)
      by_cases hslot : scanSlot word active = i
      · exact Or.inr (Or.inl (by simp [hslot]))
      · exact Or.inl (covers_skipSlot hm hfind.range hok hahead hslot)
  | _ => exact absurd hcov id

end Scan

/-! ### The invariant -/

/-- Somebody is about to wake the slot's owner. -/
def Wakes (o : EmuEfObj cfg) (ths : Nat → EfThread cfg) (i : Nat) : Prop :=
  o.sem i = true ∨ ∃ u, (ths u).gives = some i

/-- The wakeup invariant. -/
structure EfWake (o : EmuEfObj cfg) (ths : Nat → EfThread cfg) : Prop where
  described : ∀ t i c, (ths t).described = some (i, c) →
    o.waitBits i = c.waitBits ∧ o.waitAll i = c.all
  scanOk : ∀ t, (ths t).ScanOk
  pending : ∀ t i, (ths t).opened = some i → o.wakePending i = true → Wakes o ths i
  parked : ∀ t i c, (ths t).parked = some (i, c) → c.matched o.bits = true →
    Wakes o ths i ∨ ∃ u, (ths u).Covers c i

namespace EfWake

variable {o o' : EmuEfObj cfg} {ths : Nat → EfThread cfg} {t clock : Nat} {timedOut : Bool}
  {pc : EfThread cfg}

/-- A parked waiter can be found by every scan. -/
theorem findable (htab : EfTable o ths) (h : EfWake o ths) {v i : Nat} {c : EfWait cfg}
    (hv : (ths v).parked = some (i, c)) : Findable o c i := by
  obtain ⟨hslot, huses, hmarks, howes⟩ := EfThread.registered_of_parked hv
  obtain ⟨hbits, hall⟩ := h.described v i c (EfThread.described_of_parked hv)
  exact ⟨htab.range v i hslot, htab.counted hmarks howes, (htab.words i).mpr ⟨v, hmarks⟩,
    (htab.inUse i).mpr ⟨v, huses⟩, hbits, hall⟩

/-- Somebody who is about to wake a slot's owner stays so, or has done it. -/
theorem wakes_next (hs : o.next t clock timedOut (ths t) = some (o', pc)) {i : Nat}
    (hsem : o.sem i = true → o'.sem i = true) (h : Wakes o ths i) :
    Wakes o' (Function.update ths t pc) i := by
  rcases h with h | ⟨u, hu⟩
  · exact Or.inl (hsem h)
  · by_cases hut : u = t
    · subst hut
      exact Or.inl (next_gives hs hu)
    · exact Or.inr ⟨u, by rw [Function.update_of_ne hut]; exact hu⟩

theorem covers_other {u i : Nat} {c : EfWait cfg} (hut : u ≠ t) (hu : (ths u).Covers c i) :
    ∃ u, (Function.update ths t pc u).Covers c i :=
  ⟨u, by rw [Function.update_of_ne hut]; exact hu⟩

theorem opened_of_parked {pc : EfThread cfg} {i : Nat} {c : EfWait cfg}
    (h : pc.parked = some (i, c)) : pc.opened = some i ∧ ¬ pc.Covers c i := by
  cases pc with
  | unlockSleep | readStart | top | sleep =>
      obtain ⟨rfl, -⟩ := Prod.mk.inj (Option.some.inj h)
      exact ⟨rfl, id⟩
  | _ => cases h

/-- Nobody but the owner has its slot. -/
theorem slot_other (htab : EfTable o ths) {v i : Nat} (hvt : v ≠ t)
    (hv : (ths v).slot = some i) : (ths t).slot ≠ some i :=
  fun ht => hvt (htab.unique v t i hv ht)

/-- Every step of a thread keeps the wakeup invariant. -/
theorem next (htab : EfTable o ths) (h : EfWake o ths)
    (hs : o.next t clock timedOut (ths t) = some (o', pc)) :
    EfWake o' (Function.update ths t pc) := by
  refine ⟨fun v i c hv => ?_, fun v => ?_, fun v i hv hpend => ?_, fun v i c hv hm => ?_⟩
  · by_cases hvt : v = t
    · subst hvt
      rw [Function.update_self] at hv
      rcases next_described hs hv with ⟨hold, hbits, hall⟩ | hnew
      · rw [hbits, hall]
        exact h.described v i c hold
      · exact hnew
    · rw [Function.update_of_ne hvt] at hv
      have hslot := slot_other htab hvt (EfThread.slot_of_described hv)
      obtain ⟨hbits, hall⟩ := next_describes hs hslot
      rw [hbits, hall]
      exact h.described v i c hv
  · by_cases hvt : v = t
    · subst hvt
      rw [Function.update_self]
      exact next_scanOk hs (h.scanOk v)
    · rw [Function.update_of_ne hvt]
      exact h.scanOk v
  · by_cases hvt : v = t
    · subst hvt
      rw [Function.update_self] at hv
      rcases next_opened hs hv with ⟨hold, hsem, hsame⟩ | hnew
      · refine wakes_next hs (fun hsem' => hsem.trans hsem') (h.pending v i hold ?_)
        rw [← hsame]
        exact hpend
      · rw [hnew] at hpend
        cases hpend
    · rw [Function.update_of_ne hvt] at hv
      have hslot := slot_other htab hvt (EfThread.slot_of_opened hv)
      rcases next_pending hs hslot hpend with hold | hgives
      · exact wakes_next hs (next_sem hs hslot) (h.pending v i hv hold)
      · exact Or.inr ⟨t, by rw [Function.update_self]; exact hgives⟩
  · by_cases hvt : v = t
    · subst hvt
      rw [Function.update_self] at hv
      rcases next_parked hs hv with ⟨hold, hsem, hbits⟩ | hnot
      · rw [hbits] at hm
        rcases h.parked v i c hold hm with hw | ⟨u, hu⟩
        · exact Or.inl (wakes_next hs (fun hsem' => by rw [hsem]; exact hsem') hw)
        · refine Or.inr (covers_other (fun huv => ?_) hu)
          subst huv
          exact (opened_of_parked hold).2 hu
      · rw [hnot] at hm
        cases hm
    · rw [Function.update_of_ne hvt] at hv
      have hopen := (opened_of_parked hv).1
      have hslot := slot_other htab hvt (EfThread.slot_of_opened hopen)
      have hkeep := fun hw => wakes_next (i := i) hs (next_sem hs hslot) hw
      rcases next_matched hs i hm with hold | hcov
      · rcases h.parked v i c hv hold with hw | ⟨u, hu⟩
        · exact Or.inl (hkeep hw)
        · by_cases hut : u = t
          · subst hut
            rcases next_covers hs (findable htab h hv) (h.scanOk u) hu with hcov | hsem | hpend
            · exact Or.inr ⟨u, by rw [Function.update_self]; exact hcov⟩
            · exact Or.inl (Or.inl hsem)
            · exact Or.inl (hkeep (h.pending v i hopen hpend))
          · exact Or.inr (covers_other hut hu)
      · exact Or.inr ⟨t, by rw [Function.update_self]; exact hcov⟩

/-- A call begins outside the table. -/
theorem begins (h : EfWake o ths) (hidle : ths t = .idle) (op : EfOp cfg) :
    EfWake o (Function.update ths t op.entry) := by
  have hplain : op.entry.Plain := by
    cases op with
    | setIsr bits =>
        simp only [EfOp.entry]
        split <;> exact ⟨rfl, rfl, rfl, trivial⟩
    | _ => exact ⟨rfl, rfl, rfl, trivial⟩
  have hback : ∀ {α : Type} {f : EfThread cfg → Option α}, f op.entry = none →
      ∀ {v x}, f (Function.update ths t op.entry v) = some x → f (ths v) = some x := by
    intro α f hnone v x hv
    by_cases hvt : v = t
    · rw [hvt, Function.update_self, hnone] at hv
      cases hv
    · rwa [Function.update_of_ne hvt] at hv
  have hgives : ∀ {i}, Wakes o ths i → Wakes o (Function.update ths t op.entry) i := by
    rintro i (hsem | ⟨u, hu⟩)
    · exact Or.inl hsem
    · refine Or.inr ⟨u, ?_⟩
      rw [Function.update_of_ne]
      · exact hu
      · rintro rfl
        rw [hidle] at hu
        cases hu
  refine ⟨fun v i c hv => h.described v i c (hback hplain.described hv), fun v => ?_,
    fun v i hv hp => hgives (h.pending v i (hback hplain.opened hv) hp), fun v i c hv hm => ?_⟩
  · by_cases hvt : v = t
    · rw [hvt, Function.update_self]
      exact hplain.scanOk
    · rw [Function.update_of_ne hvt]
      exact h.scanOk v
  · rcases h.parked v i c (hback hplain.parked hv) hm with hw | ⟨u, hu⟩
    · exact Or.inl (hgives hw)
    · refine Or.inr (covers_other (fun hut => ?_) hu)
      rw [hut, hidle] at hu
      exact hu

theorem fresh (cfg : EfConfig) : EfWake (osalEventFlagsCreate cfg) fun _ => .idle :=
  ⟨nofun, fun _ => trivial, nofun, nofun⟩

end EfWake

/-! ### No lost wakeup -/

/-- The wakeup invariant holds in every reachable state. -/
theorem EfWake.reachable {s : EfSys cfg} (hs : (efMachine cfg).Reachable s) :
    EfWake s.obj s.threads := by
  refine Machine.Reachable.invariant (I := fun s => EfWake s.obj s.threads) (EfWake.fresh cfg) ?_ hs
  intro s a s' hr h hstep
  obtain ⟨t, op, -, hidle, rfl⟩ | ⟨t, timedOut, o, pc, -, hnext, rfl⟩ | ⟨n, -, rfl⟩ :=
    EfSys.step_cases hstep
  · exact h.begins hidle op
  · exact h.next (EfTable.reachable hr) hnext
  · exact h

/-- In every reachable state, for a waiter blocked in `semaphore_take`: if its
predicate is true of the bits, its semaphore holds a token, or some `set` or
`set_isr` is between the exchange of the slot's `wake_pending` and its give, or
some `set` or `set_isr` has ORed bits that make the predicate true and has not
finished its scan; and if `wake_pending` is set, one of the first two holds. -/
theorem eventFlags_no_lost_wakeup {s : EfSys cfg} (hs : (efMachine cfg).Reachable s) {t : Nat}
    {c : EfWait cfg} {slot : Nat} {start remaining : Tick cfg.tickBits}
    (hsleep : s.threads t = .sleep c slot start remaining) :
    (c.matched s.obj.bits = true →
      s.obj.sem slot = true ∨ (∃ u, (s.threads u).gives = some slot) ∨
        ∃ u, (s.threads u).Covers c slot) ∧
    (s.obj.wakePending slot = true →
      s.obj.sem slot = true ∨ ∃ u, (s.threads u).gives = some slot) := by
  have h := EfWake.reachable hs
  refine ⟨fun hm => ?_, fun hp => h.pending t slot (by rw [hsleep]; rfl) hp⟩
  rcases h.parked t slot c (by rw [hsleep]; rfl) hm with (hsem | hgive) | hcov
  · exact Or.inl hsem
  · exact Or.inr (Or.inl hgive)
  · exact Or.inr (Or.inr hcov)

/-- The slot of a blocked waiter, and whether its predicate is true. -/
def EfSys.asleep (s : EfSys cfg) (t : Nat) : Option (Nat × Bool) :=
  match s.threads t with
  | .sleep c slot _ _ => some (slot, c.matched s.obj.bits)
  | _ => none

/-- A waiter sleeps on bit 0; `set_isr` has set it and not looked for waiters yet. -/
theorem eventFlags_no_lost_wakeup_isr :
    ∃ (cfg : EfConfig) (s : EfSys cfg) (c : EfWait cfg) (slot : Nat), (efMachine cfg).Reachable s ∧
      c.matched s.obj.bits = true ∧
      (s.obj.sem slot = true ∨ (∃ u, (s.threads u).gives = some slot) ∨
        ∃ u, (s.threads u).Covers c slot) := by
  let cfg : EfConfig := ⟨9, 8, by decide, 16, true⟩
  let schedule : List (EfAct cfg) :=
    EfAct.call 0 (.wait ⟨1, true, true, false, waitForever⟩) ::
        List.replicate 13 (EfAct.step 0 false) ++
      ([.call 1 (.setIsr 1), .step 1 false] : List (EfAct cfg))
  have hview : ((efMachine cfg).run (EfSys.fresh cfg) schedule).map (fun s => s.asleep 0) =
      some (some (0, true)) := by
    decide +kernel
  obtain ⟨s, hrun, hres⟩ := Option.map_eq_some_iff.mp hview
  have hs := Machine.Reachable.of_run hrun
  unfold EfSys.asleep at hres
  split at hres
  · rename_i c slot start remaining hsleep
    obtain ⟨-, hm⟩ := Prod.mk.inj (Option.some.inj hres)
    exact ⟨cfg, s, c, slot, hs, hm, (eventFlags_no_lost_wakeup hs hsleep).1 hm⟩
  · cases hres

end MicrOsal
