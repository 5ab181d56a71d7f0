import MicrOsal.MemoryPool.Model
import MicrOsal.Lib.Tally

/-!
# MicrOsal.MemoryPool.Blocks

The three counts of free blocks agree, and the blocks that have been handed out do not
overlap.

`Layout` is what `osal_memory_pool_create` has checked and no operation changes.
`bitmapAlloc_spec`, `isAllocated_eq` and `bitmapFree_spec` say in terms of blocks what the
operations on words do, and `blockIndex_eq_some` that the address checks of `deallocate`
recognise exactly the addresses of blocks. `MpInv` is then kept by every step.
-/

namespace MicrOsal

namespace EmulatedPoolObj

/-- What is fixed when the pool is created over a buffer of `bufBytes` bytes. -/
structure Layout (bufBytes : Nat) (p : EmulatedPoolObj) : Prop where
  buffer : p.buffer ≠ 0
  blockSize : 0 < p.blockSize
  inside : p.blockCount * p.blockSize ≤ bufBytes
  noWrap : bufBytes < sizeModulus
  words : p.bitmapWords = (p.blockCount + 31) / 32
  semMax : p.semMax = p.blockCount

/-- The zero bits among the first `block_count` bits of the bitmap. -/
def freeBlocks (p : EmulatedPoolObj) : Nat := clearCount p.bitmap p.blockCount

variable {p : EmulatedPoolObj} {bufBytes : Nat}

/-! ### Words and blocks -/

theorem bitmapWordMask_eq (p : EmulatedPoolObj) {word : Nat} (h : word * 32 < p.blockCount) :
    p.bitmapWordMask word = wordMask 32 p.blockCount word := by
  have hone : (0xFFFFFFFF#32) = BitVec.allOnes 32 := by decide
  simp only [bitmapWordMask, wordMask, hone]
  by_cases hfull : word * 32 + 32 ≤ p.blockCount
  · rw [if_pos (by omega), if_pos hfull]
  · rw [if_neg (by omega), if_neg hfull]

theorem Layout.lt_words_iff (hl : p.Layout bufBytes) {word : Nat} :
    word < p.bitmapWords ↔ word * 32 < p.blockCount := by
  rw [hl.words]
  omega

/-- With a free block left, `pool_bitmap_alloc` finds one. -/
theorem bitmapAlloc_spec (hl : p.Layout bufBytes) (hfree : 0 < p.freeBlocks) :
    ∃ i, i < p.blockCount ∧ slotSet p.bitmap i = false ∧
      p.bitmapAlloc = (i, { p with
        bitmap := setSlot p.bitmap i
        available := sizeDecr p.available }) := by
  -- some word has a free block, so the search does not end without one
  obtain ⟨i, hlt, hclear⟩ := exists_clear hfree
  have hword : i / 32 < p.bitmapWords := by
    rw [hl.lt_words_iff]
    omega
  have hmask : ∀ word, word < p.bitmapWords →
      p.freeMask word = freeBits p.bitmap p.blockCount word := by
    intro word hw
    rw [freeMask, freeBits, p.bitmapWordMask_eq (hl.lt_words_iff.mp hw)]
  have hsome : ((List.range p.bitmapWords).find?
      (fun word => decide (p.freeMask word ≠ 0#32))).isSome := by
    rw [List.find?_isSome]
    refine ⟨i / 32, List.mem_range.mpr hword, decide_eq_true fun hzero => ?_⟩
    rw [hmask _ hword] at hzero
    have hset := freeBits_full (by decide) (hl.lt_words_iff.mp hword) hzero hlt rfl
    rw [hset] at hclear
    cases hclear
  obtain ⟨word, hfind⟩ := Option.isSome_iff_exists.mp hsome
  have hw : word < p.bitmapWords := List.mem_range.mp (List.mem_of_find?_eq_some hfind)
  have hne : p.freeMask word ≠ 0#32 := by simpa using List.find?_some hfind
  rw [hmask word hw] at hne
  obtain ⟨hrange, hzero⟩ := freeBits_slot (hl.lt_words_iff.mp hw) hne
  refine ⟨_, hrange, hzero, ?_⟩
  obtain ⟨hdiv, hmod⟩ := slot_div_mod (k := word) (ctz_lt hne)
  simp only [bitmapAlloc, hfind, hmask word hw, setSlot, slotMask, hdiv, hmod]

/-- The bit that is tested for a double free. -/
theorem isAllocated_eq (p : EmulatedPoolObj) (idx : Nat) :
    p.isAllocated idx = slotSet p.bitmap idx := by
  have hmask := getLsbD_slotMask (w := 32) (by decide) idx
  have hidx : idx % 32 < 32 := Nat.mod_lt idx (by decide)
  rw [isAllocated, slotSet, ← slotMask]
  cases hbit : (p.bitmap (idx / 32)).getLsbD (idx % 32) with
  | true =>
      refine decide_eq_true (ne_zero_of_getLsbD (b := idx % 32) ?_)
      rw [BitVec.getLsbD_and, hbit, hmask, decide_eq_true rfl, Bool.and_self]
  | false =>
      refine decide_eq_false (not_not_intro ?_)
      apply BitVec.eq_of_getLsbD_eq
      intro b _
      rw [BitVec.getLsbD_and, hmask, BitVec.getLsbD_zero]
      by_cases heq : b = idx % 32
      · rw [heq, hbit, Bool.false_and]
      · rw [decide_eq_false heq, Bool.and_false]

/-! ### Addresses -/

theorem address_inj (hl : p.Layout bufBytes) {i j : Nat} (h : p.address i = p.address j) : i = j :=
  Nat.eq_of_mul_eq_mul_right hl.blockSize (Nat.add_left_cancel h)

/-- The checks of `deallocate` pass exactly for the address of a block. -/
theorem blockIndex_eq_some (hl : p.Layout bufBytes) {block idx : Nat} :
    p.blockIndex block = some idx ↔ idx < p.blockCount ∧ block = p.address idx := by
  have hbuf := hl.buffer
  have hbytes : p.blockCount * p.blockSize % sizeModulus = p.blockCount * p.blockSize :=
    Nat.mod_eq_of_lt (hl.inside.trans_lt hl.noWrap)
  simp only [blockIndex, hbytes, address]
  constructor
  · intro h
    split at h
    · cases h
    · split at h
      · cases h
      · rename_i hrange
        split at h
        · cases h
        · rename_i hmod
          obtain rfl := Option.some.inj h
          rw [not_or, Nat.not_lt, Nat.not_le] at hrange
          refine ⟨Nat.div_lt_of_lt_mul (by rw [Nat.mul_comm]; exact hrange.2), ?_⟩
          rw [Nat.div_mul_cancel (Nat.dvd_of_mod_eq_zero (not_not.mp hmod))]
          omega
  · rintro ⟨hidx, rfl⟩
    have hlt : idx * p.blockSize < p.blockCount * p.blockSize :=
      Nat.mul_lt_mul_of_pos_right hidx hl.blockSize
    rw [if_neg (by omega), Nat.add_sub_cancel_left, if_neg (by omega),
      if_neg (by rw [Nat.mul_mod_left]; exact not_not_intro rfl), Nat.mul_div_cancel _ hl.blockSize]

/-- What `osal_memory_pool_create` hands out. -/
theorem layout_of_create {cfg : MpConfig} {buffer blockSize blockCount : Nat}
    {acquired mutexCreated semCreated : Bool} (hbytes : bufBytes < sizeModulus / 2)
    (h : osalMemoryPoolCreate cfg buffer bufBytes blockSize blockCount acquired mutexCreated
      semCreated = (.ok, some p)) :
    p.Layout bufBytes ∧
      (p.buffer = buffer ∧ p.blockSize = blockSize ∧ p.blockCount = blockCount) ∧
      p.bitmap = (fun _ => 0) ∧ p.available = p.blockCount ∧ p.sem = p.blockCount := by
  have hcfg := cfg.fits
  have hbound : bufBytes + 31 < sizeModulus := by
    unfold sizeModulus at hbytes ⊢
    omega
  unfold osalMemoryPoolCreate at h
  split at h
  · cases h
  · rename_i hargs
    rw [not_or, not_or] at hargs
    split at h
    · cases h
    · rename_i hcount
      split at h
      · cases h
      · have hpos : 0 < blockSize := Nat.pos_of_ne_zero hargs.2.1
        have hinside : blockCount * blockSize ≤ bufBytes :=
          (Nat.le_div_iff_mul_le hpos).mp (Nat.not_lt.mp hcount)
        have hle : blockCount ≤ bufBytes :=
          (Nat.le_mul_of_pos_right _ hpos).trans hinside
        rw [Nat.mod_eq_of_lt (show blockCount + 31 < sizeModulus by omega)] at h
        dsimp only at h
        split at h
        · cases h
        · rename_i hwords
          rw [MpConfig.bitmapWords] at hwords
          split at h
          · cases h
          · split at h
            · cases h
            · have hsmall : blockCount < 2 ^ 32 := by omega
              obtain rfl := Option.some.inj (Prod.mk.inj h).2
              have hmod := Nat.mod_eq_of_lt hsmall
              exact ⟨⟨hargs.1, hpos, hinside, by omega, rfl, hmod⟩, ⟨rfl, rfl, rfl⟩, rfl, rfl, hmod⟩

end EmulatedPoolObj

/-! ### The invariant -/

/-- The token that a thread has taken, or has not given yet. -/
def MpThread.token : MpThread → Nat
  | .claim | .give => 1
  | _ => 0

/-- What a thread's place says about the pool. -/
def MpThread.Ok (p : EmulatedPoolObj) : MpThread → Prop
  | .giveBack => False
  | .free block idx => idx < p.blockCount ∧ block = p.address idx
  | _ => True

/-- What `deallocate` owes its caller. -/
structure MpFree.Right (r : MpFree) : Prop where
  ok : r.code = .ok ↔ r.wasLive = true
  refused : r.code ≠ .ok → r.code = .invalidArgument ∧ r.after = r.before

/-- The pool was created as `p₀`, over a buffer of `bufBytes` bytes. -/
structure MpInv (p₀ : EmulatedPoolObj) (bufBytes : Nat) (s : MpState) : Prop where
  layout : s.pool.Layout bufBytes
  buffer : s.pool.buffer = p₀.buffer
  blockSize : s.pool.blockSize = p₀.blockSize
  blockCount : s.pool.blockCount = p₀.blockCount
  available : s.pool.available = s.pool.freeBlocks
  balance : s.pool.sem + tally MpThread.token s.threads = s.pool.available
  threads : ∀ (n : Nat) (th : MpThread), s.threads[n]? = some th → th.Ok s.pool
  nodup : s.live.Nodup
  live : ∀ a, a ∈ s.live ↔
    ∃ i, i < s.pool.blockCount ∧ slotSet s.pool.bitmap i = true ∧ a = s.pool.address i
  frees : ∀ r ∈ s.frees, r.Right

namespace MpInv

open EmulatedPoolObj

variable {p₀ p' : EmulatedPoolObj} {bufBytes n : Nat} {s : MpState} {th th' : MpThread}

/-- The threads after one of them has moved, over a pool with the same blocks. -/
theorem threads_set (h : MpInv p₀ bufBytes s) (hth' : th'.Ok p')
    (hsame : p'.blockCount = s.pool.blockCount ∧ p'.buffer = s.pool.buffer ∧
      p'.blockSize = s.pool.blockSize) (m : Nat) (thm : MpThread)
    (hm : (s.threads.set n th')[m]? = some thm) : thm.Ok p' := by
  rcases getElem?_set_cases hm with ⟨-, rfl⟩ | ⟨-, hold⟩
  · exact hth'
  · have hok := h.threads m thm hold
    cases thm with
    | giveBack => exact hok
    | free block idx =>
        simp only [MpThread.Ok, address, hsame] at hok ⊢
        exact hok
    | _ => trivial

/-- A step that concerns the semaphore and one thread only. -/
theorem sem (h : MpInv p₀ bufBytes s) (hth : s.threads[n]? = some th) (hth' : th'.Ok s.pool)
    {count : Nat} (hcount : count + th'.token = s.pool.sem + th.token) :
    MpInv p₀ bufBytes ({ s with pool := { s.pool with sem := count } }.setThread n th') := by
  have hset := tally_set (f := MpThread.token) (b := th') hth
  have hbal := h.balance
  refine ⟨⟨h.layout.buffer, h.layout.blockSize, h.layout.inside, h.layout.noWrap, h.layout.words,
    h.layout.semMax⟩, h.buffer, h.blockSize, h.blockCount, h.available, ?_,
    h.threads_set (by cases th' <;> exact hth') ⟨rfl, rfl, rfl⟩, h.nodup, h.live, h.frees⟩
  show count + tally _ (s.threads.set n th') = s.pool.available
  omega

/-- A step that changes one thread only. -/
theorem thread (h : MpInv p₀ bufBytes s) (hth : s.threads[n]? = some th) (hth' : th'.Ok s.pool)
    (htoken : th'.token = th.token) : MpInv p₀ bufBytes (s.setThread n th') :=
  h.sem hth hth' (by rw [htoken])

theorem tryTake (h : MpInv p₀ bufBytes s) (hth : s.threads[n]? = some th)
    (htoken : th.token = 0) : MpInv p₀ bufBytes (s.tryTake n) := by
  unfold MpState.tryTake
  split
  · exact h.thread hth trivial htoken.symm
  · rename_i hpos
    refine h.sem hth (show MpThread.Ok s.pool .claim from trivial) ?_
    rw [htoken, show MpThread.token .claim = 1 from rfl]
    omega

/-- The limit of the semaphore leaves room for every token that is still to be given. -/
theorem sem_lt (h : MpInv p₀ bufBytes s) (hth : s.threads[n]? = some .give) :
    s.pool.sem < s.pool.semMax := by
  have htoken : 1 ≤ tally MpThread.token s.threads := le_tally (f := MpThread.token) hth
  have hbal := h.balance
  have havail := h.available
  have hall := slotCount_add_clearCount s.pool.bitmap s.pool.blockCount
  rw [h.layout.semMax]
  unfold freeBlocks at havail
  omega

theorem gives (h : MpInv p₀ bufBytes s) (hth : s.threads[n]? = some .give) :
    MpInv p₀ bufBytes ({ s with pool := s.pool.give.2 }.setThread n .idle) := by
  rw [EmulatedPoolObj.give, if_pos (h.sem_lt hth)]
  exact h.sem hth (show MpThread.Ok s.pool .idle from trivial) rfl

/-- A thread that has taken a token finds a free block. -/
theorem claims (h : MpInv p₀ bufBytes s) (hth : s.threads[n]? = some .claim) :
    ∃ i, i < s.pool.blockCount ∧ s.pool.bitmapAlloc.1 = i ∧
      s.pool.bitmapAlloc.2.blockCount = s.pool.blockCount ∧
      MpInv p₀ bufBytes ({ s with
        pool := s.pool.bitmapAlloc.2
        live := s.pool.bitmapAlloc.2.address i :: s.live }.setThread n .idle) := by
  have htoken : 1 ≤ tally MpThread.token s.threads := le_tally (f := MpThread.token) hth
  have hbal := h.balance
  have havail := h.available
  have hset := tally_set (f := MpThread.token) (b := .idle) hth
  rw [show MpThread.token .claim = 1 from rfl, show MpThread.token .idle = 0 from rfl] at hset
  obtain ⟨i, hi, hclear, halloc⟩ := bitmapAlloc_spec h.layout (by omega)
  have hcount := slotCount_setSlot (by decide) hi hclear
  have hold := slotCount_add_clearCount s.pool.bitmap s.pool.blockCount
  have hnew := slotCount_add_clearCount (setSlot s.pool.bitmap i) s.pool.blockCount
  have hdecr : sizeDecr s.pool.available = s.pool.available - 1 := sizeDecr_of_pos (by omega)
  rw [halloc]
  refine ⟨i, hi, rfl, rfl, ⟨⟨h.layout.buffer, h.layout.blockSize, h.layout.inside, h.layout.noWrap,
    h.layout.words, h.layout.semMax⟩, h.buffer, h.blockSize, h.blockCount, ?_, ?_,
    h.threads_set trivial ⟨rfl, rfl, rfl⟩, ?_, fun a => ?_, h.frees⟩⟩
  · show sizeDecr s.pool.available = clearCount (setSlot s.pool.bitmap i) s.pool.blockCount
    unfold freeBlocks at havail
    omega
  · show s.pool.sem + tally _ (s.threads.set n .idle) = sizeDecr s.pool.available
    omega
  · refine List.nodup_cons.mpr ⟨fun hmem => ?_, h.nodup⟩
    obtain ⟨j, -, hj, heq⟩ := (h.live _).mp hmem
    obtain rfl := address_inj h.layout heq
    rw [hclear] at hj
    cases hj
  · -- the new block, or one that was allocated before
    show a ∈ s.pool.address i :: s.live ↔ ∃ j, j < s.pool.blockCount ∧
      slotSet (setSlot s.pool.bitmap i) j = true ∧ a = s.pool.address j
    simp only [List.mem_cons, h.live, slotSet_setSlot (by decide : 0 < 32), Bool.or_eq_true,
      decide_eq_true_eq]
    constructor
    · rintro (rfl | ⟨j, hj, hbit, rfl⟩)
      · exact ⟨i, hi, Or.inl rfl, rfl⟩
      · exact ⟨j, hj, Or.inr hbit, rfl⟩
    · rintro ⟨j, hj, rfl | hbit, rfl⟩
      · exact Or.inl rfl
      · exact Or.inr ⟨j, hj, hbit, rfl⟩

/-- The address of an existing block is live exactly when its bit is set. -/
theorem mem_live_iff (h : MpInv p₀ bufBytes s) {i : Nat} (hi : i < s.pool.blockCount) :
    s.pool.address i ∈ s.live ↔ slotSet s.pool.bitmap i = true := by
  rw [h.live]
  constructor
  · rintro ⟨j, -, hbit, heq⟩
    obtain rfl := address_inj h.layout heq
    exact hbit
  · intro hbit
    exact ⟨i, hi, hbit, rfl⟩

/-- A pointer that is refused. -/
theorem refuses (h : MpInv p₀ bufBytes s) {block : Nat} (hblock : block ∉ s.live) :
    MpInv p₀ bufBytes (s.freeReturn block .invalidArgument s.pool) := by
  refine ⟨h.layout, h.buffer, h.blockSize, h.blockCount, h.available, h.balance, h.threads, h.nodup,
    h.live, fun r hr => ?_⟩
  rcases List.mem_cons.mp hr with rfl | hr
  · refine ⟨⟨nofun, fun hlive => absurd (of_decide_eq_true hlive) hblock⟩, fun _ => ⟨rfl, rfl⟩⟩
  · exact h.frees r hr

/-- A block is freed. -/
theorem frees_block (h : MpInv p₀ bufBytes s) {block idx : Nat}
    (hth : s.threads[n]? = some (.free block idx)) (hbit : slotSet s.pool.bitmap idx = true) :
    MpInv p₀ bufBytes
      ((s.freeReturn block .ok (s.pool.bitmapFree idx)).setThread n .give) := by
  obtain ⟨hidx, rfl⟩ := h.threads n _ hth
  have hbal := h.balance
  have havail := h.available
  have hset := tally_set (f := MpThread.token) (b := .give) hth
  rw [show MpThread.token .give = 1 from rfl,
    show MpThread.token (.free (s.pool.address idx) idx) = 0 from rfl] at hset
  have hcount := slotCount_clearSlot (by decide) hidx hbit
  have hold := slotCount_add_clearCount s.pool.bitmap s.pool.blockCount
  have hnew := slotCount_add_clearCount (clearSlot s.pool.bitmap idx) s.pool.blockCount
  have hsmall : s.pool.blockCount < sizeModulus :=
    ((Nat.le_mul_of_pos_right _ h.layout.blockSize).trans h.layout.inside).trans_lt h.layout.noWrap
  have hlive := (h.mem_live_iff hidx).mpr hbit
  unfold freeBlocks at havail
  have hincr : (s.pool.available + 1) % sizeModulus = s.pool.available + 1 :=
    Nat.mod_eq_of_lt (by omega)
  refine ⟨⟨h.layout.buffer, h.layout.blockSize, h.layout.inside, h.layout.noWrap, h.layout.words,
    h.layout.semMax⟩, h.buffer, h.blockSize, h.blockCount, ?_, ?_,
    h.threads_set trivial ⟨rfl, rfl, rfl⟩, h.nodup.erase _, fun a => ?_, fun r hr => ?_⟩
  · show (s.pool.available + 1) % sizeModulus =
      clearCount (clearSlot s.pool.bitmap idx) s.pool.blockCount
    omega
  · show s.pool.sem + tally _ (s.threads.set n .give) = (s.pool.available + 1) % sizeModulus
    omega
  · -- everything that was allocated, except this block
    show a ∈ s.live.erase (s.pool.address idx) ↔ ∃ j, j < s.pool.blockCount ∧
      slotSet (clearSlot s.pool.bitmap idx) j = true ∧ a = s.pool.address j
    simp only [h.nodup.mem_erase_iff, h.live, slotSet_clearSlot (by decide : 0 < 32),
      Bool.and_eq_true, decide_eq_true_eq]
    constructor
    · rintro ⟨hne, j, hj, hset, rfl⟩
      exact ⟨j, hj, ⟨fun heq => hne (by rw [heq]), hset⟩, rfl⟩
    · rintro ⟨j, hj, ⟨hne, hset⟩, rfl⟩
      exact ⟨fun heq => hne (address_inj h.layout heq), j, hj, hset, rfl⟩
  · rcases List.mem_cons.mp hr with rfl | hr
    · exact ⟨⟨fun _ => decide_eq_true hlive, fun _ => rfl⟩, fun hne => absurd rfl hne⟩
    · exact h.frees r hr

/-- A step of a thread that is in a call. -/
theorem advance (h : MpInv p₀ bufBytes s) (hth : s.threads[n]? = some th) {timedOut : Bool}
    {s' : MpState} (hs : s.advance n timedOut th = some s') : MpInv p₀ bufBytes s' := by
  cases th with
  | idle => cases hs
  | take =>
      simp only [MpState.advance] at hs
      split at hs
      · cases hs
      · obtain rfl := Option.some.inj hs
        exact h.tryTake hth rfl
  | claim =>
      obtain ⟨i, hi, hidx, hcount, hinv⟩ := h.claims hth
      simp only [MpState.advance, hidx, hcount] at hs
      rw [if_neg (by omega)] at hs
      obtain rfl := Option.some.inj hs
      exact hinv
  | giveBack => exact absurd (h.threads n _ hth) id
  | free block idx =>
      obtain ⟨hidx, hblock⟩ := h.threads n _ hth
      simp only [MpState.advance, isAllocated_eq] at hs
      split at hs
      · rename_i hbit
        obtain rfl := Option.some.inj hs
        exact h.frees_block hth hbit
      · rename_i hbit
        obtain rfl := Option.some.inj hs
        have hnot : block ∉ s.live := by
          rw [hblock, h.mem_live_iff hidx]
          exact hbit
        exact (h.refuses hnot).thread hth trivial rfl
  | give =>
      obtain rfl := Option.some.inj hs
      exact h.gives hth

/-- Every step keeps the invariant. -/
theorem next (h : MpInv p₀ bufBytes s) {a : MpAct} {s' : MpState} (hs : s.next a = some s') :
    MpInv p₀ bufBytes s' := by
  cases a with
  | allocate n =>
      simp only [MpState.next] at hs
      split at hs
      · rename_i hidle
        obtain rfl := Option.some.inj hs
        exact h.tryTake hidle rfl
      · cases hs
  | allocateTimed n =>
      simp only [MpState.next] at hs
      split at hs
      · rename_i hidle
        obtain rfl := Option.some.inj hs
        exact h.thread hidle trivial rfl
      · cases hs
  | deallocate n block =>
      simp only [MpState.next] at hs
      split at hs
      · rename_i hidle
        split at hs
        · rename_i hnone
          obtain rfl := Option.some.inj hs
          refine h.refuses fun hlive => ?_
          obtain ⟨i, hi, -, heq⟩ := (h.live block).mp hlive
          rw [(blockIndex_eq_some h.layout).mpr ⟨hi, heq⟩] at hnone
          cases hnone
        · rename_i idx hsome
          obtain rfl := Option.some.inj hs
          exact h.thread hidle ((blockIndex_eq_some h.layout).mp hsome) rfl
      · cases hs
  | step n timedOut =>
      obtain ⟨th, hth, hadv⟩ := Option.bind_eq_some_iff.mp hs
      exact h.advance hth hadv

end MpInv

/-! ### Whole runs -/

/-- What is promised of a pool over the `bufBytes` bytes at `buffer`. -/
structure MpState.PoolOk (buffer bufBytes blockSize blockCount : Nat) (s : MpState) : Prop where
  /-- `available` is the number of zero bits among the first `block_count`. -/
  available : s.pool.available = clearCount s.pool.bitmap blockCount
  /-- Tokens, allocations with a token and no block yet, frees without a token yet. -/
  balance : s.pool.sem + s.threads.countP (· = .claim) + s.threads.countP (· = .give) =
    s.pool.available
  /-- A block was free for everybody who had a token. -/
  noShortage : MpThread.giveBack ∉ s.threads
  /-- A token that is to be given finds room. -/
  giveFits : MpThread.give ∈ s.threads → s.pool.give.1 = .ok
  /-- What is handed out is a block inside the buffer, -/
  inside : ∀ a ∈ s.live, ∃ i, a = buffer + i * blockSize ∧ buffer ≤ a ∧
    a + blockSize ≤ buffer + bufBytes
  /-- and no two of them overlap. -/
  disjoint : s.live.Pairwise fun a b => a + blockSize ≤ b ∨ b + blockSize ≤ a
  /-- What `deallocate` returned, and did when it refused. -/
  frees : ∀ r ∈ s.frees, (r.code = .ok ↔ r.wasLive = true) ∧
    (r.code ≠ .ok → r.code = .invalidArgument ∧ r.after = r.before)

/-- Two addresses of blocks are the same, or the blocks do not overlap. -/
theorem EmulatedPoolObj.address_disjoint (p : EmulatedPoolObj) {i j : Nat}
    (hne : p.address i ≠ p.address j) : p.address i + p.blockSize ≤ p.address j ∨
      p.address j + p.blockSize ≤ p.address i := by
  have hij : i ≠ j := fun h => hne (by rw [h])
  unfold EmulatedPoolObj.address
  rcases Nat.lt_or_gt_of_ne hij with hlt | hgt
  · left
    have := Nat.mul_le_mul_right p.blockSize (Nat.succ_le_of_lt hlt)
    rw [Nat.succ_mul] at this
    omega
  · right
    have := Nat.mul_le_mul_right p.blockSize (Nat.succ_le_of_lt hgt)
    rw [Nat.succ_mul] at this
    omega

theorem tally_token (ths : List MpThread) :
    tally MpThread.token ths = ths.countP (· = .claim) + ths.countP (· = .give) := by
  rw [countP_eq_tally, countP_eq_tally, ← tally_add]
  congr 1
  funext th
  cases th <;> rfl

theorem MpInv.poolOk {p₀ : EmulatedPoolObj} {bufBytes : Nat} {s : MpState}
    (h : MpInv p₀ bufBytes s) :
    s.PoolOk p₀.buffer bufBytes p₀.blockSize p₀.blockCount := by
  refine ⟨?_, ?_, ?_, ?_, ?_, ?_, fun r hr => ⟨(h.frees r hr).ok, (h.frees r hr).refused⟩⟩
  · rw [h.available, EmulatedPoolObj.freeBlocks, h.blockCount]
  · rw [Nat.add_assoc, ← tally_token]
    exact h.balance
  · intro hmem
    obtain ⟨n, hn⟩ := List.mem_iff_getElem?.mp hmem
    exact h.threads n _ hn
  · intro hmem
    obtain ⟨n, hn⟩ := List.mem_iff_getElem?.mp hmem
    rw [EmulatedPoolObj.give, if_pos (h.sem_lt hn)]
  · intro a ha
    obtain ⟨i, hi, -, rfl⟩ := (h.live a).mp ha
    have hend := Nat.mul_le_mul_right s.pool.blockSize (Nat.succ_le_of_lt hi)
    have hinside := h.layout.inside
    rw [Nat.succ_mul] at hend
    rw [← h.buffer, ← h.blockSize]
    refine ⟨i, rfl, Nat.le_add_right _ _, ?_⟩
    unfold EmulatedPoolObj.address
    omega
  · rw [← h.blockSize]
    refine h.nodup.imp_of_mem fun {a b} ha hb hne => ?_
    obtain ⟨i, -, -, rfl⟩ := (h.live a).mp ha
    obtain ⟨j, -, -, rfl⟩ := (h.live b).mp hb
    exact s.pool.address_disjoint hne

/-- A fresh pool. -/
theorem MpInv.create {p : EmulatedPoolObj} {bufBytes : Nat} (hl : p.Layout bufBytes)
    (hbitmap : p.bitmap = fun _ => 0) (havail : p.available = p.blockCount)
    (hsem : p.sem = p.blockCount) (numThreads : Nat) :
    MpInv p bufBytes (.create p numThreads) := by
  have hclear : ∀ i, slotSet p.bitmap i = false := by
    intro i
    rw [hbitmap, slotSet]
    exact BitVec.getLsbD_zero
  have hidle : tally MpThread.token (List.replicate numThreads .idle) = 0 := by
    refine tally_eq_zero fun n th hth => ?_
    obtain rfl := List.eq_of_mem_replicate (List.mem_of_getElem? hth)
    rfl
  refine ⟨hl, rfl, rfl, rfl, ?_, ?_, ?_, List.nodup_nil, fun a => ⟨(fun h => by cases h), ?_⟩,
    (fun _ h => by cases h)⟩
  · show p.available = clearCount p.bitmap p.blockCount
    simp [clearCount, hclear, havail]
  · show p.sem + tally MpThread.token (List.replicate numThreads .idle) = p.available
    omega
  · intro n th hth
    obtain rfl := List.eq_of_mem_replicate (List.mem_of_getElem? hth)
    trivial
  · rintro ⟨i, -, hset, -⟩
    rw [show slotSet (MpState.create p numThreads).pool.bitmap i = false from hclear i] at hset
    cases hset

/-- A pool that `osal_memory_pool_create` has created over a buffer of less than half the
address space keeps its counts, its blocks and its promises in every interleaving. -/
theorem memoryPool_blocks_accounted {cfg : MpConfig} {buffer bufBytes blockSize blockCount : Nat}
    {acquired mutexCreated semCreated : Bool} {pool : EmulatedPoolObj}
    (hbytes : bufBytes < sizeModulus / 2)
    (hcreate : osalMemoryPoolCreate cfg buffer bufBytes blockSize blockCount acquired mutexCreated
      semCreated = (.ok, some pool)) {numThreads : Nat} {s : MpState}
    (hs : (memoryPoolMachine pool numThreads).Reachable s) :
    s.PoolOk buffer bufBytes blockSize blockCount := by
  obtain ⟨hl, hargs, hbitmap, havail, hsem⟩ :=
    EmulatedPoolObj.layout_of_create hbytes hcreate
  have hinv : MpInv pool bufBytes s :=
    hs.invariant (.create hl hbitmap havail hsem numThreads) fun _ _ _ _ h hstep => h.next hstep
  rw [← hargs.1, ← hargs.2.1, ← hargs.2.2]
  exact hinv.poolOk

/-- Two of three blocks are allocated, the second one is freed, and a pointer into the first
one, a pointer past the blocks and the second pointer again are refused. -/
theorem memoryPool_blocks_accounted_refusals :
    ∃ (pool : EmulatedPoolObj) (s : MpState),
      osalMemoryPoolCreate ⟨256, by decide⟩ 4096 30 8 3 true true true = (.ok, some pool) ∧
      s.live = [4096] ∧ s.threads = [.idle, .give] ∧
      s.frees.map (fun r => (r.block, r.code)) =
        [(4104, .invalidArgument), (4120, .invalidArgument), (4100, .invalidArgument),
          (4104, .ok)] ∧
      s.PoolOk 4096 30 8 3 := by
  let pool : EmulatedPoolObj := ⟨4096, 8, 3, fun _ => 0, 1, 3, 3, 3⟩
  let schedule : List MpAct :=
    [.allocate 0, .allocateTimed 1, .step 1 false, .step 0 false, .step 1 false, .deallocate 1 4104,
      .step 1 false, .deallocate 0 4100, .deallocate 0 4120, .deallocate 0 4104, .step 0 false]
  have hcreate : osalMemoryPoolCreate ⟨256, by decide⟩ 4096 30 8 3 true true true =
      (.ok, some pool) := rfl
  have hview : ((memoryPoolMachine pool 2).run (.create pool 2) schedule).map
      (fun s => (s.live, s.threads, s.frees.map (fun r => (r.block, r.code)))) =
        some ([4096], [.idle, .give],
          [(4104, .invalidArgument), (4120, .invalidArgument), (4100, .invalidArgument),
            (4104, .ok)]) := by
    decide +kernel
  obtain ⟨s, hrun, hres⟩ := Option.map_eq_some_iff.mp hview
  simp only [Prod.mk.injEq] at hres
  exact ⟨pool, s, hcreate, hres.1, hres.2.1, hres.2.2,
    memoryPool_blocks_accounted (by decide) hcreate (.of_run hrun)⟩

end MicrOsal
