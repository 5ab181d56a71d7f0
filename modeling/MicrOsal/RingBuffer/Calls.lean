import MicrOsal.RingBuffer.Fifo

/-!
# MicrOsal.RingBuffer.Calls

Whole calls of the ring buffer: a bulk call does what single calls would do, and the steps of
the system, when nobody interrupts them, do what the functions say.
-/

namespace MicrOsal

universe u

open RingBuffer

variable {α : Type u} {N : Nat}

/-! ### Bulk calls and single calls -/

namespace RingBuffer

/-- `try_push` of one item after the other, up to the first that fails: how many succeeded. -/
def pushRun (rb : RingBuffer α N) : List α → Nat × RingBuffer α N
  | [] => (0, rb)
  | item :: rest =>
      match rb.tryPush item with
      | (false, rb') => (0, rb')
      | (true, rb') => ((rb'.pushRun rest).1 + 1, (rb'.pushRun rest).2)

/-- `try_pop`, `count` times at most, up to the first that fails: the items. -/
def popRun (rb : RingBuffer α N) : Nat → List α × RingBuffer α N
  | 0 => ([], rb)
  | count + 1 =>
      match rb.tryPop with
      | (none, rb') => ([], rb')
      | (some item, rb') => (item :: (rb'.popRun count).1, (rb'.popRun count).2)

variable {rb : RingBuffer α N} {H T : Nat}

/-- `try_push_n` at absolute positions. -/
theorem tryPushN_eq (h : rb.At H T) (items : List α) :
    rb.tryPushN items = (min items.length (N - (H - T)),
      ⟨ringCopyIn (kCapacity N) rb.buf rb.head (items.take (min items.length (N - (H - T)))),
        ringAdvance (kCapacity N) rb.head (min items.length (N - (H - T))), rb.tail⟩) := by
  have havail : pushAvail N rb.head rb.tail = N - (H - T) := by
    have := pushAvail_eq h
    omega
  have hlt := h.head_lt
  simp only [tryPushN, havail]
  generalize hn : min items.length (N - (H - T)) = n
  have hlen : n ≤ items.length := by omega
  split
  · rename_i hzero
    subst hzero
    rw [List.take_zero, ringCopyIn_nil, ringAdvance_zero hlt]
  · simp only [storeHead, advance, ringCopyIn, ringAdvance, List.length_take, Nat.min_eq_left hlen,
      List.take_take, List.drop_take, Nat.min_eq_left (Nat.min_le_left n (kCapacity N - rb.head))]

theorem tryPush_eq (h : rb.At H T) (item : α) :
    rb.tryPush item = if H - T = N then (false, rb) else
      (true, ⟨Function.update rb.buf rb.head item, ringAdvance (kCapacity N) rb.head 1,
        rb.tail⟩) := by
  simp only [tryPush, increment_eq_tail_iff h]
  rw [increment_eq h.head_lt]
  rfl

/-- `try_push_n` is the longest successful run of `try_push`. -/
theorem tryPushN_eq_pushRun (h : rb.At H T) (items : List α) :
    rb.tryPushN items = rb.pushRun items := by
  rw [tryPushN_eq h]
  induction items generalizing rb H with
  | nil =>
      rw [List.take_nil, ringCopyIn_nil, List.length_nil, Nat.zero_min,
        ringAdvance_zero h.head_lt]
      rfl
  | cons item rest ih =>
      have hle := h.le
      have hcap := h.cap
      have hsize := h.size
      have hlt := h.head_lt
      simp only [pushRun, tryPush_eq h]
      by_cases hfull : H - T = N
      · rw [if_pos hfull, hfull, Nat.sub_self, Nat.min_zero, List.take_zero, ringCopyIn_nil,
          ringAdvance_zero hlt]
      · rw [if_neg hfull]
        dsimp only
        have hnext : RingBuffer.At (N := N) ⟨Function.update rb.buf rb.head item,
            ringAdvance (kCapacity N) rb.head 1, rb.tail⟩ (H + 1) T := h.advanceHead (by omega)
        rw [← ih hnext]
        generalize hn : min rest.length (N - (H + 1 - T)) = n
        have hn' : min (item :: rest).length (N - (H - T)) = n + 1 := by
          rw [List.length_cons]
          omega
        rw [hn', List.take_succ_cons, ringCopyIn_cons hlt (by rw [List.length_take]; omega),
          ringAdvance_add hlt (by omega), Nat.add_comm 1 n]

theorem tryPopN_eq (h : rb.At H T) (count : Nat) :
    rb.tryPopN count = (ringSpan (kCapacity N) rb.buf T (min count (H - T)),
      rb.storeTail (ringAdvance (kCapacity N) rb.tail (min count (H - T)))) := by
  have havail : popAvail N rb.head rb.tail = H - T := h.available_now
  have hcap := h.cap
  have hlt := h.tail_lt
  simp only [tryPopN, havail]
  generalize hn : min count (H - T) = n
  split
  · rename_i hzero
    subst hzero
    rw [ringSpan_zero, ringAdvance_zero hlt]
    rfl
  · have hout : ringCopyOut (kCapacity N) rb.buf rb.tail n = ringSpan (kCapacity N) rb.buf T n :=
      h.copyOut (by omega)
    rw [← hout]
    rfl

theorem tryPop_eq (h : rb.At H T) :
    rb.tryPop = if H = T then (none, rb) else
      (some (rb.buf rb.tail), rb.storeTail (ringAdvance (kCapacity N) rb.tail 1)) := by
  simp only [tryPop, tail_eq_head_iff h]
  rw [increment_eq h.tail_lt]

/-- `try_pop_n` is the longest successful run of `try_pop`. -/
theorem tryPopN_eq_popRun (h : rb.At H T) (count : Nat) : rb.tryPopN count = rb.popRun count := by
  rw [tryPopN_eq h]
  induction count generalizing rb T with
  | zero =>
      rw [Nat.zero_min, ringSpan_zero, ringAdvance_zero h.tail_lt]
      rfl
  | succ count ih =>
      have hle := h.le
      have hcap := h.cap
      have hsize := h.size
      have hlt := h.tail_lt
      simp only [popRun, tryPop_eq h]
      by_cases hempty : H = T
      · rw [if_pos hempty, hempty, Nat.sub_self, Nat.min_zero, ringSpan_zero, ringAdvance_zero hlt]
        rfl
      · rw [if_neg hempty]
        dsimp only
        have hnext : (rb.storeTail (ringAdvance (kCapacity N) rb.tail 1)).At H (T + 1) :=
          h.advanceTail (by omega)
        rw [← ih hnext]
        generalize hn : min count (H - (T + 1)) = n
        have hn' : min (count + 1) (H - T) = n + 1 := by omega
        rw [hn', Nat.add_comm n 1, ringSpan_add, ← ringAdvance_add hlt (by omega)]
        simp [ringSpan, storeTail, h.tail]

end RingBuffer

/-! ### Calls that are not interrupted -/

namespace RbSys

variable [Inhabited α] {s : RbSys α N} {H T : Nat}

/-- The copy of `try_push_n`, when item `k` and `d` more are left. -/
theorem solo_writes {items : List α} {h n held : Nat} (hh : h < kCapacity N) (hn : n ≤ items.length)
    (hcap : n ≤ N) (d : Nat) :
    ∀ {s : RbSys α N} {k : Nat}, s.prod = .pushNWrite items h n k held → n = k + d + 1 →
      (ringBufferMachine α N).run s (List.replicate (d + 1) .producer) =
        some { s with
          rb := ⟨ringCopyIn (kCapacity N) s.rb.buf (ringAdvance (kCapacity N) h k)
            ((items.take n).drop k), s.rb.head, s.rb.tail⟩
          prod := .pushNStore items h n held } := by
  have hsize : kCapacity N = N + 1 := rfl
  induction d with
  | zero =>
      intro s k hp hk
      have hget : items[k]? = some items[k] := List.getElem?_eq_getElem (by omega)
      have hdrop : (items.take n).drop k = [items[k]] := by
        rw [List.drop_eq_getElem_cons (by rw [List.length_take]; omega), List.getElem_take,
          List.drop_of_length_le (by rw [List.length_take]; omega)]
      have hstep : (ringBufferMachine α N).step s .producer = some { s with
          rb := s.rb.write (slotAt N h n k) items[k]
          prod := .pushNStore items h n held } := by
        simp only [ringBufferMachine, RbSys.step, RbSys.stepProducer, hp, hget, Option.map_some,
          if_neg (show ¬ k + 1 < n by omega)]
      rw [Nat.zero_add, List.replicate_one, Machine.run, hstep, Option.bind_some, Machine.run,
        hdrop,
        ringCopyIn_cons (ringAdvance_lt hh (by omega)) (by simp [hsize]), ringCopyIn_nil,
        slotAt_eq hh (by omega)]
      rfl
  | succ d ih =>
      intro s k hp hk
      have hget : items[k]? = some items[k] := List.getElem?_eq_getElem (by omega)
      have hdrop : (items.take n).drop k = items[k] :: (items.take n).drop (k + 1) := by
        rw [List.drop_eq_getElem_cons (by rw [List.length_take]; omega), List.getElem_take]
      have hstep : (ringBufferMachine α N).step s .producer = some { s with
          rb := s.rb.write (slotAt N h n k) items[k]
          prod := .pushNWrite items h n (k + 1) held } := by
        simp only [ringBufferMachine, RbSys.step, RbSys.stepProducer, hp, hget, Option.map_some,
          if_pos (show k + 1 < n by omega)]
      rw [List.replicate_succ, Machine.run, hstep, Option.bind_some, ih rfl (by omega), hdrop,
        ringCopyIn_cons (ringAdvance_lt hh (by omega))
          (by rw [List.length_drop, List.length_take]; omega),
        ringAdvance_add hh (by omega), slotAt_eq hh (by omega)]
      rfl

/-- `try_push_n`, when the consumer does not move meanwhile. -/
theorem solo_tryPushN (h : RbInv s H T) (hidle : s.prod = .idle) (items : List α) :
    ∃ k, (ringBufferMachine α N).run s (.tryPushN items :: List.replicate k .producer) =
      some ({ s with rb := (s.rb.tryPushN items).2 }.pushReturns items (s.rb.tryPushN items).1
        s.rb.size) := by
  have havail := pushAvail_eq h.ring
  have hbegin : (ringBufferMachine α N).step s (.tryPushN items) =
      some { s with prod := .pushNHead items } := by
    simp only [ringBufferMachine, RbSys.step, RbSys.beginPush, hidle]
  have hhead : (ringBufferMachine α N).step { s with prod := .pushNHead items } .producer =
      some { s with prod := .pushNTail items s.rb.head } := rfl
  rw [tryPushN_eq h.ring]
  have hn : min items.length (pushAvail N s.rb.head s.rb.tail) =
      min items.length (N - (H - T)) := by omega
  by_cases hzero : min items.length (N - (H - T)) = 0
  · have htail : (ringBufferMachine α N).step { s with prod := .pushNTail items s.rb.head }
        .producer = some (s.pushReturns items 0 s.rb.size) := by
      simp only [ringBufferMachine, RbSys.step, RbSys.stepProducer, hn, hzero, if_true]
      rfl
    refine ⟨2, ?_⟩
    simp only [List.replicate, Machine.run, hbegin, hhead, htail, Option.bind_some, hzero,
      List.take_zero, ringCopyIn_nil, ringAdvance_zero h.ring.head_lt]
  · have htail : (ringBufferMachine α N).step { s with prod := .pushNTail items s.rb.head }
        .producer = some { s with
          prod := .pushNWrite items s.rb.head (min items.length (N - (H - T))) 0 s.rb.size } := by
      simp only [ringBufferMachine, RbSys.step, RbSys.stepProducer, hn, if_neg hzero]
    obtain ⟨d, hd⟩ := Nat.exists_eq_succ_of_ne_zero hzero
    have hwrites := solo_writes (s := { s with
        prod := .pushNWrite items s.rb.head (min items.length (N - (H - T))) 0 s.rb.size })
      h.ring.head_lt (Nat.min_le_left _ _) (by omega) d rfl (by omega)
    have hschedule : List.replicate (d + 1 + 1 + 2) (RbAct.producer : RbAct α) =
        RbAct.producer :: RbAct.producer ::
          (List.replicate (d + 1) RbAct.producer ++ [RbAct.producer]) := by
      rw [← List.replicate_succ']
      rfl
    refine ⟨d + 1 + 1 + 2, ?_⟩
    rw [hschedule]
    simp only [Machine.run, hbegin, hhead, htail, Option.bind_some]
    rw [Machine.run_append, hwrites, ringAdvance_zero h.ring.head_lt, List.drop_zero]
    rfl

/-- The copy of `try_pop_n`, when one item and `d` more are left. -/
theorem solo_reads {count t n held : Nat} (ht : t < kCapacity N) (hcap : n ≤ N) {p : Nat}
    (htp : t = p % kCapacity N) (d : Nat) :
    ∀ {s : RbSys α N} {items : List α}, s.cons = .popNRead count t n items held →
      n = items.length + d + 1 → items = ringSpan (kCapacity N) s.rb.buf p items.length →
      (ringBufferMachine α N).run s (List.replicate (d + 1) .consumer) =
        some { s with
          cons := .popNStore count t n (ringSpan (kCapacity N) s.rb.buf p n) held } := by
  have hsize : kCapacity N = N + 1 := rfl
  induction d with
  | zero =>
      intro s items hc hn hitems
      have hspan : items ++ [s.rb.buf (slotAt N t n items.length)] =
          ringSpan (kCapacity N) s.rb.buf p n := by
        rw [slotAt_eq ht (by omega), htp, ringAdvance_mod (by omega) (by omega), hn, Nat.add_zero,
          ringSpan_add, ← hitems]
        rfl
      have hstep : (ringBufferMachine α N).step s .consumer = some { s with
          cons := .popNStore count t n (ringSpan (kCapacity N) s.rb.buf p n) held } := by
        simp only [ringBufferMachine, RbSys.step, RbSys.stepConsumer, hc, hspan, ringSpan_length,
          lt_irrefl, if_false]
      rw [Nat.zero_add, List.replicate_one, Machine.run, hstep, Option.bind_some, Machine.run]
  | succ d ih =>
      intro s items hc hn hitems
      have hspan : items ++ [s.rb.buf (slotAt N t n items.length)] =
          ringSpan (kCapacity N) s.rb.buf p (items.length + 1) := by
        rw [slotAt_eq ht (by omega), htp, ringAdvance_mod (by omega) (by omega), ringSpan_add,
          ← hitems]
        rfl
      have hstep : (ringBufferMachine α N).step s .consumer = some { s with
          cons := .popNRead count t n (ringSpan (kCapacity N) s.rb.buf p (items.length + 1))
            held } := by
        simp only [ringBufferMachine, RbSys.step, RbSys.stepConsumer, hc, hspan, ringSpan_length,
          if_pos (show items.length + 1 < n by omega)]
      rw [List.replicate_succ, Machine.run, hstep, Option.bind_some,
        ih rfl (by rw [ringSpan_length]; omega) (by rw [ringSpan_length])]

/-- `try_pop_n`, when the producer does not move meanwhile. -/
theorem solo_tryPopN (h : RbInv s H T) (hidle : s.cons = .idle) (count : Nat) :
    ∃ k, (ringBufferMachine α N).run s (.tryPopN count :: List.replicate k .consumer) =
      some ({ s with rb := (s.rb.tryPopN count).2 }.outReturns
        (.popped count (s.rb.tryPopN count).1 s.rb.size)) := by
  have havail : popAvail N s.rb.head s.rb.tail = H - T := h.ring.available_now
  have hcap := h.ring.cap
  have hbegin : (ringBufferMachine α N).step s (.tryPopN count) =
      some { s with cons := .popNTail count } := by
    simp only [ringBufferMachine, RbSys.step, RbSys.beginOut, hidle]
  have htail : (ringBufferMachine α N).step { s with cons := .popNTail count } .consumer =
      some { s with cons := .popNHead count s.rb.tail } := rfl
  rw [tryPopN_eq h.ring]
  by_cases hzero : min count (H - T) = 0
  · have hhead : (ringBufferMachine α N).step { s with cons := .popNHead count s.rb.tail }
        .consumer = some (s.outReturns (.popped count [] s.rb.size)) := by
      simp only [ringBufferMachine, RbSys.step, RbSys.stepConsumer, havail, hzero, if_true]
      rfl
    refine ⟨2, ?_⟩
    simp only [List.replicate, Machine.run, hbegin, htail, hhead, Option.bind_some, hzero,
      ringSpan_zero, ringAdvance_zero h.ring.tail_lt]
    rfl
  · have hhead : (ringBufferMachine α N).step { s with cons := .popNHead count s.rb.tail }
        .consumer = some { s with
          cons := .popNRead count s.rb.tail (min count (H - T)) [] s.rb.size } := by
      simp only [ringBufferMachine, RbSys.step, RbSys.stepConsumer, havail, if_neg hzero]
    obtain ⟨d, hd⟩ := Nat.exists_eq_succ_of_ne_zero hzero
    have hreads := solo_reads (s := { s with
        cons := .popNRead count s.rb.tail (min count (H - T)) [] s.rb.size })
      h.ring.tail_lt (by omega) h.ring.tail d rfl (by rw [List.length_nil]; omega) rfl
    have hschedule : List.replicate (d + 1 + 1 + 2) (RbAct.consumer : RbAct α) =
        RbAct.consumer :: RbAct.consumer ::
          (List.replicate (d + 1) RbAct.consumer ++ [RbAct.consumer]) := by
      rw [← List.replicate_succ']
      rfl
    refine ⟨d + 1 + 1 + 2, ?_⟩
    rw [hschedule]
    simp only [Machine.run, hbegin, htail, hhead, Option.bind_some]
    rw [Machine.run_append, hreads]
    rfl

/-- `try_push`, when the consumer does not move meanwhile. -/
theorem solo_tryPush (hidle : s.prod = .idle) (item : α) :
    ∃ k, (ringBufferMachine α N).run s (.tryPush item :: List.replicate k .producer) =
      some ({ s with rb := (s.rb.tryPush item).2 }.pushReturns [item] (s.rb.tryPush item).1.toNat
        s.rb.size) := by
  have hbegin : (ringBufferMachine α N).step s (.tryPush item) =
      some { s with prod := .pushHead item } := by
    simp only [ringBufferMachine, RbSys.step, RbSys.beginPush, hidle]
  unfold RingBuffer.tryPush
  by_cases hfull : increment N s.rb.head = s.rb.tail
  · refine ⟨2, ?_⟩
    rw [if_pos hfull, Machine.run, hbegin]
    simp [Machine.run, List.replicate, ringBufferMachine, RbSys.step, RbSys.stepProducer, hfull,
      RbSys.pushReturns, RingBuffer.size]
  · refine ⟨4, ?_⟩
    rw [if_neg hfull, Machine.run, hbegin]
    simp [Machine.run, List.replicate, ringBufferMachine, RbSys.step, RbSys.stepProducer, hfull,
      RbSys.pushReturns, RingBuffer.size]

/-- `try_pop`, when the producer does not move meanwhile. -/
theorem solo_tryPop (hidle : s.cons = .idle) :
    ∃ k, (ringBufferMachine α N).run s (.tryPop :: List.replicate k .consumer) =
      some ({ s with rb := s.rb.tryPop.2 }.outReturns
        (.popped 1 s.rb.tryPop.1.toList s.rb.size)) := by
  have hbegin : (ringBufferMachine α N).step s .tryPop = some { s with cons := .popTail } := by
    simp only [ringBufferMachine, RbSys.step, RbSys.beginOut, hidle]
  unfold RingBuffer.tryPop
  by_cases hempty : s.rb.tail = s.rb.head
  · refine ⟨2, ?_⟩
    rw [if_pos hempty, Machine.run, hbegin]
    simp [Machine.run, List.replicate, ringBufferMachine, RbSys.step, RbSys.stepConsumer, hempty,
      RbSys.outReturns, RingBuffer.size]
  · refine ⟨4, ?_⟩
    rw [if_neg hempty, Machine.run, hbegin]
    simp [Machine.run, List.replicate, ringBufferMachine, RbSys.step, RbSys.stepConsumer, hempty,
      RbSys.outReturns, RingBuffer.size]

end RbSys

/-! ### Whole runs -/

/-- What is promised of a ring buffer, in the middle of any calls. -/
structure RbSys.FifoOk (s : RbSys α N) : Prop where
  bounds : s.rb.head ≤ N ∧ s.rb.tail ≤ N
  /-- What has been popped or discarded and what is still stored is what has been pushed. -/
  fifo : takenItems s.outs ++ s.rb.contents = pushedItems s.pushes
  /-- What a push could not push did not fit when it loaded `tail_`. -/
  pushes : ∀ r ∈ s.pushes, r.Honest N
  /-- A pop or a peek that failed found the buffer empty when it loaded `head_`. -/
  outs : ∀ r ∈ s.outs, r.Honest
  /-- The producer writes outside `[tail_, head_)`, -/
  writes : ∀ i, s.prod.writes N = some i → i ≤ N ∧ ¬ s.rb.InUse i
  /-- and the consumer reads inside. -/
  reads : ∀ i, s.cons.reads N = some i → s.rb.InUse i
  /-- What `peek` reads is the oldest item. -/
  peeks : ∀ t held, s.cons = .peekRead t held → s.rb.contents.head? = some (s.rb.buf t)
  bulkPush : ∀ items, s.rb.tryPushN items = s.rb.pushRun items
  bulkPop : ∀ count, s.rb.tryPopN count = s.rb.popRun count
  size : s.rb.size + s.rb.free = N ∧ (s.rb.empty = true ↔ s.rb.size = 0) ∧
    (s.rb.full = true ↔ s.rb.size = N)

namespace RbInv

variable {s : RbSys α N} {H T : Nat}

theorem writes_free (h : RbInv s H T) {i : Nat} (hi : s.prod.writes N = some i) :
    i ≤ N ∧ ¬ s.rb.InUse i := by
  have hprod := h.prod
  have hsize := h.ring.size
  have hlt := h.ring.head_lt
  cases hp : s.prod with
  | pushWrite item hd held =>
      rw [hp] at hi hprod
      obtain ⟨rfl, hroom⟩ := hprod
      obtain rfl := Option.some.inj hi
      refine ⟨by omega, ?_⟩
      rw [h.ring.head]
      exact not_inUse_of_free h.ring le_rfl (by omega)
  | pushNWrite items hd n k held =>
      rw [hp] at hi hprod
      obtain ⟨rfl, hk, hn, hroom, -, -⟩ := hprod
      obtain rfl := Option.some.inj hi
      have hle := h.ring.le
      have hslot : slotAt N s.rb.head n k = (H + k) % kCapacity N := by
        rw [slotAt_eq hlt hk, h.ring.head]
        exact ringAdvance_mod h.ring.size_pos (by omega)
      rw [hslot]
      refine ⟨?_, not_inUse_of_free h.ring (Nat.le_add_right H k) (by omega)⟩
      have := Nat.mod_lt (H + k) h.ring.size_pos
      omega
  | _ =>
      rw [hp] at hi
      cases hi

theorem reads_stored (h : RbInv s H T) {i : Nat} (hi : s.cons.reads N = some i) :
    s.rb.InUse i := by
  have hcons := h.cons
  have hlt := h.ring.tail_lt
  cases hc : s.cons with
  | popRead t held | peekRead t held =>
      rw [hc] at hi hcons
      obtain ⟨rfl, hpos⟩ := hcons
      obtain rfl := Option.some.inj hi
      rw [h.ring.tail]
      exact inUse_of_stored h.ring le_rfl hpos
  | popNRead count t n items held =>
      rw [hc] at hi hcons
      obtain ⟨rfl, hk, hn, hin, -⟩ := hcons
      obtain rfl := Option.some.inj hi
      have hcap := h.ring.cap
      have hsize := h.ring.size
      have hslot : slotAt N s.rb.tail n items.length = (T + items.length) % kCapacity N := by
        rw [slotAt_eq hlt hk, h.ring.tail]
        exact ringAdvance_mod h.ring.size_pos (by omega)
      rw [hslot]
      exact inUse_of_stored h.ring (Nat.le_add_right _ _) (by omega)
  | _ =>
      rw [hc] at hi
      cases hi

theorem peeks_oldest (h : RbInv s H T) {t held : Nat} (hc : s.cons = .peekRead t held) :
    s.rb.contents.head? = some (s.rb.buf t) := by
  have hcons := h.cons
  rw [hc] at hcons
  obtain ⟨rfl, hpos⟩ := hcons
  obtain ⟨d, hd⟩ := Nat.exists_eq_add_of_lt hpos
  rw [contents_eq h.ring, show H - T = 1 + d by omega, ringSpan_add, h.ring.tail]
  rfl

theorem fifoOk (h : RbInv s H T) : s.FifoOk := by
  have hsize := h.ring.size
  have hhead := h.ring.head_lt
  have htail := h.ring.tail_lt
  have hle := h.ring.le
  have hcap := h.ring.cap
  refine ⟨⟨by omega, by omega⟩, ?_, h.pushes, h.outs, fun i => h.writes_free,
    fun i => h.reads_stored, fun t held => h.peeks_oldest, tryPushN_eq_pushRun h.ring,
    tryPopN_eq_popRun h.ring, ?_, ?_, ?_⟩
  · rw [contents_eq h.ring]
    exact h.fifo
  · rw [RingBuffer.free, size_eq h.ring]
    omega
  · rw [RingBuffer.empty, decide_eq_true_eq, eq_comm, tail_eq_head_iff h.ring, size_eq h.ring]
    omega
  · rw [RingBuffer.full, decide_eq_true_eq, increment_eq_tail_iff h.ring, size_eq h.ring]

end RbInv

/-- The ring buffer is a bounded FIFO in every interleaving of its two users. -/
theorem ringBuffer_refines_fifo [Inhabited α] {s : RbSys α N}
    (hs : (ringBufferMachine α N).Reachable s) : s.FifoOk := by
  obtain ⟨H, T, h⟩ := RbInv.reachable hs
  exact h.fifoOk

/-- The producer wraps around while the consumer is in the middle of `try_pop_n`. -/
theorem ringBuffer_refines_fifo_wrapped :
    ∃ s : RbSys Nat 2, s.rb.contents = [12, 13] ∧ takenItems s.outs = [11] ∧
      pushedItems s.pushes = [11, 12, 13] ∧ s.FifoOk := by
  let schedule : List (RbAct Nat) :=
    [.tryPushN [11, 12], .producer, .producer, .producer, .producer, .producer, .tryPop, .consumer,
      .consumer, .consumer, .consumer, .tryPopN 5, .consumer, .consumer, .tryPush 13, .producer,
      .producer, .producer, .consumer, .producer]
  have hview : ((ringBufferMachine Nat 2).run (.create 2) schedule).map
      (fun s => (s.rb.contents, takenItems s.outs, pushedItems s.pushes)) =
        some ([12, 13], [11], [11, 12, 13]) := by
    decide +kernel
  obtain ⟨s, hrun, hres⟩ := Option.map_eq_some_iff.mp hview
  simp only [Prod.mk.injEq] at hres
  exact ⟨s, hres.1, hres.2.1, hres.2.2, ringBuffer_refines_fifo (.of_run hrun)⟩

/-- A bulk push may be short although the buffer was empty when it loaded `tail_`. -/
theorem ringBuffer_push_short_when_empty :
    ¬ ∀ s : RbSys Nat 1, (ringBufferMachine Nat 1).Reachable s →
      ∀ r ∈ s.pushes, r.pushed < r.items.length → r.held = 1 := by
  let schedule : List (RbAct Nat) :=
    [.tryPushN [11, 12], .producer, .producer, .producer, .producer]
  have hview : ((ringBufferMachine Nat 1).run (.create 1) schedule).map
      (fun s => s.pushes.map (fun r => (r.items, r.pushed, r.held))) =
        some [([11, 12], 1, 0)] := by
    decide +kernel
  obtain ⟨s, hrun, hres⟩ := Option.map_eq_some_iff.mp hview
  intro hall
  obtain ⟨r, hr, hview⟩ := List.mem_map.mp (by rw [hres]; exact List.mem_singleton.mpr rfl :
    (([11, 12], 1, 0) : List Nat × Nat × Nat) ∈ s.pushes.map (fun r => (r.items, r.pushed, r.held)))
  simp only [Prod.mk.injEq] at hview
  have hheld := hall s (.of_run hrun) r hr (by rw [hview.1, hview.2.1]; decide)
  rw [hview.2.2] at hheld
  cases hheld

end MicrOsal
