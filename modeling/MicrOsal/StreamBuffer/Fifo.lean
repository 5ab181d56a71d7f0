import MicrOsal.StreamBuffer.Solo

/-!
# MicrOsal.StreamBuffer.Fifo

The stream buffer is a byte FIFO under every interleaving of its producer and
its consumer.

The invariant (`SbInv`) is stated at absolute positions: `H` bytes written and
`T` bytes consumed so far, with `head` and `tail` their residues. Each side's
program counter contributes what that side has already established about its
own region (`ProdOk`, `ConsOk`); the regions are disjoint, so a step of one
side never disturbs what the other knows.
-/

namespace MicrOsal

variable {w : Nat}

/-! ### What the record says -/

/-- The bytes of the sends that returned `ok`, in order. -/
def sentBytes (sends : List SbSendReturn) : List UInt8 :=
  (sends.filter fun r => r.code = .ok).flatMap fun r => r.data

/-- The bytes that left the buffer, received or discarded, in order. -/
def outBytes (outs : List SbOut) : List UInt8 := outs.flatMap SbOut.bytes

/-- Bytes already published by a send that has not returned yet. -/
def SbProducer.published : SbProducer w → List UInt8
  | .give c => c.data
  | _ => []

/-- Bytes already taken off the ring by a receive that has not returned yet. -/
def SbConsumer.inHand : SbConsumer w → List UInt8
  | .give _ _ out => out
  | _ => []

/-- The bytes between `tail` and `head`, oldest first. -/
def sbQueued (o : EmuSbObj) : List UInt8 :=
  ringCopyOut o.ringSize o.buf o.tail (sbAvailable o)

/-- A returned send: unless it succeeded, the producer's side is as it was. -/
def SbSendReturn.AllOrNothing (r : SbSendReturn) : Prop := r.code ≠ .ok → r.after = r.before

/-- A returned receive: nothing taken and nothing moved, or exactly
`min seen maxLen` bytes with at least `trigger` of them there. -/
def SbOut.Honest (trigger : Nat) : SbOut → Prop
  | .received maxLen seen bytes before after =>
    (bytes = [] ∧ after = before) ∨ (trigger ≤ seen ∧ bytes.length = min seen maxLen)
  | .discarded _ => True

/-! ### The invariant -/

/-- What the producer has established at each point. -/
def ProdOk (o : EmuSbObj) (H T : Nat) : SbProducer w → Prop
  | .idle | .give _ => True
  | .freeHead c | .clock c _ | .take c _ _ => c.buf₀ = o.buf ∧ c.head₀ = o.head
  | .freeTail c h => c.buf₀ = o.buf ∧ c.head₀ = o.head ∧ h = o.head
  | .writeHead c => H + c.data.length ≤ T + o.capacity
  | .writeCopy c h => h = o.head ∧ H + c.data.length ≤ T + o.capacity
  | .writeStore c h =>
    h = o.head ∧ H + c.data.length ≤ T + o.capacity ∧
      ringSpan o.ringSize o.buf H c.data.length = c.data

/-- What the consumer has established at each point. A loaded `head` is an older
absolute position `H₀`; everything below it stays readable. -/
def ConsOk (o : EmuSbObj) (H T : Nat) : SbConsumer w → Prop
  | .idle | .give _ _ _ | .resetHead => True
  | .availHead r | .clock r _ | .take r _ _ => r.tail₀ = o.tail
  | .availTail r h =>
    r.tail₀ = o.tail ∧ ∃ H₀, h = H₀ % o.ringSize ∧ T ≤ H₀ ∧ H₀ ≤ H ∧ r.seen = H₀ - T
  | .readTail r avail => avail = r.seen ∧ T + avail ≤ H ∧ o.trigger ≤ avail
  | .readCopy r avail t => t = o.tail ∧ avail = r.seen ∧ T + avail ≤ H ∧ o.trigger ≤ avail
  | .readStore r avail t out =>
    t = o.tail ∧ avail = r.seen ∧ T + avail ≤ H ∧ o.trigger ≤ avail ∧
      out = ringSpan o.ringSize o.buf T (min avail r.maxLen)
  | .resetTail h => ∃ H₀, h = H₀ % o.ringSize ∧ T ≤ H₀ ∧ H₀ ≤ H

/-- What the consumer holds when it is about to return bytes. -/
def ReturnOk (o : EmuSbObj) : SbConsumer w → Prop
  | .give r avail out =>
    avail = r.seen ∧ o.trigger ≤ avail ∧ out.length = min avail r.maxLen
  | _ => True

/-- The ring at absolute positions `H` (written) and `T` (consumed). -/
abbrev RingAt (o : EmuSbObj) (H T : Nat) : Prop :=
  RingPos o.ringSize o.capacity o.head o.tail H T

/-- The invariant of the concurrent system. -/
structure SbInv (s : SbSys w) (H T : Nat) : Prop where
  ring : RingAt s.obj H T
  prod : ProdOk s.obj H T s.prod
  cons : ConsOk s.obj H T s.cons
  ret : ReturnOk s.obj s.cons
  fifo : outBytes s.outs ++ s.cons.inHand ++ ringSpan s.obj.ringSize s.obj.buf T (H - T) =
    sentBytes s.sends ++ s.prod.published
  sends : ∀ r ∈ s.sends, r.AllOrNothing
  outs : ∀ o ∈ s.outs, o.Honest s.obj.trigger

section
variable {o : EmuSbObj} {H T : Nat}

theorem sbAvailable_eq (h : RingAt o H T) : sbAvailable o = H - T := h.available_now

/-- Everything between `tail` and `head` is the span `[T, H)`. -/
theorem sbQueued_eq (h : RingAt o H T) : sbQueued o = ringSpan o.ringSize o.buf T (H - T) := by
  rw [sbQueued, sbAvailable_eq h]
  exact h.copyOut (by have := h.cap; omega)

end

/-! ### Bookkeeping lemmas -/

theorem sentBytes_append (xs ys : List SbSendReturn) :
    sentBytes (xs ++ ys) = sentBytes xs ++ sentBytes ys := by
  simp [sentBytes]

theorem outBytes_append (xs ys : List SbOut) :
    outBytes (xs ++ ys) = outBytes xs ++ outBytes ys := by
  simp [outBytes]

/-- A send that returns an error adds no bytes and keeps the invariant when the
producer's side is as the call found it. -/
theorem SbInv.sendFails {s : SbSys w} {H T : Nat} (h : SbInv s H T) {c : SbSend w}
    {code : ErrorCode} (hcode : code ≠ .ok) (hpub : s.prod.published = [])
    (hbuf : c.buf₀ = s.obj.buf) (hhead : c.head₀ = s.obj.head) :
    SbInv (s.sendReturns c code) H T where
  ring := h.ring
  prod := trivial
  cons := h.cons
  ret := h.ret
  fifo := by
    have hadd : sentBytes [⟨c.data, code, (c.buf₀, c.head₀), (s.obj.buf, s.obj.head)⟩] = [] := by
      simp [sentBytes, hcode]
    have hfifo := h.fifo
    rw [hpub] at hfifo
    simpa [SbSys.sendReturns, sentBytes_append, hadd, SbProducer.published] using hfifo
  sends := by
    intro r hr
    rcases List.mem_append.mp hr with hr | hr
    · exact h.sends r hr
    · obtain rfl := List.mem_singleton.mp hr
      intro _
      simp [hbuf, hhead]
  outs := h.outs

/-- A receive that returns nothing keeps the invariant when `tail` is as the
call found it. -/
theorem SbInv.receiveFails {s : SbSys w} {H T : Nat} (h : SbInv s H T) {r : SbReceive w}
    (hhand : s.cons.inHand = []) (htail : r.tail₀ = s.obj.tail) :
    SbInv (s.receiveReturns r []) H T where
  ring := h.ring
  prod := h.prod
  cons := trivial
  ret := trivial
  fifo := by
    have hfifo := h.fifo
    rw [hhand] at hfifo
    simpa [SbSys.receiveReturns, outBytes, SbOut.bytes, SbConsumer.inHand] using hfifo
  sends := h.sends
  outs := by
    intro o ho
    rcases List.mem_append.mp ho with ho | ho
    · exact h.outs o ho
    · obtain rfl := List.mem_singleton.mp ho
      exact Or.inl ⟨rfl, htail.symm⟩

/-- The semaphores play no part in the invariant. -/
theorem SbInv.setSems {s : SbSys w} {H T : Nat} (h : SbInv s H T) (d e : Bool) :
    SbInv { s with obj := { s.obj with dataSem := d, spaceSem := e } } H T where
  ring := ⟨h.ring.size, h.ring.head, h.ring.tail, h.ring.le, h.ring.cap⟩
  prod := by
    have := h.prod
    cases hp : s.prod <;> rw [hp] at this <;> exact this
  cons := by
    have := h.cons
    cases hc : s.cons <;> rw [hc] at this <;> exact this
  ret := by
    have := h.ret
    cases hc : s.cons <;> rw [hc] at this <;> exact this
  fifo := h.fifo
  sends := h.sends
  outs := h.outs

/-- A producer step that touches nothing but its program counter. -/
theorem SbInv.moveProducer {s : SbSys w} {H T : Nat} (h : SbInv s H T) {p : SbProducer w}
    (hpub : p.published = s.prod.published) (hp : ProdOk s.obj H T p) :
    SbInv { s with prod := p } H T :=
  { h with prod := hp, fifo := by rw [hpub]; exact h.fifo }

/-- A consumer step that touches nothing but its program counter. -/
theorem SbInv.moveConsumer {s : SbSys w} {H T : Nat} (h : SbInv s H T) {c : SbConsumer w}
    (hhand : c.inHand = s.cons.inHand) (hc : ConsOk s.obj H T c) (hr : ReturnOk s.obj c) :
    SbInv { s with cons := c } H T :=
  { h with cons := hc, ret := hr, fifo := by rw [hhand]; exact h.fifo }

/-! ### The producer's steps -/

/-- What the consumer knows survives the producer copying into free cells. -/
theorem ConsOk.copyIn {o : EmuSbObj} {H T : Nat} {c : SbConsumer w} {data : List UInt8}
    (hring : RingAt o H T) (hfree : H + data.length ≤ T + o.capacity) (h : ConsOk o H T c) :
    ConsOk { o with buf := ringCopyIn o.ringSize o.buf o.head data } H T c := by
  cases c with
  | readStore r avail t out =>
      obtain ⟨ht, hseen, hle, htrig, hout⟩ := h
      refine ⟨ht, hseen, hle, htrig, ?_⟩
      have hsize := hring.size
      rw [hout, hring.head]
      exact (ringSpan_copyIn_frame hring.size_pos (by omega) (by omega)).symm
  | _ => exact h

/-- What the consumer knows survives the producer publishing. -/
theorem ConsOk.publish {o : EmuSbObj} {H H' T : Nat} {c : SbConsumer w} {head' : Nat}
    (hle : H ≤ H') (h : ConsOk o H T c) : ConsOk { o with head := head' } H' T c := by
  cases c with
  | availTail r h₀ =>
      obtain ⟨ht, H₀, hH₀, hT, hH, hseen⟩ := h
      exact ⟨ht, H₀, hH₀, hT, hH.trans hle, hseen⟩
  | readTail r avail => exact ⟨h.1, h.2.1.trans hle, h.2.2⟩
  | readCopy r avail t => exact ⟨h.1, h.2.1, h.2.2.1.trans hle, h.2.2.2⟩
  | readStore r avail t out =>
      exact ⟨h.1, h.2.1, h.2.2.1.trans hle, h.2.2.2⟩
  | resetTail h₀ =>
      obtain ⟨H₀, hH₀, hT, hH⟩ := h
      exact ⟨H₀, hH₀, hT, hH.trans hle⟩
  | _ => exact h

theorem SbInv.writeCopy {s : SbSys w} {H T : Nat} (h : SbInv s H T) {c : SbSend w} {hd : Nat}
    (hp : s.prod = .writeCopy c hd) :
    SbInv { s with
      obj := { s.obj with buf := ringCopyIn s.obj.ringSize s.obj.buf hd c.data }
      prod := .writeStore c hd } H T := by
  have hprod := h.prod
  rw [hp] at hprod
  obtain ⟨rfl, hfree⟩ := hprod
  have hsize := h.ring.size
  have hhead := h.ring.head
  have hle := h.ring.le
  have hlen : c.data.length ≤ s.obj.ringSize := by omega
  refine ⟨⟨h.ring.size, h.ring.head, h.ring.tail, h.ring.le, h.ring.cap⟩, ⟨rfl, hfree, ?_⟩,
    h.cons.copyIn h.ring hfree, ?_, ?_, h.sends, h.outs⟩
  · rw [hhead]
    exact ringSpan_copyIn h.ring.size_pos hlen
  · have := h.ret
    cases hc : s.cons <;> rw [hc] at this <;> exact this
  · -- the queued span ends where the write begins
    have hframe : ringSpan s.obj.ringSize (ringCopyIn s.obj.ringSize s.obj.buf s.obj.head c.data)
        T (H - T) = ringSpan s.obj.ringSize s.obj.buf T (H - T) := by
      rw [hhead]
      exact ringSpan_copyIn_frame h.ring.size_pos (by omega) (by omega)
    have hfifo := h.fifo
    rw [hp] at hfifo
    dsimp only
    rw [hframe]
    exact hfifo

theorem SbInv.writeStore {s : SbSys w} {H T : Nat} (h : SbInv s H T) {c : SbSend w} {hd : Nat}
    (hp : s.prod = .writeStore c hd) :
    SbInv { s with
      obj := { s.obj with head := ringAdvance s.obj.ringSize hd c.data.length }
      prod := .give c } (H + c.data.length) T := by
  have hprod := h.prod
  rw [hp] at hprod
  obtain ⟨rfl, hfree, hspan⟩ := hprod
  have hsize := h.ring.size
  have hle := h.ring.le
  have hadv : ringAdvance s.obj.ringSize s.obj.head c.data.length =
      (H + c.data.length) % s.obj.ringSize := by
    rw [h.ring.head]
    exact ringAdvance_mod h.ring.size_pos (by omega)
  refine ⟨⟨hsize, hadv, h.ring.tail, by omega, hfree⟩, trivial,
    h.cons.publish (by omega), ?_, ?_, h.sends, h.outs⟩
  · have := h.ret
    cases hc : s.cons <;> rw [hc] at this <;> exact this
  · have hsplit : H + c.data.length - T = (H - T) + c.data.length := by omega
    have hend : T + (H - T) = H := by omega
    have hfifo := h.fifo
    rw [hp] at hfifo
    dsimp only
    rw [hsplit, ringSpan_add, hend, hspan, ← List.append_assoc, hfifo]
    simp [SbProducer.published]

theorem SbInv.stepProducer {s s' : SbSys w} {H T : Nat} {timedOut : Bool} (h : SbInv s H T)
    (hs : s.stepProducer timedOut = some s') : ∃ H', SbInv s' H' T := by
  have hprod := h.prod
  unfold SbSys.stepProducer at hs
  cases hp : s.prod with
  | idle => rw [hp] at hs; cases hs
  | freeHead c =>
      rw [hp] at hs hprod
      cases hs
      exact ⟨H, h.moveProducer (by rw [hp]; rfl) ⟨hprod.1, hprod.2, rfl⟩⟩
  | freeTail c hd =>
      rw [hp] at hs hprod
      obtain ⟨hbuf, hhead, rfl⟩ := hprod
      dsimp only at hs
      rw [show ringAvailable s.obj.ringSize s.obj.head s.obj.tail = H - T from
        (sbAvailable_eq h.ring)] at hs
      split at hs
      · cases hs
        have := h.ring.le
        have := h.ring.cap
        exact ⟨H, h.moveProducer (by rw [hp]; rfl) (by simp only [ProdOk]; omega)⟩
      · split at hs
        · cases hs
          exact ⟨H, h.sendFails (by decide) (by rw [hp]; rfl) hbuf hhead⟩
        · cases hs
          exact ⟨H, h.moveProducer (by rw [hp]; rfl) ⟨hbuf, hhead⟩⟩
  | writeHead c =>
      rw [hp] at hs hprod
      cases hs
      exact ⟨H, h.moveProducer (by rw [hp]; rfl) ⟨rfl, hprod⟩⟩
  | writeCopy c hd =>
      rw [hp] at hs
      cases hs
      exact ⟨H, h.writeCopy hp⟩
  | writeStore c hd =>
      rw [hp] at hs
      cases hs
      exact ⟨_, h.writeStore hp⟩
  | give c =>
      rw [hp] at hs
      cases hs
      refine ⟨H, ?_⟩
      have h' := h.setSems true s.obj.spaceSem
      refine ⟨h'.ring, trivial, h'.cons, h'.ret, ?_, ?_, h'.outs⟩
      · have hfifo := h.fifo
        rw [hp] at hfifo
        simpa [SbSys.sendReturns, sentBytes_append, sentBytes, SbProducer.published] using hfifo
      · intro r hr
        rcases List.mem_append.mp hr with hr | hr
        · exact h.sends r hr
        · obtain rfl := List.mem_singleton.mp hr
          exact fun hne => absurd rfl hne
  | clock c free =>
      rw [hp] at hs hprod
      dsimp only at hs
      split at hs
      · cases hs
        exact ⟨H, h.sendFails (by decide) (by rw [hp]; rfl) hprod.1 hprod.2⟩
      · cases hs
        exact ⟨H, h.moveProducer (by rw [hp]; rfl) hprod⟩
  | take c free remaining =>
      rw [hp] at hs hprod
      dsimp only at hs
      split at hs
      · split at hs
        · cases hs
        · cases hs
          exact ⟨H, h.moveProducer (by rw [hp]; rfl) hprod⟩
      · split at hs
        · cases hs
          exact ⟨H, (h.setSems s.obj.dataSem false).moveProducer (by rw [hp]; rfl) hprod⟩
        · cases hs

/-! ### The consumer's steps -/

/-- What the producer knows survives the consumer freeing cells. -/
theorem ProdOk.free {o : EmuSbObj} {H T T' : Nat} {p : SbProducer w} {tail' : Nat}
    (hle : T ≤ T') (h : ProdOk o H T p) : ProdOk { o with tail := tail' } H T' p := by
  cases p with
  | writeHead c => exact h.trans (by simp only; omega)
  | writeCopy c hd => exact ⟨h.1, h.2.trans (by simp only; omega)⟩
  | writeStore c hd => exact ⟨h.1, h.2.1.trans (by simp only; omega), h.2.2⟩
  | _ => exact h

theorem SbInv.readStore {s : SbSys w} {H T : Nat} (h : SbInv s H T) {r : SbReceive w}
    {avail t : Nat} {out : List UInt8} (hc : s.cons = .readStore r avail t out) :
    SbInv { s with
      obj := { s.obj with tail := ringAdvance s.obj.ringSize t (min avail r.maxLen) }
      cons := .give r avail out } H (T + min avail r.maxLen) := by
  have hcons := h.cons
  rw [hc] at hcons
  obtain ⟨rfl, hseen, hle, htrig, hout⟩ := hcons
  have hsize := h.ring.size
  have hcap := h.ring.cap
  have hmin : min avail r.maxLen ≤ avail := Nat.min_le_left _ _
  have hadv : ringAdvance s.obj.ringSize s.obj.tail (min avail r.maxLen) =
      (T + min avail r.maxLen) % s.obj.ringSize := by
    rw [h.ring.tail]
    exact ringAdvance_mod h.ring.size_pos (by omega)
  have hcap' : H ≤ T + min avail r.maxLen + s.obj.capacity := by omega
  refine ⟨⟨hsize, h.ring.head, hadv, by omega, hcap'⟩, h.prod.free (by omega), trivial,
    ⟨hseen, htrig, by rw [hout, ringSpan_length]⟩, ?_, h.sends, h.outs⟩
  have hsplit : H - T = min avail r.maxLen + (H - (T + min avail r.maxLen)) := by omega
  have hfifo := h.fifo
  rw [hc, hsplit, ringSpan_add, ← hout] at hfifo
  simpa [SbConsumer.inHand] using hfifo

theorem SbInv.resetTail {s : SbSys w} {H T hd : Nat} (h : SbInv s H T)
    (hc : s.cons = .resetTail hd) :
    ∃ T', SbInv { s with
      obj := { s.obj with tail := hd }
      cons := .idle
      outs := s.outs ++ [.discarded (ringCopyOut s.obj.ringSize s.obj.buf s.obj.tail
        (ringAvailable s.obj.ringSize hd s.obj.tail))] } H T' := by
  have hcons := h.cons
  rw [hc] at hcons
  obtain ⟨H₀, rfl, hT, hH⟩ := hcons
  have hsize := h.ring.size
  have hcap := h.ring.cap
  have hlost : ringCopyOut s.obj.ringSize s.obj.buf s.obj.tail
      (ringAvailable s.obj.ringSize (H₀ % s.obj.ringSize) s.obj.tail) =
      ringSpan s.obj.ringSize s.obj.buf T (H₀ - T) := by
    rw [h.ring.available_eq hT hH, h.ring.tail]
    exact ringCopyOut_mod h.ring.size_pos (by omega)
  have hcap' : H ≤ H₀ + s.obj.capacity := by omega
  refine ⟨H₀, ⟨hsize, h.ring.head, rfl, hH, hcap'⟩, h.prod.free hT, trivial, trivial, ?_,
    h.sends, ?_⟩
  · have hsplit : H - T = (H₀ - T) + (H - H₀) := by omega
    have hmid : T + (H₀ - T) = H₀ := by omega
    have hfifo := h.fifo
    rw [hc, hsplit, ringSpan_add, hmid] at hfifo
    simp only [SbConsumer.inHand, outBytes_append, hlost] at hfifo ⊢
    simpa [outBytes, SbOut.bytes] using hfifo
  · intro o ho
    rcases List.mem_append.mp ho with ho | ho
    · exact h.outs o ho
    · obtain rfl := List.mem_singleton.mp ho
      trivial

theorem SbInv.receiveReturns {s : SbSys w} {H T : Nat} (h : SbInv s H T) {r : SbReceive w}
    {avail : Nat} {out : List UInt8} (hc : s.cons = .give r avail out) :
    SbInv (s.receiveReturns r out) H T := by
  have hret := h.ret
  rw [hc] at hret
  obtain ⟨hseen, htrig, hlen⟩ := hret
  refine ⟨h.ring, h.prod, trivial, trivial, ?_, h.sends, ?_⟩
  · have hfifo := h.fifo
    rw [hc] at hfifo
    simpa [SbSys.receiveReturns, outBytes, SbOut.bytes, SbConsumer.inHand] using hfifo
  · intro o ho
    rcases List.mem_append.mp ho with ho | ho
    · exact h.outs o ho
    · obtain rfl := List.mem_singleton.mp ho
      exact Or.inr ⟨hseen ▸ htrig, hseen ▸ hlen⟩

theorem SbInv.stepConsumer {s s' : SbSys w} {H T : Nat} {timedOut : Bool} (h : SbInv s H T)
    (hs : s.stepConsumer timedOut = some s') : ∃ T', SbInv s' H T' := by
  have hcons := h.cons
  unfold SbSys.stepConsumer at hs
  generalize hc : s.cons = here at hs
  cases here with
  | idle => cases hs
  | availHead r =>
      rw [hc] at hcons
      cases hs
      exact ⟨T, h.moveConsumer (by rw [hc]; rfl)
        ⟨hcons, H, h.ring.head, h.ring.le, le_rfl, (sbAvailable_eq h.ring)⟩ trivial⟩
  | availTail r hd =>
      rw [hc] at hcons
      obtain ⟨htail, H₀, rfl, hT, hH, hseen⟩ := hcons
      dsimp only at hs
      rw [h.ring.available_eq hT hH] at hs
      split at hs
      · rename_i htrig
        cases hs
        exact ⟨T, h.moveConsumer (by rw [hc]; rfl) ⟨hseen.symm, by omega, htrig⟩ trivial⟩
      · split at hs
        · cases hs
          exact ⟨T, h.receiveFails (by rw [hc]; rfl) htail⟩
        · cases hs
          exact ⟨T, h.moveConsumer (by rw [hc]; rfl) htail trivial⟩
  | readTail r avail =>
      rw [hc] at hcons
      cases hs
      exact ⟨T, h.moveConsumer (by rw [hc]; rfl) ⟨rfl, hcons⟩ trivial⟩
  | readCopy r avail t =>
      rw [hc] at hcons
      obtain ⟨rfl, hseen, hle, htrig⟩ := hcons
      cases hs
      have := h.ring.size
      have := h.ring.cap
      refine ⟨T, h.moveConsumer (by rw [hc]; rfl) ⟨rfl, hseen, hle, htrig, ?_⟩ trivial⟩
      rw [h.ring.tail]
      exact ringCopyOut_mod h.ring.size_pos (by omega)
  | readStore r avail t out =>
      cases hs
      exact ⟨_, h.readStore hc⟩
  | give r avail out =>
      cases hs
      exact ⟨T, (h.setSems s.obj.dataSem true).receiveReturns hc⟩
  | clock r avail =>
      rw [hc] at hcons
      dsimp only at hs
      split at hs
      · cases hs
        exact ⟨T, h.receiveFails (by rw [hc]; rfl) hcons⟩
      · cases hs
        exact ⟨T, h.moveConsumer (by rw [hc]; rfl) hcons trivial⟩
  | take r avail remaining =>
      rw [hc] at hcons
      dsimp only at hs
      split at hs
      · split at hs
        · cases hs
        · cases hs
          exact ⟨T, h.moveConsumer (by rw [hc]; rfl) hcons trivial⟩
      · split at hs
        · cases hs
          exact ⟨T, (h.setSems false s.obj.spaceSem).moveConsumer (by rw [hc]; rfl) hcons trivial⟩
        · cases hs
  | resetHead =>
      cases hs
      exact ⟨T, h.moveConsumer (by rw [hc]; rfl) ⟨H, h.ring.head, h.ring.le, le_rfl⟩ trivial⟩
  | resetTail hd =>
      cases hs
      exact h.resetTail hc

/-! ### Whole runs -/

theorem SbInv.beginSend {s : SbSys w} {H T : Nat} (h : SbInv s H T) (hp : s.prod = .idle)
    (data : Option (List UInt8)) (timeout : Option (Tick w)) :
    SbInv (s.beginSend data timeout) H T := by
  unfold SbSys.beginSend
  dsimp only
  split
  · rename_i code hcode
    refine h.sendFails ?_ (by rw [hp]; rfl) rfl rfl
    -- every code the validation returns is `invalidArgument`
    rintro rfl
    unfold SbSys.sendCheck at hcode
    split at hcode
    · cases hcode
    · split at hcode
      · cases hcode
      · split at hcode <;> cases hcode
  · exact h.moveProducer (by rw [hp]; rfl) ⟨rfl, rfl⟩

theorem SbInv.beginReceive {s : SbSys w} {H T : Nat} (h : SbInv s H T) (hc : s.cons = .idle)
    (maxLen : Nat) (timeout : Option (Tick w)) : SbInv (s.beginReceive maxLen timeout) H T := by
  unfold SbSys.beginReceive
  dsimp only
  split
  · exact h.receiveFails (by rw [hc]; rfl) rfl
  · exact h.moveConsumer (by rw [hc]; rfl) rfl trivial

/-- Every step of the system keeps the invariant, at some later positions. -/
theorem SbInv.step {s s' : SbSys w} {H T : Nat} {a : SbAct w} (h : SbInv s H T)
    (hs : s.step a = some s') : ∃ H' T', SbInv s' H' T' := by
  cases a with
  | send data timeout =>
      simp only [SbSys.step] at hs
      split at hs
      · rename_i hp
        cases hs
        exact ⟨H, T, h.beginSend hp _ _⟩
      · cases hs
  | sendIsr data =>
      simp only [SbSys.step] at hs
      split at hs
      · rename_i hp
        cases hs
        exact ⟨H, T, h.beginSend hp _ _⟩
      · cases hs
  | receive maxLen timeout =>
      simp only [SbSys.step] at hs
      split at hs
      · rename_i hc
        cases hs
        exact ⟨H, T, h.beginReceive hc _ _⟩
      · cases hs
  | receiveIsr maxLen =>
      simp only [SbSys.step] at hs
      split at hs
      · rename_i hc
        cases hs
        exact ⟨H, T, h.beginReceive hc _ _⟩
      · cases hs
  | reset =>
      simp only [SbSys.step] at hs
      split at hs
      · rename_i hc
        cases hs
        exact ⟨H, T, h.moveConsumer (by rw [hc]; rfl) trivial trivial⟩
      · cases hs
  | producer timedOut =>
      obtain ⟨H', h'⟩ := h.stepProducer hs
      exact ⟨H', T, h'⟩
  | consumer timedOut =>
      obtain ⟨T', h'⟩ := h.stepConsumer hs
      exact ⟨H, T', h'⟩
  | tick =>
      cases hs
      exact ⟨H, T, h.ring, h.prod, h.cons, h.ret, h.fifo, h.sends, h.outs⟩

/-- What `osal_stream_buffer_create` fixes for the life of the object. -/
theorem osalStreamBufferCreate_shape {buffer : Option (Nat → UInt8)}
    {capacity triggerLevel : Nat} {obj : EmuSbObj}
    (hcreate : osalStreamBufferCreate buffer capacity triggerLevel = .ok obj) :
    obj.capacity = capacity ∧ obj.trigger = if triggerLevel = 0 then 1 else triggerLevel := by
  unfold osalStreamBufferCreate at hcreate
  split at hcreate
  · cases hcreate
  · split at hcreate
    · cases hcreate
    · obtain rfl := Except.ok.inj hcreate
      exact ⟨rfl, rfl⟩

/-- A freshly created buffer satisfies the invariant at positions `0`. -/
theorem SbInv.init {buffer : Option (Nat → UInt8)} {capacity triggerLevel : Nat} {obj : EmuSbObj}
    (hcreate : osalStreamBufferCreate buffer capacity triggerLevel = .ok obj) :
    SbInv (SbSys.ofObj (w := w) obj) 0 0 := by
  unfold osalStreamBufferCreate at hcreate
  split at hcreate
  · cases hcreate
  · split at hcreate
    · cases hcreate
    · obtain rfl := Except.ok.inj hcreate
      refine ⟨⟨rfl, ?_, ?_, le_rfl, Nat.zero_le _⟩, trivial, trivial, trivial, rfl, ?_, ?_⟩
      · simp [SbSys.ofObj]
      · simp [SbSys.ofObj]
      · simp [SbSys.ofObj]
      · simp [SbSys.ofObj]

/-- The invariant holds in every reachable state. -/
theorem SbInv.reachable {buffer : Option (Nat → UInt8)} {capacity triggerLevel : Nat}
    {obj : EmuSbObj} (hcreate : osalStreamBufferCreate buffer capacity triggerLevel = .ok obj)
    {s : SbSys w} (hs : (sbMachine w obj).Reachable s) : ∃ H T, SbInv s H T :=
  Machine.Reachable.invariant (I := fun s => ∃ H T, SbInv s H T)
    ⟨0, 0, SbInv.init hcreate⟩
    (fun _ _ _ _ hi hstep => let ⟨_, _, h⟩ := hi; h.step hstep) hs

/-! ### What each side leaves alone -/

/-- The producer never moves `tail`, and the shape of the object is fixed. -/
theorem SbSys.stepProducer_frame {s s' : SbSys w} {timedOut : Bool}
    (hs : s.stepProducer timedOut = some s') :
    s'.obj.capacity = s.obj.capacity ∧ s'.obj.trigger = s.obj.trigger ∧
      s'.obj.tail = s.obj.tail := by
  unfold SbSys.stepProducer at hs
  cases hp : s.prod <;> rw [hp] at hs <;> dsimp only at hs
  case idle => cases hs
  case freeTail => split at hs <;> [skip; split at hs] <;> cases hs <;> exact ⟨rfl, rfl, rfl⟩
  case clock => split at hs <;> cases hs <;> exact ⟨rfl, rfl, rfl⟩
  case take => split at hs <;> split at hs <;> cases hs <;> exact ⟨rfl, rfl, rfl⟩
  all_goals cases hs; exact ⟨rfl, rfl, rfl⟩

/-- The consumer never writes the ring or moves `head`. -/
theorem SbSys.stepConsumer_frame {s s' : SbSys w} {timedOut : Bool}
    (hs : s.stepConsumer timedOut = some s') :
    s'.obj.capacity = s.obj.capacity ∧ s'.obj.trigger = s.obj.trigger ∧
      s'.obj.buf = s.obj.buf ∧ s'.obj.head = s.obj.head := by
  unfold SbSys.stepConsumer at hs
  cases hc : s.cons <;> rw [hc] at hs <;> dsimp only at hs
  case idle => cases hs
  case availTail => split at hs <;> [skip; split at hs] <;> cases hs <;> exact ⟨rfl, rfl, rfl, rfl⟩
  case clock => split at hs <;> cases hs <;> exact ⟨rfl, rfl, rfl, rfl⟩
  case take => split at hs <;> split at hs <;> cases hs <;> exact ⟨rfl, rfl, rfl, rfl⟩
  all_goals cases hs; exact ⟨rfl, rfl, rfl, rfl⟩

@[simp] theorem SbSys.beginSend_obj (s : SbSys w) (data : Option (List UInt8))
    (timeout : Option (Tick w)) : (s.beginSend data timeout).obj = s.obj := by
  unfold SbSys.beginSend
  dsimp only
  split <;> rfl

@[simp] theorem SbSys.beginReceive_obj (s : SbSys w) (maxLen : Nat) (timeout : Option (Tick w)) :
    (s.beginReceive maxLen timeout).obj = s.obj := by
  unfold SbSys.beginReceive
  dsimp only
  split <;> rfl

theorem SbSys.step_shape {s s' : SbSys w} {a : SbAct w} (hs : s.step a = some s') :
    s'.obj.capacity = s.obj.capacity ∧ s'.obj.trigger = s.obj.trigger := by
  cases a with
  | producer timedOut =>
      obtain ⟨hcap, htrig, -⟩ := SbSys.stepProducer_frame hs
      exact ⟨hcap, htrig⟩
  | consumer timedOut =>
      obtain ⟨hcap, htrig, -⟩ := SbSys.stepConsumer_frame hs
      exact ⟨hcap, htrig⟩
  | tick => cases hs; exact ⟨rfl, rfl⟩
  | _ =>
      simp only [SbSys.step] at hs
      split at hs <;> cases hs
      simp

theorem SbSys.reachable_shape {obj : EmuSbObj} {s : SbSys w}
    (hs : (sbMachine w obj).Reachable s) :
    s.obj.capacity = obj.capacity ∧ s.obj.trigger = obj.trigger :=
  Machine.Reachable.invariant
    (I := fun s : SbSys w => s.obj.capacity = obj.capacity ∧ s.obj.trigger = obj.trigger)
    ⟨rfl, rfl⟩
    (fun _ _ _ _ hi hstep =>
      let h := SbSys.step_shape hstep
      ⟨h.1.trans hi.1, h.2.trans hi.2⟩) hs

/-! ### The byte FIFO -/

/-- The stream buffer is a byte FIFO. In every state any interleaving of the two
sides reaches: what left the buffer, in order, followed by what is still queued
is exactly what the successful sends put in (a call between its index store and
its return counts as `inHand` or `published`); a failed send left ring, `head`
and `tail` as they were; a receive took nothing or `min seen maxLen` bytes with
the trigger met, and writes nothing but `tail`; the indices stay inside the ring
and the byte counts add up. Uninterrupted, the ISR entry points agree with the
non-blocking ones, except that a payload larger than the capacity is reported as
`timeout` instead of `invalidArgument`. -/
theorem streamBuffer_byte_fifo {buffer : Option (Nat → UInt8)} {capacity triggerLevel : Nat}
    {obj : EmuSbObj} (hcreate : osalStreamBufferCreate buffer capacity triggerLevel = .ok obj)
    {s : SbSys w} (hs : (sbMachine w obj).Reachable s) :
    outBytes s.outs ++ s.cons.inHand ++ sbQueued s.obj = sentBytes s.sends ++ s.prod.published ∧
    (∀ r ∈ s.sends, r.AllOrNothing) ∧
    (∀ timedOut s', s.stepProducer timedOut = some s' → s'.obj.tail = s.obj.tail) ∧
    (∀ o ∈ s.outs, o.Honest (if triggerLevel = 0 then 1 else triggerLevel)) ∧
    (∀ timedOut s', s.stepConsumer timedOut = some s' →
      s'.obj.buf = s.obj.buf ∧ s'.obj.head = s.obj.head) ∧
    s.obj.head < capacity + 1 ∧ s.obj.tail < capacity + 1 ∧
    sbAvailable s.obj + sbFree s.obj = capacity ∧
    (∀ maxLen, osalStreamBufferReceiveIsr (some s.obj) maxLen =
      osalStreamBufferReceiveNoWait (some s.obj) maxLen) ∧
    (∀ data : Option (List UInt8), (data.getD []).length ≤ capacity →
      osalStreamBufferSendIsr (some s.obj) data =
        osalStreamBufferSendNoWait (some s.obj) data) ∧
    (∀ data : List UInt8, capacity < data.length →
      osalStreamBufferSendNoWait (some s.obj) (some data) = (.invalidArgument, some s.obj) ∧
        osalStreamBufferSendIsr (some s.obj) (some data) = (.timeout, some s.obj)) := by
  obtain ⟨H, T, h⟩ := SbInv.reachable hcreate hs
  obtain ⟨hcapacity, htrigger⟩ := SbSys.reachable_shape hs
  obtain ⟨hobj, htrig⟩ := osalStreamBufferCreate_shape hcreate
  rw [hobj] at hcapacity
  rw [htrig] at htrigger
  have hsize := h.ring.size
  have hle := h.ring.le
  have hcap := h.ring.cap
  rw [hcapacity] at hsize hcap
  refine ⟨?_, h.sends, fun _ _ hstep => (SbSys.stepProducer_frame hstep).2.2,
    htrigger ▸ h.outs, fun _ _ hstep => (SbSys.stepConsumer_frame hstep).2.2, ?_, ?_, ?_,
    osalStreamBufferReceiveIsr_eq _, ?_, ?_⟩
  · rw [sbQueued_eq h.ring]
    exact h.fifo
  · rw [h.ring.head, hsize]
    exact Nat.mod_lt _ (Nat.succ_pos _)
  · rw [h.ring.tail, hsize]
    exact Nat.mod_lt _ (Nat.succ_pos _)
  · rw [sbFree, (sbAvailable_eq h.ring), hcapacity]
    omega
  · intro data hfits
    exact osalStreamBufferSendIsr_eq _ _ (hcapacity ▸ hfits)
  · intro data hbig
    exact osalStreamBufferSend_oversized _ _ (hcapacity ▸ hbig)

/-- One byte through a one-byte buffer: sent and still queued. -/
theorem streamBuffer_byte_fifo_one :
    ∃ (obj : EmuSbObj) (s : SbSys 32),
      osalStreamBufferCreate (some fun _ => 0) 1 1 = .ok obj ∧
      (sbMachine 32 obj).Reachable s ∧ sentBytes s.sends = [7] ∧
      outBytes s.outs ++ s.cons.inHand ++ sbQueued s.obj =
        sentBytes s.sends ++ s.prod.published := by
  have hcreate : osalStreamBufferCreate (some fun _ => 0) 1 1 =
      .ok ⟨fun _ => 0, 2, 1, 1, 0, 0, false, false⟩ := rfl
  have hrun : (sbMachine 32 ⟨fun _ => 0, 2, 1, 1, 0, 0, false, false⟩).run
      (SbSys.ofObj ⟨fun _ => 0, 2, 1, 1, 0, 0, false, false⟩)
      (.sendIsr (some [7]) :: List.replicate 6 (.producer false)) = some _ := rfl
  exact ⟨_, _, hcreate, Machine.Reachable.of_run hrun, rfl,
    (streamBuffer_byte_fifo hcreate (Machine.Reachable.of_run hrun)).1⟩

/-- Two bytes into a one-byte buffer: `send` reports a bad argument, `send_isr`
a timeout. -/
theorem streamBuffer_oversized_codes_differ :
    ∃ obj, osalStreamBufferCreate (some fun _ => 0) 1 1 = .ok obj ∧
      (osalStreamBufferSendNoWait (some obj) (some [0, 0])).1 ≠
        (osalStreamBufferSendIsr (some obj) (some [0, 0])).1 :=
  ⟨_, rfl, by decide⟩

end MicrOsal
