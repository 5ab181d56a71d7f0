import MicrOsal.MessageBuffer.Model

/-!
# MicrOsal.MessageBuffer.Indices

The indices of the message buffer under every interleaving, whatever is sent.

Nothing here depends on what the bytes in the ring say: the consumer checks
every frame it decodes against the bytes available, so even a ring whose
content makes no sense as frames keeps `head` and `tail` in range and at most
`capacity` apart. `MessageBuffer.Fifo` adds the content.
-/

namespace MicrOsal

variable {w : Nat}

/-- A returned send: unless it succeeded, the producer's side is as it was. -/
def MbSendReturn.AllOrNothing (r : MbSendReturn) : Prop := r.code ≠ .ok → r.after = r.before

/-- The ring at absolute positions `H` (written) and `T` (consumed). -/
abbrev MbRingAt (o : EmuMbObj) (H T : Nat) : Prop :=
  RingPos o.ringSize o.capacity o.head o.tail H T

/-- What the producer knows about the indices at each point. -/
def MbProdIdx (o : EmuMbObj) (H T : Nat) : MbProducer w → Prop
  | .idle | .give _ => True
  | .freeHead c | .clock c _ | .take c _ _ => c.buf₀ = o.buf ∧ c.head₀ = o.head
  | .freeTail c h => c.buf₀ = o.buf ∧ c.head₀ = o.head ∧ h = o.head
  | .writeHead c => H + mbFrameSize c.msg.length ≤ T + o.capacity
  | .writeHeader c h | .writePayload c h | .writeStore c h =>
    h = o.head ∧ H + mbFrameSize c.msg.length ≤ T + o.capacity

/-- What the consumer knows about the indices at each point. A loaded `head` is
an older absolute position `H₀`. -/
def MbConsIdx (o : EmuMbObj) (H T : Nat) : MbConsumer w → Prop
  | .availTail _ h | .againTail _ _ h | .resetTail h =>
    ∃ H₀, h = H₀ % o.ringSize ∧ T ≤ H₀ ∧ H₀ ≤ H
  | .peekTail _ avail => T + avail ≤ H
  | .peekCopy _ avail t => t = o.tail ∧ T + avail ≤ H
  | .skipTail _ n => T + (kMsgHeaderBytes + n) ≤ H
  | .skipStore _ n t => t = o.tail ∧ T + (kMsgHeaderBytes + n) ≤ H
  | .readTail _ n => T + n ≤ H
  | .readCopy _ n t | .readStore _ n t _ => t = o.tail ∧ T + n ≤ H
  | .restTail r n _ => T + (n - r.maxLen) ≤ H
  | .restStore r n t _ => t = o.tail ∧ T + (n - r.maxLen) ≤ H
  | _ => True

/-- The index invariant of the concurrent system. -/
structure MbIdx (s : MbSys w) (H T : Nat) : Prop where
  ring : MbRingAt s.obj H T
  prod : MbProdIdx s.obj H T s.prod
  cons : MbConsIdx s.obj H T s.cons
  sends : ∀ r ∈ s.sends, r.AllOrNothing

/-- How far the producer's next step moves `head`. -/
def MbProducer.publishes : MbProducer w → Nat
  | .writeStore c _ => mbFrameSize c.msg.length
  | _ => 0

/-- How far the consumer's next step moves `tail`. -/
def MbSys.consumes (s : MbSys w) : Nat :=
  match s.cons with
  | .skipStore _ _ _ => kMsgHeaderBytes
  | .readStore r n _ _ => min n r.maxLen
  | .restStore r n _ _ => n - r.maxLen
  | .resetTail h => ringAvailable s.obj.ringSize h s.obj.tail
  | _ => 0

/-! ### Bookkeeping lemmas -/

theorem MbIdx.sendFails {s : MbSys w} {H T : Nat} (h : MbIdx s H T) {c : MbSend w}
    {code : ErrorCode} (hbuf : c.buf₀ = s.obj.buf) (hhead : c.head₀ = s.obj.head) :
    MbIdx (s.sendReturns c code) H T where
  ring := h.ring
  prod := trivial
  cons := h.cons
  sends := by
    intro r hr
    rcases List.mem_append.mp hr with hr | hr
    · exact h.sends r hr
    · obtain rfl := List.mem_singleton.mp hr
      intro _
      simp [hbuf, hhead]

/-- A consumer step that touches neither the ring nor the indices. -/
theorem MbIdx.moveConsumer {s : MbSys w} {H T : Nat} (h : MbIdx s H T) {c : MbConsumer w}
    (outs : List MbOut) (hc : MbConsIdx s.obj H T c) :
    MbIdx { s with cons := c, outs := outs } H T :=
  ⟨h.ring, h.prod, hc, h.sends⟩

theorem MbIdx.moveProducer {s : MbSys w} {H T : Nat} (h : MbIdx s H T) {p : MbProducer w}
    (hp : MbProdIdx s.obj H T p) : MbIdx { s with prod := p } H T :=
  ⟨h.ring, hp, h.cons, h.sends⟩

/-- The semaphores play no part in the invariant. -/
theorem MbIdx.setSems {s : MbSys w} {H T : Nat} (h : MbIdx s H T) (d e : Bool) :
    MbIdx { s with obj := { s.obj with dataSem := d, spaceSem := e } } H T where
  ring := h.ring
  prod := by
    have := h.prod
    cases hp : s.prod <;> rw [hp] at this <;> exact this
  cons := by
    have := h.cons
    cases hc : s.cons <;> rw [hc] at this <;> exact this
  sends := h.sends

/-- The producer rewrites cells; the consumer's indices are untouched. -/
theorem MbConsIdx.setBuf {o : EmuMbObj} {H T : Nat} {c : MbConsumer w} (h : MbConsIdx o H T c)
    (buf : Nat → UInt8) : MbConsIdx { o with buf := buf } H T c := by
  cases c <;> exact h

theorem MbConsIdx.publish {o : EmuMbObj} {H H' T : Nat} {c : MbConsumer w} (head' : Nat)
    (hle : H ≤ H') (h : MbConsIdx o H T c) : MbConsIdx { o with head := head' } H' T c := by
  cases c with
  | availTail r hd | againTail r out hd | resetTail hd =>
      obtain ⟨H₀, hH₀, hT, hH⟩ := h
      exact ⟨H₀, hH₀, hT, hH.trans hle⟩
  | peekTail r avail | skipTail r n | readTail r n | restTail r n out => exact h.trans hle
  | peekCopy r avail t | skipStore r n t | readCopy r n t | readStore r n t out
  | restStore r n t out => exact ⟨h.1, h.2.trans hle⟩
  | _ => trivial

/-- What the producer knows survives the consumer freeing cells. -/
theorem MbProdIdx.free {o : EmuMbObj} {H T T' : Nat} {p : MbProducer w} (tail' : Nat)
    (hle : T ≤ T') (h : MbProdIdx o H T p) : MbProdIdx { o with tail := tail' } H T' p := by
  have hcap : T + o.capacity ≤ T' + o.capacity := Nat.add_le_add_right hle _
  cases p with
  | writeHead c => exact h.trans hcap
  | writeHeader c hd | writePayload c hd | writeStore c hd => exact ⟨h.1, h.2.trans hcap⟩
  | _ => exact h

theorem MbIdx.advanceTail {s : MbSys w} {H T : Nat} (h : MbIdx s H T) {len : Nat}
    {pc : MbConsumer w} (hlen : T + len ≤ H)
    (hpc : MbConsIdx { s.obj with tail := ringAdvance s.obj.ringSize s.obj.tail len } H (T + len)
      pc) :
    MbIdx (s.advanceTail s.obj.tail len pc) H (T + len) where
  ring := h.ring.advanceTail hlen
  prod := h.prod.free _ (Nat.le_add_right _ _)
  cons := hpc
  sends := h.sends

theorem MbIdx.noMessage {s : MbSys w} {H T : Nat} (h : MbIdx s H T) (r : MbReceive w) :
    MbIdx (s.noMessage r) H T := by
  unfold MbSys.noMessage
  split
  · exact h.moveConsumer _ trivial
  · exact h.moveConsumer _ trivial

/-! ### Every step keeps it -/

theorem MbIdx.stepProducer {s s' : MbSys w} {H T : Nat} {timedOut : Bool} (h : MbIdx s H T)
    (hs : s.stepProducer timedOut = some s') : MbIdx s' (H + s.prod.publishes) T := by
  have hprod := h.prod
  unfold MbSys.stepProducer at hs
  cases hp : s.prod with
  | idle => rw [hp] at hs; cases hs
  | freeHead c =>
      rw [hp] at hs hprod
      cases hs
      exact h.moveProducer ⟨hprod.1, hprod.2, rfl⟩
  | freeTail c hd =>
      rw [hp] at hs hprod
      obtain ⟨hbuf, hhead, rfl⟩ := hprod
      dsimp only at hs
      rw [h.ring.available_now] at hs
      split at hs
      · rename_i hfit
        cases hs
        have hle := h.ring.le
        have hcap := h.ring.cap
        exact h.moveProducer (show H + _ ≤ _ by omega)
      · split at hs
        · cases hs
          exact h.sendFails hbuf hhead
        · cases hs
          exact h.moveProducer ⟨hbuf, hhead⟩
  | writeHead c =>
      rw [hp] at hs hprod
      cases hs
      exact h.moveProducer ⟨rfl, hprod⟩
  | writeHeader c hd | writePayload c hd =>
      rw [hp] at hs hprod
      cases hs
      exact ⟨h.ring, hprod, h.cons.setBuf _, h.sends⟩
  | writeStore c hd =>
      rw [hp] at hs hprod
      obtain ⟨rfl, hfree⟩ := hprod
      cases hs
      exact ⟨h.ring.advanceHead hfree, trivial, h.cons.publish _ (Nat.le_add_right _ _), h.sends⟩
  | give c =>
      rw [hp] at hs
      cases hs
      have h' := h.setSems true s.obj.spaceSem
      refine ⟨h'.ring, trivial, h'.cons, ?_⟩
      intro r hr
      rcases List.mem_append.mp hr with hr | hr
      · exact h.sends r hr
      · obtain rfl := List.mem_singleton.mp hr
        exact fun hne => absurd rfl hne
  | clock c free =>
      rw [hp] at hs hprod
      dsimp only at hs
      split at hs
      · cases hs
        exact h.sendFails hprod.1 hprod.2
      · cases hs
        exact h.moveProducer hprod
  | take c free remaining =>
      rw [hp] at hs hprod
      dsimp only at hs
      split at hs
      · split at hs
        · cases hs
        · cases hs
          exact h.moveProducer hprod
      · split at hs
        · cases hs
          exact (h.setSems s.obj.dataSem false).moveProducer hprod
        · cases hs

theorem MbIdx.stepConsumer {s s' : MbSys w} {H T : Nat} {timedOut : Bool} (h : MbIdx s H T)
    (hs : s.stepConsumer timedOut = some s') : MbIdx s' H (T + s.consumes) := by
  have hcons := h.cons
  unfold MbSys.stepConsumer at hs
  generalize hc : s.cons = here at hs
  cases here with
  | idle => cases hs
  | availHead r | againHead r out | resetHead =>
      cases hs
      simp only [MbSys.consumes, hc]
      exact h.moveConsumer _ ⟨H, h.ring.head, h.ring.le, le_rfl⟩
  | availTail r hd =>
      rw [hc] at hcons
      obtain ⟨H₀, rfl, hT, hH⟩ := hcons
      simp only [MbSys.consumes, hc]
      dsimp only at hs
      rw [h.ring.available_eq hT hH] at hs
      split at hs
      · cases hs
        exact h.moveConsumer _ (show T + (H₀ - T) ≤ H by omega)
      · cases hs
        exact h.noMessage r
  | peekTail r avail | skipTail r n | readTail r n | restTail r n out =>
      rw [hc] at hcons
      cases hs
      simp only [MbSys.consumes, hc]
      exact h.moveConsumer _ ⟨rfl, hcons⟩
  | peekCopy r avail t =>
      rw [hc] at hcons
      simp only [MbSys.consumes, hc]
      dsimp only at hs
      split at hs
      · rename_i hframe
        cases hs
        exact h.moveConsumer _ ((Nat.add_le_add_left hframe T).trans hcons.2)
      · cases hs
        exact h.noMessage r
  | skipStore r n t =>
      rw [hc] at hcons
      obtain ⟨rfl, hle⟩ := hcons
      cases hs
      simp only [MbSys.consumes, hc]
      refine h.advanceTail (by omega) ?_
      show T + kMsgHeaderBytes + n ≤ H
      omega
  | readCopy r n t =>
      rw [hc] at hcons
      cases hs
      simp only [MbSys.consumes, hc]
      exact h.moveConsumer _ hcons
  | readStore r n t out =>
      rw [hc] at hcons
      obtain ⟨rfl, hle⟩ := hcons
      simp only [MbSys.consumes, hc]
      dsimp only at hs
      split at hs
      · rename_i hfits
        cases hs
        rw [Nat.min_eq_left hfits]
        exact h.advanceTail hle trivial
      · rename_i hlong
        cases hs
        rw [Nat.min_eq_right (Nat.le_of_not_le hlong)]
        refine h.advanceTail (by omega) ?_
        show T + r.maxLen + (n - r.maxLen) ≤ H
        omega
  | restStore r n t out =>
      rw [hc] at hcons
      obtain ⟨rfl, hle⟩ := hcons
      cases hs
      simp only [MbSys.consumes, hc]
      exact h.advanceTail hle trivial
  | giveSpace r out =>
      simp only [MbSys.consumes, hc]
      dsimp only at hs
      have h' := h.setSems s.obj.dataSem true
      split at hs
      · cases hs
        exact h'.moveConsumer _ trivial
      · cases hs
        exact h'.moveConsumer _ trivial
  | againTail r out hd =>
      simp only [MbSys.consumes, hc]
      dsimp only at hs
      split at hs
      · cases hs
        exact h.moveConsumer _ trivial
      · cases hs
        exact h.moveConsumer _ trivial
  | giveData r out =>
      cases hs
      simp only [MbSys.consumes, hc]
      exact (h.setSems true s.obj.spaceSem).moveConsumer _ trivial
  | clock r =>
      simp only [MbSys.consumes, hc]
      dsimp only at hs
      split at hs
      · cases hs
        exact h.moveConsumer _ trivial
      · cases hs
        exact h.moveConsumer _ trivial
  | take r remaining =>
      simp only [MbSys.consumes, hc]
      dsimp only at hs
      split at hs
      · split at hs
        · cases hs
        · cases hs
          exact h.moveConsumer _ trivial
      · split at hs
        · cases hs
          exact (h.setSems false s.obj.spaceSem).moveConsumer _ trivial
        · cases hs
  | resetTail hd =>
      rw [hc] at hcons
      obtain ⟨H₀, rfl, hT, hH⟩ := hcons
      cases hs
      simp only [MbSys.consumes, hc]
      rw [h.ring.available_eq hT hH, Nat.add_sub_cancel' hT]
      exact ⟨h.ring.resetTail hT hH, h.prod.free _ hT, trivial, h.sends⟩

/-! ### Calls -/

theorem MbIdx.beginSend {s : MbSys w} {H T : Nat} (h : MbIdx s H T) (msg : Option (List UInt8))
    (timeout : Option (Tick w)) : MbIdx (s.beginSend msg timeout) H T := by
  unfold MbSys.beginSend
  dsimp only
  split
  · exact h.sendFails rfl rfl
  · exact h.moveProducer ⟨rfl, rfl⟩

theorem MbIdx.beginReceive {s : MbSys w} {H T : Nat} (h : MbIdx s H T) (maxLen : Nat)
    (timeout : Option (Tick w)) : MbIdx (s.beginReceive maxLen timeout) H T := by
  unfold MbSys.beginReceive
  dsimp only
  split
  · exact h.moveConsumer _ trivial
  · exact h.moveConsumer _ trivial

/-- What an entry point being called does: the caller's side was idle and the
call begins. -/
theorem MbSys.step_call {s s' : MbSys w} {a : MbAct w} (hs : s.step a = some s') :
    (∃ msg timeout, s.prod = .idle ∧ s' = s.beginSend msg timeout ∧
      ((∃ t, a = .send msg t ∧ timeout = some t) ∨ (a = .sendIsr msg ∧ timeout = none))) ∨
    (∃ maxLen timeout, s.cons = .idle ∧ s' = s.beginReceive maxLen timeout) ∨
    (s.cons = .idle ∧ s' = { s with cons := .resetHead }) ∨
    (∃ timedOut, a = .producer timedOut ∧ s.stepProducer timedOut = some s') ∨
    (∃ timedOut, a = .consumer timedOut ∧ s.stepConsumer timedOut = some s') ∨
    s' = { s with clock := s.clock + 1 } := by
  cases a with
  | send msg timeout =>
      simp only [MbSys.step] at hs
      split at hs
      · rename_i hp
        cases hs
        exact Or.inl ⟨msg, some timeout, hp, rfl, Or.inl ⟨timeout, rfl, rfl⟩⟩
      · cases hs
  | sendIsr msg =>
      simp only [MbSys.step] at hs
      split at hs
      · rename_i hp
        cases hs
        exact Or.inl ⟨msg, none, hp, rfl, Or.inr ⟨rfl, rfl⟩⟩
      · cases hs
  | receive maxLen timeout =>
      simp only [MbSys.step] at hs
      split at hs
      · rename_i hc
        cases hs
        exact Or.inr (Or.inl ⟨maxLen, some timeout, hc, rfl⟩)
      · cases hs
  | receiveIsr maxLen =>
      simp only [MbSys.step] at hs
      split at hs
      · rename_i hc
        cases hs
        exact Or.inr (Or.inl ⟨maxLen, none, hc, rfl⟩)
      · cases hs
  | reset =>
      simp only [MbSys.step] at hs
      split at hs
      · rename_i hc
        cases hs
        exact Or.inr (Or.inr (Or.inl ⟨hc, rfl⟩))
      · cases hs
  | producer timedOut => exact Or.inr (Or.inr (Or.inr (Or.inl ⟨timedOut, rfl, hs⟩)))
  | consumer timedOut => exact Or.inr (Or.inr (Or.inr (Or.inr (Or.inl ⟨timedOut, rfl, hs⟩))))
  | tick =>
      cases hs
      exact Or.inr (Or.inr (Or.inr (Or.inr (Or.inr rfl))))

theorem MbIdx.step {s s' : MbSys w} {H T : Nat} {a : MbAct w} (h : MbIdx s H T)
    (hs : s.step a = some s') : ∃ H' T', MbIdx s' H' T' := by
  rcases MbSys.step_call hs with ⟨msg, timeout, hp, rfl, -⟩ | ⟨maxLen, timeout, hc, rfl⟩ |
    ⟨hc, rfl⟩ | ⟨timedOut, -, hs⟩ | ⟨timedOut, -, hs⟩ | rfl
  · exact ⟨H, T, h.beginSend msg timeout⟩
  · exact ⟨H, T, h.beginReceive maxLen timeout⟩
  · exact ⟨H, T, h.moveConsumer _ trivial⟩
  · exact ⟨_, T, h.stepProducer hs⟩
  · exact ⟨H, _, h.stepConsumer hs⟩
  · exact ⟨H, T, h.ring, h.prod, h.cons, h.sends⟩

/-! ### Whole runs -/

section
variable {buffer : Option (Nat → UInt8)} {capacity : Nat} {obj : EmuMbObj}

/-- What `osal_message_buffer_create` returns. -/
theorem osalMessageBufferCreate_eq (hcreate : osalMessageBufferCreate buffer capacity = .ok obj) :
    kMsgHeaderBytes < capacity ∧
      ∃ buf, obj = ⟨buf, capacity + 1, capacity, 0, 0, false, false⟩ := by
  unfold osalMessageBufferCreate at hcreate
  split at hcreate
  · cases hcreate
  · split at hcreate
    · cases hcreate
    · rename_i hcap
      obtain rfl := Except.ok.inj hcreate
      exact ⟨not_le.mp hcap, _, rfl⟩

theorem MbIdx.init (hcreate : osalMessageBufferCreate buffer capacity = .ok obj) :
    MbIdx (MbSys.ofObj (w := w) obj) 0 0 := by
  obtain ⟨-, buf, rfl⟩ := osalMessageBufferCreate_eq hcreate
  refine ⟨⟨rfl, ?_, ?_, le_rfl, Nat.zero_le _⟩, trivial, trivial, ?_⟩
  · simp [MbSys.ofObj]
  · simp [MbSys.ofObj]
  · simp [MbSys.ofObj]

/-- The indices are in order in every reachable state. -/
theorem MbIdx.reachable (hcreate : osalMessageBufferCreate buffer capacity = .ok obj)
    {s : MbSys w} (hs : (mbMachine w obj).Reachable s) : ∃ H T, MbIdx s H T :=
  Machine.Reachable.invariant (I := fun s => ∃ H T, MbIdx s H T) ⟨0, 0, MbIdx.init hcreate⟩
    (fun _ _ _ _ hi hstep => let ⟨_, _, h⟩ := hi; h.step hstep) hs

end

/-! ### What each side leaves alone -/

/-- The producer never moves `tail`, and the capacity is fixed. -/
theorem MbSys.stepProducer_frame {s s' : MbSys w} {timedOut : Bool}
    (hs : s.stepProducer timedOut = some s') :
    s'.obj.capacity = s.obj.capacity ∧ s'.obj.tail = s.obj.tail := by
  unfold MbSys.stepProducer at hs
  cases hp : s.prod <;> rw [hp] at hs <;> dsimp only at hs
  case idle => cases hs
  case freeTail => split at hs <;> [skip; split at hs] <;> cases hs <;> exact ⟨rfl, rfl⟩
  case clock => split at hs <;> cases hs <;> exact ⟨rfl, rfl⟩
  case take => split at hs <;> split at hs <;> cases hs <;> exact ⟨rfl, rfl⟩
  all_goals cases hs; exact ⟨rfl, rfl⟩

/-- The consumer never writes the ring or moves `head`. -/
theorem MbSys.stepConsumer_frame {s s' : MbSys w} {timedOut : Bool}
    (hs : s.stepConsumer timedOut = some s') :
    s'.obj.capacity = s.obj.capacity ∧ s'.obj.ringSize = s.obj.ringSize ∧
      s'.obj.buf = s.obj.buf ∧ s'.obj.head = s.obj.head ∧ s'.prod = s.prod ∧
      s'.sends = s.sends := by
  have hnone : ∀ r, s.noMessage r = s.receiveReturns .nothing ∨
      s.noMessage r = { s with cons := .clock r } := by
    intro r
    unfold MbSys.noMessage
    split
    · exact Or.inl rfl
    · exact Or.inr rfl
  unfold MbSys.stepConsumer at hs
  cases hc : s.cons <;> rw [hc] at hs <;> dsimp only at hs
  case idle => cases hs
  case availTail r hd =>
    split at hs <;> cases hs
    · exact ⟨rfl, rfl, rfl, rfl, rfl, rfl⟩
    · rcases hnone r with h | h <;> rw [h] <;> exact ⟨rfl, rfl, rfl, rfl, rfl, rfl⟩
  case peekCopy r avail t =>
    split at hs <;> cases hs
    · exact ⟨rfl, rfl, rfl, rfl, rfl, rfl⟩
    · rcases hnone r with h | h <;> rw [h] <;> exact ⟨rfl, rfl, rfl, rfl, rfl, rfl⟩
  case readStore => split at hs <;> cases hs <;> exact ⟨rfl, rfl, rfl, rfl, rfl, rfl⟩
  case giveSpace => split at hs <;> cases hs <;> exact ⟨rfl, rfl, rfl, rfl, rfl, rfl⟩
  case againTail => split at hs <;> cases hs <;> exact ⟨rfl, rfl, rfl, rfl, rfl, rfl⟩
  case clock => split at hs <;> cases hs <;> exact ⟨rfl, rfl, rfl, rfl, rfl, rfl⟩
  case take => split at hs <;> split at hs <;> cases hs <;> exact ⟨rfl, rfl, rfl, rfl, rfl, rfl⟩
  all_goals cases hs; exact ⟨rfl, rfl, rfl, rfl, rfl, rfl⟩

@[simp] theorem MbSys.beginSend_obj (s : MbSys w) (msg : Option (List UInt8))
    (timeout : Option (Tick w)) : (s.beginSend msg timeout).obj = s.obj := by
  unfold MbSys.beginSend
  dsimp only
  split <;> rfl

@[simp] theorem MbSys.beginReceive_obj (s : MbSys w) (maxLen : Nat) (timeout : Option (Tick w)) :
    (s.beginReceive maxLen timeout).obj = s.obj := by
  unfold MbSys.beginReceive
  dsimp only
  split <;> rfl

theorem MbSys.reachable_capacity {obj : EmuMbObj} {s : MbSys w}
    (hs : (mbMachine w obj).Reachable s) : s.obj.capacity = obj.capacity := by
  refine Machine.Reachable.invariant (I := fun s : MbSys w => s.obj.capacity = obj.capacity)
    rfl (fun s a s' _ hi hstep => ?_) hs
  rcases MbSys.step_call hstep with ⟨msg, timeout, -, rfl, -⟩ | ⟨maxLen, timeout, -, rfl⟩ |
    ⟨-, rfl⟩ | ⟨timedOut, -, hstep⟩ | ⟨timedOut, -, hstep⟩ | rfl
  · simpa using hi
  · simpa using hi
  · exact hi
  · exact (MbSys.stepProducer_frame hstep).1.trans hi
  · exact (MbSys.stepConsumer_frame hstep).1.trans hi
  · exact hi

end MicrOsal
