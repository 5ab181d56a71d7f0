import MicrOsal.MessageBuffer.Fifo
import MicrOsal.StreamBuffer.Progress

/-!
# MicrOsal.MessageBuffer.Wakeup

No wake-up is lost in a stream or a message buffer.

The argument is that of `SbWake`: a side that sleeps has seen a count that is still the
current one, or its semaphore has a token, or the other side is about to give one. A message
takes its consumer two or three stores of `tail`, and the give comes after the last; a
producer may find enough space from the first store on.

With frames that the headers describe, a consumer of messages sleeps only on an empty ring.
-/

namespace MicrOsal

variable {w : Nat}

/-- The producer has published and is about to give `data_sem`. -/
def MbProducer.AtGive : MbProducer w → Prop
  | .give _ => True
  | _ => False

/-- The consumer has stored `tail` for the last time and is about to give `space_sem`. -/
def MbConsumer.AtGive : MbConsumer w → Prop
  | .giveSpace _ _ => True
  | _ => False

/-- The consumer has moved `tail` past a header and not given `space_sem` yet. -/
def MbConsumer.Freeing : MbConsumer w → Prop
  | .readTail _ _ | .readCopy _ _ _ | .readStore _ _ _ _ | .restTail _ _ _ | .restStore _ _ _ _
  | .giveSpace _ _ => True
  | _ => False

/-- The consumer is inside `reset`. -/
def MbConsumer.resetting : MbConsumer w → Bool
  | .resetHead | .resetTail _ => true
  | _ => false

/-- A complete frame is queued. -/
def MbReady (o : EmuMbObj) : Prop :=
  kMsgHeaderBytes ≤ emuMbAvailable o ∧
    kMsgHeaderBytes + mbLength (ringCopyOut o.ringSize o.buf o.tail kMsgHeaderBytes) ≤
      emuMbAvailable o

/-! ### The producer -/

/-- What a producer that found too little space relies on. -/
def MbProdWake (o : EmuMbObj) (giving : Prop) : MbProducer w → Prop
  | .clock c free | .take c free _ =>
    free < mbFrameSize c.msg.length ∧ StillCounts free (emuMbFree o) o.spaceSem giving
  | _ => True

/-- What the producer relies on survives a consumer step that leaves `tail` alone, or has
freed something. -/
theorem MbProdWake.step {o o' : EmuMbObj} {giving giving' : Prop} {p : MbProducer w}
    (h : MbProdWake o giving p)
    (hshape : o'.capacity = o.capacity ∧ o'.ringSize = o.ringSize ∧ o'.head = o.head)
    (hkeep : (o'.tail = o.tail ∧ (giving → o'.spaceSem = true)) ∨ giving')
    (hsem : o.spaceSem = true → o'.spaceSem = true) : MbProdWake o' giving' p := by
  obtain ⟨hcap, hring, hhead⟩ := hshape
  have hfree : (emuMbFree o' = emuMbFree o ∧ (giving → o'.spaceSem = true)) ∨ giving' := by
    refine hkeep.imp_left fun hk => ⟨?_, hk.2⟩
    rw [emuMbFree, emuMbFree, emuMbAvailable, emuMbAvailable, hcap, hring, hk.1, hhead]
  cases p with
  | clock c free => exact ⟨h.1, h.2.step hfree hsem⟩
  | take c free remaining => exact ⟨h.1, h.2.step hfree hsem⟩
  | _ => exact h

/-- What a consumer step does that the producer may wait for. -/
theorem MbSys.stepConsumer_space {s s' : MbSys w} {timedOut : Bool}
    (hreset : s.cons.resetting = false) (hs : s.stepConsumer timedOut = some s') :
    ((s'.obj.tail = s.obj.tail ∧ (s.cons.Freeing → s'.obj.spaceSem = true)) ∨ s'.cons.Freeing) ∧
      (s.obj.spaceSem = true → s'.obj.spaceSem = true) := by
  unfold MbSys.stepConsumer at hs
  generalize hc : s.cons = here at hs
  cases here with
  | idle => cases hs
  | resetTail h =>
      rw [hc] at hreset
      cases hreset
  | availTail r h =>
      dsimp only [MbSys.noMessage] at hs
      split at hs <;> [skip; split at hs] <;> cases hs <;> exact ⟨.inl ⟨rfl, False.elim⟩, id⟩
  | peekCopy r avail t =>
      dsimp only [MbSys.noMessage] at hs
      split at hs <;> [skip; split at hs] <;> cases hs <;> exact ⟨.inl ⟨rfl, False.elim⟩, id⟩
  | readStore r n t out =>
      dsimp only at hs
      split at hs <;> cases hs <;> exact ⟨.inr trivial, id⟩
  | giveSpace r out =>
      dsimp only at hs
      split at hs <;> cases hs <;> exact ⟨.inl ⟨rfl, fun _ => rfl⟩, fun _ => rfl⟩
  | againTail r out h =>
      dsimp only at hs
      split at hs <;> cases hs <;> exact ⟨.inl ⟨rfl, False.elim⟩, id⟩
  | clock r =>
      dsimp only at hs
      split at hs <;> cases hs <;> exact ⟨.inl ⟨rfl, False.elim⟩, id⟩
  | take r remaining =>
      dsimp only at hs
      split at hs <;> split at hs <;> cases hs <;> exact ⟨.inl ⟨rfl, False.elim⟩, id⟩
  | skipStore r n t | readTail r n | readCopy r n t | restTail r n out | restStore r n t out =>
      cases hs
      exact ⟨.inr trivial, id⟩
  | _ =>
      cases hs
      exact ⟨.inl ⟨rfl, False.elim⟩, id⟩

/-- No reset is under way, and no wake-up of the producer is lost. -/
structure MbSpaceWake (s : MbSys w) : Prop where
  reset : s.cons.resetting = false
  prod : MbProdWake s.obj s.cons.Freeing s.prod

theorem MbSys.stepConsumer_resetting {s s' : MbSys w} {timedOut : Bool}
    (hreset : s.cons.resetting = false) (hs : s.stepConsumer timedOut = some s') :
    s'.cons.resetting = false := by
  unfold MbSys.stepConsumer at hs
  generalize hc : s.cons = here at hs
  cases here with
  | idle => cases hs
  | resetHead => rw [hc] at hreset; cases hreset
  | availTail r h | peekCopy r avail t =>
      dsimp only [MbSys.noMessage] at hs
      split at hs <;> [skip; split at hs] <;> cases hs <;> rfl
  | readStore r n t out | giveSpace r out | againTail r out h | clock r =>
      dsimp only at hs
      split at hs <;> cases hs <;> rfl
  | take r remaining =>
      dsimp only at hs
      split at hs <;> split at hs <;> cases hs <;> rfl
  | _ =>
      cases hs
      rfl

theorem MbSpaceWake.stepConsumer {s s' : MbSys w} {timedOut : Bool} (h : MbSpaceWake s)
    (hs : s.stepConsumer timedOut = some s') : MbSpaceWake s' := by
  obtain ⟨hcap, hring, -, hhead, hprod, -⟩ := MbSys.stepConsumer_frame hs
  obtain ⟨hkeep, hsem⟩ := MbSys.stepConsumer_space h.reset hs
  refine ⟨MbSys.stepConsumer_resetting h.reset hs, ?_⟩
  rw [hprod]
  exact h.prod.step ⟨hcap, hring, hhead⟩ hkeep hsem

theorem MbSpaceWake.stepProducer {s s' : MbSys w} {H T : Nat} {timedOut : Bool} (h : MbSpaceWake s)
    (hidx : MbIdx s H T) (hs : s.stepProducer timedOut = some s') : MbSpaceWake s' := by
  have hprod := h.prod
  have hok := hidx.prod
  unfold MbSys.stepProducer at hs
  cases hp : s.prod with
  | idle => rw [hp] at hs; cases hs
  | freeTail c hd =>
      rw [hp] at hs hok
      obtain ⟨-, -, rfl⟩ := hok
      dsimp only at hs
      split at hs
      · cases hs
        exact ⟨h.reset, trivial⟩
      · rename_i hfree
        split at hs
        · cases hs
          exact ⟨h.reset, trivial⟩
        · cases hs
          -- the count is computed from the current `tail`, so it is current
          exact ⟨h.reset, not_le.mp hfree, Or.inl rfl⟩
  | clock c free =>
      rw [hp] at hs hprod
      dsimp only at hs
      split at hs
      · cases hs
        exact ⟨h.reset, trivial⟩
      · cases hs
        exact ⟨h.reset, hprod⟩
  | take c free remaining =>
      rw [hp] at hs
      dsimp only at hs
      split at hs <;> split at hs <;> cases hs <;> exact ⟨h.reset, trivial⟩
  | _ =>
      rw [hp] at hs
      cases hs
      exact ⟨h.reset, trivial⟩

theorem MbSpaceWake.step {s s' : MbSys w} {a : MbAct w} (h : MbSpaceWake s)
    (hidx : ∃ H T, MbIdx s H T) (hne : a ≠ .reset) (hs : s.step a = some s') :
    MbSpaceWake s' := by
  obtain ⟨H, T, hidx⟩ := hidx
  cases a with
  | reset => exact absurd rfl hne
  | producer timedOut => exact h.stepProducer hidx hs
  | consumer timedOut => exact h.stepConsumer hs
  | tick =>
      cases hs
      exact ⟨h.reset, h.prod⟩
  | send msg timeout | sendIsr msg =>
      simp only [MbSys.step] at hs
      split at hs
      · cases hs
        unfold MbSys.beginSend
        dsimp only
        split <;> exact ⟨h.reset, trivial⟩
      · cases hs
  | receive maxLen timeout | receiveIsr maxLen =>
      simp only [MbSys.step] at hs
      split at hs
      · rename_i hc
        cases hs
        have hprod := h.prod
        rw [hc] at hprod
        unfold MbSys.beginReceive
        dsimp only
        split <;> exact ⟨rfl, hprod⟩
      · cases hs

/-! ### The consumer -/

/-- What a consumer that found no message relies on: the ring was empty. -/
def MbConsWake (o : EmuMbObj) (giving : Prop) : MbConsumer w → Prop
  | .availTail _ h => StillCounts h o.head o.dataSem giving
  | .clock _ | .take _ _ => StillCounts 0 (emuMbAvailable o) o.dataSem giving
  | _ => True

theorem MbConsWake.step {o o' : EmuMbObj} {giving giving' : Prop} {c : MbConsumer w}
    (h : MbConsWake o giving c) (hshape : o'.ringSize = o.ringSize ∧ o'.tail = o.tail)
    (hkeep : (o'.head = o.head ∧ (giving → o'.dataSem = true)) ∨ giving')
    (hsem : o.dataSem = true → o'.dataSem = true) : MbConsWake o' giving' c := by
  obtain ⟨hring, htail⟩ := hshape
  have havail : (emuMbAvailable o' = emuMbAvailable o ∧ (giving → o'.dataSem = true)) ∨
      giving' := by
    refine hkeep.imp_left fun hk => ⟨?_, hk.2⟩
    rw [emuMbAvailable, emuMbAvailable, hring, hk.1, htail]
  cases c with
  | availTail r hd => exact StillCounts.step h hkeep hsem
  | clock r => exact StillCounts.step h havail hsem
  | take r remaining => exact StillCounts.step h havail hsem
  | _ => trivial

/-- What a producer step does that the consumer may wait for. -/
theorem MbSys.stepProducer_data {s s' : MbSys w} {timedOut : Bool}
    (hs : s.stepProducer timedOut = some s') :
    s'.obj.ringSize = s.obj.ringSize ∧ s'.cons = s.cons ∧
      ((s'.obj.head = s.obj.head ∧ (s.prod.AtGive → s'.obj.dataSem = true)) ∨ s'.prod.AtGive) ∧
      (s.obj.dataSem = true → s'.obj.dataSem = true) := by
  unfold MbSys.stepProducer at hs
  generalize hp : s.prod = here at hs
  cases here with
  | idle => cases hs
  | freeTail c hd =>
      dsimp only at hs
      split at hs <;> [skip; split at hs] <;> cases hs <;>
        exact ⟨rfl, rfl, .inl ⟨rfl, False.elim⟩, id⟩
  | clock c free =>
      dsimp only at hs
      split at hs <;> cases hs <;> exact ⟨rfl, rfl, .inl ⟨rfl, False.elim⟩, id⟩
  | take c free remaining =>
      dsimp only at hs
      split at hs <;> split at hs <;> cases hs <;> exact ⟨rfl, rfl, .inl ⟨rfl, False.elim⟩, id⟩
  | writeStore c hd =>
      cases hs
      exact ⟨rfl, rfl, .inr trivial, id⟩
  | give c =>
      cases hs
      exact ⟨rfl, rfl, .inl ⟨rfl, fun _ => rfl⟩, fun _ => rfl⟩
  | _ =>
      cases hs
      exact ⟨rfl, rfl, .inl ⟨rfl, False.elim⟩, id⟩

/-- A ring of whole frames without room for a header is empty. -/
theorem MbFramed.empty {s : MbSys w} {H T : Nat} {gone hand queued : List Msg}
    (h : MbFramed s H T gone hand queued []) (hlt : emuMbAvailable s.obj < kMsgHeaderBytes) :
    emuMbAvailable s.obj = 0 := by
  have hlen := h.content_length
  have havail : emuMbAvailable s.obj = H - T := h.idx.ring.available_now
  rw [List.length_nil, Nat.zero_add] at hlen
  cases queued with
  | nil => rw [havail, hlen]; rfl
  | cons m rest =>
      rw [mbFrames_cons, List.length_append, mbFrame_length] at hlen
      omega

/-- The consumer gives up on this round with the ring empty, as far as it can see. -/
theorem MbConsWake.noMessage {s : MbSys w} (r : MbReceive w)
    (h : StillCounts 0 (emuMbAvailable s.obj) s.obj.dataSem s.prod.AtGive) :
    MbConsWake (s.noMessage r).obj (s.noMessage r).prod.AtGive (s.noMessage r).cons := by
  unfold MbSys.noMessage
  split
  · trivial
  · exact h

theorem MbConsWake.stepConsumer {s s' : MbSys w} {timedOut : Bool}
    (h : MbConsWake s.obj s.prod.AtGive s.cons) (hframed : s.Framed)
    (hs : s.stepConsumer timedOut = some s') :
    MbConsWake s'.obj s'.prod.AtGive s'.cons := by
  obtain ⟨H, T, gone, hand, queued, rest, hframed⟩ := hframed
  have hview := hframed.cons
  unfold MbSys.stepConsumer at hs
  generalize hc : s.cons = here at hs
  cases here with
  | idle => cases hs
  | availHead r =>
      cases hs
      exact Or.inl rfl
  | availTail r hd =>
      rw [hc] at hview h
      obtain ⟨rfl, rfl, -⟩ := hview
      dsimp only at hs
      split at hs
      · cases hs
        trivial
      · rename_i hlt
        cases hs
        refine .noMessage r (h.imp_left ?_)
        -- the ring is empty if the loaded `head` is the current one
        rintro rfl
        exact (hframed.empty (not_le.mp hlt)).symm
  | peekCopy r avail t =>
      have hcomplete := hframed.peek_complete hc
      dsimp only at hs
      rw [if_pos hcomplete] at hs
      cases hs
      trivial
  | clock r =>
      rw [hc] at h
      dsimp only at hs
      split at hs
      · cases hs
        trivial
      · cases hs
        exact h
  | take r remaining =>
      dsimp only at hs
      split at hs <;> split at hs <;> cases hs <;> trivial
  | readStore r n t out | giveSpace r out | againTail r out hd =>
      dsimp only at hs
      split at hs <;> cases hs <;> trivial
  | _ =>
      cases hs
      trivial

theorem MbConsWake.of_step {s s' : MbSys w} {a : MbAct w}
    (h : MbConsWake s.obj s.prod.AtGive s.cons) (hframed : s.Framed) (hs : s.step a = some s') :
    MbConsWake s'.obj s'.prod.AtGive s'.cons := by
  cases a with
  | reset =>
      simp only [MbSys.step] at hs
      split at hs <;> cases hs
      trivial
  | producer timedOut =>
      obtain ⟨hring, hcons, hkeep, hsem⟩ := MbSys.stepProducer_data hs
      rw [hcons]
      exact h.step ⟨hring, (MbSys.stepProducer_frame hs).2⟩ hkeep hsem
  | consumer timedOut => exact h.stepConsumer hframed hs
  | tick =>
      cases hs
      exact h
  | send msg timeout | sendIsr msg =>
      simp only [MbSys.step] at hs
      split at hs
      · rename_i hp
        cases hs
        rw [hp] at h
        unfold MbSys.beginSend
        dsimp only
        split <;> exact h
      · cases hs
  | receive maxLen timeout | receiveIsr maxLen =>
      simp only [MbSys.step] at hs
      split at hs
      · cases hs
        unfold MbSys.beginReceive
        dsimp only
        split <;> trivial
      · cases hs

/-! ### What the buffers promise -/

/-- No wake-up is lost in a stream buffer. -/
structure SbSys.Woken (s : SbSys w) : Prop where
  /-- A consumer that sleeps although enough bytes are there will be woken. -/
  data : ∀ r avail remaining, s.cons = .take r avail remaining →
    s.obj.trigger ≤ sbAvailable s.obj → s.obj.dataSem = true ∨ s.prod.AtGive
  /-- A producer that sleeps although enough space is free will be woken. -/
  space : ∀ c free remaining, s.prod = .take c free remaining →
    c.data.length ≤ sbFree s.obj → s.obj.spaceSem = true ∨ s.cons.AtGive

theorem SbWake.woken {s : SbSys w} (h : SbWake s) : s.Woken where
  data r avail remaining hc hready := by
    have hcons := h.cons
    rw [hc] at hcons
    obtain ⟨hlt, heq | hwake⟩ := hcons
    · omega
    · exact hwake
  space c free remaining hp hready := by
    have hprod := h.prod
    rw [hp] at hprod
    obtain ⟨hlt, heq | hwake⟩ := hprod
    · omega
    · exact hwake

/-- A producer of messages that sleeps although enough space is free will be woken. -/
def MbSys.SpaceWoken (s : MbSys w) : Prop :=
  ∀ c free remaining, s.prod = .take c free remaining →
    mbFrameSize c.msg.length ≤ emuMbFree s.obj → s.obj.spaceSem = true ∨ s.cons.Freeing

theorem MbSpaceWake.woken {s : MbSys w} (h : MbSpaceWake s) : s.SpaceWoken := by
  intro c free remaining hp hready
  have hprod := h.prod
  rw [hp] at hprod
  obtain ⟨hlt, heq | hwake⟩ := hprod
  · omega
  · exact hwake

/-- A consumer of messages that sleeps although one is queued will be woken; and the two sides
do not both sleep with nothing to wake them. -/
structure MbSys.DataWoken (s : MbSys w) : Prop where
  data : ∀ r remaining, s.cons = .take r remaining → MbReady s.obj →
    s.obj.dataSem = true ∨ s.prod.AtGive
  oneAwake : ∀ c free remaining r remaining', s.prod = .take c free remaining →
    s.cons = .take r remaining' → mbFrameSize c.msg.length ≤ s.obj.capacity →
    s.obj.spaceSem = true ∨ s.obj.dataSem = true

theorem MbConsWake.woken {s : MbSys w} (h : MbConsWake s.obj s.prod.AtGive s.cons)
    (hspace : MbSpaceWake s) : s.DataWoken where
  data r remaining hc hready := by
    rw [hc] at h
    obtain heq | hwake := h
    · have hheader := hready.1
      rw [← heq] at hheader
      cases hheader
    · exact hwake
  oneAwake c free remaining r remaining' hp hc hfits := by
    rw [hp, hc] at h
    obtain heq | hdata | hgive := h
    · -- an empty ring has room for the frame
      refine (hspace.woken c free remaining hp ?_).imp_right (fun hf => ?_)
      · rw [emuMbFree, ← heq]
        exact hfits
      · rw [hc] at hf
        exact hf.elim
    · exact .inr hdata
    · exact hgive.elim

/-- No wake-up is lost while no reset is called. For stream buffers this is so on both sides.
For message buffers it is for the producer, to which the consumer owes the wake-up from its
first store of `tail` on, and for the consumer as long as the headers describe the messages;
then the two sides never sleep at the same time for good. -/
theorem buffers_lose_no_wakeup (w : Nat) :
    (∀ (buffer : Option (Nat → UInt8)) (capacity triggerLevel : Nat) (obj : EmuSbObj),
      osalStreamBufferCreate buffer capacity triggerLevel = .ok obj →
      ∀ s : SbSys w, (sbMachine w obj).ReachableBy (fun _ a => a ≠ .reset) s → s.Woken) ∧
    (∀ (buffer : Option (Nat → UInt8)) (capacity : Nat) (obj : EmuMbObj),
      osalMessageBufferCreate buffer capacity = .ok obj →
      (∀ s : MbSys w, (mbMachine w obj).ReachableBy (fun _ a => a ≠ .reset) s → s.SpaceWoken) ∧
      ∀ s : MbSys w,
        (mbMachine w obj).ReachableBy (fun _ a => a ≠ .reset ∧ PayloadFits a) s →
        s.DataWoken) := by
  refine ⟨fun buffer capacity triggerLevel obj hcreate s hs => ?_,
    fun buffer capacity obj hcreate => ?_⟩
  · have hinit : SbWake (SbSys.ofObj (w := w) obj) := ⟨trivial, trivial⟩
    refine SbWake.woken (Machine.ReachableBy.invariant hinit ?_ hs)
    intro s a s' hr hi hne hstep
    obtain ⟨H, T, hinv⟩ := SbInv.reachable hcreate hr.reachable
    exact hi.step hinv hne hstep
  · have hspace : ∀ s : MbSys w, (mbMachine w obj).ReachableBy (fun _ a => a ≠ .reset) s →
        MbSpaceWake s := by
      intro s hs
      have hinit : MbSpaceWake (MbSys.ofObj (w := w) obj) := ⟨rfl, trivial⟩
      refine Machine.ReachableBy.invariant hinit ?_ hs
      intro s a s' hr hi hne hstep
      exact hi.step (MbIdx.reachable hcreate hr.reachable) hne hstep
    refine ⟨fun s hs => (hspace s hs).woken, fun s hs => ?_⟩
    refine MbConsWake.woken ?_ (hspace s (hs.mono fun _ _ h => h.1))
    refine Machine.ReachableBy.invariant
      (I := fun s : MbSys w => MbConsWake s.obj s.prod.AtGive s.cons) ?_ ?_ hs
    · trivial
    intro s a s' hr hi _ hstep
    have hfits := headerFits_of_payloadFits (hr.mono fun _ _ h => h.2)
    exact hi.of_step (MbSys.Framed.reachable hcreate hfits.1) hstep

/-- One message is queued, the producer sleeps for the space of a second, and the consumer has
skipped the header of the first. -/
def mbHalfFreed : List (MbAct 32) :=
  MbAct.sendIsr (some [1]) :: List.replicate 7 (MbAct.producer false) ++
    MbAct.send (some [2]) waitForever :: List.replicate 3 (MbAct.producer false) ++
      MbAct.receiveIsr 5 :: List.replicate 6 (MbAct.consumer false)

/-- What is compared of a state: what the producer sleeps for, the free bytes, the token, and
whether the consumer has skipped a header. -/
def MbSys.sleeper (s : MbSys w) : Option Msg × Nat × Bool × Bool :=
  (match s.prod with
    | .take c _ _ => some c.msg
    | _ => none,
   emuMbFree s.obj, s.obj.spaceSem,
   match s.cons with
    | .readTail _ _ => true
    | _ => false)

theorem mbHalfFreed_state : ∃ s : MbSys 32,
    (mbMachine 32 ⟨fun _ => 0, 6, 5, 0, 0, false, false⟩).ReachableBy (fun _ a => a ≠ .reset) s ∧
      s.sleeper = (some [2], 4, false, true) := by
  have hview : ((mbMachine 32 ⟨fun _ => 0, 6, 5, 0, 0, false, false⟩).run
      (MbSys.ofObj ⟨fun _ => 0, 6, 5, 0, 0, false, false⟩) mbHalfFreed).map MbSys.sleeper =
        some (some [2], 4, false, true) := by
    decide +kernel
  obtain ⟨s, hrun, hres⟩ := Option.map_eq_some_iff.mp hview
  refine ⟨s, Machine.ReachableBy.of_run .init
    (Machine.RunOk.of_forall (p := fun a : MbAct 32 => a ≠ .reset) (fun a ha => ?_) _) hrun, hres⟩
  rintro rfl
  simp [mbHalfFreed] at ha

/-- The state seen from the two sides. -/
theorem MbSys.of_sleeper {s : MbSys w} {msg : Msg} {free : Nat}
    (h : s.sleeper = (some msg, free, false, true)) :
    (∃ c seen remaining, s.prod = .take c seen remaining ∧ c.msg = msg) ∧
      emuMbFree s.obj = free ∧ s.obj.spaceSem = false ∧ ∃ r n, s.cons = .readTail r n := by
  obtain ⟨hprod, hfree, hsem, hcons⟩ : _ ∧ _ ∧ _ ∧ _ := by
    simpa only [MbSys.sleeper, Prod.mk.injEq] using h
  refine ⟨?_, hfree, hsem, ?_⟩
  · cases hp : s.prod with
    | take c seen remaining =>
        rw [hp] at hprod
        exact ⟨c, seen, remaining, rfl, Option.some.inj hprod⟩
    | _ => rw [hp] at hprod; cases hprod
  · cases hc : s.cons with
    | readTail r n => exact ⟨r, n, rfl⟩
    | _ => rw [hc] at hcons; cases hcons

/-- In that state the wake-up is owed by the consumer, which still has to store `tail` for the
payload. -/
theorem buffers_lose_no_wakeup_half : ∃ (obj : EmuMbObj) (s : MbSys 32),
    osalMessageBufferCreate (some fun _ => 0) 5 = .ok obj ∧
      (mbMachine 32 obj).ReachableBy (fun _ a => a ≠ .reset) s ∧
      (∃ c free remaining, s.prod = .take c free remaining) ∧ s.cons.Freeing := by
  obtain ⟨s, hs, hsleeper⟩ := mbHalfFreed_state
  obtain ⟨⟨c, free, remaining, hp, hmsg⟩, hfree, hsem, -⟩ := MbSys.of_sleeper hsleeper
  have hwoken := ((buffers_lose_no_wakeup 32).2 (some fun _ => 0) 5 _ rfl).1 s hs
  refine ⟨_, s, rfl, hs, ⟨c, free, remaining, hp⟩, ?_⟩
  refine (hwoken c free remaining hp ?_).resolve_left (by rw [hsem]; nofun)
  rw [hmsg, hfree]
  decide

/-- It is not past its last store of `tail`. -/
theorem mb_sleeps_before_last_store :
    ¬ ∀ (buffer : Option (Nat → UInt8)) (capacity : Nat) (obj : EmuMbObj),
      osalMessageBufferCreate buffer capacity = .ok obj →
      ∀ s : MbSys 32, (mbMachine 32 obj).ReachableBy (fun _ a => a ≠ .reset) s →
      ∀ c free remaining, s.prod = .take c free remaining →
        mbFrameSize c.msg.length ≤ emuMbFree s.obj →
        s.obj.spaceSem = true ∨ s.cons.AtGive := by
  intro h
  obtain ⟨s, hs, hsleeper⟩ := mbHalfFreed_state
  obtain ⟨⟨c, free, remaining, hp, hmsg⟩, hfree, hsem, r, n, hc⟩ := MbSys.of_sleeper hsleeper
  have hfits : mbFrameSize c.msg.length ≤ emuMbFree s.obj := by
    rw [hmsg, hfree]
    decide
  rcases h (some fun _ => 0) 5 _ rfl s hs c free remaining hp hfits with htoken | hgive
  · rw [hsem] at htoken
    cases htoken
  · rw [hc] at hgive
    exact hgive

end MicrOsal
