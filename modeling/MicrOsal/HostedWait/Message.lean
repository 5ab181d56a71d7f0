import MicrOsal.HostedWait.Stream

/-!
# MicrOsal.HostedWait.Message

The emulated message buffer over the hosted semaphores.

A consumer that sleeps has seen a header and too few bytes for the message, or too few bytes for
a header. Whatever is sent, the bytes that are queued stay what they are until they are read, so
that stands until `head` moves (`MbSees`). The exception is a message so long that the sum of
its frame size wraps: it is copied over what is queued, and its producer goes on to give.
-/

namespace MicrOsal.HostedWait

variable {w : Nat} {s s' : MbSys w} {a : Call w} {v : Name → Bool}

/-- The step of the message buffer. -/
def Call.toMb : Call w → MbAct w
  | .send msg timeout => .send msg timeout
  | .sendIsr msg => .sendIsr msg
  | .receive maxLen timeout => .receive maxLen timeout
  | .receiveIsr maxLen => .receiveIsr maxLen
  | .producer timedOut => .producer timedOut
  | .consumer timedOut => .consumer timedOut
  | .tick => .tick

/-- What the producer does next. -/
def mbProducerStage : MbProducer w → Stage
  | .idle => .idle
  | .freeHead _ => .looks
  | .give _ => .gives .data
  | .take _ _ _ => .takes .space
  | .freeTail _ _ | .writeHead _ | .writeHeader _ _ | .writePayload _ _ | .writeStore _ _
  | .clock _ _ => .other

/-- What the consumer does next. -/
def mbConsumerStage : MbConsumer w → Stage
  | .idle => .idle
  | .availHead _ => .looks
  | .giveSpace _ _ => .gives .space
  | .giveData _ _ => .gives .data
  | .take _ _ => .takes .data
  | .availTail _ _ | .peekTail _ _ | .peekCopy _ _ _ | .skipTail _ _ | .skipStore _ _ _
  | .readTail _ _ | .readCopy _ _ _ | .readStore _ _ _ _ | .restTail _ _ _ | .restStore _ _ _ _
  | .againHead _ _ | .againTail _ _ _ | .clock _ | .resetHead | .resetTail _ => .other

def mbStage (i : Side) (s : MbSys w) : Stage :=
  match i with
  | .producer => mbProducerStage s.prod
  | .consumer => mbConsumerStage s.cons

/-- The message buffer with other tokens. -/
def mbView (v : Name → Bool) (s : MbSys w) : MbSys w :=
  { s with obj := { s.obj with dataSem := v .data, spaceSem := v .space } }

/-! ### What a step does to the tokens -/

theorem mbView_beginSend {msg : Option (List UInt8)} {timeout : Option (Tick w)} :
    (mbView v s).beginSend msg timeout = mbView v ((mbView v s).beginSend msg timeout) := by
  unfold MbSys.beginSend
  dsimp only
  split <;> rfl

theorem mbView_beginReceive {maxLen : Nat} {timeout : Option (Tick w)} :
    (mbView v s).beginReceive maxLen timeout =
      mbView v ((mbView v s).beginReceive maxLen timeout) := by
  unfold MbSys.beginReceive
  dsimp only
  split <;> rfl

theorem mbView_noMessage {r : MbReceive w} :
    (mbView v s).noMessage r = mbView v ((mbView v s).noMessage r) := by
  unfold MbSys.noMessage
  split <;> rfl

theorem mbStep_none (hi : a.side = none) (hs : (mbView v s).step a.toMb = some s') :
    s' = mbView v s' := by
  cases a with
  | producer | consumer => cases hi
  | tick =>
      cases hs
      rfl
  | send | sendIsr =>
      simp only [Call.toMb, MbSys.step] at hs
      split at hs
      · cases hs
        exact mbView_beginSend
      · cases hs
  | receive | receiveIsr =>
      simp only [Call.toMb, MbSys.step] at hs
      split at hs
      · cases hs
        exact mbView_beginReceive
      · cases hs

theorem mbStep_producer {timedOut : Bool}
    (hs : (mbView v s).stepProducer timedOut = some s') :
    match mbProducerStage s.prod with
    | .gives x => s' = mbView (Function.update v x true) s'
    | .takes x => if timedOut then s' = mbView v s' else
        v x = true ∧ s' = mbView (Function.update v x false) s' ∧
          mbProducerStage s'.prod = .looks
    | .idle | .looks | .other => s' = mbView v s' := by
  have hprod : (mbView v s).prod = s.prod := rfl
  unfold MbSys.stepProducer at hs
  rw [hprod] at hs
  generalize hp : s.prod = here at hs
  cases here with
  | idle =>
      cases hs
  | freeHead | writeHead | writeHeader | writePayload | writeStore | give =>
      cases hs
      rfl
  | freeTail =>
      dsimp only at hs
      split at hs
      · cases hs
        rfl
      · split at hs
        · cases hs
          rfl
        · cases hs
          rfl
  | clock =>
      dsimp only at hs
      split at hs
      · cases hs
        rfl
      · cases hs
        rfl
  | take c free remaining =>
      dsimp only [mbProducerStage] at hs ⊢
      cases timedOut with
      | true =>
          rw [if_pos rfl] at hs ⊢
          split at hs
          · cases hs
          · cases hs
            rfl
      | false =>
          rw [if_neg Bool.false_ne_true] at hs ⊢
          split at hs
          case isTrue htoken =>
            cases hs
            exact ⟨htoken, rfl, rfl⟩
          case isFalse => cases hs

theorem mbStep_consumer {timedOut : Bool}
    (hs : (mbView v s).stepConsumer timedOut = some s') :
    match mbConsumerStage s.cons with
    | .gives x => s' = mbView (Function.update v x true) s'
    | .takes x => if timedOut then s' = mbView v s' else
        v x = true ∧ s' = mbView (Function.update v x false) s' ∧
          mbConsumerStage s'.cons = .looks
    | .idle | .looks | .other => s' = mbView v s' := by
  have hcons : (mbView v s).cons = s.cons := rfl
  unfold MbSys.stepConsumer at hs
  rw [hcons] at hs
  generalize hc : s.cons = here at hs
  cases here with
  | idle =>
      cases hs
  | availHead | peekTail | skipTail | skipStore | readTail | readCopy | restTail | restStore
  | againHead | giveData | resetHead | resetTail =>
      cases hs
      rfl
  | availTail | peekCopy =>
      dsimp only at hs
      split at hs
      · cases hs
        rfl
      · cases hs
        exact mbView_noMessage
  | readStore | giveSpace | againTail | clock =>
      dsimp only at hs
      split at hs
      · cases hs
        rfl
      · cases hs
        rfl
  | take r remaining =>
      dsimp only [mbConsumerStage] at hs ⊢
      cases timedOut with
      | true =>
          rw [if_pos rfl] at hs ⊢
          split at hs
          · cases hs
          · cases hs
            rfl
      | false =>
          rw [if_neg Bool.false_ne_true] at hs ⊢
          split at hs
          case isTrue htoken =>
            cases hs
            exact ⟨htoken, rfl, rfl⟩
          case isFalse => cases hs

/-! ### What a step does to the other side -/

theorem mbBeginSend_cons {msg : Option (List UInt8)} {timeout : Option (Tick w)} :
    (s.beginSend msg timeout).cons = s.cons := by
  unfold MbSys.beginSend
  dsimp only
  split <;> rfl

theorem mbBeginReceive_prod {maxLen : Nat} {timeout : Option (Tick w)} :
    (s.beginReceive maxLen timeout).prod = s.prod := by
  unfold MbSys.beginReceive
  dsimp only
  split <;> rfl

theorem mbStays {i : Side} (hs : s.step a.toMb = some s') (hi : a.side ≠ some i) :
    mbStage i s' = mbStage i s ∨ mbStage i s = .idle := by
  cases a with
  | tick =>
      cases hs
      exact .inl rfl
  | send | sendIsr =>
      simp only [Call.toMb, MbSys.step] at hs
      split at hs
      case h_1 hp =>
        cases hs
        cases i with
        | producer => exact .inr (congrArg mbProducerStage hp)
        | consumer => exact .inl (congrArg mbConsumerStage mbBeginSend_cons)
      case h_2 => cases hs
  | receive | receiveIsr =>
      simp only [Call.toMb, MbSys.step] at hs
      split at hs
      case h_1 hc =>
        cases hs
        cases i with
        | producer => exact .inl (congrArg mbProducerStage mbBeginReceive_prod)
        | consumer => exact .inr (congrArg mbConsumerStage hc)
      case h_2 => cases hs
  | producer timedOut =>
      cases i with
      | producer => exact absurd rfl hi
      | consumer =>
          exact .inl (congrArg mbConsumerStage (MbSys.stepProducer_data hs).2.1)
  | consumer timedOut =>
      cases i with
      | producer =>
          obtain ⟨-, -, -, -, hprod, -⟩ := MbSys.stepConsumer_frame hs
          exact .inl (congrArg mbProducerStage hprod)
      | consumer => exact absurd rfl hi

/-! ### The message buffer over the hosted semaphores -/

def mbClient (w : Nat) (obj : EmuMbObj) : Client w (MbSys w) where
  init := MbSys.ofObj obj
  step s a := s.step a.toMb
  view := mbView
  stage := mbStage
  view_view _ _ _ := rfl
  stage_view i _ _ := by cases i <;> rfl
  step_none := mbStep_none
  step_some {v s a s' i} hi hs := by
    cases a with
    | producer timedOut =>
        cases hi
        exact mbStep_producer hs
    | consumer timedOut =>
        cases hi
        exact mbStep_consumer hs
    | send | sendIsr | receive | receiveIsr | tick => cases hi
  stays := mbStays

/-! ### What the consumer relies on -/

/-- The producer has published and not given `data_sem` yet. A message whose frame size wraps is
published from its first copy on, which does not stop at what is queued. -/
def Publishing : MbProducer w → Prop
  | .give _ => True
  | .writePayload c _ | .writeStore c _ =>
      mbFrameSize c.msg.length < kMsgHeaderBytes + c.msg.length
  | _ => False

/-- What a consumer that goes through the loop of `receive` relies on. -/
def MbSees (o : EmuMbObj) (giving : Prop) : MbConsumer w → Prop
  | .availTail _ h => StillCounts h o.head o.dataSem giving
  | .peekTail _ avail | .peekCopy _ avail _ =>
      StillCounts avail (emuMbAvailable o) o.dataSem giving
  | .clock _ | .take _ _ => MbReady o → o.dataSem = true ∨ giving
  | _ => True

/-- It survives a producer step that leaves `head` and what is queued alone, or publishes. -/
theorem MbSees.step {o o' : EmuMbObj} {giving giving' : Prop} {c : MbConsumer w}
    (h : MbSees o giving c) (hshape : o'.ringSize = o.ringSize ∧ o'.tail = o.tail)
    (hkeep : (o'.head = o.head ∧ (MbReady o' → MbReady o) ∧ (giving → o'.dataSem = true)) ∨ giving')
    (hsem : o.dataSem = true → o'.dataSem = true) : MbSees o' giving' c := by
  obtain ⟨hring, htail⟩ := hshape
  have hhead : (o'.head = o.head ∧ (giving → o'.dataSem = true)) ∨ giving' :=
    hkeep.imp_left (fun hk => ⟨hk.1, hk.2.2⟩)
  have havail : (emuMbAvailable o' = emuMbAvailable o ∧ (giving → o'.dataSem = true)) ∨
      giving' := by
    refine hhead.imp_left (fun hk => ⟨?_, hk.2⟩)
    rw [emuMbAvailable, emuMbAvailable, hring, hk.1, htail]
  have hready : (MbReady o → o.dataSem = true ∨ giving) →
      MbReady o' → o'.dataSem = true ∨ giving' := by
    intro hold hnow
    rcases hkeep with ⟨-, hback, hgive⟩ | hgive
    · exact .inl ((hold (hback hnow)).elim hsem hgive)
    · exact .inr hgive
  cases c with
  | availTail r hd => exact StillCounts.step h hhead hsem
  | peekTail r avail | peekCopy r avail t => exact StillCounts.step h havail hsem
  | clock r | take r remaining => exact hready h
  | _ => trivial

/-- A copy into free cells leaves the header at `tail` alone. -/
theorem mbReady_copyIn {o : EmuMbObj} {H T p : Nat} (data : List UInt8) (hring : MbRingAt o H T)
    (hp : H ≤ p) (hfree : p + data.length ≤ T + o.capacity) :
    MbReady { o with buf := ringCopyIn o.ringSize o.buf (p % o.ringSize) data } ↔ MbReady o := by
  have hpos : 0 < o.ringSize := hring.size_pos
  have hsize := hring.size
  have havail : emuMbAvailable o = H - T := hring.available_now
  have hheader : kMsgHeaderBytes ≤ emuMbAvailable o →
      ringCopyOut o.ringSize (ringCopyIn o.ringSize o.buf (p % o.ringSize) data) o.tail
        kMsgHeaderBytes = ringCopyOut o.ringSize o.buf o.tail kMsgHeaderBytes := by
    intro hle
    have hcap := hring.cap
    have hTH := hring.le
    have hrange : kMsgHeaderBytes ≤ o.ringSize := by omega
    rw [hring.tail, ringCopyOut_mod hpos hrange, ringCopyOut_mod hpos hrange]
    exact ringSpan_copyIn_frame hpos (by omega) (by omega)
  constructor
  · rintro ⟨hle, hframe⟩
    refine ⟨hle, ?_⟩
    have hsame := hheader hle
    dsimp only at hframe
    rw [hsame] at hframe
    exact hframe
  · rintro ⟨hle, hframe⟩
    refine ⟨hle, ?_⟩
    dsimp only
    rw [hheader hle]
    exact hframe

/-- What a producer step does that the consumer may wait for. -/
theorem mbProducer_keeps {timedOut : Bool} {H T : Nat} (hidx : MbIdx s H T)
    (hs : s.stepProducer timedOut = some s') :
    (s'.obj.head = s.obj.head ∧ (MbReady s'.obj → MbReady s.obj) ∧
      (Publishing s.prod → s'.obj.dataSem = true)) ∨ Publishing s'.prod := by
  have hok := hidx.prod
  unfold MbSys.stepProducer at hs
  generalize hp : s.prod = here at hs
  cases here with
  | idle =>
      cases hs
  | freeHead | writeHead =>
      cases hs
      exact .inl ⟨rfl, id, False.elim⟩
  | freeTail =>
      dsimp only at hs
      split at hs
      · cases hs
        exact .inl ⟨rfl, id, False.elim⟩
      · split at hs
        · cases hs
          exact .inl ⟨rfl, id, False.elim⟩
        · cases hs
          exact .inl ⟨rfl, id, False.elim⟩
  | clock =>
      dsimp only at hs
      split at hs
      · cases hs
        exact .inl ⟨rfl, id, False.elim⟩
      · cases hs
        exact .inl ⟨rfl, id, False.elim⟩
  | take =>
      dsimp only at hs
      split at hs
      · split at hs
        · cases hs
        · cases hs
          exact .inl ⟨rfl, id, False.elim⟩
      · split at hs
        · cases hs
          exact .inl ⟨rfl, id, False.elim⟩
        · cases hs
  | writeHeader c hd =>
      rw [hp] at hok
      obtain ⟨rfl, hfree⟩ := hok
      cases hs
      by_cases hwraps : mbFrameSize c.msg.length < kMsgHeaderBytes + c.msg.length
      · exact .inr hwraps
      · refine .inl ⟨rfl, fun hready => ?_, False.elim⟩
        have hlen : (mbHeader c.msg.length).length = kMsgHeaderBytes := rfl
        refine (mbReady_copyIn (mbHeader c.msg.length) hidx.ring le_rfl (by omega)).mp ?_
        rw [← hidx.ring.head]
        exact hready
  | writePayload c hd =>
      rw [hp] at hok
      obtain ⟨rfl, hfree⟩ := hok
      cases hs
      by_cases hwraps : mbFrameSize c.msg.length < kMsgHeaderBytes + c.msg.length
      · exact .inr hwraps
      · refine .inl ⟨rfl, fun hready => ?_, fun hpub => absurd hpub hwraps⟩
        have hsize := hidx.ring.size
        have hcap := hidx.ring.cap
        have hle := hidx.ring.le
        have hstart : ringAdvance s.obj.ringSize s.obj.head kMsgHeaderBytes =
            (H + kMsgHeaderBytes) % s.obj.ringSize := by
          rw [hidx.ring.head]
          exact ringAdvance_mod hidx.ring.size_pos (by omega)
        refine (mbReady_copyIn (p := H + kMsgHeaderBytes) c.msg hidx.ring
          (Nat.le_add_right _ _) (by omega)).mp ?_
        rw [← hstart]
        exact hready
  | writeStore c hd =>
      cases hs
      exact .inr trivial
  | give c =>
      cases hs
      exact .inl ⟨rfl, id, fun _ => rfl⟩

/-- The consumer found no message, and goes on to wait. -/
theorem MbSees.noMessage {giving : Prop} (r : MbReceive w)
    (h : MbReady s.obj → s.obj.dataSem = true ∨ giving) :
    MbSees (s.noMessage r).obj giving (s.noMessage r).cons := by
  unfold MbSys.noMessage
  split
  · trivial
  · exact h

theorem MbSees.stepConsumer {timedOut : Bool} {H T : Nat} {giving : Prop}
    (h : MbSees s.obj giving s.cons) (hidx : MbIdx s H T)
    (hs : s.stepConsumer timedOut = some s') : MbSees s'.obj giving s'.cons := by
  have hok := hidx.cons
  unfold MbSys.stepConsumer at hs
  generalize hc : s.cons = here at hs
  cases here with
  | idle =>
      cases hs
  | availHead =>
      cases hs
      exact .inl rfl
  | availTail r hd =>
      rw [hc] at h
      dsimp only at hs
      split at hs
      · cases hs
        refine Or.imp_left (fun hhead : hd = s.obj.head => ?_) h
        rw [hhead]
        rfl
      case isFalse hshort =>
        cases hs
        refine .noMessage r (fun hready => ?_)
        rcases h with rfl | hwake
        · exact absurd hready.1 hshort
        · exact hwake
  | peekTail r avail =>
      rw [hc] at h
      cases hs
      exact h
  | peekCopy r avail t =>
      rw [hc] at h hok
      obtain ⟨rfl, -⟩ := hok
      dsimp only at hs
      split at hs
      · cases hs
        trivial
      case isFalse hshort =>
        cases hs
        refine .noMessage r (fun hready => ?_)
        rcases h with rfl | hwake
        · exact absurd hready.2 hshort
        · exact hwake
  | clock r =>
      rw [hc] at h
      dsimp only at hs
      split at hs
      · cases hs
        trivial
      · cases hs
        exact h
  | take r remaining =>
      dsimp only at hs
      split at hs
      · split at hs
        · cases hs
        · cases hs
          trivial
      · split at hs
        · cases hs
          trivial
        · cases hs
  | readStore | giveSpace | againTail =>
      dsimp only at hs
      split at hs
      · cases hs
        trivial
      · cases hs
        trivial
  | skipTail | skipStore | readTail | readCopy | restTail | restStore | againHead | giveData
  | resetHead | resetTail =>
      cases hs
      trivial

/-! ### No side is left asleep -/

/-- What the two sides rely on. -/
structure MbKept (s : MbSys w) : Prop where
  idx : ∃ H T, MbIdx s H T
  space : MbSpaceWake s
  data : MbSees s.obj (Publishing s.prod) s.cons

theorem Call.toMb_ne_reset : a.toMb ≠ .reset := by
  cases a <;> nofun

theorem MbKept.step (h : MbKept s) (hs : s.step a.toMb = some s') : MbKept s' := by
  obtain ⟨H, T, hidx⟩ := h.idx
  refine ⟨hidx.step hs, h.space.step h.idx Call.toMb_ne_reset hs, ?_⟩
  have hdata := h.data
  cases a with
  | producer timedOut =>
      obtain ⟨hring, hcons, -, hsem⟩ := MbSys.stepProducer_data hs
      rw [hcons]
      exact hdata.step ⟨hring, (MbSys.stepProducer_frame hs).2⟩ (mbProducer_keeps hidx hs) hsem
  | consumer timedOut =>
      obtain ⟨-, -, -, -, hprod, -⟩ := MbSys.stepConsumer_frame hs
      rw [hprod]
      exact hdata.stepConsumer hidx hs
  | tick =>
      cases hs
      exact hdata
  | send | sendIsr =>
      simp only [Call.toMb, MbSys.step] at hs
      split at hs
      case h_1 hp =>
        cases hs
        rw [hp] at hdata
        unfold MbSys.beginSend
        dsimp only
        split
        · exact hdata
        · exact hdata
      case h_2 => cases hs
  | receive | receiveIsr =>
      simp only [Call.toMb, MbSys.step] at hs
      split at hs
      · cases hs
        unfold MbSys.beginReceive
        dsimp only
        split
        · trivial
        · trivial
      · cases hs

theorem mbProducer_relies_on_nothing {o : EmuMbObj} {giving : Prop} {p : MbProducer w} {x : Name}
    (h : mbProducerStage p = .gives x ∨ mbProducerStage p = .looks) : MbProdWake o giving p := by
  cases p with
  | freeHead | give => trivial
  | idle | freeTail | writeHead | writeHeader | writePayload | writeStore | clock | take =>
      rcases h with h | h <;> cases h

theorem mbConsumer_relies_on_nothing {o : EmuMbObj} {giving : Prop} {c : MbConsumer w} {x : Name}
    (h : mbConsumerStage c = .gives x ∨ mbConsumerStage c = .looks) : MbSees o giving c := by
  cases c with
  | availHead | giveSpace | giveData => trivial
  | idle | availTail | peekTail | peekCopy | skipTail | skipStore | readTail | readCopy | readStore
  | restTail | restStore | againHead | againTail | clock | take | resetHead | resetTail =>
      rcases h with h | h <;> cases h

theorem mbProducer_of_gives {p : MbProducer w} {x : Name} (h : mbProducerStage p = .gives x) :
    ∃ c, p = .give c := by
  cases p with
  | give c => exact ⟨c, rfl⟩
  | idle | freeHead | freeTail | writeHead | writeHeader | writePayload | writeStore | clock
  | take => cases h

/-- After a give the consumer returns, or looks whether more is queued. -/
theorem mbConsumer_after_give {timedOut : Bool} {o : EmuMbObj} {giving : Prop} {x : Name}
    (hgives : mbConsumerStage s.cons = .gives x) (hs : s.stepConsumer timedOut = some s') :
    MbSees o giving s'.cons := by
  unfold MbSys.stepConsumer at hs
  cases hc : s.cons with
  | giveSpace r out =>
      rw [hc] at hs
      dsimp only at hs
      split at hs
      · cases hs
        trivial
      · cases hs
        trivial
  | giveData r out =>
      rw [hc] at hs
      cases hs
      trivial
  | idle | availHead | availTail | peekTail | peekCopy | skipTail | skipStore | readTail | readCopy
  | readStore | restTail | restStore | againHead | againTail | clock | take | resetHead
  | resetTail =>
      rw [hc] at hgives
      cases hgives

/-- A producer that has published is about to give `data_sem`, or to go on to that. -/
theorem mbProducer_of_publishing {p : MbProducer w} (h : Publishing p) :
    mbProducerStage p = .gives .data ∨ mbProducerStage p = .other := by
  cases p with
  | give => exact .inl rfl
  | writePayload | writeStore => exact .inr rfl
  | idle | freeHead | freeTail | writeHead | writeHeader | clock | take => exact h.elim

theorem mbConsumer_of_freeing {c : MbConsumer w} (h : c.Freeing) :
    mbConsumerStage c = .gives .space ∨ mbConsumerStage c = .other := by
  cases c with
  | giveSpace => exact .inl rfl
  | readTail | readCopy | readStore | restTail | restStore => exact .inr rfl
  | idle | availHead | availTail | peekTail | peekCopy | skipTail | skipStore | againHead
  | againTail | giveData | clock | take | resetHead | resetTail => exact h.elim

/-- The other side of a give that is refused looks again, or gives, so it relies on nothing. -/
theorem MbKept.refused {i : Side} {x : Name} (h : MbKept (mbView v s)) (hi : a.side = some i)
    (hgives : mbStage i (mbView v s) = .gives x)
    (hother : mbStage i.other (mbView v s) = .gives x ∨ mbStage i.other (mbView v s) = .looks)
    (hs : (mbView v s).step a.toMb = some s') : MbKept (mbView v s') := by
  obtain ⟨H, T, hidx⟩ := (h.step hs).idx
  have hreset := (h.step hs).space.reset
  refine ⟨⟨H, T, hidx.setSems (v .data) (v .space)⟩, ⟨hreset, ?_⟩, ?_⟩
  · cases a with
    | producer timedOut =>
        cases hi
        have hs : (mbView v s).stepProducer timedOut = some s' := hs
        obtain ⟨c, hp⟩ := mbProducer_of_gives hgives
        unfold MbSys.stepProducer at hs
        rw [hp] at hs
        cases hs
        trivial
    | consumer timedOut =>
        cases hi
        obtain ⟨-, -, -, -, hprod, -⟩ := MbSys.stepConsumer_frame hs
        change MbProdWake _ _ s'.prod
        rw [hprod]
        exact mbProducer_relies_on_nothing hother
    | send | sendIsr | receive | receiveIsr | tick => cases hi
  · cases a with
    | producer timedOut =>
        cases hi
        obtain ⟨-, hcons, -⟩ := MbSys.stepProducer_data hs
        change MbSees _ _ s'.cons
        rw [hcons]
        exact mbConsumer_relies_on_nothing hother
    | consumer timedOut =>
        cases hi
        change MbSees _ _ s'.cons
        exact mbConsumer_after_give (s := mbView v s) hgives hs
    | send | sendIsr | receive | receiveIsr | tick => cases hi

/-- A side that sleeps on a `sem_t` of value 0, although it could go on, will be woken: the other
side is between the compare-exchange and `sem_post` of a give, or it has published and has not
entered the give yet. -/
structure MbAwake (t : State (MbSys w)) : Prop where
  data : ∀ (r : MbReceive w) (remaining : Tick w), t.sys.cons = .take r remaining →
    (t.sem .data).value = 0 → MbReady t.sys.obj →
      t.phase .producer = .posting .data ∨ (t.phase .producer = .free ∧ Publishing t.sys.prod)
  space : ∀ (c : MbSend w) (free : Nat) (remaining : Tick w),
    t.sys.prod = .take c free remaining → (t.sem .space).value = 0 →
    mbFrameSize c.msg.length ≤ emuMbFree t.sys.obj →
      t.phase .consumer = .posting .space ∨ (t.phase .consumer = .free ∧ t.sys.cons.Freeing)

theorem mbAwake {buffer : Option (Nat → UInt8)} {capacity : Nat} {obj : EmuMbObj}
    (hcreate : osalMessageBufferCreate buffer capacity = .ok obj) {t : State (MbSys w)}
    (h : (mbClient w obj).machine.Reachable t) : MbAwake t := by
  have hinit : MbKept (mbView (fun _ => false) (MbSys.ofObj (w := w) obj)) :=
    ⟨⟨0, 0, (MbIdx.init hcreate).setSems false false⟩, ⟨rfl, trivial⟩, trivial⟩
  obtain ⟨hsound, hkept⟩ := (mbClient w obj).invariant (I := MbKept) hinit
    (fun s a s' hi hs => hi.step hs)
    (fun v s a s' i x hi hside _ hgives hother hs => hi.refused hside hgives hother hs) h
  constructor
  · intro r remaining hc hvalue hready
    have hsees := hkept.data
    change MbSees _ _ t.sys.cons at hsees
    rw [hc] at hsees
    rcases hsees hready with htoken | hpublishing
    · cases (token_of_value hvalue).symm.trans htoken
    · have hstage := mbProducer_of_publishing hpublishing
      exact (hsound.giving_or_other (i := .producer) hstage).imp_right
        (fun hfree => ⟨hfree, hpublishing⟩)
  · intro c free remaining hp hvalue hready
    rcases hkept.space.woken c free remaining hp hready with htoken | hfreeing
    · cases (token_of_value hvalue).symm.trans htoken
    · have hstage := mbConsumer_of_freeing hfreeing
      exact (hsound.giving_or_other (i := .consumer) hstage).imp_right
        (fun hfree => ⟨hfree, hfreeing⟩)

end MicrOsal.HostedWait
