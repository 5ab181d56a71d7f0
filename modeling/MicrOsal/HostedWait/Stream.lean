import MicrOsal.HostedWait.Client
import MicrOsal.MessageBuffer.Wakeup

/-!
# MicrOsal.HostedWait.Stream

The emulated stream buffer over the hosted semaphores.

A give that is refused at value 0 finds the other side about to look at the buffer again, so what
a side relies on while it sleeps (`SbWake`) is kept.
-/

namespace MicrOsal.HostedWait

variable {w : Nat} {s s' : SbSys w} {a : Call w} {v : Name → Bool}

/-- The step of the stream buffer. -/
def Call.toSb : Call w → SbAct w
  | .send data timeout => .send data timeout
  | .sendIsr data => .sendIsr data
  | .receive maxLen timeout => .receive maxLen timeout
  | .receiveIsr maxLen => .receiveIsr maxLen
  | .producer timedOut => .producer timedOut
  | .consumer timedOut => .consumer timedOut
  | .tick => .tick

/-- What the producer does next. -/
def sbProducerStage : SbProducer w → Stage
  | .idle => .idle
  | .freeHead _ => .looks
  | .give _ => .gives .data
  | .take _ _ _ => .takes .space
  | .freeTail _ _ | .writeHead _ | .writeCopy _ _ | .writeStore _ _ | .clock _ _ => .other

/-- What the consumer does next. -/
def sbConsumerStage : SbConsumer w → Stage
  | .idle => .idle
  | .availHead _ => .looks
  | .give _ _ _ => .gives .space
  | .take _ _ _ => .takes .data
  | .availTail _ _ | .readTail _ _ | .readCopy _ _ _ | .readStore _ _ _ _ | .clock _ _ | .resetHead
  | .resetTail _ => .other

def sbStage (i : Side) (s : SbSys w) : Stage :=
  match i with
  | .producer => sbProducerStage s.prod
  | .consumer => sbConsumerStage s.cons

/-- The stream buffer with other tokens. -/
def sbView (v : Name → Bool) (s : SbSys w) : SbSys w :=
  { s with obj := { s.obj with dataSem := v .data, spaceSem := v .space } }

/-! ### What a step does to the tokens -/

theorem sbView_beginSend {data : Option (List UInt8)} {timeout : Option (Tick w)} :
    (sbView v s).beginSend data timeout = sbView v ((sbView v s).beginSend data timeout) := by
  unfold SbSys.beginSend
  dsimp only
  split <;> rfl

theorem sbView_beginReceive {maxLen : Nat} {timeout : Option (Tick w)} :
    (sbView v s).beginReceive maxLen timeout =
      sbView v ((sbView v s).beginReceive maxLen timeout) := by
  unfold SbSys.beginReceive
  dsimp only
  split <;> rfl

theorem sbStep_none (hi : a.side = none) (hs : (sbView v s).step a.toSb = some s') :
    s' = sbView v s' := by
  cases a with
  | producer | consumer => cases hi
  | tick =>
      cases hs
      rfl
  | send | sendIsr =>
      simp only [Call.toSb, SbSys.step] at hs
      split at hs
      · cases hs
        exact sbView_beginSend
      · cases hs
  | receive | receiveIsr =>
      simp only [Call.toSb, SbSys.step] at hs
      split at hs
      · cases hs
        exact sbView_beginReceive
      · cases hs

theorem sbStep_producer {timedOut : Bool}
    (hs : (sbView v s).stepProducer timedOut = some s') :
    match sbProducerStage s.prod with
    | .gives x => s' = sbView (Function.update v x true) s'
    | .takes x => if timedOut then s' = sbView v s' else
        v x = true ∧ s' = sbView (Function.update v x false) s' ∧
          sbProducerStage s'.prod = .looks
    | .idle | .looks | .other => s' = sbView v s' := by
  have hprod : (sbView v s).prod = s.prod := rfl
  unfold SbSys.stepProducer at hs
  rw [hprod] at hs
  generalize hp : s.prod = here at hs
  cases here with
  | idle =>
      cases hs
  | freeHead | writeHead | writeCopy | writeStore =>
      cases hs
      rfl
  | freeTail =>
      dsimp only at hs
      split at hs
      · cases hs
        rfl
      · split at hs
        · cases hs
          rfl
        · cases hs
          rfl
  | give =>
      cases hs
      rfl
  | clock =>
      dsimp only at hs
      split at hs
      · cases hs
        rfl
      · cases hs
        rfl
  | take c free remaining =>
      dsimp only [sbProducerStage] at hs ⊢
      cases timedOut with
      | true =>
          rw [if_pos rfl] at hs ⊢
          split at hs
          · cases hs
          · cases hs
            rfl
      | false =>
          rw [if_neg Bool.false_ne_true] at hs ⊢
          split at hs
          case isTrue htoken =>
            cases hs
            exact ⟨htoken, rfl, rfl⟩
          case isFalse => cases hs

theorem sbStep_consumer {timedOut : Bool}
    (hs : (sbView v s).stepConsumer timedOut = some s') :
    match sbConsumerStage s.cons with
    | .gives x => s' = sbView (Function.update v x true) s'
    | .takes x => if timedOut then s' = sbView v s' else
        v x = true ∧ s' = sbView (Function.update v x false) s' ∧
          sbConsumerStage s'.cons = .looks
    | .idle | .looks | .other => s' = sbView v s' := by
  have hcons : (sbView v s).cons = s.cons := rfl
  unfold SbSys.stepConsumer at hs
  rw [hcons] at hs
  generalize hc : s.cons = here at hs
  cases here with
  | idle =>
      cases hs
  | availHead | readTail | readCopy | readStore | resetHead | resetTail =>
      cases hs
      rfl
  | availTail r hd =>
      dsimp only at hs
      split at hs
      · cases hs
        rfl
      · split at hs
        · cases hs
          rfl
        · cases hs
          rfl
  | give =>
      cases hs
      rfl
  | clock =>
      dsimp only at hs
      split at hs
      · cases hs
        rfl
      · cases hs
        rfl
  | take r avail remaining =>
      dsimp only [sbConsumerStage] at hs ⊢
      cases timedOut with
      | true =>
          rw [if_pos rfl] at hs ⊢
          split at hs
          · cases hs
          · cases hs
            rfl
      | false =>
          rw [if_neg Bool.false_ne_true] at hs ⊢
          split at hs
          case isTrue htoken =>
            cases hs
            exact ⟨htoken, rfl, rfl⟩
          case isFalse => cases hs

/-! ### What a step does to the other side -/

/-- The producer does not touch the consumer. -/
theorem SbSys.stepProducer_cons {timedOut : Bool} (hs : s.stepProducer timedOut = some s') :
    s'.cons = s.cons := by
  unfold SbSys.stepProducer at hs
  cases hp : s.prod <;> rw [hp] at hs <;> dsimp only at hs
  case idle => cases hs
  case freeTail => split at hs <;> [skip; split at hs] <;> cases hs <;> rfl
  case clock => split at hs <;> cases hs <;> rfl
  case take => split at hs <;> split at hs <;> cases hs <;> rfl
  all_goals cases hs; rfl

theorem beginSend_cons {data : Option (List UInt8)} {timeout : Option (Tick w)} :
    (s.beginSend data timeout).cons = s.cons := by
  unfold SbSys.beginSend
  dsimp only
  split <;> rfl

theorem beginReceive_prod {maxLen : Nat} {timeout : Option (Tick w)} :
    (s.beginReceive maxLen timeout).prod = s.prod := by
  unfold SbSys.beginReceive
  dsimp only
  split <;> rfl

theorem sbStays {i : Side} (hs : s.step a.toSb = some s') (hi : a.side ≠ some i) :
    sbStage i s' = sbStage i s ∨ sbStage i s = .idle := by
  cases a with
  | tick =>
      cases hs
      exact .inl rfl
  | send | sendIsr =>
      simp only [Call.toSb, SbSys.step] at hs
      split at hs
      case h_1 hp =>
        cases hs
        cases i with
        | producer => exact .inr (congrArg sbProducerStage hp)
        | consumer => exact .inl (congrArg sbConsumerStage beginSend_cons)
      case h_2 => cases hs
  | receive | receiveIsr =>
      simp only [Call.toSb, SbSys.step] at hs
      split at hs
      case h_1 hc =>
        cases hs
        cases i with
        | producer => exact .inl (congrArg sbProducerStage beginReceive_prod)
        | consumer => exact .inr (congrArg sbConsumerStage hc)
      case h_2 => cases hs
  | producer timedOut =>
      cases i with
      | producer => exact absurd rfl hi
      | consumer => exact .inl (congrArg sbConsumerStage (SbSys.stepProducer_cons hs))
  | consumer timedOut =>
      cases i with
      | producer => exact .inl (congrArg sbProducerStage (SbSys.stepConsumer_prod hs))
      | consumer => exact absurd rfl hi

/-! ### The stream buffer over the hosted semaphores -/

def sbClient (w : Nat) (obj : EmuSbObj) : Client w (SbSys w) where
  init := SbSys.ofObj obj
  step s a := s.step a.toSb
  view := sbView
  stage := sbStage
  view_view _ _ _ := rfl
  stage_view i _ _ := by cases i <;> rfl
  step_none := sbStep_none
  step_some {v s a s' i} hi hs := by
    cases a with
    | producer timedOut =>
        cases hi
        exact sbStep_producer hs
    | consumer timedOut =>
        cases hi
        exact sbStep_consumer hs
    | send | sendIsr | receive | receiveIsr | tick => cases hi
  stays := sbStays

/-! ### No side is left asleep -/

theorem sbProducer_of_looks {p : SbProducer w} (h : sbProducerStage p = .looks) :
    ∃ c, p = .freeHead c := by
  cases p with
  | freeHead c => exact ⟨c, rfl⟩
  | idle | freeTail | writeHead | writeCopy | writeStore | give | clock | take => cases h

theorem sbProducer_of_gives {p : SbProducer w} {x : Name} (h : sbProducerStage p = .gives x) :
    x = .data ∧ ∃ c, p = .give c := by
  cases p with
  | give c => exact ⟨(Stage.gives.inj h).symm, c, rfl⟩
  | idle | freeHead | freeTail | writeHead | writeCopy | writeStore | clock | take => cases h

theorem sbConsumer_of_looks {c : SbConsumer w} (h : sbConsumerStage c = .looks) :
    ∃ r, c = .availHead r := by
  cases c with
  | availHead r => exact ⟨r, rfl⟩
  | idle | availTail | readTail | readCopy | readStore | give | clock | take | resetHead
  | resetTail => cases h

theorem sbConsumer_of_gives {c : SbConsumer w} {x : Name} (h : sbConsumerStage c = .gives x) :
    x = .space ∧ ∃ r avail out, c = .give r avail out := by
  cases c with
  | give r avail out => exact ⟨(Stage.gives.inj h).symm, r, avail, out, rfl⟩
  | idle | availHead | availTail | readTail | readCopy | readStore | clock | take | resetHead
  | resetTail => cases h

/-- What the two sides rely on. -/
structure SbKept (s : SbSys w) : Prop where
  inv : ∃ H T, SbInv s H T
  wake : SbWake s

theorem Call.toSb_ne_reset : a.toSb ≠ .reset := by
  cases a <;> nofun

theorem SbKept.step (h : SbKept s) (hs : s.step a.toSb = some s') : SbKept s' := by
  obtain ⟨⟨H, T, hinv⟩, hwake⟩ := h
  exact ⟨hinv.step hs, hwake.step hinv Call.toSb_ne_reset hs⟩

/-- The other side of a give that is refused looks again, so it relies on nothing. -/
theorem SbKept.refused {i : Side} {x : Name} (h : SbKept (sbView v s)) (hi : a.side = some i)
    (hgives : sbStage i (sbView v s) = .gives x)
    (hother : sbStage i.other (sbView v s) = .gives x ∨ sbStage i.other (sbView v s) = .looks)
    (hs : (sbView v s).step a.toSb = some s') : SbKept (sbView v s') := by
  obtain ⟨H, T, hinv⟩ := (h.step hs).inv
  refine ⟨⟨H, T, hinv.setSems (v .data) (v .space)⟩, ?_⟩
  cases a with
  | producer timedOut =>
      cases hi
      obtain ⟨rfl, c, hp⟩ := sbProducer_of_gives hgives
      have hs : (sbView v s).stepProducer timedOut = some s' := hs
      unfold SbSys.stepProducer at hs
      rw [hp] at hs
      cases hs
      refine ⟨trivial, ?_⟩
      rcases hother with hno | hlooks
      · cases (sbConsumer_of_gives hno).1
      · obtain ⟨r, hr⟩ := sbConsumer_of_looks hlooks
        have hr : s.cons = .availHead r := hr
        change ConsWake _ _ s.cons
        rw [hr]
        trivial
  | consumer timedOut =>
      cases hi
      obtain ⟨rfl, r, avail, out, hc⟩ := sbConsumer_of_gives hgives
      have hs : (sbView v s).stepConsumer timedOut = some s' := hs
      unfold SbSys.stepConsumer at hs
      rw [hc] at hs
      cases hs
      refine ⟨?_, trivial⟩
      rcases hother with hno | hlooks
      · cases (sbProducer_of_gives hno).1
      · obtain ⟨c, hp⟩ := sbProducer_of_looks hlooks
        have hp : s.prod = .freeHead c := hp
        change ProdWake _ _ s.prod
        rw [hp]
        trivial
  | send | sendIsr | receive | receiveIsr | tick => cases hi

/-- A side that sleeps on a `sem_t` of value 0, although it could go on, will be woken: the other
side is between the compare-exchange and `sem_post` of a give, or it has published and has not
entered the give yet. -/
structure SbAwake (t : State (SbSys w)) : Prop where
  data : ∀ (r : SbReceive w) (avail : Nat) (remaining : Tick w),
    t.sys.cons = .take r avail remaining → (t.sem .data).value = 0 →
    t.sys.obj.trigger ≤ sbAvailable t.sys.obj →
      t.phase .producer = .posting .data ∨ (t.phase .producer = .free ∧ t.sys.prod.AtGive)
  space : ∀ (c : SbSend w) (free : Nat) (remaining : Tick w),
    t.sys.prod = .take c free remaining → (t.sem .space).value = 0 →
    c.data.length ≤ sbFree t.sys.obj →
      t.phase .consumer = .posting .space ∨ (t.phase .consumer = .free ∧ t.sys.cons.AtGive)

theorem sbAwake {buffer : Option (Nat → UInt8)} {capacity triggerLevel : Nat} {obj : EmuSbObj}
    (hcreate : osalStreamBufferCreate buffer capacity triggerLevel = .ok obj)
    {t : State (SbSys w)} (h : (sbClient w obj).machine.Reachable t) : SbAwake t := by
  have hinit : SbKept (sbView (fun _ => false) (SbSys.ofObj (w := w) obj)) :=
    ⟨⟨0, 0, (SbInv.init hcreate).setSems false false⟩, ⟨trivial, trivial⟩⟩
  obtain ⟨hsound, hkept⟩ := (sbClient w obj).invariant (I := SbKept) hinit
    (fun s a s' hi hs => hi.step hs)
    (fun v s a s' i x hi hside _ hgives hother hs => hi.refused hside hgives hother hs) h
  have hwoken := hkept.wake.woken
  constructor
  · intro r avail remaining hc hvalue hready
    rcases hwoken.data r avail remaining hc hready with htoken | hgive
    · cases (token_of_value hvalue).symm.trans htoken
    · have hstage : (sbClient w obj).stage .producer t.sys = .gives .data := by
        change t.sys.prod.AtGive at hgive
        change sbProducerStage t.sys.prod = _
        cases hp : t.sys.prod with
        | give c => rfl
        | idle | freeHead | freeTail | writeHead | writeCopy | writeStore | clock | take =>
            rw [hp] at hgive
            exact hgive.elim
      exact (hsound.giving hstage).imp_right (fun hfree => ⟨hfree, hgive⟩)
  · intro c free remaining hp hvalue hready
    rcases hwoken.space c free remaining hp hready with htoken | hgive
    · cases (token_of_value hvalue).symm.trans htoken
    · have hstage : (sbClient w obj).stage .consumer t.sys = .gives .space := by
        change t.sys.cons.AtGive at hgive
        change sbConsumerStage t.sys.cons = _
        cases hc : t.sys.cons with
        | give r avail out => rfl
        | idle | availHead | availTail | readTail | readCopy | readStore | clock | take | resetHead
        | resetTail =>
            rw [hc] at hgive
            exact hgive.elim
      exact (hsound.giving hstage).imp_right (fun hfree => ⟨hfree, hgive⟩)

end MicrOsal.HostedWait
