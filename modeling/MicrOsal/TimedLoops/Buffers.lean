import MicrOsal.Lib.TickWait
import MicrOsal.StreamBuffer.Model
import MicrOsal.MessageBuffer.Model

/-!
# MicrOsal.TimedLoops.Buffers

The timed loops that wait on a semaphore of a buffer: the sends and receives of the stream
buffer (`common/emulated_stream_buffer.inl`) and of the message buffer
(`common/emulated_message_buffer.inl`).
-/

namespace MicrOsal

variable {w : Nat}

/-- The two sides of a buffer. -/
inductive BufferSide
  | producer
  | consumer
  deriving DecidableEq, Repr

/-- The loop of a call with this timeout, `none` for one from an interrupt. -/
def bufferLoop (timeout : Option (Tick w)) (start : Tick w) : Option (TickLoop w) :=
  timeout.bind (fun t => if t = waitForever then none else some ⟨t, start⟩)

theorem bufferLoop_enters (timeout : Option (Tick w)) (now : Tick w) :
    LoopMove now none (bufferLoop timeout now) := by
  cases timeout with
  | none => exact .stays _
  | some t =>
      change LoopMove now none (if t = waitForever then none else some ⟨t, now⟩)
      split
      · exact .stays _
      · exact .enters t

/-- The look of a call at the clock: it returns, or waits for `remaining`. -/
def bufferCheck (timeout : Option (Tick w)) (side : BufferSide) (remaining : Option (Tick w)) :
    Option (BufferSide × Option (Tick w)) :=
  if timeout.isSome && timeout ≠ some waitForever then some (side, remaining) else none

/-- What a side that looks at the clock makes of it: it goes back, or waits for the rest. -/
theorem bufferCheck_verdict {σ : Type} {timeout : Option (Tick w)} {start now : Tick w}
    {side side' : BufferSide} {verdict : Option (Tick w)} {back s' : σ}
    (remaining : σ → Option (Tick w)) (wait : Tick w → σ) (hback : remaining back = none)
    (hwait : ∀ left, remaining (wait left) = some left)
    (h : (if timeout.getD noWait ≠ waitForever ∧ timeout.getD noWait ≤ now - start then some back
      else some (wait (if timeout.getD noWait = waitForever then waitForever
        else timeout.getD noWait - (now - start)))) = some s')
    (hcheck : bufferCheck timeout side (remaining s') = some (side', verdict)) :
    side' = side ∧ ∃ l, bufferLoop timeout start = some l ∧
      verdict = tickVerdict l.timeout l.start now := by
  unfold bufferCheck at hcheck
  split at hcheck
  case isFalse => cases hcheck
  case isTrue hcond =>
    obtain ⟨hsome, hfinite⟩ := Bool.and_eq_true_iff.mp hcond
    obtain ⟨t, rfl⟩ := Option.isSome_iff_exists.mp hsome
    obtain ⟨rfl, rfl⟩ := Prod.mk.inj (Option.some.inj hcheck)
    have hne : t ≠ waitForever := fun heq => of_decide_eq_true hfinite (congrArg some heq)
    refine ⟨rfl, ⟨t, start⟩, if_neg hne, ?_⟩
    simp only [Option.getD_some, hne, ne_eq, not_false_eq_true, true_and, if_false] at h
    unfold tickVerdict
    dsimp only
    split at h <;> cases h
    case isTrue hover => rw [if_pos hover, hback]
    case isFalse hleft => rw [if_neg hleft, hwait]

/-- What a step does to the clock and to the loops of the two sides. -/
structure BufferMoves (clock clock' : Nat) (prod prod' cons cons' : Option (TickLoop w)) :
    Prop where
  clock_le : clock ≤ clock'
  prod : LoopMove (clockTicks w clock) prod prod'
  cons : LoopMove (clockTicks w clock) cons cons'

/-! ### The stream buffer -/

def SbProducer.tickLoop : SbProducer w → Option (TickLoop w)
  | .freeHead c | .freeTail c _ | .clock c _ | .take c _ _ => bufferLoop c.timeout c.start
  | _ => none

def SbConsumer.tickLoop : SbConsumer w → Option (TickLoop w)
  | .availHead r | .availTail r _ | .clock r _ | .take r _ _ => bufferLoop r.timeout r.start
  | _ => none

namespace SbSys

def loop (s : SbSys w) : BufferSide → Option (TickLoop w)
  | .producer => s.prod.tickLoop
  | .consumer => s.cons.tickLoop

/-- What the side waits for, on its semaphore. -/
def remaining (s : SbSys w) : BufferSide → Option (Tick w)
  | .producer => match s.prod with
    | .take _ _ remaining => some remaining
    | _ => none
  | .consumer => match s.cons with
    | .take _ _ remaining => some remaining
    | _ => none

def check (s : SbSys w) (a : SbAct w) (s' : SbSys w) : Option (BufferSide × Option (Tick w)) :=
  match a with
  | .producer _ => match s.prod with
    | .clock c _ => bufferCheck c.timeout .producer (s'.remaining .producer)
    | _ => none
  | .consumer _ => match s.cons with
    | .clock r _ => bufferCheck r.timeout .consumer (s'.remaining .consumer)
    | _ => none
  | _ => none

variable {s s' : SbSys w} {a : SbAct w} {timedOut : Bool}

/-- The step takes each side on in its loop, out of it, or into one. -/
def Moves (s s' : SbSys w) : Prop :=
  BufferMoves s.clock s'.clock s.prod.tickLoop s'.prod.tickLoop s.cons.tickLoop s'.cons.tickLoop

theorem moves_producer (h : s.stepProducer timedOut = some s') : s.Moves s' := by
  unfold Moves
  cases hp : s.prod <;> simp only [stepProducer, hp] at h <;> (repeat' split at h) <;> cases h
  all_goals exact ⟨Nat.le_refl _, by first | exact .stays _ | exact .leaves _, .stays _⟩

theorem moves_consumer (h : s.stepConsumer timedOut = some s') : s.Moves s' := by
  unfold Moves
  cases hc : s.cons <;> simp only [stepConsumer, hc] at h <;> (repeat' split at h) <;> cases h
  all_goals exact ⟨Nat.le_refl _, .stays _, by first | exact .stays _ | exact .leaves _⟩

theorem moves_beginSend (hp : s.prod = .idle) (data : Option (List UInt8))
    (timeout : Option (Tick w)) : s.Moves (s.beginSend data timeout) := by
  unfold Moves beginSend
  rw [hp]
  dsimp only
  split
  · exact ⟨Nat.le_refl _, .stays _, .stays _⟩
  · exact ⟨Nat.le_refl _, bufferLoop_enters timeout _, .stays _⟩

theorem moves_beginReceive (hc : s.cons = .idle) (maxLen : Nat) (timeout : Option (Tick w)) :
    s.Moves (s.beginReceive maxLen timeout) := by
  unfold Moves beginReceive
  rw [hc]
  dsimp only
  split
  · exact ⟨Nat.le_refl _, .stays _, .stays _⟩
  · exact ⟨Nat.le_refl _, .stays _, bufferLoop_enters timeout _⟩

theorem moves_step (h : s.step a = some s') : s.Moves s' := by
  cases a with
  | send data timeout =>
      simp only [step] at h
      split at h <;> cases h
      case h_1 hp => exact moves_beginSend hp data (some timeout)
  | sendIsr data =>
      simp only [step] at h
      split at h <;> cases h
      case h_1 hp => exact moves_beginSend hp data none
  | receive maxLen timeout =>
      simp only [step] at h
      split at h <;> cases h
      case h_1 hc => exact moves_beginReceive hc maxLen (some timeout)
  | receiveIsr maxLen =>
      simp only [step] at h
      split at h <;> cases h
      case h_1 hc => exact moves_beginReceive hc maxLen none
  | reset =>
      simp only [step] at h
      split at h <;> cases h
      exact ⟨Nat.le_refl _, .stays _, .leaves _⟩
  | producer timedOut => exact moves_producer h
  | consumer timedOut => exact moves_consumer h
  | tick =>
      cases h
      exact ⟨Nat.le_succ _, .stays _, .stays _⟩

theorem check_step {side : BufferSide} {verdict : Option (Tick w)} (h : s.step a = some s')
    (hcheck : s.check a s' = some (side, verdict)) :
    ∃ l, s.loop side = some l ∧
      verdict = tickVerdict l.timeout l.start (clockTicks w s.clock) := by
  cases a with
  | producer timedOut =>
      simp only [check] at hcheck
      split at hcheck
      case h_2 => cases hcheck
      case h_1 c free hp =>
        simp only [step, stepProducer, hp] at h
        obtain ⟨rfl, hloop⟩ := bufferCheck_verdict (fun s => remaining s .producer)
          (fun left => { s with prod := .take c free left }) rfl (fun _ => rfl) h hcheck
        rw [loop, hp]
        exact hloop
  | consumer timedOut =>
      simp only [check] at hcheck
      split at hcheck
      case h_2 => cases hcheck
      case h_1 r avail hc =>
        simp only [step, stepConsumer, hc] at h
        obtain ⟨rfl, hloop⟩ := bufferCheck_verdict (fun s => remaining s .consumer)
          (fun left => { s with cons := .take r avail left }) rfl (fun _ => rfl) h hcheck
        rw [loop, hc]
        exact hloop
  | _ => cases hcheck

end SbSys

/-- The calls of a stream buffer. -/
def streamLoops (w : Nat) (obj : EmuSbObj) : TimedLoops (SbSys w) (SbAct w) BufferSide w where
  machine := sbMachine w obj
  clock := SbSys.clock
  loop := SbSys.loop
  check := SbSys.check
  clock_le h := (SbSys.moves_step h).clock_le
  moves side h := match side with
    | .producer => (SbSys.moves_step h).prod
    | .consumer => (SbSys.moves_step h).cons
  checks h hcheck := SbSys.check_step h hcheck

/-! ### The message buffer -/

def MbProducer.tickLoop : MbProducer w → Option (TickLoop w)
  | .freeHead c | .freeTail c _ | .clock c _ | .take c _ _ => bufferLoop c.timeout c.start
  | _ => none

def MbConsumer.tickLoop : MbConsumer w → Option (TickLoop w)
  | .availHead r | .availTail r _ | .peekTail r _ | .peekCopy r _ _ | .clock r | .take r _ =>
      bufferLoop r.timeout r.start
  | _ => none

namespace MbSys

def loop (s : MbSys w) : BufferSide → Option (TickLoop w)
  | .producer => s.prod.tickLoop
  | .consumer => s.cons.tickLoop

/-- What the side waits for, on its semaphore. -/
def remaining (s : MbSys w) : BufferSide → Option (Tick w)
  | .producer => match s.prod with
    | .take _ _ remaining => some remaining
    | _ => none
  | .consumer => match s.cons with
    | .take _ remaining => some remaining
    | _ => none

def check (s : MbSys w) (a : MbAct w) (s' : MbSys w) : Option (BufferSide × Option (Tick w)) :=
  match a with
  | .producer _ => match s.prod with
    | .clock c _ => bufferCheck c.timeout .producer (s'.remaining .producer)
    | _ => none
  | .consumer _ => match s.cons with
    | .clock r => bufferCheck r.timeout .consumer (s'.remaining .consumer)
    | _ => none
  | _ => none

variable {s s' : MbSys w} {a : MbAct w} {timedOut : Bool}

/-- The step takes each side on in its loop, out of it, or into one. -/
def Moves (s s' : MbSys w) : Prop :=
  BufferMoves s.clock s'.clock s.prod.tickLoop s'.prod.tickLoop s.cons.tickLoop s'.cons.tickLoop

theorem moves_producer (h : s.stepProducer timedOut = some s') : s.Moves s' := by
  unfold Moves
  cases hp : s.prod <;> simp only [stepProducer, hp] at h <;> (repeat' split at h) <;> cases h
  all_goals exact ⟨Nat.le_refl _, by first | exact .stays _ | exact .leaves _, .stays _⟩

theorem moves_noMessage (s : MbSys w) (r : MbReceive w) :
    (s.noMessage r).clock = s.clock ∧ (s.noMessage r).prod = s.prod ∧
      LoopMove (clockTicks w s.clock) (bufferLoop r.timeout r.start)
        (s.noMessage r).cons.tickLoop := by
  unfold noMessage
  split
  · exact ⟨rfl, rfl, .leaves _⟩
  · exact ⟨rfl, rfl, .stays _⟩

theorem moves_consumer (h : s.stepConsumer timedOut = some s') : s.Moves s' := by
  unfold Moves
  cases hc : s.cons <;> simp only [stepConsumer, hc] at h <;> (repeat' split at h) <;> cases h
  case availTail.isFalse r head _ =>
    obtain ⟨hclock, hprod, hmove⟩ := s.moves_noMessage r
    exact ⟨hclock.ge, by rw [hprod]; exact .stays _, hmove⟩
  case peekCopy.isFalse r avail tail _ =>
    obtain ⟨hclock, hprod, hmove⟩ := s.moves_noMessage r
    exact ⟨hclock.ge, by rw [hprod]; exact .stays _, hmove⟩
  all_goals exact ⟨Nat.le_refl _, .stays _, by first | exact .stays _ | exact .leaves _⟩

theorem moves_beginSend (hp : s.prod = .idle) (msg : Option (List UInt8))
    (timeout : Option (Tick w)) : s.Moves (s.beginSend msg timeout) := by
  unfold Moves beginSend
  rw [hp]
  dsimp only
  split
  · exact ⟨Nat.le_refl _, .stays _, .stays _⟩
  · exact ⟨Nat.le_refl _, bufferLoop_enters timeout _, .stays _⟩

theorem moves_beginReceive (hc : s.cons = .idle) (maxLen : Nat) (timeout : Option (Tick w)) :
    s.Moves (s.beginReceive maxLen timeout) := by
  unfold Moves beginReceive
  rw [hc]
  dsimp only
  split
  · exact ⟨Nat.le_refl _, .stays _, .stays _⟩
  · exact ⟨Nat.le_refl _, .stays _, bufferLoop_enters timeout _⟩

theorem moves_step (h : s.step a = some s') : s.Moves s' := by
  cases a with
  | send msg timeout =>
      simp only [step] at h
      split at h <;> cases h
      case h_1 hp => exact moves_beginSend hp msg (some timeout)
  | sendIsr msg =>
      simp only [step] at h
      split at h <;> cases h
      case h_1 hp => exact moves_beginSend hp msg none
  | receive maxLen timeout =>
      simp only [step] at h
      split at h <;> cases h
      case h_1 hc => exact moves_beginReceive hc maxLen (some timeout)
  | receiveIsr maxLen =>
      simp only [step] at h
      split at h <;> cases h
      case h_1 hc => exact moves_beginReceive hc maxLen none
  | reset =>
      simp only [step] at h
      split at h <;> cases h
      exact ⟨Nat.le_refl _, .stays _, .leaves _⟩
  | producer timedOut => exact moves_producer h
  | consumer timedOut => exact moves_consumer h
  | tick =>
      cases h
      exact ⟨Nat.le_succ _, .stays _, .stays _⟩

theorem check_step {side : BufferSide} {verdict : Option (Tick w)} (h : s.step a = some s')
    (hcheck : s.check a s' = some (side, verdict)) :
    ∃ l, s.loop side = some l ∧
      verdict = tickVerdict l.timeout l.start (clockTicks w s.clock) := by
  cases a with
  | producer timedOut =>
      simp only [check] at hcheck
      split at hcheck
      case h_2 => cases hcheck
      case h_1 c free hp =>
        simp only [step, stepProducer, hp] at h
        obtain ⟨rfl, hloop⟩ := bufferCheck_verdict (fun s => remaining s .producer)
          (fun left => { s with prod := .take c free left }) rfl (fun _ => rfl) h hcheck
        rw [loop, hp]
        exact hloop
  | consumer timedOut =>
      simp only [check] at hcheck
      split at hcheck
      case h_2 => cases hcheck
      case h_1 r hc =>
        simp only [step, stepConsumer, hc] at h
        obtain ⟨rfl, hloop⟩ := bufferCheck_verdict (fun s => remaining s .consumer)
          (fun left => { s with cons := .take r left }) rfl (fun _ => rfl) h hcheck
        rw [loop, hc]
        exact hloop
  | _ => cases hcheck

end MbSys

/-- The calls of a message buffer. -/
def messageLoops (w : Nat) (obj : EmuMbObj) : TimedLoops (MbSys w) (MbAct w) BufferSide w where
  machine := mbMachine w obj
  clock := MbSys.clock
  loop := MbSys.loop
  check := MbSys.check
  clock_le h := (MbSys.moves_step h).clock_le
  moves side h := match side with
    | .producer => (MbSys.moves_step h).prod
    | .consumer => (MbSys.moves_step h).cons
  checks h hcheck := MbSys.check_step h hcheck

end MicrOsal
