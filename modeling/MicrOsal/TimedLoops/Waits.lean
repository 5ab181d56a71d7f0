import MicrOsal.TimedLoops.Buffers
import MicrOsal.TimedLoops.Locks
import MicrOsal.EventFlags.Model

/-!
# MicrOsal.TimedLoops.Waits

When the emulated waits give up: those of the event flags (`common/emulated_event_flags.inl`),
and of the read-write lock, the two buffers and the work queue.

They all compare the difference of two readings of the tick counter with their timeout. The
difference is right up to full turns of the counter: a wait that looks at the clock a full turn
after its start, and less than its timeout past that, begins anew.
-/

namespace MicrOsal

/-! ### The event flags -/

section EventFlags

variable {cfg : EfConfig}

/-- The loop of a wait with a finite timeout. -/
def EfWait.tickLoop (c : EfWait cfg) (start : Tick cfg.tickBits) : Option (TickLoop cfg.tickBits) :=
  if c.timeout = waitForever then none else some ⟨c.timeout, start⟩

def EfPhase.start : EfPhase cfg → Option (Tick cfg.tickBits)
  | .woken _ start => some start
  | .reopened _ start => some start
  | _ => none

def EfThread.tickLoop : EfThread cfg → Option (TickLoop cfg.tickBits)
  | .top c _ start | .sleep c _ start _ | .relock c _ start | .reopen c _ start =>
      c.tickLoop start
  | .check c phase => phase.start.bind c.tickLoop
  | .unlockSleep c _ start => start.bind c.tickLoop
  | _ => none

/-- What the wait of a thread blocks for, on the semaphore of its slot. -/
def EfThread.remaining : EfThread cfg → Option (Tick cfg.tickBits)
  | .sleep _ _ _ remaining => some remaining
  | _ => none

namespace EfSys

def check (s : EfSys cfg) (a : EfAct cfg) (s' : EfSys cfg) :
    Option (Nat × Option (Tick cfg.tickBits)) :=
  match a with
  | .step t _ => match s.threads t with
    | .top c _ _ =>
        if c.timeout = waitForever then none else some (t, (s'.threads t).remaining)
    | _ => none
  | _ => none

theorem tickLoop_nextWord (updated : EventBits) (isr : Bool) (word : Nat) :
    (EfThread.nextWord updated isr word : EfThread cfg).tickLoop = none := by
  unfold EfThread.nextWord EfThread.setEnd
  repeat' split
  all_goals rfl

theorem tickLoop_nextSlot (updated : EventBits) (isr : Bool) (word : Nat)
    (active : BitVec cfg.wordBits) :
    (EfThread.nextSlot updated isr word active : EfThread cfg).tickLoop = none := by
  unfold EfThread.nextSlot
  split
  · exact tickLoop_nextWord _ _ _
  · rfl

theorem tickLoop_setEnd (isr : Bool) : (EfThread.setEnd isr : EfThread cfg).tickLoop = none := by
  cases isr <;> rfl

theorem tickLoop_satisfied (c : EfWait cfg) (phase : EfPhase cfg) (reported : EventBits) :
    (EfThread.satisfied c phase reported).tickLoop = none := by
  cases phase <;> rfl

theorem tickLoop_entry (op : EfOp cfg) : op.entry.tickLoop = none := by
  cases op with
  | setIsr bits =>
      simp only [EfOp.entry]
      cases cfg.isrEventFlags <;> rfl
  | _ => rfl

/-- A wait that does not find its condition goes on in its loop, if it is in it. -/
theorem tickLoop_unmatched (c : EfWait cfg) (phase : EfPhase cfg) :
    (EfThread.unmatched c phase).tickLoop = phase.start.bind c.tickLoop := by
  cases phase with
  | quick =>
      unfold EfThread.unmatched
      dsimp only
      split <;> rfl
  | registered slot => rfl
  | woken slot start => rfl
  | reopened slot start => rfl

variable {o o' : EmuEfObj cfg} {t clock : Nat} {timedOut : Bool} {pc pc' : EfThread cfg}

theorem loopMove_next (h : o.next t clock timedOut pc = some (o', pc')) :
    LoopMove (clockTicks cfg.tickBits clock) pc.tickLoop pc'.tickLoop := by
  cases pc with
  | check c phase =>
      simp only [EmuEfObj.next] at h
      split at h <;> cases h
      · exact .leaves _
      · rw [tickLoop_unmatched]
        exact .stays _
  | consume c phase reported =>
      cases h
      rw [tickLoop_satisfied]
      exact .leaves _
  | unlockSleep c slot start => cases start <;> cases h <;> exact .stays _
  | readStart c slot =>
      cases h
      simp only [EfThread.tickLoop, EfWait.tickLoop]
      split
      · exact .stays _
      · exact .enters c.timeout
  | setCount updated isr =>
      simp only [EmuEfObj.next] at h
      split at h <;> cases h
      · rw [tickLoop_setEnd]
        exact .leaves _
      · rw [tickLoop_nextWord]
        exact .leaves _
  | scanWord updated isr word =>
      cases h
      rw [tickLoop_nextSlot]
      exact .leaves _
  | scanGive updated isr word active =>
      cases h
      rw [EfThread.skipSlot, tickLoop_nextSlot]
      exact .leaves _
  | scanUse updated isr word active | scanMatch updated isr word active
  | scanPending updated isr word active =>
      simp only [EmuEfObj.next, EfThread.skipSlot] at h
      split at h <;> cases h
      all_goals first | exact .leaves _ | (rw [tickLoop_nextSlot]; exact .leaves _)
  | _ =>
      simp only [EmuEfObj.next] at h
      repeat' split at h
      all_goals cases h
      all_goals first | exact .stays _ | exact .leaves _

variable {s s' : EfSys cfg} {a : EfAct cfg}

theorem loopMove_step (h : s.step a = some s') (u : Nat) :
    s.clock ≤ s'.clock ∧ LoopMove (clockTicks cfg.tickBits s.clock) (s.threads u).tickLoop
      (s'.threads u).tickLoop := by
  cases a with
  | call t op =>
      simp only [step] at h
      split at h <;> cases h
      case h_1 hidle =>
        refine ⟨Nat.le_refl _, ?_⟩
        by_cases hut : u = t
        · subst hut
          dsimp only
          rw [Function.update_self, tickLoop_entry]
          exact .leaves _
        · dsimp only
          rw [Function.update_of_ne hut]
          exact .stays _
  | step t timedOut =>
      simp only [step] at h
      split at h
      case h_1 => cases h
      case h_2 o pc hnext =>
        cases h
        refine ⟨Nat.le_refl _, ?_⟩
        by_cases hut : u = t
        · subst hut
          dsimp only
          rw [Function.update_self]
          exact loopMove_next hnext
        · dsimp only
          rw [Function.update_of_ne hut]
          exact .stays _
  | tick n =>
      cases h
      exact ⟨Nat.le_add_right _ _, .stays _⟩

theorem check_step {verdict : Option (Tick cfg.tickBits)} (h : s.step a = some s')
    (hcheck : s.check a s' = some (t, verdict)) :
    ∃ l, (s.threads t).tickLoop = some l ∧
      verdict = tickVerdict l.timeout l.start (clockTicks cfg.tickBits s.clock) := by
  cases a with
  | step u timedOut =>
      simp only [check] at hcheck
      split at hcheck
      case h_2 => cases hcheck
      case h_1 c slot start hu =>
        split at hcheck
        case isTrue => cases hcheck
        case isFalse hfinite =>
          obtain ⟨rfl, rfl⟩ := Prod.mk.inj (Option.some.inj hcheck)
          have hloop : (EfThread.top c slot start).tickLoop = some ⟨c.timeout, start⟩ :=
            if_neg hfinite
          refine ⟨_, by rw [hu]; exact hloop, ?_⟩
          simp only [step, hu, EmuEfObj.next, if_neg hfinite] at h
          unfold tickVerdict
          dsimp only
          by_cases hover : c.timeout ≤ clockTicks cfg.tickBits s.clock - start
          · rw [if_pos hover] at h
            cases h
            dsimp only
            rw [if_pos hover, Function.update_self]
            rfl
          · rw [if_neg hover] at h
            cases h
            dsimp only
            rw [if_neg hover, Function.update_self]
            rfl
  | _ => cases hcheck

end EfSys

/-- The waits of a group of event flags. -/
def eventFlagsLoops (cfg : EfConfig) :
    TimedLoops (EfSys cfg) (EfAct cfg) Nat cfg.tickBits where
  machine := efMachine cfg
  clock := EfSys.clock
  loop s t := (s.threads t).tickLoop
  check := EfSys.check
  clock_le h := (EfSys.loopMove_step h 0).1
  moves t h := (EfSys.loopMove_step h t).2
  checks h hcheck := EfSys.check_step h hcheck

end EventFlags

/-! ### All of them -/

/-- In every run of each of the emulated objects, every look at the clock in a timed loop gives up
when the timeout has passed and not before, and waits for no longer than what remains of it, if
and only if full turns of the tick counter do not hide that the timeout has passed. -/
theorem emulatedWaits_honest (cfg : EfConfig) (w numThreads depth : Nat) (sb : EmuSbObj)
    (mb : EmuMbObj) :
    (eventFlagsLoops cfg).HonestUnlessHidden ∧ (rwlockLoops w numThreads).HonestUnlessHidden ∧
      (streamLoops w sb).HonestUnlessHidden ∧ (messageLoops w mb).HonestUnlessHidden ∧
      (flushLoops w depth numThreads).HonestUnlessHidden :=
  ⟨(eventFlagsLoops cfg).honestUnlessHidden, (rwlockLoops w numThreads).honestUnlessHidden,
    (streamLoops w sb).honestUnlessHidden, (messageLoops w mb).honestUnlessHidden,
    (flushLoops w depth numThreads).honestUnlessHidden⟩

/-! ### A turn of the counter too late -/

/-- Time passes while a lock call is in its loop. -/
theorem inLoop_ticks {w numThreads n begun : Nat} {s : RwState w}
    (h : (rwlockLoops w numThreads).InLoop n begun s) (ticks : Nat) :
    (rwlockLoops w numThreads).InLoop n begun { s with clock := s.clock + ticks } := by
  obtain ⟨l, hl, -⟩ := h.spec
  induction ticks with
  | zero => exact h
  | succ ticks ih => exact .stay (a := .tick) ih rfl (Option.isSome_iff_exists.mpr ⟨l, hl⟩)

/-- Thread 0 has the lock for writing, and thread 1 is about to ask for it for reading. -/
def readerEnters : List (RwAct 16) :=
  [.lock 0 .write 0, .step 0 .ok, .step 0 .ok, .step 0 .ok, .lock 1 .read 65534]

/-- The state of the lock then, and when the reader has entered its loop. -/
def beforeReader : RwState 16 :=
  ((rwlockMachine 16 2).run (rwlockMachine 16 2).init readerEnters).getD (.create 16 2)

def readerWaits : RwState 16 := (beforeReader.next (.step 1 .ok)).getD beforeReader

/-- A turn of the counter later, and when the reader has looked at the clock. -/
def turnLater : RwState 16 := { readerWaits with clock := readerWaits.clock + 65536 }

def readerBlocks : RwState 16 := (turnLater.next (.step 1 .ok)).getD turnLater

theorem getD_of_isSome {α : Type} {o : Option α} (h : o.isSome = true) (d : α) :
    o = some (o.getD d) := by
  obtain ⟨a, rfl⟩ := Option.isSome_iff_exists.mp h
  rfl

/-- With ticks of 16 bits, a reader with a timeout of 65534 ticks that looks at the clock after
65536 ticks waits for 65534 more. -/
theorem emulatedWaits_begin_anew : ∃ (begun : Nat) (s s' : RwState 16) (a : RwAct 16)
    (l : TickLoop 16) (verdict : Option (Tick 16)),
    (rwlockLoops 16 2).InLoop 1 begun s ∧ (rwlockMachine 16 2).step s a = some s' ∧
      (rwlockLoops 16 2).loop s 1 = some l ∧
      (rwlockLoops 16 2).check s a s' = some (1, verdict) ∧
      ¬ Check.Honest ⟨l.timeout, (rwlockLoops 16 2).clock s - begun, verdict⟩ := by
  have hrun : (rwlockMachine 16 2).run (rwlockMachine 16 2).init readerEnters =
      some beforeReader := getD_of_isSome (by decide +kernel) _
  have henter : (rwlockMachine 16 2).step beforeReader (.step 1 .ok) = some readerWaits :=
    getD_of_isSome (o := beforeReader.next (.step 1 .ok)) (by decide +kernel) _
  have hblock : (rwlockMachine 16 2).step turnLater (.step 1 .ok) = some readerBlocks :=
    getD_of_isSome (o := turnLater.next (.step 1 .ok)) (by decide +kernel) _
  have hin : (rwlockLoops 16 2).InLoop 1 0 readerWaits :=
    .enter (Machine.Reachable.of_run hrun) henter (by decide +kernel) (by decide +kernel)
      (by decide +kernel)
  refine ⟨0, turnLater, readerBlocks, .step 1 .ok, ⟨65534, 0⟩, some 65534,
    inLoop_ticks hin 65536, hblock, by decide +kernel, by decide +kernel, fun hhonest => ?_⟩
  cases hhonest.expires (by decide +kernel)

end MicrOsal
