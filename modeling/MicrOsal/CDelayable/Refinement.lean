import MicrOsal.CDelayable.Callbacks
import MicrOsal.DelayableWork.History
import MicrOsal.Lib.Simulation

/-!
# MicrOsal.CDelayable.Refinement

What the handle shows `osal::delayable_work` shows too, when a tick is a millisecond and the tick
counter does not come round while an arming lasts.
-/

namespace MicrOsal.CDelayable

variable {w : Nat} {s s' d d' : DwSys}

/-! ### The promises -/

/-- The tick counter does not come round between an arming and the comparison of a callback. -/
def NoTickWrap (w : Nat) (d : DwSys) : DwAct → Prop
  | .expiry i _ => ReadsClock (d.expiries i) = true → InTurn w d
  | _ => True

/-- What the two rely on: the timer starts, and neither the generation nor the tick counter comes
round. -/
def Ordinary (w : Nat) (d : DwSys) (a : DwAct) : Prop := DwAssumptions d a ∧ NoTickWrap w d a

instance (w : Nat) (d : DwSys) : Decidable (InTurn w d) :=
  inferInstanceAs (Decidable ((decodeState d.word = some .armed ∨
    decodeState d.word = some .stopping) → ∀ a ∈ d.arming, d.clock < a.2 + 2 ^ w))

instance (w : Nat) (d : DwSys) : (a : DwAct) → Decidable (NoTickWrap w d a)
  | .expiry i _ => inferInstanceAs (Decidable (ReadsClock (d.expiries i) = true → InTurn w d))
  | .call _ _ | .caller _ _ | .fire | .dequeue _ | .worker _ | .tick _ | .cancelAll =>
    .isTrue trivial

instance (w : Nat) (d : DwSys) (a : DwAct) : Decidable (Ordinary w d a) :=
  inferInstanceAs (Decidable (_ ∧ _))

theorem Related.ordinary_plain (h : Related w s d) {a : DwAct} (ha : Plain a = true) :
    Ordinary w s a ↔ Ordinary w d a := by
  rw [h.rest]
  cases a with
  | expiry i result => cases ha
  | _ => exact Iff.rfl

/-- Callbacks that are at the same place rely on the same. -/
theorem Related.ordinary_sync (h : Related w s d) {i : Nat} {result : Option ErrorCode}
    (hsync : s.expiries i = cutStart w (d.expiries i)) :
    Ordinary w s (.expiry i result) ↔ Ordinary w d (.expiry i result) := by
  have hturn : InTurn w s ↔ InTurn w d := by
    rw [h.rest]
    exact Iff.rfl
  simp only [Ordinary, DwAssumptions, TimerStarts, NoGenerationWrap, NoTickWrap, hsync, h.armings,
    hturn]
  cases d.expiries i <;> exact Iff.rfl

/-! ### What is seen -/

deriving instance DecidableEq for DwOp, DwCall, DwEvent

/-- What there is to see of a delayable work: its state and generation, the dispatch error, and
what was submitted, run and returned. -/
structure View where
  word : BitVec 32
  dispatchError : ErrorCode
  dispatchFailed : Bool
  log : List DwEvent
  deriving DecidableEq

def viewOf (d : DwSys) : View := ⟨d.word, d.dispatchError, d.dispatchFailed, d.log⟩

/-- What is new to see after a step. -/
def seen (d : DwSys) (_ : DwAct) (d' : DwSys) : List View :=
  if viewOf d' = viewOf d then [] else [viewOf d']

theorem Related.seen (h : Related w s d) (h' : Related w s' d') (a : DwAct) :
    CDelayable.seen s a s' = CDelayable.seen d a d' := by
  have hview : ∀ {s d : DwSys}, Related w s d → viewOf s = viewOf d := by
    intro s d h
    rw [h.rest]
    rfl
  rw [CDelayable.seen, CDelayable.seen, hview h, hview h']

theorem seen_setExpiry (d : DwSys) (i : Nat) (pc : DwExpiry) (a : DwAct) :
    CDelayable.seen d a (d.setExpiry i pc) = [] := if_pos rfl

/-- What the handle does is done by the other, or comes to nothing. -/
theorem Related.step (hw : w < 64) (h : Related w s d) {a : DwAct} (hok : Ordinary w s a)
    (hs : CDelayable.step w s a = some s') :
    (CDelayable.seen s a s' = [] ∧ Related w s' d) ∨
      ∃ b d', Ordinary w d b ∧ workStep w d b = some d' ∧
        CDelayable.seen d b d' = CDelayable.seen s a s' ∧ Related w s' d' := by
  have htogether : Ordinary w d a → Option.Rel (Related w) (some s') (workStep w d a) →
      ∃ b d', Ordinary w d b ∧ workStep w d b = some d' ∧
        CDelayable.seen d b d' = CDelayable.seen s a s' ∧ Related w s' d' := by
    intro hok' hrel
    generalize hd : workStep w d a = d' at hrel
    cases hrel with
    | some hrel => exact ⟨a, _, hok', hd, (h.seen hrel a).symm, hrel⟩
  cases hplain : Plain a with
  | true =>
      have hok' := (h.ordinary_plain hplain).mp hok
      have hrel := h.step_plain hw hplain hok'.1.1
      rw [hs] at hrel
      exact .inr (htogether hok' hrel)
  | false =>
      cases a with
      | expiry i result =>
          simp only [CDelayable.step] at hs
          split at hs <;> [cases hs; skip]
          rename_i hresult
          have hpair := h.callbacks i
          generalize hpc : s.expiries i = pc, hpc' : d.expiries i = pc' at hpair
          cases hpair with
          | sync =>
              have hsync : s.expiries i = cutStart w (d.expiries i) := by rw [hpc, hpc']
              have hok' := (h.ordinary_sync hsync).mp hok
              have hrel := h.step_sync hw hresult hok'.2 hsync
              have hwork : workStep w d (.expiry i result) = d.stepExpiry i result :=
                if_neg hresult
              rw [hs, ← hwork] at hrel
              exact .inr (htogether hok' hrel)
          | ahead hraw hpast =>
              have hfresh := hok.1.2
              simp only [NoGenerationWrap, hpc, DwExpiry.Fresh, h.armings] at hfresh
              obtain ⟨hstep, hrel⟩ := h.step_ahead hpc hpc' hraw hpast hfresh
              cases hstep.symm.trans hs
              exact .inl ⟨seen_setExpiry s i _ _, hrel⟩
          | behind =>
              rw [stepExpiry, hpc] at hs
              cases hs
      | _ => cases hplain

/-! ### Whole runs -/

/-- The handle refines `osal::delayable_work`: with ticks of a millisecond and the same delays, what
is to be seen of it in a run that keeps the promises is to be seen of the other in such a run. -/
theorem cDelayable_refines (hw : w < 64) {clock : Nat} (hclock : clock < 2 ^ 63)
    {record : List View}
    (h : ((handleMachine w clock).logged seen).ReachableBy (fun p a => Ordinary w p.1 a)
      (s, record)) :
    ∃ d, ((workMachine w clock).logged seen).ReachableBy (fun p a => Ordinary w p.1 a)
      (d, record) := by
  obtain ⟨d, hd, -⟩ := Machine.logged_simulates (M := handleMachine w clock)
    (N := workMachine w clock) (R := Related w) (Related.init hclock)
    (fun s a s' d h hok hs => Related.step (a := a) hw h hok hs) h
  exact ⟨d, hd⟩

/-- The timer is armed anew between the two readings of a callback, which gets the high half of the
one timestamp and the low half of the other, and gives up. -/
def lateSchedule : List DwAct :=
  List.flatten [
    [.call (.schedule 5) 0], List.replicate 11 (.caller none 5),
    [.tick 5, .fire, .expiry 0 none, .expiry 0 none],
    [.call (.reschedule 7) 0], List.replicate 11 (.caller none 7),
    List.replicate 4 (.expiry 0 none), List.replicate 5 (.caller none 7),
    [.tick 7, .fire], List.replicate 8 (.expiry 1 none),
    [.dequeue 0], List.replicate 5 (.worker 0)]

/-- The stale callback of the other goes on to its exchange. -/
theorem cDelayable_refines_late :
    ∃ (d : DwSys) (record : List View), record.length = 10 ∧
      ((workMachine 16 (2 ^ 32 - 2)).logged seen).ReachableBy (fun p a => Ordinary 16 p.1 a)
        (d, record) := by
  have hok : ((handleMachine 16 (2 ^ 32 - 2)).logged seen).RunOk (fun p a => Ordinary 16 p.1 a)
      (DwSys.fresh (2 ^ 32 - 2), []) lateSchedule := by
    decide +kernel
  have hrun : (((handleMachine 16 (2 ^ 32 - 2)).logged seen).run (DwSys.fresh (2 ^ 32 - 2), [])
      lateSchedule).map (fun p => p.2.length) = some 10 := by
    decide +kernel
  obtain ⟨⟨s, record⟩, hs, hlength⟩ := Option.map_eq_some_iff.mp hrun
  have hclock : 2 ^ 32 - 2 < 2 ^ 63 := by decide
  obtain ⟨d, hd⟩ := cDelayable_refines (by decide) hclock (Machine.ReachableBy.init.of_run hok hs)
  exact ⟨d, record, hlength, hd⟩

end MicrOsal.CDelayable
