import MicrOsal.CDelayable.Model
import MicrOsal.DelayableWork.CancelAll

/-!
# MicrOsal.CDelayable.Lockstep

The handle against `osal::delayable_work`, when a tick is a millisecond.

`handleOf` makes a handle of a `delayable_work` and some timer callbacks: the timestamp of the
handle is cut to the width of a tick, and all else is the same. But for the steps of timer
callbacks, the two stay in lockstep (`step_handleOf`).
-/

namespace MicrOsal.CDelayable

variable {w : Nat} {d d' : DwSys} {expiries : Nat → DwExpiry} {st : DwState} {o : Option DwAgent}

/-! ### Timestamps -/

/-- What is left of a timestamp when a tick has `w` bits. -/
def cut (w : Nat) (v : BitVec 64) : BitVec 64 := (v.setWidth w).setWidth 64

def cutLow (w : Nat) (low : BitVec 32) : BitVec 32 := (low.setWidth w).setWidth 32

def cutHigh (w : Nat) (high : BitVec 32) : BitVec 32 := (high.setWidth (w - 32)).setWidth 32

theorem lowHalf_cut (w : Nat) (v : BitVec 64) :
    lowHalf (h := 32) (cut w v) = cutLow w (lowHalf (h := 32) v) := by
  ext i hi
  have h64 : i < 64 := by omega
  simp only [cutLow, cut, lowHalf, BitVec.getElem_setWidth, BitVec.getLsbD_setWidth, hi, h64,
    decide_true, Bool.true_and, Nat.reduceAdd]

theorem highHalf_cut (w : Nat) (v : BitVec 64) :
    highHalf (h := 32) (cut w v) = cutHigh w (highHalf (h := 32) v) := by
  ext i hi
  have h64 : 32 + i < 64 := by omega
  have hw : 32 + i < w ↔ i < w - 32 := by omega
  simp only [cutHigh, cut, highHalf, BitVec.getElem_setWidth, BitVec.getLsbD_setWidth,
    BitVec.getLsbD_ushiftRight, hi, h64, decide_true, Bool.true_and, Nat.reduceAdd, hw]

theorem loadTime_cut (w : Nat) (low high : BitVec 32) :
    loadTime (cutLow w low) (cutHigh w high) = cut w (loadTime low high) := by
  apply BitVec.eq_of_getLsbD_eq
  intro i hi
  simp only [loadTime, joinHalves, cut, cutLow, cutHigh, BitVec.getLsbD_or,
    BitVec.getLsbD_shiftLeft, BitVec.getLsbD_setWidth, Nat.reduceAdd, hi, decide_true,
    Bool.true_and]
  by_cases hlow : i < 32
  · simp only [hlow, decide_true, Bool.not_true, Bool.false_and, Bool.false_or, Bool.true_and]
  · have hzero : low.getLsbD i = false := BitVec.getLsbD_of_ge low i (not_lt.mp hlow)
    have hhigh : i - 32 < 64 ∧ i - 32 < 32 := by omega
    have hw : i - 32 < w - 32 ↔ i < w := by omega
    simp only [hlow, hhigh.1, hhigh.2, hw, hzero, decide_true, decide_false, Bool.not_false,
      Bool.true_and, Bool.and_false, Bool.or_false]

theorem started_eq_cut (hw : w < 64) (now : Nat) : started w now = cut w (BitVec.ofNat 64 now) := by
  have hdvd : 2 ^ w ∣ 2 ^ 64 := Nat.pow_dvd_pow 2 hw.le
  apply BitVec.eq_of_toNat_eq
  simp only [started, cut, clockTicks, BitVec.toNat_setWidth, BitVec.toNat_ofNat]
  rw [Nat.mod_mod_of_dvd now hdvd]

/-! ### Delays -/

/-- The call that the lock holder is in. -/
def callOf : DwCaller → Option DwCall
  | .free => none
  | .load c | .casLoad c | .cas c _ | .stop c _ | .store c _ | .storeRaw c _ _ | .begin c
  | .armNow c | .armPeriod c _ | .armStartLow c _ | .armStartHigh c _ | .armDelayLow c _
  | .armDelayHigh c _ | .armLoad c _ | .armStore c _ _ | .armStart c | .submit c => some c

theorem exists_ticks {c : DwCall} (hc : IsTicks w c.op) : ∃ n : Nat, n < 2 ^ w ∧ c.delay = n := by
  obtain ⟨n, hn⟩ := Int.eq_ofNat_of_zero_le hc.1
  have hlt := hc.2
  rw [hn] at hlt
  exact ⟨n, by exact_mod_cast hlt, hn⟩

theorem setWidth_delayTicks {c : DwCall} (hc : IsTicks w c.op) :
    (delayTicks w c).setWidth 64 = BitVec.ofInt 64 c.delay := by
  obtain ⟨n, hlt, hn⟩ := exists_ticks hc
  rw [delayTicks, hn, BitVec.ofInt_natCast, BitVec.ofInt_natCast]
  apply BitVec.eq_of_toNat_eq
  rw [BitVec.toNat_setWidth, BitVec.toNat_ofNat, BitVec.toNat_ofNat, Nat.mod_eq_of_lt hlt]

theorem noWait_iff {c : DwCall} (hc : IsTicks w c.op) : delayTicks w c = noWait ↔ c.delay ≤ 0 := by
  obtain ⟨n, hlt, hn⟩ := exists_ticks hc
  rw [delayTicks, hn, BitVec.ofInt_natCast, noWait, ← BitVec.toNat_inj, BitVec.toNat_ofNat,
    Nat.mod_eq_of_lt hlt, BitVec.ofNat_eq_ofNat, BitVec.toNat_ofNat, Nat.zero_mod]
  omega

/-! ### Steps -/

/-- The handle that does as `d` does, with these timer callbacks. -/
def handleOf (w : Nat) (d : DwSys) (expiries : Nat → DwExpiry) : DwSys :=
  { d with
    startLow := cutLow w d.startLow
    startHigh := cutHigh w d.startHigh
    expiries := expiries }

theorem casFails_handleOf (d : DwSys) (c : DwCall) (expected : Option DwState) :
    casFails (handleOf w d expiries) c expected = handleOf w (d.casFails c expected) expiries := by
  obtain ⟨id, op, began⟩ := c
  cases op with
  | schedule | reschedule => rfl
  | cancel =>
      simp only [DwSys.casFails, casFails]
      split <;> rfl

theorem stepLoad_handleOf (d : DwSys) (c : DwCall) :
    stepLoad (handleOf w d expiries) c = handleOf w (d.stepLoad c) expiries := by
  have hword : (handleOf w d expiries).word = d.word := rfl
  obtain ⟨id, op, began⟩ := c
  cases op with
  | schedule =>
      simp only [DwSys.stepLoad, stepLoad, hword, ne_eq, ite_not]
      split <;> rfl
  | reschedule =>
      simp only [DwSys.stepLoad, stepLoad, hword]
      split
      · rfl
      · split <;> rfl
  | cancel =>
      simp only [DwSys.stepLoad, stepLoad, hword]
      split <;> rfl

theorem afterStore_handleOf (d : DwSys) (c : DwCall) (next : DwNext) :
    afterStore (handleOf w d expiries) c next = handleOf w (d.afterStore c next) expiries := by
  obtain ⟨id, op, began⟩ := c
  cases next with
  | stopped => cases op <;> rfl
  | restored | enqueue | failed => rfl

theorem stepCaller_handleOf (hw : w < 64) (hticks : ∀ c ∈ callOf d.holder, IsTicks w c.op)
    (result : Option ErrorCode) (period : Nat) :
    stepCaller w (handleOf w d expiries) result period =
      (d.stepCaller result period).map (fun d' => handleOf w d' expiries) := by
  unfold DwSys.stepCaller stepCaller
  have hholder : (handleOf w d expiries).holder = d.holder := rfl
  have hword : (handleOf w d expiries).word = d.word := rfl
  rw [hholder]
  cases hpc : d.holder with
  | free => rfl
  | load c => exact congrArg some (stepLoad_handleOf d c)
  | casLoad c =>
      simp only [hword, ne_eq, ite_not]
      split
      · rfl
      · exact congrArg some (casFails_handleOf d c _)
  | cas c raw =>
      simp only [hword]
      split
      · rfl
      · exact congrArg some (casFails_handleOf d c _)
  | stop c stopped => cases stopped <;> rfl
  | storeRaw c next raw =>
      exact congrArg some (afterStore_handleOf { d with word := withState raw next.value } c next)
  | begin c =>
      have hnow := noWait_iff (hticks c (by rw [hpc]; rfl))
      simp only
      by_cases hle : c.delay ≤ 0
      · rw [if_pos hle, if_pos (hnow.mpr hle)]
        rfl
      · rw [if_neg hle, if_neg (mt hnow.mp hle)]
        rfl
  | armStartLow c now =>
      have hlow := lowHalf_cut w (BitVec.ofNat 64 now)
      simp only [started_eq_cut hw]
      rw [hlow]
      rfl
  | armStartHigh c now =>
      have hhigh := highHalf_cut w (BitVec.ofNat 64 now)
      simp only [started_eq_cut hw]
      rw [hhigh]
      rfl
  | armDelayLow c now | armDelayHigh c now =>
      simp only [setWidth_delayTicks (hticks c (by rw [hpc]; rfl))]
      rfl
  | armPeriod c now | armStart c => cases result <;> rfl
  | submit c => cases result <;> rfl
  | store c next | armNow c | armLoad c now | armStore c now raw => rfl

theorem stepWorker_handleOf (d : DwSys) (j : Nat) :
    stepWorker (handleOf w d expiries) j =
      (d.stepWorker j).map (fun d' => handleOf w d' expiries) := by
  unfold DwSys.stepWorker stepWorker
  have hworkers : (handleOf w d expiries).workers = d.workers := rfl
  have hword : (handleOf w d expiries).word = d.word := rfl
  rw [hworkers]
  cases hpc : d.workers j with
  | idle | callback => rfl
  | entry id | doneLoad id =>
      simp only [hword, ne_eq, ite_not]
      split <;> rfl
  | cas id raw | doneCas id raw =>
      simp only [hword]
      split <;> rfl

/-- A step that is not taken by a timer callback. -/
def Plain : DwAct → Bool
  | .expiry _ _ => false
  | _ => true

/-- What a step that no timer callback takes does to timer callbacks: the timer starts one. -/
def callbacksAfter (d : DwSys) (expiries : Nat → DwExpiry) : DwAct → Nat → DwExpiry
  | .fire => Function.update expiries d.nextExpiry .entered
  | _ => expiries

theorem step_handleOf (hw : w < 64) (hticks : ∀ c ∈ callOf d.holder, IsTicks w c.op) {a : DwAct}
    (ha : Plain a = true) :
    step w (handleOf w d expiries) a =
      (workStep w d a).map (fun d' => handleOf w d' (callbacksAfter d expiries a)) := by
  cases a with
  | call op began =>
      have hholder : (handleOf w d expiries).holder = d.holder := rfl
      have hclock : (handleOf w d expiries).clock = d.clock := rfl
      simp only [step, workStep, DwSys.step, hholder, hclock]
      split
      · cases d.holder <;> simp only <;> try rfl
        split <;> rfl
      · rfl
  | caller result period =>
      simp only [step, workStep, DwSys.step]
      split
      · rfl
      · exact stepCaller_handleOf hw hticks result period
  | fire =>
      have htimer : (handleOf w d expiries).timer = d.timer := rfl
      have hclock : (handleOf w d expiries).clock = d.clock := rfl
      simp only [step, workStep, DwSys.step, htimer, hclock]
      cases d.timer.due with
      | none => rfl
      | some due =>
          simp only
          split <;> rfl
  | expiry i result => cases ha
  | dequeue j =>
      have hworkers : (handleOf w d expiries).workers = d.workers := rfl
      have hqueue : (handleOf w d expiries).queue = d.queue := rfl
      simp only [step, workStep, DwSys.step, hworkers, hqueue]
      cases d.workers j <;> cases d.queue <;> rfl
  | worker j => exact stepWorker_handleOf d j
  | tick n =>
      have hclock : (handleOf w d expiries).clock = d.clock := rfl
      simp only [step, workStep, DwSys.step, hclock]
      split <;> rfl
  | cancelAll => rfl

end MicrOsal.CDelayable
