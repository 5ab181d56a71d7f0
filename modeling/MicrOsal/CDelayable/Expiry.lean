import MicrOsal.DelayableWork.Tokens

/-!
# MicrOsal.CDelayable.Expiry

The delayable work of the C interface (`common/osal_c.cpp`): `delayable_arm_locked`, and the
callback `c_delayable_work_timer_cb` of its timer.

The states and the generation are those of `delayable_work`. The time guard is not: it compares
ticks, and takes the difference of two readings of the tick counter as a `tick_t`.
-/

namespace MicrOsal.CDelayable

/-- `osal_delayable_work_handle`, but for the primitives it is built from. -/
structure Handle where
  valid : Bool
  state : BitVec 32
  startLow : BitVec 32
  startHigh : BitVec 32
  delayLow : BitVec 32
  delayHigh : BitVec 32
  dispatchError : ErrorCode
  dispatchFailed : Bool
  deriving DecidableEq

namespace Handle

variable {w : Nat}

/-- `delayable_state_is`. -/
def stateIs (h : Handle) (state : DwState) : Bool := h.valid && decodeState h.state = some state

/-- `delayable_state_store`. -/
def stateStore (h : Handle) (state : DwState) : Handle :=
  { h with state := withState h.state state }

/-- `delayable_set_dispatch_error`. -/
def setDispatchError (h : Handle) (rc : ErrorCode) : Handle :=
  { h with dispatchError := rc, dispatchFailed := true }

/-- `delayable_consume_dispatch_error`. -/
def consumeDispatchError (h : Handle) : ErrorCode × Handle :=
  if h.dispatchFailed then
    (h.dispatchError, { h with dispatchFailed := false, dispatchError := .ok })
  else (.ok, h)

/-- `delayable_arm_locked`, when the clock shows `ticks`; `setRc` and `startRc` are what
`osal_c_timer_set_period` and `osal_c_timer_start` return. -/
def armLocked (h : Handle) (ticks delayTicks : Tick w) (setRc startRc : ErrorCode) :
    ErrorCode × Handle :=
  let started : BitVec 64 := ticks.setWidth 64
  if setRc ≠ .ok then (setRc, h)
  else
    let delay : BitVec 64 := delayTicks.setWidth 64
    let h := { h with
      startLow := lowHalf started
      startHigh := highHalf started
      delayLow := lowHalf delay
      delayHigh := highHalf delay
      state := armWord h.state }
    if startRc ≠ .ok then (startRc, h.stateStore .idle) else (startRc, h)

/-- The time guard of the callback: the one-shot is early. -/
def early (h : Handle) (ticks : Tick w) : Bool :=
  let started := loadTime h.startLow h.startHigh
  let delay := loadTime h.delayLow h.delayHigh
  let elapsed : Tick w := ticks - started.setWidth w
  elapsed.setWidth 64 < delay

/-- `c_delayable_work_timer_cb` with nobody else at the handle, when the clock shows `ticks`;
`submitRc` is what the submission returns. The value says whether it was made. -/
def timerCb (h : Handle) (ticks : Tick w) (submitRc : ErrorCode) : Bool × Handle :=
  if ! h.valid then (false, h)
  else if decodeState h.state ≠ some .armed then (false, h)
  else if h.early ticks then (false, h)
  else
    let h := { h with state := withState h.state .queued }
    if submitRc = .ok then (true, h)
    else (true, (h.setDispatchError submitRc).stateStore .idle)

end Handle

variable {w : Nat} {h : Handle}

/-- The handle when it was armed at tick `start`. -/
def armedAt (h : Handle) (start : Nat) (delay : Tick w) : Handle :=
  (h.armLocked (clockTicks w start) delay .ok .ok).2

theorem armedAt_state (start : Nat) (delay : Tick w) :
    decodeState (armedAt h start delay).state = some .armed := decodeState_armWord _

theorem armedAt_valid (start : Nat) (delay : Tick w) : (armedAt h start delay).valid = h.valid :=
  rfl

/-- What the guard computes is the elapsed time, without its full turns of the counter. -/
theorem early_iff (hw : w ≤ 64) (start elapsed : Nat) (delay : Tick w) :
    (armedAt h start delay).early (clockTicks w (start + elapsed)) = true ↔
      elapsed % 2 ^ w < delay.toNat := by
  have hstart : loadTime (armedAt h start delay).startLow (armedAt h start delay).startHigh =
      (clockTicks w start).setWidth 64 := joinHalves_halves (h := 32) _
  have hdelay : loadTime (armedAt h start delay).delayLow (armedAt h start delay).delayHigh =
      delay.setWidth 64 := joinHalves_halves (h := 32) _
  have hcast : ((clockTicks w start).setWidth 64).setWidth w = clockTicks w start :=
    (BitVec.setWidth_setWidth_of_le _ hw).trans (BitVec.setWidth_eq _)
  have hpow : 2 ^ w ≤ 2 ^ 64 := Nat.pow_le_pow_right (by decide) hw
  have hdiff : (clockTicks w (start + elapsed) - clockTicks w start : Tick w) =
      BitVec.ofNat w elapsed := by
    rw [clockTicks, clockTicks, elapsed_eq w (Nat.le_add_right _ _), Nat.add_sub_cancel_left]
  have hmod : elapsed % 2 ^ w < 2 ^ w := Nat.mod_lt _ (Nat.two_pow_pos w)
  have hlt := delay.isLt
  simp only [Handle.early, hstart, hdelay, hcast, hdiff, decide_eq_true_eq, BitVec.lt_def,
    BitVec.toNat_setWidth, BitVec.toNat_ofNat]
  rw [Nat.mod_eq_of_lt (by omega : elapsed % 2 ^ w < 2 ^ 64),
    Nat.mod_eq_of_lt (by omega : delay.toNat < 2 ^ 64)]

/-- An expiry is taken when it is due, and only then: `elapsed` ticks after the handle was armed
the callback makes its submission, and leaves the handle queued, if the delay has passed. -/
def TakenWhenDue (h : Handle) (start : Nat) (delay : Tick w) (elapsed : Nat) : Prop :=
  let r := (armedAt h start delay).timerCb (clockTicks w (start + elapsed)) .ok
  (r.1 = true ∧ r.2.stateIs .queued = true) ↔ delay.toNat ≤ elapsed

/-- What the callback does, whatever the submission returns. -/
theorem timerCb_submits_iff (hw : w ≤ 64) (hvalid : h.valid = true) (start elapsed : Nat)
    (delay : Tick w) (submitRc : ErrorCode) :
    ((armedAt h start delay).timerCb (clockTicks w (start + elapsed)) submitRc).1 = true ↔
      delay.toNat ≤ elapsed % 2 ^ w := by
  have hearly := early_iff (h := h) hw start elapsed delay
  unfold Handle.timerCb
  rw [if_neg (by rw [armedAt_valid, hvalid]; decide), if_neg (not_not.mpr (armedAt_state ..))]
  split
  case isTrue hlt =>
    have := hearly.mp hlt
    exact ⟨fun hfalse => (nomatch hfalse), fun hle => by omega⟩
  case isFalse hge =>
    have hle : delay.toNat ≤ elapsed % 2 ^ w := not_lt.mp (mt hearly.mpr hge)
    refine ⟨fun _ => hle, fun _ => ?_⟩
    dsimp only
    split <;> rfl

theorem timerCb_queued (hvalid : h.valid = true) (start elapsed : Nat) (delay : Tick w)
    (hsubmits : ((armedAt h start delay).timerCb (clockTicks w (start + elapsed)) .ok).1 = true) :
    ((armedAt h start delay).timerCb (clockTicks w (start + elapsed)) .ok).2.stateIs .queued =
      true := by
  unfold Handle.timerCb at hsubmits ⊢
  rw [if_neg (by rw [armedAt_valid, hvalid]; decide), if_neg (not_not.mpr (armedAt_state ..))]
    at hsubmits ⊢
  split at hsubmits
  case isTrue => cases hsubmits
  case isFalse hdue =>
    rw [if_neg hdue]
    simp only [if_true, Handle.stateIs, decodeState_withState, decide_true, Bool.and_true]
    exact hvalid

/-- The callback tells early from due exactly before the delay is over and as long as the elapsed
time, without the full turns of the counter, is still the delay or more. -/
theorem cDelayable_taken_when_due (hw : w ≤ 64) (hvalid : h.valid = true) (start : Nat)
    (delay : Tick w) (elapsed : Nat) :
    TakenWhenDue h start delay elapsed ↔
      elapsed < delay.toNat ∨ delay.toNat ≤ elapsed % 2 ^ w := by
  have hsubmits := timerCb_submits_iff hw hvalid start elapsed delay .ok
  have hboth : TakenWhenDue h start delay elapsed ↔
      (delay.toNat ≤ elapsed % 2 ^ w ↔ delay.toNat ≤ elapsed) := by
    unfold TakenWhenDue
    dsimp only
    rw [← hsubmits, and_iff_left_of_imp (timerCb_queued hvalid start elapsed delay)]
  have hle : elapsed % 2 ^ w ≤ elapsed := Nat.mod_le _ _
  rw [hboth]
  omega

/-- A handle as `osal_c_delayable_work_create` leaves it. -/
def fresh : Handle := ⟨true, 0, 0, 0, 0, 0, .ok, false⟩

/-- A delay of 1000 ticks of 16 bits, and a callback that is two ticks late, after a wrap of the
counter. -/
theorem cDelayable_taken_when_due_late :
    TakenWhenDue fresh 65000 (1000 : Tick 16) 1002 :=
  (cDelayable_taken_when_due (by decide) rfl 65000 1000 1002).mpr (.inr (by decide))

/-- A callback that is a turn of the counter late finds that no tick has passed, and the handle
stays armed. -/
theorem cDelayable_dropped :
    (armedAt fresh 0 (1000 : Tick 16)).timerCb (clockTicks 16 65536) .ok =
        (false, armedAt fresh 0 (1000 : Tick 16)) ∧
      ¬ TakenWhenDue fresh 0 (1000 : Tick 16) 65536 := by
  have hdropped : (armedAt fresh 0 (1000 : Tick 16)).timerCb (clockTicks 16 65536) .ok =
      (false, armedAt fresh 0 (1000 : Tick 16)) := by decide +kernel
  refine ⟨hdropped, fun hright => ?_⟩
  have htaken := hright.mpr (by decide)
  rw [Nat.zero_add, hdropped] at htaken
  cases htaken.1

end MicrOsal.CDelayable
