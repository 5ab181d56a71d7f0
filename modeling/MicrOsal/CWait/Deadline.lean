import MicrOsal.Clock.Ticks

/-!
# MicrOsal.CWait.Deadline

How the waits of the C interface keep time (`common/osal_c.cpp`): a timeout in ticks becomes
milliseconds, these a deadline of the monotonic clock, and what is left of it ticks again, in
every turn of the loop.

Time is counted in microseconds; the monotonic clock shows its full milliseconds.
-/

namespace MicrOsal.CWait

/-- `osal_clock_monotonic_ms`. -/
def clockMs (time : Nat) : Nat := time / 1000

variable {w : Nat}

/-- `ticks_to_duration`; `none` for the negative duration of `OSAL_WAIT_FOREVER`. -/
def ticksToDuration (periodUs : Nat) (ticks : Tick w) : Option Nat :=
  if ticks = waitForever then none else some (ticksToMs periodUs ticks)

/-- `remaining_ticks_until`, when the clock shows `now`. -/
def remainingTicksUntil (w periodUs deadline now : Nat) : Tick w :=
  if deadline ≤ now then noWait else msToTicks w periodUs ((deadline - now : Nat) : Int)

/-- The deadline of a wait with the timeout `timeout` that computes it at `time`. -/
def deadlineOf (periodUs : Nat) (timeout : Tick w) (time : Nat) : Nat :=
  clockMs time + ticksToMs periodUs timeout

/-- A wait that began at `begun` and ended at `ended` took `timeout` ticks or more, as the
monotonic clock shows it. -/
def LastsFor (periodUs : Nat) (timeout : Tick w) (begun ended : Nat) : Prop :=
  timeout.toNat * periodUs ≤ (clockMs ended - clockMs begun) * 1000

/-- No part of the timeout is lost in its conversion to milliseconds: it is a number of full
milliseconds, and its microseconds fit in 64 bits. -/
def FullMs (periodUs : Nat) (timeout : Tick w) : Prop :=
  1000 ∣ timeout.toNat * periodUs ∧ timeout.toNat * periodUs < 2 ^ 64

variable {periodUs deadline now : Nat} {timeout : Tick w}

theorem clockMs_mono {t t' : Nat} (h : t ≤ t') : clockMs t ≤ clockMs t' := Nat.div_le_div_right h

/-- The milliseconds of the timeout never exceed it. -/
theorem ticksToMs_le (periodUs : Nat) (timeout : Tick w) :
    ticksToMs periodUs timeout * 1000 ≤ timeout.toNat * periodUs := by
  have hmod := Nat.mod_le (timeout.toNat * periodUs) (2 ^ 64)
  have hdiv := Nat.div_mul_le_self (timeout.toNat * periodUs % 2 ^ 64) 1000
  exact hdiv.trans hmod

theorem ticksToMs_eq_iff :
    timeout.toNat * periodUs ≤ ticksToMs periodUs timeout * 1000 ↔ FullMs periodUs timeout := by
  unfold FullMs ticksToMs
  constructor
  · intro hle
    have hmod := Nat.mod_le (timeout.toNat * periodUs) (2 ^ 64)
    have hlt := Nat.mod_lt (timeout.toNat * periodUs) (Nat.two_pow_pos 64)
    have hdiv := Nat.div_mul_le_self (timeout.toNat * periodUs % 2 ^ 64) 1000
    have heq : timeout.toNat * periodUs = timeout.toNat * periodUs % 2 ^ 64 / 1000 * 1000 := by
      omega
    exact ⟨⟨_, by rw [Nat.mul_comm 1000]; exact heq⟩, by omega⟩
  · rintro ⟨hdvd, hlt⟩
    rw [Nat.mod_eq_of_lt hlt, Nat.div_mul_cancel hdvd]

/-- With every tick of the timeout a full number of milliseconds, the deadline is not early. -/
theorem lastsFor_of_deadline {begun ended : Nat} (hfull : FullMs periodUs timeout)
    (hdeadline : clockMs begun + ticksToMs periodUs timeout ≤ clockMs ended) :
    LastsFor periodUs timeout begun ended := by
  refine (ticksToMs_eq_iff.mpr hfull).trans (Nat.mul_le_mul_right 1000 ?_)
  omega

/-- There is something left before the deadline, and nothing after it. -/
theorem remainingTicksUntil_eq_noWait_iff (hw : 16 ≤ w) (hperiod : 0 < periodUs) :
    remainingTicksUntil w periodUs deadline now = noWait ↔ deadline ≤ now := by
  unfold remainingTicksUntil
  split
  case isTrue hle => exact ⟨fun _ => hle, fun _ => rfl⟩
  case isFalse hgt =>
    have hleft : (0 : Int) < ((deadline - now : Nat) : Int) := by omega
    have hticks := toNat_msToTicks_eq hw hperiod hleft
    have hpow : 2 ^ 16 ≤ 2 ^ w := Nat.pow_le_pow_right (by decide) hw
    have hpos : 0 < ticksFor periodUs (deadline - now) := by
      by_contra hzero
      have := (le_ticksFor_iff hperiod (deadline - now) 0).mp (by omega)
      omega
    refine ⟨fun hzero => ?_, fun hle => absurd hle hgt⟩
    rw [hzero, Int.toNat_natCast] at hticks
    have hnone : (noWait : Tick w).toNat = 0 := BitVec.toNat_zero
    omega

/-- A native wait that takes all the ticks that are left does not end before the deadline, which
a timeout of ticks has set. -/
theorem deadline_le_of_remaining (hw : 16 ≤ w) (hperiod : 0 < periodUs) {since t : Nat}
    (htimeout : timeout ≠ waitForever)
    (hset : deadline ≤ clockMs since + ticksToMs periodUs timeout)
    (htaken : since +
      (remainingTicksUntil w periodUs deadline (clockMs since)).toNat * periodUs ≤ t) :
    deadline ≤ clockMs t := by
  unfold remainingTicksUntil at htaken
  split at htaken
  case isTrue hle => exact hle.trans (clockMs_mono (by omega))
  case isFalse hgt =>
    have hpos : (0 : Int) < ((deadline - clockMs since : Nat) : Int) := by omega
    have hmax : timeout.toNat ≤ 2 ^ w - 2 := by
      have hlt := timeout.isLt
      have hne : timeout.toNat ≠ 2 ^ w - 1 := by
        intro heq
        exact htimeout (BitVec.eq_of_toNat_eq (heq.trans BitVec.toNat_allOnes.symm))
      omega
    have hcovers : (deadline - clockMs since) * 1000 ≤
        (msToTicks w periodUs ((deadline - clockMs since : Nat) : Int)).toNat * periodUs := by
      refine (covers_iff hw hperiod hpos).mpr ?_
      calc (deadline - clockMs since) * 1000 ≤ ticksToMs periodUs timeout * 1000 :=
            Nat.mul_le_mul_right 1000 (by omega)
        _ ≤ timeout.toNat * periodUs := ticksToMs_le ..
        _ ≤ (2 ^ w - 2) * periodUs := Nat.mul_le_mul_right periodUs hmax
    unfold clockMs at *
    omega

end MicrOsal.CWait
