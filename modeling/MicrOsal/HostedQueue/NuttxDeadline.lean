import MicrOsal.HostedQueue.AbsTimespec
import MicrOsal.Clock.Conversions
import MicrOsal.Lib.TickWait

/-!
# MicrOsal.HostedQueue.NuttxDeadline

The way of a timeout through the NuttX backend: `clock_utils::ms_to_ticks` makes ticks of
`CONFIG_USEC_PER_TICK` microseconds of it, and `ms_to_abs_timespec` (`nuttx_backend.cpp`) takes the
ticks for milliseconds.

What comes out is as far away as the timeout wanted if a tick is a millisecond, and with other
ticks only where rounding or saturation hides the difference.
-/

namespace MicrOsal.HostedQueue

variable {w : Nat}

/-- `ms_to_abs_timespec`, and with the clock of the queues `ms_to_abs_timespec_cond`. -/
def msToAbsTimespec (p : Platform) (now : Timespec) (ticks : Tick w) : Option Timespec :=
  toAbsTimespecIn p now ticks

/-- The deadline of a native wait for `ms`, with ticks of `periodUs`. -/
def deadlineFor (p : Platform) (w periodUs : Nat) (now : Timespec) (ms : Int) : Option Timespec :=
  msToAbsTimespec p now (msToTicks w periodUs ms)

/-- The deadline is not before the end of the timeout, as far as the ticks can count it, and less
than a tick period after it. -/
def InTime (p : Platform) (w periodUs : Nat) (now : Timespec) (ms : Int) : Prop :=
  ∃ ts, deadlineFor p w periodUs now ms = some ts ∧
    min (ms * 1000000) ((msToTicks w periodUs ms).toNat * periodUs * 1000) ≤
      (ts.ns : Int) - now.ns ∧
    (ts.ns : Int) - now.ns < ms * 1000000 + periodUs * 1000

/-- The native wait of an emulated loop that has `remaining` ticks left ends with the loop's own
time. -/
def Agrees (p : Platform) (periodUs : Nat) (now : Timespec) (remaining : Tick w) : Prop :=
  ∃ ts, msToAbsTimespec p now remaining = some ts ∧
    ts.ns = now.ns + remaining.toNat * periodUs * 1000

/-- The nanoseconds that the clock of the platform can still show. -/
def leftNs (p : Platform) (now : Timespec) : Nat := lastNs p.maxSeconds - now.ns

/-- The timeouts whose deadline is in time. The largest timeout in ticks is `2 ^ w - 2`.

Not too early: a tick is at most a millisecond, or there are as many ticks as milliseconds; and the
platform can show the deadline. Not too late: a tick is at least a millisecond, or the ticks have
saturated, or the last time there is comes first. -/
def UnitKept (p : Platform) (w periodUs : Nat) (now : Timespec) (ms : Int) : Prop :=
  if ms ≤ 0 then -ms * 1000 < periodUs
  else
    (periodUs ≤ 1000 ∨
      (ms.toNat - 1) * periodUs < ms.toNat * 1000 ∧ ms.toNat ≤ 2 ^ w - 2) ∧
    min (ms.toNat * 1000000) ((2 ^ w - 2) * periodUs * 1000) ≤ leftNs p now ∧
    (1000 ≤ periodUs ∨ 2 ^ w - 2 ≤ ms.toNat ∨
      leftNs p now < ms.toNat * 1000000 + periodUs * 1000)

/-! ### The deadline of some ticks -/

section

variable {p : Platform} {now : Timespec} {periodUs : Nat}

theorem Timespec.Ok.ns_le_lastNs (hnow : now.Ok p) : now.ns ≤ lastNs p.maxSeconds := by
  have hsec := hnow.sec
  have hnsec := hnow.nsec
  simp only [Timespec.ns, lastNs]
  omega

/-- The ticks are waited for as milliseconds, or as long as the platform can show. -/
theorem msToAbsTimespec_eq (hp : p.Ok) (hw : w ≤ 64) (hnow : now.Ok p) {ticks : Tick w}
    (hfinite : ticks ≠ waitForever) :
    ∃ ts, msToAbsTimespec p now ticks = some ts ∧
      ts.ns = now.ns + min (ticks.toNat * 1000000) (leftNs p now) := by
  have hlast := hnow.ns_le_lastNs
  refine ⟨_, (toAbsTimespecIn_eq hp hw hnow ticks).trans (congrArg some
    (toAbsTimespec_eq_ofNs hnow ticks)), ?_⟩
  rw [timeoutMs_of_ne hfinite, show ∀ n, (Timespec.ofNs n).ns = n from
    fun n => Nat.div_add_mod' n 1000000000]
  unfold leftNs
  omega

/-- A conversion never waits forever. -/
theorem msToTicks_ne_waitForever (hw : 16 ≤ w) (hperiod : 0 < periodUs) (ms : Int) :
    msToTicks w periodUs ms ≠ waitForever := by
  have hpow : 2 ^ 16 ≤ 2 ^ w := Nat.pow_le_pow_right (by decide) hw
  have hforever : (waitForever : Tick w).toNat = 2 ^ w - 1 := by
    unfold waitForever
    rw [BitVec.toNat_allOnes]
  intro heq
  have hticks := congrArg BitVec.toNat heq
  rw [hforever] at hticks
  by_cases hpos : 0 < ms
  · rw [toNat_msToTicks_eq hw hperiod hpos] at hticks
    omega
  · have hzero : (noWait : Tick w).toNat = 0 := BitVec.toNat_zero
    unfold msToTicks at hticks
    rw [if_pos (by omega), hzero] at hticks
    omega

end

/-! ### The ticks of a timeout, read as milliseconds -/

section Ticks

variable {periodUs : Nat} (d kMax : Nat)

/-- The ticks cover what is promised, or are the largest number of them. -/
theorem min_ticks (hperiod : 0 < periodUs) :
    min (d * 1000000) (min (ticksFor periodUs d) kMax * periodUs * 1000) =
      min (d * 1000000) (kMax * periodUs * 1000) := by
  by_cases hfits : ticksFor periodUs d ≤ kMax
  · have hcovers := (le_ticksFor_iff hperiod d _).mp (Nat.le_refl (ticksFor periodUs d))
    have hmax := (le_ticksFor_iff hperiod d _).mp hfits
    rw [Nat.min_eq_left hfits]
    generalize ticksFor periodUs d * periodUs = covered at *
    generalize kMax * periodUs = longest at *
    omega
  · rw [Nat.min_eq_right (Nat.le_of_not_le hfits)]

/-- Not too early. -/
theorem covers_ticks_iff (hperiod : 0 < periodUs) (hd : 0 < d)
    (hmax : 0 < kMax) :
    min (d * 1000000) (kMax * periodUs * 1000) ≤ min (ticksFor periodUs d) kMax * 1000000 ↔
      periodUs ≤ 1000 ∨ (d - 1) * periodUs < d * 1000 ∧ d ≤ kMax := by
  have hticks : 0 < min (ticksFor periodUs d) kMax :=
    lt_min (ticksFor_pos hperiod hd) hmax
  have hle : d ≤ ticksFor periodUs d ↔ (d - 1) * periodUs < d * 1000 := by
    have := le_ticksFor_iff hperiod d (d - 1)
    omega
  rw [← min_ticks d kMax hperiod, ← hle]
  have hmin : d ≤ min (ticksFor periodUs d) kMax ↔ d ≤ ticksFor periodUs d ∧ d ≤ kMax := le_min_iff
  rw [← hmin]
  generalize min (ticksFor periodUs d) kMax = ticks at *
  rcases Nat.lt_or_ge 1000 periodUs with hlong | hshort
  · have hmul : ticks * 1001 ≤ ticks * periodUs := Nat.mul_le_mul_left ticks hlong
    omega
  · have hmul : ticks * periodUs ≤ ticks * 1000 := Nat.mul_le_mul_left ticks hshort
    omega

/-- Not too late. -/
theorem ticks_lt_iff (hperiod : 0 < periodUs) (hd : 0 < d) :
    min (ticksFor periodUs d) kMax * 1000000 < d * 1000000 + periodUs * 1000 ↔
      1000 ≤ periodUs ∨ kMax ≤ d := by
  have hlt := ticksFor_mul_lt hperiod d
  rcases Nat.lt_or_ge periodUs 1000 with hshort | hlong
  · -- More ticks than milliseconds, unless they saturate.
    have hmore : d < ticksFor periodUs d := by
      have hle := le_ticksFor_iff hperiod d d
      have hmul : d * (periodUs + 1) ≤ d * 1000 := Nat.mul_le_mul_left d hshort
      rw [Nat.mul_add_one] at hmul
      omega
    omega
  · have hmul : ticksFor periodUs d * 1000 ≤ ticksFor periodUs d * periodUs :=
      Nat.mul_le_mul_left _ hlong
    have hmin : min (ticksFor periodUs d) kMax ≤ ticksFor periodUs d := Nat.min_le_left _ _
    omega

end Ticks

/-! ### Timeouts that keep their unit -/

section

variable {p : Platform} {now : Timespec} {periodUs : Nat}

theorem inTime_iff (hp : p.Ok) (hw : 16 ≤ w) (hw64 : w ≤ 64) (hnow : now.Ok p)
    (hperiod : 0 < periodUs) (ms : Int) :
    InTime p w periodUs now ms ↔ UnitKept p w periodUs now ms := by
  have hpow : 2 ^ 16 ≤ 2 ^ w := Nat.pow_le_pow_right (by decide) hw
  obtain ⟨ts, hts, hns⟩ :=
    msToAbsTimespec_eq hp hw64 hnow (msToTicks_ne_waitForever hw hperiod ms)
  have hin : InTime p w periodUs now ms ↔
      min (ms * 1000000) ((msToTicks w periodUs ms).toNat * periodUs * 1000) ≤
          (ts.ns : Int) - now.ns ∧
        (ts.ns : Int) - now.ns < ms * 1000000 + periodUs * 1000 := by
    unfold InTime deadlineFor
    rw [hts]
    exact ⟨fun ⟨_, hsome, h⟩ => Option.some.inj hsome ▸ h, fun h => ⟨ts, rfl, h⟩⟩
  rw [hin]
  unfold UnitKept
  by_cases hpos : 0 < ms
  · obtain ⟨d, rfl⟩ := Int.eq_ofNat_of_zero_le hpos.le
    rw [if_neg (by omega), Int.toNat_natCast]
    rw [toNat_msToTicks_eq hw hperiod hpos, Int.toNat_natCast] at hns ⊢
    have hd : 0 < d := by omega
    have hmin := min_ticks d (2 ^ w - 2) hperiod
    have hcovers := covers_ticks_iff d (2 ^ w - 2) hperiod hd (by omega)
    have hlate := ticks_lt_iff d (2 ^ w - 2) hperiod hd
    rw [← hcovers, ← or_assoc, ← hlate, ← hmin]
    generalize leftNs p now = left at *
    generalize min (ticksFor periodUs d) (2 ^ w - 2) = ticks at *
    have hgap : (ts.ns : Int) - now.ns = (min (ticks * 1000000) left : Nat) := by
      rw [hns, Nat.cast_add]
      exact add_sub_cancel_left _ _
    rw [hgap]
    norm_cast
    rw [le_min_iff, min_lt_iff, and_assoc]
  · have hzero : (msToTicks w periodUs ms).toNat = 0 := by
      unfold msToTicks
      rw [if_pos (by omega)]
      exact BitVec.toNat_zero
    rw [hzero] at hns ⊢
    rw [if_pos (by omega)]
    omega

/-- What is left of a finite timeout is a time to wait for. -/
theorem tickVerdict_remaining {timeout start reading remaining : Tick w}
    (hfinite : timeout ≠ waitForever)
    (hleft : tickVerdict timeout start reading = some remaining) :
    remaining ≠ waitForever ∧ 0 < remaining.toNat := by
  unfold tickVerdict at hleft
  dsimp only at hleft
  split at hleft
  · cases hleft
  · rename_i hbefore
    have hlt := BitVec.not_le.mp hbefore
    obtain rfl := Option.some.inj hleft
    have hsub := BitVec.toNat_sub_of_le (BitVec.le_of_lt hlt)
    have hlt' := BitVec.lt_def.mp hlt
    refine ⟨fun hforever => hfinite ?_, by omega⟩
    have hmax := congrArg BitVec.toNat hforever
    rw [hsub, waitForever, BitVec.toNat_allOnes] at hmax
    apply BitVec.eq_of_toNat_eq
    have := timeout.isLt
    rw [waitForever, BitVec.toNat_allOnes]
    omega

theorem agrees_iff (hp : p.Ok) (hw : w ≤ 64) (hnow : now.Ok p) (hperiod : 0 < periodUs)
    {remaining : Tick w} (hfinite : remaining ≠ waitForever) (hpos : 0 < remaining.toNat) :
    Agrees p periodUs now remaining ↔
      periodUs = 1000 ∧ remaining.toNat * 1000000 ≤ leftNs p now ∨
      periodUs < 1000 ∧ leftNs p now = remaining.toNat * periodUs * 1000 := by
  obtain ⟨ts, hts, hns⟩ := msToAbsTimespec_eq hp hw hnow hfinite
  have hagrees : Agrees p periodUs now remaining ↔
      min (remaining.toNat * 1000000) (leftNs p now) = remaining.toNat * periodUs * 1000 := by
    unfold Agrees
    rw [hts]
    constructor
    · rintro ⟨_, hsome, h⟩
      obtain rfl := Option.some.inj hsome
      omega
    · exact fun h => ⟨ts, rfl, by omega⟩
  rw [hagrees]
  clear hagrees hns hts
  generalize remaining.toNat = ticks at *
  rcases lt_trichotomy periodUs 1000 with hshort | rfl | hlong
  · have hmul : ticks * (periodUs + 1) ≤ ticks * 1000 := Nat.mul_le_mul_left ticks hshort
    rw [Nat.mul_add_one] at hmul
    omega
  · omega
  · have hmul : ticks * 1001 ≤ ticks * periodUs := Nat.mul_le_mul_left ticks hlong
    omega

/-- Exactly the timeouts of `UnitKept` get a deadline that is in time. A loop that counts its
timeout in ticks agrees with its native wait if a tick is a millisecond and the platform can show
the deadline, and otherwise only where the last time there is happens to be the right one. -/
theorem nuttxDeadlines_in_time (hp : p.Ok) (hw : 16 ≤ w) (hw64 : w ≤ 64) (hnow : now.Ok p)
    (hperiod : 1 ≤ periodUs) :
    (∀ ms : Int, InTime p w periodUs now ms ↔ UnitKept p w periodUs now ms) ∧
    (∀ timeout start reading remaining : Tick w, timeout ≠ waitForever →
      tickVerdict timeout start reading = some remaining →
      (Agrees p periodUs now remaining ↔
        periodUs = 1000 ∧ remaining.toNat * 1000000 ≤ leftNs p now ∨
        periodUs < 1000 ∧ leftNs p now = remaining.toNat * periodUs * 1000)) := by
  refine ⟨inTime_iff hp hw hw64 hnow hperiod, ?_⟩
  intro timeout start reading remaining hfinite hleft
  obtain ⟨hremaining, hpos⟩ := tickVerdict_remaining hfinite hleft
  exact agrees_iff hp hw64 hnow hperiod hremaining hpos

end

/-- A second, and a loop of a second after a quarter of it, in ticks of a millisecond. -/
theorem nuttxDeadlines_in_time_millis :
    InTime ⟨32, 64⟩ 32 1000 ⟨100, 500000000⟩ 1000 ∧
    Agrees ⟨32, 64⟩ 1000 ⟨100, 500000000⟩ (750 : Tick 32) :=
  have hp : Platform.Ok ⟨32, 64⟩ := ⟨by decide, by decide, by decide⟩
  have hnow : Timespec.Ok ⟨32, 64⟩ ⟨100, 500000000⟩ := ⟨by decide, by decide⟩
  have h := @nuttxDeadlines_in_time 32 ⟨32, 64⟩ ⟨100, 500000000⟩ 1000 hp (by decide) (by decide)
    hnow (by decide)
  ⟨(h.1 1000).2 (by unfold UnitKept; decide),
    (h.2 1000 7000 7250 750 (by decide) (by decide)).2 (.inl (by decide))⟩

/-- With ticks of ten milliseconds a tenth of a second is over after ten milliseconds, and the
native wait of a loop with ten ticks left ends nine ticks before the loop. -/
theorem nuttxDeadlines_early :
    Platform.Ok ⟨32, 64⟩ ∧ Timespec.Ok ⟨32, 64⟩ ⟨100, 500000000⟩ ∧
    msToTicks 32 10000 100 = 10 ∧
    deadlineFor ⟨32, 64⟩ 32 10000 ⟨100, 500000000⟩ 100 = some ⟨100, 510000000⟩ ∧
    ¬ InTime ⟨32, 64⟩ 32 10000 ⟨100, 500000000⟩ 100 ∧
    tickVerdict (10 : Tick 32) 7000 7000 = some 10 ∧
    ¬ Agrees ⟨32, 64⟩ 10000 ⟨100, 500000000⟩ (10 : Tick 32) := by
  have hdeadline : deadlineFor ⟨32, 64⟩ 32 10000 ⟨100, 500000000⟩ 100 = some ⟨100, 510000000⟩ := by
    decide +kernel
  have hnative : msToAbsTimespec ⟨32, 64⟩ ⟨100, 500000000⟩ (10 : Tick 32) =
      some ⟨100, 510000000⟩ := by
    decide +kernel
  refine ⟨⟨by decide, by decide, by decide⟩, ⟨by decide, by decide⟩, by decide, hdeadline, ?_,
    by decide, ?_⟩
  · rintro ⟨ts, hts, hearly, -⟩
    obtain rfl := Option.some.inj (hdeadline.symm.trans hts)
    revert hearly
    decide +kernel
  · rintro ⟨ts, hts, hns⟩
    obtain rfl := Option.some.inj (hnative.symm.trans hts)
    revert hns
    decide +kernel

end MicrOsal.HostedQueue
