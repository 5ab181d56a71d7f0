import MicrOsal.Clock.Monotonic
import MicrOsal.Lib.Checked

/-!
# MicrOsal.Clock.CDeadlines

The deadline helpers of the C interface (`include/osal/osal_c.h`): inline functions over
`int64_t`, that saturate at `INT64_MAX` before they overflow.

Each helper is the computation of the source with every operation checked. Two of them go over to
their special case a little too early: `osal_c_detail_us_to_ns_saturating` at a product that still
fits, `osal_c_detail_ns_to_us_ceil` at durations whose ceiling is one less (`deadlines_exact`).
-/

namespace MicrOsal.CDeadline

/-- `INT64_MAX`. -/
def int64Max : Int := 9223372036854775807

/-- The result of an operation on `int64_t`. -/
abbrev i64 (x : Int) : Option Int := inRange InInt64 x

/-! ### The helpers -/

/-- `osal_c_detail_saturating_add_i64`. -/
def saturatingAddI64 (base delta : Int) : Option Int :=
  if delta ≤ 0 then return base
  else do
    let limit ← i64 (int64Max - delta)
    if limit ≤ base then return int64Max else i64 (base + delta)

/-- `osal_c_detail_remaining_i64`. -/
def remainingI64 (expiry now : Int) : Option Int :=
  if expiry ≤ now then return 0 else i64 (expiry - now)

/-- `osal_c_detail_us_to_ns_saturating`. -/
def usToNsSaturating (timeoutUs : Int) : Option Int :=
  if timeoutUs ≤ 0 then return 0
  else if int64Max / 1000 ≤ timeoutUs then return int64Max
  else i64 (timeoutUs * 1000)

/-- `osal_c_detail_ns_to_us_ceil`. -/
def nsToUsCeil (durationNs : Int) : Option Int :=
  if durationNs ≤ 0 then return 0
  else do
    let limit ← i64 (int64Max - 999)
    if limit < durationNs then
      i64 (int64Max / 1000 + if int64Max % 1000 ≠ 0 then 1 else 0)
    else
      let rounded ← i64 (durationNs + 999)
      return rounded / 1000

/-! ### Deadlines

`now` is what the clock of the deadline shows when the function reads it. -/

/-- `osal_monotonic_deadline`. -/
structure MonotonicDeadline where
  expiryMs : Int
  deriving DecidableEq

/-- `osal_high_resolution_deadline`. -/
structure HighResolutionDeadline where
  expiryNs : Int
  deriving DecidableEq

/-- `osal_c_monotonic_deadline_after_ms`. -/
def monotonicDeadlineAfterMs (now timeoutMs : Int) : Option MonotonicDeadline :=
  if timeoutMs ≤ 0 then return ⟨now⟩
  else do return ⟨← saturatingAddI64 now timeoutMs⟩

/-- `osal_c_monotonic_deadline_expired`. -/
def MonotonicDeadline.expired (deadline : MonotonicDeadline) (now : Int) : Bool :=
  deadline.expiryMs ≤ now

/-- `osal_c_monotonic_deadline_remaining_ms`. -/
def MonotonicDeadline.remainingMs (deadline : MonotonicDeadline) (now : Int) : Option Int :=
  remainingI64 deadline.expiryMs now

/-- `osal_c_high_resolution_deadline_after_us`. -/
def highResolutionDeadlineAfterUs (now timeoutUs : Int) : Option HighResolutionDeadline :=
  if timeoutUs ≤ 0 then return ⟨now⟩
  else do
    let timeoutNs ← usToNsSaturating timeoutUs
    return ⟨← saturatingAddI64 now timeoutNs⟩

/-- `osal_c_high_resolution_deadline_expired`. -/
def HighResolutionDeadline.expired (deadline : HighResolutionDeadline) (now : Int) : Bool :=
  deadline.expiryNs ≤ now

/-- `osal_c_high_resolution_deadline_remaining_ns`. -/
def HighResolutionDeadline.remainingNs (deadline : HighResolutionDeadline) (now : Int) :
    Option Int :=
  remainingI64 deadline.expiryNs now

/-- `osal_c_high_resolution_deadline_remaining_us`. -/
def HighResolutionDeadline.remainingUs (deadline : HighResolutionDeadline) (now : Int) :
    Option Int := do
  nsToUsCeil (← deadline.remainingNs now)

/-! ### What the helpers compute -/

section Helpers

variable {base delta expiry now timeoutUs durationNs : Int}

/-- The sum, or the largest value. -/
theorem saturatingAddI64_eq (hbase : InInt64 base) (hpos : 0 ≤ base) (hdelta : InInt64 delta) :
    saturatingAddI64 base delta = some (min (base + max delta 0) int64Max) := by
  unfold InInt64 at hbase hdelta
  unfold saturatingAddI64
  by_cases hnonpos : delta ≤ 0
  · rw [if_pos hnonpos, max_eq_right hnonpos, add_zero,
      min_eq_left (show base ≤ int64Max from hbase.2)]
    rfl
  · rw [if_neg hnonpos, max_eq_left (by omega)]
    rw [inRange_bind (by unfold InInt64 int64Max; omega)]
    by_cases hsat : int64Max - delta ≤ base
    · rw [if_pos hsat, min_eq_right (by omega)]
      rfl
    · rw [if_neg hsat, min_eq_left (by omega)]
      exact inRange_of (by unfold InInt64; unfold int64Max at hsat; omega)

/-- What is left, or nothing. -/
theorem remainingI64_eq (hexpiry : InInt64 expiry) (hnow : 0 ≤ now) :
    remainingI64 expiry now = some (max (expiry - now) 0) := by
  unfold InInt64 at hexpiry
  unfold remainingI64
  by_cases hover : expiry ≤ now
  · rw [if_pos hover, max_eq_right (by omega)]
    rfl
  · rw [if_neg hover, max_eq_left (by omega)]
    exact inRange_of (by unfold InInt64; omega)

/-- A thousand nanoseconds for each microsecond, or the largest value from the quotient on. -/
theorem usToNsSaturating_eq (hpos : 0 < timeoutUs) :
    usToNsSaturating timeoutUs =
      some (if int64Max / 1000 ≤ timeoutUs then int64Max else timeoutUs * 1000) := by
  unfold usToNsSaturating
  rw [if_neg (by omega)]
  split
  · rfl
  · rename_i hfits
    exact inRange_of (by unfold InInt64; unfold int64Max at hfits; omega)

/-- The ceiling, but for the durations close to the largest. -/
theorem nsToUsCeil_eq (hpos : 0 < durationNs) :
    nsToUsCeil durationNs =
      some (if int64Max - 999 < durationNs then int64Max / 1000 + 1
        else (durationNs + 999) / 1000) := by
  unfold nsToUsCeil
  rw [if_neg (by omega), inRange_bind (by decide)]
  by_cases hlarge : int64Max - 999 < durationNs
  · rw [if_pos hlarge, if_pos hlarge]
    decide
  · rw [if_neg hlarge, if_neg hlarge,
      inRange_bind (by unfold InInt64; unfold int64Max at hlarge; omega)]
    rfl

theorem ceil_div_thousand (d : Int) : ⌈(d : ℚ) / 1000⌉ = (d + 999) / 1000 := by
  refine eq_of_forall_ge_iff fun n => ?_
  rw [Int.ceil_le, div_le_iff₀ (by norm_num)]
  have hcast : ((d : ℚ) ≤ n * 1000) ↔ d ≤ n * 1000 := by exact_mod_cast Iff.rfl
  rw [hcast]
  omega

/-- The rounding is a ceiling but for the durations that are over the bound of the rounded sum and
still have the ceiling of the largest multiple of a thousand. -/
theorem nsToUsCeil_iff (hpos : 0 < durationNs) (hfits : InInt64 durationNs) :
    nsToUsCeil durationNs = some ⌈(durationNs : ℚ) / 1000⌉ ↔
      durationNs ≤ int64Max - 999 ∨ int64Max - 807 < durationNs := by
  unfold InInt64 at hfits
  rw [nsToUsCeil_eq hpos, ceil_div_thousand, Option.some.injEq]
  unfold int64Max
  split
  · omega
  · rename_i hsmall
    exact ⟨fun _ => .inl (by omega), fun _ => rfl⟩

end Helpers

/-! ### The deadlines of the helpers -/

section Deadlines

variable {now timeout : Int}

theorem monotonicDeadlineAfterMs_eq (hnow : InInt64 now) (hpos : 0 ≤ now)
    (htimeout : InInt64 timeout) :
    monotonicDeadlineAfterMs now timeout = some ⟨min (now + max timeout 0) int64Max⟩ := by
  unfold monotonicDeadlineAfterMs
  split
  · rename_i hnonpos
    rw [max_eq_right hnonpos, add_zero, min_eq_left (show now ≤ int64Max from hnow.2)]
    rfl
  · rw [saturatingAddI64_eq hnow hpos htimeout]
    rfl

/-- The nanoseconds that the deadline of a timeout allows. -/
def allowedNs (timeoutUs : Int) : Int :=
  if int64Max / 1000 ≤ timeoutUs then int64Max else max (timeoutUs * 1000) 0

theorem allowedNs_bounds (htimeout : InInt64 timeout) :
    0 ≤ allowedNs timeout ∧ InInt64 (allowedNs timeout) ∧
      (timeout * 1000 ≤ allowedNs timeout ∨ allowedNs timeout = int64Max) := by
  unfold InInt64 at htimeout
  unfold allowedNs
  split
  · exact ⟨by decide, by decide, .inr rfl⟩
  · rename_i hfits
    unfold int64Max at hfits
    exact ⟨le_max_right _ _, by unfold InInt64; omega, .inl (le_max_left _ _)⟩

theorem highResolutionDeadlineAfterUs_eq (hnow : InInt64 now) (hpos : 0 ≤ now)
    (htimeout : InInt64 timeout) :
    highResolutionDeadlineAfterUs now timeout =
      some ⟨min (now + allowedNs timeout) int64Max⟩ := by
  obtain ⟨hnonneg, hfits, -⟩ := allowedNs_bounds htimeout
  unfold highResolutionDeadlineAfterUs
  split
  · rename_i hnonpos
    have hnone : allowedNs timeout = 0 := by
      unfold allowedNs int64Max
      omega
    rw [hnone, add_zero, min_eq_left (show now ≤ int64Max from hnow.2)]
    rfl
  · rename_i hstarted
    have hscaled : usToNsSaturating timeout = some (allowedNs timeout) := by
      rw [usToNsSaturating_eq (by omega)]
      unfold allowedNs
      rw [max_eq_left (by omega)]
    rw [hscaled, Option.bind_eq_bind, Option.bind_some,
      saturatingAddI64_eq hnow hpos hfits, max_eq_left hnonneg]
    rfl

/-- What is left of a deadline at the instant it was made at. -/
theorem remainingUs_after (hnow : InInt64 now) (hpos : 0 ≤ now) (htimeout : InInt64 timeout) :
    (highResolutionDeadlineAfterUs now timeout).bind (·.remainingUs now) =
      nsToUsCeil (min (allowedNs timeout) (int64Max - now)) := by
  obtain ⟨hnonneg, -, -⟩ := allowedNs_bounds htimeout
  have hmax : now ≤ int64Max := hnow.2
  have hexpiry : InInt64 (min (now + allowedNs timeout) int64Max) := by
    unfold InInt64
    unfold int64Max at hmax ⊢
    omega
  rw [highResolutionDeadlineAfterUs_eq hnow hpos htimeout, Option.bind_some]
  unfold HighResolutionDeadline.remainingUs HighResolutionDeadline.remainingNs
  rw [remainingI64_eq hexpiry hpos, Option.bind_eq_bind, Option.bind_some]
  congr 1
  omega

end Deadlines

/-! ### Exactness -/

/-- What the helpers promise where the clock shows `now` and the timeout is `timeout`. -/
structure Sound (now timeout : Int) : Prop where
  /-- Nothing overflows: not the conversions, not the making of a deadline, not the question what
  is left of any deadline. -/
  defined : (saturatingAddI64 now timeout).isSome ∧ (usToNsSaturating timeout).isSome ∧
    (nsToUsCeil timeout).isSome ∧ (monotonicDeadlineAfterMs now timeout).isSome ∧
    (highResolutionDeadlineAfterUs now timeout).isSome ∧
    ∀ expiry, InInt64 expiry → (remainingI64 expiry now).isSome ∧
      ((⟨expiry⟩ : MonotonicDeadline).remainingMs now).isSome ∧
      ((⟨expiry⟩ : HighResolutionDeadline).remainingNs now).isSome ∧
      ((⟨expiry⟩ : HighResolutionDeadline).remainingUs now).isSome
  /-- No deadline in milliseconds expires early, unless it is the largest instant. -/
  monotonic : ∀ deadline, monotonicDeadlineAfterMs now timeout = some deadline →
    ∀ later, deadline.expired later = true →
      now + timeout ≤ later ∨ deadline.expiryMs = int64Max
  /-- No deadline in microseconds expires early, unless it is the largest instant. -/
  highResolution : ∀ deadline, highResolutionDeadlineAfterUs now timeout = some deadline →
    ∀ later, deadline.expired later = true →
      now + timeout * 1000 ≤ later ∨ deadline.expiryNs = int64Max

theorem nsToUsCeil_isSome {d : Int} : (nsToUsCeil d).isSome := by
  by_cases hpos : 0 < d
  · rw [nsToUsCeil_eq hpos]
    rfl
  · unfold nsToUsCeil
    rw [if_pos (by omega)]
    rfl

theorem usToNsSaturating_isSome {t : Int} : (usToNsSaturating t).isSome := by
  by_cases hpos : 0 < t
  · rw [usToNsSaturating_eq hpos]
    rfl
  · unfold usToNsSaturating
    rw [if_pos (by omega)]
    rfl

theorem sound {now timeout : Int} (hnow : InInt64 now) (hpos : 0 ≤ now)
    (htimeout : InInt64 timeout) : Sound now timeout where
  defined := by
    refine ⟨?_, usToNsSaturating_isSome, nsToUsCeil_isSome, ?_, ?_, fun expiry hexpiry => ?_⟩
    · rw [saturatingAddI64_eq hnow hpos htimeout]
      rfl
    · rw [monotonicDeadlineAfterMs_eq hnow hpos htimeout]
      rfl
    · rw [highResolutionDeadlineAfterUs_eq hnow hpos htimeout]
      rfl
    · have hleft := remainingI64_eq hexpiry hpos
      refine ⟨by rw [hleft]; rfl, by unfold MonotonicDeadline.remainingMs; rw [hleft]; rfl,
        by unfold HighResolutionDeadline.remainingNs; rw [hleft]; rfl, ?_⟩
      unfold HighResolutionDeadline.remainingUs HighResolutionDeadline.remainingNs
      rw [hleft]
      exact nsToUsCeil_isSome
  monotonic := by
    intro deadline hmade later hexpired
    rw [monotonicDeadlineAfterMs_eq hnow hpos htimeout, Option.some.injEq] at hmade
    subst hmade
    simp only [MonotonicDeadline.expired, decide_eq_true_eq] at hexpired
    dsimp only
    omega
  highResolution := by
    intro deadline hmade later hexpired
    obtain ⟨-, -, hcovers⟩ := allowedNs_bounds htimeout
    rw [highResolutionDeadlineAfterUs_eq hnow hpos htimeout, Option.some.injEq] at hmade
    subst hmade
    simp only [HighResolutionDeadline.expired, decide_eq_true_eq] at hexpired
    dsimp only
    omega

/-- The timeouts that a deadline gives back at the instant it is made at. -/
theorem remainingUs_after_iff {now timeout : Int} (hnow : InInt64 now) (hpos : 0 ≤ now)
    (htimeout : InInt64 timeout) (hfits : now + timeout * 1000 ≤ int64Max) :
    (highResolutionDeadlineAfterUs now timeout).bind (·.remainingUs now) = some timeout ↔
      0 ≤ timeout ∧ timeout < int64Max / 1000 := by
  have hmax : now ≤ int64Max := hnow.2
  rw [remainingUs_after hnow hpos htimeout]
  by_cases hlarge : int64Max / 1000 ≤ timeout
  · -- The largest timeout that fits: its deadline is the largest instant, and not its own.
    have hleft : min (allowedNs timeout) (int64Max - now) = int64Max - now := by
      unfold allowedNs
      rw [if_pos hlarge]
      omega
    unfold int64Max at hlarge hfits hmax
    rw [hleft, nsToUsCeil_eq (by unfold int64Max; omega), if_pos (by unfold int64Max; omega),
      Option.some.injEq]
    unfold int64Max
    omega
  · have hleft : min (allowedNs timeout) (int64Max - now) = max (timeout * 1000) 0 := by
      unfold allowedNs
      rw [if_neg hlarge]
      omega
    rw [hleft]
    unfold int64Max at hlarge hfits hmax
    by_cases hwaits : 0 < timeout
    · rw [max_eq_left (by omega), nsToUsCeil_eq (by omega), if_neg (by unfold int64Max; omega),
        Option.some.injEq]
      unfold int64Max
      omega
    · have hzero : nsToUsCeil (max (timeout * 1000) 0) = some 0 := by
        unfold nsToUsCeil
        rw [if_pos (by omega)]
        rfl
      rw [hzero, Option.some.injEq]
      unfold int64Max
      omega

/-- Nothing overflows and no deadline is early. The rounding of a duration is a ceiling but for
the 192 durations after `INT64_MAX - 999`, and a timeout that fits is given back unless it is
negative or the largest number of microseconds. -/
theorem deadlines_exact (now timeout durationNs : Int) (hnow : InInt64 now) (hpos : 0 ≤ now)
    (htimeout : InInt64 timeout) (hduration : InInt64 durationNs) :
    Sound now timeout ∧
    (0 < durationNs →
      (nsToUsCeil durationNs = some ⌈(durationNs : ℚ) / 1000⌉ ↔
        durationNs ≤ int64Max - 999 ∨ int64Max - 807 < durationNs)) ∧
    (now + timeout * 1000 ≤ int64Max →
      ((highResolutionDeadlineAfterUs now timeout).bind (·.remainingUs now) = some timeout ↔
        0 ≤ timeout ∧ timeout < int64Max / 1000)) :=
  ⟨sound hnow hpos htimeout, fun hstarted => nsToUsCeil_iff hstarted hduration,
    fun hfits => remainingUs_after_iff hnow hpos htimeout hfits⟩

/-- A second of timeout, a minute after the clock has started. -/
theorem deadlines_exact_second :
    Sound 60000000000 1000000 ∧
    nsToUsCeil 1000000001 = some ⌈((1000000001 : Int) : ℚ) / 1000⌉ ∧
    (highResolutionDeadlineAfterUs 60000000000 1000000).bind (·.remainingUs 60000000000) =
      some 1000000 := by
  obtain ⟨hsound, hceil, hback⟩ := deadlines_exact 60000000000 1000000 1000000001
    (by decide) (by decide) (by decide) (by decide)
  exact ⟨hsound, (hceil (by decide)).mpr (.inl (by decide)),
    (hback (by decide)).mpr (by decide)⟩

/-- A duration that is a whole number of microseconds is rounded up to the next, and the deadline
of the largest timeout that fits is one microsecond longer than the timeout. -/
theorem deadlines_inexact :
    InInt64 9223372036854775000 ∧
    nsToUsCeil 9223372036854775000 = some 9223372036854776 ∧
    ⌈((9223372036854775000 : Int) : ℚ) / 1000⌉ = 9223372036854775 ∧
    InInt64 9223372036854775 ∧ (0 : Int) + 9223372036854775 * 1000 ≤ int64Max ∧
    (highResolutionDeadlineAfterUs 0 9223372036854775).bind (·.remainingUs 0) =
      some 9223372036854776 := by
  refine ⟨by decide, by decide, ?_, by decide, by decide, by decide⟩
  rw [ceil_div_thousand]
  rfl

end MicrOsal.CDeadline
