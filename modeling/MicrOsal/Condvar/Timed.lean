import MicrOsal.Clock.Monotonic
import MicrOsal.Clock.Ticks
import MicrOsal.Lib.Machine

/-!
# MicrOsal.Condvar.Timed

The timed waits of `condvar` (`include/osal/condvar.hpp`): `wait_for` and `wait_until` with a
predicate, and `wait_until` without one.

All of them wait in ticks, of which there are only so many. `wait_until` without a predicate
looks at its deadline again when a wait has timed out. The overload with a predicate does not:
it gives up at the end of the longest wait that ticks can express.

Time is counted in microseconds; the monotonic clock shows its full milliseconds.
-/

namespace MicrOsal.CondvarWait

/-- `monotonic_clock::now`. -/
def nowMs (time : Nat) : Int := (time / 1000 : Nat)

/-- `basic_deadline::remaining`. -/
def deadlineRemaining (expiry now : Int) : Int :=
  if deadlineExpired expiry now then 0 else expiry - now

/-- The deadline of `wait_until` with a predicate: what remains of the deadline at `now₁` is
counted from `now₂` on. -/
def delegatedDeadline (deadline now₁ now₂ : Int) : Option Int :=
  deadlineAfter now₂ (deadlineRemaining deadline now₁ : ℚ)

/-- How long a tick lasts for which the backend reports `periodUs`. -/
def tickUs (periodUs : Nat) : Nat := if periodUs = 0 then 1000 else periodUs

/-- The longest wait that a finite timeout in ticks expresses. -/
def longestUs (w periodUs : Nat) : Nat := (2 ^ w - 2) * tickUs periodUs

/-- Which of the functions is called. -/
inductive Overload
  | withPredicate
  | plain
  deriving DecidableEq, Repr

/-- How far the call is. -/
inductive Phase (w : Nat)
  /-- `wait_until` with a predicate has read the clock for the first time. -/
  | delegated (remaining : Int)
  /-- About to evaluate `pred`. -/
  | test (deadline : Int)
  /-- About to ask whether the deadline has expired. -/
  | check (deadline : Int)
  /-- About to ask what remains of it. -/
  | arm (deadline : Int)
  /-- In `osal_condvar_wait`. -/
  | blocked (deadline : Int) (since : Nat) (ticks : Tick w)
  /-- About to return what `pred` is. -/
  | last (deadline : Int)
  | returned (value : Bool) (ended : Nat)

structure State (w : Nat) where
  time : Nat
  pred : Bool
  phase : Phase w
  /-- What `pred` was when it was evaluated last. No step reads it. -/
  seen : Option Bool

inductive Action
  | tick (us : Nat)
  /-- The predicate becomes `pred`. -/
  | become (pred : Bool)
  | go
  /-- `osal_condvar_wait` returns: because its ticks are over, or because of a notification or
  without one. -/
  | wake (timedOut : Bool)

namespace State

variable {w : Nat}

/-- The call goes on by one step, outside `osal_condvar_wait`. -/
def go (o : Overload) (periodUs : Nat) (s : State w) : Option (State w) :=
  match s.phase with
  | .delegated remaining =>
      (deadlineAfter (nowMs s.time) (remaining : ℚ)).map
        (fun deadline => { s with phase := .test deadline })
  | .test deadline =>
      some { s with
        seen := some s.pred
        phase := if s.pred then .returned true s.time else .check deadline }
  | .check deadline =>
      if deadlineExpired deadline (nowMs s.time) then
        match o with
        | .withPredicate => some { s with phase := .last deadline }
        | .plain => some { s with phase := .returned false s.time }
      else some { s with phase := .arm deadline }
  | .arm deadline =>
      let ticks := msToTicks w periodUs (deadlineRemaining deadline (nowMs s.time))
      some { s with phase := .blocked deadline s.time ticks }
  | .last _ => some { s with seen := some s.pred, phase := .returned s.pred s.time }
  | .blocked .. => none
  | .returned .. => none

/-- `wait_for` without a predicate has returned. -/
def woken (o : Overload) (s : State w) (deadline : Int) (timedOut : Bool) : State w :=
  match o, timedOut with
  | .withPredicate, true => { s with phase := .last deadline }
  | .withPredicate, false => { s with phase := .test deadline }
  | .plain, true => { s with phase := .check deadline }
  | .plain, false => { s with phase := .returned true s.time }

def step (o : Overload) (periodUs : Nat) (s : State w) : Action → Option (State w)
  | .tick us =>
      if nowMs (s.time + us) ≤ timePointMax then some { s with time := s.time + us } else none
  | .become pred => some { s with pred := pred }
  | .go => s.go o periodUs
  | .wake timedOut =>
      match s.phase with
      | .blocked deadline since ticks =>
          if timedOut && s.time < since + ticks.toNat * tickUs periodUs then none
          else some (s.woken o deadline timedOut)
      | _ => none

end State

/-- One call, from the first time on that it reads the clock, which is at `begun`. -/
def machine (o : Overload) (w periodUs begun : Nat) (phase : Phase w) :
    Machine (State w) Action where
  init := ⟨begun, false, phase, none⟩
  step := State.step o periodUs

/-- `wait_for` with a predicate, when it has made its deadline. -/
def waitFor (w periodUs begun : Nat) (deadline : Int) : Machine (State w) Action :=
  machine .withPredicate w periodUs begun (.test deadline)

/-- `wait_until` with a predicate. -/
def waitUntil (w periodUs begun : Nat) (deadline : Int) : Machine (State w) Action :=
  machine .withPredicate w periodUs begun (.delegated (deadlineRemaining deadline (nowMs begun)))

/-- `wait_until` without one. -/
def waitUntilPlain (w periodUs begun : Nat) (deadline : Int) : Machine (State w) Action :=
  machine .plain w periodUs begun (.check deadline)

/-- A call that has returned has not given up early, and tells what the predicate was. -/
def State.Honest {w : Nat} (deadline : Int) (s : State w) : Prop :=
  ∀ value ended, s.phase = .returned value ended →
    s.seen = some value ∧ (value = false → deadline ≤ nowMs ended)

/-- A call without a predicate has not given up early. -/
def State.OnTime {w : Nat} (deadline : Int) (s : State w) : Prop :=
  ∀ ended, s.phase = .returned false ended → deadline ≤ nowMs ended

variable {w periodUs begun : Nat} {deadline : Int} {s s' : State w}

/-! ### Ticks and deadlines -/

theorem le_nowMs_iff (deadline : Int) (time : Nat) :
    deadline ≤ nowMs time ↔ deadline * 1000 ≤ time := by
  unfold nowMs
  omega

theorem nowMs_nonneg (time : Nat) : 0 ≤ nowMs time := Int.natCast_nonneg _

theorem nowMs_mono {t t' : Nat} (h : t ≤ t') : nowMs t ≤ nowMs t' :=
  Int.ofNat_le.mpr (Nat.div_le_div_right h)

theorem toNat_msToTicks_tickUs (hw : 16 ≤ w) {ms : Int} (hpos : 0 < ms) :
    (msToTicks w periodUs ms).toNat = min (ticksFor (tickUs periodUs) ms.toNat) (2 ^ w - 2) := by
  unfold tickUs
  split
  case isTrue hzero =>
    have hpow : 2 ^ 16 ≤ 2 ^ w := Nat.pow_le_pow_right (by decide) hw
    have hms : ticksFor 1000 ms.toNat = ms.toNat := by
      unfold ticksFor
      omega
    subst hzero
    unfold msToTicks
    rw [if_neg (by omega), if_pos rfl, hms]
    exact (BitVec.toNat_ofNat _ w).trans (Nat.mod_eq_of_lt (by omega))
  case isFalse hne => exact toNat_msToTicks_eq hw (Nat.pos_of_ne_zero hne) hpos

theorem tickUs_pos (periodUs : Nat) : 0 < tickUs periodUs := by
  unfold tickUs
  split <;> omega

/-- The ticks of a wait last as long as what remains, or as long as ticks can. -/
theorem wait_covers (hw : 16 ≤ w) (periodUs : Nat) {ms : Int} (hpos : 0 < ms) :
    ms.toNat * 1000 ≤ (msToTicks w periodUs ms).toNat * tickUs periodUs ∨
      (msToTicks w periodUs ms).toNat * tickUs periodUs = longestUs w periodUs := by
  rw [toNat_msToTicks_tickUs hw hpos]
  rcases Nat.le_total (ticksFor (tickUs periodUs) ms.toNat) (2 ^ w - 2) with hle | hle
  · rw [Nat.min_eq_left hle]
    exact .inl ((le_ticksFor_iff (tickUs_pos periodUs) _ _).mp (Nat.le_refl _))
  · rw [Nat.min_eq_right hle]
    exact .inr rfl

/-- More than ticks can express is waited for as long as they can. -/
theorem wait_longest (hw : 16 ≤ w) {ms : Int} (hlong : longestUs w periodUs < ms.toNat * 1000) :
    (msToTicks w periodUs ms).toNat * tickUs periodUs = longestUs w periodUs := by
  have hpos : 0 < ms := by omega
  rcases wait_covers hw periodUs hpos with hcovers | hlongest
  · have hle : (msToTicks w periodUs ms).toNat ≤ 2 ^ w - 2 := by
      rw [toNat_msToTicks_tickUs hw hpos]
      exact Nat.min_le_right _ _
    have := Nat.mul_le_mul_right (tickUs periodUs) hle
    rw [show (2 ^ w - 2) * tickUs periodUs = longestUs w periodUs from rfl] at this
    omega
  · exact hlongest

/-- A timeout in full milliseconds. -/
theorem deadlineAfter_intCast {now ms : Int} (hnow : 0 ≤ now) (hmax : now ≤ timePointMax)
    (hms : InInt64 ms) : deadlineAfter now (ms : ℚ) =
      some (if ms ≤ 0 then now else min timePointMax (now + ms)) := by
  unfold deadlineAfter
  by_cases hle : ms ≤ 0
  · rw [if_pos (by exact_mod_cast hle), if_pos hle]
  · have hpos : (0 : ℚ) < (ms : ℚ) := by exact_mod_cast not_le.mp hle
    have hdelta : InInt64 (timePointMax - now) := by
      unfold InInt64 timePointMax at *
      omega
    rw [if_neg (not_le.mpr hpos), ceilDuration_eq hpos, Int.ceil_intCast, if_pos hms, if_neg hle,
      saturatingAdd, if_pos hdelta]
    split <;> congr 1 <;> omega

theorem deadlineRemaining_of_lt {now : Int} (h : now < deadline) :
    deadlineRemaining deadline now = deadline - now :=
  if_neg (fun hover => absurd (of_decide_eq_true hover) (Int.not_le.mpr h))

theorem deadlineRemaining_of_le {now : Int} (h : deadline ≤ now) :
    deadlineRemaining deadline now = 0 := if_pos (decide_eq_true h)

theorem delegatedDeadline_eq {now₁ now₂ : Int} (hnow₁ : 0 ≤ now₁) (hle : now₁ ≤ now₂)
    (hmax : now₂ ≤ timePointMax) (hdeadline : deadline ≤ timePointMax) :
    delegatedDeadline deadline now₁ now₂ = some (if deadline ≤ now₁ then now₂
      else min timePointMax (now₂ + (deadline - now₁))) := by
  have hnow₂ : 0 ≤ now₂ := hnow₁.trans hle
  by_cases hover : deadline ≤ now₁
  · rw [delegatedDeadline, deadlineRemaining_of_le hover,
      deadlineAfter_intCast hnow₂ hmax (by decide), if_pos hover, if_pos (Int.le_refl 0)]
  · have hfits : InInt64 (deadline - now₁) := by
      unfold InInt64 timePointMax at *
      omega
    rw [delegatedDeadline, deadlineRemaining_of_lt (Int.not_le.mp hover),
      deadlineAfter_intCast hnow₂ hmax hfits, if_neg hover, if_neg (by omega)]

/-! ### The overload with a predicate -/

/-- What a call knows of the time, whose deadline is `deadline` for its caller. -/
def Phase.Kept (periodUs begun : Nat) (deadline : Int) (time : Nat) : Phase w → Prop
  | .delegated remaining => remaining = deadlineRemaining deadline (nowMs begun)
  | .test d | .check d | .arm d => deadline ≤ d
  | .blocked d since ticks =>
      deadline ≤ d ∧ deadline * 1000 ≤ (since + ticks.toNat * tickUs periodUs : Nat)
  | .last _ => deadline ≤ nowMs time
  | .returned value ended => value = false → deadline ≤ nowMs ended

structure Kept (periodUs begun : Nat) (deadline : Int) (s : State w) : Prop where
  begun_le : begun ≤ s.time
  time_le : nowMs s.time ≤ timePointMax
  phase : s.phase.Kept periodUs begun deadline s.time
  seen : ∀ value ended, s.phase = .returned value ended → s.seen = some value

/-- What is left of a deadline is waited for, or the longest wait that there is. -/
theorem kept_blocked (hw : 16 ≤ w) (hfits : deadline * 1000 ≤ (begun + longestUs w periodUs : Nat))
    {time : Nat} (hbegun : begun ≤ time) {d : Int} (hd : deadline ≤ d) :
    deadline * 1000 ≤ (time +
      (msToTicks w periodUs (deadlineRemaining d (nowMs time))).toNat * tickUs periodUs : Nat) := by
  rcases le_or_gt d (nowMs time) with hover | hleft
  · have := (le_nowMs_iff d time).mp hover
    omega
  · rw [deadlineRemaining_of_lt hleft]
    have hpos : 0 < d - nowMs time := by omega
    rcases wait_covers hw periodUs hpos with hcovers | hlongest
    · have hnow : nowMs time * 1000 ≤ time := (le_nowMs_iff _ time).mp (Int.le_refl _)
      omega
    · rw [hlongest]
      omega

theorem Kept.go (hw : 16 ≤ w) (hdeadline : deadline ≤ timePointMax)
    (hfits : deadline * 1000 ≤ (begun + longestUs w periodUs : Nat))
    (h : Kept periodUs begun deadline s) (hs : s.go .withPredicate periodUs = some s') :
    Kept periodUs begun deadline s' := by
  obtain ⟨hbegun, htime, hphase, -⟩ := h
  obtain ⟨time, pred, phase, seen⟩ := s
  cases phase with
  | delegated remaining =>
      obtain ⟨d, hd, rfl⟩ := Option.map_eq_some_iff.mp hs
      refine ⟨hbegun, htime, ?_, fun value ended heq => nomatch heq⟩
      have hle : nowMs begun ≤ nowMs time := nowMs_mono hbegun
      have hmade := delegatedDeadline_eq (nowMs_nonneg begun) hle htime hdeadline
      rw [delegatedDeadline, ← show remaining = _ from hphase, hd] at hmade
      have heq := Option.some.inj hmade
      change deadline ≤ d
      split at heq <;> omega
  | test d =>
      obtain rfl := Option.some.inj hs
      cases pred with
      | true =>
          refine ⟨hbegun, htime, fun heq => (nomatch heq), fun value ended heq => ?_⟩
          rw [(Phase.returned.inj heq).1.symm]
      | false => exact ⟨hbegun, htime, hphase, fun value ended heq => nomatch heq⟩
  | check d =>
      rw [State.go] at hs
      dsimp only at hs
      split at hs
      case isTrue hover =>
        obtain rfl := Option.some.inj hs
        refine ⟨hbegun, htime, ?_, fun value ended heq => nomatch heq⟩
        exact (show deadline ≤ d from hphase).trans (of_decide_eq_true hover)
      case isFalse =>
        obtain rfl := Option.some.inj hs
        exact ⟨hbegun, htime, hphase, fun value ended heq => nomatch heq⟩
  | arm d =>
      obtain rfl := Option.some.inj hs
      exact ⟨hbegun, htime, ⟨hphase, kept_blocked hw hfits hbegun hphase⟩,
        fun value ended heq => nomatch heq⟩
  | last d =>
      obtain rfl := Option.some.inj hs
      refine ⟨hbegun, htime, fun _ => hphase, fun value ended heq => ?_⟩
      rw [(Phase.returned.inj heq).1.symm]
  | blocked d since ticks => cases hs
  | returned value ended => cases hs

theorem Phase.Kept.later {phase : Phase w} {time time' : Nat}
    (h : phase.Kept periodUs begun deadline time) (hle : time ≤ time') :
    phase.Kept periodUs begun deadline time' := by
  cases phase with
  | last d => exact (show deadline ≤ nowMs time from h).trans (nowMs_mono hle)
  | delegated remaining => exact h
  | test d => exact h
  | check d => exact h
  | arm d => exact h
  | blocked d since ticks => exact h
  | returned value ended => exact h

theorem Kept.step (hw : 16 ≤ w) (hdeadline : deadline ≤ timePointMax)
    (hfits : deadline * 1000 ≤ (begun + longestUs w periodUs : Nat)) {a : Action}
    (h : Kept periodUs begun deadline s) (hs : s.step .withPredicate periodUs a = some s') :
    Kept periodUs begun deadline s' := by
  cases a with
  | tick us =>
      rw [State.step] at hs
      split at hs
      case isTrue hmax =>
        obtain rfl := Option.some.inj hs
        exact ⟨h.begun_le.trans (Nat.le_add_right _ _), hmax,
          h.phase.later (Nat.le_add_right _ _), h.seen⟩
      case isFalse => cases hs
  | become pred =>
      obtain rfl := Option.some.inj hs
      exact ⟨h.begun_le, h.time_le, h.phase, h.seen⟩
  | go => exact h.go hw hdeadline hfits hs
  | wake timedOut =>
      obtain ⟨hbegun, htime, hphase, -⟩ := h
      obtain ⟨time, pred, phase, seen⟩ := s
      cases phase with
      | blocked d since ticks =>
          obtain ⟨hd, hover⟩ := hphase
          rw [State.step] at hs
          dsimp only at hs
          split at hs
          case isTrue => cases hs
          case isFalse hdone =>
            obtain rfl := Option.some.inj hs
            cases timedOut with
            | false => exact ⟨hbegun, htime, hd, fun value ended heq => nomatch heq⟩
            | true =>
                refine ⟨hbegun, htime, ?_, fun value ended heq => nomatch heq⟩
                have hlasted : ¬ time < since + ticks.toNat * tickUs periodUs := by
                  simpa using hdone
                exact (le_nowMs_iff deadline time).mpr (by omega)
      | _ => cases hs

/-- A call whose deadline ticks can express does not give up early. -/
theorem honest_of_fits (hw : 16 ≤ w) (hdeadline : deadline ≤ timePointMax)
    (hbegun : nowMs begun ≤ timePointMax)
    (hfits : deadline * 1000 ≤ (begun + longestUs w periodUs : Nat)) (phase : Phase w)
    (hphase : phase.Kept periodUs begun deadline begun)
    (hstart : ∀ value ended, phase ≠ .returned value ended)
    (hr : (machine .withPredicate w periodUs begun phase).Reachable s) : s.Honest deadline := by
  have hkept : Kept periodUs begun deadline s :=
    hr.invariant (I := Kept periodUs begun deadline)
      ⟨Nat.le_refl _, hbegun, hphase, fun value ended heq => absurd heq (hstart value ended)⟩
      (fun s a s' _ hk hs => hk.step hw hdeadline hfits hs)
  intro value ended heq
  have hreturned := hkept.phase
  rw [heq] at hreturned
  exact ⟨hkept.seen value ended heq, hreturned⟩

/-- The longest wait, and nothing happens in it. -/
def longestWait (w periodUs : Nat) : List Action :=
  [.go, .go, .go, .tick (longestUs w periodUs), .wake true, .go]

/-- A call whose deadline ticks cannot express gives up at the end of the longest wait. -/
theorem run_longestWait (hw : 16 ≤ w) (hdeadline : deadline ≤ timePointMax)
    (hfar : ¬ deadline * 1000 ≤ (begun + longestUs w periodUs : Nat)) (phase : Phase w) :
    (machine .withPredicate w periodUs begun phase).run ⟨begun, false, .test deadline, none⟩
      (longestWait w periodUs) = some ⟨begun + longestUs w periodUs, false,
        .returned false (begun + longestUs w periodUs), some false⟩ := by
  have hleft : nowMs begun < deadline := by
    by_contra hover
    have := (le_nowMs_iff deadline begun).mp (Int.not_lt.mp hover)
    omega
  have hexpired : deadlineExpired deadline (nowMs begun) = false :=
    decide_eq_false (Int.not_le.mpr hleft)
  have hnow : nowMs begun * 1000 ≤ begun := (le_nowMs_iff _ begun).mp (Int.le_refl _)
  have hticks : (msToTicks w periodUs (deadlineRemaining deadline (nowMs begun))).toNat *
      tickUs periodUs = longestUs w periodUs := by
    rw [deadlineRemaining_of_lt hleft]
    exact wait_longest hw (by omega)
  have hmax : nowMs (begun + longestUs w periodUs) ≤ timePointMax := by
    by_contra hover
    exact hfar ((le_nowMs_iff deadline _).mp (by omega))
  simp only [longestWait, Machine.run, machine, State.step, State.go, State.woken, hexpired, hmax,
    hticks, Nat.lt_irrefl, if_true, if_false, Bool.false_eq_true, decide_false, Bool.and_false,
    Option.bind_some]

/-- So does `wait_until`, whose deadline is that of its caller when the clock shows the same at
both readings. -/
theorem run_waitUntil (hw : 16 ≤ w) (hbegun : nowMs begun ≤ timePointMax)
    (hdeadline : deadline ≤ timePointMax)
    (hfar : ¬ deadline * 1000 ≤ (begun + longestUs w periodUs : Nat)) :
    (waitUntil w periodUs begun deadline).run (waitUntil w periodUs begun deadline).init
      (.go :: longestWait w periodUs) = some ⟨begun + longestUs w periodUs, false,
        .returned false (begun + longestUs w periodUs), some false⟩ := by
  have hleft : ¬ deadline ≤ nowMs begun := by
    intro hover
    have := (le_nowMs_iff deadline begun).mp hover
    omega
  have hmade : deadlineAfter (nowMs begun) (deadlineRemaining deadline (nowMs begun) : ℚ) =
      some deadline := by
    have hsame := delegatedDeadline_eq (nowMs_nonneg begun) (Int.le_refl _) hbegun hdeadline
    rw [if_neg hleft] at hsame
    exact hsame.trans (congrArg some (by omega))
  have hfirst : (waitUntil w periodUs begun deadline).step
      (waitUntil w periodUs begun deadline).init .go =
        some ⟨begun, false, .test deadline, none⟩ := congrArg (Option.map _) hmade
  rw [Machine.run, hfirst, Option.bind_some]
  exact run_longestWait hw hdeadline hfar _

theorem not_honest_of_far (hfar : ¬ deadline * 1000 ≤ (begun + longestUs w periodUs : Nat))
    (hphase : s.phase = .returned false (begun + longestUs w periodUs)) : ¬ s.Honest deadline :=
  fun hhonest => hfar ((le_nowMs_iff deadline _).mp ((hhonest _ _ hphase).2 rfl))

/-! ### The overload without a predicate -/

/-- The deadline is the one of the caller, and is only given up when it has expired. -/
def Phase.Plain (deadline : Int) : Phase w → Prop
  | .delegated _ | .test _ | .last _ => False
  | .check d | .arm d | .blocked d _ _ => d = deadline
  | .returned value ended => value = false → deadline ≤ nowMs ended

theorem plain_step {a : Action} (h : s.phase.Plain deadline)
    (hs : s.step .plain periodUs a = some s') : s'.phase.Plain deadline := by
  obtain ⟨time, pred, phase, seen⟩ := s
  cases a with
  | tick us =>
      rw [State.step] at hs
      split at hs
      case isTrue => exact Option.some.inj hs ▸ h
      case isFalse => cases hs
  | become pred => exact Option.some.inj hs ▸ h
  | go =>
      cases phase with
      | check d =>
          rw [State.step, State.go] at hs
          dsimp only at hs
          obtain rfl : d = deadline := h
          split at hs
          case isTrue hover => exact Option.some.inj hs ▸ fun _ => of_decide_eq_true hover
          case isFalse => exact Option.some.inj hs ▸ rfl
      | arm d => exact Option.some.inj hs ▸ h
      | blocked d since ticks => cases hs
      | returned value ended => cases hs
      | delegated remaining => exact h.elim
      | test d => exact h.elim
      | last d => exact h.elim
  | wake timedOut =>
      cases phase with
      | blocked d since ticks =>
          rw [State.step] at hs
          dsimp only at hs
          split at hs
          case isTrue => cases hs
          case isFalse =>
            obtain rfl := Option.some.inj hs
            cases timedOut with
            | false => exact fun heq => nomatch heq
            | true => exact h
      | _ => cases hs

/-! ### Both -/

/-- The overloads of `wait_until` agree, whenever the clock is looked at, on whether the deadline
has expired. -/
def Agree (deadline now₁ now₂ : Int) : Prop :=
  ∃ d, delegatedDeadline deadline now₁ now₂ = some d ∧
    ∀ now, now₂ ≤ now → now ≤ timePointMax → deadlineExpired d now = deadlineExpired deadline now

theorem agree_iff {now₁ now₂ : Int} (hnow₁ : 0 ≤ now₁) (hle : now₁ ≤ now₂)
    (hmax : now₂ < timePointMax) (hdeadline : deadline ≤ timePointMax) :
    Agree deadline now₁ now₂ ↔
      deadline ≤ now₁ ∨ now₂ = now₁ ∨ deadline = timePointMax := by
  unfold Agree
  rw [delegatedDeadline_eq hnow₁ hle hmax.le hdeadline]
  simp only [Option.some.injEq, exists_eq_left', deadlineExpired, decide_eq_decide]
  constructor
  · intro hagree
    by_contra hnone
    obtain ⟨hleft, hlag, hlast⟩ : ¬ deadline ≤ now₁ ∧ now₂ ≠ now₁ ∧ deadline ≠ timePointMax := by
      simpa only [not_or] using hnone
    rw [if_neg hleft] at hagree
    -- the clock shows the deadline, or it has gone past it between the two readings
    have hat := (hagree (max now₂ deadline) (by omega) (by omega)).mpr (le_max_right _ _)
    omega
  · intro hagree now hnow hnowMax
    by_cases hover : deadline ≤ now₁
    · rw [if_pos hover]
      omega
    · rw [if_neg hover]
      omega

/-- What the timed waits of a call promise that first reads the clock at `begun`. -/
structure WaitsOut (w periodUs begun : Nat) : Prop where
  /-- `wait_for` with a predicate. -/
  waitFor : ∀ timeout deadline : Int, InInt64 timeout →
    deadlineAfter (nowMs begun) (timeout : ℚ) = some deadline →
    ((∀ s : State w, (waitFor w periodUs begun deadline).Reachable s → s.Honest deadline) ↔
      deadline * 1000 ≤ (begun + longestUs w periodUs : Nat))
  /-- `wait_until` with a predicate. -/
  waitUntil : ∀ deadline : Int, deadline ≤ timePointMax →
    ((∀ s : State w, (waitUntil w periodUs begun deadline).Reachable s → s.Honest deadline) ↔
      deadline * 1000 ≤ (begun + longestUs w periodUs : Nat))
  /-- `wait_until` without one. -/
  plain : ∀ (deadline : Int) (s : State w),
    (waitUntilPlain w periodUs begun deadline).Reachable s → s.OnTime deadline
  /-- The overload with a predicate has read the clock for the second time at `now₂`. -/
  agree : ∀ deadline now₂ : Int, deadline ≤ timePointMax → nowMs begun ≤ now₂ →
    now₂ < timePointMax → (Agree deadline (nowMs begun) now₂ ↔
      deadline ≤ nowMs begun ∨ now₂ = nowMs begun ∨ deadline = timePointMax)

/-- The timed waits with a predicate give up early exactly if their deadline is further away than
the longest wait that ticks express, and the overloads of `wait_until` agree exactly if the clock
shows the same at both readings, or the deadline is over at the first or never is. -/
theorem condvar_waitsOut (hw : 16 ≤ w) (periodUs : Nat) {begun : Nat}
    (hbegun : nowMs begun ≤ timePointMax) : WaitsOut w periodUs begun where
  waitFor timeout deadline htimeout hmade := by
    rw [deadlineAfter_intCast (nowMs_nonneg begun) hbegun htimeout] at hmade
    have hdeadline : deadline ≤ timePointMax := by
      have heq := Option.some.inj hmade
      split at heq <;> omega
    constructor
    · intro hhonest
      by_contra hfar
      have hrun := run_longestWait hw hdeadline hfar (.test deadline)
      exact absurd (hhonest _ (Machine.Reachable.of_run hrun)) (not_honest_of_far hfar rfl)
    · intro hfits s hr
      exact honest_of_fits hw hdeadline hbegun hfits (.test deadline) (Int.le_refl deadline)
        (fun value ended heq => nomatch heq) hr
  waitUntil deadline hdeadline := by
    constructor
    · intro hhonest
      by_contra hfar
      exact absurd (hhonest _ (Machine.Reachable.of_run
        (run_waitUntil hw hbegun hdeadline hfar))) (not_honest_of_far hfar rfl)
    · intro hfits s hr
      exact honest_of_fits hw hdeadline hbegun hfits
        (.delegated (deadlineRemaining deadline (nowMs begun))) rfl
        (fun value ended heq => nomatch heq) hr
  plain deadline s hr := by
    have hplain : s.phase.Plain deadline :=
      hr.invariant (I := fun s => s.phase.Plain deadline) rfl
        (fun s a s' _ h hs => plain_step h hs)
    intro ended heq
    rw [heq] at hplain
    exact hplain rfl
  agree deadline now₂ hdeadline hle hmax :=
    agree_iff (nowMs_nonneg begun) hle hmax hdeadline

/-- A minute from the start on, with ticks of a millisecond in 32 bits. -/
theorem condvar_waitsOut_minute : 16 ≤ 32 ∧ nowMs 0 ≤ timePointMax ∧
    (∀ s : State 32, (waitFor 32 1000 0 60000).Reachable s → s.Honest 60000) ∧
    (∀ s : State 32, (waitUntil 32 1000 0 60000).Reachable s → s.Honest 60000) ∧
    Agree 60000 0 0 := by
  have hall : WaitsOut 32 1000 0 := condvar_waitsOut (by decide) 1000 (by decide)
  have hmade : deadlineAfter (nowMs 0) ((60000 : Int) : ℚ) = some 60000 :=
    deadlineAfter_intCast (nowMs_nonneg 0) (by decide) (by decide)
  refine ⟨by decide, by decide, ?_, ?_, ?_⟩
  · exact (hall.waitFor 60000 60000 (by decide) hmade).mpr (by decide)
  · exact (hall.waitUntil 60000 (by decide)).mpr (by decide)
  · exact (hall.agree 60000 0 (by decide) (by decide) (by decide)).mpr (.inr (.inl rfl))

/-- With ticks of a millisecond in 16 bits, a wait for 66 s gives up after 65.534 s; and a
deadline at 10 ms is one at 11 ms for the overload with a predicate, which reads 5 ms first and
then 6 ms. -/
theorem condvar_gives_up :
    (deadlineAfter (nowMs 0) ((66000 : Int) : ℚ) = some 66000 ∧
      ∃ s : State 16, (waitFor 16 1000 0 66000).Reachable s ∧ ¬ s.Honest 66000) ∧
    (∃ s : State 16, (waitUntil 16 1000 0 66000).Reachable s ∧ ¬ s.Honest 66000) ∧
    ¬ Agree 10 5 6 := by
  have hfar : ¬ (66000 : Int) * 1000 ≤ (0 + longestUs 16 1000 : Nat) := by decide
  have hmade : deadlineAfter (nowMs 0) ((66000 : Int) : ℚ) = some 66000 :=
    deadlineAfter_intCast (nowMs_nonneg 0) (by decide) (by decide)
  have hfor := run_longestWait (w := 16) (by decide) (by decide) hfar (.test 66000)
  have huntil := run_waitUntil (w := 16) (by decide) (by decide) (by decide) hfar
  refine ⟨⟨hmade, _, .of_run hfor, not_honest_of_far hfar rfl⟩,
    ⟨_, .of_run huntil, not_honest_of_far hfar rfl⟩, ?_⟩
  · rw [agree_iff (by decide) (by decide) (by decide) (by decide)]
    decide

end MicrOsal.CondvarWait
