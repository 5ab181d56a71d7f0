import MicrOsal.CDelayable.Expiry
import MicrOsal.CWait.Notification

/-!
# MicrOsal.CWait.Flush

The time of `osal_c_delayable_work_flush`, a loop that polls the state of the handle, and when
both timed waits of the C interface are honest.

The handle changes between the steps of the loop as the timer, the work queue and other calls
make it. No submission fails with `timeout`, so that this code is never one it left behind.
-/

namespace MicrOsal.CWait

open MicrOsal.CDelayable (Handle)
open MicrOsal.Notification (WaitArgs)

/-- `delayable_poll_interval`, in milliseconds. -/
def pollInterval (w periodUs : Nat) : Nat :=
  let tick := ticksToMs periodUs (1 : Tick w)
  if 0 < tick then tick else 1

/-- How far the flush is; a deadline only with a timeout. -/
inductive Flusher
  | outside
  /-- About to look at the state. -/
  | looks (begun : Nat) (deadline : Option Nat)
  /-- In `osal_thread_sleep_ms` until `wakes` or later. -/
  | sleeps (begun : Nat) (deadline : Option Nat) (wakes : Nat)
  | returned (begun ended : Nat) (code : ErrorCode)
  deriving DecidableEq

structure FlushState where
  time : Nat
  handle : Handle
  flusher : Flusher

inductive FlushAction
  | tick (us : Nat)
  | others (handle : Handle)
  | call
  /-- The loop makes a turn, or its sleep ends. -/
  | go

namespace FlushState

variable {w : Nat}

/-- A flush is called: up to its loop. -/
def call (s : FlushState) (periodUs : Nat) (timeout : Tick w) : FlushState :=
  if ! s.handle.valid then { s with flusher := .returned s.time s.time .notInitialized }
  else
    let deadline := (ticksToDuration periodUs timeout).map (fun ms => clockMs s.time + ms)
    { s with flusher := .looks s.time deadline }

/-- What the loop does that finds the item not idle. -/
def poll (s : FlushState) (w periodUs begun : Nat) (deadline : Option Nat) : FlushState :=
  let wakes := s.time + pollInterval w periodUs * 1000
  match deadline with
  | none => { s with flusher := .sleeps begun none wakes }
  | some d =>
      if remainingTicksUntil w periodUs d (clockMs s.time) = noWait then
        { s with flusher := .returned begun s.time .timeout }
      else { s with flusher := .sleeps begun (some d) wakes }

/-- A turn of the loop. -/
def look (s : FlushState) (w periodUs begun : Nat) (deadline : Option Nat) : FlushState :=
  if s.handle.stateIs .idle then
    let r := s.handle.consumeDispatchError
    { s with handle := r.2, flusher := .returned begun s.time r.1 }
  else s.poll w periodUs begun deadline

def step (periodUs : Nat) (timeout : Tick w) (s : FlushState) : FlushAction → Option FlushState
  | .tick us => some { s with time := s.time + us }
  | .others handle =>
      if handle.dispatchError = .timeout then none else some { s with handle := handle }
  | .call =>
      match s.flusher with
      | .outside => some (s.call periodUs timeout)
      | _ => none
  | .go =>
      match s.flusher with
      | .looks begun deadline => some (s.look w periodUs begun deadline)
      | .sleeps begun deadline wakes =>
          if wakes ≤ s.time then some { s with flusher := .looks begun deadline } else none
      | _ => none

end FlushState

/-- One flush with this timeout. -/
def flushMachine {w : Nat} (periodUs : Nat) (timeout : Tick w) :
    Machine FlushState FlushAction where
  init := ⟨0, CDelayable.fresh, .outside⟩
  step := FlushState.step periodUs timeout

variable {w periodUs : Nat} {timeout : Tick w} {s s' : FlushState}

/-- A flush that has timed out took its timeout. -/
def FlushState.Honest (periodUs : Nat) (timeout : Tick w) (s : FlushState) : Prop :=
  ∀ begun ended, s.flusher = .returned begun ended .timeout →
    LastsFor periodUs timeout begun ended

/-! ### The deadline -/

/-- What a flush knows of the time. -/
def Flusher.Timed (periodUs : Nat) (timeout : Tick w) : Flusher → Prop
  | .outside => True
  | .looks begun deadline | .sleeps begun deadline _ =>
      deadline = some (clockMs begun + ticksToMs periodUs timeout)
  | .returned begun ended code =>
      code = .timeout → clockMs begun + ticksToMs periodUs timeout ≤ clockMs ended

/-- The invariant of a flush with a finite timeout. -/
structure FlushTimed (periodUs : Nat) (timeout : Tick w) (s : FlushState) : Prop where
  flusher : s.flusher.Timed periodUs timeout
  error : s.handle.dispatchError ≠ .timeout

theorem flushTimed_poll (hw : 16 ≤ w) (hperiod : 0 < periodUs) {begun : Nat}
    (h : FlushTimed periodUs timeout s) :
    FlushTimed periodUs timeout
      (s.poll w periodUs begun (some (clockMs begun + ticksToMs periodUs timeout))) := by
  unfold FlushState.poll
  dsimp only
  split
  case isTrue hnone =>
    exact ⟨fun _ => (remainingTicksUntil_eq_noWait_iff hw hperiod).mp hnone, h.error⟩
  case isFalse => exact ⟨rfl, h.error⟩

theorem flushTimed_look (hw : 16 ≤ w) (hperiod : 0 < periodUs) {begun : Nat}
    {deadline : Option Nat} (hlooks : s.flusher = .looks begun deadline)
    (h : FlushTimed periodUs timeout s) :
    FlushTimed periodUs timeout (s.look w periodUs begun deadline) := by
  have hdeadline := h.flusher
  rw [hlooks] at hdeadline
  obtain rfl : deadline = some (clockMs begun + ticksToMs periodUs timeout) := hdeadline
  unfold FlushState.look
  split
  case isTrue =>
    -- the error that is consumed is no timeout
    unfold Handle.consumeDispatchError
    split
    case isTrue => exact ⟨fun hcode => absurd hcode h.error, nofun⟩
    case isFalse => exact ⟨fun hcode => (nomatch hcode), h.error⟩
  case isFalse => exact flushTimed_poll hw hperiod h

theorem flushTimed_step (hw : 16 ≤ w) (hperiod : 0 < periodUs) (htimeout : timeout ≠ waitForever)
    {a : FlushAction} (h : FlushTimed periodUs timeout s)
    (hs : s.step periodUs timeout a = some s') : FlushTimed periodUs timeout s' := by
  cases a with
  | tick us =>
      obtain rfl := Option.some.inj hs
      exact ⟨h.flusher, h.error⟩
  | others handle =>
      dsimp only [FlushState.step] at hs
      split at hs
      case isTrue => cases hs
      case isFalse herror =>
        obtain rfl := Option.some.inj hs
        exact ⟨h.flusher, herror⟩
  | call =>
      dsimp only [FlushState.step] at hs
      split at hs
      case h_1 =>
        obtain rfl := Option.some.inj hs
        unfold FlushState.call
        split
        case isTrue => exact ⟨fun hcode => (nomatch hcode), h.error⟩
        case isFalse =>
          refine ⟨?_, h.error⟩
          show (ticksToDuration periodUs timeout).map _ = _
          rw [ticksToDuration, if_neg htimeout]
          rfl
      case h_2 => cases hs
  | go =>
      dsimp only [FlushState.step] at hs
      split at hs
      case h_1 begun deadline hlooks =>
        obtain rfl := Option.some.inj hs
        exact flushTimed_look hw hperiod hlooks h
      case h_2 begun deadline wakes hsleeps =>
        split at hs
        case isTrue =>
          obtain rfl := Option.some.inj hs
          have htimed := h.flusher
          rw [hsleeps] at htimed
          exact ⟨htimed, h.error⟩
        case isFalse => cases hs
      case h_3 => cases hs

theorem flush_honest (hw : 16 ≤ w) (hperiod : 0 < periodUs) (htimeout : timeout ≠ waitForever)
    (hfull : FullMs periodUs timeout) (hs : (flushMachine periodUs timeout).Reachable s) :
    s.Honest periodUs timeout := by
  have hinit : FlushTimed periodUs timeout (flushMachine periodUs timeout).init :=
    ⟨trivial, fun hcode => nomatch hcode⟩
  have htimed : FlushTimed periodUs timeout s := Machine.Reachable.invariant hinit
    (fun s a s' _ h hstep => flushTimed_step hw hperiod htimeout h hstep) hs
  intro begun ended hreturned
  have hover := htimed.flusher
  rw [hreturned] at hover
  exact lastsFor_of_deadline hfull (hover rfl)

/-! ### A flush that looks at its deadline -/

theorem pollInterval_eq (hw : 16 ≤ w) (periodUs : Nat) :
    pollInterval w periodUs = max (periodUs % 2 ^ 64 / 1000) 1 := by
  have htick : ticksToMs periodUs (1 : Tick w) = periodUs % 2 ^ 64 / 1000 := by
    have hone : (1 : Tick w).toNat = 1 := BitVec.toNat_one (by omega)
    rw [ticksToMs, hone, Nat.one_mul]
  unfold pollInterval
  rw [htick]
  dsimp only
  split <;> omega

/-- A sleep does not make up for what a timeout has lost in its conversion. -/
theorem sleep_early (hw : 16 ≤ w) (hlost : ¬ FullMs periodUs timeout)
    (hleft : 0 < ticksToMs periodUs timeout) :
    max (ticksToMs periodUs timeout) (pollInterval w periodUs) * 1000 <
      timeout.toNat * periodUs := by
  have hshort : ticksToMs periodUs timeout * 1000 < timeout.toNat * periodUs :=
    not_le.mp (mt ticksToMs_eq_iff.mp hlost)
  have hpoll := pollInterval_eq hw periodUs
  rcases le_or_gt (2 ^ 64) (timeout.toNat * periodUs) with hbig | hsmall
  · -- the product has wrapped, and a sleep is shorter than a turn
    have hdiv := Nat.div_mul_le_self (periodUs % 2 ^ 64) 1000
    have hsleep : pollInterval w periodUs * 1000 < 2 ^ 64 := by
      rcases max_choice (periodUs % 2 ^ 64 / 1000) 1 with heq | heq
      · rw [hpoll, heq]
        exact hdiv.trans_lt (Nat.mod_lt _ (Nat.two_pow_pos 64))
      · rw [hpoll, heq]
        decide
    rcases max_choice (ticksToMs periodUs timeout) (pollInterval w periodUs) with heq | heq
    · rw [heq]
      exact hshort
    · rw [heq]
      exact hsleep.trans_le hbig
  · have hpos : 0 < timeout.toNat := by
      by_contra hzero
      rw [Nat.eq_zero_of_not_pos hzero, Nat.zero_mul] at hshort
      exact Nat.not_lt_zero _ hshort
    have hle : periodUs ≤ timeout.toNat * periodUs := Nat.le_mul_of_pos_left _ hpos
    have hms : ticksToMs periodUs timeout = timeout.toNat * periodUs / 1000 := by
      rw [ticksToMs, Nat.mod_eq_of_lt hsmall]
    have hdiv : periodUs / 1000 ≤ ticksToMs periodUs timeout := by
      rw [hms]
      exact Nat.div_le_div_right hle
    rw [Nat.mod_eq_of_lt (hle.trans_lt hsmall)] at hpoll
    have hmax : pollInterval w periodUs ≤ ticksToMs periodUs timeout := by
      rw [hpoll]
      exact max_le hdiv hleft
    rw [Nat.max_eq_left hmax]
    exact hshort

/-- An item that is armed. -/
def armedItem : Handle := { CDelayable.fresh with state := 1 }

theorem look_armed (time begun deadline : Nat) (flusher : Flusher) :
    FlushState.look ⟨time, armedItem, flusher⟩ w periodUs begun (some deadline) =
      if remainingTicksUntil w periodUs deadline (clockMs time) = noWait then
        ⟨time, armedItem, .returned begun time .timeout⟩
      else
        ⟨time, armedItem, .sleeps begun (some deadline)
          (time + pollInterval w periodUs * 1000)⟩ := by
  have hbusy : ¬ armedItem.stateIs .idle = true := by decide
  unfold FlushState.look
  rw [if_neg hbusy]
  rfl

theorem call_armed (htimeout : timeout ≠ waitForever) :
    FlushState.call ⟨0, armedItem, .outside⟩ periodUs timeout =
      ⟨0, armedItem, .looks 0 (some (ticksToMs periodUs timeout))⟩ := by
  unfold FlushState.call
  rw [if_neg (by decide), ticksToDuration, if_neg htimeout]
  dsimp only
  rw [Option.map_some, clockMs, Nat.zero_div, Nat.zero_add]

/-- The flush is called at time 0, for an item that is armed. -/
def flushed : List FlushAction := [FlushAction.others armedItem, FlushAction.call]

/-- A timeout that loses something in its conversion is not waited for by a flush that looks at
its item when the deadline has come. -/
theorem flush_early (hw : 16 ≤ w) (hperiod : 0 < periodUs) (htimeout : timeout ≠ waitForever)
    (hlost : ¬ FullMs periodUs timeout) :
    ∃ s, (flushMachine periodUs timeout).Reachable s ∧ ¬ s.Honest periodUs timeout := by
  let M := flushMachine periodUs timeout
  let deadline := ticksToMs periodUs timeout
  have hcalled : M.Reachable ⟨0, armedItem, .looks 0 (some deadline)⟩ := by
    have hrun : M.run M.init flushed =
        some (FlushState.call ⟨0, armedItem, .outside⟩ periodUs timeout) := rfl
    rw [call_armed htimeout] at hrun
    exact .of_run hrun
  have hearly : ∀ ended, clockMs ended * 1000 < timeout.toNat * periodUs →
      ¬ FlushState.Honest periodUs timeout ⟨ended, armedItem, .returned 0 ended .timeout⟩ := by
    intro ended hshort hhonest
    have hlasts := hhonest 0 ended rfl
    rw [LastsFor, clockMs, clockMs, Nat.zero_div, Nat.sub_zero] at hlasts
    exact absurd hlasts (not_le.mpr hshort)
  have hlook : ∀ time, M.step ⟨time, armedItem, .looks 0 (some deadline)⟩ .go = some
      (if remainingTicksUntil w periodUs deadline (clockMs time) = noWait then
        ⟨time, armedItem, .returned 0 time .timeout⟩
      else
        ⟨time, armedItem, .sleeps 0 (some deadline)
          (time + pollInterval w periodUs * 1000)⟩) := by
    intro time
    exact congrArg some (look_armed ..)
  by_cases hnone : remainingTicksUntil w periodUs deadline (clockMs 0) = noWait
  · have hstep := hlook 0
    rw [if_pos hnone] at hstep
    have hover := (remainingTicksUntil_eq_noWait_iff hw hperiod).mp hnone
    refine ⟨_, .step hcalled trivial hstep, hearly 0 ?_⟩
    have hshort := not_le.mp (mt ticksToMs_eq_iff.mp hlost)
    exact (Nat.mul_le_mul_right 1000 (Nat.zero_le _)).trans_lt hshort
  · have hleft : 0 < deadline := by
      have := mt (remainingTicksUntil_eq_noWait_iff hw hperiod).mpr hnone
      exact Nat.pos_of_ne_zero fun hzero => this (hzero.trans_le (Nat.zero_le _))
    let ms := max deadline (pollInterval w periodUs)
    let ended := 0 + ms * 1000
    have hended : clockMs ended = ms := by
      show (0 + ms * 1000) / 1000 = ms
      rw [Nat.zero_add, Nat.mul_div_cancel _ (by decide)]
    have hslept : M.Reachable ⟨ended, armedItem, .looks 0 (some deadline)⟩ := by
      have hsleeps := hlook 0
      rw [if_neg hnone] at hsleeps
      have hwakes : 0 + pollInterval w periodUs * 1000 ≤ ended :=
        Nat.add_le_add_left (Nat.mul_le_mul_right _ (le_max_right _ _)) _
      exact .step (a := .go) (.step (a := .tick (ms * 1000)) (.step hcalled trivial hsleeps) trivial
        rfl) trivial (if_pos hwakes)
    have hstep := hlook ended
    have hover : deadline ≤ clockMs ended := by
      rw [hended]
      exact le_max_left _ _
    rw [if_pos ((remainingTicksUntil_eq_noWait_iff hw hperiod).mpr hover)] at hstep
    refine ⟨_, .step hslept trivial hstep, hearly ended ?_⟩
    rw [hended]
    exact sleep_early hw hlost hleft

/-! ### Both waits -/

/-- Every wait and every flush with this timeout that times out took its timeout, by the
monotonic clock. -/
structure WaitsHonest (periodUs : Nat) (timeout : Tick w) : Prop where
  wait : ∀ (args : WaitArgs) (s : WaitState w), (waitMachine periodUs args timeout).Reachable s →
    s.Honest periodUs timeout
  flush : ∀ s, (flushMachine periodUs timeout).Reachable s → s.Honest periodUs timeout

/-- The timed waits of the C interface do not time out early exactly when the timeout is a number
of full milliseconds whose microseconds fit in 64 bits; and this is so of each of them. -/
theorem cWaits_honest {w periodUs : Nat} {timeout : Tick w} (hw : 16 ≤ w) (hperiod : 0 < periodUs)
    (htimeout : timeout ≠ waitForever) :
    (WaitsHonest periodUs timeout ↔ FullMs periodUs timeout) ∧
      ((∀ s, (waitMachine periodUs plainArgs timeout).Reachable s → s.Honest periodUs timeout) ↔
        FullMs periodUs timeout) ∧
      ((∀ s, (flushMachine periodUs timeout).Reachable s → s.Honest periodUs timeout) ↔
        FullMs periodUs timeout) := by
  have hwait : ∀ args, FullMs periodUs timeout →
      ∀ s, (waitMachine periodUs args timeout).Reachable s → s.Honest periodUs timeout :=
    fun args hfull s hs => wait_honest hw hperiod htimeout hfull hs
  have hflush : FullMs periodUs timeout →
      ∀ s, (flushMachine periodUs timeout).Reachable s → s.Honest periodUs timeout :=
    fun hfull s hs => flush_honest hw hperiod htimeout hfull hs
  have hwait' : (∀ s, (waitMachine periodUs plainArgs timeout).Reachable s →
      s.Honest periodUs timeout) → FullMs periodUs timeout := by
    intro hall
    by_contra hlost
    obtain ⟨s, hs, hnot⟩ := wait_early hw hperiod htimeout hlost
    exact hnot (hall s hs)
  have hflush' : (∀ s, (flushMachine periodUs timeout).Reachable s →
      s.Honest periodUs timeout) → FullMs periodUs timeout := by
    intro hall
    by_contra hlost
    obtain ⟨s, hs, hnot⟩ := flush_early hw hperiod htimeout hlost
    exact hnot (hall s hs)
  exact ⟨⟨fun h => hflush' h.flush, fun h => ⟨fun args => hwait args h, hflush h⟩⟩,
    ⟨hwait', hwait plainArgs⟩, ⟨hflush', hflush⟩⟩

/-- Ticks of a millisecond. -/
theorem cWaits_honest_ms : WaitsHonest 1000 (5 : Tick 32) :=
  (cWaits_honest (by decide) (by decide) (by decide)).1.mpr ⟨⟨5, rfl⟩, by decide⟩

/-- Ticks of 1500 microseconds: a wait for three of them times out after 4 ms, when it is woken
then. -/
theorem cWaits_early :
    ∃ s : WaitState 32, (waitMachine 1500 plainArgs (3 : Tick 32)).Reachable s ∧
      s.waiter = .returned 0 4000 .timeout ∧ ¬ s.Honest 1500 (3 : Tick 32) := by
  have hrun : ((waitMachine 1500 plainArgs (3 : Tick 32)).run
      (waitMachine 1500 plainArgs (3 : Tick 32)).init
        (entered ++ woken 1500 (3 : Tick 32))).map WaitState.waiter =
      some (.returned 0 4000 .timeout) := by decide +kernel
  obtain ⟨s, hs, hwaiter⟩ := Option.map_eq_some_iff.mp hrun
  refine ⟨s, .of_run hs, hwaiter, fun hhonest => ?_⟩
  have hlasts := hhonest 0 4000 hwaiter
  exact absurd hlasts (by unfold LastsFor clockMs; decide)

end MicrOsal.CWait
