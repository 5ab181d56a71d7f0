import MicrOsal.CWait.Deadline
import MicrOsal.Notification.Model

/-!
# MicrOsal.CWait.Notification

The time of `osal_c_notification_wait`: one wait, from its call to its return, while other calls
do with the handle what they like.

A region under the mutex is one step. A wait on the condition variable ends whenever it likes
with anything but `timeout`, and with `timeout` only after the ticks it was given.
-/

namespace MicrOsal.CWait

open MicrOsal.Notification (Handle WaitArgs Outcome)

/-- What a timeout in ticks is for the wait. -/
def timeoutKind {w : Nat} (timeout : Tick w) : Notification.Timeout :=
  if timeout = waitForever then .forever else if timeout = noWait then .noWait else .timed

/-- How far the wait is; with the times at which it was called, and at which it has looked at
the clock. -/
inductive Waiter (w : Nat)
  | outside
  /-- About to get the mutex. -/
  | called (begun : Nat)
  /-- On the condition variable, for `remaining` ticks. -/
  | blocked (begun deadline since : Nat) (remaining : Tick w)
  | returned (begun ended : Nat) (code : ErrorCode)
  deriving DecidableEq

structure WaitState (w : Nat) where
  time : Nat
  handle : Handle
  waiter : Waiter w

inductive WaitAction
  | tick (us : Nat)
  /-- Other calls leave the handle as it is then. -/
  | others (handle : Handle)
  | call
  /-- The wait gets the mutex; `lag` microseconds pass between its two looks at the clock. -/
  | enter (lag : Nat)
  /-- The wait on the condition variable returns `rc`, with the mutex. -/
  | wake (rc : ErrorCode)

namespace WaitState

variable {w : Nat}

/-- The wait goes on as `r` says, with the deadline as it is. -/
def settle (s : WaitState w) (begun deadline : Nat) (remaining : Tick w) (r : Outcome × Handle) :
    WaitState w :=
  match r.1 with
  | .returned code _ => { s with handle := r.2, waiter := .returned begun s.time code }
  | .blocked => { s with handle := r.2, waiter := .blocked begun deadline s.time remaining }

/-- The wait has the mutex: up to its first wait on the condition variable. -/
def enter (s : WaitState w) (periodUs : Nat) (args : WaitArgs) (timeout : Tick w)
    (begun lag : Nat) : WaitState w :=
  let deadline := deadlineOf periodUs timeout s.time
  let s := { s with time := s.time + lag }
  let remaining := remainingTicksUntil w periodUs deadline (clockMs s.time)
  let args := { args with timeout := timeoutKind timeout }
  s.settle begun deadline remaining (s.handle.start args (remaining = noWait))

/-- A wait on the condition variable has returned. -/
def wake (s : WaitState w) (periodUs : Nat) (args : WaitArgs) (timeout : Tick w)
    (begun deadline : Nat) (rc : ErrorCode) : WaitState w :=
  let remaining := remainingTicksUntil w periodUs deadline (clockMs s.time)
  let args := { args with timeout := timeoutKind timeout }
  s.settle begun deadline remaining (s.handle.resume args rc (remaining = noWait))

def step (periodUs : Nat) (args : WaitArgs) (timeout : Tick w) (s : WaitState w) :
    WaitAction → Option (WaitState w)
  | .tick us => some { s with time := s.time + us }
  | .others handle => some { s with handle := handle }
  | .call =>
      match s.waiter with
      | .outside => some { s with waiter := .called s.time }
      | _ => none
  | .enter lag =>
      match s.waiter with
      | .called begun => some (s.enter periodUs args timeout begun lag)
      | _ => none
  | .wake rc =>
      match s.waiter with
      | .blocked begun deadline since remaining =>
          if rc = .timeout ∧ s.time < since + remaining.toNat * periodUs then none
          else some (s.wake periodUs args timeout begun deadline rc)
      | _ => none

end WaitState

/-- One wait with these arguments and this timeout. -/
def waitMachine {w : Nat} (periodUs : Nat) (args : WaitArgs) (timeout : Tick w) :
    Machine (WaitState w) WaitAction where
  init := ⟨0, .empty, .outside⟩
  step := WaitState.step periodUs args timeout

/-- A wait that has timed out took its timeout. -/
def WaitState.Honest {w : Nat} (periodUs : Nat) (timeout : Tick w) (s : WaitState w) : Prop :=
  ∀ begun ended, s.waiter = .returned begun ended .timeout →
    LastsFor periodUs timeout begun ended

variable {w periodUs : Nat} {timeout : Tick w} {args : WaitArgs} {s s' : WaitState w}

/-! ### When a wait times out -/

theorem finish_ne_timeout (h : Handle) (a : WaitArgs) (value : Option (BitVec 32)) :
    (h.finish a).1 ≠ .returned .timeout value := fun heq => nomatch heq

theorem indexError_ne_timeout (h : Handle) : h.indexError ≠ .timeout := by
  unfold Handle.indexError
  split <;> nofun

/-- A wait that times out before it waits finds its deadline over. -/
theorem expired_of_start {h : Handle} {a : WaitArgs} {clock : Bool}
    {value : Option (BitVec 32)} (hr : (h.start a clock).1 = .returned .timeout value) :
    a.expired clock = true := by
  unfold Handle.start at hr
  split at hr
  case isTrue => exact absurd (Outcome.returned.inj hr).1 (indexError_ne_timeout h)
  case isFalse =>
    dsimp only at hr
    split at hr
    case isTrue => exact (finish_ne_timeout _ _ _ hr).elim
    case isFalse =>
      split at hr
      case isTrue => cases hr
      case isFalse =>
        split at hr
        case isTrue hexpired => exact hexpired
        case isFalse => cases hr

/-- A wait that times out after it has waited was woken by the time, or finds its deadline
over. -/
theorem expired_of_resume {h : Handle} {a : WaitArgs} {rc : ErrorCode} {clock : Bool}
    {value : Option (BitVec 32)} (hfinite : a.timeout ≠ .forever)
    (hr : (h.resume a rc clock).1 = .returned .timeout value) :
    rc = .timeout ∨ a.expired clock = true := by
  unfold Handle.resume at hr
  rw [if_neg hfinite] at hr
  split at hr
  case isTrue htimeout => exact .inl htimeout.1
  case isFalse =>
    split at hr
    case isTrue hcode => exact absurd (Outcome.returned.inj hr).1 hcode.2
    case isFalse =>
      split at hr
      case isTrue => exact (finish_ne_timeout _ _ _ hr).elim
      case isFalse =>
        split at hr
        case isTrue hexpired => exact .inr hexpired
        case isFalse => cases hr

theorem timeoutKind_ne_forever (h : timeout ≠ waitForever) : timeoutKind timeout ≠ .forever := by
  unfold timeoutKind
  rw [if_neg h]
  split <;> nofun

/-- The deadline of a wait with `NO_WAIT` is over when it is set. -/
theorem expired_iff (args : WaitArgs) (hw : 16 ≤ w) (hperiod : 0 < periodUs) {deadline now : Nat}
    (hset : timeout = noWait → deadline ≤ now)
    (h : ({ args with timeout := timeoutKind timeout } : WaitArgs).expired
      (decide (remainingTicksUntil w periodUs deadline now = noWait)) = true) : deadline ≤ now := by
  rcases (Bool.or_eq_true _ _).mp h with hkind | hover
  · have hnoWait : timeoutKind timeout = .noWait := of_decide_eq_true hkind
    unfold timeoutKind at hnoWait
    split at hnoWait
    · cases hnoWait
    · split at hnoWait
      case isTrue heq => exact hset heq
      case isFalse => cases hnoWait
  · exact (remainingTicksUntil_eq_noWait_iff hw hperiod).mp (of_decide_eq_true hover)

/-! ### The deadline -/

/-- A deadline that a wait called at `begun` has set, and that is not further than its timeout
from `time`. -/
structure IsSet (periodUs : Nat) (timeout : Tick w) (begun deadline time : Nat) : Prop where
  begun : clockMs begun + ticksToMs periodUs timeout ≤ deadline
  near : deadline ≤ clockMs time + ticksToMs periodUs timeout
  noWait : timeout = noWait → deadline ≤ clockMs time

theorem IsSet.later {begun deadline time time' : Nat}
    (h : IsSet periodUs timeout begun deadline time) (hle : time ≤ time') :
    IsSet periodUs timeout begun deadline time' :=
  ⟨h.begun, h.near.trans (Nat.add_le_add_right (clockMs_mono hle) _),
    fun hnone => (h.noWait hnone).trans (clockMs_mono hle)⟩

/-- What a wait knows of the time. -/
def Waiter.Timed (periodUs : Nat) (timeout : Tick w) (time : Nat) : Waiter w → Prop
  | .outside => True
  | .called begun => begun ≤ time
  | .blocked begun deadline since remaining =>
      IsSet periodUs timeout begun deadline since ∧ since ≤ time ∧
        ∀ t, since + remaining.toNat * periodUs ≤ t → deadline ≤ clockMs t
  | .returned begun ended code =>
      code = .timeout → clockMs begun + ticksToMs periodUs timeout ≤ clockMs ended

theorem Waiter.Timed.later {waiter : Waiter w} {time time' : Nat}
    (h : waiter.Timed periodUs timeout time) (hle : time ≤ time') :
    waiter.Timed periodUs timeout time' := by
  cases waiter with
  | outside => trivial
  | called begun => exact Nat.le_trans h hle
  | blocked begun deadline since remaining => exact ⟨h.1, h.2.1.trans hle, h.2.2⟩
  | returned begun ended code => exact h

section Steps

variable (hw : 16 ≤ w) (hperiod : 0 < periodUs) (htimeout : timeout ≠ waitForever)
include hw hperiod htimeout

/-- A wait goes on: it may time out only when its deadline is over. -/
theorem timed_settle {begun deadline : Nat} {r : Outcome × Handle}
    (hset : IsSet periodUs timeout begun deadline s.time)
    (hover : ∀ value, r.1 = .returned .timeout value → deadline ≤ clockMs s.time) :
    (s.settle begun deadline
      (remainingTicksUntil w periodUs deadline (clockMs s.time)) r).waiter.Timed
        periodUs timeout s.time := by
  unfold WaitState.settle
  split
  case h_1 code value hreturned =>
    intro hcode
    subst hcode
    exact hset.begun.trans (hover value hreturned)
  case h_2 =>
    exact ⟨hset, le_rfl, fun t ht => deadline_le_of_remaining hw hperiod htimeout hset.near ht⟩

theorem timed_enter (args : WaitArgs) {begun : Nat} (lag : Nat) (hbegun : begun ≤ s.time) :
    (s.enter periodUs args timeout begun lag).waiter.Timed periodUs timeout (s.time + lag) := by
  have hset : IsSet periodUs timeout begun (deadlineOf periodUs timeout s.time) s.time := by
    refine ⟨Nat.add_le_add_right (clockMs_mono hbegun) _, le_rfl, fun hnone => ?_⟩
    have hzero : ticksToMs periodUs timeout = 0 := by
      rw [hnone, ticksToMs, show (noWait : Tick w).toNat = 0 from BitVec.toNat_zero, Nat.zero_mul]
      rfl
    rw [deadlineOf, hzero, Nat.add_zero]
  have hset' := hset.later (Nat.le_add_right s.time lag)
  exact timed_settle (s := { s with time := s.time + lag }) hw hperiod htimeout hset'
    (fun value hr => expired_iff args hw hperiod hset'.noWait (expired_of_start hr))

theorem timed_wake (args : WaitArgs) {begun deadline since : Nat} {remaining : Tick w}
    {rc : ErrorCode}
    (h : (Waiter.blocked begun deadline since remaining).Timed periodUs timeout s.time)
    (hwake : ¬ (rc = .timeout ∧ s.time < since + remaining.toNat * periodUs)) :
    (s.wake periodUs args timeout begun deadline rc).waiter.Timed periodUs timeout s.time := by
  obtain ⟨hset, hsince, hover⟩ := h
  have hset' := hset.later hsince
  refine timed_settle hw hperiod htimeout hset' (fun value hr => ?_)
  rcases expired_of_resume (timeoutKind_ne_forever htimeout) hr with htimed | hexpired
  · exact hover _ (not_lt.mp (fun hlt => hwake ⟨htimed, hlt⟩))
  · exact expired_iff args hw hperiod hset'.noWait hexpired

theorem timed_step {a : WaitAction} (h : s.waiter.Timed periodUs timeout s.time)
    (hs : s.step periodUs args timeout a = some s') :
    s'.waiter.Timed periodUs timeout s'.time := by
  cases a with
  | tick us =>
      obtain rfl := Option.some.inj hs
      exact h.later (Nat.le_add_right _ _)
  | others handle =>
      obtain rfl := Option.some.inj hs
      exact h
  | call =>
      dsimp only [WaitState.step] at hs
      split at hs
      case h_1 =>
        obtain rfl := Option.some.inj hs
        exact Nat.le_refl _
      case h_2 => cases hs
  | enter lag =>
      dsimp only [WaitState.step] at hs
      split at hs
      case h_1 begun hcalled =>
        obtain rfl := Option.some.inj hs
        rw [hcalled] at h
        have hentered := timed_enter hw hperiod htimeout args lag h
        refine hentered.later (Nat.le_of_eq ?_)
        unfold WaitState.enter WaitState.settle
        dsimp only
        split <;> rfl
      case h_2 => cases hs
  | wake rc =>
      dsimp only [WaitState.step] at hs
      split at hs
      case h_1 begun deadline since remaining hblocked =>
        split at hs
        case isTrue => cases hs
        case isFalse hwake =>
          obtain rfl := Option.some.inj hs
          rw [hblocked] at h
          have hwoken := timed_wake hw hperiod htimeout args h hwake
          refine hwoken.later (Nat.le_of_eq ?_)
          unfold WaitState.wake WaitState.settle
          dsimp only
          split <;> rfl
      case h_2 => cases hs

/-- A timeout that is a number of full milliseconds is waited for. -/
theorem wait_honest (hfull : FullMs periodUs timeout)
    (hs : (waitMachine periodUs args timeout).Reachable s) : s.Honest periodUs timeout := by
  have htimed : s.waiter.Timed periodUs timeout s.time :=
    Machine.Reachable.invariant (I := fun s => s.waiter.Timed periodUs timeout s.time) trivial
      (fun s a s' _ h hstep => timed_step hw hperiod htimeout h hstep) hs
  intro begun ended hreturned
  rw [hreturned] at htimed
  exact lastsFor_of_deadline hfull (htimed rfl)

end Steps

/-! ### A wait that is woken at its deadline -/

/-- A wait on slot 0 that clears nothing. -/
def plainArgs : WaitArgs := ⟨0, .timed, false, 0, 0⟩

/-- A handle with one slot, on which nothing is pending. -/
def oneSlot : Handle := ⟨[0], [0], 1, 1, rfl, rfl⟩

/-- The wait is called at time 0. -/
def entered : List WaitAction := [WaitAction.others oneSlot, WaitAction.call, WaitAction.enter 0]

/-- It is woken without a notification when its deadline comes. -/
def woken (periodUs : Nat) (timeout : Tick w) : List WaitAction :=
  [WaitAction.tick (ticksToMs periodUs timeout * 1000), WaitAction.wake .ok]

theorem start_oneSlot {kind : Notification.Timeout} (hkind : kind ≠ .forever) (clock : Bool) :
    oneSlot.start { plainArgs with timeout := kind } clock =
      (if decide (kind = .noWait) || clock then .returned .timeout none else .blocked,
        oneSlot) := by
  cases kind with
  | forever => exact absurd rfl hkind
  | noWait => rfl
  | timed => cases clock <;> rfl

theorem resume_oneSlot {kind : Notification.Timeout} (hkind : kind ≠ .forever) :
    oneSlot.resume { plainArgs with timeout := kind } .ok true =
      (.returned .timeout none, oneSlot) := by
  cases kind with
  | forever => exact absurd rfl hkind
  | noWait => rfl
  | timed => rfl

theorem settle_returned {begun deadline : Nat} {remaining : Tick w} {r : Outcome × Handle}
    {code : ErrorCode} {value : Option (BitVec 32)} (h : r.1 = .returned code value) :
    s.settle begun deadline remaining r =
      { s with handle := r.2, waiter := .returned begun s.time code } := by
  unfold WaitState.settle
  rw [h]

theorem settle_blocked {begun deadline : Nat} {remaining : Tick w} {r : Outcome × Handle}
    (h : r.1 = .blocked) : s.settle begun deadline remaining r =
      { s with handle := r.2, waiter := .blocked begun deadline s.time remaining } := by
  unfold WaitState.settle
  rw [h]

/-- A timeout that loses something in its conversion is not waited for by a wait that is woken
at its deadline. -/
theorem wait_early (hw : 16 ≤ w) (hperiod : 0 < periodUs) (htimeout : timeout ≠ waitForever)
    (hlost : ¬ FullMs periodUs timeout) :
    ∃ s, (waitMachine periodUs plainArgs timeout).Reachable s ∧ ¬ s.Honest periodUs timeout := by
  have hkind := timeoutKind_ne_forever htimeout
  have hearly : ∀ ended, clockMs ended = ticksToMs periodUs timeout →
      ¬ LastsFor periodUs timeout 0 ended := by
    intro ended hended hlasts
    refine hlost (ticksToMs_eq_iff.mp ?_)
    rw [LastsFor, hended] at hlasts
    simpa [clockMs] using hlasts
  let called : WaitState w := ⟨0, oneSlot, .called 0⟩
  let deadline := deadlineOf periodUs timeout 0
  have hdeadline : deadline = ticksToMs periodUs timeout := Nat.zero_add _
  let remaining := remainingTicksUntil w periodUs deadline (clockMs 0)
  have hstart := start_oneSlot hkind (decide (remaining = noWait))
  have henter : (waitMachine periodUs plainArgs timeout).run ⟨0, .empty, .outside⟩ entered =
      some (called.settle 0 deadline remaining
        (oneSlot.start { plainArgs with timeout := timeoutKind timeout }
          (decide (remaining = noWait)))) := by
    simp only [Machine.run, entered, waitMachine, WaitState.step, Option.bind_some,
      WaitState.enter, Nat.add_zero]
    rfl
  cases hover : decide (timeoutKind timeout = .noWait) || decide (remaining = noWait) with
  | true =>
      -- nothing is left of the timeout
      rw [hover, if_pos rfl] at hstart
      have hnone : deadline ≤ 0 := by
        refine expired_iff plainArgs hw hperiod (fun hnoWait => ?_) hover
        rw [hdeadline, hnoWait, ticksToMs, show (noWait : Tick w).toNat = 0 from BitVec.toNat_zero,
          Nat.zero_mul]
        exact Nat.le_refl 0
      have hrun : (waitMachine periodUs plainArgs timeout).run ⟨0, .empty, .outside⟩ entered =
          some { called with waiter := .returned 0 0 .timeout } := by
        rw [henter, settle_returned (congrArg Prod.fst hstart), hstart]
      refine ⟨_, .of_run hrun, fun hhonest => hearly 0 ?_ (hhonest 0 0 rfl)⟩
      show 0 = ticksToMs periodUs timeout
      omega
  | false =>
      rw [hover, if_neg (by decide)] at hstart
      let blocked : WaitState w := { called with waiter := .blocked 0 deadline 0 remaining }
      let due : WaitState w := { blocked with time := 0 + ticksToMs periodUs timeout * 1000 }
      have hdue : clockMs due.time = ticksToMs periodUs timeout := by
        show (0 + ticksToMs periodUs timeout * 1000) / 1000 = ticksToMs periodUs timeout
        omega
      have hrun : (waitMachine periodUs plainArgs timeout).run ⟨0, .empty, .outside⟩ entered =
          some blocked := by
        rw [henter, settle_blocked (congrArg Prod.fst hstart), hstart]
      have hleft : remainingTicksUntil w periodUs deadline (clockMs due.time) = noWait :=
        (remainingTicksUntil_eq_noWait_iff hw hperiod).mpr (by omega)
      have hwoken : (waitMachine periodUs plainArgs timeout).run blocked
          (woken periodUs timeout) = some { due with waiter := .returned 0 due.time .timeout } := by
        show some (due.wake periodUs plainArgs timeout 0 deadline .ok) = _
        have hresume := resume_oneSlot hkind
        unfold WaitState.wake
        dsimp only
        rw [hleft, decide_eq_true rfl, settle_returned (congrArg Prod.fst hresume), hresume]
      have hboth : (waitMachine periodUs plainArgs timeout).run ⟨0, .empty, .outside⟩
          (entered ++ woken periodUs timeout) =
            some { due with waiter := .returned 0 due.time .timeout } := by
        rw [Machine.run_append, hrun]
        exact hwoken
      exact ⟨_, .of_run hboth, fun hhonest => hearly _ hdue (hhonest 0 due.time rfl)⟩

end MicrOsal.CWait
