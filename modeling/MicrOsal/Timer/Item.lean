import MicrOsal.Clock
import MicrOsal.DelayableWork.Arming
import MicrOsal.Timer.Posix

/-!
# MicrOsal.Timer.Item

A delayable work item over a timer of the POSIX backend.

The model of the item leaves it open how its timer works: `DwSys.timer` says when a one-shot
timer is due, and `fire` may happen from then on. Here the calls of the item are those of the
POSIX timer, and `on_timer` is called by its watcher.
-/

namespace MicrOsal

/-! ### What the steps of an item leave alone -/

namespace DwSys

variable {s s' : DwSys}

theorem casFails_timer (s : DwSys) (c : DwCall) (expected : Option DwState) :
    (s.casFails c expected).timer = s.timer ∧ (s.casFails c expected).holder = .free := by
  unfold DwSys.casFails
  split
  · split <;> exact ⟨rfl, rfl⟩
  · exact ⟨rfl, rfl⟩

theorem stepLoad_timer (s : DwSys) (c : DwCall) :
    (s.stepLoad c).timer = s.timer ∧ ¬ (s.stepLoad c).holder.FailingStop := by
  unfold DwSys.stepLoad
  dsimp only
  split
  · split <;> exact ⟨rfl, id⟩
  · split
    · exact ⟨rfl, id⟩
    · split <;> exact ⟨rfl, id⟩
  · split <;> exact ⟨rfl, id⟩

theorem afterStore_timer (s : DwSys) (c : DwCall) (next : DwNext) :
    (s.afterStore c next).timer = s.timer ∧ ¬ (s.afterStore c next).holder.FailingStop := by
  cases next with
  | stopped =>
      simp only [DwSys.afterStore]
      split <;> exact ⟨rfl, id⟩
  | _ => exact ⟨rfl, id⟩

/-- The lock holder is about to call the timer. -/
def callsTimer : DwCaller → Bool
  | .stop .. | .armPeriod .. | .armStart .. => true
  | _ => false

/-- Only a call of the timer changes it. -/
theorem stepCaller_timer {result : Option ErrorCode} {period : Nat}
    (hs : s.stepCaller result period = some s') (hcalls : callsTimer s.holder = false) :
    s'.timer = s.timer := by
  unfold DwSys.stepCaller at hs
  cases hc : s.holder <;> rw [hc] at hs hcalls <;> dsimp only at hs
  case free => cases hs
  case load c => cases hs; exact (s.stepLoad_timer c).1
  case casLoad c => split at hs <;> cases hs <;> [rfl; exact (s.casFails_timer c _).1]
  case cas c raw => split at hs <;> cases hs <;> [rfl; exact (s.casFails_timer c _).1]
  case stop c res => cases hcalls
  case storeRaw c next raw =>
    cases hs
    exact (afterStore_timer { s with word := withState raw next.value } c next).1
  case begin => split at hs <;> cases hs <;> rfl
  case armPeriod => cases hcalls
  case armStart => cases hcalls
  case submit => split at hs <;> cases hs <;> rfl
  all_goals cases hs; rfl

/-- A `stop()` that succeeds is not followed by a restore. -/
theorem stepCaller_unfailing {result : Option ErrorCode} {period : Nat}
    (hs : s.stepCaller result period = some s') (h : ¬ s.holder.FailingStop)
    (hcas : ∀ c raw, s.holder = .cas c raw → result = none) : ¬ s'.holder.FailingStop := by
  unfold DwSys.stepCaller at hs
  cases hc : s.holder <;> rw [hc] at hs h <;> dsimp only at hs
  case free => cases hs
  case load c => cases hs; exact (s.stepLoad_timer c).2
  case casLoad c =>
    split at hs <;> cases hs <;> [exact id; skip]
    rw [(s.casFails_timer c _).2]
    exact id
  case cas c raw =>
    obtain rfl := hcas c raw hc
    split at hs <;> cases hs <;> [exact id; skip]
    rw [(s.casFails_timer c _).2]
    exact id
  case stop c res =>
    cases res with
    | none => cases hs; exact id
    | some code => exact absurd trivial h
  case store c next =>
    cases hs
    cases next <;> exact h
  case storeRaw c next raw =>
    cases hs
    exact (afterStore_timer { s with word := withState raw next.value } c next).2
  case begin => split at hs <;> cases hs <;> exact id
  case armPeriod => split at hs <;> cases hs <;> exact id
  case armStart => split at hs <;> cases hs <;> exact id
  case submit => split at hs <;> cases hs <;> exact id
  all_goals cases hs; exact id

/-- The lock holder comes to `start` with the item armed. -/
theorem stepCaller_armed {result : Option ErrorCode} {period : Nat} {c : DwCall}
    (hs : s.stepCaller result period = some s') (hstart : s'.holder = .armStart c) :
    decodeState s'.word = some .armed := by
  unfold DwSys.stepCaller at hs
  cases hc : s.holder <;> rw [hc] at hs <;> dsimp only at hs
  case free => cases hs
  case load c =>
    cases hs
    unfold DwSys.stepLoad at hstart
    dsimp only at hstart
    split at hstart
    · split at hstart <;> cases hstart
    · split at hstart
      · cases hstart
      · split at hstart <;> cases hstart
    · split at hstart <;> cases hstart
  case casLoad c =>
    split at hs <;> cases hs
    · cases hstart
    · rw [(s.casFails_timer c _).2] at hstart
      cases hstart
  case cas c raw =>
    split at hs <;> cases hs
    · cases hstart
    · rw [(s.casFails_timer c _).2] at hstart
      cases hstart
  case stop c res => cases res <;> cases hs <;> cases hstart
  case storeRaw c next raw =>
    cases hs
    cases next with
    | stopped =>
        simp only [DwSys.afterStore] at hstart
        split at hstart <;> cases hstart
    | _ => cases hstart
  case begin => split at hs <;> cases hs <;> cases hstart
  case armPeriod => split at hs <;> cases hs <;> cases hstart
  case armStore => cases hs; exact decodeState_armWord _
  case armStart => split at hs <;> cases hs <;> cases hstart
  case submit => split at hs <;> cases hs <;> cases hstart
  all_goals cases hs; cases hstart

/-- Nobody but the lock holder touches its place, and nobody but it and time the timer. -/
theorem stepExpiry_timer {i : Nat} {result : Option ErrorCode}
    (hs : s.stepExpiry i result = some s') : s'.timer = s.timer ∧ s'.holder = s.holder := by
  unfold DwSys.stepExpiry at hs
  cases hc : s.expiries i <;> rw [hc] at hs <;> dsimp only at hs
  case absent => cases hs
  case entered => split at hs <;> cases hs <;> exact ⟨rfl, rfl⟩
  case readClock => split at hs <;> cases hs <;> exact ⟨rfl, rfl⟩
  case cas => split at hs <;> cases hs <;> exact ⟨rfl, rfl⟩
  case submit => split at hs <;> cases hs <;> exact ⟨rfl, rfl⟩
  all_goals cases hs; exact ⟨rfl, rfl⟩

theorem stepWorker_timer {j : Nat} (hs : s.stepWorker j = some s') :
    s'.timer = s.timer ∧ s'.holder = s.holder := by
  unfold DwSys.stepWorker at hs
  cases hc : s.workers j <;> rw [hc] at hs <;> dsimp only at hs
  case idle => cases hs
  case callback => cases hs; exact ⟨rfl, rfl⟩
  all_goals split at hs <;> cases hs <;> exact ⟨rfl, rfl⟩

/-- The timer comes due and its callback is started. -/
def fires (s : DwSys) : DwSys :=
  { s with
    timer := { s.timer with due := none }
    nextExpiry := s.nextExpiry + 1 }.setExpiry s.nextExpiry .entered

end DwSys

namespace Timer

/-! ### The item and its timer -/

/-- An item and its timer. `dw.timer` says when the timer ought to be due. No step reads it. -/
structure ItemState (w : Nat) where
  dw : DwSys
  timer : State w

/-- As for the item alone; the results of the timer are no longer up to the environment. -/
inductive ItemAction
  | call (op : DwOp) (began : Nat)
  | caller (result : Option ErrorCode) (created : Bool)
  | expiry (i : Nat) (result : Option ErrorCode)
  | watcher
  | wakeUp
  | expire
  | dequeue (j : Nat)
  | worker (j : Nat)
  | tick (ns : Nat)
  | cancelAll

/-- `none` for `ok`. -/
def failure : ErrorCode → Option ErrorCode
  | .ok => none
  | code => some code

namespace ItemState

variable {w : Nat}

def init (w now : Nat) : ItemState w :=
  ⟨.fresh (now / tickNs), .create (msToTicks w 1000 1) false now⟩

/-- One step of the lock holder. -/
def stepCaller (s : ItemState w) (result : Option ErrorCode) (created : Bool) :
    Option (ItemState w) :=
  match s.dw.holder with
  | .cas .. =>
      -- the result of the `stop()` to come is drawn here
      (s.dw.step (.caller (failure s.timer.stop.1) 0)).map (fun dw => ⟨dw, s.timer⟩)
  | .stop .. => (s.dw.step (.caller none 0)).map (fun dw => ⟨dw, s.timer.stop.2⟩)
  | .armPeriod c _ =>
      let ticks := msToTicks w 1000 c.delay
      let r := s.timer.setPeriod ticks created
      (s.dw.step (.caller (failure r.1) ticks.toNat)).map (fun dw => ⟨dw, r.2⟩)
  | .armStart _ =>
      let r := s.timer.start created
      (s.dw.step (.caller (failure r.1) 0)).map (fun dw => ⟨dw, r.2⟩)
  | _ => (s.dw.step (.caller result 0)).map (fun dw => ⟨dw, s.timer⟩)

/-- One step of the watcher; its callback is `on_timer`. -/
def stepWatcher (s : ItemState w) : Option (ItemState w) :=
  if s.timer.watcher = .callback ∧ (s.dw.expiries (s.dw.nextExpiry - 1)).isAbsent = false then none
  else
    s.timer.stepWatcher.map (fun timer =>
      if timer.watcher = .callback then ⟨s.dw.fires, timer⟩ else ⟨s.dw, timer⟩)

def step (s : ItemState w) : ItemAction → Option (ItemState w)
  | .call op began => (s.dw.step (.call op began)).map (fun dw => ⟨dw, s.timer⟩)
  | .caller result created => s.stepCaller result created
  | .expiry i result => (s.dw.step (.expiry i result)).map (fun dw => ⟨dw, s.timer⟩)
  | .watcher => s.stepWatcher
  | .wakeUp => (s.timer.step .wakeUp).map (fun timer => ⟨s.dw, timer⟩)
  | .expire => (s.timer.step .expire).map (fun timer => ⟨s.dw, timer⟩)
  | .dequeue j => (s.dw.step (.dequeue j)).map (fun dw => ⟨dw, s.timer⟩)
  | .worker j => (s.dw.step (.worker j)).map (fun dw => ⟨dw, s.timer⟩)
  | .tick ns =>
      (s.timer.step (.tick ns)).bind (fun timer =>
        (s.dw.step (.tick (timer.now / tickNs - s.timer.now / tickNs))).map
          (fun dw => ⟨dw, timer⟩))
  | .cancelAll => (s.dw.step .cancelAll).map (fun dw => ⟨dw, s.timer⟩)

end ItemState

/-- An item of a configuration with `w`-bit ticks, constructed at time `now`. -/
def itemMachine (w now : Nat) : Machine (ItemState w) ItemAction where
  init := .init w now
  step := ItemState.step

/-- The lock holder does not arm the timer at the wrong moment, nor for longer than the timer
can wait. -/
def CallerOnTime {w : Nat} (timer : State w) : DwCaller → Prop
  | .armPeriod c _ =>
      (timer.active = true → timer.watcher ≠ .timedOut) ∧ c.delay.toNat ≤ 2 ^ w - 2
  | .armStart _ => timer.watcher ≠ .timedOut
  | _ => True

instance CallerOnTime.decidable {w : Nat} (timer : State w) :
    (c : DwCaller) → Decidable (CallerOnTime timer c)
  | .armPeriod c _ => inferInstanceAs (Decidable
      ((timer.active = true → timer.watcher ≠ .timedOut) ∧ c.delay.toNat ≤ 2 ^ w - 2))
  | .armStart _ => inferInstanceAs (Decidable (timer.watcher ≠ .timedOut))
  | .free | .load _ | .casLoad _ | .cas _ _ | .stop _ _ | .store _ _ | .storeRaw _ _ _
  | .begin _ | .armNow _ | .armStartLow _ _ | .armStartHigh _ _ | .armDelayLow _ _
  | .armDelayHigh _ _ | .armLoad _ _ | .armStore _ _ _ | .submit _ => .isTrue trivial

/-- The timer of the item is on time, and no delay is longer than its period can be. -/
def ItemOnTime {w : Nat} (s : ItemState w) : ItemAction → Prop
  | .caller _ _ => CallerOnTime s.timer s.dw.holder
  | _ => True

instance ItemOnTime.decidable {w : Nat} (s : ItemState w) :
    (a : ItemAction) → Decidable (ItemOnTime s a)
  | .caller _ _ => inferInstanceAs (Decidable (CallerOnTime s.timer s.dw.holder))
  | .call .. | .expiry .. | .watcher | .wakeUp | .expire | .dequeue _ | .worker _ | .tick _
  | .cancelAll => .isTrue trivial

end Timer

end MicrOsal
