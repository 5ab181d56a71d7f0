import MicrOsal.GatedTimer.Model
import MicrOsal.Lib.Tally

/-!
# MicrOsal.GatedTimer.Moves

An expiry that finds the gate taken is lost, which is harmless only if a stop has it; and a
start that sets `active` after a stop has cleared it leaves a timer that the stop may cancel.
What a step can do, when neither happens, is listed once (`Moves`).
-/

namespace MicrOsal.GatedTimer

/-- A step that loses an expiry, or brings a stopped timer back: an expiry is dropped, but not
because of a stop; the start comes after a stop has cleared `active`; the native call of the
handler fails. -/
def State.loses (b : Backend) (s : State) (fails : Bool) : Thread → Bool
  | .startSets => s.cleared
  | .dispatched => s.timer.gate && s.timer.active && ! s.threads.contains .stopClears
  | .rearms => b.mayFail && fails
  | _ => false

/-- The step does not. -/
def Keeps (b : Backend) (s : State) : Action → Prop
  | .go n fails => ∀ th ∈ s.threads[n]?, s.loses b fails th = false
  | _ => True

instance Keeps.decidable (b : Backend) (s : State) : ∀ a : Action, Decidable (Keeps b s a)
  | .go n fails =>
    inferInstanceAs (Decidable (∀ th ∈ s.threads[n]?, s.loses b fails th = false))
  | .tick | .spawn | .start _ | .stop _ | .setPeriod _ _ | .expire => isTrue trivial

namespace Thread

/-- In `osal_timer_start`, with `ever_started` taken. -/
def starting : Thread → Bool
  | .startSets | .startArms | .startUnsets => true
  | _ => false

/-- It is on the way to arm the timer, or to clear `active`. -/
def keeps : Thread → Bool
  | .startArms | .startUnsets | .stopClears | .dispatched | .checks | .marks | .calls | .rechecks
  | .rearms => true
  | _ => false

/-- What a thread knows of the timer. -/
def Fits (t : Timer) (cleared : Bool) : Thread → Prop
  | .marks => t.active = true
  | .calls | .rechecks => t.active = true → t.autoReload = true
  | .stopCancels | .stopReleases => cleared = true
  | _ => True

end Thread

/-- What a step can do that loses no expiry. -/
inductive Moves (b : Backend) (s : State) : State → Prop
  | tick : Moves b s { s with now := s.now + 1 }
  | spawn : Moves b s { s with threads := s.threads ++ [.idle none] }
  | fire {due : Nat} : s.timer.armed = some due →
      Moves b s { s with timer := s.timer.cancel, threads := s.threads ++ [.dispatched] }
  /-- A thread goes on, and takes the gate or gives it back, or does not touch it. -/
  | pass {n : Nat} {th th' : Thread} {gate : Bool} {period : Nat} : s.threads[n]? = some th →
      (if th'.holdsGate = true then 1 else 0) + (if s.timer.gate = true then 1 else 0) =
        (if th.holdsGate = true then 1 else 0) + (if gate = true then 1 else 0) →
      (th'.starting = true → th.starting = true) →
      (th'.inHandler = true → th.inHandler = true) →
      (th.keeps = true → th'.keeps = true ∨ s.timer.active = false) →
      th'.Fits s.timer s.cleared →
      Moves b s { s with
        timer := { s.timer with gate := gate, period := period }
        threads := s.threads.set n th' }
  /-- An expiry is dropped because of a stop. -/
  | drops {n : Nat} : s.threads[n]? = some .dispatched → .stopClears ∈ s.threads →
      Moves b s { s with threads := s.threads.set n (.idle none) }
  | starts {n : Nat} {last : Option ErrorCode} : s.threads[n]? = some (.idle last) →
      s.timer.everStarted = false →
      Moves b s { s with
        timer := { s.timer with everStarted := true }
        threads := s.threads.set n .startSets }
  | startSets {n : Nat} : s.threads[n]? = some .startSets → s.cleared = false →
      Moves b s { s with
        timer := { s.timer with active := true }
        threads := s.threads.set n .startArms }
  | startArms {n : Nat} : s.threads[n]? = some .startArms →
      Moves b s { s with
        timer := s.timer.arm s.now
        threads := s.threads.set n (.idle (some .ok)) }
  | startUnsets {n : Nat} : s.threads[n]? = some .startUnsets →
      Moves b s { s with
        timer := { s.timer with active := false }
        threads := s.threads.set n (.idle (some .unknown)) }
  | stopClears {n : Nat} : s.threads[n]? = some .stopClears →
      Moves b s { s with
        timer := { s.timer with active := false }
        threads := s.threads.set n .stopCancels
        cleared := true }
  | stopCancels {n : Nat} : s.threads[n]? = some .stopCancels →
      Moves b s { s with
        timer := s.timer.cancel
        threads := s.threads.set n .stopReleases }
  | stopReleases {n : Nat} : s.threads[n]? = some .stopReleases →
      Moves b s { s with
        timer := { s.timer with gate := false }
        threads := s.threads.set n (.idle (some .ok))
        stopped := true }
  | marks {n : Nat} : s.threads[n]? = some .marks →
      Moves b s { s with
        timer := s.timer.mark b
        threads := s.threads.set n .calls
        begun := s.begun ++ [s.stopped] }
  | rearms {n : Nat} : s.threads[n]? = some .rearms →
      Moves b s { s with
        timer := s.timer.rearm b s.now
        threads := s.threads.set n .releases }

/-- The gate, the start and the stop, and what keeps an active timer alive. -/
structure Inv (s : State) : Prop where
  gate : s.threads.countP Thread.holdsGate = if s.timer.gate = true then 1 else 0
  /-- The timer is started once, and there is no expiry before it is armed. -/
  once : s.threads.countP Thread.starting ≤ if s.timer.everStarted = true then 1 else 0
  early : (s.timer.everStarted = false ∨ 0 < s.threads.countP Thread.starting) →
    s.timer.armed = none ∧ s.threads.countP Thread.inHandler = 0
  fresh : s.timer.everStarted = false → s.timer.active = false
  threads : ∀ (n : Nat) (th : Thread), s.threads[n]? = some th → th.Fits s.timer s.cleared
  cleared : s.cleared = true → s.timer.active = false
  stopped : s.stopped = true → s.cleared = true
  begun : ∀ stopped ∈ s.begun, stopped = false
  alive : s.timer.active = true → s.timer.armed ≠ none ∨ 0 < s.threads.countP Thread.keeps

variable {b : Backend} {s s' : State} {n : Nat} {th th' : Thread}

/-- A thread goes on without touching the timer. -/
theorem moves_of_setThread (hn : s.threads[n]? = some th)
    (hgate : th'.holdsGate = th.holdsGate) (hstarting : th'.starting = true → th.starting = true)
    (hhandler : th'.inHandler = true → th.inHandler = true)
    (hkeeps : th.keeps = true → th'.keeps = true ∨ s.timer.active = false)
    (hfits : th'.Fits s.timer s.cleared) : Moves b s (s.setThread n th') :=
  .pass hn (by rw [hgate]) hstarting hhandler hkeeps hfits

theorem moves_of_start {last : Option ErrorCode} (hn : s.threads[n]? = some (.idle last)) :
    Moves b s (s.start n) := by
  unfold State.start
  cases hstarted : s.timer.everStarted with
  | true => exact moves_of_setThread hn rfl nofun nofun nofun trivial
  | false => exact .starts hn hstarted

theorem moves_of_stop {last : Option ErrorCode} (hn : s.threads[n]? = some (.idle last)) :
    Moves b s (s.stop n) := by
  unfold State.stop
  cases hgate : s.timer.gate with
  | true => exact moves_of_setThread hn rfl nofun nofun nofun trivial
  | false => exact .pass hn (by rw [hgate]; rfl) nofun nofun nofun trivial

theorem moves_of_setPeriod {last : Option ErrorCode} {period : Nat}
    (hn : s.threads[n]? = some (.idle last)) : Moves b s (s.setPeriod b n period) := by
  unfold State.setPeriod
  split
  · exact moves_of_setThread hn rfl nofun nofun nofun trivial
  · split
    · exact moves_of_setThread hn rfl nofun nofun nofun trivial
    · exact moves_of_setThread hn rfl nofun nofun nofun trivial

theorem moves_of_dispatched (hn : s.threads[n]? = some .dispatched)
    (hkeeps : s.loses b false .dispatched = false) {fails : Bool}
    (hs : s.go b n fails .dispatched = some s') : Moves b s s' := by
  rw [State.go] at hs
  split at hs
  case isTrue hgate =>
    cases hs
    by_cases hstop : Thread.stopClears ∈ s.threads
    · exact .drops hn hstop
    · refine moves_of_setThread hn rfl nofun nofun (fun _ => .inr ?_) trivial
      refine Bool.eq_false_iff.mpr (fun hactive => hstop ?_)
      simpa [State.loses, hgate, hactive] using hkeeps
  case isFalse hgate =>
    cases hs
    have hfree : s.timer.gate = false := Bool.eq_false_iff.mpr hgate
    exact .pass hn (by rw [hfree]; rfl) nofun (fun _ => rfl) (fun _ => .inl rfl) trivial

theorem moves_of_go {fails : Bool} (h : Inv s) (hn : s.threads[n]? = some th)
    (hkeeps : s.loses b fails th = false) (hs : s.go b n fails th = some s') : Moves b s s' := by
  have hgate : th.holdsGate = true → s.timer.gate = true := by
    intro hholds
    have hpos : 0 < s.threads.countP Thread.holdsGate :=
      List.countP_pos_iff.mpr ⟨th, List.mem_of_getElem? hn, hholds⟩
    rw [h.gate] at hpos
    by_contra hfree
    rw [if_neg hfree] at hpos
    omega
  have hfits := h.threads n th hn
  cases th with
  | idle last => cases hs
  | startSets =>
      cases hs
      exact .startSets hn hkeeps
  | startArms =>
      rw [State.go] at hs
      split at hs
      all_goals obtain rfl := Option.some.inj hs
      · exact moves_of_setThread hn rfl (fun _ => rfl) nofun (fun _ => .inl rfl) trivial
      · exact .startArms hn
  | startUnsets =>
      cases hs
      exact .startUnsets hn
  | stopClears =>
      cases hs
      exact .stopClears hn
  | stopCancels =>
      rw [State.go] at hs
      split at hs
      all_goals obtain rfl := Option.some.inj hs
      · exact moves_of_setThread hn rfl nofun nofun nofun hfits
      · exact .stopCancels hn
  | stopReleases =>
      cases hs
      exact .stopReleases hn
  | periodTakes period =>
      rw [State.go] at hs
      split at hs
      all_goals obtain rfl := Option.some.inj hs
      case isTrue => exact moves_of_setThread hn rfl nofun nofun nofun trivial
      case isFalse hfree =>
        have hfree : s.timer.gate = false := Bool.eq_false_iff.mpr hfree
        exact .pass hn (by rw [hfree]; rfl) nofun nofun nofun trivial
  | periodStores period =>
      cases hs
      exact .pass hn rfl nofun nofun nofun trivial
  | periodReleases =>
      cases hs
      exact .pass hn (by rw [hgate rfl]; rfl) nofun nofun nofun trivial
  | dispatched => exact moves_of_dispatched hn hkeeps hs
  | checks =>
      rw [State.go] at hs
      split at hs
      case isTrue hactive =>
        cases hs
        exact moves_of_setThread hn rfl nofun (fun _ => rfl) (fun _ => .inl rfl) hactive
      case isFalse hactive =>
        have hactive : s.timer.active = false := Bool.eq_false_iff.mpr hactive
        split at hs
        all_goals obtain rfl := Option.some.inj hs
        · exact moves_of_setThread hn rfl nofun (fun _ => rfl) (fun _ => .inr hactive) trivial
        · refine moves_of_setThread hn rfl nofun (fun _ => rfl) (fun _ => .inl rfl) ?_
          intro htrue
          rw [hactive] at htrue
          cases htrue
  | marks =>
      cases hs
      exact .marks hn
  | calls =>
      cases hs
      exact moves_of_setThread hn rfl nofun (fun _ => rfl) (fun _ => .inl rfl) hfits
  | rechecks =>
      rw [State.go] at hs
      split at hs
      all_goals obtain rfl := Option.some.inj hs
      case isTrue =>
        exact moves_of_setThread hn rfl nofun (fun _ => rfl) (fun _ => .inl rfl) trivial
      case isFalse hboth =>
        refine moves_of_setThread hn rfl nofun (fun _ => rfl) (fun _ => .inr ?_) trivial
        refine Bool.eq_false_iff.mpr (fun hactive => hboth ?_)
        rw [hactive, hfits hactive]
        rfl
  | rearms =>
      rw [State.go] at hs
      have hfails : (b.mayFail && fails) = false := hkeeps
      rw [hfails] at hs
      cases hs
      exact .rearms hn
  | releases =>
      cases hs
      exact .pass hn (by rw [hgate rfl]; rfl) nofun nofun nofun trivial

theorem moves_of_step {a : Action} (h : Inv s) (hkeeps : Keeps b s a)
    (hs : s.step b a = some s') : Moves b s s' := by
  cases a with
  | tick =>
      cases hs
      exact .tick
  | spawn =>
      cases hs
      exact .spawn
  | start n =>
      dsimp only [State.step] at hs
      split at hs
      case h_1 last hn =>
        cases hs
        exact moves_of_start hn
      case h_2 => cases hs
  | stop n =>
      dsimp only [State.step] at hs
      split at hs
      case h_1 last hn =>
        cases hs
        exact moves_of_stop hn
      case h_2 => cases hs
  | setPeriod n period =>
      dsimp only [State.step] at hs
      split at hs
      case h_1 last hn =>
        cases hs
        exact moves_of_setPeriod hn
      case h_2 => cases hs
  | expire =>
      dsimp only [State.step] at hs
      unfold State.expire at hs
      split at hs
      case h_1 due hdue =>
        split at hs
        case isTrue =>
          cases hs
          exact .fire hdue
        case isFalse => cases hs
      case h_2 => cases hs
  | go n fails =>
      obtain ⟨th, hn, hgo⟩ := Option.bind_eq_some_iff.mp hs
      exact moves_of_go h hn (hkeeps th hn) hgo

end MicrOsal.GatedTimer
