import MicrOsal.BareMetalTimer.History

/-!
# MicrOsal.BareMetalTimer.Follows

The pool against the histories of its timers. The loop writes to a timer after its callback: for a
periodic timer that is the deadline its history says, but a one-shot is switched off, whether or
not its callback has armed it again.
-/

namespace MicrOsal.BareMetalTimer

variable {slots : List (Option Created)} {s s' : State} {a : Action} {n : Nat} {c : Created}
  {t : Timer} {arm : Arming}

/-! ### A timer and its history -/

/-- A timer in the pool is as its history says; `own` says whether its callback runs, at `now`. -/
structure Tracks (c : Created) (now : Nat) (own : Bool) (t : Timer) (arm : Arming) : Prop where
  valid : t.valid = true
  reload : t.autoReload = c.autoReload
  period : t.period = arm.period
  outside : own = false → arm.deadline = if t.active then some t.deadline else none
  /-- The loop has not moved the deadline yet. -/
  inside : own = true → c.autoReload = true →
    arm.deadline = if t.active then some (now + t.period) else none
  balanced : c.autoReload = false → arm.Balanced

/-- What the history says as a deadline is a `std::uint64_t`. -/
def Arming.fits (arm : Arming) : Bool := arm.deadline.all (· < 2 ^ 64)

theorem add64_of_fits {x y : Nat} (h : x + y < 2 ^ 64) : add64 x y = x + y := Nat.mod_eq_of_lt h

namespace Tracks

variable {now : Nat} {own : Bool}

theorem created (c : Created) (now : Nat) :
    Tracks c now false (slotTimer (some c)) (.created c) :=
  ⟨rfl, rfl, rfl, fun _ => rfl, (fun h => nomatch h), fun _ => .created c⟩

/-- A call keeps a timer on its history, if the deadline that it sets does not wrap. -/
theorem request (h : Tracks c now own t arm) (op : Op) (hfits : (arm.request now op).fits = true) :
    Tracks c now own (op.apply now t) (arm.request now op) := by
  have hbalanced : c.autoReload = false → (arm.request now op).Balanced :=
    fun hc => (h.balanced hc).request op
  have hperiod := h.period
  cases op with
  | start | reset =>
      have hlt : now + t.period < 2 ^ 64 := by
        rw [hperiod]
        exact of_decide_eq_true hfits
      refine ⟨h.valid, h.reload, hperiod, fun _ => ?_, fun _ _ => ?_, hbalanced⟩
      · show some (now + arm.period) = some (add64 now t.period)
        rw [add64_of_fits hlt, hperiod]
      · show some (now + arm.period) = some (now + t.period)
        rw [hperiod]
  | stop =>
      exact ⟨h.valid, h.reload, hperiod, fun _ => rfl, fun _ _ => rfl, hbalanced⟩
  | setPeriod period =>
      refine ⟨h.valid, h.reload, rfl, fun hown => ?_, fun hown hc => ?_, hbalanced⟩
      · show arm.deadline.map (fun _ => now + period) =
          if t.active then some (add64 now period) else none
        have hdeadline := h.outside hown
        cases hactive : t.active with
        | false =>
            rw [hdeadline, hactive]
            rfl
        | true =>
            rw [hactive] at hdeadline
            have hlt : now + period < 2 ^ 64 := by
              unfold Arming.fits Arming.request at hfits
              dsimp only at hfits
              rw [hdeadline] at hfits
              exact of_decide_eq_true hfits
            rw [hdeadline, add64_of_fits hlt]
            rfl
      · show arm.deadline.map (fun _ => now + period) =
          if t.active then some (now + period) else none
        rw [h.inside hown hc]
        cases t.active <;> rfl

/-- A timer that is due begins its callback. -/
theorem fire (h : Tracks c now false t arm) (hactive : t.active = true)
    (hdue : t.deadline ≤ now) : Tracks c now true t (arm.fire c.autoReload now) := by
  have hdeadline := h.outside rfl
  rw [hactive] at hdeadline
  refine ⟨h.valid, h.reload, h.period, (fun hown => nomatch hown), fun _ hc => ?_, fun hc => ?_⟩
  · unfold Arming.fire
    dsimp only
    rw [hc, hactive, h.period]
  · rw [hc]
    exact (h.balanced hc).fire ⟨_, hdeadline, hdue⟩

/-- The callback returns, of a one-shot that is not armed or a periodic timer whose next deadline
does not wrap. -/
theorem finish (h : Tracks c now true t arm)
    (hkept : (if c.autoReload then arm.fits else arm.deadline.isNone) = true) :
    Tracks c now false (t.finish now) arm := by
  have hvalid := h.valid
  have hreload := h.reload
  have hperiod := h.period
  cases hc : c.autoReload with
  | true =>
      rw [hc] at hkept hreload
      have hinside := h.inside rfl hc
      unfold Timer.finish
      rw [if_pos hreload]
      refine ⟨hvalid, hreload.trans hc.symm, hperiod, fun _ => ?_, fun h => (nomatch h),
        h.balanced⟩
      dsimp only
      cases hactive : t.active with
      | false =>
          rw [hinside, hactive]
          rfl
      | true =>
          rw [hactive] at hinside
          have hlt : now + t.period < 2 ^ 64 := by
            unfold Arming.fits at hkept
            rw [hinside] at hkept
            exact of_decide_eq_true hkept
          rw [hinside, add64_of_fits hlt]
  | false =>
      rw [hc] at hkept hreload
      unfold Timer.finish
      rw [if_neg (by rw [hreload]; exact Bool.false_ne_true)]
      refine ⟨hvalid, hreload.trans hc.symm, hperiod, fun _ => ?_, fun h => (nomatch h),
        h.balanced⟩
      exact Option.isNone_iff_eq_none.mp hkept

/-- Outside its callback the clock does not matter. -/
theorem tick (h : Tracks c now false t arm) (now' : Nat) : Tracks c now' false t arm :=
  ⟨h.valid, h.reload, h.period, h.outside, (fun hown => nomatch hown), h.balanced⟩

/-- It is due by its history if the loop finds it so. -/
theorem due_iff (h : Tracks c now false t arm) :
    arm.Due now ↔ t.active = true ∧ t.deadline ≤ now := by
  unfold Arming.Due
  rw [h.outside rfl]
  cases t.active with
  | false => simp
  | true => simp

end Tracks

/-! ### The pool and the record -/

/-- The loop is past slot `n` in the tick that is going on. -/
def Phase.past (n : Nat) : Phase → Bool
  | .idle => true
  | .loop k => n < k
  | .callback k => n ≤ k

theorem Phase.past_loop (n k : Nat) : (Phase.loop k).past n = decide (n < k) := rfl

/-- The loop has been at slot `n` in tick `now`. -/
def State.turned (s : State) (now n : Nat) : Bool :=
  now ≠ 0 && (now < s.now || now = s.now && s.phase.past n)

/-- The turn of slot `n` in tick `now`. -/
def Event.isTurn (now n : Nat) : Event → Bool
  | .turn now' m _ => now' = now && m = n
  | .op .. => false

/-- The callback is called in a turn if and only if the timer is due by its history. -/
def TurnRight (slots : List (Option Created)) (before : List Event) : Event → Prop
  | .turn now n fired => ∀ slot, slots[n]? = some slot →
      (fired = true ↔ ∃ c, slot = some c ∧ (arming c n before).Due now)
  | .op .. => True

/-- A slot of the pool against its history. -/
def SlotTracks (now : Nat) (own : Bool) (log : List Event) (n : Nat) (t : Timer) :
    Option Created → Prop
  | none => t.valid = false
  | some c => Tracks c now own t (arming c n log)

/-- The invariant of the runs in which no call is lost. -/
structure Following (slots : List (Option Created)) (s : State) : Prop where
  clock : s.phase ≠ .idle → s.now ≠ 0
  length : s.timers.length = slots.length
  timers : ∀ n slot, slots[n]? = some slot → ∃ t, s.timers[n]? = some t ∧
    SlotTracks s.now (s.phase = .callback n) s.log n t slot
  turns : EachAfter (TurnRight slots) s.log
  once : ∀ now n, n < slots.length →
    s.log.countP (Event.isTurn now n) = if s.turned now n then 1 else 0

/-- The deadlines are within `std::uint64_t`, and a one-shot whose callback returns has not been
armed in it. -/
def Keeps (slots : List (Option Created)) (s : State) : Action → Bool
  | .tick => s.now + 1 < 2 ^ 64
  | .op n op =>
      match slots[n]? with
      | some (some c) => ((arming c n s.log).request s.now op).fits
      | _ => true
  | .go =>
      match s.phase with
      | .callback n =>
          match slots[n]? with
          | some (some c) =>
              if c.autoReload then (arming c n s.log).fits
              else (arming c n s.log).deadline.isNone
          | _ => true
      | _ => true

theorem SlotTracks.timer {now : Nat} {own : Bool} {log : List Event} {slot : Option Created}
    (h : SlotTracks now own log n t slot) (hvalid : t.valid = true) :
    ∃ c, slot = some c ∧ Tracks c now own t (arming c n log) := by
  cases slot with
  | none => exact absurd (hvalid.symm.trans h) (by decide)
  | some c => exact ⟨c, rfl, h⟩

/-- What spares a slot leaves it as it is. -/
theorem SlotTracks.concat {now : Nat} {own : Bool} {log : List Event} {slot : Option Created}
    {e : Event} (h : SlotTracks now own log n t slot) (he : e.spares n = true) :
    SlotTracks now own (log ++ [e]) n t slot := by
  cases slot with
  | none => exact h
  | some c =>
      show Tracks c now own t (arming c n (log ++ [e]))
      rw [arming_concat, Arming.after_of_spares he]
      exact h

namespace Following

/-- A pool at its start. -/
theorem init (slots : List (Option Created)) : Following slots (machine slots).init where
  clock h := absurd rfl h
  length := List.length_map ..
  timers n slot hslot := by
    refine ⟨slotTimer slot, ?_, ?_⟩
    · show (slots.map slotTimer)[n]? = _
      rw [List.getElem?_map, hslot]
      rfl
    · cases slot with
      | none => rfl
      | some c => exact .created c 0
  turns := .nil
  once now n _ := by
    show 0 = _
    rw [if_neg]
    simp only [State.turned, machine, Nat.not_lt_zero, decide_false, Bool.false_or,
      Bool.and_eq_true, decide_eq_true_eq]
    exact fun hturned => hturned.1 (of_decide_eq_true hturned.2.1)

theorem tick (h : Following slots s) (hphase : s.phase = .idle)
    (hfits : s.now + 1 < 2 ^ 64) :
    Following slots { s with now := add64 s.now 1, phase := .loop 0 } where
  clock _ := by
    show add64 s.now 1 ≠ 0
    rw [add64_of_fits hfits]
    exact Nat.succ_ne_zero _
  length := h.length
  timers n slot hslot := by
    obtain ⟨t, ht, htracks⟩ := h.timers n slot hslot
    refine ⟨t, ht, ?_⟩
    have hown : (decide (s.phase = .callback n)) = false := by
      rw [hphase]
      rfl
    rw [hown] at htracks
    cases slot with
    | none => exact htracks
    | some c => exact Tracks.tick htracks _
  turns := h.turns
  once now n hn := by
    rw [h.once now n hn]
    congr 1
    simp only [State.turned, hphase, Phase.past, add64_of_fits hfits, eq_iff_iff]
    simp only [Bool.and_eq_true, Bool.or_eq_true, decide_eq_true_eq, ne_eq, Bool.and_true,
      Bool.and_false, Nat.not_lt_zero, decide_false, Bool.or_false]
    omega

/-- Between callbacks a slot is as its history says. -/
theorem outside (h : Following slots s) {k : Nat} (hphase : s.phase = .loop k)
    {slot : Option Created} (hslot : slots[n]? = some slot) :
    ∃ t, s.timers[n]? = some t ∧ SlotTracks s.now false s.log n t slot := by
  obtain ⟨t, ht, htracks⟩ := h.timers n slot hslot
  rw [hphase] at htracks
  exact ⟨t, ht, htracks⟩

/-- The loop passes a slot by or calls its callback. -/
theorem turn (h : Following slots s) (fired : Bool) {phase : Phase} (hphase : s.phase = .loop n)
    (hn : n < slots.length) (hpast : ∀ m, phase.past m = decide (m ≤ n))
    (hright : TurnRight slots s.log (.turn s.now n fired))
    (hother : ∀ m, m ≠ n → phase ≠ .callback m)
    (hself : ∀ t slot, slots[n]? = some slot → s.timers[n]? = some t →
      SlotTracks s.now false s.log n t slot →
      SlotTracks s.now (phase = .callback n) (s.log ++ [.turn s.now n fired]) n t slot) :
    Following slots { s with phase := phase, log := s.log ++ [.turn s.now n fired] } where
  clock _ := h.clock (by rw [hphase]; exact fun heq => nomatch heq)
  length := h.length
  timers m slot hslot := by
    obtain ⟨t, ht, htracks⟩ := h.outside hphase hslot
    refine ⟨t, ht, ?_⟩
    by_cases hm : m = n
    · subst hm
      exact hself t slot hslot ht htracks
    · have hout : (decide (phase = .callback m)) = false := decide_eq_false (hother m hm)
      show SlotTracks s.now (decide (phase = .callback m)) (s.log ++ [.turn s.now n fired]) m t slot
      rw [hout]
      refine htracks.concat ?_
      simp [Event.spares, Ne.symm hm]
  turns := h.turns.concat hright
  once now m hm := by
    have hclock : s.now ≠ 0 := h.clock (by rw [hphase]; exact fun heq => nomatch heq)
    show (s.log ++ [Event.turn s.now n fired]).countP (Event.isTurn now m) = _
    rw [List.countP_append, List.countP_singleton, h.once now m hm]
    simp only [Event.isTurn, State.turned, hphase, Phase.past_loop, hpast, ne_eq, Bool.and_eq_true,
      Bool.or_eq_true, decide_eq_true_eq]
    by_cases hnow : s.now = now
    · by_cases hm : n = m
      · subst hm hnow
        simp [hclock]
      · subst hnow
        have hlt : m < n ↔ m ≤ n := by omega
        simp [hm, hlt]
    · have hnow' : now ≠ s.now := fun heq => hnow heq.symm
      simp [hnow, hnow']

/-- A call on a timer. -/
theorem op {op : Op} (h : Following slots s) (hn : s.timers[n]? = some t)
    (hvalid : t.valid = true) (hkeeps : Keeps slots s (.op n op) = true) :
    Following slots { s with
      timers := s.timers.set n (op.apply s.now t)
      log := s.log ++ [.op s.now n op] } where
  clock := h.clock
  length := (List.length_set ..).trans h.length
  timers m slot hslot := by
    obtain ⟨tm, hm, htracks⟩ := h.timers m slot hslot
    by_cases hmn : m = n
    · subst hmn
      obtain rfl := Option.some.inj (hn.symm.trans hm)
      obtain ⟨c, rfl, htracks⟩ := htracks.timer hvalid
      refine ⟨op.apply s.now t, ?_, ?_⟩
      · exact List.getElem?_set_self (List.getElem?_eq_some_iff.mp hn).1
      · show Tracks c s.now _ _ (arming c m (s.log ++ [.op s.now m op]))
        have hafter : (arming c m s.log).after c.autoReload m (.op s.now m op) =
            (arming c m s.log).request s.now op := if_pos rfl
        rw [arming_concat, hafter]
        refine htracks.request op ?_
        simpa only [Keeps, hslot] using hkeeps
    · refine ⟨tm, ?_, htracks.concat ?_⟩
      · exact (List.getElem?_set_ne (Ne.symm hmn)).trans hm
      · simp [Event.spares, Ne.symm hmn]
  turns := h.turns.concat trivial
  once now m hm := by
    show (s.log ++ [Event.op s.now n op]).countP (Event.isTurn now m) = _
    rw [List.countP_append, List.countP_singleton, h.once now m hm]
    rfl

/-- The callback of a slot has returned. -/
theorem finish (h : Following slots s) (hphase : s.phase = .callback n)
    (hn : s.timers[n]? = some t) (hkeeps : Keeps slots s .go = true) :
    Following slots { s with
      timers := s.timers.set n (t.finish s.now), phase := .loop (n + 1) } where
  clock _ := h.clock (by rw [hphase]; exact fun heq => nomatch heq)
  length := (List.length_set ..).trans h.length
  timers m slot hslot := by
    obtain ⟨tm, hm, htracks⟩ := h.timers m slot hslot
    by_cases hmn : m = n
    · subst hmn
      obtain rfl := Option.some.inj (hn.symm.trans hm)
      refine ⟨t.finish s.now, ?_, ?_⟩
      · exact List.getElem?_set_self (List.getElem?_eq_some_iff.mp hn).1
      · rw [hphase, decide_eq_true rfl] at htracks
        cases slot with
        | none =>
            show (t.finish s.now).valid = false
            unfold Timer.finish
            split <;> exact htracks
        | some c =>
            refine Tracks.finish htracks ?_
            simpa only [Keeps, hphase, hslot] using hkeeps
    · refine ⟨tm, (List.getElem?_set_ne (Ne.symm hmn)).trans hm, ?_⟩
      have hown : decide (s.phase = .callback m) = false := by
        rw [hphase]
        exact decide_eq_false fun heq => hmn (Phase.callback.inj heq).symm
      rw [hown] at htracks
      exact htracks
  turns := h.turns
  once now m hm := by
    rw [h.once now m hm]
    congr 1
    simp only [State.turned, hphase, Phase.past, Nat.lt_succ_iff]

/-- The loop is past the last slot. -/
theorem done (h : Following slots s) (hphase : s.phase = .loop n) (hn : s.timers[n]? = none) :
    Following slots { s with phase := .idle } where
  clock h := absurd rfl h
  length := h.length
  timers m slot hslot := h.outside hphase hslot
  turns := h.turns
  once now m hm := by
    have hlast : m < n := by
      have := List.getElem?_eq_none_iff.mp hn
      have := h.length
      omega
    rw [h.once now m hm]
    congr 1
    simp only [State.turned, hphase, Phase.past, hlast, decide_true]

theorem of_moves (h : Following slots s) (hkeeps : Keeps slots s a = true) (hm : Moves a s s') :
    Following slots s' := by
  cases hm with
  | tick hphase => exact h.tick hphase (of_decide_eq_true hkeeps)
  | op _ hn hvalid => exact h.op hn hvalid hkeeps
  | noTimer => exact h
  | pass hphase hn hnot =>
      have hlt := h.length ▸ (List.getElem?_eq_some_iff.mp hn).1
      refine h.turn false hphase hlt (fun m => decide_eq_decide.mpr Nat.lt_succ_iff) ?_
        (fun m _ heq => nomatch heq) ?_
      · intro slot hslot
        obtain ⟨t, ht, htracks⟩ := h.outside hphase hslot
        obtain rfl := Option.some.inj (hn.symm.trans ht)
        refine iff_of_false Bool.false_ne_true ?_
        rintro ⟨c, rfl, hdue⟩
        have hdue := (Tracks.due_iff htracks).mp hdue
        have := hnot htracks.valid hdue.1
        omega
      · intro t slot hslot ht htracks
        refine htracks.concat ?_
        simp [Event.spares]
  | @fire _ n t hphase hn hvalid hactive hdue =>
      have hlt := h.length ▸ (List.getElem?_eq_some_iff.mp hn).1
      refine h.turn true hphase hlt (fun m => rfl) ?_
        (fun m hm heq => hm (Phase.callback.inj heq).symm) ?_
      · intro slot hslot
        obtain ⟨t', ht', htracks⟩ := h.outside hphase hslot
        obtain rfl := Option.some.inj (hn.symm.trans ht')
        obtain ⟨c, rfl, htracks⟩ := htracks.timer hvalid
        exact iff_of_true rfl ⟨c, rfl, htracks.due_iff.mpr ⟨hactive, hdue⟩⟩
      · intro t' slot hslot ht' htracks
        obtain rfl := Option.some.inj (hn.symm.trans ht')
        obtain ⟨c, rfl, htracks⟩ := htracks.timer hvalid
        show Tracks c s.now (decide (Phase.callback n = .callback n)) t
          (arming c n (s.log ++ [.turn s.now n true]))
        have hafter : (arming c n s.log).after c.autoReload n (.turn s.now n true) =
            (arming c n s.log).fire c.autoReload s.now := if_pos ⟨rfl, rfl⟩
        rw [arming_concat, hafter, decide_eq_true rfl]
        exact htracks.fire hactive hdue
  | done hphase hn => exact h.done hphase hn
  | finish hphase hn => exact h.finish hphase hn hkeeps
  | noSlot => exact h

theorem of_reachable (hs : (machine slots).ReachableBy (fun s a => Keeps slots s a = true) s) :
    Following slots s :=
  Machine.ReachableBy.invariant (I := fun s => Following slots s) (init slots)
    (fun _ _ _ _ h hkeeps hstep => h.of_moves hkeeps (moves_of_step hstep)) hs

end Following

/-! ### The promises -/

/-- What a run shows of the timers. -/
structure FollowsHistory (slots : List (Option Created)) (s : State) : Prop where
  /-- In its turn the callback of a timer is called if and only if the timer is armed and its
  deadline has been reached. -/
  fires : ∀ (n : Nat) (slot : Option Created), slots[n]? = some slot →
    ∀ (pre : List Event) (now : Nat) (fired : Bool) (post : List Event),
      s.log = pre ++ .turn now n fired :: post →
      (fired = true ↔ ∃ c, slot = some c ∧ (arming c n pre).Due now)
  /-- A tick has no more than one turn for a slot, and one when it is over. -/
  once : ∀ now n : Nat, n < slots.length → s.log.countP (Event.isTurn now n) ≤ 1
  each : ∀ now n : Nat, n < slots.length → now ≠ 0 →
    now < s.now ∨ now = s.now ∧ s.phase = .idle → s.log.countP (Event.isTurn now n) = 1
  /-- A one-shot has fired once for each call that armed it, unless a later call ended that, or
  it is still to come. -/
  balanced : ∀ (n : Nat) (c : Created), slots[n]? = some (some c) → c.autoReload = false →
    (arming c n s.log).Balanced
  /-- A start or reset, in a callback or outside, arms for a full period. -/
  full : ∀ (n : Nat) (c : Created), slots[n]? = some (some c) →
    ∀ (pre : List Event) (begun : Nat) (op : Op) (mid : List Event) (now : Nat) (fired : Bool)
      (post : List Event),
      s.log = pre ++ .op begun n op :: (mid ++ .turn now n fired :: post) → op.arms = true →
      (∀ e ∈ mid, e.spares n = true) →
      (fired = true ↔ begun + (arming c n pre).period ≤ now)
  /-- So does the fire of a periodic timer. -/
  reloads : ∀ (n : Nat) (c : Created), slots[n]? = some (some c) → c.autoReload = true →
    ∀ (pre : List Event) (begun : Nat) (mid : List Event) (now : Nat) (fired : Bool)
      (post : List Event),
      s.log = pre ++ .turn begun n true :: (mid ++ .turn now n fired :: post) →
      (∀ e ∈ mid, e.spares n = true) →
      (fired = true ↔ begun + (arming c n pre).period ≤ now)
  /-- A timer that was stopped, in a callback or outside, does not fire before its next start, and
  neither does a one-shot that has fired. -/
  stopped : ∀ (n : Nat) (c : Created), slots[n]? = some (some c) →
    ∀ (pre : List Event) (begun : Nat) (e : Event) (mid : List Event) (now : Nat) (fired : Bool)
      (post : List Event),
      s.log = pre ++ e :: (mid ++ .turn now n fired :: post) →
      e = .op begun n .stop ∨ e = .turn begun n true ∧ c.autoReload = false →
      (∀ x ∈ mid, x.noStart n = true) → fired = false

/-- The turn after some events that spare a slot. -/
theorem fired_iff_of_spares {log pre mid post : List Event} {e : Event} {now : Nat} {fired : Bool}
    (hslot : slots[n]? = some (some c)) (hturns : EachAfter (TurnRight slots) log)
    (hlog : log = pre ++ e :: (mid ++ .turn now n fired :: post))
    (hmid : ∀ e ∈ mid, e.spares n = true) :
    fired = true ↔ ((arming c n pre).after c.autoReload n e).Due now := by
  have hsplit : log = (pre ++ e :: mid) ++ .turn now n fired :: post := by
    rw [hlog, List.append_assoc, List.cons_append]
  have hright := hturns _ _ _ hsplit (some c) hslot
  have hsame : arming c n (pre ++ e :: mid) = (arming c n pre).after c.autoReload n e := by
    rw [arming_append, List.foldl_cons, Arming.foldl_of_spares hmid]
  rw [hright, ← hsame]
  constructor
  · rintro ⟨c', hc, hdue⟩
    obtain rfl := Option.some.inj hc
    exact hdue
  · exact fun hdue => ⟨c, rfl, hdue⟩

theorem Arming.due_some {d now : Nat} (h : arm.deadline = some d) : arm.Due now ↔ d ≤ now := by
  unfold Arming.Due
  rw [h]
  simp

/-- A timer that is not armed stays so until a start: it has no turn in which it fires. -/
theorem deadline_none {mid : List Event} (hslot : slots[n]? = some (some c)) :
    ∀ {pre post : List Event}, EachAfter (TurnRight slots) (pre ++ (mid ++ post)) →
      (arming c n pre).deadline = none → (∀ x ∈ mid, x.noStart n = true) →
      (arming c n (pre ++ mid)).deadline = none := by
  induction mid with
  | nil =>
      intro pre post _ hnone _
      rwa [List.append_nil]
  | cons e rest ih =>
      intro pre post hturns hnone hmid
      have hnext : (arming c n (pre ++ [e])).deadline = none := by
        rw [arming_concat]
        cases e with
        | op now m op =>
            by_cases hm : m = n
            · subst hm
              have hop : op.arms = false := by
                simpa [Event.noStart] using hmid _ (List.mem_cons_self ..)
              rw [Arming.after, if_pos rfl]
              exact Arming.request_none hnone hop
            · rw [Arming.after, if_neg hm]
              exact hnone
        | turn now m fired =>
            by_cases hfired : m = n ∧ fired = true
            · obtain ⟨rfl, rfl⟩ := hfired
              have hright := hturns pre _ (rest ++ post) rfl (some c) hslot
              obtain ⟨c', hc, d, hd, -⟩ := hright.mp rfl
              obtain rfl := Option.some.inj hc
              exact absurd (hnone.symm.trans hd) (fun h => nomatch h)
            · rw [Arming.after, if_neg hfired]
              exact hnone
      rw [show pre ++ (e :: rest ++ post) = (pre ++ [e]) ++ (rest ++ post) by simp] at hturns
      have hrest := ih hturns hnext (fun x hx => hmid x (List.mem_cons_of_mem _ hx))
      rwa [List.append_assoc] at hrest

theorem FollowsHistory.of_following (h : Following slots s) : FollowsHistory slots s where
  fires n slot hslot pre now fired post hlog := h.turns pre _ post hlog slot hslot
  once now n hn := by
    rw [h.once now n hn]
    split <;> omega
  each now n hn hnow hdone := by
    rw [h.once now n hn, if_pos]
    unfold State.turned
    rcases hdone with hlt | ⟨rfl, hidle⟩
    · simp [hnow, hlt]
    · simp [hnow, hidle, Phase.past]
  balanced n c hslot hc := by
    obtain ⟨t, -, htracks⟩ := h.timers n _ hslot
    exact Tracks.balanced htracks hc
  full n c hslot pre begun op mid now fired post hlog hop hmid := by
    rw [fired_iff_of_spares hslot h.turns hlog hmid]
    refine Arming.due_some ?_
    rw [Arming.after, if_pos rfl]
    exact Arming.request_arms hop
  reloads n c hslot hc pre begun mid now fired post hlog hmid := by
    rw [fired_iff_of_spares hslot h.turns hlog hmid]
    refine Arming.due_some ?_
    rw [Arming.after, if_pos ⟨rfl, rfl⟩, hc]
    rfl
  stopped n c hslot pre begun e mid now fired post hlog he hmid := by
    have hnone : (arming c n (pre ++ [e])).deadline = none := by
      rw [arming_concat]
      rcases he with rfl | ⟨rfl, hc⟩
      · rw [Arming.after, if_pos rfl]
        rfl
      · rw [Arming.after, if_pos ⟨rfl, rfl⟩, hc]
        rfl
    have hlog' : s.log = (pre ++ [e]) ++ (mid ++ .turn now n fired :: post) := by
      rw [hlog]
      simp
    have hstay := deadline_none hslot (hlog' ▸ h.turns) hnone hmid
    have hsplit : s.log = (pre ++ [e] ++ mid) ++ .turn now n fired :: post := by
      simp only [hlog', List.append_assoc]
    have hright := h.turns _ _ post hsplit (some c) hslot
    refine Bool.eq_false_iff.mpr fun hfired => ?_
    obtain ⟨c', hc, d, hd, -⟩ := hright.mp hfired
    obtain rfl := Option.some.inj hc
    exact absurd (hstay.symm.trans hd) (fun h => nomatch h)

/-- In the runs in which no callback of a one-shot leaves its own timer armed, and no deadline is
past the end of the clock, the timers follow their histories. -/
theorem timers_follow_history (slots : List (Option Created)) :
    ∀ s, (machine slots).ReachableBy (fun s a => Keeps slots s a = true) s →
      FollowsHistory slots s :=
  fun _ hs => .of_following (.of_reachable hs)

/-- A one-shot starts a periodic timer in its callback, and that stops itself in its own. -/
def handedOver : List Action :=
  [.op 0 .start, .tick, .go, .op 1 .start, .go, .go, .go, .tick, .go, .go, .go, .tick, .go, .go,
    .op 1 .stop, .go, .go, .tick, .go, .go, .go]

theorem timers_follow_history_handedOver :
    ∃ s, (machine [some ⟨1, false⟩, some ⟨2, true⟩]).ReachableBy
        (fun s a => Keeps [some ⟨1, false⟩, some ⟨2, true⟩] s a = true) s ∧
      s.log = [.op 0 0 .start, .turn 1 0 true, .op 1 1 .start, .turn 1 1 false, .turn 2 0 false,
        .turn 2 1 false, .turn 3 0 false, .turn 3 1 true, .op 3 1 .stop, .turn 4 0 false,
        .turn 4 1 false] ∧
      FollowsHistory [some ⟨1, false⟩, some ⟨2, true⟩] s := by
  have hok : (machine [some ⟨1, false⟩, some ⟨2, true⟩]).RunOk
      (fun s a => Keeps [some ⟨1, false⟩, some ⟨2, true⟩] s a = true)
      (machine [some ⟨1, false⟩, some ⟨2, true⟩]).init handedOver := by decide +kernel
  have hrun : ((machine [some ⟨1, false⟩, some ⟨2, true⟩]).run
      (machine [some ⟨1, false⟩, some ⟨2, true⟩]).init handedOver).map State.log =
      some [.op 0 0 .start, .turn 1 0 true, .op 1 1 .start, .turn 1 1 false, .turn 2 0 false,
        .turn 2 1 false, .turn 3 0 false, .turn 3 1 true, .op 3 1 .stop, .turn 4 0 false,
        .turn 4 1 false] := by decide +kernel
  obtain ⟨s, hs, hlog⟩ := Option.map_eq_some_iff.mp hrun
  have hreach := Machine.ReachableBy.of_run .init hok hs
  exact ⟨s, hreach, hlog, timers_follow_history _ s hreach⟩

/-- A one-shot starts itself in its callback. -/
def restarted : List Action :=
  [.op 0 .start, .tick, .go, .op 0 .start, .go, .go, .tick, .go, .go]

/-- The start is lost: the one-shot does not fire a period later, nor is it stopped. -/
theorem timers_lose_start :
    ∃ s, (machine [some ⟨1, false⟩]).Reachable s ∧
      s.log = [.op 0 0 .start, .turn 1 0 true, .op 1 0 .start, .turn 2 0 false] ∧
      (arming ⟨1, false⟩ 0 [.op 0 0 .start, .turn 1 0 true, .op 1 0 .start]).Due 2 ∧
      ¬ FollowsHistory [some ⟨1, false⟩] s := by
  have hrun : ((machine [some ⟨1, false⟩]).run (machine [some ⟨1, false⟩]).init restarted).map
      State.log = some [.op 0 0 .start, .turn 1 0 true, .op 1 0 .start, .turn 2 0 false] := by
    decide +kernel
  obtain ⟨s, hs, hlog⟩ := Option.map_eq_some_iff.mp hrun
  refine ⟨s, .of_run hs, hlog, ⟨2, rfl, le_rfl⟩, fun hfollows => ?_⟩
  have hfull := hfollows.full 0 ⟨1, false⟩ rfl [.op 0 0 .start, .turn 1 0 true] 1 .start [] 2 false
    [] hlog rfl (fun e he => nomatch he)
  exact absurd (hfull.mpr (by decide)) Bool.false_ne_true

end MicrOsal.BareMetalTimer
