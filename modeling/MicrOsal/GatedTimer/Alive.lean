import MicrOsal.GatedTimer.Moves

/-!
# MicrOsal.GatedTimer.Alive

A timer with `active` set is armed, or somebody is on the way to arm it or to clear `active`
(`Inv.alive`), and `active` stays clear once a stop has cleared it, in runs that lose no expiry.
-/

namespace MicrOsal.GatedTimer

variable {b : Backend} {s s' : State} {n : Nat} {th th' : Thread}

/-! ### What a step keeps -/

theorem Inv.gate_set {gate : Bool} (h : Inv s) (hn : s.threads[n]? = some th)
    (hgate : (if th'.holdsGate = true then 1 else 0) + (if s.timer.gate = true then 1 else 0) =
      (if th.holdsGate = true then 1 else 0) + (if gate = true then 1 else 0)) :
    (s.threads.set n th').countP Thread.holdsGate = if gate = true then 1 else 0 := by
  have hold := h.gate
  have hset := countP_set (b := th') Thread.holdsGate hn
  omega

theorem Inv.once_set (h : Inv s) (hn : s.threads[n]? = some th)
    (hstarting : th'.starting = true → th.starting = true) :
    (s.threads.set n th').countP Thread.starting ≤ if s.timer.everStarted = true then 1 else 0 :=
  (countP_set_le hn hstarting).trans h.once

/-- No expiry comes before the timer is armed. -/
theorem Inv.early_set (h : Inv s) (hn : s.threads[n]? = some th)
    (hstarting : th'.starting = true → th.starting = true)
    (hhandler : th'.inHandler = true → th.inHandler = true)
    (hearly : s.timer.everStarted = false ∨
      0 < (s.threads.set n th').countP Thread.starting) :
    s.timer.armed = none ∧ (s.threads.set n th').countP Thread.inHandler = 0 := by
  have hle := countP_set_le (b := th') hn hhandler
  obtain ⟨harmed, hnone⟩ := h.early
    (hearly.imp_right (fun hpos => hpos.trans_le (countP_set_le hn hstarting)))
  exact ⟨harmed, Nat.eq_zero_of_le_zero (hle.trans_eq hnone)⟩

/-- One thread changes, and what the others know of the timer does not. -/
theorem Inv.threads_set {t : Timer} {cleared : Bool} (h : Inv s) (hthis : th'.Fits t cleared)
    (hothers : ∀ (m : Nat) (u : Thread), m ≠ n → s.threads[m]? = some u →
      u.Fits s.timer s.cleared → u.Fits t cleared) :
    ∀ (m : Nat) (u : Thread), (s.threads.set n th')[m]? = some u → u.Fits t cleared := by
  intro m u hu
  rcases getElem?_set_cases hu with ⟨rfl, rfl⟩ | ⟨hne, hu⟩
  · exact hthis
  · exact hothers m u hne hu (h.threads m u hu)

/-- Two threads do not hold the gate. -/
theorem Inv.eq_of_holdsGate {m : Nat} (h : Inv s) (hn : s.threads[n]? = some th)
    (hm : s.threads[m]? = some th') (hth : th.holdsGate = true) (hth' : th'.holdsGate = true) :
    n = m := by
  refine eq_of_countP_le_one (p := Thread.holdsGate) ?_ hn hm hth hth'
  rw [h.gate]
  split <;> omega

/-- While one thread holds the gate, the others know nothing of `active`. -/
theorem Inv.fits_of_holdsGate {m : Nat} {u : Thread} {t : Timer} (h : Inv s)
    (hn : s.threads[n]? = some th) (hth : th.holdsGate = true) (hne : m ≠ n)
    (hm : s.threads[m]? = some u) (hfits : u.Fits s.timer s.cleared) :
    u.Fits t s.cleared := by
  cases u with
  | marks | calls | rechecks => exact absurd (h.eq_of_holdsGate hm hn rfl hth) hne
  | stopCancels | stopReleases => exact hfits
  | idle | startSets | startArms | startUnsets | stopClears | periodTakes | periodStores
  | periodReleases | dispatched | checks | rearms | releases => trivial

/-- While the timer is being started, there is no handler. -/
theorem Inv.fits_of_starting {m : Nat} {u : Thread} {t : Timer} (h : Inv s)
    (hn : s.threads[n]? = some th) (hth : th.starting = true) (hm : s.threads[m]? = some u)
    (hfits : u.Fits s.timer s.cleared) : u.Fits t s.cleared := by
  have hstarts : 0 < s.threads.countP Thread.starting :=
    List.countP_pos_iff.mpr ⟨th, List.mem_of_getElem? hn, hth⟩
  have hnone := (h.early (.inr hstarts)).2
  have hhandler : u.inHandler ≠ true := fun hu => by
    have hpos := List.countP_pos_iff.mpr ⟨u, List.mem_of_getElem? hm, hu⟩
    omega
  cases u with
  | marks | calls | rechecks => exact absurd rfl hhandler
  | stopCancels | stopReleases => exact hfits
  | idle | startSets | startArms | startUnsets | stopClears | periodTakes | periodStores
  | periodReleases | dispatched | checks | rearms | releases => trivial

/-- Somebody keeps the timer alive, after a step of a thread. -/
theorem Inv.alive_set (h : Inv s) (hn : s.threads[n]? = some th)
    (hkeeps : th.keeps = true → th'.keeps = true) (hactive : s.timer.active = true) :
    s.timer.armed ≠ none ∨ 0 < (s.threads.set n th').countP Thread.keeps :=
  (h.alive hactive).imp_right (fun hpos => hpos.trans_le (le_countP_set hn hkeeps))

theorem keeps_of_set (hn : s.threads[n]? = some th) (hkeeps : th'.keeps = true) :
    0 < (s.threads.set n th').countP Thread.keeps := by
  have hlt := (List.getElem?_eq_some_iff.mp hn).1
  exact List.countP_pos_iff.mpr
    ⟨th', List.mem_of_getElem? (List.getElem?_set_self hlt), hkeeps⟩

theorem Inv.pass {gate : Bool} {period : Nat} (h : Inv s) (hn : s.threads[n]? = some th)
    (hgate : (if th'.holdsGate = true then 1 else 0) + (if s.timer.gate = true then 1 else 0) =
      (if th.holdsGate = true then 1 else 0) + (if gate = true then 1 else 0))
    (hstarting : th'.starting = true → th.starting = true)
    (hhandler : th'.inHandler = true → th.inHandler = true)
    (hkeeps : th.keeps = true → th'.keeps = true ∨ s.timer.active = false)
    (hfits : th'.Fits s.timer s.cleared) :
    Inv { s with
      timer := { s.timer with gate := gate, period := period }
      threads := s.threads.set n th' } where
  gate := h.gate_set hn hgate
  once := h.once_set hn hstarting
  early := h.early_set hn hstarting hhandler
  fresh := h.fresh
  threads := h.threads_set (by cases th' <;> exact hfits)
    (fun m u _ _ hu => by cases u <;> exact hu)
  cleared := h.cleared
  stopped := h.stopped
  begun := h.begun
  alive := fun hactive => h.alive_set hn
    (fun ht => (hkeeps ht).resolve_right (by rw [show s.timer.active = true from hactive]; nofun))
    hactive

theorem Inv.starts {last : Option ErrorCode} (h : Inv s) (hn : s.threads[n]? = some (.idle last))
    (hstarted : s.timer.everStarted = false) :
    Inv { s with
      timer := { s.timer with everStarted := true }
      threads := s.threads.set n .startSets } where
  gate := h.gate_set hn rfl
  once := by
    have hold := h.once
    have hset := countP_set (b := Thread.startSets) Thread.starting hn
    rw [hstarted] at hold
    simp only [Thread.starting, if_true] at hset hold ⊢
    simp only [reduceCtorEq, if_false] at hset hold
    omega
  early := fun _ => by
    obtain ⟨harmed, hnone⟩ := h.early (.inl hstarted)
    have hle := countP_set_le (b := Thread.startSets) (p := Thread.inHandler) hn nofun
    exact ⟨harmed, Nat.eq_zero_of_le_zero (hle.trans_eq hnone)⟩
  fresh := nofun
  threads := h.threads_set trivial (fun m u _ _ hu => by cases u <;> exact hu)
  cleared := h.cleared
  stopped := h.stopped
  begun := h.begun
  alive := fun hactive => by
    have hinactive := h.fresh hstarted
    rw [show s.timer.active = true from hactive] at hinactive
    cases hinactive

theorem Inv.startSets (h : Inv s) (hn : s.threads[n]? = some .startSets)
    (hcleared : s.cleared = false) :
    Inv { s with
      timer := { s.timer with active := true }
      threads := s.threads.set n .startArms } where
  gate := h.gate_set hn rfl
  once := h.once_set hn (fun _ => rfl)
  early := h.early_set hn (fun _ => rfl) nofun
  fresh := fun hstarted => by
    have hold := h.once
    have hpos : 0 < s.threads.countP Thread.starting :=
      List.countP_pos_iff.mpr ⟨_, List.mem_of_getElem? hn, rfl⟩
    rw [show s.timer.everStarted = false from hstarted] at hold
    exact absurd (hpos.trans_le hold) (Nat.lt_irrefl 0)
  threads := h.threads_set trivial (fun m u _ hm hu => h.fits_of_starting hn rfl hm hu)
  cleared := fun htrue => nomatch hcleared.symm.trans htrue
  stopped := h.stopped
  begun := h.begun
  alive := fun _ => .inr (keeps_of_set hn rfl)

theorem Inv.startArms (h : Inv s) (hn : s.threads[n]? = some .startArms) :
    Inv { s with
      timer := s.timer.arm s.now
      threads := s.threads.set n (.idle (some .ok)) } where
  gate := h.gate_set hn rfl
  once := h.once_set hn nofun
  early := by
    have hold := h.once
    have hset := countP_set (b := Thread.idle (some .ok)) Thread.starting hn
    simp only [Thread.starting, if_true] at hset
    simp only [reduceCtorEq, if_false] at hset
    rintro (hstarted | hpos)
    · rw [show s.timer.everStarted = false from hstarted, if_neg nofun] at hold
      omega
    · have hone : (if s.timer.everStarted = true then 1 else 0) ≤ 1 := by split <;> omega
      have hpos : 0 < (s.threads.set n (.idle (some .ok))).countP Thread.starting := hpos
      omega
  fresh := h.fresh
  threads := h.threads_set trivial (fun m u _ _ hu => by cases u <;> exact hu)
  cleared := h.cleared
  stopped := h.stopped
  begun := h.begun
  alive := fun _ => .inl nofun

theorem Inv.startUnsets (h : Inv s) (hn : s.threads[n]? = some .startUnsets) :
    Inv { s with
      timer := { s.timer with active := false }
      threads := s.threads.set n (.idle (some .unknown)) } where
  gate := h.gate_set hn rfl
  once := h.once_set hn nofun
  early := h.early_set hn nofun nofun
  fresh := fun _ => rfl
  threads := h.threads_set trivial (fun _ _ _ hm hu => h.fits_of_starting hn rfl hm hu)
  cleared := fun _ => rfl
  stopped := h.stopped
  begun := h.begun
  alive := nofun

theorem Inv.stopClears (h : Inv s) (hn : s.threads[n]? = some .stopClears) :
    Inv { s with
      timer := { s.timer with active := false }
      threads := s.threads.set n .stopCancels
      cleared := true } where
  gate := h.gate_set hn rfl
  once := h.once_set hn nofun
  early := h.early_set hn nofun nofun
  fresh := fun _ => rfl
  threads := by
    refine h.threads_set rfl (fun m u hne hm hu => ?_)
    cases u with
    | marks | calls | rechecks => exact absurd (h.eq_of_holdsGate hm hn rfl rfl) hne
    | stopCancels | stopReleases => exact rfl
    | idle | startSets | startArms | startUnsets | stopClears | periodTakes | periodStores
    | periodReleases | dispatched | checks | rearms | releases => trivial
  cleared := fun _ => rfl
  stopped := fun _ => rfl
  begun := h.begun
  alive := nofun

theorem Inv.stopCancels (h : Inv s) (hn : s.threads[n]? = some .stopCancels) :
    Inv { s with
      timer := s.timer.cancel
      threads := s.threads.set n .stopReleases } where
  gate := h.gate_set hn rfl
  once := h.once_set hn nofun
  early := fun hearly => by
    have hnone : s.timer.armed = none ∧
        (s.threads.set n .stopReleases).countP Thread.inHandler = 0 :=
      h.early_set hn nofun nofun hearly
    exact ⟨rfl, hnone.2⟩
  fresh := h.fresh
  threads := h.threads_set (h.threads n _ hn) (fun m u _ _ hu => by cases u <;> exact hu)
  cleared := h.cleared
  stopped := h.stopped
  begun := h.begun
  alive := fun hactive => by
    have hinactive := h.cleared (h.threads n _ hn)
    rw [show s.timer.active = true from hactive] at hinactive
    cases hinactive

theorem Inv.stopReleases (h : Inv s) (hn : s.threads[n]? = some .stopReleases) :
    Inv { s with
      timer := { s.timer with gate := false }
      threads := s.threads.set n (.idle (some .ok))
      stopped := true } where
  gate := by
    have hold := h.gate
    have hset := countP_set (b := Thread.idle (some .ok)) Thread.holdsGate hn
    simp only [Thread.holdsGate, if_true] at hset
    simp only [reduceCtorEq, if_false] at hset ⊢
    split at hold <;> omega
  once := h.once_set hn nofun
  early := h.early_set hn nofun nofun
  fresh := h.fresh
  threads := h.threads_set trivial (fun m u _ _ hu => by cases u <;> exact hu)
  cleared := h.cleared
  stopped := fun _ => h.threads n _ hn
  begun := h.begun
  alive := h.alive_set hn nofun

theorem Inv.marks (h : Inv s) (hn : s.threads[n]? = some .marks) :
    Inv { s with
      timer := s.timer.mark b
      threads := s.threads.set n .calls
      begun := s.begun ++ [s.stopped] } := by
  have hactive : s.timer.active = true := h.threads n _ hn
  have hcleared : s.cleared = false :=
    Bool.eq_false_iff.mpr (fun hc => nomatch hactive.symm.trans (h.cleared hc))
  have hmark : s.timer.mark b = { s.timer with active := s.timer.autoReload } := by
    rw [Timer.mark, hactive, Bool.true_and, ite_self]
  rw [hmark]
  exact {
    gate := h.gate_set hn rfl
    once := h.once_set hn nofun
    early := h.early_set hn nofun (fun _ => rfl)
    fresh := fun hstarted => nomatch hactive.symm.trans (h.fresh hstarted)
    threads := h.threads_set (fun hreload => hreload)
      (fun m u hne hm hu => h.fits_of_holdsGate hn rfl hne hm hu)
    cleared := fun hc => nomatch hcleared.symm.trans hc
    stopped := h.stopped
    begun := fun stopped hmem => by
      rcases List.mem_append.mp hmem with hmem | hmem
      · exact h.begun stopped hmem
      · obtain rfl := List.mem_singleton.mp hmem
        exact Bool.eq_false_iff.mpr (fun hs => nomatch hcleared.symm.trans (h.stopped hs))
    alive := fun _ => .inr (keeps_of_set hn rfl) }

theorem Inv.rearms (h : Inv s) (hn : s.threads[n]? = some .rearms) :
    Inv { s with
      timer := s.timer.rearm b s.now
      threads := s.threads.set n .releases } where
  gate := h.gate_set hn rfl
  once := h.once_set hn nofun
  early := fun hearly => by
    have hnone : s.timer.armed = none ∧
        (s.threads.set n .releases).countP Thread.inHandler = 0 :=
      h.early_set hn nofun (fun _ => rfl) hearly
    have hpos : 0 < (s.threads.set n .releases).countP Thread.inHandler := by
      have hlt := (List.getElem?_eq_some_iff.mp hn).1
      exact List.countP_pos_iff.mpr
        ⟨_, List.mem_of_getElem? (List.getElem?_set_self hlt), rfl⟩
    omega
  fresh := h.fresh
  threads := h.threads_set trivial (fun m u _ _ hu => by cases u <;> exact hu)
  cleared := h.cleared
  stopped := h.stopped
  begun := h.begun
  alive := fun _ => .inl nofun

/-- The timer fires. -/
theorem Inv.fire {due : Nat} (h : Inv s) (hdue : s.timer.armed = some due) :
    Inv { s with timer := s.timer.cancel, threads := s.threads ++ [.dispatched] } where
  gate := by
    rw [List.countP_append]
    exact h.gate
  once := by
    rw [List.countP_append]
    exact h.once
  early := fun hearly => by
    rw [List.countP_append] at hearly
    rw [(h.early hearly).1] at hdue
    cases hdue
  fresh := h.fresh
  threads := fun m u hu => by
    rcases getElem?_concat_cases hu with hu | ⟨-, rfl⟩
    · have hfits := h.threads m u hu
      cases u <;> exact hfits
    · trivial
  cleared := h.cleared
  stopped := h.stopped
  begun := h.begun
  alive := fun _ => .inr (by
    rw [List.countP_append]
    exact Nat.succ_pos _)

theorem Inv.spawn (h : Inv s) : Inv { s with threads := s.threads ++ [.idle none] } where
  gate := by
    rw [List.countP_append]
    exact h.gate
  once := by
    rw [List.countP_append]
    exact h.once
  early := fun hearly => by
    rw [List.countP_append] at hearly ⊢
    exact h.early hearly
  fresh := h.fresh
  threads := fun m u hu => by
    rcases getElem?_concat_cases hu with hu | ⟨-, rfl⟩
    · exact h.threads m u hu
    · trivial
  cleared := h.cleared
  stopped := h.stopped
  begun := h.begun
  alive := fun hactive => (h.alive hactive).imp_right (fun hpos => by
    rw [List.countP_append]
    exact hpos)

/-- An expiry that a stop has locked out is not missed: the stop is going to clear `active`. -/
theorem Inv.drops (h : Inv s) (hn : s.threads[n]? = some .dispatched)
    (hstop : .stopClears ∈ s.threads) :
    Inv { s with threads := s.threads.set n (.idle none) } where
  gate := h.gate_set hn rfl
  once := h.once_set hn nofun
  early := h.early_set hn nofun nofun
  fresh := h.fresh
  threads := h.threads_set trivial (fun _ _ _ _ hu => hu)
  cleared := h.cleared
  stopped := h.stopped
  begun := h.begun
  alive := fun _ => .inr (by
    obtain ⟨m, hm⟩ := List.mem_iff_getElem?.mp hstop
    have hne : n ≠ m := by
      rintro rfl
      cases hn.symm.trans hm
    refine List.countP_pos_iff.mpr ⟨.stopClears, List.mem_of_getElem? (i := m) ?_, rfl⟩
    rw [List.getElem?_set_ne hne]
    exact hm)

theorem Inv.of_moves (h : Inv s) (hm : Moves b s s') : Inv s' := by
  cases hm with
  | tick =>
      exact ⟨h.gate, h.once, h.early, h.fresh, h.threads, h.cleared, h.stopped, h.begun, h.alive⟩
  | spawn => exact h.spawn
  | fire hdue => exact h.fire hdue
  | pass hn hgate hstarting hhandler hkeeps hfits =>
      exact h.pass hn hgate hstarting hhandler hkeeps hfits
  | drops hn hstop => exact h.drops hn hstop
  | starts hn hstarted => exact h.starts hn hstarted
  | startSets hn hcleared => exact h.startSets hn hcleared
  | startArms hn => exact h.startArms hn
  | startUnsets hn => exact h.startUnsets hn
  | stopClears hn => exact h.stopClears hn
  | stopCancels hn => exact h.stopCancels hn
  | stopReleases hn => exact h.stopReleases hn
  | marks hn => exact h.marks hn
  | rearms hn => exact h.rearms hn

/-! ### Runs -/

theorem Inv.of_reachable {period : Nat} {autoReload : Bool}
    (h : (machine b period autoReload).ReachableBy (Keeps b) s) : Inv s := by
  refine h.invariant (I := Inv) ?_ (fun s a s' _ hi hok hs => hi.of_moves (moves_of_step hi hok hs))
  exact ⟨rfl, Nat.zero_le _, fun _ => ⟨rfl, rfl⟩, fun _ => rfl, nofun, nofun, nofun,
    fun _ hmem => (nomatch hmem), nofun⟩

/-- A stop is final, one callback runs at a time, and a timer that is active goes on. -/
structure TimerOk (s : State) : Prop where
  /-- No callback began after a stop had returned `ok`. -/
  final : ∀ stopped ∈ s.begun, stopped = false
  exclusive : s.threads.countP (fun th => th = .calls) ≤ 1
  /-- While no call is in progress, an active timer is armed, or an expiry of it is on its way. -/
  alive : (∀ th ∈ s.threads, th.inCall = false) → s.timer.active = true →
    s.timer.armed ≠ none ∨ ∃ th ∈ s.threads, th.inHandler = true

/-- The timers of the three backends, in runs that lose no expiry and bring back no stopped
timer. -/
theorem gatedTimer_alive (b : Backend) (period : Nat) (autoReload : Bool) (s : State)
    (hs : (machine b period autoReload).ReachableBy (Keeps b) s) : TimerOk s := by
  have hinv := Inv.of_reachable hs
  constructor
  case final => exact hinv.begun
  case exclusive =>
    have hle : s.threads.countP (fun th => th = .calls) ≤ s.threads.countP Thread.holdsGate :=
      List.countP_mono_left (fun th _ hth => by rw [of_decide_eq_true hth]; rfl)
    rw [hinv.gate] at hle
    split at hle <;> omega
  case alive =>
    intro hcalls hactive
    refine (hinv.alive hactive).imp_right (fun hpos => ?_)
    obtain ⟨th, hth, hkeeps⟩ := List.countP_pos_iff.mp hpos
    refine ⟨th, hth, ?_⟩
    have hcall := hcalls th hth
    cases th with
    | dispatched | checks | marks | calls | rechecks | rearms => rfl
    | startArms | startUnsets | stopClears => cases hcall
    | idle | startSets | stopCancels | stopReleases | periodTakes | periodStores | periodReleases
    | releases => cases hkeeps

/-- A period of two ticks; the first expiry calls back and arms the timer again. -/
def twoExpiries : List Action :=
  [.spawn, .start 0, .go 0 false, .go 0 false, .tick, .tick, .expire, .go 1 false, .go 1 false,
    .go 1 false, .go 1 false, .go 1 false, .go 1 false, .go 1 false, .tick, .tick, .expire]

theorem gatedTimer_alive_twoExpiries : ∃ s, (machine (nuttx 255 254) 2 true).ReachableBy
    (Keeps (nuttx 255 254)) s ∧ s.timer.active = true ∧ s.timer.armed = none ∧
    s.threads = [.idle (some .ok), .idle none, .dispatched] ∧ TimerOk s := by
  have hrun : ((machine (nuttx 255 254) 2 true).run (machine (nuttx 255 254) 2 true).init
      twoExpiries).map (fun s => (s.timer.active, s.timer.armed, s.threads)) =
      some (true, none, [.idle (some .ok), .idle none, .dispatched]) := by decide +kernel
  obtain ⟨s, hs, hfields⟩ := Option.map_eq_some_iff.mp hrun
  have hreach : (machine (nuttx 255 254) 2 true).ReachableBy (Keeps (nuttx 255 254)) s :=
    .of_run .init (by decide +kernel) hs
  refine ⟨s, hreach, congrArg Prod.fst hfields, congrArg (fun p => p.2.1) hfields,
    congrArg (fun p => p.2.2) hfields, ?_⟩
  exact gatedTimer_alive (nuttx 255 254) 2 true s hreach

/-- A change of the period begins before the start has set `active`, and has the gate when the
timer fires: the expiry is dropped. -/
def droppedExpiry : List Action :=
  [.spawn, .spawn, .start 0, .setPeriod 1 9, .go 0 false, .go 0 false, .tick, .tick, .go 1 false,
    .expire, .go 2 false, .go 1 false, .go 1 false]

theorem not_timerOk {b : Backend} (hb : b ∈ [chibios 255 254, nuttx 255 254, embos 255 254]) :
    ¬ ∀ s : State, (machine b 2 true).Reachable s → TimerOk s := by
  intro hall
  have hrun : ∀ b ∈ [chibios 255 254, nuttx 255 254, embos 255 254],
      ((machine b 2 true).run (machine b 2 true).init droppedExpiry).map
        (fun s => (s.timer.active, s.timer.armed, s.threads)) =
        some (true, none, [.idle (some .ok), .idle (some .ok), .idle none]) := by decide +kernel
  obtain ⟨s, hs, hfields⟩ := Option.map_eq_some_iff.mp (hrun b hb)
  have hthreads : s.threads = [.idle (some .ok), .idle (some .ok), .idle none] :=
    congrArg (fun p => p.2.2) hfields
  have halive := (hall s (.of_run hs)).alive
    (fun th hth => by
      rw [hthreads] at hth
      simp only [List.mem_cons, List.not_mem_nil, or_false] at hth
      rcases hth with rfl | rfl | rfl <;> rfl)
    (congrArg Prod.fst hfields)
  rcases halive with harmed | ⟨th, hth, hhandler⟩
  · exact harmed (congrArg (fun p => p.2.1) hfields)
  · rw [hthreads] at hth
    simp only [List.mem_cons, List.not_mem_nil, or_false] at hth
    rcases hth with rfl | rfl | rfl <;> cases hhandler

/-- Nothing will make the timer fire again, and it is active. -/
theorem gatedTimer_dies :
    (¬ ∀ s : State, (machine (chibios 255 254) 2 true).Reachable s → TimerOk s) ∧
    (¬ ∀ s : State, (machine (nuttx 255 254) 2 true).Reachable s → TimerOk s) ∧
    ¬ ∀ s : State, (machine (embos 255 254) 2 true).Reachable s → TimerOk s :=
  ⟨not_timerOk (by simp), not_timerOk (by simp), not_timerOk (by simp)⟩

end MicrOsal.GatedTimer
