import MicrOsal.FreertosTimer.Commands

/-!
# MicrOsal.FreertosTimer.Teardown

A timer is torn down before anything of it is used again (`timers_tear_down`).

When the fence of `osal_timer_destroy` has come back, the daemon has deleted the timer, has no
command left for it and, as one thread, is in no callback of it. Until then the object holds its
callback pair and its native timer.
-/

namespace MicrOsal.FreertosTimer

variable {s r : State} {o p t k : Nat} {obj : Object} {φ : Phase} {c : Command} {f : Pair → Pair}
variable {fails : Bool}

/-! ### Changes of the period -/

/-- The fence of the call has been sent and has not come back. -/
def SetPhase.awaits : SetPhase → Bool
  | .await done => ! done
  | .reawait done => ! done
  | _ => false

/-- A call that changes the period is about a timer that can be used. -/
structure Setters (s : State) : Prop where
  live : ∀ (k : Nat) (c : Setter), s.setters[k]? = some c → c.phase ≠ .ended →
    ∃ p, s.phase c.object = some (.live p c.timer)
  awaited : ∀ (k : Nat) (c : Setter), s.setters[k]? = some c → c.phase.awaits = true →
    .fence (.setter k) ∈ s.queue

namespace Setters

theorem congr (h : Setters s) (hobjects : r.objects = s.objects) (hsetters : r.setters = s.setters)
    (hqueue : ∀ k, .fence (.setter k) ∈ s.queue → .fence (.setter k) ∈ r.queue) : Setters r where
  live k c hc hended := by
    rw [State.phase, hobjects]
    exact h.live k c (hsetters ▸ hc) hended
  awaited k c hc hawaits := hqueue k (h.awaited k c (hsetters ▸ hc) hawaits)

/-- An object goes on that nobody is changing. -/
theorem setPhase (h : Setters s) (hobj : s.objects[o]? = some obj)
    (hfree : ∀ (k : Nat) (c : Setter), s.setters[k]? = some c → c.phase ≠ .ended → c.object ≠ o)
    (φ : Phase) : Setters (s.setPhase o φ) where
  live k c hc hended := by
    rw [State.phase_setPhase hobj, Function.update_of_ne (hfree k c hc hended)]
    exact h.live k c hc hended
  awaited := h.awaited

theorem free_of_phase (h : Setters s) (hobj : s.objects[o]? = some obj)
    (hlive : ∀ p t, obj.phase ≠ .live p t) (k : Nat) (c : Setter) (hc : s.setters[k]? = some c)
    (hended : c.phase ≠ .ended) : c.object ≠ o := by
  rintro rfl
  obtain ⟨p, hp⟩ := h.live k c hc hended
  rw [State.phase_of hobj] at hp
  exact hlive p c.timer (Option.some.inj hp)

/-- A call goes on. -/
theorem setSetter {c : Setter} {ψ : SetPhase} (h : Setters s) (hc : s.setters[k]? = some c)
    (hended : c.phase ≠ .ended) (hawaits : ψ.awaits = true → .fence (.setter k) ∈ s.queue) :
    Setters (s.setSetter k ψ) := by
  constructor
  · intro k' c' hc' hended'
    rcases getElem?_modify_cases hc' with ⟨rfl, old, hold, rfl⟩ | ⟨-, hc'⟩
    · obtain rfl : c = old := Option.some.inj (hc.symm.trans hold)
      exact h.live k' c hc hended
    · exact h.live k' c' hc' hended'
  · intro k' c' hc' hawaits'
    rcases getElem?_modify_cases hc' with ⟨rfl, old, hold, rfl⟩ | ⟨-, hc'⟩
    · exact hawaits hawaits'
    · exact h.awaited k' c' hc' hawaits'

end Setters

/-! ### The record -/

/-- The calls are those that the objects were created for, and there is none after a destruction. -/
structure Recorded (s : State) : Prop where
  called : ∀ o fn arg, .called o fn arg ∈ s.log →
    ∃ obj : Object, s.objects[o]? = some obj ∧ obj.fn = fn ∧ obj.arg = arg
  destroyed : ∀ o, .destroyed o ∈ s.log → s.phase o = some .ended
  silent : s.log.Pairwise (fun a b => ∀ o fn arg, a = .destroyed o → b ≠ .called o fn arg)

namespace Recorded

theorem congr (h : Recorded s) (hobjects : r.objects = s.objects) (hlog : r.log = s.log) :
    Recorded r where
  called := by
    rw [hlog, hobjects]
    exact h.called
  destroyed := by
    intro o ho
    rw [State.phase, hobjects]
    exact h.destroyed o (hlog ▸ ho)
  silent := by
    rw [hlog]
    exact h.silent

theorem setPhase (h : Recorded s) (hobj : s.objects[o]? = some obj) (hended : obj.phase ≠ .ended)
    (φ : Phase) : Recorded (s.setPhase o φ) where
  called o' fn arg hmem := by
    obtain ⟨old, hold, hfn, harg⟩ := h.called o' fn arg hmem
    by_cases ho : o' = o
    · subst ho
      exact ⟨{ old with phase := φ }, by simp [State.setPhase, hold], hfn, harg⟩
    · exact ⟨old, by simpa [State.setPhase, List.getElem?_modify_ne _ _ (Ne.symm ho)] using hold,
        hfn, harg⟩
  destroyed o' hmem := by
    have hold := h.destroyed o' hmem
    rw [State.phase_setPhase hobj]
    by_cases ho : o' = o
    · subst ho
      rw [State.phase_of hobj] at hold
      exact absurd (Option.some.inj hold) hended
    · rwa [Function.update_of_ne ho]
  silent := h.silent

theorem noteDestroyed (h : Recorded s) (ho : s.phase o = some .ended) :
    Recorded (s.note (.destroyed o)) where
  called o' fn arg hmem := by
    rcases List.mem_append.mp hmem with hmem | hmem
    · exact h.called o' fn arg hmem
    · cases List.mem_singleton.mp hmem
  destroyed o' hmem := by
    rcases List.mem_append.mp hmem with hmem | hmem
    · exact h.destroyed o' hmem
    · cases List.mem_singleton.mp hmem
      exact ho
  silent := by
    refine List.pairwise_append.mpr ⟨h.silent, List.pairwise_singleton _ _, fun a _ b hb => ?_⟩
    rintro o' fn arg - rfl
    cases List.mem_singleton.mp hb

theorem noteCalled (h : Recorded s) (hobj : s.objects[o]? = some obj)
    (hended : obj.phase ≠ .ended) : Recorded (s.note (.called o obj.fn obj.arg)) where
  called o' fn arg hmem := by
    rcases List.mem_append.mp hmem with hmem | hmem
    · exact h.called o' fn arg hmem
    · cases List.mem_singleton.mp hmem
      exact ⟨obj, hobj, rfl, rfl⟩
  destroyed o' hmem := by
    rcases List.mem_append.mp hmem with hmem | hmem
    · exact h.destroyed o' hmem
    · cases List.mem_singleton.mp hmem
  silent := by
    refine List.pairwise_append.mpr ⟨h.silent, List.pairwise_singleton _ _, fun a ha b hb => ?_⟩
    rintro o' fn arg rfl rfl
    cases List.mem_singleton.mp hb
    have hold := h.destroyed o ha
    rw [State.phase_of hobj] at hold
    exact hended (Option.some.inj hold)

end Recorded

/-! ### Every run -/

structure Inv (s : State) : Prop where
  pools : Pools s
  filled : Filled s
  timers : Timers s
  setters : Setters s
  recorded : Recorded s

namespace Inv

/-- A step that leaves the objects and the pools alone. -/
theorem of_same (h : Inv s) (hobjects : r.objects = s.objects) (hpairs : r.pairs = s.pairs)
    (hused : r.used = s.used) (hlength : r.natives.length = s.natives.length)
    (timers : Timers r) (setters : Setters r) (recorded : Recorded r) : Inv r where
  pools := h.pools.congr hobjects hpairs hused hlength
  filled := h.filled.congr hobjects hpairs
  timers := timers
  setters := setters
  recorded := recorded

/-- An object goes on after a step that has only touched the pools. -/
theorem move (h : Inv s) (hobj : s.objects[o]? = some obj) (hobjects : r.objects = s.objects)
    (hnatives : r.natives = s.natives) (hqueue : r.queue = s.queue)
    (hdaemon : r.daemon = s.daemon) (hsetters : r.setters = s.setters) (hlog : r.log = s.log)
    (pools : Pools (r.setPhase o φ)) (filled : Filled (r.setPhase o φ))
    (halike : obj.phase.Alike φ)
    (hfree : ∀ (k : Nat) (c : Setter), s.setters[k]? = some c → c.phase ≠ .ended → c.object ≠ o)
    (hended : obj.phase ≠ .ended) : Inv (r.setPhase o φ) := by
  have hobj' : r.objects[o]? = some obj := hobjects ▸ hobj
  refine ⟨pools, filled, ?_, ?_, ?_⟩
  · exact (h.timers.congr hobjects hnatives hqueue (.inr hdaemon)).setPhase hobj' halike
  · exact (h.setters.congr hobjects hsetters (fun _ hk => hqueue ▸ hk)).setPhase hobj'
      (hsetters ▸ hfree) φ
  · exact (h.recorded.congr hobjects hlog).setPhase hobj' hended φ

/-- An object goes on with what it holds. -/
theorem setPhase (h : Inv s) (hobj : s.objects[o]? = some obj)
    (hpair : φ.pair? = obj.phase.pair?) (hstore : φ.store? = obj.phase.store?)
    (hfilled : ∀ p, φ.filled? = some p → obj.phase.filled? = some p)
    (halike : obj.phase.Alike φ)
    (hfree : ∀ (k : Nat) (c : Setter), s.setters[k]? = some c → c.phase ≠ .ended → c.object ≠ o)
    (hended : obj.phase ≠ .ended) : Inv (s.setPhase o φ) :=
  h.move hobj rfl rfl rfl rfl rfl rfl (h.pools.setPhase hobj hpair hstore)
    (h.filled.setPhase hobj hfilled) halike hfree hended

/-- The next step of a call that creates or destroys an object. -/
theorem advance (h : Inv s) (hstep : s.advance o fails = some r) : Inv r := by
  obtain ⟨⟨fn, arg, autoReload, φ⟩, hobj, hstep⟩ := Option.bind_eq_some_iff.mp hstep
  have hfree := h.setters.free_of_phase hobj
  cases φ with
  | pair =>
      have hfree := hfree (by rintro p t ⟨⟩)
      dsimp only at hstep
      split at hstep
      · rename_i p hfind
        cases hstep
        obtain ⟨hp, hunused, -⟩ := List.findIdx?_eq_some_iff_getElem.mp hfind
        have hpair := List.getElem?_eq_getElem hp
        refine h.move (r := s.setPair p _) hobj rfl rfl rfl rfl rfl rfl ?_ ?_ ⟨rfl, rfl, rfl⟩ hfree
          (by rintro ⟨⟩)
        · exact h.pools.takePair hobj rfl hpair (by simpa using hunused) rfl rfl rfl
        · have hfilled : Filled (s.setPair p (fun pair => { pair with used := true })) :=
            h.filled.setPair (fun _ => ⟨rfl, rfl⟩)
          exact hfilled.setPhase hobj (by rintro q ⟨⟩)
      · cases hstep
        refine h.setPhase hobj rfl rfl ?_ ⟨rfl, rfl, rfl⟩ hfree (by rintro ⟨⟩)
        rintro p ⟨⟩
  | fill p =>
      cases hstep
      refine h.move (r := s.setPair p _) hobj rfl rfl rfl rfl rfl rfl ?_ ?_ ⟨rfl, rfl, rfl⟩
        (hfree (by rintro p t ⟨⟩)) (by rintro ⟨⟩)
      · refine Pools.setPhase (s := s.setPair p _) (h.pools.setPair ?_) hobj rfl rfl
        exact fun _ => rfl
      · refine h.filled.write h.pools hobj rfl ?_
        rintro q ⟨⟩
        exact ⟨rfl, fun _ => ⟨rfl, rfl⟩⟩
  | store p =>
      have hfree := hfree (by rintro p t ⟨⟩)
      dsimp only at hstep
      split at hstep
      · rename_i t hfind
        cases hstep
        obtain ⟨ht, hunused, -⟩ := List.findIdx?_eq_some_iff_getElem.mp hfind
        refine h.move (r := s.setUsed t true) hobj rfl rfl rfl rfl rfl rfl ?_ ?_ ⟨rfl, rfl, rfl⟩
          hfree (by rintro ⟨⟩)
        · exact h.pools.takeStore hobj rfl ht
            (by simpa [State.storeUsed, List.getElem?_eq_getElem ht] using hunused) rfl rfl
        · exact (h.filled.congr rfl rfl).setPhase hobj (fun _ hq => hq)
      · cases hstep
        refine h.setPhase hobj rfl rfl ?_ ⟨rfl, rfl, rfl⟩ hfree (by rintro ⟨⟩)
        rintro p ⟨⟩
  | create p t =>
      have hfree := hfree (by rintro p t ⟨⟩)
      dsimp only at hstep
      split at hstep
      · cases hstep
        exact h.setPhase hobj rfl rfl (fun _ hq => hq) ⟨rfl, rfl, rfl⟩ hfree (by rintro ⟨⟩)
      · cases hstep
        constructor
        · exact (h.pools.congr (r := s.setNative t _) rfl rfl rfl (List.length_modify ..)).setPhase
            hobj rfl rfl
        · exact (h.filled.congr (r := s.setNative t _) rfl rfl).setPhase hobj (fun _ hq => hq)
        · exact h.timers.make h.pools hobj rfl autoReload
        · exact (h.setters.congr (r := s.setNative t _) rfl rfl (fun _ hk => hk)).setPhase hobj
            hfree _
        · exact (h.recorded.congr (r := s.setNative t _) rfl rfl).setPhase hobj (by rintro ⟨⟩) _
  | unstore p t =>
      cases hstep
      refine h.move (r := s.setUsed t false) hobj rfl rfl rfl rfl rfl rfl ?_ ?_ ⟨rfl, rfl, rfl⟩
        (hfree (by rintro p t ⟨⟩)) (by rintro ⟨⟩)
      · exact h.pools.releaseStore hobj rfl rfl rfl
      · refine (h.filled.congr (r := s.setUsed t false) rfl rfl).setPhase hobj ?_
        rintro q ⟨⟩
  | unpair p =>
      cases hstep
      refine h.move (r := s.setPair p _) hobj rfl rfl rfl rfl rfl rfl ?_ ?_ ⟨rfl, rfl, rfl⟩
        (hfree (by rintro p t ⟨⟩)) (by rintro ⟨⟩)
      · exact h.pools.releasePair hobj rfl (fun _ => rfl) rfl rfl
      · have hfilled : Filled (s.setPair p (fun pair => { pair with used := false })) :=
          h.filled.setPair (fun _ => ⟨rfl, rfl⟩)
        exact hfilled.setPhase hobj (by rintro q ⟨⟩)
  | live p t => cases hstep
  | semaphore p t =>
      have hfree := hfree (by rintro p t ⟨⟩)
      cases hstep
      cases fails
      · exact h.setPhase hobj rfl rfl (fun _ hq => hq) ⟨rfl, rfl, rfl⟩ hfree (by rintro ⟨⟩)
      · exact h.setPhase hobj rfl rfl (fun _ hq => hq) ⟨rfl, rfl, rfl⟩ hfree (by rintro ⟨⟩)
  | delete p t =>
      have hfree := hfree (by rintro p t ⟨⟩)
      dsimp only at hstep
      split at hstep
      · cases hstep
        exact h.setPhase hobj rfl rfl (fun _ hq => hq) ⟨rfl, rfl, rfl⟩ hfree (by rintro ⟨⟩)
      · cases hstep
        constructor
        · exact (h.pools.congr (r := s.send _) rfl rfl rfl rfl).setPhase hobj rfl rfl
        · exact (h.filled.congr (r := s.send _) rfl rfl).setPhase hobj (fun _ hq => hq)
        · exact h.timers.sendDelete h.pools hobj rfl
        · exact (h.setters.congr (r := s.send _) rfl rfl (fun _ => List.mem_append_left _)).setPhase
            hobj hfree _
        · exact (h.recorded.congr (r := s.send _) rfl rfl).setPhase hobj (by rintro ⟨⟩) _
  | fence p t =>
      have hfree := hfree (by rintro p t ⟨⟩)
      dsimp only at hstep
      split at hstep
      · cases hstep
        exact h
      · cases hstep
        constructor
        · exact (h.pools.congr (r := s.send _) rfl rfl rfl rfl).setPhase hobj rfl rfl
        · exact (h.filled.congr (r := s.send _) rfl rfl).setPhase hobj (fun _ hq => hq)
        · exact h.timers.sendFence hobj rfl
        · exact (h.setters.congr (r := s.send _) rfl rfl (fun _ => List.mem_append_left _)).setPhase
            hobj hfree _
        · exact (h.recorded.congr (r := s.send _) rfl rfl).setPhase hobj (by rintro ⟨⟩) _
  | await p t done =>
      cases done with
      | false => cases hstep
      | true =>
          cases hstep
          exact h.setPhase hobj rfl rfl (fun _ hq => hq) ⟨rfl, rfl, rfl⟩
            (hfree (by rintro p t ⟨⟩)) (by rintro ⟨⟩)
  | reclaim p t =>
      cases hstep
      refine h.move (r := s.setUsed t false) hobj rfl rfl rfl rfl rfl rfl ?_ ?_ ⟨rfl, rfl, rfl⟩
        (hfree (by rintro p t ⟨⟩)) (by rintro ⟨⟩)
      · exact h.pools.releaseStore hobj rfl rfl rfl
      · exact (h.filled.congr rfl rfl).setPhase hobj (fun _ hq => hq)
  | retire p t =>
      cases hstep
      have hmoved : Inv ((s.setPair p (fun pair =>
          { pair with fn := none, arg := 0, used := false })).setPhase o .ended) := by
        refine h.move (r := s.setPair p _) hobj rfl rfl rfl rfl rfl rfl ?_ ?_ ⟨rfl, rfl, rfl⟩
          (hfree (by rintro p t ⟨⟩)) (by rintro ⟨⟩)
        · exact h.pools.releasePair hobj rfl (fun _ => rfl) rfl rfl
        · refine h.filled.write h.pools hobj rfl ?_
          rintro q ⟨⟩
      refine hmoved.of_same rfl rfl rfl rfl (hmoved.timers.congr rfl rfl rfl (.inr rfl))
        (hmoved.setters.congr rfl rfl (fun _ hk => hk)) (hmoved.recorded.noteDestroyed ?_)
      rw [State.phase_setPhase (s := s.setPair p _) hobj, Function.update_self]
  | ended => cases hstep

/-- A call that changes the period goes on. -/
theorem setSetter {c : Setter} {ψ : SetPhase} (h : Inv s) (hc : s.setters[k]? = some c)
    (hended : c.phase ≠ .ended) (hawaits : ψ.awaits = true → .fence (.setter k) ∈ s.queue) :
    Inv (s.setSetter k ψ) :=
  h.of_same rfl rfl rfl rfl (h.timers.congr rfl rfl rfl (.inr rfl))
    (h.setters.setSetter hc hended hawaits) (h.recorded.congr rfl rfl)

/-- A command is sent for a timer that can be used. -/
theorem sendLive (h : Inv s) (hlive : s.phase o = some (.live p t))
    (habout : ∀ t' o', c.about = some (t', o') → t' = t ∧ o' = o)
    (hdelete : ∀ t o, c ≠ .delete t o) (hfence : ∀ o t, c ≠ .fence (.destroy o t)) :
    Inv (s.send c) :=
  h.of_same rfl rfl rfl rfl (h.timers.sendLive h.pools hlive habout hdelete hfence)
    (h.setters.congr rfl rfl (fun _ => List.mem_append_left _)) (h.recorded.congr rfl rfl)

/-- What says what to call stays in a pair that is written to. -/
theorem setPair (h : Inv s)
    (hf : ∀ pair, (f pair).fn = pair.fn ∧ (f pair).arg = pair.arg ∧ (f pair).used = pair.used) :
    Inv (s.setPair p f) where
  pools := h.pools.setPair (fun pair => (hf pair).2.2)
  filled := h.filled.setPair (fun pair => ⟨(hf pair).1, (hf pair).2.1⟩)
  timers := h.timers.congr rfl rfl rfl (.inr rfl)
  setters := h.setters.congr rfl rfl (fun _ hk => hk)
  recorded := h.recorded.congr rfl rfl

/-- The next step of a call that changes the period. -/
theorem advanceSetter (h : Inv s) (hstep : s.advanceSetter k fails = some r) : Inv r := by
  obtain ⟨⟨object, timer, φ⟩, hc, hstep⟩ := Option.bind_eq_some_iff.mp hstep
  obtain ⟨native, -, hstep⟩ := Option.bind_eq_some_iff.mp hstep
  have hlive := h.setters.live k _ hc
  have hfence : (∃ p, s.phase object = some (.live p timer)) →
      Inv (s.send (.fence (.setter k))) := by
    rintro ⟨p, hp⟩
    exact h.sendLive hp (by rintro t' o' ⟨⟩) (by rintro t' o' ⟨⟩) (by rintro o' t' ⟨⟩)
  have hmem : .fence (.setter k) ∈ (s.send (.fence (.setter k))).queue :=
    List.mem_append_right _ List.mem_cons_self
  cases φ with
  | fence =>
      dsimp only at hstep
      split at hstep
      · cases hstep
        exact h
      · cases hstep
        exact (hfence (hlive (by rintro ⟨⟩))).setSetter (s := s.send _) hc (by rintro ⟨⟩)
          (fun _ => hmem)
  | await done =>
      cases done with
      | false => cases hstep
      | true =>
          cases hstep
          exact h.setSetter hc (by rintro ⟨⟩) (by rintro ⟨⟩)
  | look =>
      cases hstep
      refine h.setSetter hc (by rintro ⟨⟩) ?_
      split <;> rintro ⟨⟩
  | suppress =>
      cases hstep
      refine Inv.setSetter (s := s.setPair native.id _) (h.setPair ?_) hc (by rintro ⟨⟩)
        (by rintro ⟨⟩)
      exact fun _ => ⟨rfl, rfl, rfl⟩
  | change active =>
      dsimp only at hstep
      split at hstep
      · cases hstep
        exact h.setSetter hc (by rintro ⟨⟩) (by rintro ⟨⟩)
      · cases hstep
        obtain ⟨p, hp⟩ := hlive (by rintro ⟨⟩)
        have hsent : Inv (s.send (.changePeriod timer object)) :=
          h.sendLive hp (by rintro t' o' ⟨⟩; exact ⟨rfl, rfl⟩) (by rintro t' o' ⟨⟩)
            (by rintro o' t' ⟨⟩)
        refine hsent.setSetter (s := s.send _) hc (by rintro ⟨⟩) ?_
        split <;> rintro ⟨⟩
  | halt =>
      dsimp only at hstep
      split at hstep
      · cases hstep
        exact h
      · cases hstep
        obtain ⟨p, hp⟩ := hlive (by rintro ⟨⟩)
        have hsent : Inv (s.send (.stop timer object)) :=
          h.sendLive hp (by rintro t' o' ⟨⟩; exact ⟨rfl, rfl⟩) (by rintro t' o' ⟨⟩)
            (by rintro o' t' ⟨⟩)
        exact hsent.setSetter (s := s.send _) hc (by rintro ⟨⟩) (by rintro ⟨⟩)
  | refence =>
      dsimp only at hstep
      split at hstep
      · cases hstep
        exact h
      · cases hstep
        exact (hfence (hlive (by rintro ⟨⟩))).setSetter (s := s.send _) hc (by rintro ⟨⟩)
          (fun _ => hmem)
  | reawait done =>
      cases done with
      | false => cases hstep
      | true =>
          cases hstep
          exact h.setSetter hc (by rintro ⟨⟩) (by rintro ⟨⟩)
  | release =>
      cases hstep
      refine Inv.setSetter (s := s.setPair native.id _) (h.setPair ?_) hc (by rintro ⟨⟩)
        (by rintro ⟨⟩)
      exact fun _ => ⟨rfl, rfl, rfl⟩
  | ended => cases hstep

/-- The fence of a call that changes the period comes back. -/
theorem signalSetter {rest : List Command} (h : Inv s)
    (hqueue : s.queue = .fence (.setter k) :: rest) :
    Inv (({ s with queue := rest } : State).signalDone (.setter k)) := by
  have htimers : Timers { s with queue := rest } :=
    h.timers.pop hqueue (by rintro t o ⟨⟩) (by rintro o t ⟨⟩)
  have hkeep : ∀ k', k' ≠ k → .fence (.setter k') ∈ s.queue → .fence (.setter k') ∈ rest := by
    intro k' hk hmem
    rw [hqueue] at hmem
    refine (List.mem_cons.mp hmem).resolve_left (fun heq => hk ?_)
    cases heq
    rfl
  -- The call that the fence is of goes on to `ψ`, in which it waits for no fence.
  have hgoes : ∀ ψ : SetPhase, ψ.awaits = false →
      (∀ (c : Setter), s.setters[k]? = some c → c.phase = .ended → ψ = .ended) →
      Inv (({ s with queue := rest } : State).setSetter k ψ) := by
    intro ψ hψ hended
    refine h.of_same rfl rfl rfl rfl (htimers.congr rfl rfl rfl (.inr rfl)) ?_
      (h.recorded.congr rfl rfl)
    constructor
    · intro k' c hc hlive
      rcases getElem?_modify_cases hc with ⟨rfl, old, hold, rfl⟩ | ⟨-, hc⟩
      · exact h.setters.live k' old hold (fun hold' => hlive (hended old hold hold'))
      · exact h.setters.live k' c hc hlive
    · intro k' c hc hawaits
      rcases getElem?_modify_cases hc with ⟨rfl, old, -, rfl⟩ | ⟨hk, hc⟩
      · exact absurd (hψ.symm.trans hawaits) (by rintro ⟨⟩)
      · exact hkeep k' hk (h.setters.awaited k' c hc hawaits)
  have hstays : (∀ (c : Setter), s.setters[k]? = some c → c.phase.awaits = false) →
      Inv { s with queue := rest } := by
    intro hnone
    refine h.of_same rfl rfl rfl rfl htimers ⟨h.setters.live, ?_⟩ (h.recorded.congr rfl rfl)
    intro k' c hc hawaits
    refine hkeep k' ?_ (h.setters.awaited k' c hc hawaits)
    rintro rfl
    exact absurd ((hnone c hc).symm.trans hawaits) (by rintro ⟨⟩)
  cases hc : s.setters[k]? with
  | none =>
      have hphase : (({ s with queue := rest } : State).setters[k]?).map Setter.phase = none := by
        rw [hc]
        rfl
      unfold State.signalDone
      dsimp only
      rw [hphase]
      exact hstays (fun c hc' => absurd (hc.symm.trans hc') (by rintro ⟨⟩))
  | some c =>
      obtain ⟨object, timer, φ⟩ := c
      have hphase : (({ s with queue := rest } : State).setters[k]?).map Setter.phase = some φ := by
        rw [hc]
        rfl
      have hself : ∀ c : Setter, s.setters[k]? = some c → c.phase = φ := by
        intro c hc'
        obtain rfl := Option.some.inj (hc.symm.trans hc')
        rfl
      unfold State.signalDone
      dsimp only
      rw [hphase]
      cases φ with
      | await done =>
          refine hgoes (.await true) rfl (fun c hc' hended => ?_)
          rw [hself c hc'] at hended
          cases hended
      | reawait done =>
          refine hgoes (.reawait true) rfl (fun c hc' hended => ?_)
          rw [hself c hc'] at hended
          cases hended
      | _ => exact hstays (fun c hc' => by rw [hself c hc']; rfl)

/-- The daemon takes a command. -/
theorem process {rest : List Command} (h : Inv s) (hqueue : s.queue = c :: rest)
    (hidle : s.daemon = .idle) : Inv (({ s with queue := rest } : State).process c) := by
  have hkeep : ∀ k, c ≠ .fence (.setter k) → .fence (.setter k) ∈ s.queue →
      .fence (.setter k) ∈ rest := by
    intro k hk hmem
    rw [hqueue] at hmem
    exact (List.mem_cons.mp hmem).resolve_left (fun heq => hk heq.symm)
  have hwrite : ∀ (t : Nat) (g : Native → Native),
      (∀ k, c ≠ .fence (.setter k)) → Timers (({ s with queue := rest } : State).setNative t g) →
      Inv (({ s with queue := rest } : State).setNative t g) := by
    intro t g hk htimers
    exact h.of_same rfl rfl rfl (List.length_modify ..) htimers
      (h.setters.congr rfl rfl (fun k => hkeep k (hk k))) (h.recorded.congr rfl rfl)
  cases c with
  | start t o =>
      refine hwrite t _ (by rintro k ⟨⟩) (Timers.setNative (s := { s with queue := rest }) ?_ ?_)
      · exact h.timers.pop hqueue (by rintro t o ⟨⟩) (by rintro o t ⟨⟩)
      · exact fun _ => ⟨rfl, rfl, rfl⟩
  | stop t o =>
      refine hwrite t _ (by rintro k ⟨⟩) (Timers.setNative (s := { s with queue := rest }) ?_ ?_)
      · exact h.timers.pop hqueue (by rintro t o ⟨⟩) (by rintro o t ⟨⟩)
      · exact fun _ => ⟨rfl, rfl, rfl⟩
  | changePeriod t o =>
      refine hwrite t _ (by rintro k ⟨⟩) (Timers.setNative (s := { s with queue := rest }) ?_ ?_)
      · exact h.timers.pop hqueue (by rintro t o ⟨⟩) (by rintro o t ⟨⟩)
      · exact fun _ => ⟨rfl, rfl, rfl⟩
  | delete t o =>
      exact hwrite t _ (by rintro k ⟨⟩)
        (h.timers.popDelete h.pools hqueue hidle (fun _ => rfl))
  | fence waiter =>
      cases waiter with
      | destroy o t =>
          have hawaits := h.timers.fences o t (by rw [hqueue]; exact List.mem_cons_self)
          obtain ⟨φ, hφ, hφt⟩ := Option.bind_eq_some_iff.mp hawaits
          obtain ⟨p, rfl⟩ := Phase.await_of_awaits hφt
          obtain ⟨⟨fn, arg, autoReload, ψ⟩, hobj, rfl⟩ := State.phase_eq_some hφ
          have hphase : ({ s with queue := rest } : State).phase o = some (.await p t false) := hφ
          unfold State.process State.signalDone
          dsimp only
          rw [hphase]
          constructor
          · exact (h.pools.congr (r := { s with queue := rest }) rfl rfl rfl rfl).setPhase hobj rfl
              rfl
          · exact (h.filled.congr (r := { s with queue := rest }) rfl rfl).setPhase hobj
              (fun _ hq => hq)
          · exact h.timers.popFence hqueue hidle hobj rfl
          · exact (h.setters.congr (r := { s with queue := rest }) rfl rfl
              (fun k => hkeep k (by rintro ⟨⟩))).setPhase hobj
              (h.setters.free_of_phase hobj (by rintro p t ⟨⟩)) _
          · exact (h.recorded.congr (r := { s with queue := rest }) rfl rfl).setPhase hobj
              (by rintro ⟨⟩) _
      | setter k => exact h.signalSetter hqueue

/-- A call creates an object. -/
theorem create (h : Inv s) (hphase : obj.phase = .pair) :
    Inv { s with objects := s.objects ++ [obj] } := by
  have hbind : ∀ {β : Type} (g : Phase → Option β), g .pair = none →
      (fun o => (({ s with objects := s.objects ++ [obj] } : State).phase o).bind g) =
        fun o => (s.phase o).bind g := by
    intro β g hg
    funext o
    cases hobj : s.objects[o]? with
    | some old =>
        have hkept : (s.objects ++ [obj])[o]? = some old := by
          rw [List.getElem?_append_left (List.getElem?_eq_some_iff.mp hobj).1]
          exact hobj
        rw [State.phase, State.phase, hobj, hkept]
    | none =>
        rw [State.phase, State.phase, hobj]
        cases hnew : (s.objects ++ [obj])[o]? with
        | none => rfl
        | some new =>
            rcases getElem?_concat_cases hnew with hold | ⟨-, rfl⟩
            · rw [hobj] at hold
              cases hold
            · show g new.phase = none
              rw [hphase]
              exact hg
  have hkept : ∀ (o : Nat) (φ : Phase), s.phase o = some φ →
      ({ s with objects := s.objects ++ [obj] } : State).phase o = some φ := by
    intro o φ hφ
    obtain ⟨old, hold, rfl⟩ := State.phase_eq_some hφ
    have hlt := (List.getElem?_eq_some_iff.mp hold).1
    rw [State.phase, List.getElem?_append_left hlt, hold]
    rfl
  constructor
  · exact ⟨h.pools.pairs.congr (fun o => congrFun (hbind Phase.pair? rfl) o) (fun _ => rfl),
      h.pools.stores.congr (fun o => congrFun (hbind Phase.store? rfl) o) (fun _ => rfl),
      h.pools.length⟩
  · intro o obj' p hobj' hp
    rcases getElem?_concat_cases hobj' with hobj' | ⟨-, rfl⟩
    · exact h.filled o obj' p hobj' hp
    · rw [hphase] at hp
      cases hp
  · exact h.timers.same (hbind _ rfl) (hbind _ rfl) (hbind _ rfl) rfl rfl (.inr rfl)
  · refine ⟨fun k c hc hended => ?_, h.setters.awaited⟩
    obtain ⟨p, hp⟩ := h.setters.live k c hc hended
    exact ⟨p, hkept _ _ hp⟩
  · refine ⟨fun o fn arg hmem => ?_, fun o hmem => hkept o _ (h.recorded.destroyed o hmem),
      h.recorded.silent⟩
    obtain ⟨old, hold, hrest⟩ := h.recorded.called o fn arg hmem
    have hlt := (List.getElem?_eq_some_iff.mp hold).1
    exact ⟨old, (List.getElem?_append_left hlt).trans hold, hrest⟩

/-- What the lambda finds: the pair of an object that is not destroyed, as it was filled. -/
theorem found (h : Inv s) (hdaemon : s.daemon = .lambda t) :
    ∃ native obj pair, s.natives[t]? = some native ∧ native.alive = true ∧
      s.objects[native.object]? = some obj ∧ obj.phase.timer? = some (native.id, t) ∧
      s.pairs[native.id]? = some pair ∧ pair.fn = some obj.fn ∧ pair.arg = obj.arg := by
  obtain ⟨native, hnative, halive⟩ := h.timers.lambda t hdaemon
  have howned := h.timers.owned t native hnative halive
  obtain ⟨φ, hφ, htimer⟩ := Option.bind_eq_some_iff.mp howned
  obtain ⟨obj, hobj, rfl⟩ := State.phase_eq_some hφ
  obtain ⟨pair, hpair, hfn, harg⟩ :=
    h.filled native.object obj native.id hobj (Phase.filled_of_timer htimer)
  exact ⟨native, obj, pair, hnative, halive, hobj, htimer, hpair, hfn, harg⟩

/-- The daemon runs the lambda. -/
theorem runLambda (h : Inv s) (hdaemon : s.daemon = .lambda t) (hstep : s.step .lambda = some r) :
    Inv r := by
  obtain ⟨native, obj, pair, hnative, halive, hobj, htimer, hpair, hfn, harg⟩ := h.found hdaemon
  have hidle : Inv { s with daemon := .idle } :=
    h.of_same rfl rfl rfl rfl (h.timers.congr rfl rfl rfl (.inl rfl))
      (h.setters.congr rfl rfl (fun _ hk => hk)) (h.recorded.congr rfl rfl)
  simp only [State.step, hdaemon, hnative, hpair, hfn, harg, Option.bind_eq_bind,
    Option.bind_some] at hstep
  split at hstep
  · cases hstep
    exact hidle
  · cases hstep
    have htimers : Timers { s with daemon := .running native.object } := by
      refine h.timers.setDaemon (by rintro t' ⟨⟩) ?_
      rintro o ⟨⟩
      rw [h.timers.owned t native hnative halive]
      rfl
    refine h.of_same rfl rfl rfl rfl (htimers.congr rfl rfl rfl (.inr rfl))
      (h.setters.congr rfl rfl (fun _ hk => hk)) ?_
    refine Recorded.noteCalled (s := { s with daemon := .running native.object })
      (h.recorded.congr rfl rfl) hobj ?_
    intro hended
    rw [hended] at htimer
    cases htimer

/-- A timer expires. -/
theorem expire (h : Inv s) (hstep : s.step (.expire t) = some r) : Inv r := by
  obtain ⟨native, hnative, hstep⟩ := Option.bind_eq_some_iff.mp hstep
  split at hstep
  · rename_i hready
    cases hstep
    have htimers : Timers (s.setNative t
        (fun native => { native with active := native.autoReload })) :=
      h.timers.setNative (fun _ => ⟨rfl, rfl, rfl⟩)
    refine h.of_same rfl rfl rfl (List.length_modify ..) (htimers.setDaemon ?_ (by rintro o ⟨⟩))
      (h.setters.congr rfl rfl (fun _ hk => hk)) (h.recorded.congr rfl rfl)
    rintro t' ⟨⟩
    exact ⟨{ native with active := native.autoReload }, by simp [State.setNative, hnative],
      hready.2.1⟩
  · cases hstep

theorem init (maxTimers : Nat) : Inv (timerMachine maxTimers).init where
  pools :=
    { pairs := by
        refine SlotOwners.empty (fun o => rfl) (fun p => ?_)
        simp only [timerMachine, State.pairUsed, List.getElem?_replicate]
        split <;> rfl
      stores := by
        refine SlotOwners.empty (fun o => rfl) (fun t => ?_)
        simp only [timerMachine, State.storeUsed, List.getElem?_replicate]
        split <;> rfl
      length := by simp [timerMachine] }
  filled o obj p hobj := by
    cases hobj
  timers :=
    { owned := by
        intro t native hnative halive
        simp only [timerMachine, List.getElem?_replicate] at hnative
        split at hnative
        · cases hnative
          cases halive
        · cases hnative
      made := by rintro o p t ⟨⟩
      queued := by rintro c ⟨⟩
      order := List.Pairwise.nil
      deletes := by rintro t o ⟨⟩
      fences := by rintro o t ⟨⟩
      pending := by rintro o p t native ⟨⟩
      awaited := by rintro o t ⟨⟩
      lambda := by rintro t ⟨⟩
      running := by rintro o ⟨⟩ }
  setters := ⟨by rintro k c ⟨⟩, by rintro k c ⟨⟩⟩
  recorded := ⟨by rintro o fn arg ⟨⟩, by rintro o ⟨⟩, List.Pairwise.nil⟩

/-- A call sends a command, or does not. -/
theorem post (h : Inv s) (hnative : s.native o = some t)
    (horderly : (! (s.phase o).any Phase.destroying) = true)
    (habout : ∀ t' o', c.about = some (t', o') → t' = t ∧ o' = o) (hdelete : ∀ t o, c ≠ .delete t o)
    (hfence : ∀ o t, c ≠ .fence (.destroy o t)) (fails : Bool) : Inv (s.post fails c) := by
  obtain ⟨p, hp⟩ := State.live_of_native hnative horderly
  cases fails with
  | true => exact h
  | false => exact h.sendLive hp habout hdelete hfence

theorem step {a : Action} (h : Inv s) (horderly : s.orderly a = true) (hstep : s.step a = some r) :
    Inv r := by
  cases a with
  | create fn arg autoReload =>
      cases hstep
      exact h.create rfl
  | start o fails =>
      simp only [State.step] at hstep
      split at hstep
      · rename_i t hnative
        cases hstep
        exact h.post hnative horderly (by rintro t' o' ⟨⟩; exact ⟨rfl, rfl⟩) (by rintro t o ⟨⟩)
          (by rintro o t ⟨⟩) fails
      · cases hstep
        exact h
  | stop o fails =>
      simp only [State.step] at hstep
      split at hstep
      · rename_i t hnative
        cases hstep
        exact h.post hnative horderly (by rintro t' o' ⟨⟩; exact ⟨rfl, rfl⟩) (by rintro t o ⟨⟩)
          (by rintro o t ⟨⟩) fails
      · cases hstep
        exact h
  | setPeriod o =>
      simp only [State.step] at hstep
      split at hstep
      · rename_i t hnative
        cases hstep
        obtain ⟨p, hp⟩ := State.live_of_native hnative horderly
        refine h.of_same rfl rfl rfl rfl (h.timers.congr rfl rfl rfl (.inr rfl)) ⟨?_, ?_⟩
          (h.recorded.congr rfl rfl)
        · intro k c hc hended
          rcases getElem?_concat_cases hc with hc | ⟨-, rfl⟩
          · exact h.setters.live k c hc hended
          · exact ⟨p, hp⟩
        · intro k c hc hawaits
          rcases getElem?_concat_cases hc with hc | ⟨-, rfl⟩
          · exact h.setters.awaited k c hc hawaits
          · cases hawaits
      · cases hstep
        exact h
  | destroy o daemon =>
      simp only [State.step] at hstep
      split at hstep
      · rename_i p t hphase
        cases hstep
        obtain ⟨⟨fn, arg, autoReload, φ⟩, hobj, rfl⟩ := State.phase_eq_some hphase
        split
        · exact h
        · exact h.setPhase hobj rfl rfl (fun _ hq => hq) ⟨rfl, rfl, rfl⟩
            (State.free_of_not_changing horderly) (by rintro ⟨⟩)
      · split at hstep
        · cases hstep
        · cases hstep
          exact h
      · cases hstep
        exact h
  | advance o fails => exact h.advance hstep
  | setter k fails => exact h.advanceSetter hstep
  | command =>
      simp only [State.step] at hstep
      split at hstep
      · rename_i c rest hidle hqueue
        cases hstep
        exact h.process hqueue hidle
      · cases hstep
  | expire t => exact h.expire hstep
  | lambda =>
      cases hdaemon : s.daemon with
      | lambda t => exact h.runLambda hdaemon hstep
      | _ =>
          simp only [State.step, hdaemon] at hstep
          cases hstep
  | returns =>
      simp only [State.step] at hstep
      split at hstep
      · cases hstep
        exact h.of_same rfl rfl rfl rfl (h.timers.congr rfl rfl rfl (.inl rfl))
          (h.setters.congr rfl rfl (fun _ hk => hk)) (h.recorded.congr rfl rfl)
      · cases hstep

end Inv

/-- What the backend promises about timers that are created and destroyed. -/
structure Sound (s : State) : Prop where
  /-- No two objects have one pair or one native timer, and what nobody has can be taken. -/
  pairs : SlotOwners s.pairOf s.pairUsed
  stores : SlotOwners s.storeOf s.storeUsed
  /-- A command comes to the timer that was meant, which is there. -/
  commands : ∀ c ∈ s.queue, ∀ t o, c.about = some (t, o) → ∃ native, s.natives[t]? = some native ∧
    native.alive = true ∧ native.object = o ∧ s.storeOf o = some t
  /-- The lambda finds the pair of the object that its timer was made for, as it was filled. -/
  lambda : ∀ t, s.daemon = .lambda t → ∃ native obj pair, s.natives[t]? = some native ∧
    s.objects[native.object]? = some obj ∧ s.pairOf native.object = some native.id ∧
    s.pairs[native.id]? = some pair ∧ pair.fn = some obj.fn ∧ pair.arg = obj.arg
  /-- Callbacks are called as they were given to `osal_timer_create`. -/
  called : ∀ o fn arg, .called o fn arg ∈ s.log → ∃ obj, s.objects[o]? = some obj ∧ obj.fn = fn ∧
    obj.arg = arg
  /-- When `osal_timer_destroy` has returned, the callback is not running, -/
  running : ∀ o, s.daemon = .running o → .destroyed o ∉ s.log
  /-- and is not called again. -/
  silent : s.log.Pairwise (fun a b => ∀ o fn arg, a = .destroyed o → b ≠ .called o fn arg)
  /-- Nobody waits for a fence that does not come. -/
  destroying : ∀ o p t, s.phase o = some (.await p t false) → .fence (.destroy o t) ∈ s.queue
  setting : ∀ k c, s.setters[k]? = some c → c.phase.awaits = true → .fence (.setter k) ∈ s.queue

theorem Inv.sound (h : Inv s) : Sound s where
  pairs := h.pools.pairs
  stores := h.pools.stores
  commands c hc t o hto := by
    obtain ⟨native, hnative, halive, rfl⟩ := h.timers.queued c hc t o hto
    exact ⟨native, hnative, halive, rfl, h.timers.storeOf_owner hnative halive⟩
  lambda t hdaemon := by
    obtain ⟨native, obj, pair, hnative, -, hobj, htimer, hpair, hfn, harg⟩ := h.found hdaemon
    exact ⟨native, obj, pair, hnative, hobj,
      (State.pairOf_of hobj).trans (Phase.pair_of_filled (Phase.filled_of_timer htimer)), hpair,
      hfn, harg⟩
  called := h.recorded.called
  running o hdaemon hmem := by
    have htimer := h.timers.running o hdaemon
    rw [State.timerOf, h.recorded.destroyed o hmem] at htimer
    cases htimer
  silent := h.recorded.silent
  destroying o p t hphase := by
    refine h.timers.awaited o t ?_
    rw [State.awaitsOf, hphase]
    rfl
  setting := h.setters.awaited

/-- Whatever tasks create, use and destroy timers, and in whatever order their steps and those of
the daemon come: nothing of a timer is used by another one before the daemon is done with it, as
long as nobody uses a timer that is being destroyed. -/
theorem timers_tear_down (maxTimers : Nat) (s : State)
    (h : (timerMachine maxTimers).ReachableBy (fun s a => s.orderly a = true) s) : Sound s :=
  (h.invariant (I := Inv) (Inv.init maxTimers) (fun _ _ _ _ hi ho hs => hi.step ho hs)).sound

/-- A one-shot timer is destroyed while its callback runs; the next timer has its pair and its
native timer. -/
def reuse : List Action :=
  List.flatten [
    [.create 5 50 false], List.replicate 4 (.advance 0 false),
    [.start 0 false, .command, .expire 0, .lambda, .destroy 0 false],
    List.replicate 3 (.advance 0 false), [.returns, .command, .command],
    List.replicate 3 (.advance 0 false),
    [.create 6 60 false], List.replicate 4 (.advance 1 false),
    [.start 1 false, .command, .expire 0, .lambda]]

theorem timers_tear_down_reuse : ∃ s, (timerMachine 1).Reachable s ∧
    s.log = [.called 0 5 50, .destroyed 0, .called 1 6 60] ∧ Sound s := by
  have hok : (timerMachine 1).RunOk (fun s a => s.orderly a = true) (timerMachine 1).init
      reuse := by
    decide +kernel
  have hlog : ((timerMachine 1).run (timerMachine 1).init reuse).map State.log =
      some [.called 0 5 50, .destroyed 0, .called 1 6 60] := by
    decide +kernel
  obtain ⟨s, hrun, hlog⟩ := Option.map_eq_some_iff.mp hlog
  have hs := Machine.ReachableBy.init.of_run hok hrun
  exact ⟨s, hs.reachable, hlog, timers_tear_down 1 s hs⟩

end MicrOsal.FreertosTimer
