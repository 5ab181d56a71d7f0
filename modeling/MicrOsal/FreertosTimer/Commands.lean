import MicrOsal.FreertosTimer.Slots

/-!
# MicrOsal.FreertosTimer.Commands

The native timers and the queue of the daemon.

The daemon takes commands in order. A deletion is behind every other command for its timer, and the
fence of `osal_timer_destroy` is behind the deletion; so when the fence comes back the timer is
gone, and nothing is left that was meant for it.
-/

namespace MicrOsal.FreertosTimer

variable {s r : State} {o p p' t t' : Nat} {obj : Object} {φ : Phase} {c : Command}
variable {native : Native}

/-! ### The native timers and the queue -/

namespace State

def timerOf (s : State) (o : Nat) : Option (Nat × Nat) := (s.phase o).bind Phase.timer?

def madeOf (s : State) (o : Nat) : Option (Nat × Nat) := (s.phase o).bind Phase.made?

def closingOf (s : State) (o : Nat) : Option (Nat × Nat) := (s.phase o).bind Phase.closing?

def awaitsOf (s : State) (o : Nat) : Option Nat := (s.phase o).bind Phase.awaits?

theorem madeOf_setPhase (hobj : s.objects[o]? = some obj) (φ : Phase) :
    (s.setPhase o φ).madeOf = Function.update s.madeOf o φ.made? := bind_setPhase hobj φ _

theorem closingOf_setPhase (hobj : s.objects[o]? = some obj) (φ : Phase) :
    (s.setPhase o φ).closingOf = Function.update s.closingOf o φ.closing? := bind_setPhase hobj φ _

theorem awaitsOf_setPhase (hobj : s.objects[o]? = some obj) (φ : Phase) :
    (s.setPhase o φ).awaitsOf = Function.update s.awaitsOf o φ.awaits? := bind_setPhase hobj φ _

/-- What an object keeps when it goes on. -/
theorem bind_setPhase_same {β : Type} {g : Phase → Option β} (hobj : s.objects[o]? = some obj)
    (h : g φ = g obj.phase) :
    (fun o' => ((s.setPhase o φ).phase o').bind g) = fun o' => (s.phase o').bind g := by
  refine (bind_setPhase hobj φ g).trans (Function.update_eq_self_iff.mpr ?_)
  rw [h, phase_of hobj]
  rfl

theorem timerOf_eq (s : State) (o : Nat) : s.timerOf o = (s.madeOf o).or (s.closingOf o) := by
  unfold timerOf madeOf closingOf
  cases s.phase o with
  | none => rfl
  | some φ => rfl

theorem storeOf_of_timerOf (h : s.timerOf o = some (p, t)) : s.storeOf o = some t := by
  obtain ⟨φ, hφ, htimer⟩ := Option.bind_eq_some_iff.mp h
  rw [storeOf, hφ]
  exact Phase.store_of_timer htimer

theorem timerOf_of_madeOf (h : s.madeOf o = some (p, t)) : s.timerOf o = some (p, t) := by
  obtain ⟨φ, hφ, hmade⟩ := Option.bind_eq_some_iff.mp h
  rw [timerOf, hφ]
  exact Phase.timer_of_made hmade

theorem live_of_native (h : s.native o = some t)
    (horderly : (! (s.phase o).any Phase.destroying) = true) :
    ∃ p, s.phase o = some (.live p t) := by
  obtain ⟨φ, hφ, hnative⟩ := Option.bind_eq_some_iff.mp h
  rw [hφ] at horderly ⊢
  cases φ <;> simp_all [Phase.native?, Phase.destroying]

theorem free_of_not_changing (h : (! s.changing o) = true) (k : Nat) (c : Setter)
    (hc : s.setters[k]? = some c) (hended : c.phase ≠ .ended) : c.object ≠ o := by
  rintro rfl
  have hmem := List.mem_of_getElem? hc
  have hany : s.changing c.object = true :=
    List.any_eq_true.mpr ⟨c, hmem, by simp [hended]⟩
  rw [hany] at h
  cases h

end State

/-- A deletion is behind everything else for its timer, and the fence behind the deletion. -/
def Before (a b : Command) : Prop :=
  (∀ t o, a = .delete t o → ∀ o', b.about ≠ some (t, o')) ∧
  (∀ o t, a = .fence (.destroy o t) → b ≠ a ∧ ∀ o', b.about ≠ some (t, o'))

structure Timers (s : State) : Prop where
  /-- A native timer is there for an object that has not been told that it is deleted. -/
  owned : ∀ t native, s.natives[t]? = some native → native.alive = true →
    s.timerOf native.object = some (native.id, t)
  made : ∀ o p t, s.madeOf o = some (p, t) → ∃ native, s.natives[t]? = some native ∧
    native.alive = true ∧ native.id = p ∧ native.object = o
  queued : ∀ c ∈ s.queue, ∀ t o, c.about = some (t, o) → ∃ native, s.natives[t]? = some native ∧
    native.alive = true ∧ native.object = o
  order : s.queue.Pairwise Before
  deletes : ∀ t o, .delete t o ∈ s.queue → ∃ p, s.closingOf o = some (p, t)
  fences : ∀ o t, .fence (.destroy o t) ∈ s.queue → s.awaitsOf o = some t
  pending : ∀ o p t native, s.closingOf o = some (p, t) → s.natives[t]? = some native →
    native.alive = true → .delete t o ∈ s.queue
  awaited : ∀ o t, s.awaitsOf o = some t → .fence (.destroy o t) ∈ s.queue
  lambda : ∀ t, s.daemon = .lambda t → ∃ native, s.natives[t]? = some native ∧ native.alive = true
  running : ∀ o, s.daemon = .running o → (s.timerOf o).isSome = true

namespace Timers

/-- A step that writes neither to the queue nor to a native timer. -/
theorem same (h : Timers s) (hmade : r.madeOf = s.madeOf) (hclosing : r.closingOf = s.closingOf)
    (hawaits : r.awaitsOf = s.awaitsOf) (hnatives : r.natives = s.natives)
    (hqueue : r.queue = s.queue) (hdaemon : r.daemon = .idle ∨ r.daemon = s.daemon) :
    Timers r := by
  have hbusy : ∀ d, r.daemon = d → d ≠ .idle → s.daemon = d := by
    rintro d rfl hd
    exact (hdaemon.resolve_left hd).symm
  have htimer : r.timerOf = s.timerOf := by
    funext o
    rw [State.timerOf_eq, State.timerOf_eq, hmade, hclosing]
  constructor
  · rw [hnatives, htimer]
    exact h.owned
  · rw [hnatives, hmade]
    exact h.made
  · rw [hnatives, hqueue]
    exact h.queued
  · rw [hqueue]
    exact h.order
  · rw [hqueue, hclosing]
    exact h.deletes
  · rw [hqueue, hawaits]
    exact h.fences
  · rw [hqueue, hclosing, hnatives]
    exact h.pending
  · rw [hqueue, hawaits]
    exact h.awaited
  · rw [hnatives]
    exact fun t ht => h.lambda t (hbusy _ ht (by rintro ⟨⟩))
  · rw [htimer]
    exact fun o ho => h.running o (hbusy _ ho (by rintro ⟨⟩))

theorem congr (h : Timers s) (hobjects : r.objects = s.objects)
    (hnatives : r.natives = s.natives) (hqueue : r.queue = s.queue)
    (hdaemon : r.daemon = .idle ∨ r.daemon = s.daemon) :
    Timers r := by
  refine h.same ?_ ?_ ?_ hnatives hqueue hdaemon <;> funext o
  · rw [State.madeOf, State.phase, hobjects]
    rfl
  · rw [State.closingOf, State.phase, hobjects]
    rfl
  · rw [State.awaitsOf, State.phase, hobjects]
    rfl

/-- An object goes on with its native timer as it is. -/
theorem setPhase (h : Timers s) (hobj : s.objects[o]? = some obj) (halike : obj.phase.Alike φ) :
    Timers (s.setPhase o φ) := by
  obtain ⟨hmade, hclosing, hawaits⟩ := halike
  exact h.same (State.bind_setPhase_same hobj hmade) (State.bind_setPhase_same hobj hclosing)
    (State.bind_setPhase_same hobj hawaits) rfl rfl (.inr rfl)

/-- The object that a native timer was made for holds it. -/
theorem storeOf_owner (h : Timers s) (hnative : s.natives[t]? = some native)
    (halive : native.alive = true) :
    s.storeOf native.object = some t :=
  State.storeOf_of_timerOf (h.owned t native hnative halive)

theorem storeOf_closing (ho : s.closingOf o = some (p, t)) : s.storeOf o = some t := by
  obtain ⟨φ, hφ, hclosing⟩ := Option.bind_eq_some_iff.mp ho
  exact State.storeOf_of_timerOf (by rw [State.timerOf, hφ]; exact Phase.timer_of_closing hclosing)

theorem storeOf_made (ho : s.madeOf o = some (p, t)) : s.storeOf o = some t :=
  State.storeOf_of_timerOf (State.timerOf_of_madeOf ho)

theorem not_made_closing (hmade : s.madeOf o = some (p, t))
    (hclosing : s.closingOf o = some (p', t')) : False := by
  obtain ⟨φ, hφ, hmade⟩ := Option.bind_eq_some_iff.mp hmade
  rw [State.closingOf, hφ] at hclosing
  exact Phase.not_made_closing hmade hclosing

theorem closing_of_awaits (ho : s.awaitsOf o = some t) : ∃ p, s.closingOf o = some (p, t) := by
  obtain ⟨φ, hφ, hawaits⟩ := Option.bind_eq_some_iff.mp ho
  obtain ⟨p, hclosing⟩ := Phase.closing_of_awaits hawaits
  exact ⟨p, by rw [State.closingOf, hφ]; exact hclosing⟩

/-- As long as the owner of a timer has not sent its deletion, nothing closes it. -/
theorem not_closed (h : Timers s) (hpools : Pools s) (hstore : s.storeOf o = some t)
    (hopen : s.closingOf o = none) (o' : Nat) :
    .delete t o' ∉ s.queue ∧ .fence (.destroy o' t) ∉ s.queue := by
  have hnot : ∀ p, s.closingOf o' ≠ some (p, t) := by
    intro p hclosing
    obtain rfl := hpools.stores.unique o' o t (storeOf_closing hclosing) hstore
    rw [hopen] at hclosing
    cases hclosing
  constructor
  · intro hmem
    obtain ⟨p, hclosing⟩ := h.deletes t o' hmem
    exact hnot p hclosing
  · intro hmem
    obtain ⟨p, hclosing⟩ := closing_of_awaits (h.fences o' t hmem)
    exact hnot p hclosing

/-- A command for such a timer may be sent. -/
theorem before (h : Timers s) (hpools : Pools s) (hstore : s.storeOf o = some t)
    (hopen : s.closingOf o = none) (habout : ∀ t' o', c.about = some (t', o') → t' = t)
    (hfence : ∀ o' t', c ≠ .fence (.destroy o' t')) : ∀ a ∈ s.queue, Before a c := by
  intro a ha
  constructor
  · rintro t' o' rfl o'' hc
    obtain rfl := habout t' o'' hc
    exact (h.not_closed hpools hstore hopen o').1 ha
  · rintro o' t' rfl
    refine ⟨hfence o' t', fun o'' hc => ?_⟩
    obtain rfl := habout t' o'' hc
    exact (h.not_closed hpools hstore hopen o').2 ha

/-- A command is sent to a timer that can be used, or by a change of the period. -/
theorem send (h : Timers s) (hbefore : ∀ a ∈ s.queue, Before a c)
    (habout : ∀ t o, c.about = some (t, o) → ∃ p, s.madeOf o = some (p, t))
    (hdelete : ∀ t o, c ≠ .delete t o) (hfence : ∀ o t, c ≠ .fence (.destroy o t)) :
    Timers (s.send c) where
  owned := h.owned
  made := h.made
  queued c' hc' t o hto := by
    rcases List.mem_append.mp hc' with hc' | hc'
    · exact h.queued c' hc' t o hto
    · obtain rfl := List.mem_singleton.mp hc'
      obtain ⟨p, hmade⟩ := habout t o hto
      obtain ⟨native, hnative, halive, -, hobject⟩ := h.made o p t hmade
      exact ⟨native, hnative, halive, hobject⟩
  order := by
    refine List.pairwise_append.mpr ⟨h.order, List.pairwise_singleton _ _, fun a ha b hb => ?_⟩
    obtain rfl := List.mem_singleton.mp hb
    exact hbefore a ha
  deletes t o hmem := by
    rcases List.mem_append.mp hmem with hmem | hmem
    · exact h.deletes t o hmem
    · exact absurd (List.mem_singleton.mp hmem).symm (hdelete t o)
  fences o t hmem := by
    rcases List.mem_append.mp hmem with hmem | hmem
    · exact h.fences o t hmem
    · exact absurd (List.mem_singleton.mp hmem).symm (hfence o t)
  pending o p t native hclosing hnative halive :=
    List.mem_append_left _ (h.pending o p t native hclosing hnative halive)
  awaited o t hawaits := List.mem_append_left _ (h.awaited o t hawaits)
  lambda := h.lambda
  running := h.running

/-- A command is sent for a timer that can be used. -/
theorem sendLive (h : Timers s) (hpools : Pools s) (hlive : s.phase o = some (.live p t))
    (habout : ∀ t' o', c.about = some (t', o') → t' = t ∧ o' = o)
    (hdelete : ∀ t o, c ≠ .delete t o) (hfence : ∀ o t, c ≠ .fence (.destroy o t)) :
    Timers (s.send c) := by
  have hmade : s.madeOf o = some (p, t) := by
    rw [State.madeOf, hlive]
    rfl
  have hopen : s.closingOf o = none := by
    rw [State.closingOf, hlive]
    rfl
  refine h.send ?_ ?_ hdelete hfence
  · exact h.before hpools (storeOf_made hmade) hopen (fun t' o' hto => (habout t' o' hto).1) hfence
  · intro t' o' hto
    obtain ⟨rfl, rfl⟩ := habout t' o' hto
    exact ⟨p, hmade⟩

/-- The object that is to be destroyed sends the deletion. -/
theorem sendDelete (h : Timers s) (hpools : Pools s)
    (hobj : s.objects[o]? = some obj) (hphase : obj.phase = .delete p t) :
    Timers ((s.send (.delete t o)).setPhase o (.fence p t)) := by
  have hmadeOf : s.madeOf o = some (p, t) := by
    rw [State.madeOf, State.phase_of hobj, hphase]
    rfl
  have hopen : s.closingOf o = none := by
    rw [State.closingOf, State.phase_of hobj, hphase]
    rfl
  have hmade : ((s.send (.delete t o)).setPhase o (.fence p t)).madeOf =
      Function.update s.madeOf o none := State.madeOf_setPhase (s := s.send _) hobj _
  have hclosing : ((s.send (.delete t o)).setPhase o (.fence p t)).closingOf =
      Function.update s.closingOf o (some (p, t)) := State.closingOf_setPhase (s := s.send _) hobj _
  have hawaits : ((s.send (.delete t o)).setPhase o (.fence p t)).awaitsOf = s.awaitsOf :=
    State.bind_setPhase_same (s := s.send _) hobj (by rw [hphase]; rfl)
  have htimer : ((s.send (.delete t o)).setPhase o (.fence p t)).timerOf = s.timerOf := by
    funext o'
    rw [State.timerOf_eq, State.timerOf_eq, hmade, hclosing]
    by_cases ho : o' = o
    · subst ho
      rw [Function.update_self, Function.update_self, hmadeOf]
      rfl
    · rw [Function.update_of_ne ho, Function.update_of_ne ho]
  constructor
  · rw [htimer]
    exact h.owned
  · intro o' p' t' hmade'
    rw [hmade] at hmade'
    by_cases ho : o' = o
    · subst ho
      rw [Function.update_self] at hmade'
      cases hmade'
    · rw [Function.update_of_ne ho] at hmade'
      exact h.made o' p' t' hmade'
  · intro c' hc' t' o' hto
    rcases List.mem_append.mp hc' with hc' | hc'
    · exact h.queued c' hc' t' o' hto
    · obtain rfl := List.mem_singleton.mp hc'
      obtain ⟨rfl, rfl⟩ := Prod.mk.inj (Option.some.inj hto)
      obtain ⟨native, hnative, halive, -, hobject⟩ := h.made o p t hmadeOf
      exact ⟨native, hnative, halive, hobject⟩
  · refine List.pairwise_append.mpr ⟨h.order, List.pairwise_singleton _ _, fun a ha b hb => ?_⟩
    obtain rfl := List.mem_singleton.mp hb
    refine h.before hpools (storeOf_made hmadeOf) hopen (fun t' o' hto => ?_) (fun o' t' heq => ?_)
      a ha
    · exact (Prod.mk.inj (Option.some.inj hto)).1.symm
    · cases heq
  · intro t' o' hmem
    rw [hclosing]
    rcases List.mem_append.mp hmem with hmem | hmem
    · obtain ⟨p', hp'⟩ := h.deletes t' o' hmem
      have ho : o' ≠ o := by
        rintro rfl
        rw [hopen] at hp'
        cases hp'
      exact ⟨p', by rw [Function.update_of_ne ho]; exact hp'⟩
    · cases List.mem_singleton.mp hmem
      exact ⟨p, Function.update_self ..⟩
  · intro o' t' hmem
    rw [hawaits]
    rcases List.mem_append.mp hmem with hmem | hmem
    · exact h.fences o' t' hmem
    · cases List.mem_singleton.mp hmem
  · intro o' p' t' native hclosing' hnative halive
    rw [hclosing] at hclosing'
    by_cases ho : o' = o
    · subst ho
      rw [Function.update_self] at hclosing'
      obtain ⟨rfl, rfl⟩ := Prod.mk.inj (Option.some.inj hclosing')
      exact List.mem_append_right _ List.mem_cons_self
    · rw [Function.update_of_ne ho] at hclosing'
      exact List.mem_append_left _ (h.pending o' p' t' native hclosing' hnative halive)
  · intro o' t' hawaits'
    rw [hawaits] at hawaits'
    exact List.mem_append_left _ (h.awaited o' t' hawaits')
  · exact h.lambda
  · rw [htimer]
    exact h.running

/-- The object that is to be destroyed sends the fence. -/
theorem sendFence (h : Timers s) (hobj : s.objects[o]? = some obj)
    (hphase : obj.phase = .fence p t) :
    Timers ((s.send (.fence (.destroy o t))).setPhase o (.await p t false)) := by
  have hnone : s.awaitsOf o = none := by
    rw [State.awaitsOf, State.phase_of hobj, hphase]
    rfl
  have hmade : ((s.send (.fence (.destroy o t))).setPhase o (.await p t false)).madeOf =
      s.madeOf := State.bind_setPhase_same (s := s.send _) hobj (by rw [hphase]; rfl)
  have hclosing : ((s.send (.fence (.destroy o t))).setPhase o (.await p t false)).closingOf =
      s.closingOf := State.bind_setPhase_same (s := s.send _) hobj (by rw [hphase]; rfl)
  have hawaits : ((s.send (.fence (.destroy o t))).setPhase o (.await p t false)).awaitsOf =
      Function.update s.awaitsOf o (some t) := State.awaitsOf_setPhase (s := s.send _) hobj _
  have hfresh : ∀ o' t', .fence (.destroy o' t') ∈ s.queue → o' ≠ o := by
    rintro o' t' hmem rfl
    have hold := h.fences o' t' hmem
    rw [hnone] at hold
    cases hold
  have htimer : ((s.send (.fence (.destroy o t))).setPhase o (.await p t false)).timerOf =
      s.timerOf := by
    funext o'
    rw [State.timerOf_eq, State.timerOf_eq, hmade, hclosing]
  constructor
  · rw [htimer]
    exact h.owned
  · rw [hmade]
    exact h.made
  · intro c' hc' t' o' hto
    rcases List.mem_append.mp hc' with hc' | hc'
    · exact h.queued c' hc' t' o' hto
    · obtain rfl := List.mem_singleton.mp hc'
      cases hto
  · refine List.pairwise_append.mpr ⟨h.order, List.pairwise_singleton _ _, fun a ha b hb => ?_⟩
    obtain rfl := List.mem_singleton.mp hb
    constructor
    · intro t' o' _ o'' hto
      cases hto
    · rintro o' t' rfl
      refine ⟨fun heq => ?_, fun o'' hto => ?_⟩
      · cases heq
        exact hfresh o t ha rfl
      · cases hto
  · intro t' o' hmem
    rw [hclosing]
    rcases List.mem_append.mp hmem with hmem | hmem
    · exact h.deletes t' o' hmem
    · cases List.mem_singleton.mp hmem
  · intro o' t' hmem
    rw [hawaits]
    rcases List.mem_append.mp hmem with hmem | hmem
    · rw [Function.update_of_ne (hfresh o' t' hmem)]
      exact h.fences o' t' hmem
    · cases List.mem_singleton.mp hmem
      exact Function.update_self ..
  · intro o' p' t' native hclosing' hnative halive
    rw [hclosing] at hclosing'
    exact List.mem_append_left _ (h.pending o' p' t' native hclosing' hnative halive)
  · intro o' t' hawaits'
    rw [hawaits] at hawaits'
    by_cases ho : o' = o
    · subst ho
      rw [Function.update_self] at hawaits'
      cases hawaits'
      exact List.mem_append_right _ List.mem_cons_self
    · rw [Function.update_of_ne ho] at hawaits'
      exact List.mem_append_left _ (h.awaited o' t' hawaits')
  · exact h.lambda
  · rw [htimer]
    exact h.running

/-- A native timer is written to, and stays the timer it is. -/
theorem setNative (h : Timers s) {g : Native → Native}
    (hg : ∀ n, (g n).alive = n.alive ∧ (g n).id = n.id ∧ (g n).object = n.object) :
    Timers (s.setNative t g) := by
  have hnew : ∀ (t' : Nat) (native : Native), s.natives[t']? = some native → ∃ native' : Native,
      (s.setNative t g).natives[t']? = some native' ∧ native'.alive = native.alive ∧
        native'.id = native.id ∧ native'.object = native.object := by
    intro t' native hnative
    by_cases ht : t' = t
    · subst ht
      exact ⟨g native, by simp [State.setNative, hnative], hg native⟩
    · exact ⟨native, by simpa [State.setNative, List.getElem?_modify_ne _ _ (Ne.symm ht)] using
        hnative, rfl, rfl, rfl⟩
  have hold : ∀ (t' : Nat) (native' : Native), (s.setNative t g).natives[t']? = some native' →
      ∃ native : Native,
      s.natives[t']? = some native ∧ native'.alive = native.alive ∧ native'.id = native.id ∧
        native'.object = native.object := by
    intro t' native' hnative'
    rcases getElem?_modify_cases hnative' with ⟨rfl, native, hnative, rfl⟩ | ⟨-, hnative⟩
    · exact ⟨native, hnative, hg native⟩
    · exact ⟨native', hnative, rfl, rfl, rfl⟩
  constructor
  · intro t' native' hnative' halive
    obtain ⟨native, hnative, ha, hid, hobject⟩ := hold t' native' hnative'
    rw [hid, hobject]
    exact h.owned t' native hnative (ha ▸ halive)
  · intro o p t' hmade
    obtain ⟨native, hnative, halive, hid, hobject⟩ := h.made o p t' hmade
    obtain ⟨native', hnative', ha', hid', hobject'⟩ := hnew t' native hnative
    exact ⟨native', hnative', ha'.trans halive, hid'.trans hid, hobject'.trans hobject⟩
  · intro c hc t' o hto
    obtain ⟨native, hnative, halive, hobject⟩ := h.queued c hc t' o hto
    obtain ⟨native', hnative', ha', -, hobject'⟩ := hnew t' native hnative
    exact ⟨native', hnative', ha'.trans halive, hobject'.trans hobject⟩
  · exact h.order
  · exact h.deletes
  · exact h.fences
  · intro o p t' native' hclosing hnative' halive
    obtain ⟨native, hnative, ha, -⟩ := hold t' native' hnative'
    exact h.pending o p t' native hclosing hnative (ha ▸ halive)
  · exact h.awaited
  · intro t' hdaemon
    obtain ⟨native, hnative, halive⟩ := h.lambda t' hdaemon
    obtain ⟨native', hnative', ha', -⟩ := hnew t' native hnative
    exact ⟨native', hnative', ha'.trans halive⟩
  · exact h.running

/-- The daemon takes a command that closes nothing. -/
theorem pop {rest : List Command} (h : Timers s) (hqueue : s.queue = c :: rest)
    (hdelete : ∀ t o, c ≠ .delete t o) (hfence : ∀ o t, c ≠ .fence (.destroy o t)) :
    Timers { s with queue := rest } where
  owned := h.owned
  made := h.made
  queued c' hc' := h.queued c' (by rw [hqueue]; exact List.mem_cons_of_mem _ hc')
  order := (List.pairwise_cons.mp (hqueue ▸ h.order)).2
  deletes t o hmem := h.deletes t o (by rw [hqueue]; exact List.mem_cons_of_mem _ hmem)
  fences o t hmem := h.fences o t (by rw [hqueue]; exact List.mem_cons_of_mem _ hmem)
  pending o p t native hclosing hnative halive := by
    have hmem := h.pending o p t native hclosing hnative halive
    rw [hqueue] at hmem
    exact (List.mem_cons.mp hmem).resolve_left (fun heq => hdelete t o heq.symm)
  awaited o t hawaits := by
    have hmem := h.awaited o t hawaits
    rw [hqueue] at hmem
    exact (List.mem_cons.mp hmem).resolve_left (fun heq => hfence o t heq.symm)
  lambda := h.lambda
  running := h.running

/-- The daemon deletes a timer. -/
theorem popDelete {rest : List Command} (h : Timers s) (hpools : Pools s)
    (hqueue : s.queue = .delete t o :: rest) (hidle : s.daemon = .idle) {g : Native → Native}
    (hg : ∀ n, (g n).alive = false) :
    Timers (({ s with queue := rest } : State).setNative t g) := by
  obtain ⟨hhead, htail⟩ := List.pairwise_cons.mp (hqueue ▸ h.order)
  have hsub : ∀ c ∈ rest, c ∈ s.queue := fun c hc => by
    rw [hqueue]
    exact List.mem_cons_of_mem _ hc
  obtain ⟨p, hclosing⟩ := h.deletes t o (by rw [hqueue]; exact List.mem_cons_self)
  have hstore := storeOf_closing hclosing
  have hkeep : ∀ (t' : Nat) (native : Native), t' ≠ t → s.natives[t']? = some native →
      (({ s with queue := rest } : State).setNative t g).natives[t']? = some native := by
    intro t' native ht hnative
    simpa [State.setNative, List.getElem?_modify_ne _ _ (Ne.symm ht)] using hnative
  have hold : ∀ (t' : Nat) (native : Native),
      (({ s with queue := rest } : State).setNative t g).natives[t']? = some native →
      native.alive = true → t' ≠ t ∧ s.natives[t']? = some native := by
    intro t' native hnative halive
    rcases getElem?_modify_cases hnative with ⟨rfl, n, -, rfl⟩ | ⟨ht, hnative⟩
    · rw [hg n] at halive
      cases halive
    · exact ⟨ht, hnative⟩
  constructor
  · intro t' native hnative halive
    exact h.owned t' native (hold t' native hnative halive).2 halive
  · intro o' p' t' hmade
    obtain ⟨native, hnative, hrest⟩ := h.made o' p' t' hmade
    refine ⟨native, hkeep t' native ?_ hnative, hrest⟩
    rintro rfl
    obtain rfl := hpools.stores.unique o' o t' (storeOf_made hmade) hstore
    exact not_made_closing hmade hclosing
  · intro c hc t' o' hto
    obtain ⟨native, hnative, hrest⟩ := h.queued c (hsub c hc) t' o' hto
    refine ⟨native, hkeep t' native ?_ hnative, hrest⟩
    rintro rfl
    exact (hhead c hc).1 t' o rfl o' hto
  · exact htail
  · exact fun t' o' hmem => h.deletes t' o' (hsub _ hmem)
  · exact fun o' t' hmem => h.fences o' t' (hsub _ hmem)
  · intro o' p' t' native hclosing' hnative halive
    obtain ⟨ht, hnative⟩ := hold t' native hnative halive
    have hmem := h.pending o' p' t' native hclosing' hnative halive
    rw [hqueue] at hmem
    refine (List.mem_cons.mp hmem).resolve_left (fun heq => ht ?_)
    cases heq
    rfl
  · intro o' t' hawaits
    have hmem := h.awaited o' t' hawaits
    rw [hqueue] at hmem
    refine (List.mem_cons.mp hmem).resolve_left (fun heq => ?_)
    cases heq
  · exact fun t' ht => absurd (hidle.symm.trans ht) (by rintro ⟨⟩)
  · exact fun o' ho => absurd (hidle.symm.trans ho) (by rintro ⟨⟩)

/-- The fence of a destruction comes back: the timer has been deleted, and no command for it is
left. -/
theorem popFence {rest : List Command} (h : Timers s)
    (hqueue : s.queue = .fence (.destroy o t) :: rest) (hidle : s.daemon = .idle)
    (hobj : s.objects[o]? = some obj) (hphase : obj.phase = .await p t false) :
    Timers (({ s with queue := rest } : State).setPhase o (.await p t true)) := by
  obtain ⟨hhead, htail⟩ := List.pairwise_cons.mp (hqueue ▸ h.order)
  have hafter : ∀ c ∈ rest, c ≠ .fence (.destroy o t) ∧ ∀ o', c.about ≠ some (t, o') :=
    fun c hc => (hhead c hc).2 o t rfl
  have hsub : ∀ c ∈ rest, c ∈ s.queue := fun c hc => by
    rw [hqueue]
    exact List.mem_cons_of_mem _ hc
  have hclosingOf : s.closingOf o = some (p, t) := by
    rw [State.closingOf, State.phase_of hobj, hphase]
    rfl
  have hnoDelete : .delete t o ∉ rest := fun hmem => (hafter _ hmem).2 o rfl
  have hdead : ∀ native, s.natives[t]? = some native → native.alive = true → False := by
    intro native hnative halive
    have hmem := h.pending o p t native hclosingOf hnative halive
    rw [hqueue] at hmem
    rcases List.mem_cons.mp hmem with heq | hmem
    · cases heq
    · exact hnoDelete hmem
  have hmade : (({ s with queue := rest } : State).setPhase o (.await p t true)).madeOf =
      s.madeOf :=
    State.bind_setPhase_same (s := { s with queue := rest }) hobj (by rw [hphase]; rfl)
  have hclosing : (({ s with queue := rest } : State).setPhase o (.await p t true)).closingOf =
      Function.update s.closingOf o none :=
    State.closingOf_setPhase (s := { s with queue := rest }) hobj _
  have hawaits : (({ s with queue := rest } : State).setPhase o (.await p t true)).awaitsOf =
      Function.update s.awaitsOf o none :=
    State.awaitsOf_setPhase (s := { s with queue := rest }) hobj _
  constructor
  · intro t' native hnative halive
    have howned := h.owned t' native hnative halive
    rw [State.timerOf_eq] at howned ⊢
    rw [hmade, hclosing]
    by_cases ho : native.object = o
    · rw [ho, State.madeOf, State.phase_of hobj, hphase, hclosingOf] at howned
      obtain ⟨-, rfl⟩ := Prod.mk.inj (Option.some.inj howned)
      exact (hdead native hnative halive).elim
    · rwa [Function.update_of_ne ho]
  · rw [hmade]
    exact h.made
  · exact fun c hc => h.queued c (hsub c hc)
  · exact htail
  · intro t' o' hmem
    obtain ⟨p', hp'⟩ := h.deletes t' o' (hsub _ hmem)
    rw [hclosing]
    by_cases ho : o' = o
    · subst ho
      rw [hclosingOf] at hp'
      cases hp'
      exact absurd hmem hnoDelete
    · exact ⟨p', by rw [Function.update_of_ne ho]; exact hp'⟩
  · intro o' t' hmem
    have hold := h.fences o' t' (hsub _ hmem)
    rw [hawaits]
    by_cases ho : o' = o
    · subst ho
      rw [State.awaitsOf, State.phase_of hobj, hphase] at hold
      cases hold
      exact absurd rfl (hafter _ hmem).1
    · rwa [Function.update_of_ne ho]
  · intro o' p' t' native hclosing' hnative halive
    rw [hclosing] at hclosing'
    by_cases ho : o' = o
    · subst ho
      rw [Function.update_self] at hclosing'
      cases hclosing'
    · rw [Function.update_of_ne ho] at hclosing'
      have hmem := h.pending o' p' t' native hclosing' hnative halive
      rw [hqueue] at hmem
      refine (List.mem_cons.mp hmem).resolve_left (fun heq => ?_)
      cases heq
  · intro o' t' hawaits'
    rw [hawaits] at hawaits'
    by_cases ho : o' = o
    · subst ho
      rw [Function.update_self] at hawaits'
      cases hawaits'
    · rw [Function.update_of_ne ho] at hawaits'
      have hmem := h.awaited o' t' hawaits'
      rw [hqueue] at hmem
      refine (List.mem_cons.mp hmem).resolve_left (fun heq => ?_)
      cases heq
      exact ho rfl
  · exact fun t' ht => absurd (hidle.symm.trans ht) (by rintro ⟨⟩)
  · exact fun o' ho => absurd (hidle.symm.trans ho) (by rintro ⟨⟩)

/-- A native timer is made in a slot where there is none. -/
theorem make (h : Timers s) (hpools : Pools s) (hobj : s.objects[o]? = some obj)
    (hphase : obj.phase = .create p t) (autoReload : Bool) :
    Timers ((s.setNative t (fun _ => ⟨true, false, autoReload, p, o⟩)).setPhase o (.live p t)) := by
  have hstore : s.storeOf o = some t := by
    rw [State.storeOf_of hobj, hphase]
    rfl
  have hmadeOf : s.madeOf o = none := by
    rw [State.madeOf, State.phase_of hobj, hphase]
    rfl
  have hclosingOf : s.closingOf o = none := by
    rw [State.closingOf, State.phase_of hobj, hphase]
    rfl
  have hlt : t < s.natives.length := by
    rw [hpools.length]
    exact State.lt_of_storeUsed (hpools.stores.used_of_holder hstore)
  have hdead : ∀ native, s.natives[t]? = some native → native.alive = true → False := by
    intro native hnative halive
    have howned := h.owned t native hnative halive
    have ho := hpools.stores.unique _ _ _ (State.storeOf_of_timerOf howned) hstore
    rw [ho, State.timerOf_eq, hmadeOf, hclosingOf] at howned
    cases howned
  have hne : ∀ t' native, s.natives[t']? = some native → native.alive = true → t' ≠ t := by
    rintro t' native hnative halive rfl
    exact hdead native hnative halive
  let s₁ := s.setNative t (fun _ => ⟨true, false, autoReload, p, o⟩)
  have hkeep : ∀ (t' : Nat) (native : Native), s.natives[t']? = some native →
      native.alive = true → s₁.natives[t']? = some native := by
    intro t' native hnative halive
    simpa [s₁, State.setNative, List.getElem?_modify_ne _ _ (hne t' native hnative halive).symm]
      using hnative
  have hnew : s₁.natives[t]? = some ⟨true, false, autoReload, p, o⟩ := by
    simp [s₁, State.setNative, List.getElem?_eq_getElem hlt]
  have hmade : (s₁.setPhase o (.live p t)).madeOf = Function.update s.madeOf o (some (p, t)) :=
    State.madeOf_setPhase (s := s₁) hobj _
  have hclosing : (s₁.setPhase o (.live p t)).closingOf = s.closingOf :=
    State.bind_setPhase_same (s := s₁) hobj (by rw [hphase]; rfl)
  have hawaits : (s₁.setPhase o (.live p t)).awaitsOf = s.awaitsOf :=
    State.bind_setPhase_same (s := s₁) hobj (by rw [hphase]; rfl)
  have hold : ∀ (t' : Nat) (native : Native), s₁.natives[t']? = some native → t' ≠ t →
      s.natives[t']? = some native := by
    intro t' native hnative ht
    simpa [s₁, State.setNative, List.getElem?_modify_ne _ _ (Ne.symm ht)] using hnative
  constructor
  · intro t' native hnative halive
    rw [State.timerOf_eq, hmade, hclosing]
    by_cases ht : t' = t
    · subst ht
      obtain rfl := Option.some.inj (hnew.symm.trans hnative)
      rw [Function.update_self]
      rfl
    · have hnative' := hold t' native hnative ht
      have howned := h.owned t' native hnative' halive
      have ho : native.object ≠ o := by
        intro ho
        rw [ho, State.timerOf_eq, hmadeOf, hclosingOf] at howned
        cases howned
      rw [Function.update_of_ne ho, ← State.timerOf_eq]
      exact howned
  · intro o' p' t' hmade'
    rw [hmade] at hmade'
    by_cases ho : o' = o
    · subst ho
      rw [Function.update_self] at hmade'
      cases hmade'
      exact ⟨_, hnew, rfl, rfl, rfl⟩
    · rw [Function.update_of_ne ho] at hmade'
      obtain ⟨native, hnative, halive, hrest⟩ := h.made o' p' t' hmade'
      exact ⟨native, hkeep t' native hnative halive, halive, hrest⟩
  · intro c hc t' o' hto
    obtain ⟨native, hnative, halive, hobject⟩ := h.queued c hc t' o' hto
    exact ⟨native, hkeep t' native hnative halive, halive, hobject⟩
  · exact h.order
  · rw [hclosing]
    exact h.deletes
  · rw [hawaits]
    exact h.fences
  · intro o' p' t' native hclosing' hnative halive
    rw [hclosing] at hclosing'
    refine h.pending o' p' t' native hclosing' (hold t' native hnative ?_) halive
    rintro rfl
    obtain rfl := hpools.stores.unique _ _ _ (storeOf_closing hclosing') hstore
    rw [hclosingOf] at hclosing'
    cases hclosing'
  · rw [hawaits]
    exact h.awaited
  · intro t' hdaemon
    obtain ⟨native, hnative, halive⟩ := h.lambda t' hdaemon
    exact ⟨native, hkeep t' native hnative halive, halive⟩
  · intro o' hdaemon
    by_cases ho : o' = o
    · subst ho
      rw [State.timerOf_eq, hmade, Function.update_self]
      rfl
    · rw [State.timerOf_eq, hmade, hclosing, Function.update_of_ne ho, ← State.timerOf_eq]
      exact h.running o' hdaemon

/-- The daemon goes on to another thing. -/
theorem setDaemon (h : Timers s) {d : Daemon}
    (hlambda : ∀ t, d = .lambda t →
      ∃ native : Native, s.natives[t]? = some native ∧ native.alive = true)
    (hrunning : ∀ o, d = .running o → (s.timerOf o).isSome = true) :
    Timers { s with daemon := d } where
  owned := h.owned
  made := h.made
  queued := h.queued
  order := h.order
  deletes := h.deletes
  fences := h.fences
  pending := h.pending
  awaited := h.awaited
  lambda := hlambda
  running := hrunning

end Timers

end MicrOsal.FreertosTimer
