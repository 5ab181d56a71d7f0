import MicrOsal.Registry.Dispatch

/-!
# MicrOsal.Registry.Routing

The counters: `routing_` counts the calls of `route_to(dest, …)`, and the active entries
of a registry count its calls of `dispatch`.

The second bounds how deep calls can nest through one registry, by `MaxTopics`: a cycle
of routes ends at the first entry that is in use.
-/

namespace MicrOsal.Registry

/-- What the counters count. -/
structure Counted (s : State) : Prop where
  active : ∀ r, s.count (Frame.on r) = s.activeCount r
  routing : ∀ p, s.count (Frame.routes p) = s.routing p

section Steps

variable {s s' : State} {n r k id p : Nat} {th th' : Thread} {reg reg' : TopicRegistry}
variable {topic topic' : Topic} {e e' : Entry} {evs : List Event}

/-! ### The counters after an update -/

theorem State.activeCount_congr (hregs : s'.registries = s.registries) (r : Nat) :
    s'.activeCount r = s.activeCount r := by
  rw [State.activeCount, State.activeCount, hregs]

theorem State.routing_congr (htopics : s'.topics = s.topics) (p : Nat) :
    s'.routing p = s.routing p := by
  rw [State.routing, State.routing, htopics]

theorem State.activeCount_eq (hreg : s.registries[r]? = some reg) :
    s.activeCount r = reg.entries.countP (·.active) := by
  rw [State.activeCount, hreg]
  rfl

theorem State.routing_eq (htopic : s.topics[p]? = some topic) : s.routing p = topic.routing := by
  rw [State.routing, htopic]
  rfl

/-- An entry's flag counts for its old one. -/
theorem State.activeCount_set (hreg : s.registries[r]? = some reg)
    (he : reg.entries[k]? = some e) (hregs : s'.registries = s.registries.set r reg')
    (hset : reg'.entries = reg.entries.set k e') :
    s'.activeCount r + (if e.active then 1 else 0) =
      s.activeCount r + (if e'.active then 1 else 0) := by
  have hself : s'.registries[r]? = some reg' := by
    rw [hregs, List.getElem?_set_self (List.getElem?_eq_some_iff.mp hreg).1]
  rw [State.activeCount_eq hself, State.activeCount_eq hreg, hset]
  exact countP_set _ he

theorem State.activeCount_set_ne {r' : Nat} (hregs : s'.registries = s.registries.set r reg')
    (hne : r' ≠ r) : s'.activeCount r' = s.activeCount r' := by
  rw [State.activeCount, State.activeCount, hregs, List.getElem?_set_ne (Ne.symm hne)]

theorem State.routing_set (htopic : s.topics[p]? = some topic)
    (htopics : s'.topics = s.topics.set p topic') (q : Nat) :
    s'.routing q = if q = p then topic'.routing else s.routing q := by
  by_cases hq : q = p
  · subst hq
    have hself : s'.topics[q]? = some topic' := by
      rw [htopics, List.getElem?_set_self (List.getElem?_eq_some_iff.mp htopic).1]
    rw [if_pos rfl, State.routing_eq hself]
  · rw [if_neg hq, State.routing, State.routing, htopics, List.getElem?_set_ne (Ne.symm hq)]

theorem State.activeCount_concat (maxTopics : Nat) (mutexValid : Bool) (r : Nat) :
    State.activeCount { s with
      registries := s.registries ++ [TopicRegistry.create maxTopics mutexValid] } r =
        s.activeCount r := by
  rw [State.activeCount, State.activeCount]
  dsimp only
  rcases Nat.lt_trichotomy r s.registries.length with hlt | heq | hgt
  · rw [List.getElem?_append_left hlt]
  · subst heq
    have hnone : s.registries[s.registries.length]? = none := List.getElem?_eq_none (Nat.le_refl _)
    rw [List.getElem?_concat_length, hnone]
    simp [TopicRegistry.create, Entry.empty, List.countP_replicate]
  · have hnone : s.registries[r]? = none := List.getElem?_eq_none (by omega)
    have hnone' : (s.registries ++ [TopicRegistry.create maxTopics mutexValid])[r]? = none :=
      List.getElem?_eq_none (by simp; omega)
    rw [hnone, hnone']

theorem State.routing_concat (routeMutexValid : Bool) (p : Nat) :
    State.routing { s with topics := s.topics ++ [⟨routeMutexValid, none, 0⟩] } p =
      s.routing p := by
  rw [State.routing, State.routing]
  dsimp only
  rcases Nat.lt_trichotomy p s.topics.length with hlt | heq | hgt
  · rw [List.getElem?_append_left hlt]
  · subst heq
    have hnone : s.topics[s.topics.length]? = none := List.getElem?_eq_none (Nat.le_refl _)
    rw [List.getElem?_concat_length, hnone]
    rfl
  · have hnone : s.topics[p]? = none := List.getElem?_eq_none (by omega)
    have hnone' : (s.topics ++ [⟨routeMutexValid, none, 0⟩])[p]? = none :=
      List.getElem?_eq_none (by simp; omega)
    rw [hnone, hnone']

/-! ### Steps -/

/-- A thread moves on, and nothing that is counted changes. -/
theorem Counted.same (hc : Counted s) (hth : s.threads[n]? = some th)
    (hths : s'.threads = s.threads.set n th')
    (hon : ∀ r, th'.stack.countP (Frame.on r) = th.stack.countP (Frame.on r))
    (hroutes : ∀ p, th'.stack.countP (Frame.routes p) = th.stack.countP (Frame.routes p))
    (hact : ∀ r, s'.activeCount r = s.activeCount r) (hrt : ∀ p, s'.routing p = s.routing p) :
    Counted s' where
  active r := by
    rw [State.count_set_eq hth hths (hon r), hact]
    exact hc.active r
  routing p := by
    rw [State.count_set_eq hth hths (hroutes p), hrt]
    exact hc.routing p

/-- A thread keeps its stack, and one entry changes but for its flag. -/
theorem Counted.entry (hc : Counted s) (hth : s.threads[n]? = some th)
    (hths : s'.threads = s.threads.set n th') (hstack : th'.stack = th.stack)
    (htopics : s'.topics = s.topics) (hreg : s.registries[r]? = some reg)
    (he : reg.entries[k]? = some e) (hregs : s'.registries = s.registries.set r reg')
    (hset : reg'.entries = reg.entries.set k e') (hflag : e'.active = e.active) : Counted s' := by
  refine hc.same hth hths (fun _ => by rw [hstack]) (fun _ => by rw [hstack]) ?_
    (State.routing_congr htopics)
  intro r'
  by_cases hr : r' = r
  · subst hr
    have := State.activeCount_set hreg he hregs hset
    rw [hflag] at this
    omega
  · exact State.activeCount_set_ne hregs hr

/-- `dispatch` selects an entry. -/
theorem Counted.select {stack : List Frame} {last : Return} {via : Option Nat}
    (hc : Counted s) (hth : s.threads[n]? = some th)
    (hths : s'.threads = s.threads.set n ⟨.selected r k id via :: stack, last⟩)
    (htopics : s'.topics = s.topics) (hreg : s.registries[r]? = some reg)
    (he : reg.entries[k]? = some ⟨some p, id, false⟩) (henter : Enters r id th.stack stack)
    (hregs : s'.registries = s.registries.set r reg')
    (hset : reg'.entries = reg.entries.set k ⟨some p, id, true⟩) : Counted s' where
  active r' := by
    have hcount := State.count_set (f := Frame.on r') hth hths
    rw [List.countP_cons, (RouteBlind.on r').enters henter] at hcount
    have hold := hc.active r'
    by_cases hr : r' = r
    · subst hr
      have hact := State.activeCount_set hreg he hregs hset
      simp only [Frame.on, decide_true, if_true] at hcount
      simp only [if_true] at hact
      simp only [Bool.false_eq_true, if_false] at hact
      omega
    · rw [State.activeCount_set_ne hregs hr]
      simp only [Frame.on, decide_eq_true_eq, Ne.symm hr, if_false] at hcount
      omega
  routing q := by
    have hcount : s'.count (Frame.routes q) = s.count (Frame.routes q) := by
      refine State.count_set_eq hth hths ?_
      rw [← (RouteBlind.routes q).enters henter]
      exact List.countP_cons_of_neg (by simp [Frame.routes])
    rw [hcount, State.routing_congr htopics]
    exact hc.routing q

/-- `dispatch` clears its entry. -/
theorem Counted.clear {rest : List Frame} {last : Return} {via : Option Nat}
    {status : RouteStatus} (hc : Counted s)
    (hth : s.threads[n]? = some ⟨.publishing r k id via p :: rest, last⟩)
    (hths : s'.threads = s.threads.set n (State.returnStatus rest last status))
    (htopics : s'.topics = s.topics) (hreg : s.registries[r]? = some reg)
    (he : reg.entries[k]? = some ⟨some p, id, true⟩)
    (hregs : s'.registries = s.registries.set r reg')
    (hset : reg'.entries = reg.entries.set k ⟨some p, id, false⟩) : Counted s' where
  active r' := by
    have hcount := State.count_set (f := Frame.on r') hth hths
    rw [List.countP_cons, (RouteBlind.on r').returnStatus] at hcount
    have hold := hc.active r'
    by_cases hr : r' = r
    · subst hr
      have hact := State.activeCount_set hreg he hregs hset
      simp only [Frame.on, decide_true, if_true] at hcount
      simp only [if_true] at hact
      simp only [Bool.false_eq_true, if_false] at hact
      omega
    · rw [State.activeCount_set_ne hregs hr]
      simp only [Frame.on, decide_eq_true_eq, Ne.symm hr, if_false] at hcount
      omega
  routing q := by
    have hcount : s'.count (Frame.routes q) = s.count (Frame.routes q) := by
      refine State.count_set_eq hth hths ?_
      rw [(RouteBlind.routes q).returnStatus]
      exact (List.countP_cons_of_neg (by simp [Frame.routes])).symm
    rw [hcount, State.routing_congr htopics]
    exact hc.routing q

/-- `route_to` counts itself in. -/
theorem Counted.enter {dest : Nat} {last : Return} (hc : Counted s)
    (hth : s.threads[n]? = some th)
    (hths : s'.threads = s.threads.set n ⟨.route p r dest :: th.stack, last⟩)
    (hregs : s'.registries = s.registries) (htopic : s.topics[p]? = some topic)
    (htopics : s'.topics = s.topics.set p topic') (hup : topic'.routing = topic.routing + 1) :
    Counted s' where
  active r' := by
    have hcount : s'.count (Frame.on r') = s.count (Frame.on r') :=
      State.count_set_eq hth hths (List.countP_cons_of_neg (by simp [Frame.on]))
    rw [hcount, State.activeCount_congr hregs]
    exact hc.active r'
  routing q := by
    have hcount := State.count_set (f := Frame.routes q) hth hths
    rw [List.countP_cons] at hcount
    have hold := hc.routing q
    rw [State.routing_set htopic htopics q]
    by_cases hq : q = p
    · subst hq
      rw [State.routing_eq htopic] at hold
      simp only [Frame.routes, decide_true, if_true] at hcount ⊢
      omega
    · simp only [Frame.routes, decide_eq_true_eq, Ne.symm hq, hq, if_false] at hcount ⊢
      omega

/-- `route_to` counts itself out. -/
theorem Counted.leave {rest : List Frame} {last last' : Return} {status : RouteStatus}
    (hc : Counted s) (hth : s.threads[n]? = some ⟨.routed p status :: rest, last⟩)
    (hths : s'.threads = s.threads.set n ⟨rest, last'⟩)
    (hregs : s'.registries = s.registries) (htopic : s.topics[p]? = some topic)
    (htopics : s'.topics = s.topics.set p topic')
    (hdown : topic'.routing = sizeDecr topic.routing) : Counted s' where
  active r' := by
    have hcount : s'.count (Frame.on r') = s.count (Frame.on r') :=
      State.count_set_eq hth hths (List.countP_cons_of_neg (by simp [Frame.on])).symm
    rw [hcount, State.activeCount_congr hregs]
    exact hc.active r'
  routing q := by
    have hcount := State.count_set (f := Frame.routes q) hth hths
    rw [List.countP_cons] at hcount
    have hold := hc.routing q
    rw [State.routing_set htopic htopics q]
    by_cases hq : q = p
    · subst hq
      rw [State.routing_eq htopic] at hold
      have hpos : 0 < s.count (Frame.routes q) :=
        State.count_pos hth (List.mem_cons_self ..) (by simp [Frame.routes])
      have hdecr : topic'.routing = topic.routing - 1 := hdown.trans (sizeDecr_of_pos (by omega))
      simp only [Frame.routes, decide_true, if_true] at hcount ⊢
      omega
    · simp only [Frame.routes, decide_eq_true_eq, Ne.symm hq, hq, if_false] at hcount ⊢
      omega

theorem Counted.init : Counted registryMachine.init := ⟨fun _ => rfl, fun _ => rfl⟩

/-- A new thread is in no call. -/
theorem State.count_spawn (f : Frame → Bool) :
    State.count { s with threads := s.threads ++ [⟨[], .void⟩] } f = s.count f := by
  rw [State.count, tally_append]
  rfl

theorem Counted.step (hc : Counted s) (hd : Dispatching s) (hs : Step s evs s') : Counted s' := by
  cases hs with
  | spawn =>
      exact ⟨fun r => (State.count_spawn _).trans (hc.active r),
        fun p => (State.count_spawn _).trans (hc.routing p)⟩
  | registry =>
      exact ⟨fun r => (hc.active r).trans (State.activeCount_concat _ _ r).symm, hc.routing⟩
  | topic => exact ⟨hc.active, fun p => (hc.routing p).trans (State.routing_concat _ p).symm⟩
  | ret hth =>
      exact hc.same hth rfl (fun _ => rfl) (fun _ => rfl) (fun _ => rfl) (fun _ => rfl)
  | registered hth hreg hvalid hnew he hfree hid =>
      have hidle := hd.idle_of_free ((State.entry_eq hreg _).trans he) hfree
      exact hc.entry hth rfl rfl rfl hreg he rfl rfl hidle.symm
  | unregistered hth hreg he => exact hc.entry hth rfl rfl rfl hreg he rfl rfl rfl
  | selected hth hreg he henter => exact hc.select hth rfl rfl hreg he henter rfl rfl
  | refused hth =>
      exact hc.same hth rfl (fun _ => by rw [List.countP_cons, List.countP_cons]; rfl)
        (fun _ => by rw [List.countP_cons, List.countP_cons]; rfl) (fun _ => rfl) (fun _ => rfl)
  | started hth hreg he hp =>
      exact hc.same hth rfl (fun _ => by rw [List.countP_cons, List.countP_cons]; rfl)
        (fun _ => by rw [List.countP_cons, List.countP_cons]; rfl) (fun _ => rfl) (fun _ => rfl)
  | @ended n r id p k last rest reg via status hth hreg =>
      have he := hd.publishing_entry hth hreg
      exact hc.clear hth rfl rfl hreg he rfl (TopicRegistry.clear_entries he)
  | bound hth htopic | unbound hth htopic =>
      refine hc.same hth rfl (fun _ => rfl) (fun _ => rfl) (fun _ => rfl) (fun q => ?_)
      refine (State.routing_set htopic rfl q).trans ?_
      split
      case isTrue hq => rw [hq, State.routing_eq htopic]
      case isFalse => rfl
  | route hth htopic => exact hc.enter hth rfl rfl htopic rfl rfl
  | routed hth htopic => exact hc.leave hth rfl rfl htopic rfl rfl
  | publish hth | published hth =>
      exact hc.same hth rfl (fun _ => by simp [Frame.on]) (fun _ => by simp [Frame.routes])
        (fun _ => rfl) (fun _ => rfl)

end Steps

end MicrOsal.Registry
