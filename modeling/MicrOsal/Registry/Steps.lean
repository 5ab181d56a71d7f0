import MicrOsal.Registry.Model

/-!
# MicrOsal.Registry.Steps

What one step of the registry system can do.

`Step` lists the kinds of step with their effect and what they show. All calls that
are turned down look alike (`Step.ret`); a `dispatch` that selects an entry may have
been called by the application or by a `route_to` (`Enters`).
-/

namespace MicrOsal.Registry

variable {s s' : State} {n r k id p : Nat} {th : Thread} {reg : TopicRegistry}

/-! ### The registry's own functions -/

namespace TopicRegistry

/-- What `find` returns is an entry with a topic under the id. -/
theorem of_find {e : Entry} (h : reg.find id = some (k, e)) :
    ∃ p active, reg.entries[k]? = some ⟨some p, id, active⟩ ∧ e = ⟨some p, id, active⟩ := by
  obtain ⟨k', hk', hmap⟩ := Option.bind_eq_some_iff.mp h
  obtain ⟨e', he', heq⟩ := Option.map_eq_some_iff.mp hmap
  cases heq
  obtain ⟨hlt, hp, -⟩ := List.findIdx?_eq_some_iff_getElem.mp hk'
  rw [List.getElem?_eq_getElem hlt] at he'
  obtain rfl : reg.entries[k] = e := Option.some.inj he'
  simp only [Bool.and_eq_true, decide_eq_true_eq] at hp
  obtain ⟨p, hsome⟩ := Option.isSome_iff_exists.mp hp.1
  refine ⟨p, reg.entries[k].active, ?_, ?_⟩
  · rw [List.getElem?_eq_getElem hlt, ← hsome, ← hp.2]
  · rw [← hsome, ← hp.2]

/-- An id that one entry alone has is found there. -/
theorem find_eq {active : Bool} (he : reg.entries[k]? = some ⟨some p, id, active⟩)
    (huniq : ∀ k' e, reg.entries[k']? = some e → e.topic.isSome → e.id = id → k' = k) :
    reg.find id = some (k, ⟨some p, id, active⟩) := by
  have hidx : reg.entries.findIdx? (fun e => e.topic.isSome && e.id = id) = some k := by
    obtain ⟨hlt, heq⟩ := List.getElem?_eq_some_iff.mp he
    refine List.findIdx?_eq_some_iff_getElem.mpr ⟨hlt, by rw [heq]; simp, ?_⟩
    intro j hj
    simp only [Bool.and_eq_true, decide_eq_true_eq, not_and]
    intro hsome hid
    have := huniq j _ (List.getElem?_eq_getElem (hj.trans hlt)) hsome hid
    omega
  rw [find, hidx, Option.bind_some, he]
  rfl

/-- What `register_topic` does when it gives out an id. -/
theorem of_registerTopic {reg' : TopicRegistry} (h : reg.registerTopic p = (reg', some id)) :
    reg.mutexValid = true ∧ (∀ e ∈ reg.entries, e.topic ≠ some p) ∧
      reg.nextId ≠ invalidSignalId ∧ id = reg.nextId ∧
      ∃ k e, reg.entries[k]? = some e ∧ e.topic = none ∧
        reg' = { reg.setEntry k ⟨some p, reg.nextId, false⟩ with
          nextId := (reg.nextId + 1) % signalIdModulus } := by
  rw [registerTopic] at h
  split at h
  case isTrue => cases h
  case isFalse hvalid =>
    split at h
    case isTrue => cases h
    case isFalse hnew =>
      split at h
      case h_1 => cases h
      case h_2 k hk =>
        cases h
        obtain ⟨hlt, hp, -⟩ := List.findIdx?_eq_some_iff_getElem.mp hk
        simp only [Bool.and_eq_true, decide_eq_true_eq] at hp
        refine ⟨not_not.mp hvalid, ?_, hp.2, rfl, k, _, List.getElem?_eq_getElem hlt, hp.1, rfl⟩
        intro e he htop
        exact hnew (List.any_eq_true.mpr ⟨e, he, by simp [htop]⟩)

/-- What `unregister_topic` does when it returns delivered. -/
theorem of_unregisterTopic (h : (reg.unregisterTopic id).2 = .delivered) :
    ∃ k p, reg.entries[k]? = some ⟨some p, id, false⟩ ∧
      (reg.unregisterTopic id).1 = reg.setEntry k .empty := by
  rw [unregisterTopic] at h ⊢
  split at h
  case isTrue => cases h
  case isFalse hvalid =>
    split at h
    case h_1 => cases h
    case h_2 k e hfind =>
      obtain ⟨p, active, he, rfl⟩ := of_find hfind
      cases active with
      | true => cases h
      | false =>
          refine ⟨k, p, he, ?_⟩
          rw [if_neg hvalid]
          rfl

/-- Whatever else `unregister_topic` returns, it has changed nothing. -/
theorem unregisterTopic_fst (h : (reg.unregisterTopic id).2 ≠ .delivered) :
    (reg.unregisterTopic id).1 = reg := by
  rw [unregisterTopic] at h ⊢
  split
  case isTrue => rfl
  case isFalse hvalid =>
    rw [if_neg hvalid] at h
    cases hfind : reg.find id with
    | none => rfl
    | some found =>
        rw [hfind] at h
        dsimp only at h ⊢
        split
        case isTrue => rfl
        case isFalse hidle => exact absurd (by rw [if_neg hidle]) h

/-- What `dispatch` does when it selects an entry. -/
theorem of_select {reg' : TopicRegistry} (h : reg.select id = (reg', .ok k)) :
    ∃ p, reg.entries[k]? = some ⟨some p, id, false⟩ ∧ reg' = reg.setEntry k ⟨some p, id, true⟩ := by
  rw [select] at h
  split at h
  case isTrue => cases h
  case isFalse =>
    split at h
    case h_1 => cases h
    case h_2 k' e hfind =>
      obtain ⟨p, active, he, rfl⟩ := of_find hfind
      cases active with
      | true => cases h
      | false =>
          cases h
          exact ⟨p, he, rfl⟩

end TopicRegistry

/-! ### Steps -/

/-- The stacks below a `dispatch` through `id`, before it is called and while it runs. -/
inductive Enters (r id : Nat) : List Frame → List Frame → Prop
  | call {stack : List Frame} : Enters r id stack stack
  | route {p : Nat} {rest : List Frame} :
      Enters r id (.route p r id :: rest) (.waiting p :: rest)

/-- One step and what it shows. -/
inductive Step (s : State) : List Event → State → Prop
  | spawn : Step s [] { s with threads := s.threads ++ [⟨[], .void⟩] }
  | registry {maxTopics : Nat} {mutexValid : Bool} :
      Step s [] { s with registries := s.registries ++ [.create maxTopics mutexValid] }
  | topic {routeMutexValid : Bool} :
      Step s [] { s with topics := s.topics ++ [⟨routeMutexValid, none, 0⟩] }
  | ret {n : Nat} {th : Thread} {last : Return} : s.threads[n]? = some th →
      Step s [] (s.ret n th last)
  | registered {n r p k : Nat} {th : Thread} {reg : TopicRegistry} {e : Entry} :
      s.threads[n]? = some th → s.registries[r]? = some reg → reg.mutexValid = true →
      (∀ e ∈ reg.entries, e.topic ≠ some p) → reg.entries[k]? = some e → e.topic = none →
      reg.nextId ≠ invalidSignalId →
      Step s [.registered r reg.nextId]
        ((s.setRegistry r { reg.setEntry k ⟨some p, reg.nextId, false⟩ with
          nextId := (reg.nextId + 1) % signalIdModulus }).ret n th (.registered true reg.nextId))
  | unregistered {n r id p k : Nat} {th : Thread} {reg : TopicRegistry} :
      s.threads[n]? = some th → s.registries[r]? = some reg →
      reg.entries[k]? = some ⟨some p, id, false⟩ →
      Step s [.unregistered r id]
        ((s.setRegistry r (reg.setEntry k .empty)).ret n th (.status .delivered))
  | selected {n r id p k : Nat} {th : Thread} {reg : TopicRegistry} {stack : List Frame}
      {via : Option Nat} : s.threads[n]? = some th → s.registries[r]? = some reg →
      reg.entries[k]? = some ⟨some p, id, false⟩ → Enters r id th.stack stack →
      Step s [] ((s.setRegistry r (reg.setEntry k ⟨some p, id, true⟩)).setThread n
        ⟨.selected r k id via :: stack, th.last⟩)
  | refused {n r id p : Nat} {last : Return} {rest : List Frame} {status : RouteStatus} :
      s.threads[n]? = some ⟨.route p r id :: rest, last⟩ →
      Step s [] (s.setThread n ⟨.routed p status :: rest, last⟩)
  | started {n r id p k : Nat} {last : Return} {rest : List Frame} {reg : TopicRegistry}
      {e : Entry} {via : Option Nat} :
      s.threads[n]? = some ⟨.selected r k id via :: rest, last⟩ → s.registries[r]? = some reg →
      reg.entries[k]? = some e → e.topic = some p →
      Step s [.started r id] (s.setThread n ⟨.publishing r k id via p :: rest, last⟩)
  | ended {n r id p k : Nat} {last : Return} {rest : List Frame} {reg : TopicRegistry}
      {via : Option Nat} {status : RouteStatus} :
      s.threads[n]? = some ⟨.publishing r k id via p :: rest, last⟩ →
      s.registries[r]? = some reg →
      Step s [] ((s.setRegistry r (reg.clear k)).setThread n
        (State.returnStatus rest last status))
  | bound {n p r : Nat} {th : Thread} {topic : Topic} : s.threads[n]? = some th →
      s.topics[p]? = some topic →
      Step s [] ((s.setTopic p { topic with registry := some r }).ret n th (.bool true))
  | unbound {n p : Nat} {th : Thread} {topic : Topic} : s.threads[n]? = some th →
      s.topics[p]? = some topic →
      Step s [] ((s.setTopic p { topic with registry := none }).ret n th (.bool true))
  | route {n p r dest : Nat} {th : Thread} {topic : Topic} : s.threads[n]? = some th →
      s.topics[p]? = some topic →
      Step s [] ((s.setTopic p { topic with routing := topic.routing + 1 }).setThread n
        { th with stack := .route p r dest :: th.stack })
  | routed {n p : Nat} {last : Return} {rest : List Frame} {topic : Topic}
      {status : RouteStatus} : s.threads[n]? = some ⟨.routed p status :: rest, last⟩ →
      s.topics[p]? = some topic →
      Step s [] ((s.setTopic p { topic with routing := sizeDecr topic.routing }).setThread n
        ⟨rest, .bool (status = .delivered)⟩)
  | publish {n p : Nat} {th : Thread} : s.threads[n]? = some th →
      Step s [] (s.setThread n { th with stack := .direct p :: th.stack })
  | published {n p : Nat} {accepted : Bool} {last : Return} {rest : List Frame} :
      s.threads[n]? = some ⟨.direct p :: rest, last⟩ →
      Step s [] (s.setThread n ⟨rest, .bool accepted⟩)

section Inversion

/-- The thread that took a step, found in the state after it. -/
theorem State.returned_ret (hth : s.threads[n]? = some th) (last : Return) :
    (s.ret n th last).returned n = some last := by
  rw [State.returned, State.ret, State.setThread,
    List.getElem?_set_self (List.getElem?_eq_some_iff.mp hth).1]
  rfl

theorem State.stackOf_eq (hth : s.threads[n]? = some th) : s.stackOf n = some th.stack := by
  rw [State.stackOf, hth]
  rfl

theorem State.setRegistry_self (hreg : s.registries[r]? = some reg) : s.setRegistry r reg = s := by
  obtain ⟨hlt, rfl⟩ := List.getElem?_eq_some_iff.mp hreg
  rw [State.setRegistry, List.set_getElem_self]

theorem State.of_call {f : Thread → Option State} (h : s.call n f = some s') :
    ∃ th, s.threads[n]? = some th ∧ th.canCall ∧ f th = some s' := by
  obtain ⟨th, hth, h⟩ := Option.bind_eq_some_iff.mp h
  split at h
  case isTrue hcan => exact ⟨th, hth, hcan, h⟩
  case isFalse => cases h

theorem Step.of_register (hth : s.threads[n]? = some th) (hs : s.register n th r p = some s') :
    Step s (s.shows (.register n r p) s') s' := by
  obtain ⟨reg, hreg, hs⟩ := Option.bind_eq_some_iff.mp hs
  obtain ⟨-, -, hs⟩ := Option.bind_eq_some_iff.mp hs
  split at hs
  case h_1 reg' id hcall =>
    cases hs
    have hret := State.returned_ret (s := s.setRegistry r reg') hth (.registered true id)
    simp only [State.shows, hret]
    obtain ⟨hvalid, hnew, hid, rfl, k, e, he, hfree, rfl⟩ := TopicRegistry.of_registerTopic hcall
    exact .registered hth hreg hvalid hnew he hfree hid
  case h_2 =>
    cases hs
    simp only [State.shows, State.returned_ret hth]
    exact .ret hth

theorem Step.of_unregister (hth : s.threads[n]? = some th)
    (hs : s.unregister n th r id = some s') : Step s (s.shows (.unregister n r id) s') s' := by
  obtain ⟨reg, hreg, hs⟩ := Option.bind_eq_some_iff.mp hs
  cases hs
  have hret := State.returned_ret (s := s.setRegistry r (reg.unregisterTopic id).1) hth
    (.status (reg.unregisterTopic id).2)
  by_cases hdone : (reg.unregisterTopic id).2 = .delivered
  · obtain ⟨k, p, he, heq⟩ := TopicRegistry.of_unregisterTopic hdone
    rw [hdone] at hret ⊢
    simp only [State.shows, hret]
    rw [heq]
    exact .unregistered hth hreg he
  · have hnone : s.shows (.unregister n r id) ((s.setRegistry r (reg.unregisterTopic id).1).ret n
        th (.status (reg.unregisterTopic id).2)) = [] := by
      simp only [State.shows, hret]
      split
      case h_1 heq =>
        cases hstatus : (reg.unregisterTopic id).2 <;> simp_all
      case h_2 => rfl
    rw [hnone, TopicRegistry.unregisterTopic_fst hdone, State.setRegistry_self hreg]
    exact .ret hth

/-- `dispatch`, called by the application. -/
theorem Step.of_dispatch {via : Option Nat} (hth : s.threads[n]? = some th) (hcan : th.canCall)
    (hs : s.dispatch n th.stack th.last r id via = some s') : Step s [] s' := by
  obtain ⟨reg, hreg, hs⟩ := Option.bind_eq_some_iff.mp hs
  split at hs
  case h_1 reg' k hcall =>
    cases hs
    obtain ⟨p, he, rfl⟩ := TopicRegistry.of_select hcall
    exact .selected hth hreg he .call
  case h_2 reg' status hcall =>
    cases hs
    have hret : State.returnStatus th.stack th.last status =
        { th with last := .status status } := by
      unfold State.returnStatus
      split
      case h_1 hstack =>
        rw [Thread.canCall, hstack] at hcan
        cases hcan
      case h_2 => rfl
    rw [hret]
    exact .ret hth

theorem Step.of_bind (hth : s.threads[n]? = some th) (hs : s.bind n th p r = some s') :
    Step s [] s' := by
  obtain ⟨topic, htp, hs⟩ := Option.bind_eq_some_iff.mp hs
  obtain ⟨reg, hreg, hs⟩ := Option.bind_eq_some_iff.mp hs
  split at hs
  case isTrue =>
    cases hs
    exact .ret hth
  case isFalse =>
    split at hs
    case isTrue =>
      cases hs
      exact .ret hth
    case isFalse =>
      cases hs
      exact .bound hth htp

theorem Step.of_unbind (hth : s.threads[n]? = some th) (hs : s.unbind n th p = some s') :
    Step s [] s' := by
  obtain ⟨topic, htp, hs⟩ := Option.bind_eq_some_iff.mp hs
  split at hs
  case isTrue =>
    cases hs
    exact .ret hth
  case isFalse =>
    split at hs
    case isTrue =>
      cases hs
      exact .ret hth
    case isFalse =>
      cases hs
      exact .unbound hth htp

theorem Step.of_routeTo {dest : Nat} (hth : s.threads[n]? = some th)
    (hs : s.routeTo n th p dest = some s') : Step s [] s' := by
  obtain ⟨topic, htp, hs⟩ := Option.bind_eq_some_iff.mp hs
  split at hs
  case isTrue =>
    cases hs
    exact .ret hth
  case isFalse =>
    split at hs
    case h_1 =>
      cases hs
      exact .ret hth
    case h_2 =>
      cases hs
      exact .route hth htp

theorem Step.of_advance {accepted : Bool} {stack : List Frame} {last : Return}
    (hth : s.threads[n]? = some ⟨stack, last⟩)
    (hs : s.advance n accepted ⟨stack, last⟩ = some s') :
    Step s (s.shows (.advance n accepted) s') s' := by
  simp only [State.shows, State.stackOf_eq hth]
  match stack, hth, hs with
  | .selected r k id via :: rest, hth, hs =>
      obtain ⟨reg, hreg, hs⟩ := Option.bind_eq_some_iff.mp hs
      obtain ⟨e, he, hs⟩ := Option.bind_eq_some_iff.mp hs
      obtain ⟨p, hp, hs⟩ := Option.bind_eq_some_iff.mp hs
      cases hs
      exact .started hth hreg he hp
  | .publishing r k id via p :: rest, hth, hs =>
      obtain ⟨reg, hreg, hs⟩ := Option.bind_eq_some_iff.mp hs
      cases hs
      exact .ended hth hreg
  | .route p r dest :: rest, hth, hs =>
      obtain ⟨reg, hreg, hs⟩ := Option.bind_eq_some_iff.mp hs
      split at hs
      case h_1 reg' k hcall =>
        cases hs
        obtain ⟨q, he, rfl⟩ := TopicRegistry.of_select hcall
        exact .selected hth hreg he .route
      case h_2 =>
        cases hs
        exact .refused hth
  | .routed p status :: rest, hth, hs =>
      obtain ⟨topic, htp, hs⟩ := Option.bind_eq_some_iff.mp hs
      cases hs
      exact .routed hth htp
  | .direct p :: rest, hth, hs =>
      cases hs
      exact .published hth

/-- Every step of the system is one of the kinds listed. -/
theorem Step.of_next {a : Action} (hs : s.next a = some s') : Step s (s.shows a s') s' := by
  cases a with
  | spawn =>
      cases hs
      exact .spawn
  | registry maxTopics mutexValid =>
      cases hs
      exact .registry
  | topic routeMutexValid =>
      cases hs
      exact .topic
  | register n r p =>
      obtain ⟨th, hth, -, hs⟩ := State.of_call hs
      exact .of_register hth hs
  | unregister n r id =>
      obtain ⟨th, hth, -, hs⟩ := State.of_call hs
      exact .of_unregister hth hs
  | dispatch n r id =>
      obtain ⟨th, hth, hcan, hs⟩ := State.of_call hs
      exact .of_dispatch hth hcan hs
  | bind n p r =>
      obtain ⟨th, hth, -, hs⟩ := State.of_call hs
      exact .of_bind hth hs
  | unbind n p =>
      obtain ⟨th, hth, -, hs⟩ := State.of_call hs
      exact .of_unbind hth hs
  | routeTo n p dest =>
      obtain ⟨th, hth, -, hs⟩ := State.of_call hs
      exact .of_routeTo hth hs
  | routeVia n p r dest =>
      obtain ⟨th, hth, hcan, hs⟩ := State.of_call hs
      obtain ⟨-, -, hs⟩ := Option.bind_eq_some_iff.mp hs
      exact .of_dispatch hth hcan hs
  | publish n p =>
      obtain ⟨th, hth, -, hs⟩ := State.of_call hs
      obtain ⟨-, -, hs⟩ := Option.bind_eq_some_iff.mp hs
      cases hs
      exact .publish hth
  | advance n accepted =>
      obtain ⟨th, hth, hs⟩ := Option.bind_eq_some_iff.mp hs
      exact .of_advance hth hs

end Inversion

end MicrOsal.Registry
