import MicrOsal.Registry.Routing

/-!
# MicrOsal.Registry.Lifetime

Ids, and what a run shows of them.

`register_topic` takes ids from a counter that stops at zero, so a registry issues
`1, 2, …` once each. An id that has been unregistered is below the counter and in no
entry, and `dispatch` calls only through an entry that still has its id; hence nothing
starts through it any more.
-/

namespace MicrOsal.Registry

/-! ### The record -/

/-- The ids that `register_topic` on registry `r` has given out. -/
def issuedIds (r : Nat) (log : List Event) : List Nat :=
  log.filterMap (fun
    | .registered r' id => if r' = r then some id else none
    | _ => none)

/-- The ids that `unregister_topic` on registry `r` has taken back. -/
def retiredIds (r : Nat) (log : List Event) : List Nat :=
  log.filterMap (fun
    | .unregistered r' id => if r' = r then some id else none
    | _ => none)

theorem mem_retiredIds {r id : Nat} {log : List Event} :
    id ∈ retiredIds r log ↔ .unregistered r id ∈ log := by
  rw [retiredIds, List.mem_filterMap]
  constructor
  · rintro ⟨ev, hev, hid⟩
    cases ev with
    | unregistered r' id' =>
        dsimp only at hid
        split at hid
        case isTrue hr =>
          cases hid
          exact hr ▸ hev
        case isFalse => cases hid
    | registered | started => cases hid
  · exact fun h => ⟨_, h, if_pos rfl⟩

/-- `e` comes before `e'` in no run: the second starts through an id that the first has
taken back. -/
def Event.closes (e e' : Event) : Prop := ∃ r id, e = .unregistered r id ∧ e' = .started r id

/-! ### The ids of a registry -/

/-- An entry has a topic under `id`. -/
def Entry.Named (e : Entry) (id : Nat) : Prop := e.topic.isSome ∧ e.id = id

/-- The ids and topics of a registry, where `issued` and `retired` have been given out and
taken back. -/
structure TopicRegistry.Numbered (reg : TopicRegistry) (issued retired : List Nat) : Prop where
  counter : ∃ m, m < signalIdModulus ∧ issued = List.range' 1 m ∧
    reg.nextId = (m + 1) % signalIdModulus
  named : ∀ (k : Nat) (e : Entry) (id : Nat), reg.entries[k]? = some e → e.Named id →
    id ∈ issued ∧ id ∉ retired
  once : ∀ (k k' : Nat) (e e' : Entry) (id : Nat), reg.entries[k]? = some e →
    reg.entries[k']? = some e' → e.Named id → e'.Named id → k = k'
  topics : ∀ (k k' : Nat) (e e' : Entry) (p : Nat), reg.entries[k]? = some e →
    reg.entries[k']? = some e' → e.topic = some p → e'.topic = some p → k = k'
  subset : ∀ id ∈ retired, id ∈ issued
  valid : ∀ (k : Nat) (e : Entry) (id : Nat), reg.entries[k]? = some e → e.Named id →
    reg.mutexValid = true

namespace TopicRegistry.Numbered

variable {reg reg' : TopicRegistry} {issued retired : List Nat} {k id p : Nat} {e e' : Entry}

theorem create (maxTopics : Nat) (mutexValid : Bool) :
    (TopicRegistry.create maxTopics mutexValid).Numbered [] [] := by
  have hempty : ∀ (k : Nat) (e : Entry),
      (TopicRegistry.create maxTopics mutexValid).entries[k]? = some e → e = .empty :=
    fun k e hk => List.eq_of_mem_replicate (List.mem_of_getElem? hk)
  refine ⟨⟨0, by decide, rfl, rfl⟩, ?_, ?_, ?_, fun id h => absurd h List.not_mem_nil, ?_⟩
  · intro k e id hk hname
    rw [hempty k e hk] at hname
    cases hname.1
  · intro k k' e e' id hk _ hname _
    rw [hempty k e hk] at hname
    cases hname.1
  · intro k k' e e' p hk _ htop _
    rw [hempty k e hk] at htop
    cases htop
  · intro k e id hk hname
    rw [hempty k e hk] at hname
    cases hname.1

/-- The flag of an entry changes. -/
theorem flag (h : reg.Numbered issued retired) (he : reg.entries[k]? = some e)
    (hmutex : reg'.mutexValid = reg.mutexValid) (hnext : reg'.nextId = reg.nextId)
    (hset : reg'.entries = reg.entries.set k e') (htopic : e'.topic = e.topic)
    (hid : e'.id = e.id) : reg'.Numbered issued retired := by
  have hold : ∀ (j : Nat) (x : Entry), reg'.entries[j]? = some x →
      ∃ y, reg.entries[j]? = some y ∧ x.topic = y.topic ∧ x.id = y.id := by
    intro j x hj
    rw [hset] at hj
    rcases getElem?_set_cases hj with ⟨rfl, rfl⟩ | ⟨-, hj⟩
    · exact ⟨e, he, htopic, hid⟩
    · exact ⟨x, hj, rfl, rfl⟩
  have hnamed : ∀ {x y : Entry} {id}, x.topic = y.topic → x.id = y.id → x.Named id → y.Named id :=
    fun htop hid hname => ⟨htop ▸ hname.1, hid ▸ hname.2⟩
  refine ⟨?_, ?_, ?_, ?_, h.subset, ?_⟩
  · rw [hnext]
    exact h.counter
  · intro j x id hj hname
    obtain ⟨y, hy, htop, hyid⟩ := hold j x hj
    exact h.named j y id hy (hnamed htop hyid hname)
  · intro j j' x x' id hj hj' hname hname'
    obtain ⟨y, hy, htop, hyid⟩ := hold j x hj
    obtain ⟨y', hy', htop', hyid'⟩ := hold j' x' hj'
    exact h.once j j' y y' id hy hy' (hnamed htop hyid hname) (hnamed htop' hyid' hname')
  · intro j j' x x' q hj hj' hq hq'
    obtain ⟨y, hy, htop, -⟩ := hold j x hj
    obtain ⟨y', hy', htop', -⟩ := hold j' x' hj'
    exact h.topics j j' y y' q hy hy' (htop ▸ hq) (htop' ▸ hq')
  · intro j x id hj hname
    obtain ⟨y, hy, htop, hyid⟩ := hold j x hj
    rw [hmutex]
    exact h.valid j y id hy (hnamed htop hyid hname)

/-- `register_topic` gives out the next id. -/
theorem register (h : reg.Numbered issued retired) (hvalid : reg'.mutexValid = true)
    (hnew : ∀ e ∈ reg.entries, e.topic ≠ some p) (hid : reg.nextId ≠ invalidSignalId)
    (hset : reg'.entries = reg.entries.set k ⟨some p, reg.nextId, false⟩)
    (hnext : reg'.nextId = (reg.nextId + 1) % signalIdModulus) :
    reg'.Numbered (issued ++ [reg.nextId]) retired := by
  obtain ⟨m, hm, hissued, hcounter⟩ := h.counter
  have hlt : m + 1 < signalIdModulus := by
    rcases Nat.lt_or_ge (m + 1) signalIdModulus with hlt | hge
    · exact hlt
    · rw [show m + 1 = signalIdModulus by omega, Nat.mod_self] at hcounter
      exact absurd hcounter hid
  rw [Nat.mod_eq_of_lt hlt] at hcounter
  have hfresh : reg.nextId ∉ issued := by
    rw [hissued, List.mem_range']
    rintro ⟨i, hi, heq⟩
    omega
  have hcases : ∀ (j : Nat) (x : Entry), reg'.entries[j]? = some x →
      (j = k ∧ x = ⟨some p, reg.nextId, false⟩) ∨ reg.entries[j]? = some x := by
    intro j x hj
    rw [hset] at hj
    rcases getElem?_set_cases hj with ⟨rfl, rfl⟩ | ⟨-, hj⟩
    · exact .inl ⟨rfl, rfl⟩
    · exact .inr hj
  refine ⟨⟨m + 1, hlt, ?_, ?_⟩, ?_, ?_, ?_, ?_, fun _ _ _ _ _ => hvalid⟩
  · rw [hissued, hcounter, List.range'_concat]
    simp [Nat.add_comm]
  · rw [hnext, hcounter]
  · intro j x id hj hname
    rcases hcases j x hj with ⟨-, rfl⟩ | hj
    · obtain rfl : reg.nextId = id := hname.2
      exact ⟨by simp, fun hmem => hfresh (h.subset _ hmem)⟩
    · have := h.named j x id hj hname
      exact ⟨List.mem_append_left _ this.1, this.2⟩
  · intro j j' x x' id hj hj' hname hname'
    rcases hcases j x hj with ⟨rfl, rfl⟩ | hj <;> rcases hcases j' x' hj' with ⟨rfl, rfl⟩ | hj'
    · rfl
    · obtain rfl : reg.nextId = id := hname.2
      exact absurd (h.named j' x' _ hj' hname').1 hfresh
    · obtain rfl : reg.nextId = id := hname'.2
      exact absurd (h.named j x _ hj hname).1 hfresh
    · exact h.once j j' x x' id hj hj' hname hname'
  · intro j j' x x' q hj hj' hq hq'
    rcases hcases j x hj with ⟨rfl, rfl⟩ | hj <;> rcases hcases j' x' hj' with ⟨rfl, rfl⟩ | hj'
    · rfl
    · cases hq
      exact absurd hq' (hnew x' (List.mem_of_getElem? hj'))
    · cases hq'
      exact absurd hq (hnew x (List.mem_of_getElem? hj))
    · exact h.topics j j' x x' q hj hj' hq hq'
  · exact fun id hmem => List.mem_append_left _ (h.subset id hmem)

/-- `unregister_topic` takes an id back. -/
theorem unregister (h : reg.Numbered issued retired) (he : reg.entries[k]? = some e)
    (hname : e.Named id) (hmutex : reg'.mutexValid = reg.mutexValid)
    (hset : reg'.entries = reg.entries.set k .empty) (hnext : reg'.nextId = reg.nextId) :
    reg'.Numbered issued (retired ++ [id]) := by
  have hold : ∀ (j : Nat) (x : Entry), reg'.entries[j]? = some x → x.topic.isSome →
      j ≠ k ∧ reg.entries[j]? = some x := by
    intro j x hj hsome
    rw [hset] at hj
    rcases getElem?_set_cases hj with ⟨-, rfl⟩ | ⟨hne, hj⟩
    · cases hsome
    · exact ⟨hne, hj⟩
  refine ⟨?_, ?_, ?_, ?_, ?_, ?_⟩
  · rw [hnext]
    exact h.counter
  · intro j x id' hj hname'
    obtain ⟨hne, hj⟩ := hold j x hj hname'.1
    have hboth := h.named j x id' hj hname'
    refine ⟨hboth.1, ?_⟩
    rw [List.mem_append, List.mem_singleton]
    rintro (hmem | rfl)
    · exact hboth.2 hmem
    · exact hne (h.once j k x e _ hj he hname' hname)
  · intro j j' x x' id' hj hj' hname₁ hname₂
    exact h.once j j' x x' id' (hold j x hj hname₁.1).2 (hold j' x' hj' hname₂.1).2 hname₁ hname₂
  · intro j j' x x' q hj hj' hq hq'
    exact h.topics j j' x x' q (hold j x hj (by rw [hq]; rfl)).2
      (hold j' x' hj' (by rw [hq']; rfl)).2 hq hq'
  · intro id' hmem
    rcases List.mem_append.mp hmem with hmem | hmem
    · exact h.subset id' hmem
    · rw [List.mem_singleton.mp hmem]
      exact (h.named k e id he hname).1
  · intro j x id' hj hname'
    rw [hmutex]
    exact h.valid j x id' (hold j x hj hname'.1).2 hname'

end TopicRegistry.Numbered

/-! ### Runs -/

/-- The registries and what the run has shown of them. -/
structure Recorded (s : State) (log : List Event) : Prop where
  numbered : ∀ (r : Nat) (reg : TopicRegistry), s.registries[r]? = some reg →
    reg.Numbered (issuedIds r log) (retiredIds r log)
  absent : ∀ r, s.registries.length ≤ r → issuedIds r log = [] ∧ retiredIds r log = []
  order : log.Pairwise (fun e e' => ¬ e.closes e')

section Steps

variable {s s' : State} {n r k id p : Nat} {th th' : Thread} {reg reg' : TopicRegistry}
variable {e e' : Entry} {evs log : List Event}

theorem issuedIds_append (r : Nat) (log evs : List Event) :
    issuedIds r (log ++ evs) = issuedIds r log ++ issuedIds r evs := List.filterMap_append

theorem retiredIds_append (r : Nat) (log evs : List Event) :
    retiredIds r (log ++ evs) = retiredIds r log ++ retiredIds r evs := List.filterMap_append

theorem Recorded.init : Recorded registryMachine.init [] where
  numbered := fun _ _ h => by cases h
  absent := fun _ _ => ⟨rfl, rfl⟩
  order := .nil

/-- A step that changes no registry and shows nothing. -/
theorem Recorded.same (hr : Recorded s log) (hregs : s'.registries = s.registries) :
    Recorded s' (log ++ []) := by
  rw [List.append_nil]
  exact ⟨by rw [hregs]; exact hr.numbered, by rw [hregs]; exact hr.absent, hr.order⟩

/-- A step of registry `r`. -/
theorem Recorded.registry {ev : Event} (hr : Recorded s log) (hreg : s.registries[r]? = some reg)
    (hregs : s'.registries = s.registries.set r reg')
    (hnum : reg'.Numbered (issuedIds r (log ++ [ev])) (retiredIds r (log ++ [ev])))
    (hev : ∀ r', r' ≠ r → issuedIds r' [ev] = [] ∧ retiredIds r' [ev] = [])
    (horder : ∀ e ∈ log, ¬ e.closes ev) : Recorded s' (log ++ [ev]) := by
  have hother : ∀ r', r' ≠ r → issuedIds r' (log ++ [ev]) = issuedIds r' log ∧
      retiredIds r' (log ++ [ev]) = retiredIds r' log := by
    intro r' hne
    rw [issuedIds_append, retiredIds_append, (hev r' hne).1, (hev r' hne).2, List.append_nil,
      List.append_nil]
    exact ⟨rfl, rfl⟩
  have hlt : r < s.registries.length := (List.getElem?_eq_some_iff.mp hreg).1
  refine ⟨?_, ?_, ?_⟩
  · intro r' reg'' hr'
    rw [hregs] at hr'
    rcases getElem?_set_cases hr' with ⟨rfl, rfl⟩ | ⟨hne, hr'⟩
    · exact hnum
    · rw [(hother r' hne).1, (hother r' hne).2]
      exact hr.numbered r' reg'' hr'
  · intro r' hle
    rw [hregs, List.length_set] at hle
    have hne : r' ≠ r := by omega
    rw [(hother r' hne).1, (hother r' hne).2]
    exact hr.absent r' hle
  · refine List.pairwise_append.mpr ⟨hr.order, List.pairwise_singleton .., ?_⟩
    intro e he e' he'
    rw [List.mem_singleton.mp he']
    exact horder e he

/-- The flag of an entry changes. -/
theorem Recorded.flag (hr : Recorded s log) (hreg : s.registries[r]? = some reg)
    (he : reg.entries[k]? = some e) (hregs : s'.registries = s.registries.set r reg')
    (hmutex : reg'.mutexValid = reg.mutexValid) (hnext : reg'.nextId = reg.nextId)
    (hset : reg'.entries = reg.entries.set k e') (htopic : e'.topic = e.topic)
    (hid : e'.id = e.id) : Recorded s' (log ++ []) := by
  rw [List.append_nil]
  refine ⟨?_, by rw [hregs, List.length_set]; exact hr.absent, hr.order⟩
  intro r' reg'' hr'
  rw [hregs] at hr'
  rcases getElem?_set_cases hr' with ⟨rfl, rfl⟩ | ⟨-, hr'⟩
  · exact (hr.numbered _ reg hreg).flag he hmutex hnext hset htopic hid
  · exact hr.numbered r' reg'' hr'

theorem Recorded.concat (hr : Recorded s log) (maxTopics : Nat) (mutexValid : Bool) :
    Recorded { s with
      registries := s.registries ++ [TopicRegistry.create maxTopics mutexValid] }
      (log ++ []) := by
  rw [List.append_nil]
  refine ⟨?_, ?_, hr.order⟩
  · intro r reg hreg
    rcases getElem?_concat_cases hreg with hreg | ⟨rfl, rfl⟩
    · exact hr.numbered r reg hreg
    · rw [(hr.absent _ (Nat.le_refl _)).1, (hr.absent _ (Nat.le_refl _)).2]
      exact .create maxTopics mutexValid
  · intro r hle
    rw [List.length_append] at hle
    exact hr.absent r (by omega)

/-- `publish` starts through an id that is still registered. -/
theorem Recorded.started (hr : Recorded s log) (hreg : s.registries[r]? = some reg)
    (he : reg.entries[k]? = some e) (hname : e.Named id)
    (hregs : s'.registries = s.registries) : Recorded s' (log ++ [.started r id]) := by
  have hnone : ∀ r', issuedIds r' [.started r id] = [] ∧ retiredIds r' [.started r id] = [] :=
    fun _ => ⟨rfl, rfl⟩
  have hself : s'.registries = s.registries.set r reg := by
    obtain ⟨hlt, heq⟩ := List.getElem?_eq_some_iff.mp hreg
    rw [hregs, ← heq, List.set_getElem_self]
  have hnum := hr.numbered r reg hreg
  refine hr.registry hreg hself ?_ (fun r' _ => hnone r') ?_
  · rw [issuedIds_append, retiredIds_append, (hnone r).1, (hnone r).2, List.append_nil,
      List.append_nil]
    exact hnum
  · rintro ev hev ⟨r', id', rfl, heq⟩
    cases heq
    exact (hnum.named k e id he hname).2 (mem_retiredIds.mpr hev)

theorem Recorded.step (hr : Recorded s log) (hd : Dispatching s) (hs : Step s evs s') :
    Recorded s' (log ++ evs) := by
  cases hs with
  | registry => exact hr.concat _ _
  | @registered n r p k th reg e hth hreg hvalid hnew he hfree hid =>
      refine hr.registry hreg rfl ?_ ?_ ?_
      · rw [issuedIds_append, retiredIds_append]
        have hshow : issuedIds r [.registered r reg.nextId] = [reg.nextId] := by simp [issuedIds]
        have hnone : retiredIds r [.registered r reg.nextId] = [] := rfl
        rw [hshow, hnone, List.append_nil]
        exact (hr.numbered r reg hreg).register hvalid hnew hid rfl rfl
      · intro r' hne
        exact ⟨by simp [issuedIds, Ne.symm hne], rfl⟩
      · rintro ev - ⟨_, _, -, heq⟩
        cases heq
  | @unregistered n r id p k th reg hth hreg he =>
      refine hr.registry hreg rfl ?_ ?_ ?_
      · rw [issuedIds_append, retiredIds_append]
        have hnone : issuedIds r [.unregistered r id] = [] := rfl
        have hshow : retiredIds r [.unregistered r id] = [id] := by simp [retiredIds]
        rw [hshow, hnone, List.append_nil]
        exact (hr.numbered r reg hreg).unregister he ⟨rfl, rfl⟩ rfl rfl rfl
      · intro r' hne
        exact ⟨rfl, by simp [retiredIds, Ne.symm hne]⟩
      · rintro ev - ⟨_, _, -, heq⟩
        cases heq
  | selected hth hreg he henter => exact hr.flag hreg he rfl rfl rfl rfl rfl rfl
  | @started n r id p k last rest reg e via hth hreg he hp =>
      obtain ⟨q, hq⟩ := hd.sees _ _ _ hth (List.mem_cons_self ..)
      rw [State.entry_eq hreg, he] at hq
      cases hq
      exact hr.started hreg he ⟨rfl, rfl⟩ rfl
  | ended hth hreg =>
      have he := hd.publishing_entry hth hreg
      exact hr.flag hreg he rfl rfl rfl (TopicRegistry.clear_entries he) rfl rfl
  | spawn | topic | ret | refused | bound | unbound | route | routed | publish | published =>
      exact hr.same rfl

end Steps

/-! ### The promise -/

/-- What holds after every run that shows `log`. -/
structure RegistryOk (s : State) (log : List Event) : Prop where
  /-- An entry is active exactly while one `dispatch` is between selecting and clearing it,
  and two never are. -/
  active : ∀ r k e, s.entry r k = some e →
    s.count (Frame.holds r k) = if e.active then 1 else 0
  /-- The entry that a `dispatch` has selected keeps its topic and id. -/
  stays : ∀ (n : Nat) (th : Thread) (fr : Frame), s.threads[n]? = some th → fr ∈ th.stack →
    fr.Sees s
  /-- `unregister_topic` returns delivered only when no `dispatch` of the registry has
  selected the entry, or is in `publish` on its topic. -/
  unregister : ∀ n r id s', registryMachine.step s (.unregister n r id) = some s' →
    s'.returned n = some (.status .delivered) →
    ∃ k p, s.entry r k = some ⟨some p, id, false⟩ ∧ s'.entry r k = some .empty ∧
      s.count (Frame.holds r k) = 0 ∧
      ∀ (m : Nat) (th : Thread) (k' id' : Nat) (via : Option Nat), s.threads[m]? = some th →
        .publishing r k' id' via p ∉ th.stack
  /-- No `publish` starts through an id after `unregister_topic` has returned delivered for
  it. -/
  retired : log.Pairwise (fun e e' => ¬ e.closes e')
  /-- A registry has a topic under one id at most. -/
  topic : ∀ r k k' e e' p, s.entry r k = some e → s.entry r k' = some e' → e.topic = some p →
    e'.topic = some p → k = k' ∧ e.id = e'.id
  /-- No id is zero, and none is issued twice. -/
  ids : ∀ r, (issuedIds r log).Nodup ∧
    ∀ id ∈ issuedIds r log, id ≠ invalidSignalId ∧ id < signalIdModulus
  /-- The counter has run out when all ids have been issued, -/
  exhausted : ∀ (r : Nat) reg, s.registries[r]? = some reg →
    (reg.nextId = 0 ↔ (issuedIds r log).length = signalIdModulus - 1)
  /-- and `register_topic` then gives out none. -/
  stops : ∀ (n r p : Nat) reg s', s.registries[r]? = some reg → reg.nextId = 0 →
    registryMachine.step s (.register n r p) = some s' →
    s'.returned n = some (.registered false invalidSignalId) ∧ s'.registries = s.registries
  /-- A `dispatch` to an entry that is being dispatched returns busy and changes nothing, -/
  busy : ∀ (n : Nat) th r k id p, s.threads[n]? = some th → th.canCall →
    s.entry r k = some ⟨some p, id, true⟩ →
    registryMachine.step s (.dispatch n r id) = some (s.ret n th (.status .busy))
  /-- also when `route_to` calls it. -/
  busyRoute : ∀ (n : Nat) q r k id p rest last accepted,
    s.threads[n]? = some ⟨.route q r id :: rest, last⟩ →
    s.entry r k = some ⟨some p, id, true⟩ →
    registryMachine.step s (.advance n accepted) =
      some (s.setThread n ⟨.routed q .busy :: rest, last⟩)
  /-- At most `MaxTopics` calls of `dispatch` on a registry are in progress, nested ones
  included. -/
  depth : ∀ (r : Nat) reg, s.registries[r]? = some reg →
    s.count (Frame.on r) ≤ reg.entries.length
  /-- `routing_` is the number of calls of `route_to(dest, …)` in progress, -/
  routing : ∀ (p : Nat) topic, s.topics[p]? = some topic →
    topic.routing = s.count (Frame.routes p)
  /-- and `unbind_registry` returns true only when there are none. -/
  unbind : ∀ n p s', registryMachine.step s (.unbind n p) = some s' →
    s'.returned n = some (.bool true) → s.count (Frame.routes p) = 0

section Promise

variable {s s' : State} {n r k id p : Nat} {th : Thread} {reg : TopicRegistry} {log : List Event}

theorem RegistryOk.unregister_aux (hd : Dispatching s) (hr : Recorded s log)
    (hs : s.next (.unregister n r id) = some s')
    (hret : s'.returned n = some (.status .delivered)) :
    ∃ k p, s.entry r k = some ⟨some p, id, false⟩ ∧ s'.entry r k = some .empty ∧
      s.count (Frame.holds r k) = 0 ∧
      ∀ (m : Nat) (th : Thread) (k' id' : Nat) (via : Option Nat), s.threads[m]? = some th →
        .publishing r k' id' via p ∉ th.stack := by
  obtain ⟨th, hth, -, hs⟩ := State.of_call hs
  obtain ⟨reg, hreg, hs⟩ := Option.bind_eq_some_iff.mp hs
  cases hs
  have hdone : (reg.unregisterTopic id).2 = .delivered := by
    rw [State.returned_ret (s := s.setRegistry r _) hth] at hret
    exact Return.status.inj (Option.some.inj hret)
  obtain ⟨k, p, he, heq⟩ := TopicRegistry.of_unregisterTopic hdone
  have hentry : s.entry r k = some ⟨some p, id, false⟩ := (State.entry_eq hreg k).trans he
  refine ⟨k, p, hentry, ?_, hd.not_held hentry rfl, ?_⟩
  · have hset : (reg.unregisterTopic id).1.entries = reg.entries.set k .empty := by
      rw [heq]
      rfl
    have hch : Changes s ((s.setRegistry r (reg.unregisterTopic id).1).ret n th
        (.status (reg.unregisterTopic id).2)) r k .empty := .of_set hreg he rfl hset
    exact hch.here
  · intro m th' k' id' via hm hmem
    have hsees := hd.sees m th' _ hm hmem
    rw [Frame.Sees, State.entry_eq hreg] at hsees
    -- The registry has the topic once, so the call would hold this entry, which is idle.
    have hsame := (hr.numbered r reg hreg).topics k' k _ _ p hsees he rfl rfl
    subst hsame
    rw [he] at hsees
    cases hsees

theorem Recorded.topic (hr : Recorded s log) {k' : Nat} {e e' : Entry} (he : s.entry r k = some e)
    (he' : s.entry r k' = some e') (hp : e.topic = some p) (hp' : e'.topic = some p) :
    k = k' ∧ e.id = e'.id := by
  obtain ⟨reg, hreg, hk⟩ := State.of_entry he
  rw [State.entry_eq hreg] at he'
  have hsame := (hr.numbered r reg hreg).topics k k' e e' p hk he' hp hp'
  subst hsame
  rw [hk] at he'
  cases he'
  exact ⟨rfl, rfl⟩

theorem Recorded.ids (hr : Recorded s log) (r : Nat) : (issuedIds r log).Nodup ∧
    ∀ id ∈ issuedIds r log, id ≠ invalidSignalId ∧ id < signalIdModulus := by
  rcases Nat.lt_or_ge r s.registries.length with hlt | hge
  · obtain ⟨m, hm, hissued, -⟩ := (hr.numbered r _ (List.getElem?_eq_getElem hlt)).counter
    rw [hissued]
    refine ⟨List.nodup_range', ?_⟩
    intro id hid
    obtain ⟨i, hi, rfl⟩ := List.mem_range'.mp hid
    exact ⟨by rw [invalidSignalId]; omega, by omega⟩
  · rw [(hr.absent r hge).1]
    exact ⟨.nil, fun id hid => absurd hid List.not_mem_nil⟩

theorem Recorded.exhausted (hr : Recorded s log) (hreg : s.registries[r]? = some reg) :
    reg.nextId = 0 ↔ (issuedIds r log).length = signalIdModulus - 1 := by
  obtain ⟨m, hm, hissued, hnext⟩ := (hr.numbered r reg hreg).counter
  rw [hissued, List.length_range', hnext]
  rcases Nat.lt_or_ge (m + 1) signalIdModulus with hlt | hge
  · rw [Nat.mod_eq_of_lt hlt]
    omega
  · rw [show m + 1 = signalIdModulus by omega, Nat.mod_self]
    omega

/-- Once the counter is zero, `register_topic` finds no entry to use. -/
theorem TopicRegistry.registerTopic_exhausted (hzero : reg.nextId = 0) :
    reg.registerTopic p = (reg, none) := by
  rw [TopicRegistry.registerTopic]
  split
  case isTrue => rfl
  case isFalse =>
    split
    case isTrue => rfl
    case isFalse =>
      have hnone : reg.entries.findIdx?
          (fun e => e.topic = none && reg.nextId ≠ invalidSignalId) = none := by
        rw [List.findIdx?_eq_none_iff]
        intro e _
        simp [hzero, invalidSignalId]
      rw [hnone]

theorem RegistryOk.stops_aux (hreg : s.registries[r]? = some reg) (hzero : reg.nextId = 0)
    (hs : s.next (.register n r p) = some s') :
    s'.returned n = some (.registered false invalidSignalId) ∧ s'.registries = s.registries := by
  obtain ⟨th, hth, -, hs⟩ := State.of_call hs
  obtain ⟨reg', hreg', hs⟩ := Option.bind_eq_some_iff.mp hs
  obtain ⟨-, -, hs⟩ := Option.bind_eq_some_iff.mp hs
  rw [hreg] at hreg'
  cases hreg'
  rw [TopicRegistry.registerTopic_exhausted hzero] at hs
  cases hs
  exact ⟨State.returned_ret hth _, rfl⟩

/-- An entry that is being dispatched is found, and turned down. -/
theorem Recorded.select_busy (hr : Recorded s log) (hreg : s.registries[r]? = some reg)
    (he : reg.entries[k]? = some ⟨some p, id, true⟩) :
    reg.select id = (reg, .error .busy) := by
  have hnum := hr.numbered r reg hreg
  have hvalid : reg.mutexValid = true := hnum.valid k _ id he ⟨rfl, rfl⟩
  have hfind : reg.find id = some (k, ⟨some p, id, true⟩) :=
    TopicRegistry.find_eq he (fun k' e hk' hsome hid =>
      hnum.once k' k e _ id hk' he ⟨hsome, hid⟩ ⟨rfl, rfl⟩)
  rw [TopicRegistry.select, hfind, if_neg (by rw [hvalid]; simp)]
  rfl

theorem Recorded.busy (hr : Recorded s log) (hth : s.threads[n]? = some th) (hcan : th.canCall)
    (he : s.entry r k = some ⟨some p, id, true⟩) :
    s.next (.dispatch n r id) = some (s.ret n th (.status .busy)) := by
  obtain ⟨reg, hreg, hk⟩ := State.of_entry he
  have hret : State.returnStatus th.stack th.last .busy = ⟨th.stack, .status .busy⟩ := by
    unfold State.returnStatus
    split
    case h_1 hstack =>
      rw [Thread.canCall, hstack] at hcan
      cases hcan
    case h_2 => rfl
  rw [State.next, State.call, hth, Option.bind_eq_bind, Option.bind_some, if_pos hcan,
    State.dispatch, hreg, Option.bind_eq_bind, Option.bind_some, hr.select_busy hreg hk]
  dsimp only
  rw [hret]
  rfl

theorem Recorded.busyRoute (hr : Recorded s log) {q : Nat} {rest : List Frame} {last : Return}
    {accepted : Bool} (hth : s.threads[n]? = some ⟨.route q r id :: rest, last⟩)
    (he : s.entry r k = some ⟨some p, id, true⟩) :
    s.next (.advance n accepted) = some (s.setThread n ⟨.routed q .busy :: rest, last⟩) := by
  obtain ⟨reg, hreg, hk⟩ := State.of_entry he
  have hcall : s.dispatch n (.waiting q :: rest) last r id none =
      some (s.setThread n ⟨.routed q .busy :: rest, last⟩) := by
    rw [State.dispatch, hreg, Option.bind_eq_bind, Option.bind_some, hr.select_busy hreg hk]
    rfl
  rw [State.next, hth]
  exact hcall

theorem Counted.unbind (hc : Counted s) (hs : s.next (.unbind n p) = some s')
    (hret : s'.returned n = some (.bool true)) : s.count (Frame.routes p) = 0 := by
  obtain ⟨th, hth, -, hs⟩ := State.of_call hs
  obtain ⟨topic, htopic, hs⟩ := Option.bind_eq_some_iff.mp hs
  split at hs
  case isTrue =>
    cases hs
    rw [State.returned_ret hth] at hret
    cases hret
  case isFalse =>
    split at hs
    case isTrue =>
      cases hs
      rw [State.returned_ret hth] at hret
      cases hret
    case isFalse hzero =>
      rw [hc.routing p, State.routing_eq htopic]
      exact not_not.mp hzero

/-- The invariants together make the promise. -/
theorem RegistryOk.of_invariants (hd : Dispatching s) (hc : Counted s) (hr : Recorded s log) :
    RegistryOk s log where
  active := hd.once
  stays := hd.sees
  unregister := fun _ _ _ _ hs hret => unregister_aux hd hr hs hret
  retired := hr.order
  topic := fun _ _ _ _ _ _ he he' hp hp' => hr.topic he he' hp hp'
  ids := hr.ids
  exhausted := fun _ _ hreg => hr.exhausted hreg
  stops := fun _ _ _ _ _ hreg hzero hs => stops_aux hreg hzero hs
  busy := fun _ _ _ _ _ _ hth hcan he => hr.busy hth hcan he
  busyRoute := fun _ _ _ _ _ _ _ _ _ hth he => hr.busyRoute hth he
  depth := by
    intro r reg hreg
    rw [hc.active r, State.activeCount_eq hreg]
    exact List.countP_le_length
  routing := by
    intro p topic htopic
    rw [hc.routing p, State.routing_eq htopic]
  unbind := fun _ _ _ hs hret => hc.unbind hs hret

end Promise

/-- The lifetime of registered topics, over all interleavings. -/
theorem registry_lifetime {s : State} {log : List Event} (h : registryLog.Reachable (s, log)) :
    RegistryOk s log := by
  obtain ⟨-, hd, hc, hr⟩ := Machine.logged_invariant
    (I := fun s log => Dispatching s ∧ Counted s ∧ Recorded s log)
    ⟨.init, .init, .init⟩
    (fun s a s' log _ ⟨hd, hc, hr⟩ hs =>
      ⟨hd.step (.of_next hs), hc.step hd (.of_next hs), hr.step hd (.of_next hs)⟩) h
  exact .of_invariants hd hc hr

/-- Topic 0 is published through the registry, an observer of it dispatches to topic 1, and
an observer of topic 1 routes back to topic 0. -/
def routeCycle : List Action :=
  [.spawn, .spawn, .registry 2 true, .topic true, .topic true, .register 0 0 0, .register 0 0 1,
    .bind 0 1 0, .dispatch 0 0 1, .advance 0 true, .dispatch 0 0 2, .advance 0 true,
    .routeTo 0 1 1]

/-- The cycle ends with busy. -/
theorem registry_lifetime_cycle :
    ∃ s log, registryLog.run registryLog.init routeCycle = some (s, log) ∧ RegistryOk s log ∧
      s.count (Frame.on 0) = 2 ∧ s.count (Frame.routes 1) = 1 ∧
      log = [.registered 0 1, .registered 0 2, .started 0 1, .started 0 2] ∧
      ((registryMachine.step s (.advance 0 true)).bind (fun s' => s'.stackOf 0)).bind List.head? =
        some (.routed 1 .busy) := by
  have hview : (registryLog.run registryLog.init routeCycle).map
      (fun p => (p.1.count (Frame.on 0), p.1.count (Frame.routes 1), p.2,
        ((registryMachine.step p.1 (.advance 0 true)).bind
          (fun s' => s'.stackOf 0)).bind List.head?)) =
      some (2, 1, [.registered 0 1, .registered 0 2, .started 0 1, .started 0 2],
        some (.routed 1 .busy)) := by
    decide +kernel
  obtain ⟨⟨s, log⟩, hrun, hs⟩ := Option.map_eq_some_iff.mp hview
  obtain ⟨hon, hs⟩ := Prod.mk.inj hs
  obtain ⟨hroutes, hs⟩ := Prod.mk.inj hs
  obtain ⟨hlog, hbusy⟩ := Prod.mk.inj hs
  exact ⟨s, log, hrun, registry_lifetime (.of_run hrun), hon, hroutes, hlog, hbusy⟩

/-- A `route_to` on topic `p`, of either form, that is inside the registry. -/
def Frame.inRegistry (p : Nat) : Frame → Bool
  | .selected _ _ _ via => via = some p
  | .publishing _ _ _ via _ => via = some p
  | .waiting p' => p' = p
  | _ => false

/-- A `publish` on topic `p`, called by a `dispatch` or by the application. -/
def Frame.publishes (p : Nat) : Frame → Bool
  | .publishing _ _ _ _ p' => p' = p
  | .direct p' => p' = p
  | _ => false

/-- The counts do not cover a `publish` that the application calls, nor the calls of
`route_to(registry, dest, …)`. -/
theorem registry_calls_uncounted :
    (¬ ∀ s, registryMachine.Reachable s → ∀ n r id s',
      registryMachine.step s (.unregister n r id) = some s' →
      s'.returned n = some (.status .delivered) →
      ∀ k p, s.entry r k = some ⟨some p, id, false⟩ → s.count (Frame.publishes p) = 0) ∧
    ¬ ∀ s, registryMachine.Reachable s → ∀ n p s',
      registryMachine.step s (.unbind n p) = some s' → s'.returned n = some (.bool true) →
      s.count (Frame.inRegistry p) = 0 := by
  constructor
  · intro hall
    have hview : (registryMachine.run registryMachine.init
        [.spawn, .spawn, .registry 1 true, .topic true, .register 0 0 0, .publish 0 0]).map
          (fun s => (s.count (Frame.publishes 0), s.entry 0 0,
            (registryMachine.step s (.unregister 1 0 1)).map (fun s' => s'.returned 1))) =
        some (1, some ⟨some 0, 1, false⟩, some (some (.status .delivered))) := by
      decide +kernel
    obtain ⟨s, hrun, hs⟩ := Option.map_eq_some_iff.mp hview
    obtain ⟨hcount, hs⟩ := Prod.mk.inj hs
    obtain ⟨hentry, hs⟩ := Prod.mk.inj hs
    obtain ⟨s', hstep, hret⟩ := Option.map_eq_some_iff.mp hs
    have hzero := hall s (.of_run hrun) 1 0 1 s' hstep hret 0 0 hentry
    rw [hcount] at hzero
    cases hzero
  · intro hall
    have hview : (registryMachine.run registryMachine.init
        [.spawn, .spawn, .registry 1 true, .topic true, .register 0 0 0, .bind 0 0 0,
          .routeVia 0 0 0 1, .advance 0 true]).map (fun s =>
            (s.count (Frame.inRegistry 0),
              (registryMachine.step s (.unbind 1 0)).map (fun s' => s'.returned 1))) =
        some (1, some (some (.bool true))) := by
      decide +kernel
    obtain ⟨s, hrun, hs⟩ := Option.map_eq_some_iff.mp hview
    obtain ⟨hcount, hs⟩ := Prod.mk.inj hs
    obtain ⟨s', hstep, hret⟩ := Option.map_eq_some_iff.mp hs
    have hzero := hall s (.of_run hrun) 1 0 s' hstep hret
    rw [hcount] at hzero
    cases hzero

end MicrOsal.Registry
