import MicrOsal.Registry.Steps

/-!
# MicrOsal.Registry.Dispatch

The `active` flag and the calls of `dispatch`.

A `dispatch` that has selected an entry goes through a raw pointer into the table, so
everything rests on the entry staying as it was selected (`Frame.Sees`). It does, since
every step that changes an entry finds it inactive, or is the one that clears it, and the
flag counts the calls (`Dispatching.once`).
-/

namespace MicrOsal.Registry

/-! ### Counting calls -/

/-- A `dispatch` between selecting entry `k` of registry `r` and clearing it. -/
def Frame.holds (r k : Nat) : Frame → Bool
  | .selected r' k' _ _ => r' = r ∧ k' = k
  | .publishing r' k' _ _ _ => r' = r ∧ k' = k
  | _ => false

/-- A `dispatch` of registry `r` that has selected an entry. -/
def Frame.on (r : Nat) : Frame → Bool
  | .selected r' _ _ _ => r' = r
  | .publishing r' _ _ _ _ => r' = r
  | _ => false

/-- A `route_to(dest, …)` on topic `p`. -/
def Frame.routes (p : Nat) : Frame → Bool
  | .route p' _ _ => p' = p
  | .waiting p' => p' = p
  | .routed p' _ => p' = p
  | _ => false

/-- Entry `k` of registry `r`. -/
def State.entry (s : State) (r k : Nat) : Option Entry :=
  (s.registries[r]?).bind (fun reg => reg.entries[k]?)

/-- The calls of a kind, over all threads. -/
def State.count (s : State) (f : Frame → Bool) : Nat :=
  tally (fun th => th.stack.countP f) s.threads

/-- The entries of registry `r` that are active. -/
def State.activeCount (s : State) (r : Nat) : Nat :=
  ((s.registries[r]?).map (fun reg => reg.entries.countP (·.active))).getD 0

/-- The `routing_` of topic `p`. -/
def State.routing (s : State) (p : Nat) : Nat := ((s.topics[p]?).map (·.routing)).getD 0

/-- A kind of call that does not tell how far a `route_to` has come. -/
structure RouteBlind (f : Frame → Bool) : Prop where
  route : ∀ p r dest, f (.route p r dest) = f (.waiting p)
  routed : ∀ p status, f (.routed p status) = f (.waiting p)

theorem RouteBlind.holds (r k : Nat) : RouteBlind (Frame.holds r k) :=
  ⟨fun _ _ _ => rfl, fun _ _ => rfl⟩

theorem RouteBlind.on (r : Nat) : RouteBlind (Frame.on r) := ⟨fun _ _ _ => rfl, fun _ _ => rfl⟩

theorem RouteBlind.routes (p : Nat) : RouteBlind (Frame.routes p) :=
  ⟨fun _ _ _ => rfl, fun _ _ => rfl⟩

section Counts

variable {s s' : State} {n r k id : Nat} {th th' : Thread} {f : Frame → Bool}
variable {stack stack' rest : List Frame}

theorem RouteBlind.enters (hf : RouteBlind f) (h : Enters r id stack stack') :
    stack'.countP f = stack.countP f := by
  cases h with
  | call => rfl
  | route => rw [List.countP_cons, List.countP_cons, hf.route]

theorem RouteBlind.returnStatus (hf : RouteBlind f) (last : Return) (status : RouteStatus) :
    (State.returnStatus rest last status).stack.countP f = rest.countP f := by
  unfold State.returnStatus
  split
  case h_1 => simp only [List.countP_cons, hf.routed]
  case h_2 => rfl

/-- A thread's new stack counts for its old one. -/
theorem State.count_set (hth : s.threads[n]? = some th) (hths : s'.threads = s.threads.set n th') :
    s'.count f + th.stack.countP f = s.count f + th'.stack.countP f := by
  rw [State.count, State.count, hths]
  exact tally_set hth

theorem State.count_set_eq (hth : s.threads[n]? = some th)
    (hths : s'.threads = s.threads.set n th') (h : th'.stack.countP f = th.stack.countP f) :
    s'.count f = s.count f := by
  have := State.count_set (f := f) hth hths
  omega

/-- A call that is counted counts. -/
theorem State.count_pos {fr : Frame} (hth : s.threads[n]? = some th) (hfr : fr ∈ th.stack)
    (hf : f fr = true) : 0 < s.count f :=
  tally_pos_iff.mpr ⟨n, th, hth, List.countP_pos_iff.mpr ⟨fr, hfr, hf⟩⟩

theorem State.exists_of_count_pos (h : 0 < s.count f) :
    ∃ (n : Nat) (th : Thread) (fr : Frame),
      s.threads[n]? = some th ∧ fr ∈ th.stack ∧ f fr = true := by
  obtain ⟨n, th, hth, hpos⟩ := tally_pos_iff.mp h
  obtain ⟨fr, hfr, hf⟩ := List.countP_pos_iff.mp hpos
  exact ⟨n, th, fr, hth, hfr, hf⟩

end Counts

/-! ### Entries that are in use -/

/-- The entry a `dispatch` goes through is as it was selected. -/
def Frame.Sees (s : State) : Frame → Prop
  | .selected r k id _ => ∃ p, s.entry r k = some ⟨some p, id, true⟩
  | .publishing r k id _ p => s.entry r k = some ⟨some p, id, true⟩
  | _ => True

/-- The calls of `dispatch` and the entries they have selected. -/
structure Dispatching (s : State) : Prop where
  sees : ∀ (n : Nat) (th : Thread) (fr : Frame), s.threads[n]? = some th → fr ∈ th.stack →
    fr.Sees s
  once : ∀ r k e, s.entry r k = some e → s.count (Frame.holds r k) = if e.active then 1 else 0

/-- From `s` to `s'` entry `k` of registry `r` alone changes, to `e'`. -/
structure Changes (s s' : State) (r k : Nat) (e' : Entry) : Prop where
  here : s'.entry r k = some e'
  there : ∀ r' k', ¬ (r' = r ∧ k' = k) → s'.entry r' k' = s.entry r' k'

section Entries

variable {s s' : State} {n r k id : Nat} {th th' : Thread} {reg reg' : TopicRegistry} {e e' : Entry}

theorem State.entry_eq (hreg : s.registries[r]? = some reg) (k : Nat) :
    s.entry r k = reg.entries[k]? := by
  rw [State.entry, hreg, Option.bind_some]

theorem State.entry_congr (hregs : s'.registries = s.registries) (r k : Nat) :
    s'.entry r k = s.entry r k := by
  rw [State.entry, State.entry, hregs]

theorem State.of_entry (h : s.entry r k = some e) :
    ∃ reg, s.registries[r]? = some reg ∧ reg.entries[k]? = some e :=
  Option.bind_eq_some_iff.mp h

theorem Changes.of_set (hreg : s.registries[r]? = some reg) (he : reg.entries[k]? = some e)
    (hregs : s'.registries = s.registries.set r reg') (hset : reg'.entries = reg.entries.set k e') :
    Changes s s' r k e' := by
  have hself : s'.registries[r]? = some reg' := by
    rw [hregs, List.getElem?_set_self (List.getElem?_eq_some_iff.mp hreg).1]
  constructor
  · rw [State.entry_eq hself, hset, List.getElem?_set_self (List.getElem?_eq_some_iff.mp he).1]
  · intro r' k' hne
    by_cases hr : r' = r
    · subst hr
      have hk : k ≠ k' := fun h => hne ⟨rfl, h.symm⟩
      rw [State.entry_eq hself, State.entry_eq hreg, hset, List.getElem?_set_ne hk]
    · rw [State.entry, State.entry, hregs, List.getElem?_set_ne (Ne.symm hr)]

theorem Frame.holds_iff {fr : Frame} :
    fr.holds r k = true ↔ (∃ id via, fr = .selected r k id via) ∨
      ∃ id via p, fr = .publishing r k id via p := by
  cases fr with
  | selected r' k' id via =>
      simp only [Frame.holds, decide_eq_true_eq, Frame.selected.injEq]
      constructor
      · rintro ⟨rfl, rfl⟩
        exact .inl ⟨id, via, rfl, rfl, rfl, rfl⟩
      · rintro (⟨_, _, rfl, rfl, -, -⟩ | ⟨_, _, _, h⟩)
        · exact ⟨rfl, rfl⟩
        · cases h
  | publishing r' k' id via p =>
      simp only [Frame.holds, decide_eq_true_eq, Frame.publishing.injEq]
      constructor
      · rintro ⟨rfl, rfl⟩
        exact .inr ⟨id, via, p, rfl, rfl, rfl, rfl, rfl⟩
      · rintro (⟨_, _, h⟩ | ⟨_, _, _, rfl, rfl, -, -, -⟩)
        · cases h
        · exact ⟨rfl, rfl⟩
  | route | waiting | routed | direct => simp [Frame.holds]

/-- A call sees the same where its entry is the same. -/
theorem Frame.Sees.congr {fr : Frame} (h : fr.Sees s)
    (heq : ∀ r k, fr.holds r k = true → s'.entry r k = s.entry r k) : fr.Sees s' := by
  cases fr with
  | selected r k id via =>
      obtain ⟨p, hp⟩ := h
      exact ⟨p, (heq r k (by simp [Frame.holds])).trans hp⟩
  | publishing r k id via p => exact (heq r k (by simp [Frame.holds])).trans h
  | route | waiting | routed | direct => trivial

/-- What a call holds is there and active. -/
theorem Frame.Sees.entry {fr : Frame} (h : fr.Sees s) (hf : fr.holds r k = true) :
    ∃ p id, s.entry r k = some ⟨some p, id, true⟩ := by
  rcases Frame.holds_iff.mp hf with ⟨id, via, rfl⟩ | ⟨id, via, p, rfl⟩
  · obtain ⟨p, hp⟩ := h
    exact ⟨p, id, hp⟩
  · exact ⟨p, id, h⟩

end Entries

section Steps

variable {s s' : State} {n r k id p : Nat} {th th' : Thread} {reg reg' : TopicRegistry}
variable {e e' : Entry} {evs : List Event}

/-- An entry that is not active is held by no call. -/
theorem Dispatching.not_held (hd : Dispatching s) (he : s.entry r k = some e)
    (hidle : e.active = false) : s.count (Frame.holds r k) = 0 := by
  rw [hd.once r k e he, hidle]
  rfl

/-- An entry without topic is not active: a call that held it would see a topic. -/
theorem Dispatching.idle_of_free (hd : Dispatching s) (he : s.entry r k = some e)
    (hfree : e.topic = none) : e.active = false := by
  by_contra hactive
  have hone := hd.once r k e he
  rw [if_pos (by simpa using hactive)] at hone
  obtain ⟨m, th, fr, hth, hfr, hf⟩ := State.exists_of_count_pos (hone ▸ Nat.one_pos)
  obtain ⟨p, id, hp⟩ := (hd.sees m th fr hth hfr).entry hf
  rw [he] at hp
  cases hp
  cases hfree

/-- A thread moves on, and no entry changes. -/
theorem Dispatching.thread (hd : Dispatching s) (hth : s.threads[n]? = some th)
    (hths : s'.threads = s.threads.set n th') (hregs : s'.registries = s.registries)
    (hcount : ∀ r k, th'.stack.countP (Frame.holds r k) = th.stack.countP (Frame.holds r k))
    (hsees : ∀ fr ∈ th'.stack, fr.Sees s) : Dispatching s' := by
  have hsame : ∀ fr : Frame, fr.Sees s → fr.Sees s' := fun fr h =>
    h.congr (fun r k _ => State.entry_congr hregs r k)
  constructor
  · intro m th'' fr hm hfr
    rw [hths] at hm
    rcases getElem?_set_cases hm with ⟨-, rfl⟩ | ⟨-, hm⟩
    · exact hsame fr (hsees fr hfr)
    · exact hsame fr (hd.sees m th'' fr hm hfr)
  · intro r k e he
    rw [State.entry_congr hregs] at he
    rw [State.count_set_eq hth hths (hcount r k)]
    exact hd.once r k e he

/-- A call returns that was in no `dispatch`. -/
theorem Dispatching.returns (hd : Dispatching s) (hth : s.threads[n]? = some th)
    (hths : s'.threads = s.threads.set n th') (hstack : th'.stack = th.stack)
    (hregs : s'.registries = s.registries) : Dispatching s' := by
  refine hd.thread hth hths hregs (fun r k => by rw [hstack]) ?_
  rw [hstack]
  exact fun fr hfr => hd.sees n th fr hth hfr

/-- A thread moves on, and an entry changes that no call holds afterwards but the one that
has just selected it. -/
theorem Dispatching.changes (hd : Dispatching s) (hth : s.threads[n]? = some th)
    (hths : s'.threads = s.threads.set n th') (hch : Changes s s' r k e')
    (hother : ∀ r' k', ¬ (r' = r ∧ k' = k) →
      th'.stack.countP (Frame.holds r' k') = th.stack.countP (Frame.holds r' k'))
    (hcount : s'.count (Frame.holds r k) = if e'.active then 1 else 0)
    (hholds : ∀ (m : Nat) (th : Thread) (fr : Frame), s'.threads[m]? = some th → fr ∈ th.stack →
      fr.holds r k = true → fr.Sees s')
    (hsees : ∀ fr ∈ th'.stack, fr.holds r k = false → fr.Sees s) : Dispatching s' := by
  have hsame : ∀ fr : Frame, fr.Sees s → fr.holds r k = false → fr.Sees s' := by
    intro fr hfr hno
    refine hfr.congr (fun r' k' hf => hch.there r' k' ?_)
    rintro ⟨rfl, rfl⟩
    rw [hno] at hf
    cases hf
  constructor
  · intro m th'' fr hm hfr
    cases hf : fr.holds r k with
    | true => exact hholds m th'' fr hm hfr hf
    | false =>
        rw [hths] at hm
        rcases getElem?_set_cases hm with ⟨-, rfl⟩ | ⟨-, hm⟩
        · exact hsame fr (hsees fr hfr hf) hf
        · exact hsame fr (hd.sees m th'' fr hm hfr) hf
  · intro r' k' e he
    by_cases heq : r' = r ∧ k' = k
    · obtain ⟨rfl, rfl⟩ := heq
      rw [hch.here] at he
      cases he
      exact hcount
    · rw [hch.there r' k' heq] at he
      rw [State.count_set_eq hth hths (hother r' k' heq)]
      exact hd.once r' k' e he

/-- An entry that no call holds changes, and stays inactive. -/
theorem Dispatching.idle (hd : Dispatching s) (hth : s.threads[n]? = some th)
    (hths : s'.threads = s.threads.set n th') (hstack : th'.stack = th.stack)
    (he : s.entry r k = some e) (hidle : e.active = false) (hch : Changes s s' r k e')
    (hidle' : e'.active = false) : Dispatching s' := by
  have hzero : s'.count (Frame.holds r k) = 0 := by
    rw [State.count_set_eq hth hths (by rw [hstack])]
    exact hd.not_held he hidle
  refine hd.changes hth hths hch (fun r' k' _ => by rw [hstack]) ?_ ?_ ?_
  · rw [hzero, hidle']
    rfl
  · intro m th'' fr hm hfr hf
    have := State.count_pos hm hfr hf
    omega
  · intro fr hfr _
    rw [hstack] at hfr
    exact hd.sees n th fr hth hfr

/-- The frames below a `dispatch` hold what they held. -/
theorem Enters.sees {stack stack' : List Frame} (h : Enters r id stack stack')
    (hsees : ∀ fr ∈ stack, fr.Sees s) : ∀ fr ∈ stack', fr.Sees s := by
  cases h with
  | call => exact hsees
  | route =>
      intro fr hfr
      rcases List.mem_cons.mp hfr with rfl | hfr
      · trivial
      · exact hsees fr (List.mem_cons_of_mem _ hfr)

theorem returnStatus_sees {rest : List Frame} {last : Return} {status : RouteStatus}
    (hsees : ∀ fr ∈ rest, fr.Sees s) :
    ∀ fr ∈ (State.returnStatus rest last status).stack, fr.Sees s := by
  unfold State.returnStatus
  split
  case h_1 =>
    intro fr hfr
    rcases List.mem_cons.mp hfr with rfl | hfr
    · trivial
    · exact hsees fr (List.mem_cons_of_mem _ hfr)
  case h_2 => exact hsees

/-- `dispatch` selects an entry. -/
theorem Dispatching.select {stack : List Frame} {last : Return} {via : Option Nat}
    (hd : Dispatching s) (hth : s.threads[n]? = some th)
    (hths : s'.threads = s.threads.set n ⟨.selected r k id via :: stack, last⟩)
    (he : s.entry r k = some ⟨some p, id, false⟩) (henter : Enters r id th.stack stack)
    (hch : Changes s s' r k ⟨some p, id, true⟩) : Dispatching s' := by
  have hbefore : s.count (Frame.holds r k) = 0 := hd.not_held he rfl
  have hcount := State.count_set (f := Frame.holds r k) hth hths
  rw [List.countP_cons, (RouteBlind.holds r k).enters henter] at hcount
  have hself : Frame.holds r k (.selected r k id via) = true := by simp [Frame.holds]
  rw [hself, if_pos rfl] at hcount
  have hsees := henter.sees (hd.sees n th · hth)
  refine hd.changes hth hths hch ?_ ?_ ?_ ?_
  · intro r' k' hne
    have hno : Frame.holds r' k' (.selected r k id via) = false := by
      simp only [Frame.holds, decide_eq_false_iff_not]
      rintro ⟨rfl, rfl⟩
      exact hne ⟨rfl, rfl⟩
    rw [List.countP_cons_of_neg (by rw [hno]; simp), (RouteBlind.holds r' k').enters henter]
  · show _ = 1
    omega
  · intro m th'' fr hm hfr hf
    rw [hths] at hm
    -- Only the frame just pushed holds the entry: nothing held it before.
    rcases getElem?_set_cases hm with ⟨-, rfl⟩ | ⟨-, hm⟩
    · rcases List.mem_cons.mp hfr with rfl | hfr
      · exact ⟨p, hch.here⟩
      · have hpos := List.countP_pos_iff.mpr ⟨fr, hfr, hf⟩
        rw [(RouteBlind.holds r k).enters henter] at hpos
        have hle := le_tally (f := fun th => th.stack.countP (Frame.holds r k)) hth
        rw [State.count] at hbefore
        omega
    · have := State.count_pos hm hfr hf
      omega
  · intro fr hfr hf
    rcases List.mem_cons.mp hfr with rfl | hfr
    · rw [hself] at hf
      cases hf
    · exact hsees fr hfr

/-- `dispatch` clears its entry. -/
theorem Dispatching.clear {rest : List Frame} {last : Return} {via : Option Nat}
    {status : RouteStatus} (hd : Dispatching s)
    (hth : s.threads[n]? = some ⟨.publishing r k id via p :: rest, last⟩)
    (hths : s'.threads = s.threads.set n (State.returnStatus rest last status))
    (hch : Changes s s' r k ⟨some p, id, false⟩) : Dispatching s' := by
  have hsees := (hd.sees n _ · hth)
  have hbefore : s.count (Frame.holds r k) = 1 :=
    hd.once r k _ (hsees _ (List.mem_cons_self ..))
  have hcount := State.count_set (f := Frame.holds r k) hth hths
  rw [List.countP_cons, (RouteBlind.holds r k).returnStatus] at hcount
  have hself : Frame.holds r k (.publishing r k id via p) = true := by simp [Frame.holds]
  rw [hself, if_pos rfl] at hcount
  have hzero : s'.count (Frame.holds r k) = 0 := by omega
  refine hd.changes hth hths hch ?_ hzero ?_ ?_
  · intro r' k' hne
    have hno : Frame.holds r' k' (.publishing r k id via p) = false := by
      simp only [Frame.holds, decide_eq_false_iff_not]
      rintro ⟨rfl, rfl⟩
      exact hne ⟨rfl, rfl⟩
    rw [List.countP_cons_of_neg (by rw [hno]; simp), (RouteBlind.holds r' k').returnStatus]
  · intro m th'' fr hm hfr hf
    have := State.count_pos hm hfr hf
    omega
  · intro fr hfr _
    exact returnStatus_sees (fun fr hfr => hsees fr (List.mem_cons_of_mem _ hfr)) fr hfr

/-- The initial state and a new party. -/
theorem Dispatching.init : Dispatching registryMachine.init where
  sees := fun _ _ _ h => by cases h
  once := fun _ _ _ h => by cases h

theorem Dispatching.spawn (hd : Dispatching s) :
    Dispatching { s with threads := s.threads ++ [⟨[], .void⟩] } where
  sees := by
    intro m th fr hm hfr
    rcases getElem?_concat_cases hm with hm | ⟨-, rfl⟩
    · exact (hd.sees m th fr hm hfr).congr (fun _ _ _ => rfl)
    · cases hfr
  once := by
    intro r k e he
    rw [State.count, tally_append]
    exact hd.once r k e he

/-- No call holds an entry of a registry that is not there. -/
theorem Dispatching.count_absent (hd : Dispatching s) (hr : s.registries[r]? = none) :
    s.count (Frame.holds r k) = 0 := by
  by_contra hne
  obtain ⟨m, th, fr, hth, hfr, hf⟩ := State.exists_of_count_pos (Nat.pos_of_ne_zero hne)
  obtain ⟨p, id, hp⟩ := (hd.sees m th fr hth hfr).entry hf
  rw [State.entry, hr] at hp
  cases hp

theorem Dispatching.registry (hd : Dispatching s) (maxTopics : Nat) (mutexValid : Bool) :
    Dispatching { s with
      registries := s.registries ++ [TopicRegistry.create maxTopics mutexValid] } where
  sees := by
    intro m th fr hm hfr
    have hsees := hd.sees m th fr hm hfr
    refine hsees.congr (fun r k hf => ?_)
    obtain ⟨p, id, hp⟩ := hsees.entry hf
    obtain ⟨reg, hreg, -⟩ := State.of_entry hp
    rw [State.entry, State.entry, List.getElem?_append_left (List.getElem?_eq_some_iff.mp hreg).1]
  once := by
    intro r k e he
    obtain ⟨reg, hreg, hk⟩ := State.of_entry he
    rcases getElem?_concat_cases hreg with hreg | ⟨rfl, rfl⟩
    · exact hd.once r k e ((State.entry_eq hreg k).trans hk)
    · have hnew : e = .empty := List.eq_of_mem_replicate (List.mem_of_getElem? hk)
      rw [hnew]
      exact hd.count_absent (List.getElem?_eq_none_iff.mpr (Nat.le_refl _))

/-- The entry that `publish` was called through. -/
theorem Dispatching.publishing_entry {rest : List Frame} {last : Return} {via : Option Nat}
    (hd : Dispatching s) (hth : s.threads[n]? = some ⟨.publishing r k id via p :: rest, last⟩)
    (hreg : s.registries[r]? = some reg) : reg.entries[k]? = some ⟨some p, id, true⟩ := by
  rw [← State.entry_eq hreg k]
  exact hd.sees _ _ _ hth (List.mem_cons_self ..)

theorem TopicRegistry.clear_entries (he : reg.entries[k]? = some e) :
    (reg.clear k).entries = reg.entries.set k { e with active := false } := by
  rw [TopicRegistry.clear, List.modify_eq_set_getElem?, he]
  rfl

/-- Every step keeps the calls and the entries together. -/
theorem Dispatching.step (hd : Dispatching s) (hs : Step s evs s') : Dispatching s' := by
  cases hs with
  | spawn => exact hd.spawn
  | registry => exact hd.registry _ _
  | topic =>
      exact ⟨fun m th fr hm hfr => (hd.sees m th fr hm hfr).congr (fun _ _ _ => rfl), hd.once⟩
  | ret hth => exact hd.returns hth rfl rfl rfl
  | registered hth hreg hvalid hnew he hfree hid =>
      have hentry := (State.entry_eq hreg _).trans he
      exact hd.idle hth rfl rfl hentry (hd.idle_of_free hentry hfree)
        (.of_set hreg he rfl rfl) rfl
  | unregistered hth hreg he =>
      exact hd.idle hth rfl rfl ((State.entry_eq hreg _).trans he) rfl (.of_set hreg he rfl rfl) rfl
  | selected hth hreg he henter =>
      exact hd.select hth rfl ((State.entry_eq hreg _).trans he) henter (.of_set hreg he rfl rfl)
  | refused hth =>
      refine hd.thread hth rfl rfl (fun _ _ => by simp [Frame.holds]) ?_
      intro fr hfr
      rcases List.mem_cons.mp hfr with rfl | hfr
      · trivial
      · exact hd.sees _ _ fr hth (List.mem_cons_of_mem _ hfr)
  | @started n r id p k last rest reg e via hth hreg he hp =>
      refine hd.thread hth rfl rfl (fun _ _ => by rw [List.countP_cons, List.countP_cons]; rfl) ?_
      intro fr hfr
      rcases List.mem_cons.mp hfr with rfl | hfr
      · obtain ⟨q, hq⟩ := hd.sees _ _ _ hth (List.mem_cons_self ..)
        rw [State.entry_eq hreg, he] at hq
        cases hq
        cases hp
        exact (State.entry_eq hreg k).trans he
      · exact hd.sees _ _ fr hth (List.mem_cons_of_mem _ hfr)
  | @ended n r id p k last rest reg via status hth hreg =>
      have he := hd.publishing_entry hth hreg
      exact hd.clear hth rfl (.of_set hreg he rfl (TopicRegistry.clear_entries he))
  | bound hth | unbound hth => exact hd.returns hth rfl rfl rfl
  | route hth | publish hth =>
      refine hd.thread hth rfl rfl (fun _ _ => by simp [Frame.holds]) ?_
      intro fr hfr
      rcases List.mem_cons.mp hfr with rfl | hfr
      · trivial
      · exact hd.sees _ _ fr hth hfr
  | routed hth | published hth =>
      exact hd.thread hth rfl rfl (fun _ _ => by simp [Frame.holds])
        (fun fr hfr => hd.sees _ _ fr hth (List.mem_cons_of_mem _ hfr))

end Steps

end MicrOsal.Registry
