import MicrOsal.ZeroCopy.Record

/-!
# MicrOsal.ZeroCopy.Delivery

What a subscriber of a `zero_copy_signal` receives, over whole runs.

`ZcSubs` ties the slots of the topics to the record: the ids in the slots are ids
given out and not yet taken back, and the queue of a subscriber is what its queue has
accepted less what has been received. `ZcCalls` says that the id of a `receive_loan`
between its two locked regions is still subscribed, `ZcAhead` that a publication has
not yet reached the slots ahead of it. Every step keeps all three
(`ZcDelivery.step`).
-/

namespace MicrOsal

open ZcState

/-- The record of one subscription, when the topic has given out the ids below
`next`. -/
structure SubRecord (t id next : Nat) (log : List ZcEvent) : Prop where
  /-- What is received is what was accepted, in the same order. -/
  fifo : receivedFor t id log <+: acceptedFor t id log
  fresh : next ≤ id → history t id log = []
  /-- Accepted and received is between the beginning and the end of the
  subscription. -/
  begun : id < next → .unsubscribed t id ∉ log →
    ∃ body, (∀ e ∈ body, e.isTraffic = true) ∧ history t id log = .subscribed t id :: body
  ended : id < next → .unsubscribed t id ∈ log →
    ∃ body, (∀ e ∈ body, e.isTraffic = true) ∧
      history t id log = .subscribed t id :: (body ++ [.unsubscribed t id])
  /-- At most one index of each publication is accepted, in the order of the
  publications. -/
  increasing : (acceptedNumbers t id log).Pairwise (· < ·)
  bounded : ∀ p ∈ acceptedNumbers t id log, p ≤ publications t log

/-- The slots of the topics agree with the record. -/
structure ZcSubs (s : ZcState) (log : List ZcEvent) : Prop where
  issued : ∀ t, issuedIds t log = List.range (s.topicNext t)
  bound : ∀ t, s.topicNext t ≤ invalidSubscriberId
  live : ∀ t k, s.slotId t k ≠ invalidSubscriberId → s.slotId t k < s.topicNext t ∧
    .unsubscribed t (s.slotId t k) ∉ log
  unique : ∀ t k k', s.slotId t k ≠ invalidSubscriberId → s.slotId t k = s.slotId t k' → k = k'
  queue : ∀ t k, s.slotId t k ≠ invalidSubscriberId → s.topicAlive t = true →
    acceptedFor t (s.slotId t k) log = receivedFor t (s.slotId t k) log ++ s.slotQueue t k
  record : ∀ t id, SubRecord t id (s.topicNext t) log

/-- The id of a running `receive_loan` is still subscribed. -/
structure ZcCalls (s : ZcState) (log : List ZcEvent) : Prop where
  call : ∀ n, openCall n log =
    (s.thread n).receiving.map (fun slot => (slot.1, s.slotId slot.1 slot.2))
  live : ∀ n t k, (s.thread n).receiving = some (t, k) → s.slotId t k ≠ invalidSubscriberId

/-- A running publication has not been accepted by the slots ahead of it. -/
def ZcAhead (s : ZcState) (log : List ZcEvent) : Prop :=
  ∀ n t k, (s.thread n).ahead = some (t, k) → ∀ k', k ≤ k' →
    s.slotId t k' ≠ invalidSubscriberId →
    ∀ p ∈ acceptedNumbers t (s.slotId t k') log, p < publications t log

section Steps

variable {s s' : ZcState} {a : ZcAction} {evs log : List ZcEvent} {n t k id : Nat}

/-! ### Calls of `receive_loan` -/

/-- The id of a slot does not change under a `receive_loan`. -/
theorem ZcTurn.slotId_of_receiving (hturn : ZcTurn s evs s')
    (hrec : (s.thread n).receiving = some (t, k)) (hlive : s.slotId t k ≠ invalidSubscriberId) :
    s'.slotId t k = s.slotId t k := by
  cases hturn with
  | same _ hid => exact hid t k
  | publishes _ hid => exact hid t k
  | @subscribes t₁ k₁ id _ _ hfree _ _ _ _ _ _ hothers =>
      refine (hothers t k ?_).1
      by_contra hne
      rw [not_or, not_not, not_not] at hne
      obtain ⟨rfl, rfl⟩ := hne
      exact hlive hfree
  | @unsubscribes t₁ k₁ id _ _ _ _ _ hnobody _ hothers =>
      refine (hothers t k ?_).1
      by_contra hne
      rw [not_or, not_not, not_not] at hne
      obtain ⟨rfl, rfl⟩ := hne
      exact hnobody n hrec
  | accepts _ _ _ _ _ _ hid => exact hid t k
  | pops _ _ _ _ hid => exact hid t k

/-- A thread that is in no `receive_loan` before or after the step. -/
theorem openCall_quiet {th th' : ZcThread} (h : openCall n log = th.receiving.map
      (fun slot => (slot.1, s.slotId slot.1 slot.2)))
    (hth : th.receiving = none) (hth' : th'.receiving = none)
    (hshow : openCall n (log ++ evs) = openCall n log) :
    openCall n (log ++ evs) =
      th'.receiving.map (fun slot => (slot.1, s'.slotId slot.1 slot.2)) := by
  rw [hshow, h, hth, hth']
  rfl

/-- The thread that moves enters, goes on with, or leaves its `receive_loan`. -/
theorem ZcGoes.calls {th th' : ZcThread} (hgoes : ZcGoes s n th evs th')
    (hturn : ZcTurn s evs s')
    (hgo : openCall n log = th.receiving.map (fun slot => (slot.1, s.slotId slot.1 slot.2)))
    (hlive : ∀ t k, th.receiving = some (t, k) → s.slotId t k ≠ invalidSubscriberId)
    (hkeep : ∀ t k, th.receiving = some (t, k) → s'.slotId t k = s.slotId t k) :
    openCall n (log ++ evs) =
        th'.receiving.map (fun slot => (slot.1, s'.slotId slot.1 slot.2)) ∧
      ∀ t k, th'.receiving = some (t, k) → s'.slotId t k ≠ invalidSubscriberId := by
  cases hgoes with
  | rests hp hp' =>
      refine ⟨openCall_quiet hgo hp.receiving hp'.receiving (by simp), ?_⟩
      rw [hp'.receiving]
      nofun
  | subscribes hp hp' =>
      refine ⟨openCall_quiet hgo hp.receiving hp'.receiving openCall_concat, ?_⟩
      rw [hp'.receiving]
      nofun
  | unsubscribes hp hp' =>
      refine ⟨openCall_quiet hgo hp.receiving hp'.receiving openCall_concat, ?_⟩
      rw [hp'.receiving]
      nofun
  | begins hp => exact ⟨openCall_quiet hgo hp.receiving rfl openCall_concat, nofun⟩
  | continues hpub hpub' =>
      have hnone' := receiving_of_publishing hpub'
      refine ⟨openCall_quiet hgo (receiving_of_publishing hpub) hnone' (by simp), ?_⟩
      rw [hnone']
      nofun
  | accepts => exact ⟨openCall_quiet hgo rfl rfl openCall_concat, nofun⟩
  | stops hpub hp' =>
      refine ⟨openCall_quiet hgo (receiving_of_publishing hpub) hp'.receiving (by simp), ?_⟩
      rw [hp'.receiving]
      nofun
  | @enters th t k out hp hid =>
      have hsame : s'.slotId t k = s.slotId t k := by
        cases hturn with
        | same _ hid => exact hid t k
      constructor
      · rw [openCall_concat, ZcEvent.moveCall, if_pos rfl]
        simp [ZcThread.receiving, hsame]
      · intro t' k' h
        cases h
        rw [hsame]
        exact hid
  | @pops t k out id index =>
      have hsame := hkeep t k rfl
      constructor
      · rw [openCall_concat, hgo]
        simp [ZcEvent.moveCall, ZcThread.receiving, hsame]
      · intro t' k' h
        cases h
        rw [hsame]
        exact hlive t k rfl
  | @givesUp t k out =>
      have hsame := hkeep t k rfl
      constructor
      · rw [List.append_nil, hgo]
        simp [ZcThread.receiving, hsame]
      · intro t' k' h
        cases h
        rw [hsame]
        exact hlive t k rfl
  | leaves _ hnone' =>
      constructor
      · rw [openCall_concat, ZcEvent.moveCall, if_pos rfl, hnone']
        rfl
      · rw [hnone']
        nofun
  | stores hp' =>
      refine ⟨openCall_quiet hgo rfl hp'.receiving openCall_concat, ?_⟩
      rw [hp'.receiving]
      nofun

theorem ZcCalls.step {capacity : Nat} (hi : ZcInv capacity s) (hc : ZcCalls s log)
    (hs : ZcStep s a evs s') : ZcCalls s' (log ++ evs) := by
  have hturn := hs.turn hi
  obtain ⟨n, hothers, hgoes⟩ := hs.moves
  -- A call that goes on keeps its slot's id.
  have hkeep : ∀ m t k, (s.thread m).receiving = some (t, k) → s'.slotId t k = s.slotId t k :=
    fun m t k hrec => hturn.slotId_of_receiving hrec (hc.live m t k hrec)
  have hn := hgoes.calls hturn (hc.call n) (hc.live n) (hkeep n)
  constructor
  · intro m
    by_cases hmn : m = n
    · subst hmn
      exact hn.1
    · obtain ⟨-, -, -, hcall⟩ := hgoes.other log hmn
      rw [hcall, hothers m hmn, hc.call m]
      cases hrec : (s.thread m).receiving with
      | none => rfl
      | some slot =>
          rw [Option.map_some, Option.map_some, hkeep m slot.1 slot.2 hrec]
  · intro m t k hrec
    by_cases hmn : m = n
    · subst hmn
      exact hn.2 t k hrec
    · rw [hothers m hmn] at hrec
      rw [hkeep m t k hrec]
      exact hc.live m t k hrec

/-! ### Records that do not change -/

/-- The two records say the same of a subscription. -/
structure SameFor (t id : Nat) (log log' : List ZcEvent) : Prop where
  accepted : acceptedFor t id log' = acceptedFor t id log
  received : receivedFor t id log' = receivedFor t id log
  numbers : acceptedNumbers t id log' = acceptedNumbers t id log
  events : history t id log' = history t id log
  stopped : .unsubscribed t id ∈ log' ↔ .unsubscribed t id ∈ log

theorem SameFor.refl (t id : Nat) (log : List ZcEvent) : SameFor t id log log :=
  ⟨rfl, rfl, rfl, rfl, Iff.rfl⟩

theorem SameFor.trans {log₁ log₂ log₃ : List ZcEvent} (h : SameFor t id log₁ log₂)
    (h' : SameFor t id log₂ log₃) : SameFor t id log₁ log₃ where
  accepted := h'.accepted.trans h.accepted
  received := h'.received.trans h.received
  numbers := h'.numbers.trans h.numbers
  events := h'.events.trans h.events
  stopped := h'.stopped.trans h.stopped

theorem ZcEvent.acceptance_of_about {e : ZcEvent} (h : e.about t id = false) :
    e.acceptance t id = none := by
  cases e with
  | accepted n t' id' index =>
      rw [ZcEvent.about, decide_eq_false_iff_not] at h
      exact if_neg h
  | _ => rfl

theorem ZcEvent.receipt_of_about {e : ZcEvent} (h : e.about t id = false) :
    e.receipt t id = none := by
  cases e with
  | received n t' id' index =>
      rw [ZcEvent.about, decide_eq_false_iff_not] at h
      exact if_neg h
  | _ => rfl

/-- An event that is not about the subscription. -/
theorem SameFor.concat {e : ZcEvent} (h : e.about t id = false) :
    SameFor t id log (log ++ [e]) where
  accepted := by
    rw [acceptedFor_concat, e.acceptance_of_about h]
    exact List.append_nil _
  received := by
    rw [receivedFor_concat, e.receipt_of_about h]
    exact List.append_nil _
  numbers := by
    rw [acceptedNumbers_concat, e.acceptance_of_about h]
    exact List.append_nil _
  events := by
    rw [history_concat, h]
    exact List.append_nil _
  stopped := by
    rw [List.mem_append, List.mem_singleton, or_iff_left_iff_imp]
    rintro rfl
    simp [ZcEvent.about] at h

/-- Events that concern no subscription. -/
theorem SameFor.append (h : ∀ e ∈ evs, e.about t id = false) :
    SameFor t id log (log ++ evs) := by
  induction evs generalizing log with
  | nil =>
      rw [List.append_nil]
      exact .refl t id log
  | cons e rest ih =>
      have hrest : SameFor t id (log ++ [e]) (log ++ [e] ++ rest) :=
        ih (fun e' he' => h e' (List.mem_cons_of_mem _ he'))
      rw [List.append_assoc] at hrest
      exact (SameFor.concat (h e (List.mem_cons_self ..))).trans hrest

theorem publications_append_of_quiet (h : ∀ e ∈ evs, e.begins t = false) :
    publications t (log ++ evs) = publications t log := by
  have hzero : publications t evs = 0 :=
    List.countP_eq_zero.mpr (fun e he => by simp [h e he])
  rw [publications, List.countP_append]
  exact (congrArg _ hzero).trans (Nat.add_zero _)

theorem issuedIds_append_of_quiet (h : ∀ e ∈ evs, ∀ id, e.about t id = false) :
    issuedIds t (log ++ evs) = issuedIds t log := by
  have hnil : evs.filterMap (ZcEvent.issue t) = [] := by
    refine List.filterMap_eq_nil_iff.mpr ?_
    intro e he
    cases e with
    | subscribed t' id =>
        have := h _ he id
        simp only [ZcEvent.about, and_true, decide_eq_false_iff_not] at this
        exact if_neg this
    | _ => rfl
  rw [issuedIds, List.filterMap_append, hnil, List.append_nil]
  rfl

theorem SubRecord.same {next : Nat} {log' : List ZcEvent} (h : SubRecord t id next log)
    (hsame : SameFor t id log log') (hpub : publications t log ≤ publications t log') :
    SubRecord t id next log' where
  fifo := by
    rw [hsame.received, hsame.accepted]
    exact h.fifo
  fresh := by
    rw [hsame.events]
    exact h.fresh
  begun := by
    rw [hsame.events, hsame.stopped]
    exact h.begun
  ended := by
    rw [hsame.events, hsame.stopped]
    exact h.ended
  increasing := by
    rw [hsame.numbers]
    exact h.increasing
  bounded := by
    rw [hsame.numbers]
    exact fun p hp => le_trans (h.bounded p hp) hpub

/-- An event about a subscription is in its history. -/
theorem unsubscribed_notMem {next : Nat} (h : SubRecord t id next log) (hle : next ≤ id) :
    ZcEvent.unsubscribed t id ∉ log := by
  intro hmem
  have hhist : ZcEvent.unsubscribed t id ∈ history t id log :=
    List.mem_filter.mpr ⟨hmem, by simp [ZcEvent.about]⟩
  rw [h.fresh hle] at hhist
  cases hhist

/-! ### The steps of a subscription -/

/-- A subscription without history has accepted and received nothing. -/
theorem acceptedFor_of_history (h : history t id log = []) :
    acceptedFor t id log = [] ∧ receivedFor t id log = [] := by
  have hnone : ∀ e ∈ log, e.about t id = false := by
    intro e he
    simpa using List.filter_eq_nil_iff.mp h e he
  exact ⟨List.filterMap_eq_nil_iff.mpr (fun e he => e.acceptance_of_about (hnone e he)),
    List.filterMap_eq_nil_iff.mpr (fun e he => e.receipt_of_about (hnone e he))⟩

/-- Another id is given out. -/
theorem SubRecord.skip {next : Nat} (h : SubRecord t id next log) (hne : id ≠ next) :
    SubRecord t id (next + 1) log where
  fifo := h.fifo
  fresh := fun hle => h.fresh (by omega)
  begun := fun hlt => h.begun (by omega)
  ended := fun hlt => h.ended (by omega)
  increasing := h.increasing
  bounded := h.bounded

/-- The id is given out. -/
theorem SubRecord.subscribe (h : SubRecord t id id log) :
    SubRecord t id (id + 1) (log ++ [.subscribed t id]) := by
  have hempty := h.fresh (le_refl id)
  have hhist : history t id (log ++ [.subscribed t id]) = [.subscribed t id] := by
    rw [history_concat, hempty]
    simp [ZcEvent.about]
  have hnever := unsubscribed_notMem h (le_refl id)
  have hnumbers : acceptedNumbers t id (log ++ [.subscribed t id]) = acceptedNumbers t id log := by
    rw [acceptedNumbers_concat]
    exact List.append_nil _
  constructor
  · rw [receivedFor_concat, acceptedFor_concat]
    simpa [ZcEvent.receipt, ZcEvent.acceptance] using h.fifo
  · intro hle
    omega
  · exact fun _ _ => ⟨[], (fun _ h => by cases h), hhist⟩
  · intro _ hmem
    simp only [List.mem_append, List.mem_singleton, reduceCtorEq, or_false] at hmem
    exact absurd hmem hnever
  · rw [hnumbers]
    exact h.increasing
  · rw [hnumbers, publications_append_of_quiet (by simp [ZcEvent.begins])]
    exact h.bounded

/-- The id is taken back. -/
theorem SubRecord.unsubscribe {next : Nat} (h : SubRecord t id next log) (hlt : id < next)
    (hopen : .unsubscribed t id ∉ log) :
    SubRecord t id next (log ++ [.unsubscribed t id]) := by
  obtain ⟨body, hbody, hhist⟩ := h.begun hlt hopen
  have hnumbers : acceptedNumbers t id (log ++ [.unsubscribed t id]) =
      acceptedNumbers t id log := by
    rw [acceptedNumbers_concat]
    exact List.append_nil _
  constructor
  · rw [receivedFor_concat, acceptedFor_concat]
    simpa [ZcEvent.receipt, ZcEvent.acceptance] using h.fifo
  · intro hle
    omega
  · intro _ hnot
    exact absurd (List.mem_append_right _ (List.mem_singleton_self _)) hnot
  · refine fun _ _ => ⟨body, hbody, ?_⟩
    rw [history_concat, hhist]
    simp [ZcEvent.about]
  · rw [hnumbers]
    exact h.increasing
  · rw [hnumbers, publications_append_of_quiet (by simp [ZcEvent.begins])]
    exact h.bounded

/-- The history of a running subscription goes on. -/
theorem SubRecord.history_traffic {next : Nat} {e : ZcEvent} (h : SubRecord t id next log)
    (hlt : id < next) (hopen : .unsubscribed t id ∉ log) (habout : e.about t id = true)
    (htraffic : e.isTraffic = true) :
    .unsubscribed t id ∉ log ++ [e] ∧
      ∃ body, (∀ e ∈ body, e.isTraffic = true) ∧
        history t id (log ++ [e]) = .subscribed t id :: body := by
  obtain ⟨body, hbody, hhist⟩ := h.begun hlt hopen
  refine ⟨?_, body ++ [e], ?_, ?_⟩
  · rw [List.mem_append, List.mem_singleton, not_or]
    refine ⟨hopen, ?_⟩
    rintro rfl
    cases htraffic
  · intro e' he'
    rcases List.mem_append.mp he' with he' | he'
    · exact hbody e' he'
    · rw [List.mem_singleton.mp he']
      exact htraffic
  · rw [history_concat, hhist, habout]
    rfl

/-- The subscriber's queue accepts an index. -/
theorem SubRecord.accept {next index : Nat} (h : SubRecord t id next log) (hlt : id < next)
    (hopen : .unsubscribed t id ∉ log)
    (hlater : ∀ p ∈ acceptedNumbers t id log, p < publications t log) :
    SubRecord t id next (log ++ [.accepted n t id index]) := by
  have hnumbers : acceptedNumbers t id (log ++ [.accepted n t id index]) =
      acceptedNumbers t id log ++ [publications t log] := by
    rw [acceptedNumbers_concat, ZcEvent.acceptance, if_pos ⟨rfl, rfl⟩]
    rfl
  obtain ⟨hopen', hbegun⟩ :=
    h.history_traffic (e := .accepted n t id index) hlt hopen (by simp [ZcEvent.about]) rfl
  constructor
  · rw [receivedFor_concat, acceptedFor_concat]
    exact (List.append_nil (receivedFor t id log)).symm ▸
      h.fifo.trans (List.prefix_append _ _)
  · intro hle
    omega
  · exact fun _ _ => hbegun
  · exact fun _ hmem => absurd hmem hopen'
  · rw [hnumbers, List.pairwise_append]
    refine ⟨h.increasing, List.pairwise_singleton _ _, ?_⟩
    intro p hp q hq
    rw [List.mem_singleton.mp hq]
    exact hlater p hp
  · rw [hnumbers, publications_append_of_quiet (by simp [ZcEvent.begins])]
    intro p hp
    rcases List.mem_append.mp hp with hp | hp
    · exact h.bounded p hp
    · exact le_of_eq (List.mem_singleton.mp hp)

/-- An index is received from the subscriber's queue. -/
theorem SubRecord.receive {next index : Nat} {rest : List Nat} (h : SubRecord t id next log)
    (hlt : id < next) (hopen : .unsubscribed t id ∉ log)
    (hqueue : acceptedFor t id log = receivedFor t id log ++ index :: rest) :
    SubRecord t id next (log ++ [.received n t id index]) := by
  have hnumbers : acceptedNumbers t id (log ++ [.received n t id index]) =
      acceptedNumbers t id log := by
    rw [acceptedNumbers_concat]
    exact List.append_nil _
  obtain ⟨hopen', hbegun⟩ :=
    h.history_traffic (e := .received n t id index) hlt hopen (by simp [ZcEvent.about]) rfl
  constructor
  · rw [receivedFor_concat, acceptedFor_concat, hqueue]
    simp [ZcEvent.receipt, ZcEvent.acceptance]
  · intro hle
    omega
  · exact fun _ _ => hbegun
  · exact fun _ hmem => absurd hmem hopen'
  · rw [hnumbers]
    exact h.increasing
  · rw [hnumbers, publications_append_of_quiet (by simp [ZcEvent.begins])]
    exact h.bounded

/-- Nothing happens to any subscription. -/
theorem ZcSubs.same {log' : List ZcEvent} (h : ZcSubs s log)
    (hsame : ∀ t id, SameFor t id log log') (hissued : ∀ t, issuedIds t log' = issuedIds t log)
    (hpub : ∀ t, publications t log ≤ publications t log')
    (hid : ∀ t k, s'.slotId t k = s.slotId t k) (hnext : ∀ t, s'.topicNext t = s.topicNext t)
    (hkeep : ∀ t k, s.KeepsQueues s' t k) : ZcSubs s' log' where
  issued := fun t => by rw [hissued, hnext]; exact h.issued t
  bound := fun t => by rw [hnext]; exact h.bound t
  live := by
    intro t k
    rw [hid, hnext, (hsame t _).stopped]
    exact h.live t k
  unique := by
    intro t k k'
    rw [hid, hid]
    exact h.unique t k k'
  queue := by
    intro t k hlive halive
    rw [hid] at hlive ⊢
    obtain ⟨halive, hq⟩ := (hkeep t k).keep hlive halive
    rw [(hsame t _).accepted, (hsame t _).received, hq]
    exact h.queue t k hlive halive
  record := by
    intro t id
    rw [hnext]
    exact (h.record t id).same (hsame t id) (hpub t)

/-- `subscribe` begins a subscription under an id that was never used. -/
theorem ZcSubs.subscribe (h : ZcSubs s log) (hfree : s.slotId t k = invalidSubscriberId)
    (hid : s.topicNext t = id) (hvalid : id ≠ invalidSubscriberId) (hnew : s'.slotId t k = id)
    (hqueue : s'.slotQueue t k = []) (hnext : s'.topicNext t = id + 1)
    (hnexts : ∀ t', t' ≠ t → s'.topicNext t' = s.topicNext t')
    (hothers : ∀ t' k', t' ≠ t ∨ k' ≠ k →
      s'.slotId t' k' = s.slotId t' k' ∧ s.KeepsQueues s' t' k') :
    ZcSubs s' (log ++ [.subscribed t id]) := by
  have hother : ∀ {t' id'}, t' ≠ t ∨ id' ≠ id →
      SameFor t' id' log (log ++ [.subscribed t id]) := by
    intro t' id' hne
    refine .concat ?_
    simp only [ZcEvent.about, decide_eq_false_iff_not]
    omega
  have hpub : ∀ t', publications t' (log ++ [.subscribed t id]) = publications t' log :=
    fun t' => publications_append_of_quiet (by simp [ZcEvent.begins])
  -- A slot that had a subscriber is not the one that gets one.
  have hold : ∀ {t' k'}, s'.slotId t' k' ≠ invalidSubscriberId →
      (t' = t ∧ k' = k) ∨ ((t' ≠ t ∨ k' ≠ k) ∧ s'.slotId t' k' = s.slotId t' k' ∧
        s.slotId t' k' ≠ invalidSubscriberId ∧ (t' = t → s.slotId t' k' < id)) := by
    intro t' k' hlive
    by_cases hne : t' ≠ t ∨ k' ≠ k
    · have hsame := (hothers t' k' hne).1
      rw [hsame] at hlive
      refine .inr ⟨hne, hsame, hlive, ?_⟩
      rintro rfl
      rw [← hid]
      exact (h.live t' k' hlive).1
    · rw [not_or, not_not, not_not] at hne
      exact .inl hne
  have hnever : ZcEvent.unsubscribed t id ∉ log :=
    unsubscribed_notMem (h.record t id) (le_of_eq hid)
  constructor
  · intro t'
    rw [issuedIds_concat, h.issued]
    by_cases ht : t' = t
    · subst ht
      rw [hnext, hid, List.range_succ]
      simp [ZcEvent.issue]
    · rw [hnexts t' ht, ZcEvent.issue, if_neg (Ne.symm ht)]
      exact List.append_nil _
  · intro t'
    by_cases ht : t' = t
    · subst ht
      have := h.bound t'
      omega
    · rw [hnexts t' ht]
      exact h.bound t'
  · intro t' k' hlive
    rcases hold hlive with ⟨rfl, rfl⟩ | ⟨-, hsame, hlive, hlt⟩
    · rw [hnew, hnext]
      refine ⟨Nat.lt_succ_self _, ?_⟩
      simpa using hnever
    · have hlt' := h.live t' k' hlive
      rw [hsame]
      constructor
      · by_cases ht : t' = t
        · subst ht
          rw [hnext]
          exact Nat.lt_succ_of_lt (hlt rfl)
        · rw [hnexts t' ht]
          exact hlt'.1
      · simpa using hlt'.2
  · intro t' k₁ k₂ hlive heq
    have hlive₂ : s'.slotId t' k₂ ≠ invalidSubscriberId := heq ▸ hlive
    rcases hold hlive with ⟨rfl, rfl⟩ | ⟨-, hsame₁, hlive₁, hlt₁⟩
    · rcases hold hlive₂ with ⟨-, rfl⟩ | ⟨-, hsame₂, -, hlt₂⟩
      · rfl
      · have := hlt₂ rfl
        omega
    · rcases hold hlive₂ with ⟨rfl, rfl⟩ | ⟨-, hsame₂, -, -⟩
      · have := hlt₁ rfl
        omega
      · refine h.unique t' k₁ k₂ hlive₁ ?_
        rw [← hsame₁, ← hsame₂, heq]
  · intro t' k' hlive halive
    rcases hold hlive with ⟨rfl, rfl⟩ | ⟨hne, hsame, hlive, hlt⟩
    · -- Nothing was ever accepted for the new id.
      obtain ⟨hacc, hrec⟩ := acceptedFor_of_history ((h.record t' id).fresh (le_of_eq hid))
      rw [hnew, hqueue, acceptedFor_concat, receivedFor_concat, hacc, hrec]
      rfl
    · obtain ⟨halive, hq⟩ := (hothers t' k' hne).2.keep hlive halive
      have hid' : t' ≠ t ∨ s.slotId t' k' ≠ id := by
        by_cases ht : t' = t
        · exact .inr (Nat.ne_of_lt (hlt ht))
        · exact .inl ht
      rw [hsame, (hother hid').accepted, (hother hid').received, hq]
      exact h.queue t' k' hlive halive
  · intro t' id'
    by_cases hne : t' ≠ t ∨ id' ≠ id
    · have hrec := (h.record t' id').same (hother hne) (le_of_eq (hpub t').symm)
      by_cases ht : t' = t
      · subst ht
        rw [hid] at hrec
        rw [hnext]
        exact hrec.skip (hne.resolve_left (fun h => h rfl))
      · rw [hnexts t' ht]
        exact hrec
    · rw [not_or, not_not, not_not] at hne
      obtain ⟨rfl, rfl⟩ := hne
      rw [hnext]
      refine SubRecord.subscribe ?_
      have hrec := h.record t' id'
      rwa [hid] at hrec

/-- An event of one subscription says nothing of the others. -/
theorem SameFor.of_other {e : ZcEvent} {t' id' : Nat} (habout : e.about t id = true)
    (hne : t' ≠ t ∨ id' ≠ id) : SameFor t' id' log (log ++ [e]) := by
  refine .concat ?_
  cases e <;> simp only [ZcEvent.about, decide_eq_true_eq, decide_eq_false_iff_not,
    Bool.false_eq_true] at habout ⊢ <;> omega

/-- `unsubscribe` ends a subscription. -/
theorem ZcSubs.unsubscribe (h : ZcSubs s log) (hid : s.slotId t k = id)
    (hvalid : id ≠ invalidSubscriberId) (hfree : s'.slotId t k = invalidSubscriberId)
    (hnext : ∀ t', s'.topicNext t' = s.topicNext t')
    (hothers : ∀ t' k', t' ≠ t ∨ k' ≠ k →
      s'.slotId t' k' = s.slotId t' k' ∧ s.KeepsQueues s' t' k') :
    ZcSubs s' (log ++ [.unsubscribed t id]) := by
  subst hid
  have hlive := h.live t k hvalid
  have hother : ∀ {t' id'}, t' ≠ t ∨ id' ≠ s.slotId t k →
      SameFor t' id' log (log ++ [.unsubscribed t (s.slotId t k)]) :=
    fun hne => .of_other (by simp [ZcEvent.about]) hne
  -- A slot with a subscriber is another one, with another id.
  have hold : ∀ {t' k'}, s'.slotId t' k' ≠ invalidSubscriberId →
      (t' ≠ t ∨ k' ≠ k) ∧ s'.slotId t' k' = s.slotId t' k' ∧
        s.slotId t' k' ≠ invalidSubscriberId ∧ (t' ≠ t ∨ s.slotId t' k' ≠ s.slotId t k) := by
    intro t' k' hl
    by_cases hne : t' ≠ t ∨ k' ≠ k
    · have hsame := (hothers t' k' hne).1
      rw [hsame] at hl
      refine ⟨hne, hsame, hl, ?_⟩
      by_cases ht : t' = t
      · subst ht
        refine .inr (fun heq => ?_)
        exact hne.elim (fun h => h rfl) (fun hk => hk (h.unique t' k' k hl heq))
      · exact .inl ht
    · rw [not_or, not_not, not_not] at hne
      obtain ⟨rfl, rfl⟩ := hne
      exact absurd hfree hl
  constructor
  · intro t'
    rw [issuedIds_concat, h.issued, hnext]
    exact List.append_nil _
  · intro t'
    rw [hnext]
    exact h.bound t'
  · intro t' k' hl
    obtain ⟨-, hsame, hl, hne⟩ := hold hl
    rw [hsame, hnext, (hother hne).stopped]
    exact h.live t' k' hl
  · intro t' k₁ k₂ hl heq
    obtain ⟨-, hsame₁, hl₁, -⟩ := hold hl
    obtain ⟨-, hsame₂, -, -⟩ := hold (heq ▸ hl)
    rw [hsame₁, hsame₂] at heq
    exact h.unique t' k₁ k₂ hl₁ heq
  · intro t' k' hl halive
    obtain ⟨hne, hsame, hl, hne'⟩ := hold hl
    obtain ⟨halive, hq⟩ := (hothers t' k' hne).2.keep hl halive
    rw [hsame, (hother hne').accepted, (hother hne').received, hq]
    exact h.queue t' k' hl halive
  · intro t' id'
    rw [hnext]
    by_cases hne : t' ≠ t ∨ id' ≠ s.slotId t k
    · refine (h.record t' id').same (hother hne) (le_of_eq ?_)
      exact (publications_append_of_quiet (by simp [ZcEvent.begins])).symm
    · rw [not_or, not_not, not_not] at hne
      obtain ⟨rfl, rfl⟩ := hne
      exact (h.record t' _).unsubscribe hlive.1 hlive.2

/-- Something is accepted for, or received by, one subscriber. -/
theorem ZcSubs.traffic {e : ZcEvent} (h : ZcSubs s log)
    (hvalid : s.slotId t k ≠ invalidSubscriberId) (habout : e.about t (s.slotId t k) = true)
    (htraffic : e.isTraffic = true) (hid : ∀ t k, s'.slotId t k = s.slotId t k)
    (hnext : ∀ t, s'.topicNext t = s.topicNext t)
    (hkeep : ∀ t' k', t' ≠ t ∨ k' ≠ k → s.KeepsQueues s' t' k')
    (hqueue : s'.topicAlive t = true → acceptedFor t (s.slotId t k) (log ++ [e]) =
      receivedFor t (s.slotId t k) (log ++ [e]) ++ s'.slotQueue t k)
    (hrecord : SubRecord t (s.slotId t k) (s.topicNext t) (log ++ [e])) :
    ZcSubs s' (log ++ [e]) := by
  have hother : ∀ {t' id'}, t' ≠ t ∨ id' ≠ s.slotId t k → SameFor t' id' log (log ++ [e]) :=
    fun hne => .of_other habout hne
  have hissue : ∀ t', e.issue t' = none := by
    intro t'
    cases e <;> first | rfl | cases htraffic
  have hbegins : ∀ t', e.begins t' = false := by
    intro t'
    cases e <;> first | rfl | cases htraffic
  constructor
  · intro t'
    rw [issuedIds_concat, h.issued, hnext, hissue]
    exact List.append_nil _
  · intro t'
    rw [hnext]
    exact h.bound t'
  · intro t' k' hl
    rw [hid] at hl
    rw [hid, hnext]
    refine ⟨(h.live t' k' hl).1, ?_⟩
    rw [List.mem_append, List.mem_singleton, not_or]
    refine ⟨(h.live t' k' hl).2, ?_⟩
    rintro rfl
    cases htraffic
  · intro t' k₁ k₂
    rw [hid, hid]
    exact h.unique t' k₁ k₂
  · intro t' k' hl halive
    rw [hid] at hl
    by_cases hne : t' ≠ t ∨ k' ≠ k
    · have hne' : t' ≠ t ∨ s.slotId t' k' ≠ s.slotId t k := by
        by_cases ht : t' = t
        · subst ht
          refine .inr (fun heq => ?_)
          exact hne.elim (fun h => h rfl) (fun hk => hk (h.unique t' k' k hl heq))
        · exact .inl ht
      obtain ⟨halive, hq⟩ := (hkeep t' k' hne).keep hl halive
      rw [hid, (hother hne').accepted, (hother hne').received, hq]
      exact h.queue t' k' hl halive
    · rw [not_or, not_not, not_not] at hne
      obtain ⟨rfl, rfl⟩ := hne
      rw [hid]
      exact hqueue halive
  · intro t' id'
    rw [hnext]
    by_cases hne : t' ≠ t ∨ id' ≠ s.slotId t k
    · refine (h.record t' id').same (hother hne) (le_of_eq ?_)
      exact (publications_append_of_quiet (by simpa using hbegins t')).symm
    · rw [not_or, not_not, not_not] at hne
      obtain ⟨rfl, rfl⟩ := hne
      exact hrecord

theorem ZcSubs.step {capacity : Nat} (hi : ZcInv capacity s) (h : ZcSubs s log)
    (hcalls : ZcCalls s log) (hahead : ZcAhead s log) (hs : ZcStep s a evs s') :
    ZcSubs s' (log ++ evs) := by
  cases hs.turn hi with
  | same hquiet hid hnext hkeep =>
      refine h.same (fun t id => .append (fun e he => (hquiet e he t id).1)) ?_ ?_ hid hnext hkeep
      · exact fun t => issuedIds_append_of_quiet (fun e he id => (hquiet e he t id).1)
      · refine fun t => le_of_eq (publications_append_of_quiet ?_).symm
        exact fun e he => (hquiet e he t 0).2
  | publishes _ hid hnext hkeep =>
      refine h.same (fun t id => .concat rfl) ?_ ?_ hid hnext hkeep
      · exact fun t => issuedIds_append_of_quiet (by simp [ZcEvent.about])
      · intro t
        rw [publications_concat]
        exact Nat.le_add_right _ _
  | subscribes _ hfree hid hvalid hnew hqueue hnext hnexts hothers =>
      exact h.subscribe hfree hid hvalid hnew hqueue hnext hnexts hothers
  | unsubscribes _ hid hvalid hfree _ hnext hothers =>
      exact h.unsubscribe hid hvalid hfree hnext hothers
  | @accepts n k id c _ hth _ halive hid hvalid hqueue hids hnext hkeep =>
      subst hid
      obtain ⟨hlt, hopen⟩ := h.live c.topic k hvalid
      refine h.traffic hvalid (by simp [ZcEvent.about]) rfl hids hnext hkeep ?_ ?_
      · intro _
        rw [acceptedFor_concat, receivedFor_concat, hqueue, h.queue c.topic k hvalid halive]
        simp [ZcEvent.acceptance, ZcEvent.receipt]
      · refine (h.record _ _).accept hlt hopen ?_
        exact hahead n c.topic k (by rw [hth]; rfl) k (le_refl k) hvalid
  | @pops n t k out id index _ hth halive hid hqueue hids hnext hkeep =>
      subst hid
      have hvalid := hcalls.live n t k (by rw [hth]; rfl)
      obtain ⟨hlt, hopen⟩ := h.live t k hvalid
      have hq := h.queue t k hvalid halive
      rw [hqueue] at hq
      refine h.traffic hvalid (by simp [ZcEvent.about]) rfl hids hnext hkeep ?_ ?_
      · intro _
        rw [acceptedFor_concat, receivedFor_concat, hq]
        simp [ZcEvent.acceptance, ZcEvent.receipt]
      · exact (h.record _ _).receive hlt hopen hq

/-! ### Publications -/

theorem ahead_of_publishing {th : ZcThread} (h : th.publishing = none) : th.ahead = none := by
  cases th <;> first | rfl | cases h

/-- A publication in progress has the mutex of its topic. -/
theorem topicMutex_of_ahead {capacity : Nat} (hi : ZcInv capacity s)
    (h : (s.thread n).ahead = some (t, k)) : s.topicMutex t = some n := by
  cases hth : s.threads[n]? with
  | none => rw [ZcState.thread, hth] at h; cases h
  | some th =>
      rw [thread_eq hth] at h
      have htopic : th.topic = some t := by
        cases th <;> first | exact congrArg (Option.map Prod.fst) h | cases h
      obtain ⟨tp, htp, hok⟩ := hi.threads n th t hth htopic
      rw [topicMutex_eq htp]
      cases th with
      | publish c k => exact hok.2
      | send c k => exact hok.2.1
      | reject c k => exact hok.2
      | _ => cases h

/-- An acceptance is the step of the thread it names. -/
theorem ZcGoes.acceptor {m index : Nat} {th th' : ZcThread} (hgoes : ZcGoes s n th evs th')
    (hevs : evs = [.accepted m t id index]) : m = n := by
  cases hgoes with
  | accepts => exact (ZcEvent.accepted.inj (List.cons.inj hevs).1).1.symm
  | _ => cases hevs

/-- What the other threads do leaves a publication's topic alone. -/
theorem ZcTurn.quiet_of_mutex {m : Nat} {th th' : ZcThread} (log : List ZcEvent)
    (hturn : ZcTurn s evs s') (hgoes : ZcGoes s n th evs th')
    (hmutex : s.topicMutex t = some m) (hmn : m ≠ n) :
    (∀ k, s'.slotId t k = s.slotId t k) ∧
      (∀ id, acceptedNumbers t id (log ++ evs) = acceptedNumbers t id log) ∧
      publications t log ≤ publications t (log ++ evs) := by
  have hpub : publications t log ≤ publications t (log ++ evs) := by
    rw [publications, publications, List.countP_append]
    exact Nat.le_add_right _ _
  have hnumbers : (∀ e ∈ evs, ∀ id, e.acceptance t id = none) →
      ∀ id, acceptedNumbers t id (log ++ evs) = acceptedNumbers t id log := by
    intro hnone id
    cases hgoes <;> first
      | rw [List.append_nil]
      | (rw [acceptedNumbers_concat, hnone _ (List.mem_singleton_self _)]
         exact List.append_nil _)
  cases hturn with
  | same hquiet hid =>
      exact ⟨hid t, hnumbers (fun e he id => e.acceptance_of_about (hquiet e he t id).1), hpub⟩
  | publishes _ hid => exact ⟨hid t, hnumbers (by simp [ZcEvent.acceptance]), hpub⟩
  | @subscribes t₁ k₁ id _ hfree _ _ _ _ _ _ _ hothers =>
      have hne : t ≠ t₁ := by
        rintro rfl
        rw [hmutex] at hfree
        cases hfree
      exact ⟨fun k => (hothers t k (.inl hne)).1, hnumbers (by simp [ZcEvent.acceptance]), hpub⟩
  | @unsubscribes t₁ k₁ id _ hfree _ _ _ _ _ hothers =>
      have hne : t ≠ t₁ := by
        rintro rfl
        rw [hmutex] at hfree
        cases hfree
      exact ⟨fun k => (hothers t k (.inl hne)).1, hnumbers (by simp [ZcEvent.acceptance]), hpub⟩
  | @accepts n₁ k₁ id c _ _ hheld _ _ _ _ hids =>
      have hne : t ≠ c.topic := by
        rintro rfl
        rw [hmutex] at hheld
        exact hmn ((Option.some.inj hheld).trans (hgoes.acceptor rfl))
      refine ⟨hids t, hnumbers ?_, hpub⟩
      simp [ZcEvent.acceptance, Ne.symm hne]
  | pops _ _ _ _ hids => exact ⟨hids t, hnumbers (by simp [ZcEvent.acceptance]), hpub⟩

theorem ZcAhead.step {capacity : Nat} (hi : ZcInv capacity s) (h : ZcSubs s log)
    (hahead : ZcAhead s log) (hs : ZcStep s a evs s') : ZcAhead s' (log ++ evs) := by
  have hturn := hs.turn hi
  obtain ⟨n, hothers, hgoes⟩ := hs.moves
  intro m t k hm k' hle hvalid
  by_cases hmn : m = n
  · subst hmn
    generalize hth : s.thread m = th at hgoes
    generalize s'.thread m = th' at hgoes hm
    cases hgoes with
    | rests _ hp' => rw [ahead_of_publishing hp'.publishing] at hm; cases hm
    | subscribes _ hp' => rw [ahead_of_publishing hp'.publishing] at hm; cases hm
    | unsubscribes _ hp' => rw [ahead_of_publishing hp'.publishing] at hm; cases hm
    | @begins _ c t₁ _ _ htopic =>
        -- What was accepted before belongs to earlier publications.
        cases hm
        subst htopic
        intro p hp
        rw [acceptedNumbers_concat] at hp
        simp only [ZcEvent.acceptance, Option.map_none, Option.toList_none, List.append_nil] at hp
        have hbound := (h.record c.topic (s'.slotId c.topic k')).bounded p hp
        rw [publications_concat]
        have hone : publications c.topic [.publishes m c.topic] = 1 := by
          simp [publications, ZcEvent.begins]
        omega
    | continues _ _ _ hposition =>
        obtain ⟨k₀, hk₀, hle₀⟩ := hposition t k hm
        cases hturn with
        | same _ hid =>
            rw [hid] at hvalid ⊢
            rw [List.append_nil]
            exact hahead m t k₀ (hth ▸ hk₀) k' (by omega) hvalid
    | @accepts c k₀ =>
        cases hm
        -- The slots still ahead have other ids than the one that accepted.
        obtain ⟨hids, hlive⟩ : (∀ k, s'.slotId c.topic k = s.slotId c.topic k) ∧
            s.slotId c.topic k₀ ≠ invalidSubscriberId := by
          generalize hevs : [ZcEvent.accepted m c.topic (s.slotId c.topic k₀) c.index] = evs
            at hturn
          cases hturn with
          | same hquiet =>
              have := hquiet _ (hevs ▸ List.mem_singleton_self _) c.topic (s.slotId c.topic k₀)
              simp [ZcEvent.about] at this
          | accepts _ _ _ _ hvalid' _ hids =>
              obtain ⟨-, -, hid, -⟩ := ZcEvent.accepted.inj (List.cons.inj hevs).1
              exact ⟨hids c.topic, hid ▸ hvalid'⟩
          | _ => cases hevs
        rw [hids] at hvalid ⊢
        have hne : s.slotId c.topic k' ≠ s.slotId c.topic k₀ := by
          intro heq
          have := h.unique c.topic k' k₀ hvalid heq
          omega
        intro p hp
        rw [acceptedNumbers_concat, ZcEvent.acceptance, if_neg (fun hand => hne hand.2.symm)] at hp
        simp only [Option.map_none, Option.toList_none, List.append_nil] at hp
        rw [publications_append_of_quiet (by simp [ZcEvent.begins])]
        exact hahead m c.topic k₀ (by rw [hth]; rfl) k' (by omega) hvalid p hp
    | stops _ hp' => rw [ahead_of_publishing hp'.publishing] at hm; cases hm
    | enters => cases hm
    | pops => cases hm
    | givesUp => cases hm
    | leaves _ _ hnone => rw [ahead_of_publishing hnone] at hm; cases hm
    | stores hp' => rw [ahead_of_publishing hp'.publishing] at hm; cases hm
  · rw [hothers m hmn] at hm
    obtain ⟨hids, hnumbers, hpub⟩ :=
      hturn.quiet_of_mutex log hgoes (topicMutex_of_ahead hi hm) hmn
    rw [hids] at hvalid ⊢
    rw [hnumbers]
    exact fun p hp => lt_of_lt_of_le (hahead m t k hm k' hle hvalid p hp) hpub

/-! ### Runs -/

/-- Everything the record and the state know of each other. -/
structure ZcDelivery (s : ZcState) (log : List ZcEvent) : Prop where
  subs : ZcSubs s log
  calls : ZcCalls s log
  ahead : ZcAhead s log
  hands : ZcHands s log

theorem ZcDelivery.step {capacity : Nat} (hi : ZcInv capacity s) (h : ZcDelivery s log)
    (hs : ZcStep s a evs s') : ZcDelivery s' (log ++ evs) where
  subs := h.subs.step hi h.calls h.ahead hs
  calls := h.calls.step hi hs
  ahead := h.ahead.step hi h.subs hs
  hands := h.hands.step hs

theorem ZcDelivery.init (capacity : Nat) (poolValid : Bool) :
    ZcDelivery (zeroCopyMachine capacity poolValid).init [] where
  subs :=
    { issued := fun _ => rfl
      bound := fun _ => Nat.zero_le _
      live := fun _ _ h => absurd rfl h
      unique := fun _ _ _ h => absurd rfl h
      queue := fun _ _ h => absurd rfl h
      record := fun _ _ => ⟨List.prefix_refl _, fun _ => rfl, fun h => (Nat.not_lt_zero _ h).elim,
        fun h => (Nat.not_lt_zero _ h).elim, List.Pairwise.nil, nofun⟩ }
  calls := ⟨fun _ => rfl, nofun⟩
  ahead := nofun
  hands := ⟨fun _ => rfl, nofun⟩

theorem ZcDelivery.reachable {capacity : Nat} {poolValid : Bool}
    (hr : (zeroCopyLog capacity poolValid).Reachable (s, log)) :
    (zeroCopyMachine capacity poolValid).Reachable s ∧ ZcDelivery s log := by
  refine Machine.logged_invariant (ZcDelivery.init capacity poolValid) ?_ hr
  intro s a s' log hr hd hs
  exact hd.step (ZcInv.reachable hr) (.of_next hs)

/-! ### What the calls return -/

/-- A step inside `publish_zero_copy` of thread `n`: the queues stay as they are, or
one subscriber's queue accepts the index and the step shows it. -/
inductive PublishStep (s : ZcState) (n : Nat) (c : ZcPublish) (s' : ZcState) :
    List ZcEvent → Prop
  | quiet : (∀ t k, s'.slotQueue t k = s.slotQueue t k) → PublishStep s n c s' []
  | accept (k : Nat) : s'.slotQueue c.topic k = s.slotQueue c.topic k ++ [c.index] →
      (∀ t' k', t' ≠ c.topic ∨ k' ≠ k → s'.slotQueue t' k' = s.slotQueue t' k') →
      PublishStep s n c s' [.accepted n c.topic (s.slotId c.topic k) c.index]

theorem slotQueue_of_topics (htopics : s'.topics = s.topics) (t k : Nat) :
    s'.slotQueue t k = s.slotQueue t k :=
  slotQueue_congr (by rw [slotAt, htopics, slotAt])

theorem PublishStep.of_next {th : ZcThread} {c : ZcPublish} {pops : Bool}
    (hth : s.threads[n]? = some th) (hc : th.publishing = some c)
    (hs : s.next (.advance n pops) = some s') :
    PublishStep s n c s' (s.shows (.advance n pops) s') := by
  obtain ⟨th₁, hth₁, hs⟩ := Option.bind_eq_some_iff.mp hs
  obtain rfl : th = th₁ := Option.some.inj (hth.symm.trans hth₁)
  cases th with
  | publish c k =>
      cases hc
      obtain ⟨tp, htp, hs⟩ := Option.bind_eq_some_iff.mp hs
      simp only [ZcState.shows, hth]
      refine .quiet ?_
      split at hs
      case h_1 =>
        cases hs
        exact fun t k => slotQueue_congr (slotAt_topic htp rfl updateHighWater_slots t k)
      case h_2 =>
        split at hs
        case isTrue =>
          cases hs
          exact slotQueue_of_topics rfl
        case isFalse =>
          obtain ⟨pool, -, hs⟩ := Option.bind_eq_some_iff.mp hs
          cases hs
          exact slotQueue_of_topics rfl
  | send c k =>
      cases hc
      obtain ⟨tp, htp, hs⟩ := Option.bind_eq_some_iff.mp hs
      obtain ⟨sl, hsl, hs⟩ := Option.bind_eq_some_iff.mp hs
      split at hs
      case isTrue =>
        cases hs
        simp only [ZcState.shows, hth, ZcState.setThread, ZcState.setTopic,
          getElem?_set_thread hth]
        refine .accept k ?_ ?_
        · rw [slotQueue, slotAt_set_self htp hsl rfl rfl, slotQueue_eq htp hsl]
          rfl
        · intro t' k' hne
          exact slotQueue_congr (slotAt_set_ne htp rfl rfl hne)
      case isFalse =>
        cases hs
        simp only [ZcState.shows, hth, ZcState.setThread, getElem?_set_thread hth]
        exact .quiet (slotQueue_of_topics rfl)
  | reject c k =>
      cases hc
      obtain ⟨tp, htp, hs⟩ := Option.bind_eq_some_iff.mp hs
      cases hs
      simp only [ZcState.shows, hth]
      exact .quiet (fun t k => slotQueue_congr (slotAt_topic htp (by rfl) (by rfl) t k))
  | finish c =>
      cases hc
      simp only [ZcState.shows, hth]
      simp only [ZcState.advance] at hs
      split at hs
      case isTrue =>
        obtain ⟨l, -, hs⟩ := Option.bind_eq_some_iff.mp hs
        cases hs
        exact .quiet (slotQueue_of_topics rfl)
      case isFalse =>
        cases hs
        exact .quiet (slotQueue_of_topics rfl)
  | _ => cases hc

/-- The last step of `publish_zero_copy` before it unlocks and returns. -/
structure PublishEnd (s : ZcState) (n : Nat) (c : ZcPublish) (s' : ZcState) : Prop where
  returns : s'.threads[n]? = some (.unlock c.topic
    (.published ⟨c.accepted, c.dropped, publishStatus c.accepted c.dropped⟩))
  queues : ∀ t k, s'.slotQueue t k = s.slotQueue t k
  /-- Without an acceptance the caller keeps its loan, on a slot that nobody else has. -/
  kept : c.accepted = 0 → s'.loans[c.loan]? = some ⟨.producer, some c.index⟩ ∧
    s'.SoleOwner c.index
  consumed : c.accepted ≠ 0 → s'.loans[c.loan]? = some ⟨.producer, none⟩

theorem PublishEnd.of_next {capacity : Nat} {poolValid : Bool} {c : ZcPublish} {pops : Bool}
    (hr : (zeroCopyMachine capacity poolValid).Reachable s)
    (hth : s.threads[n]? = some (.finish c)) (hs : s.next (.advance n pops) = some s') :
    PublishEnd s n c s' := by
  have hr' : (zeroCopyMachine capacity poolValid).Reachable s' :=
    .step (a := .advance n pops) hr trivial hs
  have hi := ZcInv.reachable hr
  have hheld := hi.loans.held n _ c hth rfl
  obtain ⟨th₁, hth₁, hs⟩ := Option.bind_eq_some_iff.mp hs
  obtain rfl : .finish c = th₁ := Option.some.inj (hth.symm.trans hth₁)
  simp only [ZcState.advance] at hs
  split at hs
  case isTrue haccepted =>
    obtain ⟨l, hl, hs⟩ := Option.bind_eq_some_iff.mp hs
    obtain rfl : ⟨.producer, some c.index⟩ = l := Option.some.inj (hheld.symm.trans hl)
    cases hs
    refine ⟨getElem?_set_thread hth, slotQueue_of_topics rfl, fun h => absurd h haccepted, ?_⟩
    exact fun _ => List.getElem?_set_self (List.getElem?_eq_some_iff.mp hl).1
  case isFalse haccepted =>
    cases hs
    refine ⟨getElem?_set_thread hth, slotQueue_of_topics rfl, fun _ => ⟨hheld, ?_⟩,
      fun h => absurd h haccepted⟩
    refine (ZcExcl.reachable hr').soleOwner (ZcInv.reachable hr') hheld ?_
    -- No other thread was given the loan object.
    rw [Bool.eq_false_iff]
    intro hbusy
    obtain ⟨thm, hmem, hany⟩ := List.any_eq_true.mp hbusy
    obtain ⟨m, hm⟩ := List.mem_iff_getElem?.mp hmem
    obtain ⟨c', hc', hloan⟩ := (Option.any_eq_true _ _).mp hany
    rcases getElem?_set_cases hm with ⟨-, rfl⟩ | ⟨hmn, hm⟩
    · cases hc'
    · exact hmn (hi.loans.apart m n thm _ c' c hm hth hc' rfl (by simpa using hloan))

/-- The first step of `publish_zero_copy` touches neither loans nor queues. -/
theorem publishZeroCopy_keeps {h : Nat} (hs : s.next (.publishZeroCopy n t h) = some s') :
    s'.pool = s.pool ∧ s'.loans = s.loans ∧ ∀ t k, s'.slotQueue t k = s.slotQueue t k := by
  obtain ⟨-, hs⟩ := call_eq_some hs
  obtain ⟨tp, htp, hs⟩ := Option.bind_eq_some_iff.mp hs
  obtain ⟨l, -, hs⟩ := Option.bind_eq_some_iff.mp hs
  split at hs
  case isTrue => cases hs
  case isFalse =>
    split at hs
    case h_1 =>
      cases hs
      exact ⟨rfl, rfl, slotQueue_of_topics rfl⟩
    case h_2 =>
      split at hs
      case isTrue =>
        cases hs
        exact ⟨rfl, rfl, slotQueue_of_topics rfl⟩
      case isFalse =>
        split at hs
        case isTrue => cases hs
        case isFalse =>
          cases hs
          refine ⟨rfl, rfl, fun t k => slotQueue_congr ?_⟩
          exact slotAt_topic (liveTopic_eq_some htp).1 (by rfl) (by rfl) t k

/-- `unsubscribe` returns false, or takes the id out of its slot. -/
theorem unsubscribe_cases (hs : s.next (.unsubscribe n t id) = some s') :
    s'.threads[n]? = some (.idle (.bool false)) ∨
      s.shows (.unsubscribe n t id) s' = [.unsubscribed t id] := by
  obtain ⟨⟨last, hth⟩, hs⟩ := call_eq_some hs
  obtain ⟨tp, htp, hs⟩ := Option.bind_eq_some_iff.mp hs
  have hrefused : (s.setThread n (.idle (.bool false))).threads[n]? = some (.idle (.bool false)) :=
    getElem?_set_thread hth
  split at hs
  case isTrue =>
    cases hs
    exact .inl hrefused
  case isFalse =>
    split at hs
    case isTrue => cases hs
    case isFalse =>
      split at hs
      case h_1 =>
        cases hs
        exact .inl hrefused
      case h_2 =>
        split at hs
        case isTrue =>
          cases hs
          exact .inl hrefused
        case isFalse =>
          cases hs
          refine .inr ?_
          simp only [ZcState.shows, ZcState.setThread, ZcState.setTopic, getElem?_set_thread hth]

/-- The thread of an open call is receiving from the slot of its subscriber. -/
theorem ZcCalls.receiving (hc : ZcCalls s log) (hopen : openCall n log = some (t, id)) :
    ∃ k, (s.thread n).receiving = some (t, k) ∧ s.slotId t k = id ∧
      id ≠ invalidSubscriberId := by
  rw [hc.call n] at hopen
  obtain ⟨⟨t₁, k⟩, hrec, heq⟩ := Option.map_eq_some_iff.mp hopen
  obtain ⟨rfl, hid⟩ := Prod.mk.inj heq
  exact ⟨k, hrec, hid, hid ▸ hc.live n t₁ k hrec⟩

/-- `unsubscribe` fails while a `receive_loan` for the id is running. -/
theorem ZcDelivery.unsubscribe_refused {capacity m : Nat} (hi : ZcInv capacity s)
    (hd : ZcDelivery s log) (hopen : openCall m log = some (t, id))
    (hs : s.next (.unsubscribe n t id) = some s') :
    s'.threads[n]? = some (.idle (.bool false)) := by
  refine (unsubscribe_cases hs).resolve_right ?_
  intro hshow
  obtain ⟨k, hrec, hid, hvalid⟩ := hd.calls.receiving hopen
  have hturn := (ZcStep.of_next hs).turn hi
  rw [hshow] at hturn
  generalize hevs : [ZcEvent.unsubscribed t id] = evs at hturn
  cases hturn with
  | same hquiet =>
      have := (hquiet _ (hevs ▸ List.mem_singleton_self _) t id).1
      simp [ZcEvent.about] at this
  | @unsubscribes t₁ k₁ id₁ _ _ hid₁ hvalid₁ _ hnobody =>
      obtain ⟨rfl, rfl⟩ := ZcEvent.unsubscribed.inj (List.cons.inj hevs).1
      obtain rfl := hd.subs.unique t k k₁ (hid ▸ hvalid) (hid.trans hid₁.symm)
      exact hnobody m hrec
  | _ => cases hevs

theorem numbersFrom_length (t id begun : Nat) (log : List ZcEvent) :
    (numbersFrom t id begun log).length = (acceptedFor t id log).length := by
  induction log generalizing begun with
  | nil => rfl
  | cons e rest ih =>
      rw [numbersFrom, List.length_append, ih, acceptedFor, acceptedFor, List.filterMap_cons]
      cases e.acceptance t id with
      | none => exact Nat.zero_add _
      | some index => exact Nat.add_comm _ _

end Steps

/-! ### Delivery and exclusivity -/

/-- What holds of every state and the record of the run that led to it. -/
structure ZcDeliveryOk (s : ZcState) (log : List ZcEvent) : Prop where
  /-- A producer loan outside `publish_zero_copy` is the only owner of its slot. -/
  exclusive : ∀ h i, s.loans[h]? = some ⟨.producer, some i⟩ → s.busy h = false → s.SoleOwner i
  /-- `publish_zero_copy` begins without touching loans, pool or queues, -/
  publishBegins : ∀ n t h s', s.next (.publishZeroCopy n t h) = some s' →
    s'.pool = s.pool ∧ s'.loans = s.loans ∧ ∀ t k, s'.slotQueue t k = s.slotQueue t k
  /-- it changes queues by acceptances only, -/
  publishSteps : ∀ n th c pops s', s.threads[n]? = some th → th.publishing = some c →
    s.next (.advance n pops) = some s' →
    PublishStep s n c s' (s.shows (.advance n pops) s')
  /-- it counts the acceptances since it began, -/
  publishCounts : ∀ n th c, s.threads[n]? = some th → th.publishing = some c →
    c.accepted = acceptances n log
  /-- and it keeps the loan when there were none, and gives it up otherwise. -/
  publishEnds : ∀ n c pops s', s.threads[n]? = some (.finish c) →
    s.next (.advance n pops) = some s' → PublishEnd s n c s'
  /-- What is accepted for a subscriber, and what is received, belongs to its own
  subscription, in the order of the publications. -/
  subscription : ∀ t id, SubRecord t id (s.topicNext t) log
  numbered : ∀ t id, (acceptedNumbers t id log).length = (acceptedFor t id log).length
  /-- What was accepted and not received is in the subscriber's queue. -/
  queued : ∀ t k, s.slotId t k ≠ invalidSubscriberId → s.topicAlive t = true →
    acceptedFor t (s.slotId t k) log = receivedFor t (s.slotId t k) log ++ s.slotQueue t k
  /-- Each index received becomes one read loan. -/
  loaned : ∀ n, receivedBy n log = loanedBy n log ++ (s.thread n).taken.toList
  stored : ∀ n t out index pops s', s.threads[n]? = some (.build t out index) →
    s.next (.advance n pops) = some s' → s'.loans[out]? = some ⟨.read, some index⟩ ∧
      s.shows (.advance n pops) s' = [.loaned n index]
  /-- The id of a `receive_loan` between its two locked regions is subscribed, -/
  subscribed : ∀ n t id, openCall n log = some (t, id) → .unsubscribed t id ∉ log ∧
    ∃ k, (s.thread n).receiving = some (t, k) ∧ s.slotId t k = id
  /-- and `unsubscribe` of that id fails. -/
  refused : ∀ n t id, openCall n log = some (t, id) → ∀ m s',
    s.next (.unsubscribe m t id) = some s' → s'.threads[m]? = some (.idle (.bool false))
  /-- An id is given out once. -/
  issued : ∀ t, (issuedIds t log).Nodup ∧ ∀ id ∈ issuedIds t log, id < invalidSubscriberId

/-- Delivery and exclusivity of the zero-copy transport, for every interleaving. -/
theorem zeroCopy_delivery {capacity : Nat} {poolValid : Bool} {s : ZcState} {log : List ZcEvent}
    (hr : (zeroCopyLog capacity poolValid).Reachable (s, log)) : ZcDeliveryOk s log := by
  obtain ⟨hr, hd⟩ := ZcDelivery.reachable hr
  have hi := ZcInv.reachable hr
  have hx := ZcExcl.reachable hr
  constructor
  · intro h i hl hbusy
    exact hx.soleOwner hi hl hbusy
  · intro n t h s' hs
    exact publishZeroCopy_keeps hs
  · intro n th c pops s' hth hc hs
    exact .of_next hth hc hs
  · intro n th c hth hc
    exact hd.hands.counted n c (thread_eq hth ▸ hc)
  · intro n c pops s' hth hs
    exact .of_next hr hth hs
  · exact hd.subs.record
  · exact fun t id => numbersFrom_length t id 0 log
  · exact hd.subs.queue
  · exact hd.hands.hands
  · intro n t out index pops s' hth hs
    obtain ⟨th₁, hth₁, hs⟩ := Option.bind_eq_some_iff.mp hs
    obtain rfl : .build t out index = th₁ := Option.some.inj (hth.symm.trans hth₁)
    obtain ⟨s₁, hs₁, hs⟩ := Option.bind_eq_some_iff.mp hs
    obtain ⟨old, hold, hkind, rfl⟩ := assignTemporary_eq_some hs₁
    cases hs
    refine ⟨?_, by simp only [ZcState.shows, hth]⟩
    rw [← hkind]
    exact List.getElem?_set_self (List.getElem?_eq_some_iff.mp hold).1
  · intro n t id hopen
    obtain ⟨k, hrec, hid, hvalid⟩ := hd.calls.receiving hopen
    refine ⟨?_, k, hrec, hid⟩
    rw [← hid] at hvalid ⊢
    exact (hd.subs.live t k hvalid).2
  · intro n t id hopen m s' hs
    exact hd.unsubscribe_refused hi hopen hs
  · intro t
    rw [hd.subs.issued]
    refine ⟨List.nodup_range, fun id hid => ?_⟩
    exact lt_of_lt_of_le (List.mem_range.mp hid) (hd.subs.bound t)

/-- Two payloads for two subscribers with queues of one index: the second publication
finds one queue full and is accepted by the other, whose subscriber has taken the
first payload and is still in `receive_loan`. -/
theorem zeroCopy_delivery_partial :
    ∃ s log, (zeroCopyLog 2 true).Reachable (s, log) ∧ ZcDeliveryOk s log ∧
      receivedFor 0 0 log = [0] ∧ acceptedFor 0 0 log = [0, 1] ∧
      acceptedNumbers 0 0 log = [1, 2] ∧ acceptedFor 0 1 log = [0] ∧
      openCall 1 log = some (0, 0) := by
  let schedule : List ZcAction :=
    ([.spawn, .spawn, .topic 1 true [true, true], .subscribe 0 0, .subscribe 0 0, .tryLoan,
      .newLoan .read, .publishZeroCopy 0 0 0] : List ZcAction) ++
      List.replicate 7 (ZcAction.advance 0 true) ++
      ([.receiveLoan 1 0 0 1, .advance 1 true, .tryLoan, .publishZeroCopy 0 0 2] :
        List ZcAction) ++
      List.replicate 8 (ZcAction.advance 0 true)
  have hview : ((zeroCopyLog 2 true).run (zeroCopyLog 2 true).init schedule).map
      (fun p => decide (receivedFor 0 0 p.2 = [0] ∧ acceptedFor 0 0 p.2 = [0, 1] ∧
        acceptedNumbers 0 0 p.2 = [1, 2] ∧ acceptedFor 0 1 p.2 = [0] ∧
        openCall 1 p.2 = some (0, 0))) = some true := by
    decide +kernel
  obtain ⟨⟨s, log⟩, hrun, hlog⟩ := Option.map_eq_some_iff.mp hview
  have hr := Machine.Reachable.of_run hrun
  exact ⟨s, log, hr, zeroCopy_delivery hr, of_decide_eq_true hlog⟩

end MicrOsal
