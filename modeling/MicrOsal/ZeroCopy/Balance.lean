import MicrOsal.ZeroCopy.Topics

/-!
# MicrOsal.ZeroCopy.Balance

The reference counts of a `message_pool` over whole runs: every reachable state
of the transport keeps `ZcInv`, so a slot is referenced exactly as often as it
is owned, and a slot whose owners are gone is free.
-/

namespace MicrOsal

open MessagePool (owns)

/-! ### Threads and topics that come into being -/

section Birth

variable {capacity t k : Nat} {s s' : ZcState}

/-- A thread has to do with the topic it is in only. -/
theorem ZcThread.load_eq_zero {th : ZcThread} (h : th.topic ≠ some t) (w : ZcWork) :
    th.load t k w = 0 := by
  rw [ZcThread.load, if_neg]
  intro hdoes
  refine h ?_
  cases th with
  | drain t' k' caller => cases w <;> cases caller <;> simp_all [ZcThread.does, ZcThread.topic]
  | drained t' k' caller index =>
      cases w <;> cases caller <;> simp_all [ZcThread.does, ZcThread.topic]
  | settle t' k' out got => cases w <;> cases got <;> simp_all [ZcThread.does, ZcThread.topic]
  | _ => cases w <;> simp_all [ZcThread.does, ZcThread.topic]

theorem ZcInv.spawn (hi : ZcInv capacity s) :
    ZcInv capacity { s with threads := s.threads ++ [.idle .void] } where
  pool := hi.pool.congr (fun i => by simp [ZcState.owed])
  topics := by
    intro t tp htp
    refine ⟨(hi.topics t tp htp).underflow, ?_⟩
    intro k sl hsl
    rw [loads_append_idle]
    exact (hi.topics t tp htp).slot k sl hsl
  threads := by
    intro n th t hn ht
    rcases getElem?_concat_cases hn with hn | ⟨-, rfl⟩
    · exact hi.threads n th t hn ht
    · cases ht
  loans := by
    constructor
    · intro n th c hn hc
      rcases getElem?_concat_cases hn with hn | ⟨-, rfl⟩
      · exact hi.loans.held n th c hn hc
      · cases hc
    · intro n m th th' c c' hn hm hc hc' heq
      rcases getElem?_concat_cases hn with hn | ⟨-, rfl⟩
      · rcases getElem?_concat_cases hm with hm | ⟨-, rfl⟩
        · exact hi.loans.apart n m th th' c c' hn hm hc hc' heq
        · cases hc'
      · cases hc

theorem ZcInv.new_topic (hi : ZcInv capacity s) (perSubCapacity : Nat) (mutexValid : Bool)
    (queues : List Bool) :
    ZcInv capacity
      { s with topics := s.topics ++ [.create perSubCapacity mutexValid queues] } where
  pool := hi.pool.congr <| by
    intro i
    have hempty : (ZeroCopySignal.create perSubCapacity mutexValid queues).queued i = 0 := by
      refine tally_eq_zero ?_
      intro k sl hsl
      simp only [ZeroCopySignal.create, List.getElem?_map, Option.map_eq_some_iff] at hsl
      obtain ⟨valid, -, rfl⟩ := hsl
      rfl
    simp [ZcState.owed, hempty]
  topics := by
    intro t tp htp
    rcases getElem?_concat_cases htp with htp | ⟨rfl, rfl⟩
    · exact hi.topics t tp htp
    · refine ⟨rfl, ?_⟩
      intro k sl hsl
      -- No thread is in a topic that did not exist.
      have hnone : ∀ w, loads s.threads s.topics.length k w = 0 := by
        intro w
        refine tally_eq_zero ?_
        intro n th hn
        refine ZcThread.load_eq_zero ?_ w
        intro ht
        obtain ⟨tp, htp, -⟩ := hi.threads n th _ hn ht
        obtain ⟨hlt, -⟩ := List.getElem?_eq_some_iff.mp htp
        omega
      simp only [ZeroCopySignal.create, List.getElem?_map, Option.map_eq_some_iff] at hsl
      obtain ⟨valid, -, rfl⟩ := hsl
      exact ⟨(hnone _).symm, .inl (by simp [hnone]), fun _ => .inl rfl,
        fun _ => ⟨rfl, rfl, rfl, hnone _⟩⟩
  threads := by
    intro n th t hn ht
    obtain ⟨tp, htp, hok⟩ := hi.threads n th t hn ht
    obtain ⟨hlt, -⟩ := List.getElem?_eq_some_iff.mp htp
    exact ⟨tp, (List.getElem?_append_left hlt).trans htp, hok⟩
  loans := hi.loans

end Birth

/-! ### Runs -/

section Runs

variable {capacity : Nat} {poolValid : Bool} {s s' : ZcState} {a : ZcAction}

theorem call_eq_some {n : Nat} {f : Option ZcState} (hs : s.call n f = some s') :
    (∃ ret, s.threads[n]? = some (.idle ret)) ∧ f = some s' := by
  rw [ZcState.call] at hs
  split at hs
  · next hidle =>
    refine ⟨?_, hs⟩
    rw [ZcState.isIdle] at hidle
    split at hidle
    · next ret hth => exact ⟨ret, hth⟩
    · cases hidle
  · cases hs

/-- One step keeps the accounts. -/
theorem ZcInv.next (hi : ZcInv capacity s) (hs : s.next a = some s') : ZcInv capacity s' := by
  cases a with
  | spawn =>
      cases hs
      exact hi.spawn
  | topic perSubCapacity mutexValid queues =>
      cases hs
      exact hi.new_topic perSubCapacity mutexValid queues
  | newLoan kind =>
      cases hs
      exact hi.new_loan kind
  | tryLoan =>
      cases hs
      exact hi.tryLoan
  | topicTryLoan t => exact hi.topicTryLoan hs
  | releaseLoan h => exact hi.releaseLoan hs
  | moveLoan src => exact hi.moveLoan hs
  | moveAssign dst src => exact hi.moveAssign hs
  | copyLoan src => exact hi.copyLoan hs
  | copyAssign n dst src =>
      obtain ⟨⟨ret, hth⟩, hs⟩ := call_eq_some hs
      exact hi.copyAssign hth hs
  | subscribe n t =>
      obtain ⟨⟨ret, hth⟩, hs⟩ := call_eq_some hs
      exact hi.subscribe hth hs
  | unsubscribe n t id =>
      obtain ⟨⟨ret, hth⟩, hs⟩ := call_eq_some hs
      exact hi.unsubscribe hth hs
  | publishZeroCopy n t h =>
      obtain ⟨⟨ret, hth⟩, hs⟩ := call_eq_some hs
      exact hi.publishZeroCopy hth hs
  | receiveLoan n t id out =>
      obtain ⟨⟨ret, hth⟩, hs⟩ := call_eq_some hs
      exact hi.receiveLoan hth hs
  | destroy n t =>
      obtain ⟨⟨ret, hth⟩, hs⟩ := call_eq_some hs
      exact hi.destroy hth hs
  | advance n pops =>
      obtain ⟨th, hth, hs⟩ := Option.bind_eq_some_iff.mp hs
      exact hi.advance hth hs

theorem ZcInv.init (capacity : Nat) (poolValid : Bool) :
    ZcInv capacity (zeroCopyMachine capacity poolValid).init where
  pool := MessagePool.backs_create capacity poolValid
  topics := fun _ _ h => by cases h
  threads := fun _ _ _ h => by cases h
  loans := ⟨fun _ _ _ h => (by cases h), fun _ _ _ _ _ _ h => (by cases h)⟩

/-- The accounts balance in every reachable state. -/
theorem ZcInv.reachable (hr : (zeroCopyMachine capacity poolValid).Reachable s) :
    ZcInv capacity s :=
  Machine.Reachable.invariant (ZcInv.init capacity poolValid)
    (fun _ _ _ _ hi hs => ZcInv.next hi hs) hr

end Runs

/-! ### Ownership accounting -/

namespace ZcState

/-- Live producer loans on slot `i`. -/
def liveProducerLoans (s : ZcState) (i : Nat) : Nat := s.loans.countP (Loan.holds .producer i)

/-- Live read loans on slot `i`, with the temporaries of copy assignments. -/
def liveReadLoans (s : ZcState) (i : Nat) : Nat :=
  s.loans.countP (Loan.holds .read i) + s.threads.countP (fun th => th.temporary = some i)

/-- Occurrences of `i` in subscriber queues. -/
def queued (s : ZcState) (i : Nat) : Nat := tally (ZeroCopySignal.queued i) s.topics

/-- Receives that have taken `i` out of a queue and not yet built a loan (or, in
`drain_`, released it). -/
def popped (s : ZcState) (i : Nat) : Nat := s.threads.countP (fun th => th.popped = some i)

/-- Publishes that have retained `i` for a queue and neither sent nor released
it. -/
def retained (s : ZcState) (i : Nat) : Nat := s.threads.countP (fun th => th.retained = some i)

/-- No counter was ever decremented at zero. -/
def NoUnderflow (s : ZcState) : Prop :=
  s.pool.underflow = false ∧ ∀ tp ∈ s.topics, tp.underflow = false

/-- Every loan is released, every topic destroyed or without subscribers, and no
call is left that still has to pass on or to drain an index. -/
structure Released (s : ZcState) : Prop where
  loans : ∀ l ∈ s.loans, l.index = none
  topics : ∀ tp ∈ s.topics, tp.alive = false ∨ ∀ sl ∈ tp.slots, sl.id = invalidSubscriberId
  calls : ∀ th ∈ s.threads, th.temporary = none ∧ th.popped = none ∧
    ∀ t k, th.does t k .draining = false

/-- The owners of a slot, by kind. -/
theorem owed_eq (s : ZcState) (i : Nat) :
    s.owed i = s.liveProducerLoans i + s.liveReadLoans i + s.queued i + s.popped i +
      s.retained i := by
  have hkinds : tally (fun l => owns l.index i) s.loans =
      s.loans.countP (Loan.holds .producer i) + s.loans.countP (Loan.holds .read i) := by
    rw [countP_eq_tally, countP_eq_tally, ← tally_add]
    refine congrArg (tally · s.loans) (funext ?_)
    rintro ⟨kind, index⟩
    cases kind <;> simp [owns, Loan.holds]
  have hhand : tally (ZcThread.inHand i) s.threads =
      s.threads.countP (fun th => th.temporary = some i) +
        s.threads.countP (fun th => th.popped = some i) +
        s.threads.countP (fun th => th.retained = some i) := by
    rw [countP_eq_tally, countP_eq_tally, countP_eq_tally, ← tally_add, ← tally_add]
    refine congrArg (tally · s.threads) (funext ?_)
    intro th
    simp [ZcThread.inHand, owns]
  simp only [owed, liveProducerLoans, liveReadLoans, queued, popped, retained, hkinds, hhand]
  omega

/-- Nobody owns a slot once everything is released. -/
theorem Released.owed_eq_zero {capacity : Nat} {s : ZcState} (hi : ZcInv capacity s)
    (h : s.Released) (i : Nat) : s.owed i = 0 := by
  have hloans : tally (fun l => owns l.index i) s.loans = 0 := by
    refine tally_eq_zero ?_
    intro n l hl
    rw [h.loans l (List.mem_of_getElem? hl), MessagePool.owns_none]
  have hthreads : tally (ZcThread.inHand i) s.threads = 0 := by
    refine tally_eq_zero ?_
    intro n th hn
    obtain ⟨htemp, hpop, -⟩ := h.calls th (List.mem_of_getElem? hn)
    have hret : th.retained = none := by
      -- A retained index comes from the producer loan being published.
      have hpub : ∀ c, th.publishing ≠ some c := by
        intro c hc
        have hheld := hi.loans.held n th c hn hc
        cases h.loans _ (List.mem_of_getElem? hheld)
      cases th with
      | send c k => exact absurd rfl (hpub c)
      | reject c k => exact absurd rfl (hpub c)
      | _ => rfl
    simp [ZcThread.inHand, htemp, hpop, hret]
  have htopics : tally (ZeroCopySignal.queued i) s.topics = 0 := by
    refine tally_eq_zero ?_
    intro t tp htp
    refine tally_eq_zero ?_
    intro k sl hsl
    have hslot := (hi.topics t tp htp).slot k sl hsl
    have hdrain : loads s.threads t k .draining = 0 := by
      refine tally_eq_zero ?_
      intro n th hn
      have := (h.calls th (List.mem_of_getElem? hn)).2.2 t k
      rw [ZcThread.load, this]
      rfl
    have hfree : sl.id = invalidSubscriberId ∨ tp.alive = false :=
      (h.topics tp (List.mem_of_getElem? htp)).elim .inr
        (fun hid => .inl (hid sl (List.mem_of_getElem? hsl)))
    rcases hslot.drained hfree with hnil | hpos
    · rw [hnil, List.count_nil]
    · omega
  rw [owed, hloans, hthreads, htopics]

end ZcState

/-- Ownership accounting of the zero-copy transport, in every reachable state:
a slot's reference count is the number of its owners, `current` counts the slots
in use, no counter underflows, and what everybody has released is free. -/
theorem zeroCopy_accounting {capacity : Nat} {poolValid : Bool} {s : ZcState}
    (hr : (zeroCopyMachine capacity poolValid).Reachable s) :
    (∀ i, s.pool.refs i = s.liveProducerLoans i + s.liveReadLoans i + s.queued i + s.popped i +
      s.retained i) ∧
    (s.pool.references.length = capacity ∧
      s.pool.current = s.pool.references.countP (0 < ·)) ∧
    s.NoUnderflow ∧
    (s.Released → ∀ i, s.pool.refs i = 0) := by
  have hi := ZcInv.reachable hr
  refine ⟨?_, ⟨hi.pool.size, hi.pool.current⟩, ⟨hi.pool.underflow, ?_⟩, ?_⟩
  · intro i
    exact (hi.pool.refs i).trans (s.owed_eq i)
  · intro tp htp
    obtain ⟨t, ht⟩ := List.mem_iff_getElem?.mp htp
    exact (hi.topics t tp ht).underflow
  · intro hrel i
    exact (hi.pool.refs i).trans (hrel.owed_eq_zero hi i)

/-- One payload published to two subscribers of which one has received it: the
producer's reference is gone, the queue and the read loan have one each. -/
theorem zeroCopy_accounting_published :
    ∃ s, (zeroCopyMachine 2 true).Reachable s ∧ s.pool.refs 0 = 2 ∧
      s.liveProducerLoans 0 + s.liveReadLoans 0 + s.queued 0 + s.popped 0 + s.retained 0 = 2 := by
  let schedule : List ZcAction :=
    ([.spawn, .spawn, .topic 1 true [true, true], .subscribe 0 0, .subscribe 0 0, .tryLoan,
      .newLoan .read, .publishZeroCopy 0 0 0] : List ZcAction) ++
      List.replicate 7 (ZcAction.advance 0 true) ++
      ZcAction.receiveLoan 1 0 0 1 :: List.replicate 3 (ZcAction.advance 1 true)
  have hview : ((zeroCopyMachine 2 true).run (zeroCopyMachine 2 true).init schedule).map
      (fun s => s.pool.refs 0) = some 2 := by
    decide +kernel
  obtain ⟨s, hrun, hrefs⟩ := Option.map_eq_some_iff.mp hview
  have hr := Machine.Reachable.of_run hrun
  exact ⟨s, hr, hrefs, ((zeroCopy_accounting hr).1 0).symm.trans hrefs⟩

end MicrOsal
