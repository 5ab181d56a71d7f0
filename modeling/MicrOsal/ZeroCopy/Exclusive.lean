import MicrOsal.ZeroCopy.Steps

/-!
# MicrOsal.ZeroCopy.Exclusive

A payload that its producer can still write is seen by nobody else.

A slot has at most one producer loan, and while it has one, no read loan, queue or
receiver has the slot (`Unseen`), or `publish_zero_copy` is working on the loan and
some queue has already accepted it (`Accepting`). The first acceptance takes the
slot from `Unseen` to `Accepting`, and the call that made it does not return before
it has given the loan up.
-/

namespace MicrOsal

open MessagePool (owns)

namespace ZcState

/-- Nobody but a producer loan, or the publication of one, has slot `i`. -/
structure Unseen (s : ZcState) (i : Nat) : Prop where
  loans : ∀ h : Nat, s.loans[h]? ≠ some ⟨.read, some i⟩
  threads : ∀ (n : Nat) (th : ZcThread), s.threads[n]? = some th →
    th.temporary ≠ some i ∧ th.popped ≠ some i
  queues : ∀ (t k : Nat) tp sl, s.topics[t]? = some tp → tp.slots[k]? = some sl → i ∉ sl.queue

/-- A publication of slot `i` is running that some queue has accepted. -/
def Accepting (s : ZcState) (i : Nat) : Prop :=
  ∃ (n : Nat) (th : ZcThread) (c : ZcPublish), s.threads[n]? = some th ∧ th.publishing = some c ∧
    c.index = i ∧ c.accepted ≠ 0

end ZcState

/-- Producer loans are exclusive. -/
structure ZcExcl (s : ZcState) : Prop where
  single : ∀ i, s.liveProducerLoans i ≤ 1
  unseen : ∀ i, 0 < s.liveProducerLoans i → s.Unseen i ∨ s.Accepting i

section Steps

variable {s s' : ZcState} {a : ZcAction} {evs : List ZcEvent} {n t k h i : Nat}
variable {th th' : ZcThread} {l l' : Loan} {tp tp' : ZeroCopySignal} {sl sl' : SubscriberSlot}

open ZcState

/-! ### Who sees a slot -/

namespace ZcState.Unseen

/-- A thread goes on without taking the slot. -/
theorem thread (hu : s.Unseen i) (htemp : th.temporary ≠ some i) (hpop : th.popped ≠ some i) :
    (s.setThread n th).Unseen i where
  loans := hu.loans
  threads := by
    intro m thm hm
    rcases getElem?_set_cases hm with ⟨-, rfl⟩ | ⟨-, hm⟩
    · exact ⟨htemp, hpop⟩
    · exact hu.threads m thm hm
  queues := hu.queues

/-- A topic changes, but its queues get nothing. -/
theorem topic (hu : s.Unseen i) (htp : s.topics[t]? = some tp)
    (hslots : ∀ (k : Nat) sl', tp'.slots[k]? = some sl' →
      ∃ sl, tp.slots[k]? = some sl ∧ sl'.queue ⊆ sl.queue) :
    (s.setTopic t tp').Unseen i where
  loans := hu.loans
  threads := hu.threads
  queues := by
    intro t' k q sl' hq hsl'
    rcases getElem?_set_cases hq with ⟨-, rfl⟩ | ⟨-, hq⟩
    · obtain ⟨sl, hsl, hsub⟩ := hslots k sl' hsl'
      exact fun hmem => hu.queues t k tp sl htp hsl (hsub hmem)
    · exact hu.queues t' k q sl' hq hsl'

/-- A slot changes, but its queue gets nothing. -/
theorem slot (hu : s.Unseen i) (htp : s.topics[t]? = some tp) (hsl : tp.slots[k]? = some sl)
    (hslots : tp'.slots = tp.slots.set k sl') (hsub : sl'.queue ⊆ sl.queue) :
    (s.setTopic t tp').Unseen i := by
  refine hu.topic htp ?_
  intro k' q hq
  rw [hslots] at hq
  rcases getElem?_set_cases hq with ⟨rfl, rfl⟩ | ⟨-, hq⟩
  · exact ⟨sl, hsl, hsub⟩
  · exact ⟨q, hq, List.Subset.refl _⟩

/-- Nothing but the pool changes. -/
theorem pool (hu : s.Unseen i) (p : MessagePool) : ({ s with pool := p } : ZcState).Unseen i where
  loans := hu.loans
  threads := hu.threads
  queues := hu.queues

/-- Loan objects change, but no read loan gets the slot. -/
theorem objects {loans' : List Loan} (hu : s.Unseen i)
    (hloans : ∀ h : Nat, loans'[h]? = some ⟨.read, some i⟩ →
      ∃ h' : Nat, s.loans[h']? = some ⟨.read, some i⟩) :
    ({ s with loans := loans' } : ZcState).Unseen i where
  loans := by
    intro h hh
    obtain ⟨h', hh'⟩ := hloans h hh
    exact hu.loans h' hh'
  threads := hu.threads
  queues := hu.queues

theorem set_loan (hu : s.Unseen i) (hl' : l' ≠ ⟨.read, some i⟩) :
    ({ s with loans := s.loans.set h l' } : ZcState).Unseen i := by
  refine hu.objects ?_
  intro j hj
  rcases getElem?_set_cases hj with ⟨-, heq⟩ | ⟨-, hj⟩
  · exact absurd heq.symm hl'
  · exact ⟨j, hj⟩

theorem concat_loan (hu : s.Unseen i) (hl' : l' ≠ ⟨.read, some i⟩) :
    ({ s with loans := s.loans ++ [l'] } : ZcState).Unseen i := by
  refine hu.objects ?_
  intro j hj
  rcases getElem?_concat_cases hj with hj | ⟨-, heq⟩
  · exact ⟨j, hj⟩
  · exact absurd heq.symm hl'

/-- No loan object is a read loan on the slot. -/
theorem loan_ne (hu : s.Unseen i) (hl : s.loans[h]? = some l) : l ≠ ⟨.read, some i⟩ := by
  rintro rfl
  exact hu.loans h hl

theorem read_ne (hu : s.Unseen i) (hl : s.loans[h]? = some l) (hkind : l.kind = .read) :
    l.index ≠ some i := by
  intro hindex
  exact hu.loan_ne hl (by rw [← hkind, ← hindex])

end ZcState.Unseen

/-- A topic keeps its slots. -/
theorem slots_refl (hslots : tp'.slots = tp.slots) (k : Nat) (sl' : SubscriberSlot)
    (hsl' : tp'.slots[k]? = some sl') :
    ∃ sl, tp.slots[k]? = some sl ∧ sl'.queue ⊆ sl.queue :=
  ⟨sl', hslots ▸ hsl', List.Subset.refl _⟩

theorem updateHighWater_slots : tp.updateHighWater.slots = tp.slots := by
  rw [ZeroCopySignal.updateHighWater]
  split <;> rfl

theorem drainReturn_temporary (caller : ZcDrain) :
    (ZcState.drainReturn t k caller).temporary = none := by
  cases caller <;> rfl

theorem drainReturn_popped (caller : ZcDrain) :
    (ZcState.drainReturn t k caller).popped = none := by
  cases caller <;> rfl

theorem emptied_ne : l.emptied ≠ ⟨.read, some i⟩ := by
  simp [Loan.emptied]

/-- A slot comes to be seen by the acceptance of a publication only. -/
theorem ZcState.Unseen.step (hu : s.Unseen i) (hs : ZcStep s a evs s') :
    s'.Unseen i ∨ s'.Accepting i := by
  cases hs with
  | spawn =>
      refine .inl ⟨hu.loans, ?_, hu.queues⟩
      intro m thm hm
      rcases getElem?_concat_cases hm with hm | ⟨-, rfl⟩
      · exact hu.threads m thm hm
      · exact ⟨nofun, nofun⟩
  | topic perSubCapacity mutexValid queues =>
      refine .inl ⟨hu.loans, hu.threads, ?_⟩
      intro t k tp sl htp hsl
      rcases getElem?_concat_cases htp with htp | ⟨-, rfl⟩
      · exact hu.queues t k tp sl htp hsl
      · rw [(ZeroCopySignal.create_slot hsl).1]
        exact List.not_mem_nil
  | newLoan kind => exact .inl (hu.concat_loan (by simp))
  | lend => exact .inl ((hu.pool _).concat_loan (by simp))
  | stay => exact .inl hu
  | release => exact .inl ((hu.pool _).set_loan emptied_ne)
  | move hl =>
      exact .inl ((hu.set_loan emptied_ne).concat_loan (hu.loan_ne (freeLoan_eq_some hl).1))
  | moveAssign _ hl =>
      exact .inl (((hu.pool _).set_loan emptied_ne).set_loan (hu.loan_ne (freeLoan_eq_some hl).1))
  | copy hl => exact .inl ((hu.pool _).concat_loan (hu.loan_ne hl))
  | returns => exact .inl (hu.thread nofun nofun)
  | assignEmpty =>
      have hnone : ZcThread.temporary (.idle .void) ≠ some i := nofun
      exact .inl (((hu.pool _).set_loan emptied_ne).thread hnone nofun)
  | assignCopy hth hl hkind hindex =>
      -- The copy is of a read loan, which is not on the slot.
      refine .inl ((hu.pool _).thread ?_ nofun)
      exact fun heq => hu.read_ne hl hkind (hindex.trans heq)
  | assigned hth _ hkind =>
      refine .inl (((hu.pool _).set_loan ?_).thread nofun nofun)
      intro heq
      exact (hu.threads _ _ hth).1 (congrArg Loan.index heq)
  | built hth _ hkind =>
      refine .inl (((hu.pool _).set_loan ?_).thread nofun nofun)
      intro heq
      exact (hu.threads _ _ hth).2 (congrArg Loan.index heq)
  | subscribe _ htp _ _ hsl =>
      exact .inl (.thread (.slot hu htp hsl rfl (List.Subset.refl _)) nofun nofun)
  | unsubscribe _ htp _ _ hsl =>
      exact .inl (.thread (.slot hu htp hsl rfl (List.Subset.refl _)) nofun nofun)
  | publish _ htp => exact .inl (.thread (.topic hu htp (slots_refl rfl)) nofun nofun)
  | enter _ htp _ _ hsl =>
      exact .inl (.thread (.slot hu htp hsl rfl (List.Subset.refl _)) nofun nofun)
  | destroy _ htp => exact .inl (.thread (.topic hu htp (slots_refl rfl)) nofun nofun)
  | destroyed => exact .inl (hu.thread nofun nofun)
  | destroySlot => exact .inl (hu.thread nofun nofun)
  | drainSkip =>
      exact .inl (hu.thread (by rw [drainReturn_temporary]; nofun)
        (by rw [drainReturn_popped]; nofun))
  | drainPop _ htp hsl hq =>
      refine .inl (.thread (.slot hu htp hsl rfl ?_) nofun ?_)
      · rw [hq]
        exact List.subset_cons_self _ _
      · intro heq
        have hnot := hu.queues _ _ _ _ htp hsl
        rw [hq, ← Option.some.inj heq] at hnot
        exact hnot (List.mem_cons_self ..)
  | drainEnd _ htp hsl =>
      exact .inl (.thread (.slot hu htp hsl rfl (List.Subset.refl _))
        (by rw [drainReturn_temporary]; nofun) (by rw [drainReturn_popped]; nofun))
  | drained => exact .inl (.thread (hu.pool _) nofun nofun)
  | skip => exact .inl (hu.thread nofun nofun)
  | looked _ htp =>
      exact .inl (.thread (.topic hu htp (slots_refl updateHighWater_slots)) nofun nofun)
  | retain => exact .inl (.thread (hu.pool _) nofun nofun)
  | @accept n k pops c tp sl _ hth htp hsl =>
      by_cases hi : c.index = i
      · exact .inr ⟨n, _, _, getElem?_set_thread hth, rfl, hi, Nat.succ_ne_zero _⟩
      · refine .inl (ZcState.Unseen.thread ⟨hu.loans, hu.threads, ?_⟩ nofun nofun)
        intro t' k' q sl' hq hsl'
        rcases getElem?_set_cases hq with ⟨-, rfl⟩ | ⟨-, hq⟩
        · rcases getElem?_set_cases hsl' with ⟨-, rfl⟩ | ⟨-, hsl'⟩
          · intro hmem
            rcases List.mem_append.mp hmem with hmem | hmem
            · exact hu.queues _ _ _ _ htp hsl hmem
            · exact hi (List.mem_singleton.mp hmem).symm
          · exact hu.queues _ _ _ _ htp hsl'
        · exact hu.queues _ _ _ _ hq hsl'
  | full => exact .inl (hu.thread nofun nofun)
  | reject _ htp => exact .inl (.thread (.topic (hu.pool _) htp (slots_refl rfl)) nofun nofun)
  | consumed =>
      refine .inl (((hu.pool _).set_loan emptied_ne).thread ?_ ?_)
      · nofun
      · nofun
  | kept => exact .inl (hu.thread nofun nofun)
  | unlock _ htp => exact .inl (.thread (.topic hu htp (slots_refl rfl)) nofun nofun)
  | pop _ htp hsl hq =>
      refine .inl (.thread (.slot hu htp hsl rfl ?_) nofun ?_)
      · rw [hq]
        exact List.subset_cons_self _ _
      · intro heq
        have hnot := hu.queues _ _ _ _ htp hsl
        rw [hq, ← Option.some.inj heq] at hnot
        exact hnot (List.mem_cons_self ..)
  | giveUp => exact .inl (hu.thread nofun nofun)
  | settleNone _ htp hsl =>
      exact .inl (.thread (.slot hu htp hsl rfl (List.Subset.refl _)) nofun nofun)
  | settleSome hth htp hsl =>
      exact .inl (.thread (.slot hu htp hsl rfl (List.Subset.refl _)) nofun
        (hu.threads _ _ hth).2)

/-! ### Producer loans -/

theorem holds_emptied {kind : LoanKind} : l.emptied.holds kind i = false := by
  simp [Loan.holds, Loan.emptied]

theorem holds_read (hkind : l.kind = .read) : l.holds .producer i = false := by
  simp [Loan.holds, hkind]

/-- A producer loan is passed on, given up, or lent on a slot that nobody has. -/
theorem ZcStep.producers {capacity : Nat} (hi : ZcInv capacity s) (hs : ZcStep s a evs s')
    (i : Nat) : s'.liveProducerLoans i ≤ s.liveProducerLoans i ∨
      (s.owed i = 0 ∧ s'.liveProducerLoans i ≤ 1 ∧ s'.threads = s.threads ∧
        s'.topics = s.topics ∧ ∃ l, s'.loans = s.loans ++ [l] ∧ l.kind = .producer) := by
  cases hs with
  | newLoan kind =>
      refine .inl (le_of_eq ?_)
      simp [liveProducerLoans, Loan.holds]
  | lend =>
      cases hlent : s.pool.tryLoan.2 with
      | none =>
          refine .inl (le_of_eq ?_)
          simp [liveProducerLoans, Loan.holds]
      | some j =>
          by_cases hji : j = i
          · subst hji
            have hzero : s.owed j = 0 := by
              rw [← hi.pool.refs]
              exact MessagePool.refs_of_tryLoan hlent
            have hnone : s.liveProducerLoans j = 0 := by
              have := s.owed_eq j
              omega
            refine .inr ⟨hzero, ?_, rfl, rfl, _, rfl, rfl⟩
            simp only [liveProducerLoans, List.countP_append] at hnone ⊢
            rw [hnone, Nat.zero_add]
            exact List.countP_le_length
          · refine .inl (le_of_eq ?_)
            simp [liveProducerLoans, Loan.holds, hji]
  | release hl =>
      refine .inl (countP_set_le (freeLoan_eq_some hl).1 ?_)
      rw [holds_emptied]
      exact fun h => by cases h
  | @move src l hl =>
      have hset := countP_set (b := l.emptied) (Loan.holds .producer i) (freeLoan_eq_some hl).1
      rw [holds_emptied] at hset
      refine .inl (le_of_eq ?_)
      simp only [liveProducerLoans, List.countP_append, List.countP_singleton]
      simpa using hset
  | @moveAssign dst src old l hold hl hkind hne =>
      have hold' : (s.loans.set src l.emptied)[dst]? = some old := by
        rw [List.getElem?_set_ne (Ne.symm hne), (freeLoan_eq_some hold).1]
      have hsrc := countP_set (b := l.emptied) (Loan.holds .producer i) (freeLoan_eq_some hl).1
      have hdst := countP_set (b := l) (Loan.holds .producer i) hold'
      rw [holds_emptied] at hsrc
      refine .inl ?_
      simp only [liveProducerLoans]
      simp only [Bool.false_eq_true, if_false] at hsrc
      omega
  | @copy src l pool hl hkind =>
      refine .inl (le_of_eq ?_)
      simp only [liveProducerLoans, List.countP_append, List.countP_singleton, holds_read hkind]
      rfl
  | assignEmpty _ hold =>
      refine .inl (countP_set_le hold ?_)
      rw [holds_emptied]
      exact fun h => by cases h
  | assigned _ hold hkind =>
      refine .inl (countP_set_le hold (fun hholds => ?_))
      exact absurd hholds (Bool.eq_false_iff.mp (holds_read hkind))
  | built _ hold hkind =>
      refine .inl (countP_set_le hold (fun hholds => ?_))
      exact absurd hholds (Bool.eq_false_iff.mp (holds_read hkind))
  | consumed _ _ hl =>
      refine .inl (countP_set_le hl ?_)
      rw [holds_emptied]
      exact fun h => by cases h
  | _ => exact .inl (le_refl _)

/-- Once its only producer loan has been given up, a slot has none. -/
theorem liveProducerLoans_emptied {k : Nat} (hsingle : s.liveProducerLoans i ≤ 1)
    (hl : s.loans[k]? = some ⟨.producer, some i⟩)
    (hs : s'.loans = s.loans.set k (Loan.emptied ⟨.producer, some i⟩)) :
    s'.liveProducerLoans i = 0 := by
  have hset := countP_set (b := Loan.emptied ⟨.producer, some i⟩) (Loan.holds .producer i) hl
  have hholds : Loan.holds .producer i ⟨.producer, some i⟩ = true := by
    simp [Loan.holds]
  rw [holds_emptied, hholds, ← hs] at hset
  simp only [liveProducerLoans, if_true, Bool.false_eq_true, if_false] at hset hsingle ⊢
  omega

/-- A publication that was accepted goes on until it gives its loan up. -/
theorem ZcState.Accepting.step {capacity : Nat} (hi : ZcInv capacity s)
    (hsingle : s.liveProducerLoans i ≤ 1) (ha : s.Accepting i) (hs : ZcStep s a evs s') :
    s'.Accepting i ∨ s'.liveProducerLoans i = 0 := by
  obtain ⟨m, thm, c, hm, hc, hindex, haccepted⟩ := ha
  -- The publishing thread is another one, or has gone on with the publication.
  have hother : ∀ {n : Nat} {th th' : ZcThread} {s₁ : ZcState}, s.threads[n]? = some th →
      s₁.threads = s.threads.set n th' →
      (th.publishing = some c → ∃ c', th'.publishing = some c' ∧ c'.index = c.index ∧
        c.accepted ≤ c'.accepted) → s₁.Accepting i := by
    intro n th th' s₁ hth hths hgoes
    by_cases hmn : m = n
    · subst hmn
      obtain rfl : th = thm := Option.some.inj (hth.symm.trans hm)
      obtain ⟨c', hc', hindex', hle⟩ := hgoes hc
      exact ⟨m, th', c', hths ▸ getElem?_set_thread hth, hc', hindex'.trans hindex, by omega⟩
    · refine ⟨m, thm, c, ?_, hc, hindex, haccepted⟩
      rw [hths, List.getElem?_set_ne (Ne.symm hmn)]
      exact hm
  have hsame : ∀ {s₁ : ZcState}, s₁.threads = s.threads → s₁.Accepting i :=
    fun hths => ⟨m, thm, c, hths ▸ hm, hc, hindex, haccepted⟩
  cases hs with
  | spawn =>
      refine .inl ⟨m, thm, c, ?_, hc, hindex, haccepted⟩
      exact (List.getElem?_append_left (List.getElem?_eq_some_iff.mp hm).1).trans hm
  | topic => exact .inl (hsame rfl)
  | newLoan => exact .inl (hsame rfl)
  | lend => exact .inl (hsame rfl)
  | stay => exact .inl (hsame rfl)
  | release => exact .inl (hsame rfl)
  | move => exact .inl (hsame rfl)
  | moveAssign => exact .inl (hsame rfl)
  | copy => exact .inl (hsame rfl)
  | returns hth => exact .inl (hother hth rfl nofun)
  | assignEmpty hth => exact .inl (hother hth rfl nofun)
  | assignCopy hth => exact .inl (hother hth rfl nofun)
  | assigned hth => exact .inl (hother hth rfl nofun)
  | subscribe hth => exact .inl (hother hth rfl nofun)
  | unsubscribe hth => exact .inl (hother hth rfl nofun)
  | publish hth => exact .inl (hother hth rfl nofun)
  | enter hth => exact .inl (hother hth rfl nofun)
  | destroy hth => exact .inl (hother hth rfl nofun)
  | destroyed hth => exact .inl (hother hth rfl nofun)
  | destroySlot hth => exact .inl (hother hth rfl nofun)
  | drainSkip hth => exact .inl (hother hth rfl nofun)
  | drainPop hth => exact .inl (hother hth rfl nofun)
  | drainEnd hth => exact .inl (hother hth rfl nofun)
  | drained hth => exact .inl (hother hth rfl nofun)
  | skip hth => exact .inl (hother hth rfl (fun h => ⟨c, h, rfl, le_refl _⟩))
  | looked hth => exact .inl (hother hth rfl (fun h => ⟨c, h, rfl, le_refl _⟩))
  | retain hth => exact .inl (hother hth rfl (fun h => ⟨c, h, rfl, le_refl _⟩))
  | accept _ hth =>
      refine .inl (hother hth rfl ?_)
      intro h
      obtain rfl := Option.some.inj h
      exact ⟨_, rfl, rfl, Nat.le_succ _⟩
  | full hth => exact .inl (hother hth rfl (fun h => ⟨c, h, rfl, le_refl _⟩))
  | reject hth =>
      refine .inl (hother hth rfl ?_)
      intro h
      obtain rfl := Option.some.inj h
      exact ⟨_, rfl, rfl, le_refl _⟩
  | @consumed n c₁ l ret hth hne hl =>
      by_cases hmn : m = n
      · -- The slot's only producer loan is the one that is given up.
        subst hmn
        obtain rfl : ZcThread.finish c₁ = thm := Option.some.inj (hth.symm.trans hm)
        obtain rfl : c₁ = c := Option.some.inj hc
        have hheld := hi.loans.held m _ c₁ hm rfl
        obtain rfl : ⟨.producer, some c₁.index⟩ = l := Option.some.inj (hheld.symm.trans hl)
        rw [hindex] at hl
        exact .inr (liveProducerLoans_emptied hsingle hl (by rw [hindex]))
      · refine .inl ⟨m, thm, c, ?_, hc, hindex, haccepted⟩
        exact (List.getElem?_set_ne (Ne.symm hmn)).trans hm
  | kept hth hzero =>
      refine .inl (hother hth rfl ?_)
      intro h
      obtain rfl := Option.some.inj h
      exact absurd hzero haccepted
  | unlock hth => exact .inl (hother hth rfl nofun)
  | pop hth => exact .inl (hother hth rfl nofun)
  | giveUp hth => exact .inl (hother hth rfl nofun)
  | settleNone hth => exact .inl (hother hth rfl nofun)
  | settleSome hth => exact .inl (hother hth rfl nofun)
  | built hth => exact .inl (hother hth rfl nofun)

/-- A slot nobody has is seen by nobody. -/
theorem ZcState.Unseen.of_owed (hzero : s.owed i = 0) : s.Unseen i where
  loans := by
    intro h hl
    have := owed_pos_of_loan hl (i := i) rfl
    omega
  threads := by
    intro n th hn
    have := le_tally (f := ZcThread.inHand i) hn
    rw [ZcState.owed] at hzero
    rw [ZcThread.inHand] at this
    constructor
    · intro htemp
      rw [htemp, MessagePool.owns_some, if_pos rfl] at this
      omega
    · intro hpop
      rw [hpop, MessagePool.owns_some, if_pos rfl] at this
      omega
  queues := by
    intro t k tp sl htp hsl hmem
    have htopic := le_tally (f := ZeroCopySignal.queued i) htp
    have hslot := le_tally (f := fun sl : SubscriberSlot => sl.queue.count i) hsl
    have hpos := List.count_pos_iff.mpr hmem
    rw [ZcState.owed] at hzero
    rw [ZeroCopySignal.queued] at htopic
    omega

theorem ZcExcl.step {capacity : Nat} (hi : ZcInv capacity s) (hx : ZcExcl s)
    (hs : ZcStep s a evs s') : ZcExcl s' where
  single := by
    intro i
    rcases hs.producers hi i with hle | ⟨-, hle, -⟩
    · exact le_trans hle (hx.single i)
    · exact hle
  unseen := by
    intro i hpos
    rcases hs.producers hi i with hle | ⟨hzero, -, hths, htopics, l, hloans, hkind⟩
    · rcases hx.unseen i (by omega) with hu | ha
      · exact hu.step hs
      · rcases ha.step hi (hx.single i) hs with ha | hnone
        · exact .inr ha
        · omega
    · refine .inl ?_
      have hu := ZcState.Unseen.of_owed hzero
      refine ⟨?_, hths ▸ hu.threads, htopics ▸ hu.queues⟩
      intro h hh
      rw [hloans] at hh
      rcases getElem?_concat_cases hh with hh | ⟨-, rfl⟩
      · exact hu.loans h hh
      · cases hkind

theorem ZcExcl.init (capacity : Nat) (poolValid : Bool) :
    ZcExcl (zeroCopyMachine capacity poolValid).init where
  single := fun _ => Nat.zero_le _
  unseen := fun _ h => absurd h (Nat.lt_irrefl 0)

/-- Producer loans are exclusive in every reachable state. -/
theorem ZcExcl.reachable {capacity : Nat} {poolValid : Bool}
    (hr : (zeroCopyMachine capacity poolValid).Reachable s) : ZcExcl s :=
  Machine.Reachable.invariant (ZcExcl.init capacity poolValid)
    (fun _ _ _ hr hx hs => hx.step (ZcInv.reachable hr) (.of_next hs)) hr

/-! ### What exclusion gives -/

/-- The counts of a slot that nobody sees. -/
theorem ZcState.Unseen.counts (hu : s.Unseen i) :
    s.liveReadLoans i = 0 ∧ s.queued i = 0 ∧ s.popped i = 0 := by
  refine ⟨?_, ?_, ?_⟩
  · rw [liveReadLoans, Nat.add_eq_zero_iff, List.countP_eq_zero, List.countP_eq_zero]
    constructor
    · intro l hmem hholds
      obtain ⟨h, hl⟩ := List.mem_iff_getElem?.mp hmem
      simp only [Loan.holds, decide_eq_true_eq] at hholds
      exact hu.read_ne hl hholds.1 hholds.2
    · intro th hmem htemp
      obtain ⟨n, hn⟩ := List.mem_iff_getElem?.mp hmem
      exact (hu.threads n th hn).1 (by simpa using htemp)
  · refine tally_eq_zero ?_
    intro t tp htp
    refine tally_eq_zero ?_
    intro k sl hsl
    exact List.count_eq_zero.mpr (hu.queues t k tp sl htp hsl)
  · rw [popped, List.countP_eq_zero]
    intro th hmem hpop
    obtain ⟨n, hn⟩ := List.mem_iff_getElem?.mp hmem
    exact (hu.threads n th hn).2 (by simpa using hpop)

/-- A live producer loan is counted. -/
theorem liveProducerLoans_pos (hl : s.loans[h]? = some ⟨.producer, some i⟩) :
    0 < s.liveProducerLoans i := by
  rw [liveProducerLoans, List.countP_pos_iff]
  exact ⟨_, List.mem_of_getElem? hl, by simp [Loan.holds]⟩

/-- Two producer loans on one slot are one object. -/
theorem ZcExcl.loan_eq (hx : ZcExcl s) {h' : Nat} (hl : s.loans[h]? = some ⟨.producer, some i⟩)
    (hl' : s.loans[h']? = some ⟨.producer, some i⟩) : h = h' :=
  eq_of_countP_le_one (hx.single i) hl hl' (by simp [Loan.holds]) (by simp [Loan.holds])

/-- The loan object that a publication has been given is busy. -/
theorem busy_of_publishing {c : ZcPublish} (hth : s.threads[n]? = some th)
    (hc : th.publishing = some c) : s.busy c.loan = true :=
  List.any_eq_true.mpr ⟨th, List.mem_of_getElem? hth, by simp [hc]⟩

/-- A producer loan that is not being published is on a slot that nobody sees. -/
theorem ZcExcl.unseen_of_loan {capacity : Nat} (hi : ZcInv capacity s) (hx : ZcExcl s)
    (hl : s.loans[h]? = some ⟨.producer, some i⟩) (hbusy : s.busy h = false) : s.Unseen i := by
  refine (hx.unseen i (liveProducerLoans_pos hl)).resolve_right ?_
  rintro ⟨m, thm, c, hm, hc, rfl, -⟩
  obtain rfl := hx.loan_eq (hi.loans.held m thm c hm hc) hl
  rw [busy_of_publishing hm hc] at hbusy
  cases hbusy

/-- A reference retained for a queue belongs to a publication. -/
theorem publishing_of_retained (h : th.retained = some i) :
    ∃ c, th.publishing = some c ∧ c.index = i := by
  cases th with
  | send c k => exact ⟨c, rfl, Option.some.inj h⟩
  | reject c k => exact ⟨c, rfl, Option.some.inj h⟩
  | _ => cases h

/-- Nobody retains the slot of a producer loan that is not being published. -/
theorem ZcExcl.retained_of_loan {capacity : Nat} (hi : ZcInv capacity s) (hx : ZcExcl s)
    (hl : s.loans[h]? = some ⟨.producer, some i⟩) (hbusy : s.busy h = false) :
    s.retained i = 0 := by
  rw [retained, List.countP_eq_zero]
  intro thm hmem hret
  obtain ⟨m, hm⟩ := List.mem_iff_getElem?.mp hmem
  obtain ⟨c, hc, rfl⟩ := publishing_of_retained (by simpa using hret)
  obtain rfl := hx.loan_eq (hi.loans.held m thm c hm hc) hl
  rw [busy_of_publishing hm hc] at hbusy
  cases hbusy

/-! ### The promise -/

/-- The only owner of slot `i` is a producer loan: nobody can read what its holder
may still write. -/
structure ZcState.SoleOwner (s : ZcState) (i : Nat) : Prop where
  references : s.pool.refs i = 1
  producers : s.liveProducerLoans i = 1
  readers : s.liveReadLoans i = 0
  queued : s.queued i = 0
  popped : s.popped i = 0

theorem ZcExcl.soleOwner {capacity : Nat} (hi : ZcInv capacity s) (hx : ZcExcl s)
    (hl : s.loans[h]? = some ⟨.producer, some i⟩) (hbusy : s.busy h = false) :
    s.SoleOwner i := by
  obtain ⟨hread, hqueued, hpopped⟩ := (hx.unseen_of_loan hi hl hbusy).counts
  have hretained := hx.retained_of_loan hi hl hbusy
  have hone : s.liveProducerLoans i = 1 :=
    le_antisymm (hx.single i) (liveProducerLoans_pos hl)
  refine ⟨?_, hone, hread, hqueued, hpopped⟩
  rw [hi.pool.refs, s.owed_eq]
  omega

end Steps

end MicrOsal
