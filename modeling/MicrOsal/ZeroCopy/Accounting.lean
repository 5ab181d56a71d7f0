import MicrOsal.ZeroCopy.Slots

/-!
# MicrOsal.ZeroCopy.Accounting

Every reference to a payload slot has an owner, and every owner has a reference.

`ZcState.owed` adds up the owners of a slot: loan objects, indices in subscriber
queues, and indices that a thread has in hand between two locked regions.
`ZcInv` says that the pool backs this ownership function, together with the
facts of `MicrOsal.ZeroCopy.Slots` that rule out lost updates. Each operation
keeps it: an operation that takes or drops a reference moves exactly one owner
in the same step.
-/

namespace MicrOsal

open MessagePool (owns)

/-! ### Owners -/

namespace ZcThread

/-- The slot of the temporary copy in a copy assignment. -/
def temporary : ZcThread → Option Nat
  | .copyAssign _ index => some index
  | _ => none

/-- The index taken out of a queue and not yet passed on. -/
def popped : ZcThread → Option Nat
  | .drained _ _ _ index => some index
  | .settle _ _ _ got => got
  | .build _ _ index => some index
  | _ => none

/-- The index retained for a queue and neither sent nor released. -/
def retained : ZcThread → Option Nat
  | .send c _ => some c.index
  | .reject c _ => some c.index
  | _ => none

/-- The owners of `i` among a thread's variables. -/
def inHand (i : Nat) (th : ZcThread) : Nat :=
  owns th.temporary i + owns th.popped i + owns th.retained i

variable {i : Nat} {c : ZcPublish}

@[simp] theorem inHand_idle (ret : ZcReturn) : (idle ret).inHand i = 0 := rfl

@[simp] theorem inHand_copyAssign (dst index : Nat) :
    (copyAssign dst index).inHand i = owns (some index) i := rfl

@[simp] theorem inHand_destroy (t k : Nat) : (destroy t k).inHand i = 0 := rfl

@[simp] theorem inHand_drain (t k : Nat) (caller : ZcDrain) :
    (drain t k caller).inHand i = 0 := rfl

@[simp] theorem inHand_drainReturn (t k : Nat) (caller : ZcDrain) :
    (ZcState.drainReturn t k caller).inHand i = 0 := by
  cases caller <;> rfl

@[simp] theorem inHand_drained (t k index : Nat) (caller : ZcDrain) :
    (drained t k caller index).inHand i = owns (some index) i :=
  Nat.zero_add _

@[simp] theorem inHand_publish (k : Nat) : (publish c k).inHand i = 0 := rfl

@[simp] theorem inHand_send (k : Nat) : (send c k).inHand i = owns (some c.index) i :=
  Nat.zero_add _

@[simp] theorem inHand_reject (k : Nat) : (reject c k).inHand i = owns (some c.index) i :=
  Nat.zero_add _

@[simp] theorem inHand_finish : (finish c).inHand i = 0 := rfl

@[simp] theorem inHand_unlock (t : Nat) (ret : ZcReturn) : (unlock t ret).inHand i = 0 := rfl

@[simp] theorem inHand_receive (t k out : Nat) : (receive t k out).inHand i = 0 := rfl

@[simp] theorem inHand_settle (t k out : Nat) (got : Option Nat) :
    (settle t k out got).inHand i = owns got i :=
  Nat.zero_add _

@[simp] theorem inHand_build (t out index : Nat) :
    (build t out index).inHand i = owns (some index) i :=
  Nat.zero_add _

end ZcThread

/-- How often `i` stands in the queues of a topic. -/
def ZeroCopySignal.queued (i : Nat) (tp : ZeroCopySignal) : Nat :=
  tally (fun sl => sl.queue.count i) tp.slots

/-- The owners of slot `i`. -/
def ZcState.owed (s : ZcState) (i : Nat) : Nat :=
  tally (fun l => owns l.index i) s.loans + tally (ZcThread.inHand i) s.threads +
    tally (ZeroCopySignal.queued i) s.topics

/-- What every reachable state satisfies. -/
structure ZcInv (capacity : Nat) (s : ZcState) : Prop where
  pool : s.pool.Backs capacity s.owed
  topics : TopicsOk s.threads s.topics
  threads : ThreadsOk s.threads s.topics
  loans : LoansOk s.loans s.threads

section Operations

variable {capacity n t k h : Nat} {s s' : ZcState} {th th' : ZcThread} {l : Loan}
variable {tp tp' : ZeroCopySignal} {sl sl' : SubscriberSlot} {ret : ZcReturn}

theorem count_cons_owns (i j : Nat) (rest : List Nat) :
    (i :: rest).count j = rest.count j + owns (some i) j := by
  simp only [List.count_cons, owns, Option.some.injEq, beq_iff_eq]

theorem count_concat_owns (i j : Nat) (q : List Nat) :
    (q ++ [i]).count j = q.count j + owns (some i) j := by
  rw [List.count_append, count_cons_owns, List.count_nil, Nat.zero_add]

/-- Replacing a slot exchanges the indices in its queue. -/
theorem queued_set (hslots : tp'.slots = tp.slots.set k sl') (hsl : tp.slots[k]? = some sl)
    (i : Nat) : tp'.queued i + sl.queue.count i = tp.queued i + sl'.queue.count i := by
  rw [ZeroCopySignal.queued, hslots]
  exact tally_set (f := fun sl : SubscriberSlot => sl.queue.count i) hsl

theorem queued_setSlot (hsl : tp.slots[k]? = some sl) (sl' : SubscriberSlot) (i : Nat) :
    (tp.setSlot k sl').queued i + sl.queue.count i = tp.queued i + sl'.queue.count i :=
  queued_set rfl hsl i

/-- Replacing a slot by one with the same queue. -/
theorem queued_set_eq (hslots : tp'.slots = tp.slots.set k sl') (hsl : tp.slots[k]? = some sl)
    (hq : sl'.queue = sl.queue) (i : Nat) : tp'.queued i = tp.queued i := by
  have := queued_set hslots hsl i
  rw [hq] at this
  omega

/-- A thread changes its place and the pool; what is to be checked. -/
theorem ZcInv.thread_pool {p : MessagePool} (hi : ZcInv capacity s)
    (hth : s.threads[n]? = some th)
    (hpool : ∀ own, (∀ i, own i + th.inHand i = s.owed i + th'.inHand i) → p.Backs capacity own)
    (hload : ∀ t k w, th'.load t k w = th.load t k w)
    (hpub : ∀ c', th'.publishing = some c' →
      ∃ c, th.publishing = some c ∧ c'.loan = c.loan ∧ c'.index = c.index)
    (hown : ∀ t, th'.topic = some t → ∃ tp, s.topics[t]? = some tp ∧ th'.Ok n tp) :
    ZcInv capacity ({ s with pool := p }.setThread n th') where
  pool := by
    refine hpool _ ?_
    intro i
    have hH := tally_set (f := ZcThread.inHand i) (b := th') hth
    simp only [ZcState.owed, ZcState.setThread]
    omega
  topics := hi.topics.thread hth hload
  threads := hi.threads.thread hown
  loans := hi.loans.thread hth hpub

/-- A thread takes a step that concerns nobody else. -/
theorem ZcInv.thread (hi : ZcInv capacity s) (hth : s.threads[n]? = some th)
    (hload : ∀ t k w, th'.load t k w = th.load t k w)
    (hhand : ∀ i, th'.inHand i = th.inHand i)
    (hpub : ∀ c', th'.publishing = some c' →
      ∃ c, th.publishing = some c ∧ c'.loan = c.loan ∧ c'.index = c.index)
    (hown : ∀ t, th'.topic = some t → ∃ tp, s.topics[t]? = some tp ∧ th'.Ok n tp) :
    ZcInv capacity (s.setThread n th') := by
  refine hi.thread_pool (p := s.pool) hth ?_ hload hpub hown
  intro own heq
  refine hi.pool.congr ?_
  intro i
  have := heq i
  rw [hhand] at this
  omega

/-- A call that returns at once. -/
theorem ZcInv.return_idle (hi : ZcInv capacity s) (hth : s.threads[n]? = some (.idle ret))
    (ret' : ZcReturn) : ZcInv capacity (s.setThread n (.idle ret')) :=
  hi.thread hth (by simp) (fun _ => rfl) nofun nofun

/-- A thread changes its place, a topic and the pool; what is to be checked. -/
theorem ZcInv.update {p : MessagePool} (hi : ZcInv capacity s) (hth : s.threads[n]? = some th)
    (htp : s.topics[t]? = some tp)
    (hpool : ∀ own, (∀ i, own i + (th.inHand i + tp.queued i) =
      s.owed i + (th'.inHand i + tp'.queued i)) → p.Backs capacity own)
    (htopics : TopicsOk (s.threads.set n th') (s.topics.set t tp'))
    (hresp : ∀ m thm, m ≠ n → s.threads[m]? = some thm → thm.topic = some t → thm.Ok m tp →
      thm.Ok m tp')
    (hsame : ∀ t', th'.topic = some t' → t' = t) (hown : th'.Ok n tp')
    (hloans : LoansOk s.loans (s.threads.set n th')) :
    ZcInv capacity (({ s with pool := p }.setTopic t tp').setThread n th') where
  pool := by
    refine hpool _ ?_
    intro i
    have hT := tally_set (f := ZeroCopySignal.queued i) (b := tp') htp
    have hH := tally_set (f := ZcThread.inHand i) (b := th') hth
    simp only [ZcState.owed, ZcState.setTopic, ZcState.setThread]
    omega
  topics := htopics
  threads := hi.threads.update htp hresp hsame hown
  loans := hloans

/-- The owners stay as many, so the pool need not change. -/
theorem ZcInv.pool_of_eq (hi : ZcInv capacity s)
    (hhand : ∀ i, th'.inHand i = th.inHand i) (hqueued : ∀ i, tp'.queued i = tp.queued i)
    (own : Nat → Nat)
    (hown : ∀ i, own i + (th.inHand i + tp.queued i) = s.owed i + (th'.inHand i + tp'.queued i)) :
    s.pool.Backs capacity own := by
  refine hi.pool.congr ?_
  intro i
  have := hown i
  rw [hhand, hqueued] at this
  omega

/-! ### Loans -/

theorem freeLoan_eq_some (hl : s.freeLoan h = some l) :
    s.loans[h]? = some l ∧
      ∀ (m : Nat) (thm : ZcThread) c, s.threads[m]? = some thm → thm.publishing = some c →
        c.loan ≠ h := by
  rw [ZcState.freeLoan] at hl
  split at hl
  · cases hl
  · next hbusy =>
    refine ⟨hl, ?_⟩
    intro m thm c hm hc heq
    refine hbusy (List.any_eq_true.mpr ⟨thm, List.mem_of_getElem? hm, ?_⟩)
    simp [hc, heq]

/-- A new loan object changes no other. -/
theorem getElem?_concat_of_some {loans : List Loan} {x : Loan} (hl : loans[h]? = some l) :
    (loans ++ [x])[h]? = loans[h]? := by
  obtain ⟨hlt, -⟩ := List.getElem?_eq_some_iff.mp hl
  exact List.getElem?_append_left hlt

theorem LoansOk.concat (hi : LoansOk s.loans s.threads) (x : Loan) :
    LoansOk (s.loans ++ [x]) s.threads :=
  hi.objects (fun _ _ _ _ _ hl => getElem?_concat_of_some hl)

theorem LoansOk.set (hi : LoansOk s.loans s.threads)
    (hfree : ∀ (m : Nat) (thm : ZcThread) c, s.threads[m]? = some thm → thm.publishing = some c →
      c.loan ≠ h) (x : Loan) :
    LoansOk (s.loans.set h x) s.threads :=
  hi.objects (fun m thm c hm hc _ => List.getElem?_set_ne (Ne.symm (hfree m thm c hm hc)))

/-- What is published is a producer loan. -/
theorem LoansOk.set_read (hi : LoansOk s.loans s.threads) (hl : s.loans[h]? = some l)
    (hkind : l.kind = .read) (x : Loan) : LoansOk (s.loans.set h x) s.threads := by
  refine hi.set ?_ x
  rintro m thm c hm hc rfl
  rw [hi.held m thm c hm hc] at hl
  cases hl
  cases hkind

/-- A loan object comes into being. -/
theorem ZcInv.new_loan (hi : ZcInv capacity s) (kind : LoanKind) :
    ZcInv capacity { s with loans := s.loans ++ [⟨kind, none⟩] } where
  pool := hi.pool.congr (fun i => by simp [ZcState.owed])
  topics := hi.topics
  threads := hi.threads
  loans := hi.loans.concat _

theorem ZcInv.tryLoan (hi : ZcInv capacity s) : ZcInv capacity s.tryLoan := by
  rw [ZcState.tryLoan]
  split
  · refine ⟨hi.pool.tryLoan ?_, hi.topics, hi.threads, hi.loans.concat _⟩
    intro i
    simp only [ZcState.owed, tally_append, tally_cons, tally_nil]
    omega
  · exact hi.new_loan .producer

theorem ZcInv.topicTryLoan (hi : ZcInv capacity s) (hs : s.topicTryLoan t = some s') :
    ZcInv capacity s' := by
  obtain ⟨tp, -, hs⟩ := Option.bind_eq_some_iff.mp hs
  split at hs
  · cases hs
    exact hi.tryLoan
  · cases hs
    exact hi.new_loan .producer

theorem ZcInv.releaseLoan (hi : ZcInv capacity s) (hs : s.releaseLoan h = some s') :
    ZcInv capacity s' := by
  obtain ⟨l, hl, hs⟩ := Option.bind_eq_some_iff.mp hs
  cases hs
  obtain ⟨hl, hfree⟩ := freeLoan_eq_some hl
  refine ⟨hi.pool.drop ?_, hi.topics, hi.threads, hi.loans.set hfree _⟩
  intro i
  have := tally_set (f := fun l : Loan => owns l.index i) (b := l.emptied) hl
  simp only [ZcState.owed, Loan.emptied, MessagePool.owns_none] at this ⊢
  omega

theorem ZcInv.moveLoan (hi : ZcInv capacity s) (hs : s.moveLoan h = some s') :
    ZcInv capacity s' := by
  obtain ⟨l, hl, hs⟩ := Option.bind_eq_some_iff.mp hs
  cases hs
  obtain ⟨hl, hfree⟩ := freeLoan_eq_some hl
  refine ⟨hi.pool.congr ?_, hi.topics, hi.threads, ?_⟩
  · intro i
    have := tally_set (f := fun l : Loan => owns l.index i) (b := l.emptied) hl
    simp only [ZcState.owed, Loan.emptied, MessagePool.owns_none, tally_append, tally_cons,
      tally_nil] at this ⊢
    omega
  · refine hi.loans.objects ?_
    intro m thm c hm hc hheld
    have hset : (s.loans.set h l.emptied)[c.loan]? = s.loans[c.loan]? :=
      List.getElem?_set_ne (Ne.symm (hfree m thm c hm hc))
    exact (getElem?_concat_of_some (hset.trans hheld)).trans hset

theorem ZcInv.moveAssign {dst src : Nat} (hi : ZcInv capacity s)
    (hs : s.moveAssign dst src = some s') : ZcInv capacity s' := by
  obtain ⟨old, hold, hs⟩ := Option.bind_eq_some_iff.mp hs
  obtain ⟨l, hl, hs⟩ := Option.bind_eq_some_iff.mp hs
  split at hs
  · cases hs
  · split at hs
    · cases hs
      exact hi
    · next hne =>
      cases hs
      obtain ⟨hold, hfreeDst⟩ := freeLoan_eq_some hold
      obtain ⟨hl, hfreeSrc⟩ := freeLoan_eq_some hl
      refine ⟨hi.pool.drop ?_, hi.topics, hi.threads, ?_⟩
      · intro i
        have hsrc := tally_set (f := fun l : Loan => owns l.index i) (b := l.emptied) hl
        have hold' : (s.loans.set src l.emptied)[dst]? = some old := by
          rw [List.getElem?_set_ne (Ne.symm hne), hold]
        have hdst := tally_set (f := fun l : Loan => owns l.index i) (b := l) hold'
        simp only [ZcState.owed, Loan.emptied, MessagePool.owns_none] at hsrc hdst ⊢
        omega
      · refine hi.loans.objects ?_
        intro m thm c hm hc _
        rw [List.getElem?_set_ne (Ne.symm (hfreeDst m thm c hm hc)),
          List.getElem?_set_ne (Ne.symm (hfreeSrc m thm c hm hc))]

/-- A live loan object is an owner. -/
theorem owed_pos_of_loan (hl : s.loans[h]? = some l) {i : Nat} (hindex : l.index = some i) :
    0 < s.owed i := by
  have := le_tally (f := fun l : Loan => owns l.index i) hl
  simp only [hindex, MessagePool.owns_some, if_true] at this
  rw [ZcState.owed]
  omega

theorem ZcInv.copyLoan {src : Nat} (hi : ZcInv capacity s) (hs : s.copyLoan src = some s') :
    ZcInv capacity s' := by
  obtain ⟨l, hl, hs⟩ := Option.bind_eq_some_iff.mp hs
  split at hs
  · cases hs
  · obtain ⟨pool, hpool, hs⟩ := Option.bind_eq_some_iff.mp hs
    cases hs
    refine ⟨hi.pool.share hpool (fun i hindex => owed_pos_of_loan hl hindex) ?_, hi.topics,
      hi.threads, hi.loans.concat _⟩
    intro i
    simp only [ZcState.owed, tally_append, tally_cons, tally_nil]
    omega

/-- Assigning a temporary loan passes the index in hand on to a loan object. -/
theorem ZcInv.assignTemporary {dst index : Nat} (hi : ZcInv capacity s)
    (hth : s.threads[n]? = some th) (hload : ∀ t k w, th.load t k w = 0)
    (hhand : ∀ i, th.inHand i = owns (some index) i)
    (hs : (s.assignTemporary dst index).bind (fun s₁ => some (s₁.setThread n (.idle ret))) =
      some s') :
    ZcInv capacity s' := by
  obtain ⟨s₁, hs₁, hs⟩ := Option.bind_eq_some_iff.mp hs
  obtain ⟨old, hold, hs₁⟩ := Option.bind_eq_some_iff.mp hs₁
  split at hs₁
  · cases hs₁
  · next hkind =>
    cases hs₁
    cases hs
    refine ⟨hi.pool.drop ?_, hi.topics.thread hth (by simp [hload]), hi.threads.thread nofun, ?_⟩
    · intro i
      have hl := tally_set (f := fun l : Loan => owns l.index i)
        (b := { old with index := some index }) hold
      have ht := tally_set (f := ZcThread.inHand i) (b := .idle ret) hth
      rw [hhand, ZcThread.inHand_idle] at ht
      simp only [ZcState.owed, ZcState.setThread] at hl ⊢
      omega
    · exact (hi.loans.set_read hold (by simpa using hkind) _).thread hth nofun

theorem ZcInv.copyAssign {dst src : Nat} (hi : ZcInv capacity s)
    (hth : s.threads[n]? = some (.idle ret)) (hs : s.copyAssign n dst src = some s') :
    ZcInv capacity s' := by
  obtain ⟨old, hold, hs⟩ := Option.bind_eq_some_iff.mp hs
  obtain ⟨l, hl, hs⟩ := Option.bind_eq_some_iff.mp hs
  split at hs
  · cases hs
  · next hkind =>
    split at hs
    · cases hs
      exact hi.return_idle hth _
    · cases hindex : l.index with
      | none =>
          simp only [hindex] at hs
          cases hs
          refine ⟨hi.pool.drop ?_, hi.topics.thread hth (by simp), hi.threads.thread nofun, ?_⟩
          · intro i
            have hl := tally_set (f := fun l : Loan => owns l.index i) (b := old.emptied) hold
            have ht := tally_set_eq (f := ZcThread.inHand i) (b := .idle .void) hth rfl
            simp only [ZcState.owed, Loan.emptied, MessagePool.owns_none, ht] at hl ⊢
            omega
          · exact (hi.loans.set_read hold (by simpa using (not_or.mp hkind).1) _).thread hth nofun
      | some index =>
          simp only [hindex] at hs
          obtain ⟨pool, hpool, hs⟩ := Option.bind_eq_some_iff.mp hs
          cases hs
          refine ⟨hi.pool.retain hpool (owed_pos_of_loan hl hindex) ?_,
            hi.topics.thread hth (by simp), hi.threads.thread nofun, hi.loans.thread hth nofun⟩
          intro i
          have ht := tally_set (f := ZcThread.inHand i) (b := .copyAssign dst index) hth
          rw [ZcThread.inHand_idle, ZcThread.inHand_copyAssign] at ht
          simp only [ZcState.owed]
          omega

end Operations

end MicrOsal
