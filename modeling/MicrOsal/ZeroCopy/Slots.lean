import MicrOsal.ZeroCopy.Model

/-!
# MicrOsal.ZeroCopy.Slots

What the threads inside `zero_copy_signal` calls and the topics know of each
other.

The counters of a subscriber slot are tallies over the threads: `receivers`
counts the threads inside `receive_loan`, `backlog` the queued indices and those
received but not yet counted out. Both equations, and that a slot nobody
subscribes to has an empty queue, are suspended while a thread drains the slot
(`ZcWork.draining`). `TopicOk` says this of a topic, `ZcThread.Ok` says what a
thread's place implies about its topic, `LoansOk` what it implies about the loan
it publishes. The lemmas here lift a change of one thread and one topic or slot
to the whole lists.
-/

namespace MicrOsal

open ZcThread

/-! ### Tallies over threads -/

/-- What a thread can be doing to a slot. -/
inductive ZcWork
  /-- Counted in `receivers`. -/
  | receiving
  /-- Has received an index that `backlog` still counts. -/
  | unsettled
  /-- Will still drain the slot. -/
  | draining

namespace ZcThread

/-- Whether the thread does `w` to slot `k` of topic `t`. -/
@[simp] def does (t k : Nat) : ZcWork → ZcThread → Bool
  | .receiving, .receive t' k' _ => t' = t ∧ k' = k
  | .receiving, .settle t' k' _ _ => t' = t ∧ k' = k
  | .unsettled, .settle t' k' _ (some _) => t' = t ∧ k' = k
  | .draining, .drain t' k' .unsubscribe => t' = t ∧ k' = k
  | .draining, .drained t' k' .unsubscribe _ => t' = t ∧ k' = k
  | .draining, .drain t' k' .destructor => t' = t ∧ k' ≤ k
  | .draining, .drained t' k' .destructor _ => t' = t ∧ k' ≤ k
  | .draining, .destroy t' k' => t' = t ∧ k' ≤ k
  | _, _ => false

/-- `does` as a weight. -/
def load (t k : Nat) (w : ZcWork) (th : ZcThread) : Nat := if th.does t k w then 1 else 0

variable {t k : Nat} {w : ZcWork} {c : ZcPublish}

-- Most places have nothing to do with the counters of a slot.
@[simp] theorem load_idle (ret : ZcReturn) : (idle ret).load t k w = 0 := by cases w <;> rfl

@[simp] theorem load_copyAssign (dst i : Nat) : (copyAssign dst i).load t k w = 0 := by
  cases w <;> rfl

@[simp] theorem load_publish (k' : Nat) : (publish c k').load t k w = 0 := by cases w <;> rfl

@[simp] theorem load_send (k' : Nat) : (send c k').load t k w = 0 := by cases w <;> rfl

@[simp] theorem load_reject (k' : Nat) : (reject c k').load t k w = 0 := by cases w <;> rfl

@[simp] theorem load_finish : (finish c).load t k w = 0 := by cases w <;> rfl

@[simp] theorem load_unlock (t' : Nat) (ret : ZcReturn) : (unlock t' ret).load t k w = 0 := by
  cases w <;> rfl

@[simp] theorem load_build (t' out i : Nat) : (build t' out i).load t k w = 0 := by
  cases w <;> rfl

@[simp] theorem load_drained (t' k' i : Nat) (caller : ZcDrain) :
    (drained t' k' caller i).load t k w = (drain t' k' caller).load t k w := by
  cases w <;> cases caller <;> rfl

@[simp] theorem load_drain_destructor (t' k' : Nat) :
    (drain t' k' .destructor).load t k w = (destroy t' k').load t k w := by
  cases w <;> rfl

@[simp] theorem load_settle_none (t' k' out : Nat) :
    (settle t' k' out none).load t k w = (receive t' k' out).load t k w := by
  cases w <;> rfl

/-- A thread in the middle of `drain_` will drain its slot. -/
theorem load_drain_self (caller : ZcDrain) :
    (drain t k caller).load t k w = match w with
      | .draining => 1
      | _ => 0 := by
  cases w <;> cases caller <;> simp [load, does]

theorem load_receive_self (out : Nat) :
    (receive t k out).load t k w = match w with
      | .receiving => 1
      | _ => 0 := by
  cases w <;> simp [load, does]

theorem load_settle_self (out i : Nat) :
    (settle t k out (some i)).load t k w = match w with
      | .draining => 0
      | _ => 1 := by
  cases w <;> simp [load, does]

theorem load_destroy_zero : (destroy t 0).load t k w = match w with
      | .draining => 1
      | _ => 0 := by
  cases w <;> simp [load, does]

section Elsewhere

variable {t' k' : Nat}

theorem load_drain_of_ne (h : t' ≠ t ∨ k' ≠ k) :
    (drain t k .unsubscribe).load t' k' w = 0 := by
  cases w <;> simp [load, does]
  omega

theorem load_destroy_of_ne (h : t' ≠ t) (j : Nat) : (destroy t j).load t' k' w = 0 := by
  cases w <;> simp [load, does]
  omega

theorem load_receive_of_ne (h : t' ≠ t ∨ k' ≠ k) (out : Nat) :
    (receive t k out).load t' k' w = 0 := by
  cases w <;> simp [load, does]
  omega

theorem load_settle_of_ne (h : t' ≠ t ∨ k' ≠ k) (out : Nat) (got : Option Nat) :
    (settle t k out got).load t' k' w = 0 := by
  cases w <;> cases got <;> simp [load, does] <;> omega

/-- Leaving `drain_` takes back what entering it announced for the slot. -/
theorem load_drainReturn_of_ne (h : t' ≠ t ∨ k' ≠ k) (caller : ZcDrain) :
    (ZcState.drainReturn t k caller).load t' k' w = (drain t k caller).load t' k' w := by
  cases caller with
  | unsubscribe => rw [load_drain_of_ne h, ZcState.drainReturn, load_unlock]
  | destructor =>
      rw [ZcState.drainReturn, load_drain_destructor]
      cases w with
      | draining =>
          simp only [load, does, decide_eq_true_eq]
          congr 1
          exact propext (by omega)
      | _ => rfl

theorem load_drainReturn_self (caller : ZcDrain) :
    (ZcState.drainReturn t k caller).load t k w = 0 := by
  cases caller with
  | unsubscribe => exact load_unlock _ _
  | destructor => cases w <;> simp [ZcState.drainReturn, load, does]

end Elsewhere

end ZcThread

/-- How many threads do `w` to slot `k` of topic `t`. -/
def loads (ths : List ZcThread) (t k : Nat) (w : ZcWork) : Nat := tally (load t k w) ths

/-! ### Topics -/

/-- A slot under the loads `work` of the threads. -/
structure SlotOk (alive : Bool) (sl : SubscriberSlot) (work : ZcWork → Nat) : Prop where
  receivers : sl.receivers = work .receiving
  backlog : sl.backlog = sl.queue.length + work .unsettled ∨ 0 < work .draining
  /-- Nothing is left in the queue of a slot without a subscriber. -/
  drained : sl.id = invalidSubscriberId ∨ alive = false → sl.queue = [] ∨ 0 < work .draining
  /-- A queue that could not be created is never used. -/
  unused : sl.queueValid = false →
    sl.id = invalidSubscriberId ∧ sl.queue = [] ∧ sl.backlog = 0 ∧ work .unsettled = 0

structure TopicOk (ths : List ZcThread) (t : Nat) (tp : ZeroCopySignal) : Prop where
  underflow : tp.underflow = false
  slot : ∀ (k : Nat) sl, tp.slots[k]? = some sl → SlotOk tp.alive sl (loads ths t k)

def TopicsOk (ths : List ZcThread) (topics : List ZeroCopySignal) : Prop :=
  ∀ (t : Nat) tp, topics[t]? = some tp → TopicOk ths t tp

section Lift

variable {ths : List ZcThread} {topics : List ZeroCopySignal} {tp tp' : ZeroCopySignal}
variable {sl sl' : SubscriberSlot} {th th' : ZcThread} {n t k : Nat}

theorem loads_set (hth : ths[n]? = some th) (w : ZcWork) :
    loads (ths.set n th') t k w + th.load t k w = loads ths t k w + th'.load t k w :=
  tally_set hth

theorem loads_set_eq (hth : ths[n]? = some th) (h : ∀ w, th'.load t k w = th.load t k w) :
    loads (ths.set n th') t k = loads ths t k :=
  funext (fun w => tally_set_eq hth (h w))

theorem loads_append_idle (ret : ZcReturn) : loads (ths ++ [.idle ret]) t k = loads ths t k := by
  funext w
  simp [loads]

/-- A thread changes its place, no topic changes. -/
theorem TopicsOk.thread (h : TopicsOk ths topics) (hth : ths[n]? = some th)
    (hload : ∀ t k w, th'.load t k w = th.load t k w) : TopicsOk (ths.set n th') topics := by
  intro t tp htp
  refine ⟨(h t tp htp).underflow, ?_⟩
  intro k sl hsl
  rw [loads_set_eq hth (hload t k)]
  exact (h t tp htp).slot k sl hsl

/-- A thread changes its place in topic `t` only, no topic changes. -/
theorem TopicsOk.thread_at (h : TopicsOk ths topics) (hth : ths[n]? = some th)
    (htp : topics[t]? = some tp)
    (hload : ∀ t', t' ≠ t → ∀ k w, th'.load t' k w = th.load t' k w)
    (hslot : ∀ k sl, tp.slots[k]? = some sl → SlotOk tp.alive sl (loads (ths.set n th') t k)) :
    TopicsOk (ths.set n th') topics := by
  intro t' q hq
  refine ⟨(h t' q hq).underflow, ?_⟩
  intro k sl hsl
  by_cases ht : t' = t
  · subst ht
    obtain rfl : tp = q := Option.some.inj (htp.symm.trans hq)
    exact hslot k sl hsl
  · rw [loads_set_eq hth (hload t' ht k)]
    exact (h t' q hq).slot k sl hsl

/-- A thread changes its place and a topic. -/
theorem TopicsOk.topic (h : TopicsOk ths topics) (hth : ths[n]? = some th)
    (hload : ∀ t', t' ≠ t → ∀ k w, th'.load t' k w = th.load t' k w)
    (hnew : TopicOk (ths.set n th') t tp') : TopicsOk (ths.set n th') (topics.set t tp') := by
  intro t' q hq
  rcases getElem?_set_cases hq with ⟨rfl, rfl⟩ | ⟨ht, hq⟩
  · exact hnew
  · refine ⟨(h t' q hq).underflow, ?_⟩
    intro k sl hsl
    rw [loads_set_eq hth (hload t' ht k)]
    exact (h t' q hq).slot k sl hsl

/-- A thread changes its place and a topic, but nothing that concerns slots. -/
theorem TopicsOk.frame (h : TopicsOk ths topics) (hth : ths[n]? = some th)
    (htp : topics[t]? = some tp) (hload : ∀ t k w, th'.load t k w = th.load t k w)
    (halive : tp'.alive = tp.alive) (hslots : tp'.slots = tp.slots)
    (hunder : tp'.underflow = tp.underflow) :
    TopicsOk (ths.set n th') (topics.set t tp') := by
  refine h.topic hth (fun t' _ => hload t') ⟨hunder.trans (h t tp htp).underflow, ?_⟩
  intro k sl hsl
  rw [loads_set_eq hth (hload t k), halive]
  rw [hslots] at hsl
  exact (h t tp htp).slot k sl hsl

/-- A thread changes its place and slot `k` of topic `t`. -/
theorem TopicsOk.slot (h : TopicsOk ths topics) (hth : ths[n]? = some th)
    (htp : topics[t]? = some tp)
    (hload : ∀ t' k', t' ≠ t ∨ k' ≠ k → ∀ w, th'.load t' k' w = th.load t' k' w)
    (halive : tp'.alive = tp.alive) (hslots : tp'.slots = tp.slots.set k sl')
    (hunder : tp'.underflow = false)
    (hslot : ∀ work, (∀ w, work w + th.load t k w = loads ths t k w + th'.load t k w) →
      SlotOk tp.alive sl' work) :
    TopicsOk (ths.set n th') (topics.set t tp') := by
  refine h.topic hth (fun t' ht k' => hload t' k' (.inl ht)) ⟨hunder, ?_⟩
  intro k' q hq
  rw [hslots] at hq
  rw [halive]
  rcases getElem?_set_cases hq with ⟨rfl, rfl⟩ | ⟨hk, hq⟩
  · exact hslot _ (loads_set hth)
  · rw [loads_set_eq hth (hload t k' (.inr hk))]
    exact (h t tp htp).slot k' q hq

end Lift

/-! ### Threads -/

/-- What the place of thread `n` implies about the topic it is in. -/
def ZcThread.Ok (n : Nat) (tp : ZeroCopySignal) : ZcThread → Prop
  | .idle _ => True
  | .copyAssign _ _ => True
  | .drain _ k .unsubscribe => tp.alive = true ∧ tp.mutex = some n ∧
      ∀ sl, tp.slots[k]? = some sl → sl.id = invalidSubscriberId ∧ sl.receivers = 0
  | .drained _ k .unsubscribe _ => tp.alive = true ∧ tp.mutex = some n ∧
      ∀ sl, tp.slots[k]? = some sl → sl.id = invalidSubscriberId ∧ sl.receivers = 0
  | .drain _ _ .destructor => tp.alive = false
  | .drained _ _ .destructor _ => tp.alive = false
  | .destroy _ _ => tp.alive = false
  | .publish _ _ => tp.alive = true ∧ tp.mutex = some n
  | .send _ k => tp.alive = true ∧ tp.mutex = some n ∧
      ∀ sl, tp.slots[k]? = some sl → sl.id ≠ invalidSubscriberId
  | .reject _ _ => tp.alive = true ∧ tp.mutex = some n
  | .finish _ => tp.alive = true ∧ tp.mutex = some n
  | .unlock _ _ => tp.alive = true ∧ tp.mutex = some n
  | .receive _ _ _ => tp.alive = true
  | .settle _ _ _ _ => tp.alive = true
  | .build _ _ _ => tp.alive = true

def ThreadsOk (ths : List ZcThread) (topics : List ZeroCopySignal) : Prop :=
  ∀ (n : Nat) (th : ZcThread) (t : Nat), ths[n]? = some th → th.topic = some t →
    ∃ tp, topics[t]? = some tp ∧ th.Ok n tp

theorem ThreadsOk.ok {ths : List ZcThread} {topics : List ZeroCopySignal} {n t : Nat}
    {th : ZcThread} {tp : ZeroCopySignal} (h : ThreadsOk ths topics) (hth : ths[n]? = some th)
    (ht : th.topic = some t) (htp : topics[t]? = some tp) : th.Ok n tp := by
  obtain ⟨tp', htp', hok⟩ := h n th t hth ht
  obtain rfl : tp = tp' := Option.some.inj (htp.symm.trans htp')
  exact hok

/-- A change of a topic that thread `n` does not notice. -/
structure ZeroCopySignal.Respects (n : Nat) (tp tp' : ZeroCopySignal) : Prop where
  alive : tp'.alive = tp.alive
  mutex : tp.mutex = some n → tp'.mutex = some n
  slots : tp.mutex = some n → ∀ (k : Nat) sl', tp'.slots[k]? = some sl' →
    ∃ sl, tp.slots[k]? = some sl ∧ sl'.id = sl.id ∧ sl'.receivers = sl.receivers

theorem ZcThread.Ok.respects {n : Nat} {tp tp' : ZeroCopySignal} {th : ZcThread} (h : th.Ok n tp)
    (hr : tp.Respects n tp') : th.Ok n tp' := by
  have hslots : tp.mutex = some n → ∀ {k : Nat},
      (∀ sl, tp.slots[k]? = some sl → sl.id = invalidSubscriberId ∧ sl.receivers = 0) →
      ∀ sl, tp'.slots[k]? = some sl → sl.id = invalidSubscriberId ∧ sl.receivers = 0 := by
    intro hm k hk sl' hsl'
    obtain ⟨sl, hsl, hid, hrec⟩ := hr.slots hm k sl' hsl'
    rw [hid, hrec]
    exact hk sl hsl
  cases th with
  | idle => trivial
  | copyAssign => trivial
  | drain t k caller =>
      cases caller with
      | unsubscribe => exact ⟨hr.alive.trans h.1, hr.mutex h.2.1, hslots h.2.1 h.2.2⟩
      | destructor => exact hr.alive.trans h
  | drained t k caller index =>
      cases caller with
      | unsubscribe => exact ⟨hr.alive.trans h.1, hr.mutex h.2.1, hslots h.2.1 h.2.2⟩
      | destructor => exact hr.alive.trans h
  | destroy => exact hr.alive.trans h
  | send c k =>
      refine ⟨hr.alive.trans h.1, hr.mutex h.2.1, ?_⟩
      intro sl' hsl'
      obtain ⟨sl, hsl, hid, -⟩ := hr.slots h.2.1 k sl' hsl'
      rw [hid]
      exact h.2.2 sl hsl
  | publish => exact ⟨hr.alive.trans h.1, hr.mutex h.2⟩
  | reject => exact ⟨hr.alive.trans h.1, hr.mutex h.2⟩
  | finish => exact ⟨hr.alive.trans h.1, hr.mutex h.2⟩
  | unlock => exact ⟨hr.alive.trans h.1, hr.mutex h.2⟩
  | receive => exact hr.alive.trans h
  | settle => exact hr.alive.trans h
  | build => exact hr.alive.trans h

section Lift

variable {ths : List ZcThread} {topics : List ZeroCopySignal} {tp tp' : ZeroCopySignal}
variable {th th' : ZcThread} {n t : Nat}

/-- A thread changes its place, no topic changes. -/
theorem ThreadsOk.thread (h : ThreadsOk ths topics)
    (hown : ∀ t, th'.topic = some t → ∃ tp, topics[t]? = some tp ∧ th'.Ok n tp) :
    ThreadsOk (ths.set n th') topics := by
  intro m th t hm ht
  rcases getElem?_set_cases hm with ⟨rfl, rfl⟩ | ⟨-, hm⟩
  · exact hown t ht
  · exact h m th t hm ht

/-- A thread changes its place and a topic. -/
theorem ThreadsOk.update (h : ThreadsOk ths topics) (htp : topics[t]? = some tp)
    (hresp : ∀ m th, m ≠ n → ths[m]? = some th → th.topic = some t → th.Ok m tp → th.Ok m tp')
    (hsame : ∀ t', th'.topic = some t' → t' = t) (hown : th'.Ok n tp') :
    ThreadsOk (ths.set n th') (topics.set t tp') := by
  obtain ⟨hlt, -⟩ := List.getElem?_eq_some_iff.mp htp
  have hnew : (topics.set t tp')[t]? = some tp' := List.getElem?_set_self hlt
  intro m thm t' hm ht
  rcases getElem?_set_cases hm with ⟨rfl, rfl⟩ | ⟨hmn, hm⟩
  · obtain rfl := hsame t' ht
    exact ⟨tp', hnew, hown⟩
  · by_cases htt : t' = t
    · subst htt
      exact ⟨tp', hnew, hresp m thm hmn hm ht (h.ok hm ht htp)⟩
    · obtain ⟨q, hq, hok⟩ := h m thm t' hm ht
      exact ⟨q, (List.getElem?_set_ne (Ne.symm htt)).trans hq, hok⟩

/-- Under the mutex a thread changes what it likes, the destructor apart. -/
theorem ZeroCopySignal.Respects.locked {m : Nat} (hmn : m ≠ n)
    (hmutex : tp.mutex = none ∨ tp.mutex = some n) (halive : tp'.alive = tp.alive) :
    tp.Respects m tp' := by
  have hno : tp.mutex ≠ some m := by
    rintro hm
    rcases hmutex with h | h <;> rw [h] at hm
    · cases hm
    · exact hmn (Option.some.inj hm).symm
  exact ⟨halive, fun hm => absurd hm hno, fun hm => absurd hm hno⟩

/-- Without the mutex a thread changes the queue and the backlog of a slot. -/
theorem ZeroCopySignal.Respects.setSlot {m k : Nat} {sl sl' : SubscriberSlot}
    (hsl : tp.slots[k]? = some sl) (hid : sl'.id = sl.id) (hrec : sl'.receivers = sl.receivers) :
    tp.Respects m (tp.setSlot k sl') := by
  refine ⟨rfl, id, ?_⟩
  intro _ k' q hq
  rcases getElem?_set_cases hq with ⟨rfl, rfl⟩ | ⟨-, hq⟩
  · exact ⟨sl, hsl, hid, hrec⟩
  · exact ⟨q, hq, rfl, rfl⟩

end Lift

/-! ### What excludes what -/

section Exclusion

variable {ths : List ZcThread} {topics : List ZeroCopySignal} {tp : ZeroCopySignal}
variable {sl : SubscriberSlot} {t k : Nat}

/-- A thread that will drain a slot of a topic that is not being destroyed holds
the topic's mutex, and nobody subscribes to the slot or is receiving from it. -/
theorem ThreadsOk.draining (h : ThreadsOk ths topics) (htp : topics[t]? = some tp)
    (halive : tp.alive = true) (hpos : 0 < loads ths t k .draining) :
    (∃ n, tp.mutex = some n) ∧
      ∀ sl, tp.slots[k]? = some sl → sl.id = invalidSubscriberId ∧ sl.receivers = 0 := by
  obtain ⟨n, th, hn, hload⟩ := tally_pos_iff.mp hpos
  have hdoes : th.does t k .draining = true := by
    by_contra hno
    rw [load, if_neg hno] at hload
    omega
  cases th with
  | drain t' k' caller =>
      cases caller with
      | unsubscribe =>
          simp only [does, decide_eq_true_eq] at hdoes
          obtain ⟨rfl, rfl⟩ := hdoes
          obtain ⟨-, hm, hsl⟩ := h.ok hn rfl htp
          exact ⟨⟨n, hm⟩, hsl⟩
      | destructor =>
          simp only [does, decide_eq_true_eq] at hdoes
          obtain ⟨rfl, -⟩ := hdoes
          have : tp.alive = false := h.ok hn rfl htp
          rw [halive] at this
          cases this
  | drained t' k' caller index =>
      cases caller with
      | unsubscribe =>
          simp only [does, decide_eq_true_eq] at hdoes
          obtain ⟨rfl, rfl⟩ := hdoes
          obtain ⟨-, hm, hsl⟩ := h.ok hn rfl htp
          exact ⟨⟨n, hm⟩, hsl⟩
      | destructor =>
          simp only [does, decide_eq_true_eq] at hdoes
          obtain ⟨rfl, -⟩ := hdoes
          have : tp.alive = false := h.ok hn rfl htp
          rw [halive] at this
          cases this
  | destroy t' k' =>
      simp only [does, decide_eq_true_eq] at hdoes
      obtain ⟨rfl, -⟩ := hdoes
      have : tp.alive = false := h.ok hn rfl htp
      rw [halive] at this
      cases this
  | _ => simp [does] at hdoes

/-- Nobody receives from a topic that is being destroyed. -/
theorem ThreadsOk.not_receiving (h : ThreadsOk ths topics) (htp : topics[t]? = some tp)
    (halive : tp.alive = false) : loads ths t k .receiving = 0 := by
  refine tally_eq_zero ?_
  intro n th hn
  rw [load, if_neg]
  intro hdoes
  have : tp.alive = true := by
    cases th with
    | receive t' k' out =>
        simp only [does, decide_eq_true_eq] at hdoes
        obtain ⟨rfl, -⟩ := hdoes
        exact h.ok hn rfl htp
    | settle t' k' out got =>
        simp only [does, decide_eq_true_eq] at hdoes
        obtain ⟨rfl, -⟩ := hdoes
        exact h.ok hn rfl htp
    | _ => simp [does] at hdoes
  rw [halive] at this
  cases this

/-- Who has an index to count out is still counted in. -/
theorem unsettled_le_receiving : loads ths t k .unsettled ≤ loads ths t k .receiving := by
  refine tally_le ?_
  intro th
  cases th with
  | settle t' k' out got =>
      cases got with
      | none => simp [load, does]
      | some index => simp [load, does]
  | _ => simp [load, does]

end Exclusion

/-! ### The loans being published -/

/-- A running `publish_zero_copy` has a live producer loan of its own. -/
structure LoansOk (loans : List Loan) (ths : List ZcThread) : Prop where
  held : ∀ (n : Nat) (th : ZcThread) c, ths[n]? = some th → th.publishing = some c →
    loans[c.loan]? = some ⟨.producer, some c.index⟩
  apart : ∀ (n m : Nat) (th th' : ZcThread) c c', ths[n]? = some th → ths[m]? = some th' →
    th.publishing = some c → th'.publishing = some c' → c.loan = c'.loan → n = m

namespace LoansOk

variable {loans loans' : List Loan} {ths : List ZcThread} {th th' : ZcThread} {n : Nat}

/-- The thread changes its place, at most going on with the call it is in. -/
theorem thread (h : LoansOk loans ths) (hth : ths[n]? = some th)
    (hpub : ∀ c', th'.publishing = some c' →
      ∃ c, th.publishing = some c ∧ c'.loan = c.loan ∧ c'.index = c.index) :
    LoansOk loans (ths.set n th') := by
  constructor
  · intro m thm c hm hc
    rcases getElem?_set_cases hm with ⟨rfl, rfl⟩ | ⟨-, hm⟩
    · obtain ⟨c₀, hc₀, hloan, hindex⟩ := hpub c hc
      rw [hloan, hindex]
      exact h.held m th c₀ hth hc₀
    · exact h.held m thm c hm hc
  · intro m₁ m₂ th₁ th₂ c₁ c₂ h₁ h₂ hc₁ hc₂ heq
    rcases getElem?_set_cases h₁ with ⟨rfl, rfl⟩ | ⟨-, g₁⟩ <;>
      rcases getElem?_set_cases h₂ with ⟨rfl, rfl⟩ | ⟨-, g₂⟩
    · rfl
    · obtain ⟨c₀, hc₀, hloan, -⟩ := hpub c₁ hc₁
      exact h.apart _ _ th th₂ c₀ c₂ hth g₂ hc₀ hc₂ (hloan.symm.trans heq)
    · obtain ⟨c₀, hc₀, hloan, -⟩ := hpub c₂ hc₂
      exact h.apart _ _ th₁ th c₁ c₀ g₁ hth hc₁ hc₀ (heq.trans hloan)
    · exact h.apart _ _ th₁ th₂ c₁ c₂ g₁ g₂ hc₁ hc₂ heq

/-- The thread starts to publish a loan that no other thread publishes. -/
theorem start {c : ZcPublish} (h : LoansOk loans ths)
    (hc : th'.publishing = some c) (hloan : loans[c.loan]? = some ⟨.producer, some c.index⟩)
    (hfree : ∀ (m : Nat) (thm : ZcThread) c', ths[m]? = some thm → thm.publishing = some c' →
      c'.loan ≠ c.loan) :
    LoansOk loans (ths.set n th') := by
  constructor
  · intro m thm c' hm hc'
    rcases getElem?_set_cases hm with ⟨rfl, rfl⟩ | ⟨-, hm⟩
    · obtain rfl : c = c' := Option.some.inj (hc.symm.trans hc')
      exact hloan
    · exact h.held m thm c' hm hc'
  · intro m₁ m₂ th₁ th₂ c₁ c₂ h₁ h₂ hc₁ hc₂ heq
    rcases getElem?_set_cases h₁ with ⟨rfl, rfl⟩ | ⟨-, g₁⟩ <;>
      rcases getElem?_set_cases h₂ with ⟨rfl, rfl⟩ | ⟨-, g₂⟩
    · rfl
    · obtain rfl : c = c₁ := Option.some.inj (hc.symm.trans hc₁)
      exact absurd heq.symm (hfree _ th₂ c₂ g₂ hc₂)
    · obtain rfl : c = c₂ := Option.some.inj (hc.symm.trans hc₂)
      exact absurd heq (hfree _ th₁ c₁ g₁ hc₁)
    · exact h.apart _ _ th₁ th₂ c₁ c₂ g₁ g₂ hc₁ hc₂ heq

/-- Loan objects change, none of them one that is being published. -/
theorem objects (h : LoansOk loans ths)
    (hsame : ∀ (m : Nat) (thm : ZcThread) c, ths[m]? = some thm → thm.publishing = some c →
      loans[c.loan]? = some ⟨.producer, some c.index⟩ → loans'[c.loan]? = loans[c.loan]?) :
    LoansOk loans' ths := by
  refine ⟨?_, h.apart⟩
  intro m thm c hm hc
  have hheld := h.held m thm c hm hc
  exact (hsame m thm c hm hc hheld).trans hheld

end LoansOk

end MicrOsal
