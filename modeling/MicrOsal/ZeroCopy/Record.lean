import MicrOsal.ZeroCopy.Exclusive

/-!
# MicrOsal.ZeroCopy.Record

Reading the record of a run.

The first part gives the questions the record answers: which ids a topic has given
out, what a subscriber's queue has accepted and what has been received from it, how
far a thread is in `receive_loan`. The second part says what a step does to the
answers: `ZcGoes` follows the one thread that moves, `ZcTurn` the one topic that
changes, each with a handful of cases instead of one for every kind of step.
-/

namespace MicrOsal

/-! ### Questions to the record -/

namespace ZcEvent

/-- The id that topic `t` gives out. -/
def issue (t : Nat) : ZcEvent → Option Nat
  | .subscribed t' id => if t' = t then some id else none
  | _ => none

/-- The index that the queue of subscriber `id` of topic `t` accepts. -/
def acceptance (t id : Nat) : ZcEvent → Option Nat
  | .accepted _ t' id' index => if t' = t ∧ id' = id then some index else none
  | _ => none

/-- The index that is received for subscriber `id` of topic `t`. -/
def receipt (t id : Nat) : ZcEvent → Option Nat
  | .received _ t' id' index => if t' = t ∧ id' = id then some index else none
  | _ => none

/-- The index that thread `n` receives. -/
def receiptBy (n : Nat) : ZcEvent → Option Nat
  | .received n' _ _ index => if n' = n then some index else none
  | _ => none

/-- The index of the read loan that thread `n` stores. -/
def loanBy (n : Nat) : ZcEvent → Option Nat
  | .loaned n' index => if n' = n then some index else none
  | _ => none

/-- The event belongs to the subscription `id` of topic `t`. -/
def about (t id : Nat) : ZcEvent → Bool
  | .subscribed t' id' => t' = t ∧ id' = id
  | .unsubscribed t' id' => t' = t ∧ id' = id
  | .accepted _ t' id' _ => t' = t ∧ id' = id
  | .received _ t' id' _ => t' = t ∧ id' = id
  | _ => false

/-- The event is an acceptance or a receipt. -/
def isTraffic : ZcEvent → Bool
  | .accepted _ _ _ _ => true
  | .received _ _ _ _ => true
  | _ => false

/-- How the event changes which `receive_loan` thread `n` is in, if any: the topic
and the id, between the two locked regions of the call. -/
def moveCall (n : Nat) (call : Option (Nat × Nat)) : ZcEvent → Option (Nat × Nat)
  | .entered n' t id => if n' = n then some (t, id) else call
  | .left n' _ _ => if n' = n then none else call
  | _ => call

/-- How the event changes the number of acceptances in the current publication of
thread `n`. -/
def countAcceptance (n acceptances : Nat) : ZcEvent → Nat
  | .publishes n' _ => if n' = n then 0 else acceptances
  | .accepted n' _ _ _ => if n' = n then acceptances + 1 else acceptances
  | _ => acceptances

/-- The event begins a publication on topic `t`. -/
def begins (t : Nat) : ZcEvent → Bool
  | .publishes _ t' => t' = t
  | _ => false

end ZcEvent

/-- The ids that topic `t` has given out. -/
def issuedIds (t : Nat) (log : List ZcEvent) : List Nat := log.filterMap (ZcEvent.issue t)

/-- What the queue of subscriber `id` of topic `t` has accepted. -/
def acceptedFor (t id : Nat) (log : List ZcEvent) : List Nat :=
  log.filterMap (ZcEvent.acceptance t id)

/-- What has been received for subscriber `id` of topic `t`. -/
def receivedFor (t id : Nat) (log : List ZcEvent) : List Nat :=
  log.filterMap (ZcEvent.receipt t id)

/-- What thread `n` has received. -/
def receivedBy (n : Nat) (log : List ZcEvent) : List Nat := log.filterMap (ZcEvent.receiptBy n)

/-- The indices of the read loans that thread `n` has stored. -/
def loanedBy (n : Nat) (log : List ZcEvent) : List Nat := log.filterMap (ZcEvent.loanBy n)

/-- Everything that has happened to subscriber `id` of topic `t`. -/
def history (t id : Nat) (log : List ZcEvent) : List ZcEvent := log.filter (ZcEvent.about t id)

/-- The `receive_loan` that thread `n` is in, between its two locked regions. -/
def openCall (n : Nat) (log : List ZcEvent) : Option (Nat × Nat) :=
  log.foldl (ZcEvent.moveCall n) none

/-- The acceptances in the current, or latest, publication of thread `n`. -/
def acceptances (n : Nat) (log : List ZcEvent) : Nat := log.foldl (ZcEvent.countAcceptance n) 0

/-- The publications that have begun on topic `t`. -/
def publications (t : Nat) (log : List ZcEvent) : Nat := log.countP (ZcEvent.begins t)

/-- For every index accepted for the subscriber, the number of its publication, when
`begun` publications had begun before the record. -/
def numbersFrom (t id begun : Nat) : List ZcEvent → List Nat
  | [] => []
  | e :: rest =>
      ((e.acceptance t id).map (fun _ => begun)).toList ++
        numbersFrom t id (begun + publications t [e]) rest

/-- For every index accepted for the subscriber, the number of its publication. -/
def acceptedNumbers (t id : Nat) (log : List ZcEvent) : List Nat := numbersFrom t id 0 log

section Concat

variable {t id n : Nat} {log : List ZcEvent} {e : ZcEvent}

theorem issuedIds_concat :
    issuedIds t (log ++ [e]) = issuedIds t log ++ (e.issue t).toList := by
  rw [issuedIds, List.filterMap_append]
  cases h : e.issue t <;> simp [issuedIds, h]

theorem acceptedFor_concat :
    acceptedFor t id (log ++ [e]) = acceptedFor t id log ++ (e.acceptance t id).toList := by
  rw [acceptedFor, List.filterMap_append]
  cases h : e.acceptance t id <;> simp [acceptedFor, h]

theorem receivedFor_concat :
    receivedFor t id (log ++ [e]) = receivedFor t id log ++ (e.receipt t id).toList := by
  rw [receivedFor, List.filterMap_append]
  cases h : e.receipt t id <;> simp [receivedFor, h]

theorem receivedBy_concat :
    receivedBy n (log ++ [e]) = receivedBy n log ++ (e.receiptBy n).toList := by
  rw [receivedBy, List.filterMap_append]
  cases h : e.receiptBy n <;> simp [receivedBy, h]

theorem loanedBy_concat :
    loanedBy n (log ++ [e]) = loanedBy n log ++ (e.loanBy n).toList := by
  rw [loanedBy, List.filterMap_append]
  cases h : e.loanBy n <;> simp [loanedBy, h]

theorem history_concat :
    history t id (log ++ [e]) = history t id log ++ if e.about t id then [e] else [] := by
  rw [history, List.filter_append]
  cases h : e.about t id <;> simp [history, h]

theorem openCall_concat : openCall n (log ++ [e]) = e.moveCall n (openCall n log) := by
  simp [openCall]

theorem acceptances_concat :
    acceptances n (log ++ [e]) = e.countAcceptance n (acceptances n log) := by
  simp [acceptances]

theorem publications_concat :
    publications t (log ++ [e]) = publications t log + publications t [e] :=
  List.countP_append

theorem numbersFrom_concat (begun : Nat) : numbersFrom t id begun (log ++ [e]) =
    numbersFrom t id begun log ++
      ((e.acceptance t id).map (fun _ => begun + publications t log)).toList := by
  induction log generalizing begun with
  | nil => simp [numbersFrom, publications]
  | cons x rest ih =>
      have hcount : publications t (x :: rest) = publications t [x] + publications t rest :=
        @List.countP_append _ _ [x] rest
      rw [List.cons_append, numbersFrom, ih, numbersFrom, List.append_assoc, hcount, Nat.add_assoc]

theorem acceptedNumbers_concat : acceptedNumbers t id (log ++ [e]) =
    acceptedNumbers t id log ++
      ((e.acceptance t id).map (fun _ => publications t log)).toList := by
  rw [acceptedNumbers, numbersFrom_concat, Nat.zero_add]
  rfl

end Concat

/-! ### The thread that moves -/

namespace ZcThread

/-- What a `receive_loan` has received and not yet stored as a loan. -/
def taken : ZcThread → Option Nat
  | .settle _ _ _ got => got
  | .build _ _ index => some index
  | _ => none

/-- The slot of a `receive_loan` between its two locked regions. -/
def receiving : ZcThread → Option (Nat × Nat)
  | .receive t k _ => some (t, k)
  | .settle t k _ _ => some (t, k)
  | _ => none

/-- The topic of a running `publish_zero_copy` and the first slot it has not decided
about. -/
def ahead : ZcThread → Option (Nat × Nat)
  | .publish c k => some (c.topic, k)
  | .send c k => some (c.topic, k)
  | .reject c k => some (c.topic, k)
  | _ => none

/-- Neither in `receive_loan` nor in the loop of `publish_zero_copy`. -/
structure Plain (th : ZcThread) : Prop where
  taken : th.taken = none
  receiving : th.receiving = none
  publishing : th.publishing = none

end ZcThread

/-- What the thread `n` that takes a step does, with what the step shows. -/
inductive ZcGoes (s : ZcState) (n : Nat) : ZcThread → List ZcEvent → ZcThread → Prop
  | rests {th th' : ZcThread} : th.Plain → th'.Plain → ZcGoes s n th [] th'
  | subscribes {th th' : ZcThread} {t id : Nat} : th.Plain → th'.Plain →
      ZcGoes s n th [.subscribed t id] th'
  | unsubscribes {th th' : ZcThread} {t id : Nat} : th.Plain → th'.Plain →
      ZcGoes s n th [.unsubscribed t id] th'
  | begins {th : ZcThread} {c : ZcPublish} {t : Nat} : th.Plain → c.accepted = 0 →
      c.topic = t → ZcGoes s n th [.publishes n t] (.publish c 0)
  | continues {th th' : ZcThread} {c c' : ZcPublish} : th.publishing = some c →
      th'.publishing = some c' → c'.accepted = c.accepted →
      (∀ t k', th'.ahead = some (t, k') → ∃ k, th.ahead = some (t, k) ∧ k ≤ k') →
      ZcGoes s n th [] th'
  | accepts {c : ZcPublish} {k : Nat} :
      ZcGoes s n (.send c k) [.accepted n c.topic (s.slotId c.topic k) c.index]
        (.publish { c with accepted := c.accepted + 1 } (k + 1))
  | stops {th th' : ZcThread} {c : ZcPublish} : th.publishing = some c → th'.Plain →
      ZcGoes s n th [] th'
  | enters {th : ZcThread} {t k out : Nat} : th.Plain → s.slotId t k ≠ invalidSubscriberId →
      ZcGoes s n th [.entered n t (s.slotId t k)] (.receive t k out)
  | pops {t k out id index : Nat} :
      ZcGoes s n (.receive t k out) [.received n t id index] (.settle t k out (some index))
  | givesUp {t k out : Nat} : ZcGoes s n (.receive t k out) [] (.settle t k out none)
  | leaves {t k out id : Nat} {got : Option Nat} {th' : ZcThread} : th'.taken = got →
      th'.receiving = none → th'.publishing = none →
      ZcGoes s n (.settle t k out got) [.left n t id] th'
  | stores {t out index : Nat} {th' : ZcThread} : th'.Plain →
      ZcGoes s n (.build t out index) [.loaned n index] th'

/-- Thread `n`; one that does not exist yet is idle. -/
def ZcState.thread (s : ZcState) (n : Nat) : ZcThread := (s.threads[n]?).getD (.idle .void)

/-- One thread moves, the others stay where they are. -/
def ZcMoves (s : ZcState) (evs : List ZcEvent) (s' : ZcState) : Prop :=
  ∃ n, (∀ m, m ≠ n → s'.thread m = s.thread m) ∧ ZcGoes s n (s.thread n) evs (s'.thread n)

section Goes

variable {s s' : ZcState} {a : ZcAction} {evs : List ZcEvent} {n t k : Nat} {th th' : ZcThread}
variable {c : ZcPublish}

open ZcThread (Plain)

theorem plain_idle (ret : ZcReturn) : (ZcThread.idle ret).Plain := ⟨rfl, rfl, rfl⟩

theorem plain_unlock (ret : ZcReturn) : (ZcThread.unlock t ret).Plain := ⟨rfl, rfl, rfl⟩

theorem plain_drain (caller : ZcDrain) : (ZcThread.drain t k caller).Plain := ⟨rfl, rfl, rfl⟩

theorem plain_drained (caller : ZcDrain) (index : Nat) :
    (ZcThread.drained t k caller index).Plain := ⟨rfl, rfl, rfl⟩

theorem plain_destroy : (ZcThread.destroy t k).Plain := ⟨rfl, rfl, rfl⟩

theorem plain_copyAssign (dst index : Nat) : (ZcThread.copyAssign dst index).Plain :=
  ⟨rfl, rfl, rfl⟩

theorem plain_drainReturn (caller : ZcDrain) : (ZcState.drainReturn t k caller).Plain := by
  cases caller <;> exact ⟨rfl, rfl, rfl⟩

theorem taken_of_publishing (h : th.publishing = some c) : th.taken = none := by
  cases th <;> first | rfl | cases h

theorem receiving_of_publishing (h : th.publishing = some c) : th.receiving = none := by
  cases th <;> first | rfl | cases h

theorem ahead_next {k' : Nat} (h : th.ahead = some (t, k)) (h' : th'.ahead = some (t, k'))
    (hle : k ≤ k') (t' j' : Nat) (hj : th'.ahead = some (t', j')) :
    ∃ j, th.ahead = some (t', j) ∧ j ≤ j' := by
  cases h'.symm.trans hj
  exact ⟨k, h, hle⟩

theorem thread_eq (hth : s.threads[n]? = some th) : s.thread n = th := by
  rw [ZcState.thread, hth, Option.getD_some]

theorem ZcMoves.of_set (hth : s.threads[n]? = some th) (hths : s'.threads = s.threads.set n th')
    (hgoes : ZcGoes s n th evs th') :
    ZcMoves s evs s' := by
  refine ⟨n, ?_, ?_⟩
  · intro m hmn
    rw [ZcState.thread, hths, List.getElem?_set_ne (Ne.symm hmn)]
    rfl
  · rw [thread_eq hth, thread_eq (hths ▸ getElem?_set_thread hth)]
    exact hgoes

/-- A step that no thread takes. -/
theorem ZcMoves.of_same (hths : s'.threads = s.threads) : ZcMoves s [] s' := by
  have hsame : ∀ m, s'.thread m = s.thread m := fun m => by rw [ZcState.thread, hths]; rfl
  have hnone : s.thread s.threads.length = .idle .void := by
    rw [ZcState.thread, List.getElem?_eq_none (le_refl _)]
    rfl
  refine ⟨s.threads.length, fun m _ => hsame m, ?_⟩
  rw [hsame, hnone]
  exact .rests (plain_idle _) (plain_idle _)

theorem ZcMoves.of_spawn (hths : s'.threads = s.threads ++ [.idle .void]) :
    ZcMoves s [] s' := by
  refine ⟨s.threads.length, ?_, ?_⟩
  · intro m hm
    rw [ZcState.thread, hths, ZcState.thread]
    rcases Nat.lt_or_ge m s.threads.length with hlt | hge
    · rw [List.getElem?_append_left hlt]
    · rw [List.getElem?_eq_none hge, List.getElem?_eq_none (by simp; omega)]
  · rw [ZcState.thread, List.getElem?_eq_none (le_refl _), ZcState.thread, hths,
      List.getElem?_concat_length]
    exact .rests (plain_idle _) (plain_idle _)

/-- Every step is a move of one thread. -/
theorem ZcStep.moves (hs : ZcStep s a evs s') : ZcMoves s evs s' := by
  cases hs with
  | spawn => exact .of_spawn rfl
  | topic => exact .of_same rfl
  | newLoan => exact .of_same rfl
  | lend => exact .of_same rfl
  | stay => exact .of_same rfl
  | release => exact .of_same rfl
  | move => exact .of_same rfl
  | moveAssign => exact .of_same rfl
  | copy => exact .of_same rfl
  | returns hth => exact .of_set hth rfl (.rests (plain_idle _) (plain_idle _))
  | assignEmpty hth => exact .of_set hth rfl (.rests (plain_idle _) (plain_idle _))
  | assignCopy hth => exact .of_set hth rfl (.rests (plain_idle _) (plain_copyAssign _ _))
  | assigned hth => exact .of_set hth rfl (.rests (plain_copyAssign _ _) (plain_idle _))
  | subscribe hth => exact .of_set hth rfl (.subscribes (plain_idle _) (plain_idle _))
  | unsubscribe hth => exact .of_set hth rfl (.unsubscribes (plain_idle _) (plain_drain _))
  | publish hth => exact .of_set hth rfl (.begins (plain_idle _) rfl rfl)
  | enter hth htp _ _ hsl hid =>
      have hslot := slotId_eq htp hsl
      rw [← hslot] at hid ⊢
      exact .of_set hth rfl (.enters (plain_idle _) hid)
  | destroy hth => exact .of_set hth rfl (.rests (plain_idle _) plain_destroy)
  | destroyed hth => exact .of_set hth rfl (.rests plain_destroy (plain_idle _))
  | destroySlot hth => exact .of_set hth rfl (.rests plain_destroy (plain_drain _))
  | drainSkip hth => exact .of_set hth rfl (.rests (plain_drain _) (plain_drainReturn _))
  | drainPop hth => exact .of_set hth rfl (.rests (plain_drain _) (plain_drained _ _))
  | drainEnd hth => exact .of_set hth rfl (.rests (plain_drain _) (plain_drainReturn _))
  | drained hth => exact .of_set hth rfl (.rests (plain_drained _ _) (plain_drain _))
  | skip hth =>
      exact .of_set hth rfl (.continues rfl rfl rfl (ahead_next rfl rfl (Nat.le_add_right _ 1)))
  | looked hth => exact .of_set hth rfl (.continues rfl rfl rfl nofun)
  | retain hth => exact .of_set hth rfl (.continues rfl rfl rfl (ahead_next rfl rfl (le_refl _)))
  | accept _ hth htp hsl =>
      rw [← slotId_eq htp hsl]
      exact .of_set hth rfl .accepts
  | full hth => exact .of_set hth rfl (.continues rfl rfl rfl (ahead_next rfl rfl (le_refl _)))
  | reject hth =>
      exact .of_set hth rfl (.continues rfl rfl rfl (ahead_next rfl rfl (Nat.le_add_right _ 1)))
  | consumed hth => exact .of_set hth rfl (.stops rfl (plain_unlock _))
  | kept hth => exact .of_set hth rfl (.stops rfl (plain_unlock _))
  | unlock hth => exact .of_set hth rfl (.rests (plain_unlock _) (plain_idle _))
  | pop hth => exact .of_set hth rfl .pops
  | giveUp hth => exact .of_set hth rfl .givesUp
  | settleNone hth => exact .of_set hth rfl (.leaves rfl rfl rfl)
  | settleSome hth => exact .of_set hth rfl (.leaves rfl rfl rfl)
  | built hth => exact .of_set hth rfl (.stores (plain_idle _))

/-- What a thread has in hand, and what it counts, agrees with the record. -/
structure ZcHands (s : ZcState) (log : List ZcEvent) : Prop where
  /-- Every index received is stored as a loan, one after the other. -/
  hands : ∀ n, receivedBy n log = loanedBy n log ++ (s.thread n).taken.toList
  counted : ∀ n c, (s.thread n).publishing = some c → c.accepted = acceptances n log

variable {log : List ZcEvent}

/-- The record of another thread is left alone. -/
theorem ZcGoes.other {m : Nat} (log : List ZcEvent) (hgoes : ZcGoes s n th evs th') (hne : m ≠ n) :
    receivedBy m (log ++ evs) = receivedBy m log ∧ loanedBy m (log ++ evs) = loanedBy m log ∧
      acceptances m (log ++ evs) = acceptances m log ∧
      openCall m (log ++ evs) = openCall m log := by
  have hne' : n ≠ m := Ne.symm hne
  cases hgoes <;> simp [receivedBy_concat, loanedBy_concat, acceptances_concat, openCall_concat,
    ZcEvent.receiptBy, ZcEvent.loanBy, ZcEvent.countAcceptance, ZcEvent.moveCall, hne']

theorem ZcGoes.hands (hgoes : ZcGoes s n th evs th')
    (h : receivedBy n log = loanedBy n log ++ th.taken.toList) :
    receivedBy n (log ++ evs) = loanedBy n (log ++ evs) ++ th'.taken.toList := by
  cases hgoes with
  | rests hp hp' =>
      rw [hp.taken] at h
      rw [hp'.taken, List.append_nil]
      exact h
  | subscribes hp hp' =>
      rw [hp.taken] at h
      rw [hp'.taken, receivedBy_concat, loanedBy_concat, h]
      simp [ZcEvent.receiptBy, ZcEvent.loanBy]
  | unsubscribes hp hp' =>
      rw [hp.taken] at h
      rw [hp'.taken, receivedBy_concat, loanedBy_concat, h]
      simp [ZcEvent.receiptBy, ZcEvent.loanBy]
  | begins hp =>
      rw [hp.taken] at h
      rw [receivedBy_concat, loanedBy_concat, h]
      simp [ZcEvent.receiptBy, ZcEvent.loanBy, ZcThread.taken]
  | continues hc hc' =>
      rw [taken_of_publishing hc] at h
      rw [taken_of_publishing hc', List.append_nil]
      exact h
  | accepts =>
      rw [receivedBy_concat, loanedBy_concat, h]
      simp [ZcEvent.receiptBy, ZcEvent.loanBy, ZcThread.taken]
  | stops hc hp' =>
      rw [taken_of_publishing hc] at h
      rw [hp'.taken, List.append_nil]
      exact h
  | enters hp =>
      rw [hp.taken] at h
      rw [receivedBy_concat, loanedBy_concat, h]
      simp [ZcEvent.receiptBy, ZcEvent.loanBy, ZcThread.taken]
  | pops =>
      rw [receivedBy_concat, loanedBy_concat, h]
      simp [ZcEvent.receiptBy, ZcEvent.loanBy, ZcThread.taken]
  | givesUp =>
      rw [List.append_nil]
      exact h
  | leaves htaken =>
      rw [receivedBy_concat, loanedBy_concat, h, htaken]
      simp [ZcEvent.receiptBy, ZcEvent.loanBy, ZcThread.taken]
  | stores hp' =>
      rw [receivedBy_concat, loanedBy_concat, h, hp'.taken]
      simp [ZcEvent.receiptBy, ZcEvent.loanBy, ZcThread.taken]

theorem ZcGoes.counted (hgoes : ZcGoes s n th evs th')
    (h : ∀ c, th.publishing = some c → c.accepted = acceptances n log)
    (hc : th'.publishing = some c) :
    c.accepted = acceptances n (log ++ evs) := by
  cases hgoes with
  | rests _ hp' => cases hp'.publishing.symm.trans hc
  | subscribes _ hp' => cases hp'.publishing.symm.trans hc
  | unsubscribes _ hp' => cases hp'.publishing.symm.trans hc
  | begins _ hzero =>
      obtain rfl := Option.some.inj hc
      rw [acceptances_concat, hzero, ZcEvent.countAcceptance, if_pos rfl]
  | continues hc₁ hc' hsame =>
      obtain rfl := Option.some.inj (hc'.symm.trans hc)
      rw [List.append_nil, hsame]
      exact h _ hc₁
  | accepts =>
      obtain rfl := Option.some.inj hc
      rw [acceptances_concat, ZcEvent.countAcceptance, if_pos rfl, ← h _ rfl]
  | stops _ hp' => cases hp'.publishing.symm.trans hc
  | enters => cases hc
  | pops => cases hc
  | givesUp => cases hc
  | leaves _ _ hnone => cases hnone.symm.trans hc
  | stores hp' => cases hp'.publishing.symm.trans hc

theorem ZcHands.step (hh : ZcHands s log) (hs : ZcStep s a evs s') : ZcHands s' (log ++ evs) := by
  obtain ⟨n, hothers, hgoes⟩ := hs.moves
  constructor
  · intro m
    by_cases hmn : m = n
    · subst hmn
      exact hgoes.hands (hh.hands m)
    · obtain ⟨hrec, hloan, -, -⟩ := hgoes.other log hmn
      rw [hrec, hloan, hothers m hmn]
      exact hh.hands m
  · intro m c hc
    by_cases hmn : m = n
    · subst hmn
      exact hgoes.counted (hh.counted m) hc
    · obtain ⟨-, -, hcount, -⟩ := hgoes.other log hmn
      rw [hothers m hmn] at hc
      rw [hcount]
      exact hh.counted m c hc

end Goes

/-! ### The topic that changes -/

namespace ZcState

/-- Slot `k` of topic `t`. -/
def slotAt (s : ZcState) (t k : Nat) : Option SubscriberSlot := (s.topics[t]?).bind (·.slots[k]?)

/-- The queue of slot `k` of topic `t`. -/
def slotQueue (s : ZcState) (t k : Nat) : List Nat := ((s.slotAt t k).map (·.queue)).getD []

/-- `next_id_` of topic `t`. -/
def topicNext (s : ZcState) (t : Nat) : Nat := ((s.topics[t]?).map (·.nextId)).getD 0

/-- Topic `t` exists and is not being destroyed. -/
def topicAlive (s : ZcState) (t : Nat) : Bool := (s.topics[t]?).any (·.alive)

/-- The thread that holds the mutex of topic `t`. -/
def topicMutex (s : ZcState) (t : Nat) : Option Nat := (s.topics[t]?).bind (·.mutex)

/-- The queues of subscribers are as they were. Nothing is said of a slot without a
subscriber, nor of a topic that is being destroyed. -/
structure KeepsQueues (s s' : ZcState) (t k : Nat) : Prop where
  keep : s.slotId t k ≠ invalidSubscriberId → s'.topicAlive t = true →
    s.topicAlive t = true ∧ s'.slotQueue t k = s.slotQueue t k

end ZcState

/-- What a step does to the subscribers, with what it shows of them. -/
inductive ZcTurn (s : ZcState) : List ZcEvent → ZcState → Prop
  | same {evs : List ZcEvent} {s' : ZcState} :
      (∀ e ∈ evs, ∀ t id, e.about t id = false ∧ e.begins t = false) →
      (∀ t k, s'.slotId t k = s.slotId t k) → (∀ t, s'.topicNext t = s.topicNext t) →
      (∀ t k, s.KeepsQueues s' t k) → ZcTurn s evs s'
  | publishes {n t : Nat} {s' : ZcState} : s.topicMutex t = none →
      (∀ t k, s'.slotId t k = s.slotId t k) → (∀ t, s'.topicNext t = s.topicNext t) →
      (∀ t k, s.KeepsQueues s' t k) → ZcTurn s [.publishes n t] s'
  | subscribes {t k id : Nat} {s' : ZcState} : s.topicMutex t = none →
      s.slotId t k = invalidSubscriberId → s.topicNext t = id → id ≠ invalidSubscriberId →
      s'.slotId t k = id → s'.slotQueue t k = [] →
      s'.topicNext t = id + 1 → (∀ t', t' ≠ t → s'.topicNext t' = s.topicNext t') →
      (∀ t' k', t' ≠ t ∨ k' ≠ k → s'.slotId t' k' = s.slotId t' k' ∧ s.KeepsQueues s' t' k') →
      ZcTurn s [.subscribed t id] s'
  | unsubscribes {t k id : Nat} {s' : ZcState} : s.topicMutex t = none →
      s.slotId t k = id → id ≠ invalidSubscriberId → s'.slotId t k = invalidSubscriberId →
      (∀ m, (s.thread m).receiving ≠ some (t, k)) → (∀ t', s'.topicNext t' = s.topicNext t') →
      (∀ t' k', t' ≠ t ∨ k' ≠ k → s'.slotId t' k' = s.slotId t' k' ∧ s.KeepsQueues s' t' k') →
      ZcTurn s [.unsubscribed t id] s'
  | accepts {n k id : Nat} {c : ZcPublish} {s' : ZcState} : s.thread n = .send c k →
      s.topicMutex c.topic = some n → s.topicAlive c.topic = true →
      s.slotId c.topic k = id → id ≠ invalidSubscriberId →
      s'.slotQueue c.topic k = s.slotQueue c.topic k ++ [c.index] →
      (∀ t k, s'.slotId t k = s.slotId t k) → (∀ t, s'.topicNext t = s.topicNext t) →
      (∀ t' k', t' ≠ c.topic ∨ k' ≠ k → s.KeepsQueues s' t' k') →
      ZcTurn s [.accepted n c.topic id c.index] s'
  | pops {n t k out id index : Nat} {s' : ZcState} : s.thread n = .receive t k out →
      s.topicAlive t = true → s.slotId t k = id → s.slotQueue t k = index :: s'.slotQueue t k →
      (∀ t k, s'.slotId t k = s.slotId t k) → (∀ t, s'.topicNext t = s.topicNext t) →
      (∀ t' k', t' ≠ t ∨ k' ≠ k → s.KeepsQueues s' t' k') →
      ZcTurn s [.received n t id index] s'

section Turn

variable {s s' : ZcState} {a : ZcAction} {evs : List ZcEvent} {n t k : Nat} {th th' : ZcThread}
variable {tp tp' : ZeroCopySignal} {sl sl' : SubscriberSlot} {c : ZcPublish}

open ZcState

theorem slotId_eq_slotAt (s : ZcState) (t k : Nat) :
    s.slotId t k = ((s.slotAt t k).map (·.id)).getD invalidSubscriberId := rfl

theorem slotAt_eq (htp : s.topics[t]? = some tp) (hsl : tp.slots[k]? = some sl) :
    s.slotAt t k = some sl := by
  rw [slotAt, htp]
  exact hsl

theorem slotQueue_eq (htp : s.topics[t]? = some tp) (hsl : tp.slots[k]? = some sl) :
    s.slotQueue t k = sl.queue := by
  rw [slotQueue, slotAt_eq htp hsl]
  rfl

theorem topicNext_eq (htp : s.topics[t]? = some tp) : s.topicNext t = tp.nextId := by
  rw [topicNext, htp]
  rfl

theorem topicAlive_eq (htp : s.topics[t]? = some tp) : s.topicAlive t = tp.alive := by
  rw [topicAlive, htp]
  rfl

theorem topicMutex_eq (htp : s.topics[t]? = some tp) : s.topicMutex t = tp.mutex := by
  rw [topicMutex, htp]
  rfl

/-- Topic `t` is the one that may differ. -/
theorem topics_cases (htp : s.topics[t]? = some tp) (htopics : s'.topics = s.topics.set t tp')
    (t' : Nat) : (t' = t ∧ s'.topics[t']? = some tp') ∨
      (t' ≠ t ∧ s'.topics[t']? = s.topics[t']?) := by
  rw [htopics]
  by_cases ht : t' = t
  · subst ht
    exact .inl ⟨rfl, List.getElem?_set_self (List.getElem?_eq_some_iff.mp htp).1⟩
  · exact .inr ⟨ht, List.getElem?_set_ne (Ne.symm ht)⟩

theorem topicNext_set_self (htp : s.topics[t]? = some tp)
    (htopics : s'.topics = s.topics.set t tp') : s'.topicNext t = tp'.nextId := by
  refine topicNext_eq ?_
  rw [htopics]
  exact List.getElem?_set_self (List.getElem?_eq_some_iff.mp htp).1

theorem topicNext_set_ne {t' : Nat} (htopics : s'.topics = s.topics.set t tp') (hne : t' ≠ t) :
    s'.topicNext t' = s.topicNext t' := by
  rw [topicNext, htopics, List.getElem?_set_ne (Ne.symm hne), topicNext]

theorem topicNext_set (htp : s.topics[t]? = some tp) (htopics : s'.topics = s.topics.set t tp')
    (hnext : tp'.nextId = tp.nextId) (t' : Nat) : s'.topicNext t' = s.topicNext t' := by
  rcases topics_cases htp htopics t' with ⟨rfl, h⟩ | ⟨-, h⟩
  · rw [topicNext_eq h, topicNext_eq htp, hnext]
  · rw [topicNext, topicNext, h]

theorem topicAlive_set (htp : s.topics[t]? = some tp) (htopics : s'.topics = s.topics.set t tp')
    (halive : tp'.alive = tp.alive) (t' : Nat) : s'.topicAlive t' = s.topicAlive t' := by
  rcases topics_cases htp htopics t' with ⟨rfl, h⟩ | ⟨-, h⟩
  · rw [topicAlive_eq h, topicAlive_eq htp, halive]
  · rw [topicAlive, topicAlive, h]

/-- A slot other than the one that changes. -/
theorem slotAt_set_ne {t' k' : Nat} (htp : s.topics[t]? = some tp)
    (htopics : s'.topics = s.topics.set t tp') (hslots : tp'.slots = tp.slots.set k sl')
    (hne : t' ≠ t ∨ k' ≠ k) : s'.slotAt t' k' = s.slotAt t' k' := by
  rw [slotAt, slotAt]
  rcases topics_cases htp htopics t' with ⟨rfl, h⟩ | ⟨-, h⟩
  · rw [h, htp, Option.bind_some, Option.bind_some, hslots]
    exact List.getElem?_set_ne (Ne.symm (hne.resolve_left (fun h => h rfl)))
  · rw [h]

theorem slotAt_set_self (htp : s.topics[t]? = some tp) (hsl : tp.slots[k]? = some sl)
    (htopics : s'.topics = s.topics.set t tp') (hslots : tp'.slots = tp.slots.set k sl') :
    s'.slotAt t k = some sl' := by
  rcases topics_cases htp htopics t with ⟨-, h⟩ | ⟨hne, -⟩
  · refine slotAt_eq h ?_
    rw [hslots]
    exact List.getElem?_set_self (List.getElem?_eq_some_iff.mp hsl).1
  · exact absurd rfl hne

/-- Slots that look the same. -/
theorem slotId_congr (h : s'.slotAt t k = s.slotAt t k) : s'.slotId t k = s.slotId t k := by
  rw [slotId_eq_slotAt, slotId_eq_slotAt, h]

theorem slotQueue_congr (h : s'.slotAt t k = s.slotAt t k) :
    s'.slotQueue t k = s.slotQueue t k := by
  rw [slotQueue, slotQueue, h]

/-- A slot is replaced by one with the same id. -/
theorem slotId_set_same (htp : s.topics[t]? = some tp) (hsl : tp.slots[k]? = some sl)
    (htopics : s'.topics = s.topics.set t tp') (hslots : tp'.slots = tp.slots.set k sl')
    (hid : sl'.id = sl.id) (t' k' : Nat) : s'.slotId t' k' = s.slotId t' k' := by
  by_cases hne : t' ≠ t ∨ k' ≠ k
  · exact slotId_congr (slotAt_set_ne htp htopics hslots hne)
  · rw [not_or, not_not, not_not] at hne
    obtain ⟨rfl, rfl⟩ := hne
    rw [slotId_eq_slotAt, slotId_eq_slotAt, slotAt_set_self htp hsl htopics hslots,
      slotAt_eq htp hsl]
    exact hid

/-- A slot is replaced, the other slots' queues stay. -/
theorem ZcState.KeepsQueues.of_set_ne {t' k' : Nat} (htp : s.topics[t]? = some tp)
    (htopics : s'.topics = s.topics.set t tp') (hslots : tp'.slots = tp.slots.set k sl')
    (halive : tp'.alive = tp.alive) (hne : t' ≠ t ∨ k' ≠ k) : s.KeepsQueues s' t' k' := by
  refine ⟨fun _ hlive => ⟨?_, slotQueue_congr (slotAt_set_ne htp htopics hslots hne)⟩⟩
  rw [← topicAlive_set htp htopics halive t']
  exact hlive

/-- Topic and slot are replaced, and no subscriber notices. -/
theorem ZcTurn.of_slot (hshow : ∀ e ∈ evs, ∀ t id, e.about t id = false ∧ e.begins t = false)
    (htp : s.topics[t]? = some tp)
    (hsl : tp.slots[k]? = some sl) (htopics : s'.topics = s.topics.set t tp')
    (hslots : tp'.slots = tp.slots.set k sl') (hid : sl'.id = sl.id)
    (hnext : tp'.nextId = tp.nextId) (halive : tp'.alive = tp.alive)
    (hqueue : sl.id ≠ invalidSubscriberId → tp.alive = true → sl'.queue = sl.queue) :
    ZcTurn s evs s' := by
  refine .same hshow (slotId_set_same htp hsl htopics hslots hid)
    (topicNext_set htp htopics hnext) ?_
  intro t' k'
  by_cases hne : t' ≠ t ∨ k' ≠ k
  · exact .of_set_ne htp htopics hslots halive hne
  · rw [not_or, not_not, not_not] at hne
    obtain ⟨rfl, rfl⟩ := hne
    refine ⟨fun hlive halive' => ?_⟩
    rw [topicAlive_set htp htopics halive, topicAlive_eq htp] at halive'
    rw [slotId_eq htp hsl] at hlive
    refine ⟨(topicAlive_eq htp).trans halive', ?_⟩
    rw [slotQueue, slotAt_set_self htp hsl htopics hslots, slotQueue_eq htp hsl]
    exact hqueue hlive halive'

/-- A topic is replaced by one with the same slots. -/
theorem slotAt_topic (htp : s.topics[t]? = some tp) (htopics : s'.topics = s.topics.set t tp')
    (hslots : tp'.slots = tp.slots) (t' k' : Nat) : s'.slotAt t' k' = s.slotAt t' k' := by
  rcases topics_cases htp htopics t' with ⟨rfl, h⟩ | ⟨-, h⟩
  · rw [slotAt, slotAt, h, htp, Option.bind_some, Option.bind_some, hslots]
  · rw [slotAt, slotAt, h]

theorem ZcState.KeepsQueues.of_topic (htp : s.topics[t]? = some tp)
    (htopics : s'.topics = s.topics.set t tp') (hslots : tp'.slots = tp.slots)
    (halive : tp'.alive = true → tp.alive = true) (t' k' : Nat) : s.KeepsQueues s' t' k' := by
  refine ⟨fun _ hlive => ⟨?_, slotQueue_congr (slotAt_topic htp htopics hslots t' k')⟩⟩
  rcases topics_cases htp htopics t' with ⟨rfl, h⟩ | ⟨-, h⟩
  · rw [topicAlive_eq h] at hlive
    exact (topicAlive_eq htp).trans (halive hlive)
  · rw [topicAlive, h] at hlive
    exact hlive

theorem ZcTurn.of_topic (htp : s.topics[t]? = some tp)
    (htopics : s'.topics = s.topics.set t tp') (hslots : tp'.slots = tp.slots)
    (hnext : tp'.nextId = tp.nextId) (halive : tp'.alive = true → tp.alive = true) :
    ZcTurn s [] s' :=
  .same nofun (fun t' k' => slotId_congr (slotAt_topic htp htopics hslots t' k'))
    (topicNext_set htp htopics hnext)
    (KeepsQueues.of_topic htp htopics hslots halive)

/-- No topic changes. -/
theorem ZcTurn.of_same (hshow : ∀ e ∈ evs, ∀ t id, e.about t id = false ∧ e.begins t = false)
    (htopics : s'.topics = s.topics) : ZcTurn s evs s' := by
  have hslot : ∀ t k, s'.slotAt t k = s.slotAt t k := by
    intro t k
    rw [slotAt, htopics]
    rfl
  refine .same hshow (fun t k => slotId_congr (hslot t k)) ?_ ?_
  · intro t
    rw [topicNext, htopics]
    rfl
  · intro t k
    refine ⟨fun _ hlive => ⟨?_, slotQueue_congr (hslot t k)⟩⟩
    rw [topicAlive, htopics] at hlive
    exact hlive

theorem ZcTurn.of_new_topic {perSubCapacity : Nat} {mutexValid : Bool} {queues : List Bool}
    (htopics : s'.topics = s.topics ++ [.create perSubCapacity mutexValid queues]) :
    ZcTurn s [] s' := by
  have hcases : ∀ t : Nat, s'.topics[t]? = s.topics[t]? ∨
      (s.topics[t]? = none ∧
        s'.topics[t]? = some (ZeroCopySignal.create perSubCapacity mutexValid queues)) := by
    intro t
    rw [htopics]
    rcases Nat.lt_trichotomy t s.topics.length with hlt | rfl | hgt
    · exact .inl (List.getElem?_append_left hlt)
    · exact .inr ⟨List.getElem?_eq_none (le_refl _), List.getElem?_concat_length⟩
    · refine .inl ?_
      rw [List.getElem?_eq_none (l := s.topics) (by omega),
        List.getElem?_eq_none (by simp; omega)]
  refine .same (fun _ h => by cases h) ?_ ?_ ?_
  · intro t k
    rcases hcases t with h | ⟨hnone, hnew⟩
    · rw [slotId, slotId, h]
    · rw [slotId, slotId, hnone, hnew]
      cases hsl : (ZeroCopySignal.create perSubCapacity mutexValid queues).slots[k]? with
      | none => rw [Option.bind_some, hsl]; rfl
      | some sl =>
          rw [Option.bind_some, hsl]
          exact (ZeroCopySignal.create_slot hsl).2
  · intro t
    rcases hcases t with h | ⟨hnone, hnew⟩
    · rw [topicNext, topicNext, h]
    · rw [topicNext, topicNext, hnone, hnew]
      rfl
  · intro t k
    refine ⟨fun hid hlive => ?_⟩
    rcases hcases t with h | ⟨hnone, -⟩
    · rw [topicAlive, h] at hlive
      exact ⟨hlive, slotQueue_congr (by rw [slotAt, slotAt, h])⟩
    · rw [slotId, hnone] at hid
      exact absurd rfl hid

/-- Nobody receives from a slot whose `receivers` is zero. -/
theorem receiving_ne_of_receivers {capacity : Nat} (hi : ZcInv capacity s)
    (htp : s.topics[t]? = some tp) (hsl : tp.slots[k]? = some sl) (hrec : sl.receivers = 0)
    (m : Nat) : (s.thread m).receiving ≠ some (t, k) := by
  intro hm
  have hslot := (hi.topics t tp htp).slot k sl hsl
  have hnone : loads s.threads t k .receiving = 0 := hslot.receivers.symm.trans hrec
  cases hth : s.threads[m]? with
  | none => rw [ZcState.thread, hth] at hm; cases hm
  | some th =>
      rw [thread_eq hth] at hm
      have hle := le_tally (f := ZcThread.load t k .receiving) hth
      have hone : th.load t k .receiving = 1 := by
        cases th with
        | receive t' k' out =>
            cases hm
            rw [ZcThread.load_receive_self]
        | settle t' k' out got =>
            cases hm
            cases got <;> simp [ZcThread.load, ZcThread.does]
        | _ => cases hm
      rw [loads] at hnone
      omega

/-- A slot without a subscriber has an empty queue when the mutex is free. -/
theorem queue_eq_nil {capacity : Nat} (hi : ZcInv capacity s) (htp : s.topics[t]? = some tp)
    (halive : tp.alive = true) (hmutex : tp.mutex = none) (hsl : tp.slots[k]? = some sl)
    (hid : sl.id = invalidSubscriberId) : sl.queue = [] := by
  refine (((hi.topics t tp htp).slot k sl hsl).drained (.inl hid)).resolve_right ?_
  intro hpos
  obtain ⟨⟨n, hn⟩, -⟩ := hi.threads.draining htp halive hpos
  rw [hmutex] at hn
  cases hn

/-- A thread that drains a slot knows that it has no subscriber. -/
theorem unused_of_drain {capacity : Nat} {caller : ZcDrain} (hi : ZcInv capacity s)
    (hth : s.threads[n]? = some (.drain t k caller)) (htp : s.topics[t]? = some tp)
    (hsl : tp.slots[k]? = some sl) : ¬ (sl.id ≠ invalidSubscriberId ∧ tp.alive = true) := by
  rintro ⟨hid, halive⟩
  have hok := hi.threads.ok hth rfl htp
  cases caller with
  | unsubscribe => exact hid (hok.2.2 sl hsl).1
  | destructor =>
      have : tp.alive = false := hok
      rw [halive] at this
      cases this

/-- Every step is a turn of at most one subscriber. -/
theorem ZcStep.turn {capacity : Nat} (hi : ZcInv capacity s) (hs : ZcStep s a evs s') :
    ZcTurn s evs s' := by
  cases hs with
  | spawn => exact .of_same nofun rfl
  | topic => exact .of_new_topic rfl
  | newLoan => exact .of_same nofun rfl
  | lend => exact .of_same nofun rfl
  | stay => exact .of_same nofun rfl
  | release => exact .of_same nofun rfl
  | move => exact .of_same nofun rfl
  | moveAssign => exact .of_same nofun rfl
  | copy => exact .of_same nofun rfl
  | returns => exact .of_same nofun rfl
  | assignEmpty => exact .of_same nofun rfl
  | assignCopy => exact .of_same nofun rfl
  | assigned => exact .of_same nofun rfl
  | subscribe _ htp halive hmutex hsl hid hnext =>
      refine .subscribes ((topicMutex_eq htp).trans hmutex) ((slotId_eq htp hsl).trans hid)
        (topicNext_eq htp) hnext ?_ ?_ ?_ ?_ ?_
      · rw [slotId_eq_slotAt, slotAt_set_self htp hsl rfl rfl]
        rfl
      · have hnil := queue_eq_nil hi htp halive hmutex hsl hid
        rw [slotQueue, slotAt_set_self htp hsl rfl rfl]
        exact hnil
      · rw [topicNext_set_self htp rfl]
      · intro t' ht
        exact topicNext_set_ne rfl ht
      · intro t' k' hne
        exact ⟨slotId_congr (slotAt_set_ne htp rfl rfl hne), .of_set_ne htp rfl rfl rfl hne⟩
  | unsubscribe _ htp halive hmutex hsl hid hrec =>
      refine .unsubscribes ((topicMutex_eq htp).trans hmutex) (slotId_eq htp hsl) hid ?_
        (receiving_ne_of_receivers hi htp hsl hrec) (topicNext_set htp rfl rfl) ?_
      · rw [slotId_eq_slotAt, slotAt_set_self htp hsl rfl rfl]
        rfl
      · intro t' k' hne
        exact ⟨slotId_congr (slotAt_set_ne htp rfl rfl hne), .of_set_ne htp rfl rfl rfl hne⟩
  | publish _ htp _ hmutex =>
      exact .publishes ((topicMutex_eq htp).trans hmutex)
        (fun t k => slotId_congr (slotAt_topic htp (by rfl) (by rfl) t k))
        (topicNext_set htp rfl rfl) (.of_topic htp rfl rfl id)
  | enter _ htp _ _ hsl =>
      exact .of_slot (by simp [ZcEvent.about, ZcEvent.begins]) htp hsl rfl rfl rfl rfl rfl
        (fun _ _ => rfl)
  | destroy _ htp => exact .of_topic htp rfl rfl rfl nofun
  | destroyed => exact .of_same nofun rfl
  | destroySlot => exact .of_same nofun rfl
  | drainSkip => exact .of_same nofun rfl
  | drainPop hth htp hsl =>
      exact .of_slot nofun htp hsl rfl rfl rfl rfl rfl
        (fun hid halive => absurd ⟨hid, halive⟩ (unused_of_drain hi hth htp hsl))
  | drainEnd hth htp hsl => exact .of_slot nofun htp hsl rfl rfl rfl rfl rfl (fun _ _ => rfl)
  | drained => exact .of_same nofun rfl
  | skip => exact .of_same nofun rfl
  | @looked n k _ c tp _ htp =>
      have hhigh : tp.updateHighWater.nextId = tp.nextId ∧
          tp.updateHighWater.alive = tp.alive := by
        rw [ZeroCopySignal.updateHighWater]
        split <;> exact ⟨rfl, rfl⟩
      exact .of_topic htp rfl updateHighWater_slots hhigh.1 (fun h => hhigh.2 ▸ h)
  | retain => exact .of_same nofun rfl
  | @accept n k pops c tp sl _ hth htp hsl =>
      obtain ⟨halive, hmutex, hid⟩ := hi.threads.ok hth rfl htp
      refine .accepts (thread_eq hth) ((topicMutex_eq htp).trans hmutex)
        ((topicAlive_eq htp).trans halive) (slotId_eq htp hsl) (hid sl hsl) ?_
        (slotId_set_same htp hsl rfl rfl rfl) (topicNext_set htp rfl rfl) ?_
      · rw [slotQueue, slotAt_set_self htp hsl rfl rfl, slotQueue_eq htp hsl]
        rfl
      · intro t' k' hne
        exact .of_set_ne htp rfl rfl rfl hne
  | full => exact .of_same nofun rfl
  | reject _ htp => exact .of_topic htp rfl rfl rfl id
  | consumed => exact .of_same nofun rfl
  | kept => exact .of_same nofun rfl
  | unlock _ htp => exact .of_topic htp rfl rfl rfl id
  | @pop n t k out index tp sl rest hth htp hsl hq =>
      have halive : tp.alive = true := hi.threads.ok hth rfl htp
      refine .pops (thread_eq hth) ((topicAlive_eq htp).trans halive) (slotId_eq htp hsl) ?_
        (slotId_set_same htp hsl rfl rfl rfl) (topicNext_set htp rfl rfl) ?_
      · rw [slotQueue_eq htp hsl, slotQueue, slotAt_set_self htp hsl rfl rfl]
        exact hq
      · intro t' k' hne
        exact .of_set_ne htp rfl rfl rfl hne
  | giveUp => exact .of_same nofun rfl
  | settleNone _ htp hsl =>
      exact .of_slot (by simp [ZcEvent.about, ZcEvent.begins]) htp hsl rfl rfl rfl rfl rfl
        (fun _ _ => rfl)
  | settleSome _ htp hsl =>
      exact .of_slot (by simp [ZcEvent.about, ZcEvent.begins]) htp hsl rfl rfl rfl rfl rfl
        (fun _ _ => rfl)
  | built => exact .of_same (by simp [ZcEvent.about, ZcEvent.begins]) rfl

end Turn

end MicrOsal
