import MicrOsal.NuttxQueue.Fifo

/-!
# MicrOsal.NuttxQueue.Refinement

What the calls of the queue do, and return, as calls of a bounded queue (`Allowed`), in every
state that the threads reach.
-/

namespace MicrOsal.NuttxQueue

open MicrOsal.Queue (Phase Timeout)

variable {α : Type}

/-- What a call may return, and leave behind, on a queue of `capacity` items that holds
`items`. -/
inductive Allowed (capacity : Nat) : Call α → List α → Reply α → List α → Prop
  | sent {item : α} {items : List α} : items.length < capacity →
      Allowed capacity (.send item) items (.code .ok) (items ++ [item])
  | received {item : α} {items : List α} :
      Allowed capacity .receive (item :: items) (.item item) items
  | peeked {item : α} {items : List α} :
      Allowed capacity .peek (item :: items) (.item item) (item :: items)
  | full {item : α} {items : List α} : items.length = capacity →
      Allowed capacity (.send item) items (.code .wouldBlock) items
  | noItem {call : Call α} : call = .receive ∨ call = .peek →
      Allowed capacity call [] (.code .wouldBlock) []
  | timedOut {call : Call α} {items : List α} :
      Allowed capacity call items (.code .timeout) items

/-- The thread that runs a call in this step, and the call. -/
def Action.runs (s : State α) : Action α → Option (Nat × Call α)
  | .call n c _ _ => some (n, c)
  | .resume n _ =>
      match s.threads[n]? with
      | some (.waits c _ _) => some (n, c)
      | _ => none
  | _ => none

/-- What a step of thread `n` comes to that runs `call`: the call goes on to wait, or it
returns. -/
inductive Outcome (capacity n : Nat) (call : Call α) (s s' : State α) : Prop
  | waits {timed : Bool} : s'.threads[n]? = some (.waits call timed .asleep) →
      s'.queue = s.queue → Outcome capacity n call s s'
  | returns {reply : Reply α} : s'.threads[n]? = some (.idle (some reply)) →
      Allowed capacity call s.queue.contents reply s'.queue.contents →
      (reply.failed = true → s'.queue = s.queue) → Outcome capacity n call s s'

variable {s s' : State α} {n capacity : Nat} {th : Thread α}

/-- A call that cannot wait fails. -/
theorem Outcome.of_block {call : Call α} (hq : s.queue.Ok capacity) (hn : n < s.threads.length)
    (hblocked : Blocked s.queue call) (timeout : Timeout) :
    Outcome capacity n call s (s.block n call timeout) := by
  cases timeout with
  | wait timed => exact .waits (List.getElem?_set_self hn) rfl
  | noWait =>
      refine .returns (List.getElem?_set_self hn) ?_ (fun _ => rfl)
      show Allowed capacity call s.queue.contents (.code .wouldBlock) s.queue.contents
      cases call with
      | send item => exact .full ((hq.count_eq.symm.trans hblocked).trans hq.capacity_eq)
      | receive =>
          have hnil := List.length_eq_zero_iff.mp (hq.count_eq.symm.trans hblocked)
          rw [hnil]
          exact .noItem (.inl rfl)
      | peek =>
          have hnil := List.length_eq_zero_iff.mp (hq.count_eq.symm.trans hblocked)
          rw [hnil]
          exact .noItem (.inr rfl)

/-- What is left to say once a call has signalled. -/
theorem Outcome.of_signal {call : Call α} {reply : Reply α} {waits : Thread α → Bool}
    {signalled : Option Nat} {t : State α} (hn : n < t.threads.length)
    (hidle : ∀ last : Option (Reply α), waits (.idle last) = false)
    (h : (t.finish n reply).signal waits signalled = some s')
    (hallowed : Allowed capacity call s.queue.contents reply t.queue.contents)
    (hreply : reply.failed = false) : Outcome capacity n call s s' := by
  obtain ⟨threads, hsignals, rfl⟩ := signals_of_signal h
  refine .returns (hsignals.getElem?_eq (List.getElem?_set_self hn) (hidle _)) hallowed ?_
  intro hfailed
  rw [hreply] at hfailed
  cases hfailed

theorem Outcome.of_attempt {call : Call α} {timeout : Timeout} {signalled : Option Nat}
    (hq : s.queue.Ok capacity) (hn : n < s.threads.length)
    (h : s.attempt n timeout signalled call = some s') : Outcome capacity n call s s' := by
  cases call with
  | send item =>
      rw [State.attempt] at h
      split at h
      case isTrue hfull =>
        obtain rfl := Option.some.inj h
        exact .of_block hq hn (show Blocked s.queue (.send item) from hfull) timeout
      case isFalse hroom =>
        obtain ⟨q, hput, -, hcontents, -⟩ := hq.put hroom item
        rw [hput] at h
        refine .of_signal (t := { s with queue := q, sent := s.sent ++ [item] }) hn (fun _ => rfl)
          h ?_ rfl
        have hlength := hq.count_eq
        have hle := hq.count_le
        have hcapacity := hq.capacity_eq
        show Allowed capacity _ _ _ q.contents
        rw [hcontents]
        exact .sent (by omega)
  | receive =>
      rw [State.attempt] at h
      split at h
      case isTrue hempty =>
        obtain rfl := Option.some.inj h
        exact .of_block hq hn (show Blocked s.queue .receive from hempty) timeout
      case isFalse hne =>
        obtain ⟨item, q, htake, -, hcontents, -⟩ := hq.take hne
        rw [htake] at h
        refine .of_signal (t := { s with queue := q, received := s.received ++ [item] }) hn
          (fun _ => rfl) h ?_ rfl
        rw [hcontents]
        exact .received
  | peek =>
      rw [State.attempt] at h
      split at h
      case isTrue hempty =>
        obtain rfl := Option.some.inj h
        exact .of_block hq hn (show Blocked s.queue .peek from hempty) timeout
      case isFalse hne =>
        obtain ⟨item, q, hpeek, -, hcontents, -, hfront⟩ := hq.peek hne
        rw [hpeek] at h
        obtain rfl := Option.some.inj h
        refine .returns (List.getElem?_set_self hn) ?_ (fun h => by cases h)
        show Allowed capacity _ _ _ q.contents
        obtain ⟨items, hitems⟩ := List.head?_eq_some_iff.mp hfront
        rw [hcontents, hitems]
        exact .peeked

theorem Outcome.of_step {call : Call α} {a : Action α} (hq : s.queue.Ok capacity)
    (h : s.step a = some s') (ha : a.runs s = some (n, call)) : Outcome capacity n call s s' := by
  cases a with
  | call m call' timeout signalled =>
      obtain ⟨rfl, rfl⟩ := Prod.mk.inj (Option.some.inj ha)
      dsimp only [State.step] at h
      split at h
      case h_1 last hm => exact .of_attempt hq (List.getElem?_eq_some_iff.mp hm).1 h
      case h_2 => cases h
  | resume m signalled =>
      obtain ⟨th, hm, hr⟩ := Option.bind_eq_some_iff.mp h
      have hlt := (List.getElem?_eq_some_iff.mp hm).1
      rw [Action.runs, hm] at ha
      cases th with
      | idle last => cases ha
      | waits call' timed phase =>
          obtain ⟨rfl, rfl⟩ := Prod.mk.inj (Option.some.inj ha)
          cases phase with
          | asleep => cases hr
          | woken => exact .of_attempt hq hlt hr
          | timedOut =>
              obtain rfl := Option.some.inj hr
              exact .returns (List.getElem?_set_self hlt) .timedOut (fun _ => rfl)
  | spawn | count | free | wakeUp | expire => cases ha

/-- A step that runs no call leaves the queue as it is. -/
theorem queue_of_step {a : Action α} (h : s.step a = some s') (ha : a.runs s = none) :
    s'.queue = s.queue := by
  cases a with
  | spawn =>
      obtain rfl := Option.some.inj h
      rfl
  | call m call timeout signalled => cases ha
  | count m | free m =>
      dsimp only [State.step] at h
      split at h
      case h_1 =>
        obtain rfl := Option.some.inj h
        rfl
      case h_2 => cases h
  | resume m signalled =>
      obtain ⟨th, hm, hr⟩ := Option.bind_eq_some_iff.mp h
      rw [Action.runs, hm] at ha
      cases th with
      | idle last => cases hr
      | waits call timed phase => cases ha
  | wakeUp m =>
      obtain ⟨th, hm, hr⟩ := Option.bind_eq_some_iff.mp h
      rw [State.wakeUp] at hr
      split at hr
      case isTrue =>
        obtain rfl := Option.some.inj hr
        rfl
      case isFalse => cases hr
  | expire m =>
      obtain ⟨th, hm, hr⟩ := Option.bind_eq_some_iff.mp h
      unfold State.expire at hr
      split at hr
      case h_1 =>
        obtain rfl := Option.some.inj hr
        rfl
      case h_2 => cases hr

theorem Outcome.contents_of_peek (h : Outcome capacity n .peek s s') :
    s'.queue.contents = s.queue.contents := by
  cases h with
  | waits hn hq => rw [hq]
  | returns hn hallowed hfailed =>
      generalize s.queue.contents = items, s'.queue.contents = items' at hallowed
      cases hallowed <;> rfl

/-- `osal_queue_count` and `osal_queue_free`. -/
theorem number_of_count (h : s.step (.count n) = some s') :
    s'.threads[n]? = some (.idle (some (.number s.queue.count))) := by
  dsimp only [State.step] at h
  split at h
  case h_1 last hn =>
    obtain rfl := Option.some.inj h
    exact List.getElem?_set_self (List.getElem?_eq_some_iff.mp hn).1
  case h_2 => cases h

theorem number_of_free (h : s.step (.free n) = some s') :
    s'.threads[n]? = some (.idle (some (.number s.queue.free))) := by
  dsimp only [State.step] at h
  split at h
  case h_1 last hn =>
    obtain rfl := Option.some.inj h
    exact List.getElem?_set_self (List.getElem?_eq_some_iff.mp hn).1
  case h_2 => cases h

/-- A bounded queue, for calls that look at it as well as for calls that change it. -/
structure QueueOk (capacity : Nat) (s : State α) : Prop where
  count_eq : s.queue.count = s.queue.mq.length + if s.queue.cacheValid then 1 else 0
  count_le : s.queue.count ≤ capacity
  /-- The items received are those sent, in order; the rest is in the queue. -/
  fifo : s.sent = s.received ++ s.queue.contents
  /-- What a peek has returned is the item that is received next after those that had been
  received when it looked. -/
  peeked : ∀ (k : Nat) (item : α), (k, item) ∈ s.peeked →
    s.sent[k]? = some item ∧ ∀ item', s.received[k]? = some item' → item' = item
  calls : ∀ (a : Action α) (s' : State α) (n : Nat) (call : Call α), s.step a = some s' →
    a.runs s = some (n, call) → Outcome capacity n call s s'
  others : ∀ (a : Action α) (s' : State α), s.step a = some s' → a.runs s = none →
    s'.queue = s.queue
  /-- A peek changes neither count nor order. -/
  peeks : ∀ (a : Action α) (s' : State α) (n : Nat), s.step a = some s' →
    a.runs s = some (n, .peek) →
    s'.queue.count = s.queue.count ∧ s'.queue.contents = s.queue.contents
  counts : ∀ (n : Nat) (s' : State α), s.step (.count n) = some s' →
    s'.threads[n]? = some (.idle (some (.number s.queue.contents.length)))
  frees : ∀ (n : Nat) (s' : State α), s.step (.free n) = some s' →
    s'.threads[n]? = some (.idle (some (.number (capacity - s.queue.contents.length))))
  /-- The native calls succeed where they are made. -/
  mqSend : s.queue.count ≠ s.queue.capacity → ∀ item, (s.queue.mqSend item).isSome = true
  mqReceive : s.queue.count ≠ 0 → s.queue.cacheValid = false →
    s.queue.mqReceive.isSome = true

/-- The queue of the NuttX backend is a bounded queue. -/
theorem nuttxQueue_refines (cache : α) (capacity : Nat) (s : State α)
    (hs : (machine cache capacity).Reachable s) : QueueOk capacity s := by
  have hfifo := Fifo.of_reachable hs
  have hq := hfifo.ok
  constructor
  case count_eq => exact hq.length_eq
  case count_le => exact hq.count_le
  case fifo => exact hfifo.sent
  case peeked =>
    intro k item hp
    have hsent := hfifo.peeked (k, item) hp
    refine ⟨hsent, fun item' hreceived => ?_⟩
    have hlt := (List.getElem?_eq_some_iff.mp hreceived).1
    rw [hfifo.sent, List.getElem?_append_left hlt] at hsent
    exact Option.some.inj (hreceived.symm.trans hsent)
  case calls => exact fun a s' n call hstep ha => .of_step hq hstep ha
  case others => exact fun a s' hstep ha => queue_of_step hstep ha
  case peeks =>
    intro a s' n hstep ha
    have hcontents := (Outcome.of_step hq hstep ha).contents_of_peek
    have hq' := (Fifo.of_reachable (.step hs trivial hstep)).ok
    exact ⟨by rw [hq.count_eq, hq'.count_eq, hcontents], hcontents⟩
  case counts =>
    intro n s' hstep
    rw [← hq.count_eq]
    exact number_of_count hstep
  case frees =>
    intro n s' hstep
    rw [← hq.count_eq, ← hq.capacity_eq]
    exact number_of_free hstep
  case mqSend =>
    intro hroom item
    rw [hq.mqSend_eq hroom]
    rfl
  case mqReceive =>
    intro hne hcache
    obtain ⟨item, rest, hmq⟩ := hq.mq_ne_nil hne hcache
    rw [QueueObj.mqReceive, hmq]
    rfl

/-- Two sends, two peeks and a receive; one item is left. -/
def peekTwice : List (Action Nat) :=
  [.spawn, .call 0 (.send 5) .noWait none, .call 0 (.send 6) .noWait none,
    .call 0 .peek .noWait none, .call 0 .peek .noWait none, .call 0 .receive .noWait none]

theorem nuttxQueue_refines_peekTwice : ∃ s : State Nat, (machine 0 2).Reachable s ∧
    s.peeked = [(0, 5), (0, 5)] ∧ s.received = [5] ∧ s.queue.contents = [6] ∧
    QueueOk 2 s := by
  have hrun : ((machine 0 2).run (machine 0 2).init peekTwice).map
      (fun s => (s.peeked, s.received, s.queue.contents)) =
      some ([(0, 5), (0, 5)], [5], [6]) := by decide +kernel
  obtain ⟨s, hs, hfields⟩ := Option.map_eq_some_iff.mp hrun
  have hreach := Machine.Reachable.of_run hs
  refine ⟨s, hreach, congrArg Prod.fst hfields, congrArg (fun p => p.2.1) hfields,
    congrArg (fun p => p.2.2) hfields, ?_⟩
  exact nuttxQueue_refines 0 2 s hreach

end MicrOsal.NuttxQueue
