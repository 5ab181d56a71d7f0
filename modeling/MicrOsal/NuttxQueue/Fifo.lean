import MicrOsal.NuttxQueue.Model
import MicrOsal.Lib.Waiters

/-!
# MicrOsal.NuttxQueue.Fifo

The cache and the message queue together are one list (`QueueObj.contents`), and the counter
is its length. A peek moves the front from the one to the other, which the list does not show.
What a step of the threads can do is listed once (`Moves`), for a queue in order; in such a
queue no native call fails.
-/

namespace MicrOsal.NuttxQueue

open MicrOsal.Queue (Phase Timeout)

variable {α : Type}

namespace QueueObj

/-- The items in the queue, in the order in which they go out. -/
def contents (q : QueueObj α) : List α := (if q.cacheValid then [q.cache] else []) ++ q.mq

/-- The counter carries the length, which fits. -/
structure Ok (capacity : Nat) (q : QueueObj α) : Prop where
  capacity_eq : q.capacity = capacity
  count_eq : q.count = q.contents.length
  count_le : q.count ≤ capacity

variable {capacity : Nat} {q q' : QueueObj α} {item : α}

theorem Ok.create (cache : α) (capacity : Nat) : Ok capacity (.create cache capacity) :=
  ⟨rfl, rfl, Nat.zero_le _⟩

theorem Ok.length_eq (h : Ok capacity q) :
    q.count = q.mq.length + if q.cacheValid then 1 else 0 := by
  rw [h.count_eq, contents, List.length_append, Nat.add_comm]
  split <;> rfl

/-- `mq_send` has room. -/
theorem Ok.mqSend_eq (h : Ok capacity q) (hroom : q.count ≠ q.capacity) (item : α) :
    q.mqSend item = some { q with mq := q.mq ++ [item] } := by
  have hcapacity := h.capacity_eq
  have hle := h.count_le
  have hlength := h.length_eq
  exact if_pos (by omega)

theorem Ok.put (h : Ok capacity q) (hroom : q.count ≠ q.capacity) (item : α) :
    ∃ q', q.put item = some q' ∧ Ok capacity q' ∧ q'.contents = q.contents ++ [item] ∧
      q'.count = q.count + 1 := by
  have hput : q.put item = some { q with mq := q.mq ++ [item], count := q.count + 1 } := by
    rw [QueueObj.put, h.mqSend_eq hroom]
    rfl
  refine ⟨_, hput, ⟨h.capacity_eq, ?_, ?_⟩, (List.append_assoc ..).symm, rfl⟩
  · rw [h.count_eq]
    simp only [contents, List.length_append, List.length_singleton, Nat.add_assoc]
  · have hle := h.count_le
    have hcapacity := h.capacity_eq
    show q.count + 1 ≤ capacity
    omega

/-- `mq_receive` finds a message, unless the front is in the cache. -/
theorem Ok.mq_ne_nil (h : Ok capacity q) (hne : q.count ≠ 0) (hcache : q.cacheValid = false) :
    ∃ item rest, q.mq = item :: rest := by
  refine List.exists_cons_of_ne_nil (fun hnil => hne ?_)
  rw [h.length_eq, hnil, hcache]
  rfl

/-- There is an item, in the cache or for `mq_receive`. -/
theorem Ok.take (h : Ok capacity q) (hne : q.count ≠ 0) :
    ∃ item q', q.take = some (item, q') ∧ Ok capacity q' ∧ q.contents = item :: q'.contents ∧
      q.count = q'.count + 1 := by
  have hcount := h.count_eq
  have hle := h.count_le
  cases hcache : q.cacheValid with
  | true =>
      have hcontents : q.contents = q.cache :: q.mq := by rw [contents, hcache]; rfl
      rw [hcontents, List.length_cons] at hcount
      refine ⟨q.cache, { q with cacheValid := false, count := q.count - 1 },
        by rw [QueueObj.take, hcache]; rfl, ⟨h.capacity_eq, ?_, ?_⟩, hcontents, ?_⟩
      · show q.count - 1 = q.mq.length
        omega
      · show q.count - 1 ≤ capacity
        omega
      · show q.count = q.count - 1 + 1
        omega
  | false =>
      obtain ⟨item, rest, hmq⟩ := h.mq_ne_nil hne hcache
      have hcontents : q.contents = item :: rest := by rw [contents, hcache, hmq]; rfl
      rw [hcontents, List.length_cons] at hcount
      have hrest : contents { q with mq := rest, count := q.count - 1 } = rest := by
        rw [contents, hcache]
        rfl
      refine ⟨item, { q with mq := rest, count := q.count - 1 }, ?_, ⟨h.capacity_eq, ?_, ?_⟩,
        by rw [hcontents, hrest], ?_⟩
      · rw [QueueObj.take, mqReceive, hmq, hcache]
        rfl
      · rw [hrest]
        show q.count - 1 = rest.length
        omega
      · show q.count - 1 ≤ capacity
        omega
      · show q.count = q.count - 1 + 1
        omega

/-- So there is for a peek, which leaves it where the next receive finds it. -/
theorem Ok.peek (h : Ok capacity q) (hne : q.count ≠ 0) :
    ∃ item q', q.peek = some (item, q') ∧ Ok capacity q' ∧ q'.contents = q.contents ∧
      q'.count = q.count ∧ q.contents.head? = some item := by
  cases hcache : q.cacheValid with
  | true =>
      refine ⟨q.cache, q, by rw [QueueObj.peek, hcache]; rfl, h, rfl, rfl, ?_⟩
      rw [contents, hcache]
      rfl
  | false =>
      obtain ⟨item, rest, hmq⟩ := h.mq_ne_nil hne hcache
      have hcontents : contents { q with mq := rest, cache := item, cacheValid := true } =
          q.contents := by
        rw [contents, contents, hcache, hmq]
        rfl
      refine ⟨item, { q with mq := rest, cache := item, cacheValid := true }, ?_,
        ⟨h.capacity_eq, ?_, h.count_le⟩, hcontents, rfl, ?_⟩
      · rw [QueueObj.peek, mqReceive, hmq, hcache]
        rfl
      · rw [hcontents]
        exact h.count_eq
      · rw [contents, hcache, hmq]
        rfl

end QueueObj

/-! ### What a step can do -/

/-- Thread `th` runs `call` in this step: it calls, or it has the mutex again. -/
def Running (call : Call α) (th : Thread α) : Prop :=
  (∃ last, th = .idle last) ∨ ∃ timed, th = .waits call timed .woken

/-- A call that has to wait. -/
def Blocked (q : QueueObj α) : Call α → Prop
  | .send _ => q.count = q.capacity
  | .receive => q.count = 0
  | .peek => q.count = 0

/-- What becomes of a thread by a step that leaves the queue alone. -/
inductive Settles (q : QueueObj α) : Thread α → Thread α → Prop
  /-- A call that does not wait. -/
  | idle {last last' : Option (Reply α)} : Settles q (.idle last) (.idle last')
  | blocks {th : Thread α} {call : Call α} {timed : Bool} : Running call th → Blocked q call →
      Settles q th (.waits call timed .asleep)
  | wakes {call : Call α} {timed : Bool} :
      Settles q (.waits call timed .asleep) (.waits call timed .woken)
  | expires {call : Call α} :
      Settles q (.waits call true .asleep) (.waits call true .timedOut)
  | fails {call : Call α} {timed : Bool} :
      Settles q (.waits call timed .timedOut) (.idle (some (.code .timeout)))

/-- What a step can do that wakes the thread `signalled`, if it signals. -/
inductive Moves (s : State α) (signalled : Option Nat) : State α → Prop
  | spawn : Moves s signalled { s with threads := s.threads ++ [.idle none] }
  | settle {n : Nat} {th th' : Thread α} : s.threads[n]? = some th →
      Settles s.queue th th' → Moves s signalled { s with threads := s.threads.set n th' }
  | put {n : Nat} {th : Thread α} {item : α} {q : QueueObj α} {threads : List (Thread α)} :
      s.threads[n]? = some th → Running (.send item) th → s.queue.put item = some q →
      s.queue.count ≠ s.queue.capacity →
      Signals Thread.onNotEmpty Thread.wake (s.threads.set n (.idle (some (.code .ok))))
        signalled threads →
      Moves s signalled ⟨q, threads, s.sent ++ [item], s.received, s.peeked⟩
  | take {n : Nat} {th : Thread α} {item : α} {q : QueueObj α} {threads : List (Thread α)} :
      s.threads[n]? = some th → Running .receive th → s.queue.take = some (item, q) →
      s.queue.count ≠ 0 →
      Signals Thread.onNotFull Thread.wake (s.threads.set n (.idle (some (.item item))))
        signalled threads →
      Moves s signalled ⟨q, threads, s.sent, s.received ++ [item], s.peeked⟩
  | peek {n : Nat} {th : Thread α} {item : α} {q : QueueObj α} :
      s.threads[n]? = some th → Running .peek th → s.queue.peek = some (item, q) →
      s.queue.count ≠ 0 →
      Moves s signalled ⟨q, s.threads.set n (.idle (some (.item item))), s.sent, s.received,
        s.peeked ++ [(s.received.length, item)]⟩

variable {s s' : State α} {n : Nat} {th : Thread α} {capacity : Nat}

theorem signals_of_signal {waits : Thread α → Bool} {signalled : Option Nat}
    (h : s.signal waits signalled = some s') :
    ∃ threads, Signals waits Thread.wake s.threads signalled threads ∧
      s' = { s with threads := threads } := by
  cases signalled with
  | none =>
      rw [State.signal] at h
      split at h
      case isTrue => cases h
      case isFalse hnone =>
        cases h
        refine ⟨s.threads, .nobody (fun th hth => ?_), rfl⟩
        by_contra hw
        exact hnone (List.any_eq_true.mpr ⟨th, hth, eq_true_of_ne_false hw⟩)
  | some m =>
      rw [State.signal] at h
      split at h
      case h_1 th hm =>
        split at h
        case isTrue hw =>
          cases h
          exact ⟨_, .one hm hw, rfl⟩
        case isFalse => cases h
      case h_2 => cases h

theorem moves_of_block {call : Call α} {timeout : Timeout} {signalled : Option Nat}
    (hn : s.threads[n]? = some th) (hth : Running call th) (hblocked : Blocked s.queue call)
    (hwait : timeout = .noWait → ∃ last, th = .idle last) :
    Moves s signalled (s.block n call timeout) := by
  cases timeout with
  | noWait =>
      obtain ⟨last, rfl⟩ := hwait rfl
      exact .settle hn .idle
  | wait timed => exact .settle hn (.blocks hth hblocked)

theorem moves_of_attempt {call : Call α} {timeout : Timeout} {signalled : Option Nat}
    (hq : s.queue.Ok capacity) (hn : s.threads[n]? = some th) (hth : Running call th)
    (h : s.attempt n timeout signalled call = some s')
    (hwait : timeout = .noWait → ∃ last, th = .idle last) : Moves s signalled s' := by
  cases call with
  | send item =>
      rw [State.attempt] at h
      split at h
      case isTrue hfull =>
        cases h
        exact moves_of_block hn hth hfull hwait
      case isFalse hroom =>
        obtain ⟨q, hput, -⟩ := hq.put hroom item
        rw [hput] at h
        obtain ⟨threads, hsignals, rfl⟩ := signals_of_signal h
        exact .put hn hth hput hroom hsignals
  | receive =>
      rw [State.attempt] at h
      split at h
      case isTrue hempty =>
        cases h
        exact moves_of_block hn hth hempty hwait
      case isFalse hne =>
        obtain ⟨item, q, htake, -⟩ := hq.take hne
        rw [htake] at h
        obtain ⟨threads, hsignals, rfl⟩ := signals_of_signal h
        exact .take hn hth htake hne hsignals
  | peek =>
      rw [State.attempt] at h
      split at h
      case isTrue hempty =>
        cases h
        exact moves_of_block hn hth hempty hwait
      case isFalse hne =>
        obtain ⟨item, q, hpeek, -⟩ := hq.peek hne
        rw [hpeek] at h
        cases h
        exact .peek hn hth hpeek hne

theorem asleep_of_blocked (h : (th.onNotEmpty || th.onNotFull) = true) :
    ∃ call timed, th = .waits call timed .asleep := by
  cases th with
  | idle last => cases h
  | waits call timed phase =>
      refine ⟨call, timed, ?_⟩
      cases call <;> simpa [Thread.onNotEmpty, Thread.onNotFull, Thread.receives, Thread.peeks,
        Thread.sends] using h

theorem moves_of_step {a : Action α} (hq : s.queue.Ok capacity) (h : s.step a = some s') :
    Moves s a.signalled s' := by
  cases a with
  | spawn =>
      cases h
      exact .spawn
  | call n call timeout signalled =>
      dsimp only [State.step] at h
      split at h
      case h_1 last hn => exact moves_of_attempt hq hn (.inl ⟨last, rfl⟩) h (fun _ => ⟨last, rfl⟩)
      case h_2 => cases h
  | count n =>
      dsimp only [State.step] at h
      split at h
      case h_1 last hn =>
        cases h
        exact .settle hn .idle
      case h_2 => cases h
  | free n =>
      dsimp only [State.step] at h
      split at h
      case h_1 last hn =>
        cases h
        exact .settle hn .idle
      case h_2 => cases h
  | resume n signalled =>
      obtain ⟨th, hn, hr⟩ := Option.bind_eq_some_iff.mp h
      unfold State.resume at hr
      split at hr
      case h_1 call timed => exact moves_of_attempt hq hn (.inr ⟨timed, rfl⟩) hr nofun
      case h_2 =>
        cases hr
        exact .settle hn .fails
      case h_3 | h_4 => cases hr
  | wakeUp n =>
      obtain ⟨th, hn, hr⟩ := Option.bind_eq_some_iff.mp h
      rw [State.wakeUp] at hr
      split at hr
      case isTrue hasleep =>
        cases hr
        obtain ⟨call, timed, rfl⟩ := asleep_of_blocked hasleep
        exact .settle hn .wakes
      case isFalse => cases hr
  | expire n =>
      obtain ⟨th, hn, hr⟩ := Option.bind_eq_some_iff.mp h
      unfold State.expire at hr
      split at hr
      case h_1 =>
        cases hr
        exact .settle hn .expires
      case h_2 => cases hr

/-! ### First in, first out -/

/-- The queue is in order, and holds what was sent and not received yet; what a peek has
returned is what the next receive returned, or is going to return. -/
structure Fifo (capacity : Nat) (s : State α) : Prop where
  ok : s.queue.Ok capacity
  sent : s.sent = s.received ++ s.queue.contents
  peeked : ∀ p ∈ s.peeked, s.sent[p.1]? = some p.2

theorem Fifo.of_moves {signalled : Option Nat} (h : Fifo capacity s)
    (hm : Moves s signalled s') : Fifo capacity s' := by
  cases hm with
  | spawn => exact ⟨h.ok, h.sent, h.peeked⟩
  | settle hn hth => exact ⟨h.ok, h.sent, h.peeked⟩
  | @put n th item q threads hn hth hput hroom hsignals =>
      obtain ⟨q', hput', hok, hcontents, -⟩ := h.ok.put hroom item
      obtain rfl := Option.some.inj (hput.symm.trans hput')
      refine ⟨hok, ?_, fun p hp => ?_⟩
      · rw [hcontents, h.sent, List.append_assoc]
      · have hold := h.peeked p hp
        rw [List.getElem?_append_left (List.getElem?_eq_some_iff.mp hold).1]
        exact hold
  | @take n th item q threads hn hth htake hne hsignals =>
      obtain ⟨item', q', htake', hok, hcontents, -⟩ := h.ok.take hne
      obtain ⟨rfl, rfl⟩ := Prod.mk.inj (Option.some.inj (htake.symm.trans htake'))
      refine ⟨hok, ?_, h.peeked⟩
      rw [h.sent, hcontents, List.append_assoc]
      rfl
  | @peek n th item q hn hth hpeek hne =>
      obtain ⟨item', q', hpeek', hok, hcontents, -, hfront⟩ := h.ok.peek hne
      obtain ⟨rfl, rfl⟩ := Prod.mk.inj (Option.some.inj (hpeek.symm.trans hpeek'))
      refine ⟨hok, by rw [hcontents]; exact h.sent, fun p hp => ?_⟩
      rcases List.mem_append.mp hp with hp | hp
      · exact h.peeked p hp
      · obtain rfl := List.mem_singleton.mp hp
        show s.sent[s.received.length]? = some item
        rw [h.sent, List.getElem?_append_right (Nat.le_refl _), Nat.sub_self]
        rw [← List.head?_eq_getElem?]
        exact hfront

theorem Fifo.of_reachable {cache : α} (h : (machine cache capacity).Reachable s) :
    Fifo capacity s := by
  refine h.invariant (I := Fifo capacity) ⟨.create cache capacity, rfl, fun p hp => ?_⟩ ?_
  · cases hp
  exact fun s a s' _ hi hs => hi.of_moves (moves_of_step hi.ok hs)

end MicrOsal.NuttxQueue
