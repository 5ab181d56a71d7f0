import MicrOsal.Queue.Model
import MicrOsal.Lib.Tally

/-!
# MicrOsal.Queue.Fifo

The bytes of a queue stand for a ring of items (`QueueObj.ring`), and the operations do on
them what those of the ring do. What a step of the threads can do is listed once (`Moves`).
-/

namespace MicrOsal.Queue

variable {size : Nat}

/-! ### Bytes and items -/

/-- Places of different items do not overlap. -/
theorem place_disjoint {i j k : Nat} (hij : i ≠ j) (hk : k < size) :
    ¬ (j * size ≤ i * size + k ∧ i * size + k < j * size + size) := by
  rintro ⟨hle, hlt⟩
  have hi : (i * size + k) / size = i := by
    rw [Nat.mul_comm, Nat.mul_add_div (by omega), Nat.div_eq_of_lt hk, Nat.add_zero]
  have hj : (i * size + k) / size = j := by
    refine Nat.div_eq_of_lt_le hle ?_
    rw [Nat.succ_mul]
    exact hlt
  exact hij (hi.symm.trans hj)

theorem copyOut_copyIn (buf : Nat → UInt8) (offset : Nat) (item : Item size) :
    copyOut (copyIn buf offset item) offset = item := by
  apply Vector.ext
  intro k hk
  simp [copyOut, copyIn, Vector.get]

theorem copyOut_copyIn_ne (buf : Nat → UInt8) {i j : Nat} (hij : i ≠ j) (item : Item size) :
    (copyOut (copyIn buf (j * size) item) (i * size) : Item size) = copyOut buf (i * size) := by
  apply Vector.ext
  intro k hk
  simp only [copyOut, Vector.getElem_ofFn, copyIn]
  exact dif_neg (place_disjoint hij hk)

/-- What a caller learns from a reply, apart from why a call has failed. -/
def Reply.visible (r : Reply size) : Option (Reply size) := if r.success then some r else none

theorem Reply.visible_failure {code : ErrorCode} (h : code ≠ .ok) :
    (Reply.code code : Reply size).visible = none :=
  if_neg (fun hs => h (of_decide_eq_true hs))

namespace QueueObj

/-- The ring of items that the bytes stand for. -/
def ring (q : QueueObj size) : Ring (Item size) :=
  ⟨fun i => copyOut q.buf (i * size), q.capacity, q.head, q.tail, q.count⟩

variable {q : QueueObj size}

theorem ring_put (q : QueueObj size) (item : Item size) : (q.put item).ring = q.ring.push item := by
  have hslots : (q.put item).ring.slots = (q.ring.push item).slots := by
    funext i
    by_cases hi : i = q.tail
    · subst hi
      simp only [ring, put, Ring.push, Function.update_self]
      exact copyOut_copyIn ..
    · simp only [ring, put, Ring.push, Function.update_of_ne hi]
      exact copyOut_copyIn_ne _ hi _
  simp only [Ring.push] at hslots ⊢
  simp only [ring, put] at hslots ⊢
  rw [hslots]

theorem ring_take (q : QueueObj size) : q.take.ring = q.ring.pop := rfl

/-- Backends differ in the codes of failures only. -/
theorem exec_eq (b b' : Backend) (q : QueueObj size) (op : Op size) :
    (q.exec b op).1.visible = (q.exec b' op).1.visible ∧ (q.exec b op).2 = (q.exec b' op).2 := by
  cases op with
  | send item =>
      dsimp only [exec]
      split
      · exact ⟨rfl, rfl⟩
      · rw [Reply.visible_failure (b.full_ne true), Reply.visible_failure (b'.full_ne true)]
        exact ⟨rfl, rfl⟩
  | receive =>
      dsimp only [exec]
      split
      · rw [Reply.visible_failure (b.empty_ne true), Reply.visible_failure (b'.empty_ne true)]
        exact ⟨rfl, rfl⟩
      · exact ⟨rfl, rfl⟩
  | _ => exact ⟨rfl, rfl⟩

theorem execAll_eq (b b' : Backend) (q : QueueObj size) (ops : List (Op size)) :
    (q.execAll b ops).1.map Reply.visible = (q.execAll b' ops).1.map Reply.visible ∧
      (q.execAll b ops).2 = (q.execAll b' ops).2 := by
  induction ops generalizing q with
  | nil => exact ⟨rfl, rfl⟩
  | cons op rest ih =>
      obtain ⟨hreply, hqueue⟩ := exec_eq b b' q op
      obtain ⟨hreplies, hend⟩ := ih (q.exec b' op).2
      simp only [execAll, List.map_cons, hreply, hqueue, hreplies]
      exact ⟨trivial, hend⟩

end QueueObj

/-! ### What a step can do -/

/-- A call of thread `th` that may put `item` into the queue now. -/
def Sending (item : Item size) (th : Thread size) : Prop :=
  (∃ last, th = .idle last) ∨ ∃ timed, th = .sender item timed .woken

/-- A call of thread `th` that may take an item now. -/
def Receiving (th : Thread size) : Prop :=
  (∃ last, th = .idle last) ∨ ∃ timed, th = .receiver timed .woken

/-- What becomes of a thread by a step that leaves the queue alone. -/
inductive Settles (b : Backend) (q : QueueObj size) : Thread size → Thread size → Prop
  /-- A call that does not wait. -/
  | idle {last last' : Option ErrorCode} : Settles b q (.idle last) (.idle last')
  | sendWaits {th : Thread size} {item : Item size} {timed : Bool} : Sending item th →
      q.capacity ≤ q.count → Settles b q th (.sender item timed (State.waitPhase b))
  | receiveWaits {th : Thread size} {timed : Bool} : Receiving th → q.count = 0 →
      Settles b q th (.receiver timed (State.waitPhase b))
  | wakes {th : Thread size} : (th.sends .asleep = true ∨ th.receives .asleep = true) →
      Settles b q th th.wake
  | sendExpires {item : Item size} :
      Settles b q (.sender item true .asleep) (.sender item true .timedOut)
  | receiveExpires : Settles b q (.receiver true .asleep) (.receiver true .timedOut)
  /-- A call ends without success, after its time. -/
  | sendFails {item : Item size} {timed : Bool} {phase : Phase} {code : ErrorCode} :
      (phase = .timedOut ∨ b.condvars = false) → code ≠ .ok →
      Settles b q (.sender item timed phase) (.idle (some code))
  | receiveFails {timed : Bool} {phase : Phase} {code : ErrorCode} :
      (phase = .timedOut ∨ b.condvars = false) → code ≠ .ok →
      Settles b q (.receiver timed phase) (.idle (some code))

/-- Whom a signal wakes among the threads that `waits` picks. -/
inductive Signals (b : Backend) (waits : Thread size → Bool) (threads : List (Thread size)) :
    List (Thread size) → Prop
  /-- Nobody waits. -/
  | nobody : (b.condvars = true → ∀ th ∈ threads, waits th = false) →
      Signals b waits threads threads
  | one {m : Nat} {th : Thread size} : threads[m]? = some th → waits th = true →
      Signals b waits threads (threads.set m th.wake)

/-- What a step can do. -/
inductive Moves (b : Backend) (s : State size) : State size → Prop
  | spawn : Moves b s { s with threads := s.threads ++ [.idle none] }
  | settle {n : Nat} {th th' : Thread size} : s.threads[n]? = some th →
      Settles b s.queue th th' → Moves b s { s with threads := s.threads.set n th' }
  | put {n : Nat} {th : Thread size} {item : Item size} {threads : List (Thread size)} :
      s.threads[n]? = some th → Sending item th → s.queue.count < s.queue.capacity →
      Signals b (Thread.receives .asleep) (s.threads.set n (.idle (some .ok))) threads →
      Moves b s ⟨s.queue.put item, threads, s.sent ++ [item], s.received⟩
  | take {n : Nat} {th : Thread size} {threads : List (Thread size)} :
      s.threads[n]? = some th → Receiving th → s.queue.count ≠ 0 →
      Signals b (Thread.sends .asleep) (s.threads.set n (.idle (some .ok))) threads →
      Moves b s ⟨s.queue.take, threads, s.sent, s.received ++ [s.queue.front]⟩

variable {b : Backend} {s s' : State size} {n : Nat} {th : Thread size}

theorem signals_of_signal {waits : Thread size → Bool} {signalled : Option Nat}
    (h : s.signal b waits signalled = some s') :
    ∃ threads, Signals b waits s.threads threads ∧ s' = { s with threads := threads } := by
  cases signalled with
  | none =>
      rw [State.signal] at h
      split at h
      case isTrue => cases h
      case isFalse hnone =>
        cases h
        refine ⟨s.threads, .nobody (fun hb th hth => ?_), rfl⟩
        by_contra hw
        refine hnone ?_
        rw [hb, Bool.true_and]
        exact List.any_eq_true.mpr ⟨th, hth, eq_true_of_ne_false hw⟩
  | some m =>
      rw [State.signal] at h
      split at h
      case h_1 th hm =>
        split at h
        case isTrue hw =>
          cases h
          exact ⟨_, .one hm (Bool.and_eq_true_iff.mp hw).2, rfl⟩
        case isFalse => cases h
      case h_2 => cases h

theorem moves_of_trySend {item : Item size} {timeout : Timeout} {signalled : Option Nat}
    (hn : s.threads[n]? = some th) (hth : Sending item th)
    (h : s.trySend b n item timeout signalled = some s')
    (hwait : timeout = .noWait → ∃ last, th = .idle last) : Moves b s s' := by
  unfold State.trySend at h
  split at h
  case isTrue hroom =>
    obtain ⟨threads, hsignals, rfl⟩ := signals_of_signal h
    exact .put hn hth hroom hsignals
  case isFalse hfull =>
    cases timeout with
    | noWait =>
        cases h
        obtain ⟨last, rfl⟩ := hwait rfl
        exact .settle hn .idle
    | wait timed =>
        cases h
        exact .settle hn (.sendWaits hth (Nat.le_of_not_lt hfull))

theorem moves_of_tryReceive {timeout : Timeout} {signalled : Option Nat}
    (hn : s.threads[n]? = some th) (hth : Receiving th)
    (h : s.tryReceive b n timeout signalled = some s')
    (hwait : timeout = .noWait → ∃ last, th = .idle last) : Moves b s s' := by
  unfold State.tryReceive at h
  split at h
  case isTrue hempty =>
    cases timeout with
    | noWait =>
        cases h
        obtain ⟨last, rfl⟩ := hwait rfl
        exact .settle hn .idle
    | wait timed =>
        cases h
        exact .settle hn (.receiveWaits hth hempty)
  case isFalse hne =>
    obtain ⟨threads, hsignals, rfl⟩ := signals_of_signal h
    exact .take hn hth hne hsignals

theorem moves_of_resume {expired : Bool} {signalled : Option Nat} (hn : s.threads[n]? = some th)
    (h : s.resume b n expired signalled th = some s') : Moves b s s' := by
  cases th with
  | idle last => cases h
  | sender item timed phase =>
      cases phase with
      | asleep => cases h
      | woken =>
          rw [State.resume] at h
          split at h
          case isTrue hexpired =>
            cases h
            have hb : b.condvars = false := by
              simp only [Bool.and_eq_true, Bool.not_eq_true'] at hexpired
              exact hexpired.1.1
            exact .settle hn (.sendFails (.inr hb) (b.full_ne false))
          case isFalse => exact moves_of_trySend hn (.inr ⟨timed, rfl⟩) h nofun
      | timedOut =>
          cases h
          exact .settle hn (.sendFails (.inl rfl) (b.full_ne false))
  | receiver timed phase =>
      cases phase with
      | asleep => cases h
      | woken =>
          rw [State.resume] at h
          split at h
          case isTrue hexpired =>
            cases h
            have hb : b.condvars = false := by
              simp only [Bool.and_eq_true, Bool.not_eq_true'] at hexpired
              exact hexpired.1.1
            exact .settle hn (.receiveFails (.inr hb) (b.empty_ne false))
          case isFalse => exact moves_of_tryReceive hn (.inr ⟨timed, rfl⟩) h nofun
      | timedOut =>
          cases h
          exact .settle hn (.receiveFails (.inl rfl) (b.empty_ne false))

theorem moves_of_step {a : Action size} (h : s.step b a = some s') : Moves b s s' := by
  cases a with
  | spawn =>
      cases h
      exact .spawn
  | send n item timeout signalled =>
      dsimp only [State.step] at h
      split at h
      case h_1 last hn => exact moves_of_trySend hn (.inl ⟨last, rfl⟩) h (fun _ => ⟨last, rfl⟩)
      case h_2 => cases h
  | receive n timeout signalled =>
      dsimp only [State.step] at h
      split at h
      case h_1 last hn => exact moves_of_tryReceive hn (.inl ⟨last, rfl⟩) h (fun _ => ⟨last, rfl⟩)
      case h_2 => cases h
  | peek n =>
      dsimp only [State.step] at h
      split at h
      case h_1 last hn =>
        cases h
        exact .settle hn .idle
      case h_2 => cases h
  | resume n expired signalled =>
      obtain ⟨th, hn, hr⟩ := Option.bind_eq_some_iff.mp h
      exact moves_of_resume hn hr
  | wakeUp n =>
      obtain ⟨th, hn, hr⟩ := Option.bind_eq_some_iff.mp h
      rw [State.wakeUp] at hr
      split at hr
      case isTrue hasleep =>
        cases hr
        exact .settle hn (.wakes (Bool.or_eq_true_iff.mp hasleep))
      case isFalse => cases hr
  | expire n =>
      obtain ⟨th, hn, hr⟩ := Option.bind_eq_some_iff.mp h
      unfold State.expire at hr
      split at hr
      case h_1 =>
        cases hr
        exact .settle hn .sendExpires
      case h_2 =>
        cases hr
        exact .settle hn .receiveExpires
      case h_3 => cases hr

/-! ### First in, first out -/

/-- The ring is in order, and holds what was sent and not received yet. -/
structure Fifo (capacity : Nat) (s : State size) : Prop where
  ok : s.queue.ring.Ok
  capacity_eq : s.queue.capacity = capacity
  sent : s.sent = s.received ++ s.queue.ring.contents

theorem Fifo.of_moves {capacity : Nat} (h : Fifo capacity s) (hm : Moves b s s') :
    Fifo capacity s' := by
  cases hm with
  | spawn => exact ⟨h.ok, h.capacity_eq, h.sent⟩
  | settle hn hth => exact ⟨h.ok, h.capacity_eq, h.sent⟩
  | @put n th item threads hn hth hroom hsignals =>
      refine ⟨?_, h.capacity_eq, ?_⟩
      · rw [QueueObj.ring_put]
        exact h.ok.push hroom item
      · rw [QueueObj.ring_put, h.ok.contents_push hroom item, h.sent, List.append_assoc]
  | take hn hth hne hsignals =>
      refine ⟨?_, h.capacity_eq, ?_⟩
      · rw [QueueObj.ring_take]
        exact h.ok.pop hne
      · rw [QueueObj.ring_take, h.sent, h.ok.contents_pop hne, List.append_assoc]
        rfl

theorem Fifo.of_reachable {buf : Nat → UInt8} {capacity : Nat} (hpos : 0 < capacity)
    (h : (machine b size buf capacity).Reachable s) : Fifo capacity s := by
  refine h.invariant (I := Fifo capacity) ?_ (fun s a s' _ hi hs => hi.of_moves (moves_of_step hs))
  exact ⟨⟨hpos, Nat.zero_le _, (Nat.zero_mod _).symm⟩, rfl, rfl⟩

end MicrOsal.Queue
