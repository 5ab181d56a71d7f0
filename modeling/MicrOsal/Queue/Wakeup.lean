import MicrOsal.Queue.Fifo
import MicrOsal.Lib.Waiters

/-!
# MicrOsal.Queue.Wakeup

Every send and every receive signals one waiter, however many there are. That is enough: while
a receiver sleeps, there are at least as many receivers on their way as there are items
(`Owed`). A new sleeper has found the queue empty, a new item has woken a sleeper, and a
receiver that is on its way takes an item with it when it is gone.
-/

namespace MicrOsal.Queue

variable {size : Nat} {b : Backend} {s s' : State size}

variable {sleeps woken : Thread size → Bool} {threads threads' : List (Thread size)}
  {things n : Nat} {th th' : Thread size}

/-- One thing more, and a signal. -/
theorem Signals.put (hsignals : Signals b sleeps threads threads') (hb : b.condvars = true)
    (h : Owed sleeps woken threads things)
    (hwake : ∀ th : Thread size, sleeps th = true →
      woken th = false ∧ woken th.wake = true) :
    Owed sleeps woken threads' (things + 1) := by
  cases hsignals with
  | nobody hnone => exact .of_nobody (hnone hb)
  | @one m th hm hs => exact h.put hm hs (hwake th hs).1 (hwake th hs).2

/-- A signal to threads that are on the other side. -/
theorem Signals.other {waits : Thread size → Bool} (hsignals : Signals b waits threads threads')
    (h : Owed sleeps woken threads things)
    (hother : ∀ th : Thread size, waits th = true →
      sleeps th = false ∧ sleeps th.wake = false ∧ woken th = false) :
    Owed sleeps woken threads' things := by
  cases hsignals with
  | nobody => exact h
  | @one m th hm hs =>
      obtain ⟨hs, hs', hw⟩ := hother th hs
      refine h.settle hm (fun ht => ?_) (fun ht => ?_)
      · rw [hs'] at ht
        cases ht
      · rw [hw] at ht
        cases ht

/-! ### The two sides -/

/-- No receiver sleeps on an item, and no sender on a free slot. -/
structure Wakes (s : State size) : Prop where
  receivers : Owed (Thread.receives .asleep) (Thread.receives .woken) s.threads s.queue.count
  senders : Owed (Thread.sends .asleep) (Thread.sends .woken) s.threads s.queue.free

theorem wake_receiver {th : Thread size} (h : th.receives .asleep = true) :
    th.receives .woken = false ∧ th.wake.receives .woken = true := by
  cases th with
  | receiver timed phase =>
      obtain rfl := of_decide_eq_true h
      exact ⟨rfl, rfl⟩
  | _ => cases h

theorem wake_sender {th : Thread size} (h : th.sends .asleep = true) :
    th.sends .woken = false ∧ th.wake.sends .woken = true := by
  cases th with
  | sender item timed phase =>
      obtain rfl := of_decide_eq_true h
      exact ⟨rfl, rfl⟩
  | _ => cases h

/-- A thread on one side is not on the other. -/
theorem sends_of_receives {th : Thread size} {phase : Phase} (h : th.receives phase = true)
    (phase' : Phase) : th.sends phase' = false ∧ th.wake.sends phase' = false := by
  cases th with
  | receiver timed p => exact ⟨rfl, rfl⟩
  | _ => cases h

theorem receives_of_sends {th : Thread size} {phase : Phase} (h : th.sends phase = true)
    (phase' : Phase) : th.receives phase' = false ∧ th.wake.receives phase' = false := by
  cases th with
  | sender item timed p => exact ⟨rfl, rfl⟩
  | _ => cases h

theorem Sending.receives {item : Item size} (h : Sending item th) (phase : Phase) :
    th.receives phase = false := by
  obtain ⟨last, rfl⟩ | ⟨timed, rfl⟩ := h <;> rfl

theorem Receiving.sends (h : Receiving th) (phase : Phase) : th.sends phase = false := by
  obtain ⟨last, rfl⟩ | ⟨timed, rfl⟩ := h <;> rfl

theorem Settles.receivers {q : QueueObj size} (h : Settles b q th th') (hb : b.condvars = true) :
    (th'.receives .asleep = true → th.receives .asleep = true ∨ q.count = 0) ∧
      (th.receives .woken = true → th'.receives .woken = true ∨ q.count = 0) := by
  cases h with
  | idle => exact ⟨nofun, nofun⟩
  | sendWaits hth hfull => exact ⟨nofun, fun ht => nomatch (hth.receives _).symm.trans ht⟩
  | receiveWaits hth hempty => exact ⟨fun _ => .inr hempty, fun _ => .inr hempty⟩
  | wakes hth =>
      rcases hth with hth | hth
      · exact ⟨fun ht => (nomatch (receives_of_sends hth _).2.symm.trans ht),
          fun ht => (nomatch (receives_of_sends hth _).1.symm.trans ht)⟩
      · exact ⟨fun _ => .inl hth, fun _ => .inl (wake_receiver hth).2⟩
  | sendExpires => exact ⟨nofun, nofun⟩
  | receiveExpires => exact ⟨nofun, nofun⟩
  | sendFails => exact ⟨nofun, nofun⟩
  | receiveFails hphase =>
      obtain rfl := hphase.resolve_right (by rw [hb]; nofun)
      exact ⟨nofun, nofun⟩

theorem Settles.senders {q : QueueObj size} (h : Settles b q th th') (hb : b.condvars = true) :
    (th'.sends .asleep = true → th.sends .asleep = true ∨ q.free = 0) ∧
      (th.sends .woken = true → th'.sends .woken = true ∨ q.free = 0) := by
  cases h with
  | idle => exact ⟨nofun, nofun⟩
  | sendWaits hth hfull =>
      have hfree : q.free = 0 := Nat.sub_eq_zero_of_le hfull
      exact ⟨fun _ => .inr hfree, fun _ => .inr hfree⟩
  | receiveWaits hth hempty => exact ⟨nofun, fun ht => nomatch (hth.sends _).symm.trans ht⟩
  | wakes hth =>
      rcases hth with hth | hth
      · exact ⟨fun _ => .inl hth, fun _ => .inl (wake_sender hth).2⟩
      · exact ⟨fun ht => (nomatch (sends_of_receives hth _).2.symm.trans ht),
          fun ht => (nomatch (sends_of_receives hth _).1.symm.trans ht)⟩
  | sendExpires => exact ⟨nofun, nofun⟩
  | receiveExpires => exact ⟨nofun, nofun⟩
  | sendFails hphase =>
      obtain rfl := hphase.resolve_right (by rw [hb]; nofun)
      exact ⟨nofun, nofun⟩
  | receiveFails => exact ⟨nofun, nofun⟩

theorem Wakes.of_moves (h : Wakes s) (hb : b.condvars = true)
    (hle : s.queue.count ≤ s.queue.capacity) (hm : Moves b s s') : Wakes s' := by
  cases hm with
  | spawn => exact ⟨h.receivers.concat rfl, h.senders.concat rfl⟩
  | settle hn hth =>
      obtain ⟨hrs, hrw⟩ := hth.receivers hb
      obtain ⟨hss, hsw⟩ := hth.senders hb
      exact ⟨h.receivers.settle hn hrs hrw, h.senders.settle hn hss hsw⟩
  | @put n th item threads hn hth hroom hsignals =>
      have hfree : s.queue.free = (s.queue.put item).free + 1 := by
        dsimp only [QueueObj.free, QueueObj.put]
        omega
      have hreceivers : Owed (Thread.receives .asleep) (Thread.receives .woken)
          (s.threads.set n (.idle (some .ok))) s.queue.count :=
        h.receivers.settle hn nofun (fun ht => nomatch (hth.receives _).symm.trans ht)
      have hsenders := h.senders
      rw [hfree] at hsenders
      refine ⟨hsignals.put hb hreceivers (fun th ht => wake_receiver ht),
        hsignals.other (hsenders.take hn rfl) (fun th ht => ?_)⟩
      exact ⟨(sends_of_receives ht _).1, (sends_of_receives ht _).2, (sends_of_receives ht _).1⟩
  | @take n th threads hn hth hne hsignals =>
      have hcount : s.queue.count = s.queue.take.count + 1 := by
        dsimp only [QueueObj.take]
        omega
      have hfree : s.queue.take.free = s.queue.free + 1 := by
        dsimp only [QueueObj.free, QueueObj.take]
        omega
      have hsenders : Owed (Thread.sends .asleep) (Thread.sends .woken)
          (s.threads.set n (.idle (some .ok))) s.queue.free :=
        h.senders.settle hn nofun (fun ht => nomatch (hth.sends _).symm.trans ht)
      have hreceivers := h.receivers
      rw [hcount] at hreceivers
      refine ⟨hsignals.other (hreceivers.take hn rfl) (fun th ht => ?_), ?_⟩
      · exact ⟨(receives_of_sends ht _).1, (receives_of_sends ht _).2,
          (receives_of_sends ht _).1⟩
      · rw [hfree]
        exact hsignals.put hb hsenders (fun th ht => wake_sender ht)

theorem Wakes.of_reachable {buf : Nat → UInt8} {capacity : Nat} (hpos : 0 < capacity)
    (hb : b.condvars = true) (h : (machine b size buf capacity).Reachable s) : Wakes s := by
  refine h.invariant (I := Wakes) ⟨fun hpos => ?_, fun hpos => ?_⟩ (fun s a s' hs hi hstep => ?_)
  · exact absurd hpos (Nat.lt_irrefl 0)
  · exact absurd hpos (Nat.lt_irrefl 0)
  exact hi.of_moves hb (Fifo.of_reachable hpos hs).ok.count_le (moves_of_step hstep)

/-! ### The three backends -/

/-- A signal leaves a thread alone that does not wait for it. -/
theorem Signals.getElem?_eq {waits : Thread size → Bool} (h : Signals b waits threads threads')
    (hn : threads[n]? = some th) (hth : waits th = false) : threads'[n]? = some th := by
  cases h with
  | nobody => exact hn
  | @one m th' hm hw =>
      rw [List.getElem?_set_ne, hn]
      rintro rfl
      obtain rfl := Option.some.inj (hm.symm.trans hn)
      rw [hth] at hw
      cases hw

theorem queue_of_trySend {item : Item size} {timeout : Timeout} {signalled : Option Nat}
    (hn : n < s.threads.length) (h : s.trySend b n item timeout signalled = some s') :
    s'.queue = s.queue ∨ s'.threads[n]? = some (.idle (some .ok)) := by
  unfold State.trySend at h
  split at h
  case isTrue =>
    obtain ⟨threads, hsignals, rfl⟩ := signals_of_signal h
    exact .inr (hsignals.getElem?_eq (List.getElem?_set_self hn) rfl)
  case isFalse =>
    cases timeout with
    | noWait =>
        cases h
        exact .inl rfl
    | wait timed =>
        cases h
        exact .inl rfl

theorem queue_of_tryReceive {timeout : Timeout} {signalled : Option Nat}
    (hn : n < s.threads.length) (h : s.tryReceive b n timeout signalled = some s') :
    s'.queue = s.queue ∨ s'.threads[n]? = some (.idle (some .ok)) := by
  unfold State.tryReceive at h
  split at h
  case isTrue =>
    cases timeout with
    | noWait =>
        cases h
        exact .inl rfl
    | wait timed =>
        cases h
        exact .inl rfl
  case isFalse =>
    obtain ⟨threads, hsignals, rfl⟩ := signals_of_signal h
    exact .inr (hsignals.getElem?_eq (List.getElem?_set_self hn) rfl)

theorem queue_of_peek (h : s.step b (.peek n) = some s') : s'.queue = s.queue := by
  dsimp only [State.step] at h
  split at h
  case h_1 =>
    cases h
    rfl
  case h_2 => cases h

theorem queue_of_resume {expired : Bool} {signalled : Option Nat} (hn : n < s.threads.length)
    (h : s.resume b n expired signalled th = some s') :
    s'.queue = s.queue ∨ s'.threads[n]? = some (.idle (some .ok)) := by
  unfold State.resume at h
  split at h
  case h_2 =>
    split at h
    case isTrue =>
      cases h
      exact .inl rfl
    case isFalse => exact queue_of_trySend hn h
  case h_3 =>
    split at h
    case isTrue =>
      cases h
      exact .inl rfl
    case isFalse => exact queue_of_tryReceive hn h
  case h_4 | h_5 =>
    cases h
    exact .inl rfl
  all_goals cases h

/-- Only a call that ends with success changes the queue. -/
theorem queue_of_step {a : Action size} (h : s.step b a = some s') (hn : a.caller = some n) :
    s'.queue = s.queue ∨ s'.threads[n]? = some (.idle (some .ok)) := by
  cases a with
  | spawn => cases hn
  | send m item timeout signalled =>
      cases hn
      dsimp only [State.step] at h
      split at h
      case h_1 last hm => exact queue_of_trySend (List.getElem?_eq_some_iff.mp hm).1 h
      case h_2 => cases h
  | receive m timeout signalled =>
      cases hn
      dsimp only [State.step] at h
      split at h
      case h_1 last hm => exact queue_of_tryReceive (List.getElem?_eq_some_iff.mp hm).1 h
      case h_2 => cases h
  | peek m => exact .inl (queue_of_peek h)
  | resume m expired signalled =>
      cases hn
      obtain ⟨th, hm, hr⟩ := Option.bind_eq_some_iff.mp h
      exact queue_of_resume (List.getElem?_eq_some_iff.mp hm).1 hr
  | wakeUp m =>
      obtain ⟨th, hm, hr⟩ := Option.bind_eq_some_iff.mp h
      unfold State.wakeUp at hr
      split at hr
      case isTrue =>
        cases hr
        exact .inl rfl
      case isFalse => cases hr
  | expire m =>
      obtain ⟨th, hm, hr⟩ := Option.bind_eq_some_iff.mp h
      unfold State.expire at hr
      split at hr
      case h_1 | h_2 =>
        cases hr
        exact .inl rfl
      case h_3 => cases hr

/-- A send that does not wait does what `exec` says. -/
theorem exec_of_send {item : Item size} {signalled : Option Nat}
    (h : s.step b (.send n item .noWait signalled) = some s') :
    s'.queue = (s.queue.exec b (.send item)).2 ∧
      (s'.threads[n]? = some (.idle (some .ok)) ↔
        (s.queue.exec b (.send item)).1.success = true) := by
  dsimp only [State.step] at h
  split at h
  case h_2 => cases h
  case h_1 last hn =>
    have hlt : n < s.threads.length := (List.getElem?_eq_some_iff.mp hn).1
    unfold State.trySend at h
    dsimp only [QueueObj.exec]
    split at h
    case isTrue hroom =>
      obtain ⟨threads, hsignals, rfl⟩ := signals_of_signal h
      rw [if_pos hroom]
      exact ⟨rfl, fun _ => rfl,
        fun _ => hsignals.getElem?_eq (List.getElem?_set_self hlt) rfl⟩
    case isFalse hfull =>
      cases h
      rw [if_neg hfull]
      refine ⟨rfl, fun hok => ?_, fun hok => ?_⟩
      · have hcode := (List.getElem?_set_self hlt).symm.trans hok
        simp only [Option.some.injEq, Thread.idle.injEq] at hcode
        exact absurd hcode (b.full_ne true)
      · exact absurd (of_decide_eq_true hok) (b.full_ne true)

/-- So does a receive. -/
theorem exec_of_receive {signalled : Option Nat}
    (h : s.step b (.receive n .noWait signalled) = some s') :
    s'.queue = (s.queue.exec b .receive).2 ∧
      (s'.threads[n]? = some (.idle (some .ok)) ↔
        (s.queue.exec b .receive).1.success = true) := by
  dsimp only [State.step] at h
  split at h
  case h_2 => cases h
  case h_1 last hn =>
    have hlt : n < s.threads.length := (List.getElem?_eq_some_iff.mp hn).1
    unfold State.tryReceive at h
    dsimp only [QueueObj.exec]
    split at h
    case isTrue hempty =>
      cases h
      rw [if_pos hempty]
      refine ⟨rfl, fun hok => ?_, fun hok => ?_⟩
      · have hcode := (List.getElem?_set_self hlt).symm.trans hok
        simp only [Option.some.injEq, Thread.idle.injEq] at hcode
        exact absurd hcode (b.empty_ne true)
      · exact absurd (of_decide_eq_true hok) (b.empty_ne true)
    case isFalse hne =>
      obtain ⟨threads, hsignals, rfl⟩ := signals_of_signal h
      rw [if_neg hne]
      exact ⟨rfl, fun _ => rfl,
        fun _ => hsignals.getElem?_eq (List.getElem?_set_self hlt) rfl⟩

/-- A bounded queue that loses nothing, and no waiter that sleeps on what it waits for. -/
structure QueueOk (b : Backend) (capacity : Nat) (s : State size) : Prop where
  count_le : s.queue.count ≤ capacity
  tail_eq : s.queue.tail = (s.queue.head + s.queue.count) % capacity
  /-- The items received are those sent, in order; the rest is in the queue. -/
  fifo : s.sent = s.received ++ s.queue.ring.contents
  /-- A step of a thread that does not end a call with success leaves the queue as it is. -/
  unchanged : ∀ (a : Action size) (s' : State size) (n : Nat), s.step b a = some s' →
    a.caller = some n → s'.threads[n]? ≠ some (.idle (some .ok)) → s'.queue = s.queue
  peek : ∀ (n : Nat) (s' : State size), s.step b (.peek n) = some s' → s'.queue = s.queue
  /-- A call that does not wait does what `exec` says. -/
  sends : ∀ (n : Nat) (item : Item size) (signalled : Option Nat) (s' : State size),
    s.step b (.send n item .noWait signalled) = some s' →
    s'.queue = (s.queue.exec b (.send item)).2 ∧
      (s'.threads[n]? = some (.idle (some .ok)) ↔
        (s.queue.exec b (.send item)).1.success = true)
  receives : ∀ (n : Nat) (signalled : Option Nat) (s' : State size),
    s.step b (.receive n .noWait signalled) = some s' →
    s'.queue = (s.queue.exec b .receive).2 ∧
      (s'.threads[n]? = some (.idle (some .ok)) ↔
        (s.queue.exec b .receive).1.success = true)
  /-- No receiver sleeps on an item that no other is on its way to. -/
  receivers : b.condvars = true → (∃ th ∈ s.threads, th.receives .asleep = true) →
    s.queue.count ≤ s.threads.countP (Thread.receives .woken)
  /-- No sender sleeps on a free slot that no other is on its way to. -/
  senders : b.condvars = true → (∃ th ∈ s.threads, th.sends .asleep = true) →
    s.queue.free ≤ s.threads.countP (Thread.sends .woken)

theorem QueueOk.of_reachable {buf : Nat → UInt8} {capacity : Nat} (hpos : 0 < capacity)
    (h : (machine b size buf capacity).Reachable s) : QueueOk b capacity s := by
  have hfifo := Fifo.of_reachable hpos h
  constructor
  case count_le => exact hfifo.ok.count_le.trans_eq hfifo.capacity_eq
  case tail_eq =>
    rw [← hfifo.capacity_eq]
    exact hfifo.ok.tail_eq
  case fifo => exact hfifo.sent
  case unchanged =>
    intro a s' n hstep hcaller hend
    exact (queue_of_step hstep hcaller).resolve_right hend
  case peek => exact fun n s' hstep => queue_of_peek hstep
  case sends => exact fun n item signalled s' hstep => exec_of_send hstep
  case receives => exact fun n signalled s' hstep => exec_of_receive hstep
  case receivers =>
    intro hb hsleeps
    exact (Wakes.of_reachable hpos hb h).receivers (List.countP_pos_iff.mpr hsleeps)
  case senders =>
    intro hb hsleeps
    exact (Wakes.of_reachable hpos hb h).senders (List.countP_pos_iff.mpr hsleeps)

/-- The queues of the three backends are one bounded queue. -/
theorem queues_refine (size : Nat) (buf : Nat → UInt8) (capacity : Nat) (hpos : 0 < capacity) :
    (∀ b ∈ [linux, posix, bareMetal], ∀ s : State size,
      (machine b size buf capacity).Reachable s → QueueOk b capacity s) ∧
    ∀ b ∈ [linux, posix, bareMetal], ∀ b' ∈ [linux, posix, bareMetal],
      ∀ ops : List (Op size),
        (((QueueObj.create size buf capacity).execAll b ops).1.map Reply.visible =
          ((QueueObj.create size buf capacity).execAll b' ops).1.map Reply.visible) ∧
        ((QueueObj.create size buf capacity).execAll b ops).2 =
          ((QueueObj.create size buf capacity).execAll b' ops).2 := by
  constructor
  · intro b _ s hs
    exact QueueOk.of_reachable hpos hs
  · intro b _ b' _ ops
    exact QueueObj.execAll_eq b b' _ ops

/-- Two receivers fall asleep, and a send wakes one of them. -/
def twoSleepers : List (Action 1) :=
  [.spawn, .spawn, .spawn, .receive 0 (.wait false) none, .receive 1 (.wait true) none,
    .send 2 #v[7] .noWait (some 0)]

theorem queues_refine_sleepers : ∃ s, (machine linux 1 (fun _ => 0) 1).Reachable s ∧
    s.threads = [.receiver false .woken, .receiver true .asleep, .idle (some .ok)] ∧
    s.queue.count = 1 ∧ QueueOk linux 1 s := by
  have hrun : ((machine linux 1 (fun _ => 0) 1).run (machine linux 1 (fun _ => 0) 1).init
      twoSleepers).map (fun s => (s.threads, s.queue.count)) =
      some ([.receiver false .woken, .receiver true .asleep, .idle (some .ok)], 1) := by
    decide +kernel
  obtain ⟨s, hs, hfields⟩ := Option.map_eq_some_iff.mp hrun
  have hreach := Machine.Reachable.of_run hs
  refine ⟨s, hreach, congrArg Prod.fst hfields, congrArg Prod.snd hfields, ?_⟩
  exact (queues_refine 1 (fun _ => 0) 1 Nat.one_pos).1 linux List.mem_cons_self s hreach

end MicrOsal.Queue
