import MicrOsal.ChibiosQueue.Indices
import MicrOsal.Queue.Fifo

/-!
# MicrOsal.ChibiosQueue.Fifo

The entries in the ready mailbox hold what was sent and not fetched yet (`Contents`). An item
that is fetched has a number, which one call has until it returns the item. A call writes to
the entry it holds, which no other call and no mailbox has.
-/

namespace MicrOsal.ChibiosQueue

open MicrOsal.Queue (Item Timeout copyIn copyOut)

variable {size capacity n i k : Nat} {s s' : State size} {th th' : Thread size}
  {item : Item size} {q q' : MailboxSlot size}

theorem MailboxSlot.entry_write (q : MailboxSlot size) (i : Nat) (item : Item size) :
    (q.write i item).entry i = item := Queue.copyOut_copyIn ..

theorem MailboxSlot.entry_write_ne {j : Nat} (hij : i ≠ j) (q : MailboxSlot size)
    (item : Item size) : (q.write j item).entry i = q.entry i := Queue.copyOut_copyIn_ne _ hij _

/-- What a call knows of the item whose entry it holds. -/
def Thread.Right (q : MailboxSlot size) (fetched : List (Item size)) : Thread size → Prop
  | .postsReady item i => q.entry i = item
  | .copiesOut i k => fetched[k]? = some (q.entry i)
  | .postsFree item _ k => fetched[k]? = some item
  | _ => True

theorem Thread.Right.of_none {fetched : List (Item size)} (h : th.held = none) :
    th.Right q fetched := by
  cases th with
  | idle | sendWaits | receiveWaits => trivial
  | copiesIn | postsReady | givesBack | copiesOut | postsFree => cases h

theorem getElem?_of_prefix {l l' : List (Item size)} (hsofar : l <+: l')
    (hk : l[k]? = some item) : l'[k]? = some item := by
  obtain ⟨more, rfl⟩ := hsofar
  rw [List.getElem?_append_left (List.getElem?_eq_some_iff.mp hk).1]
  exact hk

/-- Other entries, and items fetched later, do not matter. -/
theorem Thread.Right.frame {fetched fetched' : List (Item size)} (h : th.Right q fetched)
    (hsofar : fetched <+: fetched')
    (hentry : ∀ i, th.held = some i → q'.entry i = q.entry i) : th.Right q' fetched' := by
  cases th with
  | postsReady item i => exact (hentry i rfl).trans h
  | copiesOut i k =>
      show fetched'[k]? = some (q'.entry i)
      rw [hentry i rfl]
      exact getElem?_of_prefix hsofar h
  | postsFree item i k => exact getElem?_of_prefix hsofar h
  | idle | sendWaits | copiesIn | givesBack | receiveWaits => trivial

theorem Thread.ticket_of_none (h : th.held = none) : th.ticket = none := by
  cases th with
  | idle | sendWaits | receiveWaits => rfl
  | copiesIn | postsReady | givesBack | copiesOut | postsFree => cases h

/-- The items are where they should be. -/
structure Contents (s : State size) : Prop where
  sent : s.sent = s.fetched ++ s.queue.ready.messages.map s.queue.entry
  threads : ∀ (n : Nat) (th : Thread size), s.threads[n]? = some th →
    th.Right s.queue s.fetched
  returned : ∀ (k : Nat) (item : Item size), (k, item) ∈ s.returned →
    s.fetched[k]? = some item
  /-- An item that was fetched is with one call, or was returned once. -/
  tickets : ∀ k, s.returned.countP (fun r => r.1 = k) + s.threads.countP (Thread.hasTicket k) =
    if k < s.fetched.length then 1 else 0

theorem hasTicket_of_none (h : th.ticket = none) :
    (if th.hasTicket k = true then 1 else 0) = 0 := by
  simp [Thread.hasTicket, h]

theorem hasTicket_of_some {j : Nat} (h : th.ticket = some j) :
    (if th.hasTicket k = true then 1 else 0) = if j = k then 1 else 0 := by
  simp [Thread.hasTicket, h]

/-- One thread changes, and entries that nobody else holds. -/
theorem Contents.threads_set {fetched : List (Item size)} (h : Contents s)
    (hsofar : s.fetched <+: fetched) (hthis : th'.Right q' fetched)
    (hentry : ∀ (m i : Nat) (t : Thread size), m ≠ n → s.threads[m]? = some t →
      t.held = some i → q'.entry i = s.queue.entry i) :
    ∀ (m : Nat) (t : Thread size), (s.threads.set n th')[m]? = some t →
      t.Right q' fetched := by
  intro m t ht
  rcases getElem?_set_cases ht with ⟨rfl, rfl⟩ | ⟨hne, ht⟩
  · exact hthis
  · exact (h.threads m t ht).frame hsofar (fun i hi => hentry m i t hne ht hi)

/-- The thread keeps its item, or has none before and after. -/
theorem Contents.tickets_set (h : Contents s) (hn : s.threads[n]? = some th)
    (hticket : th'.ticket = th.ticket) (k : Nat) :
    s.returned.countP (fun r => r.1 = k) +
        (s.threads.set n th').countP (Thread.hasTicket k) =
      if k < s.fetched.length then 1 else 0 := by
  have hold := h.tickets k
  have hset := countP_set (b := th') (Thread.hasTicket k) hn
  have hsame : th'.hasTicket k = th.hasTicket k := by
    rw [Thread.hasTicket, Thread.hasTicket, hticket]
  rw [hsame] at hset
  omega

theorem Contents.of_moves (hp : Places capacity s) (h : Contents s) (hm : Moves s s') :
    Contents s' := by
  cases hm with
  | spawn =>
      refine ⟨h.sent, fun m t ht => ?_, h.returned, fun k => ?_⟩
      · rcases getElem?_concat_cases ht with ht | ⟨-, rfl⟩
        · exact h.threads m t ht
        · trivial
      · rw [← h.tickets k]
        simp [List.countP_append, Thread.hasTicket, Thread.ticket]
  | settle hn hth hth' =>
      refine ⟨h.sent, ?_, h.returned, h.tickets_set hn ?_⟩
      · exact h.threads_set List.prefix_rfl (.of_none hth') (fun _ _ _ _ _ _ => rfl)
      · rw [Thread.ticket_of_none hth, Thread.ticket_of_none hth']
  | @fetchFree n j th item rest hn hth hfree =>
      refine ⟨h.sent, ?_, h.returned, h.tickets_set hn (Thread.ticket_of_none hth).symm⟩
      exact h.threads_set List.prefix_rfl trivial (fun _ _ _ _ _ _ => rfl)
  | @copyIn n j item hn =>
      refine ⟨?_, ?_, h.returned, h.tickets_set hn rfl⟩
      · show s.sent = s.fetched ++ s.queue.ready.messages.map (s.queue.write j item).entry
        rw [h.sent]
        congr 1
        refine List.map_congr_left (fun i hi => (MailboxSlot.entry_write_ne ?_ _ _).symm)
        rintro rfl
        exact (hp.not_mem hn rfl).1 hi
      · refine h.threads_set List.prefix_rfl (MailboxSlot.entry_write ..) ?_
        intro m i t hne ht hi
        refine MailboxSlot.entry_write_ne ?_ _ _
        rintro rfl
        exact hne (hp.eq_of_held ht hn hi rfl)
  | @postReady n j item hn =>
      have hitem : s.queue.entry j = item := h.threads n _ hn
      refine ⟨?_, ?_, h.returned, h.tickets_set hn rfl⟩
      · show s.sent ++ [item] =
          s.fetched ++ (s.queue.ready.messages ++ [j]).map s.queue.entry
        rw [h.sent, List.map_append, List.append_assoc, ← hitem]
        rfl
      · exact h.threads_set List.prefix_rfl trivial (fun _ _ _ _ _ _ => rfl)
  | @fetchReady n j th rest hn hth hready =>
      have hsofar : s.fetched <+: s.fetched ++ [s.queue.entry j] := List.prefix_append ..
      refine ⟨?_, ?_, fun k item hk => getElem?_of_prefix hsofar (h.returned k item hk),
        fun k => ?_⟩
      · show s.sent = (s.fetched ++ [s.queue.entry j]) ++ rest.map s.queue.entry
        rw [h.sent, hready, List.append_assoc]
        rfl
      · refine h.threads_set hsofar ?_ (fun _ _ _ _ _ _ => rfl)
        exact List.getElem?_concat_length
      · have hold := h.tickets k
        have hset := countP_set (b := Thread.copiesOut j s.fetched.length) (Thread.hasTicket k) hn
        rw [hasTicket_of_none (Thread.ticket_of_none hth), hasTicket_of_some rfl] at hset
        rw [List.length_append, List.length_singleton]
        show s.returned.countP _ + (s.threads.set n _).countP _ = _
        split at hset <;> split at hold <;> split <;> omega
  | @copyOut n j k hn =>
      refine ⟨h.sent, ?_, h.returned, h.tickets_set hn rfl⟩
      have hread := h.threads n _ hn
      exact h.threads_set List.prefix_rfl hread (fun _ _ _ _ _ _ => rfl)
  | @postFree n j k item hn =>
      refine ⟨h.sent, ?_, fun k' item' hk' => ?_, fun k' => ?_⟩
      · exact h.threads_set List.prefix_rfl trivial (fun _ _ _ _ _ _ => rfl)
      · rcases List.mem_append.mp hk' with hk' | hk'
        · exact h.returned k' item' hk'
        · obtain ⟨rfl, rfl⟩ := Prod.mk.inj (List.mem_singleton.mp hk')
          exact h.threads n _ hn
      · have hold := h.tickets k'
        have hset := countP_set (b := Thread.idle (some .ok)) (Thread.hasTicket k') hn
        rw [hasTicket_of_some (j := k) rfl, hasTicket_of_none rfl] at hset
        rw [List.countP_append, List.countP_singleton]
        simp only [decide_eq_true_eq]
        show _ + _ + (s.threads.set n _).countP _ = _
        omega

theorem Contents.of_reachable {depth : Nat} {acquired : Bool} {storage : Nat → UInt8}
    (hq : create depth acquired storage size capacity = .ok q) (h : (machine q).Reachable s) :
    Places capacity s ∧ Contents s := by
  refine invariant_of_moves (.of_create hq) ?_ (fun s s' hp hc hm => hc.of_moves hp hm) h
  obtain rfl := create_eq hq
  exact ⟨rfl, nofun, nofun, fun k => rfl⟩

/-! ### Entries that are written -/

/-- The entry that a step copies an item into. -/
def Action.writes (s : State size) : Action size → Option Nat
  | .go n =>
      match s.threads[n]? with
      | some (.copiesIn _ i) => some i
      | _ => none
  | .sendIsr _ _ => s.queue.free.messages.head?
  | _ => none

theorem storage_of_fetchFree (h : s.fetchFree n item = some s') :
    s'.queue.storage = s.queue.storage := by
  unfold State.fetchFree at h
  split at h
  case h_1 => cases h
  case h_2 =>
    dsimp only at h
    split at h
    all_goals
      cases h
      rfl

theorem storage_of_fetchReady (h : s.fetchReady n = some s') :
    s'.queue.storage = s.queue.storage := by
  unfold State.fetchReady at h
  split at h
  case h_1 => cases h
  case h_2 =>
    dsimp only at h
    split at h
    all_goals
      cases h
      rfl

theorem storage_of_postReady : (s.postReady n item i).queue.storage = s.queue.storage := by
  unfold State.postReady
  split <;> rfl

theorem storage_of_giveBack {code : ErrorCode} :
    (s.giveBack n i code).queue.storage = s.queue.storage := by
  unfold State.giveBack
  split <;> rfl

theorem storage_of_postFree : (s.postFree n item i k).queue.storage = s.queue.storage := by
  unfold State.postFree
  split <;> rfl

theorem storage_of_fetchFails {mb : Mailbox} {timeout : Timeout}
    (h : s.fetchFails n mb timeout = some s') : s'.queue.storage = s.queue.storage := by
  unfold State.fetchFails at h
  split at h
  case h_1 =>
    split at h
    case isTrue =>
      cases h
      rfl
    case isFalse => cases h
  case h_2 =>
    cases h
    rfl
  case h_3 => cases h

theorem storage_of_receiveIsr : (s.receiveIsr n).queue.storage = s.queue.storage := by
  unfold State.receiveIsr
  split
  · rfl
  · dsimp only
    split
    · split <;> rfl
    · rfl

theorem entry_of_sendIsr (hi : s.queue.free.messages.head? ≠ some i) :
    (s.sendIsr n item).queue.entry i = s.queue.entry i := by
  unfold State.sendIsr
  cases hfree : s.queue.free.messages with
  | nil =>
      rw [Mailbox.fetch, hfree]
      rfl
  | cons j rest =>
      rw [hfree] at hi
      have hne : i ≠ j := fun heq => hi (congrArg some heq.symm)
      rw [Mailbox.fetch_eq hfree]
      dsimp only
      split
      · split
        · unfold State.giveBackIsr
          split <;> exact MailboxSlot.entry_write_ne hne s.queue item
        · exact MailboxSlot.entry_write_ne hne s.queue item
      · unfold State.giveBackIsr
        split <;> rfl

theorem entry_of_go (h : s.go n th = some s') (hn : s.threads[n]? = some th)
    (hi : (Action.go n).writes s ≠ some i) : s'.queue.entry i = s.queue.entry i := by
  have hstorage : s'.queue.storage = s.queue.storage → s'.queue.entry i = s.queue.entry i := by
    intro hsame
    rw [MailboxSlot.entry, MailboxSlot.entry, hsame]
  cases th with
  | idle last => cases h
  | sendWaits item timeout => exact hstorage (storage_of_fetchFree h)
  | copiesIn item j =>
      cases h
      rw [Action.writes, hn] at hi
      exact MailboxSlot.entry_write_ne (fun heq => hi (congrArg some heq.symm)) s.queue item
  | postsReady item j =>
      cases h
      exact hstorage storage_of_postReady
  | givesBack j code =>
      cases h
      exact hstorage storage_of_giveBack
  | receiveWaits timeout => exact hstorage (storage_of_fetchReady h)
  | copiesOut j k =>
      cases h
      rfl
  | postsFree item j k =>
      cases h
      exact hstorage storage_of_postFree

/-- A step leaves the other entries alone. -/
theorem entry_of_step {a : Action size} (h : s.step a = some s') (hi : a.writes s ≠ some i) :
    s'.queue.entry i = s.queue.entry i := by
  cases a with
  | spawn =>
      cases h
      rfl
  | send n item timeout | receive n timeout =>
      dsimp only [State.step] at h
      split at h
      case h_1 =>
        cases h
        rfl
      case h_2 => cases h
  | go n =>
      obtain ⟨th, hn, hgo⟩ := Option.bind_eq_some_iff.mp h
      exact entry_of_go hgo hn hi
  | giveUp n =>
      obtain ⟨th, hn, hgiveUp⟩ := Option.bind_eq_some_iff.mp h
      have hstorage : s'.queue.storage = s.queue.storage := by
        unfold State.giveUp at hgiveUp
        split at hgiveUp
        case h_1 | h_2 => exact storage_of_fetchFails hgiveUp
        case h_3 => cases hgiveUp
      rw [MailboxSlot.entry, MailboxSlot.entry, hstorage]
  | sendIsr n item =>
      dsimp only [State.step] at h
      split at h
      case h_1 =>
        cases h
        exact entry_of_sendIsr hi
      case h_2 => cases h
  | receiveIsr n =>
      dsimp only [State.step] at h
      split at h
      case h_1 =>
        cases h
        rw [MailboxSlot.entry, MailboxSlot.entry, storage_of_receiveIsr]
      case h_2 => cases h

/-- An entry that is written is not ready, and nobody reads it. -/
theorem Places.unread {a : Action size} (h : Places capacity s) (hs : s.step a = some s')
    (hi : a.writes s = some i) : i ∉ s.queue.ready.messages ∧
      ∀ (m k : Nat), s.threads[m]? ≠ some (.copiesOut i k) := by
  cases a with
  | go n =>
      dsimp only [Action.writes] at hi
      split at hi
      case h_1 item j hn =>
        cases hi
        refine ⟨(h.not_mem hn rfl).1, fun m k hm => ?_⟩
        obtain rfl := h.eq_of_held hn hm rfl rfl
        cases hn.symm.trans hm
      case h_2 => cases hi
  | sendIsr n item =>
      obtain ⟨rest, hfree⟩ := List.head?_eq_some_iff.mp hi
      have hmem : i ∈ s.queue.free.messages := by
        rw [hfree]
        exact List.mem_cons_self
      exact ⟨(h.not_mem_of_free hmem).1,
        fun m k hm => (h.not_mem_of_free hmem).2 m _ hm rfl⟩
  | spawn | send | receive | giveUp | receiveIsr => cases hi

/-- Indices and items are conserved. -/
structure QueueOk (capacity : Nat) (s : State size) : Prop where
  /-- Each index is in one place: in one of the mailboxes, or with one call. -/
  places : ∀ i, s.places i = if i < capacity then 1 else 0
  total : s.queue.count + s.queue.freeCount + s.heldCount = capacity
  /-- A call that holds an index can post it. -/
  posts : ∀ (n i : Nat) (th : Thread size), s.threads[n]? = some th → th.held = some i →
    (s.queue.ready.post i).isSome = true ∧ (s.queue.free.post i).isSome = true
  /-- So can a call that fetches it now. -/
  sendFetches : ∀ (i : Nat) (free : Mailbox), s.queue.free.fetch = some (i, free) →
    i < s.queue.capacity ∧ (s.queue.ready.post i).isSome = true
  receiveFetches : ∀ (i : Nat) (ready : Mailbox), s.queue.ready.fetch = some (i, ready) →
    i < s.queue.capacity ∧ (s.queue.free.post i).isSome = true
  /-- No call takes a recovery branch. -/
  recovers : ∀ th ∈ s.threads, th.recovers = false
  /-- An entry is not written while it is ready or being read, and no step changes another. -/
  writes : ∀ (a : Action size) (s' : State size) (i : Nat), s.step a = some s' →
    (a.writes s = some i → i ∉ s.queue.ready.messages ∧
      ∀ (m k : Nat), s.threads[m]? ≠ some (.copiesOut i k)) ∧
    (a.writes s ≠ some i → s'.queue.entry i = s.queue.entry i)
  /-- What was sent was fetched, in this order, or is ready. -/
  fifo : s.sent = s.fetched ++ s.queue.ready.messages.map s.queue.entry
  /-- What a call has returned as the item with a number is the item that was sent with it. -/
  returned : ∀ (k : Nat) (item : Item size), (k, item) ∈ s.returned → s.sent[k]? = some item
  /-- An item that was fetched is with one call, or was returned once. -/
  once : ∀ k, s.returned.countP (fun r => r.1 = k) + s.threads.countP (Thread.hasTicket k) =
    if k < s.fetched.length then 1 else 0

/-- The queue of the ChibiOS backend conserves its indices and the items. -/
theorem chibiosQueue_conserves (depth : Nat) (acquired : Bool) (storage : Nat → UInt8)
    (size capacity : Nat) (q : MailboxSlot size)
    (hq : create depth acquired storage size capacity = .ok q) (s : State size)
    (hs : (machine q).Reachable s) : QueueOk capacity s := by
  obtain ⟨hplaces, hcontents⟩ := Contents.of_reachable hq hs
  constructor
  case places => exact hplaces.places
  case total => exact hplaces.total
  case posts =>
    intro n i th hn hi
    obtain ⟨hready, hfree⟩ := hplaces.room_of_held hn hi
    rw [Mailbox.post_eq hready, Mailbox.post_eq hfree]
    exact ⟨rfl, rfl⟩
  case sendFetches =>
    intro i free hfetch
    obtain ⟨rest, hmessages⟩ := Mailbox.messages_of_fetch hfetch
    have hmem : i ∈ s.queue.free.messages := by
      rw [hmessages]
      exact List.mem_cons_self
    rw [Mailbox.post_eq (hplaces.room_of_free hmessages)]
    exact ⟨(hplaces.lt_of_free hmem).trans_eq hplaces.capacity_eq.symm, rfl⟩
  case receiveFetches =>
    intro i ready hfetch
    obtain ⟨rest, hmessages⟩ := Mailbox.messages_of_fetch hfetch
    have hmem : i ∈ s.queue.ready.messages := by
      rw [hmessages]
      exact List.mem_cons_self
    rw [Mailbox.post_eq (hplaces.room_of_ready hmessages)]
    exact ⟨(hplaces.lt_of_ready hmem).trans_eq hplaces.capacity_eq.symm, rfl⟩
  case recovers => exact hplaces.recovers
  case writes => exact fun a s' i hstep => ⟨hplaces.unread hstep, entry_of_step hstep⟩
  case fifo => exact hcontents.sent
  case returned =>
    intro k item hk
    rw [hcontents.sent]
    exact getElem?_of_prefix (List.prefix_append ..) (hcontents.returned k item hk)
  case once => exact hcontents.tickets

/-- A task and an interrupt send, and an interrupt receives while a task copies. -/
def crossing : List (Action 1) :=
  [.spawn, .spawn, .spawn, .send 0 #v[5] .noWait, .go 0, .sendIsr 1 #v[6], .go 0, .go 0,
    .receive 0 (.wait false), .go 0, .receiveIsr 2, .go 0]

theorem chibiosQueue_conserves_crossing :
    ∃ s : State 1, (machine ⟨fun _ => 0, 2, ⟨2, []⟩, ⟨2, [0, 1]⟩⟩).Reachable s ∧
      s.sent = [#v[6], #v[5]] ∧ s.returned = [(1, #v[5])] ∧
      s.threads[0]? = some (.postsFree #v[6] 1 0) ∧ QueueOk 2 s := by
  have hrun : ((machine ⟨fun _ => 0, 2, ⟨2, []⟩, ⟨2, [0, 1]⟩⟩).run
      (machine ⟨fun _ => 0, 2, ⟨2, []⟩, ⟨2, [0, 1]⟩⟩).init crossing).map
      (fun s => (s.sent, s.returned, s.threads[0]?)) =
      some ([#v[6], #v[5]], [(1, #v[5])], some (.postsFree #v[6] 1 0)) := by decide +kernel
  obtain ⟨s, hs, hfields⟩ := Option.map_eq_some_iff.mp hrun
  have hreach := Machine.Reachable.of_run hs
  refine ⟨s, hreach, congrArg Prod.fst hfields, congrArg (fun p => p.2.1) hfields,
    congrArg (fun p => p.2.2) hfields, ?_⟩
  exact chibiosQueue_conserves 16 true (fun _ => 0) 1 2 _ rfl s hreach

end MicrOsal.ChibiosQueue
