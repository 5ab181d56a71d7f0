import MicrOsal.ChibiosQueue.Model
import MicrOsal.Lib.Tally
import Mathlib.Logic.Relation

/-!
# MicrOsal.ChibiosQueue.Indices

Every index is in one place: in one of the mailboxes, or with one call (`Places`). So there is
room wherever a call posts, and the recovery branches are never taken; what is left of a step
is listed once (`Moves`). A call from an interrupt is the steps of a task, one after the other.
-/

namespace MicrOsal.ChibiosQueue

open MicrOsal.Queue (Item Timeout copyIn copyOut)

variable {size : Nat}

/-! ### Where an index is -/

/-- How often an index is in the mailboxes and with calls. -/
def State.places (s : State size) (i : Nat) : Nat :=
  s.queue.free.messages.count i + s.queue.ready.messages.count i +
    s.threads.countP (Thread.holds i)

/-- How many indices are with calls. -/
def State.heldCount (s : State size) : Nat := s.threads.countP (fun th => th.held.isSome)

/-- It takes a branch for an index or a post that cannot be, or has taken one. -/
def Thread.recovers : Thread size → Bool
  | .givesBack _ _ => true
  | .idle (some code) => code = .notInitialized ∨ code = .outOfResources
  | _ => false

/-- Each index below the capacity is in one place, and no call has had to recover. -/
structure Places (capacity : Nat) (s : State size) : Prop where
  capacity_eq : s.queue.capacity = capacity
  free_size : s.queue.free.size = capacity
  ready_size : s.queue.ready.size = capacity
  places : ∀ i, s.places i = if i < capacity then 1 else 0
  total : s.queue.count + s.queue.freeCount + s.heldCount = capacity
  recovers : ∀ th ∈ s.threads, th.recovers = false

theorem count_cons_eq (i j : Nat) (l : List Nat) :
    (j :: l).count i = l.count i + if j = i then 1 else 0 := by
  rw [List.count_cons]
  simp

theorem count_concat_eq (i j : Nat) (l : List Nat) :
    (l ++ [j]).count i = l.count i + if j = i then 1 else 0 := by
  rw [List.count_append, count_cons_eq, List.count_nil, Nat.zero_add]

variable {capacity n i k : Nat} {s s' : State size} {th th' : Thread size} {item : Item size}

theorem holds_of_held (h : th.held = some k) :
    (if th.holds i = true then 1 else 0) = if k = i then 1 else 0 := by
  simp [Thread.holds, h]

theorem holds_of_none (h : th.held = none) :
    (if th.holds i = true then 1 else 0) = 0 := by
  simp [Thread.holds, h]

theorem Places.lt_of_ready (h : Places capacity s) (hi : i ∈ s.queue.ready.messages) :
    i < capacity := by
  have hplaces := h.places i
  have hpos := List.count_pos_iff.mpr hi
  unfold State.places at hplaces
  split at hplaces <;> omega

theorem Places.lt_of_free (h : Places capacity s) (hi : i ∈ s.queue.free.messages) :
    i < capacity := by
  have hplaces := h.places i
  have hpos := List.count_pos_iff.mpr hi
  unfold State.places at hplaces
  split at hplaces <;> omega

theorem Places.lt_of_held (h : Places capacity s) (hn : s.threads[n]? = some th)
    (hi : th.held = some i) : i < capacity := by
  have hplaces := h.places i
  have hpos : 0 < s.threads.countP (Thread.holds i) :=
    List.countP_pos_iff.mpr ⟨th, List.mem_of_getElem? hn, decide_eq_true hi⟩
  unfold State.places at hplaces
  split at hplaces <;> omega

theorem Places.heldCount_pos (hn : s.threads[n]? = some th) (hi : th.held = some i) :
    0 < s.heldCount :=
  List.countP_pos_iff.mpr ⟨th, List.mem_of_getElem? hn, by rw [hi]; rfl⟩

/-- An index that a call holds is in no mailbox. -/
theorem Places.not_mem (h : Places capacity s) (hn : s.threads[n]? = some th)
    (hi : th.held = some i) : i ∉ s.queue.ready.messages ∧ i ∉ s.queue.free.messages := by
  have hplaces := h.places i
  rw [if_pos (h.lt_of_held hn hi)] at hplaces
  have hpos : 0 < s.threads.countP (Thread.holds i) :=
    List.countP_pos_iff.mpr ⟨th, List.mem_of_getElem? hn, decide_eq_true hi⟩
  unfold State.places at hplaces
  constructor
  · intro hmem
    have hcount := List.count_pos_iff.mpr hmem
    omega
  · intro hmem
    have hcount := List.count_pos_iff.mpr hmem
    omega

/-- Two calls hold different indices. -/
theorem Places.eq_of_held {m : Nat} (h : Places capacity s) (hn : s.threads[n]? = some th)
    (hm : s.threads[m]? = some th') (hi : th.held = some i) (hi' : th'.held = some i) :
    n = m := by
  have hplaces := h.places i
  rw [if_pos (h.lt_of_held hn hi)] at hplaces
  unfold State.places at hplaces
  exact eq_of_countP_le_one (p := Thread.holds i) (by omega) hn hm (decide_eq_true hi)
    (decide_eq_true hi')

/-- The free mailbox has no index that is ready or with a call. -/
theorem Places.not_mem_of_free (h : Places capacity s) (hi : i ∈ s.queue.free.messages) :
    i ∉ s.queue.ready.messages ∧ ∀ (n : Nat) (th : Thread size), s.threads[n]? = some th →
      th.held ≠ some i := by
  refine ⟨fun hready => ?_, fun n th hn hheld => (h.not_mem hn hheld).2 hi⟩
  have hplaces := h.places i
  rw [if_pos (h.lt_of_free hi)] at hplaces
  have hfree := List.count_pos_iff.mpr hi
  have hcount := List.count_pos_iff.mpr hready
  unfold State.places at hplaces
  omega

/-! ### Posts succeed -/

theorem Places.room_of_held (h : Places capacity s) (hn : s.threads[n]? = some th)
    (hi : th.held = some i) :
    s.queue.ready.messages.length < s.queue.ready.size ∧
      s.queue.free.messages.length < s.queue.free.size := by
  have htotal := h.total
  have hheld := Places.heldCount_pos hn hi
  have hready := h.ready_size
  have hfree := h.free_size
  unfold MailboxSlot.count MailboxSlot.freeCount at htotal
  omega

theorem Mailbox.post_eq {mb : Mailbox} (h : mb.messages.length < mb.size) (message : Nat) :
    mb.post message = some { mb with messages := mb.messages ++ [message] } := if_pos h

/-- What comes out of one mailbox fits into the other. -/
theorem Places.room_of_free {rest : List Nat} (h : Places capacity s)
    (hfree : s.queue.free.messages = i :: rest) :
    s.queue.ready.messages.length < s.queue.ready.size := by
  have htotal := h.total
  have hready := h.ready_size
  unfold MailboxSlot.count MailboxSlot.freeCount at htotal
  rw [hfree, List.length_cons] at htotal
  omega

theorem Places.room_of_ready {rest : List Nat} (h : Places capacity s)
    (hready : s.queue.ready.messages = i :: rest) :
    s.queue.free.messages.length < s.queue.free.size := by
  have htotal := h.total
  have hfree := h.free_size
  unfold MailboxSlot.count MailboxSlot.freeCount at htotal
  rw [hready, List.length_cons] at htotal
  omega

theorem Mailbox.messages_of_fetch {mb mb' : Mailbox} {message : Nat}
    (h : mb.fetch = some (message, mb')) : ∃ rest, mb.messages = message :: rest := by
  unfold Mailbox.fetch at h
  split at h
  case h_1 => cases h
  case h_2 rest hmessages =>
    obtain ⟨rfl, -⟩ := Prod.mk.inj (Option.some.inj h)
    exact ⟨rest, hmessages⟩

theorem Mailbox.fetch_eq {mb : Mailbox} {message : Nat} {rest : List Nat}
    (h : mb.messages = message :: rest) :
    mb.fetch = some (message, { mb with messages := rest }) := by
  rw [Mailbox.fetch, h]

/-! ### What a step can do -/

/-- What a call does between two others, when every post succeeds. -/
inductive Moves (s : State size) : State size → Prop
  | spawn : Moves s { s with threads := s.threads ++ [.idle none] }
  /-- A thread begins a call, or ends one without an index. -/
  | settle {n : Nat} {th th' : Thread size} : s.threads[n]? = some th → th.held = none →
      th'.held = none → th'.recovers = false → Moves s { s with threads := s.threads.set n th' }
  | fetchFree {n i : Nat} {th : Thread size} {item : Item size} {rest : List Nat} :
      s.threads[n]? = some th → th.held = none → s.queue.free.messages = i :: rest →
      Moves s { s with
        queue := { s.queue with free := { s.queue.free with messages := rest } }
        threads := s.threads.set n (.copiesIn item i) }
  | copyIn {n i : Nat} {item : Item size} : s.threads[n]? = some (.copiesIn item i) →
      Moves s { s with
        queue := s.queue.write i item
        threads := s.threads.set n (.postsReady item i) }
  | postReady {n i : Nat} {item : Item size} : s.threads[n]? = some (.postsReady item i) →
      Moves s { s with
        queue := { s.queue with
          ready := { s.queue.ready with messages := s.queue.ready.messages ++ [i] } }
        threads := s.threads.set n (.idle (some .ok))
        sent := s.sent ++ [item] }
  | fetchReady {n i : Nat} {th : Thread size} {rest : List Nat} :
      s.threads[n]? = some th → th.held = none → s.queue.ready.messages = i :: rest →
      Moves s { s with
        queue := { s.queue with ready := { s.queue.ready with messages := rest } }
        threads := s.threads.set n (.copiesOut i s.fetched.length)
        fetched := s.fetched ++ [s.queue.entry i] }
  | copyOut {n i k : Nat} : s.threads[n]? = some (.copiesOut i k) →
      Moves s { s with threads := s.threads.set n (.postsFree (s.queue.entry i) i k) }
  | postFree {n i k : Nat} {item : Item size} : s.threads[n]? = some (.postsFree item i k) →
      Moves s { s with
        queue := { s.queue with
          free := { s.queue.free with messages := s.queue.free.messages ++ [i] } }
        threads := s.threads.set n (.idle (some .ok))
        returned := s.returned ++ [(k, item)] }

/-- What an index that goes from one place to another has to keep. -/
theorem Places.set (h : Places capacity s) (hn : s.threads[n]? = some th)
    (hthreads : s'.threads = s.threads.set n th') (hrecovers : th'.recovers = false)
    (hcapacity : s'.queue.capacity = s.queue.capacity)
    (hfree : s'.queue.free.size = s.queue.free.size)
    (hready : s'.queue.ready.size = s.queue.ready.size)
    (hplaces : ∀ i, s'.queue.free.messages.count i + s'.queue.ready.messages.count i +
        (if th'.holds i = true then 1 else 0) =
      s.queue.free.messages.count i + s.queue.ready.messages.count i +
        (if th.holds i = true then 1 else 0))
    (htotal : s'.queue.count + s'.queue.freeCount + (if th'.held.isSome = true then 1 else 0) =
      s.queue.count + s.queue.freeCount + (if th.held.isSome = true then 1 else 0)) :
    Places capacity s' := by
  refine ⟨hcapacity.trans h.capacity_eq, hfree.trans h.free_size, hready.trans h.ready_size,
    fun i => ?_, ?_, fun t ht => ?_⟩
  · have hold := h.places i
    have hthis := hplaces i
    have hset := countP_set (b := th') (Thread.holds i) hn
    rw [State.places] at hold ⊢
    rw [hthreads]
    omega
  · have hold := h.total
    have hset := countP_set (b := th') (fun t : Thread size => t.held.isSome) hn
    rw [State.heldCount] at hold ⊢
    rw [hthreads]
    omega
  · rw [hthreads] at ht
    rcases List.mem_or_eq_of_mem_set ht with ht | rfl
    · exact h.recovers t ht
    · exact hrecovers

/-- An index goes from one place to another. -/
theorem Places.of_moves (h : Places capacity s) (hm : Moves s s') : Places capacity s' := by
  cases hm with
  | spawn =>
      refine ⟨h.capacity_eq, h.free_size, h.ready_size, fun i => ?_, ?_, fun t ht => ?_⟩
      · rw [← h.places i]
        simp [State.places, List.countP_append, Thread.holds, Thread.held]
      · rw [← h.total]
        simp [MailboxSlot.count, MailboxSlot.freeCount, State.heldCount, Thread.held]
      · rcases List.mem_append.mp ht with ht | ht
        · exact h.recovers t ht
        · obtain rfl := List.mem_singleton.mp ht
          rfl
  | settle hn hth hth' hrecovers =>
      refine h.set hn rfl hrecovers rfl rfl rfl (fun i => ?_) ?_
      · rw [holds_of_none hth, holds_of_none hth']
      · rw [hth, hth']
  | @fetchFree n j th item rest hn hth hfree =>
      refine h.set hn rfl rfl rfl rfl rfl (fun i => ?_) ?_
      · rw [holds_of_none hth, holds_of_held (k := j) rfl, hfree, count_cons_eq]
        show rest.count i + s.queue.ready.messages.count i + _ = _
        omega
      · rw [hth, MailboxSlot.freeCount, MailboxSlot.freeCount, hfree, List.length_cons]
        show s.queue.count + rest.length + 1 = s.queue.count + (rest.length + 1) + 0
        omega
  | @copyIn n j item hn =>
      refine h.set hn rfl rfl rfl rfl rfl (fun i => ?_) rfl
      rw [holds_of_held (k := j) rfl, holds_of_held (k := j) rfl]
      rfl
  | @postReady n j item hn =>
      refine h.set hn rfl rfl rfl rfl rfl (fun i => ?_) ?_
      · rw [holds_of_none rfl, holds_of_held (k := j) rfl, count_concat_eq]
        show s.queue.free.messages.count i + _ + 0 = _
        omega
      · rw [MailboxSlot.count, MailboxSlot.count, List.length_append]
        show _ + 1 + s.queue.freeCount + 0 = _ + s.queue.freeCount + 1
        omega
  | @fetchReady n j th rest hn hth hready =>
      refine h.set hn rfl rfl rfl rfl rfl (fun i => ?_) ?_
      · rw [holds_of_none hth, holds_of_held (k := j) rfl, hready, count_cons_eq]
        show s.queue.free.messages.count i + rest.count i + _ = _
        omega
      · rw [hth, MailboxSlot.count, MailboxSlot.count, hready, List.length_cons]
        show rest.length + s.queue.freeCount + 1 = rest.length + 1 + s.queue.freeCount + 0
        omega
  | @copyOut n j k hn =>
      refine h.set hn rfl rfl rfl rfl rfl (fun i => ?_) rfl
      rw [holds_of_held (k := j) rfl, holds_of_held (k := j) rfl]
  | @postFree n j k item hn =>
      refine h.set hn rfl rfl rfl rfl rfl (fun i => ?_) ?_
      · rw [holds_of_none rfl, holds_of_held (k := j) rfl, count_concat_eq]
        show _ + s.queue.ready.messages.count i + 0 = _
        omega
      · rw [MailboxSlot.freeCount, MailboxSlot.freeCount, List.length_append]
        show s.queue.count + (_ + 1) + 0 = s.queue.count + _ + 1
        omega

/-! ### The branches that steps take -/

theorem moves_of_fetchFree (h : Places capacity s) (hn : s.threads[n]? = some th)
    (hth : th.held = none) (hs : s.fetchFree n item = some s') : Moves s s' := by
  unfold State.fetchFree Mailbox.fetch at hs
  cases hfree : s.queue.free.messages with
  | nil =>
      rw [hfree] at hs
      cases hs
  | cons j rest =>
      have hj : j < s.queue.capacity := by
        rw [h.capacity_eq]
        exact h.lt_of_free (by rw [hfree]; exact List.mem_cons_self)
      rw [hfree] at hs
      dsimp only at hs
      rw [if_neg (Nat.not_le_of_lt hj)] at hs
      cases hs
      exact .fetchFree hn hth hfree

theorem moves_of_postReady (h : Places capacity s)
    (hn : s.threads[n]? = some (.postsReady item i)) : Moves s (s.postReady n item i) := by
  unfold State.postReady
  rw [Mailbox.post_eq (h.room_of_held hn rfl).1]
  exact .postReady hn

theorem moves_of_fetchReady (h : Places capacity s) (hn : s.threads[n]? = some th)
    (hth : th.held = none) (hs : s.fetchReady n = some s') : Moves s s' := by
  unfold State.fetchReady Mailbox.fetch at hs
  cases hready : s.queue.ready.messages with
  | nil =>
      rw [hready] at hs
      cases hs
  | cons j rest =>
      have hj : j < s.queue.capacity := by
        rw [h.capacity_eq]
        exact h.lt_of_ready (by rw [hready]; exact List.mem_cons_self)
      rw [hready] at hs
      dsimp only at hs
      rw [if_neg (Nat.not_le_of_lt hj)] at hs
      cases hs
      exact .fetchReady hn hth hready

theorem moves_of_postFree (h : Places capacity s)
    (hn : s.threads[n]? = some (.postsFree item i k)) : Moves s (s.postFree n item i k) := by
  unfold State.postFree
  rw [Mailbox.post_eq (h.room_of_held hn rfl).2]
  exact .postFree hn

theorem moves_of_fetchFails {mb : Mailbox} {timeout : Timeout} (hn : s.threads[n]? = some th)
    (hth : th.held = none) (hs : s.fetchFails n mb timeout = some s') : Moves s s' := by
  unfold State.fetchFails at hs
  split at hs
  case h_1 =>
    split at hs
    case isTrue =>
      cases hs
      exact .settle hn hth rfl rfl
    case isFalse => cases hs
  case h_2 =>
    cases hs
    exact .settle hn hth rfl rfl
  case h_3 => cases hs

theorem moves_of_go (h : Places capacity s) (hn : s.threads[n]? = some th)
    (hs : s.go n th = some s') : Moves s s' := by
  cases th with
  | idle last => cases hs
  | sendWaits item timeout => exact moves_of_fetchFree h hn rfl hs
  | copiesIn item j =>
      cases hs
      exact .copyIn hn
  | postsReady item j =>
      cases hs
      exact moves_of_postReady h hn
  | givesBack j code => cases h.recovers _ (List.mem_of_getElem? hn)
  | receiveWaits timeout => exact moves_of_fetchReady h hn rfl hs
  | copiesOut j k =>
      cases hs
      exact .copyOut hn
  | postsFree item j k =>
      cases hs
      exact moves_of_postFree h hn

/-- A send from an interrupt fetches, copies and posts. -/
theorem moves_of_sendIsr (h : Places capacity s) (hn : s.threads[n]? = some th)
    (hth : th.held = none) : Relation.ReflTransGen Moves s (s.sendIsr n item) := by
  have hlt := (List.getElem?_eq_some_iff.mp hn).1
  unfold State.sendIsr
  cases hfree : s.queue.free.messages with
  | nil =>
      rw [Mailbox.fetch, hfree]
      exact .single (.settle hn hth rfl rfl)
  | cons j rest =>
      have hj : j < s.queue.capacity := by
        rw [h.capacity_eq]
        exact h.lt_of_free (by rw [hfree]; exact List.mem_cons_self)
      have hroom := h.room_of_free hfree
      have hfetched := @Moves.fetchFree size s n j th item rest hn hth hfree
      have hcopied := Relation.ReflTransGen.tail (.single hfetched)
        (.copyIn (List.getElem?_set_self hlt))
      have hposted := hcopied.tail (.postReady (List.getElem?_set_self (by simpa using hlt)))
      rw [Mailbox.fetch_eq hfree]
      dsimp only
      rw [if_pos hj, Mailbox.post_eq hroom]
      simp only [List.set_set] at hposted
      exact hposted

/-- So does a receive. -/
theorem moves_of_receiveIsr (h : Places capacity s) (hn : s.threads[n]? = some th)
    (hth : th.held = none) : Relation.ReflTransGen Moves s (s.receiveIsr n) := by
  have hlt := (List.getElem?_eq_some_iff.mp hn).1
  unfold State.receiveIsr
  cases hready : s.queue.ready.messages with
  | nil =>
      rw [Mailbox.fetch, hready]
      exact .single (.settle hn hth rfl rfl)
  | cons j rest =>
      have hj : j < s.queue.capacity := by
        rw [h.capacity_eq]
        exact h.lt_of_ready (by rw [hready]; exact List.mem_cons_self)
      have hroom := h.room_of_ready hready
      have hfetched := @Moves.fetchReady size s n j th rest hn hth hready
      have hcopied := Relation.ReflTransGen.tail (.single hfetched)
        (.copyOut (List.getElem?_set_self hlt))
      have hposted := hcopied.tail (.postFree (List.getElem?_set_self (by simpa using hlt)))
      rw [Mailbox.fetch_eq hready]
      dsimp only
      rw [if_pos hj, Mailbox.post_eq hroom]
      simp only [List.set_set] at hposted
      exact hposted

theorem moves_of_step {a : Action size} (h : Places capacity s) (hs : s.step a = some s') :
    Relation.ReflTransGen Moves s s' := by
  cases a with
  | spawn =>
      cases hs
      exact .single .spawn
  | send n item timeout =>
      dsimp only [State.step] at hs
      split at hs
      case h_1 last hn =>
        cases hs
        exact .single (.settle hn rfl rfl rfl)
      case h_2 => cases hs
  | receive n timeout =>
      dsimp only [State.step] at hs
      split at hs
      case h_1 last hn =>
        cases hs
        exact .single (.settle hn rfl rfl rfl)
      case h_2 => cases hs
  | go n =>
      obtain ⟨th, hn, hgo⟩ := Option.bind_eq_some_iff.mp hs
      exact .single (moves_of_go h hn hgo)
  | giveUp n =>
      obtain ⟨th, hn, hgiveUp⟩ := Option.bind_eq_some_iff.mp hs
      unfold State.giveUp at hgiveUp
      split at hgiveUp
      case h_1 => exact .single (moves_of_fetchFails hn rfl hgiveUp)
      case h_2 => exact .single (moves_of_fetchFails hn rfl hgiveUp)
      case h_3 => cases hgiveUp
  | sendIsr n item =>
      dsimp only [State.step] at hs
      split at hs
      case h_1 last hn =>
        cases hs
        exact moves_of_sendIsr h hn rfl
      case h_2 => cases hs
  | receiveIsr n =>
      dsimp only [State.step] at hs
      split at hs
      case h_1 last hn =>
        cases hs
        exact moves_of_receiveIsr h hn rfl
      case h_2 => cases hs

/-! ### Runs -/

theorem postAll_eq {indices messages : List Nat} (h : messages.length + indices.length ≤ capacity) :
    postAll ⟨capacity, messages⟩ indices = some ⟨capacity, messages ++ indices⟩ := by
  induction indices generalizing messages with
  | nil => rw [postAll, List.append_nil]
  | cons index rest ih =>
      rw [List.length_cons] at h
      rw [postAll, Mailbox.post_eq (show messages.length < capacity by omega), Option.bind_some, ih]
      · rw [List.append_assoc]
        rfl
      · simp only [List.length_append, List.length_singleton]
        omega

/-- A new queue has every index in the free mailbox. -/
theorem create_eq {depth : Nat} {acquired : Bool} {storage : Nat → UInt8} {q : MailboxSlot size}
    (h : create depth acquired storage size capacity = .ok q) :
    q = ⟨storage, capacity, ⟨capacity, []⟩, ⟨capacity, List.range capacity⟩⟩ := by
  unfold create at h
  rw [postAll_eq (by simp)] at h
  split at h
  case isTrue => cases h
  split at h
  case isTrue => cases h
  split at h
  case isTrue => cases h
  exact (Except.ok.inj h).symm

theorem Places.of_create {depth : Nat} {acquired : Bool} {storage : Nat → UInt8}
    {q : MailboxSlot size} (h : create depth acquired storage size capacity = .ok q) :
    Places capacity (machine q).init := by
  obtain rfl := create_eq h
  refine ⟨rfl, rfl, rfl, fun i => ?_, ?_, fun th hth => nomatch hth⟩
  · show (List.range capacity).count i + 0 + 0 = _
    simp [List.count_range]
  · show 0 + (List.range capacity).length + 0 = capacity
    simp

/-- What holds of a new queue, and survives what calls do between two others, holds in every
state that is reached. -/
theorem invariant_of_moves {I : State size → Prop} {q : MailboxSlot size}
    (hplaces : Places capacity (machine q).init) (hinit : I (machine q).init)
    (hmoves : ∀ s s' : State size, Places capacity s → I s → Moves s s' → I s')
    (h : (machine q).Reachable s) : Places capacity s ∧ I s := by
  refine h.invariant (I := fun s => Places capacity s ∧ I s) ⟨hplaces, hinit⟩
    (fun s a s' _ hi hs => ?_)
  have hrun := moves_of_step hi.1 hs
  clear hs
  induction hrun with
  | refl => exact hi
  | tail _ hm ih => exact ⟨ih.1.of_moves hm, hmoves _ _ ih.1 ih.2 hm⟩

end MicrOsal.ChibiosQueue
