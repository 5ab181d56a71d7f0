import MicrOsal.CmsisQueue.Moves

/-!
# MicrOsal.CmsisQueue.Reservation

The counter of the CMSIS-RTOS v1 queue counts the messages, the reservations and the messages
on their way out (`Counted`), so that a send with a reservation finds room in the native queue.

A send with `NO_WAIT` tries its compare-exchange once. It fails whenever another call has moved
the counter, and the send then reports a full queue that may be empty.
-/

namespace MicrOsal.CmsisQueue

open MicrOsal.Queue (Item)

variable {cfg : Config} {size capacity n k : Nat} {a : Action cfg size} {s s' : State cfg size}
  {slot : QueueSlot} {th th' : Thread size cfg.width}

/-! ### The counter -/

/-- A send has compared the count with the capacity; no put fails. -/
def Thread.Below (capacity : Nat) : Thread size cfg.width → Prop
  | .exchange _ count => count < capacity
  | .rollBack _ => False
  | _ => True

/-- The counter and the native queue agree. -/
structure Counted (capacity : Nat) (s : State cfg size) : Prop where
  native : ∃ q, s.slot.id = some q ∧ q.size = capacity
  capacity_eq : s.slot.capacity = capacity
  count : s.slot.count = s.slot.messages.length + s.threads.countP Thread.reserved +
    s.threads.countP Thread.received
  bounded : s.slot.count ≤ capacity
  threads : ∀ (n : Nat) (th : Thread size cfg.width), s.threads[n]? = some th → th.Below capacity

namespace Counted

theorem threads_set (h : Counted capacity s) (hbelow : th'.Below capacity) :
    ∀ (m : Nat) (t : Thread size cfg.width), (s.threads.set n th')[m]? = some t →
      t.Below capacity := by
  intro m t ht
  rcases getElem?_set_cases ht with ⟨rfl, rfl⟩ | ⟨-, ht⟩
  · exact hbelow
  · exact h.threads m t ht

/-- A send or a receive goes on that has nothing of the queue. -/
theorem settle (th' : Thread size cfg.width) (h : Counted capacity s) (hn : s.threads[n]? = some th)
    (hth : th.reserved = false ∧ th.received = false)
    (hth' : th'.reserved = false ∧ th'.received = false) (hbelow : th'.Below capacity) :
    Counted capacity (s.setThread n th') := by
  have hreserved := countP_set (b := th') Thread.reserved hn
  have hreceived := countP_set (b := th') Thread.received hn
  rw [hth.1, hth'.1] at hreserved
  rw [hth.2, hth'.2] at hreceived
  refine ⟨h.native, h.capacity_eq, ?_, h.bounded, h.threads_set hbelow⟩
  show s.slot.count = s.slot.messages.length + (s.threads.set n th').countP Thread.reserved +
    (s.threads.set n th').countP Thread.received
  rw [Nat.add_right_cancel hreserved, Nat.add_right_cancel hreceived]
  exact h.count

/-- With a reservation there is room in the native queue. -/
theorem put_isSome (h : Counted capacity s) {call : Send size cfg.width}
    (hn : s.threads[n]? = some (.put call)) (val : Word) : (s.slot.put val).isSome = true := by
  obtain ⟨q, hq, hsize⟩ := h.native
  refine QueueSlot.put_of_room hq ?_ val
  have hone : 0 < s.threads.countP Thread.reserved :=
    List.countP_pos_iff.mpr ⟨_, List.mem_of_getElem? hn, rfl⟩
  have hcount := h.count
  have hbounded := h.bounded
  rw [QueueSlot.messages_eq hq] at hcount
  omega

/-- A call that is going to move the counter down finds it above zero. -/
theorem count_pos (h : Counted capacity s) (hn : s.threads[n]? = some th)
    (hth : th.reserved = true ∨ th.received = true) : 0 < s.slot.count := by
  have hcount := h.count
  rcases hth with hth | hth
  · have hone : 0 < s.threads.countP Thread.reserved :=
      List.countP_pos_iff.mpr ⟨_, List.mem_of_getElem? hn, hth⟩
    omega
  · have hone : 0 < s.threads.countP Thread.received :=
      List.countP_pos_iff.mpr ⟨_, List.mem_of_getElem? hn, hth⟩
    omega

theorem of_moves (h : Counted capacity s) (hm : Moves a s s') : Counted capacity s' := by
  cases hm with
  | spawn =>
      refine ⟨h.native, h.capacity_eq, ?_, h.bounded, fun m t ht => ?_⟩
      · rw [h.count]
        simp [List.countP_append, Thread.reserved, Thread.received]
      · rcases getElem?_concat_cases ht with ht | ⟨-, rfl⟩
        · exact h.threads m t ht
        · trivial
  | tick => exact ⟨h.native, h.capacity_eq, h.count, h.bounded, h.threads⟩
  | send hn | receive hn | loadFull hn | miss hn | sleep hn | wake hn | getNone hn =>
      exact h.settle _ hn ⟨rfl, rfl⟩ ⟨rfl, rfl⟩ trivial
  | loadBelow hn hbelow => exact h.settle _ hn ⟨rfl, rfl⟩ ⟨rfl, rfl⟩ (h.capacity_eq ▸ hbelow)
  | @leave _ _ n call code th hn hth =>
      have hnone : th.reserved = false ∧ th.received = false := by
        rcases hth with rfl | rfl <;> exact ⟨rfl, rfl⟩
      have hset := h.settle (.idle (some code)) hn hnone ⟨rfl, rfl⟩ trivial
      exact ⟨hset.native, hset.capacity_eq, hset.count, hset.bounded, hset.threads⟩
  | @reserve _ _ n call hn =>
      have hbelow : s.slot.count < capacity := h.threads n _ hn
      have hreserved := countP_set (b := Thread.put call) Thread.reserved hn
      have hreceived := countP_set (b := Thread.put call) Thread.received hn
      simp only [Thread.reserved, Thread.received, if_true, Bool.false_eq_true, if_false]
        at hreserved hreceived
      have hcount := h.count
      refine ⟨h.native, h.capacity_eq, ?_, hbelow, h.threads_set trivial⟩
      show s.slot.count + 1 = s.slot.messages.length +
        (s.threads.set n (.put call)).countP Thread.reserved +
        (s.threads.set n (.put call)).countP Thread.received
      omega
  | @put _ _ n call slot hn hput =>
      obtain ⟨q, hq, -, rfl⟩ := QueueSlot.put_eq_some hput
      have hreserved := countP_set (b := Thread.idle (some ErrorCode.ok)) Thread.reserved hn
      have hreceived := countP_set (b := Thread.idle (some ErrorCode.ok)) Thread.received hn
      simp only [Thread.reserved, Thread.received, if_true, Bool.false_eq_true, if_false]
        at hreserved hreceived
      have hcount := h.count
      have hsize := h.native
      rw [hq] at hsize
      rw [QueueSlot.messages_eq hq] at hcount
      refine ⟨?_, h.capacity_eq, ?_, h.bounded, h.threads_set trivial⟩
      · obtain ⟨q', hq', hsize⟩ := hsize
        obtain rfl := Option.some.inj hq'
        exact ⟨_, rfl, hsize⟩
      · show s.slot.count = (q.messages ++ [pack call.item]).length +
          (s.threads.set n _).countP Thread.reserved + (s.threads.set n _).countP Thread.received
        rw [List.length_append, List.length_singleton]
        omega
  | @putFail _ _ n call hn hput =>
      have hroom := h.put_isSome hn (pack call.item)
      rw [hput] at hroom
      cases hroom
  | rollBack hn => exact (h.threads _ _ hn).elim
  | @get _ _ n timeout val slot hn hget =>
      obtain ⟨q, rest, hq, hmessages, rfl⟩ := QueueSlot.get_eq_some hget
      have hreserved := countP_set (b := Thread.decrement (w := cfg.width) (unpack size val)
        s.gots.length) Thread.reserved hn
      have hreceived := countP_set (b := Thread.decrement (w := cfg.width) (unpack size val)
        s.gots.length) Thread.received hn
      simp only [Thread.reserved, Thread.received, if_true, Bool.false_eq_true, if_false]
        at hreserved hreceived
      have hcount := h.count
      have hsize := h.native
      rw [hq] at hsize
      rw [QueueSlot.messages_eq hq, hmessages, List.length_cons] at hcount
      refine ⟨?_, h.capacity_eq, ?_, h.bounded, h.threads_set trivial⟩
      · obtain ⟨q', hq', hsize⟩ := hsize
        obtain rfl := Option.some.inj hq'
        exact ⟨_, rfl, hsize⟩
      · show s.slot.count = rest.length + (s.threads.set n _).countP Thread.reserved +
          (s.threads.set n _).countP Thread.received
        omega
  | @decrement _ _ n ticket item hn =>
      have hpos := h.count_pos hn (.inr rfl)
      have hreserved := countP_set (b := Thread.idle (some ErrorCode.ok)) Thread.reserved hn
      have hreceived := countP_set (b := Thread.idle (some ErrorCode.ok)) Thread.received hn
      simp only [Thread.reserved, Thread.received, if_true, Bool.false_eq_true, if_false]
        at hreserved hreceived
      have hcount := h.count
      have hbounded := h.bounded
      refine ⟨h.native, h.capacity_eq, ?_, ?_, h.threads_set trivial⟩
      · show sizeDecr s.slot.count = s.slot.messages.length +
          (s.threads.set n _).countP Thread.reserved + (s.threads.set n _).countP Thread.received
        rw [sizeDecr_of_pos hpos]
        omega
      · show sizeDecr s.slot.count ≤ capacity
        rw [sizeDecr_of_pos hpos]
        omega

end Counted

/-! ### The items -/

/-- The messages carry the items in the order of their puts. -/
structure Contents (s : State cfg size) : Prop where
  puts : s.puts = s.gots ++ s.slot.messages.map (unpack size)
  pending : ∀ (n ticket : Nat) (item : Item size),
    s.threads[n]? = some (.decrement item ticket) → s.gots[ticket]? = some item
  returned : ∀ (ticket : Nat) (item : Item size), (ticket, item) ∈ s.returned →
    s.gots[ticket]? = some item
  tickets : ∀ k, s.returned.countP (fun r => r.1 = k) + s.threads.countP (Thread.hasTicket k) =
    if k < s.gots.length then 1 else 0

namespace Contents

theorem settle (th' : Thread size cfg.width) (h : Contents s) (hn : s.threads[n]? = some th)
    (hth : th.received = false) (hth' : th'.received = false) : Contents (s.setThread n th') := by
  have hno : ∀ (t : Thread size cfg.width), t.received = false → ∀ k, t.hasTicket k = false := by
    intro t ht k
    cases t with
    | decrement => cases ht
    | _ => rfl
  refine ⟨h.puts, fun m ticket item ht => ?_, h.returned, fun k => ?_⟩
  · rcases getElem?_set_cases ht with ⟨rfl, rfl⟩ | ⟨-, ht⟩
    · cases hth'
    · exact h.pending m ticket item ht
  · have hset := countP_set (b := th') (Thread.hasTicket k) hn
    rw [hno th hth, hno th' hth'] at hset
    show s.returned.countP _ + (s.threads.set n th').countP (Thread.hasTicket k) = _
    rw [Nat.add_right_cancel hset]
    exact h.tickets k

theorem of_moves (hsize : size ≤ 4) (h : Contents s) (hm : Moves a s s') : Contents s' := by
  cases hm with
  | spawn =>
      refine ⟨h.puts, fun m ticket item ht => ?_, h.returned, fun k => ?_⟩
      · rcases getElem?_concat_cases ht with ht | ⟨-, heq⟩
        · exact h.pending m ticket item ht
        · cases heq
      · rw [← h.tickets k]
        simp [List.countP_append, Thread.hasTicket]
  | tick => exact ⟨h.puts, h.pending, h.returned, h.tickets⟩
  | send hn | receive hn | loadBelow hn | loadFull hn | miss hn | putFail hn | sleep hn | wake hn
  | getNone hn => exact h.settle _ hn rfl rfl
  | @reserve _ _ n call hn =>
      have hset := h.settle (.put call) hn rfl rfl
      exact ⟨hset.puts, hset.pending, hset.returned, hset.tickets⟩
  | @rollBack _ _ n call hn =>
      have hset := h.settle (.refused call) hn rfl rfl
      exact ⟨hset.puts, hset.pending, hset.returned, hset.tickets⟩
  | @leave _ _ n call code th hn hth =>
      have hnone : th.received = false := by rcases hth with rfl | rfl <;> rfl
      have hset := h.settle (.idle (some code)) hn hnone rfl
      exact ⟨hset.puts, hset.pending, hset.returned, hset.tickets⟩
  | @put _ _ n call slot hn hput =>
      obtain ⟨q, hq, -, rfl⟩ := QueueSlot.put_eq_some hput
      have hset := h.settle (.idle (some .ok)) hn rfl rfl
      refine ⟨?_, hset.pending, hset.returned, hset.tickets⟩
      show s.puts ++ [call.item] = s.gots ++ (q.messages ++ [pack call.item]).map (unpack size)
      rw [h.puts, QueueSlot.messages_eq hq, List.map_append, List.append_assoc, List.map_singleton,
        unpack_pack hsize]
  | @get _ _ n timeout val slot hn hget =>
      obtain ⟨q, rest, hq, hmessages, rfl⟩ := QueueSlot.get_eq_some hget
      have hgrow : ∀ {ticket : Nat} {item : Item size}, s.gots[ticket]? = some item →
          (s.gots ++ [unpack size val])[ticket]? = some item := by
        intro ticket item hitem
        rw [List.getElem?_append_left (List.getElem?_eq_some_iff.mp hitem).1]
        exact hitem
      refine ⟨?_, fun m ticket item ht => ?_, fun ticket item hr => hgrow (h.returned _ _ hr),
        fun k => ?_⟩
      · show s.puts = (s.gots ++ [unpack size val]) ++ rest.map (unpack size)
        rw [h.puts, QueueSlot.messages_eq hq, hmessages, List.append_assoc]
        rfl
      · rcases getElem?_set_cases ht with ⟨-, heq⟩ | ⟨-, ht⟩
        · obtain ⟨rfl, rfl⟩ := Thread.decrement.inj heq
          exact List.getElem?_concat_length
        · exact hgrow (h.pending m ticket item ht)
      · have hold := h.tickets k
        have hset := countP_set (b := Thread.decrement (w := cfg.width) (unpack size val)
          s.gots.length) (Thread.hasTicket k) hn
        simp only [Thread.hasTicket, Bool.false_eq_true, if_false, decide_eq_true_eq] at hset
        show s.returned.countP _ + (s.threads.set n _).countP (Thread.hasTicket k) =
          if k < (s.gots ++ [unpack size val]).length then 1 else 0
        rw [List.length_append, List.length_singleton]
        split at hset <;> split at hold <;> split <;> omega
  | @decrement _ _ n ticket item hn =>
      refine ⟨h.puts, fun m ticket' item' ht => ?_, fun ticket' item' hr => ?_, fun k => ?_⟩
      · rcases getElem?_set_cases ht with ⟨-, heq⟩ | ⟨-, ht⟩
        · cases heq
        · exact h.pending m ticket' item' ht
      · rcases List.mem_append.mp hr with hr | hr
        · exact h.returned ticket' item' hr
        · obtain ⟨rfl, rfl⟩ := Prod.mk.inj (List.mem_singleton.mp hr)
          exact h.pending n ticket' item' hn
      · have hold := h.tickets k
        have hset := countP_set (b := Thread.idle (some ErrorCode.ok)) (Thread.hasTicket k) hn
        simp only [Thread.hasTicket, Bool.false_eq_true, if_false, decide_eq_true_eq] at hset
        show (s.returned ++ [(ticket, item)]).countP (fun r => r.1 = k) +
          (s.threads.set n _).countP (Thread.hasTicket k) = if k < s.gots.length then 1 else 0
        rw [List.countP_append, List.countP_singleton]
        simp only [decide_eq_true_eq]
        omega

end Contents

theorem invariant_of_reachable {slots slots' : List QueueSlot} {created : Bool}
    (hslots : Slots slots) (hcreate : create slots created size capacity = (.ok k, slots'))
    (hslot : slots'[k]? = some slot) (hs : (machine cfg size slot).Reachable s) :
    Counted capacity s ∧ Contents s := by
  obtain ⟨hsize, hcapacity, hid, hcount⟩ := create_fresh hslots hcreate hslot
  have hmessages : slot.messages = [] := QueueSlot.messages_eq hid
  refine Machine.Reachable.invariant (I := fun s => Counted capacity s ∧ Contents s) ⟨?_, ?_⟩ ?_ hs
  · refine ⟨⟨_, hid, rfl⟩, hcapacity, ?_, ?_, fun n th hn => (nomatch hn)⟩
    · show slot.count = slot.messages.length + 0 + 0
      rw [hcount, hmessages]
      rfl
    · show slot.count ≤ capacity
      omega
  · refine ⟨?_, fun n ticket item hn => (nomatch hn),
      fun ticket item hr => (nomatch hr), fun k => rfl⟩
    show [] = [] ++ slot.messages.map (unpack size)
    rw [hmessages]
    rfl
  · intro s a s' _ h hstep
    obtain ⟨s₁, hmoves, rfl⟩ := moves_of_step hstep
    have hcounted := h.1.of_moves hmoves
    have hcontents := h.2.of_moves hsize hmoves
    exact ⟨⟨hcounted.native, hcounted.capacity_eq, hcounted.count, hcounted.bounded,
      hcounted.threads⟩, ⟨hcontents.puts, hcontents.pending, hcontents.returned,
      hcontents.tickets⟩⟩

end MicrOsal.CmsisQueue
