import MicrOsal.CmsisQueue.Reservation

/-!
# MicrOsal.CmsisQueue.WouldBlock

When a send that does not wait reports a full queue.

The compare-exchange of the reservation is tried once in a turn of the loop, and a send with
`NO_WAIT` has one turn. It fails when the counter has moved since its load, whether up or down.
-/

namespace MicrOsal.CmsisQueue

open MicrOsal.Queue (Item)

variable {cfg : Config} {size capacity n k : Nat} {a : Action cfg size} {s s' : State cfg size}
  {slot : QueueSlot} {th th' : Thread size cfg.width}

/-- A send that does not wait finds in its exchange that the counter has moved, to a count below
the capacity. -/
def losesExchange (s : State cfg size) : Action cfg size → Bool
  | .go n =>
    match s.threads[n]? with
    | some (.exchange call count) =>
      call.timeout = noWait && s.slot.count ≠ count && s.slot.count < s.slot.capacity
    | _ => false
  | _ => false

/-- The call of a send. -/
def Thread.call : Thread size cfg.width → Option (Send size cfg.width)
  | .load call | .exchange call _ | .put call | .rollBack call | .refused call | .delay call =>
    some call
  | _ => none

/-- The count was the capacity at some moment from the `first` on. -/
def FullSince (capacity first : Nat) (counts : List Nat) : Prop :=
  ∃ k, first ≤ k ∧ counts[k]? = some capacity

theorem FullSince.append {first : Nat} {counts : List Nat} (h : FullSince capacity first counts)
    (more : List Nat) : FullSince capacity first (counts ++ more) := by
  obtain ⟨k, hk, hcount⟩ := h
  refine ⟨k, hk, ?_⟩
  rw [List.getElem?_append_left (List.getElem?_eq_some_iff.mp hcount).1]
  exact hcount

/-- A send returned `would_block` only after a count that was the capacity. -/
def SendReturn.Honest (capacity : Nat) (counts : List Nat) (r : SendReturn) : Prop :=
  r.code = .wouldBlock → ∃ k, r.first ≤ k ∧ k < r.last ∧ counts[k]? = some capacity

/-- What a send knows of the counts since it began. -/
structure Thread.Seen (capacity : Nat) (counts : List Nat) (th : Thread size cfg.width) :
    Prop where
  since : ∀ call, th.call = some call → call.since < counts.length
  refused : ∀ call, th = .refused call → call.timeout = noWait →
    FullSince capacity call.since counts

/-- The invariant of the runs in which no send loses its exchange. -/
structure Noted (capacity : Nat) (s : State cfg size) : Prop where
  now : s.counts[s.counts.length - 1]? = some s.slot.count
  threads : ∀ (n : Nat) (th : Thread size cfg.width), s.threads[n]? = some th →
    th.Seen capacity s.counts
  returns : ∀ r ∈ s.returns, r.Honest capacity s.counts

namespace Thread.Seen

variable {counts : List Nat}

theorem of_none (h : th.call = none) : th.Seen capacity counts := by
  refine ⟨fun call hcall => ?_, fun call heq => ?_⟩
  · rw [h] at hcall
    cases hcall
  · subst heq
    cases h

/-- A send that has not been refused. -/
theorem of_call {call : Send size cfg.width} (hcall : th.call = some call)
    (hne : ∀ call, th ≠ .refused call) (hsince : call.since < counts.length) :
    th.Seen capacity counts := by
  refine ⟨fun call' hcall' => ?_, fun call' heq => absurd heq (hne call')⟩
  obtain rfl := Option.some.inj (hcall.symm.trans hcall')
  exact hsince

theorem append (h : th.Seen capacity counts) (more : List Nat) :
    th.Seen capacity (counts ++ more) := by
  refine ⟨fun call hcall => ?_, fun call heq hnoWait => (h.refused call heq hnoWait).append more⟩
  rw [List.length_append]
  exact Nat.lt_add_right _ (h.since call hcall)

end Thread.Seen

theorem SendReturn.Honest.append {counts : List Nat} {r : SendReturn}
    (h : r.Honest capacity counts) (more : List Nat) : r.Honest capacity (counts ++ more) := by
  intro hcode
  obtain ⟨k, hfirst, hlast, hcount⟩ := h hcode
  refine ⟨k, hfirst, hlast, ?_⟩
  rw [List.getElem?_append_left (List.getElem?_eq_some_iff.mp hcount).1]
  exact hcount

namespace Noted

/-- The count of now belongs to every send that is under way. -/
theorem fullSince (h : Noted capacity s) {first : Nat} (hfirst : first < s.counts.length)
    (hfull : s.slot.count = capacity) : FullSince capacity first s.counts :=
  ⟨s.counts.length - 1, by omega, hfull ▸ h.now⟩

theorem now_note (s : State cfg size) :
    s.note.counts[s.note.counts.length - 1]? = some s.note.slot.count := by
  show (s.counts ++ [s.slot.count])[(s.counts ++ [s.slot.count]).length - 1]? = some s.slot.count
  rw [List.length_append, List.length_singleton, Nat.add_sub_cancel]
  exact List.getElem?_concat_length

/-- One thread goes on. -/
theorem set (n : Nat) (th : Thread size cfg.width) (h : Noted capacity s)
    (hcounts : s'.counts = s.counts)
    (hthreads : s'.threads = s.threads.set n th)
    (hseen : th.Seen capacity (s.counts ++ [s'.slot.count]))
    (hreturns : ∀ r ∈ s'.returns, r ∈ s.returns ∨ r.Honest capacity s.counts) :
    Noted capacity s'.note := by
  refine ⟨now_note s', fun m t ht => ?_, fun r hr => ?_⟩
  · show t.Seen capacity (s'.counts ++ [s'.slot.count])
    rw [hcounts]
    have hset : (s.threads.set n th)[m]? = some t := hthreads ▸ ht
    rcases getElem?_set_cases hset with ⟨-, rfl⟩ | ⟨-, ht⟩
    · exact hseen
    · exact (h.threads m t ht).append _
  · show r.Honest capacity (s'.counts ++ [s'.slot.count])
    rw [hcounts]
    rcases hreturns r hr with hold | hnew
    · exact (h.returns r hold).append _
    · exact hnew.append _

/-- A send goes on that has not been refused. -/
theorem keep (h : Noted capacity s) {call : Send size cfg.width}
    (hn : s.threads[n]? = some th) (hcall : th.call = some call) (hcall' : th'.call = some call)
    (hne : ∀ call, th' ≠ .refused call) (hcounts : s'.counts = s.counts)
    (hthreads : s'.threads = s.threads.set n th') (hreturns : s'.returns = s.returns) :
    Noted capacity s'.note := by
  have hsince := (h.threads n th hn).since call hcall
  refine h.set n th' hcounts hthreads (Thread.Seen.append (.of_call hcall' hne hsince) _) ?_
  rw [hreturns]
  exact fun r hr => .inl hr

/-- A send is refused that has seen a full queue, if it does not wait. -/
theorem refuse (h : Noted capacity s) {call : Send size cfg.width}
    (hn : s.threads[n]? = some th) (hcall : th.call = some call)
    (hfull : call.timeout = noWait → s.slot.count = capacity) :
    Noted capacity (s.setThread n (.refused call)).note := by
  have hsince := (h.threads n th hn).since call hcall
  refine h.set n (.refused call) rfl rfl
    (Thread.Seen.append ⟨fun call' hcall' => ?_, fun call' heq hnoWait => ?_⟩ _)
    (fun r hr => .inl hr)
  · obtain rfl := Option.some.inj hcall'
    exact hsince
  · obtain rfl := Thread.refused.inj heq
    exact h.fullSince hsince (hfull hnoWait)

/-- The send of a thread returns. -/
theorem leave (h : Noted capacity s) {call : Send size cfg.width} {code : ErrorCode}
    (hslot : s'.counts = s.counts ∧ s'.threads = s.threads ∧ s'.returns = s.returns)
    (hcode : code = .wouldBlock → FullSince capacity call.since s.counts) :
    Noted capacity (s'.leave n call code).note := by
  obtain ⟨hcounts, hthreads, hreturns⟩ := hslot
  refine h.set n (.idle (some code)) hcounts ?_ (.of_none rfl) (fun r hr => ?_)
  · rw [← hthreads]
    rfl
  · rcases List.mem_cons.mp hr with rfl | hr
    · refine .inr (fun hcode' => ?_)
      obtain ⟨k, hfirst, hcount⟩ := hcode hcode'
      refine ⟨k, hfirst, ?_, hcount⟩
      show k < s'.counts.length
      rw [hcounts]
      exact (List.getElem?_eq_some_iff.mp hcount).1
    · exact .inl (hreturns ▸ hr)

theorem of_moves (hcounted : Counted capacity s) (h : Noted capacity s)
    (hok : losesExchange s a = false) (hm : Moves a s s') : Noted capacity s'.note := by
  cases hm with
  | spawn =>
      refine ⟨now_note _, fun m t ht => ?_, fun r hr => (h.returns r hr).append _⟩
      rcases getElem?_concat_cases ht with ht | ⟨-, rfl⟩
      · exact (h.threads m t ht).append _
      · exact .of_none rfl
  | tick =>
      exact ⟨now_note _, fun m t ht => (h.threads m t ht).append _,
        fun r hr => (h.returns r hr).append _⟩
  | @send _ _ n last call hn hsince =>
      refine h.set n (.load call) rfl rfl (.of_call rfl (fun _ heq => nomatch heq) ?_)
        (fun r hr => .inl hr)
      rw [List.length_append, hsince]
      exact Nat.lt_succ_self _
  | @receive _ _ n last timeout hn =>
      exact h.set n (.get timeout) rfl rfl (.of_none rfl) (fun r hr => .inl hr)
  | loadBelow hn | reserve hn | wake hn | putFail hn | sleep hn =>
      refine h.keep hn rfl rfl ?_ rfl rfl rfl
      intro call' heq
      cases heq
  | loadFull hn hfull =>
      refine h.refuse hn rfl (fun _ => Nat.le_antisymm hcounted.bounded ?_)
      rw [← hcounted.capacity_eq]
      exact hfull
  | @miss _ n count call hn hne =>
      refine h.refuse hn rfl (fun hnoWait => ?_)
      simp only [losesExchange, hn, hnoWait, decide_true, Bool.true_and] at hok
      have hbelow : ¬ s.slot.count < s.slot.capacity := by
        intro hlt
        simp [hne, hlt] at hok
      rw [hcounted.capacity_eq] at hbelow
      exact Nat.le_antisymm hcounted.bounded (not_lt.mp hbelow)
  | put hn => exact h.leave ⟨rfl, rfl, rfl⟩ (fun hcode => nomatch hcode)
  | rollBack hn => exact (hcounted.threads _ _ hn).elim
  | @leave _ _ n call code th hn _ hcode =>
      refine h.leave ⟨rfl, rfl, rfl⟩ (fun hblock => ?_)
      obtain ⟨rfl, hnoWait⟩ := hcode hblock
      exact (h.threads n _ hn).refused call rfl hnoWait
  | @get _ _ n timeout val slot hn =>
      exact h.set n _ rfl rfl (.of_none rfl) (fun r hr => .inl hr)
  | @getNone _ _ n timeout code hn =>
      exact h.set n _ rfl rfl (.of_none rfl) (fun r hr => .inl hr)
  | @decrement _ _ n ticket item hn =>
      exact h.set n _ rfl rfl (.of_none rfl) (fun r hr => .inl hr)

end Noted

/-! ### The queue -/

/-- What the queue promises. -/
structure QueueOk (capacity : Nat) (s : State cfg size) : Prop where
  /-- The counter counts the messages, the reservations and the messages on their way out. -/
  count : s.slot.count = s.slot.messages.length + s.threads.countP Thread.reserved +
    s.threads.countP Thread.received
  bounded : s.slot.count ≤ capacity
  /-- A call that moves the counter down does not find it at zero. -/
  positive : ∀ (n : Nat) (th : Thread size cfg.width), s.threads[n]? = some th →
    th.reserved = true ∨ th.received = true → 0 < s.slot.count
  /-- A put with a reservation does not fail. -/
  puts : ∀ (n : Nat) (call : Send size cfg.width), s.threads[n]? = some (.put call) →
    (s.slot.put (pack call.item)).isSome = true
  noRollBack : ∀ (n : Nat) (call : Send size cfg.width), s.threads[n]? ≠ some (.rollBack call)
  /-- What was put was got, in this order, or is in the queue. -/
  fifo : s.puts = s.gots ++ s.slot.messages.map (unpack size)
  /-- What a receive has returned as the item with a number is the item with this number. -/
  returned : ∀ (k : Nat) (item : Item size), (k, item) ∈ s.returned → s.puts[k]? = some item
  /-- An item that was got is with one receive, or was returned once. -/
  once : ∀ k, s.returned.countP (fun r => r.1 = k) + s.threads.countP (Thread.hasTicket k) =
    if k < s.gots.length then 1 else 0

theorem QueueOk.of_invariant (hcounted : Counted capacity s) (hcontents : Contents s) :
    QueueOk capacity s := by
  constructor
  case count => exact hcounted.count
  case bounded => exact hcounted.bounded
  case positive => exact fun n th hn hth => hcounted.count_pos hn hth
  case puts => exact fun n call hn => hcounted.put_isSome hn _
  case noRollBack => exact fun n call hn => hcounted.threads n _ hn
  case fifo => exact hcontents.puts
  case returned =>
    intro k item hk
    have hgot := hcontents.returned k item hk
    rw [hcontents.puts, List.getElem?_append_left (List.getElem?_eq_some_iff.mp hgot).1]
    exact hgot
  case once => exact hcontents.tickets

/-- In every run the queue keeps its promises about the counter and the items. In the runs in
which no send that does not wait loses its exchange, such a send returns `would_block` only
if the count was the capacity at some moment during the call. -/
theorem cmsisQueue_reserves {slots slots' : List QueueSlot} {created : Bool}
    {size capacity k : Nat} {slot : QueueSlot} (hslots : Slots slots)
    (hcreate : create slots created size capacity = (.ok k, slots'))
    (hslot : slots'[k]? = some slot) (cfg : Config) :
    (∀ s, (machine cfg size slot).Reachable s → QueueOk capacity s) ∧
      ∀ s, (machine cfg size slot).ReachableBy (fun s a => losesExchange s a = false) s →
        ∀ r ∈ s.returns, r.Honest capacity s.counts := by
  constructor
  · intro s hs
    obtain ⟨hcounted, hcontents⟩ := invariant_of_reachable hslots hcreate hslot hs
    exact .of_invariant hcounted hcontents
  · intro s hs
    refine (Machine.ReachableBy.invariant (I := fun s => Noted capacity s) ?_ ?_ hs).returns
    · exact ⟨rfl, fun n th hn => (nomatch hn), fun r hr => (nomatch hr)⟩
    · intro s a s' hr h hok hstep
      obtain ⟨s₁, hmoves, rfl⟩ := moves_of_step hstep
      exact h.of_moves (invariant_of_reachable hslots hcreate hslot hr.reachable).1 hok hmoves

/-- The queue of the examples, as it is created. -/
def created (capacity : Nat) : QueueSlot := ⟨some ⟨capacity, []⟩, 4, capacity, 0, true, true⟩

/-- One send fills the queue, one finds it full, and a receive takes the item. -/
def filled : List (Action ⟨32, 1000⟩ 4) :=
  [Action.spawn, Action.send 0 #v[1, 2, 3, 4] waitForever, Action.go 0, Action.go 0, Action.go 0,
    Action.sendIsr 0 #v[5, 6, 7, 8], Action.go 0, Action.go 0, Action.receive 0 noWait, Action.go 0,
    Action.go 0]

theorem cmsisQueue_reserves_filled :
    ∃ s : State ⟨32, 1000⟩ 4, (machine ⟨32, 1000⟩ 4 (created 1)).ReachableBy
        (fun s a => losesExchange s a = false) s ∧
      s.returned = [(0, #v[1, 2, 3, 4])] ∧ s.returns = [⟨.wouldBlock, 6, 8⟩, ⟨.ok, 2, 5⟩] ∧
      QueueOk 1 s ∧ ∀ r ∈ s.returns, r.Honest 1 s.counts := by
  have hok : (machine ⟨32, 1000⟩ 4 (created 1)).RunOk (fun s a => losesExchange s a = false)
      (machine ⟨32, 1000⟩ 4 (created 1)).init filled := by decide +kernel
  have hrun : ((machine ⟨32, 1000⟩ 4 (created 1)).run (machine ⟨32, 1000⟩ 4 (created 1)).init
      filled).map (fun s => (s.returned, s.returns)) =
      some ([(0, #v[1, 2, 3, 4])], [⟨.wouldBlock, 6, 8⟩, ⟨.ok, 2, 5⟩]) := by decide +kernel
  obtain ⟨s, hs, hfields⟩ := Option.map_eq_some_iff.mp hrun
  have hreach := Machine.ReachableBy.of_run .init hok hs
  have hqueue := @cmsisQueue_reserves [.unused] [created 1] true 4 1 0 (created 1) (.init 1) rfl rfl
    ⟨32, 1000⟩
  exact ⟨s, hreach, congrArg Prod.fst hfields, congrArg Prod.snd hfields,
    hqueue.1 s hreach.reachable, hqueue.2 s hreach⟩

/-- A send loads the count of an empty queue, and an interrupt sends before its exchange. -/
def interrupted : List (Action ⟨32, 1000⟩ 4) :=
  [Action.spawn, Action.spawn, Action.send 0 #v[1, 2, 3, 4] noWait, Action.go 0,
    Action.sendIsr 1 #v[5, 6, 7, 8], Action.go 1, Action.go 1, Action.go 1, Action.go 0,
    Action.go 0]

/-- The send reports a full queue that has never held more than one of its two messages. -/
theorem cmsisQueue_interrupted :
    ∃ (s : State ⟨32, 1000⟩ 4) (r : SendReturn),
      (create [.unused] true 4 2) = (.ok 0, [created 2]) ∧
      (machine ⟨32, 1000⟩ 4 (created 2)).Reachable s ∧ r ∈ s.returns ∧
      (∀ count ∈ s.counts, count < 2) ∧ ¬ r.Honest 2 s.counts := by
  have hrun : ((machine ⟨32, 1000⟩ 4 (created 2)).run (machine ⟨32, 1000⟩ 4 (created 2)).init
      interrupted).map (fun s => (s.returns, s.counts)) =
      some ([⟨.wouldBlock, 3, 10⟩, ⟨.ok, 5, 8⟩], [0, 0, 0, 0, 0, 0, 0, 1, 1, 1, 1]) := by
    decide +kernel
  obtain ⟨s, hs, hfields⟩ := Option.map_eq_some_iff.mp hrun
  obtain ⟨hreturns, hcounts⟩ := Prod.mk.inj hfields
  have hbelow : ∀ count ∈ s.counts, count < 2 := by
    rw [hcounts]
    decide
  refine ⟨s, ⟨.wouldBlock, 3, 10⟩, rfl, .of_run hs, ?_, hbelow, fun hhonest => ?_⟩
  · rw [hreturns]
    exact List.mem_cons_self ..
  · obtain ⟨k, -, -, hk⟩ := hhonest rfl
    exact absurd (hbelow 2 (List.mem_of_getElem? hk)) (Nat.lt_irrefl 2)

end MicrOsal.CmsisQueue
