import MicrOsal.NuttxQueue.Fifo

/-!
# MicrOsal.NuttxQueue.Wakeup

Receivers and peekers block on one condition variable, and a send signals one of them. A peek
leaves the item where it is and signals nobody, so that a receiver may sleep on it. In runs in
which a send does not pass over a sleeping receiver, none does (`Owed`).
-/

namespace MicrOsal.NuttxQueue

open MicrOsal.Queue (Phase Timeout)

variable {α : Type} {s s' : State α} {n capacity : Nat} {th th' : Thread α} {item : α}

/-- A signal goes to a peek while a receiver sleeps. -/
def State.passesOver (s : State α) (signalled : Option Nat) : Bool :=
  (signalled.bind (fun m => s.threads[m]?)).any (Thread.peeks .asleep) &&
    s.threads.any (Thread.receives .asleep)

/-! ### Threads -/

theorem receives_eq {phase : Phase} (h : th.receives phase = true) :
    ∃ timed, th = .waits .receive timed phase := by
  unfold Thread.receives at h
  split at h
  case h_1 timed p =>
    obtain rfl := of_decide_eq_true h
    exact ⟨timed, rfl⟩
  case h_2 => cases h

theorem sends_eq {phase : Phase} (h : th.sends phase = true) :
    ∃ item timed, th = .waits (.send item) timed phase := by
  unfold Thread.sends at h
  split at h
  case h_1 item timed p =>
    obtain rfl := of_decide_eq_true h
    exact ⟨item, timed, rfl⟩
  case h_2 => cases h

theorem peeks_eq {phase : Phase} (h : th.peeks phase = true) :
    ∃ timed, th = .waits .peek timed phase := by
  unfold Thread.peeks at h
  split at h
  case h_1 timed p =>
    obtain rfl := of_decide_eq_true h
    exact ⟨timed, rfl⟩
  case h_2 => cases h

theorem onNotEmpty_eq (h : th.onNotEmpty = true) :
    (∃ timed, th = .waits .receive timed .asleep) ∨ ∃ timed, th = .waits .peek timed .asleep :=
  (Bool.or_eq_true_iff.mp h).imp receives_eq peeks_eq

/-- The thread of a step that leaves the queue alone. -/
theorem Settles.receivers {q : QueueObj α} (h : Settles q th th') :
    (th'.receives .asleep = true → th.receives .asleep = true ∨ q.count = 0) ∧
      (th.receives .woken = true → th'.receives .woken = true ∨ q.count = 0) := by
  cases h with
  | idle => exact ⟨nofun, nofun⟩
  | blocks hrunning hblocked =>
      constructor
      · intro ht
        obtain ⟨timed', hth'⟩ := receives_eq ht
        obtain ⟨rfl, -, -⟩ := Thread.waits.inj hth'
        exact .inr hblocked
      · intro ht
        obtain ⟨timed', rfl⟩ := receives_eq ht
        rcases hrunning with ⟨last, hidle⟩ | ⟨timed'', hwaits⟩
        · cases hidle
        · obtain ⟨rfl, -, -⟩ := Thread.waits.inj hwaits
          exact .inr hblocked
  | @wakes call timed => cases call <;> exact ⟨nofun, nofun⟩
  | @expires call => cases call <;> exact ⟨nofun, nofun⟩
  | @fails call timed => cases call <;> exact ⟨nofun, nofun⟩

/-- Who runs a call and waits in it has made that call. -/
theorem Running.call_eq {call call' : Call α} {timed : Bool} {phase : Phase}
    (h : Running call (.waits call' timed phase)) : call' = call := by
  rcases h with ⟨last, hidle⟩ | ⟨timed', hwaits⟩
  · cases hidle
  · exact (Thread.waits.inj hwaits).1

theorem Running.not_receives {call : Call α} (h : Running call th) (hne : call ≠ .receive)
    (phase : Phase) : th.receives phase = false := by
  refine Bool.eq_false_iff.mpr (fun ht => ?_)
  obtain ⟨timed, rfl⟩ := receives_eq ht
  exact hne h.call_eq.symm

/-! ### The receivers' side -/

/-- While a receiver sleeps, the items are no more than the receivers on their way. -/
def ReceiversOwed (s : State α) : Prop :=
  Owed (Thread.receives .asleep) (Thread.receives .woken) s.threads s.queue.count

/-- A send's signal to a receiver, or to a peek if no receiver sleeps. -/
theorem owed_of_signals {threads threads' : List (Thread α)} {signalled : Option Nat}
    {things : Nat} (h : Owed (Thread.receives .asleep) (Thread.receives .woken) threads things)
    (hsignals : Signals Thread.onNotEmpty Thread.wake threads signalled threads')
    (hpeek : ∀ (m : Nat) (timed : Bool), signalled = some m →
      threads[m]? = some (.waits .peek timed .asleep) →
      ∀ th ∈ threads, th.receives .asleep = false) :
    Owed (Thread.receives .asleep) (Thread.receives .woken) threads' (things + 1) := by
  cases hsignals with
  | nobody hnone => exact .of_nobody (fun th hth => (Bool.or_eq_false_iff.mp (hnone th hth)).1)
  | @one m th hm hwaits =>
      rcases onNotEmpty_eq hwaits with ⟨timed, rfl⟩ | ⟨timed, rfl⟩
      · exact h.put hm rfl rfl rfl
      · refine .of_nobody (fun th hth => ?_)
        rcases List.mem_or_eq_of_mem_set hth with hth | rfl
        · exact hpeek m timed rfl hm th hth
        · rfl

theorem State.receives_of_not_passesOver {signalled : Option Nat} {m : Nat} {timed : Bool}
    (h : s.passesOver signalled = false) (hm : signalled = some m)
    (hpeek : s.threads[m]? = some (.waits .peek timed .asleep)) :
    ∀ th ∈ s.threads, th.receives .asleep = false := by
  intro th hth
  refine Bool.eq_false_iff.mpr (fun ht => ?_)
  subst hm
  have hany : s.threads.any (Thread.receives .asleep) = true :=
    List.any_eq_true.mpr ⟨th, hth, ht⟩
  rw [State.passesOver, Option.bind_some, hpeek, hany] at h
  cases h

/-- A step that does not pass over a sleeping receiver. -/
theorem ReceiversOwed.of_moves {signalled : Option Nat} (h : ReceiversOwed s)
    (hq : s.queue.Ok capacity) (hm : Moves s signalled s')
    (hok : s.passesOver signalled = false) : ReceiversOwed s' := by
  cases hm with
  | spawn => exact h.concat rfl
  | settle hn hth => exact Owed.settle h hn hth.receivers.1 hth.receivers.2
  | @put n th item q threads hn hth hput hroom hsignals =>
      obtain ⟨q', hput', -, -, hcount⟩ := hq.put hroom item
      obtain rfl := Option.some.inj (hput.symm.trans hput')
      have hidle : Owed (Thread.receives .asleep) (Thread.receives .woken)
          (s.threads.set n (.idle (some (.code .ok)))) s.queue.count :=
        Owed.settle h hn nofun (fun ht => by
          rw [hth.not_receives nofun] at ht
          cases ht)
      show Owed _ _ threads q.count
      rw [hcount]
      refine owed_of_signals hidle hsignals (fun m timed hsig hpeek th' hth' => ?_)
      have hold : s.threads[m]? = some (.waits .peek timed .asleep) := by
        rcases getElem?_set_cases hpeek with ⟨-, hnew⟩ | ⟨-, hold⟩
        · cases hnew
        · exact hold
      rcases List.mem_or_eq_of_mem_set hth' with hmem | rfl
      · exact State.receives_of_not_passesOver hok hsig hold th' hmem
      · rfl
  | @take n th item q threads hn hth htake hne hsignals =>
      obtain ⟨item', q', htake', -, -, hcount⟩ := hq.take hne
      obtain ⟨rfl, rfl⟩ := Prod.mk.inj (Option.some.inj (htake.symm.trans htake'))
      rw [ReceiversOwed, hcount] at h
      have htaken : Owed (Thread.receives .asleep) (Thread.receives .woken)
          (s.threads.set n (.idle (some (.item item)))) q.count := Owed.take h hn rfl
      cases hsignals with
      | nobody => exact htaken
      | @one m th' hm hwaits =>
          obtain ⟨item', timed, rfl⟩ := sends_eq hwaits
          exact htaken.settle hm nofun nofun
  | @peek n th item q hn hth hpeek hne =>
      obtain ⟨item', q', hpeek', -, -, hcount, -⟩ := hq.peek hne
      obtain ⟨rfl, rfl⟩ := Prod.mk.inj (Option.some.inj (hpeek.symm.trans hpeek'))
      show Owed _ _ (s.threads.set n (.idle (some (.item item)))) q.count
      rw [hcount]
      refine Owed.settle h hn nofun (fun ht => ?_)
      rw [hth.not_receives nofun] at ht
      cases ht

/-! ### Runs -/

/-- No signal of the step goes to a peek while a receiver sleeps. -/
def ReceiverFirst (s : State α) (a : Action α) : Prop := s.passesOver a.signalled = false

instance ReceiverFirst.decidable (s : State α) (a : Action α) : Decidable (ReceiverFirst s a) :=
  inferInstanceAs (Decidable (_ = _))

/-- While receivers come first, no receiver sleeps on an item that no other is on its way to. -/
theorem nuttxQueue_receivers_woken (cache : α) (capacity : Nat) (s : State α)
    (hs : (machine cache capacity).ReachableBy ReceiverFirst s)
    (hsleeps : ∃ th ∈ s.threads, th.receives .asleep = true) :
    s.queue.count ≤ s.threads.countP (Thread.receives .woken) := by
  have howed : ReceiversOwed s := by
    refine hs.invariant (I := ReceiversOwed) ?_ (fun s a s' hs hi hok hstep => ?_)
    · exact fun hpos => absurd hpos (Nat.lt_irrefl 0)
    have hq := (Fifo.of_reachable hs.reachable).ok
    exact hi.of_moves hq (moves_of_step hq hstep) hok
  exact howed (List.countP_pos_iff.mpr hsleeps)

/-- A receiver and a peek fall asleep; the send that follows wakes the receiver. -/
def receiverWoken : List (Action Nat) :=
  [.spawn, .spawn, .spawn, .spawn, .call 0 .receive (.wait false) none,
    .call 1 .receive (.wait false) none, .call 2 .peek (.wait false) none,
    .call 3 (.send 7) .noWait (some 1)]

theorem nuttxQueue_receivers_woken_first : ∃ s : State Nat,
    (machine 0 1).ReachableBy ReceiverFirst s ∧
    (∃ th ∈ s.threads, th.receives .asleep = true) ∧
    s.queue.count ≤ s.threads.countP (Thread.receives .woken) := by
  have hrun : ((machine 0 1).run (machine 0 1).init receiverWoken).map
      (fun s => s.threads.any (Thread.receives .asleep)) = some true := by decide +kernel
  obtain ⟨s, hs, hany⟩ := Option.map_eq_some_iff.mp hrun
  have hreach : (machine 0 1).ReachableBy ReceiverFirst s :=
    .of_run .init (by decide +kernel) hs
  have hsleeps := List.any_eq_true.mp hany
  exact ⟨s, hreach, hsleeps, nuttxQueue_receivers_woken 0 1 s hreach hsleeps⟩

/-- The same, but the send wakes the peek: the item stays, and the receiver sleeps on. -/
def peekWoken : List (Action Nat) :=
  [.spawn, .spawn, .spawn, .call 0 .receive (.wait false) none,
    .call 1 .peek (.wait false) none, .call 2 (.send 7) .noWait (some 1), .resume 1 none]

theorem nuttxQueue_receiver_stranded : ¬ ∀ s : State Nat, (machine 0 1).Reachable s →
    (∃ th ∈ s.threads, th.receives .asleep = true) →
    s.queue.count ≤ s.threads.countP (Thread.receives .woken) := by
  intro hall
  have hrun : ((machine 0 1).run (machine 0 1).init peekWoken).map (fun s =>
      (s.threads.any (Thread.receives .asleep), s.queue.count,
        s.threads.countP (Thread.receives .woken))) = some (true, 1, 0) := by decide +kernel
  obtain ⟨s, hs, hfields⟩ := Option.map_eq_some_iff.mp hrun
  have hle := hall s (.of_run hs) (List.any_eq_true.mp (congrArg Prod.fst hfields))
  have hcount : s.queue.count = 1 := congrArg (fun p => p.2.1) hfields
  have hwoken : s.threads.countP (Thread.receives .woken) = 0 := congrArg (fun p => p.2.2) hfields
  omega

end MicrOsal.NuttxQueue
