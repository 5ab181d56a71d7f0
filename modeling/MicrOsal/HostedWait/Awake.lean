import MicrOsal.HostedWait.Message
import MicrOsal.HostedWait.Signal

/-!
# MicrOsal.HostedWait.Awake

Over the hosted semaphores, a give that is refused leaves nobody asleep: in the stream buffer, the
message buffer and the wait signal, who is blocked on a `sem_t` of value 0 although it could go on
will be woken by a give on its way.
-/

namespace MicrOsal.HostedWait

theorem hosted_waits_awake (w : Nat) :
    (∀ (buffer : Option (Nat → UInt8)) (capacity triggerLevel : Nat) (obj : EmuSbObj),
      osalStreamBufferCreate buffer capacity triggerLevel = .ok obj →
      ∀ t : State (SbSys w), (sbClient w obj).machine.Reachable t → SbAwake t) ∧
    (∀ (buffer : Option (Nat → UInt8)) (capacity : Nat) (obj : EmuMbObj),
      osalMessageBufferCreate buffer capacity = .ok obj →
      ∀ t : State (MbSys w), (mbClient w obj).machine.Reachable t → MbAwake t) ∧
    ∀ s, Signal.machine.Reachable s → Signal.SignalAwake s :=
  ⟨fun _ _ _ _ hcreate _ ht => sbAwake hcreate ht, fun _ _ _ hcreate _ ht => mbAwake hcreate ht,
    fun _ hs => Signal.signalAwake hs⟩

/-- The consumer has waited for the first byte and has not decremented the count yet when the
second byte is sent. That give is refused. The consumer then reads one byte, reads the other, and
sleeps; the producer sends a third one, and is about to post. -/
def refusedGive : List (Call 32) :=
  Call.receive 1 waitForever :: List.replicate 3 (Call.consumer false) ++
    Call.send (some [1]) waitForever :: List.replicate 7 (Call.producer false) ++
    Call.consumer false :: Call.send (some [2]) waitForever ::
      List.replicate 6 (Call.producer false) ++
    List.replicate 8 (Call.consumer false) ++
    Call.receive 1 waitForever :: List.replicate 6 (Call.consumer false) ++
    Call.receive 1 waitForever :: List.replicate 3 (Call.consumer false) ++
    Call.send (some [3]) waitForever :: List.replicate 6 (Call.producer false)

/-- The consumer sleeps when the message is sent, and the producer is about to post. -/
def messageSent : List (Call 32) :=
  Call.receive 1 waitForever :: List.replicate 3 (Call.consumer false) ++
    Call.send (some [7]) waitForever :: List.replicate 7 (Call.producer false)

/-- The waiter has waited for the first change and has not decremented the count yet at the second
one. That give is refused. The waiter then sees both changes and sleeps; the third one is about to
be given. -/
def refusedNotify : List Signal.Action :=
  [.spawn, .spawn, .beginWait 0, .waitForChange 0 0 .forever, .advance 0 false,
    .notify 1, .advance 1 false, .advance 1 false, .advance 0 false,
    .notify 1, .advance 1 false, .advance 0 false,
    .waitForChange 0 2 .forever, .advance 0 false, .notify 1]

/-- What the consumer of a stream buffer that sleeps relies on. -/
def sbAsleep (t : State (SbSys w)) : Bool × Nat × Bool :=
  (sbConsumerStage t.sys.cons = .takes .data, (t.sem .data).value,
    t.sys.obj.trigger ≤ sbAvailable t.sys.obj)

instance (o : EmuMbObj) : Decidable (MbReady o) := inferInstanceAs (Decidable (_ ∧ _))

def mbAsleep (t : State (MbSys w)) : Bool × Nat × Bool :=
  (mbConsumerStage t.sys.cons = .takes .data, (t.sem .data).value, MbReady t.sys.obj)

/-- The three runs come to a sleeper that could go on, and the wake-up is on its way. -/
theorem hosted_waits_awake_refused :
    (∃ (obj : EmuSbObj) (t : State (SbSys 32)),
      osalStreamBufferCreate (some fun _ => 0) 2 1 = .ok obj ∧
        (sbClient 32 obj).machine.Reachable t ∧ sbAsleep t = (true, 0, true) ∧
        (t.phase .producer = .posting .data ∨ t.phase .producer = .free ∧ t.sys.prod.AtGive)) ∧
    (∃ (obj : EmuMbObj) (t : State (MbSys 32)),
      osalMessageBufferCreate (some fun _ => 0) 5 = .ok obj ∧
        (mbClient 32 obj).machine.Reachable t ∧ mbAsleep t = (true, 0, true) ∧
        (t.phase .producer = .posting .data ∨ t.phase .producer = .free ∧ Publishing t.sys.prod)) ∧
    ∃ s : Signal.State, Signal.machine.Reachable s ∧
      s.threads[0]? = some (.waits 2 .forever) ∧ s.sem.value = 0 ∧ s.generation ≠ 2 ∧
        ∃ (m : Nat) (owner : Bool),
          s.threads[m]? = some (.posts owner) ∨ s.threads[m]? = some (.gives owner) := by
  obtain ⟨hstream, hmessage, hsignal⟩ := hosted_waits_awake 32
  refine ⟨?_, ?_, ?_⟩
  · have hview : ((sbClient 32 ⟨fun _ => 0, 3, 2, 1, 0, 0, false, false⟩).machine.run
        (sbClient 32 ⟨fun _ => 0, 3, 2, 1, 0, 0, false, false⟩).machine.init refusedGive).map
          sbAsleep = some (true, 0, true) := by
      decide +kernel
    obtain ⟨t, hrun, hasleep⟩ := Option.map_eq_some_iff.mp hview
    have ht := Machine.Reachable.of_run hrun
    refine ⟨_, t, rfl, ht, hasleep, ?_⟩
    obtain ⟨htakes, hvalue, hready⟩ : _ ∧ _ ∧ _ := by
      simpa only [sbAsleep, Prod.mk.injEq, decide_eq_true_eq] using hasleep
    cases hc : t.sys.cons with
    | take r avail remaining =>
        exact (hstream (some fun _ => 0) 2 1 _ rfl t ht).data r avail remaining hc hvalue hready
    | _ =>
        rw [hc] at htakes
        cases htakes
  · have hview : ((mbClient 32 ⟨fun _ => 0, 6, 5, 0, 0, false, false⟩).machine.run
        (mbClient 32 ⟨fun _ => 0, 6, 5, 0, 0, false, false⟩).machine.init messageSent).map
          mbAsleep = some (true, 0, true) := by
      decide +kernel
    obtain ⟨t, hrun, hasleep⟩ := Option.map_eq_some_iff.mp hview
    have ht := Machine.Reachable.of_run hrun
    refine ⟨_, t, rfl, ht, hasleep, ?_⟩
    obtain ⟨htakes, hvalue, hready⟩ : _ ∧ _ ∧ _ := by
      simpa only [mbAsleep, Prod.mk.injEq, decide_eq_true_eq] using hasleep
    cases hc : t.sys.cons with
    | take r remaining =>
        exact (hmessage (some fun _ => 0) 5 _ rfl t ht).data r remaining hc hvalue hready
    | _ =>
        rw [hc] at htakes
        cases htakes
  · have hrun : Signal.machine.run Signal.machine.init refusedNotify =
        some ⟨3, ⟨0, 0⟩, true, [.waits 2 .forever, .gives false]⟩ := by
      decide +kernel
    have hs := Machine.Reachable.of_run hrun
    exact ⟨_, hs, rfl, rfl, by decide, (hsignal _ hs).generation 0 2 .forever rfl rfl (by decide)⟩

end MicrOsal.HostedWait
