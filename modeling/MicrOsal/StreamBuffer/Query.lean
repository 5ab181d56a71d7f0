import MicrOsal.StreamBuffer.Fifo

/-!
# MicrOsal.StreamBuffer.Query

`osal_stream_buffer_available` and `osal_stream_buffer_free_space`, called while the two sides of
the buffer are at work.

Both load `head`, then `tail`. What they compute is the number of bytes between the two, as long as
the `tail` of the second load has not passed the `head` of the first: a `tail` that has is taken for
one that lies behind it, almost a whole ring away.

Bytes are counted from the beginning of the run (`sentCount`, `takenCount`). The counts are the
absolute positions of `SbInv`.
-/

namespace MicrOsal

variable {w : Nat}

/-! ### Bytes sent and taken -/

namespace SbSys

/-- The number of bytes sent, those of a send that has not returned yet included. -/
def sentCount (s : SbSys w) : Nat := (sentBytes s.sends ++ s.prod.published).length

/-- The number of bytes that have left the ring, received or discarded. -/
def takenCount (s : SbSys w) : Nat := (outBytes s.outs ++ s.cons.inHand).length

/-- The number of bytes sent and not yet received. -/
def unread (s : SbSys w) : Nat := s.sentCount - s.takenCount

end SbSys

theorem SbInv.counts {s : SbSys w} {H T : Nat} (h : SbInv s H T) :
    s.takenCount + (H - T) = s.sentCount := by
  have hlen := congrArg List.length h.fifo
  rwa [List.length_append, ringSpan_length] at hlen

/-- A call of `send` that is refused, or about to begin, has sent nothing. -/
theorem SbSys.beginSend_counts (s : SbSys w) (hp : s.prod = .idle) (data : Option (List UInt8))
    (timeout : Option (Tick w)) :
    (s.beginSend data timeout).sentCount = s.sentCount ∧
      (s.beginSend data timeout).takenCount = s.takenCount := by
  have hcode : s.sendCheck data timeout ≠ some .ok := by
    unfold SbSys.sendCheck
    intro h
    split at h
    · cases h
    · split at h
      · cases h
      · split at h <;> cases h
  unfold SbSys.beginSend
  dsimp only
  split
  · rename_i code hcheck
    have hfails : code ≠ .ok := by
      rintro rfl
      exact hcode hcheck
    refine ⟨?_, rfl⟩
    rw [SbSys.sentCount, SbSys.sentCount, SbSys.sendReturns, sentBytes_append, hp]
    simp [sentBytes, hfails]
  · refine ⟨?_, rfl⟩
    rw [SbSys.sentCount, SbSys.sentCount, hp]
    rfl

theorem SbSys.beginReceive_counts (s : SbSys w) (hc : s.cons = .idle) (maxLen : Nat)
    (timeout : Option (Tick w)) :
    (s.beginReceive maxLen timeout).sentCount = s.sentCount ∧
      (s.beginReceive maxLen timeout).takenCount = s.takenCount := by
  unfold SbSys.beginReceive
  dsimp only
  split
  · refine ⟨rfl, ?_⟩
    rw [SbSys.takenCount, SbSys.takenCount, SbSys.receiveReturns, outBytes_append, hc]
    simp [outBytes, SbOut.bytes, SbConsumer.inHand]
  · refine ⟨rfl, ?_⟩
    rw [SbSys.takenCount, SbSys.takenCount, hc]
    rfl

/-- The producer takes nothing out. -/
theorem SbSys.stepProducer_taken {s s' : SbSys w} {timedOut : Bool}
    (hs : s.stepProducer timedOut = some s') : s'.takenCount = s.takenCount := by
  unfold SbSys.stepProducer at hs
  cases hp : s.prod <;> rw [hp] at hs <;> dsimp only at hs
  case idle => cases hs
  case freeTail => split at hs <;> [skip; split at hs] <;> cases hs <;> rfl
  case clock => split at hs <;> cases hs <;> rfl
  case take => split at hs <;> split at hs <;> cases hs <;> rfl
  all_goals cases hs; rfl

/-- What is sent stays sent. -/
theorem SbSys.stepProducer_sent {s s' : SbSys w} {timedOut : Bool}
    (hs : s.stepProducer timedOut = some s') : s.sentCount ≤ s'.sentCount := by
  have hkeep : ∀ (c : SbSend w) (code : ErrorCode), s.prod.published = [] →
      s.sentCount ≤ (s.sendReturns c code).sentCount := by
    intro c code hp
    rw [SbSys.sentCount, hp, SbSys.sentCount, SbSys.sendReturns, sentBytes_append]
    simp
  unfold SbSys.stepProducer at hs
  generalize hp : s.prod = here at hs
  cases here with
  | idle => cases hs
  | freeTail c hd =>
      dsimp only at hs
      split at hs <;> [skip; split at hs] <;> cases hs
      · exact Nat.le_of_eq (by rw [SbSys.sentCount, SbSys.sentCount, hp]; rfl)
      · exact hkeep c _ (by rw [hp]; rfl)
      · exact Nat.le_of_eq (by rw [SbSys.sentCount, SbSys.sentCount, hp]; rfl)
  | clock c free =>
      dsimp only at hs
      split at hs <;> cases hs
      · exact hkeep c _ (by rw [hp]; rfl)
      · exact Nat.le_of_eq (by rw [SbSys.sentCount, SbSys.sentCount, hp]; rfl)
  | take c free remaining =>
      dsimp only at hs
      split at hs <;> split at hs <;> cases hs <;>
        exact Nat.le_of_eq (by rw [SbSys.sentCount, SbSys.sentCount, hp]; rfl)
  | writeStore c hd =>
      obtain rfl := Option.some.inj hs
      rw [SbSys.sentCount, SbSys.sentCount, hp]
      simp [SbProducer.published]
  | give c =>
      obtain rfl := Option.some.inj hs
      rw [SbSys.sentCount, SbSys.sentCount, hp, SbSys.sendReturns, sentBytes_append]
      simp [SbProducer.published, sentBytes]
  | freeHead c | writeHead c | writeCopy c hd =>
      obtain rfl := Option.some.inj hs
      exact Nat.le_of_eq (by rw [SbSys.sentCount, SbSys.sentCount, hp]; rfl)

/-- The consumer sends nothing. -/
theorem SbSys.stepConsumer_sent {s s' : SbSys w} {timedOut : Bool}
    (hs : s.stepConsumer timedOut = some s') : s'.sentCount = s.sentCount := by
  unfold SbSys.stepConsumer at hs
  cases hc : s.cons <;> rw [hc] at hs <;> dsimp only at hs
  case idle => cases hs
  case availTail => split at hs <;> [skip; split at hs] <;> cases hs <;> rfl
  case clock => split at hs <;> cases hs <;> rfl
  case take => split at hs <;> split at hs <;> cases hs <;> rfl
  all_goals cases hs; rfl

/-- What the invariant says at the positions that the counts are. -/
def SbSys.Counted (s : SbSys w) : Prop := SbInv s s.sentCount s.takenCount

/-- The counts stay the positions. -/
theorem SbSys.Counted.step {s s' : SbSys w} {a : SbAct w} (h : s.Counted)
    (hs : s.step a = some s') : s'.Counted ∧ s.sentCount ≤ s'.sentCount := by
  have hle := h.ring.le
  have hcalled : ∀ t : SbSys w, SbInv t s.sentCount s.takenCount →
      t.sentCount = s.sentCount ∧ t.takenCount = s.takenCount →
      t.Counted ∧ s.sentCount ≤ t.sentCount := by
    rintro t ht ⟨hsent, htaken⟩
    refine ⟨?_, hsent.ge⟩
    unfold SbSys.Counted
    rw [hsent, htaken]
    exact ht
  cases a with
  | send data timeout | sendIsr data =>
      simp only [SbSys.step] at hs
      split at hs
      · rename_i hp
        obtain rfl := Option.some.inj hs
        exact hcalled _ (h.beginSend hp _ _) (s.beginSend_counts hp _ _)
      · cases hs
  | receive maxLen timeout | receiveIsr maxLen =>
      simp only [SbSys.step] at hs
      split at hs
      · rename_i hc
        obtain rfl := Option.some.inj hs
        exact hcalled _ (h.beginReceive hc _ _) (s.beginReceive_counts hc _ _)
      · cases hs
  | reset =>
      simp only [SbSys.step] at hs
      split at hs
      · rename_i hc
        obtain rfl := Option.some.inj hs
        refine hcalled _ (h.moveConsumer (by rw [hc]; rfl) trivial trivial) ⟨rfl, ?_⟩
        rw [SbSys.takenCount, SbSys.takenCount, hc]
        rfl
      · cases hs
  | producer timedOut =>
      obtain ⟨H', h'⟩ := h.stepProducer hs
      have hcounts := h'.counts
      have hle' := h'.ring.le
      have htaken := SbSys.stepProducer_taken hs
      rw [htaken] at hcounts
      obtain rfl : H' = s'.sentCount := by omega
      refine ⟨?_, SbSys.stepProducer_sent hs⟩
      unfold SbSys.Counted
      rw [htaken]
      exact h'
  | consumer timedOut =>
      obtain ⟨T', h'⟩ := h.stepConsumer hs
      have hcounts := h'.counts
      have hle' := h'.ring.le
      have hsent := SbSys.stepConsumer_sent hs
      rw [hsent] at hcounts
      obtain rfl : T' = s'.takenCount := by omega
      refine ⟨?_, hsent.ge⟩
      unfold SbSys.Counted
      rw [hsent]
      exact h'
  | tick =>
      obtain rfl := Option.some.inj hs
      exact hcalled _ ⟨h.ring, h.prod, h.cons, h.ret, h.fifo, h.sends, h.outs⟩ ⟨rfl, rfl⟩

/-! ### A thread that asks -/

/-- Where a call of `osal_stream_buffer_available` or `osal_stream_buffer_free_space` stands. -/
inductive SbQuery
  | idle
  /-- `sb_available`: about to load `head`. -/
  | head
  /-- `sb_available`: about to load `tail`. No step reads `sent`, the number of bytes sent by the
  first load. -/
  | tail (h sent : Nat)

/-- What `sb_available` has computed for a call, and the states of the buffer during it. -/
structure SbAnswer (w : Nat) where
  available : Nat
  during : List (SbSys w)

/-- The buffer and a thread that asks. A query stores nothing, so one thread stands for any
number of them. -/
structure SbWatch (w : Nat) where
  sys : SbSys w
  query : SbQuery
  /-- The states of the buffer since the call. No step reads them. -/
  during : List (SbSys w)
  /-- The calls that have returned. No step reads them. -/
  answers : List (SbAnswer w)

namespace SbWatch

/-- A query, one load a step. -/
def stepQuery (s : SbWatch w) : SbWatch w :=
  match s.query with
  | .idle => { s with query := .head, during := [s.sys] }
  | .head => { s with query := .tail s.sys.obj.head s.sys.sentCount }
  | .tail h _ =>
    { s with
      query := .idle
      answers := s.answers ++
        [⟨ringAvailable s.sys.obj.ringSize h s.sys.obj.tail, s.during⟩] }

/-- A step of the buffer's two sides, or of the query. -/
inductive Act (w : Nat)
  | sys (a : SbAct w)
  | query

def step (s : SbWatch w) : Act w → Option (SbWatch w)
  | .sys a => (s.sys.step a).map fun sys' => { s with sys := sys', during := s.during ++ [sys'] }
  | .query => some s.stepQuery

end SbWatch

/-- The system over a buffer `osal_stream_buffer_create` returned. -/
def sbWatchMachine (w : Nat) (obj : EmuSbObj) : Machine (SbWatch w) (SbWatch.Act w) where
  init := { sys := .ofObj obj, query := .idle, during := [.ofObj obj], answers := [] }
  step := SbWatch.step

/-- The answer is bounded by what was there: at some moment of the call at least so many bytes had
been sent and not yet received. -/
structure SbAnswer.Bounded (a : SbAnswer w) : Prop where
  some_moment : ∃ s ∈ a.during, a.available ≤ s.unread
  /-- No data is reported when the buffer held none throughout. -/
  none_throughout : (∀ s ∈ a.during, s.unread = 0) → a.available = 0

theorem SbAnswer.Bounded.of_moment {a : SbAnswer w} {s : SbSys w} (hs : s ∈ a.during)
    (hle : a.available ≤ s.unread) : a.Bounded :=
  ⟨⟨s, hs, hle⟩, fun hnone => Nat.le_zero.mp (hnone s hs ▸ hle)⟩

/-- The step of a query that loads `tail` finds one that has not passed the loaded `head`: no
byte sent after the first load has been taken out since. -/
def SbWatch.Covered (s : SbWatch w) : SbWatch.Act w → Prop
  | .sys _ => True
  | .query =>
    match s.query with
    | .tail _ sent => s.sys.takenCount ≤ sent
    | _ => True

instance SbWatch.Covered.decidable (s : SbWatch w) : (a : SbWatch.Act w) → Decidable (s.Covered a)
  | .sys _ => .isTrue trivial
  | .query =>
    match hq : s.query with
    | .tail _ sent =>
      decidable_of_iff (s.sys.takenCount ≤ sent) (by simp only [SbWatch.Covered, hq])
    | .idle | .head => .isTrue (by simp only [SbWatch.Covered, hq])

/-! ### Whole runs -/

/-- A loaded `head` is the end of what had been sent by then. -/
def SbQuery.View (sys : SbSys w) : SbQuery → Prop
  | .tail h sent => h = sent % sys.obj.ringSize ∧ sent ≤ sys.sentCount
  | _ => True

namespace SbWatch

/-- What holds in every run. -/
structure Inv (s : SbWatch w) : Prop where
  counted : s.sys.Counted
  present : s.sys ∈ s.during
  view : s.query.View s.sys

theorem Inv.step {s s' : SbWatch w} {a : Act w} (h : s.Inv) (hs : s.step a = some s') :
    s'.Inv := by
  cases a with
  | sys a =>
      obtain ⟨sys', hsys, rfl⟩ := Option.map_eq_some_iff.mp hs
      obtain ⟨hcounted, hsent⟩ := h.counted.step hsys
      refine ⟨hcounted, by simp, ?_⟩
      have hview := h.view
      cases hq : s.query with
      | tail hd sent =>
          rw [hq] at hview
          obtain ⟨rfl, hle⟩ := hview
          have hshape := (SbSys.step_shape hsys).1
          refine ⟨?_, hle.trans hsent⟩
          dsimp only
          rw [hcounted.ring.size, hshape, ← h.counted.ring.size]
      | _ => trivial
  | query =>
      obtain rfl := Option.some.inj hs
      unfold stepQuery
      cases hq : s.query with
      | idle => exact ⟨h.counted, List.mem_singleton_self _, trivial⟩
      | head => exact ⟨h.counted, h.present, h.counted.ring.head, le_rfl⟩
      | tail hd sent => exact ⟨h.counted, h.present, trivial⟩

/-- What a step adds to the answers: nothing, or what a query has computed. -/
theorem step_answers {s s' : SbWatch w} {a : Act w} (hs : s.step a = some s') :
    s'.answers = s.answers ∨ ∃ h sent, a = .query ∧ s.query = .tail h sent ∧
      s'.answers = s.answers ++
        [⟨ringAvailable s.sys.obj.ringSize h s.sys.obj.tail, s.during⟩] := by
  cases a with
  | sys a =>
      obtain ⟨sys', -, rfl⟩ := Option.map_eq_some_iff.mp hs
      exact .inl rfl
  | query =>
      obtain rfl := Option.some.inj hs
      unfold stepQuery
      cases hq : s.query with
      | tail hd sent => exact .inr ⟨hd, sent, rfl, rfl, rfl⟩
      | _ => exact .inl rfl

/-- Whatever the two loads find, the difference is not more than the capacity. -/
theorem Inv.available_le {s : SbWatch w} (h : s.Inv) {hd sent : Nat}
    (hq : s.query = .tail hd sent) :
    ringAvailable s.sys.obj.ringSize hd s.sys.obj.tail ≤ s.sys.obj.capacity := by
  have hview := h.view
  rw [hq] at hview
  obtain ⟨rfl, -⟩ := hview
  have hpos := h.counted.ring.size_pos
  have hsize := h.counted.ring.size
  have hhead : sent % s.sys.obj.ringSize < s.sys.obj.ringSize := Nat.mod_lt _ hpos
  have htail := h.counted.ring.tail_lt
  unfold ringAvailable
  split <;> omega

/-- A `tail` that has not passed the loaded `head` gives the bytes between the two. -/
theorem Inv.available_covered {s : SbWatch w} (h : s.Inv) {hd sent : Nat}
    (hq : s.query = .tail hd sent) (hok : s.sys.takenCount ≤ sent) :
    ringAvailable s.sys.obj.ringSize hd s.sys.obj.tail ≤ s.sys.unread := by
  have hview := h.view
  rw [hq] at hview
  obtain ⟨rfl, hle⟩ := hview
  rw [h.counted.ring.available_eq hok hle, SbSys.unread]
  omega

end SbWatch

section
variable {buffer : Option (Nat → UInt8)} {capacity triggerLevel : Nat} {obj : EmuSbObj}

theorem SbWatch.Inv.init
    (hcreate : osalStreamBufferCreate buffer capacity triggerLevel = .ok obj) :
    (sbWatchMachine w obj).init.Inv :=
  ⟨SbInv.init hcreate, List.mem_singleton_self _, trivial⟩

/-- No answer is more than the capacity, so `free_space` never subtracts more than it has. -/
theorem SbWatch.answers_le
    (hcreate : osalStreamBufferCreate buffer capacity triggerLevel = .ok obj) {s : SbWatch w}
    (hs : (sbWatchMachine w obj).Reachable s) : ∀ a ∈ s.answers, a.available ≤ capacity := by
  have hinv := hs.invariant
    (I := fun s => s.Inv ∧ s.sys.obj.capacity = capacity ∧
      ∀ a ∈ s.answers, a.available ≤ capacity)
    ⟨.init hcreate, (osalStreamBufferCreate_shape hcreate).1, fun a ha => by cases ha⟩ ?_
  · exact hinv.2.2
  · rintro s a s' - ⟨hinv, hcap, hall⟩ hstep
    refine ⟨hinv.step hstep, ?_, ?_⟩
    · cases a with
      | sys a =>
          obtain ⟨sys', hsys, rfl⟩ := Option.map_eq_some_iff.mp hstep
          exact (SbSys.step_shape hsys).1.trans hcap
      | query =>
          obtain rfl := Option.some.inj hstep
          unfold stepQuery
          cases s.query <;> exact hcap
    · rcases SbWatch.step_answers hstep with heq | ⟨hd, sent, -, hq, heq⟩
      · exact heq ▸ hall
      · rw [heq]
        intro a ha
        rcases List.mem_append.mp ha with ha | ha
        · exact hall a ha
        · obtain rfl := List.mem_singleton.mp ha
          exact hcap ▸ hinv.available_le hq

/-- Every interleaving of one producer, one consumer and a thread that asks. In all of them the
free space is a difference that does not underflow. In those where the consumer takes out no byte
that was sent after the first load of a query before its second, the answer is at most the number of
bytes sent and not yet received at some moment of the call. -/
theorem streamBuffer_available_bounded
    (hcreate : osalStreamBufferCreate buffer capacity triggerLevel = .ok obj) :
    (∀ s : SbWatch w, (sbWatchMachine w obj).Reachable s →
      ∀ a ∈ s.answers, a.available ≤ capacity) ∧
    ∀ s : SbWatch w, (sbWatchMachine w obj).ReachableBy SbWatch.Covered s →
      ∀ a ∈ s.answers, a.Bounded := by
  refine ⟨fun s hs => SbWatch.answers_le hcreate hs, fun s hs => ?_⟩
  have hinv := Machine.ReachableBy.invariant
    (I := fun s : SbWatch w => s.Inv ∧ ∀ a ∈ s.answers, a.Bounded)
    ⟨.init hcreate, fun a ha => by cases ha⟩ ?_ hs
  · exact hinv.2
  · rintro s a s' - ⟨hinv, hall⟩ hok hstep
    refine ⟨hinv.step hstep, ?_⟩
    rcases SbWatch.step_answers hstep with heq | ⟨hd, sent, rfl, hq, heq⟩
    · exact heq ▸ hall
    · rw [heq]
      intro a ha
      rcases List.mem_append.mp ha with ha | ha
      · exact hall a ha
      · obtain rfl := List.mem_singleton.mp ha
        simp only [SbWatch.Covered, hq] at hok
        exact .of_moment hinv.present (hinv.available_covered hq hok)

/-- The send of one byte, and a receive. -/
def sbSendOne : List (SbWatch.Act 32) :=
  SbWatch.Act.sys (SbAct.sendIsr (some [7])) ::
    List.replicate 6 (SbWatch.Act.sys (SbAct.producer false))

def sbReceiveOne : List (SbWatch.Act 32) :=
  SbWatch.Act.sys (SbAct.receiveIsr 5) ::
    List.replicate 6 (SbWatch.Act.sys (SbAct.consumer false))

/-- A query of a buffer with one byte, and a receive after it. -/
theorem streamBuffer_available_bounded_one :
    ∃ (obj : EmuSbObj) (s : SbWatch 32),
      osalStreamBufferCreate (some fun _ => 0) 3 1 = .ok obj ∧
      (sbWatchMachine 32 obj).ReachableBy SbWatch.Covered s ∧
      s.answers.map SbAnswer.available = [1] ∧
      (∀ a ∈ s.answers, a.available ≤ 3) ∧ ∀ a ∈ s.answers, a.Bounded := by
  have hcreate : osalStreamBufferCreate (some fun _ => 0) 3 1 =
      .ok ⟨fun _ => 0, 4, 3, 1, 0, 0, false, false⟩ := rfl
  let M := sbWatchMachine 32 ⟨fun _ => 0, 4, 3, 1, 0, 0, false, false⟩
  let schedule := sbSendOne ++ List.replicate 3 SbWatch.Act.query ++ sbReceiveOne
  have hview : (M.run M.init schedule).map (fun s => s.answers.map SbAnswer.available) =
      some [1] := by
    decide +kernel
  have hok : M.RunOk SbWatch.Covered M.init schedule := by decide +kernel
  obtain ⟨s, hrun, hres⟩ := Option.map_eq_some_iff.mp hview
  have hs : M.ReachableBy SbWatch.Covered s := .of_run .init hok hrun
  have hboth := streamBuffer_available_bounded (w := 32) hcreate
  exact ⟨_, s, hcreate, hs, hres, hboth.1 s hs.reachable, hboth.2 s hs⟩

/-- A query of an empty buffer, with the send and the receive between its loads: a buffer that
never held more than one byte is reported full. -/
theorem streamBuffer_available_overtaken :
    ∃ (obj : EmuSbObj) (s : SbWatch 32) (a : SbAnswer 32),
      osalStreamBufferCreate (some fun _ => 0) 3 1 = .ok obj ∧
      (sbWatchMachine 32 obj).Reachable s ∧ a ∈ s.answers ∧ a.available = 3 ∧
      (∀ past ∈ a.during, past.unread ≤ 1) ∧ ¬ a.Bounded := by
  let M := sbWatchMachine 32 ⟨fun _ => 0, 4, 3, 1, 0, 0, false, false⟩
  let schedule := List.replicate 2 SbWatch.Act.query ++ sbSendOne ++ sbReceiveOne ++
    [SbWatch.Act.query]
  have hview : (M.run M.init schedule).map (fun s => s.answers.map fun a =>
      (a.available, decide (∀ past ∈ a.during, past.unread ≤ 1))) = some [(3, true)] := by
    decide +kernel
  obtain ⟨s, hrun, hres⟩ := Option.map_eq_some_iff.mp hview
  obtain ⟨a, hanswers, ha⟩ := List.map_eq_singleton_iff.mp hres
  obtain ⟨havailable, hduring⟩ : a.available = 3 ∧
      decide (∀ past ∈ a.during, past.unread ≤ 1) = true := by
    simpa only [Prod.mk.injEq] using ha
  have hone : ∀ past ∈ a.during, past.unread ≤ 1 := of_decide_eq_true hduring
  have hs : M.Reachable s := Machine.Reachable.of_run hrun
  refine ⟨_, s, a, rfl, hs, by simp [hanswers], havailable, hone, ?_⟩
  rintro ⟨⟨past, hpast, hle⟩, -⟩
  have := hone past hpast
  omega

end

end MicrOsal
