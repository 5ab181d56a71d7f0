import MicrOsal.MessageBuffer.Fifo

/-!
# MicrOsal.MessageBuffer.Query

`osal_message_buffer_available`, called while the two sides of the buffer are at work.

The query loads `head` and `tail`, then `tail` once more, and decodes the two bytes it finds
there. They are the header of the oldest message only if that second load falls outside the stretch
in which a receive moves `tail` over a frame (`between`), if the buffer has not been emptied since
the first load, and if the bytes are copied before the producer writes over them. A query of which
all this holds (`Covered`) answers with the length of a message that was queued when `tail` was
loaded.
-/

namespace MicrOsal

variable {w : Nat}

/-! ### A thread that asks -/

/-- Where a call of `osal_message_buffer_available` stands. -/
inductive MbQuery
  | idle
  /-- `emu_mb_available`: about to load `head`. -/
  | availHead
  /-- `emu_mb_available`: about to load `tail`, then branch on the header size. -/
  | availTail (h : Nat)
  /-- `emu_mb_peek`: about to load `tail`. -/
  | peekTail (avail : Nat)
  /-- `emu_mb_peek`: about to copy the header out, then branch on the frame size. No step reads
  `seen`, the two bytes that lay there at the load. -/
  | peekCopy (avail t : Nat) (seen : List UInt8)

/-- What a call has returned, the bytes it has decoded and the index where it found them, and
the states of the buffer during the call. -/
structure MbAnswer (w : Nat) where
  result : Nat
  bytes : List UInt8
  place : Nat
  during : List (MbSys w)

/-- The buffer and a thread that asks for its size: the producer's, or another one. A query
stores nothing, so one thread stands for any number of them. -/
structure MbWatch (w : Nat) where
  sys : MbSys w
  query : MbQuery
  /-- The states of the buffer since the call. No step reads them. -/
  during : List (MbSys w)
  /-- The calls that have returned. No step reads them. -/
  answers : List (MbAnswer w)

/-- The two bytes at index `t`. -/
def mbBytesAt (o : EmuMbObj) (t : Nat) : List UInt8 :=
  ringCopyOut o.ringSize o.buf t kMsgHeaderBytes

namespace MbWatch

/-- The call returns `result`. -/
def answer (s : MbWatch w) (result : Nat) (bytes : List UInt8) (place : Nat) : MbWatch w :=
  { s with
    query := .idle
    answers := s.answers ++
      [{ result := result, bytes := bytes, place := place, during := s.during }] }

/-- `osal_message_buffer_available`, one load or copy a step. -/
def stepQuery (s : MbWatch w) : MbWatch w :=
  match s.query with
  | .idle => { s with query := .availHead, during := [s.sys] }
  | .availHead => { s with query := .availTail s.sys.obj.head }
  | .availTail h =>
    let avail := ringAvailable s.sys.obj.ringSize h s.sys.obj.tail
    if avail < kMsgHeaderBytes then s.answer 0 [] s.sys.obj.tail
    else { s with query := .peekTail avail }
  | .peekTail avail =>
    let t := s.sys.obj.tail
    { s with query := .peekCopy avail t (mbBytesAt s.sys.obj t) }
  | .peekCopy avail t _ =>
    let bytes := mbBytesAt s.sys.obj t
    if kMsgHeaderBytes + mbLength bytes ≤ avail then s.answer (mbLength bytes) bytes t
    else s.answer 0 bytes t

/-- A step of the buffer's two sides, or of the query. -/
inductive Act (w : Nat)
  | sys (a : MbAct w)
  | query

def step (s : MbWatch w) : Act w → Option (MbWatch w)
  | .sys a => (s.sys.step a).map fun sys' => { s with sys := sys', during := s.during ++ [sys'] }
  | .query => some s.stepQuery

end MbWatch

/-- The system over a buffer `osal_message_buffer_create` returned. -/
def mbWatchMachine (w : Nat) (obj : EmuMbObj) : Machine (MbWatch w) (MbWatch.Act w) where
  init := { sys := .ofObj obj, query := .idle, during := [.ofObj obj], answers := [] }
  step := MbWatch.step

/-! ### What a query should answer, and when it does -/

/-- The message `m` lies in the ring whole: sent, and neither received nor dropped. -/
def MbSys.Holds (s : MbSys w) (m : Msg) : Prop :=
  ∃ gone hand queued rest, Delivered s.outs gone ∧
    gone ++ hand ++ queued = sentMsgs s.sends ++ s.prod.published ∧
    mbQueued s.obj = rest ++ mbFrames queued ∧ rest <:+ hand.flatten ∧ m ∈ queued

/-- The answer is 0 or the payload length of a message that was completely queued at some moment
of the call. -/
def MbAnswer.Queued (a : MbAnswer w) : Prop :=
  a.result = 0 ∨ ∃ s ∈ a.during, ∃ m, s.Holds m ∧ m.length = a.result

/-- The answer is 0 or was decoded from the header of the message that was the oldest at some
moment of the call. -/
def MbAnswer.FromHeader (a : MbAnswer w) : Prop :=
  a.result = 0 ∨ ∃ s ∈ a.during, ∃ m back, mbQueued s.obj = mbFrames (m :: back) ∧
    a.place = s.obj.tail ∧ a.bytes = mbHeader m.length ∧ a.result = mbLength a.bytes

/-- A receive has moved `tail` over the header of its message and not yet over all of the
payload. -/
def MbConsumer.between : MbConsumer w → Bool
  | .readTail _ _ | .readCopy _ _ _ | .readStore _ _ _ _ | .restTail _ _ _ | .restStore _ _ _ _ =>
    true
  | _ => false

/-- The step of a query that looks for a header finds one: when it loads `tail` again, no receive
is between its stores of `tail` and the buffer is not empty; when it copies, the bytes are still
those that lay there. -/
def MbQuery.Covered (sys : MbSys w) : MbQuery → Prop
  | .peekTail _ => sys.cons.between = false ∧ sys.obj.head ≠ sys.obj.tail
  | .peekCopy _ t seen => mbBytesAt sys.obj t = seen
  | _ => True

/-- Every step of a query is covered, and every message let in has a header that describes it. -/
def MbWatch.Covered (s : MbWatch w) : MbWatch.Act w → Prop
  | .sys a => HeaderFits s.sys a
  | .query => s.query.Covered s.sys

instance (s : MbSys w) : (a : MbAct w) → Decidable (HeaderFits s a)
  | .producer _ =>
    match hp : s.prod with
    | .freeTail _ _ =>
      decidable_of_iff (_ ≤ _ ∨ _ < _) (by simp only [HeaderFits, hp]; exact Iff.rfl)
    | .idle | .freeHead _ | .writeHead _ | .writeHeader _ _ | .writePayload _ _
    | .writeStore _ _ | .give _ | .clock _ _ | .take _ _ _ =>
      .isTrue (by simp only [HeaderFits, hp])
  | .send _ _ | .sendIsr _ | .receive _ _ | .receiveIsr _ | .reset | .consumer _ | .tick =>
    .isTrue trivial

instance (sys : MbSys w) : (q : MbQuery) → Decidable (q.Covered sys)
  | .peekTail _ => inferInstanceAs (Decidable (_ ∧ _))
  | .peekCopy _ _ _ => inferInstanceAs (Decidable (_ = _))
  | .idle | .availHead | .availTail _ => .isTrue trivial

instance (s : MbWatch w) : (a : MbWatch.Act w) → Decidable (s.Covered a)
  | .sys a => inferInstanceAs (Decidable (HeaderFits s.sys a))
  | .query => inferInstanceAs (Decidable (s.query.Covered s.sys))

/-! ### The bytes at `tail` -/

section Framed

variable {s : MbSys w} {H T : Nat} {gone hand queued : List Msg} {rest : List UInt8}

/-- Every message in the queue of the bookkeeping lies in the ring. -/
theorem MbFramed.holds (h : MbFramed s H T gone hand queued rest) {m : Msg} (hm : m ∈ queued) :
    s.Holds m :=
  ⟨gone, hand, queued, rest, h.outs, h.fifo, h.mbQueued_eq, h.cons.hand.2.1, hm⟩

/-- Nothing of a message being received is left in the ring outside of its tail stores. -/
theorem MbConsView.rest_nil {n : Nat} {c : MbConsumer w} (h : MbConsView n T queued hand rest c)
    (hout : c.between = false) : rest = [] := by
  cases c with
  | readTail r n | readCopy r n t | readStore r n t out | restTail r n out
  | restStore r n t out => cases hout
  | giveSpace r out | againHead r out | againTail r out hd | giveData r out =>
      obtain ⟨m, -, hrest, -⟩ := h
      exact hrest
  | idle | availHead r | clock r | take r remaining | resetHead => exact h.2
  | _ => exact h.2.1

/-- Distinct indices mean that there is something in the ring. -/
theorem MbFramed.queued_ne_nil (h : MbFramed s H T gone hand queued [])
    (hne : s.obj.head ≠ s.obj.tail) : queued ≠ [] := by
  rintro rfl
  have hlen := h.content_length
  have hle := h.idx.ring.le
  refine hne ?_
  rw [h.idx.ring.head, h.idx.ring.tail, show H = T by simp at hlen; omega]

/-- The two bytes at `tail` are then the header of the oldest message. -/
theorem MbFramed.bytesAt_tail {m : Msg} {back : List Msg}
    (h : MbFramed s H T gone hand (m :: back) []) :
    mbBytesAt s.obj s.obj.tail = mbHeader m.length := by
  have hlen := h.content_length
  rw [mbFrames_cons, List.length_append, mbFrame_length] at hlen
  rw [mbBytesAt, h.copyOut (by omega), List.nil_append, mbFrames_cons, mbFrame,
    List.append_assoc, List.take_left' (mbHeader_length _)]

end Framed

/-- `bytes` is the header of a message that was the oldest in the buffer, at index `t`, in one
of the states `during`. -/
def MbSeen (during : List (MbSys w)) (t : Nat) (bytes : List UInt8) : Prop :=
  ∃ s ∈ during, ∃ m back, s.Holds m ∧ m.length ≤ mbMaxPayload ∧
    mbQueued s.obj = mbFrames (m :: back) ∧ t = s.obj.tail ∧ bytes = mbHeader m.length

/-- A covered load of `tail` finds the header of the oldest message there. -/
theorem MbSys.Framed.seen {s : MbSys w} (h : s.Framed) {avail : Nat}
    (hok : (MbQuery.peekTail avail).Covered s) {during : List (MbSys w)} (hs : s ∈ during) :
    MbSeen during s.obj.tail (mbBytesAt s.obj s.obj.tail) := by
  obtain ⟨hout, hne⟩ := hok
  obtain ⟨H, T, gone, hand, queued, rest, h⟩ := h
  obtain rfl := h.cons.rest_nil hout
  obtain ⟨m, back, rfl⟩ := List.exists_cons_of_ne_nil (h.queued_ne_nil hne)
  have hm : m ∈ m :: back := List.mem_cons_self
  exact ⟨s, hs, m, back, h.holds hm, h.short m hm, h.mbQueued_eq, rfl, h.bytesAt_tail⟩

theorem MbSeen.append {during : List (MbSys w)} {t : Nat} {bytes : List UInt8}
    (h : MbSeen during t bytes) (more : List (MbSys w)) : MbSeen (during ++ more) t bytes := by
  obtain ⟨s, hs, hseen⟩ := h
  exact ⟨s, List.mem_append_left _ hs, hseen⟩

/-! ### Whole runs -/

/-- What the thread knows at each point of a query. -/
def MbQuery.View (during : List (MbSys w)) : MbQuery → Prop
  | .peekCopy _ t seen => MbSeen during t seen
  | _ => True

namespace MbWatch

/-- What holds in every state of a run whose steps are covered. -/
structure Inv (s : MbWatch w) : Prop where
  framed : s.sys.Framed
  present : s.sys ∈ s.during
  view : s.query.View s.during
  answers : ∀ a ∈ s.answers, a.Queued ∧ a.FromHeader

/-- A step that only moves the query on. -/
theorem Inv.moves {s : MbWatch w} (h : s.Inv) {q : MbQuery} (hview : q.View s.during) :
    { s with query := q }.Inv :=
  ⟨h.framed, h.present, hview, h.answers⟩

/-- The query returns what is honest. -/
theorem Inv.returns {s : MbWatch w} (h : s.Inv) {result place : Nat} {bytes : List UInt8}
    (hqueued : MbAnswer.Queued ⟨result, bytes, place, s.during⟩)
    (hheader : MbAnswer.FromHeader ⟨result, bytes, place, s.during⟩) :
    (s.answer result bytes place).Inv := by
  refine ⟨h.framed, h.present, trivial, fun a ha => ?_⟩
  rcases List.mem_append.mp ha with ha | ha
  · exact h.answers a ha
  · obtain rfl := List.mem_singleton.mp ha
    exact ⟨hqueued, hheader⟩

/-- The length decoded from the header of a message is the message's. -/
theorem Inv.returnsSeen {s : MbWatch w} (h : s.Inv) {t : Nat} {bytes : List UInt8}
    (hseen : MbSeen s.during t bytes) : (s.answer (mbLength bytes) bytes t).Inv := by
  obtain ⟨sys, hsys, m, back, hholds, hshort, hqueued, rfl, rfl⟩ := hseen
  refine h.returns (Or.inr ⟨sys, hsys, m, hholds, ?_⟩)
    (Or.inr ⟨sys, hsys, m, back, hqueued, rfl, rfl, rfl⟩)
  exact (mbLength_mbHeader hshort).symm

theorem Inv.stepQuery {s : MbWatch w} (h : s.Inv) (hok : s.query.Covered s.sys) :
    s.stepQuery.Inv := by
  have hview := h.view
  unfold MbWatch.stepQuery
  cases hq : s.query with
  | idle => exact ⟨h.framed, List.mem_singleton_self _, trivial, h.answers⟩
  | availHead => exact h.moves trivial
  | availTail hd =>
      dsimp only
      split
      · exact h.returns (Or.inl rfl) (Or.inl rfl)
      · exact h.moves trivial
  | peekTail avail =>
      rw [hq] at hok
      exact h.moves (h.framed.seen hok h.present)
  | peekCopy avail t seen =>
      rw [hq] at hok hview
      -- what is copied is what lay there when `tail` was loaded
      obtain rfl : mbBytesAt s.sys.obj t = seen := hok
      dsimp only
      split
      · exact h.returnsSeen hview
      · exact h.returns (Or.inl rfl) (Or.inl rfl)

theorem Inv.step {s s' : MbWatch w} {a : Act w} (h : s.Inv) (hok : s.Covered a)
    (hs : s.step a = some s') : s'.Inv := by
  cases a with
  | sys a =>
      obtain ⟨sys', hsys, rfl⟩ := Option.map_eq_some_iff.mp hs
      refine ⟨h.framed.step hok hsys, by simp, ?_, h.answers⟩
      have hview := h.view
      cases hq : s.query with
      | peekCopy avail t seen =>
          rw [hq] at hview
          exact hview.append _
      | _ => trivial
  | query =>
      obtain rfl := Option.some.inj hs
      exact h.stepQuery hok

end MbWatch

section
variable {buffer : Option (Nat → UInt8)} {capacity : Nat} {obj : EmuMbObj}

/-- Every interleaving of one producer, one consumer and a thread that asks for the size of the
buffer, of which every step is covered: a query answers 0 or the length of a message that was
completely queued and not yet received at some moment of the call, and it has read that length
from the header of the message. -/
theorem messageBuffer_available_honest
    (hcreate : osalMessageBufferCreate buffer capacity = .ok obj) {s : MbWatch w}
    (hs : (mbWatchMachine w obj).ReachableBy MbWatch.Covered s) :
    ∀ a ∈ s.answers, a.Queued ∧ a.FromHeader := by
  have hinit : (mbWatchMachine w obj).init.Inv :=
    ⟨MbSys.Framed.reachable hcreate .init, List.mem_singleton_self _, trivial, by
      intro a ha
      cases ha⟩
  have hinv := Machine.ReachableBy.invariant (I := MbWatch.Inv) hinit
    (fun _ _ _ _ hi hok hstep => hi.step hok hstep) hs
  exact hinv.answers

/-- The send of a message of three bytes, and the receive of one up to its second store of
`tail`. -/
def mbSendThree : List (MbWatch.Act 32) :=
  MbWatch.Act.sys (MbAct.sendIsr (some [1, 0, 5])) ::
    List.replicate 7 (MbWatch.Act.sys (MbAct.producer false))

def mbSkipHeader : List (MbWatch.Act 32) :=
  MbWatch.Act.sys (MbAct.receiveIsr 5) ::
    List.replicate 6 (MbWatch.Act.sys (MbAct.consumer false))

/-- A query of a buffer with one message, before that message is received. -/
theorem messageBuffer_available_honest_three :
    ∃ (obj : EmuMbObj) (s : MbWatch 32),
      osalMessageBufferCreate (some fun _ => 0) 10 = .ok obj ∧
      (mbWatchMachine 32 obj).ReachableBy MbWatch.Covered s ∧
      s.answers.map MbAnswer.result = [3] ∧ ∀ a ∈ s.answers, a.Queued ∧ a.FromHeader := by
  have hcreate : osalMessageBufferCreate (some fun _ => 0) 10 =
      .ok ⟨fun _ => 0, 11, 10, 0, 0, false, false⟩ := rfl
  let M := mbWatchMachine 32 ⟨fun _ => 0, 11, 10, 0, 0, false, false⟩
  let schedule := mbSendThree ++ List.replicate 5 MbWatch.Act.query ++ mbSkipHeader
  have hview : (M.run M.init schedule).map (fun s => s.answers.map MbAnswer.result) =
      some [3] := by
    decide +kernel
  have hok : M.RunOk MbWatch.Covered M.init schedule := by decide +kernel
  obtain ⟨s, hrun, hres⟩ := Option.map_eq_some_iff.mp hview
  have hs : M.ReachableBy MbWatch.Covered s := .of_run .init hok hrun
  exact ⟨_, s, hcreate, hs, hres, messageBuffer_available_honest hcreate hs⟩

/-- The same query between the two stores: the first two bytes of the payload say that there is
a message of one byte. -/
theorem messageBuffer_available_decodes_payload :
    ∃ (obj : EmuMbObj) (s : MbWatch 32) (a : MbAnswer 32),
      osalMessageBufferCreate (some fun _ => 0) 10 = .ok obj ∧
      (mbWatchMachine 32 obj).Reachable s ∧ a ∈ s.answers ∧ a.result = 1 ∧ ¬ a.Queued := by
  let M := mbWatchMachine 32 ⟨fun _ => 0, 11, 10, 0, 0, false, false⟩
  let schedule := mbSendThree ++ mbSkipHeader ++ List.replicate 5 MbWatch.Act.query
  have hview : (M.run M.init schedule).map (fun s => s.answers.map fun a =>
      (a.result, a.during.map fun sys => sentMsgs sys.sends ++ sys.prod.published)) =
      some [(1, [[[1, 0, 5]]])] := by
    decide +kernel
  obtain ⟨s, hrun, hres⟩ := Option.map_eq_some_iff.mp hview
  obtain ⟨a, hanswers, ha⟩ := List.map_eq_singleton_iff.mp hres
  obtain ⟨hresult, hduring⟩ : a.result = 1 ∧ a.during.map (fun sys =>
      sentMsgs sys.sends ++ sys.prod.published) = [[[1, 0, 5]]] := by
    simpa only [Prod.mk.injEq] using ha
  have hs : M.Reachable s := Machine.Reachable.of_run hrun
  refine ⟨_, s, a, rfl, hs, by simp [hanswers], hresult, ?_⟩
  -- the only message ever sent has three bytes
  rintro (hzero | ⟨sys, hsys, m, ⟨gone, hand, queued, rest, -, hfifo, -, -, hm⟩, hlen⟩)
  · rw [hresult] at hzero
    cases hzero
  · have hsent := List.mem_map_of_mem (f := fun sys =>
      sentMsgs sys.sends ++ sys.prod.published) hsys
    rw [hduring] at hsent
    have hall : m ∈ gone ++ hand ++ queued := List.mem_append_right _ hm
    rw [hfifo, List.mem_singleton.mp hsent] at hall
    obtain rfl := List.mem_singleton.mp hall
    rw [hresult] at hlen
    cases hlen

end

end MicrOsal
