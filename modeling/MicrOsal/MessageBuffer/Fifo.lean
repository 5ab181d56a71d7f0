import MicrOsal.MessageBuffer.Indices

/-!
# MicrOsal.MessageBuffer.Fifo

The message buffer is a FIFO of whole messages, as long as every message that
gets in is one its header can describe.

The content of the ring (`MbFrames`) is what is left of the message the
consumer is reading, followed by whole frames. Everything the consumer loads is
described through that list: a loaded `head` is the end of one of its prefixes,
a peeked header is the length of its first message.
-/

namespace MicrOsal

variable {w : Nat}

/-- A message payload. -/
abbrev Msg := List UInt8

/-- The largest payload a 16-bit header can describe. -/
def mbMaxPayload : Nat := 65535

/-- A message as it lies in the ring. -/
def mbFrame (m : Msg) : List UInt8 := mbHeader m.length ++ m

/-- A sequence of whole frames. -/
def mbFrames (ms : List Msg) : List UInt8 := ms.flatMap mbFrame

@[simp] theorem mbHeader_length (len : Nat) : (mbHeader len).length = kMsgHeaderBytes := rfl

@[simp] theorem mbFrame_length (m : Msg) :
    (mbFrame m).length = kMsgHeaderBytes + m.length := by
  simp [mbFrame]

@[simp] theorem mbFrames_nil : mbFrames [] = [] := rfl

@[simp] theorem mbFrames_cons (m : Msg) (ms : List Msg) :
    mbFrames (m :: ms) = mbFrame m ++ mbFrames ms := rfl

@[simp] theorem mbFrames_append (ms ns : List Msg) :
    mbFrames (ms ++ ns) = mbFrames ms ++ mbFrames ns := by
  simp [mbFrames]

/-- A header that can describe the payload decodes to its length. -/
theorem mbLength_mbHeader {len : Nat} (h : len ≤ mbMaxPayload) : mbLength (mbHeader len) = len := by
  unfold mbMaxPayload at h
  simp only [mbLength, mbHeader, UInt8.toNat_ofNat']
  omega

theorem mbFrameSize_eq {len : Nat} (h : len ≤ mbMaxPayload) :
    mbFrameSize len = kMsgHeaderBytes + len := by
  unfold mbMaxPayload at h
  refine Nat.mod_eq_of_lt ?_
  simp only [kMsgHeaderBytes, sizeModulus]
  omega

/-! ### What the record says -/

/-- The payloads of the sends that returned `ok`, in order. -/
def sentMsgs (sends : List MbSendReturn) : List Msg :=
  (sends.filter fun r => r.code = .ok).map fun r => r.msg

/-- The message published by a send that has not returned yet. -/
def MbProducer.published : MbProducer w → List Msg
  | .give c => [c.msg]
  | _ => []

/-- What left the buffer accounts for exactly the messages `gone`: each receive
that returned bytes took one message and returned its first `maxLen` bytes,
and each reset dropped whole frames. -/
def Delivered : List MbOut → List Msg → Prop
  | [], gone => gone = []
  | .nothing :: outs, gone => Delivered outs gone
  | .received maxLen bytes :: outs, gone =>
    ∃ m rest, gone = m :: rest ∧ bytes = m.take maxLen ∧ Delivered outs rest
  | .discarded bytes :: outs, gone =>
    ∃ lost rest, gone = lost ++ rest ∧ bytes = mbFrames lost ∧ Delivered outs rest

/-- Two stretches of the record account for what they account for in turn. -/
theorem Delivered.append {outs outs' : List MbOut} {gone gone' : List Msg}
    (h : Delivered outs gone) (h' : Delivered outs' gone') :
    Delivered (outs ++ outs') (gone ++ gone') := by
  induction outs generalizing gone with
  | nil =>
      obtain rfl : gone = [] := h
      exact h'
  | cons o outs ih =>
      cases o with
      | nothing => exact ih h
      | received maxLen bytes =>
          obtain ⟨m, rest, rfl, hbytes, hrest⟩ := h
          exact ⟨m, rest ++ gone', rfl, hbytes, ih hrest⟩
      | discarded bytes =>
          obtain ⟨lost, rest, rfl, hbytes, hrest⟩ := h
          exact ⟨lost, rest ++ gone', List.append_assoc .., hbytes, ih hrest⟩

/-! ### The invariant -/

/-- What the producer has written at each point past the admission check. -/
def MbProdView (o : EmuMbObj) (H : Nat) : MbProducer w → Prop
  | .writeHead c | .writeHeader c _ | .give c => c.msg.length ≤ mbMaxPayload
  | .writePayload c _ =>
    c.msg.length ≤ mbMaxPayload ∧
      ringSpan o.ringSize o.buf H kMsgHeaderBytes = mbHeader c.msg.length
  | .writeStore c _ =>
    c.msg.length ≤ mbMaxPayload ∧
      ringSpan o.ringSize o.buf H (kMsgHeaderBytes + c.msg.length) = mbFrame c.msg
  | _ => True

/-- How the consumer's point relates the whole frames `queued` from `T` on (past
`rest`) to what it loaded: `hand` is the message it has begun to take, `rest`
what is left of it in the ring. -/
def MbConsView (n T : Nat) (queued hand : List Msg) (rest : List UInt8) :
    MbConsumer w → Prop
  | .idle | .availHead _ | .clock _ | .take _ _ | .resetHead => hand = [] ∧ rest = []
  | .availTail _ h | .resetTail h =>
    hand = [] ∧ rest = [] ∧
      ∃ front back, queued = front ++ back ∧ h = (T + (mbFrames front).length) % n
  | .peekTail _ avail | .peekCopy _ avail _ =>
    hand = [] ∧ rest = [] ∧
      ∃ front back, queued = front ++ back ∧ avail = (mbFrames front).length ∧ front ≠ []
  | .skipTail _ n | .skipStore _ n _ =>
    hand = [] ∧ rest = [] ∧ ∃ m back, queued = m :: back ∧ n = m.length
  | .readTail _ n | .readCopy _ n _ => ∃ m, hand = [m] ∧ rest = m ∧ n = m.length
  | .readStore r n _ out =>
    ∃ m, hand = [m] ∧ rest = m ∧ n = m.length ∧ out = m.take r.maxLen
  | .restTail r n out | .restStore r n _ out =>
    ∃ m, hand = [m] ∧ rest = m.drop r.maxLen ∧ n = m.length ∧ out = m.take r.maxLen
  | .giveSpace r out | .againHead r out | .againTail r out _ | .giveData r out =>
    ∃ m, hand = [m] ∧ rest = [] ∧ out = m.take r.maxLen

/-- The content invariant: `gone` has left the buffer, `hand` is being taken,
`queued` lies in the ring as whole frames behind `rest`. -/
structure MbFramed (s : MbSys w) (H T : Nat) (gone hand queued : List Msg)
    (rest : List UInt8) : Prop where
  idx : MbIdx s H T
  prod : MbProdView s.obj H s.prod
  cons : MbConsView s.obj.ringSize T queued hand rest s.cons
  content : ringSpan s.obj.ringSize s.obj.buf T (H - T) = rest ++ mbFrames queued
  short : ∀ m ∈ queued, m.length ≤ mbMaxPayload
  outs : Delivered s.outs gone
  fifo : gone ++ hand ++ queued = sentMsgs s.sends ++ s.prod.published

/-- Some bookkeeping fits the state. -/
def MbSys.Framed (s : MbSys w) : Prop :=
  ∃ H T gone hand queued rest, MbFramed s H T gone hand queued rest

/-! ### The producer's steps -/

/-- Every message the producer gets past the admission check is one its header
can describe. -/
def HeaderFits (s : MbSys w) : MbAct w → Prop
  | .producer _ =>
    match s.prod with
    | .freeTail c h =>
      c.msg.length ≤ mbMaxPayload ∨
        s.obj.capacity - ringAvailable s.obj.ringSize h s.obj.tail < mbFrameSize c.msg.length
    | _ => True
  | _ => True

section Steps

variable {s s' : MbSys w} {H T : Nat} {gone hand queued : List Msg} {rest : List UInt8}
  {timedOut : Bool} {back : List Msg}

/-- A message appended behind the queue changes nothing the consumer has seen. -/
theorem MbConsView.publish {n : Nat} {c : MbConsumer w}
    (h : MbConsView n T queued hand rest c) (m : Msg) :
    MbConsView n T (queued ++ [m]) hand rest c := by
  cases c with
  | availTail r hd | resetTail hd =>
      obtain ⟨hhand, hrest, front, back, rfl, hh⟩ := h
      exact ⟨hhand, hrest, front, back ++ [m], List.append_assoc .., hh⟩
  | peekTail r avail | peekCopy r avail t =>
      obtain ⟨hhand, hrest, front, back, rfl, havail⟩ := h
      exact ⟨hhand, hrest, front, back ++ [m], List.append_assoc .., havail⟩
  | skipTail r n | skipStore r n t =>
      obtain ⟨hhand, hrest, m', back, rfl, hn⟩ := h
      exact ⟨hhand, hrest, m', back ++ [m], rfl, hn⟩
  | _ => exact h

/-- A step of the producer that writes no cell and publishes nothing. -/
theorem MbFramed.moveProducer (h : MbFramed s H T gone hand queued rest) {p : MbProducer w}
    (hidx : MbIdx { s with prod := p } H T) (hpub : p.published = s.prod.published)
    (hp : MbProdView s.obj H p) : MbFramed { s with prod := p } H T gone hand queued rest :=
  ⟨hidx, hp, h.cons, h.content, h.short, h.outs, by rw [hpub]; exact h.fifo⟩

theorem MbFramed.sendFails (h : MbFramed s H T gone hand queued rest) {c : MbSend w}
    {code : ErrorCode} (hidx : MbIdx (s.sendReturns c code) H T) (hcode : code ≠ .ok)
    (hpub : s.prod.published = []) :
    MbFramed (s.sendReturns c code) H T gone hand queued rest := by
  refine ⟨hidx, trivial, h.cons, h.content, h.short, h.outs, ?_⟩
  have hfifo := h.fifo
  rw [hpub] at hfifo
  simpa [MbSys.sendReturns, sentMsgs, hcode, MbProducer.published] using hfifo

/-- Bytes written into free cells leave the queued content alone. -/
theorem MbFramed.copyIn_frame (h : MbFramed s H T gone hand queued rest) {p : Nat}
    {data : List UInt8} (hp : H ≤ p) (hfree : p + data.length ≤ T + s.obj.capacity) :
    ringSpan s.obj.ringSize (ringCopyIn s.obj.ringSize s.obj.buf (p % s.obj.ringSize) data) T
      (H - T) = rest ++ mbFrames queued := by
  have hsize := h.idx.ring.size
  have hle := h.idx.ring.le
  rw [← h.content]
  exact ringSpan_copyIn_frame h.idx.ring.size_pos (by omega) (by omega)

/-- The header copy puts the header at the end of the written region. -/
theorem mbCopyHeader_span {o : EmuMbObj} (hring : MbRingAt o H T) {msg : Msg}
    (hfit : kMsgHeaderBytes + msg.length ≤ o.capacity) :
    ringSpan o.ringSize (mbCopyHeader o o.head msg).buf H kMsgHeaderBytes =
      mbHeader msg.length := by
  have hsize := hring.size
  simp only [mbCopyHeader, hring.head]
  exact ringSpan_copyIn hring.size_pos (by rw [mbHeader_length]; omega)

/-- The payload copy leaves the header in place and puts the payload behind it. -/
theorem mbCopyPayload_span {o : EmuMbObj} (hring : MbRingAt o H T) (msg : Msg)
    {header : List UInt8} (hheader : ringSpan o.ringSize o.buf H kMsgHeaderBytes = header)
    (hfit : kMsgHeaderBytes + msg.length ≤ o.capacity) :
    ringSpan o.ringSize (mbCopyPayload o o.head msg).buf H (kMsgHeaderBytes + msg.length) =
      header ++ msg := by
  have hsize := hring.size
  have hpos : ringAdvance o.ringSize o.head kMsgHeaderBytes =
      (H + kMsgHeaderBytes) % o.ringSize := by
    rw [hring.head]
    exact ringAdvance_mod hring.size_pos (by omega)
  simp only [mbCopyPayload, hpos]
  rw [ringSpan_add, ringSpan_copyIn_frame hring.size_pos le_rfl (by omega), hheader,
    ringSpan_copyIn hring.size_pos (by omega)]

theorem MbFramed.stepProducer (h : MbFramed s H T gone hand queued rest)
    (hok : HeaderFits s (.producer timedOut)) (hs : s.stepProducer timedOut = some s') :
    s'.Framed := by
  have hidx := h.idx.stepProducer hs
  have hview := h.prod
  have hprod := h.idx.prod
  have hsize := h.idx.ring.size
  have hhead := h.idx.ring.head
  unfold MbSys.stepProducer at hs
  cases hp : s.prod with
  | idle => rw [hp] at hs; cases hs
  | freeHead c =>
      rw [hp] at hs hidx
      cases hs
      exact ⟨H, T, gone, hand, queued, rest, h.moveProducer hidx (by rw [hp]; rfl) trivial⟩
  | freeTail c hd =>
      rw [hp] at hs hidx
      simp only [HeaderFits, hp] at hok
      dsimp only at hs
      split at hs
      · rename_i hfit
        cases hs
        refine ⟨H, T, gone, hand, queued, rest, h.moveProducer hidx (by rw [hp]; rfl) ?_⟩
        exact hok.resolve_right (not_lt.mpr hfit)
      · split at hs
        · cases hs
          exact ⟨H, T, gone, hand, queued, rest,
            h.sendFails hidx (by decide) (by rw [hp]; rfl)⟩
        · cases hs
          exact ⟨H, T, gone, hand, queued, rest,
            h.moveProducer hidx (by rw [hp]; rfl) trivial⟩
  | writeHead c =>
      rw [hp] at hs hidx hview
      cases hs
      exact ⟨H, T, gone, hand, queued, rest, h.moveProducer hidx (by rw [hp]; rfl) hview⟩
  | writeHeader c hd =>
      rw [hp] at hs hidx hview hprod
      obtain ⟨rfl, hfree⟩ := hprod
      cases hs
      rw [mbFrameSize_eq hview] at hfree
      refine ⟨H, T, gone, hand, queued, rest, hidx, ⟨hview, ?_⟩, h.cons, ?_, h.short, h.outs, ?_⟩
      · have hle := h.idx.ring.le
        exact mbCopyHeader_span h.idx.ring (by omega)
      · simp only [mbCopyHeader, hhead]
        exact h.copyIn_frame le_rfl (by rw [mbHeader_length]; omega)
      · have hfifo := h.fifo
        rw [hp] at hfifo
        exact hfifo
  | writePayload c hd =>
      rw [hp] at hs hidx hview hprod
      obtain ⟨rfl, hfree⟩ := hprod
      obtain ⟨hlen, hheader⟩ := hview
      cases hs
      rw [mbFrameSize_eq hlen] at hfree
      have hle := h.idx.ring.le
      have hpos : ringAdvance s.obj.ringSize s.obj.head kMsgHeaderBytes =
          (H + kMsgHeaderBytes) % s.obj.ringSize := by
        rw [hhead]
        exact ringAdvance_mod h.idx.ring.size_pos (by omega)
      refine ⟨H, T, gone, hand, queued, rest, hidx, ⟨hlen, ?_⟩, h.cons, ?_, h.short, h.outs, ?_⟩
      · exact mbCopyPayload_span h.idx.ring c.msg hheader (by omega)
      · simp only [mbCopyPayload, hpos]
        exact h.copyIn_frame (Nat.le_add_right _ _) (by omega)
      · have hfifo := h.fifo
        rw [hp] at hfifo
        exact hfifo
  | writeStore c hd =>
      rw [hp] at hs hidx hview hprod
      obtain ⟨rfl, hfree⟩ := hprod
      obtain ⟨hlen, hframe⟩ := hview
      cases hs
      have hle := h.idx.ring.le
      refine ⟨_, T, gone, hand, queued ++ [c.msg], rest, hidx, hlen, h.cons.publish _, ?_, ?_,
        h.outs, ?_⟩
      · have hsplit : H + mbFrameSize c.msg.length - T =
            (H - T) + (kMsgHeaderBytes + c.msg.length) := by
          rw [mbFrameSize_eq hlen]
          omega
        simp only [MbProducer.publishes, hsplit, mbPublish]
        rw [ringSpan_add, h.content, Nat.add_sub_cancel' hle, hframe]
        simp
      · intro m hm
        rcases List.mem_append.mp hm with hm | hm
        · exact h.short m hm
        · obtain rfl := List.mem_singleton.mp hm
          exact hlen
      · have hfifo := h.fifo
        rw [hp] at hfifo
        simp only [MbProducer.published, List.append_nil] at hfifo ⊢
        rw [← hfifo, ← List.append_assoc]
  | give c =>
      rw [hp] at hs hidx hview
      cases hs
      refine ⟨H, T, gone, hand, queued, rest, hidx, trivial, h.cons, h.content, h.short, h.outs, ?_⟩
      have hfifo := h.fifo
      rw [hp] at hfifo
      simpa [MbSys.sendReturns, sentMsgs, MbProducer.published] using hfifo
  | clock c free =>
      rw [hp] at hs hidx
      dsimp only at hs
      split at hs
      · cases hs
        exact ⟨H, T, gone, hand, queued, rest, h.sendFails hidx (by decide) (by rw [hp]; rfl)⟩
      · cases hs
        exact ⟨H, T, gone, hand, queued, rest, h.moveProducer hidx (by rw [hp]; rfl) trivial⟩
  | take c free remaining =>
      rw [hp] at hs hidx
      have hfifo := h.fifo
      rw [hp] at hfifo
      dsimp only at hs
      split at hs
      · split at hs
        · cases hs
        · cases hs
          exact ⟨H, T, gone, hand, queued, rest, h.moveProducer hidx (by rw [hp]; rfl) trivial⟩
      · split at hs
        · cases hs
          exact ⟨H, T, gone, hand, queued, rest, hidx, trivial, h.cons, h.content, h.short,
            h.outs, hfifo⟩
        · cases hs

/-! ### The consumer's steps -/

theorem MbFramed.content_length (h : MbFramed s H T gone hand queued rest) :
    H - T = rest.length + (mbFrames queued).length := by
  have := congrArg List.length h.content
  simpa using this

/-- Copying out from `tail` reads the front of the content. -/
theorem MbFramed.copyOut (h : MbFramed s H T gone hand queued rest) {len : Nat}
    (hlen : len ≤ H - T) :
    ringCopyOut s.obj.ringSize s.obj.buf s.obj.tail len = (rest ++ mbFrames queued).take len := by
  have hcap := h.idx.ring.cap
  rw [h.idx.ring.copyOut (by omega), ← h.content, ringSpan_take hlen]

/-- Moving `tail` over the front of the content leaves the rest of it. -/
theorem MbFramed.dropFront (h : MbFramed s H T gone hand queued rest) {front back : List UInt8}
    (hsplit : rest ++ mbFrames queued = front ++ back) :
    ringSpan s.obj.ringSize s.obj.buf (T + front.length) (H - (T + front.length)) = back := by
  have hlen := congrArg List.length h.content
  rw [hsplit, ringSpan_length, List.length_append] at hlen
  have hcontent := h.content
  rw [hsplit, show H - T = front.length + (H - (T + front.length)) by omega,
    ringSpan_add] at hcontent
  exact (List.append_inj hcontent (ringSpan_length _ _)).2

/-- What the producer has written does not depend on the consumer's index. -/
theorem MbProdView.congr {o o' : EmuMbObj} {p : MbProducer w} (h : MbProdView o H p)
    (ho : o'.ringSize = o.ringSize ∧ o'.buf = o.buf) : MbProdView o' H p := by
  obtain ⟨hring, hbuf⟩ := ho
  cases p with
  | writePayload c hd | writeStore c hd =>
      simp only [MbProdView, hring, hbuf]
      exact h
  | _ => exact h

/-- A consumer step that moves neither index and ends no call. -/
theorem MbFramed.moveConsumer (h : MbFramed s H T gone hand queued rest) {c : MbConsumer w}
    {o : EmuMbObj} (hidx : MbIdx { s with obj := o, cons := c } H T)
    (ho : o.ringSize = s.obj.ringSize ∧ o.buf = s.obj.buf)
    (hc : MbConsView s.obj.ringSize T queued hand rest c) :
    MbFramed { s with obj := o, cons := c } H T gone hand queued rest := by
  refine ⟨hidx, h.prod.congr ho, ?_, ?_, h.short, h.outs, h.fifo⟩
  · simp only [ho]
    exact hc
  · simp only [ho]
    exact h.content

/-- A consumer step that ends a call which took no message. -/
theorem MbFramed.receiveNothing (h : MbFramed s H T gone [] queued [])
    (hidx : MbIdx (s.receiveReturns .nothing) H T) :
    MbFramed (s.receiveReturns .nothing) H T gone [] queued [] := by
  refine ⟨hidx, h.prod, ⟨rfl, rfl⟩, h.content, h.short, ?_, h.fifo⟩
  have hnone : Delivered [.nothing] [] := rfl
  simpa [MbSys.receiveReturns] using h.outs.append hnone

/-- The consumer gives up on this round: it returns nothing or goes on to wait. -/
theorem MbFramed.noMessage (h : MbFramed s H T gone [] queued []) (r : MbReceive w)
    (hidx : MbIdx (s.noMessage r) H T) :
    MbFramed (s.noMessage r) H T gone [] queued [] := by
  unfold MbSys.noMessage at hidx ⊢
  split
  · rename_i hnb
    rw [if_pos hnb] at hidx
    exact h.receiveNothing hidx
  · rename_i hnb
    rw [if_neg hnb] at hidx
    exact h.moveConsumer hidx ⟨rfl, rfl⟩ ⟨rfl, rfl⟩

/-- A consumer step that returns a message. -/
theorem MbFramed.receiveMsg {m : Msg} {maxLen : Nat} {o : EmuMbObj}
    (h : MbFramed s H T gone [m] queued [])
    (hidx : MbIdx ({ s with obj := o }.receiveReturns (.received maxLen (m.take maxLen))) H T)
    (ho : o.ringSize = s.obj.ringSize ∧ o.buf = s.obj.buf) :
    MbFramed ({ s with obj := o }.receiveReturns (.received maxLen (m.take maxLen))) H T
      (gone ++ [m]) [] queued [] := by
  refine ⟨hidx, h.prod.congr ho, ⟨rfl, rfl⟩, ?_, h.short, ?_, ?_⟩
  · simp only [MbSys.receiveReturns, ho]
    exact h.content
  · exact h.outs.append ⟨m, [], rfl, rfl, rfl⟩
  · have hfifo := h.fifo
    simp only [List.append_nil] at hfifo ⊢
    exact hfifo

/-- A consumer step that moves `tail` over the bytes `front`. -/
theorem MbFramed.advanceTail (h : MbFramed s H T gone hand queued rest) {t len : Nat}
    {c : MbConsumer w} {hand' queued' : List Msg} {rest' : List UInt8} (front : List UInt8)
    (hidx : MbIdx (s.advanceTail t len c) H (T + front.length))
    (hsplit : rest ++ mbFrames queued = front ++ (rest' ++ mbFrames queued'))
    (hmsgs : hand ++ queued = hand' ++ queued')
    (hshort : ∀ m ∈ queued', m.length ≤ mbMaxPayload)
    (hc : MbConsView s.obj.ringSize (T + front.length) queued' hand' rest' c) :
    MbFramed (s.advanceTail t len c) H (T + front.length) gone hand' queued' rest' := by
  refine ⟨hidx, h.prod.congr ⟨rfl, rfl⟩, hc, h.dropFront hsplit, hshort, h.outs, ?_⟩
  have hfifo := h.fifo
  rw [List.append_assoc, hmsgs, ← List.append_assoc] at hfifo
  exact hfifo

/-- What lies between `tail` and a loaded `head` is whole frames. -/
theorem MbFramed.available (h : MbFramed s H T gone hand (queued ++ back) []) :
    (mbFrames queued).length ≤ H - T ∧
      ringAvailable s.obj.ringSize ((T + (mbFrames queued).length) % s.obj.ringSize) s.obj.tail =
        (mbFrames queued).length := by
  have hlen := h.content_length
  simp only [List.length_nil, Nat.zero_add, mbFrames_append, List.length_append] at hlen
  have hle := h.idx.ring.le
  exact ⟨by omega, h.idx.ring.available_add (by omega)⟩

/-- The two bytes at `tail` are the header of the first queued message. -/
theorem MbFramed.peekedLength {m : Msg} (h : MbFramed s H T gone hand (m :: queued) [])
    (hle : kMsgHeaderBytes ≤ H - T) :
    mbLength (ringCopyOut s.obj.ringSize s.obj.buf s.obj.tail kMsgHeaderBytes) = m.length := by
  rw [h.copyOut hle, List.nil_append, mbFrames_cons, mbFrame, List.append_assoc,
    List.take_left' (mbHeader_length _)]
  exact mbLength_mbHeader (h.short m (List.mem_cons_self ..))

/-- `available`: at least a header, or nothing to take. -/
theorem MbFramed.stepAvailTail (h : MbFramed s H T gone hand queued rest) {r : MbReceive w}
    {hd : Nat} (hc : s.cons = .availTail r hd) (hs : s.stepConsumer timedOut = some s') :
    s'.Framed := by
  have hidx := h.idx.stepConsumer hs
  have hview := h.cons
  simp only [MbSys.stepConsumer, hc] at hs
  simp only [MbSys.consumes, hc] at hidx
  rw [hc] at hview
  obtain ⟨rfl, rfl, front, back, rfl, rfl⟩ := hview
  rw [h.available.2] at hs
  split at hs
  · rename_i hheader
    cases hs
    refine ⟨H, T, gone, [], front ++ back, [], h.moveConsumer hidx ⟨rfl, rfl⟩
      ⟨rfl, rfl, front, back, rfl, rfl, ?_⟩⟩
    rintro rfl
    simp [kMsgHeaderBytes] at hheader
  · cases hs
    exact ⟨H, T, gone, [], front ++ back, [], h.noMessage r hidx⟩

/-- The header of the first message is read, and stays where it is. -/
theorem MbFramed.stepPeekCopy (h : MbFramed s H T gone hand queued rest) {r : MbReceive w}
    {avail t : Nat} (hc : s.cons = .peekCopy r avail t)
    (hs : s.stepConsumer timedOut = some s') : s'.Framed := by
  have hidx := h.idx.stepConsumer hs
  have hview := h.cons
  have hcons := h.idx.cons
  simp only [MbSys.stepConsumer, hc] at hs
  simp only [MbSys.consumes, hc] at hidx
  rw [hc] at hview hcons
  obtain ⟨rfl, hle⟩ := hcons
  obtain ⟨rfl, rfl, front, back, rfl, rfl, hne⟩ := hview
  obtain ⟨m, front, rfl⟩ := List.exists_cons_of_ne_nil hne
  have hheader : kMsgHeaderBytes ≤ H - T := by
    simp only [mbFrames_cons, List.length_append, mbFrame_length] at hle
    omega
  rw [h.peekedLength hheader] at hs
  split at hs
  · cases hs
    exact ⟨H, T, gone, [], _, [], h.moveConsumer hidx ⟨rfl, rfl⟩
      ⟨rfl, rfl, m, front ++ back, rfl, rfl⟩⟩
  · cases hs
    exact ⟨H, T, gone, [], _, [], h.noMessage r hidx⟩

/-- `tail` passes the payload, or the part of it that has been copied. -/
theorem MbFramed.stepReadStore (h : MbFramed s H T gone hand queued rest) {r : MbReceive w}
    {n t : Nat} {out : List UInt8} (hc : s.cons = .readStore r n t out)
    (hs : s.stepConsumer timedOut = some s') : s'.Framed := by
  have hidx := h.idx.stepConsumer hs
  have hview := h.cons
  have hcons := h.idx.cons
  simp only [MbSys.stepConsumer, hc] at hs
  simp only [MbSys.consumes, hc] at hidx
  rw [hc] at hview hcons
  obtain ⟨rfl, hle⟩ := hcons
  obtain ⟨m, rfl, rfl, rfl, rfl⟩ := hview
  split at hs
  · rename_i hfits
    cases hs
    rw [Nat.min_eq_left hfits] at hidx
    exact ⟨H, _, gone, [rest], queued, [], h.advanceTail rest hidx rfl rfl h.short
      ⟨rest, rfl, rfl, rfl⟩⟩
  · -- The end of a message that is too long stays in the ring, to be skipped.
    cases hs
    have htake : (rest.take r.maxLen).length = min rest.length r.maxLen := by
      rw [List.length_take, Nat.min_comm]
    rw [← htake] at hidx
    refine ⟨H, _, gone, [rest], queued, rest.drop r.maxLen,
      h.advanceTail (rest.take r.maxLen) hidx ?_ rfl h.short ⟨rest, rfl, rfl, rfl, rfl⟩⟩
    rw [← List.append_assoc, List.take_append_drop]

/-- `reset` drops whole frames. -/
theorem MbFramed.stepResetTail (h : MbFramed s H T gone hand queued rest) {hd : Nat}
    (hc : s.cons = .resetTail hd) (hs : s.stepConsumer timedOut = some s') : s'.Framed := by
  have hidx := h.idx.stepConsumer hs
  have hview := h.cons
  simp only [MbSys.stepConsumer, hc] at hs
  simp only [MbSys.consumes, hc] at hidx
  rw [hc] at hview
  obtain ⟨rfl, rfl, front, back, rfl, rfl⟩ := hview
  cases hs
  obtain ⟨hle, havail⟩ := h.available
  have hlost : ringCopyOut s.obj.ringSize s.obj.buf s.obj.tail (mbFrames front).length =
      mbFrames front := by
    rw [h.copyOut hle, List.nil_append, mbFrames_append, List.take_left]
  rw [havail, hlost] at hidx ⊢
  refine ⟨H, _, gone ++ front, [], back, [], hidx, h.prod.congr ⟨rfl, rfl⟩, ⟨rfl, rfl⟩,
    h.dropFront (show [] ++ mbFrames (front ++ back) = mbFrames front ++ ([] ++ mbFrames back)
      by simp), fun m hm => h.short m (List.mem_append_right _ hm), ?_, ?_⟩
  · exact h.outs.append ⟨front, [], (List.append_nil _).symm, rfl, rfl⟩
  · have hfifo := h.fifo
    simp only [List.append_nil, List.append_assoc] at hfifo ⊢
    exact hfifo

theorem MbFramed.stepConsumer (h : MbFramed s H T gone hand queued rest)
    (hs : s.stepConsumer timedOut = some s') : s'.Framed := by
  have hidx := h.idx.stepConsumer hs
  have hview := h.cons
  have hcons := h.idx.cons
  have hlen := h.content_length
  simp only [MbSys.consumes] at hidx
  cases hc : s.cons with
  | idle => rw [MbSys.stepConsumer, hc] at hs; cases hs
  | availHead r | resetHead =>
      rw [hc] at hidx hview
      rw [MbSys.stepConsumer, hc] at hs
      obtain ⟨rfl, rfl⟩ := hview
      cases hs
      refine ⟨H, T, gone, [], queued, [], h.moveConsumer hidx ⟨rfl, rfl⟩
        ⟨rfl, rfl, queued, [], (List.append_nil _).symm, ?_⟩⟩
      have hle := h.idx.ring.le
      rw [h.idx.ring.head, show H = T + (mbFrames queued).length by simp at hlen; omega]
  | availTail => exact h.stepAvailTail hc hs
  | peekTail | skipTail | readTail | restTail | againHead =>
      rw [hc] at hidx hview
      rw [MbSys.stepConsumer, hc] at hs
      cases hs
      exact ⟨H, T, gone, hand, queued, rest, h.moveConsumer hidx ⟨rfl, rfl⟩ hview⟩
  | peekCopy => exact h.stepPeekCopy hc hs
  | skipStore r n t =>
      rw [hc] at hidx hview hcons
      rw [MbSys.stepConsumer, hc] at hs
      obtain ⟨rfl, -⟩ := hcons
      obtain ⟨rfl, rfl, m, back, rfl, rfl⟩ := hview
      cases hs
      refine ⟨H, _, gone, [m], back, m, h.advanceTail (mbHeader m.length) hidx ?_ rfl ?_ ?_⟩
      · simp [mbFrame]
      · exact fun m' hm' => h.short m' (List.mem_cons_of_mem _ hm')
      · exact ⟨m, rfl, rfl, rfl⟩
  | readCopy r n t =>
      rw [hc] at hidx hview hcons
      rw [MbSys.stepConsumer, hc] at hs
      obtain ⟨rfl, hle⟩ := hcons
      obtain ⟨m, rfl, rfl, rfl⟩ := hview
      cases hs
      refine ⟨H, T, gone, [rest], queued, rest, h.moveConsumer hidx ⟨rfl, rfl⟩
        ⟨rest, rfl, rfl, rfl, ?_⟩⟩
      rw [h.copyOut (by omega), List.take_append_of_le_length (Nat.min_le_left _ _),
        List.take_eq_take_min (i := r.maxLen), Nat.min_comm]
  | readStore => exact h.stepReadStore hc hs
  | restStore r n t out =>
      rw [hc] at hidx hview hcons
      rw [MbSys.stepConsumer, hc] at hs
      obtain ⟨rfl, -⟩ := hcons
      obtain ⟨m, rfl, rfl, rfl, rfl⟩ := hview
      cases hs
      have hdrop : m.length - r.maxLen = (m.drop r.maxLen).length := List.length_drop.symm
      dsimp only at hidx
      rw [hdrop] at hidx ⊢
      exact ⟨H, _, gone, [m], queued, [], h.advanceTail (m.drop r.maxLen) hidx rfl rfl
        h.short ⟨m, rfl, rfl, rfl⟩⟩
  | giveSpace r out =>
      rw [hc] at hidx hview
      rw [MbSys.stepConsumer, hc] at hs
      obtain ⟨m, rfl, rfl, rfl⟩ := hview
      dsimp only at hs
      split at hs
      · cases hs
        exact ⟨H, T, gone ++ [m], [], queued, [], h.receiveMsg hidx ⟨rfl, rfl⟩⟩
      · cases hs
        exact ⟨H, T, gone, [m], queued, [], h.moveConsumer hidx ⟨rfl, rfl⟩ ⟨m, rfl, rfl, rfl⟩⟩
  | againTail r out hd =>
      rw [hc] at hidx hview
      rw [MbSys.stepConsumer, hc] at hs
      obtain ⟨m, rfl, rfl, rfl⟩ := hview
      dsimp only at hs
      split at hs
      · cases hs
        exact ⟨H, T, gone, [m], queued, [], h.moveConsumer hidx ⟨rfl, rfl⟩ ⟨m, rfl, rfl, rfl⟩⟩
      · cases hs
        exact ⟨H, T, gone ++ [m], [], queued, [], h.receiveMsg hidx ⟨rfl, rfl⟩⟩
  | giveData r out =>
      rw [hc] at hidx hview
      rw [MbSys.stepConsumer, hc] at hs
      obtain ⟨m, rfl, rfl, rfl⟩ := hview
      cases hs
      exact ⟨H, T, gone ++ [m], [], queued, [], h.receiveMsg hidx ⟨rfl, rfl⟩⟩
  | clock r =>
      rw [hc] at hidx hview
      rw [MbSys.stepConsumer, hc] at hs
      obtain ⟨rfl, rfl⟩ := hview
      dsimp only at hs
      split at hs
      · cases hs
        exact ⟨H, T, gone, [], queued, [], h.receiveNothing hidx⟩
      · cases hs
        exact ⟨H, T, gone, [], queued, [], h.moveConsumer hidx ⟨rfl, rfl⟩ ⟨rfl, rfl⟩⟩
  | take r remaining =>
      rw [hc] at hidx hview
      rw [MbSys.stepConsumer, hc] at hs
      dsimp only at hs
      split at hs
      · split at hs
        · cases hs
        · cases hs
          exact ⟨H, T, gone, hand, queued, rest, h.moveConsumer hidx ⟨rfl, rfl⟩ hview⟩
      · split at hs
        · cases hs
          exact ⟨H, T, gone, hand, queued, rest, h.moveConsumer hidx ⟨rfl, rfl⟩ hview⟩
        · cases hs
  | resetTail => exact h.stepResetTail hc hs

end Steps

/-! ### Whole runs -/

theorem MbSys.sendCheck_ne_ok {s : MbSys w} {msg : Option (List UInt8)}
    {timeout : Option (Tick w)} {code : ErrorCode} (h : s.sendCheck msg timeout = some code) :
    code ≠ .ok := by
  rintro rfl
  unfold MbSys.sendCheck at h
  split at h
  · cases h
  · split at h
    · cases h
    · split at h
      · cases h
      · split at h <;> cases h

/-- Every step that lets no undescribable message in keeps the content framed. -/
theorem MbSys.Framed.step {s s' : MbSys w} {a : MbAct w} (h : s.Framed) (hok : HeaderFits s a)
    (hs : s.step a = some s') : s'.Framed := by
  obtain ⟨H, T, gone, hand, queued, rest, h⟩ := h
  rcases MbSys.step_call hs with ⟨msg, timeout, hp, rfl, -⟩ | ⟨maxLen, timeout, hc, rfl⟩ |
    ⟨hc, rfl⟩ | ⟨timedOut, rfl, hs⟩ | ⟨timedOut, -, hs⟩ | rfl
  · refine ⟨H, T, gone, hand, queued, rest, ?_⟩
    have hidx := h.idx.beginSend msg timeout
    unfold MbSys.beginSend at hidx ⊢
    dsimp only at hidx ⊢
    split at hidx
    · rename_i code hcode
      exact h.sendFails hidx (MbSys.sendCheck_ne_ok hcode) (by rw [hp]; rfl)
    · exact h.moveProducer hidx (by rw [hp]; rfl) trivial
  · have hview := h.cons
    rw [hc] at hview
    obtain ⟨rfl, rfl⟩ := hview
    refine ⟨H, T, gone, [], queued, [], ?_⟩
    have hidx := h.idx.beginReceive maxLen timeout
    unfold MbSys.beginReceive at hidx ⊢
    dsimp only at hidx ⊢
    by_cases hzero : maxLen = 0
    · rw [if_pos hzero] at hidx ⊢
      exact h.receiveNothing hidx
    · rw [if_neg hzero] at hidx ⊢
      exact h.moveConsumer hidx ⟨rfl, rfl⟩ ⟨rfl, rfl⟩
  · have hview := h.cons
    rw [hc] at hview
    exact ⟨H, T, gone, hand, queued, rest,
      h.moveConsumer (h.idx.moveConsumer _ trivial) ⟨rfl, rfl⟩ hview⟩
  · exact h.stepProducer hok hs
  · exact h.stepConsumer hs
  · exact ⟨H, T, gone, hand, queued, rest,
      ⟨h.idx.ring, h.idx.prod, h.idx.cons, h.idx.sends⟩, h.prod, h.cons, h.content, h.short,
      h.outs, h.fifo⟩

section
variable {buffer : Option (Nat → UInt8)} {capacity : Nat} {obj : EmuMbObj}

/-- The content is framed along every run whose admitted messages all have a
header that describes them. -/
theorem MbSys.Framed.reachable (hcreate : osalMessageBufferCreate buffer capacity = .ok obj)
    {s : MbSys w} (hs : (mbMachine w obj).ReachableBy HeaderFits s) : s.Framed := by
  have hinit : (MbSys.ofObj (w := w) obj).Framed := by
    have hidx := MbIdx.init (w := w) hcreate
    obtain ⟨-, buf, rfl⟩ := osalMessageBufferCreate_eq hcreate
    exact ⟨0, 0, [], [], [], [], hidx, trivial, ⟨rfl, rfl⟩, rfl, by simp, rfl, rfl⟩
  exact Machine.ReachableBy.invariant hinit (fun _ _ _ _ hi hok hstep => hi.step hok hstep) hs

/-- Every payload handed to a send has at most `mbMaxPayload` bytes. -/
def PayloadFits : MbAct w → Prop
  | .send msg _ | .sendIsr msg => (msg.getD []).length ≤ mbMaxPayload
  | _ => True

/-- The send in progress, if any. -/
def MbProducer.call : MbProducer w → Option (MbSend w)
  | .idle => none
  | .freeHead c | .freeTail c _ | .writeHead c | .writeHeader c _ | .writePayload c _
  | .writeStore c _ | .give c | .clock c _ | .take c _ _ => some c

/-- A producer step keeps working on the same call, or ends it. -/
theorem MbSys.stepProducer_call {s s' : MbSys w} {timedOut : Bool}
    (hs : s.stepProducer timedOut = some s') : s'.prod.call = s.prod.call ∨ s'.prod = .idle := by
  unfold MbSys.stepProducer at hs
  cases hp : s.prod <;> rw [hp] at hs <;> dsimp only at hs
  case idle => cases hs
  case freeTail =>
    split at hs <;> [skip; split at hs] <;> cases hs <;>
      first | exact Or.inl rfl | exact Or.inr rfl
  case clock => split at hs <;> cases hs <;> first | exact Or.inl rfl | exact Or.inr rfl
  case take => split at hs <;> split at hs <;> cases hs <;> exact Or.inl rfl
  all_goals cases hs; first | exact Or.inl rfl | exact Or.inr rfl

/-- Runs that only send payloads of a describable length admit only such. -/
theorem headerFits_of_payloadFits {s : MbSys w}
    (hs : (mbMachine w obj).ReachableBy (fun _ a => PayloadFits a) s) :
    (mbMachine w obj).ReachableBy HeaderFits s ∧
      ∀ c, s.prod.call = some c → c.msg.length ≤ mbMaxPayload := by
  induction hs with
  | init => exact ⟨.init, fun c hc => by cases hc⟩
  | @step s s' a _ hok hstep ih =>
      obtain ⟨hr, hbound⟩ := ih
      constructor
      · refine .step hr ?_ hstep
        cases a with
        | producer timedOut =>
            simp only [HeaderFits]
            split
            · rename_i c hd hp
              exact Or.inl (hbound c (by rw [hp]; rfl))
            · trivial
        | _ => trivial
      · rcases MbSys.step_call hstep with ⟨msg, timeout, -, rfl, hact⟩ |
          ⟨maxLen, timeout, -, rfl⟩ | ⟨-, rfl⟩ | ⟨timedOut, -, hstep⟩ | ⟨timedOut, -, hstep⟩ | rfl
        · intro c hc
          have hfits : (msg.getD []).length ≤ mbMaxPayload := by
            rcases hact with ⟨t, rfl, -⟩ | ⟨rfl, -⟩
            · exact hok
            · exact hok
          unfold MbSys.beginSend at hc
          dsimp only at hc
          split at hc
          · cases hc
          · cases hc
            exact hfits
        · unfold MbSys.beginReceive
          dsimp only
          split <;> exact hbound
        · exact hbound
        · rcases MbSys.stepProducer_call hstep with hcall | hidle
          · rw [hcall]
            exact hbound
          · rw [hidle]
            intro c hc
            cases hc
        · rw [(MbSys.stepConsumer_frame hstep).2.2.2.2.1]
          exact hbound
        · exact hbound

/-- The bytes between `tail` and `head`, oldest first. -/
def mbQueued (o : EmuMbObj) : List UInt8 :=
  ringCopyOut o.ringSize o.buf o.tail (emuMbAvailable o)

/-- The bytes in the ring are what the bookkeeping says. -/
theorem MbFramed.mbQueued_eq {s : MbSys w} {H T : Nat} {gone hand queued : List Msg}
    {rest : List UInt8} (h : MbFramed s H T gone hand queued rest) :
    mbQueued s.obj = rest ++ mbFrames queued := by
  have havail : emuMbAvailable s.obj = H - T := h.idx.ring.available_now
  have hcap := h.idx.ring.cap
  rw [mbQueued, havail, h.idx.ring.copyOut (by omega), h.content]

/-- The consumer has moved `tail` past a header and not returned yet. -/
def MbConsumer.taking : MbConsumer w → Bool
  | .readTail _ _ | .readCopy _ _ _ | .readStore _ _ _ _ | .restTail _ _ _ | .restStore _ _ _ _
  | .giveSpace _ _ | .againHead _ _ | .againTail _ _ _ | .giveData _ _ => true
  | _ => false

/-- The consumer holds at most one message, only while it is taking it, and what
is left of it in the ring is a suffix of it. -/
theorem MbConsView.hand {n T : Nat} {queued hand : List Msg} {rest : List UInt8}
    {c : MbConsumer w} (h : MbConsView n T queued hand rest c) :
    hand.length ≤ 1 ∧ rest <:+ hand.flatten ∧ (c.taking = false → hand = []) := by
  cases c with
  | readTail r n | readCopy r n t =>
      obtain ⟨m, rfl, rfl, -⟩ := h
      exact ⟨le_rfl, by simp, fun hf => by cases hf⟩
  | readStore r n t out =>
      obtain ⟨m, rfl, rfl, -⟩ := h
      exact ⟨le_rfl, by simp, fun hf => by cases hf⟩
  | restTail r n out | restStore r n t out =>
      obtain ⟨m, rfl, rfl, -⟩ := h
      exact ⟨le_rfl, by simpa using List.drop_suffix _ _, fun hf => by cases hf⟩
  | giveSpace r out | againHead r out | againTail r out hd | giveData r out =>
      obtain ⟨m, rfl, rfl, -⟩ := h
      exact ⟨le_rfl, List.nil_suffix, fun hf => by cases hf⟩
  | idle | availHead r | clock r | take r remaining | resetHead =>
      obtain ⟨rfl, rfl⟩ := h
      exact ⟨Nat.zero_le _, List.nil_suffix, fun _ => rfl⟩
  | _ =>
      obtain ⟨rfl, rfl, -⟩ := h
      exact ⟨Nat.zero_le _, List.nil_suffix, fun _ => rfl⟩

/-- A header the consumer can see is followed by its whole payload. -/
theorem MbFramed.peek_complete {s : MbSys w} {H T : Nat} {gone hand queued : List Msg}
    {rest : List UInt8} (h : MbFramed s H T gone hand queued rest) {r : MbReceive w}
    {avail t : Nat} (hc : s.cons = .peekCopy r avail t) :
    kMsgHeaderBytes + mbLength (ringCopyOut s.obj.ringSize s.obj.buf t kMsgHeaderBytes) ≤
      avail := by
  have hview := h.cons
  have hcons := h.idx.cons
  have hlen := h.content_length
  rw [hc] at hview hcons
  obtain ⟨rfl, hle⟩ := hcons
  obtain ⟨rfl, rfl, front, back, rfl, rfl, hne⟩ := hview
  obtain ⟨m, front, rfl⟩ := List.exists_cons_of_ne_nil hne
  rw [h.copyOut (by simp at hle; omega), List.nil_append, List.cons_append, mbFrames_cons,
    mbFrame, List.append_assoc, List.take_left' (mbHeader_length _),
    mbLength_mbHeader (h.short m (by simp))]
  simp

/-- The message buffer is a FIFO of whole messages. In every state any
interleaving of the two sides reaches, with payloads the header can describe:
the messages that left the buffer (cut to `maxLen` where received, whole where
reset), the one being taken and the ones still queued as whole frames are, in
order, exactly those of the successful sends (a send between its index store
and its return counts as `published`); a failed send left ring, `head` and
`tail` as they were; the indices stay inside the ring and the byte counts add
up; and a header the consumer peeks at always has its payload behind it. -/
theorem messageBuffer_fifo (hcreate : osalMessageBufferCreate buffer capacity = .ok obj)
    {s : MbSys w} (hs : (mbMachine w obj).ReachableBy (fun _ a => PayloadFits a) s) :
    (∃ gone hand queued rest,
      Delivered s.outs gone ∧
      gone ++ hand ++ queued = sentMsgs s.sends ++ s.prod.published ∧
      mbQueued s.obj = rest ++ mbFrames queued ∧
      hand.length ≤ 1 ∧ rest <:+ hand.flatten ∧ (s.cons.taking = false → hand = [])) ∧
    (∀ r ∈ s.sends, r.AllOrNothing) ∧
    (∀ timedOut s', s.stepProducer timedOut = some s' → s'.obj.tail = s.obj.tail) ∧
    s.obj.head < capacity + 1 ∧ s.obj.tail < capacity + 1 ∧
    emuMbAvailable s.obj + emuMbFree s.obj = capacity ∧
    (∀ r avail t, s.cons = .peekCopy r avail t →
      kMsgHeaderBytes + mbLength (ringCopyOut s.obj.ringSize s.obj.buf t kMsgHeaderBytes) ≤
        avail) := by
  have hfits := (headerFits_of_payloadFits hs).1
  obtain ⟨H, T, gone, hand, queued, rest, h⟩ := MbSys.Framed.reachable hcreate hfits
  have hcapacity := MbSys.reachable_capacity hs.reachable
  obtain ⟨-, buf, rfl⟩ := osalMessageBufferCreate_eq hcreate
  have hring := h.idx.ring
  have hsize := hring.size
  have hcap := hring.cap
  have hle := hring.le
  dsimp only at hcapacity
  rw [hcapacity] at hsize hcap
  have havail : emuMbAvailable s.obj = H - T := hring.available_now
  refine ⟨⟨gone, hand, queued, rest, h.outs, h.fifo, h.mbQueued_eq, h.cons.hand⟩, h.idx.sends,
    fun _ _ hstep => (MbSys.stepProducer_frame hstep).2, hsize ▸ hring.head_lt,
    hsize ▸ hring.tail_lt, ?_, fun r avail t hc => h.peek_complete hc⟩
  rw [emuMbFree, havail, hcapacity]
  omega

/-- A one-byte message through the smallest buffer: sent, received, gone. -/
theorem messageBuffer_fifo_one :
    ∃ (obj : EmuMbObj) (s : MbSys 32),
      osalMessageBufferCreate (some fun _ => 0) 3 = .ok obj ∧
      (mbMachine 32 obj).ReachableBy (fun _ a => PayloadFits a) s ∧
      sentMsgs s.sends = [[7]] ∧
      ∃ gone queued, Delivered s.outs gone ∧ gone ++ queued = [[7]] := by
  have hcreate : osalMessageBufferCreate (some fun _ => 0) 3 =
      .ok ⟨fun _ => 0, 4, 3, 0, 0, false, false⟩ := rfl
  let schedule : List (MbAct 32) :=
    MbAct.sendIsr (some [7]) :: List.replicate 7 (MbAct.producer false) ++
      MbAct.receiveIsr 5 :: List.replicate 10 (MbAct.consumer false)
  have hview : ((mbMachine 32 ⟨fun _ => 0, 4, 3, 0, 0, false, false⟩).run
      (MbSys.ofObj ⟨fun _ => 0, 4, 3, 0, 0, false, false⟩) schedule).map
        (fun s => (sentMsgs s.sends, s.prod.published, s.cons.taking)) =
      some ([[7]], [], false) := by
    decide +kernel
  obtain ⟨s, hrun, hres⟩ := Option.map_eq_some_iff.mp hview
  obtain ⟨hsent, hpub, htaking⟩ : sentMsgs s.sends = [[7]] ∧ s.prod.published = [] ∧
      s.cons.taking = false := by
    simpa only [Prod.mk.injEq] using hres
  have hs := Machine.ReachableBy.of_run .init
    (Machine.RunOk.of_forall (p := PayloadFits) (fun a ha => ?_) _) hrun
  · obtain ⟨⟨gone, hand, queued, rest, hgone, hfifo, -, -, -, hhand⟩, -⟩ :=
      messageBuffer_fifo hcreate hs
    refine ⟨_, s, hcreate, hs, hsent, gone, queued, hgone, ?_⟩
    rw [hhand htaking, hsent, hpub, List.append_nil, List.append_nil] at hfifo
    exact hfifo
  · simp only [schedule, List.cons_append, List.mem_cons, List.mem_append, List.mem_replicate] at ha
    rcases ha with rfl | ⟨-, rfl⟩ | rfl | ⟨-, rfl⟩
    · simp [PayloadFits, mbMaxPayload]
    · trivial
    · trivial
    · trivial

end

end MicrOsal
