import MicrOsal.MessageBuffer.Fifo

/-!
# MicrOsal.MessageBuffer.Admission

Which messages a non-blocking send lets in, over the whole range of
`std::size_t`.

Both sends compare `frame_size` with the free space and nothing effectively
bounds the length by what the 16-bit header can carry: the limit of
`osal_message_buffer_send` is computed after integer promotion and equals the
largest `std::size_t`, and `send_isr` has no limit. A frame whose header does
not describe it is refused only when it does not fit.
-/

namespace MicrOsal

variable {w : Nat}

/-! ### The uninterrupted sends are runs of the system -/

/-- A send that runs alone and finds enough space publishes at once. -/
theorem mbFreeHead_fits (obj : EmuMbObj) {s : MbSys w} {c : MbSend w} (hp : s.prod = .freeHead c)
    (hfit : mbFrameSize c.msg.length ≤ emuMbFree s.obj) :
    (mbMachine w obj).run s (List.replicate 7 (.producer false)) =
      some ({ s with
        obj := { emuMbWriteFrame s.obj c.msg with dataSem := true } }.sendReturns c .ok) := by
  have hfit' : mbFrameSize c.msg.length ≤
      s.obj.capacity - ringAvailable s.obj.ringSize s.obj.head s.obj.tail := hfit
  have hlook : (mbMachine w obj).run s (List.replicate 2 (.producer false)) =
      some { s with prod := .writeHead c } := by
    simp [Machine.run, mbMachine, MbSys.step, MbSys.stepProducer, hp, hfit', List.replicate]
  have hwrite : (mbMachine w obj).run { s with prod := .writeHead c }
      (List.replicate 5 (.producer false)) =
        some ({ s with
          obj := { emuMbWriteFrame s.obj c.msg with dataSem := true } }.sendReturns c .ok) := rfl
  rw [← List.replicate_append_replicate (n := 2) (m := 5), Machine.run_append, hlook,
    Option.bind_some, hwrite]

/-- A non-blocking send that runs alone and finds too little space gives up. -/
theorem mbFreeHead_full (obj : EmuMbObj) {s : MbSys w} {c : MbSend w} (hp : s.prod = .freeHead c)
    (hnb : c.timeout = none ∨ c.timeout = some noWait)
    (hfit : emuMbFree s.obj < mbFrameSize c.msg.length) :
    (mbMachine w obj).run s (List.replicate 2 (.producer false)) =
      some (s.sendReturns c .timeout) := by
  have hfit' : ¬ mbFrameSize c.msg.length ≤
      s.obj.capacity - ringAvailable s.obj.ringSize s.obj.head s.obj.tail := not_le.mpr hfit
  simp [Machine.run, mbMachine, MbSys.step, MbSys.stepProducer, hp, hfit', hnb, List.replicate,
    MbSys.sendReturns]

/-- The result codes of the returned sends, in order. -/
def MbSys.codes (s : MbSys w) : List ErrorCode := s.sends.map MbSendReturn.code

/-- A non-blocking send, run alone from its entry, does what its validation and
the free space say. -/
theorem mbBeginSend_solo (obj : EmuMbObj) (s : MbSys w) (msg : Option (List UInt8))
    (timeout : Option (Tick w)) (hnb : timeout = none ∨ timeout = some noWait) :
    ∃ k s', (mbMachine w obj).run (s.beginSend msg timeout)
        (List.replicate k (.producer false)) = some s' ∧
      match s.sendCheck msg timeout with
      | some code => s'.codes = s.codes ++ [code] ∧ s'.obj = s.obj
      | none =>
        if mbFrameSize (msg.getD []).length ≤ emuMbFree s.obj then
          s'.codes = s.codes ++ [.ok] ∧
            s'.obj = { emuMbWriteFrame s.obj (msg.getD []) with dataSem := true }
        else s'.codes = s.codes ++ [.timeout] ∧ s'.obj = s.obj := by
  cases hcheck : s.sendCheck msg timeout with
  | some code =>
      refine ⟨0, s.beginSend msg timeout, rfl, ?_⟩
      simp [MbSys.beginSend, hcheck, MbSys.sendReturns, MbSys.codes]
  | none =>
      let c : MbSend w :=
        ⟨msg.getD [], timeout, clockTicks w s.clock, s.obj.buf, s.obj.head⟩
      have hbegin : s.beginSend msg timeout = { s with prod := .freeHead c } := by
        simp [MbSys.beginSend, hcheck, c]
      rw [hbegin]
      dsimp only
      by_cases hfit : mbFrameSize (msg.getD []).length ≤ emuMbFree s.obj
      · simp only [if_pos hfit]
        refine ⟨7, _, mbFreeHead_fits obj (s := { s with prod := .freeHead c }) rfl hfit, ?_⟩
        simp [MbSys.codes, MbSys.sendReturns, c]
      · simp only [if_neg hfit]
        refine ⟨2, _, mbFreeHead_full obj (s := { s with prod := .freeHead c }) rfl hnb
          (not_le.mp hfit), ?_⟩
        simp [MbSys.codes, MbSys.sendReturns]

/-- `osal_message_buffer_send` with `NO_WAIT` and `send_isr`, run alone, return
the code and leave the object that the uninterrupted functions say. -/
theorem mbSend_solo (obj : EmuMbObj) (s : MbSys w) (hp : s.prod = .idle)
    (msg : Option (List UInt8)) :
    (∃ k s', (mbMachine w obj).run s
        (.send msg noWait :: List.replicate k (.producer false)) = some s' ∧
      s'.codes = s.codes ++ [(osalMessageBufferSendNoWait (some s.obj) msg).1] ∧
      some s'.obj = (osalMessageBufferSendNoWait (some s.obj) msg).2) ∧
    (∃ k s', (mbMachine w obj).run s
        (.sendIsr msg :: List.replicate k (.producer false)) = some s' ∧
      s'.codes = s.codes ++ [(osalMessageBufferSendIsr (some s.obj) msg).1] ∧
      some s'.obj = (osalMessageBufferSendIsr (some s.obj) msg).2) := by
  constructor
  · obtain ⟨k, s', hk, hres⟩ := mbBeginSend_solo obj s msg (some noWait) (Or.inr rfl)
    refine ⟨k, s', by simpa [Machine.run, mbMachine, MbSys.step, hp] using hk, ?_⟩
    cases msg with
    | none => simpa [osalMessageBufferSendNoWait, MbSys.sendCheck] using hres
    | some msg =>
        simp only [MbSys.sendCheck, Option.getD_some, Option.isSome_some, true_and] at hres
        simp only [osalMessageBufferSendNoWait]
        split_ifs at hres ⊢ <;> simpa using hres
  · obtain ⟨k, s', hk, hres⟩ := mbBeginSend_solo obj s msg none (Or.inl rfl)
    refine ⟨k, s', by simpa [Machine.run, mbMachine, MbSys.step, hp] using hk, ?_⟩
    cases msg with
    | none => simpa [osalMessageBufferSendIsr, MbSys.sendCheck] using hres
    | some msg =>
        simp only [MbSys.sendCheck, Option.getD_some, Option.isSome_none] at hres
        simp only [osalMessageBufferSendIsr, ← not_le]
        split_ifs at hres ⊢ <;> simp_all

/-! ### Admission -/

/-- The frame for `msg` fits the free space and its header can describe it. -/
def MbFits (o : EmuMbObj) (msg : Msg) : Prop :=
  1 ≤ msg.length ∧ msg.length ≤ mbMaxPayload ∧ msg.length + kMsgHeaderBytes ≤ emuMbFree o

/-- What a non-blocking send of `msg` ought to do on `o`: accept exactly what
fits, with the same object from either entry point and a header, at the old
`head`, that decodes to the length. -/
structure MbAdmits (o : EmuMbObj) (msg : Msg) : Prop where
  noWait_iff : (osalMessageBufferSendNoWait (some o) (some msg)).1 = .ok ↔ MbFits o msg
  isr_iff : (osalMessageBufferSendIsr (some o) (some msg)).1 = .ok ↔ MbFits o msg
  same : MbFits o msg →
    osalMessageBufferSendNoWait (some o) (some msg) = osalMessageBufferSendIsr (some o) (some msg)
  header : ∀ o', osalMessageBufferSendNoWait (some o) (some msg) = (.ok, some o') →
    mbLength (ringCopyOut o'.ringSize o'.buf o.head kMsgHeaderBytes) = msg.length

/-- The message can be described by its header, or does not get in. -/
def MbSafe (o : EmuMbObj) (msg : Msg) : Prop :=
  msg.length ≤ mbMaxPayload ∨ emuMbFree o < mbFrameSize msg.length

theorem sendNoWait_ok_iff (o : EmuMbObj) {msg : Msg} (hlen : msg.length < sizeModulus) :
    (osalMessageBufferSendNoWait (some o) (some msg)).1 = .ok ↔
      1 ≤ msg.length ∧ mbFrameSize msg.length ≤ emuMbFree o := by
  have hlimit : ¬ mbLengthLimit < msg.length := by
    unfold mbLengthLimit
    omega
  have hfree : emuMbFree o ≤ o.capacity := Nat.sub_le _ _
  simp only [osalMessageBufferSendNoWait, if_neg hlimit]
  split_ifs with h₁ h₂ h₃
  · simp [h₁]
  · simp only [false_iff]
    omega
  · simp only [true_iff]
    omega
  · simp only [false_iff]
    omega

theorem sendIsr_ok_iff (o : EmuMbObj) (msg : Msg) :
    (osalMessageBufferSendIsr (some o) (some msg)).1 = .ok ↔
      1 ≤ msg.length ∧ mbFrameSize msg.length ≤ emuMbFree o := by
  simp only [osalMessageBufferSendIsr]
  split_ifs with h₁ h₂
  · simp [h₁]
  · simp only [false_iff]
    omega
  · simp only [true_iff]
    omega

/-- Among messages the header can describe, accepting is fitting. -/
theorem mbFits_iff {o : EmuMbObj} {msg : Msg} (h : msg.length ≤ mbMaxPayload) :
    MbFits o msg ↔ 1 ≤ msg.length ∧ mbFrameSize msg.length ≤ emuMbFree o := by
  rw [MbFits, mbFrameSize_eq h, Nat.add_comm]
  exact ⟨fun hf => ⟨hf.1, hf.2.2⟩, fun hf => ⟨hf.1, h, hf.2⟩⟩

/-- The header of an accepted, describable message decodes to its length. -/
theorem emuMbWriteFrame_header {o : EmuMbObj} {H T : Nat} (hring : MbRingAt o H T) {msg : Msg}
    (hlen : msg.length ≤ mbMaxPayload) (hfit : mbFrameSize msg.length ≤ emuMbFree o) :
    mbLength (ringCopyOut o.ringSize (emuMbWriteFrame o msg).buf o.head kMsgHeaderBytes) =
      msg.length := by
  have hcap : kMsgHeaderBytes + msg.length ≤ o.capacity := by
    rw [← mbFrameSize_eq hlen]
    exact hfit.trans (Nat.sub_le _ _)
  have hsize := hring.size
  have hspan := mbCopyPayload_span (o := mbCopyHeader o o.head msg) hring msg
    (mbCopyHeader_span hring hcap) hcap
  rw [hring.head]
  rw [ringCopyOut_mod hring.size_pos (by omega)]
  have htake := congrArg (List.take kMsgHeaderBytes) hspan
  rw [ringSpan_take (Nat.le_add_right _ _), List.take_left' (mbHeader_length _)] at htake
  exact (congrArg mbLength htake).trans (mbLength_mbHeader hlen)

/-- A non-blocking send meets its contract exactly on the safe messages. -/
theorem mbAdmits_iff {o : EmuMbObj} {H T : Nat} (hring : MbRingAt o H T) {msg : Msg}
    (hlen : msg.length < sizeModulus) : MbAdmits o msg ↔ MbSafe o msg := by
  constructor
  · intro h
    by_contra hunsafe
    obtain ⟨hbig, hfit⟩ := not_or.mp hunsafe
    have hpos : 1 ≤ msg.length := by
      unfold mbMaxPayload at hbig
      omega
    -- the send lets it in, although no header describes it
    exact hbig (h.noWait_iff.mp ((sendNoWait_ok_iff o hlen).mpr ⟨hpos, not_lt.mp hfit⟩)).2.1
  · rintro (hshort | hfull)
    · refine ⟨(sendNoWait_ok_iff o hlen).trans (mbFits_iff hshort).symm,
        (sendIsr_ok_iff o msg).trans (mbFits_iff hshort).symm, ?_, ?_⟩
      · intro hfits
        obtain ⟨hpos, hfit⟩ := (mbFits_iff hshort).mp hfits
        have hlimit : ¬ mbLengthLimit < msg.length := by
          unfold mbLengthLimit
          omega
        have hcap : ¬ o.capacity < mbFrameSize msg.length :=
          not_lt.mpr (hfit.trans (Nat.sub_le _ _))
        simp only [osalMessageBufferSendNoWait, osalMessageBufferSendIsr,
          if_neg (Nat.ne_of_gt hpos), if_neg hlimit, if_neg hcap, if_pos hfit,
          if_neg (not_lt.mpr hfit)]
      · intro o' ho'
        obtain ⟨-, hfit⟩ := (sendNoWait_ok_iff o hlen).mp (by rw [ho'])
        obtain rfl : { emuMbWriteFrame o msg with dataSem := true } = o' := by
          simp only [osalMessageBufferSendNoWait] at ho'
          split_ifs at ho' <;> simp_all
        exact emuMbWriteFrame_header hring hshort hfit
    · have hno : ¬ (1 ≤ msg.length ∧ mbFrameSize msg.length ≤ emuMbFree o) :=
        fun h => not_lt.mpr h.2 hfull
      have hnofit : ¬ MbFits o msg := fun h => hno ((mbFits_iff h.2.1).mp h)
      refine ⟨⟨fun h => absurd ((sendNoWait_ok_iff o hlen).mp h) hno, fun h => absurd h hnofit⟩,
        ⟨fun h => absurd ((sendIsr_ok_iff o msg).mp h) hno, fun h => absurd h hnofit⟩,
        fun h => absurd h hnofit, fun o' ho' => ?_⟩
      exact absurd ((sendNoWait_ok_iff o hlen).mp (by rw [ho'])) hno

/-- The bytes between `tail` and `head` are whole frames with headers that
describe them, behind what is left of the message being taken. -/
def MbSys.QueueFramed (s : MbSys w) : Prop :=
  ∃ rest queued, mbQueued s.obj = rest ++ mbFrames queued ∧
    (∀ m ∈ queued, m.length ≤ mbMaxPayload) ∧ (s.cons.taking = false → rest = [])

section
variable {buffer : Option (Nat → UInt8)} {capacity : Nat} {obj : EmuMbObj}

/-- Admission over the whole length range. In every reachable state a
non-blocking send meets its contract for exactly the messages that are safe
there, and along every run whose sends are safe when they are decided the
queued bytes stay a sequence of complete frames. -/
theorem messageBuffer_admission_iff (hcreate : osalMessageBufferCreate buffer capacity = .ok obj) :
    (∀ s : MbSys w, (mbMachine w obj).Reachable s → ∀ msg : Msg, msg.length < sizeModulus →
      (MbAdmits s.obj msg ↔ MbSafe s.obj msg)) ∧
    (∀ s : MbSys w, (mbMachine w obj).ReachableBy HeaderFits s → s.QueueFramed) := by
  constructor
  · intro s hs msg hlen
    obtain ⟨H, T, hidx⟩ := MbIdx.reachable hcreate hs
    exact mbAdmits_iff hidx.ring hlen
  · intro s hs
    obtain ⟨H, T, gone, hand, queued, rest, h⟩ := MbSys.Framed.reachable hcreate hs
    obtain ⟨-, hsuffix, hhand⟩ := h.cons.hand
    have hcap := h.idx.ring.cap
    refine ⟨rest, queued, ?_, h.short, ?_⟩
    · rw [mbQueued, show emuMbAvailable s.obj = H - T from h.idx.ring.available_now,
        h.idx.ring.copyOut (by omega), h.content]
    · intro htaking
      rw [hhand htaking] at hsuffix
      exact List.suffix_nil.mp hsuffix

end

/-- A one-byte message on a fresh buffer of three bytes meets the contract. -/
theorem messageBuffer_admission_iff_one :
    ∃ obj, osalMessageBufferCreate (some fun _ => 0) 3 = .ok obj ∧ MbAdmits obj [7] := by
  have hcreate : osalMessageBufferCreate (some fun _ => 0) 3 =
      .ok ⟨fun _ => 0, 4, 3, 0, 0, false, false⟩ := rfl
  refine ⟨_, hcreate, ?_⟩
  exact ((messageBuffer_admission_iff (w := 32) hcreate).1 _ Machine.Reachable.init [7]
    (by decide)).mpr (Or.inl (by decide))

/-- 65536 bytes into a fresh buffer of 70000: the send accepts a message whose
header decodes to 0. -/
theorem messageBuffer_admits_undescribable :
    ∃ obj, osalMessageBufferCreate (some fun _ => 0) 70000 = .ok obj ∧
      (osalMessageBufferSendNoWait (some obj) (some (List.replicate 65536 0))).1 = .ok ∧
      mbLength (mbHeader 65536) = 0 ∧ ¬ MbAdmits obj (List.replicate 65536 0) := by
  let obj : EmuMbObj := ⟨fun _ => 0, 70001, 70000, 0, 0, false, false⟩
  have hlen : (List.replicate 65536 (0 : UInt8)).length = 65536 := List.length_replicate
  have hfree : emuMbFree obj = 70000 := rfl
  have hframe : mbFrameSize 65536 = 65538 := by decide
  have hring : MbRingAt obj 0 0 := ⟨rfl, rfl, rfl, le_rfl, Nat.zero_le _⟩
  have hsize : (List.replicate 65536 (0 : UInt8)).length < sizeModulus := by
    rw [hlen]
    decide
  refine ⟨obj, rfl, ?_, by decide, fun h => ?_⟩
  · refine (sendNoWait_ok_iff obj hsize).mpr ⟨?_, ?_⟩
    · rw [hlen]
      decide
    · rw [hlen, hframe, hfree]
      decide
  · have hsafe := (mbAdmits_iff hring hsize).mp h
    rw [MbSafe, hlen, hframe, hfree] at hsafe
    revert hsafe
    decide

end MicrOsal
