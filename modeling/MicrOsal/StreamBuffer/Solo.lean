import MicrOsal.StreamBuffer.Model

/-!
# MicrOsal.StreamBuffer.Solo

The uninterrupted entry points against the concurrent system, and against each
other.

`osalStreamBufferSendNoWait` and its siblings are what a caller sees when
nothing interferes. The first half shows they are exactly the runs of `SbSys`
in which only one side moves; the second compares the ISR entry points with
the non-blocking task-level ones.
-/

namespace MicrOsal

variable {w : Nat}

/-! ### ISR entry points against non-blocking ones -/

/-- `receive_isr` is `receive` with `NO_WAIT`, on every input. -/
theorem osalStreamBufferReceiveIsr_eq (handle : Option EmuSbObj) (maxLen : Nat) :
    osalStreamBufferReceiveIsr handle maxLen = osalStreamBufferReceiveNoWait handle maxLen := by
  cases handle with
  | none => rfl
  | some s =>
      simp only [osalStreamBufferReceiveIsr, osalStreamBufferReceiveNoWait, ← not_le]
      split_ifs <;> rfl

/-- `send_isr` is `send` with `NO_WAIT` on every payload the buffer could ever
hold. -/
theorem osalStreamBufferSendIsr_eq (s : EmuSbObj) (data : Option (List UInt8))
    (hfits : (data.getD []).length ≤ s.capacity) :
    osalStreamBufferSendIsr (some s) data = osalStreamBufferSendNoWait (some s) data := by
  cases data with
  | none => rfl
  | some data =>
      have hcap : data.length ≤ s.capacity := hfits
      simp only [osalStreamBufferSendIsr, osalStreamBufferSendNoWait, ← not_le, hcap]
      split_ifs <;> trivial

/-- A payload larger than the capacity is refused by both, under different
codes: `send` checks the capacity first, `send_isr` only ever sees too little
free space. -/
theorem osalStreamBufferSend_oversized (s : EmuSbObj) (data : List UInt8)
    (hbig : s.capacity < data.length) :
    osalStreamBufferSendNoWait (some s) (some data) = (.invalidArgument, some s) ∧
      osalStreamBufferSendIsr (some s) (some data) = (.timeout, some s) := by
  have hpos : ¬ data.length = 0 := by omega
  have hfree : sbFree s < data.length := by
    unfold sbFree
    omega
  simp [osalStreamBufferSendNoWait, osalStreamBufferSendIsr, hpos, hbig, hfree]

/-! ### Sends -/

/-- A send that runs alone and finds enough space publishes at once. -/
theorem freeHead_fits (obj : EmuSbObj) {s : SbSys w} {c : SbSend w} (hp : s.prod = .freeHead c)
    (hfit : c.data.length ≤ sbFree s.obj) :
    (sbMachine w obj).run s (List.replicate 6 (.producer false)) =
      some ({ s with obj := { sbWrite s.obj c.data with dataSem := true } }.sendReturns c .ok) := by
  have hfit' : c.data.length ≤
      s.obj.capacity - ringAvailable s.obj.ringSize s.obj.head s.obj.tail := hfit
  have hlook : (sbMachine w obj).run s (List.replicate 2 (.producer false)) =
      some { s with prod := .writeHead c } := by
    simp [Machine.run, sbMachine, SbSys.step, SbSys.stepProducer, hp, hfit', List.replicate]
  have hwrite : (sbMachine w obj).run { s with prod := .writeHead c }
      (List.replicate 4 (.producer false)) =
        some ({ s with
          obj := { sbWrite s.obj c.data with dataSem := true } }.sendReturns c .ok) := rfl
  rw [← List.replicate_append_replicate (n := 2) (m := 4), Machine.run_append, hlook,
    Option.bind_some, hwrite]

/-- A non-blocking send that runs alone either publishes at once or gives up. -/
theorem freeHead_solo (obj : EmuSbObj) {s : SbSys w} {c : SbSend w} (hp : s.prod = .freeHead c)
    (hnb : c.timeout = none ∨ c.timeout = some noWait) :
    ∃ k, (sbMachine w obj).run s (List.replicate k (.producer false)) =
      if c.data.length ≤ sbFree s.obj then
        some ({ s with obj := { sbWrite s.obj c.data with dataSem := true } }.sendReturns c .ok)
      else some (s.sendReturns c .timeout) := by
  by_cases hfit : c.data.length ≤ sbFree s.obj
  · rw [if_pos hfit]
    exact ⟨6, freeHead_fits obj hp hfit⟩
  · refine ⟨2, ?_⟩
    have hfit' : ¬ c.data.length ≤
        s.obj.capacity - ringAvailable s.obj.ringSize s.obj.head s.obj.tail := hfit
    simp [Machine.run, sbMachine, SbSys.step, SbSys.stepProducer, hp, hfit, hfit', hnb,
      List.replicate, SbSys.sendReturns]

/-- The result codes of the returned sends, in order. -/
def SbSys.codes (s : SbSys w) : List ErrorCode := s.sends.map SbSendReturn.code

/-- A non-blocking send, run alone from its entry, does what its validation and
the free space say. -/
theorem beginSend_solo (obj : EmuSbObj) (s : SbSys w) (data : Option (List UInt8))
    (timeout : Option (Tick w)) (hnb : timeout = none ∨ timeout = some noWait) :
    ∃ k s', (sbMachine w obj).run (s.beginSend data timeout)
        (List.replicate k (.producer false)) = some s' ∧
      match s.sendCheck data timeout with
      | some code => s'.codes = s.codes ++ [code] ∧ s'.obj = s.obj
      | none =>
        if (data.getD []).length ≤ sbFree s.obj then
          s'.codes = s.codes ++ [.ok] ∧
            s'.obj = { sbWrite s.obj (data.getD []) with dataSem := true }
        else s'.codes = s.codes ++ [.timeout] ∧ s'.obj = s.obj := by
  cases hcheck : s.sendCheck data timeout with
  | some code =>
      refine ⟨0, s.beginSend data timeout, rfl, ?_⟩
      simp [SbSys.beginSend, hcheck, SbSys.sendReturns, SbSys.codes]
  | none =>
      obtain ⟨k, hk⟩ := freeHead_solo obj (s := s.beginSend data timeout)
        (c := ⟨data.getD [], timeout, clockTicks w s.clock, s.obj.buf, s.obj.head⟩)
        (by simp [SbSys.beginSend, hcheck]) hnb
      have hobj : (s.beginSend data timeout).obj = s.obj := by simp [SbSys.beginSend, hcheck]
      have hsends : (s.beginSend data timeout).sends = s.sends := by
        simp [SbSys.beginSend, hcheck]
      rw [hobj] at hk
      dsimp only at hk ⊢
      split_ifs at hk ⊢
      · exact ⟨k, _, hk, by simp [SbSys.codes, SbSys.sendReturns, hsends], rfl⟩
      · exact ⟨k, _, hk, by simp [SbSys.codes, SbSys.sendReturns, hsends], hobj⟩

/-- `osal_stream_buffer_send` with `NO_WAIT` and `send_isr`, run alone, return
the code and leave the object that the uninterrupted functions say. -/
theorem send_solo {obj : EmuSbObj} (s : SbSys w) (hp : s.prod = .idle)
    (data : Option (List UInt8)) :
    (∃ k s', (sbMachine w obj).run s
        (.send data noWait :: List.replicate k (.producer false)) = some s' ∧
      s'.codes = s.codes ++ [(osalStreamBufferSendNoWait (some s.obj) data).1] ∧
      some s'.obj = (osalStreamBufferSendNoWait (some s.obj) data).2) ∧
    (∃ k s', (sbMachine w obj).run s
        (.sendIsr data :: List.replicate k (.producer false)) = some s' ∧
      s'.codes = s.codes ++ [(osalStreamBufferSendIsr (some s.obj) data).1] ∧
      some s'.obj = (osalStreamBufferSendIsr (some s.obj) data).2) := by
  constructor
  · obtain ⟨k, s', hk, hres⟩ := beginSend_solo obj s data (some noWait)
      (Or.inr rfl)
    refine ⟨k, s', by simpa [Machine.run, sbMachine, SbSys.step, hp] using hk, ?_⟩
    cases data with
    | none => simpa [osalStreamBufferSendNoWait, SbSys.sendCheck] using hres
    | some data =>
        simp only [SbSys.sendCheck, Option.getD_some, Option.isSome_some, true_and] at hres
        simp only [osalStreamBufferSendNoWait]
        split_ifs at hres ⊢ <;> simpa using hres
  · obtain ⟨k, s', hk, hres⟩ := beginSend_solo obj s data none (Or.inl rfl)
    refine ⟨k, s', by simpa [Machine.run, sbMachine, SbSys.step, hp] using hk, ?_⟩
    cases data with
    | none => simpa [osalStreamBufferSendIsr, SbSys.sendCheck] using hres
    | some data =>
        simp only [SbSys.sendCheck, Option.getD_some, Option.isSome_none] at hres
        simp only [osalStreamBufferSendIsr, ← not_le]
        split_ifs at hres ⊢ <;> simp_all

/-! ### Receives -/

/-- A non-blocking receive that runs alone either takes at once or gives up. -/
theorem availHead_solo (obj : EmuSbObj) {s : SbSys w} {r : SbReceive w}
    (hc : s.cons = .availHead r) (hnb : r.timeout = none ∨ r.timeout = some noWait) :
    ∃ k, (sbMachine w obj).run s (List.replicate k (.consumer false)) =
      let r' := { r with seen := sbAvailable s.obj }
      let out := sbRead s.obj (min (sbAvailable s.obj) r.maxLen)
      if s.obj.trigger ≤ sbAvailable s.obj then
        some ({ s with obj := { out.2 with spaceSem := true } }.receiveReturns r' out.1)
      else some (s.receiveReturns r' []) := by
  have havail : ringAvailable s.obj.ringSize s.obj.head s.obj.tail = sbAvailable s.obj := rfl
  by_cases hfit : s.obj.trigger ≤ sbAvailable s.obj
  · have hlook : (sbMachine w obj).run s (List.replicate 2 (.consumer false)) = some { s with
        cons := .readTail { r with seen := sbAvailable s.obj } (sbAvailable s.obj) } := by
      simp [Machine.run, sbMachine, SbSys.step, SbSys.stepConsumer, hc, hfit, havail,
        List.replicate]
    refine ⟨2 + 4, ?_⟩
    rw [← List.replicate_append_replicate, Machine.run_append, hlook, Option.bind_some]
    exact (if_pos hfit).symm
  · refine ⟨2, ?_⟩
    simp [Machine.run, sbMachine, SbSys.step, SbSys.stepConsumer, hc, hfit, havail, hnb,
      List.replicate, SbSys.receiveReturns]

/-- `osal_stream_buffer_receive` with `NO_WAIT` and `receive_isr`, run alone,
return the bytes and leave the object that the uninterrupted functions say. -/
theorem receive_solo {obj : EmuSbObj} (s : SbSys w) (hc : s.cons = .idle) (maxLen : Nat) :
    (∃ k s', (sbMachine w obj).run s
        (.receive maxLen noWait :: List.replicate k (.consumer false)) = some s' ∧
      s'.outs.map SbOut.bytes = s.outs.map SbOut.bytes ++
        [(osalStreamBufferReceiveNoWait (some s.obj) maxLen).1] ∧
      some s'.obj = (osalStreamBufferReceiveNoWait (some s.obj) maxLen).2) ∧
    (∃ k s', (sbMachine w obj).run s
        (.receiveIsr maxLen :: List.replicate k (.consumer false)) = some s' ∧
      s'.outs.map SbOut.bytes = s.outs.map SbOut.bytes ++
        [(osalStreamBufferReceiveIsr (some s.obj) maxLen).1] ∧
      some s'.obj = (osalStreamBufferReceiveIsr (some s.obj) maxLen).2) := by
  have hsolo : ∀ timeout : Option (Tick w), timeout = none ∨ timeout = some noWait →
      ∃ k s', (sbMachine w obj).run (s.beginReceive maxLen timeout)
          (List.replicate k (.consumer false)) = some s' ∧
        s'.outs.map SbOut.bytes = s.outs.map SbOut.bytes ++
          [(osalStreamBufferReceiveNoWait (some s.obj) maxLen).1] ∧
        some s'.obj = (osalStreamBufferReceiveNoWait (some s.obj) maxLen).2 := by
    intro timeout hnb
    by_cases hzero : maxLen = 0
    · refine ⟨0, s.beginReceive maxLen timeout, rfl, ?_⟩
      simp [SbSys.beginReceive, hzero, SbSys.receiveReturns, osalStreamBufferReceiveNoWait,
        SbOut.bytes]
    · have hbegin : s.beginReceive maxLen timeout = { s with
          cons := .availHead ⟨maxLen, timeout, clockTicks w s.clock, s.obj.tail, 0⟩ } := by
        simp [SbSys.beginReceive, hzero]
      obtain ⟨k, hk⟩ := availHead_solo obj (s := s.beginReceive maxLen timeout)
        (r := ⟨maxLen, timeout, clockTicks w s.clock, s.obj.tail, 0⟩) (by rw [hbegin]) hnb
      rw [hbegin] at hk ⊢
      dsimp only at hk
      by_cases htrig : s.obj.trigger ≤ sbAvailable s.obj
      · rw [if_pos htrig] at hk
        refine ⟨k, _, hk, ?_⟩
        simp [SbSys.receiveReturns, osalStreamBufferReceiveNoWait, hzero, htrig, SbOut.bytes]
      · rw [if_neg htrig] at hk
        refine ⟨k, _, hk, ?_⟩
        simp [SbSys.receiveReturns, osalStreamBufferReceiveNoWait, hzero, htrig, SbOut.bytes]
  constructor
  · obtain ⟨k, s', hk, hres⟩ := hsolo (some noWait) (Or.inr rfl)
    exact ⟨k, s', by simpa [Machine.run, sbMachine, SbSys.step, hc] using hk, hres⟩
  · obtain ⟨k, s', hk, hres⟩ := hsolo none (Or.inl rfl)
    rw [osalStreamBufferReceiveIsr_eq]
    exact ⟨k, s', by simpa [Machine.run, sbMachine, SbSys.step, hc] using hk, hres⟩

end MicrOsal
