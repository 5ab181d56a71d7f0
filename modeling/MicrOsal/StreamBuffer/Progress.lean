import MicrOsal.StreamBuffer.Fifo

/-!
# MicrOsal.StreamBuffer.Progress

When the two ends of a stream buffer can block each other for good.

A blocked side went to sleep on a byte count it computed earlier. The wake
invariant (`SbWake`) says that such a count is still the current one, or the
semaphore it sleeps on has its token, or the other side is about to give it:
no wake-up is lost. What remains is arithmetic. Both sides asleep for good
means `free < len` and `available < trigger`, which the capacity allows exactly
when `len + trigger` exceeds it by two or more.
-/

namespace MicrOsal

variable {w : Nat}

/-! ### Blocking loops and deadlock -/

/-- The actions of a producer that loops over blocking sends of at most
`maxSend` bytes and a consumer that loops over blocking receives. -/
def ForeverLoops (maxSend : Nat) : SbAct w → Prop
  | .send data timeout => (data.getD []).length ≤ maxSend ∧ timeout = waitForever
  | .receive maxLen timeout => 1 ≤ maxLen ∧ timeout = waitForever
  | .producer _ | .consumer _ | .tick => True
  | .sendIsr _ | .receiveIsr _ | .reset => False

/-- Both sides are inside a call and neither has a step. -/
def SbSys.Deadlocked (s : SbSys w) : Prop :=
  s.prod ≠ .idle ∧ s.cons ≠ .idle ∧
    (∀ timedOut, s.stepProducer timedOut = none) ∧ (∀ timedOut, s.stepConsumer timedOut = none)

/-- The producer sleeps on `space_sem` for want of space, the consumer on
`data_sem` for want of bytes, and neither semaphore has a token. -/
def SbSys.MutualWait (s : SbSys w) : Prop :=
  ∃ c free remaining r avail remaining',
    s.prod = .take c free remaining ∧ s.cons = .take r avail remaining' ∧
      sbFree s.obj < c.data.length ∧ sbAvailable s.obj < s.obj.trigger ∧
      s.obj.spaceSem = false ∧ s.obj.dataSem = false

/-! ### The wake invariant -/

/-- The producer has published and is about to give `data_sem`. -/
def SbProducer.AtGive : SbProducer w → Prop
  | .give _ => True
  | _ => False

/-- The consumer has freed cells and is about to give `space_sem`. -/
def SbConsumer.AtGive : SbConsumer w → Prop
  | .give _ _ _ => True
  | _ => False

/-- A count computed earlier is still the current one, or the semaphore that
announces a change has its token, or that token is about to be given. -/
def StillCounts (seen now : Nat) (token : Bool) (giving : Prop) : Prop :=
  seen = now ∨ token = true ∨ giving

/-- The rule every step is checked against: a step that moves the count ends
about to give, and a token only disappears by waking the side it belongs to. -/
theorem StillCounts.step {seen now now' : Nat} {token token' : Bool} {giving giving' : Prop}
    (h : StillCounts seen now token giving)
    (hkeep : (now' = now ∧ (giving → token' = true)) ∨ giving')
    (hsem : token = true → token' = true) : StillCounts seen now' token' giving' := by
  rcases hkeep with ⟨rfl, hgive⟩ | hgive
  · rcases h with h | h | h
    · exact Or.inl h
    · exact Or.inr (Or.inl (hsem h))
    · exact Or.inr (Or.inl (hgive h))
  · exact Or.inr (Or.inr hgive)

/-- What a producer that found too little space relies on. -/
def ProdWake (o : EmuSbObj) (giving : Prop) : SbProducer w → Prop
  | .clock c free | .take c free _ =>
    free < c.data.length ∧ StillCounts free (sbFree o) o.spaceSem giving
  | _ => True

/-- What a consumer that found too few bytes relies on; between the two loads
of `sb_available` it is already about the `head` it loaded. -/
def ConsWake (o : EmuSbObj) (giving : Prop) : SbConsumer w → Prop
  | .availTail _ h => StillCounts h o.head o.dataSem giving
  | .clock _ avail | .take _ avail _ =>
    avail < o.trigger ∧ StillCounts avail (sbAvailable o) o.dataSem giving
  | .resetHead | .resetTail _ => False
  | _ => True

/-- No wake-up is lost on either side. -/
structure SbWake (s : SbSys w) : Prop where
  prod : ProdWake s.obj s.cons.AtGive s.prod
  cons : ConsWake s.obj s.prod.AtGive s.cons

/-- What the consumer relies on survives a producer step that leaves `head`
alone, or has just stored it. -/
theorem ConsWake.step {o o' : EmuSbObj} {giving giving' : Prop} {c : SbConsumer w}
    (h : ConsWake o giving c)
    (hshape : o'.trigger = o.trigger ∧ o'.ringSize = o.ringSize ∧ o'.tail = o.tail)
    (hkeep : (o'.head = o.head ∧ (giving → o'.dataSem = true)) ∨ giving')
    (hsem : o.dataSem = true → o'.dataSem = true) : ConsWake o' giving' c := by
  obtain ⟨htrig, hring, htail⟩ := hshape
  have havail : (sbAvailable o' = sbAvailable o ∧ (giving → o'.dataSem = true)) ∨ giving' := by
    refine hkeep.imp_left fun hk => ⟨?_, hk.2⟩
    rw [sbAvailable, sbAvailable, hring, hk.1, htail]
  cases c with
  | availTail r hd => exact StillCounts.step h hkeep hsem
  | clock r avail => exact ⟨htrig ▸ h.1, h.2.step havail hsem⟩
  | take r avail remaining => exact ⟨htrig ▸ h.1, h.2.step havail hsem⟩
  | _ => exact h

/-- What the producer relies on survives a consumer step that leaves `tail`
alone, or has just stored it. -/
theorem ProdWake.step {o o' : EmuSbObj} {giving giving' : Prop} {p : SbProducer w}
    (h : ProdWake o giving p)
    (hshape : o'.capacity = o.capacity ∧ o'.ringSize = o.ringSize ∧ o'.head = o.head)
    (hkeep : (o'.tail = o.tail ∧ (giving → o'.spaceSem = true)) ∨ giving')
    (hsem : o.spaceSem = true → o'.spaceSem = true) : ProdWake o' giving' p := by
  obtain ⟨hcap, hring, hhead⟩ := hshape
  have hfree : (sbFree o' = sbFree o ∧ (giving → o'.spaceSem = true)) ∨ giving' := by
    refine hkeep.imp_left fun hk => ⟨?_, hk.2⟩
    rw [sbFree, sbFree, sbAvailable, sbAvailable, hcap, hring, hk.1, hhead]
  cases p with
  | clock c free => exact ⟨h.1, h.2.step hfree hsem⟩
  | take c free remaining => exact ⟨h.1, h.2.step hfree hsem⟩
  | _ => exact h

/-! ### Every step keeps it -/

theorem SbWake.stepProducer {s s' : SbSys w} {H T : Nat} {timedOut : Bool} (hinv : SbInv s H T)
    (h : SbWake s) (hs : s.stepProducer timedOut = some s') : SbWake s' := by
  have hprod := h.prod
  have hcons := h.cons
  have hok := hinv.prod
  unfold SbSys.stepProducer at hs
  cases hp : s.prod with
  | idle => rw [hp] at hs; cases hs
  | freeHead c | writeHead c =>
      rw [hp] at hs hcons
      cases hs
      exact ⟨trivial, hcons⟩
  | freeTail c hd =>
      rw [hp] at hs hcons hok
      obtain ⟨-, -, rfl⟩ := hok
      dsimp only at hs
      split at hs
      · cases hs
        exact ⟨trivial, hcons⟩
      · rename_i hfree
        split at hs
        · cases hs
          exact ⟨trivial, hcons⟩
        · cases hs
          -- the count is computed from the current `tail`, so it is current
          exact ⟨⟨not_le.mp hfree, Or.inl rfl⟩, hcons⟩
  | writeCopy c hd =>
      rw [hp] at hs hcons
      cases hs
      exact ⟨trivial, hcons.step ⟨rfl, rfl, rfl⟩ (Or.inl ⟨rfl, False.elim⟩) id⟩
  | writeStore c hd =>
      rw [hp] at hs hcons
      cases hs
      exact ⟨trivial, hcons.step ⟨rfl, rfl, rfl⟩ (Or.inr trivial) id⟩
  | give c =>
      rw [hp] at hs hcons
      cases hs
      exact ⟨trivial, hcons.step ⟨rfl, rfl, rfl⟩ (Or.inl ⟨rfl, fun _ => rfl⟩) (fun _ => rfl)⟩
  | clock c free =>
      rw [hp] at hs hcons hprod
      dsimp only at hs
      split at hs
      · cases hs
        exact ⟨trivial, hcons⟩
      · cases hs
        exact ⟨hprod, hcons⟩
  | take c free remaining =>
      rw [hp] at hs hcons
      dsimp only at hs
      split at hs
      · split at hs
        · cases hs
        · cases hs
          exact ⟨trivial, hcons⟩
      · split at hs
        · cases hs
          exact ⟨trivial, hcons.step ⟨rfl, rfl, rfl⟩ (Or.inl ⟨rfl, False.elim⟩) id⟩
        · cases hs

theorem SbWake.stepConsumer {s s' : SbSys w} {timedOut : Bool} (h : SbWake s)
    (hs : s.stepConsumer timedOut = some s') : SbWake s' := by
  have hprod := h.prod
  have hcons := h.cons
  unfold SbSys.stepConsumer at hs
  cases hc : s.cons with
  | idle => rw [hc] at hs; cases hs
  | availHead r =>
      rw [hc] at hs hprod
      cases hs
      exact ⟨hprod, Or.inl rfl⟩
  | availTail r hd =>
      rw [hc] at hs hprod hcons
      dsimp only at hs
      split at hs
      · cases hs
        exact ⟨hprod, trivial⟩
      · rename_i havail
        split at hs
        · cases hs
          exact ⟨hprod, trivial⟩
        · cases hs
          -- the count is current if the loaded `head` is
          refine ⟨hprod, not_le.mp havail, hcons.imp_left ?_⟩
          rintro rfl
          rfl
  | readTail r avail | readCopy r avail t =>
      rw [hc] at hs hprod
      cases hs
      exact ⟨hprod, trivial⟩
  | readStore r avail t out =>
      rw [hc] at hs hprod
      cases hs
      exact ⟨hprod.step ⟨rfl, rfl, rfl⟩ (Or.inr trivial) id, trivial⟩
  | give r avail out =>
      rw [hc] at hs hprod
      cases hs
      exact ⟨hprod.step ⟨rfl, rfl, rfl⟩ (Or.inl ⟨rfl, fun _ => rfl⟩) (fun _ => rfl), trivial⟩
  | clock r avail =>
      rw [hc] at hs hprod hcons
      dsimp only at hs
      split at hs
      · cases hs
        exact ⟨hprod, trivial⟩
      · cases hs
        exact ⟨hprod, hcons⟩
  | take r avail remaining =>
      rw [hc] at hs hprod
      dsimp only at hs
      split at hs
      · split at hs
        · cases hs
        · cases hs
          exact ⟨hprod, trivial⟩
      · split at hs
        · cases hs
          exact ⟨hprod.step ⟨rfl, rfl, rfl⟩ (Or.inl ⟨rfl, False.elim⟩) id, trivial⟩
        · cases hs
  | resetHead | resetTail hd => rw [hc] at hcons; exact hcons.elim

/-- The send in progress, if any. -/
def SbProducer.call : SbProducer w → Option (SbSend w)
  | .idle => none
  | .freeHead c | .freeTail c _ | .writeHead c | .writeCopy c _ | .writeStore c _ | .give c
  | .clock c _ | .take c _ _ => some c

/-- A producer step keeps working on the same call, or ends it. -/
theorem SbSys.stepProducer_call {s s' : SbSys w} {timedOut : Bool}
    (hs : s.stepProducer timedOut = some s') : s'.prod.call = s.prod.call ∨ s'.prod = .idle := by
  unfold SbSys.stepProducer at hs
  cases hp : s.prod <;> rw [hp] at hs <;> dsimp only at hs
  case idle => cases hs
  case freeTail =>
    split at hs <;> [skip; split at hs] <;> cases hs <;>
      first | exact Or.inl rfl | exact Or.inr rfl
  case clock => split at hs <;> cases hs <;> first | exact Or.inl rfl | exact Or.inr rfl
  case take => split at hs <;> split at hs <;> cases hs <;> exact Or.inl rfl
  all_goals cases hs; first | exact Or.inl rfl | exact Or.inr rfl

/-- The consumer does not touch the producer. -/
theorem SbSys.stepConsumer_prod {s s' : SbSys w} {timedOut : Bool}
    (hs : s.stepConsumer timedOut = some s') : s'.prod = s.prod := by
  unfold SbSys.stepConsumer at hs
  cases hc : s.cons <;> rw [hc] at hs <;> dsimp only at hs
  case idle => cases hs
  case availTail => split at hs <;> [skip; split at hs] <;> cases hs <;> rfl
  case clock => split at hs <;> cases hs <;> rfl
  case take => split at hs <;> split at hs <;> cases hs <;> rfl
  all_goals cases hs; rfl

theorem SbWake.beginSend {s : SbSys w} (h : SbWake s) (hp : s.prod = .idle)
    (data : Option (List UInt8)) (timeout : Option (Tick w)) :
    SbWake (s.beginSend data timeout) := by
  have hcons := h.cons
  rw [hp] at hcons
  unfold SbSys.beginSend
  dsimp only
  split
  · exact ⟨trivial, hcons⟩
  · exact ⟨trivial, hcons⟩

theorem SbWake.beginReceive {s : SbSys w} (h : SbWake s) (hc : s.cons = .idle) (maxLen : Nat)
    (timeout : Option (Tick w)) : SbWake (s.beginReceive maxLen timeout) := by
  have hprod := h.prod
  rw [hc] at hprod
  unfold SbSys.beginReceive
  dsimp only
  split
  · exact ⟨hprod, trivial⟩
  · exact ⟨hprod, trivial⟩

/-- Every step but the start of a reset. -/
theorem SbWake.step {s s' : SbSys w} {H T : Nat} {a : SbAct w} (h : SbWake s) (hinv : SbInv s H T)
    (hne : a ≠ .reset) (hs : s.step a = some s') : SbWake s' := by
  cases a with
  | send data timeout | sendIsr data =>
      simp only [SbSys.step] at hs
      split at hs
      · rename_i hp
        cases hs
        exact h.beginSend hp data _
      · cases hs
  | receive maxLen timeout | receiveIsr maxLen =>
      simp only [SbSys.step] at hs
      split at hs
      · rename_i hc
        cases hs
        exact h.beginReceive hc maxLen _
      · cases hs
  | producer timedOut => exact h.stepProducer hinv hs
  | consumer timedOut => exact h.stepConsumer hs
  | tick =>
      cases hs
      exact ⟨h.prod, h.cons⟩
  | reset => exact absurd rfl hne

/-! ### Runs of the two loops -/

/-- What holds along every run of the loops. -/
structure LoopInv (maxSend : Nat) (s : SbSys w) : Prop where
  inv : ∃ H T, SbInv s H T
  wake : SbWake s
  bound : ∀ c, s.prod.call = some c → c.data.length ≤ maxSend

theorem LoopInv.step {maxSend : Nat} {s s' : SbSys w} {a : SbAct w} (h : LoopInv maxSend s)
    (hok : ForeverLoops maxSend a) (hs : s.step a = some s') : LoopInv maxSend s' := by
  obtain ⟨⟨H, T, hinv⟩, hwake, hbound⟩ := h
  have hne : a ≠ .reset := by
    rintro rfl
    exact hok
  refine ⟨hinv.step hs, hwake.step hinv hne hs, ?_⟩
  cases a with
  | send data timeout =>
      simp only [SbSys.step] at hs
      split at hs
      · cases hs
        unfold SbSys.beginSend
        dsimp only
        split
        · intro c hc
          cases hc
        · intro c hc
          cases hc
          exact hok.1
      · cases hs
  | receive maxLen timeout =>
      simp only [SbSys.step] at hs
      split at hs
      · cases hs
        unfold SbSys.beginReceive
        dsimp only
        split <;> exact hbound
      · cases hs
  | producer timedOut =>
      rcases SbSys.stepProducer_call hs with hcall | hidle
      · rw [hcall]
        exact hbound
      · rw [hidle]
        intro c hc
        cases hc
  | consumer timedOut =>
      rw [SbSys.stepConsumer_prod hs]
      exact hbound
  | tick =>
      cases hs
      exact hbound
  | sendIsr data | receiveIsr maxLen | reset => exact hok.elim

section
variable {buffer : Option (Nat → UInt8)} {capacity triggerLevel maxSend : Nat} {obj : EmuSbObj}

theorem LoopInv.reachable
    (hcreate : osalStreamBufferCreate buffer capacity triggerLevel = .ok obj) {s : SbSys w}
    (hs : (sbMachine w obj).ReachableBy (fun _ a => ForeverLoops maxSend a) s) :
    LoopInv maxSend s := by
  have hinit : LoopInv maxSend (SbSys.ofObj (w := w) obj) :=
    ⟨⟨0, 0, SbInv.init hcreate⟩, ⟨trivial, trivial⟩, fun c hc => by cases hc⟩
  exact Machine.ReachableBy.invariant hinit (fun _ _ _ _ hi hok hstep => hi.step hok hstep) hs

/-- A deadlock is a mutual wait: no other pair of program points has both sides
without a step, and no token can be on its way. -/
theorem LoopInv.mutualWait {s : SbSys w} (h : LoopInv maxSend s) (hd : s.Deadlocked) :
    s.MutualWait := by
  obtain ⟨hpi, hci, hps, hcs⟩ := hd
  obtain ⟨c, free, remaining, hp, hspace⟩ : ∃ c free remaining,
      s.prod = .take c free remaining ∧ s.obj.spaceSem = false := by
    have h₀ := hps false
    unfold SbSys.stepProducer at h₀
    cases hp : s.prod with
    | idle => exact absurd hp hpi
    | take c free remaining => simpa [hp] using h₀
    | freeTail c hd => simp only [hp] at h₀; split_ifs at h₀
    | clock c free => simp only [hp] at h₀; split_ifs at h₀
    | _ => simp [hp] at h₀
  obtain ⟨r, avail, remaining', hc, hdata⟩ : ∃ r avail remaining',
      s.cons = .take r avail remaining' ∧ s.obj.dataSem = false := by
    have h₀ := hcs false
    unfold SbSys.stepConsumer at h₀
    cases hc : s.cons with
    | idle => exact absurd hc hci
    | take r avail remaining => simpa [hc] using h₀
    | availTail r hd => simp only [hc] at h₀; split_ifs at h₀
    | clock r avail => simp only [hc] at h₀; split_ifs at h₀
    | _ => simp [hc] at h₀
  have hprod := h.wake.prod
  have hcons := h.wake.cons
  rw [hp, hc] at hprod hcons
  obtain ⟨hfree, hfree' | hfree' | hfree'⟩ := hprod
  · obtain ⟨havail, havail' | havail' | havail'⟩ := hcons
    · exact ⟨c, free, remaining, r, avail, remaining', hp, hc, hfree' ▸ hfree,
        havail' ▸ havail, hspace, hdata⟩
    · rw [hdata] at havail'
      cases havail'
    · exact havail'.elim
  · rw [hspace] at hfree'
    cases hfree'
  · exact hfree'.elim

/-! ### The bound is sharp -/

/-- One more byte goes in while a cell is free. -/
theorem fill_one (hcreate : osalStreamBufferCreate buffer capacity triggerLevel = .ok obj)
    (hpos : 1 ≤ maxSend) {s : SbSys w}
    (hs : (sbMachine w obj).ReachableBy (fun _ a => ForeverLoops maxSend a) s)
    (hp : s.prod = .idle) (hc : s.cons = .idle) (hspace : s.obj.spaceSem = false)
    (hroom : sbAvailable s.obj < capacity) :
    ∃ s' : SbSys w, (sbMachine w obj).ReachableBy (fun _ a => ForeverLoops maxSend a) s' ∧
      s'.prod = .idle ∧ s'.cons = .idle ∧ s'.obj.spaceSem = false ∧ s'.obj.dataSem = true ∧
      sbAvailable s'.obj = sbAvailable s.obj + 1 := by
  obtain ⟨H, T, h⟩ := SbInv.reachable hcreate hs.reachable
  have hcapacity : s.obj.capacity = capacity :=
    (SbSys.reachable_shape hs.reachable).1.trans (osalStreamBufferCreate_shape hcreate).1
  have hsize := h.ring.size
  have hle := h.ring.le
  have havail := sbAvailable_eq h.ring
  let c : SbSend w := ⟨[0], some waitForever, clockTicks w s.clock, s.obj.buf, s.obj.head⟩
  have hcap : ¬ s.obj.capacity < 1 := by omega
  have hbegin : s.step (.send (some [0]) waitForever) = some { s with prod := .freeHead c } := by
    simp [SbSys.step, hp, SbSys.beginSend, SbSys.sendCheck, hcap, c]
  have hfit : c.data.length ≤ sbFree s.obj := by
    rw [sbFree, hcapacity]
    simp only [c, List.length_cons, List.length_nil]
    omega
  have hrun := freeHead_fits obj (s := { s with prod := .freeHead c }) rfl hfit
  have hsent : (sbMachine w obj).ReachableBy (fun _ a => ForeverLoops maxSend a)
      { s with prod := .freeHead c } :=
    .step (a := .send (some [0]) waitForever) hs ⟨hpos, rfl⟩ hbegin
  refine ⟨_, Machine.ReachableBy.of_run hsent
    (Machine.RunOk.of_forall (fun a ha => ?_) _) hrun, rfl, hc, hspace, rfl, ?_⟩
  · obtain rfl := List.eq_of_mem_replicate ha
    trivial
  · have hadv : ringAdvance s.obj.ringSize s.obj.head 1 = (H + 1) % s.obj.ringSize := by
      rw [h.ring.head]
      exact ringAdvance_mod h.ring.size_pos (by omega)
    show ringAvailable s.obj.ringSize (ringAdvance s.obj.ringSize s.obj.head 1) s.obj.tail = _
    rw [hadv, h.ring.tail, havail, ringAvailable_mod (by omega) (by omega)]
    omega

/-- The producer can leave any number of bytes in the ring before the consumer
starts. -/
theorem fill_reachable (hcreate : osalStreamBufferCreate buffer capacity triggerLevel = .ok obj)
    (hpos : 1 ≤ maxSend) (k : Nat) (hk : k < capacity) :
    ∃ s : SbSys w, (sbMachine w obj).ReachableBy (fun _ a => ForeverLoops maxSend a) s ∧
      s.prod = .idle ∧ s.cons = .idle ∧ s.obj.spaceSem = false ∧ s.obj.dataSem = true ∧
      sbAvailable s.obj = k + 1 := by
  induction k with
  | zero =>
      have hfresh : obj.spaceSem = false ∧ sbAvailable obj = 0 := by
        unfold osalStreamBufferCreate at hcreate
        split at hcreate
        · cases hcreate
        · split at hcreate
          · cases hcreate
          · obtain rfl := Except.ok.inj hcreate
            exact ⟨rfl, rfl⟩
      obtain ⟨s, hs, hp, hc, hspace, hdata, havail⟩ := fill_one (w := w) hcreate hpos
        Machine.ReachableBy.init rfl rfl hfresh.1 (by rw [hfresh.2.symm] at hk; exact hk)
      exact ⟨s, hs, hp, hc, hspace, hdata, havail.trans (by rw [hfresh.2.symm]; rfl)⟩
  | succ k ih =>
      obtain ⟨s, hs, hp, hc, hspace, -, havail⟩ := ih (by omega)
      obtain ⟨s', hs', hp', hc', hspace', hdata', havail'⟩ :=
        fill_one hcreate hpos hs hp hc hspace (by omega)
      exact ⟨s', hs', hp', hc', hspace', hdata', by omega⟩

theorem waitForever_ne_noWait (hw : 0 < w) : (waitForever : Tick w) ≠ noWait := by
  intro h
  have hnat := congrArg BitVec.toNat h
  have htwo : 2 ≤ 2 ^ w := by
    calc 2 = 2 ^ 1 := rfl
      _ ≤ 2 ^ w := Nat.pow_le_pow_right (by decide) hw
  simp only [waitForever, noWait, BitVec.toNat_allOnes] at hnat
  simp only [BitVec.ofNat_eq_ofNat, BitVec.toNat_ofNat, Nat.zero_mod] at hnat
  omega

/-- A blocking send that does not fit goes to sleep. -/
theorem send_sleeps (obj : EmuSbObj) (hw : 0 < w) {s : SbSys w} (hp : s.prod = .idle)
    (hpos : 1 ≤ maxSend) (hcap : maxSend ≤ s.obj.capacity) (hfree : sbFree s.obj < maxSend) :
    ∃ c free, (sbMachine w obj).run s
      (.send (some (List.replicate maxSend 0)) waitForever :: List.replicate 3 (.producer false)) =
        some { s with prod := .take c free waitForever } := by
  have hne := waitForever_ne_noWait hw
  have hfree' : ¬ maxSend ≤
      s.obj.capacity - ringAvailable s.obj.ringSize s.obj.head s.obj.tail := not_le.mpr hfree
  let c : SbSend w := ⟨List.replicate maxSend 0, some waitForever, clockTicks w s.clock,
    s.obj.buf, s.obj.head⟩
  have hbegin : (sbMachine w obj).step s
      (.send (some (List.replicate maxSend 0)) waitForever) =
        some { s with prod := .freeHead c } := by
    simp [sbMachine, SbSys.step, hp, SbSys.beginSend, SbSys.sendCheck, Nat.not_lt.mpr hcap,
      Nat.ne_of_gt hpos, c]
  refine ⟨c, sbFree s.obj, ?_⟩
  rw [Machine.run, hbegin, Option.bind_some]
  simp [Machine.run, List.replicate_succ, sbMachine, SbSys.step, SbSys.stepProducer, c, hfree', hne]
  rfl

/-- A consumer that finds too few bytes goes to sleep. -/
theorem availHead_sleeps (obj : EmuSbObj) (hw : 0 < w) {s : SbSys w} {r : SbReceive w}
    (hc : s.cons = .availHead r) (ht : r.timeout = some waitForever)
    (havail : sbAvailable s.obj < s.obj.trigger) :
    ∃ r' avail, r'.timeout = some waitForever ∧
      (sbMachine w obj).run s (List.replicate 3 (.consumer false)) =
        some { s with cons := .take r' avail waitForever } := by
  have hne := waitForever_ne_noWait hw
  have havail' : ¬ s.obj.trigger ≤ ringAvailable s.obj.ringSize s.obj.head s.obj.tail :=
    not_le.mpr havail
  refine ⟨{ r with seen := sbAvailable s.obj }, sbAvailable s.obj, ht, ?_⟩
  simp [Machine.run, List.replicate_succ, sbMachine, SbSys.step, SbSys.stepConsumer, hc, ht,
    havail', hne]
  rfl

/-- A blocking receive that finds too few bytes spends the token that is there, looks again
and goes to sleep. -/
theorem receive_sleeps (obj : EmuSbObj) (hw : 0 < w) {s : SbSys w} (hc : s.cons = .idle)
    (hdata : s.obj.dataSem = true) (havail : sbAvailable s.obj < s.obj.trigger) :
    ∃ r avail, (sbMachine w obj).run s (SbAct.receive 1 waitForever ::
      (List.replicate 3 (SbAct.consumer false) ++
        (SbAct.consumer false :: List.replicate 3 (SbAct.consumer false)))) =
          some { s with
            obj := { s.obj with dataSem := false }
            cons := .take r avail waitForever } := by
  let r : SbReceive w := ⟨1, some waitForever, clockTicks w s.clock, s.obj.tail, 0⟩
  have hbegin : (sbMachine w obj).step s (.receive 1 waitForever) =
      some { s with cons := .availHead r } := by
    simp [sbMachine, SbSys.step, hc, SbSys.beginReceive, r]
  obtain ⟨r₁, avail₁, ht₁, hrun₁⟩ := availHead_sleeps obj hw
    (s := { s with cons := .availHead r }) rfl rfl havail
  have htoken : (sbMachine w obj).step { s with cons := .take r₁ avail₁ waitForever }
      (.consumer false) =
        some { s with obj := { s.obj with dataSem := false }, cons := .availHead r₁ } := by
    simp [sbMachine, SbSys.step, SbSys.stepConsumer, hdata]
  obtain ⟨r₂, avail₂, -, hrun₂⟩ := availHead_sleeps obj hw
    (s := { s with obj := { s.obj with dataSem := false }, cons := .availHead r₁ }) rfl ht₁ havail
  refine ⟨r₂, avail₂, ?_⟩
  rw [Machine.run, hbegin, Option.bind_some, Machine.run_append, hrun₁, Option.bind_some,
    Machine.run, htoken, Option.bind_some, hrun₂]

/-- A full-size send and a receive, started on a buffer that satisfies neither,
put each other to sleep. The consumer first spends the token the earlier sends
left behind. -/
theorem mutualWait_of_starved (hw : 0 < w) {s : SbSys w}
    (hs : (sbMachine w obj).ReachableBy (fun _ a => ForeverLoops maxSend a) s)
    (hp : s.prod = .idle) (hc : s.cons = .idle) (hspace : s.obj.spaceSem = false)
    (hdata : s.obj.dataSem = true) (hpos : 1 ≤ maxSend) (hcap : maxSend ≤ s.obj.capacity)
    (hfree : sbFree s.obj < maxSend) (havail : sbAvailable s.obj < s.obj.trigger) :
    ∃ s' : SbSys w, (sbMachine w obj).ReachableBy (fun _ a => ForeverLoops maxSend a) s' ∧
      s'.Deadlocked := by
  obtain ⟨c, free, hsend⟩ := send_sleeps obj hw hp hpos hcap hfree
  obtain ⟨r, avail, hreceive⟩ := receive_sleeps obj hw
    (s := { s with prod := .take c free waitForever }) hc hdata havail
  have hsleeps := Machine.ReachableBy.of_run hs (Machine.RunOk.of_forall (fun a ha => ?_) _) hsend
  · refine ⟨_, Machine.ReachableBy.of_run hsleeps (Machine.RunOk.of_forall (fun a ha => ?_) _)
      hreceive, nofun, nofun, fun b => ?_, fun b => ?_⟩
    · simp only [List.mem_cons, List.mem_append, List.mem_replicate] at ha
      rcases ha with rfl | ⟨-, rfl⟩ | rfl | ⟨-, rfl⟩ <;> trivial
    · cases b <;> simp [SbSys.stepProducer, hspace]
    · cases b <;> simp [SbSys.stepConsumer]
  · rcases List.mem_cons.mp ha with rfl | ha
    · simp [ForeverLoops]
    · obtain rfl := List.eq_of_mem_replicate ha
      trivial

/-! ### Deadlock freedom -/

/-- Two ends that loop over blocking calls deadlock in one way only, each
waiting for the other with both semaphores empty; and they never do exactly
when the largest send leaves room for the trigger. -/
theorem streamBuffer_deadlock_free_iff (hw : 0 < w)
    (hcreate : osalStreamBufferCreate buffer capacity triggerLevel = .ok obj)
    (hpos : 1 ≤ maxSend) (hmax : maxSend ≤ capacity) :
    (∀ s : SbSys w, (sbMachine w obj).ReachableBy (fun _ a => ForeverLoops maxSend a) s →
      s.Deadlocked → s.MutualWait) ∧
    ((∀ s : SbSys w, (sbMachine w obj).ReachableBy (fun _ a => ForeverLoops maxSend a) s →
      ¬ s.Deadlocked) ↔
      maxSend + (if triggerLevel = 0 then 1 else triggerLevel) ≤ capacity + 1) := by
  obtain ⟨hobj, htrig⟩ := osalStreamBufferCreate_shape hcreate
  refine ⟨fun s hs hd => (LoopInv.reachable hcreate hs).mutualWait hd, ?_, ?_⟩
  · intro hfree
    by_contra hbig
    -- leave one byte too many for a full-size send, yet too few for the trigger
    obtain ⟨s, hs, hp, hc, hspace, hdata, havail⟩ :=
      fill_reachable (w := w) hcreate hpos (capacity - maxSend) (by omega)
    obtain ⟨hcapacity, htrigger⟩ := SbSys.reachable_shape hs.reachable
    rw [hobj] at hcapacity
    rw [htrig] at htrigger
    obtain ⟨s', hs', hdead⟩ := mutualWait_of_starved hw hs hp hc hspace hdata hpos
      (by omega) (by rw [sbFree]; omega) (by omega)
    exact hfree s' hs' hdead
  · intro hsmall s hs hd
    obtain ⟨⟨H, T, hinv⟩, hwake, hbound⟩ := LoopInv.reachable hcreate hs
    obtain ⟨c, free, remaining, r, avail, remaining', hp, hc, hfree, havail, -⟩ :=
      (LoopInv.reachable hcreate hs).mutualWait hd
    obtain ⟨hcapacity, htrigger⟩ := SbSys.reachable_shape hs.reachable
    rw [hobj] at hcapacity
    rw [htrig] at htrigger
    have hlen := hbound c (by rw [hp]; rfl)
    have := hinv.ring.cap
    have := sbAvailable_eq hinv.ring
    rw [sbFree] at hfree
    omega

end

/-- A one-byte buffer with trigger one never deadlocks. -/
theorem streamBuffer_deadlock_free_iff_one :
    ∃ obj, osalStreamBufferCreate (some fun _ => 0) 1 1 = .ok obj ∧
      ∀ s : SbSys 32, (sbMachine 32 obj).ReachableBy (fun _ a => ForeverLoops 1 a) s →
        ¬ s.Deadlocked :=
  ⟨_, rfl, (streamBuffer_deadlock_free_iff (w := 32) (by decide)
    (rfl : osalStreamBufferCreate (some fun _ => 0) 1 1 = .ok _) (by decide)
    (by decide)).2.mpr (by decide)⟩

/-- Capacity two, trigger two: one byte queued, then a two-byte send and a
receive wait for each other for good. -/
theorem streamBuffer_trigger_two_deadlocks :
    ∃ obj, osalStreamBufferCreate (some fun _ => 0) 2 2 = .ok obj ∧
      ∃ s : SbSys 32, (sbMachine 32 obj).ReachableBy (fun _ a => ForeverLoops 2 a) s ∧
        s.MutualWait ∧ s.Deadlocked := by
  have hcreate : osalStreamBufferCreate (some fun _ => 0) 2 2 =
      .ok ⟨fun _ => 0, 3, 2, 2, 0, 0, false, false⟩ := rfl
  obtain ⟨s, hs, hp, hc, hspace, hdata, havail⟩ :=
    fill_reachable (w := 32) hcreate (show 1 ≤ 2 by decide) 0 (by decide)
  obtain ⟨hcapacity, htrigger⟩ := SbSys.reachable_shape hs.reachable
  dsimp only at hcapacity htrigger
  obtain ⟨s', hs', hdead⟩ := mutualWait_of_starved (by decide) hs hp hc hspace hdata
    (by decide) (by omega) (by rw [sbFree]; omega) (by omega)
  exact ⟨_, hcreate, s', hs', (LoopInv.reachable hcreate hs').mutualWait hdead, hdead⟩

end MicrOsal
