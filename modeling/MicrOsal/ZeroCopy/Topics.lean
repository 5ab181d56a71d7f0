import MicrOsal.ZeroCopy.Accounting

/-!
# MicrOsal.ZeroCopy.Topics

The calls on a topic keep the accounts: `subscribe`, `unsubscribe`,
`publish_zero_copy`, `receive_loan`, the destructor and `drain_`.

A call that holds the topic's mutex may change the slots as it likes, since
everybody else who relies on them is waiting for the mutex
(`ZeroCopySignal.Respects.locked`). Only `queue.receive` runs without it; it
takes an index out of the queue and leaves the counters alone.
-/

namespace MicrOsal

open MessagePool (owns)

section Calls

variable {capacity n t k h : Nat} {s s' : ZcState} {th th' : ZcThread}
variable {tp tp' : ZeroCopySignal} {sl sl' : SubscriberSlot} {ret : ZcReturn} {c : ZcPublish}

/-! ### Calls on a topic -/

theorem liveTopic_eq_some (htp : s.liveTopic t = some tp) :
    s.topics[t]? = some tp ∧ tp.alive = true :=
  Option.filter_eq_some_iff.mp htp

theorem findSlot_eq_some {p : SubscriberSlot → Bool} (hf : tp.findSlot p = some (k, sl)) :
    tp.slots[k]? = some sl ∧ p sl = true := by
  obtain ⟨k', hk', hf⟩ := Option.bind_eq_some_iff.mp hf
  obtain ⟨sl', hsl', heq⟩ := Option.map_eq_some_iff.mp hf
  cases heq
  obtain ⟨hlt, hp, -⟩ := List.findIdx?_eq_some_iff_getElem.mp hk'
  obtain ⟨_, hget⟩ := List.getElem?_eq_some_iff.mp hsl'
  exact ⟨hsl', hget ▸ hp⟩

theorem queueValid_of_valid {pool : MessagePool} (hv : tp.valid pool = true)
    (hsl : tp.slots[k]? = some sl) : sl.queueValid = true := by
  simp only [ZeroCopySignal.valid, Bool.and_eq_true] at hv
  exact List.all_eq_true.mp hv.2 sl (List.mem_of_getElem? hsl)

theorem mutex_eq_none (hm : ¬ tp.mutex.isSome = true) : tp.mutex = none := by
  simpa using hm

theorem ZcInv.subscribe (hi : ZcInv capacity s) (hth : s.threads[n]? = some (.idle ret))
    (hs : s.subscribe n t = some s') : ZcInv capacity s' := by
  obtain ⟨tp, htp, hs⟩ := Option.bind_eq_some_iff.mp hs
  obtain ⟨htp, halive⟩ := liveTopic_eq_some htp
  split at hs
  · cases hs
    exact hi.return_idle hth _
  · next hvalid =>
    split at hs
    · cases hs
    · next hmutex =>
      split at hs
      · cases hs
        exact hi.return_idle hth _
      · next k sl hfind =>
        cases hs
        obtain ⟨hsl, hid⟩ := findSlot_eq_some hfind
        simp only [Bool.and_eq_true, decide_eq_true_eq] at hid
        have hslot := (hi.topics t tp htp).slot k sl hsl
        refine hi.update (p := s.pool) hth htp (hi.pool_of_eq (fun _ => rfl) ?_) ?_ ?_ nofun trivial
          (hi.loans.thread hth nofun)
        · exact queued_set_eq rfl hsl (by rfl)
        · refine hi.topics.slot hth htp (by simp) rfl rfl (hi.topics t tp htp).underflow ?_
          intro work hwork
          obtain rfl : work = loads s.threads t k := funext (fun w => by simpa using hwork w)
          refine ⟨hslot.receivers, hslot.backlog, ?_, ?_⟩
          · rintro (h | h)
            · exact absurd h hid.2
            · rw [halive] at h
              cases h
          · intro hq
            rw [queueValid_of_valid (by simpa using hvalid) hsl] at hq
            cases hq
        · intro m thm hmn _ _ hok
          exact hok.respects (.locked hmn (.inl (mutex_eq_none hmutex)) rfl)

theorem ZcInv.unsubscribe {id : Nat} (hi : ZcInv capacity s)
    (hth : s.threads[n]? = some (.idle ret)) (hs : s.unsubscribe n t id = some s') :
    ZcInv capacity s' := by
  obtain ⟨tp, htp, hs⟩ := Option.bind_eq_some_iff.mp hs
  obtain ⟨htp, halive⟩ := liveTopic_eq_some htp
  split at hs
  · cases hs
    exact hi.return_idle hth _
  · split at hs
    · cases hs
    · next hmutex =>
      split at hs
      · cases hs
        exact hi.return_idle hth _
      · next k sl hfind =>
        obtain ⟨hsl, -⟩ := findSlot_eq_some hfind
        split at hs
        · cases hs
          exact hi.return_idle hth _
        · next hrec =>
          cases hs
          have hslot := (hi.topics t tp htp).slot k sl hsl
          refine hi.update (p := s.pool) hth htp (hi.pool_of_eq (fun _ => rfl) ?_) ?_ ?_ ?_
            ⟨halive, rfl, ?_⟩
            (hi.loans.thread hth nofun)
          · exact queued_set_eq rfl hsl (by rfl)
          · refine hi.topics.slot hth htp ?_ rfl rfl (hi.topics t tp htp).underflow ?_
            · intro t' k' hne w
              rw [ZcThread.load_drain_of_ne hne, ZcThread.load_idle]
            · intro work hwork
              simp only [ZcThread.load_idle, ZcThread.load_drain_self] at hwork
              have hr := hwork .receiving
              have hu := hwork .unsettled
              have hd := hwork .draining
              simp only at hr hu hd
              refine ⟨hslot.receivers.trans hr.symm, .inr (by omega), fun _ => .inr (by omega), ?_⟩
              intro hq
              exact ⟨rfl, (hslot.unused hq).2.1, (hslot.unused hq).2.2.1,
                hu.trans (hslot.unused hq).2.2.2⟩
          · intro m thm hmn _ _ hok
            exact hok.respects (.locked hmn (.inl (mutex_eq_none hmutex)) rfl)
          · intro t' ht
            exact (Option.some.inj ht).symm
          · intro q hq
            rcases getElem?_set_cases hq with ⟨-, rfl⟩ | ⟨hne, -⟩
            · exact ⟨rfl, by simpa using hrec⟩
            · exact absurd rfl hne

theorem ZcInv.publishZeroCopy (hi : ZcInv capacity s) (hth : s.threads[n]? = some (.idle ret))
    (hs : s.publishZeroCopy n t h = some s') : ZcInv capacity s' := by
  obtain ⟨tp, htp, hs⟩ := Option.bind_eq_some_iff.mp hs
  obtain ⟨htp, halive⟩ := liveTopic_eq_some htp
  obtain ⟨l, hl, hs⟩ := Option.bind_eq_some_iff.mp hs
  obtain ⟨hl, hfree⟩ := freeLoan_eq_some hl
  split at hs
  · cases hs
  · next hkind =>
    split at hs
    · cases hs
      exact hi.return_idle hth _
    · next index hindex =>
      split at hs
      · cases hs
        exact hi.return_idle hth _
      · split at hs
        · cases hs
        · next hmutex =>
          cases hs
          refine hi.update (p := s.pool) hth htp (hi.pool_of_eq (fun _ => rfl) (fun _ => rfl))
            ?_ ?_ ?_ ⟨halive, rfl⟩ ?_
          · exact hi.topics.frame hth htp (by simp) rfl rfl rfl
          · intro m thm hmn _ _ hok
            exact hok.respects (.locked hmn (.inl (mutex_eq_none hmutex)) rfl)
          · intro t' ht
            exact (Option.some.inj ht).symm
          · refine hi.loans.start rfl ?_ hfree
            rw [hl, ← hindex, ← not_not.mp hkind]

theorem ZcInv.receiveLoan {id out : Nat} (hi : ZcInv capacity s)
    (hth : s.threads[n]? = some (.idle ret)) (hs : s.receiveLoan n t id out = some s') :
    ZcInv capacity s' := by
  obtain ⟨tp, htp, hs⟩ := Option.bind_eq_some_iff.mp hs
  obtain ⟨htp, halive⟩ := liveTopic_eq_some htp
  split at hs
  · cases hs
    exact hi.return_idle hth _
  · split at hs
    · cases hs
    · next hmutex =>
      split at hs
      · cases hs
        exact hi.return_idle hth _
      · next k sl hfind =>
        obtain ⟨hsl, -⟩ := findSlot_eq_some hfind
        cases hs
        have hslot := (hi.topics t tp htp).slot k sl hsl
        refine hi.update (p := s.pool) hth htp (hi.pool_of_eq (fun _ => rfl) ?_) ?_ ?_ ?_ halive
          (hi.loans.thread hth nofun)
        · exact queued_set_eq rfl hsl (by rfl)
        · refine hi.topics.slot hth htp ?_ rfl rfl (hi.topics t tp htp).underflow ?_
          · intro t' k' hne w
            rw [ZcThread.load_receive_of_ne hne, ZcThread.load_idle]
          · intro work hwork
            simp only [ZcThread.load_idle, ZcThread.load_receive_self] at hwork
            have hr := hwork .receiving
            have hu : work .unsettled = loads s.threads t k .unsettled := hwork .unsettled
            have hd : work .draining = loads s.threads t k .draining := hwork .draining
            refine ⟨?_, ?_, ?_, ?_⟩
            · simp only [hslot.receivers]
              exact hr.symm
            · rw [hu, hd]
              exact hslot.backlog
            · rw [hd]
              exact hslot.drained
            · rw [hu]
              exact hslot.unused
        · intro m thm hmn _ _ hok
          exact hok.respects (.locked hmn (.inl (mutex_eq_none hmutex)) rfl)
        · intro t' ht
          exact (Option.some.inj ht).symm

theorem ZcInv.destroy (hi : ZcInv capacity s) (hth : s.threads[n]? = some (.idle ret))
    (hs : s.destroy n t = some s') : ZcInv capacity s' := by
  obtain ⟨tp, htp, hs⟩ := Option.bind_eq_some_iff.mp hs
  obtain ⟨htp, -⟩ := liveTopic_eq_some htp
  split at hs
  · cases hs
  · next hnone =>
    cases hs
    refine hi.update (p := s.pool) hth htp (hi.pool_of_eq (fun _ => rfl) (fun _ => rfl))
      ?_ ?_ ?_ rfl
      (hi.loans.thread hth nofun)
    · refine hi.topics.topic hth ?_ ⟨(hi.topics t tp htp).underflow, ?_⟩
      · intro t' hne k w
        rw [ZcThread.load_destroy_of_ne hne, ZcThread.load_idle]
      · intro k sl hsl
        have hslot := (hi.topics t tp htp).slot k sl hsl
        have hwork : ∀ w, loads (s.threads.set n (.destroy t 0)) t k w + _ =
            loads s.threads t k w + _ := loads_set hth
        simp only [ZcThread.load_idle, ZcThread.load_destroy_zero] at hwork
        have hu := hwork .unsettled
        have hd := hwork .draining
        simp only at hu hd
        refine ⟨hslot.receivers.trans (hwork .receiving).symm, .inr (by omega),
          fun _ => .inr (by omega), ?_⟩
        intro hq
        obtain ⟨h₁, h₂, h₃, h₄⟩ := hslot.unused hq
        exact ⟨h₁, h₂, h₃, by omega⟩
    · intro m thm _ hm ht _
      exact absurd (List.any_eq_true.mpr ⟨thm, List.mem_of_getElem? hm, by simpa using ht⟩) hnone
    · intro t' ht
      exact (Option.some.inj ht).symm

/-! ### `drain_` and the destructor -/

theorem topic_eq_of_some {t' : Nat} (ht : th'.topic = some t) (ht' : th'.topic = some t') :
    t' = t :=
  Option.some.inj (ht'.symm.trans ht)

/-- Nobody is receiving from a slot that is being drained. -/
theorem ZcInv.receiving_eq_zero {caller : ZcDrain} (hi : ZcInv capacity s)
    (hth : s.threads[n]? = some (.drain t k caller)) (htp : s.topics[t]? = some tp)
    (hsl : tp.slots[k]? = some sl) : loads s.threads t k .receiving = 0 := by
  have hok := hi.threads.ok hth rfl htp
  cases caller with
  | unsubscribe =>
      obtain ⟨-, -, hslot⟩ := hok
      rw [← ((hi.topics t tp htp).slot k sl hsl).receivers]
      exact (hslot sl hsl).2
  | destructor => exact hi.threads.not_receiving htp hok

/-- What a thread in `drain_` knows survives its return. -/
theorem drainReturn_ok {caller : ZcDrain} (hok : (ZcThread.drain t k caller).Ok n tp)
    (hr : tp.Respects n tp') : (ZcState.drainReturn t k caller).Ok n tp' := by
  cases caller with
  | unsubscribe => exact ⟨hr.alive.trans hok.1, hr.mutex hok.2.1⟩
  | destructor => exact hr.alive.trans hok

theorem drainReturn_topic (caller : ZcDrain) :
    (ZcState.drainReturn t k caller).topic = some t := by
  cases caller <;> rfl

theorem drainReturn_publishing (caller : ZcDrain) :
    (ZcState.drainReturn t k caller).publishing = none := by
  cases caller <;> rfl

/-- A slot whose queue is empty and whose backlog is zero needs no drain. -/
theorem ZcInv.drained_slot {caller : ZcDrain} {work : ZcWork → Nat} (hi : ZcInv capacity s)
    (hth : s.threads[n]? = some (.drain t k caller)) (htp : s.topics[t]? = some tp)
    (hsl : tp.slots[k]? = some sl) (hrec : sl'.receivers = sl.receivers)
    (hqueue : sl'.queue = []) (hbacklog : sl'.backlog = 0)
    (hunused : sl'.queueValid = false → sl'.id = invalidSubscriberId)
    (hwork : ∀ w, work w + (ZcThread.drain t k caller).load t k w =
      loads s.threads t k w + (ZcState.drainReturn t k caller).load t k w) :
    SlotOk tp.alive sl' work := by
  have hslot := (hi.topics t tp htp).slot k sl hsl
  simp only [ZcThread.load_drain_self, ZcThread.load_drainReturn_self] at hwork
  have hr : work .receiving = loads s.threads t k .receiving := hwork .receiving
  have hu : work .unsettled = loads s.threads t k .unsettled := hwork .unsettled
  have hnone := hi.receiving_eq_zero hth htp hsl
  have hle : loads s.threads t k .unsettled ≤ loads s.threads t k .receiving :=
    unsettled_le_receiving
  have huz : work .unsettled = 0 := by omega
  refine ⟨?_, .inl ?_, fun _ => .inl hqueue, fun hq => ⟨hunused hq, hqueue, hbacklog, huz⟩⟩
  · rw [hrec, hslot.receivers, hr]
  · rw [hbacklog, hqueue, huz]
    rfl

theorem ZcInv.advance_destroy {pops : Bool} (hi : ZcInv capacity s)
    (hth : s.threads[n]? = some (.destroy t k))
    (hs : s.advance n pops (.destroy t k) = some s') : ZcInv capacity s' := by
  obtain ⟨tp, htp, hs⟩ := Option.bind_eq_some_iff.mp hs
  have hok : tp.alive = false := hi.threads.ok hth rfl htp
  split at hs
  · next hnone =>
    cases hs
    refine ⟨hi.pool.congr ?_, ?_, hi.threads.thread (fun _ h => by cases h),
      hi.loans.thread hth (fun _ h => by cases h)⟩
    · intro i
      have := tally_set_eq (f := ZcThread.inHand i) (b := .idle .void) hth rfl
      simp only [ZcState.owed, ZcState.setThread, this]
    · -- The slots the thread still announced to drain do not exist.
      refine hi.topics.thread_at hth htp ?_ ?_
      · intro t' hne k' w
        rw [ZcThread.load_destroy_of_ne hne, ZcThread.load_idle]
      · intro k' sl hsl
        have hlt : k' < k := by
          have hlen := List.getElem?_eq_none_iff.mp hnone
          obtain ⟨hk', -⟩ := List.getElem?_eq_some_iff.mp hsl
          omega
        rw [loads_set_eq hth]
        · exact (hi.topics t tp htp).slot k' sl hsl
        · intro w
          cases w <;> simp [ZcThread.load, ZcThread.does]
          omega
  · split at hs
    · cases hs
    · cases hs
      refine hi.thread hth (by simp) (fun _ => rfl) (fun _ h => by cases h) ?_
      intro t' ht
      cases ht
      exact ⟨tp, htp, hok⟩

theorem ZcInv.advance_drain {pops : Bool} {caller : ZcDrain} (hi : ZcInv capacity s)
    (hth : s.threads[n]? = some (.drain t k caller))
    (hs : s.advance n pops (.drain t k caller) = some s') : ZcInv capacity s' := by
  obtain ⟨tp, htp, hs⟩ := Option.bind_eq_some_iff.mp hs
  obtain ⟨sl, hsl, hs⟩ := Option.bind_eq_some_iff.mp hs
  have hok := hi.threads.ok hth rfl htp
  have hslot := (hi.topics t tp htp).slot k sl hsl
  split at hs
  · next hinvalid =>
    cases hs
    obtain ⟨hid, hqueue, hbacklog, -⟩ := hslot.unused (by simpa using hinvalid)
    refine ⟨hi.pool.congr ?_, ?_, ?_, ?_⟩
    · intro i
      have := tally_set_eq (f := ZcThread.inHand i) (b := ZcState.drainReturn t k caller) hth
        (by simp)
      simp only [ZcState.owed, ZcState.setThread, this]
    · refine hi.topics.thread_at hth htp ?_ ?_
      · intro t' hne k' w
        exact ZcThread.load_drainReturn_of_ne (.inl hne) caller
      · intro k' q hq
        by_cases hk : k' = k
        · subst hk
          obtain rfl : sl = q := Option.some.inj (hsl.symm.trans hq)
          exact hi.drained_slot hth htp hsl rfl hqueue hbacklog (fun _ => hid) (loads_set hth)
        · rw [loads_set_eq hth (fun w => ZcThread.load_drainReturn_of_ne (.inr hk) caller)]
          exact (hi.topics t tp htp).slot k' q hq
    · refine hi.threads.thread ?_
      intro t' ht
      obtain rfl := topic_eq_of_some (drainReturn_topic caller) ht
      exact ⟨tp, htp, drainReturn_ok hok ⟨rfl, id, fun _ _ q hq => ⟨q, hq, rfl, rfl⟩⟩⟩
    · refine hi.loans.thread hth ?_
      intro c' hc'
      rw [drainReturn_publishing] at hc'
      cases hc'
  · next hvalid =>
    have hvalid : sl.queueValid = true := by simpa using hvalid
    split at hs
    · next index rest hqueue =>
      cases hs
      have hpos : 0 < loads s.threads t k .draining := by
        refine tally_pos_iff.mpr ⟨n, _, hth, ?_⟩
        rw [ZcThread.load_drain_self]
        exact Nat.zero_lt_one
      refine hi.update (p := s.pool) hth htp ?_ ?_ ?_ ?_ ?_
        (hi.loans.thread hth (fun _ h => by cases h))
      · intro own hown
        refine hi.pool.congr ?_
        intro i
        have hq := queued_setSlot hsl { sl with queue := rest } i
        have := hown i
        rw [hqueue, count_cons_owns] at hq
        rw [ZcThread.inHand_drain, ZcThread.inHand_drained] at this
        simp only at hq
        omega
      · refine hi.topics.slot hth htp (by simp) rfl rfl (hi.topics t tp htp).underflow ?_
        intro work hwork
        obtain rfl : work = loads s.threads t k := funext (fun w => by simpa using hwork w)
        refine ⟨hslot.receivers, .inr hpos, fun _ => .inr hpos, ?_⟩
        intro hq
        rw [hvalid] at hq
        cases hq
      · intro m thm _ _ _ hokm
        exact hokm.respects (.setSlot hsl rfl rfl)
      · intro t' ht
        exact topic_eq_of_some rfl ht
      · have hresp : tp.Respects n (tp.setSlot k { sl with queue := rest }) :=
          .setSlot hsl rfl rfl
        cases caller with
        | unsubscribe => exact hok.respects hresp
        | destructor => exact hok.respects hresp
    · next hqueue =>
      cases hs
      have hresp : ∀ m, tp.Respects m (tp.setSlot k { sl with backlog := 0 }) :=
        fun m => .setSlot hsl rfl rfl
      refine hi.update (p := s.pool) hth htp (hi.pool_of_eq (by simp) ?_) ?_ ?_ ?_
        (drainReturn_ok hok (hresp n)) (hi.loans.thread hth ?_)
      · exact queued_set_eq rfl hsl (by rfl)
      · refine hi.topics.slot hth htp ?_ rfl rfl (hi.topics t tp htp).underflow ?_
        · intro t' k' hne w
          exact ZcThread.load_drainReturn_of_ne hne caller
        · intro work hwork
          refine hi.drained_slot hth htp hsl rfl hqueue rfl ?_ hwork
          intro hq
          rw [hvalid] at hq
          cases hq
      · intro m thm _ _ _ hokm
        exact hokm.respects (hresp m)
      · intro t' ht
        exact topic_eq_of_some (drainReturn_topic caller) ht
      · intro c' hc'
        rw [drainReturn_publishing] at hc'
        cases hc'

theorem ZcInv.advance_drained {pops : Bool} {caller : ZcDrain} {index : Nat}
    (hi : ZcInv capacity s) (hth : s.threads[n]? = some (.drained t k caller index))
    (hs : s.advance n pops (.drained t k caller index) = some s') : ZcInv capacity s' := by
  cases hs
  refine hi.thread_pool hth ?_ (by simp) nofun ?_
  · intro own hown
    refine hi.pool.release ?_
    intro i
    have := hown i
    rw [ZcThread.inHand_drained, ZcThread.inHand_drain] at this
    omega
  · intro t' ht
    cases ht
    obtain ⟨tp, htp, hok⟩ := hi.threads n _ t hth rfl
    refine ⟨tp, htp, ?_⟩
    cases caller with
    | unsubscribe => exact hok
    | destructor => exact hok

/-! ### `publish_zero_copy` -/

/-- The loan being published keeps its slot owned. -/
theorem ZcInv.owed_pos_of_publishing (hi : ZcInv capacity s) (hth : s.threads[n]? = some th)
    (hc : th.publishing = some c) : 0 < s.owed c.index :=
  owed_pos_of_loan (hi.loans.held n th c hth hc) rfl

/-- Going on with the call. -/
theorem publishing_same (hc : th.publishing = some c) (c' : ZcPublish)
    (hc' : some c = some c') :
    ∃ c, th.publishing = some c ∧ c'.loan = c.loan ∧ c'.index = c.index := by
  cases hc'
  exact ⟨c, hc, rfl, rfl⟩

theorem ZcInv.advance_publish {pops : Bool} (hi : ZcInv capacity s)
    (hth : s.threads[n]? = some (.publish c k))
    (hs : s.advance n pops (.publish c k) = some s') : ZcInv capacity s' := by
  obtain ⟨tp, htp, hs⟩ := Option.bind_eq_some_iff.mp hs
  obtain ⟨halive, hmutex⟩ := hi.threads.ok hth rfl htp
  split at hs
  · cases hs
    have hhigh : tp.updateHighWater.alive = tp.alive ∧ tp.updateHighWater.slots = tp.slots ∧
        tp.updateHighWater.underflow = tp.underflow ∧ tp.updateHighWater.mutex = tp.mutex := by
      rw [ZeroCopySignal.updateHighWater]
      split <;> exact ⟨rfl, rfl, rfl, rfl⟩
    obtain ⟨halive', hslots', hunder', hmutex'⟩ := hhigh
    refine hi.update (p := s.pool) hth htp (hi.pool_of_eq (fun _ => rfl) ?_) ?_ ?_ ?_
      ⟨halive'.trans halive, hmutex'.trans hmutex⟩ (hi.loans.thread hth (publishing_same rfl))
    · intro i
      rw [ZeroCopySignal.queued, hslots', ZeroCopySignal.queued]
    · exact hi.topics.frame hth htp (by simp) halive' hslots' hunder'
    · intro m thm hmn _ _ hok
      exact hok.respects (.locked hmn (.inr hmutex) halive')
    · intro t' ht
      exact topic_eq_of_some rfl ht
  · next sl hsl =>
    split at hs
    · cases hs
      refine hi.thread hth (by simp) (fun _ => rfl) (publishing_same rfl) ?_
      intro t' ht
      cases ht
      exact ⟨tp, htp, halive, hmutex⟩
    · next hid =>
      obtain ⟨pool, hpool, hs⟩ := Option.bind_eq_some_iff.mp hs
      cases hs
      refine hi.thread_pool hth ?_ (by simp) (publishing_same rfl) ?_
      · intro own hown
        refine hi.pool.retain hpool (hi.owed_pos_of_publishing hth rfl) ?_
        intro i
        have := hown i
        rw [ZcThread.inHand_publish, ZcThread.inHand_send] at this
        omega
      · intro t' ht
        cases ht
        refine ⟨tp, htp, halive, hmutex, ?_⟩
        intro q hq
        obtain rfl : sl = q := Option.some.inj (hsl.symm.trans hq)
        exact hid

theorem ZcInv.advance_send {pops : Bool} (hi : ZcInv capacity s)
    (hth : s.threads[n]? = some (.send c k))
    (hs : s.advance n pops (.send c k) = some s') : ZcInv capacity s' := by
  obtain ⟨tp, htp, hs⟩ := Option.bind_eq_some_iff.mp hs
  obtain ⟨sl, hsl, hs⟩ := Option.bind_eq_some_iff.mp hs
  obtain ⟨halive, hmutex, hid⟩ := hi.threads.ok hth rfl htp
  have hid := hid sl hsl
  have hslot := (hi.topics c.topic tp htp).slot k sl hsl
  split at hs
  · cases hs
    refine hi.update (p := s.pool) hth htp ?_ ?_ ?_ ?_ ⟨halive, hmutex⟩
      (hi.loans.thread hth (fun c' hc' => ?_))
    · intro own hown
      refine hi.pool.congr ?_
      intro i
      have hq := queued_setSlot hsl
        { sl with queue := sl.queue ++ [c.index], backlog := sl.backlog + 1 } i
      have := hown i
      rw [ZcThread.inHand_send, ZcThread.inHand_publish] at this
      simp only [count_concat_owns] at hq
      omega
    · refine hi.topics.slot hth htp (by simp) rfl rfl (hi.topics c.topic tp htp).underflow ?_
      intro work hwork
      obtain rfl : work = loads s.threads c.topic k := funext (fun w => by simpa using hwork w)
      refine ⟨hslot.receivers, ?_, ?_, fun hq => absurd (hslot.unused hq).1 hid⟩
      · refine hslot.backlog.imp_left ?_
        intro hb
        simp only [List.length_append, List.length_singleton]
        omega
      · rintro (h | h)
        · exact absurd h hid
        · rw [halive] at h
          cases h
    · intro m thm hmn _ _ hok
      exact hok.respects (.locked hmn (.inr hmutex) rfl)
    · intro t' ht
      exact topic_eq_of_some rfl ht
    · cases hc'
      exact ⟨c, rfl, rfl, rfl⟩
  · cases hs
    refine hi.thread hth (by simp) (fun _ => rfl) (publishing_same rfl) ?_
    intro t' ht
    cases ht
    exact ⟨tp, htp, halive, hmutex⟩

theorem ZcInv.advance_reject {pops : Bool} (hi : ZcInv capacity s)
    (hth : s.threads[n]? = some (.reject c k))
    (hs : s.advance n pops (.reject c k) = some s') : ZcInv capacity s' := by
  obtain ⟨tp, htp, hs⟩ := Option.bind_eq_some_iff.mp hs
  obtain ⟨halive, hmutex⟩ := hi.threads.ok hth rfl htp
  cases hs
  refine hi.update hth htp ?_ (hi.topics.frame hth htp (by simp) rfl rfl rfl) ?_ ?_
    ⟨halive, hmutex⟩ (hi.loans.thread hth (fun c' hc' => ?_))
  · intro own hown
    refine hi.pool.release ?_
    intro i
    have := hown i
    rw [ZcThread.inHand_reject, ZcThread.inHand_publish] at this
    simp only [ZeroCopySignal.queued] at this
    omega
  · intro m thm hmn _ _ hok
    exact hok.respects (.locked hmn (.inr hmutex) rfl)
  · intro t' ht
    exact topic_eq_of_some rfl ht
  · cases hc'
    exact ⟨c, rfl, rfl, rfl⟩

theorem ZcInv.advance_finish {pops : Bool} (hi : ZcInv capacity s)
    (hth : s.threads[n]? = some (.finish c))
    (hs : s.advance n pops (.finish c) = some s') : ZcInv capacity s' := by
  obtain ⟨tp, htp, hok⟩ := hi.threads n _ c.topic hth rfl
  have hunlock : ∀ {ret : ZcReturn} t', (ZcThread.unlock c.topic ret).topic = some t' →
      ∃ tp, s.topics[t']? = some tp ∧ (ZcThread.unlock c.topic ret).Ok n tp := by
    intro ret t' ht
    cases ht
    exact ⟨tp, htp, hok⟩
  simp only [ZcState.advance] at hs
  split at hs
  · obtain ⟨l, hl, hs⟩ := Option.bind_eq_some_iff.mp hs
    cases hs
    refine ⟨hi.pool.drop ?_, hi.topics.thread hth (by simp), hi.threads.thread hunlock, ?_⟩
    · intro i
      have hloan := tally_set (f := fun l : Loan => owns l.index i) (b := l.emptied) hl
      have ht := tally_set_eq (f := ZcThread.inHand i) (b := .unlock c.topic (.published
        ⟨c.accepted, c.dropped, publishStatus c.accepted c.dropped⟩)) hth rfl
      simp only [ZcState.owed, Loan.emptied, MessagePool.owns_none, ht] at hloan ⊢
      omega
    · -- Once the call has given the loan up, nobody publishes the object.
      have hloans : LoansOk s.loans (s.threads.set n (.unlock c.topic (.published
          ⟨c.accepted, c.dropped, publishStatus c.accepted c.dropped⟩))) :=
        hi.loans.thread hth (fun _ h => by cases h)
      refine hloans.objects ?_
      intro m thm c' hm hc' _
      refine List.getElem?_set_ne ?_
      intro heq
      rcases getElem?_set_cases hm with ⟨rfl, rfl⟩ | ⟨hne, hm⟩
      · cases hc'
      · exact hne (hi.loans.apart m n thm _ c' c hm hth hc' rfl heq.symm)
  · cases hs
    exact hi.thread hth (by simp) (fun _ => rfl) (fun _ h => by cases h) hunlock

theorem ZcInv.advance_unlock {pops : Bool} (hi : ZcInv capacity s)
    (hth : s.threads[n]? = some (.unlock t ret))
    (hs : s.advance n pops (.unlock t ret) = some s') : ZcInv capacity s' := by
  obtain ⟨tp, htp, hs⟩ := Option.bind_eq_some_iff.mp hs
  obtain ⟨-, hmutex⟩ := hi.threads.ok hth rfl htp
  cases hs
  refine hi.update (p := s.pool) hth htp (hi.pool_of_eq (fun _ => rfl) (fun _ => rfl))
    (hi.topics.frame hth htp (by simp) rfl rfl rfl) ?_ nofun trivial (hi.loans.thread hth nofun)
  intro m thm hmn _ _ hok
  exact hok.respects (.locked hmn (.inr hmutex) rfl)

/-! ### `receive_loan` -/

theorem ZcInv.advance_receive {pops : Bool} {out : Nat} (hi : ZcInv capacity s)
    (hth : s.threads[n]? = some (.receive t k out))
    (hs : s.advance n pops (.receive t k out) = some s') : ZcInv capacity s' := by
  obtain ⟨tp, htp, hs⟩ := Option.bind_eq_some_iff.mp hs
  obtain ⟨sl, hsl, hs⟩ := Option.bind_eq_some_iff.mp hs
  have halive : tp.alive = true := hi.threads.ok hth rfl htp
  have hslot := (hi.topics t tp htp).slot k sl hsl
  split at hs
  · split at hs
    · cases hs
    · next index rest hqueue =>
      cases hs
      refine hi.update (p := s.pool) hth htp ?_ ?_ ?_ ?_ halive (hi.loans.thread hth nofun)
      · intro own hown
        refine hi.pool.congr ?_
        intro i
        have hq := queued_setSlot hsl { sl with queue := rest } i
        have := hown i
        rw [hqueue, count_cons_owns] at hq
        rw [ZcThread.inHand_receive, ZcThread.inHand_settle] at this
        simp only at hq
        omega
      · refine hi.topics.slot hth htp ?_ rfl rfl (hi.topics t tp htp).underflow ?_
        · intro t' k' hne w
          rw [ZcThread.load_settle_of_ne hne, ZcThread.load_receive_of_ne hne]
        · intro work hwork
          simp only [ZcThread.load_receive_self, ZcThread.load_settle_self] at hwork
          have hr := hwork .receiving
          have hu := hwork .unsettled
          have hd : work .draining = loads s.threads t k .draining := hwork .draining
          simp only at hr hu
          refine ⟨?_, ?_, ?_, ?_⟩
          · have := hslot.receivers
            simp only
            omega
          · have := hslot.backlog
            rw [hqueue, List.length_cons] at this
            simp only
            omega
          · intro h
            rw [hd]
            exact (hslot.drained h).imp_left (fun hnil => by simp [hqueue] at hnil)
          · intro hq
            have := (hslot.unused hq).2.1
            rw [hqueue] at this
            cases this
      · intro m thm _ _ _ hok
        exact hok.respects (.setSlot hsl rfl rfl)
      · intro t' ht
        exact topic_eq_of_some rfl ht
  · cases hs
    refine hi.thread hth (by simp) (fun _ => rfl) nofun ?_
    intro t' ht
    cases ht
    exact ⟨tp, htp, halive⟩

theorem ZcInv.advance_settle {pops : Bool} {out : Nat} {got : Option Nat} (hi : ZcInv capacity s)
    (hth : s.threads[n]? = some (.settle t k out got))
    (hs : s.advance n pops (.settle t k out got) = some s') : ZcInv capacity s' := by
  obtain ⟨tp, htp, hs⟩ := Option.bind_eq_some_iff.mp hs
  obtain ⟨sl, hsl, hs⟩ := Option.bind_eq_some_iff.mp hs
  have halive : tp.alive = true := hi.threads.ok hth rfl htp
  have hslot := (hi.topics t tp htp).slot k sl hsl
  have hunder := (hi.topics t tp htp).underflow
  -- The call counts itself out, so it is still counted in.
  have hrec : 0 < sl.receivers := by
    rw [hslot.receivers]
    refine tally_pos_iff.mpr ⟨n, _, hth, ?_⟩
    cases got <;> simp [ZcThread.load, ZcThread.does]
  have hdrain : loads s.threads t k .draining = 0 := by
    by_contra hpos
    obtain ⟨-, hz⟩ := hi.threads.draining htp halive (Nat.pos_of_ne_zero hpos)
    have := (hz sl hsl).2
    omega
  split at hs
  · cases hs
  · next hmutex =>
    have hresp : ∀ m thm, m ≠ n → s.threads[m]? = some thm → thm.topic = some t →
        ∀ tp', tp'.alive = tp.alive → thm.Ok m tp → thm.Ok m tp' :=
      fun m thm hmn _ _ tp' hal hok =>
        hok.respects (.locked hmn (.inl (mutex_eq_none hmutex)) hal)
    cases got with
    | none =>
        cases hs
        refine hi.update (p := s.pool) hth htp (hi.pool_of_eq (fun _ => rfl) ?_) ?_
          (fun m thm hmn hm ht hok => hresp m thm hmn hm ht _ rfl hok) (fun _ h => by cases h)
          trivial (hi.loans.thread hth (fun _ h => by cases h))
        · exact queued_set_eq rfl hsl (by rfl)
        · refine hi.topics.slot hth htp ?_ rfl rfl ?_ ?_
          · intro t' k' hne w
            rw [ZcThread.load_settle_of_ne hne, ZcThread.load_idle]
          · simp only [hunder, Bool.false_or, beq_eq_false_iff_ne]
            omega
          · intro work hwork
            simp only [ZcThread.load_settle_none, ZcThread.load_receive_self,
              ZcThread.load_idle] at hwork
            have hr := hwork .receiving
            have hu : work .unsettled = loads s.threads t k .unsettled := hwork .unsettled
            have hd : work .draining = loads s.threads t k .draining := hwork .draining
            refine ⟨?_, ?_, ?_, ?_⟩
            · have := hslot.receivers
              simp only [sizeDecr_of_pos hrec] at hr ⊢
              omega
            · rw [hu, hd]
              exact hslot.backlog
            · rw [hd]
              exact hslot.drained
            · rw [hu]
              exact hslot.unused
    | some index =>
        have hback : 0 < sl.backlog := by
          have hpos : 0 < loads s.threads t k .unsettled := by
            refine tally_pos_iff.mpr ⟨n, _, hth, ?_⟩
            simp [ZcThread.load_settle_self]
          have := hslot.backlog
          omega
        cases hs
        refine hi.update (p := s.pool) hth htp (hi.pool_of_eq (fun _ => by simp) ?_) ?_
          (fun m thm hmn hm ht hok => hresp m thm hmn hm ht _ rfl hok) ?_ halive
          (hi.loans.thread hth (fun _ h => by cases h))
        · exact queued_set_eq rfl hsl (by rfl)
        · refine hi.topics.slot hth htp ?_ rfl rfl ?_ ?_
          · intro t' k' hne w
            rw [ZcThread.load_settle_of_ne hne, ZcThread.load_build]
          · simp only [hunder, Bool.false_or, Bool.or_eq_false_iff, beq_eq_false_iff_ne]
            omega
          · intro work hwork
            simp only [ZcThread.load_settle_self, ZcThread.load_build] at hwork
            have hr := hwork .receiving
            have hu := hwork .unsettled
            have hd : work .draining = loads s.threads t k .draining := hwork .draining
            simp only at hr hu
            refine ⟨?_, .inl ?_, ?_, ?_⟩
            · have := hslot.receivers
              simp only [sizeDecr_of_pos hrec]
              omega
            · have := hslot.backlog
              simp only [sizeDecr_of_pos hback]
              omega
            · rw [hd]
              exact hslot.drained
            · intro hq
              have := (hslot.unused hq).2.2.1
              omega
        · intro t' ht
          exact topic_eq_of_some rfl ht

/-- Every step inside a call keeps the accounts. -/
theorem ZcInv.advance {pops : Bool} (hi : ZcInv capacity s) (hth : s.threads[n]? = some th)
    (hs : s.advance n pops th = some s') : ZcInv capacity s' := by
  cases th with
  | idle => cases hs
  | copyAssign dst index => exact hi.assignTemporary hth (by simp) (fun _ => rfl) hs
  | destroy t k => exact hi.advance_destroy hth hs
  | drain t k caller => exact hi.advance_drain hth hs
  | drained t k caller index => exact hi.advance_drained hth hs
  | publish c k => exact hi.advance_publish hth hs
  | send c k => exact hi.advance_send hth hs
  | reject c k => exact hi.advance_reject hth hs
  | finish c => exact hi.advance_finish hth hs
  | unlock t ret => exact hi.advance_unlock hth hs
  | receive t k out => exact hi.advance_receive hth hs
  | settle t k out got => exact hi.advance_settle hth hs
  | build t out index => exact hi.assignTemporary hth (by simp) (by simp) hs

end Calls

end MicrOsal
