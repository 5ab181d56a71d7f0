import MicrOsal.Signal.Subscribers

/-!
# MicrOsal.Signal.Delivery

What a subscriber receives through its id.

Two invariants carry the isolation. A slot's `receivers_` is the number of
threads between the two locked sections of a `receive` on it, so a slot with such
a thread is never given up and keeps its owner (`RecvInv`). And for every
subscription, what was received and what is still queued are together what its
queue accepted, while what was offered to its queue is what has been published
since it subscribed, up to the publish that has not come to its slot yet
(`SubOk`).
-/

namespace MicrOsal.Signal

variable {w : Nat} {α : Type} {s s' : State w α}

/-! ### Receivers -/

/-- The slot and the subscription of a thread inside `receive`. -/
def Thread.receives : Thread w α → Option (Nat × Nat)
  | .receive i sub => some (i, sub)
  | .settle i sub _ => some (i, sub)
  | _ => none

/-- The thread's share in `receivers_` of slot `i`. -/
def Thread.receiving (i : Nat) (th : Thread w α) : Nat :=
  if th.receives.map Prod.fst = some i then 1 else 0

theorem receiving_none {th : Thread w α} (h : th.receives = none) (i : Nat) :
    th.receiving i = 0 := by
  simp [Thread.receiving, h]

theorem receiving_some {th : Thread w α} {i j : Nat} (h : th.receives = some (i, j)) (k : Nat) :
    th.receiving k = if i = k then 1 else 0 := by
  simp [Thread.receiving, h]

/-- Slot `i` is in use and belongs to subscription `j`. -/
def State.Owns (s : State w α) (j i : Nat) : Prop :=
  ∃ sl, s.slots[i]? = some sl ∧ sl.inUse = true ∧ sl.owner = j

structure RecvInv (s : State w α) : Prop where
  receivers : ∀ (i : Nat) (sl : SubscriberSlot w α), s.slots[i]? = some sl →
    sl.receivers = tally (Thread.receiving i) s.threads
  owner : ∀ (t : Nat) (th : Thread w α) (i j : Nat), s.threads[t]? = some th →
    th.receives = some (i, j) → s.Owns j i

/-- A thread moves; its share moves with it, and the slots of the others stay theirs. -/
theorem RecvInv.update {t : Nat} {th th' : Thread w α} (h : RecvInv s)
    (ht : s.threads[t]? = some th) (hthreads : s'.threads = s.threads.set t th')
    (hslots : ∀ (k : Nat) (sk' : SubscriberSlot w α), s'.slots[k]? = some sk' →
      ∃ sk, s.slots[k]? = some sk ∧ sk'.receivers + th.receiving k = sk.receivers + th'.receiving k)
    (hothers : ∀ i j : Nat, 0 < tally (Thread.receiving i) s.threads → s.Owns j i → s'.Owns j i)
    (hself : ∀ i j : Nat, th'.receives = some (i, j) → s'.Owns j i) : RecvInv s' := by
  constructor
  · intro i sl' hsl'
    obtain ⟨sl, hsl, heq⟩ := hslots i sl' hsl'
    have hsum := tally_set (f := Thread.receiving i) (b := th') ht
    have hrec := h.receivers i sl hsl
    rw [hthreads]
    omega
  · intro u thu i j hu hrec
    rw [hthreads] at hu
    rcases getElem?_set_cases hu with ⟨rfl, rfl⟩ | ⟨-, hu⟩
    · exact hself i j hrec
    · refine hothers i j (tally_pos_iff.mpr ⟨u, thu, hu, ?_⟩) (h.owner u thu i j hu hrec)
      rw [receiving_some hrec, if_pos rfl]
      exact Nat.one_pos

/-- The shares stay as they are when no count of receivers changes. -/
theorem RecvInv.keep {t : Nat} {th th' : Thread w α} (h : RecvInv s)
    (ht : s.threads[t]? = some th) (hthreads : s'.threads = s.threads.set t th')
    (hrec : th'.receives = th.receives)
    (hslots : ∀ (k : Nat) (sk' : SubscriberSlot w α), s'.slots[k]? = some sk' →
      ∃ sk, s.slots[k]? = some sk ∧ sk'.receivers = sk.receivers)
    (howns : ∀ i j : Nat, 0 < tally (Thread.receiving i) s.threads → s.Owns j i → s'.Owns j i) :
    RecvInv s' := by
  refine h.update ht hthreads (fun k sk' hk => ?_) howns (fun i j hij => ?_)
  · obtain ⟨sk, hsk, heq⟩ := hslots k sk' hk
    exact ⟨sk, hsk, by rw [heq, Thread.receiving, Thread.receiving, hrec]⟩
  · rw [hrec] at hij
    refine howns i j (tally_pos_iff.mpr ⟨t, th, ht, ?_⟩) (h.owner t th i j ht hij)
    rw [receiving_some hij, if_pos rfl]
    exact Nat.one_pos

/-- Storing a slot with the same owner. -/
theorem Owns.setSlot {i : Nat} {sl sl' : SubscriberSlot w α} (hsl : s.slots[i]? = some sl)
    (hslots : s'.slots = s.slots.set i sl') (huse : sl'.inUse = sl.inUse)
    (howner : sl'.owner = sl.owner) {j k : Nat} (h : s.Owns j k) : s'.Owns j k := by
  obtain ⟨sk, hk, hu, ho⟩ := h
  by_cases hik : i = k
  · subst hik
    obtain rfl : sl = sk := Option.some.inj (hsl.symm.trans hk)
    refine ⟨sl', ?_, huse.trans hu, howner.trans ho⟩
    rw [hslots, List.getElem?_set_self (List.getElem?_eq_some_iff.mp hsl).1]
  · exact ⟨sk, by rw [hslots, List.getElem?_set_ne hik, hk], hu, ho⟩

/-- Storing a slot of no receiver. -/
theorem Owns.setSlot_other {i j k : Nat} {sl' : SubscriberSlot w α} (hik : i ≠ k)
    (hslots : s'.slots = s.slots.set i sl') (h : s.Owns j k) : s'.Owns j k := by
  obtain ⟨sk, hk, hu, ho⟩ := h
  exact ⟨sk, by rw [hslots, List.getElem?_set_ne hik, hk], hu, ho⟩

theorem receivers_setSlot {i k : Nat} {sl sl' sk' : SubscriberSlot w α}
    (hsl : s.slots[i]? = some sl) (hk : (s.slots.set i sl')[k]? = some sk')
    (hrec : sl'.receivers = sl.receivers) :
    ∃ sk, s.slots[k]? = some sk ∧ sk'.receivers = sk.receivers := by
  rcases getElem?_set_cases hk with ⟨rfl, rfl⟩ | ⟨-, hk⟩
  · exact ⟨sl, hsl, hrec⟩
  · exact ⟨sk', hk, rfl⟩

theorem RecvInv.step {this : BitVec w} {n : Nat} {a : Action w α} (h : RecvInv s)
    (hinv : TopicInv this n s) (hm : 0 < modulus w n) (hs : Step s a s') : RecvInv s' := by
  cases hs with
  | spawn =>
      constructor
      · intro i sl hsl
        rw [h.receivers i sl hsl]
        simp [Thread.receiving, Thread.receives]
      · intro t th i j ht hrec
        rcases getElem?_concat_cases ht with ht | ⟨-, rfl⟩
        · exact h.owner t th i j ht hrec
        · cases hrec
  | returns r ht => exact h.keep ht rfl rfl (fun k sk hk => ⟨sk, hk, rfl⟩) (fun _ _ _ ho => ho)
  | subscribe ht hv hmu hi =>
      exact h.keep ht rfl rfl (fun k sk hk => ⟨sk, hk, rfl⟩) (fun _ _ _ ho => ho)
  | @purge t i sl msg rest ht hsl hq =>
      constructor
      · intro k sk hk
        obtain ⟨sk', hk', heq⟩ := receivers_setSlot hsl hk rfl
        exact heq.trans (h.receivers k sk' hk')
      · intro u th k j hu hrec
        exact Owns.setSlot hsl rfl (by rfl) (by rfl) (h.owner u th k j hu hrec)
  | @register t i sl ht hsl hq =>
      obtain ⟨-, sl', hsl', hfree⟩ := hinv.lock t _ ht
      obtain rfl : sl = sl' := Option.some.inj (hsl.symm.trans hsl')
      rcases register_cases hinv.ids (by rwa [hinv.slots]) hsl t with
        ⟨newId, hreg⟩ | ⟨-, hthreads, hslots, -⟩
      · refine h.keep ht hreg.threads rfl (fun k sk hk => ?_) (fun k j _ ho => ?_)
        · rw [hreg.slots] at hk
          exact receivers_setSlot hsl hk rfl
        · -- The slot was free, so nobody owned it.
          refine Owns.setSlot_other ?_ hreg.slots ho
          intro hik
          subst hik
          obtain ⟨sk, hk, huse, -⟩ := ho
          obtain rfl : sl = sk := Option.some.inj (hsl.symm.trans hk)
          rw [hfree.1] at huse
          cases huse
      · refine h.keep ht hthreads rfl (fun k sk hk => ?_)
          (fun k j _ ho => Owns.setSlot hsl hslots rfl rfl ho)
        rw [hslots] at hk
        exact receivers_setSlot hsl hk rfl
  | @unsubscribe t i last id sl ha ht hmu hl hr =>
      have hsl := lookup_slot hl
      refine h.keep ht rfl rfl (fun k sk hk => receivers_setSlot hsl hk rfl) (fun k j hpos ho => ?_)
      refine Owns.setSlot_other ?_ rfl ho
      intro hik
      subst hik
      rw [← h.receivers i sl hsl] at hpos
      omega
  | publish msg ht hmu =>
      exact h.keep ht rfl rfl (fun k sk hk => ⟨sk, hk, rfl⟩) (fun _ _ _ ho => ho)
  | published ht hsl =>
      exact h.keep ht rfl rfl (fun k sk hk => ⟨sk, hk, rfl⟩) (fun _ _ _ ho => ho)
  | skip ht hsl huse =>
      exact h.keep ht rfl rfl (fun k sk hk => ⟨sk, hk, rfl⟩) (fun _ _ _ ho => ho)
  | send ht hsl huse hroom =>
      exact h.keep ht rfl rfl (fun k sk hk => receivers_setSlot hsl hk rfl)
        (fun k j _ ho => Owns.setSlot hsl rfl (by rfl) (by rfl) ho)
  | full ht hsl huse hroom =>
      exact h.keep ht rfl rfl (fun k sk hk => ⟨sk, hk, rfl⟩) (fun _ _ _ ho => ho)
  | tryReceive ht hl hq =>
      exact h.keep ht rfl rfl (fun k sk hk => receivers_setSlot (lookup_slot hl) hk rfl)
        (fun k j _ ho => Owns.setSlot (lookup_slot hl) rfl (by rfl) (by rfl) ho)
  | @receive t i last id sl ht hl =>
      have hsl := lookup_slot hl
      refine h.update ht rfl (fun k sk' hk => ?_)
        (fun k j _ ho => Owns.setSlot hsl rfl (by rfl) (by rfl) ho) (fun k j hkj => ?_)
      · rw [receiving_none rfl, receiving_some rfl]
        rcases getElem?_set_cases hk with ⟨rfl, rfl⟩ | ⟨hne, hk⟩
        · exact ⟨sl, hsl, by simp⟩
        · exact ⟨sk', hk, by simp [Ne.symm hne]⟩
      · obtain ⟨rfl, rfl⟩ := Prod.mk.inj (Option.some.inj hkj)
        exact Owns.setSlot hsl rfl (by rfl) (by rfl) ⟨sl, hsl, lookup_inUse hl, rfl⟩
  | taken ht hsl hq =>
      exact h.keep ht rfl rfl (fun k sk hk => receivers_setSlot hsl hk rfl)
        (fun k j _ ho => Owns.setSlot hsl rfl (by rfl) (by rfl) ho)
  | givesUp ht => exact h.keep ht rfl rfl (fun k sk hk => ⟨sk, hk, rfl⟩) (fun _ _ _ ho => ho)
  | @settle t i j received sl ht hsl hmu =>
      have hpos : 0 < sl.receivers := by
        rw [h.receivers i sl hsl]
        refine tally_pos_iff.mpr ⟨t, _, ht, ?_⟩
        rw [receiving_some rfl, if_pos rfl]
        exact Nat.one_pos
      refine h.update ht rfl (fun k sk' hk => ?_)
        (fun k j _ ho => Owns.setSlot hsl rfl (by rfl) (by rfl) ho) (fun k j hkj => nomatch hkj)
      rw [receiving_some rfl, receiving_none rfl]
      rcases getElem?_set_cases hk with ⟨rfl, rfl⟩ | ⟨hne, hk⟩
      · refine ⟨sl, hsl, ?_⟩
        simp only [if_true]
        omega
      · exact ⟨sk', hk, by simp [Ne.symm hne]⟩

/-! ### Messages on their way -/

/-- What a publishing thread has not yet offered to slot `i`. -/
def Thread.unsent (i : Nat) : Thread w α → List α
  | .publish msg k _ => if k ≤ i then [msg] else []
  | _ => []

/-- What has been published but not yet offered to slot `i`. -/
def State.unsent (s : State w α) (i : Nat) : List α :=
  match s.mutex.bind (fun t => s.threads[t]?) with
  | some th => th.unsent i
  | none => []

theorem unsent_free (h : s.mutex = none) (i : Nat) : s.unsent i = [] := by
  simp [State.unsent, h]

theorem unsent_holder {t : Nat} {th : Thread w α} (hmu : s.mutex = some t)
    (ht : s.threads[t]? = some th) (i : Nat) : s.unsent i = th.unsent i := by
  simp [State.unsent, hmu, ht]

theorem unsent_spawn {r : Return w α} (i : Nat) :
    ({ s with threads := s.threads ++ [.idle r] } : State w α).unsent i = s.unsent i := by
  unfold State.unsent
  cases s.mutex with
  | none => rfl
  | some t =>
      show (match (s.threads ++ [Thread.idle r])[t]? with
          | some th => th.unsent i
          | none => []) =
        (match s.threads[t]? with | some th => th.unsent i | none => [])
      rcases Nat.lt_trichotomy t s.threads.length with hlt | heq | hgt
      · rw [List.getElem?_append_left hlt]
      · rw [heq, List.getElem?_concat_length, List.getElem?_eq_none le_rfl]
        rfl
      · rw [List.getElem?_eq_none (by simp; omega), List.getElem?_eq_none (by omega)]

/-- A step of a thread that does not publish. -/
theorem unsent_quiet {t : Nat} {th th' : Thread w α} (hmu : s'.mutex = s.mutex)
    (ht : s.threads[t]? = some th) (hthreads : s'.threads = s.threads.set t th') {i : Nat}
    (hquiet : th.unsent i = []) (hquiet' : th'.unsent i = []) : s'.unsent i = s.unsent i := by
  unfold State.unsent
  rw [hmu]
  cases hholder : s.mutex with
  | none => rfl
  | some u =>
      show (match s'.threads[u]? with | some th => th.unsent i | none => []) =
        (match s.threads[u]? with | some th => th.unsent i | none => [])
      by_cases hut : t = u
      · subst hut
        rw [hthreads, List.getElem?_set_self (List.getElem?_eq_some_iff.mp ht).1, ht]
        exact hquiet'.trans hquiet.symm
      · rw [hthreads, List.getElem?_set_ne hut]

/-! ### Subscriptions -/

/-- What the subscriber's queue took. -/
def Subscription.accepted (capacity : Nat) (sub : Subscription w α) : List α :=
  (sub.sends.filter (fun x => x.found < capacity)).map Send.msg

structure SubOk (s : State w α) (sub : Subscription w α) : Prop where
  start : sub.start ≤ s.published.length
  found : ∀ x ∈ sub.sends, x.found ≤ s.capacity
  live : sub.stop = none →
    sub.sends.map Send.msg ++ s.unsent sub.slot = s.published.drop sub.start
  ended : ∀ e, sub.stop = some e → e ≤ s.published.length ∧
    sub.sends.map Send.msg = (s.published.take e).drop sub.start
  received : sub.received <+: sub.accepted s.capacity
  queued : sub.stop = none → ∀ sl, s.slots[sub.slot]? = some sl →
    sub.received ++ sl.queue = sub.accepted s.capacity

/-- Slot `i` looks the same to its subscriber. -/
def SameSlot (s s' : State w α) (i : Nat) : Prop :=
  s'.unsent i = s.unsent i ∧ ∀ sl', s'.slots[i]? = some sl' →
    ∃ sl, s.slots[i]? = some sl ∧ sl'.queue = sl.queue

theorem SubOk.frame {sub : Subscription w α} (h : SubOk s sub) (hcap : s'.capacity = s.capacity)
    (hpub : s'.published = s.published) (hlive : sub.stop = none → SameSlot s s' sub.slot) :
    SubOk s' sub := by
  constructor
  · rw [hpub]
    exact h.start
  · rw [hcap]
    exact h.found
  · intro hstop
    rw [(hlive hstop).1, hpub]
    exact h.live hstop
  · rw [hpub]
    exact h.ended
  · rw [hcap]
    exact h.received
  · intro hstop sl' hsl'
    obtain ⟨sl, hsl, hq⟩ := (hlive hstop).2 sl' hsl'
    rw [hcap, hq]
    exact h.queued hstop sl hsl

theorem accepted_concat {sub : Subscription w α} {capacity : Nat} {x : Send α} :
    ({ sub with sends := sub.sends ++ [x] } : Subscription w α).accepted capacity =
      if x.found < capacity then sub.accepted capacity ++ [x.msg] else sub.accepted capacity := by
  simp only [Subscription.accepted, List.filter_append, List.map_append]
  split
  case isTrue h => simp [h]
  case isFalse h => simp [h]

theorem TopicInv.owns {this : BitVec w} {n j : Nat} {sub : Subscription w α}
    (h : TopicInv this n s) (hj : s.subscriptions[j]? = some sub) (hlive : sub.stop = none) :
    s.Owns j sub.slot := by
  obtain ⟨sl, g, hsl, his⟩ := h.issued hj
  obtain ⟨huse, howner⟩ := his.current (live_iff.mpr hlive)
  exact ⟨sl, hsl, huse, howner⟩

theorem TopicInv.live_of_owns {this : BitVec w} {n i j : Nat} (h : TopicInv this n s)
    (ho : s.Owns j i) : ∃ sub, s.subscriptions[j]? = some sub ∧ sub.stop = none ∧ sub.slot = i := by
  obtain ⟨sl, hsl, huse, rfl⟩ := ho
  obtain ⟨sub', hsub', hslot, hlive⟩ := h.ids.owner i sl.ids (ids_slot hsl) huse
  rw [State.ids, List.getElem?_map] at hsub'
  obtain ⟨sub, hsub, rfl⟩ := Option.map_eq_some_iff.mp hsub'
  exact ⟨sub, hsub, live_iff.mp hlive, hslot⟩

/-- A live subscription of slot `i` is the slot's owner. -/
theorem TopicInv.owner_eq {this : BitVec w} {n j : Nat} {sub : Subscription w α}
    {sl : SubscriberSlot w α} (h : TopicInv this n s) (hj : s.subscriptions[j]? = some sub)
    (hlive : sub.stop = none) (hsl : s.slots[sub.slot]? = some sl) :
    sl.inUse = true ∧ sl.owner = j := by
  obtain ⟨sl', hsl', huse, howner⟩ := h.owns hj hlive
  obtain rfl : sl = sl' := Option.some.inj (hsl.symm.trans hsl')
  exact ⟨huse, howner⟩

structure DeliveryInv (s : State w α) : Prop where
  queue : ∀ (i : Nat) (sl : SubscriberSlot w α), s.slots[i]? = some sl →
    sl.queue.length ≤ s.capacity
  sub : ∀ (j : Nat) (sub : Subscription w α), s.subscriptions[j]? = some sub → SubOk s sub

/-- A step that changes no record and no slot of a subscriber. -/
theorem DeliveryInv.frame (h : DeliveryInv s) (hcap : s'.capacity = s.capacity)
    (hpub : s'.published = s.published) (hsubs : s'.subscriptions = s.subscriptions)
    (hqueue : ∀ (i : Nat) (sl' : SubscriberSlot w α), s'.slots[i]? = some sl' →
      ∃ sl, s.slots[i]? = some sl ∧ sl'.queue.length ≤ sl.queue.length)
    (hlive : ∀ (j : Nat) (sub : Subscription w α), s.subscriptions[j]? = some sub →
      sub.stop = none → SameSlot s s' sub.slot) : DeliveryInv s' := by
  constructor
  · intro i sl' hsl'
    obtain ⟨sl, hsl, hle⟩ := hqueue i sl' hsl'
    rw [hcap]
    exact hle.trans (h.queue i sl hsl)
  · intro j sub hj
    rw [hsubs] at hj
    exact (h.sub j sub hj).frame hcap hpub (hlive j sub hj)

/-- A step that also changes the record of one subscription. -/
theorem DeliveryInv.record {k : Nat} {f : Subscription w α → Subscription w α}
    (h : DeliveryInv s) (hcap : s'.capacity = s.capacity) (hpub : s'.published = s.published)
    (hsubs : s'.subscriptions = s.subscriptions.modify k f)
    (hqueue : ∀ (i : Nat) (sl' : SubscriberSlot w α), s'.slots[i]? = some sl' →
      sl'.queue.length ≤ s.capacity)
    (hlive : ∀ (j : Nat) (sub : Subscription w α), j ≠ k → s.subscriptions[j]? = some sub →
      sub.stop = none → SameSlot s s' sub.slot)
    (hself : ∀ sub, s.subscriptions[k]? = some sub → SubOk s sub → SubOk s' (f sub)) :
    DeliveryInv s' := by
  constructor
  · intro i sl' hsl'
    rw [hcap]
    exact hqueue i sl' hsl'
  · intro j sub hj
    rw [hsubs] at hj
    rcases getElem?_modify_cases hj with ⟨rfl, sub', hsub', rfl⟩ | ⟨hne, hj⟩
    · exact hself sub' hsub' (h.sub j sub' hsub')
    · exact (h.sub j sub hj).frame hcap hpub (hlive j sub hne hj)

/-- A publishing thread goes on to the next slot; only slot `i` sees it. -/
theorem unsent_next {t i : Nat} {msg : α} {any any' : Bool} (hlock : LockInv s)
    (ht : s.threads[t]? = some (.publish msg i any)) (hmu : s'.mutex = s.mutex)
    (hthreads : s'.threads = s.threads.set t (.publish msg (i + 1) any')) (k : Nat) :
    (k ≠ i → s'.unsent k = s.unsent k) ∧ s.unsent i = [msg] ∧ s'.unsent i = [] := by
  have hholds : s.mutex = some t := hlock t _ ht
  have ht' : s'.threads[t]? = some (.publish msg (i + 1) any') := by
    rw [hthreads, List.getElem?_set_self (List.getElem?_eq_some_iff.mp ht).1]
  refine ⟨fun hne => ?_, ?_, ?_⟩
  · rw [unsent_holder (hmu.trans hholds) ht', unsent_holder hholds ht]
    simp only [Thread.unsent]
    split
    case isTrue hle => rw [if_pos (by omega)]
    case isFalse hle => rw [if_neg (by omega)]
  · rw [unsent_holder hholds ht, Thread.unsent, if_pos le_rfl]
  · rw [unsent_holder (hmu.trans hholds) ht', Thread.unsent, if_neg (by omega)]

section Steps

variable {this : BitVec w} {n : Nat}

/-- The oldest message of the owner's queue is received. -/
theorem DeliveryInv.take (h : DeliveryInv s) (hinv : TopicInv this n s) {t i : Nat}
    {th th' : Thread w α} {sl : SubscriberSlot w α} {msg : α} {rest : List α}
    (hsl : s.slots[i]? = some sl) (huse : sl.inUse = true) (hq : sl.queue = msg :: rest)
    (ht : s.threads[t]? = some th) (hquiet : ∀ k, th.unsent k = [])
    (hquiet' : ∀ k, th'.unsent k = []) :
    DeliveryInv ((s.take i sl rest sl.owner msg).setThread t th') := by
  have hunsent : ∀ k, ((s.take i sl rest sl.owner msg).setThread t th').unsent k = s.unsent k :=
    fun k => unsent_quiet (by rfl) ht (by rfl) (hquiet k) (hquiet' k)
  obtain ⟨owner, hown, hlive, hslot⟩ := hinv.live_of_owns ⟨sl, hsl, huse, rfl⟩
  refine h.record rfl rfl rfl (fun k sk hk => ?_) (fun j sub hne hj hstop => ?_)
    (fun sub hj hok => ?_)
  · rcases getElem?_set_cases hk with ⟨rfl, rfl⟩ | ⟨-, hk⟩
    · have hle := h.queue k sl hsl
      rw [hq, List.length_cons] at hle
      exact Nat.le_of_succ_le hle
    · exact h.queue k sk hk
  · refine ⟨hunsent _, fun sk hk => ?_⟩
    rcases getElem?_set_cases hk with ⟨heq, -⟩ | ⟨-, hk⟩
    · rw [← heq] at hsl
      exact absurd (hinv.owner_eq hj hstop hsl).2.symm hne
    · exact ⟨sk, hk, rfl⟩
  · obtain rfl : owner = sub := Option.some.inj (hown.symm.trans hj)
    subst hslot
    have hqueued := hok.queued hlive sl hsl
    have htaken : owner.received ++ [msg] ++ rest = owner.accepted s.capacity := by
      rw [List.append_assoc, ← hqueued, hq]
      rfl
    refine ⟨hok.start, hok.found, fun _ => ?_, hok.ended, ⟨rest, htaken⟩, fun _ sk hk => ?_⟩
    · rw [hunsent]
      exact hok.live hlive
    · rcases getElem?_set_cases hk with ⟨-, rfl⟩ | ⟨hne, -⟩
      · exact htaken
      · exact absurd rfl hne

/-- A publish offers its message to the owner of slot `i`, whose queue takes it if it has
room. -/
theorem DeliveryInv.offer (h : DeliveryInv s) (hinv : TopicInv this n s) {t i : Nat} {msg : α}
    {any any' : Bool} {sl : SubscriberSlot w α}
    (ht : s.threads[t]? = some (.publish msg i any)) (hsl : s.slots[i]? = some sl)
    (huse : sl.inUse = true) (hcap : s'.capacity = s.capacity)
    (hpub : s'.published = s.published) (hmu : s'.mutex = s.mutex)
    (hthreads : s'.threads = s.threads.set t (.publish msg (i + 1) any'))
    (hsubs : s'.subscriptions = s.subscriptions.modify sl.owner
      (fun sub => { sub with sends := sub.sends ++ [⟨msg, sl.queue.length⟩] }))
    (hslots : ∀ (k : Nat) (sk : SubscriberSlot w α), s'.slots[k]? = some sk →
      (k = i ∧ sk.queue =
        if sl.queue.length < s.capacity then sl.queue ++ [msg] else sl.queue) ∨
      (k ≠ i ∧ s.slots[k]? = some sk)) : DeliveryInv s' := by
  have hunsent := fun k => unsent_next hinv.lock ht hmu hthreads k
  obtain ⟨owner, hown, hlive, hslot⟩ := hinv.live_of_owns ⟨sl, hsl, huse, rfl⟩
  have hle := h.queue i sl hsl
  refine h.record hcap hpub hsubs (fun k sk hk => ?_) (fun j sub hne hj hstop => ?_)
    (fun sub hj hok => ?_)
  · rcases hslots k sk hk with ⟨rfl, hqueue⟩ | ⟨-, hk⟩
    · rw [hqueue]
      split
      case isTrue hroom =>
        rw [List.length_append, List.length_singleton]
        exact hroom
      case isFalse => exact hle
    · exact h.queue k sk hk
  · have hother : sub.slot ≠ i := by
      intro heq
      rw [← heq] at hsl
      exact hne (hinv.owner_eq hj hstop hsl).2.symm
    refine ⟨(hunsent _).1 hother, fun sk hk => ?_⟩
    rcases hslots _ sk hk with ⟨heq, -⟩ | ⟨-, hk⟩
    · exact absurd heq hother
    · exact ⟨sk, hk, rfl⟩
  · obtain rfl : owner = sub := Option.some.inj (hown.symm.trans hj)
    subst hslot
    obtain ⟨-, hbefore, hafter⟩ := hunsent owner.slot
    have hqueued := hok.queued hlive sl hsl
    refine ⟨?_, ?_, fun _ => ?_, fun e he => ?_, ?_, fun _ sk hk => ?_⟩
    · rw [hpub]
      exact hok.start
    · intro x hx
      rw [hcap]
      rcases List.mem_append.mp hx with hx | hx
      · exact hok.found x hx
      · rw [List.mem_singleton.mp hx]
        exact hle
    · have hoffered := hok.live hlive
      rw [hbefore] at hoffered
      rw [hafter, List.append_nil, List.map_append, hpub]
      exact hoffered
    · exact absurd (hlive.symm.trans he) (Option.some_ne_none e).symm
    · rw [hcap, accepted_concat]
      split
      case isTrue => exact hok.received.trans (List.prefix_append _ _)
      case isFalse => exact hok.received
    · rcases hslots _ sk hk with ⟨-, hqueue⟩ | ⟨hne, -⟩
      · rw [hcap, accepted_concat, hqueue]
        split
        case isTrue => rw [← List.append_assoc, hqueued]
        case isFalse => exact hqueued
      · exact absurd rfl hne

/-- A slot is given up: what is left in its queue was accepted, but will not be received. -/
theorem DeliveryInv.unsubscribe (h : DeliveryInv s) (hinv : TopicInv this n s) {t i : Nat}
    {th th' : Thread w α} {sl sl' : SubscriberSlot w α} {count : BitVec w}
    (hsl : s.slots[i]? = some sl) (huse : sl.inUse = true) (hmu : s.mutex = none)
    (hqueue : sl'.queue = sl.queue) (ht : s.threads[t]? = some th)
    (hquiet : ∀ k, th.unsent k = []) (hquiet' : ∀ k, th'.unsent k = []) :
    DeliveryInv (({ s.setSlot i sl' with subscriberCount := count }.record sl.owner
      (fun sub => { sub with stop := some s.published.length })).setThread t th') := by
  have hunsent : ∀ k, (({ s.setSlot i sl' with subscriberCount := count }.record sl.owner
      (fun sub => { sub with stop := some s.published.length })).setThread t th').unsent k =
        s.unsent k :=
    fun k => unsent_quiet (by rfl) ht (by rfl) (hquiet k) (hquiet' k)
  obtain ⟨owner, hown, hlive, hslot⟩ := hinv.live_of_owns ⟨sl, hsl, huse, rfl⟩
  have hslots : ∀ (k : Nat) (sk : SubscriberSlot w α), (s.slots.set i sl')[k]? = some sk →
      ∃ sk', s.slots[k]? = some sk' ∧ sk.queue = sk'.queue := by
    intro k sk hk
    rcases getElem?_set_cases hk with ⟨rfl, rfl⟩ | ⟨-, hk⟩
    · exact ⟨sl, hsl, hqueue⟩
    · exact ⟨sk, hk, rfl⟩
  refine h.record rfl rfl rfl (fun k sk hk => ?_) (fun j sub hne hj hstop => ?_)
    (fun sub hj hok => ?_)
  · obtain ⟨sk', hk', heq⟩ := hslots k sk hk
    rw [heq]
    exact h.queue k sk' hk'
  · exact ⟨hunsent _, hslots _⟩
  · obtain rfl : owner = sub := Option.some.inj (hown.symm.trans hj)
    refine ⟨hok.start, hok.found, (fun hstop => nomatch hstop), fun e he => ?_, hok.received,
      fun hstop => nomatch hstop⟩
    obtain rfl := Option.some.inj he
    refine ⟨le_rfl, ?_⟩
    have hoffered := hok.live hlive
    rw [unsent_free hmu, List.append_nil] at hoffered
    show owner.sends.map Send.msg = (s.published.take s.published.length).drop owner.start
    rw [List.take_length]
    exact hoffered

/-- A publish begins. -/
theorem DeliveryInv.publish (h : DeliveryInv s) {t : Nat} {th : Thread w α} (msg : α)
    (ht : s.threads[t]? = some th) (hmu : s.mutex = none) :
    DeliveryInv ({ s.setMutex (some t) with published := s.published ++ [msg] }.setThread t
      (.publish msg 0 false)) := by
  refine ⟨h.queue, fun j sub hj => ?_⟩
  have hok := h.sub j sub hj
  refine ⟨?_, hok.found, fun hstop => ?_, fun e he => ?_, hok.received, hok.queued⟩
  · show sub.start ≤ (s.published ++ [msg]).length
    rw [List.length_append]
    exact Nat.le_add_right_of_le hok.start
  · have hoffered := hok.live hstop
    rw [unsent_free hmu, List.append_nil] at hoffered
    rw [unsent_holder (t := t) rfl (List.getElem?_set_self (List.getElem?_eq_some_iff.mp ht).1),
      hoffered, Thread.unsent, if_pos (Nat.zero_le _)]
    exact (List.drop_append_of_le_length hok.start).symm
  · obtain ⟨hle, hoffered⟩ := hok.ended e he
    refine ⟨?_, ?_⟩
    · show e ≤ (s.published ++ [msg]).length
      rw [List.length_append]
      exact Nat.le_add_right_of_le hle
    · show _ = ((s.published ++ [msg]).take e).drop sub.start
      rw [List.take_append_of_le_length hle]
      exact hoffered

/-- A free slot with an empty queue is taken. -/
theorem DeliveryInv.register (h : DeliveryInv s) (hinv : TopicInv this n s)
    (hm : 0 < modulus w n) {t i : Nat} {sl : SubscriberSlot w α}
    (ht : s.threads[t]? = some (.subscribe i)) (hsl : s.slots[i]? = some sl)
    (hempty : sl.queueValid = true → sl.queue = []) : DeliveryInv (s.register t i sl) := by
  obtain ⟨hmutex, -, hcap, hpub⟩ := register_frame (s := s) t i sl
  obtain ⟨hmu, sl', hsl', hfree, hqv⟩ := hinv.lock t _ ht
  obtain rfl : sl = sl' := Option.some.inj (hsl.symm.trans hsl')
  have hunsent : ∀ k, (s.register t i sl).unsent k = s.unsent k := by
    intro k
    rw [unsent_free hmutex, unsent_holder hmu ht]
    rfl
  rcases register_cases hinv.ids (by rwa [hinv.slots]) hsl t with
    ⟨newId, hreg⟩ | ⟨-, -, hslots, -, hsubs⟩
  · constructor
    · intro k sk hk
      rw [hcap]
      rw [hreg.slots] at hk
      rcases getElem?_set_cases hk with ⟨rfl, rfl⟩ | ⟨-, hk⟩
      · exact h.queue k sl hsl
      · exact h.queue k sk hk
    · intro j sub hj
      rw [hreg.subscriptions] at hj
      rcases getElem?_concat_cases hj with hj | ⟨-, rfl⟩
      · refine (h.sub j sub hj).frame hcap hpub (fun hstop => ⟨hunsent _, fun sk hk => ?_⟩)
        rw [hreg.slots] at hk
        rcases getElem?_set_cases hk with ⟨heq, -⟩ | ⟨-, hk⟩
        · rw [← heq] at hsl
          rw [(hinv.owner_eq hj hstop hsl).1] at hfree
          cases hfree
        · exact ⟨sk, hk, rfl⟩
      · refine ⟨le_of_eq (by rw [hpub]), (fun x hx => nomatch hx), fun _ => ?_,
          (fun e he => nomatch he), List.nil_prefix, fun _ sk hk => ?_⟩
        · rw [unsent_free hmutex, hpub, List.drop_length]
          rfl
        · rw [hreg.slots] at hk
          rcases getElem?_set_cases hk with ⟨-, rfl⟩ | ⟨hne, -⟩
          · exact hempty hqv
          · exact absurd rfl hne
  · have hqueues : ∀ (k : Nat) (sk : SubscriberSlot w α),
        (s.register t i sl).slots[k]? = some sk → ∃ sk', s.slots[k]? = some sk' ∧
          sk.queue = sk'.queue := by
      intro k sk hk
      rw [hslots] at hk
      rcases getElem?_set_cases hk with ⟨rfl, rfl⟩ | ⟨-, hk⟩
      · exact ⟨_, hsl, rfl⟩
      · exact ⟨sk, hk, rfl⟩
    refine h.frame hcap hpub hsubs (fun k sk hk => ?_)
      (fun j sub hj hstop => ⟨hunsent _, hqueues _⟩)
    obtain ⟨sk', hk', heq⟩ := hqueues k sk hk
    exact ⟨sk', hk', le_of_eq (congrArg List.length heq)⟩

/-- The queue of a slot without an owner is purged. -/
theorem DeliveryInv.purge (h : DeliveryInv s) (hinv : TopicInv this n s) {t i : Nat}
    {sl : SubscriberSlot w α} {msg : α} {rest : List α}
    (ht : s.threads[t]? = some (.subscribe i)) (hsl : s.slots[i]? = some sl)
    (hq : sl.queue = msg :: rest) : DeliveryInv (s.setSlot i { sl with queue := rest }) := by
  obtain ⟨-, sl', hsl', hfree, -⟩ := hinv.lock t _ ht
  obtain rfl : sl = sl' := Option.some.inj (hsl.symm.trans hsl')
  refine h.frame rfl rfl rfl (fun k sk hk => ?_)
    (fun j sub hj hstop => ⟨rfl, fun sk hk => ?_⟩)
  · rcases getElem?_set_cases hk with ⟨rfl, rfl⟩ | ⟨-, hk⟩
    · refine ⟨sl, hsl, ?_⟩
      rw [hq]
      exact Nat.le_succ _
    · exact ⟨sk, hk, le_rfl⟩
  · rcases getElem?_set_cases hk with ⟨heq, -⟩ | ⟨-, hk⟩
    · rw [← heq] at hsl
      rw [(hinv.owner_eq hj hstop hsl).1] at hfree
      cases hfree
    · exact ⟨sk, hk, rfl⟩

theorem DeliveryInv.step {a : Action w α} (h : DeliveryInv s) (hrecv : RecvInv s)
    (hinv : TopicInv this n s) (hm : 0 < modulus w n) (hs : Step s a s') : DeliveryInv s' := by
  -- Steps of one thread that publishes neither before nor after and changes no queue.
  have quiet : ∀ {s' : State w α} {t : Nat} {th th' : Thread w α}, s'.capacity = s.capacity →
      s'.published = s.published → s'.subscriptions = s.subscriptions → s'.mutex = s.mutex →
      s.threads[t]? = some th → s'.threads = s.threads.set t th' → (∀ k, th.unsent k = []) →
      (∀ k, th'.unsent k = []) →
      (∀ (k : Nat) (sk : SubscriberSlot w α), s'.slots[k]? = some sk →
        ∃ sk', s.slots[k]? = some sk' ∧ sk.queue = sk'.queue) → DeliveryInv s' := by
    intro s' t th th' hcap hpub hsubs hmu ht hthreads hquiet hquiet' hslots
    refine h.frame hcap hpub hsubs (fun k sk hk => ?_) (fun j sub hj hstop => ⟨?_, hslots _⟩)
    · obtain ⟨sk', hk', heq⟩ := hslots k sk hk
      exact ⟨sk', hk', le_of_eq (congrArg List.length heq)⟩
    · exact unsent_quiet hmu ht hthreads (hquiet _) (hquiet' _)
  have counted : ∀ {i : Nat} {sl : SubscriberSlot w α} {r k : Nat} {sk : SubscriberSlot w α},
      s.slots[i]? = some sl → (s.slots.set i { sl with receivers := r })[k]? = some sk →
      ∃ sk', s.slots[k]? = some sk' ∧ sk.queue = sk'.queue := by
    intro i sl r k sk hsl hk
    rcases getElem?_set_cases hk with ⟨rfl, rfl⟩ | ⟨-, hk⟩
    · exact ⟨sl, hsl, rfl⟩
    · exact ⟨sk, hk, rfl⟩
  cases hs with
  | spawn =>
      refine h.frame rfl rfl rfl (fun k sk hk => ⟨sk, hk, le_rfl⟩)
        (fun j sub hj hstop => ⟨?_, fun sk hk => ⟨sk, hk, rfl⟩⟩)
      exact unsent_spawn _
  | returns r ht =>
      exact quiet rfl rfl rfl rfl ht rfl (fun _ => rfl) (fun _ => rfl)
        (fun k sk hk => ⟨sk, hk, rfl⟩)
  | @subscribe t i last ht hv hmu hi =>
      refine h.frame rfl rfl rfl (fun k sk hk => ⟨sk, hk, le_rfl⟩)
        (fun j sub hj hstop => ⟨?_, fun sk hk => ⟨sk, hk, rfl⟩⟩)
      rw [unsent_free hmu,
        unsent_holder (t := t) rfl (List.getElem?_set_self (List.getElem?_eq_some_iff.mp ht).1)]
      rfl
  | purge ht hsl hq => exact h.purge hinv ht hsl hq
  | register ht hsl hq => exact h.register hinv hm ht hsl hq
  | unsubscribe ha ht hmu hl hr =>
      exact h.unsubscribe hinv (lookup_slot hl) (lookup_inUse hl) hmu rfl ht (fun _ => rfl)
        (fun _ => rfl)
  | publish msg ht hmu => exact h.publish msg ht hmu
  | @published t i msg any ht hsl =>
      refine h.frame rfl rfl rfl (fun k sk hk => ⟨sk, hk, le_rfl⟩)
        (fun j sub hj hstop => ⟨?_, fun sk hk => ⟨sk, hk, rfl⟩⟩)
      -- The publish has gone past every slot.
      obtain ⟨sl, hslot, -, -⟩ := hinv.owns hj hstop
      have hlt : sub.slot < s.slots.length := (List.getElem?_eq_some_iff.mp hslot).1
      have hge : s.slots.length ≤ i := List.getElem?_eq_none_iff.mp hsl
      rw [unsent_holder (hinv.lock t _ ht) ht, Thread.unsent, if_neg (by omega)]
      exact unsent_free rfl _
  | @skip t i msg any sl ht hsl huse =>
      refine h.frame rfl rfl rfl (fun k sk hk => ⟨sk, hk, le_rfl⟩)
        (fun j sub hj hstop => ⟨?_, fun sk hk => ⟨sk, hk, rfl⟩⟩)
      refine (unsent_next hinv.lock ht (by rfl) rfl sub.slot).1 ?_
      rintro rfl
      rw [(hinv.owner_eq hj hstop hsl).1] at huse
      cases huse
  | send ht hsl huse hroom =>
      refine h.offer hinv ht hsl huse rfl rfl rfl rfl rfl (fun k sk hk => ?_)
      rcases getElem?_set_cases hk with ⟨heq, rfl⟩ | ⟨hne, hk⟩
      · exact .inl ⟨heq, by rw [if_pos hroom]⟩
      · exact .inr ⟨hne, hk⟩
  | @full t i msg any sl ht hsl huse hroom =>
      refine h.offer hinv ht hsl huse rfl rfl rfl rfl rfl (fun k sk hk => ?_)
      by_cases heq : k = i
      · subst heq
        obtain rfl : sl = sk := Option.some.inj (hsl.symm.trans hk)
        exact .inl ⟨rfl, by rw [if_neg hroom]⟩
      · exact .inr ⟨heq, hk⟩
  | tryReceive ht hl hq =>
      exact h.take hinv (lookup_slot hl) (lookup_inUse hl) hq ht (fun _ => rfl) (fun _ => rfl)
  | receive ht hl =>
      exact quiet rfl rfl rfl rfl ht rfl (fun _ => rfl) (fun _ => rfl)
        (fun k sk hk => counted (lookup_slot hl) hk)
  | @taken t i j sl msg rest ht hsl hq =>
      obtain ⟨sl', hsl', huse, howner⟩ := hrecv.owner t _ i j ht rfl
      obtain rfl : sl = sl' := Option.some.inj (hsl.symm.trans hsl')
      subst howner
      exact h.take hinv hsl huse hq ht (fun _ => rfl) (fun _ => rfl)
  | givesUp ht =>
      exact quiet rfl rfl rfl rfl ht rfl (fun _ => rfl) (fun _ => rfl)
        (fun k sk hk => ⟨sk, hk, rfl⟩)
  | settle ht hsl hmu =>
      exact quiet rfl rfl rfl rfl ht rfl (fun _ => rfl) (fun _ => rfl)
        (fun k sk hk => counted hsl hk)

/-! ### What has been received -/

/-- The record of the same subscription, later. -/
def Later (sub sub' : Subscription w α) : Prop :=
  sub'.id = sub.id ∧ sub.received <+: sub'.received

theorem Step.later {a : Action w α} (hs : Step s a s') (hinv : TopicInv this n s)
    (hm : 0 < modulus w n) : SubsRel Later s s' := by
  have hR : ∀ sub : Subscription w α, Later sub sub := fun sub => ⟨rfl, List.prefix_refl _⟩
  cases hs with
  | spawn => exact .of_eq hR rfl
  | returns r ht => exact .of_eq hR rfl
  | subscribe ht hv hmu hi => exact .of_eq hR rfl
  | purge ht hsl hq => exact .of_eq hR rfl
  | @register t i sl ht hsl hq =>
      rcases register_cases hinv.ids (by rwa [hinv.slots]) hsl t with
        ⟨newId, hreg⟩ | ⟨-, -, -, -, hsubs⟩
      · exact .of_concat hR hreg.subscriptions
      · exact .of_eq hR hsubs
  | unsubscribe ha ht hmu hl hr => exact .of_record hR rfl (fun sub => hR sub)
  | publish msg ht hmu => exact .of_eq hR rfl
  | published ht hsl => exact .of_eq hR rfl
  | skip ht hsl huse => exact .of_eq hR rfl
  | send ht hsl huse hroom => exact .of_record hR rfl (fun sub => hR sub)
  | full ht hsl huse hroom => exact .of_record hR rfl (fun sub => hR sub)
  | tryReceive ht hl hq => exact .of_record hR rfl (fun sub => ⟨rfl, List.prefix_append _ _⟩)
  | receive ht hl => exact .of_eq hR rfl
  | taken ht hsl hq => exact .of_record hR rfl (fun sub => ⟨rfl, List.prefix_append _ _⟩)
  | givesUp ht => exact .of_eq hR rfl
  | settle ht hsl hmu => exact .of_eq hR rfl

/-- A message that a call is about to return was received by the call's subscription. -/
def ReturnInv (s : State w α) : Prop :=
  ∀ (t i j : Nat) (msg : α), s.threads[t]? = some (.settle i j (some msg)) →
    ∃ sub, s.subscriptions[j]? = some sub ∧ msg ∈ sub.received

/-- A thread moves, and is not about to return a message. -/
theorem ReturnInv.move {t : Nat} {th' : Thread w α} (h : ReturnInv s) (hlater : SubsRel Later s s')
    (hthreads : s'.threads = s.threads.set t th')
    (hth : ∀ i j msg, th' ≠ .settle i j (some msg)) : ReturnInv s' := by
  intro u i j msg hu
  rw [hthreads] at hu
  rcases getElem?_set_cases hu with ⟨-, heq⟩ | ⟨-, hu⟩
  · exact absurd heq.symm (hth i j msg)
  · obtain ⟨sub, hj, hmem⟩ := h u i j msg hu
    obtain ⟨sub', hj', -, hprefix⟩ := hlater j sub hj
    exact ⟨sub', hj', hprefix.subset hmem⟩

theorem ReturnInv.step {a : Action w α} (h : ReturnInv s) (hrecv : RecvInv s)
    (hinv : TopicInv this n s) (hm : 0 < modulus w n) (hs : Step s a s') : ReturnInv s' := by
  have hlater := hs.later hinv hm
  cases hs with
  | spawn =>
      intro u i j msg hu
      rcases getElem?_concat_cases hu with hu | ⟨-, heq⟩
      · exact h u i j msg hu
      · cases heq
  | returns r ht => exact h.move hlater rfl (fun _ _ _ heq => by cases heq)
  | subscribe ht hv hmu hi => exact h.move hlater rfl (fun _ _ _ heq => by cases heq)
  | purge ht hsl hq => exact h
  | @register t i sl ht hsl hq =>
      obtain ⟨r, hr⟩ := register_threads (s := s) t i sl
      exact h.move hlater hr (fun _ _ _ heq => by cases heq)
  | unsubscribe ha ht hmu hl hr => exact h.move hlater rfl (fun _ _ _ heq => by cases heq)
  | publish msg ht hmu => exact h.move hlater rfl (fun _ _ _ heq => by cases heq)
  | published ht hsl => exact h.move hlater rfl (fun _ _ _ heq => by cases heq)
  | skip ht hsl huse => exact h.move hlater rfl (fun _ _ _ heq => by cases heq)
  | send ht hsl huse hroom => exact h.move hlater rfl (fun _ _ _ heq => by cases heq)
  | full ht hsl huse hroom => exact h.move hlater rfl (fun _ _ _ heq => by cases heq)
  | tryReceive ht hl hq => exact h.move hlater rfl (fun _ _ _ heq => by cases heq)
  | receive ht hl => exact h.move hlater rfl (fun _ _ _ heq => by cases heq)
  | @taken t i j sl msg rest ht hsl hq =>
      intro u k l msg' hu
      rcases getElem?_set_cases hu with ⟨-, heq⟩ | ⟨-, hu⟩
      · obtain ⟨rfl, rfl, hmsg⟩ := Thread.settle.inj heq
        obtain rfl := Option.some.inj hmsg
        obtain ⟨sub, hsub, -⟩ := hinv.live_of_owns (hrecv.owner t _ k l ht rfl)
        refine ⟨{ sub with received := sub.received ++ [msg'] }, ?_, by simp⟩
        simp only [State.setThread, State.take, State.record, State.setSlot]
        rw [List.getElem?_modify_eq, hsub]
        rfl
      · obtain ⟨sub, hj, hmem⟩ := h u k l msg' hu
        obtain ⟨sub', hj', -, hprefix⟩ := hlater l sub hj
        exact ⟨sub', hj', hprefix.subset hmem⟩
  | givesUp ht => exact h.move hlater rfl (fun _ _ _ heq => by cases heq)
  | settle ht hsl hmu => exact h.move hlater rfl (fun _ _ _ heq => by cases heq)

end Steps

/-! ### Isolation -/

/-- What was published between the `subscribe` and the `unsubscribe`, if there has been
one. -/
def Subscription.window (published : List α) (sub : Subscription w α) : List α :=
  (published.take (sub.stop.getD published.length)).drop sub.start

/-- What holds in every state of a topic, for every subscription. -/
structure DeliveryOk (s : State w α) : Prop where
  /-- What a subscriber receives was published between its `subscribe` and its
  `unsubscribe`, and comes in the order of the publishes, each at most once. -/
  subsequence : ∀ (j : Nat) (sub : Subscription w α), s.subscriptions[j]? = some sub →
    sub.received.Sublist (sub.window s.published)
  /-- Whatever was published in this time was offered to the subscriber's queue, but for
  a publish under way that has not come to its slot. -/
  offered : ∀ (j : Nat) (sub : Subscription w α), s.subscriptions[j]? = some sub →
    ∃ late, sub.sends.map Send.msg ++ late = sub.window s.published ∧
      (late = [] ∨ ∃ (t : Nat) (msg : α) (k : Nat) (any : Bool),
        s.threads[t]? = some (.publish msg k any) ∧ k ≤ sub.slot ∧ late = [msg])
  /-- What was offered is missing only where the queue was full; the rest has been
  received, first come first served, or is left in the queue. -/
  missing : ∀ (j : Nat) (sub : Subscription w α), s.subscriptions[j]? = some sub →
    (∀ x ∈ sub.sends, x.found < s.capacity ∨ x.found = s.capacity) ∧
    sub.received <+: sub.accepted s.capacity ∧
    (sub.stop = none → ∃ sl, s.slots[sub.slot]? = some sl ∧
      sub.received ++ sl.queue = sub.accepted s.capacity)
  /-- A call is made for the subscription that its id belongs to. -/
  calls : ∀ (t i j : Nat) (id : BitVec w) (s' : State w α), s.next (.receive t id) = some s' →
    s'.threads[t]? = some (.receive i j) →
    ∃ sub, s.subscriptions[j]? = some sub ∧ sub.stop = none ∧ sub.slot = i ∧ sub.id = id
  /-- While a `receive` is in progress its subscription goes on: `unsubscribe` refuses. -/
  refused : ∀ (t i j : Nat) (th : Thread w α), s.threads[t]? = some th →
    th.receives = some (i, j) →
    ∃ sub, s.subscriptions[j]? = some sub ∧ sub.stop = none ∧ sub.slot = i ∧
      (s.valid = true → s.mutex = none → ∀ u,
        s.unsubscribe u sub.id = some (s.ret u (.bool false)))
  /-- The message a `receive` is about to return is one its subscription received. -/
  returned : ∀ (t i j : Nat) (msg : α), s.threads[t]? = some (.settle i j (some msg)) →
    ∃ sub, s.subscriptions[j]? = some sub ∧ msg ∈ sub.received
  /-- So is the message a `try_receive` returns. -/
  tried : ∀ (t : Nat) (id : BitVec w) (msg : α) (s' : State w α),
    s.next (.tryReceive t id) = some s' → s'.threads[t]? = some (.idle (.received (some msg))) →
    ∃ (j : Nat) (sub sub' : Subscription w α), s.subscriptions[j]? = some sub ∧
      sub.stop = none ∧ sub.id = id ∧ s'.subscriptions[j]? = some sub' ∧
      sub'.received = sub.received ++ [msg]

structure DeliveryAll (this : BitVec w) (n : Nat) (s : State w α) : Prop where
  topic : TopicInv this n s
  recv : RecvInv s
  delivery : DeliveryInv s
  ret : ReturnInv s

theorem DeliveryAll.create (this : BitVec w) (capacity : Nat) (mutexValid : Bool)
    (queues : List Bool) (hm : 0 < modulus w queues.length) :
    DeliveryAll this queues.length (State.create this capacity mutexValid queues : State w α) := by
  have hslot : ∀ (i : Nat) (sl : SubscriberSlot w α),
      (State.create this capacity mutexValid queues : State w α).slots[i]? = some sl →
      sl.receivers = 0 ∧ sl.queue = [] := by
    intro i sl hsl
    simp only [State.create, List.getElem?_map] at hsl
    obtain ⟨valid, -, rfl⟩ := Option.map_eq_some_iff.mp hsl
    exact ⟨rfl, rfl⟩
  refine ⟨.create this capacity mutexValid queues hm, ⟨?_, ?_⟩, ⟨?_, ?_⟩, ?_⟩
  · intro i sl hsl
    rw [(hslot i sl hsl).1]
    rfl
  · intro t th i j ht
    cases ht
  · intro i sl hsl
    rw [(hslot i sl hsl).2]
    exact Nat.zero_le _
  · intro j sub hj
    cases hj
  · intro t i j msg ht
    cases ht

theorem DeliveryAll.reachable {this : BitVec w} {capacity : Nat} {mutexValid : Bool}
    {queues : List Bool} (hm : 0 < modulus w queues.length)
    (h : (signalMachine this capacity mutexValid queues).Reachable s) :
    DeliveryAll this queues.length s := by
  refine h.invariant (.create this capacity mutexValid queues hm) ?_
  intro s a s' _ hinv hstep
  have hs := Step.of_next hstep
  exact ⟨hinv.topic.step hm hs, hinv.recv.step hinv.topic hm hs,
    hinv.delivery.step hinv.recv hinv.topic hm hs, hinv.ret.step hinv.recv hinv.topic hm hs⟩

theorem SubOk.window_eq {sub : Subscription w α} (h : SubOk s sub) :
    ∃ late, sub.sends.map Send.msg ++ late = sub.window s.published ∧
      (late = [] ∨ (sub.stop = none ∧ late = s.unsent sub.slot)) := by
  unfold Subscription.window
  cases hstop : sub.stop with
  | none =>
      refine ⟨s.unsent sub.slot, ?_, .inr ⟨rfl, rfl⟩⟩
      rw [h.live hstop, Option.getD_none, List.take_length]
  | some e =>
      refine ⟨[], ?_, .inl rfl⟩
      rw [(h.ended e hstop).2, List.append_nil, Option.getD_some]

/-- Something unsent is the message of a publish that has not come to the slot. -/
theorem unsent_cases (i : Nat) :
    s.unsent i = [] ∨ ∃ (t : Nat) (msg : α) (k : Nat) (any : Bool),
      s.threads[t]? = some (.publish msg k any) ∧ k ≤ i ∧ s.unsent i = [msg] := by
  unfold State.unsent
  cases hmu : s.mutex with
  | none => exact .inl rfl
  | some t =>
      show (match s.threads[t]? with | some th => th.unsent i | none => []) = [] ∨ _
      cases ht : s.threads[t]? with
      | none => exact .inl rfl
      | some th =>
          cases th with
          | publish msg k any =>
              by_cases hle : k ≤ i
              · refine .inr ⟨t, msg, k, any, ht, hle, ?_⟩
                simp [ht, Thread.unsent, hle]
              · simp [Thread.unsent, hle]
          | idle last => exact .inl rfl
          | subscribe k => exact .inl rfl
          | receive k j => exact .inl rfl
          | settle k j received => exact .inl rfl

/-- A waiting `receive` was given an id that is accepted. -/
theorem receive_waits {t i j : Nat} {id : BitVec w} (h : s.next (.receive t id) = some s')
    (ht : s'.threads[t]? = some (.receive i j)) :
    ∃ sl, s.lookup id = some (i, sl) ∧ sl.owner = j := by
  obtain ⟨⟨last, hidle⟩, h⟩ := call_eq_some h
  have hlt := (List.getElem?_eq_some_iff.mp hidle).1
  have hself : ∀ r, s.ret t r = s' → False := by
    intro r heq
    rw [← heq, State.ret, State.setThread, List.getElem?_set_self hlt] at ht
    cases ht
  unfold State.receive at h
  split at h
  case isTrue => exact (hself _ (Option.some.inj h)).elim
  case isFalse =>
    split at h
    case isTrue => cases h
    case isFalse =>
      split at h
      case h_1 => exact (hself _ (Option.some.inj h)).elim
      case h_2 k sl hl =>
        rw [← Option.some.inj h, State.setThread, State.setSlot, List.getElem?_set_self hlt] at ht
        obtain ⟨rfl, rfl⟩ := Thread.receive.inj (Option.some.inj ht)
        exact ⟨sl, hl, rfl⟩

/-- A `try_receive` that returns a message took it from the queue its id is accepted for. -/
theorem tryReceive_takes {t : Nat} {id : BitVec w} {msg : α}
    (h : s.next (.tryReceive t id) = some s')
    (ht : s'.threads[t]? = some (.idle (.received (some msg)))) :
    ∃ i sl, s.lookup id = some (i, sl) ∧ s'.subscriptions = s.subscriptions.modify sl.owner
      (fun sub => { sub with received := sub.received ++ [msg] }) := by
  obtain ⟨⟨last, hidle⟩, h⟩ := call_eq_some h
  have hlt := (List.getElem?_eq_some_iff.mp hidle).1
  have hself : s.ret t (.received none) = s' → False := by
    intro heq
    rw [← heq, State.ret, State.setThread, List.getElem?_set_self hlt] at ht
    cases ht
  unfold State.tryReceive at h
  split at h
  case isTrue => exact (hself (Option.some.inj h)).elim
  case isFalse =>
    split at h
    case isTrue => cases h
    case isFalse =>
      split at h
      case h_1 => exact (hself (Option.some.inj h)).elim
      case h_2 k sl hl =>
        split at h
        case h_1 => exact (hself (Option.some.inj h)).elim
        case h_2 msg' rest hq =>
          have hs' := Option.some.inj h
          have hthreads : s'.threads = s.threads.set t (.idle (.received (some msg'))) := by
            rw [← hs']
            rfl
          rw [hthreads, List.getElem?_set_self hlt] at ht
          injection ht with ht
          injection ht with ht
          injection ht with ht
          obtain rfl := Option.some.inj ht
          exact ⟨k, sl, hl, by rw [← hs']; rfl⟩

/-- Every subscriber of a topic receives, in order and each at most once, messages
published while it was subscribed, and misses only those its queue had no room for; no
call returns a message that was meant for another owner of the slot. -/
theorem signal_delivery {this : BitVec w} {capacity : Nat} {mutexValid : Bool}
    {queues : List Bool} (hm : 0 < modulus w queues.length)
    (hr : (signalMachine this capacity mutexValid queues).Reachable s) : DeliveryOk s := by
  obtain ⟨htopic, hrecv, hdel, hret⟩ := DeliveryAll.reachable hm hr
  constructor
  case subsequence =>
    intro j sub hj
    have hok := hdel.sub j sub hj
    obtain ⟨late, hwin, -⟩ := hok.window_eq
    have haccepted : (sub.accepted s.capacity).Sublist (sub.sends.map Send.msg) :=
      List.filter_sublist.map Send.msg
    rw [← hwin]
    exact (hok.received.sublist.trans haccepted).trans (List.sublist_append_left _ _)
  case offered =>
    intro j sub hj
    obtain ⟨late, hwin, hlate⟩ := (hdel.sub j sub hj).window_eq
    refine ⟨late, hwin, ?_⟩
    rcases hlate with hnil | ⟨-, rfl⟩
    · exact .inl hnil
    · exact unsent_cases sub.slot
  case missing =>
    intro j sub hj
    have hok := hdel.sub j sub hj
    refine ⟨fun x hx => Nat.lt_or_eq_of_le (hok.found x hx), hok.received, fun hlive => ?_⟩
    obtain ⟨sl, hsl, -, -⟩ := htopic.owns hj hlive
    exact ⟨sl, hsl, hok.queued hlive sl hsl⟩
  case calls =>
    intro t i j id s' hs ht
    obtain ⟨sl, hl, rfl⟩ := receive_waits hs ht
    exact htopic.live_of_lookup hm hl
  case refused =>
    intro t i j th ht hth
    obtain ⟨sl, hsl, huse, howner⟩ := hrecv.owner t th i j ht hth
    obtain ⟨sub, hsub, hlive, hslot⟩ := htopic.live_of_owns ⟨sl, hsl, huse, howner⟩
    refine ⟨sub, hsub, hlive, hslot, fun hv hmu u => ?_⟩
    obtain ⟨sl', hl, -⟩ := htopic.lookup_live hm hsub hlive
    obtain rfl : sl = sl' := Option.some.inj (hsl.symm.trans (hslot ▸ lookup_slot hl))
    have hpos : sl.receivers ≠ 0 := by
      have hposTally : 0 < tally (Thread.receiving i) s.threads :=
        tally_pos_iff.mpr ⟨t, th, ht, by rw [receiving_some hth, if_pos rfl]; exact Nat.one_pos⟩
      rw [hrecv.receivers i sl hsl]
      omega
    simp [State.unsubscribe, hv, hmu, hl, hpos]
  case returned => exact hret
  case tried =>
    intro t id msg s' hs ht
    obtain ⟨i, sl, hl, hsubs⟩ := tryReceive_takes hs ht
    obtain ⟨sub, hsub, hlive, -, hid⟩ := htopic.live_of_lookup hm hl
    refine ⟨sl.owner, sub, { sub with received := sub.received ++ [msg] }, hsub, hlive, hid,
      ?_, rfl⟩
    rw [hsubs, List.getElem?_modify_eq, hsub]
    rfl

/-- Two publishes before the first owner of the slot gives it up, one of which it has
received; two after the slot was taken again, the second while its one-message queue is
full and its owner is waiting for the first. -/
theorem signal_delivery_reused :
    ∃ s : State 64 Nat, s.published = [11, 12, 13, 14] ∧
      s.subscriptions.map (fun sub => (sub.start, sub.stop, sub.received)) =
        [(0, some 2, [11]), (2, none, [13])] ∧
      s.threads = [.idle (.bool false), .settle 0 1 (some 13)] ∧ DeliveryOk s := by
  let this : BitVec 64 := 0x20001000
  let schedule : List (Action 64 Nat) :=
    [.spawn, .spawn, .subscribe 0, .advance 0 true, .publish 0 11, .advance 0 true, .advance 0 true,
      .tryReceive 1 (encodeSubscriberId this 1 0 0), .publish 0 12, .advance 0 true,
      .advance 0 true, .unsubscribe 0 (encodeSubscriberId this 1 0 0), .subscribe 0,
      .advance 0 true, .advance 0 true,
      .receive 1 (encodeSubscriberId this 1 0 1), .publish 0 13, .advance 0 true, .advance 0 true,
      .publish 0 14, .advance 0 true, .advance 1 true, .advance 0 true,
      .unsubscribe 0 (encodeSubscriberId this 1 0 1)]
  have hview : ((signalMachine this 1 true [true]).run (.create this 1 true [true]) schedule).map
      (fun s => decide (s.published = [11, 12, 13, 14] ∧
        s.subscriptions.map (fun sub => (sub.start, sub.stop, sub.received)) =
          [(0, some 2, [11]), (2, none, [13])] ∧
        s.threads = [.idle (.bool false), .settle 0 1 (some 13)])) = some true := by
    decide +kernel
  obtain ⟨s, hrun, hres⟩ := Option.map_eq_some_iff.mp hview
  obtain ⟨hpub, hsubs, hthreads⟩ := of_decide_eq_true hres
  exact ⟨s, hpub, hsubs, hthreads, signal_delivery (by decide) (.of_run hrun)⟩

end MicrOsal.Signal
