import MicrOsal.Signal.Steps

/-!
# MicrOsal.Signal.Subscribers

Which ids a topic accepts.

The part of the state that decides about ids is a table of its own (`IdTable`),
in which slots are only taken and given up: every step of the topic is a step of
the table (`Step.ids`). `IdTable.Inv` says that an id, once issued, keeps the
distance in generations from its slot that the removals since then have made, so
it is accepted again exactly when the generations have gone round.
-/

namespace MicrOsal.Signal

variable {w : Nat} {α : Type} {s s' : State w α}

/-! ### The table of ids -/

/-- What of a slot decides about ids. -/
structure IdSlot (w : Nat) where
  generation : BitVec w
  inUse : Bool
  unsubscribed : Nat
  owner : Nat

/-- What of a subscription decides about ids. -/
structure IdSub (w : Nat) where
  slot : Nat
  id : BitVec w
  round : Nat
  live : Bool

/-- The slots and subscriptions of a topic as far as ids go. -/
structure IdTable (w : Nat) where
  this : BitVec w
  slots : List (IdSlot w)
  subs : List (IdSub w)
  count : BitVec w

def SubscriberSlot.ids (sl : SubscriberSlot w α) : IdSlot w :=
  ⟨sl.generation, sl.inUse, sl.unsubscribed, sl.owner⟩

def Subscription.ids (sub : Subscription w α) : IdSub w :=
  ⟨sub.slot, sub.id, sub.round, sub.stop.isNone⟩

def State.ids (s : State w α) : IdTable w :=
  ⟨s.this, s.slots.map SubscriberSlot.ids, s.subscriptions.map Subscription.ids, s.subscriberCount⟩

namespace IdTable

/-- A slot is given up. -/
def unsubscribe (T : IdTable w) (i : Nat) (sl : IdSlot w) : IdTable w :=
  { T with
    slots := T.slots.set i ⟨advanceSubscriberGeneration T.this T.slots.length i sl.generation,
      false, sl.unsubscribed + 1, sl.owner⟩
    subs := T.subs.modify sl.owner (fun sub => { sub with live := false })
    count := T.count - 1 }

/-- A slot is taken. -/
def register (T : IdTable w) (i : Nat) (sl : IdSlot w) : IdTable w :=
  let (generation, newId) := ensureSubscriberId T.this T.slots.length i sl.generation
  { T with
    slots := T.slots.set i ⟨generation, true, sl.unsubscribed, T.subs.length⟩
    subs := T.subs ++ [⟨i, newId, sl.unsubscribed, true⟩]
    count := T.count + 1 }

/-- What a step of the topic can do to the table. -/
inductive Step (T : IdTable w) : IdTable w → Prop
  | same : Step T T
  | unsubscribe {i : Nat} {sl : IdSlot w} :
      T.slots[i]? = some sl → sl.inUse = true → Step T (T.unsubscribe i sl)
  | register {i : Nat} {sl : IdSlot w} :
      T.slots[i]? = some sl → sl.inUse = false →
      (ensureSubscriberId T.this T.slots.length i sl.generation).2 ≠ invalidSubscriberId →
      Step T (T.register i sl)

/-- Subscription `j` holds an id of its slot, made with generation `g`. -/
structure Issued (this : BitVec w) (n j : Nat) (sub : IdSub w) (sl : IdSlot w) (g : BitVec w) :
    Prop where
  ok : GenerationOk this n sub.slot g
  id : sub.id = encodeSubscriberId this n sub.slot g
  round : sub.round ≤ sl.unsubscribed
  /-- Every removal since has advanced the slot's generation once. -/
  generation : sl.generation.toNat =
    (skipNext (modulus w n) (excludedGeneration this n sub.slot))^[sl.unsubscribed - sub.round]
      g.toNat
  live : sub.live = true ↔ sub.round = sl.unsubscribed
  current : sub.live = true → sl.inUse = true ∧ sl.owner = j

structure Inv (T : IdTable w) : Prop where
  lt : ∀ (i : Nat) (sl : IdSlot w), T.slots[i]? = some sl →
    sl.generation.toNat < modulus w T.slots.length
  ok : ∀ (i : Nat) (sl : IdSlot w), T.slots[i]? = some sl →
    sl.inUse = true ∨ 0 < sl.unsubscribed → GenerationOk T.this T.slots.length i sl.generation
  owner : ∀ (i : Nat) (sl : IdSlot w), T.slots[i]? = some sl → sl.inUse = true →
    ∃ sub, T.subs[sl.owner]? = some sub ∧ sub.slot = i ∧ sub.live = true
  issued : ∀ (j : Nat) (sub : IdSub w), T.subs[j]? = some sub →
    ∃ sl g, T.slots[sub.slot]? = some sl ∧ Issued T.this T.slots.length j sub sl g
  count : T.count = BitVec.ofNat w (T.slots.countP (·.inUse))

variable {T T' : IdTable w} {i : Nat} {sl : IdSlot w}

theorem lt_length {l : List (IdSlot w)} (h : l[i]? = some sl) : i < l.length :=
  (List.getElem?_eq_some_iff.mp h).1

/-- The slot is given up: the id is one generation further behind. -/
theorem Issued.advance {this : BitVec w} {n j : Nat} {sub : IdSub w} {g : BitVec w} (hn : 0 < n)
    (hm : 0 < modulus w n) (hi : sub.slot < n) (hlt : sl.generation.toNat < modulus w n)
    (h : Issued this n j sub sl g) :
    Issued this n j { sub with live := false }
      ⟨advanceSubscriberGeneration this n sub.slot sl.generation, false, sl.unsubscribed + 1,
        sl.owner⟩ g := by
  have hround := h.round
  refine ⟨h.ok, h.id, Nat.le_succ_of_le hround, ?_, ?_, fun hlive => nomatch hlive⟩
  · rw [advance_toNat hn hm hi hlt, h.generation, Nat.succ_sub hround, Function.iterate_succ_apply']
  · constructor
    · intro hlive
      cases hlive
    · intro heq
      have heq : sub.round = sl.unsubscribed + 1 := heq
      omega

theorem Inv.unsubscribe (h : T.Inv) (hm : 0 < modulus w T.slots.length)
    (hsl : T.slots[i]? = some sl) (huse : sl.inUse = true) : (T.unsubscribe i sl).Inv := by
  have hi : i < T.slots.length := lt_length hsl
  have hn : 0 < T.slots.length := by omega
  have hlt := h.lt i sl hsl
  obtain ⟨sub₀, hsub₀, hslot₀, hlive₀⟩ := h.owner i sl hsl huse
  have hadv := (h.ok i sl hsl (.inl huse)).advance hn hm hi
  constructor
  case lt =>
    intro k sk hk
    simp only [IdTable.unsubscribe, List.length_set] at hk ⊢
    rcases getElem?_set_cases hk with ⟨rfl, rfl⟩ | ⟨-, hk⟩
    · exact hadv.lt
    · exact h.lt k sk hk
  case ok =>
    intro k sk hk hused
    simp only [IdTable.unsubscribe, List.length_set] at hk ⊢
    rcases getElem?_set_cases hk with ⟨rfl, rfl⟩ | ⟨-, hk⟩
    · exact hadv
    · exact h.ok k sk hk hused
  case owner =>
    intro k sk hk hused
    simp only [IdTable.unsubscribe] at hk ⊢
    rcases getElem?_set_cases hk with ⟨rfl, rfl⟩ | ⟨hne, hk⟩
    · cases hused
    · obtain ⟨sub, hsub, hslot, hlive⟩ := h.owner k sk hk hused
      -- The owner of another slot is another subscription.
      have hother : sl.owner ≠ sk.owner := by
        intro heq
        rw [← heq, hsub₀] at hsub
        obtain rfl := Option.some.inj hsub
        exact hne (hslot.symm.trans hslot₀)
      exact ⟨sub, by rwa [List.getElem?_modify_ne _ _ hother], hslot, hlive⟩
  case issued =>
    intro j sub hj
    simp only [IdTable.unsubscribe, List.length_set] at hj ⊢
    rcases getElem?_modify_cases hj with ⟨rfl, sub', hsub', rfl⟩ | ⟨hne, hsub'⟩
    · obtain rfl : sub₀ = sub' := Option.some.inj (hsub₀.symm.trans hsub')
      obtain ⟨sl', g, hsl', his⟩ := h.issued _ sub₀ hsub₀
      subst hslot₀
      obtain rfl : sl = sl' := Option.some.inj (hsl.symm.trans hsl')
      exact ⟨_, g, List.getElem?_set_self hi, his.advance hn hm hi hlt⟩
    · obtain ⟨sl', g, hsl', his⟩ := h.issued j sub hsub'
      by_cases hslot : sub.slot = i
      · subst hslot
        obtain rfl : sl = sl' := Option.some.inj (hsl.symm.trans hsl')
        have hdead : sub.live = false := by
          by_contra hlive
          exact hne (his.current (by simpa using hlive)).2.symm
        have hadvanced := his.advance hn hm hi hlt
        rw [show { sub with live := false } = sub by rw [← hdead]] at hadvanced
        exact ⟨_, g, List.getElem?_set_self hi, hadvanced⟩
      · exact ⟨sl', g, by rwa [List.getElem?_set_ne (Ne.symm hslot)], his⟩
  case count =>
    have hcount := countP_set (b := ⟨advanceSubscriberGeneration T.this T.slots.length i
      sl.generation, false, sl.unsubscribed + 1, sl.owner⟩) (fun sl : IdSlot w => sl.inUse) hsl
    simp only [huse, if_true, Bool.false_eq_true, if_false, Nat.add_zero] at hcount
    simp only [IdTable.unsubscribe]
    rw [h.count, ← hcount, BitVec.ofNat_add]
    exact BitVec.add_sub_cancel _ _

theorem Inv.register (h : T.Inv) (hm : 0 < modulus w T.slots.length)
    (hsl : T.slots[i]? = some sl) (hfree : sl.inUse = false)
    (hne : (ensureSubscriberId T.this T.slots.length i sl.generation).2 ≠ invalidSubscriberId) :
    (T.register i sl).Inv := by
  have hi : i < T.slots.length := lt_length hsl
  have hn : 0 < T.slots.length := by omega
  obtain ⟨hid, hvalid, -, hkeep⟩ := ensure_spec T.this hn hm hi (h.lt i sl hsl)
  have hok := hvalid hne
  constructor
  case lt =>
    intro k sk hk
    simp only [IdTable.register, List.length_set] at hk ⊢
    rcases getElem?_set_cases hk with ⟨rfl, rfl⟩ | ⟨-, hk⟩
    · exact hok.lt
    · exact h.lt k sk hk
  case ok =>
    intro k sk hk hused
    simp only [IdTable.register, List.length_set] at hk ⊢
    rcases getElem?_set_cases hk with ⟨rfl, rfl⟩ | ⟨-, hk⟩
    · exact hok
    · exact h.ok k sk hk hused
  case owner =>
    intro k sk hk hused
    simp only [IdTable.register] at hk ⊢
    rcases getElem?_set_cases hk with ⟨rfl, rfl⟩ | ⟨-, hk⟩
    · exact ⟨_, List.getElem?_concat_length, rfl, rfl⟩
    · obtain ⟨sub, hsub, hslot, hlive⟩ := h.owner k sk hk hused
      exact ⟨sub, by rwa [List.getElem?_append_left (List.getElem?_eq_some_iff.mp hsub).1],
        hslot, hlive⟩
  case issued =>
    intro j sub hj
    simp only [IdTable.register, List.length_set] at hj ⊢
    rcases getElem?_concat_cases hj with hj | ⟨rfl, rfl⟩
    · obtain ⟨sl', g, hsl', his⟩ := h.issued j sub hj
      by_cases hslot : sub.slot = i
      · subst hslot
        obtain rfl : sl = sl' := Option.some.inj (hsl.symm.trans hsl')
        -- The slot was free, so the subscription has ended and the generation may be used.
        have hdead : ¬ sub.live = true := by
          intro hlive
          rw [(his.current hlive).1] at hfree
          cases hfree
        have hround : sub.round ≠ sl.unsubscribed := fun heq => hdead (his.live.mpr heq)
        have hle := his.round
        have hsame := hkeep (h.ok _ sl hsl (.inr (by omega)))
        refine ⟨_, g, List.getElem?_set_self hi, his.ok, his.id, his.round, ?_, his.live,
          fun hlive => absurd hlive hdead⟩
        rw [hsame]
        exact his.generation
      · exact ⟨sl', g, by rwa [List.getElem?_set_ne (Ne.symm hslot)], his⟩
    · exact ⟨_, _, List.getElem?_set_self hi, hok, hid, le_rfl, by simp, by simp,
        fun _ => ⟨rfl, rfl⟩⟩
  case count =>
    have hcount := countP_set (b := ⟨(ensureSubscriberId T.this T.slots.length i
      sl.generation).1, true, sl.unsubscribed, T.subs.length⟩) (fun sl : IdSlot w => sl.inUse) hsl
    simp only [hfree, if_true, Bool.false_eq_true, if_false, Nat.add_zero] at hcount
    simp only [IdTable.register]
    rw [h.count, hcount, BitVec.ofNat_add]
    rfl

theorem Inv.step (h : T.Inv) (hm : 0 < modulus w T.slots.length) (hs : T.Step T') : T'.Inv := by
  cases hs with
  | same => exact h
  | unsubscribe hsl huse => exact h.unsubscribe hm hsl huse
  | register hsl hfree hne => exact h.register hm hsl hfree hne

end IdTable

/-! ### Steps of the topic as steps of the table -/

theorem ids_setSlot {i : Nat} {sl sl' : SubscriberSlot w α} (hsl : s.slots[i]? = some sl)
    (hids : sl'.ids = sl.ids) : (s.setSlot i sl').ids = s.ids := by
  simp only [State.ids, State.setSlot, map_set_of_eq hsl hids]

theorem ids_record {j : Nat} {f : Subscription w α → Subscription w α}
    (hf : ∀ sub, (f sub).ids = sub.ids) : (s.record j f).ids = s.ids := by
  simp only [State.ids, State.record, map_modify_of_eq hf]

theorem ids_setThread {t : Nat} {th : Thread w α} : (s.setThread t th).ids = s.ids := rfl

theorem ids_take {i j : Nat} {sl : SubscriberSlot w α} {rest : List α} {msg : α}
    (hsl : s.slots[i]? = some sl) : (s.take i sl rest j msg).ids = s.ids := by
  rw [State.take, ids_record]
  · exact ids_setSlot hsl rfl
  · exact fun sub => rfl

theorem ids_slot {i : Nat} {sl : SubscriberSlot w α} (hsl : s.slots[i]? = some sl) :
    s.ids.slots[i]? = some sl.ids := by
  rw [State.ids, List.getElem?_map, hsl]
  rfl

theorem ids_slots_length : s.ids.slots.length = s.maxSubscribers := by
  rw [State.ids, List.length_map, State.maxSubscribers]

/-- An id is accepted for the slot in use whose generation it was made with. -/
theorem lookup_iff (h : s.ids.Inv) (hm : 0 < modulus w s.maxSubscribers) {id : BitVec w} {i : Nat}
    {sl : SubscriberSlot w α} :
    s.lookup id = some (i, sl) ↔ s.slots[i]? = some sl ∧ sl.inUse = true ∧
      id = encodeSubscriberId s.this s.maxSubscribers i sl.generation := by
  have hgen : ∀ (k : Nat) (sk : SubscriberSlot w α), s.slots[k]? = some sk →
      sk.generation.toNat < modulus w s.maxSubscribers := by
    intro k sk hk
    rw [← ids_slots_length]
    exact h.lt k sk.ids (ids_slot hk)
  constructor
  · intro hl
    have hsl := lookup_slot hl
    have hi : i < s.maxSubscribers := (List.getElem?_eq_some_iff.mp hsl).1
    simp only [State.lookup] at hl
    split at hl
    case h_1 => cases hl
    case h_2 sl' hsl' =>
      split at hl
      case isTrue hmatch =>
        obtain ⟨hi', rfl⟩ := Prod.mk.inj (Option.some.inj hl)
        rw [hi'] at hmatch
        obtain ⟨huse, -, hid⟩ :=
          (matches_iff (Nat.zero_lt_of_lt hi) hm hi (hgen i _ hsl)).mp hmatch
        exact ⟨hsl, huse, hid⟩
      case isFalse => cases hl
  · intro hl
    obtain ⟨hsl, huse, hid⟩ := hl
    have hi : i < s.maxSubscribers := (List.getElem?_eq_some_iff.mp hsl).1
    have hn : 0 < s.maxSubscribers := Nat.zero_lt_of_lt hi
    have hok : GenerationOk s.this s.maxSubscribers i sl.generation := by
      rw [← ids_slots_length]
      exact h.ok i sl.ids (ids_slot hsl) (.inl huse)
    have hne := hok.encode_ne hn hm hi
    have hmatch := (matches_iff hn hm hi hok.lt).mpr ⟨huse, hid ▸ hne, hid⟩
    have hindex : slotIndexFromId s.this s.maxSubscribers id = i := by
      rw [hid]
      exact slotIndexFromId_encode hm hi hok.lt hne
    simp only [State.lookup, hindex, hsl, hmatch, if_true]

theorem lookup_inUse {id : BitVec w} {i : Nat} {sl : SubscriberSlot w α}
    (h : s.lookup id = some (i, sl)) : sl.inUse = true := by
  simp only [State.lookup] at h
  split at h
  case h_1 => cases h
  case h_2 sl' hsl =>
    split at h
    case isTrue hmatch =>
      obtain ⟨-, rfl⟩ := Prod.mk.inj (Option.some.inj h)
      rw [subscriberIdMatchesSlot] at hmatch
      split at hmatch
      case isTrue => cases hmatch
      case isFalse hcheck =>
        simp only [not_or, not_not] at hcheck
        exact hcheck.2.1
    case isFalse => cases h

theorem register_frame (t i : Nat) (sl : SubscriberSlot w α) :
    (s.register t i sl).mutex = none ∧ (s.register t i sl).mutexValid = s.mutexValid ∧
      (s.register t i sl).capacity = s.capacity ∧ (s.register t i sl).published = s.published := by
  simp only [State.register]
  split
  case isTrue => exact ⟨rfl, rfl, rfl, rfl⟩
  case isFalse => exact ⟨rfl, rfl, rfl, rfl⟩

/-- The slot has been given out, with the id `newId`. -/
structure Registers (s : State w α) (t i : Nat) (sl : SubscriberSlot w α) (newId : BitVec w)
    (s' : State w α) : Prop where
  valid : newId ≠ invalidSubscriberId
  ensured : (ensureSubscriberId s.this s.maxSubscribers i sl.generation).2 = newId
  threads : s'.threads = s.threads.set t (.idle (.subscribed true newId))
  ids : s'.ids = s.ids.register i sl.ids
  slots : s'.slots = s.slots.set i { sl with
    generation := (ensureSubscriberId s.this s.maxSubscribers i sl.generation).1
    inUse := true
    owner := s.subscriptions.length }
  subscriptions : s'.subscriptions =
    s.subscriptions ++ [⟨i, newId, sl.unsubscribed, s.published.length, none, [], []⟩]

/-- A free slot is given out; or it has no id to give and nothing happens to it. -/
theorem register_cases (h : s.ids.Inv) (hm : 0 < modulus w s.maxSubscribers) {i : Nat}
    {sl : SubscriberSlot w α} (hsl : s.slots[i]? = some sl) (t : Nat) :
    (∃ newId, Registers s t i sl newId (s.register t i sl)) ∨
      ((ensureSubscriberId s.this s.maxSubscribers i sl.generation).2 = invalidSubscriberId ∧
        (s.register t i sl).threads =
          s.threads.set t (.idle (.subscribed false invalidSubscriberId)) ∧
        (s.register t i sl).slots = s.slots.set i { sl with generation := sl.generation } ∧
        (s.register t i sl).ids = s.ids ∧
        (s.register t i sl).subscriptions = s.subscriptions) := by
  have hi : i < s.maxSubscribers := (List.getElem?_eq_some_iff.mp hsl).1
  have hn : 0 < s.maxSubscribers := Nat.zero_lt_of_lt hi
  have hlt : sl.generation.toNat < modulus w s.maxSubscribers := by
    rw [← ids_slots_length]
    exact h.lt i sl.ids (ids_slot hsl)
  obtain ⟨-, -, hfail, -⟩ := ensure_spec s.this hn hm hi hlt
  by_cases hid : (ensureSubscriberId s.this s.maxSubscribers i sl.generation).2 =
      invalidSubscriberId
  · right
    have hregister : s.register t i sl = ((s.setSlot i { sl with
        generation := sl.generation }).setMutex none).ret t
          (.subscribed false invalidSubscriberId) := by
      simp only [State.register, if_pos hid, hfail hid]
    rw [hregister]
    exact ⟨hid, rfl, rfl, ids_setSlot hsl rfl, rfl⟩
  · left
    refine ⟨(ensureSubscriberId s.this s.maxSubscribers i sl.generation).2, hid, rfl, ?_, ?_, ?_,
      ?_⟩
    all_goals simp only [State.register, if_neg hid]
    · rfl
    · simp only [State.ids, IdTable.register, State.ret, State.setThread, State.setSlot,
        List.map_set, List.map_append, List.length_map]
      rfl
    · rfl
    · rfl

/-- With two generations to choose from, a free slot is always given out. -/
theorem register_succeeds (h : s.ids.Inv) (hm : 2 ≤ modulus w s.maxSubscribers) {i : Nat}
    {sl : SubscriberSlot w α} (hsl : s.slots[i]? = some sl) (t : Nat) :
    ∃ newId, Registers s t i sl newId (s.register t i sl) := by
  have hi : i < s.maxSubscribers := (List.getElem?_eq_some_iff.mp hsl).1
  have hlt : sl.generation.toNat < modulus w s.maxSubscribers := by
    rw [← ids_slots_length]
    exact h.lt i sl.ids (ids_slot hsl)
  rcases register_cases h (by omega) hsl t with hreg | ⟨hid, -⟩
  · exact hreg
  · exact absurd hid (ensure_ne s.this (Nat.zero_lt_of_lt hi) hm hi hlt)

/-- Every step of the topic is one of the table of ids. -/
theorem Step.ids {a : Action w α} (hs : Step s a s') (hlock : LockInv s) (h : s.ids.Inv)
    (hm : 0 < modulus w s.maxSubscribers) : s.ids.Step s'.ids := by
  -- Queues, counts of receivers, threads and the mutex do not show in the table.
  have same : ∀ {T : IdTable w}, T = s.ids → s.ids.Step T := fun heq => heq ▸ .same
  cases hs with
  | spawn => exact .same
  | returns r ht => exact .same
  | subscribe ht hv hmu hi => exact .same
  | purge ht hsl hq =>
      apply same
      exact ids_setSlot hsl rfl
  | @register t i sl ht hsl hq =>
      obtain ⟨-, sl', hsl', hfree⟩ := hlock t _ ht
      obtain rfl : sl = sl' := Option.some.inj (hsl.symm.trans hsl')
      rcases register_cases h hm hsl t with ⟨newId, hreg⟩ | ⟨-, -, -, hids, -⟩
      · rw [hreg.ids]
        refine .register (ids_slot hsl) hfree.1 ?_
        rw [ids_slots_length]
        exact hreg.ensured ▸ hreg.valid
      · exact same hids
  | @unsubscribe t i last id sl ha ht hmu hl hr =>
      have hstep := IdTable.Step.unsubscribe (ids_slot (lookup_slot hl)) (lookup_inUse hl)
      convert hstep using 1
      simp only [State.ids, IdTable.unsubscribe, State.ret, State.setThread, State.record,
        State.setSlot, List.map_set, List.length_map]
      congr 1
      exact map_modify (fun sub => rfl)
  | publish msg ht hmu => exact .same
  | published ht hsl => exact .same
  | skip ht hsl huse => exact .same
  | @send t i msg any sl ht hsl huse hroom =>
      apply same
      show ((s.setSlot i _).record sl.owner _).ids = s.ids
      rw [ids_record]
      · exact ids_setSlot hsl rfl
      · exact fun sub => rfl
  | full ht hsl huse hroom =>
      apply same
      rw [ids_setThread, ids_record]
      exact fun sub => rfl
  | tryReceive ht hl hq =>
      apply same
      exact ids_take (lookup_slot hl)
  | receive ht hl =>
      apply same
      exact ids_setSlot (lookup_slot hl) rfl
  | taken ht hsl hq =>
      apply same
      exact ids_take hsl
  | givesUp ht => exact .same
  | settle ht hsl hmu =>
      apply same
      exact ids_setSlot hsl rfl

/-- The invariants of a topic with `n` slots at address `this`. -/
structure TopicInv (this : BitVec w) (n : Nat) (s : State w α) : Prop where
  this : s.this = this
  slots : s.maxSubscribers = n
  lock : LockInv s
  ids : s.ids.Inv

theorem IdTable.Step.frame {T T' : IdTable w} (h : T.Step T') :
    T'.this = T.this ∧ T'.slots.length = T.slots.length := by
  cases h with
  | same => exact ⟨rfl, rfl⟩
  | unsubscribe hsl huse => exact ⟨rfl, List.length_set ..⟩
  | register hsl hfree hne => exact ⟨rfl, List.length_set ..⟩

theorem TopicInv.step {this : BitVec w} {n : Nat} {a : Action w α} (h : TopicInv this n s)
    (hm : 0 < modulus w n) (hs : Step s a s') : TopicInv this n s' := by
  have hms : 0 < modulus w s.maxSubscribers := by rwa [h.slots]
  have hstep := hs.ids h.lock h.ids hms
  obtain ⟨hthis, hlen⟩ := hstep.frame
  constructor
  · exact hthis.trans h.this
  · rw [← ids_slots_length, hlen, ids_slots_length, h.slots]
  · exact h.lock.step hs
  · exact h.ids.step (by rwa [ids_slots_length]) hstep

theorem TopicInv.create (this : BitVec w) (capacity : Nat) (mutexValid : Bool) (queues : List Bool)
    (hm : 0 < modulus w queues.length) :
    TopicInv this queues.length (State.create this capacity mutexValid queues : State w α) := by
  have hslot : ∀ (i : Nat) (sl : IdSlot w),
      (State.create this capacity mutexValid queues : State w α).ids.slots[i]? = some sl →
      sl = ⟨0, false, 0, 0⟩ := by
    intro i sl hsl
    simp only [State.ids, State.create, List.map_map, List.getElem?_map] at hsl
    obtain ⟨valid, -, rfl⟩ := Option.map_eq_some_iff.mp hsl
    rfl
  refine ⟨rfl, by simp [State.maxSubscribers, State.create], ?_, ?_⟩
  · intro t th ht
    cases ht
  · constructor
    · intro i sl hsl
      rw [hslot i sl hsl]
      simpa [State.ids, State.create] using hm
    · intro i sl hsl hused
      rw [hslot i sl hsl] at hused
      simp at hused
    · intro i sl hsl huse
      rw [hslot i sl hsl] at huse
      cases huse
    · intro j sub hj
      cases hj
    · have hzero : (State.create this capacity mutexValid queues : State w α).ids.slots.countP
          (·.inUse) = 0 := by
        rw [List.countP_eq_zero]
        intro sl hsl
        obtain ⟨i, hi⟩ := List.mem_iff_getElem?.mp hsl
        simp [hslot i sl hi]
      rw [hzero]
      rfl

theorem TopicInv.reachable {this : BitVec w} {capacity : Nat} {mutexValid : Bool}
    {queues : List Bool} (hm : 0 < modulus w queues.length)
    (h : (signalMachine this capacity mutexValid queues).Reachable s) :
    TopicInv this queues.length s :=
  h.invariant (TopicInv.create this capacity mutexValid queues hm)
    (fun _ _ _ _ hinv hstep => hinv.step hm (.of_next hstep))

/-! ### Live and stale ids -/

/-- After how many removals of a slot its generations have gone round: one less
than the modulus on the slot that has to step over the reserved id. -/
def idPeriod (this : BitVec w) (n i : Nat) : Nat :=
  skipPeriod (modulus w n) (excludedGeneration this n i)

section Ids

variable {this : BitVec w} {n : Nat}

theorem TopicInv.issued (h : TopicInv this n s) {j : Nat} {sub : Subscription w α}
    (hj : s.subscriptions[j]? = some sub) :
    ∃ sl g, s.slots[sub.slot]? = some sl ∧ IdTable.Issued this n j sub.ids sl.ids g := by
  have hids : s.ids.subs[j]? = some sub.ids := by
    rw [State.ids, List.getElem?_map, hj]
    rfl
  obtain ⟨sl', g, hsl', his⟩ := h.ids.issued j sub.ids hids
  rw [ids_slots_length, h.slots] at his
  have hthis : s.ids.this = this := h.this
  rw [hthis] at his
  rw [State.ids, List.getElem?_map] at hsl'
  obtain ⟨sl, hsl, rfl⟩ := Option.map_eq_some_iff.mp hsl'
  exact ⟨sl, g, hsl, his⟩

theorem live_iff {sub : Subscription w α} : sub.ids.live = true ↔ sub.stop = none :=
  Option.isNone_iff_eq_none

/-- The id of a subscription is accepted exactly while its slot is in use and the
removals since it was issued have gone a whole number of times round the
generations. -/
theorem TopicInv.lookup_issued (h : TopicInv this n s) (hm : 0 < modulus w n) {j : Nat}
    {sub : Subscription w α} (hj : s.subscriptions[j]? = some sub) {sl : SubscriberSlot w α}
    (hsl : s.slots[sub.slot]? = some sl) :
    (s.lookup sub.id).isSome = true ↔
      sl.inUse = true ∧ idPeriod this n sub.slot ∣ sl.unsubscribed - sub.round := by
  obtain ⟨sl', g, hsl', his⟩ := h.issued hj
  obtain rfl : sl = sl' := Option.some.inj (hsl.symm.trans hsl')
  have hi : sub.slot < n := by
    rw [← h.slots]
    exact (List.getElem?_eq_some_iff.mp hsl).1
  have hn : 0 < n := Nat.zero_lt_of_lt hi
  have hround : (skipNext (modulus w n) (excludedGeneration this n sub.slot))^[
      sl.unsubscribed - sub.round] g.toNat = g.toNat ↔
        idPeriod this n sub.slot ∣ sl.unsubscribed - sub.round :=
    skipNext_iterate_eq_iff his.ok (fun b hb => excluded_lt hn hm hb) _
  have hgen : sl.generation = g ↔ idPeriod this n sub.slot ∣ sl.unsubscribed - sub.round := by
    rw [← hround, ← BitVec.toNat_inj]
    exact ⟨fun heq => his.generation.symm.trans heq, fun heq => his.generation.trans heq⟩
  rw [← hgen, Option.isSome_iff_exists]
  constructor
  · intro hsome
    obtain ⟨⟨i, sk⟩, hl⟩ := hsome
    obtain ⟨hk, huse, hid⟩ := (lookup_iff h.ids (by rwa [h.slots])).mp hl
    rw [h.this, h.slots] at hid
    have hlt : sk.generation.toNat < modulus w n := by
      have := h.ids.lt i sk.ids (ids_slot hk)
      rwa [ids_slots_length, h.slots] at this
    have hik : i < n := by
      rw [← h.slots]
      exact (List.getElem?_eq_some_iff.mp hk).1
    obtain ⟨rfl, heq⟩ := encode_inj hm hik hi hlt his.ok.lt (hid.symm.trans his.id)
    obtain rfl : sl = sk := Option.some.inj (hsl.symm.trans hk)
    exact ⟨huse, heq⟩
  · intro hcur
    obtain ⟨huse, heq⟩ := hcur
    refine ⟨(sub.slot, sl), (lookup_iff h.ids (by rwa [h.slots])).mpr ⟨hsl, huse, ?_⟩⟩
    rw [h.this, h.slots, heq]
    exact his.id

/-- The id of a live subscription is accepted, for its slot, which it owns. -/
theorem TopicInv.lookup_live (h : TopicInv this n s) (hm : 0 < modulus w n) {j : Nat}
    {sub : Subscription w α} (hj : s.subscriptions[j]? = some sub) (hlive : sub.stop = none) :
    ∃ sl, s.lookup sub.id = some (sub.slot, sl) ∧ sl.owner = j := by
  obtain ⟨sl, g, hsl, his⟩ := h.issued hj
  obtain ⟨huse, howner⟩ := his.current (live_iff.mpr hlive)
  have hround : sub.round = sl.unsubscribed := his.live.mp (live_iff.mpr hlive)
  have hgen : sl.generation = g := by
    apply BitVec.eq_of_toNat_eq
    have hg := his.generation
    simp only [SubscriberSlot.ids, Subscription.ids, hround, Nat.sub_self, Function.iterate_zero,
      id] at hg
    exact hg
  refine ⟨sl, (lookup_iff h.ids (by rwa [h.slots])).mpr ⟨hsl, huse, ?_⟩, howner⟩
  rw [h.this, h.slots, hgen]
  exact his.id

/-- What is accepted is the id of a live subscription. -/
theorem TopicInv.live_of_lookup (h : TopicInv this n s) (hm : 0 < modulus w n) {id : BitVec w}
    {i : Nat} {sl : SubscriberSlot w α} (hl : s.lookup id = some (i, sl)) :
    ∃ sub, s.subscriptions[sl.owner]? = some sub ∧ sub.stop = none ∧ sub.slot = i ∧
      sub.id = id := by
  have hm0 : 0 < modulus w s.maxSubscribers := by rwa [h.slots]
  obtain ⟨hsl, huse, hid⟩ := (lookup_iff h.ids hm0).mp hl
  obtain ⟨sub', hsub', hslot, hlive⟩ := h.ids.owner i sl.ids (ids_slot hsl) huse
  rw [State.ids, List.getElem?_map] at hsub'
  obtain ⟨sub, hsub, rfl⟩ := Option.map_eq_some_iff.mp hsub'
  obtain ⟨sl', hl', -⟩ := h.lookup_live hm hsub (live_iff.mp hlive)
  obtain ⟨hsl', -, hid'⟩ := (lookup_iff h.ids hm0).mp hl'
  have hsame : sub.slot = i := hslot
  rw [hsame] at hsl' hid'
  obtain rfl : sl = sl' := Option.some.inj (hsl.symm.trans hsl')
  exact ⟨sub, hsub, live_iff.mp hlive, hsame, hid'.trans hid.symm⟩

/-- Live ids are distinct. -/
theorem TopicInv.live_inj (h : TopicInv this n s) (hm : 0 < modulus w n) {j j' : Nat}
    {sub sub' : Subscription w α} (hj : s.subscriptions[j]? = some sub)
    (hj' : s.subscriptions[j']? = some sub') (hlive : sub.stop = none) (hlive' : sub'.stop = none)
    (hid : sub.id = sub'.id) : j = j' := by
  obtain ⟨sl, hl, howner⟩ := h.lookup_live hm hj hlive
  obtain ⟨sl', hl', howner'⟩ := h.lookup_live hm hj' hlive'
  rw [hid, hl'] at hl
  obtain ⟨-, rfl⟩ := Prod.mk.inj (Option.some.inj hl)
  exact howner.symm.trans howner'

/-! ### The end of a subscription -/

/-- Every subscription is still recorded, and its records are related by `R`. -/
def SubsRel (R : Subscription w α → Subscription w α → Prop) (s s' : State w α) : Prop :=
  ∀ (j : Nat) (sub : Subscription w α), s.subscriptions[j]? = some sub →
    ∃ sub', s'.subscriptions[j]? = some sub' ∧ R sub sub'

section SubsRel

variable {R : Subscription w α → Subscription w α → Prop} (hR : ∀ sub, R sub sub)
include hR

theorem SubsRel.of_eq (h : s'.subscriptions = s.subscriptions) : SubsRel R s s' := by
  intro j sub hj
  exact ⟨sub, by rw [h, hj], hR sub⟩

theorem SubsRel.of_concat {new : Subscription w α}
    (h : s'.subscriptions = s.subscriptions ++ [new]) : SubsRel R s s' := by
  intro j sub hj
  refine ⟨sub, ?_, hR sub⟩
  rw [h, List.getElem?_append_left (List.getElem?_eq_some_iff.mp hj).1, hj]

theorem SubsRel.of_record {k : Nat} {f : Subscription w α → Subscription w α}
    (h : s'.subscriptions = s.subscriptions.modify k f) (hf : ∀ sub, R sub (f sub)) :
    SubsRel R s s' := by
  intro j sub hj
  rw [h]
  by_cases hkj : k = j
  · subst hkj
    exact ⟨f sub, by rw [List.getElem?_modify_eq, hj]; rfl, hf sub⟩
  · exact ⟨sub, by rw [List.getElem?_modify_ne _ _ hkj, hj], hR sub⟩

end SubsRel

/-- The subscription has not ended meanwhile. -/
def SameStop (sub sub' : Subscription w α) : Prop := sub'.stop = sub.stop

/-- Only a successful `unsubscribe` ends a subscription. -/
theorem Step.stops {a : Action w α} (hs : Step s a s') (h : TopicInv this n s)
    (hm : 0 < modulus w n) :
    SubsRel SameStop s s' ∨ ∃ t id i sl, a = .unsubscribe t id ∧ s.lookup id = some (i, sl) ∧
      s'.threads = s.threads.set t (.idle (.bool true)) ∧
      s'.subscriptions = s.subscriptions.modify sl.owner
        (fun sub => { sub with stop := some s.published.length }) := by
  have hR : ∀ sub : Subscription w α, SameStop sub sub := fun sub => rfl
  cases hs with
  | spawn => exact .inl (.of_eq hR rfl)
  | returns r ht => exact .inl (.of_eq hR rfl)
  | subscribe ht hv hmu hi => exact .inl (.of_eq hR rfl)
  | purge ht hsl hq => exact .inl (.of_eq hR rfl)
  | @register t i sl ht hsl hq =>
      rcases register_cases h.ids (by rwa [h.slots]) hsl t with ⟨newId, hreg⟩ | ⟨-, -, -, -, hsubs⟩
      · exact .inl (.of_concat hR hreg.subscriptions)
      · exact .inl (.of_eq hR hsubs)
  | unsubscribe ha ht hmu hl hr => exact .inr ⟨_, _, _, _, ha, hl, rfl, rfl⟩
  | publish msg ht hmu => exact .inl (.of_eq hR rfl)
  | published ht hsl => exact .inl (.of_eq hR rfl)
  | skip ht hsl huse => exact .inl (.of_eq hR rfl)
  | send ht hsl huse hroom => exact .inl (.of_record hR rfl (fun sub => rfl))
  | full ht hsl huse hroom => exact .inl (.of_record hR rfl (fun sub => rfl))
  | tryReceive ht hl hq => exact .inl (.of_record hR rfl (fun sub => rfl))
  | receive ht hl => exact .inl (.of_eq hR rfl)
  | taken ht hsl hq => exact .inl (.of_record hR rfl (fun sub => rfl))
  | givesUp ht => exact .inl (.of_eq hR rfl)
  | settle ht hsl hmu => exact .inl (.of_eq hR rfl)

/-- An `unsubscribe` that returns true was given an id that is accepted. -/
theorem unsubscribe_true {t : Nat} {id : BitVec w} (h : s.next (.unsubscribe t id) = some s')
    (ht : s'.threads[t]? = some (.idle (.bool true))) :
    ∃ i sl, s.lookup id = some (i, sl) ∧
      s'.subscriptions = s.subscriptions.modify sl.owner
        (fun sub => { sub with stop := some s.published.length }) := by
  obtain ⟨⟨last, hidle⟩, h⟩ := call_eq_some h
  have hself : ∀ {s₁ : State w α}, s₁.threads = s.threads → s₁.ret t (.bool false) = s' →
      False := by
    intro s₁ hsame heq
    rw [← heq] at ht
    simp only [State.ret, State.setThread, hsame] at ht
    rw [List.getElem?_set_self (List.getElem?_eq_some_iff.mp hidle).1] at ht
    cases ht
  unfold State.unsubscribe at h
  split at h
  case isTrue => exact (hself rfl (Option.some.inj h)).elim
  case isFalse =>
    split at h
    case isTrue => cases h
    case isFalse =>
      split at h
      case h_1 => exact (hself rfl (Option.some.inj h)).elim
      case h_2 i sl hl =>
        split at h
        case isTrue => exact (hself rfl (Option.some.inj h)).elim
        case isFalse =>
          rw [← Option.some.inj h]
          exact ⟨i, sl, hl, rfl⟩

/-- A live subscription ends exactly when `unsubscribe` of its id returns true. -/
theorem TopicInv.ends (h : TopicInv this n s) (hm : 0 < modulus w n) {a : Action w α}
    (hs : s.next a = some s') {j : Nat} {sub : Subscription w α}
    (hj : s.subscriptions[j]? = some sub) (hlive : sub.stop = none) :
    ∃ sub', s'.subscriptions[j]? = some sub' ∧
      (sub'.stop ≠ none ↔ ∃ t, a = .unsubscribe t sub.id ∧
        s'.threads[t]? = some (.idle (.bool true))) := by
  obtain ⟨sl₀, hl₀, howner₀⟩ := h.lookup_live hm hj hlive
  rcases (Step.of_next hs).stops h hm with hsame | ⟨t, id, i, sl, rfl, hl, hthreads, hsubs⟩
  · obtain ⟨sub', hj', hstop⟩ := hsame j sub hj
    refine ⟨sub', hj', fun hne => absurd (hstop.trans hlive) hne, ?_⟩
    rintro ⟨t, rfl, ht⟩
    obtain ⟨i, sl, hl, hsubs⟩ := unsubscribe_true hs ht
    rw [hl₀] at hl
    obtain ⟨-, rfl⟩ := Prod.mk.inj (Option.some.inj hl)
    rw [hsubs, howner₀, List.getElem?_modify_eq, hj] at hj'
    rw [← Option.some.inj hj']
    exact Option.some_ne_none _
  · obtain ⟨⟨last, ht⟩, -⟩ := call_eq_some hs
    obtain ⟨owner, hown, hstop, hslot, hid⟩ := h.live_of_lookup hm hl
    by_cases hij : sl.owner = j
    · rw [hij, hj] at hown
      obtain rfl := Option.some.inj hown
      refine ⟨_, by rw [hsubs, hij, List.getElem?_modify_eq, hj]; rfl, ?_⟩
      refine ⟨fun _ => ⟨t, by rw [hid], ?_⟩, fun _ => Option.some_ne_none _⟩
      rw [hthreads, List.getElem?_set_self (List.getElem?_eq_some_iff.mp ht).1]
    · refine ⟨sub, by rw [hsubs, List.getElem?_modify_ne _ _ hij, hj], ?_⟩
      refine ⟨fun hne => absurd hlive hne, ?_⟩
      rintro ⟨t', ha, -⟩
      obtain ⟨-, rfl⟩ := Action.unsubscribe.inj ha
      exact absurd (h.live_inj hm hown hj hstop hlive hid) hij

/-! ### Subscribing -/

/-- A free slot is found exactly when there is one. -/
theorem subscribe_fails_iff (hv : s.valid = true) (hmu : s.mutex = none) (t : Nat) :
    s.subscribe t = some (s.ret t (.subscribed false invalidSubscriberId)) ↔
      ∀ sl ∈ s.slots, sl.inUse = true := by
  unfold State.subscribe
  rw [if_neg (by simp [hv]), if_neg (by simp [hmu])]
  constructor
  · intro h
    split at h
    case h_1 hnone => simpa [List.findIdx?_eq_none_iff] using hnone
    case h_2 i hi =>
      have hmutex := congrArg State.mutex (Option.some.inj h)
      simp [State.setMutex, State.setThread, State.ret, hmu] at hmutex
  · intro hall
    split
    case h_1 => rfl
    case h_2 i hi =>
      obtain ⟨hlt, huse, -⟩ := List.findIdx?_eq_some_iff_getElem.mp hi
      simp [hall _ (List.getElem_mem hlt)] at huse

/-- Once a free slot was found, `subscribe` returns true, after it has purged the queue. -/
theorem TopicInv.subscribe_returns (h : TopicInv this n s) (hm : 2 ≤ modulus w n) {t i : Nat}
    (M : Machine (State w α) (Action w α)) (hM : M.step = State.next)
    (ht : s.threads[t]? = some (.subscribe i)) :
    ∃ k s' newId, M.run s (List.replicate k (.advance t true)) = some s' ∧
      s'.threads[t]? = some (.idle (.subscribed true newId)) ∧ newId ≠ invalidSubscriberId := by
  obtain ⟨-, sl, hsl, -⟩ := h.lock t _ ht
  generalize hq : sl.queue = q
  induction q generalizing s sl with
  | nil =>
      obtain ⟨newId, hreg⟩ := register_succeeds h.ids (by rwa [h.slots]) hsl t
      refine ⟨1, s.register t i sl, newId, ?_, ?_, hreg.valid⟩
      · simp [Machine.run, hM, State.next, ht, State.advance, hsl, hq]
      · rw [hreg.threads, List.getElem?_set_self (List.getElem?_eq_some_iff.mp ht).1]
  | cons msg rest ih =>
      by_cases hv : sl.queueValid = true
      · have hstep : s.next (.advance t true) = some (s.setSlot i { sl with queue := rest }) := by
          simp [State.next, ht, State.advance, hsl, hq, hv]
        have hnext : TopicInv this n (s.setSlot i { sl with queue := rest }) :=
          h.step (by omega) (.of_next hstep)
        obtain ⟨k, s', newId, hrun, hres⟩ := ih hnext ht _
          (List.getElem?_set_self (List.getElem?_eq_some_iff.mp hsl).1) rfl
        refine ⟨k + 1, s', newId, ?_, hres⟩
        rw [List.replicate_succ, Machine.run, hM, hstep]
        exact hrun
      · obtain ⟨newId, hreg⟩ := register_succeeds h.ids (by rwa [h.slots]) hsl t
        refine ⟨1, s.register t i sl, newId, ?_, ?_, hreg.valid⟩
        · simp [Machine.run, hM, State.next, ht, State.advance, hsl, hv]
        · rw [hreg.threads, List.getElem?_set_self (List.getElem?_eq_some_iff.mp ht).1]

end Ids

/-! ### What callers can rely on -/

/-- How often the slot of an ended subscription has been unsubscribed since. -/
def Subscription.further (sub : Subscription w α) (sl : SubscriberSlot w α) : Nat :=
  sl.unsubscribed - (sub.round + 1)

/-- The three calls that take an id agree with `lookup` on it. -/
structure CallsOk (s : State w α) : Prop where
  rejects : ∀ (id : BitVec w) (t : Nat), s.lookup id = none →
    s.unsubscribe t id = some (s.ret t (.bool false)) ∧
    s.tryReceive t id = some (s.ret t (.received none)) ∧
    s.receive t id = some (s.ret t (.received none))
  unsubscribes : ∀ (id : BitVec w) (t i : Nat) (sl : SubscriberSlot w α),
    s.lookup id = some (i, sl) → sl.receivers = 0 →
    ∃ s', s.unsubscribe t id = some s' ∧ s'.threads = s.threads.set t (.idle (.bool true))
  takes : ∀ (id : BitVec w) (t i : Nat) (sl : SubscriberSlot w α) (msg : α) (rest : List α),
    s.lookup id = some (i, sl) → sl.queue = msg :: rest →
    ∃ s', s.tryReceive t id = some s' ∧
      s'.threads = s.threads.set t (.idle (.received (some msg)))
  waits : ∀ (id : BitVec w) (t i : Nat) (sl : SubscriberSlot w α), s.lookup id = some (i, sl) →
    ∃ s', s.receive t id = some s' ∧ s'.threads = s.threads.set t (.receive i sl.owner)

theorem callsOk (hv : s.valid = true) (hmu : s.mutex = none) : CallsOk s := by
  constructor
  · intro id t hl
    simp [State.unsubscribe, State.tryReceive, State.receive, hv, hmu, hl]
  · intro id t i sl hl hr
    simp only [State.unsubscribe, hv, hmu, hl, hr]
    exact ⟨_, rfl, rfl⟩
  · intro id t i sl msg rest hl hq
    simp only [State.tryReceive, hv, hmu, hl, hq]
    exact ⟨_, rfl, rfl⟩
  · intro id t i sl hl
    simp only [State.receive, hv, hmu, hl]
    exact ⟨_, rfl, rfl⟩

/-- What holds of subscriber ids in every state of a topic, `M` being its machine. -/
structure IdsOk (M : Machine (State w α) (Action w α)) (s : State w α) : Prop where
  /-- An id decodes to the slot and the generation it was made for. -/
  decodes : ∀ (i : Nat) (g : BitVec w), i < s.maxSubscribers →
    g.toNat < modulus w s.maxSubscribers →
    encodeSubscriberId s.this s.maxSubscribers i g ≠ invalidSubscriberId →
    slotIndexFromId s.this s.maxSubscribers (encodeSubscriberId s.this s.maxSubscribers i g) = i ∧
    generationFromPacked s.maxSubscribers
      (encodeSubscriberId s.this s.maxSubscribers i g ^^^ subscriberCookie s.this) = g
  /-- Every id `subscribe` returned is one of its slot, and not the reserved one. -/
  issued : ∀ (j : Nat) (sub : Subscription w α), s.subscriptions[j]? = some sub →
    sub.slot < s.maxSubscribers ∧ sub.id ≠ invalidSubscriberId ∧
    ∃ g, g.toNat < modulus w s.maxSubscribers ∧
      sub.id = encodeSubscriberId s.this s.maxSubscribers sub.slot g
  /-- Live ids are distinct. -/
  distinct : ∀ (j j' : Nat) (sub sub' : Subscription w α), s.subscriptions[j]? = some sub →
    s.subscriptions[j']? = some sub' → sub.stop = none → sub'.stop = none →
    sub.id = sub'.id → j = j'
  /-- A live id is accepted. -/
  accepted : ∀ (j : Nat) (sub : Subscription w α), s.subscriptions[j]? = some sub →
    sub.stop = none → ∃ sl, s.lookup sub.id = some (sub.slot, sl) ∧ sl.owner = j
  /-- A subscription ends exactly when `unsubscribe` of its id returns true. -/
  ends : ∀ (a : Action w α) (s' : State w α), M.step s a = some s' →
    ∀ (j : Nat) (sub : Subscription w α), s.subscriptions[j]? = some sub → sub.stop = none →
    ∃ sub', s'.subscriptions[j]? = some sub' ∧
      (sub'.stop ≠ none ↔ ∃ t, a = .unsubscribe t sub.id ∧
        s'.threads[t]? = some (.idle (.bool true)))
  /-- An ended id is rejected until its slot has been unsubscribed `modulus - 1` more
  times, or `modulus - 2` times if the slot has to step over the reserved id. -/
  rejected : ∀ (j : Nat) (sub : Subscription w α) (sl : SubscriberSlot w α),
    s.subscriptions[j]? = some sub → sub.stop ≠ none → s.slots[sub.slot]? = some sl →
    (sub.further sl < modulus w s.maxSubscribers - 2 ∨
      (sub.further sl < modulus w s.maxSubscribers - 1 ∧
        ∀ g : BitVec w, g.toNat < modulus w s.maxSubscribers →
          encodeSubscriberId s.this s.maxSubscribers sub.slot g ≠ invalidSubscriberId)) →
    s.lookup sub.id = none
  /-- What is accepted is the id of a live subscription. -/
  live : ∀ (id : BitVec w) (i : Nat) (sl : SubscriberSlot w α), s.lookup id = some (i, sl) →
    ∃ sub, s.subscriptions[sl.owner]? = some sub ∧ sub.stop = none ∧ sub.slot = i ∧ sub.id = id
  /-- `unsubscribe`, `try_receive` and `receive` accept and reject accordingly. -/
  calls : s.valid = true → s.mutex = none → CallsOk s
  /-- `subscriber_count_` counts the slots in use. -/
  count : s.subscriberCount.toNat = s.slots.countP (·.inUse)
  /-- `subscribe` fails exactly when every slot is in use. -/
  full : s.valid = true → s.mutex = none → ∀ t,
    s.subscribe t = some (s.ret t (.subscribed false invalidSubscriberId)) ↔
      ∀ sl ∈ s.slots, sl.inUse = true
  /-- Otherwise it returns true, whatever its caller's steps are interleaved with. -/
  subscribes : ∀ t i : Nat, s.threads[t]? = some (.subscribe i) →
    (∀ (pops : Bool) (s' : State w α), M.step s (.advance t pops) = some s' →
      s'.threads[t]? = some (.subscribe i) ∨
        ∃ newId, s'.threads[t]? = some (.idle (.subscribed true newId))) ∧
    ∃ k s' newId, M.run s (List.replicate k (.advance t true)) = some s' ∧
      s'.threads[t]? = some (.idle (.subscribed true newId)) ∧ newId ≠ invalidSubscriberId

theorem TopicInv.subscribe_step {this : BitVec w} {n : Nat} (h : TopicInv this n s)
    (hm : 2 ≤ modulus w n) {t i : Nat} {pops : Bool} (ht : s.threads[t]? = some (.subscribe i))
    (hs : s.next (.advance t pops) = some s') :
    s'.threads[t]? = some (.subscribe i) ∨
      ∃ newId, s'.threads[t]? = some (.idle (.subscribed true newId)) := by
  obtain ⟨-, sl, hsl, -⟩ := h.lock t _ ht
  obtain ⟨newId, hreg⟩ := register_succeeds h.ids (by rwa [h.slots]) hsl t
  have hreturned : (s.register t i sl).threads[t]? = some (.idle (.subscribed true newId)) := by
    rw [hreg.threads, List.getElem?_set_self (List.getElem?_eq_some_iff.mp ht).1]
  obtain ⟨th, hth, hs⟩ := Option.bind_eq_some_iff.mp hs
  obtain rfl : Thread.subscribe i = th := Option.some.inj (ht.symm.trans hth)
  obtain ⟨sl', hsl', hs⟩ := Option.bind_eq_some_iff.mp hs
  obtain rfl : sl = sl' := Option.some.inj (hsl.symm.trans hsl')
  split at hs
  case isTrue =>
    rw [← Option.some.inj hs]
    exact .inr ⟨newId, hreturned⟩
  case isFalse =>
    split at hs
    case h_1 =>
      rw [← Option.some.inj hs]
      exact .inl ht
    case h_2 =>
      rw [← Option.some.inj hs]
      exact .inr ⟨newId, hreturned⟩

/-- How long an id stays away. -/
theorem le_idPeriod (this : BitVec w) {n i : Nat} (hi : i < n) (hm : 0 < modulus w n) :
    modulus w n - 1 ≤ idPeriod this n i ∧
      ((∀ g : BitVec w, g.toNat < modulus w n →
        encodeSubscriberId this n i g ≠ invalidSubscriberId) →
          modulus w n ≤ idPeriod this n i) := by
  have hn : 0 < n := Nat.zero_lt_of_lt hi
  unfold idPeriod
  cases hex : excludedGeneration this n i with
  | none => exact ⟨Nat.sub_le _ _, fun _ => le_rfl⟩
  | some b =>
      refine ⟨le_rfl, fun hnone => ?_⟩
      have hb := excluded_lt hn hm hex
      have hnat : (BitVec.ofNat w b).toNat = b := by
        have := modulus_lt (w := w) hn
        rw [BitVec.toNat_ofNat, Nat.mod_eq_of_lt (by omega)]
      have hlt : (BitVec.ofNat w b).toNat < modulus w n := by rwa [hnat]
      exact absurd ((excluded_iff hn hm hi hlt).mp (by rw [hex, hnat])) (hnone _ hlt)

theorem TopicInv.stale {this : BitVec w} {n : Nat} (h : TopicInv this n s) (hm : 0 < modulus w n)
    {j : Nat} {sub : Subscription w α} {sl : SubscriberSlot w α}
    (hj : s.subscriptions[j]? = some sub) (hstop : sub.stop ≠ none)
    (hsl : s.slots[sub.slot]? = some sl) (hfew : sub.further sl + 1 < idPeriod this n sub.slot) :
    s.lookup sub.id = none := by
  by_contra hsome
  obtain ⟨sl', g, hsl', his⟩ := h.issued hj
  obtain rfl : sl = sl' := Option.some.inj (hsl.symm.trans hsl')
  have hle : sub.round ≤ sl.unsubscribed := his.round
  have hne : sub.round ≠ sl.unsubscribed := fun heq => hstop (live_iff.mp (his.live.mpr heq))
  obtain ⟨-, hdvd⟩ := (h.lookup_issued hm hj hsl).mp (Option.isSome_iff_ne_none.mpr hsome)
  have hbound := Nat.le_of_dvd (by omega) hdvd
  unfold Subscription.further at hfew
  omega

/-- On a topic whose generations have a modulus of at least 3, whatever its address: ids
decode, live ids are distinct and accepted, ended ids and ids that were never issued are
rejected, and `subscribe` fails only when every slot is in use. -/
theorem signal_ids {this : BitVec w} {capacity : Nat} {mutexValid : Bool} {queues : List Bool}
    (hm : 3 ≤ modulus w queues.length)
    (hr : (signalMachine this capacity mutexValid queues).Reachable s) :
    IdsOk (signalMachine this capacity mutexValid queues) s := by
  have hm0 : 0 < modulus w queues.length := by omega
  have hm2 : 2 ≤ modulus w queues.length := by omega
  have hinv := TopicInv.reachable hm0 hr
  have hm' : 0 < modulus w s.maxSubscribers := by rwa [hinv.slots]
  constructor
  case decodes =>
    intro i g hi hg hne
    refine ⟨slotIndexFromId_encode hm' hi hg hne, ?_⟩
    rw [encode_xor_cookie, generation_pack hm' hi hg]
  case issued =>
    intro j sub hj
    obtain ⟨sl, g, hsl, his⟩ := hinv.issued hj
    rw [← hinv.slots, ← hinv.this] at his
    have hi : sub.slot < s.maxSubscribers := (List.getElem?_eq_some_iff.mp hsl).1
    have hne := his.ok.encode_ne (Nat.zero_lt_of_lt hi) hm' hi
    have hid : sub.id = encodeSubscriberId s.this s.maxSubscribers sub.slot g := his.id
    rw [← hid] at hne
    exact ⟨hi, hne, g, his.ok.lt, hid⟩
  case distinct =>
    intro j j' sub sub' hj hj' hlive hlive' hid
    exact hinv.live_inj hm0 hj hj' hlive hlive' hid
  case accepted =>
    intro j sub hj hlive
    exact hinv.lookup_live hm0 hj hlive
  case ends =>
    intro a s' hs j sub hj hlive
    exact hinv.ends hm0 hs hj hlive
  case rejected =>
    intro j sub sl hj hstop hsl hfew
    have hi : sub.slot < s.maxSubscribers := (List.getElem?_eq_some_iff.mp hsl).1
    obtain ⟨hall, hother⟩ := le_idPeriod s.this hi hm'
    apply hinv.stale hm0 hj hstop hsl
    rw [← hinv.slots, ← hinv.this]
    rcases hfew with hfew | ⟨hfew, hnone⟩
    · omega
    · have := hother hnone
      omega
  case live =>
    intro id i sl hl
    exact hinv.live_of_lookup hm0 hl
  case calls => exact callsOk
  case count =>
    have hcount : s.subscriberCount = BitVec.ofNat w (s.ids.slots.countP (·.inUse)) :=
      hinv.ids.count
    have hle : s.slots.countP (·.inUse) ≤ s.maxSubscribers := List.countP_le_length
    have hspan := span_lt hm'
    rw [State.ids, List.countP_map] at hcount
    rw [hcount, BitVec.toNat_ofNat, Nat.mod_eq_of_lt]
    · rfl
    · exact lt_of_le_of_lt hle hspan
  case full => exact subscribe_fails_iff
  case subscribes =>
    intro t i ht
    exact ⟨fun pops s' hs => hinv.subscribe_step hm2 ht hs,
      hinv.subscribe_returns hm2 _ rfl ht⟩

/-- Two subscribers; the first slot is given up and taken again. -/
theorem signal_ids_reused :
    ∃ s : State 64 Nat, s.subscriptions.map (fun sub => (sub.slot, sub.round, sub.stop)) =
        [(0, 0, some 0), (1, 0, none), (0, 1, none)] ∧
      s.subscriptions.map (fun sub => (s.lookup sub.id).isSome) = [false, true, true] ∧
      IdsOk (signalMachine (0x20001000 : BitVec 64) 4 true [true, true]) s := by
  let this : BitVec 64 := 0x20001000
  let schedule : List (Action 64 Nat) :=
    [.spawn, .subscribe 0, .advance 0 true, .subscribe 0, .advance 0 true,
      .unsubscribe 0 (encodeSubscriberId this 2 0 0), .subscribe 0, .advance 0 true]
  have hview : ((signalMachine this 4 true [true, true]).run
      (.create this 4 true [true, true]) schedule).map
      (fun s => (s.subscriptions.map (fun sub => (sub.slot, sub.round, sub.stop)),
        s.subscriptions.map (fun sub => (s.lookup sub.id).isSome))) =
        some ([(0, 0, some 0), (1, 0, none), (0, 1, none)], [false, true, true]) := by
    decide +kernel
  obtain ⟨s, hrun, hres⟩ := Option.map_eq_some_iff.mp hview
  simp only [Prod.mk.injEq] at hres
  exact ⟨s, hres.1, hres.2, signal_ids (by decide) (.of_run hrun)⟩

/-! ### The slot of the reserved id

A topic with one slot, which one thread takes and gives up again and again. -/

/-- The slot has been given up `k` times; `used` says whether it is taken. -/
structure Turn (this : BitVec w) (used : Bool) (k : Nat) (s : State w α) : Prop where
  reachable : (signalMachine this 1 true [true]).Reachable s
  thread : ∃ r, s.threads = [.idle r]
  mutex : s.mutex = none
  valid : s.mutexValid = true
  slot : ∃ sl, s.slots = [sl] ∧ sl.inUse = used ∧ sl.receivers = 0 ∧ sl.queue = [] ∧
    sl.queueValid = true ∧ sl.unsubscribed = k
  first : (used = false ∧ k = 0 ∧ s.subscriptions = []) ∨
    ∃ sub, s.subscriptions[0]? = some sub ∧ sub.slot = 0 ∧ sub.round = 0

theorem Turn.subscribe {this : BitVec w} {k : Nat} (hm : 2 ≤ modulus w 1)
    (h : Turn this false k s) :
    ∃ s' : State w α, Turn this true k s' := by
  obtain ⟨hr, ⟨r, ht⟩, hmu, hmv, ⟨sl, hsl, hfree, hrec, hq, hqv, hk⟩, hfirst⟩ := h
  have hvalid : s.valid = true := by simp [State.valid, hmv, hsl, hqv]
  let s₁ := (s.setMutex (some 0)).setThread 0 (.subscribe 0)
  have hstep : (signalMachine this 1 true [true]).step s (.subscribe 0) = some s₁ := by
    simp [signalMachine, State.next, State.call, ht, State.subscribe, hvalid, hmu, hsl, hfree, s₁]
  have hr₁ := Machine.ReachableBy.step hr trivial hstep
  have hm0 : 0 < modulus w 1 := by omega
  have hinv := TopicInv.reachable hm0 hr₁
  have hslot : s₁.slots[0]? = some sl := by simp [s₁, State.setMutex, State.setThread, hsl]
  have hstep₁ : (signalMachine this 1 true [true]).step s₁ (.advance 0 true) =
      some (s₁.register 0 0 sl) := by
    simp [signalMachine, State.next, State.advance, s₁, State.setThread, State.setMutex, ht, hsl,
      hq]
  obtain ⟨newId, hreg⟩ := register_succeeds hinv.ids (by rwa [hinv.slots]) hslot 0
  obtain ⟨hmutex, hmvalid, -⟩ := register_frame (s := s₁) 0 0 sl
  have htaken : (s₁.register 0 0 sl).slots = [{ sl with
      generation := (ensureSubscriberId s₁.this s₁.maxSubscribers 0 sl.generation).1
      inUse := true
      owner := s₁.subscriptions.length }] := by
    rw [hreg.slots]
    simp [s₁, State.setThread, State.setMutex, hsl]
  refine ⟨s₁.register 0 0 sl, .step hr₁ trivial hstep₁, ⟨.subscribed true newId, ?_⟩, hmutex,
    hmvalid.trans hmv, ⟨_, htaken, rfl, hrec, hq, hqv, hk⟩, ?_⟩
  · rw [hreg.threads]
    simp [s₁, State.setThread, State.setMutex, ht]
  · right
    rw [hreg.subscriptions]
    rcases hfirst with ⟨-, hzero, hnil⟩ | ⟨sub, hsub, hslot₀, hround⟩
    · refine ⟨⟨0, newId, sl.unsubscribed, s₁.published.length, none, [], []⟩, ?_, rfl, ?_⟩
      · simp [s₁, State.setThread, State.setMutex, hnil]
      · exact hk.trans hzero
    · have hold : s₁.subscriptions[0]? = some sub := hsub
      refine ⟨sub, ?_, hslot₀, hround⟩
      rwa [List.getElem?_append_left (List.getElem?_eq_some_iff.mp hold).1]

theorem Turn.unsubscribe {this : BitVec w} {k : Nat} (hm : 0 < modulus w 1)
    (h : Turn this true k s) : ∃ s' : State w α, Turn this false (k + 1) s' := by
  obtain ⟨hr, ⟨r, ht⟩, hmu, hmv, ⟨sl, hsl, huse, hrec, hq, hqv, hk⟩, hfirst⟩ := h
  have hinv := TopicInv.reachable hm hr
  have hvalid : s.valid = true := by simp [State.valid, hmv, hsl, hqv]
  have hslot : s.slots[0]? = some sl := by rw [hsl]; rfl
  have hl := (lookup_iff hinv.ids (by rwa [hinv.slots])).mpr ⟨hslot, huse, rfl⟩
  let sl' := { sl with
    inUse := false
    generation := advanceSubscriberGeneration s.this s.maxSubscribers 0 sl.generation
    unsubscribed := sl.unsubscribed + 1 }
  let s' := ({ s.setSlot 0 sl' with subscriberCount := s.subscriberCount - 1 }.record sl.owner
    (fun sub => { sub with stop := some s.published.length })).ret 0 (.bool true)
  have hstep : (signalMachine this 1 true [true]).step s (.unsubscribe 0
      (encodeSubscriberId s.this s.maxSubscribers 0 sl.generation)) = some s' := by
    simp [signalMachine, State.next, State.call, ht, State.unsubscribe, hvalid, hmu, hl, hrec, s',
      sl']
  refine ⟨s', .step hr trivial hstep, ⟨.bool true, ?_⟩, hmu, hmv,
    ⟨sl', ?_, rfl, hrec, hq, hqv, congrArg (· + 1) hk⟩, .inr ?_⟩
  · simp [s', State.ret, State.record, State.setSlot, State.setThread, ht]
  · simp [s', State.ret, State.record, State.setSlot, State.setThread, hsl]
  · rcases hfirst with ⟨hused, -⟩ | ⟨sub, hsub, hslot₀, hround⟩
    · cases hused
    · by_cases howner : sl.owner = 0
      · refine ⟨{ sub with stop := some s.published.length }, ?_, hslot₀, hround⟩
        simp only [s', State.ret, State.record, State.setSlot, State.setThread, howner]
        rw [List.getElem?_modify_eq, hsub]
        rfl
      · refine ⟨sub, ?_, hslot₀, hround⟩
        simp only [s', State.ret, State.record, State.setSlot, State.setThread]
        rw [List.getElem?_modify_ne _ _ howner, hsub]

theorem Turn.exists (this : BitVec w) (hm : 2 ≤ modulus w 1) (k : Nat) :
    ∃ s : State w α, Turn this true k s := by
  induction k with
  | zero =>
      have hfree : Turn this false 0 ({ (State.create this 1 true [true] : State w α) with
          threads := [.idle .none] }) := by
        refine ⟨.step .init trivial (a := .spawn) rfl, ⟨_, rfl⟩, rfl, rfl,
          ⟨_, rfl, rfl, rfl, rfl, rfl, rfl⟩, .inl ⟨rfl, rfl, rfl⟩⟩
      exact hfree.subscribe hm
  | succ k ih =>
      obtain ⟨s, hs⟩ := ih
      obtain ⟨s', hs'⟩ := hs.unsubscribe (by omega)
      exact hs'.subscribe hm

/-- With one slot the reserved id belongs to one of its generations, and an id comes back
one round earlier than the modulus says. -/
theorem signal_ids_return_early :
    ¬ ∀ s : State 64 Nat, (signalMachine (0x20001000 : BitVec 64) 1 true [true]).Reachable s →
      ∀ (j : Nat) (sub : Subscription 64 Nat) (sl : SubscriberSlot 64 Nat),
        s.subscriptions[j]? = some sub → sub.stop ≠ none → s.slots[sub.slot]? = some sl →
        sub.further sl < modulus 64 1 - 1 → s.lookup sub.id = none := by
  intro hclaim
  have hm : 2 ≤ modulus 64 1 := by decide
  obtain ⟨s, hturn⟩ : ∃ s : State 64 Nat, Turn 0x20001000 true (modulus 64 1 - 1) s :=
    Turn.exists _ hm _
  have hm0 : 0 < modulus 64 1 := by decide
  have hinv := TopicInv.reachable hm0 hturn.reachable
  obtain ⟨sl, hslots, huse, -, -, -, hk⟩ := hturn.slot
  rcases hturn.first with ⟨hused, -⟩ | ⟨sub, hsub, hslot, hround⟩
  · cases hused
  have hsl : s.slots[sub.slot]? = some sl := by rw [hslots, hslot]; rfl
  have hstop : sub.stop ≠ none := by
    intro hlive
    obtain ⟨sl', g, hsl', his⟩ := hinv.issued hsub
    obtain rfl : sl = sl' := Option.some.inj (hsl.symm.trans hsl')
    have heq : sub.round = sl.unsubscribed := his.live.mp (live_iff.mpr hlive)
    rw [hround, hk] at heq
    exact absurd heq (by decide)
  have hnone := hclaim s hturn.reachable 0 sub sl hsub hstop hsl (by
    rw [Subscription.further, hk, hround]
    decide)
  have hsome : (s.lookup sub.id).isSome = true := by
    refine (hinv.lookup_issued hm0 hsub hsl).mpr ⟨huse, ?_⟩
    rw [hslot, hround, hk]
    exact dvd_of_eq (by decide)
  rw [hnone] at hsome
  cases hsome

end MicrOsal.Signal
