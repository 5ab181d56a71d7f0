import MicrOsal.Lib.Tally
import MicrOsal.Signal.Model

/-!
# MicrOsal.Signal.Steps

What a step of the topic can do, said once (`Step`), and the mutex: the thread
that holds it is the one that purges a slot or goes through the slots, and the
slot that is being purged stays free (`LockInv`).
-/

namespace MicrOsal.Signal

variable {w : Nat} {α : Type}

/-! ### Steps -/

/-- Everything a step with action `a` can do. -/
inductive Step (s : State w α) (a : Action w α) : State w α → Prop
  | spawn : Step s a { s with threads := s.threads ++ [.idle .none] }
  /-- A call returns at once, without effect. -/
  | returns {t : Nat} {last : Return w α} (r : Return w α) :
      s.threads[t]? = some (.idle last) → Step s a (s.ret t r)
  | subscribe {t i : Nat} {last : Return w α} :
      s.threads[t]? = some (.idle last) → s.valid = true → s.mutex = none →
      s.slots.findIdx? (fun sl => !sl.inUse) = some i →
      Step s a ((s.setMutex (some t)).setThread t (.subscribe i))
  | purge {t i : Nat} {sl : SubscriberSlot w α} {msg : α} {rest : List α} :
      s.threads[t]? = some (.subscribe i) → s.slots[i]? = some sl → sl.queue = msg :: rest →
      Step s a (s.setSlot i { sl with queue := rest })
  | register {t i : Nat} {sl : SubscriberSlot w α} :
      s.threads[t]? = some (.subscribe i) → s.slots[i]? = some sl →
      (sl.queueValid = true → sl.queue = []) → Step s a (s.register t i sl)
  | unsubscribe {t i : Nat} {last : Return w α} {id : BitVec w} {sl : SubscriberSlot w α} :
      a = .unsubscribe t id → s.threads[t]? = some (.idle last) → s.mutex = none →
      s.lookup id = some (i, sl) → sl.receivers = 0 →
      Step s a (({ s.setSlot i { sl with
            inUse := false
            generation := advanceSubscriberGeneration s.this s.maxSubscribers i sl.generation
            unsubscribed := sl.unsubscribed + 1 } with
          subscriberCount := s.subscriberCount - 1 }.record sl.owner
        (fun sub => { sub with stop := some s.published.length })).ret t (.bool true))
  | publish {t : Nat} {last : Return w α} (msg : α) :
      s.threads[t]? = some (.idle last) → s.mutex = none →
      Step s a ({ s.setMutex (some t) with published := s.published ++ [msg] }.setThread t
        (.publish msg 0 false))
  | published {t i : Nat} {msg : α} {any : Bool} :
      s.threads[t]? = some (.publish msg i any) → s.slots[i]? = none →
      Step s a ((s.setMutex none).ret t (.bool any))
  | skip {t i : Nat} {msg : α} {any : Bool} {sl : SubscriberSlot w α} :
      s.threads[t]? = some (.publish msg i any) → s.slots[i]? = some sl → sl.inUse = false →
      Step s a (s.setThread t (.publish msg (i + 1) any))
  | send {t i : Nat} {msg : α} {any : Bool} {sl : SubscriberSlot w α} :
      s.threads[t]? = some (.publish msg i any) → s.slots[i]? = some sl → sl.inUse = true →
      sl.queue.length < s.capacity →
      Step s a (((s.record sl.owner
          (fun sub => { sub with sends := sub.sends ++ [⟨msg, sl.queue.length⟩] })).setSlot i
            { sl with queue := sl.queue ++ [msg] }).setThread t (.publish msg (i + 1) true))
  | full {t i : Nat} {msg : α} {any : Bool} {sl : SubscriberSlot w α} :
      s.threads[t]? = some (.publish msg i any) → s.slots[i]? = some sl → sl.inUse = true →
      ¬ sl.queue.length < s.capacity →
      Step s a ((s.record sl.owner
          (fun sub => { sub with sends := sub.sends ++ [⟨msg, sl.queue.length⟩] })).setThread t
        (.publish msg (i + 1) any))
  | tryReceive {t i : Nat} {last : Return w α} {id : BitVec w} {sl : SubscriberSlot w α} {msg : α}
      {rest : List α} :
      s.threads[t]? = some (.idle last) → s.lookup id = some (i, sl) → sl.queue = msg :: rest →
      Step s a ((s.take i sl rest sl.owner msg).ret t (.received (some msg)))
  | receive {t i : Nat} {last : Return w α} {id : BitVec w} {sl : SubscriberSlot w α} :
      s.threads[t]? = some (.idle last) → s.lookup id = some (i, sl) →
      Step s a ((s.setSlot i { sl with receivers := sl.receivers + 1 }).setThread t
        (.receive i sl.owner))
  | taken {t i sub : Nat} {sl : SubscriberSlot w α} {msg : α} {rest : List α} :
      s.threads[t]? = some (.receive i sub) → s.slots[i]? = some sl → sl.queue = msg :: rest →
      Step s a ((s.take i sl rest sub msg).setThread t (.settle i sub (some msg)))
  | givesUp {t i sub : Nat} :
      s.threads[t]? = some (.receive i sub) → Step s a (s.setThread t (.settle i sub none))
  | settle {t i sub : Nat} {received : Option α} {sl : SubscriberSlot w α} :
      s.threads[t]? = some (.settle i sub received) → s.slots[i]? = some sl → s.mutex = none →
      Step s a ((s.setSlot i { sl with receivers := sl.receivers - 1 }).ret t (.received received))

variable {s s' : State w α}

theorem call_eq_some {t : Nat} {f : Option (State w α)} (h : s.call t f = some s') :
    (∃ last, s.threads[t]? = some (.idle last)) ∧ f = some s' := by
  unfold State.call at h
  split at h
  case h_1 last ht => exact ⟨⟨last, ht⟩, h⟩
  case h_2 => cases h

theorem mutex_eq_none (h : ¬ s.mutex.isSome = true) : s.mutex = none := by
  simpa using h

theorem Step.of_advance {t : Nat} {pops : Bool} {th : Thread w α} (ht : s.threads[t]? = some th)
    (h : s.advance t pops th = some s') : Step s (.advance t pops) s' := by
  cases th with
  | idle last => cases h
  | subscribe i =>
      obtain ⟨sl, hsl, h⟩ := Option.bind_eq_some_iff.mp h
      split at h
      case isTrue hv =>
        rw [← Option.some.inj h]
        exact .register ht hsl (fun hvalid => absurd hvalid hv)
      case isFalse =>
        split at h
        case h_1 msg rest hq =>
          rw [← Option.some.inj h]
          exact .purge ht hsl hq
        case h_2 hq =>
          rw [← Option.some.inj h]
          exact .register ht hsl (fun _ => hq)
  | publish msg i any =>
      simp only [State.advance] at h
      split at h
      case h_1 hsl =>
        rw [← Option.some.inj h]
        exact .published ht hsl
      case h_2 sl hsl =>
        split at h
        case isTrue huse =>
          split at h
          case isTrue hroom =>
            rw [← Option.some.inj h]
            exact .send ht hsl huse hroom
          case isFalse hroom =>
            rw [← Option.some.inj h]
            exact .full ht hsl huse hroom
        case isFalse huse =>
          rw [← Option.some.inj h]
          exact .skip ht hsl (by simpa using huse)
  | receive i sub =>
      obtain ⟨sl, hsl, h⟩ := Option.bind_eq_some_iff.mp h
      split at h
      case isTrue =>
        split at h
        case h_1 => cases h
        case h_2 msg rest hq =>
          rw [← Option.some.inj h]
          exact .taken ht hsl hq
      case isFalse =>
        rw [← Option.some.inj h]
        exact .givesUp ht
  | settle i sub received =>
      obtain ⟨sl, hsl, h⟩ := Option.bind_eq_some_iff.mp h
      split at h
      case isTrue => cases h
      case isFalse hm =>
        rw [← Option.some.inj h]
        exact .settle ht hsl (mutex_eq_none hm)

theorem Step.of_next {a : Action w α} (h : s.next a = some s') : Step s a s' := by
  cases a with
  | spawn =>
      rw [← Option.some.inj h]
      exact .spawn
  | advance t pops =>
      obtain ⟨th, ht, h⟩ := Option.bind_eq_some_iff.mp h
      exact .of_advance ht h
  | subscribe t =>
      obtain ⟨⟨last, ht⟩, h⟩ := call_eq_some h
      unfold State.subscribe at h
      split at h
      case isTrue => rw [← Option.some.inj h]; exact .returns _ ht
      case isFalse hv =>
        split at h
        case isTrue => cases h
        case isFalse hm =>
          split at h
          case h_1 => rw [← Option.some.inj h]; exact .returns _ ht
          case h_2 i hi =>
            rw [← Option.some.inj h]
            exact .subscribe ht (by simpa using hv) (mutex_eq_none hm) hi
  | unsubscribe t id =>
      obtain ⟨⟨last, ht⟩, h⟩ := call_eq_some h
      unfold State.unsubscribe at h
      split at h
      case isTrue => rw [← Option.some.inj h]; exact .returns _ ht
      case isFalse =>
        split at h
        case isTrue => cases h
        case isFalse hm =>
          split at h
          case h_1 => rw [← Option.some.inj h]; exact .returns _ ht
          case h_2 i sl hl =>
            split at h
            case isTrue => rw [← Option.some.inj h]; exact .returns _ ht
            case isFalse hr =>
              rw [← Option.some.inj h]
              exact .unsubscribe rfl ht (mutex_eq_none hm) hl (by simpa using hr)
  | publish t msg =>
      obtain ⟨⟨last, ht⟩, h⟩ := call_eq_some h
      unfold State.publish at h
      split at h
      case isTrue => rw [← Option.some.inj h]; exact .returns _ ht
      case isFalse =>
        split at h
        case isTrue => cases h
        case isFalse hm =>
          rw [← Option.some.inj h]
          exact .publish msg ht (mutex_eq_none hm)
  | tryReceive t id =>
      obtain ⟨⟨last, ht⟩, h⟩ := call_eq_some h
      unfold State.tryReceive at h
      split at h
      case isTrue => rw [← Option.some.inj h]; exact .returns _ ht
      case isFalse =>
        split at h
        case isTrue => cases h
        case isFalse hm =>
          split at h
          case h_1 => rw [← Option.some.inj h]; exact .returns _ ht
          case h_2 i sl hl =>
            split at h
            case h_1 => rw [← Option.some.inj h]; exact .returns _ ht
            case h_2 msg rest hq =>
              rw [← Option.some.inj h]
              exact .tryReceive ht hl hq
  | receive t id =>
      obtain ⟨⟨last, ht⟩, h⟩ := call_eq_some h
      unfold State.receive at h
      split at h
      case isTrue => rw [← Option.some.inj h]; exact .returns _ ht
      case isFalse =>
        split at h
        case isTrue => cases h
        case isFalse hm =>
          split at h
          case h_1 => rw [← Option.some.inj h]; exact .returns _ ht
          case h_2 i sl hl =>
            rw [← Option.some.inj h]
            exact .receive ht hl

/-! ### The mutex -/

/-- The slot may be taken. -/
def SubscriberSlot.Free (sl : SubscriberSlot w α) : Prop :=
  sl.inUse = false ∧ sl.queueValid = true

/-- A thread that holds the mutex, and what it relies on while it does. -/
def Thread.LockOk (s : State w α) (t : Nat) : Thread w α → Prop
  | .subscribe i => s.mutex = some t ∧ ∃ sl, s.slots[i]? = some sl ∧ sl.Free
  | .publish _ _ _ => s.mutex = some t
  | _ => True

def LockInv (s : State w α) : Prop :=
  ∀ (t : Nat) (th : Thread w α), s.threads[t]? = some th → th.LockOk s t

/-- A step that keeps the mutex and takes no slot into use. -/
theorem LockInv.keep {t : Nat} {th' : Thread w α} (h : LockInv s)
    (hthreads : s'.threads = s.threads.set t th') (hm : s'.mutex = s.mutex)
    (hslots : ∀ (i : Nat) (sl : SubscriberSlot w α), s.slots[i]? = some sl → sl.Free →
      ∃ sl' : SubscriberSlot w α, s'.slots[i]? = some sl' ∧ sl'.Free)
    (ht : th'.LockOk s' t) : LockInv s' := by
  intro u th hu
  rw [hthreads] at hu
  rcases getElem?_set_cases hu with ⟨rfl, rfl⟩ | ⟨-, hu⟩
  · exact ht
  · have hok := h u th hu
    cases th with
    | subscribe i =>
        obtain ⟨hmu, sl, hsl, hfree⟩ := hok
        exact ⟨hm.trans hmu, hslots i sl hsl hfree⟩
    | publish msg i any => exact hm.trans hok
    | idle last => trivial
    | receive i sub => trivial
    | settle i sub received => trivial

/-- A step of a thread that takes, has or gives up the mutex. -/
theorem LockInv.change {t : Nat} {th' : Thread w α} (h : LockInv s)
    (hthreads : s'.threads = s.threads.set t th') (hm : ∀ u, s.mutex = some u → u = t)
    (ht : th'.LockOk s' t) : LockInv s' := by
  intro u th hu
  rw [hthreads] at hu
  rcases getElem?_set_cases hu with ⟨rfl, rfl⟩ | ⟨hne, hu⟩
  · exact ht
  · have hok := h u th hu
    cases th with
    | subscribe i => exact absurd (hm u hok.1) hne
    | publish msg i any => exact absurd (hm u hok) hne
    | idle last => trivial
    | receive i sub => trivial
    | settle i sub received => trivial

/-- Storing a slot that is free if it was. -/
theorem free_setSlot {i : Nat} {sl sl' : SubscriberSlot w α} (hsl : s.slots[i]? = some sl)
    (hfree : sl.Free → sl'.Free) (k : Nat) (sk : SubscriberSlot w α)
    (hk : s.slots[k]? = some sk) (hskfree : sk.Free) :
    ∃ sk', (s.slots.set i sl')[k]? = some sk' ∧ sk'.Free := by
  rw [List.getElem?_set]
  by_cases hik : i = k
  · subst hik
    obtain rfl : sl = sk := Option.some.inj (hsl.symm.trans hk)
    rw [if_pos rfl, if_pos (List.getElem?_eq_some_iff.mp hsl).1]
    exact ⟨sl', rfl, hfree hskfree⟩
  · rw [if_neg hik]
    exact ⟨sk, hk, hskfree⟩

theorem lookup_slot {id : BitVec w} {i : Nat} {sl : SubscriberSlot w α}
    (h : s.lookup id = some (i, sl)) : s.slots[i]? = some sl := by
  simp only [State.lookup] at h
  split at h
  case h_1 => cases h
  case h_2 sl' hsl =>
    split at h
    case isTrue =>
      obtain ⟨rfl, rfl⟩ := Prod.mk.inj (Option.some.inj h)
      exact hsl
    case isFalse => cases h

theorem register_threads (t i : Nat) (sl : SubscriberSlot w α) :
    ∃ r, (s.register t i sl).threads = s.threads.set t (.idle r) := by
  simp only [State.register]
  split
  case isTrue => exact ⟨_, rfl⟩
  case isFalse => exact ⟨_, rfl⟩

theorem LockInv.step {a : Action w α} (h : LockInv s) (hs : Step s a s') : LockInv s' := by
  cases hs with
  | spawn =>
      intro u th hu
      rcases getElem?_concat_cases hu with hu | ⟨-, rfl⟩
      · exact h u th hu
      · trivial
  | returns r ht => exact h.keep rfl rfl (fun i sl hsl hu => ⟨sl, hsl, hu⟩) trivial
  | @subscribe t i _ ht hv hm hi =>
      refine h.change rfl (fun u hu => ?_) ⟨rfl, ?_⟩
      · rw [hm] at hu
        cases hu
      · obtain ⟨hlt, huse, -⟩ := List.findIdx?_eq_some_iff_getElem.mp hi
        have hqueues : ∀ sl ∈ s.slots, sl.queueValid = true := by
          simp only [State.valid, Bool.and_eq_true, List.all_eq_true] at hv
          exact hv.2
        exact ⟨_, List.getElem?_eq_getElem hlt, by simpa using huse,
          hqueues _ (List.getElem_mem hlt)⟩
  | @purge t i sl _ _ ht hsl hq =>
      intro u th hu
      have hok := h u th hu
      cases th with
      | subscribe k =>
          obtain ⟨hmu, sk, hk, hfree⟩ := hok
          refine ⟨hmu, free_setSlot hsl ?_ k sk hk hfree⟩
          exact fun hu => hu
      | publish msg k any => exact hok
      | idle last => trivial
      | receive k sub => trivial
      | settle k sub received => trivial
  | @register t i sl ht hsl hq =>
      obtain ⟨r, hr⟩ := register_threads (s := s) t i sl
      refine h.change hr (fun u hu => ?_) trivial
      exact Option.some.inj (hu.symm.trans (h t _ ht).1)
  | unsubscribe ha ht hm hl hr =>
      exact h.keep rfl rfl (free_setSlot (lookup_slot hl) (fun hu => ⟨rfl, hu.2⟩)) trivial
  | publish msg ht hm =>
      refine h.change rfl (fun u hu => ?_) rfl
      rw [hm] at hu
      cases hu
  | @published t i msg any ht hsl =>
      exact h.change rfl (fun u hu => Option.some.inj (hu.symm.trans (h t _ ht))) trivial
  | skip ht hsl huse =>
      exact h.keep rfl rfl (fun k sk hk hu => ⟨sk, hk, hu⟩) (h _ _ ht)
  | send ht hsl huse hroom =>
      exact h.keep rfl rfl (free_setSlot hsl (fun hu => hu)) (h _ _ ht)
  | full ht hsl huse hroom =>
      exact h.keep rfl rfl (fun k sk hk hu => ⟨sk, hk, hu⟩) (h _ _ ht)
  | tryReceive ht hl hq =>
      exact h.keep rfl rfl (free_setSlot (lookup_slot hl) (fun hu => hu)) trivial
  | receive ht hl => exact h.keep rfl rfl (free_setSlot (lookup_slot hl) (fun hu => hu)) trivial
  | taken ht hsl hq => exact h.keep rfl rfl (free_setSlot hsl (fun hu => hu)) trivial
  | givesUp ht => exact h.keep rfl rfl (fun i sl hsl hu => ⟨sl, hsl, hu⟩) trivial
  | settle ht hsl hm => exact h.keep rfl rfl (free_setSlot hsl (fun hu => hu)) trivial

end MicrOsal.Signal
