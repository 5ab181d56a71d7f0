import MicrOsal.ZeroCopy.Balance

/-!
# MicrOsal.ZeroCopy.Steps

What a step of the transport can do, said once (`ZcStep`), and what it shows
(`ZcEvent`).

An event is read off the thread that took the step: a subscription that begins or
ends, a publication that begins, an index that a subscriber's queue accepts, and
the stages of `receive_loan`. `ZcState.shows` gives the events of a step; the
record of a run is the list of all of them (`zeroCopyLog`).
-/

namespace MicrOsal

/-! ### Events -/

/-- What a step shows. A subscriber is named by its topic `t` and its `id`. -/
inductive ZcEvent
  /-- `subscribe` has given out `id`. -/
  | subscribed (t id : Nat)
  /-- `unsubscribe` has taken `id` out of its slot. -/
  | unsubscribed (t id : Nat)
  /-- Thread `n` has the mutex of the topic for `publish_zero_copy`. -/
  | publishes (n t : Nat)
  /-- The publication of thread `n` has put `index` into the subscriber's queue. -/
  | accepted (n t id index : Nat)
  /-- Thread `n` has left the first locked region of `receive_loan`. -/
  | entered (n t id : Nat)
  /-- `queue.receive` has given thread `n` an index. -/
  | received (n t id index : Nat)
  /-- Thread `n` has left the second locked region of `receive_loan`. -/
  | left (n t id : Nat)
  /-- Thread `n` has stored the read loan on `index` through `out`. -/
  | loaned (n index : Nat)
  deriving DecidableEq, Repr

namespace ZcState

/-- The `id` of slot `k` of topic `t`. -/
def slotId (s : ZcState) (t k : Nat) : Nat :=
  (((s.topics[t]?).bind (·.slots[k]?)).map (·.id)).getD invalidSubscriberId

/-- What the step from `s` to `s'` with action `a` shows. -/
def shows (s : ZcState) (a : ZcAction) (s' : ZcState) : List ZcEvent :=
  match a with
  | .subscribe n t =>
      match s'.threads[n]? with
      | some (.idle (.subscribed true id)) => [.subscribed t id]
      | _ => []
  | .unsubscribe n t id =>
      match s'.threads[n]? with
      | some (.drain _ _ _) => [.unsubscribed t id]
      | _ => []
  | .publishZeroCopy n t _ =>
      match s'.threads[n]? with
      | some (.publish _ _) => [.publishes n t]
      | _ => []
  | .receiveLoan n t id _ =>
      match s'.threads[n]? with
      | some (.receive _ _ _) => [.entered n t id]
      | _ => []
  | .advance n _ =>
      match s.threads[n]?, s'.threads[n]? with
      | some (.send c k), some (.publish _ _) => [.accepted n c.topic (s.slotId c.topic k) c.index]
      | some (.receive t k _), some (.settle _ _ _ (some index)) =>
          [.received n t (s.slotId t k) index]
      | some (.settle t k _ _), _ => [.left n t (s.slotId t k)]
      | some (.build _ _ index), _ => [.loaned n index]
      | _, _ => []
  | _ => []

end ZcState

/-- The transport with the record of its run. -/
def zeroCopyLog (capacity : Nat) (poolValid : Bool) : Machine (ZcState × List ZcEvent) ZcAction :=
  (zeroCopyMachine capacity poolValid).logged ZcState.shows

/-! ### Steps -/

/-- Everything a step with action `a` can do, with what it shows. -/
inductive ZcStep (s : ZcState) (a : ZcAction) : List ZcEvent → ZcState → Prop
  | spawn : ZcStep s a [] { s with threads := s.threads ++ [.idle .void] }
  | topic (perSubCapacity : Nat) (mutexValid : Bool) (queues : List Bool) :
      ZcStep s a [] { s with topics := s.topics ++ [.create perSubCapacity mutexValid queues] }
  | newLoan (kind : LoanKind) : ZcStep s a [] { s with loans := s.loans ++ [⟨kind, none⟩] }
  | lend : ZcStep s a [] { s with
        pool := s.pool.tryLoan.1
        loans := s.loans ++ [⟨.producer, s.pool.tryLoan.2⟩] }
  /-- A move assignment of a loan to itself. -/
  | stay : ZcStep s a [] s
  | release {h : Nat} {l : Loan} : s.freeLoan h = some l →
      ZcStep s a [] { s with pool := s.pool.drop l.index, loans := s.loans.set h l.emptied }
  | move {src : Nat} {l : Loan} : s.freeLoan src = some l →
      ZcStep s a [] { s with loans := s.loans.set src l.emptied ++ [l] }
  | moveAssign {dst src : Nat} {old l : Loan} : s.freeLoan dst = some old →
      s.freeLoan src = some l → old.kind = l.kind → dst ≠ src →
      ZcStep s a [] { s with
        pool := s.pool.drop old.index
        loans := (s.loans.set src l.emptied).set dst l }
  | copy {src : Nat} {l : Loan} {pool : MessagePool} : s.loans[src]? = some l → l.kind = .read →
      s.pool.share l.index = some pool →
      ZcStep s a [] { s with pool := pool, loans := s.loans ++ [l] }
  /-- A call returns at once, without effect. -/
  | returns {n : Nat} {last ret : ZcReturn} : s.threads[n]? = some (.idle last) →
      ZcStep s a [] (s.setThread n (.idle ret))
  | assignEmpty {n dst : Nat} {last : ZcReturn} {old : Loan} :
      s.threads[n]? = some (.idle last) → s.loans[dst]? = some old → old.kind = .read →
      ZcStep s a [] { s with
        pool := s.pool.drop old.index
        loans := s.loans.set dst old.emptied
        threads := s.threads.set n (.idle .void) }
  | assignCopy {n dst src index : Nat} {last : ZcReturn} {l : Loan} {pool : MessagePool} :
      s.threads[n]? = some (.idle last) → s.loans[src]? = some l → l.kind = .read →
      l.index = some index → s.pool.retain index = some pool →
      ZcStep s a [] { s with pool := pool, threads := s.threads.set n (.copyAssign dst index) }
  | assigned {n dst index : Nat} {old : Loan} :
      s.threads[n]? = some (.copyAssign dst index) → s.loans[dst]? = some old → old.kind = .read →
      ZcStep s a [] (ZcState.setThread { s with
        pool := s.pool.drop old.index
        loans := s.loans.set dst { old with index := some index } } n (.idle .void))
  | subscribe {n t k : Nat} {last : ZcReturn} {tp : ZeroCopySignal} {sl : SubscriberSlot} :
      s.threads[n]? = some (.idle last) → s.topics[t]? = some tp → tp.alive = true →
      tp.mutex = none → tp.slots[k]? = some sl → sl.id = invalidSubscriberId →
      tp.nextId ≠ invalidSubscriberId →
      ZcStep s a [.subscribed t tp.nextId]
        ((s.setTopic t { tp.setSlot k { sl with id := tp.nextId } with
          nextId := tp.nextId + 1 }).setThread n (.idle (.subscribed true tp.nextId)))
  | unsubscribe {n t k : Nat} {last : ZcReturn} {tp : ZeroCopySignal} {sl : SubscriberSlot} :
      s.threads[n]? = some (.idle last) → s.topics[t]? = some tp → tp.alive = true →
      tp.mutex = none → tp.slots[k]? = some sl → sl.id ≠ invalidSubscriberId →
      sl.receivers = 0 →
      ZcStep s a [.unsubscribed t sl.id]
        ((s.setTopic t { tp.setSlot k { sl with id := invalidSubscriberId } with
          mutex := some n }).setThread n (.drain t k .unsubscribe))
  | publish {n t h index : Nat} {last : ZcReturn} {tp : ZeroCopySignal} :
      s.threads[n]? = some (.idle last) → s.topics[t]? = some tp → tp.alive = true →
      tp.mutex = none → s.freeLoan h = some ⟨.producer, some index⟩ →
      ZcStep s a [.publishes n t]
        ((s.setTopic t { tp with mutex := some n }).setThread n (.publish ⟨t, h, index, 0, 0⟩ 0))
  | enter {n t k out : Nat} {last : ZcReturn} {tp : ZeroCopySignal} {sl : SubscriberSlot} :
      s.threads[n]? = some (.idle last) → s.topics[t]? = some tp → tp.alive = true →
      tp.mutex = none → tp.slots[k]? = some sl → sl.id ≠ invalidSubscriberId →
      ZcStep s a [.entered n t sl.id]
        ((s.setTopic t (tp.setSlot k { sl with receivers := sl.receivers + 1 })).setThread n
          (.receive t k out))
  | destroy {n t : Nat} {last : ZcReturn} {tp : ZeroCopySignal} :
      s.threads[n]? = some (.idle last) → s.topics[t]? = some tp →
      (∀ (m : Nat) (th : ZcThread), s.threads[m]? = some th → th.topic ≠ some t) →
      ZcStep s a [] ((s.setTopic t { tp with alive := false }).setThread n (.destroy t 0))
  | destroyed {n t k : Nat} : s.threads[n]? = some (.destroy t k) →
      ZcStep s a [] (s.setThread n (.idle .void))
  | destroySlot {n t k : Nat} : s.threads[n]? = some (.destroy t k) →
      ZcStep s a [] (s.setThread n (.drain t k .destructor))
  | drainSkip {n t k : Nat} {caller : ZcDrain} : s.threads[n]? = some (.drain t k caller) →
      ZcStep s a [] (s.setThread n (ZcState.drainReturn t k caller))
  | drainPop {n t k index : Nat} {caller : ZcDrain} {tp : ZeroCopySignal} {sl : SubscriberSlot}
      {rest : List Nat} : s.threads[n]? = some (.drain t k caller) → s.topics[t]? = some tp →
      tp.slots[k]? = some sl → sl.queue = index :: rest →
      ZcStep s a [] ((s.setTopic t (tp.setSlot k { sl with queue := rest })).setThread n
        (.drained t k caller index))
  | drainEnd {n t k : Nat} {caller : ZcDrain} {tp : ZeroCopySignal} {sl : SubscriberSlot} :
      s.threads[n]? = some (.drain t k caller) → s.topics[t]? = some tp →
      tp.slots[k]? = some sl → sl.queue = [] →
      ZcStep s a [] ((s.setTopic t (tp.setSlot k { sl with backlog := 0 })).setThread n
        (ZcState.drainReturn t k caller))
  | drained {n t k index : Nat} {caller : ZcDrain} :
      s.threads[n]? = some (.drained t k caller index) →
      ZcStep s a [] ({ s with pool := s.pool.release index }.setThread n (.drain t k caller))
  | skip {n k : Nat} {c : ZcPublish} : s.threads[n]? = some (.publish c k) →
      ZcStep s a [] (s.setThread n (.publish c (k + 1)))
  | looked {n k : Nat} {pops : Bool} {c : ZcPublish} {tp : ZeroCopySignal} :
      s.threads[n]? = some (.publish c k) → s.topics[c.topic]? = some tp →
      tp.slots[k]? = none → a = .advance n pops →
      ZcStep s a [] ((s.setTopic c.topic tp.updateHighWater).setThread n (.finish c))
  | retain {n k : Nat} {c : ZcPublish} {pool : MessagePool} :
      s.threads[n]? = some (.publish c k) → s.pool.retain c.index = some pool →
      ZcStep s a [] ({ s with pool := pool }.setThread n (.send c k))
  | accept {n k : Nat} {pops : Bool} {c : ZcPublish} {tp : ZeroCopySignal} {sl : SubscriberSlot} :
      a = .advance n pops → s.threads[n]? = some (.send c k) → s.topics[c.topic]? = some tp →
      tp.slots[k]? = some sl → sl.queue.length < tp.perSubCapacity →
      ZcStep s a [.accepted n c.topic sl.id c.index]
        ((s.setTopic c.topic (tp.setSlot k
          { sl with queue := sl.queue ++ [c.index], backlog := sl.backlog + 1 })).setThread n
          (.publish { c with accepted := c.accepted + 1 } (k + 1)))
  | full {n k : Nat} {c : ZcPublish} : s.threads[n]? = some (.send c k) →
      ZcStep s a [] (s.setThread n (.reject c k))
  | reject {n k : Nat} {c : ZcPublish} {tp : ZeroCopySignal} :
      s.threads[n]? = some (.reject c k) → s.topics[c.topic]? = some tp →
      ZcStep s a [] (({ s with pool := s.pool.release c.index }.setTopic c.topic
        { tp with drops := tp.drops + 1 }).setThread n
          (.publish { c with dropped := c.dropped + 1 } (k + 1)))
  | consumed {n : Nat} {c : ZcPublish} {l : Loan} {ret : ZcReturn} :
      s.threads[n]? = some (.finish c) → c.accepted ≠ 0 → s.loans[c.loan]? = some l →
      ZcStep s a [] { s with
        pool := s.pool.drop l.index
        loans := s.loans.set c.loan l.emptied
        threads := s.threads.set n (.unlock c.topic ret) }
  | kept {n : Nat} {c : ZcPublish} {ret : ZcReturn} : s.threads[n]? = some (.finish c) →
      c.accepted = 0 → ZcStep s a [] (s.setThread n (.unlock c.topic ret))
  | unlock {n t : Nat} {tp : ZeroCopySignal} {ret : ZcReturn} :
      s.threads[n]? = some (.unlock t ret) → s.topics[t]? = some tp →
      ZcStep s a [] ((s.setTopic t { tp with mutex := none }).setThread n (.idle ret))
  | pop {n t k out index : Nat} {tp : ZeroCopySignal} {sl : SubscriberSlot} {rest : List Nat} :
      s.threads[n]? = some (.receive t k out) → s.topics[t]? = some tp →
      tp.slots[k]? = some sl → sl.queue = index :: rest →
      ZcStep s a [.received n t sl.id index]
        ((s.setTopic t (tp.setSlot k { sl with queue := rest })).setThread n
          (.settle t k out (some index)))
  | giveUp {n t k out : Nat} : s.threads[n]? = some (.receive t k out) →
      ZcStep s a [] (s.setThread n (.settle t k out none))
  | settleNone {n t k out : Nat} {tp : ZeroCopySignal} {sl : SubscriberSlot} :
      s.threads[n]? = some (.settle t k out none) → s.topics[t]? = some tp →
      tp.slots[k]? = some sl → tp.mutex = none →
      ZcStep s a [.left n t sl.id]
        ((s.setTopic t { tp.setSlot k { sl with receivers := sizeDecr sl.receivers } with
          underflow := tp.underflow || sl.receivers == 0 }).setThread n (.idle (.bool false)))
  | settleSome {n t k out index : Nat} {tp : ZeroCopySignal} {sl : SubscriberSlot} :
      s.threads[n]? = some (.settle t k out (some index)) → s.topics[t]? = some tp →
      tp.slots[k]? = some sl → tp.mutex = none →
      ZcStep s a [.left n t sl.id]
        ((s.setTopic t { tp.setSlot k { sl with
            receivers := sizeDecr sl.receivers
            backlog := sizeDecr sl.backlog } with
          underflow := tp.underflow || sl.receivers == 0 || sl.backlog == 0 }).setThread n
          (.build t out index))
  | built {n t out index : Nat} {old : Loan} :
      s.threads[n]? = some (.build t out index) → s.loans[out]? = some old → old.kind = .read →
      ZcStep s a [.loaned n index] (ZcState.setThread { s with
        pool := s.pool.drop old.index
        loans := s.loans.set out { old with index := some index } } n (.idle (.bool true)))

section Inversion

variable {s s' : ZcState} {n : Nat} {th th' : ZcThread}

/-- The thread that took a step, found in the state after it. -/
theorem getElem?_set_thread (hth : s.threads[n]? = some th) :
    (s.threads.set n th')[n]? = some th' :=
  List.getElem?_set_self (List.getElem?_eq_some_iff.mp hth).1

theorem slotId_eq {t k : Nat} {tp : ZeroCopySignal} {sl : SubscriberSlot}
    (htp : s.topics[t]? = some tp) (hsl : tp.slots[k]? = some sl) : s.slotId t k = sl.id := by
  rw [ZcState.slotId, htp, Option.bind_some, hsl]
  rfl

theorem ZcStep.of_destroy {t k : Nat} {pops : Bool} (hth : s.threads[n]? = some (.destroy t k))
    (hs : s.advance n pops (.destroy t k) = some s') :
    ZcStep s (.advance n pops) (s.shows (.advance n pops) s') s' := by
  obtain ⟨tp, htp, hs⟩ := Option.bind_eq_some_iff.mp hs
  have hshow : ∀ s', s.shows (.advance n pops) s' = [] := fun s' => by
    simp only [ZcState.shows, hth]
  rw [hshow]
  split at hs
  case h_1 =>
    cases hs
    exact .destroyed hth
  case h_2 =>
    split at hs
    case isTrue => cases hs
    case isFalse =>
      cases hs
      exact .destroySlot hth

theorem ZcStep.of_drain {t k : Nat} {caller : ZcDrain} {pops : Bool}
    (hth : s.threads[n]? = some (.drain t k caller))
    (hs : s.advance n pops (.drain t k caller) = some s') :
    ZcStep s (.advance n pops) (s.shows (.advance n pops) s') s' := by
  obtain ⟨tp, htp, hs⟩ := Option.bind_eq_some_iff.mp hs
  obtain ⟨sl, hsl, hs⟩ := Option.bind_eq_some_iff.mp hs
  have hshow : ∀ s', s.shows (.advance n pops) s' = [] := fun s' => by
    simp only [ZcState.shows, hth]
  rw [hshow]
  split at hs
  case isTrue =>
    cases hs
    exact .drainSkip hth
  case isFalse =>
    split at hs
    case h_1 index rest hq =>
      cases hs
      exact .drainPop hth htp hsl hq
    case h_2 hq =>
      cases hs
      exact .drainEnd hth htp hsl hq

theorem ZcStep.of_publish {c : ZcPublish} {k : Nat} {pops : Bool}
    (hth : s.threads[n]? = some (.publish c k))
    (hs : s.advance n pops (.publish c k) = some s') :
    ZcStep s (.advance n pops) (s.shows (.advance n pops) s') s' := by
  obtain ⟨tp, htp, hs⟩ := Option.bind_eq_some_iff.mp hs
  have hshow : ∀ s', s.shows (.advance n pops) s' = [] := fun s' => by
    simp only [ZcState.shows, hth]
  rw [hshow]
  split at hs
  case h_1 hslots =>
    cases hs
    exact .looked hth htp hslots rfl
  case h_2 =>
    split at hs
    case isTrue =>
      cases hs
      exact .skip hth
    case isFalse =>
      obtain ⟨pool, hpool, hs⟩ := Option.bind_eq_some_iff.mp hs
      cases hs
      exact .retain hth hpool

theorem ZcStep.of_send {c : ZcPublish} {k : Nat} {pops : Bool}
    (hth : s.threads[n]? = some (.send c k)) (hs : s.advance n pops (.send c k) = some s') :
    ZcStep s (.advance n pops) (s.shows (.advance n pops) s') s' := by
  obtain ⟨tp, htp, hs⟩ := Option.bind_eq_some_iff.mp hs
  obtain ⟨sl, hsl, hs⟩ := Option.bind_eq_some_iff.mp hs
  split at hs
  case isTrue hroom =>
    cases hs
    simp only [ZcState.shows, hth, ZcState.setThread, ZcState.setTopic, getElem?_set_thread hth,
      slotId_eq htp hsl]
    exact .accept rfl hth htp hsl hroom
  case isFalse =>
    cases hs
    simp only [ZcState.shows, hth, ZcState.setThread, getElem?_set_thread hth]
    exact .full hth

theorem ZcStep.of_finish {c : ZcPublish} {pops : Bool} (hth : s.threads[n]? = some (.finish c))
    (hs : s.advance n pops (.finish c) = some s') :
    ZcStep s (.advance n pops) (s.shows (.advance n pops) s') s' := by
  have hshow : ∀ s', s.shows (.advance n pops) s' = [] := fun s' => by
    simp only [ZcState.shows, hth]
  rw [hshow]
  simp only [ZcState.advance] at hs
  split at hs
  case isTrue haccepted =>
    obtain ⟨l, hl, hs⟩ := Option.bind_eq_some_iff.mp hs
    cases hs
    exact .consumed hth haccepted hl
  case isFalse haccepted =>
    cases hs
    exact .kept hth (by simpa using haccepted)

theorem ZcStep.of_receive {t k out : Nat} {pops : Bool}
    (hth : s.threads[n]? = some (.receive t k out))
    (hs : s.advance n pops (.receive t k out) = some s') :
    ZcStep s (.advance n pops) (s.shows (.advance n pops) s') s' := by
  obtain ⟨tp, htp, hs⟩ := Option.bind_eq_some_iff.mp hs
  obtain ⟨sl, hsl, hs⟩ := Option.bind_eq_some_iff.mp hs
  split at hs
  case isTrue =>
    split at hs
    case h_1 => cases hs
    case h_2 index rest hq =>
      cases hs
      simp only [ZcState.shows, hth, ZcState.setThread, ZcState.setTopic, getElem?_set_thread hth,
        slotId_eq htp hsl]
      exact .pop hth htp hsl hq
  case isFalse =>
    cases hs
    simp only [ZcState.shows, hth, ZcState.setThread, getElem?_set_thread hth]
    exact .giveUp hth

theorem ZcStep.of_settle {t k out : Nat} {got : Option Nat} {pops : Bool}
    (hth : s.threads[n]? = some (.settle t k out got))
    (hs : s.advance n pops (.settle t k out got) = some s') :
    ZcStep s (.advance n pops) (s.shows (.advance n pops) s') s' := by
  obtain ⟨tp, htp, hs⟩ := Option.bind_eq_some_iff.mp hs
  obtain ⟨sl, hsl, hs⟩ := Option.bind_eq_some_iff.mp hs
  have hshow : ∀ s', s.shows (.advance n pops) s' = [.left n t sl.id] := fun s' => by
    simp only [ZcState.shows, hth, slotId_eq htp hsl]
  rw [hshow]
  split at hs
  case isTrue => cases hs
  case isFalse hmutex =>
    cases got with
    | none =>
        cases hs
        exact .settleNone hth htp hsl (mutex_eq_none hmutex)
    | some index =>
        cases hs
        exact .settleSome hth htp hsl (mutex_eq_none hmutex)

theorem assignTemporary_eq_some {dst index : Nat} (hs : s.assignTemporary dst index = some s') :
    ∃ old, s.loans[dst]? = some old ∧ old.kind = .read ∧ s' = { s with
      pool := s.pool.drop old.index
      loans := s.loans.set dst { old with index := some index } } := by
  obtain ⟨old, hold, hs⟩ := Option.bind_eq_some_iff.mp hs
  split at hs
  case isTrue => cases hs
  case isFalse hkind =>
    cases hs
    exact ⟨old, hold, by simpa using hkind, rfl⟩

theorem ZcStep.of_advance {pops : Bool} (hth : s.threads[n]? = some th)
    (hs : s.advance n pops th = some s') :
    ZcStep s (.advance n pops) (s.shows (.advance n pops) s') s' := by
  cases th with
  | idle => cases hs
  | copyAssign dst index =>
      obtain ⟨s₁, hs₁, hs⟩ := Option.bind_eq_some_iff.mp hs
      obtain ⟨old, hold, hkind, rfl⟩ := assignTemporary_eq_some hs₁
      cases hs
      simp only [ZcState.shows, hth]
      exact .assigned hth hold hkind
  | destroy t k => exact .of_destroy hth hs
  | drain t k caller => exact .of_drain hth hs
  | drained t k caller index =>
      cases hs
      simp only [ZcState.shows, hth]
      exact .drained hth
  | publish c k => exact .of_publish hth hs
  | send c k => exact .of_send hth hs
  | reject c k =>
      obtain ⟨tp, htp, hs⟩ := Option.bind_eq_some_iff.mp hs
      cases hs
      simp only [ZcState.shows, hth]
      exact .reject hth htp
  | finish c => exact .of_finish hth hs
  | unlock t ret =>
      obtain ⟨tp, htp, hs⟩ := Option.bind_eq_some_iff.mp hs
      cases hs
      simp only [ZcState.shows, hth]
      exact .unlock hth htp
  | receive t k out => exact .of_receive hth hs
  | settle t k out got => exact .of_settle hth hs
  | build t out index =>
      obtain ⟨s₁, hs₁, hs⟩ := Option.bind_eq_some_iff.mp hs
      obtain ⟨old, hold, hkind, rfl⟩ := assignTemporary_eq_some hs₁
      cases hs
      simp only [ZcState.shows, hth]
      exact .built hth hold hkind

variable {last : ZcReturn}

theorem ZcStep.of_copyAssign {dst src : Nat} (hth : s.threads[n]? = some (.idle last))
    (hs : s.copyAssign n dst src = some s') :
    ZcStep s (.copyAssign n dst src) (s.shows (.copyAssign n dst src) s') s' := by
  obtain ⟨old, hold, hs⟩ := Option.bind_eq_some_iff.mp hs
  obtain ⟨l, hl, hs⟩ := Option.bind_eq_some_iff.mp hs
  split at hs
  case isTrue => cases hs
  case isFalse hkind =>
    rw [not_or, not_not, not_not] at hkind
    split at hs
    case isTrue =>
      cases hs
      exact .returns hth
    case isFalse =>
      split at hs
      case h_1 =>
        cases hs
        exact .assignEmpty hth hold hkind.1
      case h_2 index hindex =>
        obtain ⟨pool, hpool, hs⟩ := Option.bind_eq_some_iff.mp hs
        cases hs
        exact .assignCopy hth hl hkind.2 hindex hpool

theorem ZcStep.of_subscribe {t : Nat} (hth : s.threads[n]? = some (.idle last))
    (hs : s.subscribe n t = some s') :
    ZcStep s (.subscribe n t) (s.shows (.subscribe n t) s') s' := by
  obtain ⟨tp, htp, hs⟩ := Option.bind_eq_some_iff.mp hs
  obtain ⟨htp, halive⟩ := liveTopic_eq_some htp
  have hrefused : ZcStep s (.subscribe n t)
      (s.shows (.subscribe n t) (s.setThread n (.idle (.subscribed false invalidSubscriberId))))
      (s.setThread n (.idle (.subscribed false invalidSubscriberId))) := by
    simp only [ZcState.shows, ZcState.setThread, getElem?_set_thread hth]
    exact .returns hth
  split at hs
  case isTrue =>
    cases hs
    exact hrefused
  case isFalse =>
    split at hs
    case isTrue => cases hs
    case isFalse hmutex =>
      split at hs
      case h_1 =>
        cases hs
        exact hrefused
      case h_2 k sl hfind =>
        cases hs
        obtain ⟨hsl, hid⟩ := findSlot_eq_some hfind
        simp only [Bool.and_eq_true, decide_eq_true_eq] at hid
        simp only [ZcState.shows, ZcState.setThread, ZcState.setTopic, getElem?_set_thread hth]
        exact .subscribe hth htp halive (mutex_eq_none hmutex) hsl hid.1 hid.2

theorem ZcStep.of_unsubscribe {t id : Nat} (hth : s.threads[n]? = some (.idle last))
    (hs : s.unsubscribe n t id = some s') :
    ZcStep s (.unsubscribe n t id) (s.shows (.unsubscribe n t id) s') s' := by
  obtain ⟨tp, htp, hs⟩ := Option.bind_eq_some_iff.mp hs
  obtain ⟨htp, halive⟩ := liveTopic_eq_some htp
  have hrefused : ZcStep s (.unsubscribe n t id)
      (s.shows (.unsubscribe n t id) (s.setThread n (.idle (.bool false))))
      (s.setThread n (.idle (.bool false))) := by
    simp only [ZcState.shows, ZcState.setThread, getElem?_set_thread hth]
    exact .returns hth
  split at hs
  case isTrue =>
    cases hs
    exact hrefused
  case isFalse hid =>
    split at hs
    case isTrue => cases hs
    case isFalse hmutex =>
      split at hs
      case h_1 =>
        cases hs
        exact hrefused
      case h_2 k sl hfind =>
        obtain ⟨hsl, hk⟩ := findSlot_eq_some hfind
        split at hs
        case isTrue =>
          cases hs
          exact hrefused
        case isFalse hrec =>
          cases hs
          obtain rfl : sl.id = id := by simpa using hk
          simp only [ZcState.shows, ZcState.setThread, ZcState.setTopic, getElem?_set_thread hth]
          exact .unsubscribe hth htp halive (mutex_eq_none hmutex) hsl (not_or.mp hid).2
            (by simpa using hrec)

theorem ZcStep.of_publishZeroCopy {t h : Nat} (hth : s.threads[n]? = some (.idle last))
    (hs : s.publishZeroCopy n t h = some s') :
    ZcStep s (.publishZeroCopy n t h) (s.shows (.publishZeroCopy n t h) s') s' := by
  obtain ⟨tp, htp, hs⟩ := Option.bind_eq_some_iff.mp hs
  obtain ⟨htp, halive⟩ := liveTopic_eq_some htp
  obtain ⟨l, hl, hs⟩ := Option.bind_eq_some_iff.mp hs
  have hrefused : ∀ r, ZcStep s (.publishZeroCopy n t h)
      (s.shows (.publishZeroCopy n t h) (s.setThread n (.idle (.published r))))
      (s.setThread n (.idle (.published r))) := by
    intro r
    simp only [ZcState.shows, ZcState.setThread, getElem?_set_thread hth]
    exact .returns hth
  split at hs
  case isTrue => cases hs
  case isFalse hkind =>
    split at hs
    case h_1 =>
      cases hs
      exact hrefused _
    case h_2 index hindex =>
      split at hs
      case isTrue =>
        cases hs
        exact hrefused _
      case isFalse =>
        split at hs
        case isTrue => cases hs
        case isFalse hmutex =>
          cases hs
          simp only [ZcState.shows, ZcState.setThread, ZcState.setTopic, getElem?_set_thread hth]
          refine .publish hth htp halive (mutex_eq_none hmutex) (hl.trans ?_)
          rw [← hindex, ← not_not.mp hkind]

theorem ZcStep.of_receiveLoan {t id out : Nat} (hth : s.threads[n]? = some (.idle last))
    (hs : s.receiveLoan n t id out = some s') :
    ZcStep s (.receiveLoan n t id out) (s.shows (.receiveLoan n t id out) s') s' := by
  obtain ⟨tp, htp, hs⟩ := Option.bind_eq_some_iff.mp hs
  obtain ⟨htp, halive⟩ := liveTopic_eq_some htp
  have hrefused : ZcStep s (.receiveLoan n t id out)
      (s.shows (.receiveLoan n t id out) (s.setThread n (.idle (.bool false))))
      (s.setThread n (.idle (.bool false))) := by
    simp only [ZcState.shows, ZcState.setThread, getElem?_set_thread hth]
    exact .returns hth
  split at hs
  case isTrue =>
    cases hs
    exact hrefused
  case isFalse hid =>
    split at hs
    case isTrue => cases hs
    case isFalse hmutex =>
      split at hs
      case h_1 =>
        cases hs
        exact hrefused
      case h_2 k sl hfind =>
        cases hs
        obtain ⟨hsl, hk⟩ := findSlot_eq_some hfind
        obtain rfl : sl.id = id := by simpa using hk
        simp only [ZcState.shows, ZcState.setThread, ZcState.setTopic, getElem?_set_thread hth]
        exact .enter hth htp halive (mutex_eq_none hmutex) hsl (not_or.mp hid).2

theorem ZcStep.of_tryLoan (a : ZcAction) : ZcStep s a [] s.tryLoan := by
  rw [ZcState.tryLoan]
  split
  case isTrue => exact .lend
  case isFalse => exact .newLoan .producer

theorem ZcStep.of_next {a : ZcAction} (hs : s.next a = some s') :
    ZcStep s a (s.shows a s') s' := by
  cases a with
  | spawn =>
      cases hs
      exact .spawn
  | topic perSubCapacity mutexValid queues =>
      cases hs
      exact .topic perSubCapacity mutexValid queues
  | newLoan kind =>
      cases hs
      exact .newLoan kind
  | tryLoan =>
      cases hs
      exact .of_tryLoan _
  | topicTryLoan t =>
      obtain ⟨tp, -, hs⟩ := Option.bind_eq_some_iff.mp hs
      split at hs
      case isTrue =>
        cases hs
        exact .of_tryLoan _
      case isFalse =>
        cases hs
        exact .newLoan .producer
  | releaseLoan h =>
      obtain ⟨l, hl, hs⟩ := Option.bind_eq_some_iff.mp hs
      cases hs
      exact .release hl
  | moveLoan src =>
      obtain ⟨l, hl, hs⟩ := Option.bind_eq_some_iff.mp hs
      cases hs
      exact .move hl
  | moveAssign dst src =>
      obtain ⟨old, hold, hs⟩ := Option.bind_eq_some_iff.mp hs
      obtain ⟨l, hl, hs⟩ := Option.bind_eq_some_iff.mp hs
      split at hs
      case isTrue => cases hs
      case isFalse hkind =>
        split at hs
        case isTrue =>
          cases hs
          exact .stay
        case isFalse hne =>
          cases hs
          exact .moveAssign hold hl (not_not.mp hkind) hne
  | copyLoan src =>
      obtain ⟨l, hl, hs⟩ := Option.bind_eq_some_iff.mp hs
      split at hs
      case isTrue => cases hs
      case isFalse hkind =>
        obtain ⟨pool, hpool, hs⟩ := Option.bind_eq_some_iff.mp hs
        cases hs
        exact .copy hl (not_not.mp hkind) hpool
  | copyAssign n dst src =>
      obtain ⟨⟨last, hth⟩, hs⟩ := call_eq_some hs
      exact .of_copyAssign hth hs
  | subscribe n t =>
      obtain ⟨⟨last, hth⟩, hs⟩ := call_eq_some hs
      exact .of_subscribe hth hs
  | unsubscribe n t id =>
      obtain ⟨⟨last, hth⟩, hs⟩ := call_eq_some hs
      exact .of_unsubscribe hth hs
  | publishZeroCopy n t h =>
      obtain ⟨⟨last, hth⟩, hs⟩ := call_eq_some hs
      exact .of_publishZeroCopy hth hs
  | receiveLoan n t id out =>
      obtain ⟨⟨last, hth⟩, hs⟩ := call_eq_some hs
      exact .of_receiveLoan hth hs
  | destroy n t =>
      obtain ⟨⟨last, hth⟩, hs⟩ := call_eq_some hs
      obtain ⟨tp, htp, hs⟩ := Option.bind_eq_some_iff.mp hs
      split at hs
      case isTrue => cases hs
      case isFalse hnone =>
        cases hs
        refine .destroy hth (liveTopic_eq_some htp).1 ?_
        intro m thm hm ht
        exact hnone (List.any_eq_true.mpr ⟨thm, List.mem_of_getElem? hm, by simpa using ht⟩)
  | advance n pops =>
      obtain ⟨th, hth, hs⟩ := Option.bind_eq_some_iff.mp hs
      exact .of_advance hth hs

end Inversion

end MicrOsal
