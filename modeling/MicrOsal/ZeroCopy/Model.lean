import MicrOsal.Lib.Machine
import MicrOsal.ZeroCopy.Pool

/-!
# MicrOsal.ZeroCopy.Model

Loans and topics of the zero-copy transport
(`include/osal/bus/zero_copy_signal.hpp`): any number of producer loans, read
loans, topics and threads over one `message_pool`.

A step ends where a lock is given up, so what a thread does with its own
variables belongs to the locked region next to it: `release()` of a loan is one
step, `publish_zero_copy` takes one step for every `retain_`, `try_send` and
`release_` it performs under the topic's mutex, and `receive_loan` leaves the
mutex to wait on the queue. A step whose assertion fails is not taken.

The generic bus queue is a bounded FIFO: `try_send` fails, without effect, when
the queue is full. Whether a `receive` returns an index or gives up is decided
by the action.
-/

namespace MicrOsal

/-! ### Loans -/

/-- `producer_loan` or `read_loan`. -/
inductive LoanKind
  | producer
  | read
  deriving DecidableEq, Repr

/-- A loan object; `index` is `none` when `pool_` is null. -/
structure Loan where
  kind : LoanKind
  index : Option Nat
  deriving DecidableEq, Repr

/-- The loan is a live one of kind `kind` on slot `i`. -/
def Loan.holds (kind : LoanKind) (i : Nat) (l : Loan) : Bool := l.kind = kind ∧ l.index = some i

/-- The object after `std::exchange(pool_, nullptr)`. -/
def Loan.emptied (l : Loan) : Loan := { l with index := none }

/-! ### Topics -/

/-- `invalid_subscriber_id`. -/
def invalidSubscriberId : Nat := sizeModulus - 1

/-- `subscriber_slot`. -/
structure SubscriberSlot where
  /-- `queue.valid()`. -/
  queueValid : Bool
  queue : List Nat
  id : Nat
  receivers : Nat
  backlog : Nat
  deriving DecidableEq, Repr

/-- `zero_copy_signal`. `MaxSubscribers` is the number of slots. -/
structure ZeroCopySignal where
  perSubCapacity : Nat
  /-- `mutex_.valid()`. -/
  mutexValid : Bool
  /-- The destructor has not been entered. -/
  alive : Bool
  /-- The thread that holds `mutex_`. -/
  mutex : Option Nat
  slots : List SubscriberSlot
  nextId : Nat
  /-- `stats_.drops`. -/
  drops : Nat
  /-- `stats_.high_water`. -/
  highWater : Nat
  /-- A record, read by no operation: some count was decremented at zero. -/
  underflow : Bool
  deriving DecidableEq, Repr

namespace ZeroCopySignal

/-- The constructor; `queues` says which slots' queues could be created. -/
def create (perSubCapacity : Nat) (mutexValid : Bool) (queues : List Bool) : ZeroCopySignal where
  perSubCapacity := perSubCapacity
  mutexValid := mutexValid
  alive := true
  mutex := none
  slots := queues.map (fun valid => ⟨valid, [], invalidSubscriberId, 0, 0⟩)
  nextId := 0
  drops := 0
  highWater := 0
  underflow := false

/-- A slot of a new topic is empty and has no subscriber. -/
theorem create_slot {perSubCapacity k : Nat} {mutexValid : Bool} {queues : List Bool}
    {sl : SubscriberSlot} (hsl : (create perSubCapacity mutexValid queues).slots[k]? = some sl) :
    sl.queue = [] ∧ sl.id = invalidSubscriberId := by
  simp only [create, List.getElem?_map, Option.map_eq_some_iff] at hsl
  obtain ⟨valid, -, rfl⟩ := hsl
  exact ⟨rfl, rfl⟩

/-- `valid`. -/
def valid (tp : ZeroCopySignal) (pool : MessagePool) : Bool :=
  tp.mutexValid && pool.mutexValid && tp.slots.all (·.queueValid)

/-- The first slot that meets `p`, as the loops over `slots_` look for it. -/
def findSlot (tp : ZeroCopySignal) (p : SubscriberSlot → Bool) : Option (Nat × SubscriberSlot) :=
  (tp.slots.findIdx? p).bind (fun k => (tp.slots[k]?).map (fun sl => (k, sl)))

/-- Store slot `k`. -/
def setSlot (tp : ZeroCopySignal) (k : Nat) (sl : SubscriberSlot) : ZeroCopySignal :=
  { tp with slots := tp.slots.set k sl }

/-- `update_high_water_`. -/
def updateHighWater (tp : ZeroCopySignal) : ZeroCopySignal :=
  let backlog := (tp.slots.map (·.backlog)).sum
  if backlog > tp.highWater then { tp with highWater := backlog } else tp

end ZeroCopySignal

/-- `publish_status`. -/
inductive PublishStatus
  | delivered
  | partlyDelivered
  | noSubscribers
  | full
  | invalidLoan
  deriving DecidableEq, Repr

/-- `publish_result`. -/
structure PublishResult where
  accepted : Nat
  dropped : Nat
  status : PublishStatus
  deriving DecidableEq, Repr

/-- The status `publish_zero_copy` reports for its counts. -/
def publishStatus (accepted dropped : Nat) : PublishStatus :=
  if accepted ≠ 0 then (if dropped = 0 then .delivered else .partlyDelivered)
  else if dropped = 0 then .noSubscribers else .full

/-! ### Threads -/

/-- What a thread's last call returned. -/
inductive ZcReturn
  | void
  | bool (ok : Bool)
  /-- `subscribe`, with the value stored through `out`. -/
  | subscribed (ok : Bool) (out : Nat)
  | published (result : PublishResult)
  deriving DecidableEq, Repr

/-- The variables of `publish_zero_copy`. -/
structure ZcPublish where
  topic : Nat
  /-- The loan object. -/
  loan : Nat
  /-- `loan.index_`. -/
  index : Nat
  accepted : Nat
  dropped : Nat
  deriving DecidableEq, Repr

/-- Who called `drain_`. -/
inductive ZcDrain
  | unsubscribe
  | destructor
  deriving DecidableEq, Repr

/-- Where a thread is. -/
inductive ZcThread
  | idle (last : ZcReturn)
  /-- Copy assignment to loan `dst`: the copy has been made, on `index`. -/
  | copyAssign (dst index : Nat)
  /-- The destructor: about to look at slot `k`. -/
  | destroy (t k : Nat)
  /-- `drain_`: about to call `try_receive`. -/
  | drain (t k : Nat) (caller : ZcDrain)
  /-- `drain_`: about to release the index received. -/
  | drained (t k : Nat) (caller : ZcDrain) (index : Nat)
  /-- `publish_zero_copy`: about to look at slot `k`. -/
  | publish (c : ZcPublish) (k : Nat)
  /-- Retained: about to call `try_send`. -/
  | send (c : ZcPublish) (k : Nat)
  /-- The queue was full: about to release. -/
  | reject (c : ZcPublish) (k : Nat)
  /-- Every slot has been looked at. -/
  | finish (c : ZcPublish)
  /-- About to unlock the topic's mutex and return. -/
  | unlock (t : Nat) (ret : ZcReturn)
  /-- `receive_loan`: in `queue.receive` of slot `k`. -/
  | receive (t k out : Nat)
  /-- About to lock the mutex and count the call out. -/
  | settle (t k out : Nat) (got : Option Nat)
  /-- About to build the loan and assign it to `out`. -/
  | build (t out index : Nat)
  deriving DecidableEq, Repr

/-- The loan object a running `publish_zero_copy` works on. -/
def ZcThread.publishing : ZcThread → Option ZcPublish
  | .publish c _ => some c
  | .send c _ => some c
  | .reject c _ => some c
  | .finish c => some c
  | _ => none

/-- The topic whose member function runs. -/
def ZcThread.topic : ZcThread → Option Nat
  | .idle _ => none
  | .copyAssign _ _ => none
  | .destroy t _ => some t
  | .drain t _ _ => some t
  | .drained t _ _ _ => some t
  | .publish c _ => some c.topic
  | .send c _ => some c.topic
  | .reject c _ => some c.topic
  | .finish c => some c.topic
  | .unlock t _ => some t
  | .receive t _ _ => some t
  | .settle t _ _ _ => some t
  | .build t _ _ => some t

/-! ### State -/

/-- The whole system. Loans, topics and threads are named by their positions. -/
structure ZcState where
  pool : MessagePool
  loans : List Loan
  topics : List ZeroCopySignal
  threads : List ZcThread
  deriving DecidableEq, Repr

namespace ZcState

/-- The topic `t`, while it may be called. -/
def liveTopic (s : ZcState) (t : Nat) : Option ZeroCopySignal := (s.topics[t]?).filter (·.alive)

/-- A running `publish_zero_copy` has been given the loan object `h`. Loan
objects are not synchronised: nobody else touches it until that call returns. -/
def busy (s : ZcState) (h : Nat) : Bool :=
  s.threads.any (fun th => th.publishing.any (fun c => c.loan = h))

/-- The loan object `h`, while it may be touched. -/
def freeLoan (s : ZcState) (h : Nat) : Option Loan := if s.busy h then none else s.loans[h]?

def setThread (s : ZcState) (n : Nat) (th : ZcThread) : ZcState :=
  { s with threads := s.threads.set n th }

def setTopic (s : ZcState) (t : Nat) (tp : ZeroCopySignal) : ZcState :=
  { s with topics := s.topics.set t tp }

/-! ### Operations on loans -/

/-- `message_pool::try_loan`; the result is a new loan object. -/
def tryLoan (s : ZcState) : ZcState :=
  if s.pool.mutexValid then
    { s with pool := s.pool.tryLoan.1, loans := s.loans ++ [⟨.producer, s.pool.tryLoan.2⟩] }
  else { s with loans := s.loans ++ [⟨.producer, none⟩] }

/-- `zero_copy_signal::try_loan`. -/
def topicTryLoan (s : ZcState) (t : Nat) : Option ZcState := do
  let tp ← s.liveTopic t
  if tp.valid s.pool then some s.tryLoan
  else some { s with loans := s.loans ++ [⟨.producer, none⟩] }

/-- `release()` and the destructor of either kind of loan. -/
def releaseLoan (s : ZcState) (h : Nat) : Option ZcState := do
  let l ← s.freeLoan h
  some { s with pool := s.pool.drop l.index, loans := s.loans.set h l.emptied }

/-- The move constructor of either kind of loan. -/
def moveLoan (s : ZcState) (src : Nat) : Option ZcState := do
  let l ← s.freeLoan src
  some { s with loans := s.loans.set src l.emptied ++ [l] }

/-- The move assignment of either kind of loan. -/
def moveAssign (s : ZcState) (dst src : Nat) : Option ZcState := do
  let old ← s.freeLoan dst
  let l ← s.freeLoan src
  if old.kind ≠ l.kind then none
  else if dst = src then some s
  else some { s with
    pool := s.pool.drop old.index
    loans := (s.loans.set src l.emptied).set dst l }

/-- The copy constructor of a read loan. -/
def copyLoan (s : ZcState) (src : Nat) : Option ZcState := do
  let l ← s.loans[src]?
  if l.kind ≠ .read then none
  else
    let pool ← s.pool.share l.index
    some { s with pool := pool, loans := s.loans ++ [l] }

/-- Move assignment of a temporary read loan on `index` to the read loan `dst`. -/
def assignTemporary (s : ZcState) (dst index : Nat) : Option ZcState := do
  let old ← s.loans[dst]?
  if old.kind ≠ .read then none
  else some { s with
    pool := s.pool.drop old.index
    loans := s.loans.set dst { old with index := some index } }

/-- The copy assignment of a read loan, up to the copy that it makes first. -/
def copyAssign (s : ZcState) (n dst src : Nat) : Option ZcState := do
  let old ← s.loans[dst]?
  let l ← s.loans[src]?
  if old.kind ≠ .read ∨ l.kind ≠ .read then none
  else if dst = src then some (s.setThread n (.idle .void))
  else
    match l.index with
    | none =>
        -- An empty copy: the assignment only releases `dst`.
        some { s with
          pool := s.pool.drop old.index
          loans := s.loans.set dst old.emptied
          threads := s.threads.set n (.idle .void) }
    | some index =>
        let pool ← s.pool.retain index
        some { s with pool := pool, threads := s.threads.set n (.copyAssign dst index) }

/-! ### Calls on a topic -/

/-- `subscribe`. -/
def subscribe (s : ZcState) (n t : Nat) : Option ZcState := do
  let tp ← s.liveTopic t
  if ¬ tp.valid s.pool then some (s.setThread n (.idle (.subscribed false invalidSubscriberId)))
  else if tp.mutex.isSome then none
  else
    match tp.findSlot
      (fun sl => sl.id = invalidSubscriberId && tp.nextId ≠ invalidSubscriberId) with
    | none => some (s.setThread n (.idle (.subscribed false invalidSubscriberId)))
    | some (k, sl) =>
        let tp' := { tp.setSlot k { sl with id := tp.nextId } with nextId := tp.nextId + 1 }
        some ((s.setTopic t tp').setThread n (.idle (.subscribed true tp.nextId)))

/-- `unsubscribe`, up to `drain_`. -/
def unsubscribe (s : ZcState) (n t id : Nat) : Option ZcState := do
  let tp ← s.liveTopic t
  if ¬ tp.valid s.pool ∨ id = invalidSubscriberId then some (s.setThread n (.idle (.bool false)))
  else if tp.mutex.isSome then none
  else
    match tp.findSlot (fun sl => sl.id = id) with
    | none => some (s.setThread n (.idle (.bool false)))
    | some (k, sl) =>
        if sl.receivers ≠ 0 then some (s.setThread n (.idle (.bool false)))
        else
          let tp' := { tp.setSlot k { sl with id := invalidSubscriberId } with mutex := some n }
          some ((s.setTopic t tp').setThread n (.drain t k .unsubscribe))

/-- `publish_zero_copy`, up to the loop. -/
def publishZeroCopy (s : ZcState) (n t h : Nat) : Option ZcState := do
  let tp ← s.liveTopic t
  let l ← s.freeLoan h
  if l.kind ≠ .producer then none
  else
    match l.index with
    | none => some (s.setThread n (.idle (.published ⟨0, 0, .invalidLoan⟩)))
    | some index =>
        if ¬ tp.valid s.pool then some (s.setThread n (.idle (.published ⟨0, 0, .invalidLoan⟩)))
        else if tp.mutex.isSome then none
        else some ((s.setTopic t { tp with mutex := some n }).setThread n
          (.publish ⟨t, h, index, 0, 0⟩ 0))

/-- `receive_loan`, up to `queue.receive`. -/
def receiveLoan (s : ZcState) (n t id out : Nat) : Option ZcState := do
  let tp ← s.liveTopic t
  if ¬ tp.valid s.pool ∨ id = invalidSubscriberId then some (s.setThread n (.idle (.bool false)))
  else if tp.mutex.isSome then none
  else
    match tp.findSlot (fun sl => sl.id = id) with
    | none => some (s.setThread n (.idle (.bool false)))
    | some (k, sl) =>
        some ((s.setTopic t (tp.setSlot k { sl with receivers := sl.receivers + 1 })).setThread n
          (.receive t k out))

/-- The destructor is entered: no other thread may be in a call on the topic. -/
def destroy (s : ZcState) (n t : Nat) : Option ZcState := do
  let tp ← s.liveTopic t
  if s.threads.any (fun th => th.topic = some t) then none
  else some ((s.setTopic t { tp with alive := false }).setThread n (.destroy t 0))

/-! ### Steps inside a call -/

/-- `drain_` has returned to its caller. -/
def drainReturn (t k : Nat) : ZcDrain → ZcThread
  | .unsubscribe => .unlock t (.bool true)
  | .destructor => .destroy t (k + 1)

/-- The next step of thread `n`. `pops` decides whether a waiting `receive`
returns an index or gives up. -/
def advance (s : ZcState) (n : Nat) (pops : Bool) : ZcThread → Option ZcState
  | .idle _ => none
  | .copyAssign dst index => do
      let s' ← s.assignTemporary dst index
      some (s'.setThread n (.idle .void))
  | .destroy t k => do
      let tp ← s.topics[t]?
      match tp.slots[k]? with
      | none => some (s.setThread n (.idle .void))
      | some sl =>
          -- `assert(slot.receivers == 0U)`
          if sl.receivers ≠ 0 then none else some (s.setThread n (.drain t k .destructor))
  | .drain t k caller => do
      let tp ← s.topics[t]?
      let sl ← tp.slots[k]?
      if ¬ sl.queueValid then some (s.setThread n (drainReturn t k caller))
      else
        match sl.queue with
        | index :: rest =>
            some ((s.setTopic t (tp.setSlot k { sl with queue := rest })).setThread n
              (.drained t k caller index))
        | [] =>
            some ((s.setTopic t (tp.setSlot k { sl with backlog := 0 })).setThread n
              (drainReturn t k caller))
  | .drained t k caller index =>
      some ({ s with pool := s.pool.release index }.setThread n (.drain t k caller))
  | .publish c k => do
      let tp ← s.topics[c.topic]?
      match tp.slots[k]? with
      | none => some ((s.setTopic c.topic tp.updateHighWater).setThread n (.finish c))
      | some sl =>
          if sl.id = invalidSubscriberId then some (s.setThread n (.publish c (k + 1)))
          else
            let pool ← s.pool.retain c.index
            some ({ s with pool := pool }.setThread n (.send c k))
  | .send c k => do
      let tp ← s.topics[c.topic]?
      let sl ← tp.slots[k]?
      if sl.queue.length < tp.perSubCapacity then
        let sl' := { sl with queue := sl.queue ++ [c.index], backlog := sl.backlog + 1 }
        some ((s.setTopic c.topic (tp.setSlot k sl')).setThread n
          (.publish { c with accepted := c.accepted + 1 } (k + 1)))
      else some (s.setThread n (.reject c k))
  | .reject c k => do
      let tp ← s.topics[c.topic]?
      some (({ s with pool := s.pool.release c.index }.setTopic c.topic
        { tp with drops := tp.drops + 1 }).setThread n
          (.publish { c with dropped := c.dropped + 1 } (k + 1)))
  | .finish c => do
      let ret := .published ⟨c.accepted, c.dropped, publishStatus c.accepted c.dropped⟩
      if c.accepted ≠ 0 then
        let l ← s.loans[c.loan]?
        some { s with
          pool := s.pool.drop l.index
          loans := s.loans.set c.loan l.emptied
          threads := s.threads.set n (.unlock c.topic ret) }
      else some (s.setThread n (.unlock c.topic ret))
  | .unlock t ret => do
      let tp ← s.topics[t]?
      some ((s.setTopic t { tp with mutex := none }).setThread n (.idle ret))
  | .receive t k out => do
      let tp ← s.topics[t]?
      let sl ← tp.slots[k]?
      if pops then
        match sl.queue with
        | [] => none
        | index :: rest =>
            some ((s.setTopic t (tp.setSlot k { sl with queue := rest })).setThread n
              (.settle t k out (some index)))
      else some (s.setThread n (.settle t k out none))
  | .settle t k out got => do
      let tp ← s.topics[t]?
      let sl ← tp.slots[k]?
      if tp.mutex.isSome then none
      else
        match got with
        | none =>
            let tp' := { tp.setSlot k { sl with receivers := sizeDecr sl.receivers } with
              underflow := tp.underflow || sl.receivers == 0 }
            some ((s.setTopic t tp').setThread n (.idle (.bool false)))
        | some index =>
            let sl' := { sl with
              receivers := sizeDecr sl.receivers
              backlog := sizeDecr sl.backlog }
            let tp' := { tp.setSlot k sl' with
              underflow := tp.underflow || sl.receivers == 0 || sl.backlog == 0 }
            some ((s.setTopic t tp').setThread n (.build t out index))
  | .build _ out index => do
      let s' ← s.assignTemporary out index
      some (s'.setThread n (.idle (.bool true)))

end ZcState

/-! ### The machine -/

/-- What happens next. -/
inductive ZcAction
  /-- A thread comes into being. -/
  | spawn
  /-- A topic on the pool is constructed. -/
  | topic (perSubCapacity : Nat) (mutexValid : Bool) (queues : List Bool)
  /-- An empty loan is constructed. -/
  | newLoan (kind : LoanKind)
  | tryLoan
  | topicTryLoan (t : Nat)
  | releaseLoan (h : Nat)
  | moveLoan (src : Nat)
  | moveAssign (dst src : Nat)
  | copyLoan (src : Nat)
  | copyAssign (n dst src : Nat)
  | subscribe (n t : Nat)
  | unsubscribe (n t id : Nat)
  | publishZeroCopy (n t h : Nat)
  | receiveLoan (n t id out : Nat)
  | destroy (n t : Nat)
  /-- Thread `n` takes the next step of its call. -/
  | advance (n : Nat) (pops : Bool)
  deriving DecidableEq, Repr

namespace ZcState

/-- Thread `n` exists and is not in a call. -/
def isIdle (s : ZcState) (n : Nat) : Bool :=
  match s.threads[n]? with
  | some (.idle _) => true
  | _ => false

/-- A call by thread `n`, which must not be in another one. -/
def call (s : ZcState) (n : Nat) (f : Option ZcState) : Option ZcState :=
  if s.isIdle n then f else none

/-- One step of the system. -/
def next (s : ZcState) : ZcAction → Option ZcState
  | .spawn => some { s with threads := s.threads ++ [.idle .void] }
  | .topic perSubCapacity mutexValid queues =>
      some { s with topics := s.topics ++ [.create perSubCapacity mutexValid queues] }
  | .newLoan kind => some { s with loans := s.loans ++ [⟨kind, none⟩] }
  | .tryLoan => some s.tryLoan
  | .topicTryLoan t => s.topicTryLoan t
  | .releaseLoan h => s.releaseLoan h
  | .moveLoan src => s.moveLoan src
  | .moveAssign dst src => s.moveAssign dst src
  | .copyLoan src => s.copyLoan src
  | .copyAssign n dst src => s.call n (s.copyAssign n dst src)
  | .subscribe n t => s.call n (s.subscribe n t)
  | .unsubscribe n t id => s.call n (s.unsubscribe n t id)
  | .publishZeroCopy n t h => s.call n (s.publishZeroCopy n t h)
  | .receiveLoan n t id out => s.call n (s.receiveLoan n t id out)
  | .destroy n t => s.call n (s.destroy n t)
  | .advance n pops => (s.threads[n]?).bind (s.advance n pops)

end ZcState

/-- The transport over a pool of `capacity` slots. -/
def zeroCopyMachine (capacity : Nat) (poolValid : Bool) : Machine ZcState ZcAction where
  init := ⟨.create capacity poolValid, [], [], []⟩
  step := ZcState.next

end MicrOsal
