import MicrOsal.Queue.Model

/-!
# MicrOsal.ChibiosQueue.Model

The queue of the ChibiOS backend (`chibios/chibios_backend.cpp`): entries in storage of the
caller, and two mailboxes that carry their indices, one those of the free entries and one
those of the entries that hold an item.

A call of a task fetches an index from one mailbox, copies the item, and posts the index to
the other, in steps of their own; between them it holds the index. A call from an interrupt
has the system lock throughout, and is one step.
-/

namespace MicrOsal.ChibiosQueue

open MicrOsal.Queue (Item Timeout copyIn copyOut)

/-- `mailbox_t`: at most `size` messages, first in, first out. -/
structure Mailbox where
  size : Nat
  messages : List Nat
  deriving DecidableEq

namespace Mailbox

/-- `chMBPostTimeout` with `TIME_IMMEDIATE`, or `chMBPostI`; `none` when it is full. -/
def post (mb : Mailbox) (message : Nat) : Option Mailbox :=
  if mb.messages.length < mb.size then some { mb with messages := mb.messages ++ [message] }
  else none

/-- `chMBFetchTimeout` or `chMBFetchI` of a mailbox that need not wait; `none` when it is
empty. -/
def fetch (mb : Mailbox) : Option (Nat × Mailbox) :=
  match mb.messages with
  | [] => none
  | message :: rest => some (message, { mb with messages := rest })

end Mailbox

/-- `ch_mailbox_slot`, for items of `size` bytes. -/
structure MailboxSlot (size : Nat) where
  storage : Nat → UInt8
  capacity : Nat
  ready : Mailbox
  free : Mailbox

/-- The loop of `osal_queue_create` over the indices. -/
def postAll (mb : Mailbox) : List Nat → Option Mailbox
  | [] => some mb
  | index :: rest => (mb.post index).bind (fun mb' => postAll mb' rest)

/-- `osal_queue_create` with a buffer; `depth` is `OSAL_CH_MAILBOX_DEPTH`, and `acquired` says
whether the pool has a slot. -/
def create (depth : Nat) (acquired : Bool) (storage : Nat → UInt8) (size capacity : Nat) :
    Except ErrorCode (MailboxSlot size) :=
  if size = 0 ∨ capacity = 0 then .error .invalidArgument
  else if depth < capacity then .error .notSupported
  else if ! acquired then .error .outOfResources
  else
    match postAll ⟨capacity, []⟩ (List.range capacity) with
    | none => .error .outOfResources
    | some free => .ok ⟨storage, capacity, ⟨capacity, []⟩, free⟩

namespace MailboxSlot

variable {size : Nat}

/-- The item that an entry holds. -/
def entry (q : MailboxSlot size) (index : Nat) : Item size := copyOut q.storage (index * size)

/-- An item is copied into an entry. -/
def write (q : MailboxSlot size) (index : Nat) (item : Item size) : MailboxSlot size :=
  { q with storage := copyIn q.storage (index * size) item }

/-- `osal_queue_count`. -/
def count (q : MailboxSlot size) : Nat := q.ready.messages.length

/-- `osal_queue_free`. -/
def freeCount (q : MailboxSlot size) : Nat := q.free.messages.length

end MailboxSlot

/-- How far a call of a task is. `ticket` is how many items others have fetched before it; no
step reads it. -/
inductive Thread (size : Nat)
  /-- Outside; `last` is what its last call returned. -/
  | idle (last : Option ErrorCode)
  /-- In `chMBFetchTimeout` of the free mailbox. -/
  | sendWaits (item : Item size) (timeout : Timeout)
  /-- With an entry to copy the item into. -/
  | copiesIn (item : Item size) (index : Nat)
  /-- About to post the entry to the ready mailbox. -/
  | postsReady (item : Item size) (index : Nat)
  /-- About to give the entry back, and to fail with `code`. -/
  | givesBack (index : Nat) (code : ErrorCode)
  /-- In `chMBFetchTimeout` of the ready mailbox. -/
  | receiveWaits (timeout : Timeout)
  /-- With an entry to copy the item out of. -/
  | copiesOut (index ticket : Nat)
  /-- About to post the entry to the free mailbox. -/
  | postsFree (item : Item size) (index ticket : Nat)
  deriving DecidableEq

namespace Thread

variable {size : Nat}

/-- The index that the call holds. -/
def held : Thread size → Option Nat
  | .copiesIn _ index | .postsReady _ index | .givesBack index _ | .copiesOut index _
  | .postsFree _ index _ => some index
  | _ => none

/-- The item it has fetched and not returned yet. -/
def ticket : Thread size → Option Nat
  | .copiesOut _ ticket | .postsFree _ _ ticket => some ticket
  | _ => none

def holds (index : Nat) (th : Thread size) : Bool := th.held = some index

def hasTicket (k : Nat) (th : Thread size) : Bool := th.ticket = some k

end Thread

structure State (size : Nat) where
  queue : MailboxSlot size
  threads : List (Thread size)
  /-- The items that were sent, in the order of their posts; those whose entries were fetched
  to be received; and those that calls have returned, each with its number. No step reads
  them. -/
  sent : List (Item size)
  fetched : List (Item size)
  returned : List (Nat × Item size)

inductive Action (size : Nat)
  | spawn
  | send (n : Nat) (item : Item size) (timeout : Timeout)
  | receive (n : Nat) (timeout : Timeout)
  /-- The call of thread `n` makes its next step. -/
  | go (n : Nat)
  /-- The fetch of thread `n` finds nothing at once, or in its time. -/
  | giveUp (n : Nat)
  | sendIsr (n : Nat) (item : Item size)
  | receiveIsr (n : Nat)

namespace State

variable {size : Nat}

def setThread (s : State size) (n : Nat) (th : Thread size) : State size :=
  { s with threads := s.threads.set n th }

/-- The call of thread `n` returns. -/
def finish (s : State size) (n : Nat) (code : ErrorCode) : State size :=
  s.setThread n (.idle (some code))

/-- A send has fetched an index: the test of it. -/
def fetchFree (s : State size) (n : Nat) (item : Item size) : Option (State size) :=
  match s.queue.free.fetch with
  | none => none
  | some (index, free) =>
      let s' := { s with queue := { s.queue with free := free } }
      if s.queue.capacity ≤ index then some (s'.setThread n (.givesBack index .notInitialized))
      else some (s'.setThread n (.copiesIn item index))

/-- A send posts its entry. -/
def postReady (s : State size) (n : Nat) (item : Item size) (index : Nat) : State size :=
  match s.queue.ready.post index with
  | none => s.setThread n (.givesBack index .outOfResources)
  | some ready =>
      { s with
        queue := { s.queue with ready := ready }
        sent := s.sent ++ [item] }.finish n .ok

/-- A send that has failed posts its entry back. -/
def giveBack (s : State size) (n : Nat) (index : Nat) (code : ErrorCode) : State size :=
  match s.queue.free.post index with
  | none => s.finish n code
  | some free => { s with queue := { s.queue with free := free } }.finish n code

/-- A receive has fetched an index: the test of it. -/
def fetchReady (s : State size) (n : Nat) : Option (State size) :=
  match s.queue.ready.fetch with
  | none => none
  | some (index, ready) =>
      let s' := { s with
        queue := { s.queue with ready := ready }
        fetched := s.fetched ++ [s.queue.entry index] }
      if s.queue.capacity ≤ index then some (s'.finish n .notInitialized)
      else some (s'.setThread n (.copiesOut index s.fetched.length))

/-- A receive posts its entry. -/
def postFree (s : State size) (n : Nat) (item : Item size) (index ticket : Nat) : State size :=
  match s.queue.free.post index with
  | none => s.finish n .outOfResources
  | some free =>
      { s with
        queue := { s.queue with free := free }
        returned := s.returned ++ [(ticket, item)] }.finish n .ok

/-- The call of thread `n` makes its next step. -/
def go (s : State size) (n : Nat) : Thread size → Option (State size)
  | .idle _ => none
  | .sendWaits item _ => s.fetchFree n item
  | .copiesIn item index =>
      some ({ s with queue := s.queue.write index item }.setThread n (.postsReady item index))
  | .postsReady item index => some (s.postReady n item index)
  | .givesBack index code => some (s.giveBack n index code)
  | .receiveWaits _ => s.fetchReady n
  | .copiesOut index ticket =>
      some (s.setThread n (.postsFree (s.queue.entry index) index ticket))
  | .postsFree item index ticket => some (s.postFree n item index ticket)

/-- A fetch ends without an index; with `NO_WAIT`, because the mailbox is empty. -/
def fetchFails (s : State size) (n : Nat) (mb : Mailbox) : Timeout → Option (State size)
  | .noWait => if mb.messages = [] then some (s.finish n .wouldBlock) else none
  | .wait true => some (s.finish n .timeout)
  | .wait false => none

def giveUp (s : State size) (n : Nat) : Thread size → Option (State size)
  | .sendWaits _ timeout => s.fetchFails n s.queue.free timeout
  | .receiveWaits timeout => s.fetchFails n s.queue.ready timeout
  | _ => none

/-- What `osal_queue_send_isr` does when it cannot post the entry. -/
def giveBackIsr (s : State size) (n : Nat) (index : Nat) : State size :=
  match s.queue.free.post index with
  | none => s.finish n .wouldBlock
  | some free => { s with queue := { s.queue with free := free } }.finish n .wouldBlock

/-- `osal_queue_send_isr`. -/
def sendIsr (s : State size) (n : Nat) (item : Item size) : State size :=
  match s.queue.free.fetch with
  | none => s.finish n .wouldBlock
  | some (index, free) =>
      let s' := { s with queue := { s.queue with free := free } }
      if index < s.queue.capacity then
        let written := { s' with queue := s'.queue.write index item }
        match s.queue.ready.post index with
        | none => written.giveBackIsr n index
        | some ready =>
            { written with
              queue := { written.queue with ready := ready }
              sent := s.sent ++ [item] }.finish n .ok
      else s'.giveBackIsr n index

/-- `osal_queue_receive_isr`. -/
def receiveIsr (s : State size) (n : Nat) : State size :=
  match s.queue.ready.fetch with
  | none => s.finish n .wouldBlock
  | some (index, ready) =>
      let s' := { s with
        queue := { s.queue with ready := ready }
        fetched := s.fetched ++ [s.queue.entry index] }
      if index < s.queue.capacity then
        match s.queue.free.post index with
        | none => s'.finish n .wouldBlock
        | some free =>
            { s' with
              queue := { s'.queue with free := free }
              returned := s.returned ++ [(s.fetched.length, s.queue.entry index)] }.finish n .ok
      else s'.finish n .wouldBlock

def step (s : State size) : Action size → Option (State size)
  | .spawn => some { s with threads := s.threads ++ [.idle none] }
  | .send n item timeout =>
      match s.threads[n]? with
      | some (.idle _) => some (s.setThread n (.sendWaits item timeout))
      | _ => none
  | .receive n timeout =>
      match s.threads[n]? with
      | some (.idle _) => some (s.setThread n (.receiveWaits timeout))
      | _ => none
  | .go n => (s.threads[n]?).bind (fun th => s.go n th)
  | .giveUp n => (s.threads[n]?).bind (fun th => s.giveUp n th)
  | .sendIsr n item =>
      match s.threads[n]? with
      | some (.idle _) => some (s.sendIsr n item)
      | _ => none
  | .receiveIsr n =>
      match s.threads[n]? with
      | some (.idle _) => some (s.receiveIsr n)
      | _ => none

end State

/-- A queue as it was created, and the tasks and interrupts that use it. -/
def machine {size : Nat} (q : MailboxSlot size) : Machine (State size) (Action size) where
  init := ⟨q, [], [], [], []⟩
  step := State.step

end MicrOsal.ChibiosQueue
