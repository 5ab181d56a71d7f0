import Mathlib.Data.List.Chain
import MicrOsal.WorkQueue.Tokens
import MicrOsal.WorkQueue.Pthread

/-!
# MicrOsal.WorkQueue.Pair

The two work queues side by side, driven by the same calls and worker steps.

Calls and worker steps follow one another here, so each is one function of the object. Between
two items the pthread worker takes its sentinels in steps of its own, at any time, and at the
latest before it starts the item behind them.

`line` is what the pthread worker has before it. In it, a sentinel carries the stamp of
the item before it.
-/

namespace MicrOsal

/-! ### Calls one after the other -/

/-- The worker of the emulated queue takes a token and looks at the ring. -/
def EmuWq.takeNext (wq : EmuWq) : Option WqEntry × EmuWq :=
  if wq.notEmpty = 0 then (none, wq)
  else if wq.ring.count = 0 then (none, { wq with notEmpty := wq.notEmpty - 1 })
  else (some wq.ring.front, EmuWq.start { wq with notEmpty := wq.notEmpty - 1 })

/-- `osal_work_queue_cancel_all`, not interrupted by the worker. -/
def EmuWq.cancelAll (wq : EmuWq) : EmuWq :=
  { wq with ring := wq.ring.clear, notEmpty := wq.notEmpty - wq.ring.count }

/-- The pthread worker takes the next item. -/
def PosixWq.takeNext (wq : PosixWq) : Option PwqEntry × PosixWq :=
  if wq.ring.count = 0 then (none, wq)
  else (some wq.ring.front, { wq with ring := wq.ring.pop })

/-- The sentinel whose ticket the worker has yet to complete. -/
def PwqWorker.held : PwqWorker → Option Nat
  | .sentinel ticket => some ticket
  | _ => none

/-- A flush in progress in both queues. -/
structure FlushPair where
  /-- `target_sequence` of the emulated queue. -/
  target : Nat
  /-- `ticket` of the pthread queue, if the flush was not refused. -/
  ticket : Option Nat
  /-- Record: `cancel_all` was called since. -/
  cancelled : Bool
  deriving DecidableEq, Repr

/-- What the emulated flush returns if it has to return now. -/
def FlushPair.emuResult (f : FlushPair) (wq : EmuWq) : ErrorCode :=
  if wq.completedSequence ≥ f.target then .ok else .timeout

/-- What the pthread flush returns if it has to return now. -/
def FlushPair.posixResult (f : FlushPair) (wq : PosixWq) : ErrorCode :=
  match f.ticket with
  | none => .overflow
  | some ticket => if wq.completedFlushTicket < ticket then .timeout else .ok

/-- The two queues, what their workers execute, and what they have executed so far. -/
structure WqPair where
  emu : EmuWq
  emuRunning : Option WqEntry
  emuExecuted : List WorkItem
  posix : PosixWq
  posixWorker : PwqWorker
  posixExecuted : List WorkItem
  flushes : List FlushPair

inductive WqOp
  | submit (func arg : Nat)
  /-- An idle worker starts the next item. -/
  | start
  /-- The worker finishes its item. -/
  | finish
  /-- The pthread worker takes its next step with a sentinel, if that is what comes next. -/
  | sentinel
  | flush
  /-- The `k`-th flush in progress returns. -/
  | flushEnd (k : Nat)
  | cancelAll
  deriving DecidableEq, Repr

namespace WqPair

def create (depth : Nat) : WqPair where
  emu := .create depth
  emuRunning := none
  emuExecuted := []
  posix := .create depth
  posixWorker := .wait
  posixExecuted := []
  flushes := []

/-- The number that both queues give to the next item. -/
def number (s : WqPair) : Nat := s.emu.submittedSequence + 1

/-- What the pthread worker has before it. -/
def line (s : WqPair) : List PwqEntry := s.posixWorker.running.toList ++ s.posix.ring.contents

/-- The number of sentinels in the pthread ring. -/
def sentinels (s : WqPair) : Nat := s.posix.ring.contents.countP (fun x => !x.isWork)

/-- Between two items, the pthread worker takes the sentinel at the front of the ring, or completes
the ticket of the one it has taken. -/
def takeSentinel (s : WqPair) : WqPair :=
  match s.posixWorker with
  | .wait =>
      if s.posix.ring.count = 0 ∨ s.posix.ring.front.isWork = true then s
      else
        { s with
          posix := { s.posix with ring := s.posix.ring.pop }
          posixWorker := .sentinel s.posix.ring.front.arg }
  | .sentinel ticket => { s with posix := s.posix.completeTicket ticket, posixWorker := .wait }
  | _ => s

/-- The pthread worker goes on until it waits or has an item to execute; each sentinel
takes two steps. -/
def settle (s : WqPair) : WqPair := takeSentinel^[2 * s.sentinels + 1] s

/-- Idle workers start the next item. -/
def startNext (s : WqPair) : WqPair :=
  { s with
    emu := if s.emuRunning = none then s.emu.takeNext.2 else s.emu
    emuRunning := if s.emuRunning = none then s.emu.takeNext.1 else s.emuRunning
    emuExecuted := if s.emuRunning = none then
        s.emuExecuted ++ (s.emu.takeNext.1.map (·.toWorkItem)).toList
      else s.emuExecuted
    posix := if s.posixWorker = .wait then s.posix.takeNext.2 else s.posix
    posixWorker := if s.posixWorker = .wait then (s.posix.takeNext.1.map .run).getD .wait
      else s.posixWorker
    posixExecuted := if s.posixWorker = .wait then
        s.posixExecuted ++ (s.posix.takeNext.1.map (·.toWorkItem)).toList
      else s.posixExecuted }

/-- One call or worker step, in both queues. A sentinel is stamped with the target of
the emulated flush. -/
def step (s : WqPair) : WqOp → WqPair
  | .submit func arg =>
      { s with
        emu := (s.emu.submit func arg).2
        posix := (s.posix.submit func arg s.number).2 }
  | .start => s.settle.startNext
  | .finish =>
      { s with
        emu := (s.emuRunning.map s.emu.complete).getD s.emu
        emuRunning := none
        posixWorker := if s.posixWorker.running = none then s.posixWorker else .wait }
  | .sentinel => s.takeSentinel
  | .flush =>
      { s with
        posix := (s.posix.flushBegin s.emu.flushTarget).2
        flushes := s.flushes ++
          [⟨s.emu.flushTarget, (s.posix.flushBegin s.emu.flushTarget).1, false⟩] }
  | .flushEnd k => { s with flushes := s.flushes.eraseIdx k }
  | .cancelAll =>
      { s with
        emu := s.emu.cancelAll
        posix := s.posix.cancelAll
        flushes := s.flushes.map (fun f => { f with cancelled := true }) }

/-- The pthread worker has no sentinel to take before the next item. -/
def Settled (s : WqPair) : Prop :=
  s.posixWorker.held = none ∧
    (s.posixWorker = .wait → s.posix.ring.count = 0 ∨ s.posix.ring.front.isWork = true)

/-- The pthread ring has room for what is submitted, if the emulated ring has. -/
def HasRoom (s : WqPair) : WqOp → Prop
  | .submit _ _ => s.emu.ring.count < s.emu.ring.capacity →
      s.posix.ring.count < s.posix.ring.capacity
  | _ => True

instance (s : WqPair) (op : WqOp) : Decidable (s.HasRoom op) :=
  match op with
  | .submit _ _ => inferInstanceAs (Decidable (_ → _))
  | .start => .isTrue trivial
  | .finish => .isTrue trivial
  | .sentinel => .isTrue trivial
  | .flush => .isTrue trivial
  | .flushEnd _ => .isTrue trivial
  | .cancelAll => .isTrue trivial

end WqPair

/-- Both queues, created with the given depth. -/
def wqPairMachine (depth : Nat) : Machine WqPair WqOp where
  init := .create depth
  step := fun s op => some (s.step op)

/-! ### Stamps along the line -/

/-- An item is younger than what is before it, and a sentinel carries its stamp. -/
def PwqEntry.Follows (x y : PwqEntry) : Prop :=
  if y.isWork then x.stamp < y.stamp else y.stamp = x.stamp

section Line

variable {l : List PwqEntry} {w x : PwqEntry}

/-- What follows an entry depends on its stamp only. -/
theorem isChain_of_stamp (h : (w :: l).IsChain PwqEntry.Follows) (hstamp : x.stamp = w.stamp) :
    (x :: l).IsChain PwqEntry.Follows := by
  obtain ⟨hhead, hrest⟩ := List.isChain_cons.mp h
  refine List.isChain_cons.mpr ⟨fun y hy => ?_, hrest⟩
  have hfollows := hhead y hy
  unfold PwqEntry.Follows at hfollows ⊢
  rwa [hstamp]

/-- The last stamp is the stamp of the last item. -/
theorem stamp_last (h : (w :: l).IsChain PwqEntry.Follows) :
    ((l.filter PwqEntry.isWork).getLast?.getD w).stamp = (l.getLast?.getD w).stamp := by
  induction l generalizing w with
  | nil => rfl
  | cons y rest ih =>
      obtain ⟨hfirst, hrest⟩ := List.isChain_cons_cons.mp h
      rw [List.getLast?_cons, Option.getD_some, ← ih hrest]
      cases hy : y.isWork with
      | true => rw [List.filter_cons, if_pos hy, List.getLast?_cons, Option.getD_some]
      | false =>
          -- A sentinel carries the stamp of the one before it.
          have hstamp : y.stamp = w.stamp := by simpa [PwqEntry.Follows, hy] using hfirst
          rw [List.filter_cons, if_neg (by simp [hy])]
          cases (rest.filter PwqEntry.isWork).getLast? with
          | none => exact hstamp.symm
          | some z => rfl

/-- Stamps never go down along the line. -/
theorem stamp_le_of_chain (h : (w :: l).IsChain PwqEntry.Follows) (hx : x ∈ w :: l) :
    w.stamp ≤ x.stamp := by
  induction l generalizing w with
  | nil => rw [List.mem_singleton.mp hx]
  | cons y rest ih =>
      obtain ⟨hfirst, hrest⟩ := List.isChain_cons_cons.mp h
      have hstep : w.stamp ≤ y.stamp := by
        unfold PwqEntry.Follows at hfirst
        split at hfirst
        · exact hfirst.le
        · exact hfirst.ge
      rcases List.mem_cons.mp hx with rfl | hx
      · exact le_rfl
      · exact hstep.trans (ih hrest hx)

end Line

end MicrOsal
