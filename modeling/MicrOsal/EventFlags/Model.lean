import MicrOsal.Core
import MicrOsal.Lib.Machine
import MicrOsal.Lib.SlotBitmap

/-!
# MicrOsal.EventFlags.Model

The emulated event flags (`src/common/emulated_event_flags.inl`): a word of
flag bits, a table of waiter slots with one binary semaphore each, and a guard
mutex that `set_isr` does not take.

Any number of threads call `set`, `set_isr`, `clear`, `wait_any` and `wait_all`.
Every atomic operation, every semaphore operation and every acquisition or
release of the guard is a step of its own. When a timed `semaphore_take` gives
up is decided by the action. `changed` and `log` are a record of what the calls
did; no step of the program reads them.
-/

namespace MicrOsal

/-! ### Configuration and shared object -/

/-- What the build configures. -/
structure EfConfig where
  /-- `OSAL_EVENT_FLAGS_MAX_WAITERS`. -/
  maxWaiters : Nat
  /-- `emu_ef_bits_per_word`: the width of `std::size_t`. -/
  wordBits : Nat
  wordBits_pos : 0 < wordBits
  /-- The width of `tick_t`. -/
  tickBits : Nat
  /-- `has_isr_event_flags`. -/
  isrEventFlags : Bool

/-- `emu_ef_active_word_count`. -/
def EfConfig.wordCount (cfg : EfConfig) : Nat := (cfg.maxWaiters + cfg.wordBits - 1) / cfg.wordBits

/-- `emu_ef_active_word_mask`. -/
def EfConfig.activeWordMask (cfg : EfConfig) (word : Nat) : BitVec cfg.wordBits :=
  wordMask cfg.wordBits cfg.maxWaiters word

/-- `osal::event_bits_t`. -/
abbrev EventBits := BitVec 32

/-- `emu_ef_waiter_matches`, and `matched` in `emu_ef_wait`. -/
def waiterMatches (waitBits : EventBits) (waitAll : Bool) (bits : EventBits) : Bool :=
  if waitAll then bits &&& waitBits = waitBits else bits &&& waitBits ≠ 0

/-- `emu_ef_obj`. A waiter's fields are functions of its slot. -/
structure EmuEfObj (cfg : EfConfig) where
  /-- The thread that holds the guard. -/
  guard : Option Nat
  sem : Nat → Bool
  inUse : Nat → Bool
  wakePending : Nat → Bool
  waitBits : Nat → EventBits
  waitAll : Nat → Bool
  activeWaiterWords : Nat → BitVec cfg.wordBits
  bits : EventBits
  waiterCount : Nat

/-- `osal_event_flags_create`. -/
def osalEventFlagsCreate (cfg : EfConfig) : EmuEfObj cfg where
  guard := none
  sem := fun _ => false
  inUse := fun _ => false
  wakePending := fun _ => false
  waitBits := fun _ => 0
  waitAll := fun _ => false
  activeWaiterWords := fun _ => 0
  bits := 0
  waiterCount := 0

/-! ### Threads -/

/-- The arguments of `emu_ef_wait`. -/
structure EfWait (cfg : EfConfig) where
  waitBits : EventBits
  /-- `actual` is not null. -/
  actual : Bool
  clearOnExit : Bool
  all : Bool
  timeout : Tick cfg.tickBits

/-- `matched` for the value `bits`. -/
def EfWait.matched {cfg : EfConfig} (c : EfWait cfg) (bits : EventBits) : Bool :=
  waiterMatches c.waitBits c.all bits

/-- What is stored through `actual`. -/
def EfWait.report {cfg : EfConfig} (c : EfWait cfg) (bits : EventBits) : Option EventBits :=
  if c.actual then some bits else none

/-- The result of a wait and what it stored through `actual`. -/
structure EfResult where
  code : ErrorCode
  actual : Option EventBits
  deriving DecidableEq

/-- Which of the four `matched` checks. -/
inductive EfPhase (cfg : EfConfig)
  | quick
  | registered (slot : Nat)
  | woken (slot : Nat) (start : Tick cfg.tickBits)
  | reopened (slot : Nat) (start : Tick cfg.tickBits)

/-- The slot held during the check. -/
def EfPhase.slot {cfg : EfConfig} : EfPhase cfg → Option Nat
  | .quick => none
  | .registered slot => some slot
  | .woken slot _ => some slot
  | .reopened slot _ => some slot

/-- Where a thread is. -/
inductive EfThread (cfg : EfConfig)
  | idle
  /-- `emu_ef_wait`: about to lock the guard. -/
  | lock (c : EfWait cfg)
  /-- About to load the bits for `matched`. -/
  | check (c : EfWait cfg) (phase : EfPhase cfg)
  /-- Matched: about to load the bits that are reported. -/
  | report (c : EfWait cfg) (phase : EfPhase cfg)
  /-- About to clear the bits, if asked to. -/
  | consume (c : EfWait cfg) (phase : EfPhase cfg) (reported : EventBits)
  /-- `NO_WAIT`: about to load the bits that are reported. -/
  | poll (c : EfWait cfg)
  /-- `emu_ef_claim_waiter_slot`: about to load word `word`. -/
  | claim (c : EfWait cfg) (word : Nat)
  /-- About to `try_take` the slot's semaphore. -/
  | drain (c : EfWait cfg) (slot : Nat)
  /-- About to store the slot's predicate. -/
  | describe (c : EfWait cfg) (slot : Nat)
  /-- About to store `wake_pending` = false in the claimed slot. -/
  | openSlot (c : EfWait cfg) (slot : Nat)
  /-- About to store `in_use` = true. -/
  | enter (c : EfWait cfg) (slot : Nat)
  /-- `emu_ef_mark_waiter_active`. -/
  | mark (c : EfWait cfg) (slot : Nat)
  /-- About to increment `waiter_count`. -/
  | count (c : EfWait cfg) (slot : Nat)
  /-- Not matched: about to unlock and sleep; `start` once it has been read. -/
  | unlockSleep (c : EfWait cfg) (slot : Nat) (start : Option (Tick cfg.tickBits))
  /-- About to read the start tick. -/
  | readStart (c : EfWait cfg) (slot : Nat)
  /-- Top of the blocking loop. -/
  | top (c : EfWait cfg) (slot : Nat) (start : Tick cfg.tickBits)
  /-- Inside `semaphore_take`. -/
  | sleep (c : EfWait cfg) (slot : Nat) (start remaining : Tick cfg.tickBits)
  /-- About to lock the guard after the take. -/
  | relock (c : EfWait cfg) (slot : Nat) (start : Tick cfg.tickBits)
  /-- About to store `wake_pending` = false before sleeping again. -/
  | reopen (c : EfWait cfg) (slot : Nat) (start : Tick cfg.tickBits)
  /-- Timed out: about to lock the guard. -/
  | timeoutLock (c : EfWait cfg) (slot : Nat)
  /-- Timed out: about to load the bits that are reported. -/
  | timeoutLoad (c : EfWait cfg) (slot : Nat)
  /-- `release_waiter`: about to store `wake_pending` = false. -/
  | releasePending (c : EfWait cfg) (slot : Nat) (res : EfResult)
  /-- `release_waiter`: about to store `in_use` = false. -/
  | releaseInUse (c : EfWait cfg) (slot : Nat) (res : EfResult)
  /-- `release_waiter`: `emu_ef_mark_waiter_inactive`. -/
  | releaseMark (c : EfWait cfg) (slot : Nat) (res : EfResult)
  /-- `release_waiter`: about to decrement `waiter_count`. -/
  | releaseCount (c : EfWait cfg) (slot : Nat) (res : EfResult)
  /-- About to unlock the guard and return; `had` is the slot the call used. -/
  | unlockReturn (c : EfWait cfg) (res : EfResult) (had : Option Nat)
  /-- `osal_event_flags_set`: about to lock the guard. -/
  | setLock (bits : EventBits)
  /-- `set` or `set_isr`: about to OR the bits. -/
  | setOr (bits : EventBits) (isr : Bool)
  /-- `emu_ef_wake_matching`: about to load `waiter_count`. -/
  | setCount (updated : EventBits) (isr : Bool)
  /-- The scan: about to load word `word`. -/
  | scanWord (updated : EventBits) (isr : Bool) (word : Nat)
  /-- The scan: about to load `in_use` of the lowest slot of `active`. -/
  | scanUse (updated : EventBits) (isr : Bool) (word : Nat) (active : BitVec cfg.wordBits)
  /-- The scan: about to read that slot's predicate. -/
  | scanMatch (updated : EventBits) (isr : Bool) (word : Nat) (active : BitVec cfg.wordBits)
  /-- The scan: about to exchange that slot's `wake_pending`. -/
  | scanPending (updated : EventBits) (isr : Bool) (word : Nat) (active : BitVec cfg.wordBits)
  /-- The scan: about to give that slot's semaphore. -/
  | scanGive (updated : EventBits) (isr : Bool) (word : Nat) (active : BitVec cfg.wordBits)
  /-- `set`: about to unlock the guard. -/
  | setUnlock
  /-- `osal_event_flags_clear`: about to lock the guard. -/
  | clearLock (bits : EventBits)
  /-- `clear`: about to clear the bits. -/
  | clearAnd (bits : EventBits)
  /-- `clear`: about to unlock the guard. -/
  | clearUnlock

/-- The slot the scan is at. -/
def scanSlot {cfg : EfConfig} (word : Nat) (active : BitVec cfg.wordBits) : Nat :=
  word * cfg.wordBits + active.ctz.toNat

namespace EfThread

variable {cfg : EfConfig}

/-- After the scan. -/
def setEnd (isr : Bool) : EfThread cfg := if isr then .idle else .setUnlock

/-- The outer loop of `emu_ef_wake_matching_common`. -/
def nextWord (updated : EventBits) (isr : Bool) (word : Nat) : EfThread cfg :=
  if word < cfg.wordCount then .scanWord updated isr word else setEnd isr

/-- The inner loop of `emu_ef_wake_matching_common`. -/
def nextSlot (updated : EventBits) (isr : Bool) (word : Nat) (active : BitVec cfg.wordBits) :
    EfThread cfg :=
  if active = 0#_ then nextWord updated isr (word + 1) else .scanUse updated isr word active

/-- The inner loop after one slot. -/
def skipSlot (updated : EventBits) (isr : Bool) (word : Nat) (active : BitVec cfg.wordBits) :
    EfThread cfg :=
  nextSlot updated isr word (active &&& (active - 1#_))

/-- After a failed `matched`. -/
def unmatched (c : EfWait cfg) : EfPhase cfg → EfThread cfg
  | .quick => if c.timeout = noWait then .poll c else .claim c 0
  | .registered slot => .unlockSleep c slot none
  | .woken slot start => .reopen c slot start
  | .reopened slot start => .unlockSleep c slot (some start)

/-- After the wait has been satisfied. -/
def satisfied (c : EfWait cfg) (phase : EfPhase cfg) (reported : EventBits) : EfThread cfg :=
  match phase.slot with
  | none => .unlockReturn c ⟨.ok, c.report reported⟩ none
  | some slot => .releasePending c slot ⟨.ok, c.report reported⟩

end EfThread

/-- One step of thread `t` at `pc` on the shared object; `none` while it is
blocked. -/
def EmuEfObj.next {cfg : EfConfig} (o : EmuEfObj cfg) (t clock : Nat) (timedOut : Bool) :
    EfThread cfg → Option (EmuEfObj cfg × EfThread cfg)
  | .idle => none
  | .lock c =>
    if o.guard = none then some ({ o with guard := some t }, .check c .quick) else none
  | .check c phase =>
    if c.matched o.bits then some (o, .report c phase) else some (o, EfThread.unmatched c phase)
  | .report c phase => some (o, .consume c phase o.bits)
  | .consume c phase reported =>
    let o' := if c.clearOnExit then { o with bits := o.bits &&& ~~~c.waitBits } else o
    some (o', EfThread.satisfied c phase reported)
  | .poll c => some (o, .unlockReturn c ⟨.wouldBlock, c.report o.bits⟩ none)
  | .claim c word =>
    if word < cfg.wordCount then
      let validMask := cfg.activeWordMask word
      let active := o.activeWaiterWords word &&& validMask
      let freeSlots := ~~~active &&& validMask
      if freeSlots = 0#_ then some (o, .claim c (word + 1))
      else some (o, .drain c (scanSlot word freeSlots))
    else some (o, .unlockReturn c ⟨.outOfResources, none⟩ none)
  | .drain c slot => some ({ o with sem := Function.update o.sem slot false }, .describe c slot)
  | .describe c slot =>
    some ({ o with
      waitBits := Function.update o.waitBits slot c.waitBits
      waitAll := Function.update o.waitAll slot c.all }, .openSlot c slot)
  | .openSlot c slot =>
    some ({ o with wakePending := Function.update o.wakePending slot false }, .enter c slot)
  | .enter c slot => some ({ o with inUse := Function.update o.inUse slot true }, .mark c slot)
  | .mark c slot =>
    some ({ o with activeWaiterWords := setSlot o.activeWaiterWords slot }, .count c slot)
  | .count c slot =>
    some ({ o with waiterCount := o.waiterCount + 1 }, .check c (.registered slot))
  | .unlockSleep c slot start =>
    match start with
    | none => some ({ o with guard := none }, .readStart c slot)
    | some start => some ({ o with guard := none }, .top c slot start)
  | .readStart c slot => some (o, .top c slot (clockTicks cfg.tickBits clock))
  | .top c slot start =>
    if c.timeout = waitForever then some (o, .sleep c slot start waitForever)
    else
      let elapsed := clockTicks cfg.tickBits clock - start
      if c.timeout ≤ elapsed then some (o, .timeoutLock c slot)
      else some (o, .sleep c slot start (c.timeout - elapsed))
  | .sleep c slot start remaining =>
    if timedOut then if remaining = waitForever then none else some (o, .relock c slot start)
    else if o.sem slot then
      some ({ o with sem := Function.update o.sem slot false }, .relock c slot start)
    else none
  | .relock c slot start =>
    if o.guard = none then some ({ o with guard := some t }, .check c (.woken slot start)) else none
  | .reopen c slot start =>
    some ({ o with wakePending := Function.update o.wakePending slot false },
      .check c (.reopened slot start))
  | .timeoutLock c slot =>
    if o.guard = none then some ({ o with guard := some t }, .timeoutLoad c slot) else none
  | .timeoutLoad c slot => some (o, .releasePending c slot ⟨.timeout, c.report o.bits⟩)
  | .releasePending c slot res =>
    some ({ o with wakePending := Function.update o.wakePending slot false },
      .releaseInUse c slot res)
  | .releaseInUse c slot res =>
    some ({ o with inUse := Function.update o.inUse slot false }, .releaseMark c slot res)
  | .releaseMark c slot res =>
    some ({ o with activeWaiterWords := clearSlot o.activeWaiterWords slot },
      .releaseCount c slot res)
  | .releaseCount c slot res =>
    some ({ o with waiterCount := o.waiterCount - 1 }, .unlockReturn c res (some slot))
  | .unlockReturn _ _ _ => some ({ o with guard := none }, .idle)
  | .setLock bits =>
    if o.guard = none then some ({ o with guard := some t }, .setOr bits false) else none
  | .setOr bits isr => some ({ o with bits := o.bits ||| bits }, .setCount (o.bits ||| bits) isr)
  | .setCount updated isr =>
    if o.waiterCount = 0 then some (o, EfThread.setEnd isr)
    else some (o, EfThread.nextWord updated isr 0)
  | .scanWord updated isr word =>
    some (o, EfThread.nextSlot updated isr word
      (o.activeWaiterWords word &&& cfg.activeWordMask word))
  | .scanUse updated isr word active =>
    if o.inUse (scanSlot word active) then some (o, .scanMatch updated isr word active)
    else some (o, EfThread.skipSlot updated isr word active)
  | .scanMatch updated isr word active =>
    if waiterMatches (o.waitBits (scanSlot word active)) (o.waitAll (scanSlot word active)) updated
    then some (o, .scanPending updated isr word active)
    else some (o, EfThread.skipSlot updated isr word active)
  | .scanPending updated isr word active =>
    let slot := scanSlot word active
    let o' := { o with wakePending := Function.update o.wakePending slot true }
    if o.wakePending slot then some (o', EfThread.skipSlot updated isr word active)
    else some (o', .scanGive updated isr word active)
  | .scanGive updated isr word active =>
    some ({ o with sem := Function.update o.sem (scanSlot word active) true },
      EfThread.skipSlot updated isr word active)
  | .setUnlock => some ({ o with guard := none }, .idle)
  | .clearLock bits =>
    if o.guard = none then some ({ o with guard := some t }, .clearAnd bits) else none
  | .clearAnd bits => some ({ o with bits := o.bits &&& ~~~bits }, .clearUnlock)
  | .clearUnlock => some ({ o with guard := none }, .idle)

/-! ### The system -/

/-- A wait that returned: its result and every flag bit its own steps changed. -/
structure EfReturn (cfg : EfConfig) where
  thread : Nat
  call : EfWait cfg
  res : EfResult
  changed : EventBits

/-- The object and its threads. -/
structure EfSys (cfg : EfConfig) where
  obj : EmuEfObj cfg
  threads : Nat → EfThread cfg
  clock : Nat
  /-- The flag bits a thread's current call has changed so far. -/
  changed : Nat → EventBits
  log : List (EfReturn cfg)

/-- The public operations. -/
inductive EfOp (cfg : EfConfig)
  | set (bits : EventBits)
  | setIsr (bits : EventBits)
  | clear (bits : EventBits)
  | wait (c : EfWait cfg)

/-- Where a call begins. -/
def EfOp.entry {cfg : EfConfig} : EfOp cfg → EfThread cfg
  | .set bits => .setLock bits
  | .setIsr bits => if cfg.isrEventFlags then .setOr bits true else .idle
  | .clear bits => .clearLock bits
  | .wait c => .lock c

/-- What can happen next. -/
inductive EfAct (cfg : EfConfig)
  | call (t : Nat) (op : EfOp cfg)
  | step (t : Nat) (timedOut : Bool)
  | tick (n : Nat)

/-- The return a step records. -/
def EfThread.returns {cfg : EfConfig} (t : Nat) (changed : EventBits) :
    EfThread cfg → Option (EfReturn cfg)
  | .unlockReturn c res _ => some ⟨t, c, res, changed⟩
  | _ => none

/-- One step of the system. -/
def EfSys.step {cfg : EfConfig} (s : EfSys cfg) : EfAct cfg → Option (EfSys cfg)
  | .call t op =>
    match s.threads t with
    | .idle =>
      some { s with
        threads := Function.update s.threads t op.entry
        changed := Function.update s.changed t 0 }
    | _ => none
  | .step t timedOut =>
    match s.obj.next t s.clock timedOut (s.threads t) with
    | none => none
    | some (o, pc) =>
      some { s with
        obj := o
        threads := Function.update s.threads t pc
        changed := Function.update s.changed t (s.changed t ||| (s.obj.bits ^^^ o.bits))
        log := ((s.threads t).returns t (s.changed t)).toList ++ s.log }
  | .tick n => some { s with clock := s.clock + n }

/-- Nobody is inside the group. -/
def EfSys.fresh (cfg : EfConfig) : EfSys cfg where
  obj := osalEventFlagsCreate cfg
  threads := fun _ => .idle
  clock := 0
  changed := fun _ => 0
  log := []

/-- The system around a freshly created group. -/
def efMachine (cfg : EfConfig) : Machine (EfSys cfg) (EfAct cfg) where
  init := EfSys.fresh cfg
  step := EfSys.step

end MicrOsal
