import MicrOsal.RwLock.Model

/-!
# MicrOsal.RwLock.Exclusion

What the emulated read-write lock guarantees to its callers: a writer excludes
everybody else, `reader_count` and `writer_active` are the balance of the calls
that succeeded, a lock call that fails has changed neither, and no thread that
could be admitted is left asleep. The last point rests on one observation: an
unlock call that makes a waiter admissible still holds the guard when it calls
`osal_condvar_notify_all`, and a thread registers only while it is not admitted.

That an unlock is issued by a holder of the lock is not needed.
-/

namespace MicrOsal

variable {w : Nat}

namespace RwThread

/-- The thread holds the guard. -/
def holdsGuard : RwThread w → Bool
  | .test _ => true
  | .release _ => true
  | .notify _ => true
  | .finish _ _ _ => true
  | _ => false

/-- The call is bound to return ok and has taken its effect. -/
def succeeds (op : RwOp) (mode : RwMode) : RwThread w → Bool
  | .notify m => op == .unlock && m == mode
  | .finish o m r => o == op && m == mode && r == .ok
  | _ => false

/-- A lock call that has not been admitted. -/
def unadmitted : RwThread w → Bool
  | .enterLock _ _ => true
  | .test _ => true
  | .blocked _ _ => true
  | .relock _ _ => true
  | .finish op _ r => op == .lock && r != .ok
  | _ => false

@[simp] theorem succeeds_wake (th : RwThread w) (op : RwOp) (mode : RwMode) :
    th.wake.succeeds op mode = th.succeeds op mode := by
  cases th <;> rfl

@[simp] theorem holdsGuard_wake (th : RwThread w) : th.wake.holdsGuard = th.holdsGuard := by
  cases th <;> rfl

@[simp] theorem unadmitted_wake (th : RwThread w) : th.wake.unadmitted = th.unadmitted := by
  cases th <;> rfl

theorem wake_ne_blocked (th : RwThread w) (c : RwWait w) : th.wake ≠ .blocked c false := by
  cases th <;> simp [wake]

end RwThread

/-- The call returned ok. -/
def RwReturn.isOk (op : RwOp) (mode : RwMode) (e : RwReturn) : Bool :=
  e.op == op && e.mode == mode && e.result == .ok

namespace RwState

/-- The number of calls that have succeeded: they have returned ok, or have taken
their effect and are on the way out. -/
def successes (s : RwState w) (op : RwOp) (mode : RwMode) : Nat :=
  s.returned.countP (·.isOk op mode) + s.threads.countP (·.succeeds op mode)

/-- Exclusion, the balance of locks and unlocks, failed lock calls without effect, and
no stranded waiter. -/
structure LockOk (s : RwState w) : Prop where
  exclusion : s.writerActive = true → s.readerCount = 0
  readers : s.readerCount + s.successes .unlock .read = s.successes .lock .read
  writer : (if s.writerActive then 1 else 0) + s.successes .unlock .write =
    s.successes .lock .write
  failed : ∀ e ∈ s.returned, e.op = .lock → e.result ≠ .ok → e.touched = false
  woken : s.guard = none → ∀ (n : Nat) c woken, s.threads[n]? = some (.blocked c woken) →
    s.admits c.mode = true → woken = true

end RwState

/-- The threads, the guard, the counts and the record agree. -/
structure RwInv (s : RwState w) : Prop where
  exclusion : s.writerActive = true → s.readerCount = 0
  readers : s.readerCount + s.successes .unlock .read = s.successes .lock .read
  writer : (if s.writerActive then 1 else 0) + s.successes .unlock .write =
    s.successes .lock .write
  holder : ∀ n th, s.threads[n]? = some th → th.holdsGuard = true → s.guard = some n
  wakes : ∀ (n : Nat) c, s.threads[n]? = some (.blocked c false) → s.admits c.mode = true →
    ∃ (m : Nat) (mode : RwMode), s.threads[m]? = some (.notify mode)
  untouched : ∀ n th, s.threads[n]? = some th → th.unadmitted = true → s.touched n = false
  failed : ∀ e ∈ s.returned, e.op = .lock → e.result ≠ .ok → e.touched = false

section Steps

variable {s s' : RwState w} {n : Nat} {th th' : RwThread w}

/-- A step that does not change the counts leaves the record alone. -/
theorem RwInv.of_note (hr : s'.readerCount = s.readerCount)
    (hw : s'.writerActive = s.writerActive) (hi : RwInv s') : RwInv (s.note n s') := by
  have hsame : decide (s'.readerCount ≠ s.readerCount ∨ s'.writerActive ≠ s.writerActive) =
      false := by
    simp [hr, hw]
  rw [RwState.note, hsame, Bool.or_false, Function.update_eq_self]
  exact hi

@[simp] theorem RwState.admits_setThread (guard : Option Nat) (touched : Nat → Bool)
    (mode : RwMode) : ({ s with guard := guard, touched := touched }.setThread n th').admits mode =
      s.admits mode := by
  cases mode <;> rfl

@[simp] theorem RwState.admits_note (mode : RwMode) :
    (s.note n (s'.setThread n th')).admits mode = s'.admits mode := by
  cases mode <;> rfl

/-- One thread changes its place. -/
theorem successes_set (hth : s.threads[n]? = some th) (th' : RwThread w) (op : RwOp)
    (mode : RwMode) :
    (s.setThread n th').successes op mode + (if th.succeeds op mode then 1 else 0) =
      s.successes op mode + (if th'.succeeds op mode then 1 else 0) := by
  have hset := countP_set (b := th') (·.succeeds op mode) hth
  simp only [RwState.successes, RwState.setThread]
  omega

/-- Nobody else holds the guard when it is free or when thread `n` holds it. -/
theorem RwInv.holder_move (hi : RwInv s) {guard : Option Nat}
    (hguard : guard = s.guard ∨ s.guard = none ∨ s.guard = some n)
    (hhold : th'.holdsGuard = true → guard = some n) (m : Nat) (x : RwThread w)
    (hm : (s.threads.set n th')[m]? = some x) (hx : x.holdsGuard = true) : guard = some m := by
  rcases getElem?_set_cases hm with ⟨rfl, rfl⟩ | ⟨hne, hm⟩
  · exact hhold hx
  · have hold := hi.holder m x hm hx
    rcases hguard with rfl | hnone | hself
    · exact hold
    · rw [hnone] at hold
      cases hold
    · rw [hself] at hold
      exact absurd (Option.some.inj hold).symm hne

/-- A step that changes no count: thread `n`, which is not about to notify, goes on in
its call. -/
theorem RwInv.move (hi : RwInv s) (hth : s.threads[n]? = some th) {guard : Option Nat}
    {touched : Nat → Bool} (hguard : guard = s.guard ∨ s.guard = none ∨ s.guard = some n)
    (hhold : th'.holdsGuard = true → guard = some n)
    (hsucc : ∀ op mode, th'.succeeds op mode = th.succeeds op mode)
    (hnotify : ∀ mode, th ≠ .notify mode)
    (hblocked : ∀ c, th' = .blocked c false → s.admits c.mode = false)
    (hother : ∀ m, m ≠ n → touched m = s.touched m)
    (htouched : th'.unadmitted = true → touched n = false) :
    RwInv ({ s with guard := guard, touched := touched }.setThread n th') := by
  have hsame : ∀ op mode, RwState.successes
      ({ s with guard := guard, touched := touched }.setThread n th') op mode =
        s.successes op mode := by
    intro op mode
    have h := successes_set hth th' op mode
    rw [hsucc] at h
    exact Nat.add_right_cancel h
  refine ⟨hi.exclusion, ?_, ?_, hi.holder_move hguard hhold, ?_, ?_, hi.failed⟩
  · rw [hsame, hsame]
    exact hi.readers
  · rw [hsame, hsame]
    exact hi.writer
  · intro m c hm hadm
    rcases getElem?_set_cases hm with ⟨rfl, heq⟩ | ⟨-, hm⟩
    · rw [RwState.admits_setThread, hblocked c heq.symm] at hadm
      cases hadm
    · rw [RwState.admits_setThread] at hadm
      obtain ⟨k, mode, hk⟩ := hi.wakes m c hm hadm
      have hne : k ≠ n := by
        rintro rfl
        rw [hk] at hth
        exact hnotify mode (Option.some.inj hth).symm
      exact ⟨k, mode, (List.getElem?_set_ne (Ne.symm hne)).trans hk⟩
  · intro m x hm hx
    rcases getElem?_set_cases hm with ⟨rfl, rfl⟩ | ⟨hne, hm⟩
    · exact htouched hx
    · rw [← hi.untouched m x hm hx]
      exact hother m hne

/-- A step that changes the counts. A thread it makes admissible is going to be
notified. -/
theorem RwInv.change (hi : RwInv s) (hth : s.threads[n]? = some th) {rc : Nat} {wa : Bool}
    (hguard : s.guard = some n) (hexcl : wa = true → rc = 0)
    (hbefore : ∀ op mode, th.succeeds op mode = false)
    (hread : rc + (if th'.succeeds .unlock .read then 1 else 0) =
      s.readerCount + (if th'.succeeds .lock .read then 1 else 0))
    (hwrite : (if wa then 1 else 0) + (if th'.succeeds .unlock .write then 1 else 0) =
      (if s.writerActive then 1 else 0) + (if th'.succeeds .lock .write then 1 else 0))
    (hwakes : ∀ mode, { s with readerCount := rc, writerActive := wa }.admits mode = true →
      s.admits mode = true ∨ ∃ m, th' = .notify m)
    (hblocked : ∀ c, th' ≠ .blocked c false) (hnot : th'.unadmitted = false) :
    RwInv (s.note n ({ s with readerCount := rc, writerActive := wa }.setThread n th')) := by
  have hsucc : ∀ op mode, RwState.successes
      (s.note n ({ s with readerCount := rc, writerActive := wa }.setThread n th')) op mode =
        s.successes op mode + (if th'.succeeds op mode then 1 else 0) := by
    intro op mode
    have h := successes_set hth th' op mode
    rw [hbefore op mode] at h
    exact h
  have hne : ∀ m, th ≠ .notify m := by
    rintro m rfl
    have h := hbefore .unlock m
    simp [RwThread.succeeds] at h
  refine ⟨hexcl, ?_, ?_, hi.holder_move (.inl rfl) (fun _ => hguard), ?_, ?_, hi.failed⟩
  · have h := hi.readers
    rw [hsucc, hsucc]
    change rc + _ = _
    omega
  · have h := hi.writer
    rw [hsucc, hsucc]
    change (if wa then 1 else 0) + _ = _
    omega
  · intro m c hm hadm
    rcases getElem?_set_cases hm with ⟨rfl, heq⟩ | ⟨-, hm⟩
    · exact absurd heq.symm (hblocked c)
    · rw [RwState.admits_note] at hadm
      rcases hwakes c.mode hadm with hadm | ⟨mode, rfl⟩
      · obtain ⟨k, mode, hk⟩ := hi.wakes m c hm hadm
        have hkn : k ≠ n := by
          rintro rfl
          rw [hk] at hth
          exact hne mode (Option.some.inj hth).symm
        exact ⟨k, mode, (List.getElem?_set_ne (Ne.symm hkn)).trans hk⟩
      · exact ⟨n, mode, List.getElem?_set_self (List.getElem?_eq_some_iff.mp hth).1⟩
  · intro m x hm hx
    rcases getElem?_set_cases hm with ⟨rfl, rfl⟩ | ⟨hmn, hm⟩
    · rw [hnot] at hx
      cases hx
    · rw [← hi.untouched m x hm hx]
      exact Function.update_of_ne hmn _ _

/-- A lock call is admitted. -/
theorem RwInv.admit (hi : RwInv s) {c : RwWait w} (hth : s.threads[n]? = some (.test c))
    (hadm : s.admits c.mode = true) :
    RwInv (s.note n ((s.acquire c.mode).setThread n (.finish .lock c.mode .ok))) := by
  have hguard := hi.holder n _ hth rfl
  cases hmode : c.mode with
  | read =>
      simp only [hmode, RwState.admits, Bool.not_eq_true'] at hadm
      refine hi.change hth hguard ?_ (fun _ _ => rfl) rfl rfl ?_ nofun rfl
      · intro h
        rw [hadm] at h
        cases h
      · intro mode h
        refine .inl ?_
        cases mode <;> simp_all [RwState.admits]
  | write =>
      simp only [hmode, RwState.admits, Bool.not_eq_true', Bool.or_eq_false_iff,
        decide_eq_false_iff_not, gt_iff_lt, Nat.not_lt, Nat.le_zero_eq] at hadm
      refine hi.change hth hguard (fun _ => hadm.2) (fun _ _ => rfl) rfl ?_ ?_ nofun rfl
      · rw [hadm.1]
        rfl
      · intro mode h
        cases mode <;> simp [RwState.admits] at h

/-- An unlock call lets go of a read lock. -/
theorem RwInv.release_read (hi : RwInv s) (hth : s.threads[n]? = some (.release .read))
    (hpos : s.readerCount ≠ 0) :
    RwInv (s.note n ({ s with readerCount := s.readerCount - 1 }.setThread n
      (if s.readerCount - 1 = 0 then .notify .read else .finish .unlock .read .ok))) := by
  have hguard := hi.holder n _ hth rfl
  have hexcl : s.writerActive = true → s.readerCount - 1 = 0 := by
    intro h
    rw [hi.exclusion h]
  split
  · refine hi.change hth hguard hexcl (fun _ _ => rfl) ?_ rfl (fun _ _ => .inr ⟨_, rfl⟩) nofun rfl
    simp [RwThread.succeeds]
    omega
  · next hmore =>
    refine hi.change hth hguard hexcl (fun _ _ => rfl) ?_ rfl ?_ nofun rfl
    · simp [RwThread.succeeds]
      omega
    · -- There are readers left, so writers still have to wait.
      intro mode h
      refine .inl ?_
      cases mode with
      | read => exact h
      | write =>
          simp [RwState.admits] at h
          omega

/-- An unlock call lets go of the write lock. -/
theorem RwInv.release_write (hi : RwInv s) (hth : s.threads[n]? = some (.release .write))
    (hactive : s.writerActive = true) :
    RwInv (s.note n ({ s with writerActive := false }.setThread n (.notify .write))) := by
  refine hi.change hth (hi.holder n _ hth rfl) nofun (fun _ _ => rfl) rfl ?_
    (fun _ _ => .inr ⟨_, rfl⟩) nofun rfl
  rw [hactive]
  rfl

/-- `osal_condvar_notify_all` marks every registered thread. -/
theorem RwInv.notify (hi : RwInv s) {mode : RwMode} (hth : s.threads[n]? = some (.notify mode)) :
    RwInv ({ s with threads := s.threads.map RwThread.wake }.setThread n
      (.finish .unlock mode .ok)) := by
  have hguard := hi.holder n _ hth rfl
  have hmap : (s.threads.map RwThread.wake)[n]? = some (.notify mode) := by
    rw [List.getElem?_map, hth]
    rfl
  have hold : ∀ (m : Nat) x, (s.threads.map RwThread.wake)[m]? = some x →
      ∃ y : RwThread w, s.threads[m]? = some y ∧ x = y.wake := by
    intro m x hm
    rw [List.getElem?_map] at hm
    obtain ⟨y, hy, rfl⟩ := Option.map_eq_some_iff.mp hm
    exact ⟨y, hy, rfl⟩
  have hsame : ∀ op m, RwState.successes
      ({ s with threads := s.threads.map RwThread.wake }.setThread n (.finish .unlock mode .ok))
        op m = s.successes op m := by
    intro op m
    have hset := countP_set (b := .finish .unlock mode .ok) (·.succeeds op m) hmap
    have hcount : (s.threads.map RwThread.wake).countP (·.succeeds op m) =
        s.threads.countP (·.succeeds op m) := by
      rw [List.countP_map]
      exact List.countP_congr (fun th _ => by simp)
    have hend : (RwThread.finish (w := w) .unlock mode .ok).succeeds op m =
        (RwThread.notify (w := w) mode).succeeds op m := by
      cases op <;> cases mode <;> cases m <;> rfl
    rw [hend, hcount] at hset
    simp only [RwState.successes, RwState.setThread]
    omega
  refine ⟨hi.exclusion, ?_, ?_, ?_, ?_, ?_, hi.failed⟩
  · rw [hsame, hsame]
    exact hi.readers
  · rw [hsame, hsame]
    exact hi.writer
  · intro m x hm hx
    rcases getElem?_set_cases hm with ⟨rfl, rfl⟩ | ⟨-, hm⟩
    · exact hguard
    · obtain ⟨y, hy, rfl⟩ := hold m x hm
      exact hi.holder m y hy (by simpa using hx)
  · intro m c hm
    rcases getElem?_set_cases hm with ⟨rfl, heq⟩ | ⟨-, hm⟩
    · cases heq
    · obtain ⟨y, -, heq⟩ := hold m _ hm
      exact absurd heq.symm (y.wake_ne_blocked c)
  · intro m x hm hx
    rcases getElem?_set_cases hm with ⟨rfl, rfl⟩ | ⟨-, hm⟩
    · cases hx
    · obtain ⟨y, hy, rfl⟩ := hold m x hm
      exact hi.untouched m y hy (by simpa using hx)

/-- A call returns. -/
theorem RwInv.finish (hi : RwInv s) {op : RwOp} {mode : RwMode} {r : ErrorCode}
    (hth : s.threads[n]? = some (.finish op mode r)) :
    RwInv ({ s with
      guard := none
      returned := ⟨op, mode, r, s.touched n⟩ :: s.returned }.setThread n .idle) := by
  have hguard := hi.holder n _ hth rfl
  have hsame : ∀ o m, RwState.successes ({ s with
      guard := none
      returned := ⟨op, mode, r, s.touched n⟩ :: s.returned }.setThread n .idle) o m =
        s.successes o m := by
    intro o m
    have hset : (s.threads.set n .idle).countP (·.succeeds o m) +
        (if (op == o && mode == m && r == .ok) = true then 1 else 0) =
          s.threads.countP (·.succeeds o m) + 0 := countP_set (·.succeeds o m) hth
    simp only [RwState.successes, RwState.setThread, List.countP_cons, RwReturn.isOk]
    omega
  refine ⟨hi.exclusion, ?_, ?_, hi.holder_move (.inr (.inr hguard)) nofun, ?_, ?_, ?_⟩
  · rw [hsame, hsame]
    exact hi.readers
  · rw [hsame, hsame]
    exact hi.writer
  · intro m c hm hadm
    rcases getElem?_set_cases hm with ⟨rfl, heq⟩ | ⟨-, hm⟩
    · cases heq
    · obtain ⟨k, mode', hk⟩ := hi.wakes m c hm (by
        rw [← hadm]
        cases c.mode <;> rfl)
      have hkn : k ≠ n := by
        rintro rfl
        rw [hk] at hth
        cases hth
      exact ⟨k, mode', (List.getElem?_set_ne (Ne.symm hkn)).trans hk⟩
  · intro m x hm hx
    rcases getElem?_set_cases hm with ⟨rfl, rfl⟩ | ⟨-, hm⟩
    · cases hx
    · exact hi.untouched m x hm hx
  · intro e hmem hop hr
    rcases List.mem_cons.mp hmem with rfl | hmem
    · exact hi.untouched n _ hth (by simp [RwThread.unadmitted, show op = .lock from hop, hr])
    · exact hi.failed e hmem hop hr

/-- A lock call goes on after a wait: it looks at the loop's condition again or fails. -/
theorem resume_cases (c : RwWait w) (r : ErrorCode) :
    c.resume r = .test c ∨ (r ≠ .ok ∧ c.resume r = .finish .lock c.mode r) := by
  unfold RwWait.resume
  split
  · exact .inl rfl
  · next h => exact .inr ⟨fun hr => h (.inl hr), rfl⟩

/-- The call goes back to the loop, or out of it with an error. -/
theorem RwInv.resume (hi : RwInv s) (hth : s.threads[n]? = some th) {c : RwWait w}
    {r : ErrorCode} {guard : Option Nat}
    (hguard : guard = s.guard ∨ s.guard = none ∨ s.guard = some n) (hown : guard = some n)
    (hsucc : ∀ op mode, th.succeeds op mode = false) (hun : th.unadmitted = true) :
    RwInv ({ s with guard := guard }.setThread n (c.resume r)) := by
  have hclean := hi.untouched n th hth hun
  have hnotify : ∀ mode, th ≠ .notify mode := by
    rintro mode rfl
    cases hun
  rcases resume_cases c r with heq | ⟨hr, heq⟩
  · rw [heq]
    exact hi.move hth hguard (fun _ => hown) (fun op mode => (hsucc op mode).symm) hnotify nofun
      (fun _ _ => rfl) (fun _ => hclean)
  · rw [heq]
    refine hi.move hth hguard (fun _ => hown) ?_ hnotify nofun (fun _ _ => rfl) (fun _ => hclean)
    intro op mode
    rw [hsucc]
    simp [RwThread.succeeds, hr]

theorem RwInv.advance (hi : RwInv s) {choice : ErrorCode} (hth : s.threads[n]? = some th)
    (hs : s.advance n choice th = some s') : RwInv (s.note n s') := by
  cases th with
  | idle => cases hs
  | enterLock mode timeout =>
      simp only [RwState.advance] at hs
      split at hs
      · cases hs
      · next hfree =>
        cases hs
        refine .of_note rfl rfl ?_
        exact hi.move hth (.inr (.inl (by simpa using hfree))) (fun _ => rfl) (fun _ _ => rfl) nofun
          nofun (fun _ _ => rfl) (fun _ => hi.untouched n _ hth rfl)
  | enterUnlock mode =>
      simp only [RwState.advance] at hs
      split at hs
      · cases hs
      · next hfree =>
        cases hs
        refine .of_note rfl rfl ?_
        exact hi.move hth (.inr (.inl (by simpa using hfree))) (fun _ => rfl) (fun _ _ => rfl) nofun
          nofun (fun _ _ => rfl) nofun
  | test c =>
      have hguard := hi.holder n _ hth rfl
      have hclean := hi.untouched n _ hth rfl
      simp only [RwState.advance] at hs
      split at hs
      · next hadm =>
        cases hs
        exact hi.admit hth hadm
      · next hadm =>
        split at hs
        · cases hs
          refine .of_note rfl rfl ?_
          refine hi.move hth (.inl rfl) (fun _ => hguard) ?_ nofun nofun (fun _ _ => rfl)
            (fun _ => hclean)
          intro op mode
          simp [RwThread.succeeds]
        · split at hs
          · cases hs
            refine .of_note rfl rfl ?_
            refine hi.move hth (.inr (.inr hguard)) nofun (fun _ _ => rfl) nofun ?_
              (fun _ _ => rfl) (fun _ => hclean)
            intro c' heq
            cases heq
            simpa using hadm
          · cases hs
            refine .of_note rfl rfl ?_
            exact hi.resume hth (.inl rfl) hguard (fun _ _ => rfl) rfl
  | blocked c woken =>
      simp only [RwState.advance] at hs
      split at hs
      · cases hs
      · cases hs
        refine .of_note rfl rfl ?_
        exact hi.move hth (.inl rfl) nofun (fun _ _ => rfl) nofun nofun (fun _ _ => rfl)
          (fun _ => hi.untouched n _ hth rfl)
  | relock c r =>
      simp only [RwState.advance] at hs
      split at hs
      · cases hs
      · next hfree =>
        cases hs
        refine .of_note rfl rfl ?_
        exact hi.resume hth (.inr (.inl (by simpa using hfree))) rfl (fun _ _ => rfl) rfl
  | release mode =>
      have hguard := hi.holder n _ hth rfl
      have hrefuse : ∀ m, RwInv (s.setThread n (.finish .unlock m .invalidArgument)) := by
        intro m
        refine hi.move hth (.inl rfl) (fun _ => hguard) ?_ nofun nofun (fun _ _ => rfl) nofun
        intro op mode
        simp [RwThread.succeeds]
      cases mode with
      | read =>
          simp only [RwState.advance] at hs
          split at hs
          · cases hs
            refine .of_note rfl rfl ?_
            exact hrefuse .read
          · next hpos =>
            cases hs
            exact hi.release_read hth hpos
      | write =>
          simp only [RwState.advance] at hs
          split at hs
          · next hactive =>
            cases hs
            exact hi.release_write hth hactive
          · cases hs
            refine .of_note rfl rfl ?_
            exact hrefuse .write
  | notify mode =>
      cases hs
      refine .of_note rfl rfl ?_
      exact hi.notify hth
  | finish op mode r =>
      cases hs
      refine .of_note rfl rfl ?_
      exact hi.finish hth

theorem RwInv.next {a : RwAct w} (hi : RwInv s) (hs : s.next a = some s') : RwInv s' := by
  cases a with
  | lock n mode timeout =>
      simp only [RwState.next] at hs
      split at hs
      · next hth =>
        cases hs
        exact hi.move hth (.inl rfl) nofun (fun _ _ => rfl) nofun nofun
          (fun m hm => Function.update_of_ne hm _ _) (fun _ => Function.update_self _ _ _)
      · cases hs
  | unlock n mode =>
      simp only [RwState.next] at hs
      split at hs
      · next hth =>
        cases hs
        exact hi.move hth (.inl rfl) nofun (fun _ _ => rfl) nofun nofun
          (fun m hm => Function.update_of_ne hm _ _) nofun
      · cases hs
  | tick =>
      cases hs
      refine ⟨hi.exclusion, hi.readers, hi.writer, hi.holder, ?_, hi.untouched, hi.failed⟩
      intro n c hn hadm
      refine hi.wakes n c hn ?_
      rw [← hadm]
      cases c.mode <;> rfl
  | step n choice =>
      obtain ⟨s₁, hstep, rfl⟩ := Option.map_eq_some_iff.mp hs
      obtain ⟨th, hth, hadv⟩ := Option.bind_eq_some_iff.mp hstep
      exact hi.advance hth hadv

end Steps

theorem RwInv.create (w numThreads : Nat) : RwInv (.create w numThreads) := by
  have hidle : ∀ (n : Nat) (th : RwThread w),
      (List.replicate numThreads (RwThread.idle (w := w)))[n]? = some th → th = .idle :=
    fun n th h => List.eq_of_mem_replicate (List.mem_of_getElem? h)
  have hnone : ∀ op mode, (RwState.create w numThreads).successes op mode = 0 := by
    intro op mode
    simp [RwState.successes, RwState.create, List.countP_replicate, RwThread.succeeds]
  refine ⟨nofun, ?_, ?_, ?_, ?_, ?_, nofun⟩
  · rw [hnone, hnone]
    rfl
  · rw [hnone, hnone]
    rfl
  · intro n th hn hhold
    rw [hidle n th hn] at hhold
    cases hhold
  · intro n c hn
    cases hidle n _ hn
  · intro n th hn hun
    rw [hidle n th hn] at hun
    cases hun

theorem rwlock_exclusion_and_wakeups {numThreads : Nat} {s : RwState w}
    (hr : (rwlockMachine w numThreads).Reachable s) : s.LockOk := by
  have hi : RwInv s := Machine.Reachable.invariant (RwInv.create w numThreads)
    (fun _ _ _ _ hi hs => hi.next hs) hr
  refine ⟨hi.exclusion, hi.readers, hi.writer, hi.failed, ?_⟩
  intro hfree n c woken hn hadm
  cases woken with
  | true => rfl
  | false =>
      obtain ⟨m, mode, hm⟩ := hi.wakes n c hn hadm
      have hguard := hi.holder m _ hm rfl
      rw [hfree] at hguard
      cases hguard

/-- A writer that waits for a reader, and the reader's exit. -/
theorem rwlock_exclusion_and_wakeups_handover :
    ∃ s : RwState 32, s.threads = [.idle, .blocked ⟨.write, waitForever, 0⟩ true] ∧
      s.guard = none ∧ s.LockOk := by
  let schedule : List (RwAct 32) :=
    [.lock 0 .read 0, .step 0 .ok, .step 0 .ok, .step 0 .ok, .lock 1 .write waitForever,
      .step 1 .ok, .step 1 .ok, .unlock 0 .read, .step 0 .ok, .step 0 .ok, .step 0 .ok,
      .step 0 .ok]
  have hview : ((rwlockMachine 32 2).run (.create 32 2) schedule).map
      (fun s => (s.threads, s.guard)) =
        some ([.idle, .blocked ⟨.write, waitForever, 0⟩ true], none) := by
    decide +kernel
  obtain ⟨s, hrun, hres⟩ := Option.map_eq_some_iff.mp hview
  simp only [Prod.mk.injEq] at hres
  exact ⟨s, hres.1, hres.2, rwlock_exclusion_and_wakeups (.of_run hrun)⟩

end MicrOsal
