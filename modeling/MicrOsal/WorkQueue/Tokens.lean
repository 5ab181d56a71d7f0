import MicrOsal.WorkQueue.Emulated

/-!
# MicrOsal.WorkQueue.Tokens

The ring and the semaphore of the emulated work queue.

The worker takes a token before it locks `mtx`, so a `cancel_all` in between removes
an entry whose token is already in the worker's hand. The tokens may therefore be
one more than the entries, and never more than that: the worker returns the surplus
by finding the ring empty. The token that `destroy` gives stays on top until the
worker leaves its loop; when the semaphore has no room for it, the surplus token
takes its place.
-/

namespace MicrOsal

/-! ### The ring -/

theorem emuWqAdvanceIndex_eq {index capacity : Nat} (h : index < capacity) :
    emuWqAdvanceIndex index capacity = (index + 1) % capacity := by
  unfold emuWqAdvanceIndex
  split
  · next heq => rw [heq, Nat.mod_self]
  · exact (Nat.mod_eq_of_lt (by omega)).symm

theorem EmuWq.enqueue_eq {r : Ring WqEntry} (h : r.Ok) (entry : WqEntry) :
    EmuWq.enqueue r entry = r.push entry := by
  rw [EmuWq.enqueue, emuWqAdvanceIndex_eq h.tail_lt]
  rfl

theorem EmuWq.dequeue_eq {r : Ring WqEntry} (h : r.Ok) : EmuWq.dequeue r = r.pop := by
  rw [EmuWq.dequeue, emuWqAdvanceIndex_eq h.head_lt]
  rfl

/-- A give adds a token, or is lost when there are as many as there may be. -/
theorem EmuWq.give_cases (wq : EmuWq) :
    (wq.notEmpty < wq.maxTokens ∧ wq.give = { wq with notEmpty := wq.notEmpty + 1 }) ∨
      (wq.maxTokens ≤ wq.notEmpty ∧ wq.give = wq) := by
  unfold EmuWq.give
  split
  · next h => exact .inl ⟨h, rfl⟩
  · next h => exact .inr ⟨Nat.not_lt.mp h, rfl⟩

/-- A give changes the tokens only. -/
theorem EmuWq.give_eq (wq : EmuWq) : ∃ tokens, wq.give = { wq with notEmpty := tokens } := by
  rcases wq.give_cases with ⟨-, h⟩ | ⟨-, h⟩
  · exact ⟨_, h⟩
  · exact ⟨wq.notEmpty, h⟩

/-- A submit is refused, or stores an entry and gives a token. -/
theorem WqState.submit_cases (s : WqState) (func arg : Nat) :
    s.submit func arg = s ∨
      (func ≠ 0 ∧ s.wq.ring.count < s.wq.ring.capacity ∧
        s.submit func arg = { s with
          wq := EmuWq.give { s.wq with
            submittedSequence := s.wq.submittedSequence + 1
            ring := EmuWq.enqueue s.wq.ring (s.wq.newEntry func arg) }
          hist := s.hist.accept (s.wq.newEntry func arg) }) := by
  unfold WqState.submit EmuWq.submit
  split
  · exact .inl rfl
  · next hfunc =>
    split
    · exact .inl rfl
    · next hroom => exact .inr ⟨hfunc, Nat.not_le.mp hroom, rfl⟩

/-- The ring, the record and the sequence numbers agree. -/
structure WqRing (s : WqState) : Prop where
  ring : s.wq.ring.Ok
  hist : s.hist.Ok s.wq.ring.contents s.worker.running
  numbered : s.hist.Numbered (·.sequence)
  submitted : s.wq.submittedSequence = s.hist.accepted.length
  locked : s.mtx ≠ none → s.wq.ring.count = 0

section Ring

variable {s s' : WqState} {n : Nat} {a : WqAct}

theorem WqRing.submit (h : WqRing s) (hfree : s.mtx = none) (func arg : Nat) :
    WqRing (s.submit func arg) := by
  rcases s.submit_cases func arg with heq | ⟨-, hroom, heq⟩
  · rw [heq]
    exact h
  · rw [EmuWq.enqueue_eq h.ring] at heq
    obtain ⟨tokens, hgive⟩ := EmuWq.give_eq { s.wq with
      submittedSequence := s.wq.submittedSequence + 1
      ring := s.wq.ring.push (s.wq.newEntry func arg) }
    rw [heq, hgive]
    refine ⟨h.ring.push hroom _, ?_, ?_, ?_, fun hm => absurd hfree hm⟩
    · rw [h.ring.contents_push hroom]
      exact h.hist.accept _
    · exact h.numbered.accept (by simp [EmuWq.newEntry, h.submitted])
    · simp [JobHistory.accept, h.submitted]

theorem WqRing.cancelAll (h : WqRing s) : WqRing (s.cancelAll n) :=
  ⟨h.ring.clear, h.hist.cancel, h.numbered, h.submitted, fun _ => rfl⟩

theorem WqRing.destroy (h : WqRing s) : WqRing (s.destroy n) := by
  obtain ⟨tokens, hgive⟩ := EmuWq.give_eq { s.wq with stop := true }
  rw [WqState.destroy, hgive]
  exact ⟨h.ring, h.hist, h.numbered, h.submitted, h.locked⟩

theorem WqRing.advance {r : ErrorCode} {expired : Bool} {th : WqThread} (h : WqRing s)
    (hs : s.advance n r expired th = some s') : WqRing s' := by
  cases th with
  | idle => cases hs
  | flushEnter begun =>
      simp only [WqState.advance] at hs
      repeat' split at hs
      all_goals cases hs
      all_goals exact ⟨h.ring, h.hist, h.numbered, h.submitted, h.locked⟩
  | flushWait begun target =>
      simp only [WqState.advance] at hs
      repeat' split at hs
      all_goals cases hs
      all_goals exact ⟨h.ring, h.hist, h.numbered, h.submitted, h.locked⟩
  | cancel =>
      simp only [WqState.advance] at hs
      split at hs
      · split at hs
        · cases hs
          exact ⟨h.ring, h.hist, h.numbered, h.submitted, fun hm => absurd rfl hm⟩
        · cases hs
      · next hmtx =>
        split at hs
        · cases hs
          exact ⟨h.ring, h.hist, h.numbered, h.submitted,
            fun _ => h.locked (by rw [hmtx]; exact nofun)⟩
        · cases hs
      · cases hs
  | join => cases hs

theorem WqRing.stepWorker (h : WqRing s) (hs : s.stepWorker = some s') : WqRing s' := by
  have hhist := h.hist
  rw [WqState.stepWorker] at hs
  cases hw : s.worker with
  | take =>
      simp only [hw] at hs hhist
      split at hs
      · cases hs
      · cases hs
        exact ⟨h.ring, hhist, h.numbered, h.submitted, h.locked⟩
  | lock =>
      simp only [hw] at hs hhist
      split at hs
      · cases hs
      · next hfree =>
        split at hs
        · cases hs
          exact ⟨h.ring, hhist, h.numbered, h.submitted, h.locked⟩
        · split at hs
          · cases hs
            exact ⟨h.ring, hhist, h.numbered, h.submitted, h.locked⟩
          · next hpos =>
            cases hs
            rw [h.ring.contents_pop hpos] at hhist
            simp only [EmuWq.start, EmuWq.dequeue_eq h.ring]
            exact ⟨h.ring.pop hpos, hhist.start, h.numbered, h.submitted,
              fun hm => absurd (by simpa using hfree) hm⟩
  | run entry =>
      simp only [hw] at hs hhist
      cases hs
      exact ⟨h.ring, hhist.finish, h.numbered, h.submitted, h.locked⟩
  | done entry =>
      simp only [hw] at hs hhist
      split at hs
      · cases hs
      · cases hs
        exact ⟨h.ring, hhist, h.numbered, h.submitted, h.locked⟩
  | exited =>
      rw [hw] at hs
      cases hs

theorem WqRing.next (h : WqRing s) (hs : s.next a = some s') : WqRing s' := by
  cases a with
  | submit func arg =>
      simp only [WqState.next] at hs
      split at hs
      · cases hs
      · next hfree =>
        cases hs
        exact h.submit (by simpa using hfree) func arg
  | flush n =>
      simp only [WqState.next] at hs
      split at hs
      · cases hs
        exact ⟨h.ring, h.hist, h.numbered, h.submitted, h.locked⟩
      · cases hs
  | cancelAll n =>
      simp only [WqState.next] at hs
      split at hs
      · cases hs
        exact h.cancelAll
      · cases hs
  | destroy n =>
      simp only [WqState.next] at hs
      split at hs
      · cases hs
        exact h.destroy
      · cases hs
  | step n r expired =>
      obtain ⟨th, -, hadv⟩ := Option.bind_eq_some_iff.mp hs
      exact h.advance hadv
  | worker => exact h.stepWorker hs

theorem WqRing.create {depth : Nat} (hdepth : 0 < depth) (numThreads : Nat) :
    WqRing (.create depth numThreads) :=
  ⟨Ring.create_ok hdepth _, JobHistory.empty_ok, rfl, rfl, fun h => absurd rfl h⟩

theorem WqRing.reachable {depth numThreads : Nat} (hdepth : 0 < depth)
    (hr : (emulatedWqMachine depth numThreads).Reachable s) : WqRing s :=
  Machine.Reachable.invariant (WqRing.create hdepth numThreads) (fun _ _ _ _ h hs => h.next hs) hr

/-- Entries are told apart by their sequence numbers. -/
theorem WqRing.accepted_nodup (h : WqRing s) : s.hist.accepted.Nodup := by
  refine List.Nodup.of_map (·.sequence) ?_
  rw [h.numbered]
  exact List.nodup_range'

end Ring

/-! ### Tokens -/

/-- The tokens that the `cancel_all` in progress has still to take away. -/
def WqState.draining (s : WqState) : Nat := (s.mtx.map (·.left)).getD 0

/-- The tokens and the entries, as long as the worker is in its loop. -/
structure WqTok (s : WqState) : Prop where
  max : s.wq.notEmpty ≤ s.wq.maxTokens
  given : s.stopGiven = true → s.wq.stop = true
  exited : s.worker = .exited → s.wq.stop = true
  lower : s.worker ≠ .exited →
    s.wq.ring.count + s.draining + s.stopGiven.toNat ≤ s.wq.notEmpty + s.worker.holdsToken
  upper : s.worker ≠ .exited →
    s.wq.notEmpty + s.worker.holdsToken ≤ s.wq.ring.count + s.draining + 1 + s.stopGiven.toNat
  stopped : s.worker ≠ .exited → s.wq.stop = true →
    s.wq.ring.count + s.draining + 1 ≤ s.wq.notEmpty + s.worker.holdsToken

section Tokens

variable {s s' : WqState} {n : Nat} {a : WqAct}

/-- A step that changes neither tokens nor entries nor the worker. -/
theorem WqTok.same (h : WqTok s) (threads : List WqThread) (flushes : List WqFlush) :
    WqTok { s with threads := threads, flushes := flushes } :=
  ⟨h.max, h.given, h.exited, h.lower, h.upper, h.stopped⟩

theorem WqTok.submit (h : WqTok s) (hfree : s.mtx = none) (func arg : Nat) :
    WqTok (s.submit func arg) := by
  rcases s.submit_cases func arg with heq | ⟨-, hroom, heq⟩
  · rw [heq]
    exact h
  · have hdrain : s.draining = 0 := by simp [WqState.draining, hfree]
    have hmax := h.max
    have hlow := h.lower
    have hup := h.upper
    have hstop := h.stopped
    have hgiven : s.stopGiven.toNat ≤ 1 := Bool.toNat_le _
    rw [hdrain] at hlow hup hstop
    have hcap : s.wq.maxTokens = s.wq.ring.capacity + 1 := rfl
    -- A token is lost only if there are enough of them.
    obtain ⟨tokens, hgive, hmore⟩ : ∃ tokens,
        EmuWq.give { s.wq with
          submittedSequence := s.wq.submittedSequence + 1
          ring := EmuWq.enqueue s.wq.ring (s.wq.newEntry func arg) } =
          { s.wq with
            submittedSequence := s.wq.submittedSequence + 1
            ring := EmuWq.enqueue s.wq.ring (s.wq.newEntry func arg)
            notEmpty := tokens } ∧
        ((tokens = s.wq.notEmpty + 1 ∧ s.wq.notEmpty < s.wq.maxTokens) ∨
          (tokens = s.wq.notEmpty ∧ s.wq.maxTokens ≤ s.wq.notEmpty)) := by
      rcases EmuWq.give_cases _ with ⟨hlt, hgive⟩ | ⟨hge, hgive⟩
      · exact ⟨_, hgive, .inl ⟨rfl, hlt⟩⟩
      · exact ⟨_, hgive, .inr ⟨rfl, hge⟩⟩
    rw [heq, hgive]
    refine ⟨?_, h.given, h.exited, ?_, ?_, ?_⟩
    · change tokens ≤ s.wq.maxTokens
      omega
    · intro hw
      have := hlow hw
      change s.wq.ring.count + 1 + s.draining + s.stopGiven.toNat ≤ tokens + s.worker.holdsToken
      omega
    · intro hw
      have := hup hw
      change tokens + s.worker.holdsToken ≤
        s.wq.ring.count + 1 + s.draining + 1 + s.stopGiven.toNat
      omega
    · intro hw hst
      have := hstop hw hst
      change s.wq.ring.count + 1 + s.draining + 1 ≤ tokens + s.worker.holdsToken
      omega

theorem WqTok.cancelAll (h : WqTok s) (hfree : s.mtx = none) : WqTok (s.cancelAll n) := by
  have hdrain : s.draining = 0 := by simp [WqState.draining, hfree]
  have hlow := h.lower
  have hup := h.upper
  have hstop := h.stopped
  rw [hdrain] at hlow hup hstop
  refine ⟨h.max, h.given, h.exited, ?_, ?_, ?_⟩
  · intro hw
    have := hlow hw
    simp only [WqState.cancelAll, WqState.setThread, WqState.draining, Ring.clear,
      Option.map_some, Option.getD_some]
    omega
  · intro hw
    have := hup hw
    simp only [WqState.cancelAll, WqState.setThread, WqState.draining, Ring.clear,
      Option.map_some, Option.getD_some]
    omega
  · intro hw hst
    have := hstop hw hst
    simp only [WqState.cancelAll, WqState.setThread, WqState.draining, Ring.clear,
      Option.map_some, Option.getD_some]
    omega

theorem WqTok.destroy (h : WqTok s) (hring : s.wq.ring.Ok) (hfree : s.mtx = none)
    (hstop : s.wq.stop = false) : WqTok (s.destroy n) := by
  have hdrain : s.draining = 0 := by simp [WqState.draining, hfree]
  have hnot : s.stopGiven = false := by
    cases hg : s.stopGiven with
    | false => rfl
    | true =>
        rw [h.given hg] at hstop
        cases hstop
  have hcount := hring.count_le
  have hmax := h.max
  have hlow := h.lower
  have hup := h.upper
  rw [hdrain, hnot, Bool.toNat_false] at hlow hup
  rw [WqState.destroy]
  rcases EmuWq.give_cases { s.wq with stop := true } with ⟨hlt, hgive⟩ | ⟨hge, hgive⟩
  · have hlt : s.wq.notEmpty < s.wq.maxTokens := hlt
    rw [hgive, decide_eq_true hlt]
    refine ⟨hlt, fun _ => rfl, fun _ => rfl, ?_, ?_, ?_⟩
    · intro hw
      have := hlow hw
      change s.wq.ring.count + s.draining + 1 ≤ s.wq.notEmpty + 1 + s.worker.holdsToken
      omega
    · intro hw
      have := hup hw
      change s.wq.notEmpty + 1 + s.worker.holdsToken ≤ s.wq.ring.count + s.draining + 1 + 1
      omega
    · intro hw _
      have := hlow hw
      change s.wq.ring.count + s.draining + 1 ≤ s.wq.notEmpty + 1 + s.worker.holdsToken
      omega
  · have hge : s.wq.ring.capacity + 1 ≤ s.wq.notEmpty := hge
    have hlost : decide (s.wq.notEmpty < s.wq.maxTokens) = false :=
      decide_eq_false (Nat.not_lt.mpr hge)
    rw [hgive, hlost]
    refine ⟨hmax, nofun, fun _ => rfl, ?_, ?_, ?_⟩
    · intro hw
      change s.wq.ring.count + s.draining + 0 ≤ s.wq.notEmpty + s.worker.holdsToken
      omega
    · intro hw
      have := hup hw
      change s.wq.notEmpty + s.worker.holdsToken ≤ s.wq.ring.count + s.draining + 1 + 0
      omega
    · -- The surplus token does what the lost one would have done.
      intro hw _
      change s.wq.ring.count + s.draining + 1 ≤ s.wq.notEmpty + s.worker.holdsToken
      omega

theorem WqTok.advance {r : ErrorCode} {expired : Bool} {th : WqThread} (h : WqTok s)
    (hring : WqRing s) (hs : s.advance n r expired th = some s') : WqTok s' := by
  cases th with
  | idle => cases hs
  | flushEnter begun =>
      simp only [WqState.advance] at hs
      repeat' split at hs
      all_goals cases hs
      all_goals exact h.same _ _
  | flushWait begun target =>
      simp only [WqState.advance] at hs
      repeat' split at hs
      all_goals cases hs
      all_goals exact h.same _ _
  | cancel =>
      have hlow := h.lower
      have hup := h.upper
      have hstop := h.stopped
      have hmax := h.max
      simp only [WqState.advance] at hs
      split at hs
      · next hmtx =>
        simp only [WqState.draining, hmtx, Option.map_some, Option.getD_some] at hlow hup hstop
        split at hs
        · cases hs
          exact ⟨h.max, h.given, h.exited, hlow, hup, hstop⟩
        · cases hs
      · next m left hmtx =>
        -- The ring is empty; a token is missing only if the worker has it.
        have hempty := hring.locked (by rw [hmtx]; exact nofun)
        have hhold : s.worker.holdsToken ≤ 1 := by
          cases s.worker <;> simp [WqWorker.holdsToken]
        simp only [WqState.draining, hmtx, Option.map_some, Option.getD_some, hempty]
          at hlow hup hstop
        split at hs
        · cases hs
          refine ⟨(Nat.sub_le _ _).trans hmax, h.given, h.exited, ?_, ?_, ?_⟩
          all_goals
            simp only [WqState.draining, Option.map_some, Option.getD_some, hempty]
          · intro hw
            have := hlow hw
            omega
          · intro hw
            have := hup hw
            omega
          · intro hw hst
            have := hstop hw hst
            omega
        · cases hs
      · cases hs
  | join => cases hs

theorem WqTok.stepWorker (h : WqTok s) (hs : s.stepWorker = some s') : WqTok s' := by
  have hlow := h.lower
  have hup := h.upper
  have hstop := h.stopped
  have hmax := h.max
  rw [WqState.stepWorker] at hs
  cases hw : s.worker with
  | take =>
      simp only [hw, WqWorker.holdsToken] at hs hlow hup hstop
      split at hs
      · cases hs
      · cases hs
        have hl := hlow nofun
        have hu := hup nofun
        refine ⟨(Nat.sub_le _ _).trans hmax, h.given, nofun, ?_, ?_, ?_⟩
        · intro _
          change s.wq.ring.count + s.draining + s.stopGiven.toNat ≤ s.wq.notEmpty - 1 + 1
          omega
        · intro _
          change s.wq.notEmpty - 1 + 1 ≤
            s.wq.ring.count + s.draining + 1 + s.stopGiven.toNat
          omega
        · intro _ hst
          have := hstop nofun hst
          change s.wq.ring.count + s.draining + 1 ≤ s.wq.notEmpty - 1 + 1
          omega
  | lock =>
      simp only [hw, WqWorker.holdsToken] at hs hlow hup hstop
      split at hs
      · cases hs
      · next hfree =>
        have hdrain : s.draining = 0 := by
          have hnone : s.mtx = none := by simpa using hfree
          simp [WqState.draining, hnone]
        have hl := hlow nofun
        have hu := hup nofun
        rw [hdrain] at hl hu hstop
        split at hs
        · next hend =>
          cases hs
          exact ⟨hmax, h.given, fun _ => hend.2, fun hne => absurd rfl hne,
            fun hne => absurd rfl hne, fun hne => absurd rfl hne⟩
        · next hgo =>
          split at hs
          · next hempty =>
            -- The surplus token; without `stop` nothing else is left.
            have hrun : s.wq.stop = false := by
              cases hst : s.wq.stop with
              | false => rfl
              | true => exact absurd ⟨hempty, hst⟩ hgo
            have hnot : s.stopGiven = false := by
              cases hg : s.stopGiven with
              | false => rfl
              | true =>
                  rw [h.given hg] at hrun
                  cases hrun
            cases hs
            rw [hempty, hnot, Bool.toNat_false] at hu
            refine ⟨hmax, h.given, nofun, ?_, ?_, ?_⟩
            · intro _
              change s.wq.ring.count + s.draining + s.stopGiven.toNat ≤ s.wq.notEmpty + 0
              rw [hdrain, hempty, hnot, Bool.toNat_false]
              exact Nat.zero_le _
            · intro _
              change s.wq.notEmpty + 0 ≤ s.wq.ring.count + s.draining + 1 + s.stopGiven.toNat
              rw [hdrain, hempty, hnot, Bool.toNat_false]
              omega
            · intro _ hst
              rw [hrun] at hst
              cases hst
          · next hpos =>
            cases hs
            refine ⟨hmax, h.given, nofun, ?_, ?_, ?_⟩
            · intro _
              change s.wq.ring.count - 1 + s.draining + s.stopGiven.toNat ≤ s.wq.notEmpty + 0
              omega
            · intro _
              change s.wq.notEmpty + 0 ≤
                s.wq.ring.count - 1 + s.draining + 1 + s.stopGiven.toNat
              omega
            · intro _ hst
              have := hstop nofun hst
              change s.wq.ring.count - 1 + s.draining + 1 ≤ s.wq.notEmpty + 0
              omega
  | run entry =>
      simp only [hw, WqWorker.holdsToken] at hs hlow hup hstop
      cases hs
      exact ⟨hmax, h.given, nofun, fun _ => hlow nofun, fun _ => hup nofun, fun _ => hstop nofun⟩
  | done entry =>
      simp only [hw, WqWorker.holdsToken] at hs hlow hup hstop
      split at hs
      · cases hs
      · cases hs
        exact ⟨hmax, h.given, nofun, fun _ => hlow nofun, fun _ => hup nofun, fun _ => hstop nofun⟩
  | exited =>
      rw [hw] at hs
      cases hs

theorem WqTok.next (h : WqTok s) (hring : WqRing s) (hs : s.next a = some s') : WqTok s' := by
  cases a with
  | submit func arg =>
      simp only [WqState.next] at hs
      split at hs
      · cases hs
      · next hfree =>
        cases hs
        exact h.submit (by simpa using hfree) func arg
  | flush n =>
      simp only [WqState.next] at hs
      split at hs
      · cases hs
        exact h.same _ _
      · cases hs
  | cancelAll n =>
      simp only [WqState.next] at hs
      split at hs
      · next hcond =>
        cases hs
        exact h.cancelAll hcond.2
      · cases hs
  | destroy n =>
      simp only [WqState.next] at hs
      split at hs
      · next hcond =>
        cases hs
        exact h.destroy hring.ring hcond.2.1 hcond.2.2
      · cases hs
  | step n r expired =>
      obtain ⟨th, -, hadv⟩ := Option.bind_eq_some_iff.mp hs
      exact h.advance hring hadv
  | worker => exact h.stepWorker hs

theorem WqTok.reachable {depth numThreads : Nat} (hdepth : 0 < depth)
    (hr : (emulatedWqMachine depth numThreads).Reachable s) : WqTok s := by
  refine Machine.Reachable.invariant ?_ ?_ hr
  · exact ⟨Nat.zero_le _, nofun, nofun, fun _ => Nat.zero_le _, fun _ => Nat.zero_le _, nofun⟩
  · intro s a s' hr h hs
    exact h.next (WqRing.reachable hdepth hr) hs

/-- Only the worker moves the worker. -/
theorem next_worker (hs : s.next a = some s') : s'.worker = s.worker ∨ s.stepWorker = some s' := by
  cases a with
  | worker => exact .inr hs
  | step n r expired =>
      obtain ⟨th, -, hadv⟩ := Option.bind_eq_some_iff.mp hs
      refine .inl ?_
      cases th with
      | idle => cases hadv
      | join => cases hadv
      | _ =>
          simp only [WqState.advance] at hadv
          repeat' split at hadv
          all_goals cases hadv
          all_goals rfl
  | _ =>
      refine .inl ?_
      simp only [WqState.next] at hs
      split at hs
      all_goals cases hs
      all_goals rfl

/-- The worker leaves its loop only when it is to stop and the ring is empty. -/
theorem exit_drained (hs : s.next a = some s') (hexit : s'.worker = .exited) :
    s.worker = .exited ∨ s'.wq.ring.count = 0 := by
  rcases next_worker hs with hsame | hstep
  · exact .inl (hsame.symm.trans hexit)
  · rw [WqState.stepWorker] at hstep
    cases hw : s.worker with
    | exited => exact .inl rfl
    | lock =>
        simp only [hw] at hstep
        split at hstep
        · cases hstep
        · split at hstep
          · next hend =>
            cases hstep
            exact .inr hend.1
          · split at hstep
            all_goals cases hstep
            all_goals cases hexit
    | _ =>
        simp only [hw] at hstep
        repeat' split at hstep
        all_goals cases hstep
        all_goals cases hexit

end Tokens

/-- The ring holds the accepted entries that were neither started nor cancelled, in
order. The tokens are those of the ring, a surplus of at most one, and the one of
`destroy`, as long as the worker is in its loop; an accepted submit before `destroy`
does not lose its token. The worker does not sleep on a ring with entries, nor once
it is to stop, and it leaves an empty ring. -/
structure WqState.Accounted (s : WqState) : Prop where
  count_le : s.wq.ring.count ≤ s.wq.ring.capacity
  once : s.hist.accepted.Nodup
  places : s.hist.accepted.Perm (s.hist.started ++ s.hist.cancelled ++ s.wq.ring.contents)
  ring : s.wq.ring.contents <:+ s.hist.accepted
  order : s.hist.started.Sublist s.hist.accepted
  tokens : s.worker ≠ .exited → ∃ surplus ≤ 1, s.wq.notEmpty + s.worker.holdsToken =
    s.wq.ring.count + s.draining + surplus + s.stopGiven.toNat
  room : s.wq.stop = false → s.mtx = none → s.wq.ring.count < s.wq.ring.capacity →
    s.wq.notEmpty < s.wq.maxTokens
  awake : s.worker = .take → 0 < s.wq.ring.count → 0 < s.wq.notEmpty
  stopped : s.worker = .take → s.wq.stop = true → 0 < s.wq.notEmpty
  drained : ∀ a s', s.next a = some s' → s'.worker = .exited →
    s.worker = .exited ∨ s'.wq.ring.count = 0

theorem emulatedWq_accounted {depth numThreads : Nat} {s : WqState} (hdepth : 0 < depth)
    (hr : (emulatedWqMachine depth numThreads).Reachable s) : s.Accounted := by
  have hring := WqRing.reachable hdepth hr
  have htok := WqTok.reachable hdepth hr
  refine ⟨hring.ring.count_le, hring.accepted_nodup, hring.hist.perm, hring.hist.pending_suffix,
    hring.hist.started_sublist, ?_, ?_, ?_, ?_, fun _ _ => exit_drained⟩
  · intro hw
    have hlow := htok.lower hw
    have hup := htok.upper hw
    refine ⟨s.wq.notEmpty + s.worker.holdsToken -
      (s.wq.ring.count + s.draining + s.stopGiven.toNat), ?_, ?_⟩
    · omega
    · omega
  · intro hstop hfree hroom
    have hrun : s.worker ≠ .exited := by
      intro hw
      rw [htok.exited hw] at hstop
      cases hstop
    have hnot : s.stopGiven = false := by
      cases hg : s.stopGiven with
      | false => rfl
      | true =>
          rw [htok.given hg] at hstop
          cases hstop
    have hup := htok.upper hrun
    simp only [WqState.draining, hfree, hnot, Option.map_none, Option.getD_none,
      Bool.toNat_false] at hup
    simp only [EmuWq.maxTokens]
    omega
  · intro hw hpos
    have hlow := htok.lower (by rw [hw]; exact nofun)
    simp only [hw, WqWorker.holdsToken] at hlow
    omega
  · intro hw hstop
    have hlow := htok.stopped (by rw [hw]; exact nofun) hstop
    simp only [hw, WqWorker.holdsToken] at hlow
    omega

/-- The worker has taken the token of an entry that `cancel_all` removes: one token too
many, and the give of `destroy` is lost on a full semaphore. -/
theorem emulatedWq_accounted_surplus :
    ∃ s : WqState, s.wq.notEmpty = 2 ∧ s.wq.ring.count = 1 ∧ s.wq.stop = true ∧
      s.stopGiven = false ∧ s.Accounted := by
  let schedule : List WqAct :=
    [.submit 1 0, .worker, .cancelAll 0, .step 0 .ok false, .step 0 .ok false, .submit 1 1, .worker,
      .submit 1 2, .destroy 0]
  have hview : ((emulatedWqMachine 1 1).run (.create 1 1) schedule).map
      (fun s => (s.wq.notEmpty, s.wq.ring.count, s.wq.stop, s.stopGiven)) =
        some (2, 1, true, false) := by
    decide +kernel
  obtain ⟨s, hrun, hres⟩ := Option.map_eq_some_iff.mp hview
  simp only [Prod.mk.injEq] at hres
  exact ⟨s, hres.1, hres.2.1, hres.2.2.1, hres.2.2.2,
    emulatedWq_accounted (by decide) (.of_run hrun)⟩

/-- A submit that comes after `destroy` can lose its token, and once the worker has
left its loop the token of `destroy` is gone. -/
theorem emulatedWq_late_submit_loses_token :
    (∃ s : WqState, (emulatedWqMachine 1 1).Reachable s ∧ s.mtx = none ∧
      s.wq.ring.count < s.wq.ring.capacity ∧ s.wq.notEmpty = s.wq.maxTokens) ∧
    ∃ s : WqState, (emulatedWqMachine 1 1).Reachable s ∧ s.stopGiven = true ∧
      ¬ ∃ surplus ≤ 1, s.wq.notEmpty + s.worker.holdsToken =
        s.wq.ring.count + s.draining + surplus + s.stopGiven.toNat := by
  constructor
  · let schedule : List WqAct :=
      [.submit 1 0, .worker, .cancelAll 0, .step 0 .ok false, .step 0 .ok false, .submit 1 1,
        .worker, .destroy 0]
    have hview : ((emulatedWqMachine 1 1).run (.create 1 1) schedule).map
        (fun s => (s.mtx, s.wq.ring.count, s.wq.ring.capacity, s.wq.notEmpty)) =
          some (none, 0, 1, 2) := by
      decide +kernel
    obtain ⟨s, hrun, hres⟩ := Option.map_eq_some_iff.mp hview
    simp only [Prod.mk.injEq] at hres
    obtain ⟨hmtx, hcount, hcap, htokens⟩ := hres
    refine ⟨s, .of_run hrun, hmtx, ?_, ?_⟩
    · omega
    · rw [EmuWq.maxTokens, htokens, hcap]
  · let schedule : List WqAct := [.destroy 0, .worker, .worker]
    have hview : ((emulatedWqMachine 1 1).run (.create 1 1) schedule).map
        (fun s => (s.stopGiven, s.wq.notEmpty, s.worker.holdsToken)) = some (true, 0, 0) := by
      decide +kernel
    obtain ⟨s, hrun, hres⟩ := Option.map_eq_some_iff.mp hview
    simp only [Prod.mk.injEq] at hres
    obtain ⟨hgiven, htokens, hhold⟩ := hres
    refine ⟨s, .of_run hrun, hgiven, ?_⟩
    rintro ⟨surplus, -, heq⟩
    rw [hgiven, htokens, hhold, Bool.toNat_true] at heq
    omega

end MicrOsal
