import MicrOsal.Lib.Tally
import MicrOsal.WorkQueue.Tokens
import MicrOsal.WorkQueue.Pthread

/-!
# MicrOsal.WorkQueue.Flush

A flush is a barrier, in both work queues: when it returns ok, every item accepted
before it was called has run to its end or was cancelled.

The emulated queue waits for the sequence number of the youngest item it still holds.
Items are completed in the order of their numbers, so everything up to
`completed_sequence` is settled. The pthread queue sends a sentinel after the items;
when the worker comes to it, the items before it are settled, and so are those before
any sentinel with a smaller ticket, even one that `cancel_all` has removed.
-/

namespace MicrOsal

/-! ### The sequence frontier -/

/-- What a flush in progress relies on: an item accepted before its call is settled, or
not younger than its target. -/
def WqThread.Waits (h : JobHistory WqEntry) : WqThread → Prop
  | .flushEnter begun => begun ≤ h.accepted.length
  | .flushWait begun target => begun ≤ h.accepted.length ∧
      ∀ x ∈ h.accepted, x.sequence ≤ begun → h.Settled x ∨ x.sequence ≤ target
  | _ => True

/-- `entry` is the next to be completed. -/
structure EmuWq.Active (wq : EmuWq) (entry : WqEntry) : Prop where
  workerActive : wq.workerActive = true
  activeSequence : wq.activeSequence = entry.sequence
  completed_lt : wq.completedSequence < entry.sequence
  before : ∀ x ∈ wq.ring.contents, entry.sequence < x.sequence
  submitted : entry.sequence ≤ wq.submittedSequence

/-- Where the worker is, compared with the sequence numbers. -/
def WqWorker.Ahead (wq : EmuWq) : WqWorker → Prop
  | .run entry => wq.Active entry
  | .done entry => wq.Active entry
  | _ => wq.workerActive = false

structure WqFrontier (s : WqState) : Prop where
  ahead : ∀ x ∈ s.wq.ring.contents, s.wq.completedSequence < x.sequence
  worker : s.worker.Ahead s.wq
  frontier : s.wq.completedSequence ≤ s.hist.accepted.length
  settled : s.hist.SettledUpTo (·.sequence) s.wq.completedSequence
  waits : ∀ (n : Nat) th, s.threads[n]? = some th → th.Waits s.hist
  returned : ∀ f ∈ s.flushes, f.begun ≤ s.hist.accepted.length ∧
    (f.result = .ok → s.hist.SettledUpTo (·.sequence) f.begun)

section Emulated

variable {s s' : WqState} {n : Nat} {a : WqAct} {h h' : JobHistory WqEntry} {th : WqThread}

theorem WqThread.Waits.grow (hw : th.Waits h) (hg : JobHistory.Grows (·.sequence) h h') :
    th.Waits h' := by
  cases th with
  | flushEnter begun => exact hw.trans hg.1
  | flushWait begun target =>
      refine ⟨hw.1.trans hg.1, ?_⟩
      intro x hx hle
      rcases hg.2.1 x hx with hold | hnew
      · exact (hw.2 x hold hle).imp_left (hg.2.2 x)
      · simp only at hnew
        have := hw.1
        omega
  | _ => trivial

/-- The record grows; threads and flushes stay. -/
theorem WqFrontier.grow (hf : WqFrontier s) (hg : JobHistory.Grows (·.sequence) s.hist h)
    {wq : EmuWq} {mtx : Option WqCancel} {worker : WqWorker} {stopGiven : Bool}
    (hahead : ∀ x ∈ wq.ring.contents, wq.completedSequence < x.sequence)
    (hworker : worker.Ahead wq) (hsame : wq.completedSequence = s.wq.completedSequence) :
    WqFrontier { s with
      wq := wq
      mtx := mtx
      worker := worker
      hist := h
      stopGiven := stopGiven } where
  ahead := hahead
  worker := hworker
  frontier := hsame ▸ hf.frontier.trans hg.1
  settled := hsame ▸ hf.settled.grow hf.frontier hg
  waits := fun m th hm => (hf.waits m th hm).grow hg
  returned := fun f hmem =>
    ⟨(hf.returned f hmem).1.trans hg.1,
      fun hok => ((hf.returned f hmem).2 hok).grow (hf.returned f hmem).1 hg⟩

/-- Thread `n` moves. -/
theorem WqFrontier.setThread (hf : WqFrontier s) {th : WqThread} (hth : th.Waits s.hist) :
    WqFrontier (s.setThread n th) where
  ahead := hf.ahead
  worker := hf.worker
  frontier := hf.frontier
  settled := hf.settled
  returned := hf.returned
  waits := by
    intro m x hm
    rcases getElem?_set_cases hm with ⟨-, rfl⟩ | ⟨-, hm⟩
    · exact hth
    · exact hf.waits m x hm

/-- A flush returns. -/
theorem WqFrontier.flushReturn (hf : WqFrontier s) {begun : Nat} {r : ErrorCode}
    (hbegun : begun ≤ s.hist.accepted.length)
    (hok : r = .ok → s.hist.SettledUpTo (·.sequence) begun) :
    WqFrontier (s.flushReturn n begun r) := by
  refine WqFrontier.setThread (s := { s with flushes := ⟨begun, r⟩ :: s.flushes }) ?_ trivial
  refine ⟨hf.ahead, hf.worker, hf.frontier, hf.settled, hf.waits, ?_⟩
  intro f hmem
  rcases List.mem_cons.mp hmem with rfl | hmem
  · exact ⟨hbegun, hok⟩
  · exact hf.returned f hmem

/-- No accepted item that is not settled is younger than the target of a flush. -/
theorem WqFrontier.flushTarget (hf : WqFrontier s) (hring : WqRing s) {x : WqEntry}
    (hx : x ∈ s.hist.accepted) : s.hist.Settled x ∨ x.sequence ≤ s.wq.flushTarget := by
  unfold EmuWq.flushTarget
  split
  · next hpos =>
    -- The last cell of the ring holds the youngest item of all.
    refine .inr ?_
    have hlast := hring.ring.contents_last hpos
    obtain ⟨old, hold⟩ := hring.hist.pending_suffix
    obtain ⟨front, hfront⟩ := List.getLast?_eq_some_iff.mp hlast
    have hpair := hring.numbered.pairwise
    rw [← hold, hfront, ← List.append_assoc] at hx hpair
    rcases List.mem_append.mp hx with hx | hx
    · exact ((List.pairwise_append.mp hpair).2.2 x hx _ List.mem_cons_self).le
    · rw [List.mem_singleton.mp hx]
      exact le_rfl
  · next hempty =>
    have hnone : s.wq.ring.contents = [] := Ring.contents_eq_nil_iff.mpr (not_not.mp hempty)
    rcases hring.hist.cases hx with hs | hrun | hmem
    · exact .inl hs
    · have hworker := hf.worker
      cases hw : s.worker with
      | run entry =>
          rw [hw] at hrun hworker
          cases hrun
          rw [if_pos hworker.workerActive, hworker.activeSequence]
          exact .inr le_rfl
      | _ =>
          rw [hw] at hrun
          cases hrun
    · rw [hnone] at hmem
      cases hmem

theorem WqFrontier.submit (hf : WqFrontier s) (hring : WqRing s) (func arg : Nat) :
    WqFrontier (s.submit func arg) := by
  rcases s.submit_cases func arg with heq | ⟨-, hroom, heq⟩
  · rw [heq]
    exact hf
  · rw [EmuWq.enqueue_eq hring.ring] at heq
    obtain ⟨tokens, hgive⟩ := EmuWq.give_eq { s.wq with
      submittedSequence := s.wq.submittedSequence + 1
      ring := s.wq.ring.push (s.wq.newEntry func arg) }
    have hcontents := hring.ring.contents_push hroom (s.wq.newEntry func arg)
    have hnew : (s.wq.newEntry func arg).sequence = s.wq.submittedSequence + 1 := rfl
    rw [heq, hgive]
    refine hf.grow (.accept (hnew.trans (by rw [hring.submitted]))) ?_ ?_ rfl
    · intro x hx
      change x ∈ (s.wq.ring.push (s.wq.newEntry func arg)).contents at hx
      rw [hcontents] at hx
      rcases List.mem_append.mp hx with hx | hx
      · exact hf.ahead x hx
      · rw [List.mem_singleton.mp hx, hnew, hring.submitted]
        exact Nat.lt_succ_of_le hf.frontier
    · have hactive : ∀ entry, s.wq.Active entry → EmuWq.Active { s.wq with
          submittedSequence := s.wq.submittedSequence + 1
          ring := s.wq.ring.push (s.wq.newEntry func arg)
          notEmpty := tokens } entry := by
        intro entry ha
        refine ⟨ha.workerActive, ha.activeSequence, ha.completed_lt, ?_,
          ha.submitted.trans (Nat.le_succ _)⟩
        intro x hx
        change x ∈ (s.wq.ring.push (s.wq.newEntry func arg)).contents at hx
        rw [hcontents] at hx
        rcases List.mem_append.mp hx with hx | hx
        · exact ha.before x hx
        · rw [List.mem_singleton.mp hx, hnew]
          exact Nat.lt_succ_of_le ha.submitted
      have hworker := hf.worker
      cases hw : s.worker with
      | run entry =>
          rw [hw] at hworker
          exact hactive entry hworker
      | done entry =>
          rw [hw] at hworker
          exact hactive entry hworker
      | _ =>
          rw [hw] at hworker
          exact hworker

/-- The queue loses its items; what the worker does goes on. -/
theorem WqFrontier.cancelAll (hf : WqFrontier s) : WqFrontier (s.cancelAll n) := by
  refine WqFrontier.setThread (s := { s with
    wq := { s.wq with ring := s.wq.ring.clear }
    mtx := some ⟨n, s.wq.ring.count⟩
    hist := s.hist.cancel s.wq.ring.contents }) ?_ trivial
  refine hf.grow (.cancel _) nofun ?_ rfl
  have hworker := hf.worker
  cases hw : s.worker with
  | run entry =>
      rw [hw] at hworker
      exact ⟨hworker.workerActive, hworker.activeSequence, hworker.completed_lt, nofun,
        hworker.submitted⟩
  | done entry =>
      rw [hw] at hworker
      exact ⟨hworker.workerActive, hworker.activeSequence, hworker.completed_lt, nofun,
        hworker.submitted⟩
  | _ =>
      rw [hw] at hworker
      exact hworker

/-- Tokens, `stop` and the mutex do not matter for the frontier. -/
theorem WqFrontier.tokens (hf : WqFrontier s) (tokens : Nat) (stop : Bool)
    (mtx : Option WqCancel) (stopGiven : Bool) :
    WqFrontier { s with
      wq := { s.wq with notEmpty := tokens, stop := stop }
      mtx := mtx
      stopGiven := stopGiven } := by
  refine hf.grow (.refl _ _) hf.ahead ?_ rfl
  have hworker := hf.worker
  cases hw : s.worker with
  | run entry =>
      rw [hw] at hworker
      exact ⟨hworker.workerActive, hworker.activeSequence, hworker.completed_lt, hworker.before,
        hworker.submitted⟩
  | done entry =>
      rw [hw] at hworker
      exact ⟨hworker.workerActive, hworker.activeSequence, hworker.completed_lt, hworker.before,
        hworker.submitted⟩
  | _ =>
      rw [hw] at hworker
      exact hworker

theorem WqFrontier.destroy (hf : WqFrontier s) : WqFrontier (s.destroy n) := by
  obtain ⟨tokens, hgive⟩ := EmuWq.give_eq { s.wq with stop := true }
  rw [WqState.destroy, hgive]
  exact (hf.tokens tokens true s.mtx _).setThread trivial

theorem WqFrontier.advance {r : ErrorCode} {expired : Bool} (hf : WqFrontier s)
    (hring : WqRing s) (hth : s.threads[n]? = some th)
    (hs : s.advance n r expired th = some s') : WqFrontier s' := by
  have hwaits := hf.waits n th hth
  cases th with
  | idle => cases hs
  | join => cases hs
  | flushEnter begun =>
      simp only [WqState.advance] at hs
      split at hs
      · cases hs
      · split at hs
        · next hreached =>
          cases hs
          refine hf.flushReturn hwaits (fun _ x hx hle => ?_)
          rcases hf.flushTarget hring hx with hsettled | htarget
          · exact hsettled
          · exact hf.settled x hx (htarget.trans hreached)
        · split at hs
          · cases hs
            exact hf.flushReturn hwaits (fun h => by cases h)
          · cases hs
            exact hf.setThread ⟨hwaits, fun x hx _ => hf.flushTarget hring hx⟩
  | flushWait begun target =>
      simp only [WqState.advance] at hs
      split at hs
      · cases hs
      · split at hs
        · next herror =>
          cases hs
          exact hf.flushReturn hwaits.1 (fun hr => absurd hr herror.1)
        · split at hs
          · next hreached =>
            cases hs
            refine hf.flushReturn hwaits.1 (fun _ x hx hle => ?_)
            rcases hwaits.2 x hx hle with hsettled | htarget
            · exact hsettled
            · exact hf.settled x hx (htarget.trans hreached)
          · split at hs
            · cases hs
              exact hf.flushReturn hwaits.1 (fun h => by cases h)
            · cases hs
              exact hf
  | cancel =>
      simp only [WqState.advance] at hs
      split at hs
      · split at hs
        · cases hs
          exact (hf.tokens s.wq.notEmpty s.wq.stop none s.stopGiven).setThread trivial
        · cases hs
      · split at hs
        · cases hs
          exact hf.tokens (s.wq.notEmpty - 1) s.wq.stop _ s.stopGiven
        · cases hs
      · cases hs

theorem WqFrontier.stepWorker (hf : WqFrontier s) (hring : WqRing s)
    (hs : s.stepWorker = some s') : WqFrontier s' := by
  have hworker := hf.worker
  have hcases := fun x (hx : x ∈ s.hist.accepted) => hring.hist.cases hx
  rw [WqState.stepWorker] at hs
  cases hw : s.worker with
  | take =>
      simp only [hw] at hs hworker
      split at hs
      · cases hs
      · cases hs
        exact hf.grow (.refl _ _) hf.ahead hworker rfl
  | lock =>
      simp only [hw] at hs hworker
      split at hs
      · cases hs
      · split at hs
        · cases hs
          exact hf.grow (.refl _ _) hf.ahead hworker rfl
        · split at hs
          · cases hs
            exact hf.grow (.refl _ _) hf.ahead hworker rfl
          · next hpos =>
            cases hs
            -- The front of the ring is older than the rest of it.
            have hpop := hring.ring.contents_pop hpos
            have hpair := hring.numbered.pairwise.sublist hring.hist.pending_suffix.sublist
            rw [hpop] at hpair
            have hfront : s.wq.ring.front ∈ s.wq.ring.contents := by
              rw [hpop]
              exact List.mem_cons_self
            have hrest : ∀ x ∈ s.wq.ring.pop.contents, x ∈ s.wq.ring.contents := by
              intro x hx
              rw [hpop]
              exact List.mem_cons_of_mem _ hx
            simp only [EmuWq.start, EmuWq.dequeue_eq hring.ring]
            refine hf.grow (.start _) (fun x hx => hf.ahead x (hrest x hx)) ?_ rfl
            refine ⟨rfl, rfl, hf.ahead _ hfront, (List.pairwise_cons.mp hpair).1, ?_⟩
            rw [hring.submitted]
            exact hring.numbered.le_length (hring.hist.pending_suffix.subset hfront)
  | run entry =>
      simp only [hw] at hs hworker
      cases hs
      exact hf.grow (.finish _) hf.ahead hworker rfl
  | done entry =>
      simp only [hw] at hs hworker hcases
      split at hs
      · cases hs
      · cases hs
        refine ⟨hworker.before, rfl, ?_, ?_, hf.waits, hf.returned⟩
        · exact hring.submitted ▸ hworker.submitted
        · intro x hx hle
          rcases hcases x hx with hsettled | hrun | hmem
          · exact hsettled
          · cases hrun
          · have hlt := hworker.before x hmem
            exact absurd hle (Nat.not_le.mpr hlt)
  | exited =>
      rw [hw] at hs
      cases hs

theorem WqFrontier.next (hf : WqFrontier s) (hring : WqRing s) (hs : s.next a = some s') :
    WqFrontier s' := by
  cases a with
  | submit func arg =>
      simp only [WqState.next] at hs
      split at hs
      · cases hs
      · cases hs
        exact hf.submit hring func arg
  | flush n =>
      simp only [WqState.next] at hs
      split at hs
      · cases hs
        exact hf.setThread hring.submitted.le
      · cases hs
  | cancelAll n =>
      simp only [WqState.next] at hs
      split at hs
      · cases hs
        exact hf.cancelAll
      · cases hs
  | destroy n =>
      simp only [WqState.next] at hs
      split at hs
      · cases hs
        exact hf.destroy
      · cases hs
  | step n r expired =>
      obtain ⟨th, hth, hadv⟩ := Option.bind_eq_some_iff.mp hs
      exact hf.advance hring hth hadv
  | worker => exact hf.stepWorker hring hs

theorem WqFrontier.reachable {depth numThreads : Nat} (hdepth : 0 < depth)
    (hr : (emulatedWqMachine depth numThreads).Reachable s) : WqFrontier s := by
  refine Machine.Reachable.invariant ?_ ?_ hr
  · refine ⟨nofun, rfl, Nat.zero_le _, nofun, ?_, nofun⟩
    intro n th hn
    rw [List.eq_of_mem_replicate (List.mem_of_getElem? hn)]
    trivial
  · intro s a s' hr hf hs
    exact hf.next (WqRing.reachable hdepth hr) hs

theorem EmuWq.give_completed (wq : EmuWq) : wq.give.completedSequence = wq.completedSequence := by
  obtain ⟨tokens, hgive⟩ := wq.give_eq
  rw [hgive]

/-- `completed_sequence` is stored by the worker only. -/
theorem next_completed (hs : s.next a = some s') :
    s'.wq.completedSequence = s.wq.completedSequence ∨
      ∃ entry, s.worker = .done entry ∧ s'.wq.completedSequence = entry.sequence := by
  cases a with
  | submit func arg =>
      simp only [WqState.next] at hs
      split at hs
      · cases hs
      · cases hs
        refine .inl ?_
        rcases s.submit_cases func arg with heq | ⟨-, -, heq⟩
        · rw [heq]
        · rw [heq, EmuWq.give_completed]
  | destroy n =>
      simp only [WqState.next] at hs
      split at hs
      · cases hs
        exact .inl (EmuWq.give_completed _)
      · cases hs
  | worker =>
      simp only [WqState.next, WqState.stepWorker] at hs
      cases hw : s.worker with
      | done entry =>
          simp only [hw] at hs
          split at hs
          · cases hs
          · cases hs
            exact .inr ⟨entry, rfl, rfl⟩
      | _ =>
          simp only [hw] at hs
          repeat' split at hs
          all_goals cases hs
          all_goals exact .inl rfl
  | step n r expired =>
      obtain ⟨th, -, hadv⟩ := Option.bind_eq_some_iff.mp hs
      refine .inl ?_
      cases th with
      | idle => cases hadv
      | join => cases hadv
      | _ =>
          simp only [WqState.advance] at hadv
          repeat' split at hadv
          all_goals cases hadv
          all_goals rfl
  | _ =>
      refine .inl ?_
      simp only [WqState.next] at hs
      split at hs
      all_goals cases hs
      all_goals rfl

/-- The completed sequence number never goes back. -/
theorem WqFrontier.completed_mono (hf : WqFrontier s) (hs : s.next a = some s') :
    s.wq.completedSequence ≤ s'.wq.completedSequence := by
  rcases next_completed hs with hsame | ⟨entry, hw, hnew⟩
  · exact hsame.ge
  · have hworker := hf.worker
    rw [hw] at hworker
    rw [hnew]
    exact hworker.completed_lt.le

end Emulated

/-! ### Ticket sentinels -/

/-- What a flush in progress relies on: an item accepted before its call was accepted
before its ticket was drawn. -/
def PwqThread.Waits (h : JobHistory PwqEntry) (drawn : Nat) (stampOf : Nat → Nat) :
    PwqThread → Prop
  | .idle => True
  | .flushEnter begun => begun ≤ h.accepted.length
  | .flushWait begun ticket => ticket ≤ drawn ∧ begun ≤ stampOf ticket

/-- A sentinel in the worker's hand has no unsettled item before it. -/
def PwqWorker.Clear (h : JobHistory PwqEntry) (drawn : Nat) (stampOf : Nat → Nat) :
    PwqWorker → Prop
  | .sentinel ticket => ticket ≤ drawn ∧ h.SettledUpTo (·.stamp) (stampOf ticket)
  | _ => True

/-- The tickets, of which `drawn` were drawn, and the record. -/
structure PwqTickets (s : PwqState) (h : JobHistory PwqEntry) (drawn : Nat)
    (stampOf : Nat → Nat) : Prop where
  bound : ∀ t ≤ drawn, stampOf t ≤ h.accepted.length
  mono : ∀ t t', t ≤ t' → t' ≤ drawn → stampOf t ≤ stampOf t'
  completed : s.wq.completedFlushTicket ≤ drawn
  worker : s.worker.Clear h drawn stampOf
  settled : h.SettledUpTo (·.stamp) (stampOf s.wq.completedFlushTicket)
  waits : ∀ (n : Nat) th, s.threads[n]? = some th → th.Waits h drawn stampOf
  returned : ∀ f ∈ s.flushes, f.begun ≤ h.accepted.length ∧
    (f.result = .ok → h.SettledUpTo (·.stamp) f.begun)

/-- The ring and the record. -/
structure PwqRing (s : PwqState) : Prop where
  ring : s.wq.ring.Ok
  hist : s.hist.Ok (s.wq.ring.contents.filter PwqEntry.isWork) s.worker.running
  numbered : s.hist.Numbered (·.stamp)
  /-- Items are younger than everything before them in the ring. -/
  order : s.wq.ring.contents.Pairwise (fun x y => y.isWork = true → x.stamp < y.stamp)
  sentinel : ∀ x ∈ s.wq.ring.contents, x.isWork = false →
    x.arg ≤ s.wq.nextFlushTicket ∧ x.stamp = s.stampOf x.arg
  stamp_le : ∀ x ∈ s.wq.ring.contents, x.stamp ≤ s.hist.accepted.length

structure PwqInv (s : PwqState) : Prop extends PwqRing s where
  tickets : PwqTickets s s.hist s.wq.nextFlushTicket s.stampOf

section Pthread

variable {s s' : PwqState} {n : Nat} {a : PwqAct} {th : PwqThread} {h h' : JobHistory PwqEntry}
  {drawn drawn' : Nat} {stampOf stampOf' : Nat → Nat}

/-- The record grows, and new tickets are drawn. -/
theorem PwqTickets.grow (ht : PwqTickets s h drawn stampOf)
    (hg : JobHistory.Grows (·.stamp) h h') (hdrawn : drawn ≤ drawn')
    (hold : ∀ t ≤ drawn, stampOf' t = stampOf t)
    (hnew : ∀ t, drawn < t → t ≤ drawn' → stampOf' t = h'.accepted.length) :
    PwqTickets s h' drawn' stampOf' := by
  have hbound : ∀ t ≤ drawn', stampOf' t ≤ h'.accepted.length := by
    intro t hle
    rcases Nat.lt_or_ge drawn t with hlt | hge
    · exact (hnew t hlt hle).le
    · rw [hold t hge]
      exact (ht.bound t hge).trans hg.1
  refine ⟨hbound, ?_, ht.completed.trans hdrawn, ?_, ?_, ?_, ?_⟩
  · intro t t' hle hle'
    rcases Nat.lt_or_ge drawn t' with hlt | hge
    · rw [hnew t' hlt hle']
      exact hbound t (hle.trans hle')
    · rw [hold t (hle.trans hge), hold t' hge]
      exact ht.mono t t' hle hge
  · have hw := ht.worker
    cases hcase : s.worker with
    | sentinel ticket =>
        rw [hcase] at hw
        refine ⟨hw.1.trans hdrawn, ?_⟩
        rw [hold ticket hw.1]
        exact hw.2.grow (ht.bound ticket hw.1) hg
    | _ => trivial
  · rw [hold _ ht.completed]
    exact ht.settled.grow (ht.bound _ ht.completed) hg
  · intro n th hn
    have hwait := ht.waits n th hn
    cases th with
    | idle => trivial
    | flushEnter begun => exact Nat.le_trans hwait hg.1
    | flushWait begun ticket =>
        refine ⟨hwait.1.trans hdrawn, ?_⟩
        rw [hold ticket hwait.1]
        exact hwait.2
  · intro f hmem
    obtain ⟨hbegun, hok⟩ := ht.returned f hmem
    exact ⟨hbegun.trans hg.1, fun hr => (hok hr).grow hbegun hg⟩

/-- The record grows. -/
theorem PwqTickets.grow_record (ht : PwqTickets s h drawn stampOf)
    (hg : JobHistory.Grows (·.stamp) h h') : PwqTickets s h' drawn stampOf :=
  ht.grow hg le_rfl (fun _ _ => rfl) (fun _ hlt hle => absurd hle (Nat.not_le.mpr hlt))

/-- The worker moves, and not to a sentinel. -/
theorem PwqTickets.setWorker (ht : PwqTickets s h drawn stampOf) {ring : Ring PwqEntry}
    {worker : PwqWorker} {hist : JobHistory PwqEntry} (hw : worker.Clear h drawn stampOf) :
    PwqTickets { s with
      wq := { s.wq with ring := ring }
      worker := worker
      hist := hist } h drawn stampOf :=
  ⟨ht.bound, ht.mono, ht.completed, hw, ht.settled, ht.waits, ht.returned⟩

/-- A thread moves. -/
theorem PwqTickets.setThread (ht : PwqTickets s h drawn stampOf)
    (hth : th.Waits h drawn stampOf) : PwqTickets (s.setThread n th) h drawn stampOf := by
  refine ⟨ht.bound, ht.mono, ht.completed, ht.worker, ht.settled, ?_, ht.returned⟩
  intro m x hm
  rcases getElem?_set_cases hm with ⟨-, rfl⟩ | ⟨-, hm⟩
  · exact hth
  · exact ht.waits m x hm

/-- A flush returns. -/
theorem PwqInv.flushReturn (hi : PwqInv s) {begun : Nat} {r : ErrorCode}
    (hbegun : begun ≤ s.hist.accepted.length)
    (hok : r = .ok → s.hist.SettledUpTo (·.stamp) begun) :
    PwqInv (s.flushReturn n begun r) := by
  refine ⟨⟨hi.ring, hi.hist, hi.numbered, hi.order, hi.sentinel, hi.stamp_le⟩, ?_⟩
  refine PwqTickets.setThread (s := { s with flushes := ⟨begun, r⟩ :: s.flushes }) ?_ trivial
  refine ⟨hi.tickets.bound, hi.tickets.mono, hi.tickets.completed, hi.tickets.worker,
    hi.tickets.settled, hi.tickets.waits, ?_⟩
  intro f hmem
  rcases List.mem_cons.mp hmem with rfl | hmem
  · exact ⟨hbegun, hok⟩
  · exact hi.tickets.returned f hmem

/-- A submit is refused, or stores an item. -/
theorem PwqState.submit_cases (s : PwqState) (func arg : Nat) :
    s.submit func arg = s ∨
      (func ≠ 0 ∧ s.wq.ring.count < s.wq.ring.capacity ∧
        s.submit func arg = { s with
          wq := { s.wq with ring := s.wq.ring.push ⟨⟨func, arg⟩, s.number⟩ }
          hist := s.hist.accept ⟨⟨func, arg⟩, s.number⟩ }) := by
  unfold PwqState.submit PosixWq.submit
  split
  · exact .inl rfl
  · next hfunc =>
    split
    · exact .inl rfl
    · next hroom => exact .inr ⟨hfunc, Nat.not_le.mp hroom, rfl⟩

theorem PwqInv.submit (hi : PwqInv s) (func arg : Nat) : PwqInv (s.submit func arg) := by
  rcases s.submit_cases func arg with heq | ⟨hfunc, hroom, heq⟩
  · rw [heq]
    exact hi
  · have hcontents := hi.ring.contents_push hroom ⟨⟨func, arg⟩, s.number⟩
    have hwork : PwqEntry.isWork ⟨⟨func, arg⟩, s.number⟩ = true := by simp [PwqEntry.isWork, hfunc]
    have hlen : (s.hist.accept ⟨⟨func, arg⟩, s.number⟩).accepted.length =
        s.hist.accepted.length + 1 := by
      simp [JobHistory.accept]
    rw [heq]
    refine ⟨⟨hi.ring.push hroom _, ?_, hi.numbered.accept rfl, ?_, ?_, ?_⟩, ?_⟩
    · simp only [hcontents, List.filter_append, List.filter_cons, hwork, if_true, List.filter_nil]
      exact hi.hist.accept _
    · simp only [hcontents]
      refine List.pairwise_append.mpr ⟨hi.order, List.pairwise_singleton _ _, ?_⟩
      intro x hx y hy _
      rw [List.mem_singleton.mp hy]
      exact Nat.lt_succ_of_le (hi.stamp_le x hx)
    · simp only [hcontents]
      intro x hx hnot
      rcases List.mem_append.mp hx with hx | hx
      · exact hi.sentinel x hx hnot
      · rw [List.mem_singleton.mp hx, hwork] at hnot
        cases hnot
    · simp only [hcontents, hlen]
      intro x hx
      rcases List.mem_append.mp hx with hx | hx
      · exact (hi.stamp_le x hx).trans (Nat.le_succ _)
      · rw [List.mem_singleton.mp hx]
        exact le_rfl
    · exact (hi.tickets.grow_record (.accept rfl)).setWorker
        (hi.tickets.grow_record (.accept rfl)).worker

/-- A flush draws a ticket and puts its sentinel into the ring. -/
theorem PwqInv.flushEnter (hi : PwqInv s) {begun : Nat}
    (hroom : s.wq.ring.count < s.wq.ring.capacity) (hbegun : begun ≤ s.hist.accepted.length) :
    PwqInv ({ s with
      wq := { s.wq with
        nextFlushTicket := s.wq.nextFlushTicket + 1
        ring := s.wq.ring.push ⟨⟨0, s.wq.nextFlushTicket + 1⟩, s.hist.accepted.length⟩ }
      stampOf := Function.update s.stampOf (s.wq.nextFlushTicket + 1)
        s.hist.accepted.length }.setThread n (.flushWait begun (s.wq.nextFlushTicket + 1))) := by
  have hcontents := hi.ring.contents_push hroom
    ⟨⟨0, s.wq.nextFlushTicket + 1⟩, s.hist.accepted.length⟩
  have hold : ∀ t ≤ s.wq.nextFlushTicket, Function.update s.stampOf (s.wq.nextFlushTicket + 1)
      s.hist.accepted.length t = s.stampOf t := by
    intro t hle
    exact Function.update_of_ne (by omega) _ _
  have hnew : ∀ t, s.wq.nextFlushTicket < t → t ≤ s.wq.nextFlushTicket + 1 →
      Function.update s.stampOf (s.wq.nextFlushTicket + 1) s.hist.accepted.length t =
        s.hist.accepted.length := by
    intro t hlt hle
    rw [show t = s.wq.nextFlushTicket + 1 by omega, Function.update_self]
  refine ⟨⟨hi.ring.push hroom _, ?_, hi.numbered, ?_, ?_, ?_⟩, ?_⟩
  · simp only [PwqState.setThread, hcontents, List.filter_append]
    simpa [PwqEntry.isWork] using hi.hist
  · simp only [PwqState.setThread, hcontents]
    refine List.pairwise_append.mpr ⟨hi.order, List.pairwise_singleton _ _, ?_⟩
    intro x _ y hy hwork
    rw [List.mem_singleton.mp hy] at hwork
    cases hwork
  · simp only [PwqState.setThread, hcontents]
    intro x hx hnot
    rcases List.mem_append.mp hx with hx | hx
    · obtain ⟨hle, hstamp⟩ := hi.sentinel x hx hnot
      exact ⟨hle.trans (Nat.le_succ _), hstamp.trans (hold _ hle).symm⟩
    · rw [List.mem_singleton.mp hx]
      refine ⟨le_rfl, ?_⟩
      simp only [Function.update_self]
  · simp only [PwqState.setThread, hcontents]
    intro x hx
    rcases List.mem_append.mp hx with hx | hx
    · exact hi.stamp_le x hx
    · rw [List.mem_singleton.mp hx]
  · have ht := hi.tickets.grow (.refl _ _) (Nat.le_succ _) hold hnew
    refine PwqTickets.setThread ?_ ⟨le_rfl, ?_⟩
    · exact ⟨ht.bound, ht.mono, ht.completed, ht.worker, ht.settled, ht.waits, ht.returned⟩
    · simp only [PwqState.setThread, Function.update_self]
      exact hbegun

theorem PwqInv.advance {expired : Bool} (hi : PwqInv s) (hth : s.threads[n]? = some th)
    (hs : s.advance n expired th = some s') : PwqInv s' := by
  have hwaits := hi.tickets.waits n th hth
  cases th with
  | idle => cases hs
  | flushEnter begun =>
      simp only [PwqState.advance, PosixWq.flushBegin] at hs
      by_cases hfull : s.wq.ring.count ≥ s.wq.ring.capacity
      · simp only [hfull, if_true] at hs
        cases hs
        exact hi.flushReturn hwaits nofun
      · simp only [hfull, if_false] at hs
        cases hs
        exact hi.flushEnter (Nat.not_le.mp hfull) hwaits
  | flushWait begun ticket =>
      simp only [PwqState.advance] at hs
      have hbegun := hwaits.2.trans (hi.tickets.bound ticket hwaits.1)
      split at hs
      · split at hs
        · cases hs
          exact hi.flushReturn hbegun nofun
        · cases hs
          exact hi
      · next hdone =>
        cases hs
        refine hi.flushReturn hbegun (fun _ x hx hle => ?_)
        have hstamp := hi.tickets.mono ticket _ (Nat.not_lt.mp hdone) hi.tickets.completed
        exact hi.tickets.settled x hx (hle.trans (hwaits.2.trans hstamp))

theorem PwqInv.cancelAll (hi : PwqInv s) :
    PwqInv { s with
      wq := s.wq.cancelAll
      hist := s.hist.cancel (s.wq.ring.contents.filter PwqEntry.isWork) } := by
  refine ⟨⟨hi.ring.clear, ?_, hi.numbered, List.Pairwise.nil, nofun, nofun⟩, ?_⟩
  · simpa [PosixWq.cancelAll] using hi.hist.cancel
  · have ht := hi.tickets.grow_record
      (.cancel (s.wq.ring.contents.filter PwqEntry.isWork))
    exact ht.setWorker ht.worker

/-- What is left of the ring when its front is taken. -/
theorem PwqRing.pop (hi : PwqRing s) (hpos : s.wq.ring.count ≠ 0) :
    (s.wq.ring.front :: s.wq.ring.pop.contents).Pairwise
        (fun x y => y.isWork = true → x.stamp < y.stamp) ∧
      s.wq.ring.front ∈ s.wq.ring.contents ∧
      ∀ x ∈ s.wq.ring.pop.contents, x ∈ s.wq.ring.contents := by
  have hpop := hi.ring.contents_pop hpos
  refine ⟨hpop ▸ hi.order, ?_, ?_⟩
  · rw [hpop]
    exact List.mem_cons_self
  · intro x hx
    rw [hpop]
    exact List.mem_cons_of_mem _ hx

/-- The worker takes an item. -/
theorem PwqInv.start (hi : PwqInv s) (hpos : s.wq.ring.count ≠ 0) (hw : s.worker = .wait)
    (hwork : s.wq.ring.front.isWork = true) :
    PwqInv { s with
      wq := { s.wq with ring := s.wq.ring.pop }
      worker := .run s.wq.ring.front
      hist := s.hist.start s.wq.ring.front } := by
  obtain ⟨horder, -, hrest⟩ := hi.toPwqRing.pop hpos
  have hhist := hi.hist
  rw [hi.ring.contents_pop hpos, List.filter_cons, if_pos hwork, hw] at hhist
  refine ⟨⟨hi.ring.pop hpos, hhist.start, hi.numbered, (List.pairwise_cons.mp horder).2, ?_, ?_⟩,
    ?_⟩
  · exact fun x hx => hi.sentinel x (hrest x hx)
  · exact fun x hx => hi.stamp_le x (hrest x hx)
  · exact (hi.tickets.grow_record (.start _)).setWorker trivial

/-- The worker takes a sentinel: all items before it are settled. -/
theorem PwqInv.takeSentinel (hi : PwqInv s) (hpos : s.wq.ring.count ≠ 0) (hw : s.worker = .wait)
    (hwork : s.wq.ring.front.isWork = false) :
    PwqInv { s with
      wq := { s.wq with ring := s.wq.ring.pop }
      worker := .sentinel s.wq.ring.front.arg } := by
  obtain ⟨horder, hfront, hrest⟩ := hi.toPwqRing.pop hpos
  obtain ⟨hticket, hstamp⟩ := hi.sentinel _ hfront hwork
  have hhist := hi.hist
  rw [hi.ring.contents_pop hpos, List.filter_cons, if_neg (by simp [hwork]), hw] at hhist
  refine ⟨⟨hi.ring.pop hpos, hhist, hi.numbered, (List.pairwise_cons.mp horder).2, ?_, ?_⟩, ?_⟩
  · exact fun x hx => hi.sentinel x (hrest x hx)
  · exact fun x hx => hi.stamp_le x (hrest x hx)
  · refine hi.tickets.setWorker ⟨hticket, ?_⟩
    intro x hx hle
    rcases hhist.cases hx with hsettled | hrun | hmem
    · exact hsettled
    · cases hrun
    · obtain ⟨hmem, hxwork⟩ := List.mem_filter.mp hmem
      have hlt := (List.pairwise_cons.mp horder).1 x hmem hxwork
      rw [← hstamp] at hle
      exact absurd hle (Nat.not_le.mpr hlt)

/-- A larger ticket settles more. -/
theorem PwqInv.completeTicket (hi : PwqInv s) {ticket : Nat} (hw : s.worker = .sentinel ticket) :
    PwqInv { s with wq := s.wq.completeTicket ticket, worker := .wait } := by
  have hclear := hi.tickets.worker
  have hhist := hi.hist
  rw [hw] at hclear hhist
  unfold PosixWq.completeTicket
  split
  · exact ⟨⟨hi.ring, hhist, hi.numbered, hi.order, hi.sentinel, hi.stamp_le⟩,
      hi.tickets.bound, hi.tickets.mono, hclear.1, trivial, hclear.2, hi.tickets.waits,
      hi.tickets.returned⟩
  · exact ⟨⟨hi.ring, hhist, hi.numbered, hi.order, hi.sentinel, hi.stamp_le⟩,
      hi.tickets.bound, hi.tickets.mono, hi.tickets.completed, trivial, hi.tickets.settled,
      hi.tickets.waits, hi.tickets.returned⟩

theorem PwqInv.stepWorker (hi : PwqInv s) (hs : s.stepWorker = some s') : PwqInv s' := by
  have hhist := hi.hist
  rw [PwqState.stepWorker] at hs
  cases hw : s.worker with
  | wait =>
      simp only [hw] at hs hhist
      split at hs
      · split at hs
        · cases hs
          exact ⟨⟨hi.ring, hhist, hi.numbered, hi.order, hi.sentinel, hi.stamp_le⟩,
            hi.tickets.setWorker trivial⟩
        · cases hs
      · next hpos =>
        split at hs
        · next hwork =>
          cases hs
          exact hi.start hpos hw hwork
        · next hwork =>
          cases hs
          exact hi.takeSentinel hpos hw (by simpa using hwork)
  | run entry =>
      simp only [hw] at hs hhist
      cases hs
      exact ⟨⟨hi.ring, hhist.finish, hi.numbered, hi.order, hi.sentinel, hi.stamp_le⟩,
        (hi.tickets.grow_record (.finish _)).setWorker trivial⟩
  | sentinel ticket =>
      simp only [hw] at hs
      cases hs
      exact hi.completeTicket hw
  | exited =>
      rw [hw] at hs
      cases hs

theorem PwqInv.next (hi : PwqInv s) (hs : s.next a = some s') : PwqInv s' := by
  cases a with
  | submit func arg =>
      cases hs
      exact hi.submit func arg
  | flush n =>
      simp only [PwqState.next] at hs
      split at hs
      · cases hs
        exact ⟨⟨hi.ring, hi.hist, hi.numbered, hi.order, hi.sentinel, hi.stamp_le⟩,
          hi.tickets.setThread le_rfl⟩
      · cases hs
  | cancelAll =>
      cases hs
      exact hi.cancelAll
  | destroy =>
      cases hs
      exact ⟨⟨hi.ring, hi.hist, hi.numbered, hi.order, hi.sentinel, hi.stamp_le⟩,
        hi.tickets.bound, hi.tickets.mono, hi.tickets.completed, hi.tickets.worker,
        hi.tickets.settled, hi.tickets.waits, hi.tickets.returned⟩
  | step n expired =>
      obtain ⟨th, hth, hadv⟩ := Option.bind_eq_some_iff.mp hs
      exact hi.advance hth hadv
  | worker => exact hi.stepWorker hs

theorem PwqInv.reachable {depth numThreads : Nat} (hdepth : 0 < depth)
    (hr : (pthreadWqMachine depth numThreads).Reachable s) : PwqInv s := by
  refine Machine.Reachable.invariant ?_ (fun _ _ _ _ hi hs => hi.next hs) hr
  refine ⟨⟨Ring.create_ok hdepth _, JobHistory.empty_ok, rfl, List.Pairwise.nil, nofun, nofun⟩,
    fun _ _ => le_rfl, fun _ _ _ _ => le_rfl, le_rfl, trivial, nofun, ?_, nofun⟩
  intro n th hn
  rw [List.eq_of_mem_replicate (List.mem_of_getElem? hn)]
  trivial

/-- The completed ticket never goes back. -/
theorem completedFlushTicket_mono (hs : s.next a = some s') :
    s.wq.completedFlushTicket ≤ s'.wq.completedFlushTicket := by
  cases a with
  | submit func arg =>
      cases hs
      rcases s.submit_cases func arg with heq | ⟨-, -, heq⟩
      · rw [heq]
      · rw [heq]
  | worker =>
      simp only [PwqState.next, PwqState.stepWorker] at hs
      cases hw : s.worker with
      | sentinel ticket =>
          simp only [hw] at hs
          cases hs
          simp only [PosixWq.completeTicket]
          split
          · next hlt => exact hlt.le
          · exact le_rfl
      | _ =>
          simp only [hw] at hs
          repeat' split at hs
          all_goals cases hs
          all_goals exact le_rfl
  | step n expired =>
      obtain ⟨th, -, hadv⟩ := Option.bind_eq_some_iff.mp hs
      cases th with
      | idle => cases hadv
      | flushEnter begun =>
          simp only [PwqState.advance, PosixWq.flushBegin] at hadv
          by_cases hfull : s.wq.ring.count ≥ s.wq.ring.capacity
          · simp only [hfull, if_true] at hadv
            cases hadv
            exact le_rfl
          · simp only [hfull, if_false] at hadv
            cases hadv
            exact le_rfl
      | flushWait begun ticket =>
          simp only [PwqState.advance] at hadv
          repeat' split at hadv
          all_goals cases hadv
          all_goals exact le_rfl
  | flush n =>
      simp only [PwqState.next] at hs
      split at hs
      all_goals cases hs
      exact le_rfl
  | _ =>
      cases hs
      exact le_rfl

end Pthread

/-! ### The barrier -/

/-- A flush that has returned ok left no item unsettled that was accepted before its
call, items start in the order of their acceptance, and the completed sequence number
grows. -/
structure WqState.FlushBarrier (s : WqState) : Prop where
  numbered : s.hist.accepted.map (·.sequence) = List.range' 1 s.hist.accepted.length
  settled : ∀ f ∈ s.flushes, f.result = .ok →
    ∀ x ∈ s.hist.accepted, x.sequence ≤ f.begun → x ∈ s.hist.finished ∨ x ∈ s.hist.cancelled
  order : s.hist.started.Sublist s.hist.accepted
  mono : ∀ a s', s.next a = some s' → s.wq.completedSequence ≤ s'.wq.completedSequence

/-- The same for the pthread work queue, with the completed ticket. -/
structure PwqState.FlushBarrier (s : PwqState) : Prop where
  numbered : s.hist.accepted.map (·.stamp) = List.range' 1 s.hist.accepted.length
  settled : ∀ f ∈ s.flushes, f.result = .ok →
    ∀ x ∈ s.hist.accepted, x.stamp ≤ f.begun → x ∈ s.hist.finished ∨ x ∈ s.hist.cancelled
  order : s.hist.started.Sublist s.hist.accepted
  mono : ∀ a s', s.next a = some s' → s.wq.completedFlushTicket ≤ s'.wq.completedFlushTicket

theorem workQueue_flush_barrier {depth numThreads : Nat} (hdepth : 0 < depth) :
    (∀ s, (emulatedWqMachine depth numThreads).Reachable s → s.FlushBarrier) ∧
      ∀ s, (pthreadWqMachine depth numThreads).Reachable s → s.FlushBarrier := by
  constructor
  · intro s hr
    have hring := WqRing.reachable hdepth hr
    have hf := WqFrontier.reachable hdepth hr
    exact ⟨hring.numbered, fun f hmem hok => (hf.returned f hmem).2 hok,
      hring.hist.started_sublist, fun a s' hs => hf.completed_mono hs⟩
  · intro s hr
    have hi := PwqInv.reachable hdepth hr
    exact ⟨hi.numbered, fun f hmem hok => (hi.tickets.returned f hmem).2 hok,
      hi.hist.started_sublist, fun a s' hs => completedFlushTicket_mono hs⟩

/-- In both queues: an item, a flush that waits for it, and a second item. -/
theorem workQueue_flush_barrier_one :
    (∃ s : WqState, s.flushes = [⟨1, .ok⟩] ∧ s.hist.accepted.length = 2 ∧ s.FlushBarrier) ∧
      ∃ s : PwqState, s.flushes = [⟨1, .ok⟩] ∧ s.hist.accepted.length = 2 ∧ s.FlushBarrier := by
  constructor
  · let schedule : List WqAct :=
      [.submit 1 0, .flush 0, .step 0 .ok false, .submit 1 1, .worker, .worker, .worker, .worker,
        .step 0 .ok false]
    have hview : ((emulatedWqMachine 2 1).run (.create 2 1) schedule).map
        (fun s => (s.flushes, s.hist.accepted.length)) = some ([⟨1, .ok⟩], 2) := by
      decide +kernel
    obtain ⟨s, hrun, hres⟩ := Option.map_eq_some_iff.mp hview
    simp only [Prod.mk.injEq] at hres
    exact ⟨s, hres.1, hres.2, (workQueue_flush_barrier (by decide)).1 s (.of_run hrun)⟩
  · let schedule : List PwqAct :=
      [.submit 1 0, .flush 0, .step 0 false, .worker, .submit 1 1, .worker, .worker, .worker,
        .step 0 false]
    have hview : ((pthreadWqMachine 2 1).run (.create 2 1) schedule).map
        (fun s => (s.flushes, s.hist.accepted.length)) = some ([⟨1, .ok⟩], 2) := by
      decide +kernel
    obtain ⟨s, hrun, hres⟩ := Option.map_eq_some_iff.mp hview
    simp only [Prod.mk.injEq] at hres
    exact ⟨s, hres.1, hres.2, (workQueue_flush_barrier (by decide)).2 s (.of_run hrun)⟩

end MicrOsal
