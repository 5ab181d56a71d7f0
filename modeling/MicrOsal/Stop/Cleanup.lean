import MicrOsal.Stop.Callbacks

/-!
# MicrOsal.Stop.Cleanup

A stop source after faults (`stop_source_cleanable`): as long as no unlock fails between
taking a callback off the list and calling it, `executing_` is set only while a
`request_stop` has the callback in hand, every other registration can be closed at once,
and no callback leaves the list without being called or closed.

The path of `request_stop` that could not lock again clears the flag; the path that could
not unlock does not, and there the registration stays executing for good
(`stop_source_not_cleanable`).
-/

namespace MicrOsal.Stop

variable {s s' : State} {n c : Nat} {th : Thread} {l : List Nat}
variable {maxCallbacks : Nat} {initialization : ErrorCode}

/-- A `request_stop` that has callback `c` in hand: from setting `executing_` to clearing
it. -/
def Frame.worksOn (c : Nat) : Frame → Bool
  | .invoke .request b => b = c
  | .running .request b => b = c
  | .relock b => b = c
  | .unfinished b _ => b = c
  | _ => false

/-- `executing_` of callback `c` is set. -/
def State.isExecuting (s : State) (c : Nat) : Prop :=
  ∃ flags, s.flags c = some flags ∧ flags.executing = true

/-- What thread `n`'s last call returned. -/
def State.returned (s : State) (n : Nat) : Option Return := (s.threads[n]?).map (·.last)

/-- The source can be cleaned up. -/
structure Cleanable (maxCallbacks : Nat) (s : State) : Prop where
  /-- `executing_` is set only while a `request_stop` is at work on the callback. -/
  executing : ∀ c, s.isExecuting c →
    ∃ (n : Nat) (th : Thread), s.threads[n]? = some th ∧ ∃ fr ∈ th.stack, fr.worksOn c = true
  /-- When the primitives work, `close` of any other callback returns ok, at once or after
  its locked region. -/
  closable : ∀ (n c : Nat) (th : Thread) (timed : Bool) (r : Results),
    s.threads[n]? = some th → th.canCall = true → s.Constructed c → ¬ s.isExecuting c →
    s.source.stuck = false → r.lock = .ok → r.unlock = .ok →
    ∃ s₁, s.step maxCallbacks (.close n c timed) = some s₁ ∧
      (s₁.returned n = some (.closed c .ok) ∨
        ∃ s₂, s₁.step maxCallbacks (.advance n r) = some s₂ ∧
          s₂.returned n = some (.closed c .ok))
  /-- A `close` that waits returns ok when it wakes up after the callback has finished. -/
  waiting : ∀ (n c : Nat) (th : Thread) (rest : List Frame) (timed : Bool) (r : Results)
      (flags : Flags), s.threads[n]? = some th → th.stack = .waiting c timed :: rest →
    s.flags c = some flags → flags.source = true → flags.executing = false →
    s.source.stuck = false → r.wait = .ok ∨ r.wait = .timeout ∨ r.wait = .wouldBlock →
    r.unlock = .ok →
    ∃ s₁, s.step maxCallbacks (.advance n r) = some s₁ ∧ s₁.returned n = some (.closed c .ok)
  /-- No callback leaves the list other than into a call or a `close`: one that was
  registered is on the list, has been called or is about to be, or `close` took it off. -/
  kept : ∃ l, Chain s.next s.source.head l ∧ ∀ c, s.Constructed c → .unattached c ∉ s.log →
    c ∈ l ∨ .called c ∈ s.log ∨ .unlinked c ∈ s.log ∨
      ∃ (n : Nat) (th : Thread), s.threads[n]? = some th ∧ .invoke .request c ∈ th.stack

theorem Frame.kind_stop {fr : Frame} {k : FrameKind} (h : fr.kind = some (c, k))
    (hk : k = .invokeStop ∨ k = .runStop) : fr.worksOn c = true := by
  cases fr with
  | invoke caller b | running caller b =>
      cases caller with
      | constructor =>
          cases h
          rcases hk with hk | hk <;> cases hk
      | request =>
          cases h
          exact decide_eq_true rfl
  | relock b | unfinished b _ =>
      cases h
      exact decide_eq_true rfl
  | construct =>
      cases h
      rcases hk with hk | hk <;> cases hk
  | request | close | waiting => cases h

/-- The call that a phase names is in some stack. -/
theorem exists_frame_of_phase {ph : Phase} {k : FrameKind} (hph : s.view l c = ph.view)
    (hk : ph.frame = some k) :
    ∃ (n : Nat) (th : Thread), s.threads[n]? = some th ∧ ∃ fr ∈ th.stack,
      fr.kind = some (c, k) := by
  have hone : s.frames c k = 1 := by
    have heq : s.frames c k = if ph.frame = some k then 1 else 0 :=
      congrFun (congrArg View.frames hph) k
    rwa [if_pos hk] at heq
  have hpos : 0 < s.frames c k := by omega
  obtain ⟨n, th, hth, hcount⟩ := tally_pos_iff.mp hpos
  obtain ⟨fr, hmem, hfr⟩ := List.mem_filterMap.mp (List.count_pos_iff.mp hcount)
  exact ⟨n, th, hth, fr, hmem, hfr⟩

theorem Inv.phase_of_flags {credit : Nat} {flags : Flags} (hi : Inv maxCallbacks s l credit)
    (hflags : s.flags c = some flags) : ∃ ph : Phase, s.view l c = ph.view ∧ ph.flags = flags := by
  have hlt : c < s.callbacks.length := by
    rw [State.flags, Option.map_eq_some_iff] at hflags
    obtain ⟨cb, hcb, -⟩ := hflags
    exact (List.getElem?_eq_some_iff.mp hcb).1
  obtain ⟨ph, hph⟩ := hi.phases.phase c hlt
  rw [Phases.flags_eq hph] at hflags
  cases hflags
  exact ⟨ph, hph, rfl⟩

theorem Inv.executing {credit : Nat} (hi : Inv maxCallbacks s l credit)
    (hnot : .dropped c ∉ s.log) (h : s.isExecuting c) :
    ∃ (n : Nat) (th : Thread), s.threads[n]? = some th ∧ ∃ fr ∈ th.stack,
      fr.worksOn c = true := by
  obtain ⟨flags, hflags, hexec⟩ := h
  obtain ⟨ph, hph, rfl⟩ := hi.phase_of_flags hflags
  have hframe : ∃ k, ph.frame = some k ∧ (k = .invokeStop ∨ k = .runStop) := by
    cases ph with
    | invoking => exact ⟨_, rfl, .inl rfl⟩
    | running => exact ⟨_, rfl, .inr rfl⟩
    | dropped ok =>
        exact absurd (mem_log_of_phase hph (by cases ok <;> decide) (fun _ => kind_dropped)) hnot
    | constructing | turnedAway | listed | lateInvoke | lateRunning | late | served | unlinked =>
        cases hexec
  obtain ⟨k, hk, hkind⟩ := hframe
  obtain ⟨n, th, hth, fr, hmem, hfr⟩ := exists_frame_of_phase hph hk
  exact ⟨n, th, hth, fr, hmem, Frame.kind_stop hfr hkind⟩

/-- The loop of `close` comes to its end when the callback is not executing. -/
theorem State.closeLoop_ok (rest : List Frame) (last : Return) (timed : Bool) {r : Results}
    {flags : Flags} (hth : s.threads[n]? = some th) (hflags : s.flags c = some flags)
    (hsource : flags.source = true) (hexec : flags.executing = false) (hok : r.unlock = .ok) :
    ∃ s', s.closeLoop n rest last c timed r = some s' ∧
      s'.returned n = some (.closed c .ok) := by
  rw [State.flags, Option.map_eq_some_iff] at hflags
  obtain ⟨cb, hcb, rfl⟩ := hflags
  have hsource' : cb.source = true := hsource
  have hexec' : cb.executing = false := hexec
  refine ⟨((s.unlock r).modifyCallback c (fun cb => { cb with source := false })).closed n rest c
    .ok, ?_, ?_⟩
  · simp [State.closeLoop, hcb, hsource', hexec', hok]
  · obtain ⟨hlt, -⟩ := List.getElem?_eq_some_iff.mp hth
    simp [State.returned, State.closed, State.note, State.setThread, State.modifyCallback,
      State.unlock, State.record, hlt]

theorem Inv.closable {timed : Bool} {r : Results} (hi : Inv maxCallbacks s l 0)
    (hth : s.threads[n]? = some th) (hcan : th.canCall = true) (hconstr : s.Constructed c)
    (hexec : ¬ s.isExecuting c) (hstuck : s.source.stuck = false) (hlock : r.lock = .ok)
    (hunlock : r.unlock = .ok) :
    ∃ s₁, s.step maxCallbacks (.close n c timed) = some s₁ ∧
      (s₁.returned n = some (.closed c .ok) ∨
        ∃ s₂, s₁.step maxCallbacks (.advance n r) = some s₂ ∧
          s₂.returned n = some (.closed c .ok)) := by
  obtain ⟨flags, hflags, hc⟩ := hconstr
  have hidle : flags.executing = false := by
    by_contra hne
    exact hexec ⟨flags, hflags, by simpa using hne⟩
  obtain ⟨cb, hcb, rfl⟩ := Option.map_eq_some_iff.mp hflags
  have hc' : cb.constructed = true := hc
  obtain ⟨hlt, -⟩ := List.getElem?_eq_some_iff.mp hth
  by_cases hsource : cb.source = true
  · -- Its locked region unlinks the callback and finds it at rest.
    let s₁ := s.setThread n (.close c timed :: th.stack) th.last
    have hs₁ : s.step maxCallbacks (.close n c timed) = some s₁ := by
      simp [State.step, State.call, State.close, hth, hcan, hcb, hc', hsource, s₁]
    refine ⟨s₁, hs₁, .inr ?_⟩
    have hth₁ : s₁.threads[n]? = some ⟨.close c timed :: th.stack, th.last⟩ := by
      simp [s₁, State.setThread, hlt]
    obtain ⟨l₁, hi₁⟩ := hi.step hs₁
    obtain ⟨s₂, hunlink, hths, hflags₂, -, -, -⟩ := hi₁.unlink hth₁ c
    have hth₂ : s₂.threads[n]? = some ⟨.close c timed :: th.stack, th.last⟩ := by
      rw [hths]
      exact hth₁
    have hflags' : s₂.flags c = some cb.flags := by
      rw [hflags₂]
      exact hflags
    obtain ⟨s₃, hloop, hret⟩ := State.closeLoop_ok th.stack th.last timed hth₂ hflags'
      hsource hidle hunlock
    refine ⟨s₃, ?_, hret⟩
    have hstuck₁ : s₁.source.stuck = false := hstuck
    simp [State.step, hth₁, State.advance, State.region, hlock, hstuck₁, hunlink, hloop]
  · refine ⟨s.closed n th.stack c .ok, ?_, .inl ?_⟩
    · simp [State.step, State.call, State.close, hth, hcan, hcb, hc', hsource]
    · simp [State.returned, State.closed, State.note, State.setThread, hlt]

/-- A registered callback that left the list was called, or is about to be, or closed. -/
theorem Inv.kept {credit : Nat} (hi : Inv maxCallbacks s l credit) (hnot : .dropped c ∉ s.log)
    (hconstr : s.Constructed c) (hattached : .unattached c ∉ s.log) :
    c ∈ l ∨ .called c ∈ s.log ∨ .unlinked c ∈ s.log ∨
      ∃ (n : Nat) (th : Thread), s.threads[n]? = some th ∧ .invoke .request c ∈ th.stack := by
  obtain ⟨flags, hflags, hc⟩ := hconstr
  obtain ⟨ph, hph, rfl⟩ := hi.phase_of_flags hflags
  have hcalled : .called ∈ ph.events → .called c ∈ s.log :=
    fun h => mem_log_of_phase hph h (fun _ => kind_called)
  cases ph with
  | constructing | lateInvoke | lateRunning => cases hc
  | turnedAway =>
      exact absurd (mem_log_of_phase hph (List.mem_cons_self ..) (fun _ => kind_unattached))
        hattached
  | listed =>
      have hpos : 0 < l.count c := by
        rw [Phases.listed_eq hph]
        exact Nat.one_pos
      exact .inl (List.count_pos_iff.mp hpos)
  | late => exact .inr (.inl (hcalled (List.mem_cons_self ..)))
  | invoking =>
      obtain ⟨n, th, hth, fr, hmem, hfr⟩ := exists_frame_of_phase hph rfl
      have heq : fr = .invoke .request c := by
        cases fr with
        | invoke caller b | running caller b => cases caller <;> cases hfr <;> rfl
        | construct | request | relock | unfinished | close | waiting => cases hfr
      rw [heq] at hmem
      exact .inr (.inr (.inr ⟨n, th, hth, hmem⟩))
  | running ok | served ok _ => exact .inr (.inl (hcalled (by cases ok <;> simp [Phase.events])))
  | unlinked ok _ =>
      refine .inr (.inr (.inl (mem_log_of_phase hph ?_ (fun _ => kind_unlinked))))
      cases ok <;> simp [Phase.events]
  | dropped ok =>
      exact absurd (mem_log_of_phase hph (by cases ok <;> decide) (fun _ => kind_dropped)) hnot

/-- Whatever the primitives return, the source stays cleanable while every callback that is
taken off the list is handed over. -/
theorem stop_source_cleanable (maxCallbacks : Nat) (initialization : ErrorCode) (s : State)
    (h : (stopMachine maxCallbacks initialization).ReachableBy
      (fun s a => s.handoffFails a = false) s) : Cleanable maxCallbacks s := by
  obtain ⟨l, hi⟩ := Inv.of_reachable h.reachable
  have hnot := not_dropped_of_reachable h
  constructor
  · exact fun c hexec => hi.executing (hnot c) hexec
  · intro n c th timed r hth hcan hconstr hexec hstuck hlock hunlock
    exact hi.closable hth hcan hconstr hexec hstuck hlock hunlock
  · intro n c th rest timed r flags hth hstack hflags hsource hexec hstuck hwait hunlock
    obtain ⟨s₁, hloop, hret⟩ :=
      State.closeLoop_ok rest th.last timed hth hflags hsource hexec hunlock
    exact ⟨s₁, by simp [State.step, State.advance, hth, hstack, hstuck, hwait, hloop], hret⟩
  · exact ⟨l, hi.list.chain, fun c hconstr => hi.kept (hnot c) hconstr⟩

/-- The lock fails after the first callback, and the notification with it. -/
def faultAfterCall : List Action :=
  [.spawn, .construct 0 true true, .advance 0 .good, .construct 0 true true, .advance 0 .good,
    .request 0, .advance 0 .good, .advance 0 .good, .advance 0 .good,
    .advance 0 ⟨.unknown, .ok, false, .unknown, .ok, false⟩,
    .advance 0 ⟨.ok, .ok, false, .unknown, .ok, false⟩]

/-- The first callback is still registered after the fault, and both can be closed. -/
theorem stop_source_cleanable_fault :
    ∃ s, (stopMachine 4 .ok).run (stopMachine 4 .ok).init faultAfterCall = some s ∧
      Cleanable 4 s ∧ s.source.failure = .unknown ∧ s.source.head = some 0 ∧
      .requested .unknown true ∈ s.log := by
  have hview : ((stopMachine 4 .ok).run (stopMachine 4 .ok).init faultAfterCall).map
      (fun s => (s.source.failure, s.source.head, decide (.requested .unknown true ∈ s.log))) =
      some (.unknown, some 0, true) := by
    decide +kernel
  obtain ⟨s, hrun, hs⟩ := Option.map_eq_some_iff.mp hview
  obtain ⟨hfail, hs⟩ := Prod.mk.inj hs
  obtain ⟨hhead, hret⟩ := Prod.mk.inj hs
  have hguard : (stopMachine 4 .ok).RunOk (fun s a => s.handoffFails a = false)
      (stopMachine 4 .ok).init faultAfterCall := by
    decide +kernel
  exact ⟨s, hrun, stop_source_cleanable 4 .ok s (.of_run .init hguard hrun), hfail, hhead,
    of_decide_eq_true hret⟩

/-- The unlock fails before the first callback is called. -/
def faultBeforeCall : List Action :=
  [.spawn, .construct 0 true true, .advance 0 .good, .request 0,
    .advance 0 ⟨.ok, .unknown, false, .ok, .ok, false⟩]

/-- There the callback stays executing, and nobody is at work on it. -/
theorem stop_source_not_cleanable :
    ¬ ∀ (maxCallbacks : Nat) (initialization : ErrorCode) (s : State),
      (stopMachine maxCallbacks initialization).Reachable s → Cleanable maxCallbacks s := by
  intro hall
  have hview : ((stopMachine 4 .ok).run (stopMachine 4 .ok).init faultBeforeCall).map
      (fun s => (s.flags 0, s.threads.map (·.stack))) =
      some (some ⟨true, true, true⟩, [[]]) := by
    decide +kernel
  obtain ⟨s, hrun, hs⟩ := Option.map_eq_some_iff.mp hview
  obtain ⟨hflags, hstacks⟩ := Prod.mk.inj hs
  obtain ⟨n, th, hth, fr, hmem, -⟩ :=
    (hall 4 .ok s (.of_run hrun)).executing 0 ⟨_, hflags, rfl⟩
  have hstack : th.stack ∈ s.threads.map (·.stack) :=
    List.mem_map_of_mem (List.mem_of_getElem? hth)
  rw [hstacks, List.mem_singleton] at hstack
  rw [hstack] at hmem
  cases hmem

end MicrOsal.Stop
