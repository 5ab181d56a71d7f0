import MicrOsal.Stop.Run

/-!
# MicrOsal.Stop.Callbacks

What callers of a stop source can rely on (`stop_callbacks_once`): callbacks run once.

`request_stop` takes a callback off the list and sets `executing_` before it unlocks to
call it. When that unlock fails it returns without calling it and without clearing the
flag. No callback is lost where the unlock succeeds (`not_dropped_of_reachable`).
-/

namespace MicrOsal.Stop

variable {s s' : State} {n c : Nat} {th : Thread} {l : List Nat}
variable {maxCallbacks : Nat} {initialization : ErrorCode}

/-! ### The unlock that must not fail -/

/-- The call that thread `n` is in. -/
def State.top (s : State) (n : Nat) : Option Frame :=
  (s.threads[n]?).bind (fun th => th.stack.head?)

/-- The step takes a callback off the list in `request_stop`, and the unlock fails. -/
def State.handoffFails (s : State) : Action → Bool
  | .advance n r =>
      match s.top n with
      | some .request =>
          r.lock = .ok ∧ s.source.stopped = false ∧ s.source.head.isSome ∧ r.unlock ≠ .ok
      | some (.relock _) =>
          r.lock = .ok ∧ r.notify = .ok ∧ s.source.head.isSome ∧ r.unlock ≠ .ok
      | _ => false
  | _ => false

/-- The unlock of the step does not fail. -/
def Action.unlocks : Action → Bool
  | .advance _ r => r.unlock = .ok
  | _ => true

theorem State.not_handoffFails {a : Action} (h : a.unlocks = true) : s.handoffFails a = false := by
  cases a with
  | advance n r =>
      have hok : r.unlock = .ok := by simpa [Action.unlocks] using h
      rw [State.handoffFails]
      split <;> simp [hok]
  | spawn | construct | request | close | repair => rfl

section Dropped

variable {r : Results} {rest : List Frame} {last : Return}

@[simp] theorem State.lockFailed_log (s : State) (timed : Bool) (locked : ErrorCode) :
    (s.lockFailed timed locked).log = s.log := by
  rw [State.lockFailed]
  split <;> rfl

/-- A record that grew by other events. -/
theorem dropped_of_append {e : Event} (h : .dropped c ∈ s.log ++ [e]) (he : e ≠ .dropped c) :
    .dropped c ∈ s.log := by
  rcases List.mem_append.mp h with h | h
  · exact h
  · exact absurd (List.mem_singleton.mp h).symm he

theorem State.dropped_of_loop (h : .dropped c ∈ (s.loop n rest last r).log) :
    .dropped c ∈ s.log ∨ (s.source.head.isSome ∧ r.unlock ≠ .ok) := by
  rw [State.loop] at h
  split at h
  case h_1 => exact .inl (dropped_of_append (s := s) h (fun heq => by cases heq))
  case h_2 b hhead =>
    split at h
    case isTrue => exact .inl h
    case isFalse hbad => exact .inr ⟨by rw [hhead]; rfl, hbad⟩

theorem State.dropped_of_constructLocked
    (h : .dropped c ∈ (s.constructLocked maxCallbacks n rest last b r).log) :
    .dropped c ∈ s.log := by
  have htwo : ∀ (status : ErrorCode) (source : Bool),
      Event.dropped c ∈ (s.log ++ [Event.unattached b]) ++ [Event.constructed b status source] →
        Event.dropped c ∈ s.log := by
    intro status source h
    simpa using h
  rw [State.constructLocked] at h
  split at h
  case isTrue =>
    split at h
    case isTrue => exact h
    case isFalse => exact htwo _ _ h
  case isFalse =>
    split at h
    case isTrue => exact htwo _ _ h
    case isFalse => exact dropped_of_append (s := s) h (fun heq => by cases heq)

theorem State.dropped_of_unlink (hs : s.unlink b = some s') (h : .dropped c ∈ s'.log) :
    .dropped c ∈ s.log := by
  obtain ⟨found, -, hs⟩ := Option.bind_eq_some_iff.mp hs
  split at hs
  case h_1 =>
    cases hs
    exact h
  case h_2 =>
    cases hs
    exact dropped_of_append (s := s) h nofun
  case h_3 =>
    cases hs
    exact dropped_of_append (s := s) h nofun

theorem State.dropped_of_closeLoop {timed : Bool}
    (hs : s.closeLoop n rest last b timed r = some s') (h : .dropped c ∈ s'.log) :
    .dropped c ∈ s.log := by
  obtain ⟨cb, -, hs⟩ := Option.bind_eq_some_iff.mp hs
  split at hs
  case isTrue => cases hs
  case isFalse =>
    split at hs
    case isTrue =>
      split at hs
      case isTrue =>
        cases hs
        exact dropped_of_append (s := s) h nofun
      case isFalse =>
        cases hs
        exact h
    case isFalse =>
      split at hs
      case isTrue =>
        cases hs
        exact dropped_of_append (s := s) h nofun
      case isFalse =>
        cases hs
        exact dropped_of_append (s := s) h nofun

theorem State.dropped_of_advance {stack : List Frame} (hth : s.threads[n]? = some ⟨stack, last⟩)
    (hs : s.advance maxCallbacks n r ⟨stack, last⟩ = some s') (h : .dropped c ∈ s'.log) :
    .dropped c ∈ s.log ∨ s.handoffFails (.advance n r) = true := by
  cases stack with
  | nil => cases hs
  | cons fr rest =>
    cases fr with
    | construct b =>
        refine .inl ?_
        rcases State.of_region hs with ⟨-, hs⟩ | ⟨-, -, hs⟩
        · cases hs
          simpa [State.constructed, State.note, State.setThread, State.modifyCallback] using h
        · cases hs
          exact State.dropped_of_constructLocked h
    | request =>
        rcases State.of_region hs with ⟨-, hs⟩ | ⟨hlock, -, hs⟩
        · cases hs
          exact .inl (by simpa [State.requested, State.note, State.setThread] using h)
        · cases hs
          rw [State.requestLocked] at h
          split at h
          case isTrue => exact .inl (dropped_of_append (s := s) h (fun heq => by cases heq))
          case isFalse hnot =>
            rcases State.dropped_of_loop h with h | ⟨hsome, hbad⟩
            · exact .inl (dropped_of_append (s := s) h (fun heq => by cases heq))
            · refine .inr ?_
              simp only [State.handoffFails, State.top, hth, Option.bind_some, List.head?_cons]
              exact decide_eq_true ⟨hlock, by simpa using hnot, hsome, hbad⟩
    | invoke caller b =>
        cases hs
        exact .inl (dropped_of_append (s := s) h (fun heq => by cases heq))
    | running caller b =>
        cases caller with
        | constructor =>
            cases hs
            exact .inl (dropped_of_append (s := s) h (fun heq => by cases heq))
        | request =>
            cases hs
            exact .inl h
    | relock b =>
        rcases State.of_region hs with ⟨-, hs⟩ | ⟨hlock, -, hs⟩
        · cases hs
          exact .inl (by simpa [State.setThread] using h)
        · cases hs
          rw [State.relocked] at h
          split at h
          case isTrue hnotify =>
            rcases State.dropped_of_loop h with h | ⟨hsome, hbad⟩
            · exact .inl h
            · refine .inr ?_
              have hhead : ((s.finished b).record r.notify).source.head = s.source.head := by
                simp [State.record, State.finished, State.modifyCallback]
              rw [hhead] at hsome
              simp only [State.handoffFails, State.top, hth, Option.bind_some, List.head?_cons]
              exact decide_eq_true ⟨hlock, hnotify, hsome, hbad⟩
          case isFalse => exact .inl (dropped_of_append (s := s) h (fun heq => by cases heq))
    | unfinished b locked =>
        cases hs
        exact .inl (dropped_of_append (s := s) h (fun heq => by cases heq))
    | close b timed =>
        refine .inl ?_
        rcases State.of_region hs with ⟨-, hs⟩ | ⟨-, -, hs⟩
        · cases hs
          simpa [State.closed, State.note, State.setThread] using h
        · obtain ⟨s₁, hs₁, hs⟩ := Option.bind_eq_some_iff.mp hs
          exact State.dropped_of_unlink hs₁ (State.dropped_of_closeLoop hs h)
    | waiting b timed =>
        refine .inl ?_
        simp only [State.advance] at hs
        split at hs
        case isTrue => cases hs
        case isFalse =>
          split at hs
          case isTrue => exact State.dropped_of_closeLoop hs h
          case isFalse =>
            cases hs
            rw [State.waitFailed] at h
            refine dropped_of_append (s := s) (e := .closed b r.wait) ?_ (fun heq => by cases heq)
            split at h <;> exact h

/-- A callback is dropped only where the hand-over fails. -/
theorem State.dropped_of_step {a : Action} (hs : s.step maxCallbacks a = some s')
    (h : .dropped c ∈ s'.log) : .dropped c ∈ s.log ∨ s.handoffFails a = true := by
  have hcall : ∀ {n : Nat} {f : Thread → Option State}, s.call n f = some s' →
      ∃ th, f th = some s' := by
    intro n f h
    obtain ⟨th, -, h⟩ := Option.bind_eq_some_iff.mp h
    split at h
    case isTrue => exact ⟨th, h⟩
    case isFalse => cases h
  cases a with
  | spawn | repair =>
      cases hs
      exact .inl h
  | construct n token callback =>
      obtain ⟨th, hs⟩ := hcall hs
      cases hs
      refine .inl ?_
      rw [State.construct] at h
      split at h
      case isTrue =>
        simpa [State.constructed, State.note, State.setThread, State.modifyCallback] using h
      case isFalse =>
        split at h
        case isTrue =>
          simpa [State.constructed, State.note, State.setThread, State.modifyCallback] using h
        case isFalse =>
          split at h
          case isTrue =>
            simpa [State.constructed, State.note, State.setThread, State.modifyCallback] using h
          case isFalse => exact h
  | request n =>
      obtain ⟨th, hs⟩ := hcall hs
      cases hs
      refine .inl ?_
      rw [State.request] at h
      split at h
      case isTrue => exact dropped_of_append (s := s) h (fun heq => by cases heq)
      case isFalse => exact h
  | close n b timed =>
      obtain ⟨th, hs⟩ := hcall hs
      refine .inl ?_
      obtain ⟨cb, -, hs⟩ := Option.bind_eq_some_iff.mp hs
      split at hs
      case isTrue => cases hs
      case isFalse =>
        split at hs
        case isTrue =>
          cases hs
          exact dropped_of_append (s := s) h (fun heq => by cases heq)
        case isFalse =>
          cases hs
          exact h
  | advance n r =>
      obtain ⟨th, hth, hs⟩ := Option.bind_eq_some_iff.mp hs
      exact State.dropped_of_advance hth hs h

theorem not_dropped_of_reachable
    (h : (stopMachine maxCallbacks initialization).ReachableBy
      (fun s a => s.handoffFails a = false) s) (c : Nat) : .dropped c ∉ s.log := by
  refine Machine.ReachableBy.invariant (I := fun s => .dropped c ∉ s.log) List.not_mem_nil ?_ h
  intro s a s' _ hi hok hs hmem
  rcases State.dropped_of_step hs hmem with hmem | hbad
  · exact hi hmem
  · rw [hok] at hbad
    cases hbad

end Dropped

/-! ### Reading the phases -/

section Phases

/-- An event of a phase has been recorded. -/
theorem mem_log_of_phase {ph : Phase} {e : Event} {k : EventKind} (hph : s.view l c = ph.view)
    (hk : k ∈ ph.events) (he : ∀ e' : Event, e'.kind = some (c, k) → e' = e) : e ∈ s.log := by
  have hcount : s.events c k = ph.events.count k := congrFun (congrArg View.events hph) k
  have hpos : 0 < s.events c k := by
    rw [hcount]
    exact List.count_pos_iff.mpr hk
  rw [State.events, List.count_pos_iff, List.mem_filterMap] at hpos
  obtain ⟨e', hmem, hkind⟩ := hpos
  rwa [he e' hkind] at hmem

theorem kind_called {e : Event} (h : e.kind = some (c, .called)) : e = .called c := by
  cases e with
  | called => cases h; rfl
  | constructed _ status source => cases status <;> cases source <;> cases h
  | unattached | unlinked | dropped | closed | stopping | requested => cases h

theorem kind_unlinked {e : Event} (h : e.kind = some (c, .unlinked)) : e = .unlinked c := by
  cases e with
  | unlinked => cases h; rfl
  | constructed _ status source => cases status <;> cases source <;> cases h
  | unattached | called | dropped | closed | stopping | requested => cases h

theorem kind_dropped {e : Event} (h : e.kind = some (c, .dropped)) : e = .dropped c := by
  cases e with
  | dropped => cases h; rfl
  | constructed _ status source => cases status <;> cases source <;> cases h
  | unattached | called | unlinked | closed | stopping | requested => cases h

theorem kind_unattached {e : Event} (h : e.kind = some (c, .unattached)) : e = .unattached c := by
  cases e with
  | unattached => cases h; rfl
  | constructed _ status source => cases status <;> cases source <;> cases h
  | unlinked | called | dropped | closed | stopping | requested => cases h

/-- What is recorded is in the phase. -/
theorem mem_phase_of_log {ph : Phase} {e : Event} {k : EventKind} (hph : s.view l c = ph.view)
    (hmem : e ∈ s.log) (he : e.kind = some (c, k)) : k ∈ ph.events := by
  have hcount : s.events c k = ph.events.count k := congrFun (congrArg View.events hph) k
  have hpos : 0 < s.events c k := by
    rw [State.events, List.count_pos_iff, List.mem_filterMap]
    exact ⟨e, hmem, he⟩
  rw [hcount] at hpos
  exact List.count_pos_iff.mp hpos

/-- The calls of callback `c`. -/
theorem count_called (s : State) (c : Nat) : s.log.count (.called c) = s.events c .called := by
  have hkind : ∀ e : Event, (e == .called c) = true ↔ e.kind = some (c, .called) := by
    intro e
    rw [beq_iff_eq]
    exact ⟨fun h => by rw [h]; rfl, kind_called⟩
  rw [State.events, List.count, List.count, List.countP_filterMap]
  refine List.countP_congr (fun e _ => ?_)
  rw [hkind e]
  cases hk : e.kind with
  | none => simp
  | some p => simp

/-- A callback of which the record or a stack knows exists. -/
theorem Inv.phase_of_event {credit : Nat} {e : Event} {k : EventKind}
    (hi : Inv maxCallbacks s l credit) (hmem : e ∈ s.log) (he : e.kind = some (c, k)) :
    ∃ ph : Phase, s.view l c = ph.view ∧ k ∈ ph.events := by
  rcases Nat.lt_or_ge c s.callbacks.length with hlt | hge
  · obtain ⟨ph, hph⟩ := hi.phases.phase c hlt
    exact ⟨ph, hph, mem_phase_of_log hph hmem he⟩
  · have hzero : s.events c k = 0 := congrFun (congrArg View.events (hi.phases.absent c hge)) k
    rw [State.events, List.count_eq_zero, List.mem_filterMap] at hzero
    exact absurd ⟨e, hmem, he⟩ hzero

end Phases

/-! ### Callbacks run once -/

section Once

theorem Phase.called_le (ph : Phase) : ph.events.count .called ≤ 1 := by
  cases ph with
  | listed ok | invoking ok | running ok | dropped ok => cases ok <;> decide
  | served ok _ | unlinked ok _ => cases ok <;> decide +revert
  | constructing | turnedAway | lateInvoke | lateRunning | late => decide +revert

/-- A callback without source is at rest, and off the list. -/
theorem Phase.rest_of_detached {ph : Phase} (hsource : ph.flags.source = false)
    (hconstr : ph.flags.constructed = true) : ph.frame = none ∧ ph.isListed = 0 := by
  cases ph with
  | constructing | lateInvoke | lateRunning => cases hconstr
  | listed | invoking | running | dropped => cases hsource
  | turnedAway | late | served | unlinked => exact ⟨rfl, rfl⟩

/-- The first `request_stop` is at work on every callback that is about to be called. -/
theorem kinds_count_le_works (stack : List Frame) (c : Nat) :
    (kinds stack).count (c, .invokeStop) ≤ stack.countP Frame.works := by
  rw [kinds, List.count, List.countP_filterMap]
  refine List.countP_mono_left ?_
  intro fr _ h
  cases fr with
  | invoke caller b =>
      cases caller with
      | constructor => cases b <;> simp [Frame.kind] at h
      | request => rfl
  | running caller b => cases caller <;> simp [Frame.kind] at h
  | construct | request | relock | unfinished | close | waiting => simp [Frame.kind] at h

theorem Inv.phase_of_detached {credit : Nat} (hi : Inv maxCallbacks s l credit)
    (hdet : s.Detached c) : ∃ ph : Phase, s.view l c = ph.view ∧ ph.frame = none ∧
      ph.isListed = 0 := by
  obtain ⟨flags, hflags, hsource, hconstr⟩ := hdet
  have hlt : c < s.callbacks.length := by
    rw [State.flags, Option.map_eq_some_iff] at hflags
    obtain ⟨cb, hcb, -⟩ := hflags
    exact (List.getElem?_eq_some_iff.mp hcb).1
  obtain ⟨ph, hph⟩ := hi.phases.phase c hlt
  rw [Phases.flags_eq hph] at hflags
  cases hflags
  exact ⟨ph, hph, Phase.rest_of_detached hsource hconstr⟩

theorem Inv.called_le {credit : Nat} (hi : Inv maxCallbacks s l credit) (c : Nat) :
    s.log.count (.called c) ≤ 1 := by
  rw [count_called]
  rcases Nat.lt_or_ge c s.callbacks.length with hlt | hge
  · obtain ⟨ph, hph⟩ := hi.phases.phase c hlt
    have heq : s.events c .called = ph.events.count .called :=
      congrFun (congrArg View.events hph) .called
    rw [heq]
    exact ph.called_le
  · have heq : s.events c .called = 0 :=
      congrFun (congrArg View.events (hi.phases.absent c hge)) .called
    omega

/-- No call is at work on a callback that is at rest. -/
theorem not_mem_stack_of_rest {ph : Phase} {fr : Frame} {k : FrameKind}
    (hph : s.view l c = ph.view) (hframe : ph.frame = none) (hk : fr.kind = some (c, k))
    (hth : s.threads[n]? = some th) : fr ∉ th.stack := by
  intro hmem
  have hframes : s.frames c k = 0 := by
    have heq : s.frames c k = if ph.frame = some k then 1 else 0 :=
      congrFun (congrArg View.frames hph) k
    rwa [hframe, if_neg nofun] at heq
  have hle := le_tally (f := fun th => (kinds th.stack).count (c, k)) hth
  have hpos : 0 < (kinds th.stack).count (c, k) :=
    List.count_pos_iff.mpr (List.mem_filterMap.mpr ⟨fr, hmem, hk⟩)
  rw [State.frames] at hframes
  omega

/-- When the first `request_stop` has returned ok, a callback that was registered has been
called, or somebody took it off the list. -/
theorem Inv.called_of_done (hi : Inv maxCallbacks s l 0) (hnot : .dropped c ∉ s.log)
    (hdone : .requested .ok true ∈ s.log) (hc : .constructed c .ok true ∈ s.log) :
    s.log.count (.called c) = if .unlinked c ∈ s.log then 0 else 1 := by
  obtain ⟨ph, hph, hattached⟩ := hi.phase_of_event hc rfl
  have hcount : s.log.count (.called c) = ph.events.count .called := by
    rw [count_called]
    exact congrFun (congrArg View.events hph) .called
  have hempty : l = [] := hi.requests.done hdone
  have hlisted : ph.isListed = 0 := by
    rw [← Phases.listed_eq hph, hempty]
    rfl
  -- The first `request_stop` has returned, so none is at work.
  have hidle : ph.frame ≠ some .invokeStop := by
    intro hframe
    have hone : s.frames c .invokeStop = 1 := by
      have heq : s.frames c .invokeStop = if ph.frame = some .invokeStop then 1 else 0 :=
        congrFun (congrArg View.frames hph) .invokeStop
      rwa [if_pos hframe] at heq
    have hle : s.frames c .invokeStop ≤ s.working :=
      tally_le (fun th => kinds_count_le_works th.stack c)
    have hpos : 0 < s.firsts := List.countP_pos_iff.mpr ⟨_, hdone, rfl⟩
    have := hi.requests.first
    split at this <;> omega
  have hunlinked : .unlinked c ∈ s.log ↔ .unlinked ∈ ph.events :=
    ⟨fun h => mem_phase_of_log hph h rfl, fun h => mem_log_of_phase hph h (fun _ => kind_unlinked)⟩
  have hdropped : .dropped ∉ ph.events :=
    fun h => hnot (mem_log_of_phase hph h (fun _ => kind_dropped))
  simp only [hcount, hunlinked]
  cases ph with
  | constructing | turnedAway | lateInvoke | lateRunning => simp [Phase.events] at hattached
  | listed => cases hlisted
  | invoking => exact absurd rfl hidle
  | dropped ok => exact absurd (by cases ok <;> decide) hdropped
  | late => rfl
  | running ok | served ok _ | unlinked ok _ =>
      cases ok
      · simp [Phase.events] at hattached
      · rfl

/-- What the callers of a stop source can rely on. -/
structure StopOk (maxCallbacks : Nat) (s : State) : Prop where
  /-- No callback is called twice. -/
  once : ∀ c, s.log.count (.called c) ≤ 1
  /-- When the first `request_stop` has returned ok, every callback that was registered has
  been called, except those that `close` took off the list before it came to them. -/
  served : .requested .ok true ∈ s.log → ∀ c, .constructed c .ok true ∈ s.log →
    s.log.count (.called c) = if .unlinked c ∈ s.log then 0 else 1
  /-- A callback that is constructed after the stop has been called. -/
  late : s.log.Pairwise (fun e e' => e = .stopping → ∀ c, e' = .constructed c .ok true →
    s.log.count (.called c) = 1)
  /-- A callback that is closed is not running, -/
  closed : ∀ c, .closed c .ok ∈ s.log → ∀ (n : Nat) (th : Thread), s.threads[n]? = some th →
    ∀ caller, .invoke caller c ∉ th.stack ∧ .running caller c ∉ th.stack
  /-- and is never called again. -/
  never : s.log.Pairwise (fun e e' => ∀ c, e = .closed c .ok → e' ≠ .called c)
  /-- One `request_stop` at most is the first. -/
  first : s.log.countP Event.first ≤ 1
  /-- The registration list is a list without closed or duplicate nodes, and `count_` is its
  length. -/
  list : ∃ l, Chain s.next s.source.head l ∧ l.Nodup ∧ s.source.count = l.length ∧
    l.length ≤ maxCallbacks ∧ ∀ c ∈ l, .closed c .ok ∉ s.log

theorem Inv.stopOk (hi : Inv maxCallbacks s l 0) (hnot : ∀ c, .dropped c ∉ s.log) :
    StopOk maxCallbacks s where
  once := hi.called_le
  served := fun hdone c => hi.called_of_done (hnot c) hdone
  late := by
    refine hi.closings.late.imp ?_
    intro e e' hlate hstop c hc
    have hpos := hlate hstop c hc
    have hle := hi.called_le c
    rw [count_called] at hle ⊢
    omega
  closed := by
    intro c hmem n th hth caller
    obtain ⟨ph, hph, hframe, -⟩ := hi.phase_of_detached (hi.closings.closed c hmem)
    constructor
    · cases caller <;> exact not_mem_stack_of_rest hph hframe rfl hth
    · cases caller <;> exact not_mem_stack_of_rest hph hframe rfl hth
  never := by
    refine hi.closings.order.imp ?_
    rintro e e' hno c rfl rfl
    exact hno ⟨c, rfl, rfl⟩
  first := by
    have := hi.requests.first
    rw [State.firsts] at this
    split at this <;> omega
  list := by
    refine ⟨l, hi.list.chain, hi.list.nodup, hi.list.count, hi.list.bound, ?_⟩
    intro c hc hclosed
    obtain ⟨ph, hph, -, hlisted⟩ := hi.phase_of_detached (hi.closings.closed c hclosed)
    have hpos : 0 < l.count c := List.count_pos_iff.mpr hc
    rw [Phases.listed_eq hph, hlisted] at hpos
    omega

/-- Callbacks run once, whatever the threads do, as long as no unlock fails. -/
theorem stop_callbacks_once (maxCallbacks : Nat) (initialization : ErrorCode) (s : State)
    (h : (stopMachine maxCallbacks initialization).ReachableBy (fun _ a => a.unlocks = true) s) :
    StopOk maxCallbacks s := by
  obtain ⟨l, hi⟩ := Inv.of_reachable h.reachable
  refine hi.stopOk (fun c => not_dropped_of_reachable (h.mono ?_) c)
  intro s a ha
  exact State.not_handoffFails ha

/-- Every primitive that the step uses succeeds. -/
def Results.good : Results := ⟨.ok, .ok, false, .ok, .ok, false⟩

/-- Two callbacks are registered, and `request_stop` hands out the second. -/
def twoCallbacks : List Action :=
  [.spawn, .spawn, .construct 0 true true, .advance 0 .good, .construct 0 true true,
    .advance 0 .good, .request 0, .advance 0 .good]

/-- Another thread closes the first callback; `request_stop` runs to its end. -/
def closedMeanwhile : List Action :=
  [.close 1 0 false, .advance 1 .good, .advance 0 .good, .advance 0 .good, .advance 0 .good]

/-- The second callback is called once, the first, which was closed, not at all. -/
theorem stop_callbacks_once_closed :
    ∃ s, (stopMachine 4 .ok).run (stopMachine 4 .ok).init (twoCallbacks ++ closedMeanwhile) =
        some s ∧ StopOk 4 s ∧ s.log.count (.called 0) = 0 ∧ s.log.count (.called 1) = 1 ∧
      .requested .ok true ∈ s.log := by
  have hview : ((stopMachine 4 .ok).run (stopMachine 4 .ok).init
      (twoCallbacks ++ closedMeanwhile)).map (fun s => (s.log.count (.called 0),
        s.log.count (.called 1), decide (.requested .ok true ∈ s.log))) = some (0, 1, true) := by
    decide +kernel
  obtain ⟨s, hrun, hs⟩ := Option.map_eq_some_iff.mp hview
  obtain ⟨hzero, hs⟩ := Prod.mk.inj hs
  obtain ⟨hone, hdone⟩ := Prod.mk.inj hs
  have hguard : (stopMachine 4 .ok).RunOk (fun _ a => a.unlocks = true) (stopMachine 4 .ok).init
      (twoCallbacks ++ closedMeanwhile) :=
    Machine.RunOk.of_forall (p := fun a : Action => a.unlocks = true) (by decide) _
  exact ⟨s, hrun, stop_callbacks_once 4 .ok s (.of_run .init hguard hrun), hzero, hone,
    of_decide_eq_true hdone⟩

/-- A call of `close` on `c` has begun. -/
def State.closeBegun (s : State) (c : Nat) : Prop :=
  (∃ status, .closed c status ∈ s.log) ∨
    ∃ th ∈ s.threads, ∃ timed, .close c timed ∈ th.stack ∨ .waiting c timed ∈ th.stack

/-- All primitives succeed. -/
def Action.succeeds : Action → Bool
  | .advance _ r => r.lock = .ok ∧ r.unlock = .ok ∧ r.notify = .ok ∧ r.wait = .ok
  | _ => true

/-- A `close` that begins after `request_stop` has taken the lock still prevents the call. -/
theorem request_stop_skips_closed :
    ¬ ∀ (maxCallbacks : Nat) (s s' : State) (as : List Action) (c : Nat),
      (stopMachine maxCallbacks .ok).ReachableBy (fun _ a => a.succeeds = true) s →
      .stopping ∈ s.log → .constructed c .ok true ∈ s.log → ¬ s.closeBegun c →
      (∀ a ∈ as, a.succeeds = true) → (stopMachine maxCallbacks .ok).run s as = some s' →
      .requested .ok true ∈ s'.log → s'.log.count (.called c) = 1 := by
  intro hall
  have hview : ((stopMachine 4 .ok).run (stopMachine 4 .ok).init twoCallbacks).map
      (fun s => (s.log, s.threads.map (·.stack),
        ((stopMachine 4 .ok).run s closedMeanwhile).map (fun s' =>
          (decide (.requested .ok true ∈ s'.log), s'.log.count (.called 0))))) =
      some ([.constructed 0 .ok true, .constructed 1 .ok true, .stopping],
        [[.invoke .request 1], []], some (true, 0)) := by
    decide +kernel
  obtain ⟨s, hrun, hs⟩ := Option.map_eq_some_iff.mp hview
  obtain ⟨hlog, hs⟩ := Prod.mk.inj hs
  obtain ⟨hstacks, hs⟩ := Prod.mk.inj hs
  obtain ⟨s', hrun', hs⟩ := Option.map_eq_some_iff.mp hs
  obtain ⟨hdone, hzero⟩ := Prod.mk.inj hs
  have hguard : (stopMachine 4 .ok).RunOk (fun _ a => a.succeeds = true) (stopMachine 4 .ok).init
      twoCallbacks :=
    Machine.RunOk.of_forall (p := fun a : Action => a.succeeds = true) (by decide) _
  have hbegun : ¬ s.closeBegun 0 := by
    rintro (⟨status, hmem⟩ | ⟨th, hth, timed, hmem⟩)
    · rw [hlog] at hmem
      simp at hmem
    · have hstack : th.stack ∈ s.threads.map (·.stack) := List.mem_map_of_mem hth
      rw [hstacks] at hstack
      rcases List.mem_pair.mp hstack with heq | heq
      · simp [heq] at hmem
      · simp [heq] at hmem
  have hone := hall 4 s s' closedMeanwhile 0 (.of_run .init hguard hrun) (by simp [hlog])
    (by simp [hlog]) hbegun (by decide) hrun' (of_decide_eq_true hdone)
  rw [hzero] at hone
  cases hone

end Once

end MicrOsal.Stop
