import MicrOsal.ZephyrWq.Slots

/-!
# MicrOsal.ZephyrWq.Jobs

Every submission that was accepted is in one place (`Numbered`): it is still to be executed, its
function was called, or a `cancel_all` removed it. That holds in every run, also where entries are
lost; and the worker and a `cancel_all` that has begun come to an end with the list.
-/

namespace MicrOsal.ZephyrWq

variable {s s' : State} {a : Action} {k m depth : Nat} {e d : Entry}

/-! ### The submissions that wait -/

theorem jobAt_set (hk : s.entries[k]? = some e) (hentries : s'.entries = s.entries.set k d) :
    s'.jobAt = Function.update s.jobAt k d.submission := by
  have hlt : k < s.entries.length := (List.getElem?_eq_some_iff.mp hk).1
  funext m
  unfold State.jobAt
  rw [hentries]
  by_cases hmk : m = k
  · subst hmk
    rw [List.getElem?_set_self hlt, Function.update_self]
    rfl
  · rw [List.getElem?_set_ne (Ne.symm hmk), Function.update_of_ne hmk]

/-- Flags do not show. -/
theorem jobAt_set_eq (hk : s.entries[k]? = some e) (hentries : s'.entries = s.entries.set k d)
    (hsubmission : d.submission = e.submission) : s'.jobAt = s.jobAt := by
  rw [jobAt_set hk hentries, hsubmission]
  have hold : s.jobAt k = e.submission := by
    unfold State.jobAt
    rw [hk]
    rfl
  rw [← hold, Function.update_eq_self]

theorem filterMap_update {l : List Nat} {f : Nat → Option Nat} {x : Option Nat} (hk : k ∉ l) :
    l.filterMap (Function.update f k x) = l.filterMap f := by
  refine List.filterMap_congr (fun m hm => ?_)
  exact Function.update_of_ne (fun hmk : m = k => hk (hmk ▸ hm)) _ _

/-- The worker does not see what happens to an entry that it is not about to read. -/
theorem upcoming_update {x : Option Nat} (hworker : s'.worker = s.worker)
    (hjobAt : s'.jobAt = Function.update s.jobAt k x) (hk : s.worker ≠ .taken k) :
    s'.upcoming = s.upcoming := by
  unfold State.upcoming
  rw [hworker]
  split
  case h_1 m htaken =>
    rw [hjobAt, Function.update_of_ne]
    rintro rfl
    exact hk htaken
  case h_2 => rfl
  case h_3 | h_4 | h_5 => rfl

theorem not_taken_of_handles (h : s.worker.handles k = false) : s.worker ≠ .taken k := by
  intro htaken
  rw [htaken] at h
  exact absurd rfl (of_decide_eq_false h)

theorem Same.waiting (hs : Same s s') : s'.waiting = s.waiting := by
  have hjobAt : s'.jobAt = s.jobAt := by
    funext m
    unfold State.jobAt
    rw [hs.entries]
  unfold State.waiting State.upcoming
  rw [hjobAt, hs.pending, hs.worker]

/-- A submission that is accepted waits from then on. -/
theorem Fills.waiting {func : Option Nat} {arg marker : Nat} (h : Placed s)
    (hk : s.entries[k]? = some e) (hs : Fills s s' k e func arg marker) :
    s'.waiting.Perm (s.waiting ++ (func.map (fun _ => s.jobs.length)).toList) := by
  obtain ⟨hnot, hhandles⟩ := h.free hk hs.free
  have hjobAt := jobAt_set hk hs.entries
  have hupcoming := upcoming_update hs.worker hjobAt (not_taken_of_handles hhandles)
  have hlast : [k].filterMap s'.jobAt = (func.map (fun _ => s.jobs.length)).toList := by
    rw [hjobAt, List.filterMap_cons, Function.update_self]
    cases func <;> rfl
  unfold State.waiting
  rw [hs.pending, join_of_free h hk hs.free, List.filterMap_append, hlast, hupcoming, hjobAt,
    filterMap_update hnot, List.append_assoc, List.append_assoc]
  exact (List.perm_append_comm).append_left _

theorem Rejects.waiting (h : Placed s) (hk : s.entries[k]? = some e) (hs : Rejects s s' k e) :
    s'.waiting = s.waiting := by
  obtain ⟨hnot, hhandles⟩ := h.free hk hs.free
  obtain ⟨func, arg, marker, hentries⟩ := hs.entries
  have hjobAt := jobAt_set hk hentries
  have hupcoming := upcoming_update hs.worker hjobAt (not_taken_of_handles hhandles)
  unfold State.waiting
  rw [hs.pending, hupcoming, hjobAt, filterMap_update hnot]

theorem jobAt_of (hk : s.entries[k]? = some e) : s.jobAt k = e.submission := by
  unfold State.jobAt
  rw [hk]
  rfl

/-- What a `cancel_all` removes does not wait any more. -/
theorem waiting_cancel (h : Placed s) (hk : s.entries[k]? = some e) (next : Option Nat) :
    ((if e.queued then e.submission.toList else []) ++
      State.waiting { s.cancelEntry k e with cancelling := next }).Perm s.waiting := by
  have hjobAt : State.jobAt { s.cancelEntry k e with cancelling := next } = s.jobAt :=
    jobAt_set_eq (d := { e.workCancel with inUse := e.busy }) hk rfl rfl
  have hupcoming : State.upcoming { s.cancelEntry k e with cancelling := next } = s.upcoming := by
    unfold State.upcoming
    rw [hjobAt]
    rfl
  have hleave : ((if e.queued then e.submission.toList else []) ++
      (s.leave k e).filterMap s.jobAt).Perm (s.pending.filterMap s.jobAt) := by
    unfold State.leave
    split
    case isTrue hqueued =>
      have hmem : k ∈ s.pending := (h.settled k e hk).queued.mp hqueued
      have hperm := (List.perm_cons_erase hmem).symm.filterMap s.jobAt
      rw [List.filterMap_cons, jobAt_of hk] at hperm
      cases hsubmission : e.submission with
      | none =>
          rw [hsubmission] at hperm
          exact hperm
      | some job =>
          rw [hsubmission] at hperm
          exact hperm
    case isFalse => exact .refl _
  unfold State.waiting
  rw [hjobAt, hupcoming, ← List.append_assoc]
  exact hleave.append_right _

/-! ### Every submission in one place -/

structure Numbered (s : State) : Prop where
  once : (s.calls.map Call.job ++ s.removed ++ s.waiting).Perm (List.range s.jobs.length)
  filled : ∀ k e f, s.entries[k]? = some e → k ∈ s.pending ∨ s.worker = .taken k →
    e.func = some f → s.jobs[e.job]? = some (f, e.arg)
  fetched : ∀ k f arg marker job, s.worker = .fetched k (some f) arg marker job →
    s.jobs[job]? = some (f, arg)
  called : ∀ c ∈ s.calls, s.jobs[c.job]? = some (c.func, c.arg)

theorem Numbered.same (h : Numbered s) (hs : Same s s') : Numbered s' := by
  constructor
  · rw [hs.calls, hs.removed, hs.waiting, hs.jobs]
    exact h.once
  · rw [hs.entries, hs.pending, hs.worker, hs.jobs]
    exact h.filled
  · rw [hs.worker, hs.jobs]
    exact h.fetched
  · rw [hs.calls, hs.jobs]
    exact h.called

theorem getElem?_jobs {jobs more : List (Nat × Nat)} {job : Nat} {x : Nat × Nat}
    (h : jobs[job]? = some x) : (jobs ++ more)[job]? = some x := by
  rw [List.getElem?_append_left (List.getElem?_eq_some_iff.mp h).1]
  exact h

theorem Numbered.fills {func : Option Nat} {arg marker : Nat} (h : Numbered s) (hplaced : Placed s)
    (hk : s.entries[k]? = some e) (hs : Fills s s' k e func arg marker) : Numbered s' := by
  obtain ⟨hnot, hhandles⟩ := hplaced.free hk hs.free
  constructor
  · rw [hs.calls, hs.removed, hs.jobs]
    have hlast : List.range (s.jobs ++ (func.map (fun f => (f, arg))).toList).length =
        List.range s.jobs.length ++ (func.map (fun _ => s.jobs.length)).toList := by
      cases func with
      | none =>
          simp
      | some f =>
          rw [List.length_append]
          exact List.range_succ
    rw [hlast]
    refine ((hs.waiting hplaced hk).append_left _).trans ?_
    rw [← List.append_assoc]
    exact h.once.append_right _
  · rw [hs.entries, hs.pending, hs.worker, hs.jobs, join_of_free hplaced hk hs.free]
    intro m e₁ f hm hwhere hfunc
    rcases getElem?_set_cases hm with ⟨rfl, rfl⟩ | ⟨hmk, hm⟩
    · have hfunc : func = some f := hfunc
      subst hfunc
      exact List.getElem?_concat_length
    · refine getElem?_jobs (h.filled m e₁ f hm ?_ hfunc)
      rw [List.mem_append, List.mem_singleton] at hwhere
      exact hwhere.imp_left (fun hmem => hmem.resolve_right hmk)
  · rw [hs.worker, hs.jobs]
    exact fun m f arg' marker' job hw => getElem?_jobs (h.fetched m f arg' marker' job hw)
  · rw [hs.calls, hs.jobs]
    exact fun c hc => getElem?_jobs (h.called c hc)

theorem Numbered.rejects (h : Numbered s) (hplaced : Placed s) (hk : s.entries[k]? = some e)
    (hs : Rejects s s' k e) : Numbered s' := by
  obtain ⟨hnot, hhandles⟩ := hplaced.free hk hs.free
  have hwaiting := hs.waiting hplaced hk
  obtain ⟨func, arg, marker, hentries⟩ := hs.entries
  constructor
  · rw [hs.calls, hs.removed, hs.jobs, hwaiting]
    exact h.once
  · rw [hentries, hs.pending, hs.worker, hs.jobs]
    intro m e₁ f hm hwhere hfunc
    rcases getElem?_set_cases hm with ⟨rfl, -⟩ | ⟨-, hm⟩
    · rcases hwhere with hmem | htaken
      · exact absurd hmem hnot
      · exact absurd htaken (not_taken_of_handles hhandles)
    · exact h.filled m e₁ f hm hwhere hfunc
  · rw [hs.worker, hs.jobs]
    exact h.fetched
  · rw [hs.calls, hs.jobs]
    exact h.called

/-- An entry that keeps its submission, and is not put into the list. -/
theorem Numbered.filled_set (h : Numbered s) (hk : s.entries[k]? = some e)
    (hentries : s'.entries = s.entries.set k d) (hfunc : d.func = e.func) (harg : d.arg = e.arg)
    (hjob : d.job = e.job) (hjobs : s'.jobs = s.jobs)
    (hwhere : ∀ m, m ∈ s'.pending ∨ s'.worker = .taken m → m ∈ s.pending ∨ s.worker = .taken m) :
    ∀ m e₁ f, s'.entries[m]? = some e₁ → m ∈ s'.pending ∨ s'.worker = .taken m →
      e₁.func = some f → s'.jobs[e₁.job]? = some (f, e₁.arg) := by
  intro m e₁ f hm hin hsome
  rw [hentries] at hm
  rw [hjobs]
  rcases getElem?_set_cases hm with ⟨rfl, rfl⟩ | ⟨-, hm⟩
  · rw [hjob, harg]
    exact h.filled m e f hk (hwhere m hin) (hfunc.symm.trans hsome)
  · exact h.filled m e₁ f hm (hwhere m hin) hsome

theorem Numbered.cancels (h : Numbered s) (hplaced : Placed s) (hk : s.entries[k]? = some e)
    (next : Option Nat) : Numbered { s.cancelEntry k e with cancelling := next } := by
  constructor
  · refine List.Perm.trans ?_ h.once
    change (s.calls.map Call.job ++ (s.removed ++ _) ++ _).Perm _
    rw [List.append_assoc, List.append_assoc, List.append_assoc]
    exact ((waiting_cancel hplaced hk next).append_left _).append_left _
  · refine h.filled_set (d := { e.workCancel with inUse := e.busy }) hk rfl rfl rfl rfl rfl ?_
    exact fun m hm => hm.imp_left (fun hmem => ((hplaced.mem_leave hk m).mp hmem).1)
  · exact h.fetched
  · exact h.called

theorem Numbered.dequeues {rest : List Nat} (h : Numbered s) (hidle : s.worker = .idle)
    (hpending : s.pending = k :: rest) (hk : s.entries[k]? = some e) :
    Numbered ({ s with pending := rest, worker := .taken k }.setEntry k
      { e with queued := false, running := true }) := by
  constructor
  · have hjobAt : State.jobAt ({ s with pending := rest, worker := .taken k }.setEntry k
        { e with queued := false, running := true }) = s.jobAt :=
      jobAt_set_eq (d := { e with queued := false, running := true }) hk rfl rfl
    have hold : s.waiting = (s.jobAt k).toList ++ rest.filterMap s.jobAt := by
      unfold State.waiting State.upcoming
      rw [hpending, hidle, List.append_nil, List.filterMap_cons]
      cases s.jobAt k <;> rfl
    have hnew : State.waiting ({ s with pending := rest, worker := .taken k }.setEntry k
        { e with queued := false, running := true }) =
        rest.filterMap s.jobAt ++ (s.jobAt k).toList := by
      unfold State.waiting State.upcoming
      rw [hjobAt]
      rfl
    rw [hnew]
    refine List.Perm.trans ?_ h.once
    rw [hold]
    exact (List.perm_append_comm).append_left _
  · refine h.filled_set (d := { e with queued := false, running := true }) hk rfl rfl rfl rfl rfl
      ?_
    rintro m (hmem | htaken)
    · exact .inl (hpending ▸ List.mem_cons_of_mem k hmem)
    · obtain rfl := Worker.taken.inj htaken
      exact .inl (hpending ▸ List.mem_cons_self)
  · exact nofun
  · exact h.called

theorem Numbered.fetches (h : Numbered s) (htaken : s.worker = .taken k)
    (hk : s.entries[k]? = some e) :
    Numbered { s with worker := .fetched k e.func e.arg e.marker e.job } := by
  constructor
  · have hwaiting : State.waiting { s with worker := .fetched k e.func e.arg e.marker e.job } =
        s.waiting := by
      unfold State.waiting State.upcoming
      rw [htaken]
      dsimp only
      rw [jobAt_of hk]
      rfl
    rw [hwaiting]
    exact h.once
  · intro m e₁ f hm hwhere hfunc
    rcases hwhere with hmem | hno
    · exact h.filled m e₁ f hm (.inl hmem) hfunc
    · cases hno
  · intro m f arg marker job heq
    obtain ⟨-, hfunc, rfl, -, rfl⟩ := Worker.fetched.inj heq
    exact h.filled k e f hk (.inr htaken) hfunc
  · exact h.called

theorem Numbered.calls {func : Option Nat} {arg marker job : Nat} (h : Numbered s)
    (hfetched : s.worker = .fetched k func arg marker job) :
    Numbered (s.call k func arg marker job) := by
  have hupcoming : s.upcoming = (func.map (fun _ => job)).toList := by
    unfold State.upcoming
    rw [hfetched]
  constructor
  · have hnew : (s.call k func arg marker job).waiting = s.pending.filterMap s.jobAt :=
      List.append_nil _
    have hcalls : (s.call k func arg marker job).calls.map Call.job =
        s.calls.map Call.job ++ s.upcoming := by
      rw [hupcoming]
      unfold State.call
      rw [List.map_append]
      cases func <;> rfl
    rw [hnew, hcalls]
    refine List.Perm.trans ?_ h.once
    unfold State.waiting
    have hmove : (s.upcoming ++ (s.removed ++ s.pending.filterMap s.jobAt)).Perm
        (s.removed ++ (s.pending.filterMap s.jobAt ++ s.upcoming)) := by
      rw [← List.append_assoc s.removed]
      exact List.perm_append_comm
    simp only [List.append_assoc]
    exact hmove.append_left _
  · intro m e₁ f hm hwhere hfunc
    rcases hwhere with hmem | hno
    · exact h.filled m e₁ f hm (.inl hmem) hfunc
    · cases hno
  · exact nofun
  · intro c hc
    rcases List.mem_append.mp hc with hc | hc
    · exact h.called c hc
    · cases func with
      | none => cases hc
      | some f =>
          obtain rfl := List.mem_singleton.mp hc
          exact h.fetched k f arg marker job hfetched

/-- The worker goes on without reading an entry. -/
theorem Numbered.ends (h : Numbered s) (hk : s.entries[k]? = some e)
    (hentries : s'.entries = s.entries.set k d) (hfunc : d.func = e.func) (harg : d.arg = e.arg)
    (hjob : d.job = e.job) (hpending : s'.pending = s.pending) (hjobs : s'.jobs = s.jobs)
    (hcalls : s'.calls = s.calls) (hremoved : s'.removed = s.removed) (hbefore : s.upcoming = [])
    (hafter : s'.upcoming = []) (htaken : ∀ m, s'.worker ≠ .taken m)
    (hfetched : ∀ m f arg marker job, s'.worker ≠ .fetched m f arg marker job) : Numbered s' := by
  have hsubmission : d.submission = e.submission := by
    unfold Entry.submission
    rw [hfunc, hjob]
  constructor
  · have hwaiting : s'.waiting = s.waiting := by
      unfold State.waiting
      rw [jobAt_set_eq hk hentries hsubmission, hpending, hbefore, hafter]
    rw [hwaiting, hcalls, hremoved, hjobs]
    exact h.once
  · refine h.filled_set hk hentries hfunc harg hjob hjobs (fun m hm => ?_)
    rw [hpending] at hm
    exact hm.imp_right (fun htaken' => absurd htaken' (htaken m))
  · exact fun m f arg marker job heq => absurd heq (hfetched m _ arg marker job)
  · rw [hcalls, hjobs]
    exact h.called

theorem Numbered.step (h : Numbered s) (hplaced : Placed s) (hs : Moves s a s') : Numbered s' := by
  cases hs with
  | quiet hsame | full _ hsame => exact h.same hsame
  | rejects _ hk hs | rejectsSentinel hk hs => exact h.rejects hplaced hk hs
  | accepts _ hk hs | places hk hs => exact h.fills hplaced hk hs
  | cancels _ hk => exact h.cancels hplaced hk _
  | dequeues hidle hpending hk => exact h.dequeues hidle hpending hk
  | fetches htaken hk => exact h.fetches htaken hk
  | calls hfetched => exact h.calls hfetched
  | @stores k marker e s' hcalled hk hsame =>
      have hbefore : s.upcoming = [] := by
        unfold State.upcoming
        rw [hcalled]
      have hmid : Numbered ({ s with worker := .stored k }.setEntry k { e with inUse := false }) :=
        h.ends (d := { e with inUse := false }) hk rfl rfl rfl rfl rfl rfl rfl rfl hbefore rfl
          nofun nofun
      exact hmid.same hsame
  | @finishes k e hstored hk =>
      have hbefore : s.upcoming = [] := by
        unfold State.upcoming
        rw [hstored]
      exact h.ends (d := { e with running := false, canceling := false }) hk rfl rfl rfl rfl rfl
        rfl rfl rfl hbefore rfl nofun nofun

theorem Numbered.init (depth : Nat) : Numbered (machine depth).init := by
  constructor
  · exact .refl _
  · rintro k e f - (hmem | htaken)
    · cases hmem
    · cases htaken
  · exact nofun
  · exact nofun

theorem Numbered.of_reachable (h : (machine depth).Reachable s) : Numbered s :=
  h.invariant (I := Numbered) (.init depth)
    (fun _ _ _ hr hi hs => hi.step (.of_reachable hr) (moves_of_step hs))

end MicrOsal.ZephyrWq
