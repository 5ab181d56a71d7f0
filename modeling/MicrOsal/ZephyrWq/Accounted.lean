import MicrOsal.ZephyrWq.Jobs

/-!
# MicrOsal.ZephyrWq.Accounted

The entries of the Zephyr work queue.

The handler gives its entry back before the kernel clears `RUNNING`. In between the entry can be
used again, and a `cancel_all` then finds it queued and running: it takes it from the list and
leaves it in use, with nothing that will give it back. And an entry that `cancel_all` marked while
its handler ran is free in between, and `submit` fails on it.

As long as neither happens (`Heeds`) the entries are accounted for.
-/

namespace MicrOsal.ZephyrWq

variable {s s' : State} {a : Action} {k depth : Nat} {e : Entry}

/-! ### The worker comes to the end of the list -/

/-- The steps that the worker has to make for the entry that it has. -/
def Worker.remaining : Worker → Nat
  | .idle => 0
  | .stored _ => 1
  | .called _ _ => 2
  | .fetched _ _ _ _ _ => 3
  | .taken _ => 4

namespace State

/-- The steps that a `cancel_all` has to make. -/
def cancelRemaining (s : State) : Nat :=
  match s.cancelling with
  | none => 0
  | some k => s.entries.length - k + 1

def remaining (s : State) : Nat :=
  s.cancelRemaining + (5 * s.pending.length + s.worker.remaining)

/-- Nothing is in the list or with the worker, and no `cancel_all` goes on. -/
def AtRest (s : State) : Prop := s.cancelling = none ∧ s.pending = [] ∧ s.worker = .idle

end State

theorem leave_length_le : (s.leave k e).length ≤ s.pending.length := by
  unfold State.leave
  split
  · exact List.length_erase_le
  · exact le_rfl

/-- A `cancel_all` goes on to its end. -/
theorem cancelNext_goes (hcancelling : s.cancelling = some k) :
    ∃ s', s.step .cancelNext = some s' ∧ s'.remaining < s.remaining ∧ s'.jobs = s.jobs := by
  have hstep : s.step .cancelNext = s.cancelNext := rfl
  rw [hstep]
  unfold State.cancelNext
  rw [hcancelling]
  dsimp only
  cases hk : s.entries[k]? with
  | none =>
      refine ⟨_, rfl, ?_, rfl⟩
      unfold State.remaining State.cancelRemaining
      rw [hcancelling]
      dsimp only
      omega
  | some e =>
      have hlt : k < s.entries.length := (List.getElem?_eq_some_iff.mp hk).1
      dsimp only
      split
      · refine ⟨_, rfl, ?_, rfl⟩
        have hle : (s.leave k e).length ≤ s.pending.length := leave_length_le
        unfold State.remaining State.cancelRemaining
        rw [hcancelling]
        dsimp only [State.cancelEntry, State.setEntry]
        rw [List.length_set]
        omega
      · refine ⟨_, rfl, ?_, rfl⟩
        unfold State.remaining State.cancelRemaining
        rw [hcancelling]
        dsimp only
        omega

/-- The worker goes on, unless there is nothing to do. -/
theorem Placed.work_goes (h : Placed s) (hunlocked : s.cancelling = none) (hrest : ¬ s.AtRest) :
    ∃ s', s.step .work = some s' ∧ s'.remaining < s.remaining ∧ s'.jobs = s.jobs := by
  have hstep : s.step .work = s.work := rfl
  rw [hstep]
  unfold State.work
  cases hworker : s.worker with
  | idle =>
      cases hpending : s.pending with
      | nil => exact absurd ⟨hunlocked, hpending, hworker⟩ hrest
      | cons k rest =>
          have hlt := h.inside k (.inl (hpending ▸ List.mem_cons_self))
          dsimp only [State.dequeue]
          rw [hpending]
          dsimp only
          rw [List.getElem?_eq_getElem hlt]
          refine ⟨_, rfl, ?_, rfl⟩
          unfold State.remaining State.cancelRemaining
          dsimp only [State.setEntry, Worker.remaining]
          rw [hunlocked, hpending, hworker, List.length_cons]
          dsimp only [Worker.remaining]
          omega
  | taken k =>
      have hlt := h.inside k (.inr (by rw [hworker]; rfl))
      dsimp only [State.whenUnlocked, State.fetch]
      rw [if_pos hunlocked, List.getElem?_eq_getElem hlt]
      refine ⟨_, rfl, ?_, rfl⟩
      unfold State.remaining State.cancelRemaining
      dsimp only [Worker.remaining]
      rw [hworker]
      dsimp only [Worker.remaining]
      omega
  | fetched k func arg marker job =>
      refine ⟨_, rfl, ?_, rfl⟩
      unfold State.remaining State.cancelRemaining
      dsimp only [State.call, Worker.remaining]
      rw [hworker]
      dsimp only [Worker.remaining]
      omega
  | called k marker =>
      have hlt := h.inside k (.inr (by rw [hworker]; rfl))
      dsimp only [State.whenUnlocked, State.store]
      rw [if_pos hunlocked, List.getElem?_eq_getElem hlt]
      refine ⟨_, rfl, ?_, rfl⟩
      unfold State.remaining State.cancelRemaining
      dsimp only [State.setEntry, Worker.remaining]
      rw [hunlocked, hworker]
      dsimp only [Worker.remaining]
      omega
  | stored k =>
      have hlt := h.inside k (.inr (by rw [hworker]; rfl))
      dsimp only [State.finish]
      rw [List.getElem?_eq_getElem hlt]
      refine ⟨_, rfl, ?_, rfl⟩
      unfold State.remaining State.cancelRemaining
      dsimp only [State.setEntry, Worker.remaining]
      rw [hunlocked, hworker]
      dsimp only [Worker.remaining]
      omega

/-- Where the work is, and what has become of the submissions. -/
structure Sound (s : State) : Prop where
  placed : Placed s
  numbered : Numbered s

theorem Sound.of_reachable (h : (machine depth).Reachable s) : Sound s :=
  ⟨.of_reachable h, .of_reachable h⟩

theorem Sound.step (h : Sound s) (hs : s.step a = some s') : Sound s' :=
  ⟨h.placed.step (moves_of_step hs), h.numbered.step h.placed (moves_of_step hs)⟩

/-- The worker, and a `cancel_all` that has begun, come to rest by themselves. -/
theorem Sound.comes_to_rest {n : Nat} (depth : Nat) (h : Sound s) (hn : s.remaining ≤ n) : ∃ as t,
    (∀ a ∈ as, a = .work ∨ a = .cancelNext) ∧ (machine depth).run s as = some t ∧
      t.AtRest ∧ t.jobs = s.jobs ∧ Sound t := by
  induction n generalizing s with
  | zero =>
      refine ⟨[], s, nofun, rfl, ?_, rfl, h⟩
      by_contra hrest
      cases hcancelling : s.cancelling with
      | none =>
          obtain ⟨s', -, hless, -⟩ := h.placed.work_goes hcancelling hrest
          omega
      | some k =>
          obtain ⟨s', -, hless, -⟩ := cancelNext_goes hcancelling
          omega
  | succ n ih =>
      by_cases hrest : s.AtRest
      · exact ⟨[], s, nofun, rfl, hrest, rfl, h⟩
      have hgoes : ∃ a s', (a = .work ∨ a = .cancelNext) ∧ s.step a = some s' ∧
          s'.remaining < s.remaining ∧ s'.jobs = s.jobs := by
        cases hcancelling : s.cancelling with
        | none =>
            obtain ⟨s', hs⟩ := h.placed.work_goes hcancelling hrest
            exact ⟨.work, s', .inl rfl, hs⟩
        | some k =>
            obtain ⟨s', hs⟩ := cancelNext_goes hcancelling
            exact ⟨.cancelNext, s', .inr rfl, hs⟩
      obtain ⟨a, s', ha, hs, hless, hjobs⟩ := hgoes
      obtain ⟨as, t, has, hrun, hat, hjobs', ht⟩ := ih (h.step hs) (by omega)
      refine ⟨a :: as, t, ?_, ?_, hat, hjobs'.trans hjobs, ht⟩
      · rintro b (_ | ⟨_, hb⟩)
        · exact ha
        · exact has b hb
      · exact Option.bind_eq_some_iff.mpr ⟨s', hs, hrun⟩

/-- At rest nothing waits. -/
theorem State.AtRest.waiting (h : s.AtRest) : s.waiting = [] := by
  obtain ⟨-, hpending, hworker⟩ := h
  unfold State.waiting State.upcoming
  rw [hpending, hworker]
  rfl

/-! ### What is accounted for -/

structure Accounted (depth : Nat) (s : State) : Prop where
  /-- An entry is in use while its work is in the list, or with the handler. -/
  used : ∀ (k : Nat) (e : Entry), s.entries[k]? = some e →
    (e.inUse = true ↔ k ∈ s.pending ∨ s.worker.handles k = true)
  /-- A submission that was accepted was executed, or was removed, or still waits, and only one
  of these, and once. -/
  once : (s.calls.map Call.job ++ s.removed ++ s.waiting).Perm (List.range s.jobs.length)
  /-- What is executed is what was submitted. -/
  called : ∀ c ∈ s.calls, s.jobs[c.job]? = some (c.func, c.arg)
  /-- What waits is executed by the worker, unless a `cancel_all` that goes on removes it. -/
  ends : ∃ as t, (∀ a ∈ as, a = .work ∨ a = .cancelNext) ∧ (machine depth).run s as = some t ∧
    t.jobs = s.jobs ∧ (t.calls.map Call.job ++ t.removed).Perm (List.range s.jobs.length)
  /-- A submission was refused only when all entries were in use. -/
  refused : ∀ x ∈ s.answers, x.code ≠ .ok → x.full = true

/-- What only the runs keep whose steps meet `Heeds`. -/
structure Kept (s : State) : Prop where
  held : ∀ (k : Nat) (e : Entry), s.entries[k]? = some e → e.inUse = true →
    k ∈ s.pending ∨ s.worker.handles k = true
  refused : ∀ x ∈ s.answers, x.code ≠ .ok → x.full = true

theorem accounted (h : Kept s) (hsound : Sound s) : Accounted depth s where
  used k e hk := ⟨h.held k e hk, (hsound.placed.settled k e hk).used⟩
  once := hsound.numbered.once
  called := hsound.numbered.called
  ends := by
    obtain ⟨as, t, has, hrun, hrest, hjobs, ht⟩ := hsound.comes_to_rest depth le_rfl
    have honce := ht.numbered.once
    rw [hrest.waiting, List.append_nil, hjobs] at honce
    exact ⟨as, t, has, hrun, hjobs, honce⟩
  refused := h.refused

/-! ### Runs -/

theorem Kept.same (h : Kept s) (hs : Same s s') (hanswers : s'.answers = s.answers) : Kept s' := by
  constructor
  · rw [hs.entries, hs.pending, hs.worker]
    exact h.held
  · rw [hanswers]
    exact h.refused

theorem refused_concat {x : Answer} (h : Kept s) (hx : x.code ≠ .ok → x.full = true) :
    ∀ y ∈ s.answers ++ [x], y.code ≠ .ok → y.full = true := by
  intro y hy
  rcases List.mem_append.mp hy with hy | hy
  · exact h.refused y hy
  · obtain rfl := List.mem_singleton.mp hy
    exact hx

/-- A step that concerns entry `k` only. -/
theorem Kept.held_set {d : Entry} (h : Kept s) (hentries : s'.entries = s.entries.set k d)
    (hpending : ∀ m, m ≠ k → m ∈ s.pending → m ∈ s'.pending)
    (hhandles : ∀ m, m ≠ k → s.worker.handles m = true → s'.worker.handles m = true)
    (hnew : d.inUse = true → k ∈ s'.pending ∨ s'.worker.handles k = true) :
    ∀ m e₁, s'.entries[m]? = some e₁ → e₁.inUse = true →
      m ∈ s'.pending ∨ s'.worker.handles m = true := by
  intro m e₁ hm huse
  rw [hentries] at hm
  rcases getElem?_set_cases hm with ⟨rfl, rfl⟩ | ⟨hmk, hm⟩
  · exact hnew huse
  · exact (h.held m e₁ hm huse).imp (hpending m hmk) (hhandles m hmk)

theorem held_rejects (h : Kept s) (hs : Rejects s s' k e) : ∀ m e₁, s'.entries[m]? = some e₁ →
    e₁.inUse = true → m ∈ s'.pending ∨ s'.worker.handles m = true := by
  obtain ⟨func, arg, marker, hentries⟩ := hs.entries
  refine h.held_set hentries (fun m _ => ?_) (fun m _ => ?_) nofun
  · rw [hs.pending]
    exact id
  · rw [hs.worker]
    exact id

theorem held_fills {func : Option Nat} {arg marker : Nat} (h : Kept s) (hplaced : Placed s)
    (hk : s.entries[k]? = some e) (hs : Fills s s' k e func arg marker) :
    ∀ m e₁, s'.entries[m]? = some e₁ → e₁.inUse = true →
      m ∈ s'.pending ∨ s'.worker.handles m = true := by
  have hpending : s'.pending = s.pending ++ [k] :=
    hs.pending.trans (join_of_free hplaced hk hs.free)
  refine h.held_set hs.entries (fun m _ hm => ?_) (fun m _ => ?_) (fun _ => .inl ?_)
  · rw [hpending]
    exact List.mem_append_left _ hm
  · rw [hs.worker]
    exact id
  · rw [hpending]
    exact List.mem_append_right _ List.mem_cons_self

/-- A `cancel_all` leaves in use what is with the handler. -/
theorem held_cancels (h : Kept s) (hplaced : Placed s) (hk : s.entries[k]? = some e)
    (huse : e.inUse = true) (hreused : ¬ (e.queued = true ∧ e.running = true)) (next : Option Nat) :
    Kept { s.cancelEntry k e with cancelling := next } := by
  have hold := hplaced.settled k e hk
  refine ⟨h.held_set (d := { e.workCancel with inUse := e.busy }) rfl (fun m hmk hm => ?_)
    (fun m _ => id) (fun hbusy => .inr ?_), h.refused⟩
  · exact (hplaced.mem_leave hk m).mpr ⟨hm, hmk⟩
  · have hrunning : e.running = true :=
      (Bool.or_eq_true_iff.mp hbusy).elim id (fun hmark => (hold.canceling hmark).1)
    refine (h.held k e hk huse).resolve_left (fun hmem => ?_)
    exact hreused ⟨hold.queued.mpr hmem, hrunning⟩

theorem heeds_submit {func arg : Nat} (hheeds : Heeds s (.submit (some func) arg))
    (hfree : s.findFree = some k) (hk : s.entries[k]? = some e) : e.canceling = false := by
  unfold Heeds State.heeds State.submitsMarked at hheeds
  dsimp only at hheeds
  rw [hfree] at hheeds
  dsimp only at hheeds
  rw [hk] at hheeds
  simpa using hheeds

theorem heeds_cancelNext (hheeds : Heeds s .cancelNext) (hcancelling : s.cancelling = some k)
    (hk : s.entries[k]? = some e) (huse : e.inUse = true) (hmarker : e.marker = 0) :
    ¬ (e.queued = true ∧ e.running = true) := by
  rintro ⟨hqueued, hrunning⟩
  unfold Heeds State.heeds State.cancelsReused at hheeds
  dsimp only at hheeds
  rw [hcancelling] at hheeds
  dsimp only at hheeds
  rw [hk] at hheeds
  simp [huse, hmarker, hqueued, hrunning] at hheeds

theorem Kept.step (h : Kept s) (hplaced : Placed s) (hheeds : Heeds s a) (hs : Moves s a s') :
    Kept s' := by
  cases hs with
  | quiet hsame hanswers => exact h.same hsame hanswers
  | full hfree hsame hanswers =>
      constructor
      · rw [hsame.entries, hsame.pending, hsame.worker]
        exact h.held
      · rw [hanswers]
        exact refused_concat h (fun _ => full_of_findFree hfree)
  | rejects hfree hk hs =>
      have hmarked := hs.marked
      rw [heeds_submit hheeds hfree hk] at hmarked
      cases hmarked
  | accepts _ hk hs hanswers =>
      refine ⟨held_fills h hplaced hk hs, ?_⟩
      rw [hanswers]
      exact refused_concat h (fun hne => absurd rfl hne)
  | rejectsSentinel hk hs hanswers =>
      refine ⟨held_rejects h hs, ?_⟩
      rw [hanswers]
      exact h.refused
  | places hk hs hanswers =>
      refine ⟨held_fills h hplaced hk hs, ?_⟩
      rw [hanswers]
      exact h.refused
  | cancels hcancelling hk huse hmarker =>
      exact held_cancels h hplaced hk huse (heeds_cancelNext hheeds hcancelling hk huse hmarker) _
  | @dequeues k rest e hidle hpending hk =>
      refine ⟨h.held_set (d := { e with queued := false, running := true }) rfl
        (fun m hmk hm => ?_) (fun m _ hm => ?_) (fun _ => .inr (decide_eq_true rfl)), h.refused⟩
      · rw [hpending] at hm
        exact (List.mem_cons.mp hm).resolve_left hmk
      · rw [hidle] at hm
        cases hm
  | fetches htaken =>
      refine ⟨fun m e₁ hm huse => ?_, h.refused⟩
      have hold := h.held m e₁ hm huse
      rw [htaken] at hold
      exact hold
  | calls hfetched =>
      refine ⟨fun m e₁ hm huse => ?_, h.refused⟩
      have hold := h.held m e₁ hm huse
      rw [hfetched] at hold
      exact hold
  | @stores k marker e s' hcalled hk hsame hanswers =>
      have hmid : Kept ({ s with worker := .stored k }.setEntry k { e with inUse := false }) := by
        refine ⟨h.held_set (d := { e with inUse := false }) rfl (fun m _ => id)
          (fun m hmk hm => ?_) nofun, h.refused⟩
        rw [hcalled] at hm
        exact absurd (of_decide_eq_true hm).symm hmk
      exact hmid.same hsame hanswers
  | @finishes k e hstored hk =>
      refine ⟨h.held_set (d := { e with running := false, canceling := false }) rfl
        (fun m _ => id) (fun m _ hm => ?_) (fun huse => ?_), h.refused⟩
      · rw [hstored] at hm
        cases hm
      · have hold := h.held k e hk huse
        rw [hstored] at hold
        exact hold

theorem Kept.of_reachable (h : (machine depth).ReachableBy Heeds s) : Kept s := by
  refine h.invariant (I := Kept) ?_ (fun s a s' hr hi hheeds hs => ?_)
  · refine ⟨fun k e hk huse => ?_, fun x hx => (nomatch hx)⟩
    obtain ⟨-, rfl⟩ := List.mem_replicate.mp (List.mem_of_getElem? hk)
    cases huse
  · exact hi.step (.of_reachable hr.reachable) hheeds (moves_of_step hs)

/-! ### The steps that go wrong -/

/-- `submit` fails on an entry that is marked, and is free. -/
theorem not_accounted_of_submitsMarked {func arg : Nat} (hmarked : s.submitsMarked = true)
    (hs : s.step (.submit (some func) arg) = some s') : ¬ Accounted depth s' := by
  unfold State.submitsMarked at hmarked
  cases hfree : s.findFree with
  | none =>
      rw [hfree] at hmarked
      cases hmarked
  | some k =>
      obtain ⟨e, hk⟩ := entry_of_findFree hfree
      rw [hfree] at hmarked
      dsimp only at hmarked
      rw [hk] at hmarked
      have hmark : e.canceling = true := hmarked
      obtain rfl := Option.some.inj (whenUnlocked_eq hs)
      have hcode : (s.submit func arg).1 = .unknown := by
        unfold State.submit
        rw [hfree]
        dsimp only
        rw [hk]
        simp only [State.enqueue, hmark, if_true]
      intro h
      have hne : (s.submit func arg).1 ≠ .ok := by
        rw [hcode]
        exact fun h => by cases h
      have hfull := h.refused ⟨(s.submit func arg).1, s.full⟩
        (List.mem_append_right _ List.mem_cons_self) hne
      have hnot := not_full_of_findFree hfree
      rw [show s.full = true from hfull] at hnot
      cases hnot

/-- `cancel_all` leaves an entry in use that was used again while it is running. -/
theorem not_accounted_of_cancelsReused (hplaced : Placed s) (hreused : s.cancelsReused = true)
    (hs : s.step .cancelNext = some s') : ¬ Accounted depth s' := by
  unfold State.cancelsReused at hreused
  cases hcancelling : s.cancelling with
  | none =>
      rw [hcancelling] at hreused
      cases hreused
  | some k =>
      rw [hcancelling] at hreused
      dsimp only at hreused
      obtain ⟨e, hk, he⟩ := (Option.any_eq_true _ _).mp hreused
      simp only [Bool.and_eq_true, decide_eq_true_eq] at he
      obtain ⟨⟨⟨huse, hmarker⟩, hqueued⟩, hrunning⟩ := he
      have hstep : s.step .cancelNext =
          some { s.cancelEntry k e with cancelling := some (k + 1) } := by
        change s.cancelNext = _
        unfold State.cancelNext
        rw [hcancelling]
        dsimp only
        rw [hk]
        simp [huse, hmarker]
      obtain rfl := Option.some.inj (hstep.symm.trans hs)
      have hlt : k < s.entries.length := (List.getElem?_eq_some_iff.mp hk).1
      have hbusy : e.busy = true := Bool.or_eq_true_iff.mpr (.inl hrunning)
      intro h
      rcases (h.used k { e.workCancel with inUse := e.busy } (List.getElem?_set_self hlt)).mp hbusy
        with hmem | hhandles
      · exact ((hplaced.mem_leave hk k).mp hmem).2 rfl
      · have hold := hplaced.settled k e hk
        exact hold.apart hhandles (hold.queued.mp hqueued)

theorem length_of_reachable (h : (machine depth).Reachable s) : s.entries.length = depth := by
  refine h.invariant (I := fun s => s.entries.length = depth) List.length_replicate
    (fun s a s' _ hi hs => ?_)
  cases moves_of_step hs with
  | quiet hsame | full _ hsame => exact (congrArg _ hsame.entries).trans hi
  | rejects _ _ hs | rejectsSentinel _ hs =>
      obtain ⟨_, _, _, hentries⟩ := hs.entries
      exact (congrArg _ hentries).trans ((List.length_set).trans hi)
  | accepts _ _ hs | places _ hs =>
      exact (congrArg _ hs.entries).trans ((List.length_set).trans hi)
  | cancels | dequeues | finishes => exact (List.length_set).trans hi
  | fetches | calls => exact hi
  | stores _ _ hsame => exact (congrArg _ hsame.entries).trans ((List.length_set).trans hi)

/-! ### The contract -/

/-- The entries are accounted for as long as no `submit` comes to an entry that is marked and no
`cancel_all` to one that was used again while it is running; and it is these steps, and no
others, that break it. -/
theorem zephyrWq_accounted (h : (machine depth).ReachableBy Heeds s) :
    s.entries.length = depth ∧ Accounted depth s ∧
      ∀ (a : Action) (s' : State), s.step a = some s' → (Accounted depth s' ↔ Heeds s a) := by
  have hsound : Sound s := .of_reachable h.reachable
  refine ⟨length_of_reachable h.reachable, accounted (.of_reachable h) hsound,
    fun a s' hs => ⟨fun hacc => ?_, fun hheeds => ?_⟩⟩
  · by_contra hnot
    cases a with
    | submit func arg =>
        cases func with
        | none => exact hnot rfl
        | some func =>
            refine not_accounted_of_submitsMarked ?_ hs hacc
            simpa [Heeds, State.heeds] using hnot
    | cancelNext =>
        refine not_accounted_of_cancelsReused hsound.placed ?_ hs hacc
        simpa [Heeds, State.heeds] using hnot
    | flush | place | check | take | expire | cancelAll | work => exact hnot rfl
  · exact accounted (.of_reachable (.step h hheeds hs)) (hsound.step hs)

/-- Work 0 runs; its entry is used again for work 1 before the kernel clears the flags, and work
1 runs. Work 2 is removed. -/
def reused : List Action :=
  [.submit (some 7) 0, .work, .work, .work, .work, .submit (some 8) 1, .work, .work, .work,
    .submit (some 9) 2, .work, .work, .work, .cancelAll, .cancelNext, .cancelNext, .cancelNext]

theorem zephyrWq_accounted_reused : ∃ s, (machine 2).ReachableBy Heeds s ∧ Accounted 2 s ∧
    s.calls = [⟨0, 7, 0⟩, ⟨1, 8, 1⟩] ∧ s.removed = [2] ∧
    s.entries.map Entry.inUse = [false, false] := by
  have hrun : ((machine 2).run (machine 2).init reused).map
      (fun s => (s.calls, s.removed, s.entries.map Entry.inUse)) =
      some ([⟨0, 7, 0⟩, ⟨1, 8, 1⟩], [2], [false, false]) := by decide +kernel
  obtain ⟨s, hs, hfields⟩ := Option.map_eq_some_iff.mp hrun
  have hreach : (machine 2).ReachableBy Heeds s := .of_run .init (by decide +kernel) hs
  exact ⟨s, hreach, (zephyrWq_accounted hreach).2.1, congrArg Prod.fst hfields,
    congrArg (fun p => p.2.1) hfields, congrArg (fun p => p.2.2) hfields⟩

/-- The entry of work 0 is used again for work 1 before the kernel clears the flags, and then
`cancel_all` is called. The kernel clears the flags. -/
def lost : List Action :=
  [.submit (some 7) 0, .work, .work, .work, .work, .submit (some 8) 1, .cancelAll, .cancelNext,
    .cancelNext, .work]

/-- `cancel_all` is called while work 0 runs; the handler gives the entry back, and work 1 is
submitted before the kernel clears the flags. -/
def marked : List Action :=
  [.submit (some 7) 0, .work, .work, .work, .cancelAll, .cancelNext, .cancelNext, .work,
    .submit (some 8) 1]

/-- One entry: it is in use, and its work is neither in the list nor with the worker. And a
submission is refused while the entry is free. -/
theorem zephyrWq_lost :
    (∃ s, (machine 1).Reachable s ∧ s.entries.map Entry.inUse = [true] ∧ s.pending = [] ∧
      s.worker = .idle ∧ ¬ Accounted 1 s) ∧
    ∃ s, (machine 1).Reachable s ∧ s.answers = [⟨.ok, false⟩, ⟨.unknown, false⟩] ∧
      ¬ Accounted 1 s := by
  have hlost : ((machine 1).run (machine 1).init lost).map
      (fun s => (s.entries.map Entry.inUse, s.pending, s.worker)) =
      some ([true], [], .idle) := by decide +kernel
  have hrefused : ((machine 1).run (machine 1).init marked).map State.answers =
      some [⟨.ok, false⟩, ⟨.unknown, false⟩] := by decide +kernel
  constructor
  · obtain ⟨s, hs, hfields⟩ := Option.map_eq_some_iff.mp hlost
    have hentries : s.entries.map Entry.inUse = [true] := congrArg Prod.fst hfields
    have hpending : s.pending = [] := congrArg (fun p => p.2.1) hfields
    have hworker : s.worker = .idle := congrArg (fun p => p.2.2) hfields
    refine ⟨s, .of_run hs, hentries, hpending, hworker, fun h => ?_⟩
    obtain ⟨e, hk, huse⟩ : ∃ e, s.entries[0]? = some e ∧ e.inUse = true := by
      have hget : (s.entries.map Entry.inUse)[0]? = some true := by
        rw [hentries]
        rfl
      rw [List.getElem?_map] at hget
      exact Option.map_eq_some_iff.mp hget
    have hwhere := (h.used 0 e hk).mp huse
    rw [hpending, hworker] at hwhere
    rcases hwhere with hmem | hhandles
    · cases hmem
    · cases hhandles
  · obtain ⟨s, hs, hanswers⟩ := Option.map_eq_some_iff.mp hrefused
    refine ⟨s, .of_run hs, hanswers, fun h => ?_⟩
    have hfull := h.refused ⟨.unknown, false⟩ (by simp [hanswers]) nofun
    cases hfull

end MicrOsal.ZephyrWq
