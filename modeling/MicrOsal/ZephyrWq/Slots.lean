import MicrOsal.ZephyrWq.Model

/-!
# MicrOsal.ZephyrWq.Slots

What a step does (`Moves`), and that the flags of the kernel say where an entry is (`Placed`): an
entry that is in the list or with the handler is in use, and only an entry that is running is
marked by `cancel_all`.
-/

namespace MicrOsal.ZephyrWq

variable {s s' : State} {a : Action} {k m depth : Nat} {e d : Entry} {worker : Worker}

/-! ### What a step does -/

/-- Entries, list and worker, and the records of the submissions, are the same. -/
structure Same (s s' : State) : Prop where
  entries : s'.entries = s.entries
  pending : s'.pending = s.pending
  worker : s'.worker = s.worker
  jobs : s'.jobs = s.jobs
  calls : s'.calls = s.calls
  removed : s'.removed = s.removed

/-- An entry that is not in use is filled, for a submission or a sentinel. -/
structure Fills (s s' : State) (k : Nat) (e : Entry) (func : Option Nat) (arg marker : Nat) :
    Prop where
  free : e.inUse = false
  unmarked : e.canceling = false
  entries : s'.entries = s.entries.set k (e.fill func arg marker s.jobs.length).workSubmit
  pending : s'.pending = s.join k e
  worker : s'.worker = s.worker
  jobs : s'.jobs = s.jobs ++ (func.map (fun f => (f, arg))).toList
  calls : s'.calls = s.calls
  removed : s'.removed = s.removed

/-- An entry that is marked is filled, and given back. -/
structure Rejects (s s' : State) (k : Nat) (e : Entry) : Prop where
  free : e.inUse = false
  marked : e.canceling = true
  entries : ∃ func arg marker, s'.entries = s.entries.set k
    { e.fill func arg marker s.jobs.length with inUse := false }
  pending : s'.pending = s.pending
  worker : s'.worker = s.worker
  jobs : s'.jobs = s.jobs
  calls : s'.calls = s.calls
  removed : s'.removed = s.removed

/-- What a step does to the entries, the list, the worker and the records. -/
inductive Moves (s : State) : Action → State → Prop
  | quiet {a : Action} {s' : State} (hsame : Same s s') (hanswers : s'.answers = s.answers) :
      Moves s a s'
  | full {func arg : Nat} {s' : State} (hfree : s.findFree = none) (hsame : Same s s')
      (hanswers : s'.answers = s.answers ++ [⟨.overflow, s.full⟩]) :
      Moves s (.submit (some func) arg) s'
  | rejects {func arg k : Nat} {e : Entry} {s' : State} (hfree : s.findFree = some k)
      (hk : s.entries[k]? = some e) (hs : Rejects s s' k e)
      (hanswers : s'.answers = s.answers ++ [⟨.unknown, s.full⟩]) :
      Moves s (.submit (some func) arg) s'
  | accepts {func arg k : Nat} {e : Entry} {s' : State} (hfree : s.findFree = some k)
      (hk : s.entries[k]? = some e) (hs : Fills s s' k e (some func) arg 0)
      (hanswers : s'.answers = s.answers ++ [⟨.ok, s.full⟩]) :
      Moves s (.submit (some func) arg) s'
  | rejectsSentinel {k : Nat} {e : Entry} {s' : State} (hk : s.entries[k]? = some e)
      (hs : Rejects s s' k e) (hanswers : s'.answers = s.answers) : Moves s .place s'
  | places {k : Nat} {e : Entry} {s' : State} (hk : s.entries[k]? = some e)
      (hs : Fills s s' k e none 0 s.marker) (hanswers : s'.answers = s.answers) : Moves s .place s'
  | cancels {k : Nat} {e : Entry} (hcancelling : s.cancelling = some k)
      (hk : s.entries[k]? = some e) (huse : e.inUse = true) (hmarker : e.marker = 0) :
      Moves s .cancelNext { s.cancelEntry k e with cancelling := some (k + 1) }
  | dequeues {k : Nat} {rest : List Nat} {e : Entry} (hidle : s.worker = .idle)
      (hpending : s.pending = k :: rest) (hk : s.entries[k]? = some e) :
      Moves s .work ({ s with pending := rest, worker := .taken k }.setEntry k
        { e with queued := false, running := true })
  | fetches {k : Nat} {e : Entry} (htaken : s.worker = .taken k)
      (hk : s.entries[k]? = some e) :
      Moves s .work { s with worker := .fetched k e.func e.arg e.marker e.job }
  | calls {k arg marker job : Nat} {func : Option Nat}
      (hfetched : s.worker = .fetched k func arg marker job) :
      Moves s .work (s.call k func arg marker job)
  | stores {k marker : Nat} {e : Entry} {s' : State} (hcalled : s.worker = .called k marker)
      (hk : s.entries[k]? = some e)
      (hs : Same ({ s with worker := .stored k }.setEntry k { e with inUse := false }) s')
      (hanswers : s'.answers = s.answers) : Moves s .work s'
  | finishes {k : Nat} {e : Entry} (hstored : s.worker = .stored k)
      (hk : s.entries[k]? = some e) :
      Moves s .work ({ s with worker := .idle }.setEntry k
        { e with running := false, canceling := false })

theorem Same.refl (s : State) : Same s s := ⟨rfl, rfl, rfl, rfl, rfl, rfl⟩

/-- The entry that `submit` and `flush` find is not in use. -/
theorem free_of_findFree (hfree : s.findFree = some k) (hk : s.entries[k]? = some e) :
    e.inUse = false := by
  obtain ⟨hlt, hnot, -⟩ := List.findIdx?_eq_some_iff_getElem.mp hfree
  rw [(List.getElem?_eq_some_iff.mp hk).2] at hnot
  simpa using hnot

theorem entry_of_findFree (hfree : s.findFree = some k) : ∃ e, s.entries[k]? = some e := by
  obtain ⟨hlt, -⟩ := List.findIdx?_eq_some_iff_getElem.mp hfree
  exact ⟨_, List.getElem?_eq_getElem hlt⟩

theorem full_of_findFree (hfree : s.findFree = none) : s.full = true := by
  refine List.all_eq_true.mpr (fun e he => ?_)
  simpa using List.findIdx?_eq_none_iff.mp hfree e he

theorem not_full_of_findFree (hfree : s.findFree = some k) : s.full = false := by
  obtain ⟨e, hk⟩ := entry_of_findFree hfree
  refine Bool.eq_false_iff.mpr (fun hfull => ?_)
  have huse := List.all_eq_true.mp hfull e (List.mem_of_getElem? hk)
  rw [free_of_findFree hfree hk] at huse
  cases huse

theorem whenUnlocked_eq {next : Option State} (hs : s.whenUnlocked next = some s') :
    next = some s' := by
  unfold State.whenUnlocked at hs
  split at hs
  · exact hs
  · cases hs

theorem moves_of_submit {func arg : Nat} :
    Moves s (.submit (some func) arg) { (s.submit func arg).2 with
      answers := s.answers ++ [⟨(s.submit func arg).1, s.full⟩] } := by
  unfold State.submit
  cases hfree : s.findFree with
  | none => exact .full hfree ⟨rfl, rfl, rfl, rfl, rfl, rfl⟩ rfl
  | some k =>
      obtain ⟨e, hk⟩ := entry_of_findFree hfree
      have huse := free_of_findFree hfree hk
      dsimp only
      rw [hk]
      cases hmark : e.canceling with
      | true =>
          simp only [State.enqueue, hmark, if_true]
          exact .rejects hfree hk
            ⟨huse, hmark, ⟨_, _, _, rfl⟩, rfl, rfl, rfl, rfl, rfl⟩ rfl
      | false =>
          simp only [State.enqueue, hmark, if_neg Bool.false_ne_true]
          exact .accepts hfree hk ⟨huse, hmark, rfl, rfl, rfl, rfl, rfl, rfl⟩ rfl

theorem moves_of_place : Moves s .place s.place := by
  unfold State.place
  cases hfree : s.findFree with
  | none => exact .quiet ⟨rfl, rfl, rfl, rfl, rfl, rfl⟩ rfl
  | some k =>
      obtain ⟨e, hk⟩ := entry_of_findFree hfree
      have huse := free_of_findFree hfree hk
      dsimp only
      rw [hk]
      cases hmark : e.canceling with
      | true =>
          simp only [State.enqueue, hmark, if_true]
          exact .rejectsSentinel hk ⟨huse, hmark, ⟨_, _, _, rfl⟩, rfl, rfl, rfl, rfl, rfl⟩ rfl
      | false =>
          simp only [State.enqueue, hmark, if_neg Bool.false_ne_true]
          split
          · exact .places hk ⟨huse, hmark, rfl, rfl, rfl, (List.append_nil _).symm, rfl, rfl⟩ rfl
          · exact .places hk ⟨huse, hmark, rfl, rfl, rfl, (List.append_nil _).symm, rfl, rfl⟩ rfl

theorem moves_of_cancelNext (hs : s.cancelNext = some s') : Moves s .cancelNext s' := by
  unfold State.cancelNext at hs
  split at hs
  case h_1 => cases hs
  case h_2 k hcancelling =>
    split at hs
    case h_1 =>
      obtain rfl := Option.some.inj hs
      exact .quiet ⟨rfl, rfl, rfl, rfl, rfl, rfl⟩ rfl
    case h_2 e hk =>
      split at hs
      case isTrue hboth =>
        obtain rfl := Option.some.inj hs
        obtain ⟨huse, hmarker⟩ := Bool.and_eq_true_iff.mp hboth
        exact .cancels hcancelling hk huse (of_decide_eq_true hmarker)
      case isFalse =>
        obtain rfl := Option.some.inj hs
        exact .quiet ⟨rfl, rfl, rfl, rfl, rfl, rfl⟩ rfl

theorem moves_of_work (hs : s.work = some s') : Moves s .work s' := by
  unfold State.work at hs
  split at hs
  case h_1 hidle =>
    unfold State.dequeue at hs
    split at hs
    case h_1 => cases hs
    case h_2 k rest hpending =>
      obtain ⟨e, hk, rfl⟩ := Option.map_eq_some_iff.mp hs
      exact .dequeues hidle hpending hk
  case h_2 k htaken =>
    obtain ⟨e, hk, rfl⟩ := Option.map_eq_some_iff.mp (whenUnlocked_eq hs)
    exact .fetches htaken hk
  case h_3 k func arg marker job hfetched =>
    obtain rfl := Option.some.inj hs
    exact .calls hfetched
  case h_4 k marker hcalled =>
    obtain ⟨e, hk, rfl⟩ := Option.map_eq_some_iff.mp (whenUnlocked_eq hs)
    exact .stores hcalled hk ⟨rfl, rfl, rfl, rfl, rfl, rfl⟩ rfl
  case h_5 k hstored =>
    obtain ⟨e, hk, rfl⟩ := Option.map_eq_some_iff.mp hs
    exact .finishes hstored hk

theorem moves_of_step (hs : s.step a = some s') : Moves s a s' := by
  cases a with
  | submit func arg =>
      cases func with
      | none =>
          obtain rfl := Option.some.inj hs
          exact .quiet (.refl _) rfl
      | some func =>
          obtain rfl := Option.some.inj (whenUnlocked_eq hs)
          exact moves_of_submit
  | flush =>
      dsimp only [State.step] at hs
      split at hs
      · obtain rfl := Option.some.inj hs
        exact .quiet ⟨rfl, rfl, rfl, rfl, rfl, rfl⟩ rfl
      · cases hs
  | place =>
      dsimp only [State.step] at hs
      split at hs
      · obtain rfl := Option.some.inj (whenUnlocked_eq hs)
        exact moves_of_place
      · cases hs
  | check =>
      have hs := whenUnlocked_eq hs
      unfold State.check at hs
      split at hs
      · split at hs
        · obtain rfl := Option.some.inj hs
          exact .quiet ⟨rfl, rfl, rfl, rfl, rfl, rfl⟩ rfl
        · obtain rfl := Option.some.inj hs
          exact .quiet ⟨rfl, rfl, rfl, rfl, rfl, rfl⟩ rfl
      · cases hs
  | take =>
      dsimp only [State.step] at hs
      unfold State.take at hs
      split at hs
      · split at hs
        · obtain rfl := Option.some.inj hs
          exact .quiet ⟨rfl, rfl, rfl, rfl, rfl, rfl⟩ rfl
        · cases hs
      · cases hs
  | expire =>
      dsimp only [State.step] at hs
      unfold State.expire at hs
      split at hs
      · split at hs
        · cases hs
        · obtain rfl := Option.some.inj hs
          exact .quiet ⟨rfl, rfl, rfl, rfl, rfl, rfl⟩ rfl
      · cases hs
  | cancelAll =>
      obtain rfl := Option.some.inj (whenUnlocked_eq hs)
      exact .quiet ⟨rfl, rfl, rfl, rfl, rfl, rfl⟩ rfl
  | cancelNext => exact moves_of_cancelNext hs
  | work => exact moves_of_work hs

/-! ### Where an entry is -/

/-- The flags of entry `k` say whether it is in the list, and what the worker does with it. -/
structure Settled (s : State) (k : Nat) (e : Entry) : Prop where
  queued : e.queued = true ↔ k ∈ s.pending
  running : e.running = true ↔ s.worker.entry = some k
  canceling : e.canceling = true → e.running = true ∧ e.queued = false
  used : k ∈ s.pending ∨ s.worker.handles k = true → e.inUse = true
  apart : s.worker.handles k = true → k ∉ s.pending

structure Placed (s : State) : Prop where
  nodup : s.pending.Nodup
  inside : ∀ k, k ∈ s.pending ∨ s.worker.entry = some k → k < s.entries.length
  settled : ∀ k e, s.entries[k]? = some e → Settled s k e

theorem entry_of_handles (h : worker.handles k = true) : worker.entry = some k := by
  cases worker with
  | idle | stored => cases h
  | taken m | fetched m | called m => exact congrArg some (of_decide_eq_true h)

theorem Placed.same (h : Placed s) (hs : Same s s') : Placed s' := by
  refine ⟨hs.pending ▸ h.nodup, fun k hk => ?_, fun k e hk => ?_⟩
  · rw [hs.pending, hs.worker] at hk
    rw [hs.entries]
    exact h.inside k hk
  · rw [hs.entries] at hk
    have hold := h.settled k e hk
    constructor
    · rw [hs.pending]
      exact hold.queued
    · rw [hs.worker]
      exact hold.running
    · exact hold.canceling
    · rw [hs.pending, hs.worker]
      exact hold.used
    · rw [hs.pending, hs.worker]
      exact hold.apart

/-- A step that concerns entry `k` only. -/
theorem Placed.set (h : Placed s) (hk : s.entries[k]? = some e)
    (hentries : s'.entries = s.entries.set k d) (hnodup : s'.pending.Nodup)
    (hpending : ∀ m, m ≠ k → (m ∈ s'.pending ↔ m ∈ s.pending))
    (hentry : ∀ m, m ≠ k → (s'.worker.entry = some m ↔ s.worker.entry = some m))
    (hhandles : ∀ m, m ≠ k → s'.worker.handles m = s.worker.handles m)
    (hnew : Settled s' k d) : Placed s' := by
  have hlt : k < s.entries.length := (List.getElem?_eq_some_iff.mp hk).1
  refine ⟨hnodup, fun m hm => ?_, fun m e₁ hm => ?_⟩
  · rw [hentries, List.length_set]
    by_cases hmk : m = k
    · exact hmk ▸ hlt
    · rw [hpending m hmk, hentry m hmk] at hm
      exact h.inside m hm
  · rw [hentries] at hm
    rcases getElem?_set_cases hm with ⟨rfl, rfl⟩ | ⟨hmk, hm⟩
    · exact hnew
    · have hold := h.settled m e₁ hm
      constructor
      · rw [hpending m hmk]
        exact hold.queued
      · rw [hentry m hmk]
        exact hold.running
      · exact hold.canceling
      · rw [hpending m hmk, hhandles m hmk]
        exact hold.used
      · rw [hpending m hmk, hhandles m hmk]
        exact hold.apart

/-- A free entry is not in the list, nor with the handler. -/
theorem Placed.free (h : Placed s) (hk : s.entries[k]? = some e) (huse : e.inUse = false) :
    k ∉ s.pending ∧ s.worker.handles k = false := by
  have hold := h.settled k e hk
  constructor
  · intro hmem
    rw [hold.used (.inl hmem)] at huse
    cases huse
  · refine Bool.eq_false_iff.mpr (fun hhandles => ?_)
    rw [hold.used (.inr hhandles)] at huse
    cases huse

theorem join_of_free (h : Placed s) (hk : s.entries[k]? = some e) (huse : e.inUse = false) :
    s.join k e = s.pending ++ [k] := by
  refine if_neg (fun hqueued => ?_)
  exact (h.free hk huse).1 ((h.settled k e hk).queued.mp hqueued)

theorem Placed.fills {func : Option Nat} {arg marker : Nat} (h : Placed s)
    (hk : s.entries[k]? = some e) (hs : Fills s s' k e func arg marker) : Placed s' := by
  have hold := h.settled k e hk
  obtain ⟨hnot, hhandles⟩ := h.free hk hs.free
  have hpending : s'.pending = s.pending ++ [k] := hs.pending.trans (join_of_free h hk hs.free)
  refine h.set hk hs.entries ?_ (fun m hm => ?_) (fun m _ => ?_) (fun m _ => ?_) ?_
  · rw [hpending]
    exact List.nodup_append.mpr ⟨h.nodup, List.nodup_singleton k, fun m hm l hl hml => by
      obtain rfl := List.mem_singleton.mp hl
      exact hnot (hml ▸ hm)⟩
  · rw [hpending, List.mem_append, List.mem_singleton]
    exact or_iff_left hm
  · rw [hs.worker]
  · rw [hs.worker]
  · constructor
    · rw [hpending]
      simp [Entry.workSubmit]
    · rw [hs.worker]
      exact hold.running
    · intro hmark
      have hmark : e.canceling = true := hmark
      rw [hs.unmarked] at hmark
      cases hmark
    · exact fun _ => rfl
    · intro hhandles'
      rw [hs.worker, hhandles] at hhandles'
      cases hhandles'

theorem Placed.rejects (h : Placed s) (hk : s.entries[k]? = some e) (hs : Rejects s s' k e) :
    Placed s' := by
  have hold := h.settled k e hk
  obtain ⟨hnot, hhandles⟩ := h.free hk hs.free
  obtain ⟨func, arg, marker, hentries⟩ := hs.entries
  refine h.set hk hentries (hs.pending ▸ h.nodup) (fun m _ => ?_) (fun m _ => ?_) (fun m _ => ?_)
    ?_
  · rw [hs.pending]
  · rw [hs.worker]
  · rw [hs.worker]
  · constructor
    · rw [hs.pending]
      exact hold.queued
    · rw [hs.worker]
      exact hold.running
    · exact hold.canceling
    · rw [hs.pending, hs.worker, hhandles]
      rintro (hmem | hfalse)
      · exact absurd hmem hnot
      · cases hfalse
    · rw [hs.pending]
      exact fun _ => hnot

/-- What leaves the list is not in it any more. -/
theorem Placed.mem_leave (h : Placed s) (hk : s.entries[k]? = some e) (m : Nat) :
    m ∈ s.leave k e ↔ m ∈ s.pending ∧ m ≠ k := by
  unfold State.leave
  have hold := h.settled k e hk
  split
  case isTrue =>
    rw [h.nodup.mem_erase_iff]
    exact and_comm
  case isFalse hqueued =>
    refine ⟨fun hm => ⟨hm, fun hmk => ?_⟩, And.left⟩
    exact hqueued (hold.queued.mpr (hmk ▸ hm))

theorem Placed.cancels (h : Placed s) (hk : s.entries[k]? = some e) (next : Option Nat) :
    Placed { s.cancelEntry k e with cancelling := next } := by
  have hold := h.settled k e hk
  have hnot : k ∉ s.leave k e := fun hmem => ((h.mem_leave hk k).mp hmem).2 rfl
  refine h.set (d := { e.workCancel with inUse := e.busy }) hk rfl ?_ (fun m hm => ?_)
    (fun m _ => Iff.rfl) (fun m _ => rfl) ?_
  · change (s.leave k e).Nodup
    unfold State.leave
    split
    · exact h.nodup.erase k
    · exact h.nodup
  · exact (h.mem_leave hk m).trans (and_iff_left hm)
  · constructor
    · exact ⟨nofun, fun hmem => absurd hmem hnot⟩
    · exact hold.running
    · intro hmark
      refine ⟨?_, rfl⟩
      rcases Bool.or_eq_true_iff.mp hmark with hrunning | hcanceling
      · exact hrunning
      · exact (hold.canceling hcanceling).1
    · rintro (hmem | hhandles)
      · exact absurd hmem hnot
      · exact Bool.or_eq_true_iff.mpr (.inl (hold.running.mpr (entry_of_handles hhandles)))
    · exact fun _ => hnot

theorem Placed.dequeues {rest : List Nat} (h : Placed s) (hidle : s.worker = .idle)
    (hpending : s.pending = k :: rest) (hk : s.entries[k]? = some e) :
    Placed ({ s with pending := rest, worker := .taken k }.setEntry k
      { e with queued := false, running := true }) := by
  have hold := h.settled k e hk
  have hnodup := h.nodup
  rw [hpending, List.nodup_cons] at hnodup
  have hmem : k ∈ s.pending := hpending ▸ List.mem_cons_self
  refine h.set (d := { e with queued := false, running := true }) hk rfl hnodup.2
    (fun m hm => ?_) (fun m hm => ?_) (fun m hm => ?_) ?_
  · rw [hpending, List.mem_cons]
    exact (or_iff_right hm).symm
  · rw [hidle]
    exact ⟨fun heq => absurd (Option.some.inj heq).symm hm, nofun⟩
  · rw [hidle]
    exact decide_eq_false (Ne.symm hm)
  · constructor
    · exact ⟨nofun, fun hk' => absurd hk' hnodup.1⟩
    · exact ⟨fun _ => rfl, fun _ => rfl⟩
    · intro hmark
      obtain ⟨-, hqueued⟩ := hold.canceling hmark
      rw [hold.queued.mpr hmem] at hqueued
      cases hqueued
    · exact fun _ => hold.used (.inl hmem)
    · exact fun _ => hnodup.1

/-- The worker goes on with the entry that it has. -/
theorem Placed.goes (h : Placed s) (hs : s'.entries = s.entries) (hpending : s'.pending = s.pending)
    (hentry : s'.worker.entry = s.worker.entry)
    (hhandles : ∀ m, s'.worker.handles m = s.worker.handles m) : Placed s' := by
  refine ⟨hpending ▸ h.nodup, fun m hm => ?_, fun m e hm => ?_⟩
  · rw [hpending, hentry] at hm
    rw [hs]
    exact h.inside m hm
  · rw [hs] at hm
    have hold := h.settled m e hm
    constructor
    · rw [hpending]
      exact hold.queued
    · rw [hentry]
      exact hold.running
    · exact hold.canceling
    · rw [hpending, hhandles]
      exact hold.used
    · rw [hpending, hhandles]
      exact hold.apart

theorem Placed.stores {marker : Nat} (h : Placed s) (hcalled : s.worker = .called k marker)
    (hk : s.entries[k]? = some e) :
    Placed ({ s with worker := .stored k }.setEntry k { e with inUse := false }) := by
  have hold := h.settled k e hk
  have hhandles : s.worker.handles k = true := by
    rw [hcalled]
    exact decide_eq_true rfl
  refine h.set (d := { e with inUse := false }) hk rfl h.nodup (fun m _ => Iff.rfl)
    (fun m _ => ?_) (fun m hm => ?_) ?_
  · rw [hcalled]
    exact Iff.rfl
  · rw [hcalled]
    exact (decide_eq_false (Ne.symm hm)).symm
  · constructor
    · exact hold.queued
    · have hrunning := hold.running
      rw [hcalled] at hrunning
      exact hrunning
    · exact hold.canceling
    · rintro (hmem | hfalse)
      · exact absurd hmem (hold.apart hhandles)
      · cases hfalse
    · exact nofun

theorem Placed.finishes (h : Placed s) (hstored : s.worker = .stored k)
    (hk : s.entries[k]? = some e) :
    Placed ({ s with worker := .idle }.setEntry k
      { e with running := false, canceling := false }) := by
  have hold := h.settled k e hk
  refine h.set (d := { e with running := false, canceling := false }) hk rfl h.nodup
    (fun m _ => Iff.rfl) (fun m hm => ?_) (fun m _ => ?_) ?_
  · rw [hstored]
    exact ⟨nofun, fun heq => absurd (Option.some.inj heq).symm hm⟩
  · rw [hstored]
    rfl
  · constructor
    · exact hold.queued
    · exact ⟨nofun, nofun⟩
    · exact nofun
    · rintro (hmem | hfalse)
      · exact hold.used (.inl hmem)
      · cases hfalse
    · exact nofun

theorem Placed.step (h : Placed s) (hs : Moves s a s') : Placed s' := by
  cases hs with
  | quiet hsame | full _ hsame => exact h.same hsame
  | rejects _ hk hs | rejectsSentinel hk hs => exact h.rejects hk hs
  | accepts _ hk hs | places hk hs => exact h.fills hk hs
  | cancels _ hk => exact h.cancels hk _
  | dequeues hidle hpending hk => exact h.dequeues hidle hpending hk
  | fetches htaken hk =>
      refine h.goes rfl rfl ?_ (fun m => ?_) <;> rw [htaken] <;> rfl
  | calls hfetched =>
      refine h.goes rfl rfl ?_ (fun m => ?_) <;> rw [hfetched] <;> rfl
  | stores hcalled hk hsame => exact (h.stores hcalled hk).same hsame
  | finishes hstored hk => exact h.finishes hstored hk

theorem Placed.init (depth : Nat) : Placed (machine depth).init := by
  refine ⟨.nil, fun k hk => ?_, fun k e hk => ?_⟩
  · rcases hk with hk | hk <;> cases hk
  · obtain ⟨-, rfl⟩ := List.mem_replicate.mp (List.mem_of_getElem? hk)
    refine ⟨⟨nofun, nofun⟩, ⟨nofun, nofun⟩, nofun, ?_, nofun⟩
    rintro (hmem | hfalse)
    · cases hmem
    · cases hfalse

theorem Placed.of_reachable (h : (machine depth).Reachable s) : Placed s :=
  h.invariant (I := Placed) (.init depth) (fun _ _ _ _ hi hs => hi.step (moves_of_step hs))

end MicrOsal.ZephyrWq
