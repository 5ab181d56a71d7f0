import MicrOsal.Stop.Phases

/-!
# MicrOsal.Stop.Invariant

What holds between any two steps of a stop source: the registration list (`Listed`), the
phases of the callbacks, the `request_stop` that was the first (`Requests`), and what the
record says of closed callbacks (`Closings`).

There is one lemma per operation. A locked region is put together from several of them;
between taking a callback back and handing out the next, the first `request_stop` holds a
credit.
-/

namespace MicrOsal.Stop

/-! ### Definitions -/

/-- `l` is the registration list. -/
structure Listed (maxCallbacks : Nat) (s : State) (l : List Nat) : Prop where
  chain : Chain s.next s.source.head l
  nodup : l.Nodup
  count : s.source.count = l.length
  bound : l.length ≤ maxCallbacks

/-- A `request_stop` that was the first, and is at work on a callback. -/
def Frame.works : Frame → Bool
  | .invoke .request _ => true
  | .running .request _ => true
  | .relock _ => true
  | .unfinished _ _ => true
  | _ => false

/-- `request_stop` has returned, and was the first. -/
def Event.first : Event → Bool
  | .requested _ first => first
  | _ => false

namespace State

/-- The calls of `request_stop` that are at work on a callback. -/
def working (s : State) : Nat := tally (fun th => th.stack.countP Frame.works) s.threads

/-- The calls of `request_stop` that have returned with `first_request`. -/
def firsts (s : State) : Nat := s.log.countP Event.first

end State

/-- There is one first `request_stop`. `credit` counts the one that is between two
callbacks. -/
structure Requests (s : State) (l : List Nat) (credit : Nat) : Prop where
  first : s.working + s.firsts + credit ≤ if s.source.stopped then 1 else 0
  started : s.source.stopped = false → .stopping ∉ s.log
  done : .requested .ok true ∈ s.log → l = []

/-- The callback has given up its source. -/
def State.Detached (s : State) (c : Nat) : Prop :=
  ∃ flags, s.flags c = some flags ∧ flags.source = false ∧ flags.constructed = true

/-- The first event does not come before the second: the callback is closed. -/
def Event.precludes (e e' : Event) : Prop := ∃ c, e = .closed c .ok ∧ e' = .called c

/-- What the record says of callbacks that are closed, and of those constructed late. -/
structure Closings (s : State) : Prop where
  closed : ∀ c, .closed c .ok ∈ s.log → s.Detached c
  order : s.log.Pairwise (fun e e' => ¬ e.precludes e')
  late : s.log.Pairwise (fun e e' => e = .stopping → ∀ c, e' = .constructed c .ok true →
    0 < s.events c .called)

def State.Constructed (s : State) (c : Nat) : Prop :=
  ∃ flags, s.flags c = some flags ∧ flags.constructed = true

/-- What a call relies on. -/
inductive Duty
  /-- The constructor of the callback has returned. -/
  | constructed (c : Nat)
  /-- The callback has been taken off the list. -/
  | offList (c : Nat)
  /-- The lock has failed. -/
  | failed (locked : ErrorCode)
  deriving DecidableEq, Repr

def Frame.duty : Frame → Option Duty
  | .close c _ => some (.constructed c)
  | .waiting c _ => some (.offList c)
  | .unfinished _ locked => some (.failed locked)
  | _ => none

def duties (stack : List Frame) : List Duty := stack.filterMap Frame.duty

def Duty.Met (s : State) (l : List Nat) : Duty → Prop
  | .constructed c => s.Constructed c
  | .offList c => s.Constructed c ∧ c ∉ l
  | .failed locked => locked ≠ .ok

/-- The calls find what they rely on. -/
def Relied (s : State) (l : List Nat) : Prop :=
  ∀ (n : Nat) (th : Thread) (d : Duty), s.threads[n]? = some th → d ∈ duties th.stack → d.Met s l

/-- All of it. -/
structure Inv (maxCallbacks : Nat) (s : State) (l : List Nat) (credit : Nat) : Prop where
  list : Listed maxCallbacks s l
  phases : Phases s l
  requests : Requests s l credit
  closings : Closings s
  relied : Relied s l

/-! ### Updates -/

section Updates

variable {s s' : State} {n c : Nat} {th th' : Thread} {l l' : List Nat} {evs : List Event}
variable {maxCallbacks credit credit' : Nat} {f : StopCallback → StopCallback}

theorem State.flags_modify {g : Flags → Flags} (hcb : s'.callbacks = s.callbacks.modify c f)
    (hf : ∀ cb, (f cb).flags = g cb.flags) : s'.flags c = (s.flags c).map g := by
  rw [State.flags, State.flags, hcb, List.getElem?_modify_eq]
  cases s.callbacks[c]? with
  | none => rfl
  | some cb => exact congrArg some (hf cb)

theorem State.flags_modify_ne {c' : Nat} (hcb : s'.callbacks = s.callbacks.modify c f)
    (hne : c' ≠ c) : s'.flags c' = s.flags c' := by
  rw [State.flags, State.flags, hcb, List.getElem?_modify_ne _ _ (Ne.symm hne)]

theorem State.flags_congr (hcb : s'.callbacks = s.callbacks) : s'.flags = s.flags := by
  funext c
  rw [State.flags, State.flags, hcb]

theorem State.next_congr (hcb : s'.callbacks = s.callbacks) : s'.next = s.next := by
  funext c
  rw [State.next, State.next, hcb]

/-- The pointers stay where only flags change. -/
theorem State.next_modify (hcb : s'.callbacks = s.callbacks.modify c f)
    (hf : ∀ cb : StopCallback, (f cb).next = cb.next) : s'.next = s.next := by
  funext b
  rw [State.next, State.next, hcb]
  by_cases hbc : c = b
  · subst hbc
    rw [List.getElem?_modify_eq]
    cases s.callbacks[c]? with
    | none => rfl
    | some cb => exact hf cb
  · rw [List.getElem?_modify_ne _ _ hbc]

/-- A pointer is stored. -/
theorem State.next_store {q : Option Nat} (hlt : c < s.callbacks.length)
    (hcb : s'.callbacks = s.callbacks.modify c f) (hf : ∀ cb : StopCallback, (f cb).next = q) :
    s'.next = Function.update s.next c q := by
  funext b
  rw [State.next, hcb]
  by_cases hbc : c = b
  · subst hbc
    rw [List.getElem?_modify_eq, List.getElem?_eq_getElem hlt, Function.update_self]
    exact hf _
  · rw [List.getElem?_modify_ne _ _ hbc, Function.update_of_ne (Ne.symm hbc)]
    rfl

theorem State.working_add (hth : s.threads[n]? = some th)
    (hths : s'.threads = s.threads.set n th') :
    s'.working + th.stack.countP Frame.works = s.working + th'.stack.countP Frame.works := by
  rw [State.working, State.working, hths]
  exact tally_set hth

theorem State.firsts_append (hlog : s'.log = s.log ++ evs) :
    s'.firsts = s.firsts + evs.countP Event.first := by
  rw [State.firsts, State.firsts, hlog, List.countP_append]

theorem Listed.congr (h : Listed maxCallbacks s l) (hnext : s'.next = s.next)
    (hhead : s'.source.head = s.source.head) (hcount : s'.source.count = s.source.count) :
    Listed maxCallbacks s' l :=
  ⟨by rw [hnext, hhead]; exact h.chain, h.nodup, by rw [hcount]; exact h.count, h.bound⟩

/-- The record grows. -/
theorem Closings.extend (h : Closings s) (hlog : s'.log = s.log ++ evs)
    (hdetached : ∀ c, s.Detached c → s'.Detached c)
    (hclosed : ∀ c, .closed c .ok ∈ evs → s'.Detached c)
    (hcalled : ∀ c, .called c ∈ evs → .closed c .ok ∉ s.log)
    (hlate : ∀ c, .constructed c .ok true ∈ evs → .stopping ∉ s.log ∨ 0 < s'.events c .called)
    (horder : evs.Pairwise (fun e e' => ¬ e.precludes e'))
    (hstop : evs.Pairwise (fun e e' => e = .stopping → ∀ c, e' ≠ .constructed c .ok true)) :
    Closings s' where
  closed := by
    intro c hmem
    rw [hlog, List.mem_append] at hmem
    rcases hmem with hmem | hmem
    · exact hdetached c (h.closed c hmem)
    · exact hclosed c hmem
  order := by
    rw [hlog]
    refine List.pairwise_append.mpr ⟨h.order, horder, ?_⟩
    rintro e he e' he' ⟨c, rfl, rfl⟩
    exact hcalled c he' he
  late := by
    rw [hlog]
    have hmono : ∀ c, 0 < s.events c .called → 0 < s'.events c .called := by
      intro c hpos
      rw [State.events, hlog, List.filterMap_append, List.count_append]
      rw [State.events] at hpos
      omega
    refine List.pairwise_append.mpr ⟨?_, ?_, ?_⟩
    · exact h.late.imp (fun hold hs c hc => hmono c (hold hs c hc))
    · exact hstop.imp (fun hno hs c hc => absurd hc (hno hs c))
    · rintro e he e' he' rfl c rfl
      exact (hlate c he').resolve_left (fun hno => hno he)

/-- A thread moves on, and the record grows. -/
theorem Requests.update (h : Requests s l credit) (hth : s.threads[n]? = some th)
    (hths : s'.threads = s.threads.set n th') (hlog : s'.log = s.log ++ evs)
    (hstopped : s'.source.stopped = s.source.stopped)
    (hbalance : th'.stack.countP Frame.works + evs.countP Event.first + credit' ≤
      th.stack.countP Frame.works + credit)
    (hstopping : .stopping ∉ evs) (hdone : s.source.stopped = true → l = [] → l' = [])
    (hnew : .requested .ok true ∈ evs → l' = []) : Requests s' l' credit' where
  first := by
    have hwork := State.working_add hth hths
    have hfirst := State.firsts_append hlog
    have := h.first
    rw [hstopped]
    omega
  started := by
    intro hno hmem
    rw [hlog, List.mem_append] at hmem
    rw [hstopped] at hno
    exact hmem.elim (h.started hno) hstopping
  done := by
    intro hmem
    rw [hlog, List.mem_append] at hmem
    rcases hmem with hmem | hmem
    · refine hdone ?_ (h.done hmem)
      -- A first `request_stop` that has returned had set the flag.
      by_contra hno
      have hpos : 0 < s.firsts := List.countP_pos_iff.mpr ⟨_, hmem, rfl⟩
      have := h.first
      rw [if_neg hno] at this
      omega
    · exact hnew hmem

theorem duties_cons {fr : Frame} {rest : List Frame} {d : Duty} (h : d ∈ duties rest) :
    d ∈ duties (fr :: rest) := by
  obtain ⟨fr', hfr', heq⟩ := List.mem_filterMap.mp h
  exact List.mem_filterMap.mpr ⟨fr', List.mem_cons_of_mem _ hfr', heq⟩

theorem Relied.update (h : Relied s l) (hths : s'.threads = s.threads.set n th')
    (hth : s.threads[n]? = some th)
    (hnew : ∀ d ∈ duties th'.stack, d ∈ duties th.stack ∨ d.Met s l)
    (hmono : ∀ c, s.Constructed c → s'.Constructed c)
    (hlist : ∀ c, s.Constructed c → c ∉ l → c ∉ l') : Relied s' l' := by
  have hkeep : ∀ d : Duty, d.Met s l → d.Met s' l' := by
    intro d hd
    cases d with
    | constructed c => exact hmono c hd
    | offList c => exact ⟨hmono c hd.1, hlist c hd.1 hd.2⟩
    | failed locked => exact hd
  intro m th'' d hm hd
  rw [hths] at hm
  rcases getElem?_set_cases hm with ⟨-, rfl⟩ | ⟨-, hm⟩
  · exact hkeep d ((hnew d hd).elim (h n th d hth) id)
  · exact hkeep d (h m th'' d hm hd)

/-! ### Turns of one callback -/

section Turns

variable {x y : Option FrameKind} {z : List EventKind} {flags' : Flags} {ph ph' : Phase}

/-- A turn that stores to its callback alone. -/
theorem Turn.of_modify {rest stack stack' : List Frame} {last last' : Return} {g : Flags → Flags}
    (hph : s.view l c = ph.view) (hlt : c < s.callbacks.length)
    (hth : s.threads[n]? = some ⟨stack, last⟩)
    (hx : kinds stack = x.toList.map (fun k => (c, k)) ++ kinds rest)
    (hths : s'.threads = s.threads.set n ⟨stack', last'⟩)
    (hy : kinds stack' = y.toList.map (fun k => (c, k)) ++ kinds rest)
    (hcb : s'.callbacks = s.callbacks.modify c f) (hf : ∀ cb, (f cb).flags = g cb.flags)
    (hlog : s'.log = s.log ++ evs)
    (hevs : evs.filterMap Event.kind = z.map (fun k => (c, k))) :
    Turn s s' n c x y z (g ph.flags) where
  inRange := hlt
  length := by rw [hcb, List.length_modify]
  threads := ⟨_, _, kinds rest, hth, hths, hx, hy⟩
  log := ⟨evs, hlog, hevs⟩
  here := by
    rw [State.flags_modify hcb hf, Phases.flags_eq hph]
    rfl
  there := fun _ hne => State.flags_modify_ne hcb hne

/-- Nobody has closed a callback that has its source, or is not constructed. -/
theorem Closings.not_closed (hc : Closings s) (hph : s.view l c = ph.view)
    (hflags : ph.flags.source = true ∨ ph.flags.constructed = false) :
    .closed c .ok ∉ s.log := by
  intro hmem
  obtain ⟨flags, heq, hsource, hconstr⟩ := hc.closed c hmem
  rw [Phases.flags_eq hph] at heq
  cases heq
  rcases hflags with h | h
  · rw [hsource] at h
    cases h
  · rw [hconstr] at h
    cases h

/-- What a turn leaves of callbacks without source. -/
theorem Turn.detached (ht : Turn s s' n c x y z flags') (hph : s.view l c = ph.view)
    (hkeep : ph.flags.source = false → ph.flags.constructed = true →
      flags'.source = false ∧ flags'.constructed = true) (c' : Nat) (h : s.Detached c') :
    s'.Detached c' := by
  obtain ⟨flags, heq, hsource, hconstr⟩ := h
  by_cases hc : c' = c
  · subst hc
    rw [Phases.flags_eq hph] at heq
    cases heq
    exact ⟨flags', ht.here, hkeep hsource hconstr⟩
  · exact ⟨flags, by rw [ht.there c' hc, heq], hsource, hconstr⟩

theorem Turn.constructed (ht : Turn s s' n c x y z flags') (hph : s.view l c = ph.view)
    (hkeep : ph.flags.constructed = true → flags'.constructed = true) (c' : Nat)
    (h : s.Constructed c') : s'.Constructed c' := by
  obtain ⟨flags, heq, hconstr⟩ := h
  by_cases hc : c' = c
  · subst hc
    rw [Phases.flags_eq hph] at heq
    cases heq
    exact ⟨flags', ht.here, hkeep hconstr⟩
  · exact ⟨flags, by rw [ht.there c' hc, heq], hconstr⟩

/-- A turn that takes its callback from a phase to another, with `evs` the events. -/
theorem Inv.turn (hi : Inv maxCallbacks s l credit) (ph' : Phase)
    (ht : Turn s s' n c x y z flags')
    (hth : s.threads[n]? = some th) (hths : s'.threads = s.threads.set n th')
    (hlog : s'.log = s.log ++ evs) (hlist : Listed maxCallbacks s' l')
    (hreq : Requests s' l' credit') (hph : s.view l c = ph.view)
    (hl : ∀ c', c' ≠ c → l'.count c' = l.count c') (hlc : l'.count c = ph'.isListed)
    (hflags : ph'.flags = flags') (hx : ph.frame = x) (hy : ph'.frame = y)
    (hz : (ph.events ++ z).Perm ph'.events)
    (hsource : ph.flags.source = false → ph.flags.constructed = true → flags'.source = false)
    (hconstr : ph.flags.constructed = true → flags'.constructed = true)
    (hoff : ph.flags.constructed = true → ph.isListed = 0 → ph'.isListed = 0)
    (hduties : ∀ d ∈ duties th'.stack, d ∈ duties th.stack)
    (hclosed : ∀ c, .closed c .ok ∈ evs → s'.Detached c)
    (hcalled : ∀ c, .called c ∈ evs → .closed c .ok ∉ s.log)
    (hlate : ∀ c, .constructed c .ok true ∈ evs →
      s.source.stopped = false ∨ 0 < s'.events c .called)
    (horder : evs.Pairwise (fun e e' => ¬ e.precludes e'))
    (hstop : evs.Pairwise (fun e e' => e = .stopping → ∀ c, e' ≠ .constructed c .ok true)) :
    Inv maxCallbacks s' l' credit' where
  list := hlist
  phases := ht.phases hi.phases hl (ht.view_self hph hflags hlc hx hy hz)
  requests := hreq
  closings := hi.closings.extend hlog
    (ht.detached hph (fun h h' => ⟨hsource h h', hconstr h'⟩)) hclosed hcalled
    (fun c hmem => (hlate c hmem).imp_left (fun h => hi.requests.started h)) horder hstop
  relied := by
    refine hi.relied.update hths hth (fun d hd => .inl (hduties d hd))
      (ht.constructed hph hconstr) ?_
    rintro c' ⟨flags, heq, hc'⟩ hnot
    rw [← List.count_eq_zero] at hnot ⊢
    by_cases hcc : c' = c
    · subst hcc
      rw [Phases.flags_eq hph] at heq
      cases heq
      rw [hlc]
      exact hoff hc' ((Phases.listed_eq hph).symm.trans hnot)
    · rw [hl c' hcc]
      exact hnot

end Turns

/-! ### Operations that concern no callback -/

/-- An event that settles nothing. -/
def Event.Neutral (e : Event) : Prop :=
  e.kind = none ∧ e.first = false ∧ e ≠ .stopping ∧ ∀ c, e ≠ .closed c .ok

theorem Closings.neutral (h : Closings s) (hflags : s'.flags = s.flags)
    (hlog : s'.log = s.log ++ evs) (hevs : ∀ e ∈ evs, e.kind = none)
    (hclosed : ∀ c, .closed c .ok ∈ evs → s.Detached c) : Closings s' := by
  have hdetached : ∀ c, s.Detached c → s'.Detached c := by
    intro c hdet
    rw [State.Detached, hflags]
    exact hdet
  refine h.extend hlog hdetached (fun c hmem => hdetached c (hclosed c hmem)) ?_ ?_ ?_ ?_
  · intro c hmem
    cases hevs _ hmem
  · intro c hmem
    cases hevs _ hmem
  · refine List.pairwise_of_forall_mem_list ?_
    rintro e - e' he' ⟨c, -, rfl⟩
    cases hevs _ he'
  · refine List.pairwise_of_forall_mem_list ?_
    rintro e - e' he' - c rfl
    cases hevs _ he'

/-- A thread moves on, and nothing is settled. -/
theorem Inv.neutral (hi : Inv maxCallbacks s l credit) (evs : List Event)
    (hth : s.threads[n]? = some th)
    (hths : s'.threads = s.threads.set n th') (hkinds : kinds th'.stack = kinds th.stack)
    (hworks : th'.stack.countP Frame.works = th.stack.countP Frame.works)
    (hduties : ∀ d ∈ duties th'.stack, d ∈ duties th.stack ∨ d.Met s l)
    (hcb : s'.callbacks = s.callbacks) (hhead : s'.source.head = s.source.head)
    (hcount : s'.source.count = s.source.count)
    (hstopped : s'.source.stopped = s.source.stopped) (hlog : s'.log = s.log ++ evs)
    (hevs : ∀ e ∈ evs, e.Neutral) : Inv maxCallbacks s' l credit := by
  have hfirst : evs.countP Event.first = 0 := by
    rw [List.countP_eq_zero]
    exact fun e he => by rw [(hevs e he).2.1]; simp
  have hconstr : ∀ c, s.Constructed c → s'.Constructed c := by
    intro c hc
    rw [State.Constructed, State.flags_congr hcb]
    exact hc
  refine ⟨hi.list.congr (State.next_congr hcb) hhead hcount,
    hi.phases.same hth hths hkinds hcb hlog ?_, ?_, ?_,
    hi.relied.update hths hth hduties hconstr (fun _ _ h => h)⟩
  · rw [List.filterMap_eq_nil_iff]
    exact fun e he => (hevs e he).1
  · refine hi.requests.update hth hths hlog hstopped (by omega) ?_ (fun _ h => h) ?_
    · exact fun hmem => (hevs _ hmem).2.2.1 rfl
    · intro hmem
      cases (hevs _ hmem).2.1
  · refine hi.closings.neutral (State.flags_congr hcb) hlog (fun e he => (hevs e he).1) ?_
    exact fun c hmem => absurd rfl ((hevs _ hmem).2.2.2 c)

/-- Only the primitives' own state changes. -/
theorem Inv.quiet (hi : Inv maxCallbacks s l credit) (hths : s'.threads = s.threads)
    (hcb : s'.callbacks = s.callbacks) (hlog : s'.log = s.log)
    (hhead : s'.source.head = s.source.head) (hcount : s'.source.count = s.source.count)
    (hstopped : s'.source.stopped = s.source.stopped) : Inv maxCallbacks s' l credit := by
  have hframes : s'.frames = s.frames := by
    funext c k
    rw [State.frames, State.frames, hths]
  have hevents : s'.events = s.events := by
    funext c k
    rw [State.events, State.events, hlog]
  have hflags : s'.flags = s.flags := State.flags_congr hcb
  have hview : ∀ c, s'.view l c = s.view l c := by
    intro c
    rw [State.view, State.view, hflags, hframes, hevents]
  refine ⟨hi.list.congr (State.next_congr hcb) hhead hcount, ⟨?_, ?_⟩, ⟨?_, ?_, ?_⟩, ⟨?_, ?_, ?_⟩,
    ?_⟩
  · intro c hlt
    rw [hview]
    exact hi.phases.phase c (by rw [← hcb]; exact hlt)
  · intro c hge
    rw [hview]
    exact hi.phases.absent c (by rw [← hcb]; exact hge)
  · rw [hstopped, State.working, State.firsts, hths, hlog]
    exact hi.requests.first
  · rw [hstopped, hlog]
    exact hi.requests.started
  · rw [hlog]
    exact hi.requests.done
  · intro c hmem
    rw [hlog] at hmem
    rw [State.Detached, hflags]
    exact hi.closings.closed c hmem
  · rw [hlog]
    exact hi.closings.order
  · rw [hlog, hevents]
    exact hi.closings.late
  · intro m th d hm hd
    rw [hths] at hm
    have hmet := hi.relied m th d hm hd
    cases d with
    | constructed | offList =>
        rw [Duty.Met, State.Constructed, hflags]
        exact hmet
    | failed => exact hmet

/-- The first `request_stop` returns. -/
theorem Inv.requestedFirst {status : ErrorCode} (hi : Inv maxCallbacks s l 1)
    (hth : s.threads[n]? = some th) (hths : s'.threads = s.threads.set n th')
    (hstack : th'.stack = th.stack) (hcb : s'.callbacks = s.callbacks)
    (hhead : s'.source.head = s.source.head) (hcount : s'.source.count = s.source.count)
    (hstopped : s'.source.stopped = s.source.stopped)
    (hlog : s'.log = s.log ++ [.requested status true]) (hdone : status = .ok → l = []) :
    Inv maxCallbacks s' l 0 := by
  have hconstr : ∀ c, s.Constructed c → s'.Constructed c := by
    intro c hc
    rw [State.Constructed, State.flags_congr hcb]
    exact hc
  refine ⟨hi.list.congr (State.next_congr hcb) hhead hcount,
    hi.phases.same hth hths (by rw [hstack]) hcb hlog rfl, ?_,
    hi.closings.neutral (State.flags_congr hcb) hlog (by simp [Event.kind]) (by simp),
    hi.relied.update hths hth (fun d hd => .inl (by rw [← hstack]; exact hd)) hconstr
      (fun _ _ h => h)⟩
  refine hi.requests.update hth hths hlog hstopped ?_ (by simp) (fun _ h => h) ?_
  · rw [hstack]
    simp [Event.first]
  · intro hmem
    rw [List.mem_singleton] at hmem
    cases hmem
    exact hdone rfl

/-- A `request_stop` is the first. -/
theorem Inv.stopping {rest : List Frame} {last last' : Return} (hi : Inv maxCallbacks s l 0)
    (hth : s.threads[n]? = some ⟨.request :: rest, last⟩)
    (hths : s'.threads = s.threads.set n ⟨rest, last'⟩) (hcb : s'.callbacks = s.callbacks)
    (hhead : s'.source.head = s.source.head) (hcount : s'.source.count = s.source.count)
    (hnot : s.source.stopped = false) (hstopped : s'.source.stopped = true)
    (hlog : s'.log = s.log ++ [.stopping]) : Inv maxCallbacks s' l 1 := by
  have hconstr : ∀ c, s.Constructed c → s'.Constructed c := by
    intro c hc
    rw [State.Constructed, State.flags_congr hcb]
    exact hc
  refine ⟨hi.list.congr (State.next_congr hcb) hhead hcount,
    hi.phases.same hth hths rfl hcb hlog rfl, ⟨?_, ?_, ?_⟩,
    hi.closings.neutral (State.flags_congr hcb) hlog (by simp [Event.kind]) (by simp),
    hi.relied.update hths hth (fun _ hd => .inl hd) hconstr (fun _ _ h => h)⟩
  · have hfirst := hi.requests.first
    have hwork := State.working_add hth hths
    have hfirsts := State.firsts_append hlog
    rw [hnot] at hfirst
    rw [hstopped]
    simp only [List.countP_cons, List.countP_nil, Frame.works, Event.first] at hwork hfirsts
    simp only [Bool.false_eq_true, if_false] at hfirst
    simp only [Bool.false_eq_true, if_false] at hwork hfirsts
    rw [if_pos rfl]
    omega
  · intro h
    rw [hstopped] at h
    cases h
  · intro hmem
    rw [hlog, List.mem_append, List.mem_singleton] at hmem
    rcases hmem with hmem | hmem
    · exact hi.requests.done hmem
    · cases hmem

end Updates

end MicrOsal.Stop
