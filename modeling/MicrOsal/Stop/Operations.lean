import MicrOsal.Stop.Invariant

/-!
# MicrOsal.Stop.Operations

The operations of constructor, `request_stop` and `close` keep the invariant, and so does
every step.
-/

namespace MicrOsal.Stop

variable {s s' : State} {n c : Nat} {th : Thread} {l : List Nat} {rest : List Frame}
variable {last last' : Return} {status : ErrorCode} {source : Bool}
variable {maxCallbacks credit : Nat} {f : StopCallback → StopCallback}

/-! ### The constructor -/

/-- The constructor begins. -/
theorem Inv.begin (hi : Inv maxCallbacks s l credit) (hth : s.threads[n]? = some th)
    (hths : s'.threads = s.threads.set n ⟨.construct s.callbacks.length :: th.stack, last⟩)
    (hcb : s'.callbacks = s.callbacks ++ [⟨source, none, false, .ok, false⟩])
    (hsrc : s'.source = s.source) (hlog : s'.log = s.log) : Inv maxCallbacks s' l credit := by
  have hevents : s'.events = s.events := by
    funext c k
    rw [State.events, State.events, hlog]
  have hflags : ∀ c, c ≠ s.callbacks.length → s'.flags c = s.flags c := by
    intro c hne
    rw [State.flags, State.flags, hcb]
    rcases Nat.lt_or_ge c s.callbacks.length with hlt | hge
    · rw [List.getElem?_append_left hlt]
    · rw [List.getElem?_eq_none hge, List.getElem?_eq_none (by simp; omega)]
  have hnext : s'.next = s.next := by
    funext c
    rw [State.next, State.next, hcb]
    rcases Nat.lt_trichotomy c s.callbacks.length with hlt | heq | hgt
    · rw [List.getElem?_append_left hlt]
    · subst heq
      rw [List.getElem?_concat_length, List.getElem?_eq_none (Nat.le_refl _)]
      rfl
    · rw [List.getElem?_eq_none (Nat.le_of_lt hgt), List.getElem?_eq_none (by simp; omega)]
  have hlog' : s'.log = s.log ++ [] := by
    rw [List.append_nil]
    exact hlog
  have hframes : ∀ c k, s'.frames c k = s.frames c k +
      if c = s.callbacks.length ∧ k = .construct then 1 else 0 := by
    intro c k
    have hset := tally_set (f := fun th => (kinds th.stack).count (c, k))
      (b := ⟨.construct s.callbacks.length :: th.stack, last⟩) hth
    have hpush : kinds (.construct s.callbacks.length :: th.stack) =
        (s.callbacks.length, .construct) :: kinds th.stack := rfl
    have hpair : ((s.callbacks.length, FrameKind.construct) == (c, k)) = true ↔
        c = s.callbacks.length ∧ k = .construct := by
      rw [beq_iff_eq, Prod.mk.injEq]
      exact ⟨fun h => ⟨h.1.symm, h.2.symm⟩, fun h => ⟨h.1.symm, h.2.symm⟩⟩
    dsimp only at hset
    rw [hpush, List.count_cons] at hset
    simp only [hpair] at hset
    rw [State.frames, State.frames, hths]
    omega
  have hother : ∀ c, c ≠ s.callbacks.length → s'.view l c = s.view l c := by
    intro c hne
    have heq : s'.frames c = s.frames c := by
      funext k
      rw [hframes, if_neg (fun h => hne h.1), Nat.add_zero]
    rw [State.view, State.view, hflags c hne, hevents, heq]
  have hlen : s'.callbacks.length = s.callbacks.length + 1 := by
    rw [hcb, List.length_append, List.length_singleton]
  have habsent := hi.phases.absent s.callbacks.length (Nat.le_refl _)
  have hnone : s.flags s.callbacks.length = none := congrArg View.flags habsent
  have hkeep : ∀ c flags, s.flags c = some flags → s'.flags c = some flags := by
    intro c flags heq
    rw [hflags c ?_]
    · exact heq
    · rintro rfl
      rw [hnone] at heq
      cases heq
  refine ⟨hi.list.congr hnext (by rw [hsrc]) (by rw [hsrc]), ⟨?_, ?_⟩, ?_, ?_, ?_⟩
  · intro c hlt
    by_cases hc : c = s.callbacks.length
    · subst hc
      refine ⟨.constructing source, ?_⟩
      have hnew : s'.flags s.callbacks.length = some ⟨source, false, false⟩ := by
        rw [State.flags, hcb, List.getElem?_concat_length]
        rfl
      have hold : s.frames s.callbacks.length = fun _ => 0 := congrArg View.frames habsent
      have holde : s.events s.callbacks.length = fun _ => 0 := congrArg View.events habsent
      have hfr : s'.frames s.callbacks.length =
          fun k => if (Phase.constructing source).frame = some k then 1 else 0 := by
        funext k
        rw [hframes, hold]
        cases k <;> simp [Phase.frame]
      rw [State.view, hnew, hevents, holde, hfr]
      exact congrArg (fun listed => View.mk _ listed _ _) (congrArg View.listed habsent)
    · rw [hother c hc]
      exact hi.phases.phase c (by omega)
  · intro c hge
    rw [hother c (by omega)]
    exact hi.phases.absent c (by omega)
  · refine hi.requests.update hth hths hlog' (by rw [hsrc]) ?_ ?_ ?_ ?_
    · simp [Frame.works]
    · exact List.not_mem_nil
    · exact fun _ h => h
    · exact fun h => absurd h List.not_mem_nil
  · refine hi.closings.extend hlog' ?_ ?_ ?_ ?_ .nil .nil
    · rintro c ⟨flags, heq, hfl⟩
      exact ⟨flags, hkeep c flags heq, hfl⟩
    all_goals exact fun c h => absurd h List.not_mem_nil
  · refine hi.relied.update hths hth (fun _ hd => .inl hd) ?_ (fun _ _ h => h)
    rintro c ⟨flags, heq, hconstr⟩
    exact ⟨flags, hkeep c flags heq, hconstr⟩

/-- A constructor that is about to lock. -/
theorem Phases.of_construct (hp : Phases s l)
    (hth : s.threads[n]? = some ⟨.construct c :: rest, last⟩) :
    c < s.callbacks.length ∧ ∃ source, s.view l c = (Phase.constructing source).view := by
  obtain ⟨hlt, ph, hph, hframe⟩ := hp.of_top hth rfl
  refine ⟨hlt, ?_⟩
  cases ph <;> simp [Phase.frame] at hframe
  exact ⟨_, hph⟩

/-- A constructor gives up. -/
theorem Inv.giveUp (hi : Inv maxCallbacks s l credit)
    (hth : s.threads[n]? = some ⟨.construct c :: rest, last⟩)
    (hths : s'.threads = s.threads.set n ⟨rest, last'⟩)
    (hcb : s'.callbacks = s.callbacks.modify c f)
    (hf : ∀ cb : StopCallback, (f cb).flags = ⟨source, cb.executing, true⟩)
    (hnext : ∀ cb : StopCallback, (f cb).next = cb.next)
    (hhead : s'.source.head = s.source.head) (hcount : s'.source.count = s.source.count)
    (hstopped : s'.source.stopped = s.source.stopped)
    (hlog : s'.log = s.log ++ [.unattached c, .constructed c status source])
    (hfail : status ≠ .ok ∨ source = false) : Inv maxCallbacks s' l credit := by
  obtain ⟨hlt, source', hph⟩ := hi.phases.of_construct hth
  have hkind : Event.kind (.constructed c status source) = none := by
    rcases hfail with h | h
    · cases status <;> first | exact absurd rfl h | rfl
    · rw [h]
      cases status <;> rfl
  have ht : Turn s s' n c (some .construct) none [.unattached] ⟨source, false, true⟩ :=
    Turn.of_modify (g := fun fl => ⟨source, fl.executing, true⟩) hph hlt hth rfl hths rfl hcb
      hf hlog (by simp only [List.filterMap_cons, List.filterMap_nil, hkind]; rfl)
  refine hi.turn (.turnedAway source) ht hth hths hlog
    (hi.list.congr (State.next_modify hcb hnext) hhead hcount)
    (hi.requests.update hth hths hlog hstopped ?_ (by simp) (fun _ h => h) (by simp)) hph
    (fun _ _ => rfl) ((Phases.listed_eq hph).trans rfl) rfl rfl rfl (.refl _)
    (fun _ h => absurd h Bool.false_ne_true) (fun _ => rfl)
    (fun h => absurd h Bool.false_ne_true) (fun _ h => h) (by simp) (by simp) ?_ ?_
    (by simp)
  · simp [Frame.works, Event.first]
  · intro c' hmem
    rw [List.mem_cons, List.mem_singleton] at hmem
    rcases hmem with hmem | hmem
    · cases hmem
    · cases hmem
      cases hkind
  · simp [Event.precludes]

/-- A constructor puts its callback on the list. -/
theorem Inv.listed (hi : Inv maxCallbacks s l credit)
    (hth : s.threads[n]? = some ⟨.construct c :: rest, last⟩)
    (hths : s'.threads = s.threads.set n ⟨rest, last'⟩)
    (hcb : s'.callbacks = s.callbacks.modify c f)
    (hf : ∀ cb : StopCallback, (f cb).flags = ⟨true, cb.executing, true⟩)
    (hnext : ∀ cb : StopCallback, (f cb).next = s.source.head)
    (hhead : s'.source.head = some c) (hcount : s'.source.count = s.source.count + 1)
    (hroom : s.source.count ≠ maxCallbacks) (hnot : s.source.stopped = false)
    (hstopped : s'.source.stopped = s.source.stopped)
    (hlog : s'.log = s.log ++ [.constructed c status true]) :
    Inv maxCallbacks s' (c :: l) credit := by
  obtain ⟨hlt, source', hph⟩ := hi.phases.of_construct hth
  have hfree : l.count c = 0 := Phases.listed_eq hph
  have hmem : c ∉ l := List.count_eq_zero.mp hfree
  let ok : Bool := status = .ok
  have ht : Turn s s' n c (some .construct) none (if ok then [.attached] else [])
      ⟨true, false, true⟩ := by
    refine Turn.of_modify (g := fun fl => ⟨true, fl.executing, true⟩) hph hlt hth rfl hths rfl hcb
      hf hlog ?_
    cases status <;> rfl
  refine hi.turn (.listed ok) ht hth hths hlog ⟨?_, ?_, ?_, ?_⟩
    (hi.requests.update hth hths hlog hstopped ?_ (by simp) ?_ (by simp)) hph ?_ ?_ rfl rfl rfl
    (.refl _) (fun _ h => absurd h Bool.false_ne_true) (fun _ => rfl)
    (fun h => absurd h Bool.false_ne_true) (fun _ h => h) (by simp)
    (by simp) (fun _ _ => .inl hnot) (by simp [Event.precludes]) (by simp)
  · rw [State.next_store hlt hcb hnext, hhead]
    exact hi.list.chain.push hmem
  · exact List.nodup_cons.mpr ⟨hmem, hi.list.nodup⟩
  · rw [hcount, hi.list.count, List.length_cons]
  · have := hi.list.bound
    have := hi.list.count
    rw [List.length_cons]
    omega
  · simp [Frame.works, Event.first]
  · intro h
    rw [hnot] at h
    cases h
  · intro c' hne
    exact List.count_cons_of_ne (Ne.symm hne)
  · rw [List.count_cons_self, hfree]
    rfl

/-- A constructor comes too late for the list. -/
theorem Inv.late (hi : Inv maxCallbacks s l credit)
    (hth : s.threads[n]? = some ⟨.construct c :: rest, last⟩)
    (hths : s'.threads = s.threads.set n ⟨.invoke .constructor c :: rest, last'⟩)
    (hcb : s'.callbacks = s.callbacks) (hhead : s'.source.head = s.source.head)
    (hcount : s'.source.count = s.source.count)
    (hstopped : s'.source.stopped = s.source.stopped) (hlog : s'.log = s.log) :
    Inv maxCallbacks s' l credit := by
  obtain ⟨hlt, source', hph⟩ := hi.phases.of_construct hth
  have hlog' : s'.log = s.log ++ [] := by simpa using hlog
  have hcb' : s'.callbacks = s.callbacks.modify c id := by rw [hcb, List.modify_id]
  have ht : Turn s s' n c (some .construct) (some .invokeLate) [] ⟨source', false, false⟩ :=
    Turn.of_modify (g := id) hph hlt hth rfl hths rfl hcb' (fun _ => rfl) hlog' rfl
  refine hi.turn (.lateInvoke source') ht hth hths hlog'
    (hi.list.congr (State.next_congr hcb) hhead hcount)
    (hi.requests.update hth hths hlog' hstopped ?_ (by simp) (fun _ h => h) (by simp)) hph
    (fun _ _ => rfl) ((Phases.listed_eq hph).trans rfl) rfl rfl rfl (.refl _)
    (fun h _ => h) (fun h => h) (fun h => absurd h Bool.false_ne_true)
    (fun _ h => h) (by simp) (by simp) (by simp) .nil .nil
  simp [Frame.works]

/-- A constructor calls its callback. -/
theorem Inv.calledLate (hi : Inv maxCallbacks s l credit)
    (hth : s.threads[n]? = some ⟨.invoke .constructor c :: rest, last⟩)
    (hths : s'.threads = s.threads.set n ⟨.running .constructor c :: rest, last'⟩)
    (hcb : s'.callbacks = s.callbacks) (hsrc : s'.source = s.source)
    (hlog : s'.log = s.log ++ [.called c]) : Inv maxCallbacks s' l credit := by
  obtain ⟨hlt, ph, hph, hframe⟩ := hi.phases.of_top hth rfl
  obtain ⟨source', rfl⟩ : ∃ source', ph = .lateInvoke source' := by
    cases ph <;> simp [Phase.frame] at hframe
    exact ⟨_, rfl⟩
  have hcb' : s'.callbacks = s.callbacks.modify c id := by rw [hcb, List.modify_id]
  have ht : Turn s s' n c (some .invokeLate) (some .runLate) [.called] ⟨source', false, false⟩ :=
    Turn.of_modify (g := id) hph hlt hth rfl hths rfl hcb' (fun _ => rfl) hlog rfl
  refine hi.turn (.lateRunning source') ht hth hths hlog
    (hi.list.congr (State.next_congr hcb) (by rw [hsrc]) (by rw [hsrc]))
    (hi.requests.update hth hths hlog (by rw [hsrc]) ?_ (by simp) (fun _ h => h) (by simp)) hph
    (fun _ _ => rfl) ((Phases.listed_eq hph).trans rfl) rfl rfl rfl (.refl _)
    (fun h _ => h) (fun h => h) (fun h => absurd h Bool.false_ne_true)
    (fun _ h => h) (by simp) ?_ (by simp) (by simp [Event.precludes])
    (by simp)
  · simp [Frame.works, Event.first]
  · intro c' hmem
    rw [List.mem_singleton] at hmem
    cases hmem
    exact hi.closings.not_closed hph (.inr rfl)

/-- A constructor returns after its callback. -/
theorem Inv.lateDone (hi : Inv maxCallbacks s l credit)
    (hth : s.threads[n]? = some ⟨.running .constructor c :: rest, last⟩)
    (hths : s'.threads = s.threads.set n ⟨rest, last'⟩)
    (hcb : s'.callbacks = s.callbacks.modify c f)
    (hf : ∀ cb : StopCallback, (f cb).flags = ⟨true, cb.executing, true⟩)
    (hnext : ∀ cb : StopCallback, (f cb).next = cb.next) (hsrc : s'.source = s.source)
    (hlog : s'.log = s.log ++ [.constructed c .ok true]) : Inv maxCallbacks s' l credit := by
  obtain ⟨hlt, ph, hph, hframe⟩ := hi.phases.of_top hth rfl
  obtain ⟨source', rfl⟩ : ∃ source', ph = .lateRunning source' := by
    cases ph <;> simp [Phase.frame] at hframe
    exact ⟨_, rfl⟩
  have ht : Turn s s' n c (some .runLate) none [.attached] ⟨true, false, true⟩ :=
    Turn.of_modify (g := fun fl => ⟨true, fl.executing, true⟩) hph hlt hth rfl hths rfl hcb hf
      hlog rfl
  have hlisted : l.count c = (Phase.late true).isListed := (Phases.listed_eq hph).trans rfl
  have hself : s'.view l c = (Phase.late true).view :=
    ht.view_self hph rfl hlisted rfl rfl (.refl _)
  refine hi.turn (.late true) ht hth hths hlog
    (hi.list.congr (State.next_modify hcb hnext) (by rw [hsrc]) (by rw [hsrc]))
    (hi.requests.update hth hths hlog (by rw [hsrc]) ?_ (by simp) (fun _ h => h) (by simp)) hph
    (fun _ _ => rfl) hlisted rfl rfl rfl (.refl _)
    (fun _ h => absurd h Bool.false_ne_true) (fun _ => rfl)
    (fun h => absurd h Bool.false_ne_true) (fun _ h => h) (by simp) (by simp) ?_
    (by simp [Event.precludes]) (by simp)
  · simp [Frame.works, Event.first]
  · intro c' hmem
    rw [List.mem_singleton] at hmem
    cases hmem
    refine .inr ?_
    have hone : s'.events c .called = 1 := congrFun (congrArg View.events hself) .called
    omega

/-! ### `request_stop` -/

/-- `request_stop` calls a callback. -/
theorem Inv.calledStop (hi : Inv maxCallbacks s l credit)
    (hth : s.threads[n]? = some ⟨.invoke .request c :: rest, last⟩)
    (hths : s'.threads = s.threads.set n ⟨.running .request c :: rest, last'⟩)
    (hcb : s'.callbacks = s.callbacks) (hsrc : s'.source = s.source)
    (hlog : s'.log = s.log ++ [.called c]) : Inv maxCallbacks s' l credit := by
  obtain ⟨hlt, ph, hph, hframe⟩ := hi.phases.of_top hth rfl
  obtain ⟨ok, rfl⟩ : ∃ ok, ph = .invoking ok := by
    cases ph <;> simp [Phase.frame] at hframe
    exact ⟨_, rfl⟩
  have hcb' : s'.callbacks = s.callbacks.modify c id := by rw [hcb, List.modify_id]
  have ht : Turn s s' n c (some .invokeStop) (some .runStop) [.called] ⟨true, true, true⟩ :=
    Turn.of_modify (g := id) hph hlt hth rfl hths rfl hcb' (fun _ => rfl) hlog rfl
  refine hi.turn (.running ok) ht hth hths hlog
    (hi.list.congr (State.next_congr hcb) (by rw [hsrc]) (by rw [hsrc]))
    (hi.requests.update hth hths hlog (by rw [hsrc]) ?_ (by simp) (fun _ h => h) (by simp)) hph
    (fun _ _ => rfl) ((Phases.listed_eq hph).trans rfl) rfl rfl rfl ?_
    (fun h _ => absurd h Bool.noConfusion) (fun h => h) (fun _ _ => rfl)
    (fun _ h => h) (by simp) ?_ (by simp)
    (by simp [Event.precludes]) (by simp)
  · simp [List.countP_cons, Frame.works, Event.first]
  · cases ok <;> exact .refl _
  · intro c' hmem
    rw [List.mem_singleton] at hmem
    cases hmem
    exact hi.closings.not_closed hph (.inl rfl)

/-- `request_stop` clears `executing_` of a callback that has returned. -/
theorem Inv.finish {fr : Frame} (hi : Inv maxCallbacks s l 0)
    (hth : s.threads[n]? = some ⟨fr :: rest, last⟩) (hfr : fr.kind = some (c, .runStop))
    (hworks : fr.works = true)
    (hths : s'.threads = s.threads.set n ⟨rest, last'⟩)
    (hcb : s'.callbacks = s.callbacks.modify c f)
    (hf : ∀ cb : StopCallback, (f cb).flags = ⟨cb.source, false, cb.constructed⟩)
    (hnext : ∀ cb : StopCallback, (f cb).next = cb.next)
    (hhead : s'.source.head = s.source.head) (hcount : s'.source.count = s.source.count)
    (hstopped : s'.source.stopped = s.source.stopped) (hlog : s'.log = s.log) :
    Inv maxCallbacks s' l 1 := by
  obtain ⟨hlt, ph, hph, hframe⟩ := hi.phases.of_top hth hfr
  obtain ⟨ok, rfl⟩ : ∃ ok, ph = .running ok := by
    cases ph <;> simp [Phase.frame] at hframe
    exact ⟨_, rfl⟩
  have hlog' : s'.log = s.log ++ [] := by simpa using hlog
  have ht : Turn s s' n c (some .runStop) none [] ⟨true, false, true⟩ := by
    refine Turn.of_modify (g := fun fl => ⟨fl.source, false, fl.constructed⟩) hph hlt hth ?_ hths
      rfl hcb hf hlog' rfl
    rw [kinds, List.filterMap_cons_some hfr]
    rfl
  refine hi.turn (.served ok true) ht hth hths hlog'
    (hi.list.congr (State.next_modify hcb hnext) hhead hcount)
    (hi.requests.update hth hths hlog' hstopped ?_ (by simp) (fun _ h => h) (by simp)) hph
    (fun _ _ => rfl) ((Phases.listed_eq hph).trans rfl) rfl rfl rfl ?_
    (fun h _ => absurd h Bool.noConfusion) (fun h => h) (fun _ _ => rfl) ?_
    (by simp) (by simp) (by simp) .nil .nil
  · rw [List.countP_cons, hworks]
    simp
  · rw [List.append_nil]
    cases ok <;> exact .refl _
  · exact fun d hd => duties_cons hd

/-- The callback at the head of the list. -/
theorem Inv.of_head (hi : Inv maxCallbacks s l credit) (hhead : s.source.head = some c) :
    c < s.callbacks.length ∧ ∃ ok rest, s.view l c = (Phase.listed ok).view ∧ l = c :: rest ∧
      c ∉ rest ∧ Chain s.next (s.next c) rest := by
  have hchain := hi.list.chain
  rw [hhead] at hchain
  obtain ⟨rest, rfl, hrest⟩ := hchain.pop
  have hmem : c ∉ rest := (List.nodup_cons.mp hi.list.nodup).1
  have hone : (c :: rest).count c = 1 := by
    rw [List.count_cons_self, List.count_eq_zero.mpr hmem]
  rcases Nat.lt_or_ge c s.callbacks.length with hlt | hge
  · obtain ⟨ph, hph⟩ := hi.phases.phase c hlt
    have hlisted := Phases.listed_eq hph
    rw [hone] at hlisted
    cases ph <;> simp [Phase.isListed] at hlisted
    exact ⟨hlt, _, rest, hph, rfl, hmem, hrest⟩
  · have habsent : (c :: rest).count c = 0 := congrArg View.listed (hi.phases.absent c hge)
    omega

/-- What popping the head leaves of the list. -/
theorem Listed.pop (h : Listed maxCallbacks s (c :: l)) (hrest : Chain s.next (s.next c) l)
    (hnext : s'.next = s.next) (hhead : s'.source.head = s.next c)
    (hcount : s'.source.count = sizeDecr s.source.count) : Listed maxCallbacks s' l where
  chain := by
    rw [hnext, hhead]
    exact hrest
  nodup := (List.nodup_cons.mp h.nodup).2
  count := by
    have := h.count
    rw [List.length_cons] at this
    rw [hcount, sizeDecr_of_pos (by omega)]
    omega
  bound := by
    have := h.bound
    rw [List.length_cons] at this
    omega

/-- `request_stop` takes a callback off the list, to call it. -/
theorem Inv.handOff (hi : Inv maxCallbacks s l 1) (hth : s.threads[n]? = some ⟨rest, last⟩)
    (hths : s'.threads = s.threads.set n ⟨.invoke .request c :: rest, last'⟩)
    (hcb : s'.callbacks = s.callbacks.modify c f)
    (hf : ∀ cb : StopCallback, (f cb).flags = ⟨cb.source, true, cb.constructed⟩)
    (hnext : ∀ cb : StopCallback, (f cb).next = cb.next) (hhead : s.source.head = some c)
    (hhead' : s'.source.head = s.next c) (hcount : s'.source.count = sizeDecr s.source.count)
    (hstopped : s'.source.stopped = s.source.stopped) (hlog : s'.log = s.log) :
    ∃ l', Inv maxCallbacks s' l' 0 := by
  obtain ⟨hlt, ok, l', hph, rfl, hmem, hrest⟩ := hi.of_head hhead
  have hlog' : s'.log = s.log ++ [] := by simpa using hlog
  have ht : Turn s s' n c none (some .invokeStop) [] ⟨true, true, true⟩ :=
    Turn.of_modify (g := fun fl => ⟨fl.source, true, fl.constructed⟩) hph hlt hth rfl hths rfl hcb
      hf hlog' rfl
  refine ⟨l', hi.turn (.invoking ok) ht hth hths hlog'
    (hi.list.pop hrest (State.next_modify hcb hnext) hhead' hcount)
    (hi.requests.update hth hths hlog' hstopped ?_ (by simp) (fun _ h => by simp at h) (by simp))
    hph (fun c' hne => (List.count_cons_of_ne (Ne.symm hne)).symm)
    (List.count_eq_zero.mpr hmem) rfl rfl rfl ?_ (fun h _ => absurd h Bool.noConfusion)
    (fun h => h) (fun _ _ => rfl) (fun _ h => h) (by simp) (by simp) (by simp) .nil .nil⟩
  · simp [List.countP_cons, Frame.works]
  · rw [List.append_nil]
    cases ok <;> exact .refl _

/-- `request_stop` takes a callback off the list, and fails. -/
theorem Inv.drop (hi : Inv maxCallbacks s l 1) (hth : s.threads[n]? = some ⟨rest, last⟩)
    (hths : s'.threads = s.threads.set n ⟨rest, last'⟩)
    (hcb : s'.callbacks = s.callbacks.modify c f)
    (hf : ∀ cb : StopCallback, (f cb).flags = ⟨cb.source, true, cb.constructed⟩)
    (hnext : ∀ cb : StopCallback, (f cb).next = cb.next) (hhead : s.source.head = some c)
    (hhead' : s'.source.head = s.next c) (hcount : s'.source.count = sizeDecr s.source.count)
    (hstopped : s'.source.stopped = s.source.stopped) (hstatus : status ≠ .ok)
    (hlog : s'.log = s.log ++ [.dropped c, .requested status true]) :
    ∃ l', Inv maxCallbacks s' l' 0 := by
  obtain ⟨hlt, ok, l', hph, rfl, hmem, hrest⟩ := hi.of_head hhead
  have ht : Turn s s' n c none none [.dropped] ⟨true, true, true⟩ :=
    Turn.of_modify (g := fun fl => ⟨fl.source, true, fl.constructed⟩) hph hlt hth rfl hths rfl hcb
      hf hlog rfl
  refine ⟨l', hi.turn (.dropped ok) ht hth hths hlog
    (hi.list.pop hrest (State.next_modify hcb hnext) hhead' hcount)
    (hi.requests.update hth hths hlog hstopped ?_ (by simp) (fun _ h => by simp at h) ?_)
    hph (fun c' hne => (List.count_cons_of_ne (Ne.symm hne)).symm)
    (List.count_eq_zero.mpr hmem) rfl rfl rfl ?_ (fun h _ => absurd h Bool.noConfusion)
    (fun h => h) (fun _ _ => rfl) (fun _ h => h) (by simp) (by simp) (by simp)
    (by simp [Event.precludes]) (by simp)⟩
  · simp [Event.first]
  · intro hreq
    simp only [List.mem_cons, List.not_mem_nil, or_false, reduceCtorEq, false_or,
      Event.requested.injEq, and_true] at hreq
    exact absurd hreq.symm hstatus
  · cases ok <;> exact .refl _

/-! ### `close` -/

/-- A callback on the list. -/
theorem Inv.of_mem (hi : Inv maxCallbacks s l credit) (hmem : c ∈ l) :
    c < s.callbacks.length ∧ ∃ ok, s.view l c = (Phase.listed ok).view := by
  have hpos : 0 < l.count c := List.count_pos_iff.mpr hmem
  rcases Nat.lt_or_ge c s.callbacks.length with hlt | hge
  · obtain ⟨ph, hph⟩ := hi.phases.phase c hlt
    have hlisted := Phases.listed_eq hph
    rw [hlisted] at hpos
    cases ph <;> simp [Phase.isListed] at hpos
    exact ⟨hlt, _, hph⟩
  · have habsent : l.count c = 0 := congrArg View.listed (hi.phases.absent c hge)
    omega

/-- No more callbacks are on the list than there are. -/
theorem Inv.length_le (hi : Inv maxCallbacks s l credit) : l.length ≤ s.callbacks.length := by
  have hsub : l ⊆ List.range s.callbacks.length := by
    intro c hc
    exact List.mem_range.mpr (hi.of_mem hc).1
  have := (hi.list.nodup.subperm hsub).length_le
  rwa [List.length_range] at this

/-- `close` takes a callback off the list. -/
theorem Inv.unlinked (hi : Inv maxCallbacks s l credit) (hmem : c ∈ l)
    (hth : s.threads[n]? = some th) (hths : s'.threads = s.threads)
    (hlen : s'.callbacks.length = s.callbacks.length) (hflags : s'.flags = s.flags)
    (hchain : Chain s'.next s'.source.head (l.erase c))
    (hcount : s'.source.count = sizeDecr s.source.count)
    (hstopped : s'.source.stopped = s.source.stopped)
    (hlog : s'.log = s.log ++ [.unlinked c]) : Inv maxCallbacks s' (l.erase c) credit := by
  obtain ⟨hlt, ok, hph⟩ := hi.of_mem hmem
  have hself : s.threads = s.threads.set n th := by
    obtain ⟨hn, rfl⟩ := List.getElem?_eq_some_iff.mp hth
    rw [List.set_getElem_self]
  have hths' : s'.threads = s.threads.set n th := hths.trans hself
  have ht : Turn s s' n c none none [.unlinked] ⟨true, false, true⟩ :=
    ⟨hlt, hlen, ⟨th, th, kinds th.stack, hth, hths', rfl, rfl⟩, ⟨_, hlog, rfl⟩,
      by rw [hflags, Phases.flags_eq hph]; rfl, fun _ _ => by rw [hflags]⟩
  refine hi.turn (.unlinked ok true) ht hth hths' hlog
    ⟨hchain, hi.list.nodup.erase c, ?_, ?_⟩
    (hi.requests.update hth hths' hlog hstopped ?_ (by simp) ?_ (by simp)) hph ?_ ?_ rfl rfl rfl ?_
    (fun h _ => absurd h Bool.noConfusion) (fun h => h) (fun _ _ => rfl)
    (fun _ h => h) (by simp) (by simp) (by simp) (by simp [Event.precludes]) (by simp)
  · have := hi.list.count
    have hpos : 0 < l.length := List.length_pos_of_mem hmem
    rw [hcount, sizeDecr_of_pos (by omega), List.length_erase_of_mem hmem]
    omega
  · have := hi.list.bound
    rw [List.length_erase_of_mem hmem]
    omega
  · simp [Event.first]
  · rintro - rfl
    cases hmem
  · exact fun c' hne => List.count_erase_of_ne hne
  · rw [List.count_erase_self]
    have := Phases.listed_eq hph
    rw [this]
    rfl
  · cases ok <;> exact .refl _

/-- Storing a pointer changes no flag. -/
theorem State.flags_store {q : Option Nat}
    (hcb : s'.callbacks = s.callbacks.modify c (fun cb => { cb with next := q })) :
    s'.flags = s.flags := by
  funext c'
  by_cases hc : c' = c
  · subst hc
    rw [State.flags_modify (g := id) hcb (fun _ => rfl), Option.map_id, id]
  · exact State.flags_modify_ne hcb hc

/-- `unlink` takes the callback off the list if it is there, and never runs out of list. -/
theorem Inv.unlink (hi : Inv maxCallbacks s l credit) (hth : s.threads[n]? = some th) (c : Nat) :
    ∃ s', s.unlink c = some s' ∧ s'.threads = s.threads ∧ s'.flags = s.flags ∧
      s'.source.stuck = s.source.stuck ∧ s'.source.failure = s.source.failure ∧
      ∃ l', Inv maxCallbacks s' l' credit ∧ c ∉ l' := by
  have hfuel : l.length < s.callbacks.length + 1 := Nat.lt_succ_of_le hi.length_le
  by_cases hmem : c ∈ l
  · have hnot : c ∉ l.erase c := fun h => (hi.list.nodup.mem_erase_iff.mp h).1 rfl
    rcases hi.list.chain.unlink hi.list.nodup hmem hfuel .head with
      ⟨hfind, -, hchain⟩ | ⟨b, hb, -, hfind, hchain⟩
    · let s' : State := State.note { s with
        source := { s.source with head := s.next c, count := sizeDecr s.source.count } }
          (.unlinked c)
      have hs' : s.unlink c = some s' := by
        rw [State.unlink, hfind]
        rfl
      exact ⟨s', hs', rfl, rfl, rfl, rfl, l.erase c,
        hi.unlinked hmem hth rfl rfl rfl hchain rfl rfl rfl, hnot⟩
    · have hblt : b < s.callbacks.length := (hi.of_mem hb).1
      let s' : State := State.note (State.modifyCallback { s with
        source := { s.source with count := sizeDecr s.source.count } } b
          (fun cb => { cb with next := s.next c })) (.unlinked c)
      have hs' : s.unlink c = some s' := by
        rw [State.unlink, hfind]
        rfl
      have hnext : s'.next = Function.update s.next b (s.next c) :=
        State.next_store hblt rfl (fun _ => rfl)
      have hflags : s'.flags = s.flags := State.flags_store rfl
      refine ⟨s', hs', rfl, hflags, rfl, rfl, l.erase c, ?_, hnot⟩
      refine hi.unlinked hmem hth rfl (List.length_modify ..) hflags ?_ rfl rfl rfl
      rw [hnext]
      exact hchain
  · refine ⟨s, ?_, rfl, rfl, rfl, rfl, l, hi, hmem⟩
    rw [State.unlink, hi.list.chain.findLink_of_not_mem hmem hfuel]
    rfl

/-- `close` returns ok. -/
theorem Inv.closedOk {flags : Flags} {stack : List Frame} (hi : Inv maxCallbacks s l credit)
    (hth : s.threads[n]? = some ⟨stack, last⟩) (hths : s'.threads = s.threads.set n ⟨rest, last'⟩)
    (hkinds : kinds rest = kinds stack)
    (hworks : rest.countP Frame.works = stack.countP Frame.works)
    (hduties : ∀ d ∈ duties rest, d ∈ duties stack)
    (hcb : s'.callbacks = s.callbacks.modify c f)
    (hf : ∀ cb : StopCallback, (f cb).flags = ⟨false, cb.executing, cb.constructed⟩)
    (hnext : ∀ cb : StopCallback, (f cb).next = cb.next)
    (hflags : s.flags c = some flags) (hexec : flags.executing = false)
    (hconstr : flags.constructed = true) (hmem : c ∉ l)
    (hhead : s'.source.head = s.source.head) (hcount : s'.source.count = s.source.count)
    (hstopped : s'.source.stopped = s.source.stopped)
    (hlog : s'.log = s.log ++ [.closed c .ok]) : Inv maxCallbacks s' l credit := by
  have hlt : c < s.callbacks.length := by
    by_contra hge
    rw [show s.flags c = none from congrArg View.flags (hi.phases.absent c (by omega))] at hflags
    cases hflags
  obtain ⟨ph, hph⟩ := hi.phases.phase c hlt
  have hpf : ph.flags = flags := by
    rw [Phases.flags_eq hph] at hflags
    exact Option.some.inj hflags
  have hlisted : ph.isListed = 0 := by
    rw [← Phases.listed_eq hph]
    exact List.count_eq_zero.mpr hmem
  -- The callback is off the list and nobody is at work on it: it has been turned away,
  -- called or unlinked.
  obtain ⟨ph', hflags', hl', hframe, hframe', hevents⟩ : ∃ ph' : Phase,
      ph'.flags = ⟨false, false, true⟩ ∧ ph'.isListed = 0 ∧ ph.frame = none ∧ ph'.frame = none ∧
      ph.events = ph'.events := by
    subst hpf
    cases ph with
    | turnedAway source => exact ⟨.turnedAway false, rfl, rfl, rfl, rfl, rfl⟩
    | late source => exact ⟨.late false, rfl, rfl, rfl, rfl, rfl⟩
    | served ok source => exact ⟨.served ok false, rfl, rfl, rfl, rfl, rfl⟩
    | unlinked ok source => exact ⟨.unlinked ok false, rfl, rfl, rfl, rfl, rfl⟩
    | listed ok => cases hlisted
    | constructing | lateInvoke | lateRunning => cases hconstr
    | invoking | running | dropped => cases hexec
  have ht : Turn s s' n c none none [] ⟨false, false, true⟩ := by
    have := Turn.of_modify (x := none) (y := none) (z := [])
      (g := fun fl => ⟨false, fl.executing, fl.constructed⟩) hph hlt hth rfl hths hkinds hcb hf
      hlog rfl
    rw [hpf, hexec, hconstr] at this
    exact this
  refine hi.turn ph' ht hth hths hlog
    (hi.list.congr (State.next_modify hcb hnext) hhead hcount)
    (hi.requests.update hth hths hlog hstopped ?_ (by simp) (fun _ h => h) (by simp)) hph
    (fun _ _ => rfl) ?_ hflags' hframe hframe' ?_ (fun _ _ => rfl) (fun _ => rfl)
    (fun _ _ => hl') hduties ?_
    (by simp) (by simp) (by simp [Event.precludes]) (by simp)
  · rw [hworks]
    simp [Event.first]
  · rw [hl']
    exact List.count_eq_zero.mpr hmem
  · rw [List.append_nil, hevents]
  · intro c' hmem'
    rw [List.mem_singleton] at hmem'
    cases hmem'
    exact ⟨_, ht.here, rfl, rfl⟩

end MicrOsal.Stop
