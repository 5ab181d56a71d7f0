import MicrOsal.Stop.Operations

/-!
# MicrOsal.Stop.Run

Every step keeps the invariant: each branch of the code is a sequence of the operations.
-/

namespace MicrOsal.Stop

variable {s s' : State} {n c : Nat} {th : Thread} {l : List Nat} {rest : List Frame}
variable {last : Return} {status : ErrorCode} {r : Results} {timed : Bool}
variable {maxCallbacks credit : Nat}

/-! ### What the primitives leave alone -/

@[simp] theorem StopSource.record_head (src : StopSource) (status : ErrorCode) :
    (src.record status).head = src.head := by
  rw [StopSource.record]
  split <;> rfl

@[simp] theorem StopSource.record_count (src : StopSource) (status : ErrorCode) :
    (src.record status).count = src.count := by
  rw [StopSource.record]
  split <;> rfl

@[simp] theorem StopSource.record_stopped (src : StopSource) (status : ErrorCode) :
    (src.record status).stopped = src.stopped := by
  rw [StopSource.record]
  split <;> rfl

theorem Inv.record (hi : Inv maxCallbacks s l credit) (status : ErrorCode) :
    Inv maxCallbacks (s.record status) l credit :=
  hi.quiet rfl rfl rfl (by simp [State.record]) (by simp [State.record]) (by simp [State.record])

theorem Inv.unlock (hi : Inv maxCallbacks s l credit) (r : Results) :
    Inv maxCallbacks (s.unlock r) l credit :=
  hi.quiet rfl rfl rfl (by simp [State.unlock]) (by simp [State.unlock]) (by simp [State.unlock])

theorem Inv.lockFailed (hi : Inv maxCallbacks s l credit) (timed : Bool) (locked : ErrorCode) :
    Inv maxCallbacks (s.lockFailed timed locked) l credit := by
  rw [State.lockFailed]
  split
  case isTrue => exact hi
  case isFalse => exact hi.record locked

@[simp] theorem State.lockFailed_threads (s : State) (timed : Bool) (locked : ErrorCode) :
    (s.lockFailed timed locked).threads = s.threads := by
  rw [State.lockFailed]
  split <;> rfl

theorem Inv.spawn (hi : Inv maxCallbacks s l credit) :
    Inv maxCallbacks { s with threads := s.threads ++ [⟨[], .void⟩] } l credit := by
  have hframes : State.frames { s with threads := s.threads ++ [⟨[], .void⟩] } = s.frames := by
    funext c k
    rw [State.frames, tally_append]
    rfl
  have hview : ∀ c, State.view { s with threads := s.threads ++ [⟨[], .void⟩] } l c =
      s.view l c := by
    intro c
    rw [State.view, State.view, hframes]
    rfl
  refine ⟨⟨hi.list.chain, hi.list.nodup, hi.list.count, hi.list.bound⟩, ⟨?_, ?_⟩,
    ⟨?_, hi.requests.started, hi.requests.done⟩,
    ⟨hi.closings.closed, hi.closings.order, hi.closings.late⟩, ?_⟩
  · intro c hlt
    rw [hview]
    exact hi.phases.phase c hlt
  · intro c hge
    rw [hview]
    exact hi.phases.absent c hge
  · rw [State.working, tally_append]
    exact hi.requests.first
  · intro m th d hm hd
    rcases getElem?_concat_cases hm with hm | ⟨-, rfl⟩
    · have hmet := hi.relied m th d hm hd
      cases d with
      | constructed | offList | failed => exact hmet
    · cases hd

/-! ### The constructor -/

theorem Inv.construct (hi : Inv maxCallbacks s l 0) (hth : s.threads[n]? = some th)
    (token callback : Bool) : Inv maxCallbacks (s.construct n th token callback) l 0 := by
  let c := s.callbacks.length
  let begun : State :=
    { s with
      callbacks := s.callbacks ++ [⟨token, none, false, .ok, false⟩]
      threads := s.threads.set n ⟨.construct c :: th.stack, th.last⟩ }
  have hbegun : Inv maxCallbacks begun l 0 := hi.begin hth rfl rfl rfl rfl
  have hth' : begun.threads[n]? = some ⟨.construct c :: th.stack, th.last⟩ :=
    List.getElem?_set_self (List.getElem?_eq_some_iff.mp hth).1
  rw [State.construct]
  split
  case isTrue =>
    exact hbegun.giveUp hth' (List.set_set ..).symm rfl (fun _ => rfl) (fun _ => rfl) rfl rfl rfl
      (List.append_assoc ..) (.inr rfl)
  case isFalse =>
    split
    case isTrue =>
      exact hbegun.giveUp hth' (List.set_set ..).symm rfl (fun _ => rfl) (fun _ => rfl) rfl rfl rfl
        (List.append_assoc ..) (.inr rfl)
    case isFalse =>
      split
      case isTrue =>
        exact hbegun.giveUp hth' (List.set_set ..).symm rfl (fun _ => rfl) (fun _ => rfl) rfl rfl
          rfl (List.append_assoc ..) (.inr rfl)
      case isFalse => exact hbegun

theorem Inv.constructLocked (hi : Inv maxCallbacks s l 0)
    (hth : s.threads[n]? = some ⟨.construct c :: rest, last⟩) :
    ∃ l', Inv maxCallbacks (s.constructLocked maxCallbacks n rest last c r) l' 0 := by
  have hun := hi.unlock r
  rw [State.constructLocked]
  split
  case isTrue =>
    refine ⟨l, ?_⟩
    split
    case isTrue => exact hun.late hth rfl rfl rfl rfl rfl rfl
    case isFalse hbad =>
      exact hun.giveUp hth rfl rfl (fun _ => rfl) (fun _ => rfl) rfl rfl rfl
        (List.append_assoc ..) (.inl hbad)
  case isFalse hnot =>
    split
    case isTrue =>
      exact ⟨l, hun.giveUp hth rfl rfl (fun _ => rfl) (fun _ => rfl) rfl rfl rfl
        (List.append_assoc ..) (.inr rfl)⟩
    case isFalse hroom =>
      refine ⟨c :: l, hi.listed hth rfl (List.modify_modify_eq ..) (fun _ => rfl) (fun _ => rfl)
        ?_ ?_ hroom (by simpa using hnot) ?_ rfl⟩
      · simp [State.constructed, State.note, State.setThread, State.modifyCallback, State.unlock]
      · simp [State.constructed, State.note, State.setThread, State.modifyCallback, State.unlock]
      · simp [State.constructed, State.note, State.setThread, State.modifyCallback, State.unlock]

/-! ### `request_stop` -/

/-- The loop of `request_stop`, entered with the callback taken back. -/
theorem Inv.loop (hi : Inv maxCallbacks s l 1) (hth : s.threads[n]? = some ⟨rest, last⟩) :
    ∃ l', Inv maxCallbacks (s.loop n rest last r) l' 0 := by
  rw [State.loop]
  split
  case h_1 hhead =>
    refine ⟨l, (hi.unlock r).requestedFirst hth rfl rfl rfl rfl rfl rfl rfl ?_⟩
    intro _
    have hchain := hi.list.chain
    rw [hhead] at hchain
    exact hchain.eq_nil
  case h_2 c hhead =>
    dsimp only
    split
    case isTrue =>
      refine hi.handOff hth rfl rfl (fun _ => rfl) (fun _ => rfl) hhead ?_ ?_ ?_ rfl
      · simp [State.setThread, State.unlock, State.modifyCallback]
      · simp [State.setThread, State.unlock, State.modifyCallback]
      · simp [State.setThread, State.unlock, State.modifyCallback]
    case isFalse hbad =>
      refine hi.drop hth rfl rfl (fun _ => rfl) (fun _ => rfl) hhead ?_ ?_ ?_ hbad
        (List.append_assoc ..)
      · simp [State.requested, State.note, State.setThread, State.unlock, State.modifyCallback]
      · simp [State.requested, State.note, State.setThread, State.unlock, State.modifyCallback]
      · simp [State.requested, State.note, State.setThread, State.unlock, State.modifyCallback]

/-- The loop does not look at the calls of its thread. -/
theorem State.loop_setThread (stack : List Frame) (last' : Return) :
    (s.setThread n stack last').loop n rest last r = s.loop n rest last r := by
  rw [State.loop, State.loop]
  cases hhead : s.source.head with
  | none =>
      simp [State.setThread, hhead, State.requested, State.note, State.unlock, State.record]
  | some c =>
      have hnext : State.next (s.setThread n stack last') = s.next := rfl
      simp only [State.setThread] at hnext
      by_cases hok : r.unlock = .ok
      · simp [State.setThread, hhead, State.unlock, State.record, State.modifyCallback, hok, hnext]
      · simp [State.setThread, hhead, State.unlock, State.record, State.modifyCallback, hok, hnext,
          State.requested, State.note]

theorem Inv.requestLocked (hi : Inv maxCallbacks s l 0)
    (hth : s.threads[n]? = some ⟨.request :: rest, last⟩) :
    ∃ l', Inv maxCallbacks (s.requestLocked n rest last r) l' 0 := by
  rw [State.requestLocked]
  split
  case isTrue =>
    refine ⟨l, (hi.unlock r).neutral _ hth rfl rfl rfl (fun _ h => .inl h) rfl rfl rfl rfl rfl ?_⟩
    simp [Event.Neutral, Event.kind, Event.first]
  case isFalse hnot =>
    let stopped : State :=
      State.note { s with source := { s.source with stopped := true } } .stopping
    have hstop : Inv maxCallbacks (stopped.setThread n rest last) l 1 :=
      hi.stopping hth rfl rfl rfl rfl (by simpa using hnot) rfl rfl
    have hth' : (stopped.setThread n rest last).threads[n]? = some ⟨rest, last⟩ :=
      List.getElem?_set_self (List.getElem?_eq_some_iff.mp hth).1
    have hloop := hstop.loop (r := r) hth'
    rw [State.loop_setThread] at hloop
    exact hloop

/-- `executing_` is cleared, by a call that then holds the credit. -/
theorem Inv.finished {fr : Frame} (hi : Inv maxCallbacks s l 0)
    (hth : s.threads[n]? = some ⟨fr :: rest, last⟩) (hfr : fr.kind = some (c, .runStop))
    (hworks : fr.works = true) (status : ErrorCode) :
    Inv maxCallbacks (((s.finished c).record status).setThread n rest last) l 1 := by
  refine hi.finish hth hfr hworks rfl rfl (fun _ => rfl) (fun _ => rfl) ?_ ?_ ?_ rfl
  · simp [State.setThread, State.record, State.finished, State.modifyCallback]
  · simp [State.setThread, State.record, State.finished, State.modifyCallback]
  · simp [State.setThread, State.record, State.finished, State.modifyCallback]

theorem Inv.relocked (hi : Inv maxCallbacks s l 0)
    (hth : s.threads[n]? = some ⟨.relock c :: rest, last⟩) :
    ∃ l', Inv maxCallbacks (s.relocked n rest last c r) l' 0 := by
  have hfin := hi.finished hth rfl rfl r.notify
  have hth' : (((s.finished c).record r.notify).setThread n rest last).threads[n]? =
      some ⟨rest, last⟩ := List.getElem?_set_self (List.getElem?_eq_some_iff.mp hth).1
  rw [State.relocked]
  split
  case isTrue =>
    have hloop := hfin.loop (r := r) hth'
    rw [State.loop_setThread] at hloop
    exact hloop
  case isFalse hbad =>
    exact ⟨l, (hfin.unlock r).requestedFirst hth' (List.set_set ..).symm rfl rfl rfl rfl rfl rfl
      (fun h => absurd h hbad)⟩

/-! ### `close` -/

/-- A call that concerns no callback's invocation returns. -/
theorem Inv.returns {fr : Frame} {e : Event} (hi : Inv maxCallbacks s l 0)
    (hth : s.threads[n]? = some ⟨fr :: rest, last⟩) (hkind : fr.kind = none)
    (hworks : fr.works = false) (he : e.Neutral) (last' : Return) :
    Inv maxCallbacks ((s.note e).setThread n rest last') l 0 := by
  refine hi.neutral _ hth rfl ?_ ?_ ?_ rfl rfl rfl rfl rfl ?_
  · rw [kinds, kinds, List.filterMap_cons_none hkind]
  · rw [List.countP_cons, hworks]
    rfl
  · exact fun d hd => .inl (duties_cons hd)
  · intro e' he'
    rw [List.mem_singleton.mp he']
    exact he

theorem Neutral.closed (hstatus : status ≠ .ok) : (Event.closed c status).Neutral := by
  refine ⟨rfl, rfl, nofun, ?_⟩
  intro c' heq
  cases heq
  exact hstatus rfl

/-- The loop of `close`, entered with the callback off the list. -/
theorem Inv.closeLoop {fr : Frame} (hi : Inv maxCallbacks s l 0)
    (hth : s.threads[n]? = some ⟨fr :: rest, last⟩) (hkind : fr.kind = none)
    (hworks : fr.works = false) (hconstr : s.Constructed c) (hmem : c ∉ l)
    (hs : s.closeLoop n rest last c timed r = some s') : Inv maxCallbacks s' l 0 := by
  obtain ⟨cb, hcb, hs⟩ := Option.bind_eq_some_iff.mp hs
  have hflags : s.flags c = some cb.flags := by
    rw [State.flags, hcb]
    rfl
  have hc : cb.constructed = true := by
    obtain ⟨flags, heq, hc⟩ := hconstr
    rw [hflags] at heq
    cases heq
    exact hc
  have hun := hi.unlock r
  split at hs
  case isTrue => cases hs
  case isFalse =>
    split at hs
    case isTrue =>
      split at hs
      case isTrue =>
        cases hs
        refine hun.returns hth hkind hworks (Neutral.closed ?_) _
        split
        case isTrue => exact fun h => by cases h
        case isFalse hbad => exact hbad
      case isFalse =>
        cases hs
        refine hi.neutral [] hth rfl ?_ ?_ ?_ rfl rfl rfl rfl (List.append_nil _).symm
          (fun _ h => absurd h List.not_mem_nil)
        · exact (List.filterMap_cons_none hkind).symm
        · rw [List.countP_cons, List.countP_cons, hworks]
          rfl
        · intro d hd
          rcases List.mem_cons.mp hd with rfl | hd
          · exact .inr ⟨hconstr, hmem⟩
          · exact .inl (duties_cons hd)
    case isFalse hidle =>
      split at hs
      case isTrue =>
        cases hs
        refine hun.closedOk (c := c) hth rfl ?_ ?_ ?_ rfl (fun _ => rfl) (fun _ => rfl) hflags
          (by simpa [StopCallback.flags] using hidle) hc hmem rfl rfl rfl rfl
        · exact (List.filterMap_cons_none hkind).symm
        · rw [List.countP_cons, hworks]
          rfl
        · exact fun d hd => duties_cons hd
      case isFalse hbad =>
        cases hs
        exact hun.returns hth hkind hworks (Neutral.closed hbad) _

/-- A callback without source is closed. -/
theorem Inv.closedAgain (hi : Inv maxCallbacks s l 0) (hth : s.threads[n]? = some th)
    (hdet : s.Detached c) : Inv maxCallbacks (s.closed n th.stack c .ok) l 0 := by
  refine ⟨hi.list.congr rfl rfl rfl, hi.phases.same hth rfl rfl rfl rfl rfl,
    hi.requests.update hth rfl rfl rfl ?_ (by simp) (fun _ h => h) (by simp),
    hi.closings.neutral rfl rfl (by simp [Event.kind]) ?_,
    hi.relied.update rfl hth (fun _ hd => .inl hd) (fun _ h => h) (fun _ _ h => h)⟩
  · simp [Event.first]
  · intro c' hmem
    rw [List.mem_singleton] at hmem
    cases hmem
    exact hdet

theorem Inv.close (hi : Inv maxCallbacks s l 0) (hth : s.threads[n]? = some th)
    (hs : s.close n th c timed = some s') : Inv maxCallbacks s' l 0 := by
  obtain ⟨cb, hcb, hs⟩ := Option.bind_eq_some_iff.mp hs
  have hflags : s.flags c = some cb.flags := by
    rw [State.flags, hcb]
    rfl
  split at hs
  case isTrue => cases hs
  case isFalse hconstr =>
    have hc : cb.constructed = true := by simpa using hconstr
    split at hs
    case isTrue hsource =>
      cases hs
      exact hi.closedAgain hth ⟨_, hflags, by simpa [StopCallback.flags] using hsource, hc⟩
    case isFalse =>
      cases hs
      refine hi.neutral [] hth rfl rfl ?_ ?_ rfl rfl rfl rfl (List.append_nil _).symm
        (fun _ h => absurd h List.not_mem_nil)
      · rw [List.countP_cons]
        rfl
      · intro d hd
        rcases List.mem_cons.mp hd with rfl | hd
        · exact .inr ⟨_, hflags, hc⟩
        · exact .inl hd

/-! ### Steps -/

/-- A region runs with the lock, or the lock has failed. -/
theorem State.of_region {locked failed : Option State} (h : s.region r locked failed = some s') :
    (r.lock ≠ .ok ∧ failed = some s') ∨
      (r.lock = .ok ∧ s.source.stuck = false ∧ locked = some s') := by
  rw [State.region] at h
  split at h
  case isTrue hbad => exact .inl ⟨hbad, h⟩
  case isFalse hok =>
    split at h
    case isTrue => cases h
    case isFalse hfree => exact .inr ⟨not_not.mp hok, by simpa using hfree, h⟩

theorem Inv.advance (hi : Inv maxCallbacks s l 0) {stack : List Frame}
    (hth : s.threads[n]? = some ⟨stack, last⟩)
    (hs : s.advance maxCallbacks n r ⟨stack, last⟩ = some s') :
    ∃ l', Inv maxCallbacks s' l' 0 := by
  match stack, hth, hs with
  | .construct c :: rest, hth, hs =>
      rcases State.of_region hs with ⟨-, hs⟩ | ⟨-, -, hs⟩
      · cases hs
        have hth' : (s.lockFailed false r.lock).threads[n]? =
            some ⟨.construct c :: rest, last⟩ := by rw [State.lockFailed_threads]; exact hth
        exact ⟨l, (hi.lockFailed false r.lock).giveUp hth' rfl rfl (fun _ => rfl) (fun _ => rfl)
          rfl rfl rfl (List.append_assoc ..) (.inr rfl)⟩
      · cases hs
        exact hi.constructLocked hth
  | .request :: rest, hth, hs =>
      rcases State.of_region hs with ⟨-, hs⟩ | ⟨-, -, hs⟩
      · cases hs
        have hth' : (s.lockFailed false r.lock).threads[n]? = some ⟨.request :: rest, last⟩ := by
          rw [State.lockFailed_threads]
          exact hth
        have hneutral : (Event.requested r.lock false).Neutral := ⟨rfl, rfl, nofun, nofun⟩
        exact ⟨l, (hi.lockFailed false r.lock).returns hth' rfl rfl hneutral _⟩
      · cases hs
        exact hi.requestLocked hth
  | .invoke .constructor c :: rest, hth, hs =>
      cases hs
      exact ⟨l, hi.calledLate hth rfl rfl rfl rfl⟩
  | .invoke .request c :: rest, hth, hs =>
      cases hs
      exact ⟨l, hi.calledStop hth rfl rfl rfl rfl⟩
  | .running .constructor c :: rest, hth, hs =>
      cases hs
      exact ⟨l, hi.lateDone hth rfl rfl (fun _ => rfl) (fun _ => rfl) rfl rfl⟩
  | .running .request c :: rest, hth, hs =>
      cases hs
      refine ⟨l, hi.neutral [] hth rfl rfl ?_ (fun _ h => .inl h) rfl rfl rfl rfl
        (List.append_nil _).symm (fun _ h => absurd h List.not_mem_nil)⟩
      rw [List.countP_cons, List.countP_cons]
      rfl
  | .relock c :: rest, hth, hs =>
      rcases State.of_region hs with ⟨hbad, hs⟩ | ⟨-, -, hs⟩
      · cases hs
        have hth' : (s.lockFailed false r.lock).threads[n]? = some ⟨.relock c :: rest, last⟩ := by
          rw [State.lockFailed_threads]
          exact hth
        refine ⟨l, (hi.lockFailed false r.lock).neutral [] hth' rfl rfl ?_ ?_ rfl rfl rfl
          rfl (List.append_nil _).symm (fun _ h => absurd h List.not_mem_nil)⟩
        · rw [List.countP_cons, List.countP_cons]
          rfl
        · intro d hd
          rcases List.mem_cons.mp hd with rfl | hd
          · exact .inr hbad
          · exact .inl hd
      · cases hs
        exact hi.relocked hth
  | .unfinished c locked :: rest, hth, hs =>
      cases hs
      have hfin := hi.finished hth rfl rfl r.notify
      have hth' : (((s.finished c).record r.notify).setThread n rest last).threads[n]? =
          some ⟨rest, last⟩ := List.getElem?_set_self (List.getElem?_eq_some_iff.mp hth).1
      have hbad : locked ≠ .ok := hi.relied n _ (.failed locked) hth (List.mem_cons_self ..)
      exact ⟨l, hfin.requestedFirst hth' (List.set_set ..).symm rfl rfl rfl rfl rfl rfl
        (fun h => absurd h hbad)⟩
  | .close c timed :: rest, hth, hs =>
      rcases State.of_region hs with ⟨hbad, hs⟩ | ⟨-, -, hs⟩
      · cases hs
        have hth' : (s.lockFailed timed r.lock).threads[n]? =
            some ⟨.close c timed :: rest, last⟩ := by rw [State.lockFailed_threads]; exact hth
        exact ⟨l, (hi.lockFailed timed r.lock).returns hth' rfl rfl (Neutral.closed hbad) _⟩
      · obtain ⟨s₁, hs₁, hs⟩ := Option.bind_eq_some_iff.mp hs
        obtain ⟨s₁', hun, hths, hflags, -, -, l', hi', hmem⟩ := hi.unlink hth c
        rw [hs₁] at hun
        cases hun
        have hconstr : s.Constructed c :=
          hi.relied n _ (.constructed c) hth (List.mem_cons_self ..)
        rw [State.Constructed, ← hflags] at hconstr
        rw [← hths] at hth
        exact ⟨l', hi'.closeLoop hth rfl rfl hconstr hmem hs⟩
  | .waiting c timed :: rest, hth, hs =>
      obtain ⟨hconstr, hmem⟩ := hi.relied n _ (.offList c) hth (List.mem_cons_self ..)
      simp only [State.advance] at hs
      split at hs
      case isTrue => cases hs
      case isFalse =>
        split at hs
        case isTrue => exact ⟨l, hi.closeLoop hth rfl rfl hconstr hmem hs⟩
        case isFalse hbad =>
          cases hs
          have hwait : r.wait ≠ .ok := fun h => hbad (.inl h)
          rw [State.waitFailed]
          split
          case isTrue =>
            exact ⟨l, ((hi.record r.wait).unlock r).returns hth rfl rfl (Neutral.closed hwait) _⟩
          case isFalse => exact ⟨l, (hi.unlock r).returns hth rfl rfl (Neutral.closed hwait) _⟩

/-- Every step keeps the invariant. -/
theorem Inv.step (hi : Inv maxCallbacks s l 0) {a : Action}
    (hs : s.step maxCallbacks a = some s') : ∃ l', Inv maxCallbacks s' l' 0 := by
  have hcall : ∀ {n : Nat} {f : Thread → Option State}, s.call n f = some s' →
      ∃ th, s.threads[n]? = some th ∧ f th = some s' := by
    intro n f h
    obtain ⟨th, hth, h⟩ := Option.bind_eq_some_iff.mp h
    split at h
    case isTrue => exact ⟨th, hth, h⟩
    case isFalse => cases h
  cases a with
  | spawn =>
      cases hs
      exact ⟨l, hi.spawn⟩
  | construct n token callback =>
      obtain ⟨th, hth, hs⟩ := hcall hs
      cases hs
      exact ⟨l, hi.construct hth token callback⟩
  | request n =>
      obtain ⟨th, hth, hs⟩ := hcall hs
      cases hs
      refine ⟨l, ?_⟩
      rw [State.request]
      split
      case isTrue =>
        refine hi.neutral _ hth rfl rfl rfl (fun _ h => .inl h) rfl rfl rfl rfl rfl ?_
        simp [Event.Neutral, Event.kind, Event.first]
      case isFalse =>
        refine hi.neutral [] hth rfl rfl ?_ (fun _ h => .inl h) rfl rfl rfl rfl
          (List.append_nil _).symm (fun _ h => absurd h List.not_mem_nil)
        rw [List.countP_cons]
        rfl
  | close n c timed =>
      obtain ⟨th, hth, hs⟩ := hcall hs
      exact ⟨l, hi.close hth hs⟩
  | advance n r =>
      obtain ⟨th, hth, hs⟩ := Option.bind_eq_some_iff.mp hs
      exact hi.advance hth hs
  | repair =>
      cases hs
      exact ⟨l, hi.quiet rfl rfl rfl rfl rfl rfl⟩

/-- The invariant of every run. -/
theorem Inv.of_reachable {initialization : ErrorCode}
    (h : (stopMachine maxCallbacks initialization).Reachable s) :
    ∃ l, Inv maxCallbacks s l 0 := by
  refine Machine.Reachable.invariant (I := fun s => ∃ l, Inv maxCallbacks s l 0) ?_ ?_ h
  · refine ⟨[], ⟨.nil, .nil, rfl, Nat.zero_le _⟩, ⟨?_, fun _ _ => rfl⟩, ⟨Nat.le_refl _, ?_, ?_⟩,
      ⟨?_, .nil, .nil⟩, ?_⟩
    · exact fun c hlt => absurd hlt (Nat.not_lt_zero _)
    · exact fun _ h => absurd h List.not_mem_nil
    · exact fun h => absurd h List.not_mem_nil
    · exact fun _ h => absurd h List.not_mem_nil
    · intro m th d hm
      cases hm
  · rintro s a s' - ⟨l, hi⟩ hs
    exact hi.step hs

end MicrOsal.Stop
