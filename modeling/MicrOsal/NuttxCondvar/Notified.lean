import MicrOsal.NuttxCondvar.Delivery

/-!
# MicrOsal.NuttxCondvar.Notified

A notification reaches the waits it found, as long as no permit goes to a later wait and no wait
that was notified times out. One permit that goes astray, and a thread that waited is left
behind (`nuttxCondvar_left`).
-/

namespace MicrOsal.NuttxCondvar

variable {s s' : State} {a : Action} {n j : Nat} {th : Thread} {N : Note}

/-! ### Runs -/

/-- Every notification is on its way, and no permit was taken by a later wait. -/
structure Kept (s : State) : Prop where
  notes : ∀ (j : Nat) (N : Note), s.notes[j]? = some N → NoteOk s j N
  takes : ∀ x ∈ s.takes, x.2.admits x.1 = true

/-- `heeds` of a step that gives a permit to a wait. -/
theorem heeds_arrive {k ticket : Nat} {timed : Bool} {permit : Permit}
    (hn : s.threads[n]? = some (.arrives ticket timed)) (hk : s.permits[k]? = some permit)
    (h : Heeds s (.arrive n k)) : permit.admits ticket = true := by
  unfold Heeds State.heeds at h
  dsimp only at h
  rw [hn, hk] at h
  exact h

theorem heeds_post {m note own spare ticket : Nat} {owed timed : Bool}
    (hn : s.threads[n]? = some (.posts note own spare))
    (hm : s.threads[m]? = some (.blocked ticket timed)) (h : Heeds s (.post n owed (some m))) :
    (s.permitOf note owed).admits ticket = true := by
  unfold Heeds State.heeds at h
  dsimp only at h
  rw [hn, hm] at h
  exact h

theorem heeds_expire {ticket : Nat} (hn : s.threads[n]? = some (.blocked ticket true))
    (h : Heeds s (.expire n) ∨ Heeds s (.interrupt n)) : s.spared ticket = true := by
  unfold Heeds State.heeds at h
  dsimp only at h
  rw [hn] at h
  exact h.elim id id

theorem takes_concat {takes : List (Nat × Permit)} {ticket : Nat} {permit : Permit}
    (h : ∀ x ∈ takes, x.2.admits x.1 = true) (hadmits : permit.admits ticket = true) :
    ∀ x ∈ takes ++ [(ticket, permit)], x.2.admits x.1 = true := by
  intro x hx
  rcases List.mem_append.mp hx with hx | hx
  · exact h x hx
  · obtain rfl := List.mem_singleton.mp hx
    exact hadmits

theorem Kept.step (h : Kept s) (hcounted : Counted s) (hheeds : Heeds s a)
    (hs : Moves s a s') : Kept s' := by
  cases hs with
  | spawns =>
      have howed : ∀ j, tally (Thread.owes j) (s.threads ++ [.outside none]) = s.owed j := by
        intro j
        rw [tally_append]
        rfl
      refine ⟨fun j N hN => (h.notes j N hN).same rfl ?_ ?_, h.takes⟩
      · exact fun hhope => hhope.imp_left (fun hpos => lt_of_lt_of_eq hpos (howed j).symm)
      · exact Nat.add_le_add_left (howed j).ge _
  | locks | unlocks => exact ⟨fun j N hN => (h.notes j N hN).same rfl id le_rfl, h.takes⟩
  | joins hn | blocks hn | retries hn | leaves hn =>
      exact ⟨fun j N hN => (h.notes j N hN).thread hn rfl rfl rfl rfl, h.takes⟩
  | @begins n timed hn =>
      refine ⟨fun j N hN => ?_, h.takes⟩
      have hok := h.notes j N hN
      have howed : tally (Thread.owes j) (s.threads.set n (.arrives s.waits.length timed)) =
          s.owed j := owed_set hn rfl
      have hold : ∀ w, w < N.horizon → (s.waits ++ [Wait.waiting])[w]? = s.waits[w]? :=
        fun w hw => List.getElem?_append_left (lt_of_lt_of_le hw hok.horizon)
      refine hok.keep ?_ (fun w hw => ?_) (fun w hw hdone => ?_) ?_ ?_ ?_
      · dsimp only [State.setThread]
        rw [List.length_append]
        exact Nat.le_add_right _ _
      · unfold State.Waiting
        rw [State.setThread, hold w hw]
      · unfold State.succeeded at hdone ⊢
        rw [State.setThread, hold w hw]
        exact hdone
      · unfold State.below
        rw [State.setThread, List.take_append_of_le_length hok.horizon]
      · exact fun hhope => hhope.imp_left (fun hpos => lt_of_lt_of_eq hpos howed.symm)
      · unfold State.supply State.owed at *
        exact Nat.add_le_add_left howed.ge _
  | takes hn hk =>
      have hadmits := heeds_arrive hn hk hheeds
      exact ⟨fun j N hN => (h.notes j N hN).takes hcounted hn hk hadmits,
        takes_concat h.takes hadmits⟩
  | expires hn =>
      have hspared := heeds_expire hn (.inl hheeds)
      exact ⟨fun j N hN => (h.notes j N hN).failed (List.mem_of_getElem? hN) hcounted hn hspared,
        h.takes⟩
  | interrupted hn =>
      have hspared := heeds_expire hn (.inr hheeds)
      exact ⟨fun j N hN => (h.notes j N hN).failed (List.mem_of_getElem? hN) hcounted hn hspared,
        h.takes⟩
  | @returns n ticket code hn =>
      refine ⟨fun j N hN => ?_, h.takes⟩
      have hgoing : s.waits[ticket]? = some (.going code) :=
        hcounted.owned.recorded n _ ticket hn rfl
      have howed : tally (Thread.owes j) (s.threads.set n (.outside (some code))) = s.owed j :=
        owed_set hn rfl
      refine (h.notes j N hN).keep ?_ (fun w _ => ?_) (fun w _ hdone => ?_) ?_ ?_ ?_
      · dsimp only [State.setThread]
        rw [List.length_set]
      · unfold State.Waiting
        by_cases heq : ticket = w
        · subst heq
          rw [State.setThread, List.getElem?_set_self (List.getElem?_eq_some_iff.mp hgoing).1,
            hgoing]
          exact ⟨(fun h => by cases h), (fun h => by cases h)⟩
        · rw [State.setThread, List.getElem?_set_ne heq]
      · refine succeeded_set hgoing (fun hok => ?_) hdone rfl
        unfold Wait.succeeded at hok ⊢
        simpa using hok
      · have hbelow := below_set N.horizon (.returned code) hgoing
        unfold State.below
        dsimp only [State.setThread]
        simpa [Wait.pending] using hbelow.le
      · exact fun hhope => hhope.imp_left (fun hpos => lt_of_lt_of_eq hpos howed.symm)
      · unfold State.supply State.owed at *
        exact Nat.add_le_add_left howed.ge _
  | notifies hn =>
      refine ⟨fun j N hN => ?_, h.takes⟩
      rcases getElem?_concat_cases hN with hN | ⟨rfl, rfl⟩
      · have hne : s.notes.length ≠ j := ((List.getElem?_eq_some_iff.mp hN).1).ne'
        exact (h.notes j N hN).thread hn rfl (owes_posting.trans (if_neg hne)) rfl rfl
      · exact .new hcounted hn rfl rfl
  | frees hn howed =>
      exact ⟨fun j N hN => (h.notes j N hN).frees hN hn howed, h.takes⟩
  | gives hn howed _ hm =>
      have hadmits := heeds_post hn hm hheeds
      exact ⟨fun j N hN => (h.notes j N hN).gives hN hcounted hn howed hm hadmits,
        takes_concat h.takes hadmits⟩

theorem Kept.of_reachable (h : machine.ReachableBy Heeds s) : Kept s := by
  refine h.invariant (I := Kept) ?_ (fun s a s' hr hi hheeds hs => ?_)
  · exact ⟨fun _ _ hN => (nomatch hN), fun _ hx => (nomatch hx)⟩
  · exact hi.step (.of_reachable hr.reachable) hheeds (moves_of_step hs)

/-! ### Notifications -/

/-- The notification has made its posts, and of the waits it found those that have not returned
are blocked: nothing more happens to them by itself. -/
structure AtRest (s : State) (j : Nat) (N : Note) : Prop where
  posted : ∀ th ∈ s.threads, ∀ own spare, th ≠ .posts j own spare
  still : ∀ w ∈ N.waiters, (∃ code, s.waits[w]? = some (.returned code)) ∨
    ∃ timed, .blocked w timed ∈ s.threads

/-- A notification reaches the waits it found. -/
structure Delivered (s : State) (j : Nat) (N : Note) : Prop where
  /-- One of them has been woken, or may still be. -/
  oneLive : N.all = false → N.waiters ≠ [] → ∃ w ∈ N.waiters, s.live w = true
  one : N.all = false → N.waiters ≠ [] → AtRest s j N →
    ∃ w ∈ N.waiters, s.waits[w]? = some (.returned .ok)
  eachLive : N.all = true → ∀ w ∈ N.waiters, s.live w = true
  each : N.all = true → AtRest s j N → ∀ w ∈ N.waiters, s.waits[w]? = some (.returned .ok)

/-- It is the next step of thread `n` in its call. -/
def Action.goesOn (n : Nat) : Action → Bool
  | .release m | .arrive m _ | .leave m | .relock m | .post m _ _ => m == n
  | _ => false

theorem give_enabled (permit : Permit) : ∃ target, s.give permit target ≠ none := by
  cases hany : s.threads.any Thread.isBlocked with
  | false =>
      refine ⟨none, ?_⟩
      unfold State.give
      simp [hany]
  | true =>
      obtain ⟨u, hu, hblocked⟩ := List.any_eq_true.mp hany
      obtain ⟨m, hm⟩ := List.getElem?_of_mem hu
      refine ⟨some m, ?_⟩
      cases u with
      | blocked ticket timed =>
          unfold State.give
          simp [hm]
      | outside | joined | arrives | leaves | relocks | posts => cases hblocked

/-- A thread in a call goes on, unless it is blocked or waits for the mutex. -/
theorem Counted.goes_on (h : Counted s) (hn : s.threads[n]? = some th)
    (hcall : ∀ last, th ≠ .outside last) (hblocked : th.isBlocked = false)
    (hmutex : s.owner = none ∨ ∀ ticket code, th ≠ .relocks ticket code) :
    ∃ a : Action, a.goesOn n = true ∧ s.step a ≠ none := by
  cases th with
  | outside last => exact absurd rfl (hcall last)
  | blocked => cases hblocked
  | joined timed =>
      exact ⟨.release n, beq_self_eq_true n, by simp [State.step, State.release, hn]⟩
  | arrives ticket timed =>
      refine ⟨.arrive n 0, beq_self_eq_true n, ?_⟩
      cases hpermits : s.permits <;> simp [State.step, State.arrive, hn, hpermits]
  | leaves ticket code =>
      exact ⟨.leave n, beq_self_eq_true n, by simp [State.step, State.leave, hn]⟩
  | relocks ticket code =>
      have howner := hmutex.resolve_right (fun hnot => hnot ticket code rfl)
      exact ⟨.relock n, beq_self_eq_true n, by simp [State.step, State.relock, hn, howner]⟩
  | posts note own spare =>
      have hpos := (h.noted n note own spare hn).2
      cases own with
      | succ own =>
          obtain ⟨target, hgive⟩ := give_enabled
            (s := s.setThread n (.posting note own spare)) (s.permitOf note true)
          exact ⟨.post n true target, beq_self_eq_true n,
            by simpa [State.step, State.post, hn] using hgive⟩
      | zero =>
          obtain ⟨spare, rfl⟩ : ∃ left, spare = left + 1 :=
            Nat.exists_eq_succ_of_ne_zero (by omega)
          obtain ⟨target, hgive⟩ := give_enabled
            (s := s.setThread n (.posting note 0 spare)) (s.permitOf note false)
          exact ⟨.post n false target, beq_self_eq_true n,
            by simpa [State.step, State.post, hn] using hgive⟩

/-- A wait that has succeeded returns ok. -/
theorem returned_of_succeeded {w : Nat} (hcounted : Counted s) (hrest : AtRest s j N)
    (hw : w ∈ N.waiters) (hdone : s.succeeded w = true) :
    s.waits[w]? = some (.returned .ok) := by
  unfold State.succeeded at hdone
  rcases hrest.still w hw with ⟨code, hcode⟩ | ⟨timed, hmem⟩
  · rw [hcode] at hdone ⊢
    rcases of_decide_eq_true hdone with heq | heq
    · cases heq
    · rw [heq]
  · obtain ⟨m, hm⟩ := List.getElem?_of_mem hmem
    rw [hcounted.owned.recorded m _ w hm rfl] at hdone
    cases hdone

/-- While a wait is blocked, there are no permits. -/
theorem permits_of_waiting {w : Nat} (hcounted : Counted s) (hrest : AtRest s j N)
    (hw : w ∈ N.waiters) (hwait : s.Waiting w) : s.permits = [] := by
  rcases hrest.still w hw with ⟨code, hcode⟩ | ⟨timed, hmem⟩
  · cases hcode.symm.trans hwait
  · obtain ⟨m, hm⟩ := List.getElem?_of_mem hmem
    exact hcounted.blocked m _ hm rfl

theorem owed_of_rest (hrest : AtRest s j N) : s.owed j = 0 := by
  refine tally_eq_zero (fun m u hm => ?_)
  cases u with
  | posts note own spare =>
      refine if_neg ?_
      rintro rfl
      exact hrest.posted _ (List.mem_of_getElem? hm) own spare rfl
  | outside | joined | arrives | blocked | leaves | relocks => rfl

theorem delivered (h : NoteOk s j N) (hcounted : Counted s) : Delivered s j N where
  oneLive hall hne := by
    rcases h.one hall hne with ⟨w, hw, hdone⟩ | ⟨-, w, hw, hwait⟩
    · exact ⟨w, hw, Bool.or_eq_true_iff.mpr (.inr hdone)⟩
    · exact ⟨w, hw, live_of_waiting hwait⟩
  one hall hne hrest := by
    rcases h.one hall hne with ⟨w, hw, hdone⟩ | ⟨hhope, w, hw, hwait⟩
    · exact ⟨w, hw, returned_of_succeeded hcounted hrest hw hdone⟩
    · rcases hhope with hpos | hmem
      · exact absurd (owed_of_rest hrest) hpos.ne'
      · rw [permits_of_waiting hcounted hrest hw hwait] at hmem
        cases hmem
  eachLive := h.each
  each hall hrest w hw := by
    rcases live_cases (h.each hall w hw) with hwait | hdone
    · have henough := h.enough hall
      unfold State.supply at henough
      rw [permits_of_waiting hcounted hrest hw hwait, owed_of_rest hrest] at henough
      have hmem : Wait.waiting ∈ s.waits.take N.horizon :=
        List.mem_of_getElem? ((List.getElem?_take_of_lt (h.before w hw)).trans hwait)
      have hpos : 0 < s.below N.horizon := List.countP_pos_iff.mpr ⟨_, hmem, rfl⟩
      exact absurd henough (not_le.mpr hpos)
    · exact returned_of_succeeded hcounted hrest hw hdone

/-- A notification is delivered, no permit goes to a later wait, and a call goes on until it
returns, is blocked in the semaphore or waits for the mutex. -/
theorem nuttxCondvar_notifies (h : machine.ReachableBy Heeds s) :
    (∀ (j : Nat) (N : Note), s.notes[j]? = some N → Delivered s j N) ∧
      (∀ (ticket : Nat) (permit : Permit), (ticket, permit) ∈ s.takes →
        permit.admits ticket = true) ∧
      ∀ (n : Nat) (th : Thread), s.threads[n]? = some th → (∀ last, th ≠ .outside last) →
        th.isBlocked = false → (s.owner = none ∨ ∀ ticket code, th ≠ .relocks ticket code) →
        ∃ a : Action, a.goesOn n = true ∧ s.step a ≠ none := by
  have hkept := Kept.of_reachable h
  have hcounted : Counted s := .of_reachable h.reachable
  exact ⟨fun j N hN => delivered (hkept.notes j N hN) hcounted,
    fun ticket permit hmem => hkept.takes (ticket, permit) hmem,
    fun _ _ hn hcall hblocked hmutex => hcounted.goes_on hn hcall hblocked hmutex⟩

/-- Thread 0 waits, and is about to call the semaphore when thread 1 notifies; it takes the
permit, and then it takes the mutex and returns. -/
def woken : List Action :=
  [.spawn, .spawn, .lock 0, .wait 0 false, .release 0, .notify 1 false, .post 1 true none,
    .arrive 0 0, .leave 0, .relock 0]

theorem nuttxCondvar_notifies_woken : ∃ s, machine.ReachableBy Heeds s ∧
    s.notes = [⟨false, 1, [0]⟩] ∧ s.takes = [(0, some 1)] ∧ Delivered s 0 ⟨false, 1, [0]⟩ ∧
    s.waits = [.returned .ok] := by
  have hrun : (machine.run machine.init woken).map (fun s => (s.notes, s.takes, s.waits)) =
      some ([⟨false, 1, [0]⟩], [(0, some 1)], [.returned .ok]) := by decide +kernel
  obtain ⟨s, hs, hfields⟩ := Option.map_eq_some_iff.mp hrun
  have hreach : machine.ReachableBy Heeds s := .of_run .init (by decide +kernel) hs
  have hnotes : s.notes = [⟨false, 1, [0]⟩] := congrArg Prod.fst hfields
  refine ⟨s, hreach, hnotes, congrArg (fun p => p.2.1) hfields, ?_,
    congrArg (fun p => p.2.2) hfields⟩
  exact (nuttxCondvar_notifies hreach).1 0 _ (congrArg (fun l => l[0]?) hnotes)

/-- Thread 0 waits when thread 1 notifies; thread 2 begins to wait after that, and takes the
permit; thread 0 is left. -/
def takenLate : List Action :=
  [.spawn, .spawn, .spawn, .lock 0, .wait 0 false, .release 0, .notify 1 false,
    .post 1 true none, .lock 2, .wait 2 false, .release 2, .arrive 2 0, .leave 2, .relock 2,
    .arrive 0 0]

theorem nuttxCondvar_left : ¬ ∀ s, machine.Reachable s →
    (∀ (j : Nat) (N : Note), s.notes[j]? = some N → Delivered s j N) ∧
      ∀ (ticket : Nat) (permit : Permit), (ticket, permit) ∈ s.takes →
        permit.admits ticket = true := by
  intro hall
  have hrun : (machine.run machine.init takenLate).map
      (fun s => (s.notes, s.takes, s.waits, s.threads)) =
      some ([⟨false, 1, [0]⟩], [(1, some 1)], [.waiting, .returned .ok],
        [.blocked 0 false, .outside (some .ok), .outside (some .ok)]) := by decide +kernel
  obtain ⟨s, hs, hfields⟩ := Option.map_eq_some_iff.mp hrun
  have hnotes : s.notes = [⟨false, 1, [0]⟩] := congrArg Prod.fst hfields
  have hwaits : s.waits = [.waiting, .returned .ok] := congrArg (fun p => p.2.2.1) hfields
  have hthreads : s.threads = [.blocked 0 false, .outside (some .ok), .outside (some .ok)] :=
    congrArg (fun p => p.2.2.2) hfields
  have hdelivered := (hall s (.of_run hs)).1 0 _ (congrArg (fun l => l[0]?) hnotes)
  have hrest : AtRest s 0 ⟨false, 1, [0]⟩ := by
    constructor
    · rw [hthreads]
      simp
    · intro w hw
      obtain rfl := List.mem_singleton.mp hw
      rw [hthreads]
      exact .inr ⟨false, List.mem_cons_self⟩
  obtain ⟨w, hw, hok⟩ := hdelivered.one rfl (List.cons_ne_nil _ _) hrest
  obtain rfl := List.mem_singleton.mp hw
  rw [hwaits] at hok
  cases hok

end MicrOsal.NuttxCondvar
