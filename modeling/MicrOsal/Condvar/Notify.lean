import MicrOsal.Condvar.Tokens

/-!
# MicrOsal.Condvar.Notify

What becomes of a notification. A wait that has timed out keeps its slot until
it has locked the user mutex again, and `notify_one` still selects it. The
notification is then spent on a wait that returns `timeout`, while a wait that
could have used it stays blocked. As long as `notify_one` does not meet such a
slot first, every notification given while somebody can use it makes a wait
return ok.
-/

namespace MicrOsal

namespace CvState

/-- The wait `t` has returned ok, or is on its way to: it has taken its token, or
the token lies in its semaphore, from where nobody else takes it and where it
keeps the wait from timing out. -/
def ReturnsOk (s : CvState) (t : Nat) : Prop :=
  (t, ErrorCode.ok) ∈ s.returned ∨
    ∃ m k, (s.threads m).registered = some (k, t) ∧
      ((s.threads m).taken = some .ok ∨
        ((s.threads m).taken = none ∧ ∃ w, s.cv.waiters[k]? = some w ∧ w.sem = true))

/-- Every `notify_one` that was called while a registered, unsignalled wait had not
timed out makes one of the waits that were registered and unsignalled return
ok. -/
def NoticesDelivered (s : CvState) : Prop :=
  ∀ notice ∈ s.notices, notice.eligible ≠ [] → ∃ t ∈ notice.waiting, s.ReturnsOk t

/-- If somebody can use a notification, the slot `notify_one` selects does not
belong to a wait that has timed out. -/
def TargetWaiting (s : CvState) : CvAct → Prop
  | .notifyOne _ => s.eligibleTickets ≠ [] → ∀ kw ∈ s.cv.target, kw.2.ticket ∉ s.timedOut
  | _ => True

instance (s : CvState) (a : CvAct) : Decidable (s.TargetWaiting a) :=
  match a with
  | .notifyOne _ =>
      inferInstanceAs (Decidable (_ → ∀ kw ∈ s.cv.target, kw.2.ticket ∉ s.timedOut))
  | .lock _ => .isTrue trivial
  | .unlock _ => .isTrue trivial
  | .wait _ _ => .isTrue trivial
  | .waitPredicate _ => .isTrue trivial
  | .notificationWait _ => .isTrue trivial
  | .notifyAll _ => .isTrue trivial
  | .step _ _ => .isTrue trivial

end CvState

/-! ### The life of a wait -/

section Life

variable {s s' : CvState} {m k t : Nat} {a : CvAct}

/-- The parts of a step that the record of waits is about: a wait goes on or
returns, nothing recorded is forgotten, a drawn ticket belongs to a wait, and
only a wait without a token times out. -/
structure CvProgress (s s' : CvState) : Prop where
  notified : ∀ t ∈ s.notified, t ∈ s'.notified
  returned : ∀ x ∈ s.returned, x ∈ s'.returned
  wait : ∀ m k t, (s.threads m).registered = some (k, t) →
    (s'.threads m).registered = some (k, t) ∨ ∃ r, (t, r) ∈ s'.returned
  drawn : ∀ t < s'.nextTicket, t < s.nextTicket ∨ ∃ m k, (s'.threads m).registered = some (k, t)
  timedOut : ∀ t ∈ s'.timedOut, t ∈ s.timedOut ∨
    ∃ m c k w, s.threads m = .take c k t ∧ s.cv.waiters[k]? = some w ∧ w.sem = false

/-- A step in which only the place of thread `n` changes, and not the wait it is
in. -/
theorem CvProgress.thread {n : Nat} {th' : CvThread} {cv : EmuCondvar} {mutex : Option Nat}
    {released : Nat → Bool} (hreg : th'.registered = (s.threads n).registered) :
    CvProgress s { s with
      cv := cv
      mutex := mutex
      released := released
      threads := Function.update s.threads n th' } where
  notified := fun _ h => h
  returned := fun _ h => h
  wait := fun m _ _ h => .inl ((registered_same rfl hreg m).trans h)
  drawn := fun _ h => .inl h
  timedOut := fun _ h => .inl h

theorem CvProgress.of_notified {th : List Nat} {cv : EmuCondvar} {notices : List CvNotice}
    (hth : ∀ t ∈ s.notified, t ∈ th) :
    CvProgress s { s with cv := cv, notified := th, notices := notices } where
  notified := hth
  returned := fun _ h => h
  wait := fun _ _ _ h => .inl h
  drawn := fun _ h => .inl h
  timedOut := fun _ h => .inl h

theorem CvProgress.advance {n : Nat} {choice : Bool} (hs : s.advance n choice = some s') :
    CvProgress s s' := by
  rw [CvState.advance] at hs
  cases hth : s.threads n with
  | idle =>
      rw [hth] at hs
      cases hs
  | enter =>
      simp only [hth] at hs
      split at hs
      · cases hs
      · cases hs
        exact .thread (by rw [hth]; rfl)
  | check =>
      simp only [hth] at hs
      cases hs
      refine .thread ?_
      rw [hth]
      split <;> rfl
  | eval caller again =>
      simp only [hth] at hs
      split at hs
      · cases hs
        refine .thread ?_
        rw [hth]
        split <;> rfl
      · cases hs
        exact .thread (by rw [hth]; rfl)
  | finish =>
      simp only [hth] at hs
      cases hs
      exact .thread (by rw [hth]; rfl)
  | register c =>
      simp only [hth] at hs
      split at hs
      · cases hs
      · split at hs
        · cases hs
          refine .thread ?_
          rw [hth]
          cases c.caller <;> rfl
        · next k cv hclaim =>
          cases hs
          refine ⟨fun _ h => h, fun _ h => h, ?_, ?_, fun _ h => .inl h⟩
          · intro m k' t hm
            have hmn : m ≠ n := by
              rintro rfl
              rw [hth] at hm
              cases hm
            exact .inl (by rw [setThread_ne hmn]; exact hm)
          · intro t ht
            rcases Nat.lt_succ_iff_lt_or_eq.mp ht with h | rfl
            · exact .inl h
            · refine .inr ⟨n, k, ?_⟩
              simp only [CvState.setThread, Function.update_self]
              rfl
  | unlock c k t =>
      simp only [hth] at hs
      cases hs
      exact .thread (by rw [hth]; rfl)
  | take c k t =>
      simp only [hth] at hs
      obtain ⟨w, hw, hs⟩ := Option.bind_eq_some_iff.mp hs
      split at hs
      · cases hs
        exact .thread (by rw [hth]; rfl)
      · next hsem =>
        split at hs
        · cases hs
          refine ⟨fun _ h => h, fun _ h => h, ?_, fun _ h => .inl h, ?_⟩
          · intro m k' t' hm
            have hreg : (CvThread.relock c k t .timeout).registered =
                (CvThread.take c k t).registered := rfl
            exact .inl ((registered_same hth hreg m).trans hm)
          · intro t' ht'
            rcases List.mem_cons.mp ht' with rfl | h
            · exact .inr ⟨n, c, k, w, hth, hw, by simpa using hsem⟩
            · exact .inl h
        · cases hs
  | relock c k t r =>
      simp only [hth] at hs
      split at hs
      · cases hs
      · cases hs
        exact .thread (by rw [hth]; rfl)
  | leave c k t r =>
      simp only [hth] at hs
      obtain ⟨w, hw, hs⟩ := Option.bind_eq_some_iff.mp hs
      split at hs
      · cases hs
      · cases hs
        refine ⟨fun _ h => h, fun _ h => List.mem_cons_of_mem _ h, ?_, fun _ h => .inl h,
          fun _ h => .inl h⟩
        intro m k' t' hm
        by_cases hmn : m = n
        · subst hmn
          rw [hth] at hm
          cases hm
          exact .inr ⟨r, List.mem_cons_self⟩
        · exact .inl (by rw [setThread_ne hmn]; exact hm)
  | notifyAll k =>
      simp only [hth] at hs
      split at hs
      · cases hs
        exact .thread (by rw [hth]; rfl)
      · split at hs
        · cases hs
          refine ⟨fun _ h => List.mem_cons_of_mem _ h, fun _ h => h, ?_, fun _ h => .inl h,
            fun _ h => .inl h⟩
          intro m k' t' hm
          have hreg : (CvThread.notifyAll (k + 1)).registered = (CvThread.notifyAll k).registered :=
            rfl
          exact .inl ((registered_same hth hreg m).trans hm)
        · cases hs
          exact .thread (by rw [hth]; rfl)

theorem CvProgress.notifyOne (hs : s.notifyOne = some s') : CvProgress s s' := by
  rw [CvState.notifyOne] at hs
  split at hs
  · cases hs
  · split at hs
    · cases hs
      exact .of_notified (fun _ h => h)
    · cases hs
      exact .of_notified (fun _ h => List.mem_cons_of_mem _ h)

theorem CvProgress.refl (s : CvState) : CvProgress s s :=
  .of_notified (fun _ h => h)

theorem CvProgress.next (hs : s.next a = some s') : CvProgress s s' := by
  cases a with
  | step n choice => exact .advance hs
  | notifyOne n =>
      simp only [CvState.next] at hs
      split at hs
      · exact .notifyOne hs
      · cases hs
  | lock n =>
      simp only [CvState.next] at hs
      split at hs <;> cases hs
      exact ⟨fun _ h => h, fun _ h => h, fun _ _ _ h => .inl h, fun _ h => .inl h,
        fun _ h => .inl h⟩
  | unlock n =>
      simp only [CvState.next] at hs
      split at hs <;> cases hs
      exact ⟨fun _ h => h, fun _ h => h, fun _ _ _ h => .inl h, fun _ h => .inl h,
        fun _ h => .inl h⟩
  | notifyAll n =>
      simp only [CvState.next] at hs
      split at hs
      · next h =>
        split at hs
        · cases hs
          exact .refl s
        · cases hs
          exact .thread (by rw [h.1]; rfl)
      · cases hs
  | _ n =>
      simp only [CvState.next] at hs
      split at hs
      · next h =>
        cases hs
        exact .thread (by rw [h.1]; rfl)
      · cases hs

end Life

/-! ### Notices -/

/-- A drawn ticket belongs to a wait that is registered or has returned, and every
notice that somebody could use went to a wait that does not time out. -/
structure CvHeeded (s : CvState) : Prop where
  drawn : ∀ t < s.nextTicket,
    (∃ m k, (s.threads m).registered = some (k, t)) ∨ ∃ r, (t, r) ∈ s.returned
  heeded : ∀ notice ∈ s.notices, notice.eligible ≠ [] →
    ∃ t ∈ notice.waiting, t ∈ s.notified ∧ t ∉ s.timedOut

section Heeded

variable {s s' : CvState} {a : CvAct} {t : Nat}

/-- A signalled wait does not time out any more. -/
theorem CvInv.not_timedOut (hi : CvInv s) (hp : CvProgress s s') (hnot : t ∈ s.notified)
    (ht : t ∉ s.timedOut) : t ∉ s'.timedOut := by
  intro h
  rcases hp.timedOut t h with h | ⟨m, c, k, w, hth, hw, hsem⟩
  · exact ht h
  · have hreg : (s.threads m).registered = some (k, t) := by rw [hth]; rfl
    obtain ⟨w', hw', hsem'⟩ := hi.token_of_notified hreg (by rw [hth]; rfl) hnot
    rw [hw] at hw'
    cases hw'
    rw [hsem] at hsem'
    cases hsem'

theorem CvHeeded.drawn_next (h : CvHeeded s) (hp : CvProgress s s') :
    ∀ t < s'.nextTicket,
      (∃ m k, (s'.threads m).registered = some (k, t)) ∨ ∃ r, (t, r) ∈ s'.returned := by
  intro t ht
  rcases hp.drawn t ht with hlt | hnew
  · rcases h.drawn t hlt with ⟨m, k, hm⟩ | ⟨r, hr⟩
    · exact (hp.wait m k t hm).imp_left (fun hm => ⟨m, k, hm⟩)
    · exact .inr ⟨r, hp.returned _ hr⟩
  · exact .inl hnew

/-- The notices are a record of `notify_one` calls. -/
theorem next_notices (hs : s.next a = some s') :
    s'.notices = s.notices ∨ ∃ n, a = .notifyOne n ∧ s.notifyOne = some s' := by
  cases a with
  | notifyOne n =>
      simp only [CvState.next] at hs
      split at hs
      · exact .inr ⟨n, rfl, hs⟩
      · cases hs
  | step n choice =>
      simp only [CvState.next, CvState.advance] at hs
      refine .inl ?_
      cases hth : s.threads n with
      | take c k t =>
          simp only [hth] at hs
          obtain ⟨w, -, hs⟩ := Option.bind_eq_some_iff.mp hs
          repeat' split at hs
          all_goals cases hs
          all_goals rfl
      | leave c k t r =>
          simp only [hth] at hs
          obtain ⟨w, -, hs⟩ := Option.bind_eq_some_iff.mp hs
          repeat' split at hs
          all_goals cases hs
          all_goals rfl
      | _ =>
          simp only [hth] at hs
          repeat' split at hs
          all_goals cases hs
          all_goals rfl
  | _ n =>
      simp only [CvState.next] at hs
      refine .inl ?_
      repeat' split at hs
      all_goals cases hs
      all_goals rfl

/-- A new notice, if its target has not timed out. -/
theorem CvInv.notice_heeded {n : Nat} (hi : CvInv s) (hok : s.TargetWaiting (.notifyOne n))
    (hs : s.notifyOne = some s') : ∃ notice, s'.notices = notice :: s.notices ∧
      (notice.eligible ≠ [] → ∃ t ∈ notice.waiting, t ∈ s'.notified ∧ t ∉ s'.timedOut) := by
  rw [CvState.notifyOne] at hs
  split at hs
  · cases hs
  · split at hs
    · next hnone =>
      cases hs
      refine ⟨_, rfl, ?_⟩
      intro hel
      -- Nobody waits, so nobody is eligible.
      have hempty : s.waitingTickets = [] := by
        rw [CvState.waitingTickets, List.filter_eq_nil_iff.mpr]
        · rfl
        · intro w hw
          rw [target_eq_none hi.count hnone w hw]
          exact Bool.false_ne_true
      rw [CvState.eligibleTickets, hempty] at hel
      exact absurd rfl hel
    · next k w htarget =>
      cases hs
      refine ⟨_, rfl, ?_⟩
      intro hel
      obtain ⟨hw, hwait, -⟩ := target_eq_some htarget
      refine ⟨w.ticket, ?_, List.mem_cons_self, hok hel (k, w) htarget⟩
      exact List.mem_map_of_mem (List.mem_filter.mpr ⟨List.mem_of_getElem? hw, hwait⟩)

theorem CvHeeded.next (hi : CvInv s) (h : CvHeeded s) (hok : s.TargetWaiting a)
    (hs : s.next a = some s') : CvHeeded s' := by
  have hp := CvProgress.next hs
  have hold : ∀ notice ∈ s.notices, notice.eligible ≠ [] →
      ∃ t ∈ notice.waiting, t ∈ s'.notified ∧ t ∉ s'.timedOut := by
    intro notice hmem hel
    obtain ⟨t, ht, hnot, htime⟩ := h.heeded notice hmem hel
    exact ⟨t, ht, hp.notified t hnot, hi.not_timedOut hp hnot htime⟩
  refine ⟨h.drawn_next hp, ?_⟩
  rcases next_notices hs with hsame | ⟨n, rfl, hone⟩
  · rw [hsame]
    exact hold
  · obtain ⟨notice, heq, hnew⟩ := hi.notice_heeded hok hone
    rw [heq]
    intro x hx
    rcases List.mem_cons.mp hx with rfl | hx
    · exact hnew
    · exact hold x hx

theorem CvHeeded.reachable {maxWaiters : Nat}
    (hr : (condvarMachine maxWaiters).ReachableBy CvState.TargetWaiting s) : CvHeeded s := by
  refine Machine.ReachableBy.invariant ⟨?_, ?_⟩ ?_ hr
  · intro t ht
    exact absurd ht (Nat.not_lt_zero t)
  · intro notice hmem
    cases hmem
  · intro s a s' hs₀ h hok hs
    exact CvHeeded.next (CvInv.reachable hs₀.reachable) h hok hs

/-- A signalled wait that has not timed out returns ok. -/
theorem CvHeeded.returnsOk (hi : CvInv s) (h : CvHeeded s) (hnot : t ∈ s.notified)
    (htime : t ∉ s.timedOut) : s.ReturnsOk t := by
  rcases h.drawn t (hi.drawn t (.inl hnot)) with ⟨m, k, hreg⟩ | ⟨r, hret⟩
  · refine .inr ⟨m, k, hreg, ?_⟩
    have hstage := hi.stage m
    cases hth : s.threads m with
    | relock c k' t' r =>
        rw [hth] at hreg hstage
        cases hreg
        rcases hstage with ⟨rfl, -⟩ | ⟨-, h⟩
        · exact .inl rfl
        · exact absurd h htime
    | leave c k' t' r =>
        rw [hth] at hreg hstage
        cases hreg
        rcases hstage.2 with ⟨rfl, -⟩ | ⟨-, h⟩
        · exact .inl rfl
        · exact absurd h htime
    | _ =>
        have htaken : (s.threads m).taken = none := by rw [hth]; rfl
        exact .inr ⟨hth ▸ htaken, hi.token_of_notified hreg htaken hnot⟩
  · rcases hi.result t r hret with ⟨rfl, -⟩ | ⟨-, h⟩
    · exact .inl hret
    · exact absurd h htime

end Heeded

/-- Notifications are not wasted in the runs in which `notify_one`, when somebody
can use the notification, does not select a wait that has timed out. -/
theorem condvar_notification_delivered {maxWaiters : Nat} {s : CvState}
    (hr : (condvarMachine maxWaiters).ReachableBy CvState.TargetWaiting s) :
    s.NoticesDelivered := by
  have hi := CvInv.reachable hr.reachable
  have hh := CvHeeded.reachable hr
  intro notice hmem hel
  obtain ⟨t, ht, hnot, htime⟩ := hh.heeded notice hmem hel
  exact ⟨t, ht, hh.returnsOk hi hnot htime⟩

/-- Two waits; the first slot's wait has not timed out when it is notified. -/
theorem condvar_notification_delivered_first :
    ∃ s : CvState, s.notices = [⟨[0, 1], [0, 1], some 0⟩] ∧ s.NoticesDelivered := by
  let schedule : List CvAct :=
    [.lock 0, .wait 0 true, .step 0 true, .step 0 true, .lock 1, .wait 1 false, .step 1 true,
      .step 1 true, .notifyOne 2, .step 0 true]
  have hview : ((condvarMachine 2).run (.fresh 2) schedule).map (·.notices) =
      some [⟨[0, 1], [0, 1], some 0⟩] := by
    decide +kernel
  obtain ⟨s, hrun, hres⟩ := Option.map_eq_some_iff.mp hview
  have hok : (condvarMachine 2).RunOk CvState.TargetWaiting (.fresh 2) schedule := by
    decide +kernel
  exact ⟨s, hres, condvar_notification_delivered (.of_run .init hok hrun)⟩

/-- The wait in the first slot times out and is notified before it has its mutex
back: the notification is lost on it, and the second wait stays blocked. -/
theorem condvar_notification_wasted :
    ∃ s : CvState, (condvarMachine 2).Reachable s ∧ s.threads 1 = .take ⟨false, .direct⟩ 1 1 ∧
      s.returned = [(0, .timeout)] ∧ ¬ s.NoticesDelivered := by
  let schedule : List CvAct :=
    [.lock 0, .wait 0 true, .step 0 true, .step 0 true, .lock 1, .wait 1 false, .step 1 true,
      .step 1 true, .step 0 true, .notifyOne 2, .step 0 true, .step 0 true]
  have hview : ((condvarMachine 2).run (.fresh 2) schedule).map
      (fun s => ((s.notices, s.threads 1), s.returned, s.cv.waiters.map (·.sem))) =
        some (([⟨[0, 1], [1], some 0⟩], .take ⟨false, .direct⟩ 1 1), [(0, .timeout)],
          [true, false]) := by
    decide +kernel
  obtain ⟨s, hrun, hres⟩ := Option.map_eq_some_iff.mp hview
  have hr := Machine.Reachable.of_run hrun
  have hi := CvInv.reachable hr
  simp only [Prod.mk.injEq] at hres
  obtain ⟨⟨hnotices, hth⟩, hret, hsem⟩ := hres
  refine ⟨s, hr, hth, hret, ?_⟩
  intro hdel
  obtain ⟨t, ht, hok⟩ := hdel ⟨[0, 1], [1], some 0⟩ (by simp [hnotices]) (by simp)
  rcases hok with hok | ⟨m, k, hreg, hwoken⟩
  · rw [hret] at hok
    cases List.mem_singleton.mp hok
  · simp only [List.mem_cons, List.not_mem_nil, or_false] at ht
    rcases ht with rfl | rfl
    · exact hi.running m k 0 .timeout hreg (by simp [hret])
    · have hreg₁ : (s.threads 1).registered = some (1, 1) := by rw [hth]; rfl
      obtain rfl := hi.unique m 1 k 1 1 1 hreg hreg₁ (.inr rfl)
      rw [hreg₁] at hreg
      cases hreg
      rw [hth] at hwoken
      rcases hwoken with h | ⟨-, w, hw, hsem'⟩
      · cases h
      · have hfalse : (s.cv.waiters.map (·.sem))[1]? = some false := by rw [hsem]; rfl
        rw [List.getElem?_map, hw] at hfalse
        simp [hsem'] at hfalse

end MicrOsal
