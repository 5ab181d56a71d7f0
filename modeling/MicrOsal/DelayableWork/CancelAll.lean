import MicrOsal.DelayableWork.Times

/-!
# MicrOsal.DelayableWork.CancelAll

What `work_queue::cancel_all` does to an item whose thunk it removes.

The item is `queued` from before the submit until a worker takes the thunk, and
nothing but the thunk, or the submit that failed to place it, ends that state. As
long as `cancel_all` never removes the only thunk of a queued item, something is
always on its way to end the state, and the item can become idle again. When it
does remove it, the item stays `queued` for good: `schedule`, `reschedule` and
`cancel` all refuse, and `flush` never ends.
-/

namespace MicrOsal

/-! ### Who ends a state -/

/-- In `enqueue_locked`, between the two stores of `state_`. -/
def DwCaller.Submitting : DwCaller → Prop
  | .submit c | .store c (.failed _) | .storeRaw c (.failed _) _ => c.delay ≤ 0
  | _ => False

/-- About to enqueue: the delay was not positive. -/
def DwCaller.Enqueues : DwCaller → Prop
  | .store c .enqueue | .storeRaw c .enqueue _ | .submit c => c.delay ≤ 0
  | _ => True

/-- Between the compare-exchange to `stopping` and the store that ends it. -/
def DwCaller.Stopping : DwCaller → Prop
  | .stop _ _ | .store _ .stopped | .store _ (.restored _)
  | .storeRaw _ .stopped _ | .storeRaw _ (.restored _) _ => True
  | _ => False

/-- In `on_timer`, with the item taken to `queued`. -/
def DwExpiry.Submitting : DwExpiry → Prop
  | .submit _ _ _ | .failLoad _ | .failStore _ _ => True
  | _ => False

/-- Has the thunk and will take the item from `queued` to `running`. -/
def DwWorker.Takes (word : BitVec 32) : DwWorker → Prop
  | .entry _ => True
  | .cas _ raw => raw = word
  | _ => False

/-- Will take the item from `running` to `idle`. -/
def DwWorker.Runs (word : BitVec 32) : DwWorker → Prop
  | .callback _ | .doneLoad _ => True
  | .doneCas _ raw => raw = word
  | _ => False

namespace DwSys

/-- A submit of the item is in progress, or its thunk is about to be executed. -/
def InFlight (s : DwSys) : Prop :=
  s.holder.Submitting ∨ (∃ i, (s.expiries i).Submitting) ∨ ∃ j, (s.workers j).Takes s.word

/-- The thunk is in the queue, about to be executed, or being submitted. -/
def Carried (s : DwSys) : Prop := s.queue ≠ [] ∨ s.InFlight

/-- A queued item is carried. -/
def QueuedIsCarried (s : DwSys) : Prop := decodeState s.word = some .queued → s.Carried

end DwSys

/-- `cancel_all` does not remove the only thunk of a queued item. -/
def SparesItem (s : DwSys) : DwAct → Prop
  | .cancelAll => decodeState s.word = some .queued → s.queue ≠ [] → s.InFlight
  | _ => True

/-- Every state but `idle` and `armed` has somebody who will end it. -/
structure DwLive (s : DwSys) : Prop where
  queued : s.QueuedIsCarried
  running : decodeState s.word = some .running → ∃ j, (s.workers j).Runs s.word
  stopping : decodeState s.word = some .stopping → s.holder.Stopping
  decoded : decodeState s.word ≠ none
  enqueues : s.holder.Enqueues
  /-- Some worker is free. -/
  free : ∃ n, ∀ j, n ≤ j → s.workers j = .idle

/-! ### What each step does -/

/-- What a step of the lock holder means for the state. -/
inductive CallerEffect (s s' : DwSys) : Prop
  /-- The state is as before, and so is what the holder owes it. -/
  | keeps (word : s'.word = s.word)
      (submits : s.holder.Submitting → s'.holder.Submitting ∨ s'.queue ≠ [])
      (stops : s.holder.Stopping → s'.holder.Stopping)
  | rests (state : decodeState s'.word = some .idle ∨ decodeState s'.word = some .armed)
  | queues (state : decodeState s'.word = some .queued) (submits : s'.holder.Submitting)
  | stops (state : decodeState s'.word = some .stopping) (stops : s'.holder.Stopping)

/-- What a step of the lock holder does. -/
structure CallerStep (s s' : DwSys) : Prop where
  expiries : s'.expiries = s.expiries
  workers : s'.workers = s.workers
  queue : s.queue ≠ [] → s'.queue ≠ []
  enqueues : s'.holder.Enqueues
  effect : CallerEffect s s'

namespace CallerStep

variable {s s' : DwSys} {c : DwCall}

/-- The lock holder moves on, with nothing owed. -/
theorem moves (hword : s'.word = s.word) (hexpiries : s'.expiries = s.expiries)
    (hworkers : s'.workers = s.workers) (hqueue : s'.queue = s.queue)
    (henqueues : s'.holder.Enqueues) (hsub : ¬ s.holder.Submitting)
    (hstop : s.holder.Stopping → s'.holder.Stopping) : CallerStep s s' :=
  ⟨hexpiries, hworkers, fun h => hqueue ▸ h, henqueues,
    .keeps hword (fun h => absurd h hsub) hstop⟩

/-- `moves`, from a point where the holder owes nothing at all. -/
theorem quiet {pc : DwCaller} (hc : s.holder = pc) (hsub : ¬ pc.Submitting)
    (hstop : ¬ pc.Stopping) (hword : s'.word = s.word) (hexpiries : s'.expiries = s.expiries)
    (hworkers : s'.workers = s.workers) (hqueue : s'.queue = s.queue)
    (henqueues : s'.holder.Enqueues) : CallerStep s s' := by
  subst hc
  exact moves hword hexpiries hworkers hqueue henqueues hsub (fun h => absurd h hstop)

theorem casFails {pc : DwCaller} (hc : s.holder = pc) (hsub : ¬ pc.Submitting)
    (hstop : ¬ pc.Stopping) (expected : Option DwState) :
    CallerStep s (s.casFails c expected) := by
  have hreturns : ∀ code, CallerStep s (s.returns c code) := fun code =>
    quiet hc hsub hstop rfl rfl rfl rfl trivial
  unfold DwSys.casFails
  split
  · split
    · exact hreturns _
    · exact hreturns _
  · exact hreturns _

theorem stepLoad (hc : s.holder = .load c) : CallerStep s (s.stepLoad c) := by
  unfold DwSys.stepLoad
  simp only
  repeat' split
  all_goals exact quiet hc id id rfl rfl rfl rfl trivial

theorem afterStore {next : DwNext} {raw : BitVec 32} (hholder : s.holder = .storeRaw c next raw)
    (henqueues : s.holder.Enqueues) :
    CallerStep s ({ s with word := withState raw next.value }.afterStore c next) := by
  cases next with
  | stopped =>
      simp only [DwSys.afterStore]
      split
      · exact ⟨rfl, rfl, id, trivial, .rests (.inl (decodeState_withState _ _))⟩
      · exact ⟨rfl, rfl, id, trivial, .rests (.inl (decodeState_withState _ _))⟩
  | restored code =>
      exact ⟨rfl, rfl, id, trivial, .rests (.inr (decodeState_withState _ _))⟩
  | enqueue =>
      rw [hholder] at henqueues
      exact ⟨rfl, rfl, id, henqueues, .queues (decodeState_withState _ _) henqueues⟩
  | failed code =>
      exact ⟨rfl, rfl, id, trivial, .rests (.inl (decodeState_withState _ _))⟩

theorem of_stepCaller {result : Option ErrorCode} {period : Nat} (henqueues : s.holder.Enqueues)
    (hs : s.stepCaller result period = some s') : CallerStep s s' := by
  rw [DwSys.stepCaller.eq_def] at hs
  cases hc : s.holder with
  | free =>
      rw [hc] at hs
      cases hs
  | load c =>
      rw [hc] at hs
      cases hs
      exact stepLoad hc
  | casLoad c =>
      simp only [hc] at hs
      split at hs
      · cases hs
        exact quiet hc id id rfl rfl rfl rfl trivial
      · cases hs
        exact casFails hc id id _
  | cas c raw =>
      simp only [hc] at hs
      split at hs
      · cases hs
        exact ⟨rfl, rfl, id, trivial, .stops (decodeState_withState _ _) trivial⟩
      · cases hs
        exact casFails hc id id _
  | stop c r =>
      have hsub : ¬ s.holder.Submitting := by rw [hc]; exact id
      cases r with
      | none =>
          simp only [hc] at hs
          cases hs
          exact moves rfl rfl rfl rfl trivial hsub (fun _ => trivial)
      | some code =>
          simp only [hc] at hs
          cases hs
          exact moves rfl rfl rfl rfl trivial hsub (fun _ => trivial)
  | store c next =>
      simp only [hc] at hs
      cases hs
      refine ⟨rfl, rfl, id, ?_, .keeps rfl ?_ ?_⟩
      · rw [hc] at henqueues
        cases next <;> exact henqueues
      · rw [hc]
        cases next <;> exact Or.inl
      · rw [hc]
        cases next <;> exact id
  | storeRaw c next raw =>
      simp only [hc] at hs
      cases hs
      exact afterStore hc henqueues
  | begin c =>
      simp only [hc] at hs
      split at hs
      · next hdelay =>
        cases hs
        exact quiet hc id id rfl rfl rfl rfl hdelay
      · cases hs
        exact quiet hc id id rfl rfl rfl rfl trivial
  | armPeriod c now =>
      simp only [hc] at hs
      split at hs
      all_goals
        cases hs
        exact quiet hc id id rfl rfl rfl rfl trivial
  | armStore c now raw =>
      simp only [hc] at hs
      cases hs
      exact ⟨rfl, rfl, id, trivial, .rests (.inr (decodeState_armWord _))⟩
  | armStart c =>
      simp only [hc] at hs
      split at hs
      all_goals
        cases hs
        exact quiet hc id id rfl rfl rfl rfl trivial
  | submit c =>
      have hstop : ¬ s.holder.Stopping := by rw [hc]; exact id
      simp only [hc] at hs
      split at hs
      · cases hs
        refine ⟨rfl, rfl, id, trivial, .keeps rfl (fun h => ?_) (fun h => absurd h hstop)⟩
        rw [hc] at h
        exact .inl h
      · cases hs
        have hne : s.queue ++ [c.id] ≠ [] := List.append_ne_nil_of_right_ne_nil _ nofun
        exact ⟨rfl, rfl, fun _ => hne, trivial,
          .keeps rfl (fun _ => .inr hne) (fun h => absurd h hstop)⟩
  | armNow c | armStartLow c now | armStartHigh c now | armDelayLow c now | armDelayHigh c now
  | armLoad c now =>
      simp only [hc] at hs
      cases hs
      exact quiet hc id id rfl rfl rfl rfl trivial

end CallerStep

/-- What a step of timer callback `i` does. -/
structure ExpiryStep (s s' : DwSys) (i : Nat) : Prop where
  holder : s'.holder = s.holder
  workers : s'.workers = s.workers
  queue : s.queue ≠ [] → s'.queue ≠ []
  others : ∀ k, k ≠ i → s'.expiries k = s.expiries k
  effect : (s'.word = s.word ∧
      ((s.expiries i).Submitting → (s'.expiries i).Submitting ∨ s'.queue ≠ [])) ∨
    (decodeState s'.word = some .queued ∧ (s'.expiries i).Submitting) ∨
    decodeState s'.word = some .idle

/-- What a step of worker `j` does. -/
structure WorkerStep (s s' : DwSys) (j : Nat) : Prop where
  holder : s'.holder = s.holder
  expiries : s'.expiries = s.expiries
  queue : s'.queue = s.queue
  others : ∀ k, k ≠ j → s'.workers k = s.workers k
  effect : (s'.word = s.word ∧
      (decodeState s.word = some .queued → (s.workers j).Takes s.word →
        (s'.workers j).Takes s.word) ∧
      (decodeState s.word = some .running → (s.workers j).Runs s.word →
        (s'.workers j).Runs s.word)) ∨
    (decodeState s'.word = some .running ∧ (s'.workers j).Runs s'.word) ∨
    decodeState s'.word = some .idle

section Agents

variable {s s' : DwSys} {i j : Nat}

theorem DwSys.setExpiry_self (s : DwSys) (i : Nat) (pc : DwExpiry) :
    (s.setExpiry i pc).expiries i = pc := Function.update_self _ _ _

theorem DwSys.setExpiry_other (s : DwSys) {i k : Nat} (hk : k ≠ i) (pc : DwExpiry) :
    (s.setExpiry i pc).expiries k = s.expiries k := Function.update_of_ne hk _ _

theorem DwSys.setWorker_self (s : DwSys) (j : Nat) (pc : DwWorker) :
    (s.setWorker j pc).workers j = pc := Function.update_self _ _ _

theorem DwSys.setWorker_other (s : DwSys) {j k : Nat} (hk : k ≠ j) (pc : DwWorker) :
    (s.setWorker j pc).workers k = s.workers k := Function.update_of_ne hk _ _

/-- The callback moves on, with nothing owed. -/
theorem ExpiryStep.moves (hsub : ¬ (s.expiries i).Submitting) (pc : DwExpiry) :
    ExpiryStep s (s.setExpiry i pc) i :=
  ⟨rfl, rfl, id, fun _ hk => s.setExpiry_other hk pc, .inl ⟨rfl, fun h => absurd h hsub⟩⟩

theorem ExpiryStep.of_stepExpiry {result : Option ErrorCode}
    (hs : s.stepExpiry i result = some s') : ExpiryStep s s' i := by
  rw [DwSys.stepExpiry.eq_def] at hs
  cases hc : s.expiries i with
  | absent =>
      rw [hc] at hs
      cases hs
  | entered =>
      have hsub : ¬ (s.expiries i).Submitting := by rw [hc]; exact id
      simp only [hc] at hs
      split at hs
      · cases hs
        exact .moves hsub _
      · cases hs
        exact .moves hsub _
  | readClock raw loaded started delay =>
      have hsub : ¬ (s.expiries i).Submitting := by rw [hc]; exact id
      simp only [hc] at hs
      split at hs
      · cases hs
        exact .moves hsub _
      · cases hs
        exact .moves hsub _
  | cas raw loaded now =>
      have hsub : ¬ (s.expiries i).Submitting := by rw [hc]; exact id
      simp only [hc] at hs
      split at hs
      · cases hs
        refine ⟨rfl, rfl, id, fun _ hk => DwSys.setExpiry_other _ hk _, .inr (.inl ⟨?_, ?_⟩)⟩
        · exact decodeState_withState _ _
        · rw [DwSys.setExpiry_self]
          trivial
      · cases hs
        exact .moves hsub _
  | submit id loaded current =>
      simp only [hc] at hs
      split at hs
      · cases hs
        refine ⟨rfl, rfl, fun h => h, fun _ hk => DwSys.setExpiry_other _ hk _,
          .inl ⟨rfl, fun _ => .inl ?_⟩⟩
        rw [DwSys.setExpiry_self]
        trivial
      · cases hs
        have hne : s.queue ++ [id] ≠ [] := List.append_ne_nil_of_right_ne_nil _ nofun
        exact ⟨rfl, rfl, fun _ => hne, fun _ hk => DwSys.setExpiry_other _ hk _,
          .inl ⟨rfl, fun _ => .inr hne⟩⟩
  | failLoad id =>
      simp only [hc] at hs
      cases hs
      refine ⟨rfl, rfl, fun h => h, fun _ hk => DwSys.setExpiry_other _ hk _,
        .inl ⟨rfl, fun _ => .inl ?_⟩⟩
      rw [DwSys.setExpiry_self]
      trivial
  | failStore id raw =>
      simp only [hc] at hs
      cases hs
      exact ⟨rfl, rfl, fun h => h, fun _ hk => DwSys.setExpiry_other _ hk _,
        .inr (.inr (decodeState_withState _ _))⟩
  | readStartHigh raw loaded | readStartLow raw loaded startHigh
  | readDelayHigh raw loaded started | readDelayLow raw loaded started delayHigh =>
      have hsub : ¬ (s.expiries i).Submitting := by rw [hc]; exact id
      simp only [hc] at hs
      cases hs
      exact .moves hsub _

/-- The worker leaves, owing the state nothing. -/
theorem WorkerStep.leaves
    (htakes : decodeState s.word = some .queued → ¬ (s.workers j).Takes s.word)
    (hruns : decodeState s.word = some .running → ¬ (s.workers j).Runs s.word) :
    WorkerStep s (s.setWorker j .idle) j :=
  ⟨rfl, rfl, rfl, fun _ hk => s.setWorker_other hk _,
    .inl ⟨rfl, fun hst h => absurd h (htakes hst), fun hst h => absurd h (hruns hst)⟩⟩

theorem WorkerStep.of_stepWorker (hs : s.stepWorker j = some s') : WorkerStep s s' j := by
  rw [DwSys.stepWorker] at hs
  cases hc : s.workers j with
  | idle =>
      rw [hc] at hs
      cases hs
  | entry id =>
      simp only [hc] at hs
      split at hs
      · next hq =>
        cases hs
        refine ⟨rfl, rfl, rfl, fun _ hk => s.setWorker_other hk _, .inl ⟨rfl, ?_, ?_⟩⟩
        · intro _ _
          rw [DwSys.setWorker_self]
          rfl
        · intro hr
          rw [hq] at hr
          cases hr
      · next hq =>
        cases hs
        refine .leaves (fun hst => absurd hst hq) (fun _ => ?_)
        rw [hc]
        exact fun h => h
  | cas id raw =>
      simp only [hc] at hs
      split at hs
      · cases hs
        refine ⟨rfl, rfl, rfl, fun _ hk => DwSys.setWorker_other _ hk _, .inr (.inl ⟨?_, ?_⟩)⟩
        · exact decodeState_withState _ _
        · rw [DwSys.setWorker_self]
          trivial
      · next hne =>
        cases hs
        refine .leaves (fun _ h => ?_) (fun _ => ?_)
        · rw [hc] at h
          exact hne (Eq.symm h)
        · rw [hc]
          exact fun h => h
  | callback id =>
      simp only [hc] at hs
      cases hs
      refine ⟨rfl, rfl, rfl, fun _ hk => s.setWorker_other hk _, .inl ⟨rfl, ?_, ?_⟩⟩
      · intro _ h
        rw [hc] at h
        cases h
      · intro _ _
        rw [DwSys.setWorker_self]
        trivial
  | doneLoad id =>
      simp only [hc] at hs
      split at hs
      · next hr =>
        cases hs
        refine ⟨rfl, rfl, rfl, fun _ hk => s.setWorker_other hk _, .inl ⟨rfl, ?_, ?_⟩⟩
        · intro hq
          rw [hr] at hq
          cases hq
        · intro _ _
          rw [DwSys.setWorker_self]
          rfl
      · next hr =>
        cases hs
        refine .leaves (fun _ => ?_) (fun hst => absurd hst hr)
        rw [hc]
        exact fun h => h
  | doneCas id raw =>
      simp only [hc] at hs
      split at hs
      · cases hs
        exact ⟨rfl, rfl, rfl, fun _ hk => DwSys.setWorker_other _ hk _,
          .inr (.inr (decodeState_withState _ _))⟩
      · next hne =>
        cases hs
        refine .leaves (fun _ => ?_) (fun _ h => ?_)
        · rw [hc]
          exact fun h => h
        · rw [hc] at h
          exact hne (Eq.symm h)

end Agents

/-! ### Somebody ends the state -/

namespace DwLive

variable {s s' : DwSys}

/-- What a known state asks for. -/
theorem of_state {st : DwState} (hst : decodeState s'.word = some st)
    (henqueues : s'.holder.Enqueues) (hfree : ∃ n, ∀ j, n ≤ j → s'.workers j = .idle)
    (hqueued : st = .queued → s'.Carried)
    (hrunning : st = .running → ∃ j, (s'.workers j).Runs s'.word)
    (hstopping : st = .stopping → s'.holder.Stopping) : DwLive s' := by
  have hsame : ∀ {st'}, decodeState s'.word = some st' → st = st' := fun h =>
    Option.some.inj (hst.symm.trans h)
  refine ⟨fun h => hqueued (hsame h), fun h => hrunning (hsame h), fun h => hstopping (hsame h),
    fun h => ?_, henqueues, hfree⟩
  rw [hst] at h
  cases h

/-- With the state `idle` or `armed`, nobody has to do anything. -/
theorem rest (hstate : decodeState s'.word = some .idle ∨ decodeState s'.word = some .armed)
    (henqueues : s'.holder.Enqueues) (hfree : ∃ n, ∀ j, n ≤ j → s'.workers j = .idle) :
    DwLive s' := by
  rcases hstate with hidle | harmed
  · exact of_state hidle henqueues hfree nofun nofun nofun
  · exact of_state harmed henqueues hfree nofun nofun nofun

theorem fresh (clock : Nat) : DwLive (DwSys.fresh clock) := by
  have hidle : decodeState (BitVec.ofNat 32 DwState.idle.code) = some .idle := by decide
  exact rest (.inl hidle) trivial ⟨0, fun _ _ => rfl⟩

theorem caller (h : DwLive s) (hs : CallerStep s s') : DwLive s' := by
  have hfree : ∃ n, ∀ j, n ≤ j → s'.workers j = .idle := by
    rw [hs.workers]
    exact h.free
  cases hs.effect with
  | keeps hword hsub hstop =>
      refine ⟨fun hst => ?_, fun hst => ?_, fun hst => ?_, ?_, hs.enqueues, hfree⟩
      · rw [hword] at hst
        rcases h.queued hst with hq | hholder | ⟨i, hi⟩ | ⟨j, hj⟩
        · exact .inl (hs.queue hq)
        · exact (hsub hholder).elim (fun h' => .inr (.inl h')) .inl
        · exact .inr (.inr (.inl ⟨i, by rw [hs.expiries]; exact hi⟩))
        · exact .inr (.inr (.inr ⟨j, by rw [hs.workers, hword]; exact hj⟩))
      · rw [hword] at hst
        rw [hs.workers, hword]
        exact h.running hst
      · rw [hword] at hst
        exact hstop (h.stopping hst)
      · rw [hword]
        exact h.decoded
  | rests hstate => exact rest hstate hs.enqueues hfree
  | queues hstate hsub =>
      exact of_state hstate hs.enqueues hfree (fun _ => .inr (.inl hsub)) nofun nofun
  | stops hstate hstop => exact of_state hstate hs.enqueues hfree nofun nofun (fun _ => hstop)

theorem expiry {i : Nat} (h : DwLive s) (hs : ExpiryStep s s' i) : DwLive s' := by
  have hfree : ∃ n, ∀ j, n ≤ j → s'.workers j = .idle := by
    rw [hs.workers]
    exact h.free
  have henqueues : s'.holder.Enqueues := by
    rw [hs.holder]
    exact h.enqueues
  rcases hs.effect with ⟨hword, hsub⟩ | ⟨hstate, hsub⟩ | hstate
  · refine ⟨fun hst => ?_, fun hst => ?_, fun hst => ?_, ?_, henqueues, hfree⟩
    · rw [hword] at hst
      rcases h.queued hst with hq | hholder | ⟨k, hk⟩ | ⟨j, hj⟩
      · exact .inl (hs.queue hq)
      · exact .inr (.inl (by rw [hs.holder]; exact hholder))
      · by_cases hik : k = i
        · subst hik
          exact (hsub hk).elim (fun h' => .inr (.inr (.inl ⟨k, h'⟩))) .inl
        · exact .inr (.inr (.inl ⟨k, by rw [hs.others k hik]; exact hk⟩))
      · exact .inr (.inr (.inr ⟨j, by rw [hs.workers, hword]; exact hj⟩))
    · rw [hword] at hst
      rw [hs.workers, hword]
      exact h.running hst
    · rw [hword] at hst
      rw [hs.holder]
      exact h.stopping hst
    · rw [hword]
      exact h.decoded
  · exact of_state hstate henqueues hfree (fun _ => .inr (.inr (.inl ⟨i, hsub⟩))) nofun nofun
  · exact rest (.inl hstate) henqueues hfree

theorem worker {j : Nat} (h : DwLive s) (hs : WorkerStep s s' j) : DwLive s' := by
  have hfree : ∃ n, ∀ k, n ≤ k → s'.workers k = .idle := by
    obtain ⟨n, hn⟩ := h.free
    refine ⟨max n (j + 1), fun k hk => ?_⟩
    rw [hs.others k (by omega)]
    exact hn k (by omega)
  have henqueues : s'.holder.Enqueues := by
    rw [hs.holder]
    exact h.enqueues
  rcases hs.effect with ⟨hword, htakes, hruns⟩ | ⟨hstate, hruns⟩ | hstate
  · refine ⟨fun hst => ?_, fun hst => ?_, fun hst => ?_, ?_, henqueues, hfree⟩
    · rw [hword] at hst
      rcases h.queued hst with hq | hholder | ⟨i, hi⟩ | ⟨k, hk⟩
      · exact .inl (by rw [hs.queue]; exact hq)
      · exact .inr (.inl (by rw [hs.holder]; exact hholder))
      · exact .inr (.inr (.inl ⟨i, by rw [hs.expiries]; exact hi⟩))
      · refine .inr (.inr (.inr ⟨k, ?_⟩))
        rw [hword]
        by_cases hjk : k = j
        · subst hjk
          exact htakes hst hk
        · rw [hs.others k hjk]
          exact hk
    · rw [hword] at hst ⊢
      obtain ⟨k, hk⟩ := h.running hst
      refine ⟨k, ?_⟩
      by_cases hjk : k = j
      · subst hjk
        exact hruns hst hk
      · rw [hs.others k hjk]
        exact hk
    · rw [hword] at hst
      rw [hs.holder]
      exact h.stopping hst
    · rw [hword]
      exact h.decoded
  · exact of_state hstate henqueues hfree nofun (fun _ => ⟨j, hruns⟩) nofun
  · exact rest (.inl hstate) henqueues hfree

/-- A worker that takes the thunk is about to execute it. -/
theorem dequeue (h : DwLive s) {j id : Nat} {rest : List Nat} (hidle : s.workers j = .idle) :
    DwLive ({ s with queue := rest }.setWorker j (.entry id)) := by
  refine ⟨fun _ => ?_, fun hst => ?_, h.stopping, h.decoded, h.enqueues, ?_⟩
  · refine .inr (.inr (.inr ⟨j, ?_⟩))
    rw [DwSys.setWorker_self]
    trivial
  · obtain ⟨k, hk⟩ := h.running hst
    have hkj : k ≠ j := by
      rintro rfl
      rw [hidle] at hk
      exact hk
    refine ⟨k, ?_⟩
    rw [DwSys.setWorker_other _ hkj]
    exact hk
  · obtain ⟨n, hn⟩ := h.free
    refine ⟨max n (j + 1), fun k hk => ?_⟩
    rw [DwSys.setWorker_other _ (by omega)]
    exact hn k (by omega)

theorem step {a : DwAct} (h : DwLive s) (hclock : DwClock s) (hok : SparesItem s a)
    (hs : s.step a = some s') : DwLive s' := by
  cases a with
  | call op began =>
      simp only [DwSys.step] at hs
      split at hs
      · next hfree =>
        split at hs
        · cases hs
          exact h.caller (.moves rfl rfl rfl rfl trivial (by rw [hfree]; exact id)
            (fun hstop => by rw [hfree] at hstop; cases hstop))
        · cases hs
      · cases hs
  | caller result period =>
      simp only [DwSys.step] at hs
      split at hs
      · cases hs
      · exact h.caller (.of_stepCaller h.enqueues hs)
  | fire =>
      simp only [DwSys.step] at hs
      split at hs
      · cases hs
      · split at hs
        · cases hs
          refine h.expiry (i := s.nextExpiry) ⟨rfl, rfl, id,
            fun _ hk => DwSys.setExpiry_other _ hk _, .inl ⟨rfl, fun hsub => ?_⟩⟩
          rw [hclock.absent _ le_rfl] at hsub
          cases hsub
        · cases hs
  | expiry i result =>
      simp only [DwSys.step] at hs
      split at hs
      · cases hs
      · exact h.expiry (.of_stepExpiry hs)
  | dequeue j =>
      simp only [DwSys.step] at hs
      split at hs
      · next hidle hqueue =>
        cases hs
        exact h.dequeue hidle
      · cases hs
  | worker j => exact h.worker (.of_stepWorker hs)
  | tick ms =>
      simp only [DwSys.step] at hs
      split at hs
      · cases hs
        exact ⟨h.queued, h.running, h.stopping, h.decoded, h.enqueues, h.free⟩
      · cases hs
  | cancelAll =>
      cases hs
      refine ⟨fun hst => .inr ?_, h.running, h.stopping, h.decoded, h.enqueues, h.free⟩
      by_cases hq : s.queue = []
      · exact (h.queued hst).resolve_left (not_not.mpr hq)
      · exact hok hst hq

theorem reachable {clock : Nat} (hclock : clock < 2 ^ 63)
    (hs : (dwMachine clock).ReachableBy SparesItem s) : DwLive s ∧ DwClock s :=
  hs.invariant (I := fun s => DwLive s ∧ DwClock s) ⟨fresh clock, hclock, fun _ _ => rfl⟩
    (fun _ _ _ _ hi hok hstep => ⟨hi.1.step hi.2 hok hstep, hi.2.step hstep⟩)

end DwLive

/-! ### The way back to idle -/

/-- The item can become idle. -/
def DwSys.CanIdle (clock : Nat) (s : DwSys) : Prop :=
  (dwMachine clock).CanReach (fun s => decodeState s.word = some .idle) s

namespace DwSys.CanIdle

variable {clock : Nat} {s : DwSys}

theorem cons (a : DwAct) (s' : DwSys) (hs : s.step a = some s') (h : s'.CanIdle clock) :
    s.CanIdle clock :=
  .step (a := a) hs h

theorem of_idle (h : decodeState s.word = some .idle) : s.CanIdle clock := .here h

section Worker

variable {j id : Nat}

theorem of_doneCas (hj : s.workers j = .doneCas id s.word) : s.CanIdle clock := by
  refine cons (.worker j) ({ s with word := withState s.word .idle }.setWorker j .idle)
    ?_ (of_idle (decodeState_withState _ _))
  simp only [DwSys.step, DwSys.stepWorker, hj, if_true]

theorem of_doneLoad (hr : decodeState s.word = some .running) (hj : s.workers j = .doneLoad id) :
    s.CanIdle clock := by
  refine cons (.worker j) (s.setWorker j (.doneCas id s.word)) ?_
    (of_doneCas (s.setWorker_self j _))
  simp only [DwSys.step, DwSys.stepWorker, hj, hr, if_true]

theorem of_callback (hr : decodeState s.word = some .running) (hj : s.workers j = .callback id) :
    s.CanIdle clock := by
  refine cons (.worker j) (s.setWorker j (.doneLoad id)) ?_
    (of_doneLoad hr (s.setWorker_self j _))
  simp only [DwSys.step, DwSys.stepWorker, hj]

theorem of_cas (hj : s.workers j = .cas id s.word) : s.CanIdle clock := by
  refine cons (.worker j) ({ s with
    word := withState s.word .running
    log := .ran id :: s.log }.setWorker j (.callback id)) ?_
    (of_callback (decodeState_withState _ _) (DwSys.setWorker_self _ j _))
  simp only [DwSys.step, DwSys.stepWorker, hj, if_true]

theorem of_entry (hq : decodeState s.word = some .queued) (hj : s.workers j = .entry id) :
    s.CanIdle clock := by
  refine cons (.worker j) (s.setWorker j (.cas id s.word)) ?_
    (of_cas (s.setWorker_self j _))
  simp only [DwSys.step, DwSys.stepWorker, hj, hq, if_true]

theorem of_queue (hq : decodeState s.word = some .queued) (hne : s.queue ≠ [])
    (hj : s.workers j = .idle) : s.CanIdle clock := by
  obtain ⟨id, rest, hqueue⟩ := List.exists_cons_of_ne_nil hne
  refine cons (.dequeue j) ({ s with queue := rest }.setWorker j (.entry id)) ?_
    (of_entry hq (DwSys.setWorker_self _ j _))
  simp only [DwSys.step, hj, hqueue]

theorem of_takes (hq : decodeState s.word = some .queued) (hj : (s.workers j).Takes s.word) :
    s.CanIdle clock := by
  cases hc : s.workers j with
  | entry id => exact of_entry hq hc
  | cas id raw =>
      rw [hc] at hj
      obtain rfl : raw = s.word := hj
      exact of_cas hc
  | _ =>
      rw [hc] at hj
      cases hj

theorem of_runs (hr : decodeState s.word = some .running) (hj : (s.workers j).Runs s.word) :
    s.CanIdle clock := by
  cases hc : s.workers j with
  | callback id => exact of_callback hr hc
  | doneLoad id => exact of_doneLoad hr hc
  | doneCas id raw =>
      rw [hc] at hj
      obtain rfl : raw = s.word := hj
      exact of_doneCas hc
  | _ =>
      rw [hc] at hj
      cases hj

end Worker

section Expiry

variable {i id : Nat}

theorem of_failStore {raw : BitVec 32} (hi : s.expiries i = .failStore id raw) :
    s.CanIdle clock := by
  refine cons (.expiry i none) ({ s with word := withState raw .idle }.setExpiry i
    .absent) ?_ (of_idle (decodeState_withState _ _))
  simp only [DwSys.step, DwSys.stepExpiry, hi]
  rfl

theorem of_failLoad (hi : s.expiries i = .failLoad id) : s.CanIdle clock := by
  refine cons (.expiry i none) (s.setExpiry i (.failStore id s.word)) ?_
    (of_failStore (s.setExpiry_self i _))
  simp only [DwSys.step, DwSys.stepExpiry, hi]
  rfl

/-- The submit may fail; then the callback gives the item up. -/
theorem of_expirySubmitting (hi : (s.expiries i).Submitting) : s.CanIdle clock := by
  cases hc : s.expiries i with
  | submit id loaded current =>
      refine cons (.expiry i (some .overflow))
        ((s.setDispatchError .overflow).setExpiry i (.failLoad id)) ?_
        (of_failLoad (DwSys.setExpiry_self _ i _))
      simp only [DwSys.step, DwSys.stepExpiry, hc]
      rfl
  | failLoad id => exact of_failLoad hc
  | failStore id raw => exact of_failStore hc
  | _ =>
      rw [hc] at hi
      cases hi

end Expiry

section Caller

variable {c : DwCall}

theorem of_storeStopped {raw : BitVec 32} (hc : s.holder = .storeRaw c .stopped raw) :
    s.CanIdle clock := by
  refine cons (.caller none 0) ({ s with word := withState raw .idle }.afterStore c .stopped) ?_
    (of_idle ?_)
  · simp only [DwSys.step, DwSys.stepCaller, hc]
    rfl
  · simp only [DwSys.afterStore]
    split
    · exact decodeState_withState _ _
    · exact decodeState_withState _ _

theorem of_stopped (hc : s.holder = .store c .stopped) : s.CanIdle clock := by
  refine cons (.caller none 0) { s with holder := .storeRaw c .stopped s.word } ?_
    (of_storeStopped rfl)
  simp only [DwSys.step, DwSys.stepCaller, hc]
  rfl

theorem of_stop (hc : s.holder = .stop c none) : s.CanIdle clock := by
  refine cons (.caller none 0)
    { s with timer := { s.timer with due := none }, holder := .store c .stopped } ?_
    (of_stopped rfl)
  simp only [DwSys.step, DwSys.stepCaller, hc]
  rfl

theorem of_casArmed (hc : s.holder = .cas c s.word) : s.CanIdle clock := by
  refine cons (.caller none 0)
    { s with word := withState s.word .stopping, holder := .stop c none } ?_ (of_stop rfl)
  simp only [DwSys.step, DwSys.stepCaller, hc, if_true]
  rfl

theorem of_casLoad (ha : decodeState s.word = some .armed) (hc : s.holder = .casLoad c) :
    s.CanIdle clock := by
  refine cons (.caller none 0) { s with holder := .cas c s.word } ?_ (of_casArmed rfl)
  simp only [DwSys.step, DwSys.stepCaller, hc, ha, if_true]
  rfl

/-- An armed item with nobody in it is cancelled. -/
theorem of_armed (ha : decodeState s.word = some .armed) (hfree : s.holder = .free) :
    s.CanIdle clock := by
  refine cons (.call .cancel s.clock)
    { s with holder := .load ⟨s.nextCall, .cancel, s.clock⟩, nextCall := s.nextCall + 1 } ?_ ?_
  · simp only [DwSys.step, hfree]
    exact if_pos ⟨le_rfl, by decide⟩
  · refine cons (.caller none 0) { s with
      holder := .casLoad ⟨s.nextCall, .cancel, s.clock⟩
      nextCall := s.nextCall + 1 } ?_ (of_casLoad ha rfl)
    simp only [DwSys.step, DwSys.stepCaller, DwSys.stepLoad, ha]
    rfl

end Caller

end DwSys.CanIdle

/-- How far a call is from its return. -/
def DwCaller.rank : DwCaller → Nat
  | .free => 0
  | .storeRaw _ (.failed _) _ | .storeRaw _ (.restored _) _ => 1
  | .store _ (.failed _) | .store _ (.restored _) => 2
  | .submit _ => 3
  | .storeRaw _ .enqueue _ => 4
  | .store _ .enqueue => 5
  | .armStart _ => 6
  | .armStore _ _ _ => 7
  | .armLoad _ _ => 8
  | .armDelayHigh _ _ => 9
  | .armDelayLow _ _ => 10
  | .armStartHigh _ _ => 11
  | .armStartLow _ _ => 12
  | .armPeriod _ _ => 13
  | .armNow _ => 14
  | .begin _ => 15
  | .storeRaw _ .stopped _ => 16
  | .store _ .stopped => 17
  | .stop _ _ => 18
  | .cas _ _ => 19
  | .casLoad _ => 20
  | .load _ => 21

theorem DwSys.casFails_free (s : DwSys) (c : DwCall) (expected : Option DwState) :
    (s.casFails c expected).holder = .free := by
  unfold DwSys.casFails
  split
  · split <;> rfl
  · rfl

/-- A call that is not hindered comes closer to its return. -/
theorem DwSys.caller_advances {s : DwSys} (hbusy : s.holder ≠ .free) :
    ∃ s', s.step (.caller none 0) = some s' ∧ s'.holder.rank < s.holder.rank := by
  have hstep : s.step (.caller none 0) = s.stepCaller none 0 := rfl
  rw [hstep, DwSys.stepCaller.eq_def]
  cases hc : s.holder with
  | free => exact absurd hc hbusy
  | load c =>
      refine ⟨_, rfl, ?_⟩
      unfold DwSys.stepLoad
      simp only
      repeat' split
      all_goals simp [DwCaller.rank, DwSys.returns]
  | casLoad c =>
      simp only
      split
      · exact ⟨_, rfl, by simp [DwCaller.rank]⟩
      · exact ⟨_, rfl, by simp [DwCaller.rank, DwSys.casFails_free]⟩
  | cas c raw =>
      simp only
      split
      · exact ⟨_, rfl, by simp [DwCaller.rank]⟩
      · exact ⟨_, rfl, by simp [DwCaller.rank, DwSys.casFails_free]⟩
  | stop c r =>
      cases r with
      | none => exact ⟨_, rfl, by simp [DwCaller.rank]⟩
      | some code => exact ⟨_, rfl, by simp [DwCaller.rank]⟩
  | store c next =>
      refine ⟨_, rfl, ?_⟩
      cases next <;> simp [DwCaller.rank]
  | storeRaw c next raw =>
      refine ⟨_, rfl, ?_⟩
      cases next with
      | stopped =>
          simp only [DwSys.afterStore]
          split <;> simp [DwCaller.rank, DwSys.returns]
      | _ => simp [DwCaller.rank, DwSys.afterStore, DwSys.returns]
  | begin c =>
      simp only
      split
      · exact ⟨_, rfl, by simp [DwCaller.rank]⟩
      · exact ⟨_, rfl, by simp [DwCaller.rank]⟩
  | _ => exact ⟨_, rfl, by simp [DwCaller.rank, DwSys.returns]⟩

theorem DwSys.canIdle_of_free {clock : Nat} {s : DwSys} (h : DwLive s) (hfree : s.holder = .free) :
    s.CanIdle clock := by
  cases hst : decodeState s.word with
  | none => exact absurd hst h.decoded
  | some st =>
      cases st with
      | idle => exact .of_idle hst
      | armed => exact .of_armed hst hfree
      | queued =>
          rcases h.queued hst with hq | hholder | ⟨i, hi⟩ | ⟨j, hj⟩
          · obtain ⟨n, hn⟩ := h.free
            exact .of_queue hst hq (hn n le_rfl)
          · rw [hfree] at hholder
            cases hholder
          · exact .of_expirySubmitting hi
          · exact .of_takes hst hj
      | running =>
          obtain ⟨j, hj⟩ := h.running hst
          exact .of_runs hst hj
      | stopping =>
          have hstop := h.stopping hst
          rw [hfree] at hstop
          cases hstop

/-- The call in progress returns, and then whoever owes it ends the state. -/
theorem DwSys.canIdle {clock : Nat} {s : DwSys} (h : DwLive s) (hclock : DwClock s) :
    s.CanIdle clock := by
  have hreturns : (dwMachine clock).CanReach (fun s => DwLive s ∧ s.holder = .free) s := by
    refine Machine.CanReach.of_variant (I := fun s => DwLive s ∧ DwClock s)
      (fun s => s.holder.rank) ?_ ⟨h, hclock⟩
    rintro s ⟨hlive, hcl⟩
    by_cases hfree : s.holder = .free
    · exact .inl ⟨hlive, hfree⟩
    · obtain ⟨s', hs, hlt⟩ := DwSys.caller_advances hfree
      have hlive' : DwLive s' := hlive.step (a := .caller none 0) hcl trivial hs
      exact .inr ⟨.caller none 0, s', hs, ⟨hlive', hcl.step hs⟩, hlt⟩
  exact hreturns.trans (fun s' hs' => DwSys.canIdle_of_free hs'.1 hs'.2)

/-! ### The contract -/

/-- In every run in which `cancel_all` never removes the only thunk of a queued item: a
queued item is carried, it can become idle again, and it is `cancel_all` on such a thunk,
and that only, that would leave it queued with nothing to carry it. -/
theorem delayableWork_survives_cancelAll {clock : Nat} (hclock : clock < 2 ^ 63) {s : DwSys}
    (hs : (dwMachine clock).ReachableBy SparesItem s) :
    s.QueuedIsCarried ∧ s.CanIdle clock ∧
      ∀ s', s.step .cancelAll = some s' → (s'.QueuedIsCarried ↔ SparesItem s .cancelAll) := by
  obtain ⟨hlive, hcl⟩ := DwLive.reachable hclock hs
  refine ⟨hlive.queued, DwSys.canIdle hlive hcl, fun s' hs' => ⟨fun hcarried hst hq => ?_, ?_⟩⟩
  · cases hs'
    exact (hcarried hst).resolve_left (fun hne => hne rfl)
  · intro hspares
    exact (hlive.step hcl hspares hs').queued

/-- `schedule(0)` on a fresh item. -/
def scheduleNow : List DwAct := .call (.schedule 0) 0 :: List.replicate 5 (.caller none 0)

/-- The item is queued, and its thunk is in the queue. -/
theorem delayableWork_survives_cancelAll_queued : ∃ s,
    (dwMachine 0).run (dwMachine 0).init scheduleNow = some s ∧
      decodeState s.word = some .queued ∧ s.Carried ∧ s.CanIdle 0 := by
  have hview : ((dwMachine 0).run (dwMachine 0).init scheduleNow).map
      (fun s => decodeState s.word) = some (some .queued) := by
    decide +kernel
  obtain ⟨s, hrun, hqueued⟩ := Option.map_eq_some_iff.mp hview
  have hok : (dwMachine 0).RunOk SparesItem (dwMachine 0).init scheduleNow := by
    refine (Machine.RunOk.of_forall (p := fun a => a ≠ .cancelAll) ?_ _).mono ?_
    · intro a ha
      rcases List.mem_cons.mp ha with rfl | ha
      · exact nofun
      · rw [List.eq_of_mem_replicate ha]
        exact nofun
    · intro s a ha
      cases a with
      | cancelAll => exact absurd rfl ha
      | _ => trivial
  obtain ⟨hcarried, hidle, -⟩ := delayableWork_survives_cancelAll (by decide)
    (Machine.ReachableBy.of_run .init hok hrun)
  exact ⟨s, hrun, hqueued, hcarried hqueued, hidle⟩

/-! ### The item that `cancel_all` forgets -/

/-- At a point where an operation refuses a queued item. -/
def DwCaller.Refusing : DwCaller → Prop
  | .free | .load _ | .casLoad _ => True
  | _ => False

/-- Queued, and nothing of the item is left anywhere. -/
structure DwSys.Stuck (s : DwSys) : Prop where
  queued : decodeState s.word = some .queued
  queue : s.queue = []
  due : s.timer.due = none
  expiries : ∀ i, s.expiries i = .absent
  workers : ∀ j, s.workers j = .idle
  holder : s.holder.Refusing

namespace DwSys.Stuck

variable {s s' : DwSys}

theorem not_carried (h : s.Stuck) : ¬ s.Carried := by
  rintro (hq | hholder | ⟨i, hi⟩ | ⟨j, hj⟩)
  · exact hq h.queue
  · have hrefuses := h.holder
    cases hc : s.holder with
    | free | load c | casLoad c =>
        rw [hc] at hholder
        cases hholder
    | _ =>
        rw [hc] at hrefuses
        cases hrefuses
  · rw [h.expiries i] at hi
    cases hi
  · rw [h.workers j] at hj
    cases hj

/-- The holder moves, and nothing else that matters. -/
theorem moves (h : s.Stuck) (hword : s'.word = s.word) (hqueue : s'.queue = s.queue)
    (htimer : s'.timer = s.timer) (hexpiries : s'.expiries = s.expiries)
    (hworkers : s'.workers = s.workers) (hholder : s'.holder.Refusing) : s'.Stuck where
  queued := by rw [hword]; exact h.queued
  queue := by rw [hqueue]; exact h.queue
  due := by rw [htimer]; exact h.due
  expiries := by rw [hexpiries]; exact h.expiries
  workers := by rw [hworkers]; exact h.workers
  holder := hholder

theorem stepCaller {result : Option ErrorCode} {period : Nat} (h : s.Stuck)
    (hs : s.stepCaller result period = some s') : s'.Stuck := by
  have hrefuses := h.holder
  rw [DwSys.stepCaller.eq_def] at hs
  cases hc : s.holder with
  | free =>
      rw [hc] at hs
      cases hs
  | load c =>
      simp only [hc] at hs
      cases hs
      unfold DwSys.stepLoad
      simp only [h.queued]
      cases hop : c.op with
      | schedule delay => exact h.moves rfl rfl rfl rfl rfl trivial
      | reschedule delay => exact h.moves rfl rfl rfl rfl rfl trivial
      | cancel => exact h.moves rfl rfl rfl rfl rfl trivial
  | casLoad c =>
      simp only [hc, h.queued] at hs
      cases hs
      unfold DwSys.casFails
      repeat' split
      all_goals exact h.moves rfl rfl rfl rfl rfl trivial
  | _ =>
      rw [hc] at hrefuses
      cases hrefuses

/-- Whatever is called, the item stays as it is. -/
theorem step {a : DwAct} (h : s.Stuck) (hs : s.step a = some s') : s'.Stuck := by
  cases a with
  | call op began =>
      simp only [DwSys.step] at hs
      split at hs
      · split at hs
        · cases hs
          exact h.moves rfl rfl rfl rfl rfl trivial
        · cases hs
      · cases hs
  | caller result period =>
      simp only [DwSys.step] at hs
      split at hs
      · cases hs
      · exact h.stepCaller hs
  | fire =>
      simp only [DwSys.step, h.due] at hs
      cases hs
  | expiry i result =>
      simp only [DwSys.step, DwSys.stepExpiry, h.expiries i] at hs
      split at hs <;> cases hs
  | dequeue j =>
      simp only [DwSys.step, h.workers j, h.queue] at hs
      cases hs
  | worker j =>
      simp only [DwSys.step, DwSys.stepWorker, h.workers j] at hs
      cases hs
  | tick ms =>
      simp only [DwSys.step] at hs
      split at hs
      · cases hs
        exact h.moves rfl rfl rfl rfl rfl h.holder
      · cases hs
  | cancelAll =>
      cases hs
      exact h.moves rfl h.queue.symm rfl rfl rfl h.holder

theorem not_canIdle {clock : Nat} (h : s.Stuck) : ¬ s.CanIdle clock := by
  intro hidle
  induction hidle with
  | here hst =>
      rw [h.queued] at hst
      cases hst
  | step hs _ ih => exact ih (h.step hs)

end DwSys.Stuck

/-- `schedule(0)`, then `cancel_all` before a worker takes the thunk: the item is queued
for good, with nothing outstanding. -/
theorem delayableWork_forgotten : ∃ s,
    (dwMachine 0).run (dwMachine 0).init (scheduleNow ++ [.cancelAll]) = some s ∧
      decodeState s.word = some .queued ∧ ¬ s.Carried ∧ ¬ s.CanIdle 0 := by
  have hview : ((dwMachine 0).run (dwMachine 0).init (scheduleNow ++ [.cancelAll])).map
      (fun s => decodeState s.word) = some (some .queued) := by
    decide +kernel
  obtain ⟨s, hrun, hqueued⟩ := Option.map_eq_some_iff.mp hview
  have hstuck : s.Stuck := by
    have hsome := Option.some.inj hrun
    subst hsome
    exact ⟨hqueued, rfl, rfl, fun _ => rfl, fun _ => rfl, trivial⟩
  exact ⟨s, hrun, hqueued, hstuck.not_carried, hstuck.not_canIdle⟩

end MicrOsal
