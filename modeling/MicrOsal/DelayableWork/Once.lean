import MicrOsal.DelayableWork.History

/-!
# MicrOsal.DelayableWork.Once

The contract of delayable work: at most one thunk outstanding, at most one
callback for each scheduling call, and no submission earlier than the latest
call allows.
-/

namespace MicrOsal

/-! ### Reading the record backwards -/

/-- The event commits a scheduling call. -/
def DwEvent.Commits : DwEvent → Prop
  | .armed _ | .enqueued _ => True
  | _ => False

/-- The time of a submission. -/
def DwEvent.submittedAt : DwEvent → Option Nat
  | .callerSubmitted time => some time
  | .expirySubmitted time _ _ => some time
  | _ => none

theorem LogOk.drop {later rest : List DwEvent} (h : LogOk (later ++ rest)) : LogOk rest := by
  induction later with
  | nil => exact h
  | cons e later ih => exact ih h.2

theorem LogOk.ranIds_nodup {log : List DwEvent} (h : LogOk log) : (ranIds log).Nodup := by
  induction log with
  | nil => exact List.nodup_nil
  | cons e log ih =>
      cases e with
      | ran id => exact List.nodup_cons.mpr ⟨h.1, ih h.2⟩
      | _ => exact ih h.2

theorem LogOk.mem {log : List DwEvent} (h : LogOk log) {e : DwEvent} (he : e ∈ log) :
    ∃ earlier, EventOk earlier e := by
  obtain ⟨later, earlier, rfl⟩ := List.append_of_mem he
  exact ⟨earlier, h.drop.1⟩

/-- Without a commitment the record allows nothing new. -/
theorem boundOf_append {mid : List DwEvent} (hmid : ∀ e ∈ mid, ¬ e.Commits)
    (rest : List DwEvent) :
    boundOf (mid ++ rest) = .never ∨ boundOf (mid ++ rest) = boundOf rest := by
  induction mid with
  | nil => exact Or.inr rfl
  | cons e mid ih =>
      have ih := ih fun e' he' => hmid e' (List.mem_cons_of_mem _ he')
      have he := hmid e (List.mem_cons_self ..)
      cases e with
      | armed c => exact absurd trivial he
      | enqueued c => exact absurd trivial he
      | returned c code =>
          by_cases hnever : code = .ok ∧ c.delay ≤ 0
          · exact Or.inl (if_pos hnever)
          · rw [List.cons_append, boundOf, if_neg hnever]
            exact ih
      | _ => exact ih

/-- What a call that returned `ok` allows. -/
theorem boundOf_returned {c : DwCall} {earlier : List DwEvent}
    (h : EventOk earlier (.returned c .ok)) :
    boundOf (.returned c .ok :: earlier) = .never ∨
      0 < c.delay ∧ boundOf (.returned c .ok :: earlier) = .notBefore (c.began + c.delay) := by
  by_cases hpos : 0 < c.delay
  · refine Or.inr ⟨hpos, ?_⟩
    rw [boundOf, if_neg fun hand => not_le.mpr hpos hand.2]
    exact h rfl hpos
  · exact Or.inl (if_pos ⟨rfl, not_lt.mp hpos⟩)

/-- A submission that follows the return of a call, with no commitment in
between, is that call's and not early. -/
theorem LogOk.not_early {later mid earlier : List DwEvent} {e : DwEvent} {c : DwCall} {time : Nat}
    (h : LogOk (later ++ e :: (mid ++ .returned c .ok :: earlier)))
    (he : e.submittedAt = some time) (hmid : ∀ e ∈ mid, ¬ e.Commits) :
    0 < c.delay ∧ c.began + c.delay ≤ time := by
  have hrest := h.drop.2
  have hret := boundOf_returned hrest.drop.1
  have hbound := boundOf_append hmid (.returned c .ok :: earlier)
  have hevent := h.drop.1
  cases e with
  | callerSubmitted t =>
      -- the record would have to allow an immediate submission
      exfalso
      have himm : boundOf (mid ++ .returned c .ok :: earlier) = .immediate := hevent
      rcases hbound with hb | hb
      · rw [hb] at himm
        cases himm
      · rcases hret with hr | ⟨-, hr⟩
        · rw [hb, hr] at himm
          cases himm
        · rw [hb, hr] at himm
          cases himm
  | expirySubmitted t loaded current =>
      obtain rfl := Option.some.inj he
      obtain ⟨-, b, hb', hle⟩ := hevent
      rcases hbound with hb | hb
      · rw [hb] at hb'
        cases hb'
      · rcases hret with hr | ⟨hpos, hr⟩
        · rw [hb, hr] at hb'
          cases hb'
        · rw [hb, hr] at hb'
          obtain rfl := DwBound.notBefore.inj hb'
          exact ⟨hpos, hle⟩
  | _ => cases he

/-! ### The contract -/

/-- Where a thunk of the item is queued or running. -/
def DwSys.Outstanding (s : DwSys) : DwAgent → Prop
  | .slot k => k < s.queue.length
  | .worker j => s.workers j ≠ .idle
  | _ => False

theorem DwSys.Outstanding.token {s : DwSys} {a : DwAgent} (h : s.Outstanding a) :
    s.token a ≠ none := by
  cases a with
  | slot k =>
      show s.queue[k]? ≠ none
      rw [ne_eq, List.getElem?_eq_none_iff, not_le]
      exact h
  | worker j =>
      show (s.workers j).token ≠ none
      cases hc : s.workers j with
      | idle => exact absurd hc h
      | _ => exact Option.some_ne_none _
  | caller => exact absurd h id
  | expiry i => exact absurd h id

/-- In every reachable state: at most one thunk is queued or running; the
callback has run at most once for each call, and each such call is a `schedule`
or `reschedule` that returned `ok` or is about to; an expiry was submitted only
for the arming it read; and after a call returned `ok`, the next submission
before any other commitment is not earlier than that call's own start plus its
delay (so there is none after a `cancel`, or after an immediate submission). -/
theorem delayableWork_once {clock : Nat} (hclock : clock < 2 ^ 63) {s : DwSys}
    (hs : (dwMachine clock).ReachableBy DwAssumptions s) :
    (∀ a b, s.Outstanding a → s.Outstanding b → a = b) ∧
    ((ranIds s.log).Nodup ∧ (∀ id ∈ ranIds s.log, Accounted s.log s.holder id) ∧
      ∀ j k id id', s.workers j = .callback id → s.workers k = .callback id' → j = k) ∧
    (∀ time loaded current, .expirySubmitted time loaded current ∈ s.log → loaded = current) ∧
    (∀ later mid earlier e (c : DwCall) (time : Nat),
      s.log = later ++ e :: (mid ++ .returned c .ok :: earlier) → e.submittedAt = some time →
      (∀ e ∈ mid, ¬ e.Commits) → 0 < c.delay ∧ (c.began : Int) + c.delay ≤ time) := by
  obtain ⟨st, o, htok⟩ := (DwBase.reachable hclock (fun _ _ hok => hok.1) hs).tok
  have hhist := DwHist.reachable hclock hs
  have hone : ∀ a b, s.Outstanding a → s.Outstanding b → a = b := by
    intro a b ha hb
    have hab := (htok.owner a ha.token).symm.trans (htok.owner b hb.token)
    exact Option.some.inj hab
  refine ⟨hone, ⟨hhist.log.ranIds_nodup, fun id hid => (hhist.ran id hid).2, ?_⟩, ?_, ?_⟩
  · intro j k id id' hj hk
    have hjk := hone (.worker j) (.worker k) (by simp [DwSys.Outstanding, hj])
      (by simp [DwSys.Outstanding, hk])
    exact DwAgent.worker.inj hjk
  · intro time loaded current hmem
    obtain ⟨earlier, hevent⟩ := hhist.log.mem hmem
    exact hevent.1
  · intro later mid earlier e c time hlog he hmid
    have hok := hhist.log
    rw [hlog] at hok
    exact hok.not_early he hmid

/-- An item scheduled with 5 ms of delay: the timer fires at 6 ms, the callback
runs, and the item is idle again. -/
theorem delayableWork_once_run :
    ∃ s : DwSys, (dwMachine 0).ReachableBy DwAssumptions s ∧ ranIds s.log = [0] ∧
      (∀ a b, s.Outstanding a → s.Outstanding b → a = b) ∧ Accounted s.log s.holder 0 := by
  let schedule : List DwAct :=
    DwAct.call (.schedule 5) 0 :: List.replicate 11 (DwAct.caller none 5) ++
      DwAct.tick 6 :: DwAct.fire :: List.replicate 8 (DwAct.expiry 0 none) ++
      DwAct.dequeue 0 :: List.replicate 5 (DwAct.worker 0)
  have hok : (dwMachine 0).RunOk DwAssumptions (DwSys.fresh 0) schedule := by decide +kernel
  have hview : ((dwMachine 0).run (DwSys.fresh 0) schedule).map (fun s => ranIds s.log) =
      some [0] := by
    decide +kernel
  obtain ⟨s, hrun, hran⟩ := Option.map_eq_some_iff.mp hview
  have hs := Machine.ReachableBy.of_run .init hok hrun
  obtain ⟨hone, ⟨-, hacc, -⟩, -⟩ := delayableWork_once (by decide) hs
  exact ⟨s, hs, hran, hone, hacc 0 (by rw [hran]; exact List.mem_singleton_self 0)⟩

end MicrOsal
