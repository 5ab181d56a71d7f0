import MicrOsal.QnxTimer.Account

/-!
# MicrOsal.QnxTimer.Punctual

The QNX timer calls back when it is due and at no other time, and its context is deleted after
everybody is done with it, at most once, and in the end once (`qnxTimer_sound`).
-/

namespace MicrOsal.QnxTimer

open Timer (tickNs maxTime)

variable {w : Nat} {s s' : State w} {c c' : Ctx w} {e : Event}

/-! ### Calls -/

/-- A broadcast gives the context to nobody. -/
theorem Owned.woken {n : Nat} {log : List Event} (h : Owned s c)
    (hshutdown : c.shutdown = true → c'.shutdown = true)
    (hrelease : c'.releaseFromWatcher = c.releaseFromWatcher) :
    Owned { s with ctx := some c', armings := n, log := log, watcher := s.watcher.woken } c' where
  released hr := h.released (hrelease ▸ hr)
  handle hr := h.handle (hrelease ▸ hr)
  destroyer hd := hshutdown (h.destroyer hd)
  release hd := by
    show s.watcher.woken = .gone
    rw [h.release hd]
    rfl
  clear := h.clear

namespace Inv

variable {period : Nat} {autoReload own : Bool}

/-- A call changes the context, and may wake the watcher. -/
theorem called (h : Inv period autoReload s) (hctx : s'.ctx = some c')
    (hfault : s'.fault = s.fault) (hnow : s'.now = s.now) (hlog : s'.log = s.log ++ [e])
    (hright : ∀ now, e ≠ .called now)
    (htracks : Tracks ((ideal period autoReload s.log).after autoReload e) s'.armings s'.watcher c')
    (hauto : c'.autoReload = autoReload) (hknows : s'.watcher.Knows s.now c')
    (howned : Owned s' c') : Inv period autoReload s' where
  fault := hfault.trans h.fault
  now := hnow ▸ h.now
  right := by
    rw [hlog]
    refine h.right.concat ?_
    cases e with
    | called now => exact absurd rfl (hright now)
    | _ => trivial
  tracks k hk := by
    obtain rfl := Option.some.inj (hctx.symm.trans hk)
    rw [hlog, ideal_concat]
    exact ⟨htracks, hauto⟩
  knows k hk := by
    obtain rfl := Option.some.inj (hctx.symm.trans hk)
    rw [hnow]
    exact hknows
  owned k hk := by
    obtain rfl := Option.some.inj (hctx.symm.trans hk)
    exact howned
  deleted hnone := by
    rw [hctx] at hnone
    cases hnone

/-- Whoever may use the handle finds the context. -/
theorem found (h : Inv period autoReload s) (hhandle : s.handle = true)
    (hfree : s.destroyer = .absent ∨ s.watcher ≠ .gone) : ∃ c, s.ctx = some c := by
  cases hctx : s.ctx with
  | some c => exact ⟨c, rfl⟩
  | none =>
      obtain ⟨hgone, hclear | ⟨-, hnull⟩⟩ := h.deleted hctx
      · rcases hfree with hfree | hfree
        · rw [hclear] at hfree
          cases hfree
        · exact absurd hgone hfree
      · rw [hhandle] at hnull
        cases hnull

theorem start (h : Inv period autoReload s) (hctx : s.ctx = some c)
    (hwraps : s.armings + 1 < 2 ^ 64) : Inv period autoReload s.start := by
  obtain ⟨htracks, hauto⟩ := h.tracks c hctx
  have hknows := h.knows c hctx
  have hactive : decide (c.period ≠ noWait) = true := decide_eq_true htracks.period_ne.1
  unfold State.start
  rw [State.use_eq hctx, State.broadcast_eq, hactive]
  refine h.called rfl rfl rfl rfl (by rintro now ⟨⟩) ?_ hauto (hknows.arm ?_ rfl rfl)
    ((h.owned c hctx).woken id rfl)
  · refine (htracks.arm htracks.period_ne hwraps (fun r => hknows.calls_le) ?_).congr
      (Watcher.calls_woken _)
    rw [Ideal.after, htracks.period]
  · exact revision_succ (by rw [htracks.revision]; exact hwraps)

theorem stop (h : Inv period autoReload s) (hctx : s.ctx = some c) :
    Inv period autoReload s.stop := by
  obtain ⟨htracks, hauto⟩ := h.tracks c hctx
  unfold State.stop
  rw [State.use_eq hctx, State.broadcast_eq]
  refine h.called rfl rfl rfl rfl (by rintro now ⟨⟩) ?_ hauto
    ((h.knows c hctx).disarm rfl rfl id (fun _ => rfl)) ((h.owned c hctx).woken id rfl)
  refine Tracks.congr ?_ (Watcher.calls_woken _)
  exact htracks.disarm rfl rfl rfl rfl rfl htracks.closed

theorem setPeriod (h : Inv period autoReload s) (hctx : s.ctx = some c)
    (hwraps : s.armings + 1 < 2 ^ 64) (new : Tick w) : Inv period autoReload (s.setPeriod new) := by
  obtain ⟨htracks, hauto⟩ := h.tracks c hctx
  have hknows := h.knows c hctx
  unfold State.setPeriod
  split
  · exact h
  · rename_i hnew
    rw [State.use_eq hctx]
    split
    · rename_i hactive
      rw [State.broadcast_eq]
      refine h.called rfl rfl rfl rfl (by rintro now ⟨⟩) ?_ hauto (hknows.arm ?_ rfl rfl)
        ((h.owned c hctx).woken id rfl)
      · have hdue : (ideal period autoReload s.log).due ≠ .idle := by
          rcases htracks.due with ⟨hinactive, -⟩ | ⟨-, ⟨t, hdue, -⟩ | ⟨hdue, -⟩⟩
          · rw [hactive] at hinactive
            cases hinactive
          · rw [hdue]
            rintro ⟨⟩
          · rw [hdue]
            rintro ⟨⟩
        have harmed := htracks.arm (n := s.now) (not_or.mp hnew) hwraps
          (fun r => hknows.calls_le) rfl
        rw [← hactive] at harmed
        refine Tracks.congr ?_ (Watcher.calls_woken _)
        rw [Ideal.after, if_neg hdue]
        exact harmed
      · exact revision_succ (by rw [htracks.revision]; exact hwraps)
    · rename_i hinactive
      have hinactive : c.active = false := by simpa using hinactive
      have hidle : (ideal period autoReload s.log).due = .idle := by
        rcases htracks.due with ⟨-, hdue⟩ | ⟨hactive, -⟩
        · exact hdue
        · rw [hinactive] at hactive
          cases hactive
      refine h.called rfl rfl rfl rfl (by rintro now ⟨⟩) ?_ hauto ?_
        { h.owned c hctx with }
      · refine ⟨rfl, not_or.mp hnew, htracks.revision, htracks.closed, .inl ⟨hinactive, ?_⟩⟩
        exact if_pos hidle
      · exact hknows.period new

theorem destroy (h : Inv period autoReload s) (hctx : s.ctx = some c) (hhandle : s.handle = true)
    (hfree : s.destroyer = .absent) (hown : own = true → ∃ r, s.watcher = .callback r) :
    Inv period autoReload (s.destroy own) := by
  obtain ⟨htracks, hauto⟩ := h.tracks c hctx
  have hknows := h.knows c hctx
  have howned := h.owned c hctx
  have hrelease : c.releaseFromWatcher = false := by
    cases hc : c.releaseFromWatcher with
    | false => rfl
    | true =>
        rw [(howned.released hc).1] at hhandle
        cases hhandle
  unfold State.destroy
  rw [State.use_eq hctx]
  split
  · rename_i hself
    obtain ⟨r, hr⟩ := hown hself
    rw [State.broadcast_eq]
    refine h.called rfl rfl rfl rfl (by rintro now ⟨⟩) ?_ hauto (hknows.disarm rfl rfl ?_ ?_) ?_
    · refine Tracks.congr ?_ (Watcher.calls_woken _)
      exact htracks.disarm rfl rfl rfl rfl rfl rfl
    · exact fun _ => rfl
    · intro hcalls
      rw [hr] at hcalls
      cases hcalls
    · refine ⟨fun _ => ⟨rfl, hfree⟩, by rintro ⟨⟩, fun hd => absurd hfree hd, fun hd => ?_, ?_⟩
      · exact absurd (hfree.symm.trans hd) (by rintro ⟨⟩)
      · exact fun hd => absurd (hfree.symm.trans hd) (by rintro ⟨⟩)
  · rw [State.broadcast_eq]
    refine h.called rfl rfl rfl rfl (by rintro now ⟨⟩) ?_ hauto
      (hknows.disarm rfl rfl (fun _ => rfl) (fun _ => rfl)) ?_
    · refine Tracks.congr ?_ (Watcher.calls_woken _)
      exact htracks.disarm rfl rfl rfl rfl rfl rfl
    · refine ⟨fun hr => ?_, fun _ => hhandle, fun _ => rfl, by rintro ⟨⟩, by rintro ⟨⟩⟩
      exact absurd (hrelease.symm.trans hr) (by rintro ⟨⟩)

theorem call {op : Op w} (h : Inv period autoReload s)
    (horderly : (s.destroyer = .absent ∨ own = true ∧ op ≠ .destroy) ∧ s.armings + 1 < 2 ^ 64)
    (hown : own = true → ∃ r, s.watcher = .callback r) : Inv period autoReload (s.call own op) := by
  obtain ⟨hfree, hwraps⟩ := horderly
  unfold State.call
  split
  · rename_i hhandle
    obtain ⟨c, hctx⟩ := h.found hhandle (hfree.imp_right (fun hself => by
      obtain ⟨r, hr⟩ := hown hself.1
      rw [hr]
      rintro ⟨⟩))
    cases op with
    | start => exact h.start hctx hwraps
    | stop => exact h.stop hctx
    | setPeriod new => exact h.setPeriod hctx hwraps new
    | destroy => exact h.destroy hctx hhandle (hfree.resolve_right (fun hself => hself.2 rfl)) hown
  · exact h

/-! ### The watcher -/

/-- The watcher goes round in its loop. -/
theorem loop {l : List Event} (h : Inv period autoReload s) (htracks :
      Tracks (ideal period autoReload (s.log ++ l)) s.armings .entering c)
    (hlog : EachAfter (Right period autoReload) (s.log ++ l))
    (hauto : c.autoReload = autoReload) (howned : Owned s c) (hwatcher : s.watcher ≠ .gone) :
    Inv period autoReload ({ s with log := s.log ++ l }.loop c) := by
  have hcalls : ∀ watcher : Watcher, watcher.calls = none →
      Tracks (ideal period autoReload (s.log ++ l)) s.armings watcher c := by
    intro watcher hwatcher
    exact htracks.congr hwatcher
  have hturn : ∀ watcher : Watcher, watcher.calls = none → watcher.Knows s.now c →
      Inv period autoReload { s with log := s.log ++ l, ctx := some c, watcher := watcher } := by
    intro watcher hnone hknows
    refine ⟨h.fault, h.now, hlog, fun k hk => ?_, fun k hk => ?_, fun k hk => ?_, by rintro ⟨⟩⟩
    · obtain rfl := Option.some.inj hk
      exact ⟨hcalls watcher hnone, hauto⟩
    · obtain rfl := Option.some.inj hk
      exact hknows
    · obtain rfl := Option.some.inj hk
      exact { howned with release := fun hd => absurd (howned.release hd) hwatcher }
  unfold State.loop
  by_cases hshutdown : c.shutdown = true
  · rw [if_pos hshutdown]
    exact hturn _ rfl ⟨hshutdown, rfl⟩
  · have hopen : c.shutdown = false := by simpa using hshutdown
    rw [if_neg hshutdown]
    by_cases hactive : c.active = true
    · rw [if_pos hactive]
      exact hturn _ rfl ⟨hactive, hopen, rfl, rfl⟩
    · rw [if_neg hactive]
      exact hturn _ rfl ⟨by simpa using hactive, hopen⟩

/-- The time of a wait is up, and the timer has not been armed since. -/
theorem fire (h : Inv period autoReload s) (hctx : s.ctx = some c) {r : BitVec 64}
    (hwatcher : s.watcher = .timedOut r) (hopen : c.shutdown = false) (hactive : c.active = true)
    (hr : r = c.armRevision) :
    Inv period autoReload (State.note { s with
      ctx := some { c with active := c.autoReload }
      watcher := .callback r } (.called s.now)) := by
  obtain ⟨htracks, hauto⟩ := h.tracks c hctx
  have hknows := h.knows c hctx
  rw [hwatcher] at htracks hknows
  obtain ⟨t, hdue, hdeadline⟩ := htracks.due_at hactive rfl
  have hpast : t ≤ s.now := by
    have hle := hknows.2 hr hactive
    rw [hdeadline] at hle
    have hnow := h.now
    omega
  have howned := h.owned c hctx
  refine ⟨h.fault, h.now, h.right.concat ⟨?_, t, hdue, hpast⟩, fun k hk => ?_, fun k hk => ?_,
    fun k hk => ?_, by rintro ⟨⟩⟩
  · exact htracks.closed.trans hopen
  · obtain rfl := Option.some.inj hk
    refine ⟨?_, hauto⟩
    show Tracks (ideal period autoReload (s.log ++ [.called s.now])) s.armings (.callback r) _
    rw [ideal_concat]
    refine ⟨htracks.period, htracks.period_ne, htracks.revision, htracks.closed, ?_⟩
    rw [Ideal.after]
    cases hreload : autoReload with
    | false => exact .inl ⟨hauto.trans hreload, rfl⟩
    | true => exact .inr ⟨hauto.trans hreload, .inr ⟨rfl, hauto.trans hreload, congrArg some hr⟩⟩
  · obtain rfl := Option.some.inj hk
    exact hknows.1
  · obtain rfl := Option.some.inj hk
    refine { howned with release := fun hd => ?_ }
    exact absurd (hwatcher.symm.trans (howned.release hd)) (by rintro ⟨⟩)

/-- The watcher has the mutex again after a callback. -/
theorem resume (h : Inv period autoReload s) (hctx : s.ctx = some c) {r : BitVec 64}
    (hwatcher : s.watcher = .returned r) :
    Inv period autoReload ((s.note (.returned s.now)).loop
      (if c.active ∧ c.autoReload ∧ r = c.armRevision then
        { c with deadline := msToAbsMono s.now c.period }
      else c)) := by
  obtain ⟨htracks, hauto⟩ := h.tracks c hctx
  rw [hwatcher] at htracks
  have hright : EachAfter (Right period autoReload) (s.log ++ [.returned s.now]) :=
    h.right.concat trivial
  have hgone : s.watcher ≠ .gone := by
    rw [hwatcher]
    rintro ⟨⟩
  by_cases hagain : c.active ∧ c.autoReload ∧ r = c.armRevision
  · rw [if_pos hagain]
    refine h.loop ?_ hright hauto { h.owned c hctx with } hgone
    rw [ideal_concat, Ideal.after]
    have hdue : (ideal period autoReload s.log).due = .afterwards := by
      rcases htracks.due with ⟨hinactive, -⟩ | ⟨-, ⟨t, -, -, hne⟩ | ⟨hdue, -⟩⟩
      · exact absurd (hinactive.symm.trans hagain.1) (by rintro ⟨⟩)
      · exact absurd (congrArg some hagain.2.2) (hne hagain.2.1)
      · exact hdue
    rw [if_pos hdue]
    refine ⟨htracks.period, htracks.period_ne, htracks.revision, htracks.closed,
      .inr ⟨hagain.1, .inl ⟨_, rfl, ?_, fun _ => by rintro ⟨⟩⟩⟩⟩
    rw [msToAbsMono_of_ne htracks.period_ne.2, htracks.period]
  · rw [if_neg hagain]
    refine h.loop ?_ hright hauto (h.owned c hctx) hgone
    rw [ideal_concat, Ideal.after]
    have hdue : (ideal period autoReload s.log).due ≠ .afterwards := by
      intro hdue
      rcases htracks.due with ⟨-, hidle⟩ | ⟨hactive, ⟨t, hat, -⟩ | ⟨-, hreload, hcalls⟩⟩
      · exact absurd (hidle.symm.trans hdue) (by rintro ⟨⟩)
      · exact absurd (hat.symm.trans hdue) (by rintro ⟨⟩)
      · exact hagain ⟨hactive, hreload, Option.some.inj hcalls⟩
    rw [if_neg hdue]
    refine ⟨htracks.period, htracks.period_ne, htracks.revision, htracks.closed, ?_⟩
    rcases htracks.due with hidle | ⟨hactive, ⟨t, hat, hdeadline, -⟩ | ⟨hafter, -⟩⟩
    · exact .inl hidle
    · exact .inr ⟨hactive, .inl ⟨t, hat, hdeadline, fun _ => by rintro ⟨⟩⟩⟩
    · exact absurd hafter hdue

theorem stepWatcher (h : Inv period autoReload s) (hs : s.stepWatcher = some s') :
    Inv period autoReload s' := by
  have hfound : s.watcher ≠ .gone → ∃ c, s.ctx = some c := by
    intro hgone
    cases hctx : s.ctx with
    | some c => exact ⟨c, rfl⟩
    | none => exact absurd (h.deleted hctx).1 hgone
  have hloop : s.watcher.calls = none → s.watcher ≠ .gone → ∀ c, s.ctx = some c →
      Inv period autoReload (s.loop c) := by
    intro hcalls hgone c hctx
    have hsame : s.log ++ [] = s.log := List.append_nil _
    have hlooped := h.loop (l := []) (by rw [hsame]; exact (h.tracks c hctx).1.congr hcalls.symm)
      (by rw [hsame]; exact h.right) (h.tracks c hctx).2 (h.owned c hctx) hgone
    rwa [hsame] at hlooped
  unfold State.stepWatcher at hs
  generalize hwatcher : s.watcher = here at hs
  cases here with
  | entering =>
      obtain ⟨c, hctx⟩ := hfound (by rw [hwatcher]; rintro ⟨⟩)
      cases hs
      rw [State.use_eq hctx]
      exact hloop (by rw [hwatcher]; rfl) (by rw [hwatcher]; rintro ⟨⟩) c hctx
  | timedOut r =>
      obtain ⟨c, hctx⟩ := hfound (by rw [hwatcher]; rintro ⟨⟩)
      cases hs
      rw [State.use_eq hctx]
      split
      · exact hloop (by rw [hwatcher]; rfl) (by rw [hwatcher]; rintro ⟨⟩) c hctx
      · rename_i hgo
        simp only [not_or, Bool.not_eq_true, Bool.not_eq_false', ne_eq, not_not] at hgo
        exact h.fire hctx hwatcher hgo.1 hgo.2.1 hgo.2.2
  | callback r =>
      cases hs
      refine ⟨h.fault, h.now, h.right, fun c hctx => ?_, fun c hctx => ?_, fun c hctx => ?_,
        fun hctx => ?_⟩
      · obtain ⟨htracks, hauto⟩ := h.tracks c hctx
        exact ⟨htracks.congr (by rw [hwatcher]; rfl), hauto⟩
      · have hknows := h.knows c hctx
        rw [hwatcher] at hknows
        exact hknows
      · refine { h.owned c hctx with release := fun hd => ?_ }
        exact absurd (hwatcher.symm.trans ((h.owned c hctx).release hd)) (by rintro ⟨⟩)
      · exact absurd (hwatcher.symm.trans (h.deleted hctx).1) (by rintro ⟨⟩)
  | returned r =>
      obtain ⟨c, hctx⟩ := hfound (by rw [hwatcher]; rintro ⟨⟩)
      cases hs
      rw [State.use_eq hctx]
      exact h.resume hctx hwatcher
  | exiting release =>
      obtain ⟨c, hctx⟩ := hfound (by rw [hwatcher]; rintro ⟨⟩)
      have hknows := h.knows c hctx
      rw [hwatcher] at hknows
      have howned := h.owned c hctx
      cases release with
      | true =>
          cases hs
          rw [State.use_eq hctx]
          obtain ⟨hnull, habsent⟩ := howned.released hknows.2.symm
          exact ⟨h.fault, h.now, h.right, by rintro k ⟨⟩, by rintro k ⟨⟩, by rintro k ⟨⟩,
            fun _ => ⟨rfl, .inr ⟨habsent, hnull⟩⟩⟩
      | false =>
          cases hs
          refine ⟨h.fault, h.now, h.right, fun k hk => ?_, fun k hk => ?_, fun k hk => ?_,
            fun hk => ?_⟩
          · obtain ⟨htracks, hauto⟩ := h.tracks k hk
            exact ⟨htracks.congr (by rw [hwatcher]; rfl), hauto⟩
          · obtain rfl := Option.some.inj (hctx.symm.trans hk)
            exact ⟨hknows.1, hknows.2.symm⟩
          · exact { h.owned k hk with release := fun _ => rfl }
          · exact absurd (hctx.symm.trans hk) (by rintro ⟨⟩)
  | asleep | waiting | gone =>
      cases hs

/-- The watcher comes out of a wait. -/
theorem wake (h : Inv period autoReload s) {watcher : Watcher} (hcalls : s.watcher.calls = none)
    (hgone : s.watcher ≠ .gone) (hnone : watcher.calls = none)
    (hknows : ∀ c, s.ctx = some c → watcher.Knows s.now c) :
    Inv period autoReload { s with watcher := watcher } where
  fault := h.fault
  now := h.now
  right := h.right
  tracks c hctx := ⟨(h.tracks c hctx).1.congr (hnone.trans hcalls.symm), (h.tracks c hctx).2⟩
  knows := hknows
  owned c hctx :=
    { h.owned c hctx with release := fun hd => absurd ((h.owned c hctx).release hd) hgone }
  deleted hctx := absurd (h.deleted hctx).1 hgone

/-! ### The rest of the system -/

theorem stepDestroyer {fails : Bool} (h : Inv period autoReload s)
    (hs : s.stepDestroyer fails = some s') : Inv period autoReload s' := by
  unfold State.stepDestroyer at hs
  generalize hdestroyer : s.destroyer = here at hs
  cases here with
  | absent =>
      cases hs
  | join =>
      dsimp only at hs
      have hctx : ∀ hnone : s.ctx = none, False := by
        intro hnone
        obtain ⟨-, hclear | ⟨habsent, -⟩⟩ := h.deleted hnone
        · exact absurd (hdestroyer.symm.trans hclear) (by rintro ⟨⟩)
        · exact absurd (hdestroyer.symm.trans habsent) (by rintro ⟨⟩)
      split at hs
      · cases hs
        refine ⟨h.fault, h.now, h.right, h.tracks, h.knows, fun c hc => ?_,
          fun hnone => (hctx hnone).elim⟩
        have howned := h.owned c hc
        exact ⟨fun hr => ⟨(howned.released hr).1, rfl⟩, howned.handle, fun hd => absurd rfl hd,
          by rintro ⟨⟩, by rintro ⟨⟩⟩
      · split at hs
        · rename_i hgone
          cases hs
          refine ⟨h.fault, h.now, h.right, h.tracks, h.knows, fun c hc => ?_,
            fun hnone => (hctx hnone).elim⟩
          have howned := h.owned c hc
          refine ⟨fun hr => ?_, howned.handle, fun _ => howned.destroyer ?_, fun _ => hgone,
            by rintro ⟨⟩⟩
          · exact absurd (hdestroyer.symm.trans (howned.released hr).2) (by rintro ⟨⟩)
          · rw [hdestroyer]
            rintro ⟨⟩
        · cases hs
  | release =>
      cases hs
      cases hctx : s.ctx with
      | none =>
          obtain ⟨-, hclear | ⟨habsent, -⟩⟩ := h.deleted hctx
          · exact absurd (hdestroyer.symm.trans hclear) (by rintro ⟨⟩)
          · exact absurd (hdestroyer.symm.trans habsent) (by rintro ⟨⟩)
      | some c =>
          rw [State.use_eq hctx]
          exact ⟨h.fault, h.now, h.right, by rintro k ⟨⟩, by rintro k ⟨⟩, by rintro k ⟨⟩,
            fun _ => ⟨(h.owned c hctx).release hdestroyer, .inl rfl⟩⟩
  | clear =>
      cases hs
      refine ⟨h.fault, h.now, h.right, h.tracks, h.knows, fun c hctx => ?_, fun hctx => ?_⟩
      · exact absurd hdestroyer (h.owned c hctx).clear
      · exact ⟨(h.deleted hctx).1, .inr ⟨rfl, rfl⟩⟩

theorem tick (h : Inv period autoReload s) {ns : Nat} (hnow : s.now + ns < maxTime) :
    Inv period autoReload { s with now := s.now + ns } where
  fault := h.fault
  now := hnow
  right := h.right
  tracks := h.tracks
  knows c hctx := by
    have hknows := h.knows c hctx
    show s.watcher.Knows (s.now + ns) c
    cases hwatcher : s.watcher with
    | timedOut r =>
        rw [hwatcher] at hknows
        exact ⟨hknows.1, fun hr hactive => (hknows.2 hr hactive).trans (Nat.le_add_right _ _)⟩
    | _ =>
        rw [hwatcher] at hknows
        exact hknows
  owned c hctx := { h.owned c hctx with }
  deleted := h.deleted

theorem step {a : Action w} (h : Inv period autoReload s) (horderly : s.orderly a = true)
    (hs : s.step a = some s') : Inv period autoReload s' := by
  cases a with
  | call own op =>
      simp only [State.orderly, Bool.and_eq_true, Bool.or_eq_true, decide_eq_true_eq] at horderly
      simp only [State.step] at hs
      split at hs
      · rename_i r hwatcher
        cases hs
        exact h.call horderly (fun _ => ⟨r, hwatcher⟩)
      · split at hs
        · cases hs
        · rename_i hown
          cases hs
          exact h.call horderly (fun hself => absurd hself hown)
  | watcher => exact h.stepWatcher hs
  | wakeUp =>
      simp only [State.step] at hs
      split at hs
      · rename_i hwatcher
        cases hs
        exact h.wake (by rw [hwatcher]; rfl) (by rw [hwatcher]; rintro ⟨⟩) rfl (fun _ _ => trivial)
      · rename_i d r hwatcher
        cases hs
        exact h.wake (by rw [hwatcher]; rfl) (by rw [hwatcher]; rintro ⟨⟩) rfl (fun _ _ => trivial)
      · cases hs
  | expire =>
      simp only [State.step] at hs
      split at hs
      · rename_i d r hwatcher
        split at hs
        · rename_i hpast
          cases hs
          refine h.wake (by rw [hwatcher]; rfl) (by rw [hwatcher]; rintro ⟨⟩) rfl (fun c hctx => ?_)
          have hknows := h.knows c hctx
          rw [hwatcher] at hknows
          obtain ⟨-, -, hd, hr⟩ := hknows
          exact ⟨(congrArg BitVec.toNat hr).le, fun _ _ => hd ▸ hpast⟩
        · cases hs
      · cases hs
  | destroyer fails => exact h.stepDestroyer hs
  | tick ns =>
      simp only [State.step] at hs
      split at hs
      · rename_i hnow
        cases hs
        exact h.tick hnow
      · cases hs

/-- A timer that has been created. -/
theorem created {ticks : Tick w} {now : Nat} {fails : Bool} (hnow : now < maxTime)
    (hcreate : State.create ticks autoReload now fails = .ok s) :
    Inv (ticks.toNat * tickNs) autoReload s := by
  unfold State.create at hcreate
  split at hcreate
  · cases hcreate
  · rename_i hticks
    split at hcreate
    · cases hcreate
    · cases hcreate
      refine ⟨rfl, hnow, .nil, fun c hctx => ?_, fun c hctx => ?_, fun c hctx => ?_, by rintro ⟨⟩⟩
      · cases hctx
        exact ⟨⟨rfl, not_or.mp hticks, rfl, rfl, .inl ⟨rfl, rfl⟩⟩, rfl⟩
      · trivial
      · cases hctx
        exact ⟨by rintro ⟨⟩, fun _ => rfl, fun hd => absurd rfl hd, by rintro ⟨⟩, by rintro ⟨⟩⟩

end Inv

/-! ### What the timer promises -/

/-- What the users of a timer can rely on. -/
structure Sound (period : Nat) (autoReload : Bool) (s : State w) : Prop where
  /-- The callback is called only when the timer is due, and never when it is being destroyed. -/
  right : EachAfter (Right period autoReload) s.log
  /-- A watcher that waits without a deadline has nothing to wait for, -/
  asleep : s.watcher = .asleep →
    (ideal period autoReload s.log).due = .idle ∧ (ideal period autoReload s.log).closed = false
  /-- and with a deadline it waits until the timer is due. -/
  waiting : ∀ deadline r, s.watcher = .waiting deadline r →
    ∃ t, (ideal period autoReload s.log).due = .ready t ∧ deadline = min t maxTime
  /-- `osal_timer_is_active` tells whether it is due some time. -/
  active : s.handle = true → s.ctx ≠ none →
    (s.isActive = true ↔ (ideal period autoReload s.log).due ≠ .idle)
  /-- The context is not used after it has been deleted, nor deleted twice. -/
  alive : s.fault = false
  /-- When it is deleted nobody is left in the callback. -/
  deleted : s.ctx = none → s.watcher = .gone
  /-- A watcher that ends after its callback has destroyed the timer deletes it. -/
  gone : s.watcher = .gone → s.handle = false → s.ctx = none
  /-- Once it is being destroyed, the watcher needs nothing but its own steps to end; and then the
  context is gone if the callback destroys the timer, or after the steps of a destroyer whose
  `pthread_join` succeeds. -/
  leaves : (ideal period autoReload s.log).closed = true → ∃ n ≤ 3, ∃ s',
    (qnxTimer s).run s (.replicate n .watcher) = some s' ∧ s'.watcher = .gone ∧
      (s.handle = false ∨ s.destroyer ≠ .absent → ∃ m ≤ 3, ∃ s'',
        (qnxTimer s).run s' (.replicate m (.destroyer false)) = some s'' ∧
          s''.ctx = none ∧ s''.handle = false ∧ s''.destroyer = .absent)

theorem State.loop_of_shutdown (s : State w) (hc : c.shutdown = true) :
    (s.loop c).watcher = .exiting c.releaseFromWatcher := by
  simp [State.loop, hc]

theorem State.exits {release : Bool} (hctx : s.ctx = some c)
    (hwatcher : s.watcher = .exiting release) :
    ∃ s', s.stepWatcher = some s' ∧ s'.watcher = .gone := by
  unfold State.stepWatcher
  rw [hwatcher]
  cases release with
  | false => exact ⟨_, rfl, rfl⟩
  | true =>
      refine ⟨_, rfl, ?_⟩
      rw [State.use_eq hctx]

/-- A watcher that finds the timer destroyed ends. -/
theorem State.leaves (s : State w) (hctx : ∀ c, s.ctx = some c → c.shutdown = true)
    (hnone : s.ctx = none → s.watcher = .gone)
    (hwaits : s.watcher ≠ .asleep ∧ ∀ d r, s.watcher ≠ .waiting d r) :
    ∃ n ≤ 3, ∃ s', (qnxTimer s).run s (.replicate n .watcher) = some s' ∧ s'.watcher = .gone := by
  have hstep : ∀ {u v : State w} {n : Nat}, u.stepWatcher = some v →
      (∃ s', (qnxTimer s).run v (.replicate n .watcher) = some s' ∧ s'.watcher = .gone) →
      ∃ s', (qnxTimer s).run u (.replicate (n + 1) .watcher) = some s' ∧ s'.watcher = .gone := by
    rintro u v n hs ⟨s', hrun, hgone⟩
    exact ⟨s', (congrArg (Option.bind · _) hs).trans hrun, hgone⟩
  -- From the loop it is two steps.
  have hlast : ∀ {s₁ : State w} {c : Ctx w} {release : Bool}, s₁.ctx = some c →
      s₁.watcher = .exiting release →
      ∃ s', (qnxTimer s).run s₁ (.replicate 1 .watcher) = some s' ∧ s'.watcher = .gone := by
    intro s₁ c release hc hexit
    obtain ⟨s', hs, hgone⟩ := State.exits hc hexit
    exact hstep hs ⟨s', rfl, hgone⟩
  have hloop : ∀ (s₁ : State w) (c : Ctx w), c.shutdown = true →
      ∃ s', (qnxTimer s).run (s₁.loop c) (.replicate 1 .watcher) = some s' ∧ s'.watcher = .gone :=
    fun s₁ c hc => hlast rfl (s₁.loop_of_shutdown hc)
  cases hc : s.ctx with
  | none => exact ⟨0, by omega, s, rfl, hnone hc⟩
  | some c =>
      have hshutdown := hctx c hc
      have hback : ∀ (s₁ : State w) (r : BitVec 64), s₁.watcher = .returned r → s₁.ctx = some c →
          ∃ s', (qnxTimer s).run s₁ (.replicate 2 .watcher) = some s' ∧ s'.watcher = .gone := by
        intro s₁ r hreturned hc₁
        refine hstep (v := (s₁.note (.returned s₁.now)).loop
          (if c.active ∧ c.autoReload ∧ r = c.armRevision then
            { c with deadline := msToAbsMono s₁.now c.period } else c)) ?_ (hloop _ _ ?_)
        · unfold State.stepWatcher
          rw [hreturned]
          exact congrArg some (State.use_eq hc₁ _)
        · split <;> exact hshutdown
      cases hwatcher : s.watcher with
      | entering =>
          refine ⟨2, by omega, hstep (v := s.loop c) ?_ (hloop s c hshutdown)⟩
          unfold State.stepWatcher
          rw [hwatcher]
          exact congrArg some (State.use_eq hc _)
      | timedOut r =>
          refine ⟨2, by omega, hstep (v := s.loop c) ?_ (hloop s c hshutdown)⟩
          unfold State.stepWatcher
          rw [hwatcher]
          refine congrArg some ((State.use_eq hc _).trans (if_pos (.inl hshutdown)))
      | callback r =>
          refine ⟨3, by omega, hstep (v := { s with watcher := .returned r }) ?_
            (hback _ r rfl hc)⟩
          unfold State.stepWatcher
          rw [hwatcher]
      | returned r => exact ⟨2, by omega, hback s r hwatcher hc⟩
      | exiting release => exact ⟨1, by omega, hlast hc hwatcher⟩
      | gone => exact ⟨0, by omega, s, rfl, hwatcher⟩
      | asleep => exact absurd hwatcher hwaits.1
      | waiting d r => exact absurd hwatcher (hwaits.2 d r)

theorem State.stepWatcher_frame (hs : s.stepWatcher = some s') :
    s'.handle = s.handle ∧ s'.destroyer = s.destroyer := by
  cases hctx : s.ctx <;> simp only [State.stepWatcher, State.use, hctx] at hs <;>
    (repeat' split at hs) <;> cases hs <;> exact ⟨rfl, rfl⟩

namespace Inv

variable {period : Nat} {autoReload : Bool}

theorem run_watcher {s₀ : State w} {n : Nat} (h : Inv period autoReload s)
    (hrun : (qnxTimer s₀).run s (.replicate n .watcher) = some s') :
    Inv period autoReload s' ∧ s'.handle = s.handle ∧ s'.destroyer = s.destroyer := by
  by_contra hout
  obtain ⟨pre, a, rest, t, t', has, -, ⟨ht, hhandle, hdestroyer⟩, hstep, hout, -⟩ :=
    Machine.run_leaves (P := fun t => Inv period autoReload t ∧ t.handle = s.handle ∧
      t.destroyer = s.destroyer) hrun ⟨h, rfl, rfl⟩ hout
  obtain rfl : a = .watcher :=
    List.eq_of_mem_replicate (has.symm ▸ List.mem_append_right pre List.mem_cons_self)
  obtain ⟨hhandle', hdestroyer'⟩ := State.stepWatcher_frame hstep
  exact hout ⟨ht.stepWatcher hstep, hhandle'.trans hhandle, hdestroyer'.trans hdestroyer⟩

theorem ctx_of_gone (h : Inv period autoReload s) (hgone : s.watcher = .gone)
    (hhandle : s.handle = false) : s.ctx = none := by
  cases hctx : s.ctx with
  | none => rfl
  | some c =>
      have hknows := h.knows c hctx
      rw [hgone] at hknows
      have hheld := (h.owned c hctx).handle hknows.2
      rw [hhandle] at hheld
      cases hheld

/-- A destroyer whose join succeeds comes to its end, and nothing is left. -/
theorem released {s₀ : State w} (h : Inv period autoReload s) (hgone : s.watcher = .gone)
    (hends : s.handle = false ∨ s.destroyer ≠ .absent) :
    ∃ m ≤ 3, ∃ s', (qnxTimer s₀).run s (.replicate m (.destroyer false)) = some s' ∧
      s'.ctx = none ∧ s'.handle = false ∧ s'.destroyer = .absent := by
  have hstep : ∀ {u v : State w} {n : Nat}, u.stepDestroyer false = some v →
      (∃ s', (qnxTimer s₀).run v (.replicate n (.destroyer false)) = some s' ∧
        s'.ctx = none ∧ s'.handle = false ∧ s'.destroyer = .absent) →
      ∃ s', (qnxTimer s₀).run u (.replicate (n + 1) (.destroyer false)) = some s' ∧
        s'.ctx = none ∧ s'.handle = false ∧ s'.destroyer = .absent := by
    rintro u v n hs ⟨s', hrun, hleft⟩
    exact ⟨s', (congrArg (Option.bind · _) hs).trans hrun, hleft⟩
  have hclear : ∀ u : State w, u.destroyer = .clear → u.ctx = none →
      ∃ s', (qnxTimer s₀).run u (.replicate 1 (.destroyer false)) = some s' ∧
        s'.ctx = none ∧ s'.handle = false ∧ s'.destroyer = .absent := by
    intro u hu hctx
    refine hstep (v := { u with handle := false, destroyer := .absent }) ?_
      ⟨_, rfl, hctx, rfl, rfl⟩
    rw [State.stepDestroyer, hu]
  have hrelease : ∀ u : State w, u.destroyer = .release → u.ctx ≠ none →
      ∃ s', (qnxTimer s₀).run u (.replicate 2 (.destroyer false)) = some s' ∧
        s'.ctx = none ∧ s'.handle = false ∧ s'.destroyer = .absent := by
    intro u hu hctx
    obtain ⟨c, hc⟩ := Option.ne_none_iff_exists'.mp hctx
    refine hstep (v := { u with ctx := none, destroyer := .clear }) ?_ (hclear _ rfl rfl)
    rw [State.stepDestroyer, hu]
    exact congrArg some (State.use_eq hc _)
  -- Until the destroyer has deleted it, the context is there.
  have hctx : s.destroyer = .join ∨ s.destroyer = .release → s.ctx ≠ none := by
    intro hd hnone
    obtain ⟨-, hcleared | ⟨habsent, -⟩⟩ := h.deleted hnone
    · rw [hcleared] at hd
      rcases hd with hd | hd <;> cases hd
    · rw [habsent] at hd
      rcases hd with hd | hd <;> cases hd
  cases hd : s.destroyer with
  | absent =>
      have hhandle := hends.resolve_right (absurd hd)
      exact ⟨0, Nat.zero_le _, s, rfl, h.ctx_of_gone hgone hhandle, hhandle, hd⟩
  | join =>
      refine ⟨3, le_rfl, hstep (v := { s with destroyer := .release }) ?_
        (hrelease _ rfl (hctx (.inl hd)))⟩
      rw [State.stepDestroyer, hd]
      exact (if_neg Bool.false_ne_true).trans (if_pos hgone)
  | release => exact ⟨2, by omega, hrelease s hd (hctx (.inr hd))⟩
  | clear =>
      refine ⟨1, by omega, hclear s hd ?_⟩
      cases hc : s.ctx with
      | none => rfl
      | some c => exact absurd hd (h.owned c hc).clear

end Inv

theorem Inv.sound {period : Nat} {autoReload : Bool} (h : Inv period autoReload s) :
    Sound period autoReload s := by
  have hfound : s.watcher ≠ .gone → ∃ c, s.ctx = some c := by
    intro hgone
    cases hctx : s.ctx with
    | some c => exact ⟨c, rfl⟩
    | none => exact absurd (h.deleted hctx).1 hgone
  have hasleep : s.watcher = .asleep →
      (ideal period autoReload s.log).due = .idle ∧
        (ideal period autoReload s.log).closed = false := by
    intro hwatcher
    obtain ⟨c, hctx⟩ := hfound (by rw [hwatcher]; rintro ⟨⟩)
    have hknows := h.knows c hctx
    rw [hwatcher] at hknows
    have htracks := (h.tracks c hctx).1
    refine ⟨?_, htracks.closed.trans hknows.2⟩
    rcases htracks.due with ⟨-, hidle⟩ | ⟨hactive, -⟩
    · exact hidle
    · exact absurd (hknows.1.symm.trans hactive) (by rintro ⟨⟩)
  have hwaiting : ∀ deadline r, s.watcher = .waiting deadline r →
      (ideal period autoReload s.log).closed = false ∧
        ∃ t, (ideal period autoReload s.log).due = .ready t ∧ deadline = min t maxTime := by
    intro deadline r hwatcher
    obtain ⟨c, hctx⟩ := hfound (by rw [hwatcher]; rintro ⟨⟩)
    have hknows := h.knows c hctx
    rw [hwatcher] at hknows
    obtain ⟨hactive, hopen, rfl, -⟩ := hknows
    have htracks := (h.tracks c hctx).1
    exact ⟨htracks.closed.trans hopen, htracks.due_at hactive (by rw [hwatcher]; rfl)⟩
  refine ⟨h.right, hasleep, fun d r hw => (hwaiting d r hw).2, fun hhandle hsome => ?_, h.fault,
    fun hctx => (h.deleted hctx).1, h.ctx_of_gone, fun hclosed => ?_⟩
  · obtain ⟨c, hctx⟩ := Option.ne_none_iff_exists'.mp hsome
    have heq : s.isActive = c.active := by
      rw [State.isActive, hhandle, hctx]
      rfl
    rw [heq]
    rcases (h.tracks c hctx).1.due with
      ⟨hinactive, hdue⟩ | ⟨hactive, ⟨t, hdue, -⟩ | ⟨hdue, -⟩⟩
    · simp [hinactive, hdue]
    · simp [hactive, hdue]
    · simp [hactive, hdue]
  obtain ⟨n, hn, s', hrun, hgone⟩ := s.leaves (fun c hctx => (h.tracks c hctx).1.closed ▸ hclosed)
    (fun hctx => (h.deleted hctx).1)
    ⟨fun hw => absurd (hclosed.symm.trans (hasleep hw).2) (by rintro ⟨⟩),
      fun d r hw => absurd (hclosed.symm.trans (hwaiting d r hw).1) (by rintro ⟨⟩)⟩
  obtain ⟨h', hhandle, hdestroyer⟩ := h.run_watcher hrun
  refine ⟨n, hn, s', hrun, hgone, fun hends => h'.released hgone ?_⟩
  rwa [hhandle, hdestroyer]

/-- Whatever calls come, and whenever the wait of the watcher ends. -/
theorem qnxTimer_sound (ticks : Tick w) (autoReload fails : Bool) (now : Nat) (s₀ s : State w)
    (hnow : now < maxTime) (hcreate : State.create ticks autoReload now fails = .ok s₀)
    (h : (qnxTimer s₀).ReachableBy (fun s a => s.orderly a = true) s) :
    Sound (ticks.toNat * tickNs) autoReload s :=
  (h.invariant (I := Inv (ticks.toNat * tickNs) autoReload) (.created hnow hcreate)
    (fun _ _ _ _ hi ho hs => hi.step ho hs)).sound

/-- The run in which the timer of the POSIX backend fires early: the wait of a one-shot is over, and
before the watcher has the mutex the timer is stopped, gets a longer period and is started again.
Its callback destroys it. -/
def rearmed : List (Action 32) :=
  [.call false .start, .watcher, .tick 1000000, .expire, .call false .stop,
    .call false (.setPeriod 1000), .call false .start, .watcher, .tick 1000000000, .expire,
    .watcher, .call true .destroy, .watcher, .watcher, .watcher]

theorem qnxTimer_sound_rearmed : ∃ s₀ s : State 32,
    State.create 1 false 0 false = .ok s₀ ∧ (qnxTimer s₀).Reachable s ∧
      s.log = [.start 0, .stop, .setPeriod 1000000 1000000000, .start 1000000, .called 1001000000,
        .destroy, .returned 1001000000] ∧ s.ctx = none ∧ Sound (1 * tickNs) false s := by
  let s₀ : State 32 := ⟨some ⟨1, 0, 0, false, false, false, false⟩, true, .entering, .absent, 0, 0,
    [], false⟩
  have hok : (qnxTimer s₀).RunOk (fun s a => s.orderly a = true) (qnxTimer s₀).init rearmed := by
    decide +kernel
  have hview : ((qnxTimer s₀).run (qnxTimer s₀).init rearmed).map (fun s => (s.log, s.ctx)) =
      some ([.start 0, .stop, .setPeriod 1000000 1000000000, .start 1000000, .called 1001000000,
        .destroy, .returned 1001000000], none) := by
    decide +kernel
  obtain ⟨s, hrun, hs⟩ := Option.map_eq_some_iff.mp hview
  obtain ⟨hlog, hctx⟩ := Prod.mk.inj hs
  have hreach := Machine.ReachableBy.init.of_run hok hrun
  exact ⟨s₀, s, rfl, hreach.reachable, hlog, hctx,
    qnxTimer_sound 1 false false 0 s₀ s (by decide) rfl hreach⟩

end MicrOsal.QnxTimer
