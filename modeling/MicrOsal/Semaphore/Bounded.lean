import MicrOsal.Semaphore.Permits

/-!
# MicrOsal.Semaphore.Bounded

What the users of a bounded semaphore can rely on: for the hosted backends
(`bounded_semaphore_overflow`) and for those that reserve (`reservation_semaphore_gives`).
-/

namespace MicrOsal.Semaphore

variable {b : Backend} {lim : Limits} {initial : Nat} {s s' : State} {n : Nat} {th : Thread}
variable {a : Action}

/-- The bound is kept, and no permit is lost or made up. -/
structure PermitsOk (lim : Limits) (s : State) : Prop where
  bound : s.value ≤ lim.maximum
  conserved : s.value + s.posting + s.completing = s.count
  full : s.count ≤ lim.maximum
  /-- The counter does not underflow. -/
  positive : ∀ (n : Nat) (th : Thread), s.threads[n]? = some th →
    th.reserves = true ∨ th.completes = true → 0 < s.count

theorem Inv.permitsOk (hi : Inv lim s) : PermitsOk lim s := by
  have hsum := hi.conserved
  have hbound := hi.bound
  refine ⟨by omega, hsum, hbound, ?_⟩
  intro n th hth h
  have hle := hi.share_le hth
  have hone : 1 ≤ th.share := by
    rcases h with h | h <;> simp [Thread.share, h]
  omega

/-! ### Overflow -/

/-- A give reads the counter at the maximum, while a take has its permit and has not moved
the counter yet. -/
def State.readsEarly (s : State) (lim : Limits) : Action → Bool
  | .advance n _ =>
      (s.threads[n]?).any Thread.reads ∧ lim.maximum ≤ s.count ∧ 0 < s.completing
  | _ => false

/-- The hosted post fails for other reasons than the native maximum. -/
theorem rollback_unknown (hinit : initial ≤ lim.maximum) (hnative : lim.maximum ≤ lim.native)
    (h : (semaphoreMachine posix lim initial).Reachable s) :
    ∀ (n : Nat) (code : ErrorCode), s.threads[n]? = some (.rollback code) → code = .unknown := by
  refine Machine.Reachable.invariant (I := fun s => ∀ (n : Nat) (code : ErrorCode),
    s.threads[n]? = some (.rollback code) → code = .unknown) ?_ ?_ h
  · intro n code hth
    cases hth
  · intro s a s' hr ih hs m code hm
    cases a with
    | spawn =>
        cases hs
        rcases getElem?_concat_cases hm with hm | ⟨-, hm⟩
        · exact ih m code hm
        · cases hm
    | give | take =>
        obtain ⟨last, -, rfl⟩ := State.of_call hs
        rcases getElem?_set_cases hm with ⟨-, hm⟩ | ⟨-, hm⟩
        · cases hm
        · exact ih m code hm
    | advance k env =>
        obtain ⟨th, hth, hs⟩ := Option.bind_eq_some_iff.mp hs
        obtain ⟨th', hmoves, hths⟩ := State.advance_moved hth hs
        rw [hths] at hm
        rcases getElem?_set_cases hm with ⟨-, hm⟩ | ⟨-, hm⟩
        · have hi := Inv.of_reachable hinit hr
          have hshare := hi.share_le hth
          have hbound := hi.bound
          subst hm
          generalize s'.value = value' at hmoves
          generalize s'.count = count' at hmoves
          cases hmoves with
          | @failed overflow _ hover hcode =>
              have hone : Thread.post.share = 1 := rfl
              cases overflow with
              | true =>
                  have := hover rfl
                  omega
              | false => exact (Option.some.inj hcode).symm
        · exact ih m code hm

/-- The hosted semaphores: permits are conserved within the bound, and a give returns
overflow only if all of them were available at some moment of the call. -/
theorem bounded_semaphore_overflow (lim : Limits) (initial : Nat) (hinit : initial ≤ lim.maximum)
    (hnative : lim.maximum ≤ lim.native) (s : State)
    (h : (semaphoreMachine posix lim initial).ReachableBy
      (fun s a => s.readsEarly lim a = false) s) :
    PermitsOk lim s ∧ ∀ (n : Nat) (as : List Action) (s' : State), s.inGive n →
      (semaphoreMachine posix lim initial).RunOk (fun s a => s.readsEarly lim a = false) s as →
      (semaphoreMachine posix lim initial).run s as = some s' →
      (∀ a ∈ as, a.caller ≠ some n) → s'.returned n = some .overflow →
      ∃ pre t, pre <+: as ∧ (semaphoreMachine posix lim initial).run s pre = some t ∧
        t.inGive n ∧ lim.maximum ≤ t.available := by
  refine ⟨(Inv.of_reachable hinit h.reachable).permitsOk, ?_⟩
  intro n as s' hin hok hrun has hret
  obtain ⟨pre, a, rest, t, rfl, hpre, ht, hends⟩ := exists_giveEnds hin hrun has hret
  obtain ⟨hokpre, hokrest⟩ := hok.split hpre
  have hreach := h.of_run hokpre hpre
  refine ⟨pre, t, List.prefix_append .., hpre, ht, ?_⟩
  cases hends with
  | @full th env hth hreads hfull =>
      have hsum := (Inv.of_reachable hinit hreach.reachable).conserved
      have hnone : t.completing = 0 := by
        by_contra hne
        have hearly : t.readsEarly lim (.advance n env) = true := by
          have hpos : 0 < t.completing := Nat.pos_of_ne_zero hne
          simp [State.readsEarly, hth, hreads, hfull, hpos]
        rw [hokrest.1] at hearly
        cases hearly
      rw [State.available]
      omega
  | undone env hth => cases rollback_unknown hinit hnative hreach.reachable n _ hth

/-- Nothing fails. -/
def Env.good : Env := ⟨false, none, none⟩

/-- A give at the maximum: there the permit is available. -/
theorem bounded_semaphore_overflow_full :
    ∃ s t : State, (semaphoreMachine posix ⟨1, 1⟩ 1).run (semaphoreMachine posix ⟨1, 1⟩ 1).init
        [.spawn, .give 0] = some s ∧ PermitsOk ⟨1, 1⟩ s ∧ t.inGive 0 ∧ 1 ≤ t.available := by
  have hrun : (semaphoreMachine posix ⟨1, 1⟩ 1).run (semaphoreMachine posix ⟨1, 1⟩ 1).init
      [.spawn, .give 0] = some ⟨1, 1, [.load]⟩ := by
    decide +kernel
  have hguard : (semaphoreMachine posix ⟨1, 1⟩ 1).RunOk
      (fun s a => s.readsEarly ⟨1, 1⟩ a = false) (semaphoreMachine posix ⟨1, 1⟩ 1).init
      [.spawn, .give 0] := by
    decide +kernel
  have hgive : (semaphoreMachine posix ⟨1, 1⟩ 1).run ⟨1, 1, [.load]⟩ [.advance 0 .good] =
      some ⟨1, 1, [.idle (some .overflow)]⟩ := by
    decide +kernel
  obtain ⟨hok, hcalls⟩ := bounded_semaphore_overflow ⟨1, 1⟩ 1 (by decide) (by decide)
    ⟨1, 1, [.load]⟩ (.of_run .init hguard hrun)
  obtain ⟨pre, t, -, -, hin, hfull⟩ := hcalls 0 [.advance 0 .good] _ ⟨.load, rfl, rfl⟩
    (by decide +kernel) hgive (by decide) rfl
  exact ⟨_, t, hrun, hok, hin, hfull⟩

/-- A take has the only permit, and has not moved the counter: a give is refused although no
permit is available while it runs. -/
theorem semaphore_overflow_false :
    ¬ ∀ (lim : Limits) (initial : Nat) (s : State), initial ≤ lim.maximum →
      lim.maximum ≤ lim.native → (semaphoreMachine posix lim initial).Reachable s →
      ∀ (n : Nat) (as : List Action) (s' : State), s.inGive n →
        (semaphoreMachine posix lim initial).run s as = some s' →
        (∀ a ∈ as, a.caller ≠ some n) → s'.returned n = some .overflow →
        ∃ pre t, pre <+: as ∧ (semaphoreMachine posix lim initial).run s pre = some t ∧
          t.inGive n ∧ lim.maximum ≤ t.available := by
  intro hall
  have hrun : (semaphoreMachine posix ⟨1, 1⟩ 1).run (semaphoreMachine posix ⟨1, 1⟩ 1).init
      [.spawn, .spawn, .take 0 .forever, .advance 0 .good, .give 1] =
      some ⟨0, 1, [.decrement, .load]⟩ := by
    decide +kernel
  have hgive : (semaphoreMachine posix ⟨1, 1⟩ 1).run ⟨0, 1, [.decrement, .load]⟩
      [.advance 1 .good] = some ⟨0, 1, [.decrement, .idle (some .overflow)]⟩ := by
    decide +kernel
  obtain ⟨pre, t, hpre, ht, ⟨th, hth, hgives⟩, hfull⟩ := hall ⟨1, 1⟩ 1 ⟨0, 1, [.decrement, .load]⟩
    (by decide) (by decide) (.of_run hrun) 1 [.advance 1 .good] _ ⟨.load, rfl, rfl⟩ hgive
    (by decide) rfl
  rcases List.prefix_cons_iff.mp hpre with rfl | ⟨rest, rfl, hrest⟩
  · cases ht
    exact absurd hfull (by decide)
  · rw [List.prefix_nil.mp hrest, hgive] at ht
    cases ht
    cases hth
    cases hgives

/-! ### Reservations -/

/-- The semaphores that reserve, with any limit on attempts: permits are conserved within the
bound, and a give fails only if the counter was at the maximum at some moment of the call,
or if the native post failed. -/
theorem reservation_semaphore_gives (b : Backend) (lim : Limits) (initial : Nat)
    (hinit : initial ≤ lim.maximum) (s : State)
    (h : (semaphoreMachine b lim initial).ReachableBy (fun s a => s.givesUp b a = false) s) :
    PermitsOk lim s ∧ ∀ (n : Nat) (as : List Action) (s' : State) (e : ErrorCode), s.inGive n →
      (semaphoreMachine b lim initial).RunOk (fun s a => s.givesUp b a = false) s as →
      (semaphoreMachine b lim initial).run s as = some s' →
      (∀ a ∈ as, a.caller ≠ some n) → s'.returned n = some e → e ≠ .ok →
      ∃ pre t, pre <+: as ∧ (semaphoreMachine b lim initial).run s pre = some t ∧ t.inGive n ∧
        (t.count = lim.maximum ∨ t.threads[n]? = some (.rollback e)) := by
  refine ⟨(Inv.of_reachable hinit h.reachable).permitsOk, ?_⟩
  intro n as s' e hin hok hrun has hret hfail
  obtain ⟨pre, a, rest, t, rfl, hpre, ht, hends⟩ := exists_giveEnds hin hrun has hret
  obtain ⟨hokpre, hokrest⟩ := hok.split hpre
  have hbound := (Inv.of_reachable hinit (h.of_run hokpre hpre).reachable).bound
  refine ⟨pre, t, List.prefix_append .., hpre, ht, ?_⟩
  cases hends with
  | full env hth hreads hfull => exact .inl (Nat.le_antisymm hbound hfull)
  | givesUp hup =>
      rw [hokrest.1] at hup
      cases hup
  | undone env hth => exact .inr hth
  | posted => exact absurd rfl hfail

/-- A give whose native post fails. -/
def failedPost : List Action :=
  [.advance 0 .good, .advance 0 .good, .advance 0 ⟨false, some false, none⟩, .advance 0 .good]

/-- It returns the error, and its reservation is gone. -/
theorem reservation_semaphore_gives_undone :
    ∃ t : State, (semaphoreMachine nuttx ⟨2, 2⟩ 1).run ⟨1, 1, [.load]⟩ failedPost =
        some ⟨1, 1, [.idle (some .unknown)]⟩ ∧ PermitsOk ⟨2, 2⟩ ⟨1, 1, [.load]⟩ ∧ t.inGive 0 ∧
      (t.count = 2 ∨ t.threads[0]? = some (.rollback .unknown)) := by
  have hrun : (semaphoreMachine nuttx ⟨2, 2⟩ 1).run (semaphoreMachine nuttx ⟨2, 2⟩ 1).init
      [.spawn, .give 0] = some ⟨1, 1, [.load]⟩ := by
    decide +kernel
  have hguard : (semaphoreMachine nuttx ⟨2, 2⟩ 1).RunOk (fun s a => s.givesUp nuttx a = false)
      (semaphoreMachine nuttx ⟨2, 2⟩ 1).init [.spawn, .give 0] := by
    decide +kernel
  have hgive : (semaphoreMachine nuttx ⟨2, 2⟩ 1).run ⟨1, 1, [.load]⟩ failedPost =
      some ⟨1, 1, [.idle (some .unknown)]⟩ := by
    decide +kernel
  obtain ⟨hok, hcalls⟩ := reservation_semaphore_gives nuttx ⟨2, 2⟩ 1 (by decide) _
    (.of_run .init hguard hrun)
  obtain ⟨pre, t, -, -, hin, hend⟩ := hcalls 0 failedPost _ .unknown ⟨.load, rfl, rfl⟩
    (by decide +kernel) hgive (by decide) rfl nofun
  exact ⟨t, hgive, hok, hin, hend⟩

/-- Every compare-exchange fails for no reason. -/
def spuriousFailures : List Action := List.replicate reserveAttempts (.advance 0 ⟨true, none, none⟩)

/-- A give that fails has seen the counter at its maximum, or puts back what it has reserved. -/
def RefusedAtMaximum (b : Backend) : Prop :=
  ∀ (lim : Limits) (initial : Nat) (s : State), initial ≤ lim.maximum →
    (semaphoreMachine b lim initial).Reachable s →
    ∀ (n : Nat) (as : List Action) (s' : State) (e : ErrorCode), s.inGive n →
      (semaphoreMachine b lim initial).run s as = some s' →
      (∀ a ∈ as, a.caller ≠ some n) → s'.returned n = some e → e ≠ .ok →
      ∃ pre t, pre <+: as ∧ (semaphoreMachine b lim initial).run s pre = some t ∧
        t.inGive n ∧ (t.count = lim.maximum ∨ t.threads[n]? = some (.rollback e))

/-- A give that is refused while the counter stays at zero. -/
theorem not_refusedAtMaximum
    (hrun : (semaphoreMachine b ⟨1, 1⟩ 0).run (semaphoreMachine b ⟨1, 1⟩ 0).init
      [.spawn, .give 0, .advance 0 .good] = some ⟨0, 0, [.cas 0 0]⟩)
    (hgive : (semaphoreMachine b ⟨1, 1⟩ 0).run ⟨0, 0, [.cas 0 0]⟩ spuriousFailures =
      some ⟨0, 0, [.idle (some .wouldBlock)]⟩)
    (hway : ∀ k < reserveAttempts + 1, ((semaphoreMachine b ⟨1, 1⟩ 0).run ⟨0, 0, [.cas 0 0]⟩
      (spuriousFailures.take k)).all
        (fun t => t.count = 0 ∧ t.threads[0]? ≠ some (.rollback .wouldBlock)) = true) :
    ¬ RefusedAtMaximum b := by
  intro hall
  obtain ⟨pre, t, hpre, ht, -, hend⟩ := hall ⟨1, 1⟩ 0 _ (Nat.zero_le _) (.of_run hrun) 0
    spuriousFailures _ .wouldBlock ⟨.cas 0 0, rfl, rfl⟩ hgive (by decide) rfl nofun
  have hlen : pre.length < reserveAttempts + 1 := by
    have := hpre.length_le
    simp only [spuriousFailures, List.length_replicate] at this
    omega
  have hat := hway pre.length hlen
  rw [← List.prefix_iff_eq_take.mp hpre, ht] at hat
  obtain ⟨hzero, hno⟩ := of_decide_eq_true hat
  rcases hend with hend | hend
  · rw [hzero] at hend
    cases hend
  · exact hno hend

/-- After the last attempt the give is refused, although there is room all the time. -/
theorem reservation_gives_up : ¬ RefusedAtMaximum nuttx ∧ ¬ RefusedAtMaximum embos ∧
    ¬ RefusedAtMaximum micrium ∧ ¬ RefusedAtMaximum cmsisRtos := by
  refine ⟨?_, ?_, ?_, ?_⟩
  all_goals
    exact not_refusedAtMaximum (by decide +kernel) (by decide +kernel) (by decide +kernel)

end MicrOsal.Semaphore
