import MicrOsal.Semaphore.Model

/-!
# MicrOsal.Semaphore.Permits

Where the permits of a bounded semaphore are: in the native count, with gives that have
reserved and not posted, and with takes that have their permit and have not moved the
counter. The counter is the sum of the three (`Inv`), so the native count keeps to the
maximum.

A give is refused when it reads the counter at the maximum. While a take has not moved the
counter yet, that is one permit more than there are (`semaphore_overflow_false`). A give of
the backends with a limit on attempts is also refused when the last of them fails
(`reservation_gives_up`).
-/

namespace MicrOsal.Semaphore

variable {b : Backend} {lim : Limits} {initial : Nat} {s s' : State} {n : Nat} {th th' : Thread}
variable {a : Action}

/-! ### Definitions -/

/-- A give that holds a reservation. -/
def Thread.reserves : Thread → Bool
  | .post => true
  | .rollback _ => true
  | _ => false

/-- A take that has its permit. -/
def Thread.completes : Thread → Bool
  | .decrement => true
  | _ => false

/-- In `osal_semaphore_give`. -/
def Thread.gives : Thread → Bool
  | .load => true
  | .cas _ _ => true
  | .post => true
  | .rollback _ => true
  | _ => false

namespace State

/-- Gives between their reservation and their post. -/
def posting (s : State) : Nat := s.threads.countP Thread.reserves

/-- Takes between their wait and their decrement. -/
def completing (s : State) : Nat := s.threads.countP Thread.completes

/-- The permits that a take can still have. -/
def available (s : State) : Nat := s.value + s.posting

/-- Thread `n` is in `osal_semaphore_give`. -/
def inGive (s : State) (n : Nat) : Prop := ∃ th, s.threads[n]? = some th ∧ th.gives = true

/-- What thread `n`'s last call returned. -/
def returned (s : State) (n : Nat) : Option ErrorCode :=
  match s.threads[n]? with
  | some (.idle last) => last
  | _ => none

end State

/-- The thread whose call begins. -/
def Action.caller : Action → Option Nat
  | .give n => some n
  | .take n _ => some n
  | _ => none

/-- Where the permits are. -/
structure Inv (lim : Limits) (s : State) : Prop where
  conserved : s.value + s.posting + s.completing = s.count
  bound : s.count ≤ lim.maximum
  below : ∀ value attempt, .cas value attempt ∈ s.threads → value < lim.maximum

/-! ### Steps -/

/-- A give that is about to read the counter. -/
def Thread.reads : Thread → Bool
  | .load => true
  | .cas _ _ => true
  | _ => false

/-- The steps of a thread, with the native count and the counter before and after. -/
inductive Moves (b : Backend) (lim : Limits) (env : Env) (value count : Nat) :
    Thread → Nat → Nat → Thread → Prop
  /-- The counter is read, and is at the maximum. -/
  | full {th : Thread} : th.reads = true → lim.maximum ≤ count →
      Moves b lim env value count th value count (.idle (some .overflow))
  | read {th : Thread} (attempt : Nat) : th.reads = true → count < lim.maximum →
      Moves b lim env value count th value count (.cas count attempt)
  | reserved (attempt : Nat) :
      Moves b lim env value count (.cas count attempt) value (count + 1) .post
  | givesUp {expected attempt : Nat} : ¬ (count = expected ∧ ¬ env.spurious) →
      b.attempts = some (attempt + 1) →
      Moves b lim env value count (.cas expected attempt) value count (.idle (some .wouldBlock))
  | posted : Moves b lim env value count .post (value + 1) count (.idle (some .ok))
  | failed {overflow : Bool} {code : ErrorCode} : (overflow = true → lim.native ≤ value) →
      b.postError overflow = some code →
      Moves b lim env value count .post value count (.rollback code)
  | undone (code : ErrorCode) :
      Moves b lim env value count (.rollback code) value (unsignedDecr count) (.idle (some code))
  | taken (timeout : Timeout) : 0 < value →
      Moves b lim env value count (.wait timeout) (value - 1) count .decrement
  | refused (timeout : Timeout) (code : ErrorCode) :
      Moves b lim env value count (.wait timeout) value count (.idle (some code))
  | again (timeout : Timeout) :
      Moves b lim env value count (.wait timeout) value count (.wait timeout)
  | done : Moves b lim env value count .decrement value (unsignedDecr count) (.idle (some .ok))

/-- Thread `n` has moved. -/
def State.Moved (s s' : State) (b : Backend) (lim : Limits) (n : Nat) (env : Env) (th : Thread) :
    Prop :=
  ∃ th', Moves b lim env s.value s.count th s'.value s'.count th' ∧
    s'.threads = s.threads.set n th'

variable {env : Env}

theorem State.check_moved (h : th.reads = true) (attempt : Nat) :
    s.Moved (s.check lim n attempt) b lim n env th := by
  rw [State.check]
  split
  case isTrue hfull => exact ⟨_, .full h hfull, rfl⟩
  case isFalse hlt => exact ⟨_, .read attempt h (Nat.lt_of_not_le hlt), rfl⟩

theorem State.post_moved (hs : s.post b lim n env.post = some s') :
    s.Moved s' b lim n env .post := by
  cases hp : env.post with
  | none =>
      rw [hp, State.post] at hs
      split at hs
      case isTrue =>
        cases hs
        exact ⟨_, .posted, rfl⟩
      case isFalse => cases hs
  | some overflow =>
      rw [hp, State.post] at hs
      split at hs
      case isTrue => cases hs
      case isFalse hnot =>
        obtain ⟨code, hcode, rfl⟩ := Option.map_eq_some_iff.mp hs
        refine ⟨_, .failed (fun ho => ?_) hcode, rfl⟩
        exact Nat.le_of_not_lt (fun hlt => hnot ⟨ho, hlt⟩)

theorem State.wait_moved {timeout : Timeout} (hth : s.threads[n]? = some (.wait timeout))
    (hs : s.wait b n timeout env.wait = some s') : s.Moved s' b lim n env (.wait timeout) := by
  cases hw : env.wait with
  | none =>
      rw [hw, State.wait] at hs
      split at hs
      case isTrue hpos =>
        cases hs
        exact ⟨_, .taken timeout hpos, rfl⟩
      case isFalse => cases hs
  | some failure =>
      rw [hw, State.wait] at hs
      split at hs
      · cases hs
        obtain ⟨hlt, heq⟩ := List.getElem?_eq_some_iff.mp hth
        exact ⟨_, .again timeout, by rw [← heq, List.set_getElem_self]⟩
      · cases hs
        exact ⟨_, .refused timeout _, rfl⟩

/-- Every step of a call is one of the moves. -/
theorem State.advance_moved (hth : s.threads[n]? = some th)
    (hs : s.advance b lim n env th = some s') : s.Moved s' b lim n env th := by
  cases th with
  | idle => cases hs
  | load =>
      cases hs
      exact State.check_moved rfl 0
  | cas value attempt =>
      cases hs
      rw [State.reserve]
      split
      case isTrue heq =>
        obtain ⟨rfl, -⟩ := heq
        exact ⟨_, .reserved attempt, rfl⟩
      case isFalse hne =>
        split
        case isTrue hlast => exact ⟨_, .givesUp hne hlast, rfl⟩
        case isFalse => exact State.check_moved rfl _
  | post => exact State.post_moved hs
  | rollback code =>
      cases hs
      exact ⟨_, .undone code, rfl⟩
  | wait timeout => exact State.wait_moved hth hs
  | decrement =>
      cases hs
      exact ⟨_, .done, rfl⟩

theorem State.of_call (hs : s.call n th = some s') :
    ∃ last, s.threads[n]? = some (.idle last) ∧ s' = s.setThread n th := by
  rw [State.call] at hs
  split at hs
  case h_1 last hth => exact ⟨last, hth, (Option.some.inj hs).symm⟩
  case h_2 => cases hs

/-! ### Permits are conserved -/

/-- What a thread holds of the counter. -/
def Thread.share (th : Thread) : Nat := th.reserves.toNat + th.completes.toNat

theorem Inv.set (hi : Inv lim s) (hth : s.threads[n]? = some th)
    (hths : s'.threads = s.threads.set n th')
    (hbalance : s'.value + th'.share + s.count = s.value + th.share + s'.count)
    (hbound : s'.count ≤ lim.maximum)
    (hbelow : ∀ value attempt, th' = .cas value attempt → value < lim.maximum) : Inv lim s' := by
  have hset : ∀ p : Thread → Bool, s'.threads.countP p + (p th).toNat =
      s.threads.countP p + (p th').toNat := by
    intro p
    have h := countP_set (b := th') p hth
    rw [hths]
    cases hp : p th <;> cases hp' : p th' <;> simp [hp, hp'] at h ⊢ <;> omega
  refine ⟨?_, hbound, ?_⟩
  · have hr := hset Thread.reserves
    have hc := hset Thread.completes
    have hold := hi.conserved
    simp only [State.posting, State.completing, Thread.share] at hold hbalance ⊢
    omega
  · intro value attempt hmem
    rw [hths] at hmem
    rcases List.mem_or_eq_of_mem_set hmem with hmem | heq
    · exact hi.below value attempt hmem
    · exact hbelow value attempt heq.symm

/-- A thread's share is part of the counter. -/
theorem Inv.share_le (hi : Inv lim s) (hth : s.threads[n]? = some th) :
    s.value + th.share ≤ s.count := by
  have hmem : th ∈ s.threads := List.mem_of_getElem? hth
  have hle : ∀ p : Thread → Bool, (p th).toNat ≤ s.threads.countP p := by
    intro p
    cases hp : p th with
    | false => exact Nat.zero_le _
    | true => exact List.countP_pos_iff.mpr ⟨th, hmem, hp⟩
  have hr := hle Thread.reserves
  have hc := hle Thread.completes
  have := hi.conserved
  simp only [State.posting, State.completing, Thread.share] at this ⊢
  omega

theorem unsignedDecr_of_pos {k : Nat} (h : 0 < k) : unsignedDecr k = k - 1 := if_neg (by omega)

theorem share_of_reads (h : th.reads = true) : th.share = 0 := by
  cases th with
  | load | cas => rfl
  | idle | post | rollback | wait | decrement => cases h

theorem Inv.moved (hi : Inv lim s) (hth : s.threads[n]? = some th)
    (hm : s.Moved s' b lim n env th) : Inv lim s' := by
  obtain ⟨th', hm, hths⟩ := hm
  have hshare := hi.share_le hth
  have hbound := hi.bound
  have hset : ∀ share' share : Nat, th'.share = share' → th.share = share →
      s'.value + share' + s.count = s.value + share + s'.count → s'.count ≤ lim.maximum →
      (∀ value attempt, th' = .cas value attempt → value < lim.maximum) → Inv lim s' := by
    rintro share' share rfl rfl hbalance hle hbelow
    exact hi.set hth hths hbalance hle hbelow
  generalize hv : s'.value = value' at hm
  generalize hc : s'.count = count' at hm
  rw [hv, hc] at hset
  cases hm with
  | full hreads => exact hset 0 0 rfl (share_of_reads hreads) (by omega) hbound nofun
  | read attempt hreads hlt =>
      refine hset 0 0 rfl (share_of_reads hreads) (by omega) hbound ?_
      rintro value attempt ⟨⟩
      exact hlt
  | reserved attempt =>
      have hlt := hi.below _ _ (List.mem_of_getElem? hth)
      exact hset 1 0 rfl rfl (by omega) hlt nofun
  | givesUp => exact hset 0 0 rfl rfl (by omega) hbound nofun
  | posted => exact hset 0 1 rfl rfl (by omega) hbound nofun
  | failed => exact hset 1 1 rfl rfl (by omega) hbound nofun
  | undone | done =>
      have hpos : 0 < s.count := by
        have : 1 ≤ s.count := Nat.le_trans (Nat.le_add_left _ _) hshare
        omega
      have hdecr := unsignedDecr_of_pos hpos
      exact hset 0 1 rfl rfl (by omega) (by omega) nofun
  | taken _ hpos => exact hset 1 0 rfl rfl (by omega) hbound nofun
  | refused | again => exact hset 0 0 rfl rfl (by omega) hbound nofun

theorem Inv.step (hi : Inv lim s) (hs : s.step b lim a = some s') : Inv lim s' := by
  cases a with
  | spawn =>
      cases hs
      refine ⟨?_, hi.bound, ?_⟩
      · have := hi.conserved
        simpa [State.posting, State.completing, Thread.reserves, Thread.completes] using this
      · intro value attempt hmem
        refine hi.below value attempt ?_
        simpa using hmem
  | give | take =>
      obtain ⟨last, hth, rfl⟩ := State.of_call hs
      exact hi.set hth rfl rfl hi.bound nofun
  | advance n env =>
      obtain ⟨th, hth, hs⟩ := Option.bind_eq_some_iff.mp hs
      exact hi.moved hth (State.advance_moved hth hs)

theorem Inv.of_reachable (hinit : initial ≤ lim.maximum)
    (h : (semaphoreMachine b lim initial).Reachable s) : Inv lim s := by
  refine Machine.Reachable.invariant ⟨?_, hinit, fun _ _ h => absurd h List.not_mem_nil⟩
    (fun s a s' _ hi hs => hi.step hs) h
  simp [semaphoreMachine, State.posting, State.completing]

/-! ### How a give ends -/

/-- The compare-exchange fails, and it was the last that `reserve` tries. -/
def Thread.givesUp (b : Backend) (count : Nat) (spurious : Bool) : Thread → Bool
  | .cas value attempt => ¬ (count = value ∧ ¬ spurious) ∧ b.attempts = some (attempt + 1)
  | _ => false

/-- The step is one in which a give gives up. -/
def State.givesUp (s : State) (b : Backend) : Action → Bool
  | .advance n env => (s.threads[n]?).any (Thread.givesUp b s.count env.spurious)
  | _ => false

/-- The step that ends a give of thread `n`, with result `e`. -/
inductive GiveEnds (b : Backend) (lim : Limits) (s : State) (n : Nat) : Action → ErrorCode → Prop
  | full {th : Thread} (env : Env) : s.threads[n]? = some th → th.reads = true →
      lim.maximum ≤ s.count → GiveEnds b lim s n (.advance n env) .overflow
  | givesUp {env : Env} : s.givesUp b (.advance n env) = true →
      GiveEnds b lim s n (.advance n env) .wouldBlock
  | undone {code : ErrorCode} (env : Env) : s.threads[n]? = some (.rollback code) →
      GiveEnds b lim s n (.advance n env) code
  | posted (env : Env) : GiveEnds b lim s n (.advance n env) .ok

/-- The others leave a thread where it is. -/
theorem State.step_other {m : Nat} (hs : s.step b lim a = some s') (hth : s.threads[m]? = some th)
    (hcall : a.caller ≠ some m) (hne : ∀ env, a ≠ .advance m env) : s'.threads[m]? = some th := by
  have hset : ∀ (k : Nat) (th' : Thread), k ≠ m → (s.threads.set k th')[m]? = some th := by
    intro k th' hk
    rw [List.getElem?_set_ne hk, hth]
  cases a with
  | spawn =>
      cases hs
      exact (List.getElem?_append_left (List.getElem?_eq_some_iff.mp hth).1).trans hth
  | give k | take k _ =>
      obtain ⟨last, -, rfl⟩ := State.of_call hs
      exact hset k _ (fun h => hcall (congrArg some h))
  | advance k env =>
      obtain ⟨th₁, hth₁, hs⟩ := Option.bind_eq_some_iff.mp hs
      obtain ⟨th', -, hths⟩ := State.advance_moved hth₁ hs
      rw [hths]
      exact hset k th' (fun h => hne env (by rw [h]))

/-- A give ends in one of four ways. -/
theorem GiveEnds.of_step (hs : s.step b lim a = some s') (hin : s.inGive n) (hout : ¬ s'.inGive n) :
    ∃ e, s'.threads[n]? = some (.idle (some e)) ∧ GiveEnds b lim s n a e := by
  obtain ⟨th, hth, hgives⟩ := hin
  by_cases hadv : ∃ env, a = .advance n env
  · obtain ⟨env, rfl⟩ := hadv
    obtain ⟨th₁, hth₁, hs⟩ := Option.bind_eq_some_iff.mp hs
    obtain rfl : th = th₁ := Option.some.inj (hth.symm.trans hth₁)
    obtain ⟨th', hm, hths⟩ := State.advance_moved hth hs
    have hat : s'.threads[n]? = some th' := by
      rw [hths]
      exact List.getElem?_set_self (List.getElem?_eq_some_iff.mp hth).1
    generalize s'.value = value' at hm
    generalize s'.count = count' at hm
    cases hm with
    | full hreads hfull => exact ⟨_, hat, .full env hth hreads hfull⟩
    | givesUp hne hlast =>
        refine ⟨_, hat, .givesUp ?_⟩
        rw [State.givesUp, hth]
        exact decide_eq_true ⟨hne, hlast⟩
    | posted => exact ⟨_, hat, .posted env⟩
    | undone => exact ⟨_, hat, .undone env hth⟩
    | read | reserved | failed => exact absurd ⟨_, hat, rfl⟩ hout
    | taken | refused | again | done => cases hgives
  · refine absurd ⟨th, State.step_other hs hth ?_ (fun env h => hadv ⟨env, h⟩), hgives⟩ hout
    -- A thread that is in a call begins no other.
    intro hcall
    cases a with
    | spawn | advance => cases hcall
    | give | take =>
        cases hcall
        obtain ⟨last, hidle, -⟩ := State.of_call hs
        rw [hth] at hidle
        cases hidle
        cases hgives

/-- A thread that has returned and begins no other call stays. -/
theorem State.run_idle {as : List Action} {last : Option ErrorCode}
    (hrun : (semaphoreMachine b lim initial).run s as = some s')
    (hth : s.threads[n]? = some (.idle last)) (has : ∀ a ∈ as, a.caller ≠ some n) :
    s'.threads[n]? = some (.idle last) := by
  induction as generalizing s with
  | nil =>
      obtain rfl : s = s' := by simpa [Machine.run] using hrun
      exact hth
  | cons a rest ih =>
      obtain ⟨s₁, hs, hrest⟩ := Option.bind_eq_some_iff.mp hrun
      refine ih hrest (State.step_other hs hth (has a (List.mem_cons_self ..)) ?_)
        (fun a' ha' => has a' (List.mem_cons_of_mem _ ha'))
      rintro env rfl
      obtain ⟨th, hth', hs⟩ := Option.bind_eq_some_iff.mp hs
      rw [hth] at hth'
      cases hth'
      cases hs

/-- A give that has returned `e` has ended at some state of the run. -/
theorem exists_giveEnds {as : List Action} {e : ErrorCode} (hin : s.inGive n)
    (hrun : (semaphoreMachine b lim initial).run s as = some s')
    (has : ∀ a ∈ as, a.caller ≠ some n) (hret : s'.returned n = some e) :
    ∃ pre a rest t, as = pre ++ a :: rest ∧
      (semaphoreMachine b lim initial).run s pre = some t ∧ t.inGive n ∧
      GiveEnds b lim t n a e := by
  have hout : ¬ s'.inGive n := by
    rintro ⟨th, hth, hgives⟩
    rw [State.returned, hth] at hret
    cases th with
    | idle => cases hgives
    | load | cas | post | rollback | wait | decrement => cases hret
  obtain ⟨pre, a, rest, t, t', rfl, hpre, ht, hstep, ht', hrest⟩ :=
    Machine.run_leaves (P := fun s => s.inGive n) hrun hin hout
  obtain ⟨e', hidle, hends⟩ := GiveEnds.of_step hstep ht ht'
  have hat := State.run_idle hrest hidle (fun a ha => has a (by simp [ha]))
  rw [State.returned, hat] at hret
  cases hret
  exact ⟨pre, a, rest, t, rfl, hpre, ht, hends⟩

end MicrOsal.Semaphore
