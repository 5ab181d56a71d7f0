import MicrOsal.Lib.Machine
import Mathlib.Data.BitVec

/-!
# MicrOsal.Lib.TickWait

Loops that wait for a condition with a timeout, on a clock that wraps.

Such a loop notes the reading of the clock at which it starts. In every turn in which it does
not find its condition it looks at the clock (a `Check`): it gives up, or waits for what remains
of the timeout. With readings of `w` bits the elapsed time is the true one without its full
turns of `2 ^ w`, so a check after a full turn may take the wait for younger than it is.

`TimedLoops` describes a machine some of whose parties are in such loops: what the loop of a
party knows, and which steps are checks. `InLoop` follows one party from the step on with which
it entered its loop, whatever the others do and however long its steps take.
-/

namespace MicrOsal

universe u v

/-! ### One look at the clock -/

/-- A look at the clock, and what the loop makes of it: it gives up, or waits for some time. -/
structure Check (w : Nat) where
  timeout : BitVec w
  /-- The true time since the loop was entered. -/
  elapsed : Nat
  verdict : Option (BitVec w)

/-- The loop gives up when its time is over and not before, and does not wait past it. -/
structure Check.Honest {w : Nat} (c : Check w) : Prop where
  expires : c.timeout.toNat ≤ c.elapsed → c.verdict = none
  early : c.elapsed < c.timeout.toNat →
    ∃ remaining, c.verdict = some remaining ∧ remaining.toNat ≤ c.timeout.toNat - c.elapsed

/-- What a loop makes of the reading `now` that noted `start`. -/
def tickVerdict {w : Nat} (timeout start now : BitVec w) : Option (BitVec w) :=
  let elapsed := now - start
  if timeout ≤ elapsed then none else some (timeout - elapsed)

variable {w : Nat} {timeout : BitVec w} {begun now : Nat}

/-- The elapsed time that the loop computes. -/
theorem toNat_sub_ofNat (h : begun ≤ now) :
    (BitVec.ofNat w now - BitVec.ofNat w begun).toNat = (now - begun) % 2 ^ w := by
  obtain ⟨elapsed, rfl⟩ := Nat.exists_eq_add_of_le h
  rw [BitVec.ofNat_add, BitVec.add_comm, BitVec.add_sub_cancel, BitVec.toNat_ofNat,
    Nat.add_sub_cancel_left]

theorem tickVerdict_eq_none_iff (h : begun ≤ now) :
    tickVerdict timeout (BitVec.ofNat w begun) (BitVec.ofNat w now) = none ↔
      timeout.toNat ≤ (now - begun) % 2 ^ w := by
  unfold tickVerdict
  rw [← toNat_sub_ofNat h]
  dsimp only
  split
  case isTrue hle => exact iff_of_true rfl (BitVec.le_def.mp hle)
  case isFalse hgt => exact iff_of_false nofun (mt BitVec.le_def.mpr hgt)

/-- A loop that does not give up waits for what it believes to remain. -/
theorem tickVerdict_eq_some (h : begun ≤ now) (hleft : (now - begun) % 2 ^ w < timeout.toNat) :
    ∃ remaining, tickVerdict timeout (BitVec.ofNat w begun) (BitVec.ofNat w now) =
      some remaining ∧ remaining.toNat = timeout.toNat - (now - begun) % 2 ^ w := by
  have helapsed := toNat_sub_ofNat (w := w) h
  have hgt : ¬ timeout ≤ BitVec.ofNat w now - BitVec.ofNat w begun := by
    rw [BitVec.le_def, helapsed]
    omega
  refine ⟨_, if_neg hgt, ?_⟩
  rw [BitVec.toNat_sub_of_le (BitVec.le_of_lt (BitVec.not_le.mp hgt)), helapsed]

/-- A check is honest if and only if a time that is over is still over without the full turns of
the clock. -/
theorem honest_tickVerdict_iff (h : begun ≤ now) :
    Check.Honest ⟨timeout, now - begun,
      tickVerdict timeout (BitVec.ofNat w begun) (BitVec.ofNat w now)⟩ ↔
      (timeout.toNat ≤ now - begun → timeout.toNat ≤ (now - begun) % 2 ^ w) := by
  constructor
  · exact fun hhonest hover => (tickVerdict_eq_none_iff h).mp (hhonest.expires hover)
  · intro hturn
    refine ⟨fun hover => (tickVerdict_eq_none_iff h).mpr (hturn hover), fun hleft => ?_⟩
    -- before its time is over the clock has not made a full turn
    have hlt : now - begun < 2 ^ w := Nat.lt_trans hleft timeout.isLt
    change now - begun < timeout.toNat at hleft
    obtain ⟨remaining, hverdict, hremaining⟩ :=
      tickVerdict_eq_some h (by rwa [Nat.mod_eq_of_lt hlt])
    refine ⟨remaining, hverdict, ?_⟩
    rw [hremaining, Nat.mod_eq_of_lt hlt]

/-! ### Loops in a machine -/

/-- What a loop knows: its timeout, and the reading at which it started. -/
structure TickLoop (w : Nat) where
  timeout : BitVec w
  start : BitVec w
  deriving DecidableEq

/-- What one step does to the loop of a party, when the clock reads `now`. -/
inductive LoopMove (now : BitVec w) : Option (TickLoop w) → Option (TickLoop w) → Prop
  | stays (l : Option (TickLoop w)) : LoopMove now l l
  | leaves (l : Option (TickLoop w)) : LoopMove now l none
  | enters (timeout : BitVec w) : LoopMove now none (some ⟨timeout, now⟩)

/-- One thread of a list goes on. -/
theorem LoopMove.set {τ : Type u} {now : BitVec w} {loopOf : τ → Option (TickLoop w)}
    {threads : List τ} {n : Nat} {th th' : τ} (hn : threads[n]? = some th)
    (h : LoopMove now (loopOf th) (loopOf th')) (m : Nat) :
    LoopMove now ((threads[m]?).bind loopOf) (((threads.set n th')[m]?).bind loopOf) := by
  by_cases hmn : n = m
  · subst hmn
    rw [List.getElem?_set_self (List.getElem?_eq_some_iff.mp hn).1, hn]
    exact h
  · rw [List.getElem?_set_ne hmn]
    exact .stays _

/-- A machine with parties in timed loops. -/
structure TimedLoops (σ : Type u) (α : Type v) (ι : Type) (w : Nat) where
  machine : Machine σ α
  /-- The true time. -/
  clock : σ → Nat
  /-- The loop that the party is in. -/
  loop : σ → ι → Option (TickLoop w)
  /-- The step from the first state to the second is a look at the clock by this party, which
  makes this of it. -/
  check : σ → α → σ → Option (ι × Option (BitVec w))
  clock_le : ∀ {s a s'}, machine.step s a = some s' → clock s ≤ clock s'
  moves : ∀ {s a s'} (i : ι), machine.step s a = some s' →
    LoopMove (BitVec.ofNat w (clock s)) (loop s i) (loop s' i)
  checks : ∀ {s a s' i verdict}, machine.step s a = some s' → check s a s' = some (i, verdict) →
    ∃ l, loop s i = some l ∧
      verdict = tickVerdict l.timeout l.start (BitVec.ofNat w (clock s))

namespace TimedLoops

variable {σ : Type u} {α : Type v} {ι : Type} (L : TimedLoops σ α ι w)

/-- Party `i` is in a loop that it entered when the time was `begun`. -/
inductive InLoop (i : ι) (begun : Nat) : σ → Prop
  | enter {s a s'} : L.machine.Reachable s → L.machine.step s a = some s' →
      L.loop s i = none → (L.loop s' i).isSome → L.clock s = begun → InLoop i begun s'
  | stay {s a s'} : InLoop i begun s → L.machine.step s a = some s' →
      (L.loop s' i).isSome → InLoop i begun s'

variable {L} {i : ι} {s s' : σ} {a : α}

theorem InLoop.spec (h : L.InLoop i begun s) :
    ∃ l, L.loop s i = some l ∧ l.start = BitVec.ofNat w begun ∧ begun ≤ L.clock s := by
  induction h with
  | enter _ hs hout hin hclock =>
      obtain ⟨l, hl⟩ := Option.isSome_iff_exists.mp hin
      subst hclock
      refine ⟨l, hl, ?_, L.clock_le hs⟩
      have hmove := L.moves i hs
      rw [hout, hl] at hmove
      cases hmove
      rfl
  | stay _ hs hin ih =>
      obtain ⟨l, hl, hstart, hle⟩ := ih
      obtain ⟨l', hl'⟩ := Option.isSome_iff_exists.mp hin
      refine ⟨l', hl', ?_, hle.trans (L.clock_le hs)⟩
      have hmove := L.moves i hs
      rw [hl, hl'] at hmove
      cases hmove
      exact hstart

/-- In every run, a look at the clock is honest if and only if the full turns that the clock has
made since the loop was entered do not hide that its time is over. -/
theorem InLoop.honest_iff (h : L.InLoop i begun s) (hs : L.machine.step s a = some s')
    {l : TickLoop w} (hl : L.loop s i = some l) {verdict : Option (BitVec w)}
    (hcheck : L.check s a s' = some (i, verdict)) :
    Check.Honest ⟨l.timeout, L.clock s - begun, verdict⟩ ↔
      (l.timeout.toNat ≤ L.clock s - begun →
        l.timeout.toNat ≤ (L.clock s - begun) % 2 ^ w) := by
  obtain ⟨l₁, hl₁, hstart, hle⟩ := h.spec
  obtain rfl : l₁ = l := Option.some.inj (hl₁.symm.trans hl)
  obtain ⟨l₂, hl₂, hverdict⟩ := L.checks hs hcheck
  obtain rfl : l₁ = l₂ := Option.some.inj (hl.symm.trans hl₂)
  rw [hverdict, hstart]
  exact honest_tickVerdict_iff hle

/-- What `InLoop.honest_iff` says of all the looks at the clock in all the runs. -/
def HonestUnlessHidden (L : TimedLoops σ α ι w) : Prop :=
  ∀ (i : ι) (begun : Nat) (s : σ) (a : α) (s' : σ) (l : TickLoop w) (verdict : Option (BitVec w)),
    L.InLoop i begun s → L.machine.step s a = some s' → L.loop s i = some l →
    L.check s a s' = some (i, verdict) →
      (Check.Honest ⟨l.timeout, L.clock s - begun, verdict⟩ ↔
        (l.timeout.toNat ≤ L.clock s - begun →
          l.timeout.toNat ≤ (L.clock s - begun) % 2 ^ w))

theorem honestUnlessHidden (L : TimedLoops σ α ι w) : L.HonestUnlessHidden :=
  fun _ _ _ _ _ _ _ hin hs hl hcheck => hin.honest_iff hs hl hcheck

end TimedLoops

end MicrOsal
