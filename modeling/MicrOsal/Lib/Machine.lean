import Mathlib.Logic.Function.Basic

/-!
# MicrOsal.Lib.Machine

Guarded, executable transition systems.

A `Machine` is an initial state and a partial step function: `step s a` is
`some s'` when action `a` is enabled in `s` and `none` otherwise. Everything
the environment decides (which thread moves, whether a call fails, when the
clock advances) is part of the action, so one definition serves both replay of
a concrete schedule (`Machine.run`) and proofs over every schedule
(`Machine.Reachable`).

`ReachableBy ok` restricts the schedules to those whose every step meets `ok`;
it carries the assumptions a result makes about its environment. `CanReach P`
says that the system may still come to a state with `P`. `logged` keeps a record
of what the steps show, for results about the order in which things happen.
-/

namespace MicrOsal

universe u v

/-- An initial state and a guarded step function. -/
structure Machine (σ : Type u) (α : Type v) where
  /-- The state a run starts from. -/
  init : σ
  /-- One step; `none` when the action is not enabled. -/
  step : σ → α → Option σ

namespace Machine

variable {σ : Type u} {α : Type v} (M : Machine σ α)

/-- Replay a schedule; `none` as soon as one of its actions is disabled. -/
def run : σ → List α → Option σ
  | s, [] => some s
  | s, a :: rest => (M.step s a).bind (fun s' => run s' rest)

theorem run_append (s : σ) (as bs : List α) :
    M.run s (as ++ bs) = (M.run s as).bind (fun s' => M.run s' bs) := by
  induction as generalizing s with
  | nil => rfl
  | cons a rest ih =>
      simp only [List.cons_append, run, Option.bind_assoc]
      congr
      funext s'
      exact ih s'

/-- States some schedule reaches when every step of it meets `ok`. -/
inductive ReachableBy (ok : σ → α → Prop) : σ → Prop
  | init : ReachableBy ok M.init
  | step {s s' : σ} {a : α} : ReachableBy ok s → ok s a → M.step s a = some s' →
      ReachableBy ok s'

/-- States some schedule reaches. -/
def Reachable (s : σ) : Prop := M.ReachableBy (fun _ _ => True) s

variable {M} {ok ok' : σ → α → Prop} {s s' : σ} {a : α}

/-- The invariant rule: what holds initially and survives every step that
meets `ok` holds in every state such steps reach. The step case may use that
its source state is reachable. -/
theorem ReachableBy.invariant {I : σ → Prop} (hinit : I M.init)
    (hstep : ∀ s a s', M.ReachableBy ok s → I s → ok s a → M.step s a = some s' → I s')
    (h : M.ReachableBy ok s) : I s := by
  induction h with
  | init => exact hinit
  | step hr hok hs ih => exact hstep _ _ _ hr ih hok hs

/-- `ReachableBy.invariant` for unrestricted schedules. -/
theorem Reachable.invariant {I : σ → Prop} (hinit : I M.init)
    (hstep : ∀ s a s', M.Reachable s → I s → M.step s a = some s' → I s')
    (h : M.Reachable s) : I s :=
  ReachableBy.invariant hinit (fun s a s' hr hi _ hs => hstep s a s' hr hi hs) h

theorem ReachableBy.mono (hle : ∀ s a, ok s a → ok' s a) (h : M.ReachableBy ok s) :
    M.ReachableBy ok' s := by
  induction h with
  | init => exact .init
  | step _ hok hs ih => exact .step ih (hle _ _ hok) hs

theorem ReachableBy.reachable (h : M.ReachableBy ok s) : M.Reachable s :=
  h.mono (fun _ _ _ => trivial)

theorem Reachable.init : M.Reachable M.init := ReachableBy.init

/-- Every action of a schedule meets `ok` in the state it is taken from. -/
def RunOk (M : Machine σ α) (ok : σ → α → Prop) : σ → List α → Prop
  | _, [] => True
  | s, a :: rest => ok s a ∧ ∀ s', M.step s a = some s' → M.RunOk ok s' rest

theorem ReachableBy.of_run (hr : M.ReachableBy ok s) :
    ∀ {as : List α}, M.RunOk ok s as → M.run s as = some s' → M.ReachableBy ok s' := by
  intro as
  induction as generalizing s with
  | nil =>
      intro _ h
      obtain rfl : s = s' := by simpa [run] using h
      exact hr
  | cons a rest ih =>
      intro hok h
      rw [run] at h
      obtain ⟨s₁, hs, hrest⟩ := Option.bind_eq_some_iff.mp h
      exact ih (.step hr hok.1 hs) (hok.2 s₁ hs) hrest

theorem RunOk.mono (hle : ∀ s a, ok s a → ok' s a) {as : List α} (h : M.RunOk ok s as) :
    M.RunOk ok' s as := by
  induction as generalizing s with
  | nil => trivial
  | cons a rest ih => exact ⟨hle _ _ h.1, fun s' hs => ih (h.2 s' hs)⟩

/-- A decidable guard is checked by replaying the schedule. -/
instance RunOk.decidable (M : Machine σ α) (ok : σ → α → Prop) [∀ s a, Decidable (ok s a)] :
    ∀ (s : σ) (as : List α), Decidable (M.RunOk ok s as)
  | _, [] => .isTrue trivial
  | s, a :: rest =>
    match h : M.step s a with
    | none => decidable_of_iff (ok s a) <| by
        rw [RunOk, h]
        exact ⟨fun hok => ⟨hok, fun s' hs => nomatch hs⟩, And.left⟩
    | some s₁ =>
      haveI := RunOk.decidable M ok s₁ rest
      decidable_of_iff (ok s a ∧ M.RunOk ok s₁ rest) <| by
        rw [RunOk, h]
        exact ⟨fun hok => ⟨hok.1, fun s' hs => Option.some.inj hs ▸ hok.2⟩,
          fun hok => ⟨hok.1, hok.2 s₁ rfl⟩⟩

theorem RunOk.split {as bs : List α} (h : M.RunOk ok s (as ++ bs)) (hrun : M.run s as = some s') :
    M.RunOk ok s as ∧ M.RunOk ok s' bs := by
  induction as generalizing s with
  | nil =>
      obtain rfl : s = s' := by simpa [run] using hrun
      exact ⟨trivial, h⟩
  | cons a rest ih =>
      obtain ⟨s₁, hs, hrest⟩ := Option.bind_eq_some_iff.mp hrun
      refine ⟨⟨h.1, fun s₂ hs₂ => ?_⟩, (ih (h.2 s₁ hs) hrest).2⟩
      obtain rfl : s₁ = s₂ := Option.some.inj (hs.symm.trans hs₂)
      exact (ih (h.2 s₁ hs) hrest).1

/-- A run that leaves `P` leaves it in one step. -/
theorem run_leaves {P : σ → Prop} {as : List α} (hrun : M.run s as = some s') (hs : P s)
    (hs' : ¬ P s') : ∃ pre a rest t t', as = pre ++ a :: rest ∧ M.run s pre = some t ∧ P t ∧
      M.step t a = some t' ∧ ¬ P t' ∧ M.run t' rest = some s' := by
  induction as generalizing s with
  | nil =>
      obtain rfl : s = s' := by simpa [run] using hrun
      exact absurd hs hs'
  | cons a rest ih =>
      obtain ⟨s₁, hstep, hrest⟩ := Option.bind_eq_some_iff.mp hrun
      by_cases hp : P s₁
      · obtain ⟨pre, b, rest', t, t', rfl, hpre, ht, hb, ht', hrest'⟩ := ih hrest hp
        refine ⟨a :: pre, b, rest', t, t', rfl, ?_, ht, hb, ht', hrest'⟩
        rw [run, hstep]
        exact hpre
      · exact ⟨[], a, rest, s, s₁, rfl, rfl, hs, hstep, hp, hrest⟩

/-- A guard that looks at the action only is checked action by action. -/
theorem RunOk.of_forall {p : α → Prop} {as : List α} (h : ∀ a ∈ as, p a) (s : σ) :
    M.RunOk (fun _ a => p a) s as := by
  induction as generalizing s with
  | nil => trivial
  | cons a rest ih =>
      exact ⟨h a (List.mem_cons_self ..),
        fun s' _ => ih (fun b hb => h b (List.mem_cons_of_mem _ hb)) s'⟩

/-- Some schedule leads from the state to one with `P`. -/
inductive CanReach (M : Machine σ α) (P : σ → Prop) : σ → Prop
  | here {s : σ} : P s → CanReach M P s
  | step {s s' : σ} {a : α} : M.step s a = some s' → CanReach M P s' → CanReach M P s

/-- The variant rule: a state with `I` has `P`, or a step that keeps `I` and makes the
rank smaller. -/
theorem CanReach.of_variant {I P : σ → Prop} (rank : σ → Nat)
    (h : ∀ s, I s → P s ∨ ∃ a s', M.step s a = some s' ∧ I s' ∧ rank s' < rank s) (hs : I s) :
    M.CanReach P s := by
  induction hn : rank s using Nat.strongRecOn generalizing s with
  | ind n ih =>
      subst hn
      rcases h s hs with hp | ⟨a, s', hstep, hs', hlt⟩
      · exact .here hp
      · exact .step hstep (ih (rank s') hlt hs' rfl)

theorem CanReach.trans {P Q : σ → Prop} (h : M.CanReach P s)
    (hpq : ∀ s', P s' → M.CanReach Q s') : M.CanReach Q s := by
  induction h with
  | here hp => exact hpq _ hp
  | step hs _ ih => exact .step hs ih

/-- A replayed schedule ends in a reachable state. -/
theorem Reachable.of_run {as : List α} (h : M.run M.init as = some s) : M.Reachable s :=
  ReachableBy.of_run ReachableBy.init
    (RunOk.of_forall (p := fun _ => True) (fun _ _ => trivial) _) h

/-! ### Records of a run -/

/-- The machine together with the record of its run: `shows s a s'` is what the step
from `s` to `s'` adds to the record. No step reads the record. -/
def logged {ε : Type v} (M : Machine σ α) (shows : σ → α → σ → List ε) :
    Machine (σ × List ε) α where
  init := (M.init, [])
  step := fun p a => (M.step p.1 a).map (fun s' => (s', p.2 ++ shows p.1 a s'))

variable {ε : Type v} {shows : σ → α → σ → List ε}

/-- The invariant rule for a machine with its record. -/
theorem logged_invariant {I : σ → List ε → Prop} (hinit : I M.init [])
    (hstep : ∀ s a s' log, M.Reachable s → I s log → M.step s a = some s' →
      I s' (log ++ shows s a s'))
    {log : List ε} (h : (M.logged shows).Reachable (s, log)) : M.Reachable s ∧ I s log := by
  refine Reachable.invariant (M := M.logged shows)
    (I := fun p => M.Reachable p.1 ∧ I p.1 p.2) ⟨.init, hinit⟩ ?_ h
  intro p a p' _ hp hs
  obtain ⟨s', hs', rfl⟩ := Option.map_eq_some_iff.mp hs
  exact ⟨.step hp.1 trivial hs', hstep p.1 a s' p.2 hp.1 hp.2 hs'⟩

/-- Every entry of the record of a run has `P` if and only if every step meets `ok`, when that
is so of each step. -/
theorem logged_run_iff (ok : σ → α → Prop) {P : ε → Prop}
    (hstep : ∀ s a s', M.Reachable s → M.step s a = some s' →
      ((∀ e ∈ shows s a s', P e) ↔ ok s a))
    (hr : M.Reachable s) {log₀ log : List ε} {as : List α}
    (hrun : (M.logged shows).run (s, log₀) as = some (s', log)) :
    (∀ e ∈ log, P e) ↔ (∀ e ∈ log₀, P e) ∧ M.RunOk ok s as := by
  induction as generalizing s log₀ with
  | nil =>
      obtain ⟨-, rfl⟩ := Prod.mk.inj (Option.some.inj hrun)
      exact ⟨fun h => ⟨h, trivial⟩, And.left⟩
  | cons a rest ih =>
      obtain ⟨⟨s₁, log₁⟩, hs, hrest⟩ := Option.bind_eq_some_iff.mp hrun
      obtain ⟨s₂, hs₂, heq⟩ := Option.map_eq_some_iff.mp hs
      obtain ⟨rfl, rfl⟩ := Prod.mk.inj heq
      rw [ih (.step hr trivial hs₂) hrest, List.forall_mem_append, and_assoc]
      refine and_congr_right (fun _ => and_congr (hstep s a s₂ hr hs₂) ?_)
      refine ⟨fun h s₁ hs₁ => ?_, fun h => h s₂ hs₂⟩
      obtain rfl : s₂ = s₁ := Option.some.inj (hs₂.symm.trans hs₁)
      exact h

end Machine

end MicrOsal
