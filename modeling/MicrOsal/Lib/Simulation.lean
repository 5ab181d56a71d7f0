import MicrOsal.Lib.Machine

/-!
# MicrOsal.Lib.Simulation

Simulation between two machines, with steps that only one of them takes.
-/

namespace MicrOsal

namespace Machine

universe u v

variable {σ τ : Type u} {α β ε : Type v} {M : Machine σ α} {N : Machine τ β}
variable {ok : σ → α → Prop} {ok' : τ → β → Prop} {R : σ → τ → Prop}
variable {shows : σ → α → σ → List ε} {shows' : τ → β → τ → List ε}

/-- The simulation rule: when each step of `M` either shows nothing and is matched by no step of
`N`, or is matched by a step that shows the same, then `N` has every record that `M` has. -/
theorem logged_simulates (hinit : R M.init N.init)
    (hstep : ∀ s a s' t, R s t → ok s a → M.step s a = some s' →
      (shows s a s' = [] ∧ R s' t) ∨
        ∃ b t', ok' t b ∧ N.step t b = some t' ∧ shows' t b t' = shows s a s' ∧ R s' t')
    {s : σ} {log : List ε} (h : (M.logged shows).ReachableBy (fun p a => ok p.1 a) (s, log)) :
    ∃ t, (N.logged shows').ReachableBy (fun p b => ok' p.1 b) (t, log) ∧ R s t := by
  refine ReachableBy.invariant (M := M.logged shows)
    (I := fun p => ∃ t, (N.logged shows').ReachableBy (fun p b => ok' p.1 b) (t, p.2) ∧ R p.1 t)
    ⟨N.init, .init, hinit⟩ ?_ h
  intro p a p' _ hp hok hs
  obtain ⟨s, log⟩ := p
  obtain ⟨t, hreach, hrel⟩ := hp
  obtain ⟨s', hs', rfl⟩ := Option.map_eq_some_iff.mp hs
  dsimp only
  rcases hstep s a s' t hrel hok hs' with ⟨hsilent, hrel'⟩ | ⟨b, t', hok', ht', hsame, hrel'⟩
  · rw [hsilent, List.append_nil]
    exact ⟨t, hreach, hrel'⟩
  · rw [← hsame]
    have ht : (N.logged shows').step (t, log) b = some (t', log ++ shows' t b t') := by
      show (N.step t b).map _ = _
      rw [ht']
      rfl
    exact ⟨t', .step hreach hok' ht, hrel'⟩

end Machine

end MicrOsal
