import Mathlib.Data.List.Perm.Basic
import Mathlib.Data.List.Nodup

/-!
# MicrOsal.Lib.JobHistory

The record of a first-in first-out executor: the jobs that were accepted, started,
finished and cancelled, each list in the order in which it happened.

`JobHistory.Ok pending running` relates the record to what the executor holds: the
jobs that wait, in order, and the one it runs. It says that a job is in one place
at a time, that jobs start in the order in which they were accepted, and that the
jobs that wait are the youngest ones.
-/

namespace MicrOsal

universe u

structure JobHistory (α : Type u) where
  accepted : List α
  started : List α
  finished : List α
  cancelled : List α

namespace JobHistory

variable {α : Type u}

def empty : JobHistory α := ⟨[], [], [], []⟩

def accept (h : JobHistory α) (x : α) : JobHistory α := { h with accepted := h.accepted ++ [x] }

def start (h : JobHistory α) (x : α) : JobHistory α := { h with started := h.started ++ [x] }

def finish (h : JobHistory α) (x : α) : JobHistory α := { h with finished := h.finished ++ [x] }

def cancel (h : JobHistory α) (xs : List α) : JobHistory α :=
  { h with cancelled := h.cancelled ++ xs }

/-- The job has run to its end or was cancelled. -/
def Settled (h : JobHistory α) (x : α) : Prop := x ∈ h.finished ∨ x ∈ h.cancelled

/-- The record of an executor that holds `pending` and runs `running`. -/
structure Ok (h : JobHistory α) (pending : List α) (running : Option α) : Prop where
  past : ∃ old, h.accepted = old ++ pending ∧ old.Perm (h.started ++ h.cancelled) ∧
    h.started.Sublist old
  running : h.started = h.finished ++ running.toList

variable {h : JobHistory α} {pending : List α} {running : Option α} {x : α}

theorem empty_ok : (empty : JobHistory α).Ok [] none :=
  ⟨⟨[], rfl, List.Perm.refl _, List.Sublist.refl _⟩, rfl⟩

theorem Ok.accept (hok : h.Ok pending running) (x : α) :
    (h.accept x).Ok (pending ++ [x]) running := by
  obtain ⟨old, hacc, hperm, hsub⟩ := hok.past
  refine ⟨⟨old, ?_, hperm, hsub⟩, hok.running⟩
  simp only [JobHistory.accept, hacc, List.append_assoc]

theorem Ok.start (hok : h.Ok (x :: pending) none) : (h.start x).Ok pending (some x) := by
  obtain ⟨old, hacc, hperm, hsub⟩ := hok.past
  refine ⟨⟨old ++ [x], ?_, ?_, hsub.append_right [x]⟩, ?_⟩
  · simp only [JobHistory.start, hacc, List.append_assoc, List.singleton_append]
  · refine (hperm.append_right [x]).trans ?_
    simp only [JobHistory.start, List.append_assoc]
    exact List.perm_append_comm.append_left h.started
  · have hrun := hok.running
    simp only [JobHistory.start, Option.toList, List.append_nil] at hrun ⊢
    rw [hrun]

theorem Ok.finish (hok : h.Ok pending (some x)) : (h.finish x).Ok pending none := by
  refine ⟨hok.past, ?_⟩
  simpa only [JobHistory.finish, Option.toList, List.append_nil] using hok.running

theorem Ok.cancel (hok : h.Ok pending running) : (h.cancel pending).Ok [] running := by
  obtain ⟨old, hacc, hperm, hsub⟩ := hok.past
  refine ⟨⟨old ++ pending, ?_, ?_, hsub.trans (List.sublist_append_left _ _)⟩, hok.running⟩
  · rw [List.append_nil]
    exact hacc
  · simp only [JobHistory.cancel, ← List.append_assoc]
    exact hperm.append_right pending

/-- Every accepted job is in exactly one place. -/
theorem Ok.perm (hok : h.Ok pending running) :
    h.accepted.Perm (h.started ++ h.cancelled ++ pending) := by
  obtain ⟨old, hacc, hperm, -⟩ := hok.past
  rw [hacc]
  exact hperm.append_right pending

/-- Jobs start in the order in which they were accepted. -/
theorem Ok.started_sublist (hok : h.Ok pending running) : h.started.Sublist h.accepted := by
  obtain ⟨old, hacc, -, hsub⟩ := hok.past
  rw [hacc]
  exact hsub.trans (List.sublist_append_left _ _)

/-- The jobs that wait are the last ones that were accepted. -/
theorem Ok.pending_suffix (hok : h.Ok pending running) : pending <:+ h.accepted := by
  obtain ⟨old, hacc, -, -⟩ := hok.past
  exact ⟨old, hacc.symm⟩

/-- Where an accepted job can be. -/
theorem Ok.cases (hok : h.Ok pending running) (hx : x ∈ h.accepted) :
    h.Settled x ∨ running = some x ∨ x ∈ pending := by
  have hmem := hok.perm.mem_iff.mp hx
  rw [hok.running] at hmem
  simp only [List.mem_append, Option.mem_toList] at hmem
  rcases hmem with ((hfin | hrun) | hcan) | hpend
  · exact .inl (.inl hfin)
  · exact .inr (.inl hrun)
  · exact .inl (.inr hcan)
  · exact .inr (.inr hpend)

/-! ### Numbered jobs -/

section Numbers

variable {h' : JobHistory α} {number : α → Nat} {n : Nat}

/-- The accepted jobs are numbered from one. -/
def Numbered (h : JobHistory α) (number : α → Nat) : Prop :=
  h.accepted.map number = List.range' 1 h.accepted.length

/-- All jobs up to number `n` are settled. -/
def SettledUpTo (h : JobHistory α) (number : α → Nat) (n : Nat) : Prop :=
  ∀ x ∈ h.accepted, number x ≤ n → h.Settled x

/-- What is settled stays so, and what is new has a new number. -/
def Grows (number : α → Nat) (h h' : JobHistory α) : Prop :=
  h.accepted.length ≤ h'.accepted.length ∧
    (∀ x ∈ h'.accepted, x ∈ h.accepted ∨ h.accepted.length < number x) ∧
    ∀ x, h.Settled x → h'.Settled x

theorem Grows.refl (number : α → Nat) (h : JobHistory α) : Grows number h h :=
  ⟨Nat.le_refl _, fun _ hx => .inl hx, fun _ hx => hx⟩

theorem Grows.accept (hx : number x = h.accepted.length + 1) : Grows number h (h.accept x) := by
  refine ⟨?_, ?_, fun _ hs => hs⟩
  · simp [JobHistory.accept]
  · intro y hy
    rcases List.mem_append.mp hy with hy | hy
    · exact .inl hy
    · rw [List.mem_singleton.mp hy, hx]
      exact .inr (Nat.lt_succ_self _)

theorem Grows.start (x : α) : Grows number h (h.start x) := Grows.refl number h

theorem Grows.finish (x : α) : Grows number h (h.finish x) :=
  ⟨Nat.le_refl _, fun _ hx => .inl hx, fun _ hs => hs.imp_left (List.mem_append_left _)⟩

theorem Grows.cancel (xs : List α) : Grows number h (h.cancel xs) :=
  ⟨Nat.le_refl _, fun _ hx => .inl hx, fun _ hs => hs.imp_right (List.mem_append_left _)⟩

theorem SettledUpTo.grow (hs : h.SettledUpTo number n) (hn : n ≤ h.accepted.length)
    (hg : Grows number h h') : h'.SettledUpTo number n := by
  intro x hx hle
  rcases hg.2.1 x hx with hold | hnew
  · exact hg.2.2 x (hs x hold hle)
  · omega

theorem Numbered.accept (hnum : h.Numbered number) (hx : number x = h.accepted.length + 1) :
    (h.accept x).Numbered number := by
  simp only [Numbered, JobHistory.accept, List.map_append, List.length_append,
    List.length_singleton, List.range'_concat, hnum.symm, List.map_cons, List.map_nil,
    hx, Nat.one_mul]
  rw [hnum, Nat.add_comm]

/-- Numbers grow along the list of accepted jobs. -/
theorem Numbered.pairwise (hnum : h.Numbered number) :
    h.accepted.Pairwise (fun x y => number x < number y) := by
  have hlt : (List.range' 1 h.accepted.length).Pairwise (· < ·) := List.pairwise_lt_range'
  rw [← hnum] at hlt
  exact List.pairwise_map.mp hlt

theorem Numbered.le_length (hnum : h.Numbered number) (hx : x ∈ h.accepted) :
    number x ≤ h.accepted.length := by
  have hmem : number x ∈ List.range' 1 h.accepted.length := hnum ▸ List.mem_map_of_mem hx
  have := List.mem_range'_1.mp hmem
  omega

end Numbers

end JobHistory

end MicrOsal
