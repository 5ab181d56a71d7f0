import MicrOsal.FreertosThread.Model

/-!
# MicrOsal.FreertosThread.Lifecycle

Which of the two deletes the task, and who gives up the last share, follows from how far both
are. The states that are reached are listed by that (`Stage`), and a step leads from one of
them to another.
-/

namespace MicrOsal.FreertosThread

/-- The owner has the handle, or is about to get it (`known`: the task is stored). -/
inductive Attached : (handle known : Bool) → Owner → Prop
  | creates : Attached false false .creates
  | idle {last : Reply} : last ≠ .join .ok → last ≠ .detach .ok → Attached true true (.idle last)
  | joinWaits {timeout : Timeout} : Attached true true (.joinWaits timeout)

/-- A call that has ended without the handle. -/
def LetGo (last : Reply) : Prop := last ≠ .create ∧ last ≠ .join .timeout ∧ last ≠ .join .ok

/-- How the task has come to its end: the owner deleted it where it was parked, or it deletes
itself. Only the first is the end of a join. -/
inductive Ended : Task → List Task → Reply → Prop
  | parked {reply : Reply} : reply ≠ .create → reply ≠ .join .timeout →
      Ended .deleted [.parked] reply
  | exits {reply : Reply} : LetGo reply → Ended .exits [] reply
  | exited {reply : Reply} : LetGo reply → Ended .deleted [.exits] reply

/-- The states that are reached. -/
inductive Stage : State → Prop
  /-- The task has not finished. -/
  | running {handle known : Bool} {owner : Owner} : Attached handle known owner →
      Stage ⟨some ⟨known, false, false, false, 2⟩, .running, handle, owner, [], 0, false⟩
  /-- It has, and waits for the owner of the handle. -/
  | parked {handle known : Bool} {owner : Owner} : Attached handle known owner →
      Stage ⟨some ⟨known, true, true, false, 2⟩, .parked, handle, owner, [], 0, false⟩
  | joinDeletes :
      Stage ⟨some ⟨true, false, true, false, 2⟩, .parked, true, .deletes (.join .ok), [], 0, false⟩
  | detachDeletes :
      Stage ⟨some ⟨true, true, true, true, 2⟩, .parked, true, .deletes (.detach .ok), [], 0, false⟩
  /-- The owner gives up both shares. -/
  | releasesTwo {doneSem detached : Bool} {reply : Reply} : reply ≠ .create →
      reply ≠ .join .timeout →
      Stage ⟨some ⟨true, doneSem, true, detached, 2⟩, .deleted, false, .releases 2 reply,
        [.parked], 0, false⟩
  /-- The owner gives up its share before the task does. -/
  | releasesOne :
      Stage ⟨some ⟨true, false, false, true, 2⟩, .running, false, .releases 1 (.detach .ok),
        [], 0, false⟩
  | letGo {last : Reply} : LetGo last →
      Stage ⟨some ⟨true, false, false, true, 1⟩, .running, false, .idle last, [], 0, false⟩
  /-- The owner gives up its share after the task. -/
  | releasesLast {task : Task} {deletions : List Task} : Ended task deletions (.detach .ok) →
      task = .exits ∨ deletions = [.exits] →
      Stage ⟨some ⟨true, false, true, true, 1⟩, task, false, .releases 1 (.detach .ok),
        deletions, 0, false⟩
  | destroys {c : Ctx} {task : Task} {deletions : List Task} {reply : Reply} :
      Ended task deletions reply →
      Stage ⟨some c, task, false, .destroys reply, deletions, 0, false⟩
  | gone {task : Task} {deletions : List Task} {last : Reply} : Ended task deletions last →
      Stage ⟨none, task, false, .idle last, deletions, 1, false⟩

variable {s s' : State}

theorem Stage.finish (h : Stage s) (hs : s.step .finish = some s') : Stage s' := by
  cases h with
  | running hattached =>
      cases hs
      exact .parked hattached
  | releasesOne =>
      cases hs
      exact .releasesLast (.exits ⟨nofun, nofun, nofun⟩) (.inl rfl)
  | letGo hlast =>
      cases hs
      exact .gone (.exits hlast)
  | parked | joinDeletes | detachDeletes | releasesTwo => cases hs
  | releasesLast hended => cases hended <;> cases hs
  | destroys hended => cases hended <;> cases hs
  | gone hended => cases hended <;> cases hs

theorem Ended.exit {task : Task} {deletions : List Task} {reply : Reply}
    (h : Ended task deletions reply) (htask : task = .exits) :
    Ended .deleted (deletions ++ [task]) reply := by
  cases h with
  | exits hreply => exact .exited hreply
  | parked | exited => cases htask

theorem Stage.exit (h : Stage s) (hs : s.step .exit = some s') : Stage s' := by
  cases h with
  | running | parked | joinDeletes | detachDeletes | releasesTwo | releasesOne | letGo => cases hs
  | @releasesLast task deletions hended hexits =>
      by_cases htask : task = .exits
      · rw [State.step, if_pos htask] at hs
        cases hs
        refine .releasesLast (hended.exit htask) (.inr ?_)
        cases hended with
        | exits => rfl
        | parked | exited => cases htask
      · rw [State.step, if_neg htask] at hs
        cases hs
  | @destroys c task deletions reply hended =>
      by_cases htask : task = .exits
      · rw [State.step, if_pos htask] at hs
        cases hs
        exact .destroys (hended.exit htask)
      · rw [State.step, if_neg htask] at hs
        cases hs
  | @gone task deletions last hended =>
      by_cases htask : task = .exits
      · rw [State.step, if_pos htask] at hs
        cases hs
        exact .gone (hended.exit htask)
      · rw [State.step, if_neg htask] at hs
        cases hs

theorem Stage.created (h : Stage s) (hs : s.step .created = some s') : Stage s' := by
  cases h with
  | running hattached =>
      cases hattached with
      | creates =>
          cases hs
          exact .running (.idle nofun nofun)
      | idle | joinWaits => cases hs
  | parked hattached =>
      cases hattached with
      | creates =>
          cases hs
          exact .parked (.idle nofun nofun)
      | idle | joinWaits => cases hs
  | joinDeletes | detachDeletes | releasesTwo | releasesOne | letGo | releasesLast | destroys
  | gone => cases hs

/-- A call that finds no handle. -/
theorem Ended.reply {task : Task} {deletions : List Task} {last reply : Reply}
    (h : Ended task deletions last) (hreply : LetGo reply) : Ended task deletions reply := by
  cases h with
  | parked => exact .parked hreply.1 hreply.2.1
  | exits => exact .exits hreply
  | exited => exact .exited hreply

theorem Stage.join {timeout : Timeout} (h : Stage s) (hs : s.step (.join timeout) = some s') :
    Stage s' := by
  cases h with
  | running hattached =>
      cases hattached with
      | idle =>
          cases hs
          exact .running .joinWaits
      | creates | joinWaits => cases hs
  | parked hattached =>
      cases hattached with
      | idle =>
          cases hs
          exact .parked .joinWaits
      | creates | joinWaits => cases hs
  | letGo =>
      cases hs
      exact .letGo ⟨nofun, nofun, nofun⟩
  | gone hended =>
      cases hs
      exact .gone (hended.reply ⟨nofun, nofun, nofun⟩)
  | joinDeletes | detachDeletes | releasesTwo | releasesOne | releasesLast | destroys => cases hs

theorem Stage.take (h : Stage s) (hs : s.step .take = some s') : Stage s' := by
  cases h with
  | running hattached => cases hattached <;> cases hs
  | parked hattached =>
      cases hattached with
      | joinWaits =>
          cases hs
          exact .joinDeletes
      | creates | idle => cases hs
  | joinDeletes | detachDeletes | releasesTwo | releasesOne | letGo | releasesLast | destroys
  | gone => cases hs

theorem Stage.expire (h : Stage s) (hs : s.step .expire = some s') : Stage s' := by
  cases h with
  | running hattached =>
      cases hattached with
      | @joinWaits timeout =>
          cases timeout with
          | timed =>
              cases hs
              exact .running (.idle nofun nofun)
          | forever => cases hs
      | creates | idle => cases hs
  | parked hattached =>
      cases hattached with
      | @joinWaits timeout => cases timeout <;> cases hs
      | creates | idle => cases hs
  | joinDeletes | detachDeletes | releasesTwo | releasesOne | letGo | releasesLast | destroys
  | gone => cases hs

theorem Stage.detach (h : Stage s) (hs : s.step .detach = some s') : Stage s' := by
  cases h with
  | running hattached =>
      cases hattached with
      | idle =>
          cases hs
          exact .releasesOne
      | creates | joinWaits => cases hs
  | parked hattached =>
      cases hattached with
      | idle =>
          cases hs
          exact .detachDeletes
      | creates | joinWaits => cases hs
  | letGo =>
      cases hs
      exact .letGo ⟨nofun, nofun, nofun⟩
  | gone hended =>
      cases hs
      exact .gone (hended.reply ⟨nofun, nofun, nofun⟩)
  | joinDeletes | detachDeletes | releasesTwo | releasesOne | releasesLast | destroys => cases hs

theorem Stage.lookUp (h : Stage s) (hs : s.step .lookUp = some s') : Stage s' := by
  cases h with
  | running hattached =>
      cases hattached with
      | idle =>
          cases hs
          exact .running (.idle nofun nofun)
      | creates | joinWaits => cases hs
  | parked hattached =>
      cases hattached with
      | idle =>
          cases hs
          exact .parked (.idle nofun nofun)
      | creates | joinWaits => cases hs
  | letGo =>
      cases hs
      exact .letGo ⟨nofun, nofun, nofun⟩
  | gone hended =>
      cases hs
      exact .gone (hended.reply ⟨nofun, nofun, nofun⟩)
  | joinDeletes | detachDeletes | releasesTwo | releasesOne | releasesLast | destroys => cases hs

theorem Stage.go (h : Stage s) (hs : s.step .go = some s') : Stage s' := by
  cases h with
  | running hattached => cases hattached <;> cases hs
  | parked hattached => cases hattached <;> cases hs
  | letGo | gone => cases hs
  | joinDeletes =>
      cases hs
      exact .releasesTwo nofun nofun
  | detachDeletes =>
      cases hs
      exact .releasesTwo nofun nofun
  | releasesTwo hcreate htimeout =>
      cases hs
      exact .destroys (.parked hcreate htimeout)
  | releasesOne =>
      cases hs
      exact .letGo ⟨nofun, nofun, nofun⟩
  | releasesLast hended =>
      cases hs
      exact .destroys hended
  | destroys hended =>
      cases hs
      exact .gone hended

theorem Stage.step {a : Action} (h : Stage s) (hs : s.step a = some s') : Stage s' := by
  cases a with
  | finish => exact h.finish hs
  | exit => exact h.exit hs
  | created => exact h.created hs
  | join timeout => exact h.join hs
  | take => exact h.take hs
  | expire => exact h.expire hs
  | detach => exact h.detach hs
  | lookUp => exact h.lookUp hs
  | go => exact h.go hs

theorem Stage.of_reachable (h : machine.Reachable s) : Stage s :=
  h.invariant (I := Stage) (.running .creates) (fun _ _ _ _ hi hs => hi.step hs)

/-! ### What the stages say -/

theorem Stage.deletions (h : Stage s) :
    s.deletions.length = (if s.task = .deleted then 1 else 0) ∧
      ∀ task ∈ s.deletions, task = .parked ∨ task = .exits := by
  have hnone : ∀ task ∈ ([] : List Task), task = .parked ∨ task = .exits := nofun
  have hended : ∀ {task : Task} {deletions : List Task} {reply : Reply},
      Ended task deletions reply → deletions.length = (if task = .deleted then 1 else 0) ∧
        ∀ t ∈ deletions, t = .parked ∨ t = .exits := by
    intro task deletions reply hended
    cases hended with
    | parked => exact ⟨rfl, fun t ht => .inl (List.mem_singleton.mp ht)⟩
    | exits => exact ⟨rfl, hnone⟩
    | exited => exact ⟨rfl, fun t ht => .inr (List.mem_singleton.mp ht)⟩
  cases h with
  | running | parked | joinDeletes | detachDeletes | releasesOne | letGo => exact ⟨rfl, hnone⟩
  | releasesTwo => exact ⟨rfl, fun t ht => .inl (List.mem_singleton.mp ht)⟩
  | releasesLast h => exact hended h
  | destroys h => exact hended h
  | gone h => exact hended h

theorem Ended.task_eq {task : Task} {deletions : List Task} {reply : Reply}
    (h : Ended task deletions reply) : task = .exits ∨ task = .deleted := by
  cases h with
  | exits => exact .inl rfl
  | parked | exited => exact .inr rfl

/-- The context is there until neither side uses it any more. -/
theorem Stage.destroyed (h : Stage s) : s.destroyed = (if s.ctx = none then 1 else 0) ∧
    (s.ctx = none → s.handle = false ∧ (∃ last, s.owner = .idle last) ∧
      (s.task = .exits ∨ s.task = .deleted)) := by
  cases h with
  | gone hended => exact ⟨rfl, fun _ => ⟨rfl, ⟨_, rfl⟩, hended.task_eq⟩⟩
  | running | parked | joinDeletes | detachDeletes | releasesTwo | releasesOne | letGo
  | releasesLast | destroys => exact ⟨rfl, nofun⟩

theorem Stage.complete {last : Reply} (h : Stage s) (hhandle : s.handle = false)
    (howner : s.owner = .idle last) (htask : s.task ≠ .running) :
    s.ctx = none ∧ (s.task = .exits ∨ s.task = .deleted) := by
  cases h with
  | running | letGo => exact absurd rfl htask
  | parked hattached =>
      cases hattached with
      | creates => cases howner
      | idle | joinWaits => cases hhandle
  | gone hended => exact ⟨rfl, hended.task_eq⟩
  | joinDeletes | detachDeletes | releasesTwo | releasesOne | releasesLast | destroys =>
      cases howner

theorem Stage.joined (h : Stage s) (howner : s.owner = .idle (.join .ok)) :
    s.task = .deleted ∧ s.deletions = [.parked] ∧ s.ctx = none := by
  cases h with
  | running hattached | parked hattached =>
      cases hattached with
      | idle hjoin => exact absurd (Owner.idle.inj howner) hjoin
      | creates | joinWaits => cases howner
  | letGo hlast => exact absurd (Owner.idle.inj howner) hlast.2.2
  | gone hended =>
      cases hended with
      | parked => exact ⟨rfl, rfl, rfl⟩
      | exits hlast | exited hlast => exact absurd (Owner.idle.inj howner) hlast.2.2
  | joinDeletes | detachDeletes | releasesTwo | releasesOne | releasesLast | destroys =>
      cases howner

theorem Stage.timedOut (h : Stage s) (howner : s.owner = .idle (.join .timeout)) :
    s.handle = true := by
  cases h with
  | running hattached | parked hattached =>
      cases hattached with
      | idle => rfl
      | creates | joinWaits => cases howner
  | letGo hlast => exact absurd (Owner.idle.inj howner) hlast.2.1
  | gone hended =>
      cases hended with
      | parked _ hlast => exact absurd (Owner.idle.inj howner) hlast
      | exits hlast | exited hlast => exact absurd (Owner.idle.inj howner) hlast.2.1
  | joinDeletes | detachDeletes | releasesTwo | releasesOne | releasesLast | destroys =>
      cases howner

/-- A join that times out, and a detach whose release comes after that of the task. -/
def lateRelease : List Action :=
  [.created, .join .timed, .expire, .detach, .finish, .exit, .go, .go]

end MicrOsal.FreertosThread
