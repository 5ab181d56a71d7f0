import MicrOsal.BareMetalTasks.Contexts

/-!
# MicrOsal.BareMetalTasks.Records

Slots, handles and the record of a run (`Records`).

A slot belongs to the handle that its task was created for, until the task is joined, or, when it
has been detached, until it finishes.
-/

namespace MicrOsal.BareMetalTasks

variable {w maxTasks j k h slot next : Nat} {s s' : State} {t : Task} {call : Call}
variable {a : Action w} {e : Event} {p q : Option Nat}

/-! ### The record of a run -/

/-- The ticks that the call was for are over, unless the sum wraps. -/
def Deadline.IsOver (d : Deadline) (now : Nat) : Prop :=
  d.began + d.ticks < 2 ^ 64 → d.began + d.ticks ≤ now

theorem Deadline.isOver (d : Deadline) {now : Nat} (h : d.sum ≤ BitVec.ofNat 64 now) :
    d.IsOver now := by
  intro hfits
  have hle := BitVec.le_def.mp h
  rw [d.sum_eq, BitVec.toNat_ofNat, BitVec.toNat_ofNat, Nat.mod_eq_of_lt hfits] at hle
  exact hle.trans (Nat.mod_le _ _)

/-- The call of the deadline begins. -/
def Deadline.begins (d : Deadline) : Event := .begins d.ticks d.began

/-- What the loop waits for. -/
def Call.deadline : Call → Option Deadline
  | .join _ _ _ deadline => some deadline
  | .sleep wake => some wake
  | _ => none

/-- An entry of the record fits the entries before it. -/
def Event.Fits (before : List Event) : Event → Prop
  | .created h _ _ => ∀ entry arg, .created h entry arg ∉ before
  | .called h entry arg =>
      .created h entry arg ∈ before ∧ ∀ entry arg, .called h entry arg ∉ before
  | .returned h => (∃ entry arg, .called h entry arg ∈ before) ∧ .returned h ∉ before
  | .joined h r deadline now =>
      (r = .ok → .returned h ∈ before ∧ ∀ deadline now, .joined h .ok deadline now ∉ before) ∧
        (r = .timeout → deadline.begins ∈ before ∧ deadline.IsOver now)
  | .slept wake now => wake.begins ∈ before ∧ wake.IsOver now
  | .begins _ _ => True

/-- The handle that an entry is about, if it shows something of the task or that the handle has
been given up. -/
def Event.handle : Event → Option Nat
  | .created h _ _ => some h
  | .called h _ _ => some h
  | .returned h => some h
  | .joined h .ok _ _ => some h
  | _ => none

/-! ### The invariant -/

/-- The loop that a party is in. -/
def State.callOf (s : State) : Option Nat → Call
  | none => s.callerCall
  | some k => (s.tasks k).call

/-- What the record says of the task in a slot. -/
structure Task.Recorded (log : List Event) (t : Task) : Prop where
  created : .created t.owner t.entry t.arg ∈ log
  uncalled : t.ctx = some .trampoline → ∀ entry arg, .called t.owner entry arg ∉ log
  called : t.ctx ≠ some .trampoline → .called t.owner t.entry t.arg ∈ log
  unreturned : t.finished = false → .returned t.owner ∉ log
  returned : t.finished = true → .returned t.owner ∈ log

structure Records (s : State) : Prop where
  tasks : ∀ k, (s.tasks k).valid = true → (s.tasks k).Recorded s.log
  owned : ∀ k, (s.tasks k).valid = true → (s.tasks k).owner < s.filled
  held : ∀ k, (s.tasks k).valid = true → (s.tasks k).detached = false →
    s.handles (s.tasks k).owner = some k
  owners : ∀ j k, (s.tasks j).valid = true → (s.tasks k).valid = true →
    (s.tasks j).owner = (s.tasks k).owner → j = k
  handles : ∀ h k, s.handles h = some k → (s.tasks k).valid = true ∧ (s.tasks k).owner = h ∧
    (s.tasks k).detached = false
  unjoined : ∀ h k, s.handles h = some k → ∀ deadline now, .joined h .ok deadline now ∉ s.log
  unused : ∀ h, s.filled ≤ h → s.handles h = none
  known : ∀ e ∈ s.log, ∀ h, e.handle = some h → h < s.filled
  joins : ∀ p h slot forever deadline, s.callOf p = .join h slot forever deadline →
    s.handles h = some slot
  alone : ∀ p q h, (s.callOf p).joins h = true → (s.callOf q).joins h = true → p = q
  begun : ∀ p d, (s.callOf p).deadline = some d → d.begins ∈ s.log
  order : EachAfter Event.Fits s.log

theorem Records.initial : Records State.initial where
  tasks k hk := by cases hk
  owned k hk := by cases hk
  held k hk := by cases hk
  owners j k hj := by cases hj
  handles h k hk := by cases hk
  unjoined h k hk := by cases hk
  unused h _ := rfl
  known e he := by cases he
  joins p h slot forever deadline hp := by cases p <;> cases hp
  alone p q h hp := by cases p <;> cases hp
  begun p d hp := by cases p <;> cases hp
  order := .nil

/-! ### Switches -/

/-- A task is the same but for where its code is. -/
structure Task.Same (t t' : Task) : Prop where
  valid : t'.valid = t.valid
  finished : t'.finished = t.finished
  detached : t'.detached = t.detached
  owner : t'.owner = t.owner
  entry : t'.entry = t.entry
  arg : t'.arg = t.arg

theorem Task.Same.refl (t : Task) : t.Same t := ⟨rfl, rfl, rfl, rfl, rfl, rfl⟩

/-- Nothing has changed but where the code of the parties is, and no entry function has been
called. -/
structure Keeps (s s' : State) : Prop where
  handles : s'.handles = s.handles
  filled : s'.filled = s.filled
  log : s'.log = s.log
  same : ∀ k, (s.tasks k).Same (s'.tasks k)
  ctx : ∀ k, (s'.tasks k).ctx = some .trampoline ↔ (s.tasks k).ctx = some .trampoline

/-- Besides, nobody has entered a loop. -/
structure Goes (s s' : State) : Prop extends Keeps s s' where
  calls : ∀ p, s'.callOf p = s.callOf p ∨ s'.callOf p = .own

theorem Goes.joins (hg : Goes s s') {forever : Bool} {deadline : Deadline}
    (hp : s'.callOf p = .join h slot forever deadline) :
    s.callOf p = .join h slot forever deadline := by
  rcases hg.calls p with heq | heq
  · exact heq.symm.trans hp
  · cases heq.symm.trans hp

theorem Goes.deadline (hg : Goes s s') {d : Deadline} (hp : (s'.callOf p).deadline = some d) :
    (s.callOf p).deadline = some d := by
  rcases hg.calls p with heq | heq
  · rwa [heq] at hp
  · rw [heq] at hp
    cases hp

theorem Call.joins_iff : call.joins h = true ↔
    ∃ slot forever deadline, call = .join h slot forever deadline := by
  cases call with
  | join h' slot forever deadline =>
      simp only [Call.joins, beq_iff_eq, Call.join.injEq]
      constructor
      · rintro rfl
        exact ⟨slot, forever, deadline, rfl, rfl, rfl, rfl⟩
      · rintro ⟨_, _, _, rfl, -⟩
        rfl
  | own | wait | sleep wake => simp [Call.joins]

theorem Task.Recorded.same (hr : t.Recorded s.log) {t' : Task} (hs : t.Same t')
    (hctx : t'.ctx = some .trampoline ↔ t.ctx = some .trampoline) : t'.Recorded s.log where
  created := by
    rw [hs.owner, hs.entry, hs.arg]
    exact hr.created
  uncalled h := by
    rw [hs.owner]
    exact hr.uncalled (hctx.mp h)
  called h := by
    rw [hs.owner, hs.entry, hs.arg]
    exact hr.called (fun heq => h (hctx.mpr heq))
  unreturned h := by
    rw [hs.owner]
    exact hr.unreturned (hs.finished.symm.trans h)
  returned h := by
    rw [hs.owner]
    exact hr.returned (hs.finished.symm.trans h)

theorem Records.keeps (hr : Records s) (hk : Keeps s s')
    (hjoins : ∀ p h slot forever deadline, s'.callOf p = .join h slot forever deadline →
      s.handles h = some slot)
    (halone : ∀ p q h, (s'.callOf p).joins h = true → (s'.callOf q).joins h = true → p = q)
    (hbegun : ∀ p d, (s'.callOf p).deadline = some d → d.begins ∈ s.log) : Records s' where
  tasks k hv := by
    rw [hk.log]
    exact (hr.tasks k ((hk.same k).valid.symm.trans hv)).same (hk.same k) (hk.ctx k)
  owned k hv := by
    rw [(hk.same k).owner, hk.filled]
    exact hr.owned k ((hk.same k).valid.symm.trans hv)
  held k hv hd := by
    rw [(hk.same k).owner, hk.handles]
    exact hr.held k ((hk.same k).valid.symm.trans hv) ((hk.same k).detached.symm.trans hd)
  owners j k hj hk' heq := by
    rw [(hk.same j).owner, (hk.same k).owner] at heq
    exact hr.owners j k ((hk.same j).valid.symm.trans hj) ((hk.same k).valid.symm.trans hk') heq
  handles h k hh := by
    rw [hk.handles] at hh
    rw [(hk.same k).valid, (hk.same k).owner, (hk.same k).detached]
    exact hr.handles h k hh
  unjoined h k hh := by
    rw [hk.handles] at hh
    rw [hk.log]
    exact hr.unjoined h k hh
  unused h hh := by
    rw [hk.filled] at hh
    rw [hk.handles]
    exact hr.unused h hh
  known e he h hh := by
    rw [hk.log] at he
    rw [hk.filled]
    exact hr.known e he h hh
  joins p h slot forever deadline hp := by
    rw [hk.handles]
    exact hjoins p h slot forever deadline hp
  alone := halone
  begun p d hp := by
    rw [hk.log]
    exact hbegun p d hp
  order := by
    rw [hk.log]
    exact hr.order

theorem Records.goes (hr : Records s) (hg : Goes s s') : Records s' := by
  refine hr.keeps hg.toKeeps
    (fun p h slot forever deadline hp => hr.joins p h slot forever deadline (hg.joins hp))
    (fun p q h hp hq => ?_) (fun p d hp => hr.begun p d (hg.deadline hp))
  obtain ⟨_, _, _, hp⟩ := Call.joins_iff.mp hp
  obtain ⟨_, _, _, hq⟩ := Call.joins_iff.mp hq
  exact hr.alone p q h (Call.joins_iff.mpr ⟨_, _, _, hg.joins hp⟩)
    (Call.joins_iff.mpr ⟨_, _, _, hg.joins hq⟩)

theorem State.callOf_setTask (s : State) (k : Nat) (t : Task) (p : Option Nat) :
    (s.setTask k t).callOf p = if p = some k then t.call else s.callOf p := by
  cases p with
  | none => rfl
  | some j =>
      by_cases hjk : j = k
      · rw [if_pos (congrArg some hjk), hjk]
        exact congrArg Task.call (State.tasks_setTask_self s k t)
      · rw [if_neg (fun heq => hjk (Option.some.inj heq))]
        exact congrArg Task.call (State.tasks_setTask_ne s t hjk)

theorem Keeps.setTask (s : State) (k : Nat) (hsame : (s.tasks k).Same t)
    (hctx : t.ctx = some .trampoline ↔ (s.tasks k).ctx = some .trampoline) :
    Keeps s (s.setTask k t) where
  handles := rfl
  filled := rfl
  log := rfl
  same j := by
    by_cases hjk : j = k
    · rw [hjk, State.tasks_setTask_self]
      exact hsame
    · rw [State.tasks_setTask_ne s t hjk]
      exact .refl _
  ctx j := by
    by_cases hjk : j = k
    · rw [hjk, State.tasks_setTask_self]
      exact hctx
    · rw [State.tasks_setTask_ne s t hjk]

/-- A task goes on. -/
theorem Goes.setTask (s : State) (k : Nat) (hsame : (s.tasks k).Same t)
    (hctx : t.ctx = some .trampoline ↔ (s.tasks k).ctx = some .trampoline)
    (hcall : t.call = (s.tasks k).call ∨ t.call = .own) : Goes s (s.setTask k t) where
  toKeeps := .setTask s k hsame hctx
  calls p := by
    rw [State.callOf_setTask]
    split
    · rename_i heq
      rw [heq]
      exact hcall
    · exact .inl rfl

theorem Call.resumed_cases (call : Call) : call.resumed = call ∨ call.resumed = .own := by
  cases call with
  | wait => exact .inr rfl
  | own | join | sleep => exact .inl rfl

theorem Goes.plain (htasks : s'.tasks = s.tasks) (hcaller : s'.callerCall = s.callerCall)
    (hhandles : s'.handles = s.handles) (hfilled : s'.filled = s.filled) (hlog : s'.log = s.log) :
    Goes s s' where
  handles := hhandles
  filled := hfilled
  log := hlog
  same k := by
    rw [htasks]
    exact .refl _
  ctx k := by rw [htasks]
  calls p := by
    cases p with
    | none => exact .inl hcaller
    | some k => exact .inl (congrArg (fun tasks => (tasks k).call) htasks)

/-! ### The record grows -/

theorem notMem_append {log es : List Event} (h : e ∉ log) (hne : ∀ e' ∈ es, e'.handle ≠ e.handle) :
    e ∉ log ++ es := by
  intro hmem
  rcases List.mem_append.mp hmem with hmem | hmem
  · exact h hmem
  · exact hne e hmem rfl

/-- Entries about other tasks. -/
theorem Task.Recorded.append {log es : List Event} (h : t.Recorded log)
    (hes : ∀ e ∈ es, e.handle ≠ some t.owner) : t.Recorded (log ++ es) where
  created := List.mem_append_left _ h.created
  uncalled hctx entry arg := notMem_append (h.uncalled hctx entry arg) hes
  called hctx := List.mem_append_left _ (h.called hctx)
  unreturned hfin := notMem_append (h.unreturned hfin) hes
  returned hfin := List.mem_append_left _ (h.returned hfin)

/-- An entry that does not settle anything. -/
theorem Records.note (hr : Records s) (hfits : e.Fits s.log) (he : e.handle = none) :
    Records (s.record e) where
  tasks k hk := (hr.tasks k hk).append (fun e' he' => by
    rw [List.mem_singleton.mp he', he]
    rintro ⟨⟩)
  owned := hr.owned
  held := hr.held
  owners := hr.owners
  handles := hr.handles
  unjoined h k hk deadline now := notMem_append (hr.unjoined h k hk deadline now) (fun e' he' => by
    rw [List.mem_singleton.mp he', he]
    rintro ⟨⟩)
  unused := hr.unused
  known e' he' h hh := by
    rcases List.mem_append.mp he' with he' | he'
    · exact hr.known e' he' h hh
    · rw [List.mem_singleton.mp he', he] at hh
      cases hh
  joins := hr.joins
  alone := hr.alone
  begun p d hp := List.mem_append_left _ (hr.begun p d hp)
  order := hr.order.concat hfits

/-! ### One slot changes -/

/-- Slot `k` has `t` instead of what it had, and every party is in the loop that it was in. -/
structure Replaced (s s' : State) (k : Nat) (t : Task) : Prop where
  self : s'.tasks k = t
  others : ∀ j, j ≠ k → s'.tasks j = s.tasks j
  calls : ∀ p, s'.callOf p = s.callOf p

theorem Replaced.of_eq (hcall : t.call = (s.tasks k).call)
    (htasks : s'.tasks = (s.setTask k t).tasks) (hcaller : s'.callerCall = s.callerCall) :
    Replaced s s' k t where
  self := by rw [htasks, State.tasks_setTask_self]
  others j hj := by rw [htasks, State.tasks_setTask_ne s t hj]
  calls p := by
    have hset : s'.callOf p = (s.setTask k t).callOf p := by
      cases p with
      | none => exact hcaller
      | some j => rw [State.callOf, State.callOf, htasks]
    rw [hset, State.callOf_setTask]
    split
    · rename_i heq
      rw [heq]
      exact hcall
    · rfl

theorem Replaced.owner (h : Replaced s s' k t) (howner : t.owner = (s.tasks k).owner) (j : Nat) :
    (s'.tasks j).owner = (s.tasks j).owner := by
  by_cases hjk : j = k
  · rw [hjk, h.self, howner]
  · rw [h.others j hjk]

/-- What becomes of the handle of the task in slot `k`, when the slot has `t` and `es` is recorded:
it stays or is given up. -/
inductive Handled (s s' : State) (k : Nat) (t : Task) (es : List Event) : Prop
  | stays (same : s'.handles (s.tasks k).owner = s.handles (s.tasks k).owner)
      (detached : t.detached = (s.tasks k).detached)
      (valid : (s.tasks k).detached = false → t.valid = true)
      (unjoined : ∀ h deadline now, .joined h .ok deadline now ∉ es)
  | givenUp (none : s'.handles (s.tasks k).owner = none)
      (detached : t.valid = true → t.detached = true)
      (unjoined : ∀ p, (s.callOf p).joins (s.tasks k).owner = false)

/-- A task changes, and so may its handle; `es` is what is recorded of it. -/
theorem Records.replace (hr : Records s) (es : List Event) (hp : Replaced s s' k t)
    (hhandled : Handled s s' k t es) (hvalid : (s.tasks k).valid = true)
    (howner : t.owner = (s.tasks k).owner) (hfilled : s'.filled = s.filled)
    (hlog : s'.log = s.log ++ es) (hes : ∀ e ∈ es, e.handle = some (s.tasks k).owner)
    (horder : EachAfter Event.Fits s'.log) (hrecord : t.valid = true → t.Recorded s'.log)
    (hhandles : ∀ h, h ≠ (s.tasks k).owner → s'.handles h = s.handles h) : Records s' := by
  have hvalids : ∀ j, (s'.tasks j).valid = true → (s.tasks j).valid = true := by
    intro j hj
    by_cases hjk : j = k
    · rw [hjk]
      exact hvalid
    · rwa [hp.others j hjk] at hj
  have hback : ∀ h j, s'.handles h = some j → s.handles h = some j ∧
      (h = (s.tasks k).owner → j = k ∧ t.valid = true ∧ t.detached = false ∧
        ∀ h deadline now, .joined h .ok deadline now ∉ es) := by
    intro h j hj
    by_cases hne : h = (s.tasks k).owner
    · subst hne
      cases hhandled with
      | stays hsame hdetached hstays hnot =>
          rw [hsame] at hj
          obtain ⟨hv, hown, hd⟩ := hr.handles _ j hj
          obtain rfl := hr.owners j k hv hvalid hown
          exact ⟨hj, fun _ => ⟨rfl, hstays hd, hdetached.trans hd, hnot⟩⟩
      | givenUp hnone => cases hnone.symm.trans hj
    · exact ⟨(hhandles h hne).symm.trans hj, fun heq => absurd heq hne⟩
  refine ⟨fun j hj => ?_, fun j hj => ?_, fun j hj hd => ?_, fun i j hi hj heq => ?_,
    fun h j hj => ?_, fun h j hj deadline now hmem => ?_, fun h hh => ?_, fun e he h hh => ?_,
    fun p h slot forever deadline hjoin => ?_, fun p q h hpj hqj => ?_, fun p d hpd => ?_, horder⟩
  · by_cases hjk : j = k
    · rw [hjk, hp.self] at hj ⊢
      exact hrecord hj
    · rw [hp.others j hjk] at hj ⊢
      rw [hlog]
      refine (hr.tasks j hj).append (fun e he heq => hjk (hr.owners j k hj hvalid ?_))
      exact Option.some.inj (heq.symm.trans (hes e he))
  · rw [hp.owner howner, hfilled]
    exact hr.owned j (hvalids j hj)
  · by_cases hjk : j = k
    · rw [hjk, hp.self] at hj hd
      rw [hjk, hp.self, howner]
      cases hhandled with
      | stays hsame hdetached hstays hnot =>
          rw [hsame]
          exact hr.held k hvalid (hdetached.symm.trans hd)
      | givenUp hnone hdetached => cases hd.symm.trans (hdetached hj)
    · rw [hp.others j hjk] at hj hd ⊢
      rw [hhandles _ (fun heq => hjk (hr.owners j k hj hvalid heq))]
      exact hr.held j hj hd
  · rw [hp.owner howner, hp.owner howner] at heq
    exact hr.owners i j (hvalids i hi) (hvalids j hj) heq
  · obtain ⟨hold, hself⟩ := hback h j hj
    have hfact := hr.handles h j hold
    by_cases hjk : j = k
    · rw [hjk] at hfact
      obtain ⟨-, hv, hd, -⟩ := hself hfact.2.1.symm
      rw [hjk, hp.self]
      exact ⟨hv, howner.trans hfact.2.1, hd⟩
    · rw [hp.others j hjk]
      exact hfact
  · obtain ⟨hold, hself⟩ := hback h j hj
    rw [hlog] at hmem
    rcases List.mem_append.mp hmem with hmem | hmem
    · exact hr.unjoined h j hold deadline now hmem
    · exact (hself (Option.some.inj (hes _ hmem))).2.2.2 h deadline now hmem
  · rw [hfilled] at hh
    rw [hhandles h (fun heq => absurd (hr.owned k hvalid) (by omega))]
    exact hr.unused h hh
  · rw [hlog] at he
    rw [hfilled]
    rcases List.mem_append.mp he with he | he
    · exact hr.known e he h hh
    · obtain rfl := Option.some.inj (hh.symm.trans (hes e he))
      exact hr.owned k hvalid
  · rw [hp.calls] at hjoin
    have hold := hr.joins p h slot forever deadline hjoin
    by_cases hne : h = (s.tasks k).owner
    · cases hhandled with
      | stays hsame => rw [hne, hsame, ← hne, hold]
      | givenUp _ _ hnone =>
          have hnot := hnone p
          rw [← hne, Call.joins_iff.mpr ⟨_, _, _, hjoin⟩] at hnot
          cases hnot
    · rw [hhandles h hne]
      exact hold
  · rw [hp.calls] at hpj hqj
    exact hr.alone p q h hpj hqj
  · rw [hp.calls] at hpd
    rw [hlog]
    exact List.mem_append_left _ (hr.begun p d hpd)

/-- Something is recorded of a task, which changes and keeps its handle. -/
theorem Records.change (hr : Records s) (hvalid : (s.tasks k).valid = true)
    (hfits : e.Fits s.log) (he : e.handle = some (s.tasks k).owner)
    (hnot : ∀ h deadline now, e ≠ .joined h .ok deadline now)
    (ht : t.valid = true → t.Recorded (s.log ++ [e])) (howner : t.owner = (s.tasks k).owner)
    (hdetached : t.detached = (s.tasks k).detached)
    (hstays : (s.tasks k).detached = false → t.valid = true) (hcall : t.call = (s.tasks k).call) :
    Records ((s.setTask k t).record e) := by
  have hhandled : Handled s ((s.setTask k t).record e) k t [e] :=
    .stays rfl hdetached hstays
      (fun h deadline now hmem => hnot h deadline now (List.mem_singleton.mp hmem).symm)
  exact hr.replace [e] (.of_eq hcall rfl rfl) hhandled hvalid howner rfl rfl
    (fun e' he' => (List.mem_singleton.mp he').symm ▸ he) (hr.order.concat hfits) ht
    (fun _ _ => rfl)

/-! ### Switches of the processor -/

/-- A switch to a task that has not finished. -/
theorem Records.toTask (hr : Records s) (hlive : (s.tasks next).live = true) :
    Records (s.toTask next) := by
  have hvalid := Task.valid_of_live hlive
  have hdispatch : Records (s.dispatch next) := hr.goes (.plain rfl rfl rfl rfl rfl)
  cases hctx : (s.tasks next).ctx with
  | none =>
      rw [State.toTask_none hctx]
      exact hdispatch.goes (.plain rfl rfl rfl rfl rfl)
  | some context =>
      cases context with
      | trampoline =>
          rw [State.toTask_trampoline hctx]
          have hold := hr.tasks next hvalid
          refine hdispatch.change (s := s.dispatch next) hvalid
            ⟨hold.created, hold.uncalled hctx⟩ rfl (by rintro h d n ⟨⟩) (fun _ => ?_) rfl rfl
            (fun _ => hvalid) rfl
          refine ⟨List.mem_append_left _ hold.created, by rintro ⟨⟩,
            fun _ => List.mem_append_right _ (List.mem_singleton_self _), fun hfin => ?_,
            fun hfin => List.mem_append_left _ (hold.returned hfin)⟩
          intro hmem
          rcases List.mem_append.mp hmem with hmem | hmem
          · exact hold.unreturned hfin hmem
          · cases List.mem_singleton.mp hmem
      | schedule =>
          rw [State.toTask_schedule hctx]
          refine hdispatch.goes (.setTask _ next ⟨rfl, rfl, rfl, rfl, rfl, rfl⟩ ?_ ?_)
          · exact ⟨(by rintro ⟨⟩), fun h => by cases hctx.symm.trans h⟩
          · exact Call.resumed_cases _

theorem Records.toCaller (hr : Records s) : Records s.toCaller := by
  unfold State.toCaller
  split
  · refine hr.goes ⟨⟨rfl, rfl, rfl, fun _ => .refl _, fun _ => Iff.rfl⟩, ?_⟩
    rintro (_ | k)
    · exact Call.resumed_cases _
    · exact .inl rfl
  · exact hr.goes (.plain rfl rfl rfl rfl rfl)

theorem Records.schedule (hr : Records s)
    (hctx : ∀ k, s.current = some k → (s.tasks k).ctx ≠ some .trampoline) :
    Records (s.schedule maxTasks) := by
  unfold State.schedule
  split
  case h_1 hcur =>
    split
    case h_1 =>
      rw [State.back_of_none hcur]
      refine hr.goes ⟨⟨rfl, rfl, rfl, fun _ => .refl _, fun _ => Iff.rfl⟩, ?_⟩
      rintro (_ | k)
      · exact Call.resumed_cases _
      · exact .inl rfl
    case h_2 next hfind =>
      exact Records.toTask (s := { s with schedCtx := true }) (hr.goes (.plain rfl rfl rfl rfl rfl))
        (Task.live_of_ready (State.findNextReadyTask_some hfind).2)
  case h_2 previous hcur =>
    have hsave : Records (s.save previous) :=
      hr.goes (.setTask s previous ⟨rfl, rfl, rfl, rfl, rfl, rfl⟩
        ⟨(by rintro ⟨⟩), fun h => absurd h (hctx previous hcur)⟩ (.inl rfl))
    split
    case h_1 next hfind =>
      obtain ⟨hne, hready⟩ := State.findNextReadyTask_some hfind
      refine hsave.toTask ?_
      rw [State.save, State.tasks_setTask_ne s _ (fun heq => hne (congrArg some heq))]
      exact Task.live_of_ready hready
    case h_2 =>
      split
      · exact hsave.toCaller
      · have hback : s.back = s.setTask previous { s.tasks previous with
            waiting := !(s.tasks previous).call.waits && (s.tasks previous).waiting,
            call := (s.tasks previous).call.resumed } := by
          unfold State.back
          simp only [hcur]
        rw [hback]
        exact hr.goes (.setTask s previous ⟨rfl, rfl, rfl, rfl, rfl, rfl⟩ Iff.rfl
          (Call.resumed_cases _))

end MicrOsal.BareMetalTasks
