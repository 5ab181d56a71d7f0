import MicrOsal.BareMetalTasks.Records

/-!
# MicrOsal.BareMetalTasks.Handles

What is done with slots and handles keeps the records (`Records.step`).

A handle leads to the task that it was filled with, as long as nobody joins or detaches a handle
that another party is joining: that party has the slot in a variable of its own.
-/

namespace MicrOsal.BareMetalTasks

variable {w maxTasks j k h slot next : Nat} {s s' : State} {t : Task} {call : Call}
variable {a : Action w} {e : Event}

/-! ### Steps -/

theorem State.callOf_current (s : State) : s.callOf s.current = s.call := by
  rw [State.call]
  cases s.current <;> rfl

theorem State.callOf_setCall (s : State) (call : Call) (p : Option Nat) :
    (s.setCall call).callOf p = if p = s.current then call else s.callOf p := by
  cases hcur : s.current with
  | none =>
      rw [State.setCall_of_none hcur]
      cases p with
      | none => rfl
      | some k => rfl
  | some k =>
      rw [State.setCall_of_current hcur]
      exact State.callOf_setTask s k _ p

/-- The running party enters a loop, or leaves it. -/
theorem Keeps.setCall (s : State) (call : Call) : Keeps s (s.setCall call) := by
  cases hcur : s.current with
  | none =>
      rw [State.setCall_of_none hcur]
      exact ⟨rfl, rfl, rfl, fun _ => .refl _, fun _ => Iff.rfl⟩
  | some k =>
      rw [State.setCall_of_current hcur]
      exact .setTask s k ⟨rfl, rfl, rfl, rfl, rfl, rfl⟩ Iff.rfl

/-- Nobody but the running party is in a join of handle `h`. -/
def State.Unjoined (s : State) (h : Nat) : Prop :=
  ∀ p, p ≠ s.current → (s.callOf p).joins h = false

theorem Records.setCall (hr : Records s) (hcall : ∀ h slot forever deadline,
    call = .join h slot forever deadline → s.handles h = some slot ∧ s.Unjoined h)
    (hbegun : ∀ d, call.deadline = some d → d.begins ∈ s.log) : Records (s.setCall call) := by
  refine hr.keeps (.setCall s call) (fun p h slot forever deadline hp => ?_)
    (fun p q h hp hq => ?_) (fun p d hp => ?_)
  · rw [State.callOf_setCall] at hp
    split at hp
    · exact (hcall h slot forever deadline hp).1
    · exact hr.joins p h slot forever deadline hp
  · rw [State.callOf_setCall] at hp hq
    split at hp <;> split at hq
    case isTrue.isTrue hpc hqc => exact hpc.trans hqc.symm
    case isTrue.isFalse hpc hqc =>
      obtain ⟨_, _, _, hjoin⟩ := Call.joins_iff.mp hp
      exact absurd (((hcall h _ _ _ hjoin).2 q hqc).symm.trans hq) (by rintro ⟨⟩)
    case isFalse.isTrue hpc hqc =>
      obtain ⟨_, _, _, hjoin⟩ := Call.joins_iff.mp hq
      exact absurd (((hcall h _ _ _ hjoin).2 p hpc).symm.trans hp) (by rintro ⟨⟩)
    case isFalse.isFalse => exact hr.alone p q h hp hq
  · rw [State.callOf_setCall] at hp
    split at hp
    · exact hbegun d hp
    · exact hr.begun p d hp

theorem Records.leaves (hr : Records s) : Records (s.setCall .own) :=
  hr.setCall (by rintro h slot forever deadline ⟨⟩) (by rintro d ⟨⟩)

theorem Records.yield (hr : Records s)
    (hctx : ∀ k, s.current = some k → (s.tasks k).ctx ≠ some .trampoline)
    (hcall : ∀ h slot forever deadline,
      call = .join h slot forever deadline → s.handles h = some slot ∧ s.Unjoined h)
    (hbegun : ∀ d, call.deadline = some d → d.begins ∈ s.log) :
    Records (s.yield maxTasks call) := by
  have hset := hr.setCall hcall hbegun
  cases hcur : s.current with
  | none =>
      rw [State.yield_of_none hcur]
      rw [State.setCall_of_none hcur] at hset
      exact Records.schedule (hset.goes (.plain rfl rfl rfl rfl rfl))
        (fun k hk => by cases hcur.symm.trans hk)
  | some k =>
      rw [State.yield_of_current hcur]
      rw [State.setCall_of_current hcur] at hset
      refine Records.schedule (hset.goes (.plain rfl rfl rfl rfl rfl)) (fun j hj => ?_)
      obtain rfl := Option.some.inj (hcur.symm.trans hj)
      show ((s.setTask k { s.tasks k with call := call }).tasks k).ctx ≠ some .trampoline
      rw [State.tasks_setTask_self]
      exact hctx k hcur

theorem Records.waitYield (hr : Records s)
    (hctx : ∀ k, s.current = some k → (s.tasks k).ctx ≠ some .trampoline)
    (hcall : call.waits = true) (hbegun : ∀ d, call.deadline = some d → d.begins ∈ s.log) :
    Records (s.waitYield maxTasks call) := by
  have hnot : ∀ h slot forever deadline, call ≠ .join h slot forever deadline := by
    rintro h slot forever deadline rfl
    cases hcall
  unfold State.waitYield
  split
  case h_1 => exact hr.yield hctx (fun h _ _ _ heq => absurd heq (hnot h _ _ _)) hbegun
  case h_2 k hcur =>
    refine Records.yield (hr.goes (.setTask s k ⟨rfl, rfl, rfl, rfl, rfl, rfl⟩ Iff.rfl
      (.inl rfl))) (fun j hj => ?_) (fun h _ _ _ heq => absurd heq (hnot h _ _ _)) hbegun
    obtain rfl := Option.some.inj (hcur.symm.trans hj)
    rw [State.tasks_setTask_self]
    exact hctx k hcur

theorem Records.finish (hr : Records s) (hc : Control maxTasks s) (hcur : s.current = some k) :
    Records (s.finish maxTasks k) := by
  have hruns := (hc.runs k hcur).1
  have hvalid := Task.valid_of_live hruns.live
  have hold := hr.tasks k hvalid
  have hcalled := hold.called (by rw [hruns.ctx]; rintro ⟨⟩)
  have hunfinished : (s.tasks k).finished = false := by
    have hlive := hruns.live
    simp only [Task.live, Bool.and_eq_true, Bool.not_eq_true'] at hlive
    exact hlive.2
  have hchange : Records ((s.setTask k { s.tasks k with
      finished := true, waiting := false,
      valid := (s.tasks k).valid && !(s.tasks k).detached }).record
      (.returned (s.tasks k).owner)) := by
    refine hr.change hvalid ⟨⟨_, _, hcalled⟩, hold.unreturned hunfinished⟩ rfl
      (by rintro h d n ⟨⟩) (fun _ => ?_) rfl rfl (fun hd => ?_) rfl
    · refine ⟨List.mem_append_left _ hold.created, fun hctx => ?_,
        fun _ => List.mem_append_left _ hcalled, by rintro ⟨⟩,
        fun _ => List.mem_append_right _ (List.mem_singleton_self _)⟩
      cases hruns.ctx.symm.trans hctx
    · show ((s.tasks k).valid && !(s.tasks k).detached) = true
      rw [hvalid, hd]
      rfl
  have hleft : Records (State.setTask
      { s.record (.returned (s.tasks k).owner) with turns := s.turns + 1 } k
      { s.tasks k with
        finished := true, waiting := false,
        valid := (s.tasks k).valid && !(s.tasks k).detached }) :=
    hchange.goes (.plain rfl rfl rfl rfl rfl)
  unfold State.finish
  simp only
  split
  case h_1 next hfind =>
    exact hleft.toTask (Task.live_of_ready (State.findNextReadyTask_some hfind).2)
  case h_2 =>
    split
    · exact hleft.toCaller
    · exact hleft.goes (.plain rfl rfl rfl rfl rfl)

/-- A handle that has not been filled is not in the record. -/
theorem Records.notMem_log (hr : Records s) (h : e.handle = some s.filled) : e ∉ s.log :=
  fun hmem => absurd (hr.known e hmem s.filled h) (Nat.lt_irrefl _)

theorem Records.create (hr : Records s) (hc : Control maxTasks s) (entry arg : Nat) :
    Records (s.create maxTasks entry arg) := by
  unfold State.create
  split
  case h_1 => exact hr
  case h_2 k hfind =>
    have hfree : (s.tasks k).valid = false := by simpa using List.find?_some hfind
    have hother : ∀ j, (s.tasks j).valid = true → j ≠ k := by
      rintro j hj rfl
      cases hfree.symm.trans hj
    have hidle : (s.tasks k).call = .own := by
      refine ((hc.rests k (fun hcur => ?_)).gone ?_).2
      · cases hfree.symm.trans (Task.valid_of_live (hc.runs k hcur).1.live)
      · rw [Task.live, hfree, Bool.false_and]
    simp only
    generalize ht : (⟨true, false, false, false, entry, arg, some .trampoline, .own, s.filled⟩ :
      Task) = t
    generalize hs' : ({ (s.setTask k t).record (.created s.filled entry arg) with
      handles := Function.update s.handles s.filled (some k), filled := s.filled + 1 } : State) = s'
    have hp : Replaced s s' k t :=
      .of_eq (by rw [← ht, hidle]) (by rw [← hs']; rfl) (by rw [← hs']; rfl)
    have hlog : s'.log = s.log ++ [.created s.filled entry arg] := by rw [← hs']; rfl
    have hfilled : s'.filled = s.filled + 1 := by rw [← hs']
    have hnew : s'.handles s.filled = some k := by
      rw [← hs']
      exact Function.update_self ..
    have hhandles : ∀ h, h ≠ s.filled → s'.handles h = s.handles h := by
      intro h hne
      rw [← hs']
      exact Function.update_of_ne hne ..
    have hfresh : ∀ e, e.handle = some s.filled → e ≠ .created s.filled entry arg →
        e ∉ s.log ++ [.created s.filled entry arg] := by
      intro e he hne hmem
      rcases List.mem_append.mp hmem with hmem | hmem
      · exact hr.notMem_log he hmem
      · exact hne (List.mem_singleton.mp hmem)
    refine ⟨fun j hj => ?_, fun j hj => ?_, fun j hj hd => ?_, fun i j hi hj heq => ?_,
      fun h j hj => ?_, fun h j hj deadline now => ?_, fun h hh => ?_, fun e he h hh => ?_,
      fun p h slot forever deadline hjoin => ?_, fun p q h hpj hqj => ?_, fun p d hpd => ?_, ?_⟩
    · rw [hlog]
      by_cases hjk : j = k
      · rw [hjk, hp.self, ← ht]
        exact ⟨List.mem_append_right _ (List.mem_singleton_self _),
          fun _ _ _ => hfresh _ rfl (by rintro ⟨⟩), fun hne => absurd rfl hne,
          fun _ => hfresh _ rfl (by rintro ⟨⟩), by rintro ⟨⟩⟩
      · rw [hp.others j hjk] at hj ⊢
        refine (hr.tasks j hj).append (fun e he heq => ?_)
        rw [List.mem_singleton.mp he] at heq
        exact absurd (Option.some.inj heq) (hr.owned j hj).ne'
    · rw [hfilled]
      by_cases hjk : j = k
      · rw [hjk, hp.self, ← ht]
        exact Nat.lt_succ_self _
      · rw [hp.others j hjk] at hj ⊢
        exact Nat.lt_succ_of_lt (hr.owned j hj)
    · by_cases hjk : j = k
      · rw [hjk, hp.self, ← ht]
        exact hnew
      · rw [hp.others j hjk] at hj hd ⊢
        rw [hhandles _ (hr.owned j hj).ne]
        exact hr.held j hj hd
    · by_cases hik : i = k <;> by_cases hjk : j = k
      · rw [hik, hjk]
      · rw [hik, hp.self, hp.others j hjk, ← ht] at heq
        rw [hp.others j hjk] at hj
        exact absurd heq (hr.owned j hj).ne'
      · rw [hjk, hp.self, hp.others i hik, ← ht] at heq
        rw [hp.others i hik] at hi
        exact absurd heq (hr.owned i hi).ne
      · rw [hp.others i hik] at hi heq
        rw [hp.others j hjk] at hj heq
        exact hr.owners i j hi hj heq
    · by_cases hh : h = s.filled
      · rw [hh, hnew] at hj
        obtain rfl := Option.some.inj hj
        rw [hp.self, ← ht, hh]
        exact ⟨rfl, rfl, rfl⟩
      · rw [hhandles h hh] at hj
        rw [hp.others j (hother j (hr.handles h j hj).1)]
        exact hr.handles h j hj
    · rw [hlog]
      by_cases hh : h = s.filled
      · exact hfresh _ (by rw [hh]; rfl) (by rintro ⟨⟩)
      · rw [hhandles h hh] at hj
        refine notMem_append (hr.unjoined h j hj deadline now) (fun e he heq => ?_)
        rw [List.mem_singleton.mp he] at heq
        exact hh (Option.some.inj heq).symm
    · rw [hfilled] at hh
      rw [hhandles h (by omega)]
      exact hr.unused h (by omega)
    · rw [hlog] at he
      rw [hfilled]
      rcases List.mem_append.mp he with he | he
      · exact Nat.lt_succ_of_lt (hr.known e he h hh)
      · rw [List.mem_singleton.mp he] at hh
        obtain rfl := Option.some.inj hh
        exact Nat.lt_succ_self _
    · rw [hp.calls] at hjoin
      have hold := hr.joins p h slot forever deadline hjoin
      rw [hhandles h ?_]
      · exact hold
      · rintro rfl
        cases (hr.unused s.filled le_rfl).symm.trans hold
    · rw [hp.calls] at hpj hqj
      exact hr.alone p q h hpj hqj
    · rw [hp.calls] at hpd
      rw [hlog]
      exact List.mem_append_left _ (hr.begun p d hpd)
    · rw [hlog]
      exact hr.order.concat (fun entry' arg' => hr.notMem_log rfl)

theorem Records.detach (hr : Records s) (hunjoined : ∀ p, (s.callOf p).joins h = false) :
    Records (s.detach h) := by
  unfold State.detach
  split
  case h_1 => exact hr
  case h_2 k hh =>
    obtain ⟨hvalid, rfl, -⟩ := hr.handles h k hh
    have hold := hr.tasks k hvalid
    refine hr.replace [] (t := { s.tasks k with detached := true }) (.of_eq rfl rfl rfl)
      (.givenUp (Function.update_self ..) (fun _ => rfl) hunjoined) hvalid rfl rfl
      (List.append_nil _).symm (by rintro e ⟨⟩) hr.order (fun _ => ?_)
      (fun h hne => Function.update_of_ne hne ..)
    exact ⟨hold.created, hold.uncalled, hold.called, hold.unreturned, hold.returned⟩

theorem Records.joinLoop (hr : Records s)
    (hctx : ∀ k, s.current = some k → (s.tasks k).ctx ≠ some .trampoline)
    (hh : s.handles h = some slot) (hunjoined : s.Unjoined h) (forever : Bool)
    {deadline : Deadline} (hbegun : deadline.begins ∈ s.log) :
    Records (s.joinLoop maxTasks h slot forever deadline) := by
  unfold State.joinLoop
  split
  case isTrue hfinished =>
    have hset := hr.leaves
    have hh' : (s.setCall .own).handles h = some slot := by rwa [(Keeps.setCall s .own).handles]
    obtain ⟨hvalid, rfl, -⟩ := hset.handles h slot hh'
    have hfree : ∀ p, ((s.setCall .own).callOf p).joins ((s.setCall .own).tasks slot).owner =
        false := by
      intro p
      rw [State.callOf_setCall]
      split
      · rfl
      · exact hunjoined p ‹_›
    have hreturned := (hset.tasks slot hvalid).returned
      ((State.finished_setCall s .own slot).trans hfinished)
    exact hset.replace [.joined ((s.setCall .own).tasks slot).owner .ok deadline s.now]
      (t := { (s.setCall .own).tasks slot with valid := false }) (.of_eq rfl rfl rfl)
      (.givenUp (Function.update_self ..) (by rintro ⟨⟩) hfree) hvalid rfl rfl rfl
      (fun e he => by rw [List.mem_singleton.mp he]; rfl)
      (hset.order.concat ⟨fun _ => ⟨hreturned, hset.unjoined _ slot hh'⟩, by rintro ⟨⟩⟩)
      (by rintro ⟨⟩) (fun h hne => Function.update_of_ne hne ..)
  case isFalse =>
    refine hr.yield hctx (fun h' slot' forever' deadline' heq => ?_) (fun d hd => ?_)
    · obtain ⟨rfl, rfl, -, -⟩ := Call.join.inj heq
      exact ⟨hh, hunjoined⟩
    · obtain rfl := Option.some.inj hd
      exact hbegun

theorem Records.sleepLoop (hr : Records s)
    (hctx : ∀ k, s.current = some k → (s.tasks k).ctx ≠ some .trampoline) {wake : Deadline}
    (hbegun : wake.begins ∈ s.log) : Records (s.sleepLoop maxTasks wake) := by
  unfold State.sleepLoop
  split
  case isTrue =>
    refine hr.waitYield hctx rfl (fun d hd => ?_)
    obtain rfl := Option.some.inj hd
    exact hbegun
  case isFalse hwake =>
    rw [← (Keeps.setCall s .own).log] at hbegun
    exact hr.leaves.note ⟨hbegun, wake.isOver (BitVec.not_lt.mp hwake)⟩ rfl

/-! ### Runs -/

/-- A party is in a join of handle `h`. -/
def State.joining (maxTasks : Nat) (s : State) (h : Nat) : Bool :=
  s.callerCall.joins h || (List.range maxTasks).any (fun k => (s.tasks k).call.joins h)

/-- Nobody joins or detaches a handle while another party is in a join of it. -/
def State.orderly (maxTasks : Nat) (s : State) : Action w → Bool
  | .join h _ => !s.joining maxTasks h
  | .detach h => !s.joining maxTasks h
  | _ => true

theorem Control.not_joining (hc : Control maxTasks s) (h : s.joining maxTasks slot = false)
    (p : Option Nat) : (s.callOf p).joins slot = false := by
  rw [State.joining, Bool.or_eq_false_iff, List.any_eq_false] at h
  cases p with
  | none => exact h.1
  | some k =>
      cases hvalid : (s.tasks k).valid with
      | true =>
          have hnot := h.2 k (List.mem_range.mpr (hc.bounded k hvalid))
          exact Bool.eq_false_iff.mpr hnot
      | false =>
          have hidle : s.current ≠ some k := by
            rintro hcur
            cases hvalid.symm.trans (Task.valid_of_live (hc.runs k hcur).1.live)
          rw [State.callOf, ((hc.rests k hidle).gone (by rw [Task.live, hvalid]; rfl)).2]
          rfl

theorem Control.ctx (hc : Control maxTasks s) (k : Nat) (hcur : s.current = some k) :
    (s.tasks k).ctx ≠ some .trampoline := by
  rw [(hc.runs k hcur).1.ctx]
  rintro ⟨⟩

theorem Records.advance (hr : Records s) (hc : Control maxTasks s)
    (hs : s.advance maxTasks = some s') : Records s' := by
  unfold State.advance at hs
  split at hs
  case h_1 => cases hs
  case h_2 => cases hs
  case h_3 h slot forever deadline hcall =>
    have hcur := s.callOf_current.trans hcall
    have hbegun := hr.begun _ deadline (by rw [hcur]; rfl)
    split at hs <;> cases hs
    case isTrue hexpired =>
      rw [← (Keeps.setCall s .own).log] at hbegun
      exact hr.leaves.note ⟨by rintro ⟨⟩, fun _ => ⟨hbegun, deadline.isOver hexpired.2⟩⟩ rfl
    case isFalse =>
      refine hr.joinLoop hc.ctx (hr.joins _ h slot forever deadline hcur) (fun p hp => ?_) _ hbegun
      by_contra hjoins
      exact hp (hr.alone p s.current h (Bool.of_not_eq_false hjoins)
        (Call.joins_iff.mpr ⟨_, _, _, hcur⟩))
  case h_4 wake hcall =>
    cases hs
    have hcur := s.callOf_current.trans hcall
    exact hr.sleepLoop hc.ctx (hr.begun _ wake (by rw [hcur]; rfl))

/-- The record of the time at which a call begins. -/
theorem Records.begins (hr : Records s) (ticks : Nat) :
    Records (s.record (.begins ticks s.now)) ∧
      (Deadline.after s.now ticks).begins ∈ (s.record (.begins ticks s.now)).log :=
  ⟨hr.note trivial rfl, List.mem_append_right _ (List.mem_singleton_self _)⟩

theorem Records.act (hr : Records s) (hc : Control maxTasks s)
    (hok : s.orderly maxTasks a = true) (hs : s.act maxTasks a = some s') : Records s' := by
  cases a with
  | create entry arg => exact Option.some.inj hs ▸ hr.create hc entry arg
  | yield =>
      cases hs
      exact hr.yield hc.ctx (by rintro h slot forever deadline ⟨⟩) (by rintro d ⟨⟩)
  | waitYield => exact Option.some.inj hs ▸ hr.waitYield hc.ctx rfl (by rintro d ⟨⟩)
  | join h timeout =>
      obtain rfl := Option.some.inj hs
      have hfree := hc.not_joining (Bool.eq_false_of_not_eq_true' hok)
      unfold State.join
      split
      · exact hr.note ⟨by rintro ⟨⟩, by rintro ⟨⟩⟩ rfl
      · obtain ⟨hnoted, hbegun⟩ := hr.begins timeout.toNat
        exact hnoted.joinLoop hc.ctx ‹_› (fun p _ => hfree p) _ hbegun
  | sleep ms =>
      cases hs
      obtain ⟨hnoted, hbegun⟩ := hr.begins ms
      exact hnoted.sleepLoop hc.ctx hbegun
  | detach h =>
      exact Option.some.inj hs ▸ hr.detach (hc.not_joining (Bool.eq_false_of_not_eq_true' hok))
  | finish =>
      obtain ⟨k, hcur, rfl⟩ := Option.map_eq_some_iff.mp hs
      exact hr.finish hc hcur
  | advance => cases hs
  | tick => cases hs

theorem Records.step (hr : Records s) (hc : Control maxTasks s)
    (hok : s.orderly maxTasks a = true) (hs : s.step maxTasks a = some s') : Records s' := by
  rcases State.step_cases hs with ⟨-, rfl⟩ | ⟨-, hadv⟩ | ⟨-, hact⟩
  · exact hr.goes (.plain rfl rfl rfl rfl rfl)
  · exact hr.advance hc hadv
  · exact hr.act hc hok hact

end MicrOsal.BareMetalTasks
