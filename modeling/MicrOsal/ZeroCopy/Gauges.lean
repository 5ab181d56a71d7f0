import MicrOsal.ZeroCopy.Steps

/-!
# MicrOsal.ZeroCopy.Gauges

The backlog gauges of a `zero_copy_signal`: `snapshot`, `diagnostics` and
`update_high_water_`.

A `receive_loan` takes its index out of the queue before it counts itself out of
`backlog`, and a publication may refill the queue in between. So the backlog of a
slot lies between the length of its queue and the capacity of the queue plus the
receives that are in progress (`SlotGauge`), and the sum over the slots may pass
`MaxSubscribers * PerSubCapacity` by as many receives as are in progress.
-/

namespace MicrOsal

/-! ### Reading the gauges -/

/-- `std::numeric_limits<std::uint32_t>::max()`. -/
def uint32Max : Nat := 2 ^ 32 - 1

/-- `bus_diagnostic_gauge`. -/
def busDiagnosticGauge (value : Nat) : Nat := if value > uint32Max then uint32Max else value

/-- `diagnostic_snapshot`. -/
structure DiagnosticSnapshot where
  capacity : Nat
  inUse : Nat
  highWater : Nat
  attempts : Nat
  successes : Nat
  failures : Nat
  contention : Nat
  drops : Nat
  backlog : Nat
  deriving DecidableEq, Repr

/-- `zero_copy_signal::statistics`. -/
structure ZcStatistics where
  drops : Nat
  backlog : Nat
  highWater : Nat
  receivers : Nat
  deriving DecidableEq, Repr

namespace ZeroCopySignal

/-- `snapshot`. -/
def snapshot (tp : ZeroCopySignal) (pool : MessagePool) : ZcStatistics :=
  if tp.valid pool then
    ⟨tp.drops, tally (·.backlog) tp.slots, tp.highWater, tally (·.receivers) tp.slots⟩
  else ⟨0, 0, 0, 0⟩

/-- `diagnostics`; `operations` is `operations_.snapshot()`, sampled separately. -/
def diagnostics (tp : ZeroCopySignal) (pool : MessagePool) (operations : DiagnosticSnapshot) :
    DiagnosticSnapshot :=
  let gauges := tp.snapshot pool
  { operations with
    capacity := (tp.slots.length * tp.perSubCapacity) % 2 ^ 32
    inUse := busDiagnosticGauge gauges.backlog
    backlog := busDiagnosticGauge gauges.backlog
    highWater := busDiagnosticGauge gauges.highWater }

/-- `MaxSubscribers * PerSubCapacity`. -/
def queueSlots (tp : ZeroCopySignal) : Nat := tp.slots.length * tp.perSubCapacity

/-- Indices in the queues of the topic. -/
def queuedTotal (tp : ZeroCopySignal) : Nat := tally (·.queue.length) tp.slots

end ZeroCopySignal

/-- A `receive_loan` on topic `t` that has taken an index and has not counted itself
out. -/
def ZcThread.inProgress (t : Nat) : ZcThread → Bool
  | .settle t' _ _ (some _) => t' = t
  | _ => false

/-- The receives in progress on topic `t`. -/
def ZcState.inProgress (s : ZcState) (t : Nat) : Nat :=
  s.threads.countP (ZcThread.inProgress t)

/-- Step `a` runs `update_high_water_` of topic `t`: a publish has been through all the
slots. -/
def ZcState.looksAtBacklog (s : ZcState) (t : Nat) : ZcAction → Bool
  | .advance n _ => match s.threads[n]? with
      | some (.publish c k) => c.topic == t && (s.topics[t]?.bind (·.slots[k]?)).isNone
      | _ => false
  | _ => false

/-! ### The backlog of a slot -/

/-- The backlog of a slot with `inProgress` receives in progress. -/
structure SlotGauge (perSubCapacity : Nat) (sl : SubscriberSlot) (inProgress : Nat) : Prop where
  lower : sl.queue.length ≤ sl.backlog
  upper : sl.backlog ≤ perSubCapacity + inProgress

/-- The backlogs of all slots. -/
def ZcGauge (s : ZcState) : Prop :=
  ∀ (t k : Nat) tp sl, s.topics[t]? = some tp → tp.slots[k]? = some sl →
    SlotGauge tp.perSubCapacity sl (loads s.threads t k .unsettled)

section Steps

variable {capacity n t k : Nat} {s s' : ZcState} {a : ZcAction} {evs : List ZcEvent}
variable {th th' : ZcThread} {tp tp' : ZeroCopySignal} {sl sl' : SubscriberSlot} {looks : Bool}

/-- A step that concerns neither slots nor receives in progress. -/
theorem ZcGauge.same (hg : ZcGauge s) (htopics : s'.topics = s.topics)
    (hths : ∀ t k, loads s'.threads t k .unsettled = loads s.threads t k .unsettled) :
    ZcGauge s' := by
  intro t k tp sl htp hsl
  rw [hths]
  rw [htopics] at htp
  exact hg t k tp sl htp hsl

/-- A thread changes its place, no topic changes. -/
theorem ZcGauge.thread (hg : ZcGauge s) (hth : s.threads[n]? = some th)
    (htopics : s'.topics = s.topics) (hths : s'.threads = s.threads.set n th')
    (hload : ∀ t k, th'.load t k .unsettled = th.load t k .unsettled) : ZcGauge s' :=
  hg.same htopics (fun t k => by rw [hths]; exact tally_set_eq hth (hload t k))

/-- A thread changes its place, and a topic something else than its slots. -/
theorem ZcGauge.topic (hg : ZcGauge s) (hth : s.threads[n]? = some th)
    (htp : s.topics[t]? = some tp) (htopics : s'.topics = s.topics.set t tp')
    (hths : s'.threads = s.threads.set n th')
    (hload : ∀ t k, th'.load t k .unsettled = th.load t k .unsettled)
    (hslots : tp'.slots = tp.slots) (hcap : tp'.perSubCapacity = tp.perSubCapacity) :
    ZcGauge s' := by
  intro t' k' q sl hq hsl
  have hloads : loads s'.threads t' k' .unsettled = loads s.threads t' k' .unsettled := by
    rw [hths]
    exact tally_set_eq hth (hload t' k')
  rw [hloads]
  rw [htopics] at hq
  rcases getElem?_set_cases hq with ⟨rfl, rfl⟩ | ⟨-, hq⟩
  · rw [hslots] at hsl
    rw [hcap]
    exact hg t' k' tp sl htp hsl
  · exact hg t' k' q sl hq hsl

/-- A thread changes its place and a slot. -/
theorem ZcGauge.slot (hg : ZcGauge s) (hth : s.threads[n]? = some th)
    (htp : s.topics[t]? = some tp) (htopics : s'.topics = s.topics.set t tp')
    (hths : s'.threads = s.threads.set n th')
    (hload : ∀ t' k', t' ≠ t ∨ k' ≠ k →
      th'.load t' k' .unsettled = th.load t' k' .unsettled)
    (hslots : tp'.slots = tp.slots.set k sl') (hcap : tp'.perSubCapacity = tp.perSubCapacity)
    (hslot : ∀ work, work + th.load t k .unsettled =
      loads s.threads t k .unsettled + th'.load t k .unsettled →
      SlotGauge tp.perSubCapacity sl' work) :
    ZcGauge s' := by
  have hloads : ∀ {t' k'}, t' ≠ t ∨ k' ≠ k →
      loads s'.threads t' k' .unsettled = loads s.threads t' k' .unsettled := by
    intro t' k' hne
    rw [hths]
    exact tally_set_eq hth (hload t' k' hne)
  intro t' k' q sl hq hsl
  rw [htopics] at hq
  rcases getElem?_set_cases hq with ⟨rfl, rfl⟩ | ⟨ht, hq⟩
  · rw [hslots] at hsl
    rw [hcap]
    rcases getElem?_set_cases hsl with ⟨rfl, rfl⟩ | ⟨hk, hsl⟩
    · refine hslot _ ?_
      rw [hths]
      exact loads_set hth .unsettled
    · rw [hloads (.inr hk)]
      exact hg t' k' tp sl htp hsl
  · rw [hloads (.inl ht)]
    exact hg t' k' q sl hq hsl

/-- The counters of a slot without receives in progress that stay as they are. -/
theorem SlotGauge.congr {cap work work' : Nat} (h : SlotGauge cap sl work)
    (hqueue : sl'.queue = sl.queue) (hbacklog : sl'.backlog = sl.backlog) (hwork : work' = work) :
    SlotGauge cap sl' work' := by
  rw [hwork]
  exact ⟨by rw [hqueue, hbacklog]; exact h.lower, by rw [hbacklog]; exact h.upper⟩

/-- Outside `drain_` the backlog of a subscriber's slot is exact. -/
theorem ZcInv.backlog_eq (hi : ZcInv capacity s) (htp : s.topics[t]? = some tp)
    (hsl : tp.slots[k]? = some sl) (halive : tp.alive = true)
    (hused : sl.id ≠ invalidSubscriberId ∨ sl.receivers ≠ 0) :
    sl.backlog = sl.queue.length + loads s.threads t k .unsettled := by
  refine ((hi.topics t tp htp).slot k sl hsl).backlog.resolve_right ?_
  intro hpos
  obtain ⟨hid, hrec⟩ := (hi.threads.draining htp halive hpos).2 sl hsl
  exact hused.elim (fun h => h hid) (fun h => h hrec)

/-- Who has an index to count out is counted as receiving. -/
theorem receivers_ne_zero (hi : ZcInv capacity s) (htp : s.topics[t]? = some tp)
    (hsl : tp.slots[k]? = some sl) (hpos : 0 < loads s.threads t k .unsettled) :
    sl.receivers ≠ 0 := by
  have hle : loads s.threads t k .unsettled ≤ loads s.threads t k .receiving :=
    unsettled_le_receiving
  rw [((hi.topics t tp htp).slot k sl hsl).receivers]
  omega

theorem ZcGauge.step (hi : ZcInv capacity s) (hg : ZcGauge s) (hs : ZcStep s a evs s') :
    ZcGauge s' := by
  cases hs with
  | spawn => exact hg.same rfl (fun t k => congrFun (loads_append_idle _) _)
  | topic =>
      intro t k tp sl htp hsl
      rcases getElem?_concat_cases htp with htp | ⟨-, rfl⟩
      · exact hg t k tp sl htp hsl
      · simp only [ZeroCopySignal.create, List.getElem?_map, Option.map_eq_some_iff] at hsl
        obtain ⟨valid, -, rfl⟩ := hsl
        exact ⟨le_refl _, Nat.zero_le _⟩
  | newLoan => exact hg.same rfl (fun _ _ => rfl)
  | lend => exact hg.same rfl (fun _ _ => rfl)
  | stay => exact hg
  | release => exact hg.same rfl (fun _ _ => rfl)
  | move => exact hg.same rfl (fun _ _ => rfl)
  | moveAssign => exact hg.same rfl (fun _ _ => rfl)
  | copy => exact hg.same rfl (fun _ _ => rfl)
  | returns hth => exact hg.thread hth rfl rfl (by simp)
  | assignEmpty hth => exact hg.thread hth rfl rfl (by simp)
  | assignCopy hth => exact hg.thread hth rfl rfl (by simp)
  | assigned hth => exact hg.thread hth rfl rfl (by simp)
  | subscribe hth htp _ _ hsl =>
      refine hg.slot hth htp rfl rfl (by simp) rfl rfl ?_
      intro work hwork
      exact (hg _ _ _ _ htp hsl).congr rfl rfl (by simpa using hwork)
  | unsubscribe hth htp _ _ hsl =>
      refine hg.slot hth htp rfl rfl ?_ rfl rfl ?_
      · intro t' k' hne
        rw [ZcThread.load_drain_of_ne hne, ZcThread.load_idle]
      · intro work hwork
        rw [ZcThread.load_drain_self] at hwork
        exact (hg _ _ _ _ htp hsl).congr rfl rfl (by simpa using hwork)
  | publish hth htp => exact hg.topic hth htp rfl rfl (by simp) rfl rfl
  | enter hth htp _ _ hsl =>
      refine hg.slot hth htp rfl rfl ?_ rfl rfl ?_
      · intro t' k' hne
        rw [ZcThread.load_receive_of_ne hne, ZcThread.load_idle]
      · intro work hwork
        rw [ZcThread.load_receive_self] at hwork
        exact (hg _ _ _ _ htp hsl).congr rfl rfl (by simpa using hwork)
  | destroy hth htp =>
      refine hg.topic hth htp rfl rfl ?_ rfl rfl
      intro t' k'
      rfl
  | destroyed hth =>
      refine hg.thread hth rfl rfl ?_
      intro t' k'
      rfl
  | destroySlot hth => exact hg.thread hth rfl rfl (by simp)
  | @drainSkip n t k caller hth =>
      refine hg.thread hth rfl rfl ?_
      intro t' k'
      cases caller <;> rfl
  | @drainPop n t k index caller tp sl rest hth htp hsl hq =>
      refine hg.slot hth htp rfl rfl (by simp) rfl rfl ?_
      intro work hwork
      have hold := hg _ _ _ _ htp hsl
      have hlower := hold.lower
      have hupper := hold.upper
      rw [hq, List.length_cons] at hlower
      simp only [ZcThread.load_drained] at hwork
      exact ⟨by simp only; omega, by simp only; omega⟩
  | @drainEnd n t k caller tp sl hth htp hsl hq =>
      refine hg.slot hth htp rfl rfl ?_ rfl rfl ?_
      · intro t' k' _
        cases caller <;> rfl
      · intro work _
        exact ⟨by simp [hq], Nat.zero_le _⟩
  | drained hth => exact hg.thread hth rfl rfl (by simp)
  | skip hth => exact hg.thread hth rfl rfl (by simp)
  | @looked n k _ c tp hth htp =>
      have hhigh : tp.updateHighWater.slots = tp.slots ∧
          tp.updateHighWater.perSubCapacity = tp.perSubCapacity := by
        rw [ZeroCopySignal.updateHighWater]
        split <;> exact ⟨rfl, rfl⟩
      exact hg.topic hth htp rfl rfl (by simp) hhigh.1 hhigh.2
  | retain hth => exact hg.thread hth rfl rfl (by simp)
  | @accept n k pops c tp sl _ hth htp hsl hroom =>
      obtain ⟨halive, -, hid⟩ := hi.threads.ok hth rfl htp
      have hexact := hi.backlog_eq htp hsl halive (.inl (hid sl hsl))
      refine hg.slot hth htp rfl rfl (by simp) rfl rfl ?_
      intro work hwork
      simp only [ZcThread.load_send, ZcThread.load_publish, Nat.add_zero] at hwork
      refine ⟨?_, ?_⟩
      · simp only [List.length_append, List.length_singleton]
        omega
      · simp only
        omega
  | full hth => exact hg.thread hth rfl rfl (by simp)
  | reject hth htp => exact hg.topic hth htp rfl rfl (by simp) rfl rfl
  | consumed hth => exact hg.thread hth rfl rfl (by simp)
  | kept hth => exact hg.thread hth rfl rfl (by simp)
  | unlock hth htp => exact hg.topic hth htp rfl rfl (by simp) rfl rfl
  | @pop n t k out index tp sl rest hth htp hsl hq =>
      refine hg.slot hth htp rfl rfl ?_ rfl rfl ?_
      · intro t' k' hne
        rw [ZcThread.load_settle_of_ne hne, ZcThread.load_receive_of_ne hne]
      · intro work hwork
        rw [ZcThread.load_receive_self, ZcThread.load_settle_self] at hwork
        have hold := hg _ _ _ _ htp hsl
        have hlower := hold.lower
        have hupper := hold.upper
        rw [hq, List.length_cons] at hlower
        simp only at hwork
        exact ⟨by simp only; omega, by simp only; omega⟩
  | giveUp hth => exact hg.thread hth rfl rfl (by simp)
  | settleNone hth htp hsl =>
      refine hg.slot hth htp rfl rfl ?_ rfl rfl ?_
      · intro t' k' hne
        rw [ZcThread.load_settle_of_ne hne, ZcThread.load_idle]
      · intro work hwork
        rw [ZcThread.load_settle_none, ZcThread.load_receive_self] at hwork
        exact (hg _ _ _ _ htp hsl).congr rfl rfl (by simpa using hwork)
  | @settleSome n t k out index tp sl hth htp hsl =>
      have halive : tp.alive = true := hi.threads.ok hth rfl htp
      have hone : 1 ≤ loads s.threads t k .unsettled := by
        have := le_tally (f := ZcThread.load t k .unsettled) hth
        rwa [ZcThread.load_settle_self] at this
      have hexact := hi.backlog_eq htp hsl halive (.inr (receivers_ne_zero hi htp hsl hone))
      refine hg.slot hth htp rfl rfl ?_ rfl rfl ?_
      · intro t' k' hne
        rw [ZcThread.load_settle_of_ne hne, ZcThread.load_build]
      · intro work hwork
        rw [ZcThread.load_settle_self, ZcThread.load_build] at hwork
        have hupper := (hg _ _ _ _ htp hsl).upper
        simp only at hwork
        have hdecr : sizeDecr sl.backlog = sl.backlog - 1 := sizeDecr_of_pos (by omega)
        refine ⟨?_, ?_⟩
        · simp only [hdecr]
          omega
        · simp only [hdecr]
          omega
  | built hth => exact hg.thread hth rfl rfl (by simp)

theorem ZcGauge.init (capacity : Nat) (poolValid : Bool) :
    ZcGauge (zeroCopyMachine capacity poolValid).init := by
  intro t k tp sl htp
  cases htp

theorem ZcGauge.reachable {poolValid : Bool}
    (hr : (zeroCopyMachine capacity poolValid).Reachable s) : ZcGauge s :=
  Machine.Reachable.invariant (ZcGauge.init capacity poolValid)
    (fun _ _ _ hr hg hs => hg.step (ZcInv.reachable hr) (.of_next hs)) hr

/-! ### The sums over the slots -/

/-- A thread is in progress on one slot at most. -/
theorem tally_unsettled_le (th : ZcThread) (slots : Nat) :
    tally (fun k => th.load t k .unsettled) (List.range slots) ≤
      if th.inProgress t then 1 else 0 := by
  cases th with
  | settle t' k' out got =>
      cases got with
      | none =>
          rw [tally_eq_zero (fun _ _ _ => by simp [ZcThread.load, ZcThread.does])]
          exact Nat.zero_le _
      | some index =>
          by_cases ht : t' = t
          · subst ht
            have hcount : tally (fun k => (ZcThread.settle t' k' out (some index)).load t' k
                .unsettled) (List.range slots) = (List.range slots).count k' := by
              rw [List.count, countP_eq_tally]
              refine congrArg (tally · _) (funext (fun k => ?_))
              by_cases hk : k = k'
              · simp [ZcThread.load, ZcThread.does, hk]
              · simp [ZcThread.load, ZcThread.does, hk, Ne.symm hk]
            rw [hcount, if_pos (by simp [ZcThread.inProgress])]
            exact List.nodup_iff_count_le_one.mp List.nodup_range k'
          · rw [tally_eq_zero (fun _ _ _ => by simp [ZcThread.load, ZcThread.does, ht])]
            exact Nat.zero_le _
  | _ =>
      rw [tally_eq_zero (fun _ _ _ => by simp [ZcThread.load, ZcThread.does])]
      exact Nat.zero_le _

theorem tally_loads_le (ths : List ZcThread) (slots : Nat) :
    tally (fun k => loads ths t k .unsettled) (List.range slots) ≤
      ths.countP (ZcThread.inProgress t) := by
  have hcomm : tally (fun k => loads ths t k .unsettled) (List.range slots) =
      tally (fun th => tally (fun k => th.load t k .unsettled) (List.range slots)) ths :=
    tally_comm (fun k th => ZcThread.load t k .unsettled th) _ _
  rw [hcomm, countP_eq_tally]
  exact tally_le (fun th => tally_unsettled_le th slots)

theorem tally_const (c : Nat) (ks : List Nat) : tally (fun _ => c) ks = ks.length * c := by
  simp [tally]

/-- The backlog of a topic passes its capacity by the receives in progress at most. -/
theorem ZcGauge.backlog_le (hg : ZcGauge s) (htp : s.topics[t]? = some tp) :
    tally (·.backlog) tp.slots ≤ tp.queueSlots + s.inProgress t := by
  calc tally (·.backlog) tp.slots
      ≤ tally (fun k => tp.perSubCapacity + loads s.threads t k .unsettled)
          (List.range tp.slots.length) :=
        tally_le_range (fun k sl hsl => (hg t k tp sl htp hsl).upper)
    _ = tp.queueSlots +
          tally (fun k => loads s.threads t k .unsettled) (List.range tp.slots.length) := by
        rw [tally_add, tally_const, List.length_range, ZeroCopySignal.queueSlots]
    _ ≤ tp.queueSlots + s.inProgress t :=
        Nat.add_le_add_left (tally_loads_le s.threads tp.slots.length) _

theorem ZcGauge.queued_le (hg : ZcGauge s) (htp : s.topics[t]? = some tp) :
    tp.queuedTotal ≤ tally (·.backlog) tp.slots := by
  refine tally_le_of_mem ?_
  intro sl hmem
  obtain ⟨k, hsl⟩ := List.mem_iff_getElem?.mp hmem
  exact (hg t k tp sl htp hsl).lower

/-! ### `high_water` -/

/-- What a step does to `high_water`: it stays, or `update_high_water_` (`looks`) raises
it to the backlog. -/
structure HighWaterStep (looks : Bool) (tp tp' : ZeroCopySignal) : Prop where
  capacity : tp'.queueSlots = tp.queueSlots
  raised : tp'.highWater = tp.highWater ∨
    looks = true ∧ tp'.highWater = tally (·.backlog) tp.slots

theorem HighWaterStep.refl (tp : ZeroCopySignal) : HighWaterStep looks tp tp := ⟨rfl, .inl rfl⟩

theorem HighWaterStep.of_slots (hslots : tp'.slots = tp.slots)
    (hcap : tp'.perSubCapacity = tp.perSubCapacity) (hhigh : tp'.highWater = tp.highWater) :
    HighWaterStep looks tp tp' :=
  ⟨by rw [ZeroCopySignal.queueSlots, hslots, hcap, ZeroCopySignal.queueSlots], .inl hhigh⟩

theorem HighWaterStep.of_slot (hslots : tp'.slots = tp.slots.set k sl')
    (hcap : tp'.perSubCapacity = tp.perSubCapacity) (hhigh : tp'.highWater = tp.highWater) :
    HighWaterStep looks tp tp' := by
  refine ⟨?_, .inl hhigh⟩
  rw [ZeroCopySignal.queueSlots, hslots, hcap, List.length_set, ZeroCopySignal.queueSlots]

theorem HighWaterStep.updateHighWater (tp : ZeroCopySignal) (hlooks : looks = true) :
    HighWaterStep looks tp tp.updateHighWater := by
  rw [ZeroCopySignal.updateHighWater]
  split
  case isTrue => exact ⟨rfl, .inr ⟨hlooks, rfl⟩⟩
  case isFalse => exact .refl tp

/-- Every topic of the new state, seen from the old one. -/
theorem ZcStep.highWater (hs : ZcStep s a evs s') (t : Nat) (tp' : ZeroCopySignal)
    (htp' : s'.topics[t]? = some tp') :
    tp'.highWater = 0 ∨ ∃ tp, s.topics[t]? = some tp ∧
      HighWaterStep (s.looksAtBacklog t a) tp tp' := by
  have hset : ∀ {t₁ : Nat} {tp₁ tp₂ : ZeroCopySignal}, s.topics[t₁]? = some tp₁ →
      (s.topics.set t₁ tp₂)[t]? = some tp' →
      (t₁ = t → HighWaterStep (s.looksAtBacklog t a) tp₁ tp₂) →
      tp'.highWater = 0 ∨ ∃ tp, s.topics[t]? = some tp ∧
        HighWaterStep (s.looksAtBacklog t a) tp tp' := by
    intro t₁ tp₁ tp₂ htp₁ h hstep
    rcases getElem?_set_cases h with ⟨rfl, rfl⟩ | ⟨-, h⟩
    · exact .inr ⟨tp₁, htp₁, hstep rfl⟩
    · exact .inr ⟨tp', h, .refl tp'⟩
  cases hs with
  | topic =>
      rcases getElem?_concat_cases htp' with htp' | ⟨-, rfl⟩
      · exact .inr ⟨tp', htp', .refl tp'⟩
      · exact .inl rfl
  | subscribe _ htp => exact hset htp htp' (fun _ => .of_slot rfl rfl rfl)
  | unsubscribe _ htp => exact hset htp htp' (fun _ => .of_slot rfl rfl rfl)
  | publish _ htp => exact hset htp htp' (fun _ => .of_slots rfl rfl rfl)
  | enter _ htp => exact hset htp htp' (fun _ => .of_slot rfl rfl rfl)
  | destroy _ htp => exact hset htp htp' (fun _ => .of_slots rfl rfl rfl)
  | drainPop _ htp => exact hset htp htp' (fun _ => .of_slot rfl rfl rfl)
  | drainEnd _ htp => exact hset htp htp' (fun _ => .of_slot rfl rfl rfl)
  | @looked n k pops c tp hth htp hslots ha =>
      -- The one step that looks at the backlog, and at that of its own topic only.
      refine hset htp htp' ?_
      rintro rfl
      refine .updateHighWater tp ?_
      simp only [ha, ZcState.looksAtBacklog, hth, htp, hslots, Option.bind_some,
        Option.isNone_none, beq_self_eq_true, Bool.and_self]
  | accept _ _ htp => exact hset htp htp' (fun _ => .of_slot rfl rfl rfl)
  | reject _ htp => exact hset htp htp' (fun _ => .of_slots rfl rfl rfl)
  | unlock _ htp => exact hset htp htp' (fun _ => .of_slots rfl rfl rfl)
  | pop _ htp => exact hset htp htp' (fun _ => .of_slot rfl rfl rfl)
  | settleNone _ htp => exact hset htp htp' (fun _ => .of_slot rfl rfl rfl)
  | settleSome _ htp => exact hset htp htp' (fun _ => .of_slot rfl rfl rfl)
  | _ => exact .inr ⟨tp', htp', .refl tp'⟩

/-- In a run with at most `m` receives in progress on the topic each time
`update_high_water_` looks. -/
theorem highWater_le {poolValid : Bool} {m : Nat}
    (hr : (zeroCopyMachine capacity poolValid).ReachableBy
      (fun s a => s.looksAtBacklog t a = true → s.inProgress t ≤ m) s) :
    ∀ tp, s.topics[t]? = some tp → tp.highWater ≤ tp.queueSlots + m := by
  refine Machine.ReachableBy.invariant (I := fun s : ZcState => ∀ tp,
    s.topics[t]? = some tp → tp.highWater ≤ tp.queueSlots + m) ?_ ?_ hr
  · intro tp htp
    cases htp
  · intro s a s' hr hle hok hs tp' htp'
    rcases (ZcStep.of_next hs).highWater t tp' htp' with hzero | ⟨tp, htp, hstep⟩
    · rw [hzero]
      exact Nat.zero_le _
    · rw [hstep.capacity]
      rcases hstep.raised with hsame | hraised
      · rw [hsame]
        exact hle tp htp
      · obtain ⟨hlooks, hhigh⟩ := hraised
        rw [hhigh]
        exact le_trans ((ZcGauge.reachable hr.reachable).backlog_le htp)
          (Nat.add_le_add_left (hok hlooks) _)

end Steps

/-! ### Exact bounds -/

/-- The gauges of topic `tp` with `inProgress` receives in progress. -/
structure GaugesOk (tp : ZeroCopySignal) (inProgress : Nat) : Prop where
  /-- No counter of the topic was decremented at zero. -/
  underflow : tp.underflow = false
  queued : tp.queuedTotal ≤ tally (·.backlog) tp.slots
  backlog : tally (·.backlog) tp.slots ≤ tp.queueSlots + inProgress
  /-- What `diagnostics()` reports as in use. The class asserts that its capacity is a
  32-bit number. -/
  inUse : tp.queueSlots ≤ uint32Max → ∀ pool operations,
    (tp.diagnostics pool operations).inUse ≤
      (tp.diagnostics pool operations).capacity + inProgress

/-- The bound on `high_water`, and on what `diagnostics()` reports of it. -/
structure HighWaterOk (tp : ZeroCopySignal) (m : Nat) : Prop where
  highWater : tp.highWater ≤ tp.queueSlots + m
  reported : tp.queueSlots ≤ uint32Max → ∀ pool operations,
    (tp.diagnostics pool operations).highWater ≤
      (tp.diagnostics pool operations).capacity + m

theorem busDiagnosticGauge_le (value : Nat) : busDiagnosticGauge value ≤ value := by
  rw [busDiagnosticGauge]
  split <;> omega

theorem diagnostics_capacity {tp : ZeroCopySignal} (hcap : tp.queueSlots ≤ uint32Max)
    (pool : MessagePool) (operations : DiagnosticSnapshot) :
    (tp.diagnostics pool operations).capacity = tp.queueSlots := by
  refine Nat.mod_eq_of_lt (lt_of_le_of_lt hcap ?_)
  decide

/-- The backlog gauges of the zero-copy transport: no counter underflows, the backlog
is at least what is queued and passes `MaxSubscribers * PerSubCapacity` by the receives
in progress at most, the high-water mark by those in progress at an
`update_high_water_`. -/
theorem zeroCopy_gauges {capacity : Nat} {poolValid : Bool} {s : ZcState}
    (hr : (zeroCopyMachine capacity poolValid).Reachable s) {t : Nat} {tp : ZeroCopySignal}
    (htp : s.topics[t]? = some tp) :
    GaugesOk tp (s.inProgress t) ∧
      ∀ m, (zeroCopyMachine capacity poolValid).ReachableBy
        (fun s a => s.looksAtBacklog t a = true → s.inProgress t ≤ m) s →
          HighWaterOk tp m := by
  have hg := ZcGauge.reachable hr
  have hback := hg.backlog_le htp
  constructor
  · refine ⟨((ZcInv.reachable hr).topics t tp htp).underflow, hg.queued_le htp, hback, ?_⟩
    intro hcap pool operations
    rw [diagnostics_capacity hcap]
    refine le_trans (busDiagnosticGauge_le _) ?_
    rw [ZeroCopySignal.snapshot]
    split
    case isTrue => exact hback
    case isFalse => exact Nat.zero_le _
  · intro m hm
    have hhigh := highWater_le hm tp htp
    refine ⟨hhigh, ?_⟩
    intro hcap pool operations
    rw [diagnostics_capacity hcap]
    refine le_trans (busDiagnosticGauge_le _) ?_
    rw [ZeroCopySignal.snapshot]
    split
    case isTrue => exact hhigh
    case isFalse => exact Nat.zero_le _

/-- One subscriber with a queue of one index. Thread `1` takes the first payload and
has not counted itself out when thread `0` publishes the second. -/
def gaugeOvershoot : List ZcAction :=
  ([.spawn, .spawn, .topic 1 true [true], .subscribe 0 0, .tryLoan, .tryLoan, .newLoan .read,
    .publishZeroCopy 0 0 0] : List ZcAction) ++ List.replicate 5 (ZcAction.advance 0 true) ++
    ([.receiveLoan 1 0 0 2, .advance 1 true, .publishZeroCopy 0 0 1] : List ZcAction) ++
    List.replicate 5 (ZcAction.advance 0 true)

/-- A topic with one queue slot and a backlog of two. -/
theorem zeroCopy_gauges_overshoot :
    ∃ s tp, (zeroCopyMachine 2 true).Reachable s ∧ s.topics[0]? = some tp ∧
      tp.queueSlots = 1 ∧ tp.highWater = 2 ∧ GaugesOk tp (s.inProgress 0) ∧
      HighWaterOk tp 1 := by
  have hview : ((zeroCopyMachine 2 true).run (zeroCopyMachine 2 true).init gaugeOvershoot).map
      (fun s => (s.topics[0]?).map (fun tp => (tp.queueSlots, tp.highWater))) =
      some (some (1, 2)) := by
    decide +kernel
  obtain ⟨s, hrun, hs⟩ := Option.map_eq_some_iff.mp hview
  obtain ⟨tp, htp, heq⟩ := Option.map_eq_some_iff.mp hs
  obtain ⟨hslots, hhigh⟩ := Prod.mk.inj heq
  have hr := Machine.Reachable.of_run hrun
  have hone : (zeroCopyMachine 2 true).ReachableBy
      (fun s a => s.looksAtBacklog 0 a = true → s.inProgress 0 ≤ 1) s :=
    Machine.ReachableBy.of_run .init (by decide +kernel) hrun
  obtain ⟨hgauges, hwater⟩ := zeroCopy_gauges hr htp
  exact ⟨s, tp, hr, htp, hslots, hhigh, hgauges, hwater 1 hone⟩

/-- `high_water`, and `in_use` and `high_water` of `diagnostics()`, can be larger than
the capacity. -/
theorem zeroCopy_gauges_exceed_capacity :
    ¬ ∀ s, (zeroCopyMachine 2 true).Reachable s → ∀ tp, s.topics[0]? = some tp →
      ∀ operations, tp.highWater ≤ tp.queueSlots ∨
        (tp.diagnostics s.pool operations).inUse ≤ (tp.diagnostics s.pool operations).capacity ∨
        (tp.diagnostics s.pool operations).highWater ≤
          (tp.diagnostics s.pool operations).capacity := by
  intro hall
  have hview : ((zeroCopyMachine 2 true).run (zeroCopyMachine 2 true).init gaugeOvershoot).map
      (fun s => (s.topics[0]?).map (fun tp =>
        (tp.queueSlots, tp.highWater, tp.diagnostics s.pool ⟨0, 0, 0, 0, 0, 0, 0, 0, 0⟩))) =
      some (some (1, 2, ⟨1, 2, 2, 0, 0, 0, 0, 0, 2⟩)) := by
    decide +kernel
  obtain ⟨s, hrun, hs⟩ := Option.map_eq_some_iff.mp hview
  obtain ⟨tp, htp, heq⟩ := Option.map_eq_some_iff.mp hs
  obtain ⟨hslots, heq⟩ := Prod.mk.inj heq
  obtain ⟨hhigh, hdiag⟩ := Prod.mk.inj heq
  have hbound := hall s (.of_run hrun) tp htp ⟨0, 0, 0, 0, 0, 0, 0, 0, 0⟩
  rw [hslots, hhigh, hdiag] at hbound
  revert hbound
  decide

end MicrOsal
