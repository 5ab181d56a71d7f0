import MicrOsal.CmsisQueue.WouldBlock
import Mathlib.Data.Int.ModEq
import Mathlib.Algebra.Order.Group.Abs
import Mathlib.Tactic.LinearCombination
import Mathlib.Tactic.Ring

/-!
# MicrOsal.CmsisQueue.Elapsed

How the CMSIS-RTOS v1 backend measures the time that a wait takes.

`osKernelSysTick` is a counter of 32 bits. The tick counter, which the emulated waits subtract two
readings of, is its value in milliseconds: it starts again at `2 ^ 32 * 1000 / frequency` and not
where a `tick_t` does. The queue takes the difference of two counts first, which is right up to
full turns of the counter.
-/

namespace MicrOsal.CmsisQueue

open MicrOsal.Queue (Item)

/-! ### The tick counter -/

/-- `osKernelSysTick`, after so many counts. -/
def osKernelSysTick (count : Nat) : BitVec 32 := BitVec.ofNat 32 count

/-- `osal_clock_monotonic_ms`. -/
def osalClockMonotonicMs (frequency count : Nat) : Nat :=
  (osKernelSysTick count).toNat * 1000 / frequency

/-- `osal_clock_ticks`. -/
def osalClockTicks (w frequency count : Nat) : Tick w :=
  BitVec.ofNat w (osalClockMonotonicMs frequency count)

/-- The difference of the ticks at two counts is the time between them, to within a millisecond
and up to full turns of a `tick_t`. Times are in parts of a millisecond, `frequency` to each. -/
def Measures (w frequency earlier later : Nat) : Prop :=
  ∃ ms : Int,
    ((osalClockTicks w frequency later - osalClockTicks w frequency earlier).toNat : Int) ≡ ms
      [ZMOD 2 ^ w] ∧
    |ms * frequency - 1000 * (later - earlier)| ≤ frequency

/-- What the division by the frequency leaves. -/
def restOf (frequency count : Nat) : Nat := count % 2 ^ 32 * 1000 % frequency

/-- The turns of the counter between two counts are, to within a millisecond, full turns of a
`tick_t`: above all, if there are none. -/
def TurnsMatch (w frequency earlier later : Nat) : Prop :=
  ∃ j : Int, |1000 * 2 ^ 32 * ((later / 2 ^ 32 : Nat) - (earlier / 2 ^ 32 : Nat)) -
    j * (2 ^ w * frequency) +
    (restOf frequency later - restOf frequency earlier)| ≤ (frequency : Int)

section Ticks

variable {w frequency earlier later : Nat}

theorem toNat_sub_modEq (x y : BitVec w) :
    ((x - y).toNat : Int) ≡ x.toNat - y.toNat [ZMOD 2 ^ w] := by
  rw [BitVec.toNat_sub]
  have hy := y.isLt
  have hcast : (((2 ^ w - y.toNat + x.toNat) % 2 ^ w : Nat) : Int) =
      (2 ^ w + (x.toNat - y.toNat)) % 2 ^ w := by
    push_cast [Nat.cast_sub hy.le]
    congr 1
    ring
  rw [hcast]
  exact (Int.mod_modEq _ _).trans (by simp [Int.ModEq])

theorem ofNat_toNat_modEq (n : Nat) : ((BitVec.ofNat w n).toNat : Int) ≡ n [ZMOD 2 ^ w] := by
  rw [BitVec.toNat_ofNat]
  push_cast
  exact Int.mod_modEq _ _

/-- The difference of two ticks is that of the milliseconds. -/
theorem ticks_sub_modEq (w frequency earlier later : Nat) :
    ((osalClockTicks w frequency later - osalClockTicks w frequency earlier).toNat : Int) ≡
      osalClockMonotonicMs frequency later - osalClockMonotonicMs frequency earlier
      [ZMOD 2 ^ w] :=
  (toNat_sub_modEq _ _).trans ((ofNat_toNat_modEq _).sub (ofNat_toNat_modEq _))

/-- A count in turns of the counter, milliseconds and the rest. -/
theorem count_eq (frequency count : Nat) :
    1000 * count = 1000 * 2 ^ 32 * (count / 2 ^ 32) +
      osalClockMonotonicMs frequency count * frequency + restOf frequency count := by
  have hturns := Nat.div_add_mod count (2 ^ 32)
  have hms := Nat.div_add_mod' (count % 2 ^ 32 * 1000) frequency
  have hread : osalClockMonotonicMs frequency count = count % 2 ^ 32 * 1000 / frequency := by
    unfold osalClockMonotonicMs osKernelSysTick
    rw [BitVec.toNat_ofNat]
  rw [hread]
  unfold restOf
  omega

theorem measures_iff :
    Measures w frequency earlier later ↔ TurnsMatch w frequency earlier later := by
  have hlater := count_eq frequency later
  have hearlier := count_eq frequency earlier
  unfold Measures TurnsMatch
  generalize hb : osalClockMonotonicMs frequency later = b at *
  generalize ha : osalClockMonotonicMs frequency earlier = a at *
  generalize restOf frequency later = rb at *
  generalize restOf frequency earlier = ra at *
  generalize later / 2 ^ 32 = kb at *
  generalize earlier / 2 ^ 32 = ka at *
  -- The milliseconds that the ticks show, and any others that they stand for.
  have herror : ∀ j : Int, (b - a + 2 ^ w * j) * frequency - 1000 * (later - earlier) =
      -(1000 * 2 ^ 32 * ((kb : Int) - ka) - j * (2 ^ w * frequency) + (rb - ra)) := by
    intro j
    have hl : (1000 * later : Int) = 1000 * 2 ^ 32 * kb + b * frequency + rb := by
      exact_mod_cast hlater
    have he : (1000 * earlier : Int) = 1000 * 2 ^ 32 * ka + a * frequency + ra := by
      exact_mod_cast hearlier
    linear_combination he - hl
  have hshown := ticks_sub_modEq w frequency earlier later
  rw [hb, ha] at hshown
  constructor
  · rintro ⟨ms, hms, hclose⟩
    obtain ⟨j, hj⟩ := (hshown.symm.trans hms).dvd
    refine ⟨j, ?_⟩
    rw [← abs_neg, ← herror, ← hj]
    rwa [show (b : Int) - a + (ms - (b - a)) = ms by ring]
  · rintro ⟨j, hclose⟩
    refine ⟨b - a + 2 ^ w * j, hshown.trans ?_, ?_⟩
    · exact (Int.modEq_iff_dvd.mpr ⟨j, by ring⟩)
    · rw [herror, abs_neg]
      exact hclose

/-- Two counts in one turn of the counter. -/
theorem TurnsMatch.of_same_turn (hfrequency : 0 < frequency)
    (hturn : earlier / 2 ^ 32 = later / 2 ^ 32) : TurnsMatch w frequency earlier later := by
  have hlater : restOf frequency later < frequency := Nat.mod_lt _ hfrequency
  have hearlier : restOf frequency earlier < frequency := Nat.mod_lt _ hfrequency
  refine ⟨0, ?_⟩
  rw [hturn, abs_le]
  omega

end Ticks

/-! ### The checks of a send -/

section Send

variable {cfg : Config} {size n : Nat} {s s' : State cfg size} {a : Action cfg size}
  {slot : QueueSlot} {call started : Send size cfg.width}

/-- The counter counts. -/
def Action.isTick : Action cfg size → Bool
  | .tick => true
  | _ => false

/-- A send of thread `n` that it began in `s₀` has found no place and looks at its timeout in `s`,
`elapsed` counts after its start. -/
def CheckAfter (slot : QueueSlot) (s₀ : State cfg size) (n : Nat) (item : Item size)
    (timeout : Tick cfg.width) (elapsed : Nat) (s : State cfg size) : Prop :=
  ∃ s₁ as call, s₀.step (.send n item timeout) = some s₁ ∧
    (machine cfg size slot).run s₁ as = some s ∧ as.countP Action.isTick = elapsed ∧
    s.threads[n]? = some (.refused call) ∧ call.since = s₀.counts.length

/-- The send of thread `n` has returned `timeout`. -/
def TimedOut (s : State cfg size) (n : Nat) : Prop :=
  s.threads[n]? = some (.idle (some .timeout))

/-- A thread that is in a send after a step was in it before, or has begun it now. -/
theorem call_of_moves (hm : Moves a s s') {th' : Thread size cfg.width}
    (hn : s'.threads[n]? = some th') (hcall : th'.call = some call) :
    (∃ th, s.threads[n]? = some th ∧ th.call = some call) ∨ call.since = s.counts.length := by
  have hset : ∀ {m : Nat} {next : Thread size cfg.width}, (s.threads.set m next)[n]? = some th' →
      (next.call = some call → (∃ th, s.threads[m]? = some th ∧ th.call = some call) ∨
        call.since = s.counts.length) →
      (∃ th, s.threads[n]? = some th ∧ th.call = some call) ∨ call.since = s.counts.length := by
    intro m next hth hnext
    rcases getElem?_set_cases hth with ⟨rfl, rfl⟩ | ⟨-, hold⟩
    · exact hnext hcall
    · exact .inl ⟨th', hold, hcall⟩
  cases hm with
  | spawn =>
      rcases getElem?_concat_cases hn with hold | ⟨-, rfl⟩
      · exact .inl ⟨th', hold, hcall⟩
      · cases hcall
  | tick => exact .inl ⟨th', hn, hcall⟩
  | send hm hsince =>
      refine hset hn fun hnew => .inr ?_
      rw [← Option.some.inj hnew]
      exact hsince
  | receive hm | leave hm | get hm | getNone hm | put hm | decrement hm =>
      exact hset hn fun hnew => nomatch hnew
  | loadBelow hm | loadFull hm | reserve hm | miss hm | putFail hm | rollBack hm | sleep hm
  | wake hm => exact hset hn fun hnew => .inl ⟨_, hm, hnew⟩

theorem counts_of_moves (hm : Moves a s s') : s'.counts = s.counts := by
  cases hm <;> rfl

theorem clock_go {th : Thread size cfg.width} (h : s.go n th = some s') : s'.clock = s.clock := by
  cases th with
  | idle last => cases h
  | load call =>
      cases h
      unfold State.load
      split <;> rfl
  | exchange call count =>
      cases h
      unfold State.exchange
      split <;> rfl
  | put call =>
      cases h
      unfold State.put
      split <;> rfl
  | refused call =>
      cases h
      unfold State.refused
      split
      · rfl
      · split <;> rfl
  | rollBack call | delay call | decrement item ticket =>
      cases h
      rfl
  | get timeout =>
      dsimp only [State.go, State.get] at h
      split at h
      · cases h
        rfl
      · split at h
        · cases h
          rfl
        · cases h

theorem clock_fail {th : Thread size cfg.width} (h : s.fail n th = some s') :
    s'.clock = s.clock := by
  cases th with
  | get timeout =>
      dsimp only [State.fail] at h
      split at h
      · cases h
        rfl
      · cases h
  | delay call =>
      cases h
      rfl
  | idle | load | exchange | put | rollBack | refused | decrement => cases h

/-- Only the counter's own step moves it. -/
theorem clock_act (h : s.act a = some s') :
    s'.clock = s.clock + BitVec.ofNat 32 (if a.isTick then 1 else 0) := by
  cases a with
  | tick =>
      cases h
      rfl
  | spawn =>
      cases h
      exact (BitVec.add_zero _).symm
  | send m item timeout | sendIsr m item | receive m timeout | receiveIsr m =>
      obtain ⟨last, -, rfl⟩ := moves_of_whenIdle h
      exact (BitVec.add_zero _).symm
  | go m =>
      obtain ⟨th, -, hgo⟩ := Option.bind_eq_some_iff.mp h
      exact (clock_go hgo).trans (BitVec.add_zero _).symm
  | fail m =>
      obtain ⟨th, -, hfail⟩ := Option.bind_eq_some_iff.mp h
      exact (clock_fail hfail).trans (BitVec.add_zero _).symm

/-- The send that thread `n` has begun as `started`, so many counts ago. -/
structure Following (n : Nat) (started : Send size cfg.width) (elapsed : Nat)
    (s : State cfg size) : Prop where
  since : started.since < s.counts.length
  clock : s.clock - started.start = BitVec.ofNat 32 elapsed
  same : ∀ th call, s.threads[n]? = some th → th.call = some call →
    call.since = started.since → call = started

namespace Following

/-- The send begins. -/
theorem begin {item : Item size} {timeout : Tick cfg.width}
    (h : s.step (.send n item timeout) = some s') :
    Following n ⟨item, timeout, s.clock, s.counts.length⟩ 0 s' := by
  obtain ⟨s₁, hact, rfl⟩ := Option.map_eq_some_iff.mp h
  obtain ⟨last, hn, rfl⟩ := moves_of_whenIdle hact
  refine ⟨?_, BitVec.sub_self _, fun th call hth hcall hsince => ?_⟩
  · show s.counts.length < (s.counts ++ [s.slot.count]).length
    rw [List.length_append, List.length_singleton]
    exact Nat.lt_succ_self _
  · have hlen := (List.getElem?_eq_some_iff.mp hn).1
    have hset : (s.threads.set n (.load ⟨item, timeout, s.clock, s.counts.length⟩))[n]? =
        some th := hth
    rw [List.getElem?_set_self hlen] at hset
    cases hset
    exact (Option.some.inj hcall).symm

theorem step {elapsed : Nat} (hfollow : Following n started elapsed s)
    (h : s.step a = some s') :
    Following n started ((if a.isTick then 1 else 0) + elapsed) s' := by
  obtain ⟨s₁, hact, rfl⟩ := Option.map_eq_some_iff.mp h
  have hcounts : s.counts.length ≤ s₁.note.counts.length := by
    show s.counts.length ≤ (s₁.counts ++ [s₁.slot.count]).length
    rw [counts_of_moves (moves_of_act hact), List.length_append]
    exact Nat.le_add_right ..
  refine ⟨lt_of_lt_of_le hfollow.since hcounts, ?_, fun th call hth hcall hsince => ?_⟩
  · show s₁.clock - started.start = _
    rw [clock_act hact, BitVec.ofNat_add, ← hfollow.clock]
    bv_omega
  · rcases call_of_moves (moves_of_act hact) hth hcall with ⟨th₀, hth₀, hcall₀⟩ | hnew
    · exact hfollow.same th₀ call hth₀ hcall₀ hsince
    · have := hfollow.since
      omega

theorem run {as : List (Action cfg size)} {elapsed : Nat}
    (hfollow : Following n started elapsed s)
    (h : (machine cfg size slot).run s as = some s') :
    Following n started (as.countP Action.isTick + elapsed) s' := by
  induction as generalizing s elapsed with
  | nil =>
      cases h
      rwa [List.countP_nil, Nat.zero_add]
  | cons a rest ih =>
      obtain ⟨s₁, hstep, hrest⟩ := Option.bind_eq_some_iff.mp h
      have hnext := ih (hfollow.step hstep) hrest
      rw [List.countP_cons]
      rwa [← Nat.add_assoc] at hnext

end Following

/-- The time that the send computes is that since its start, without the full turns of the
counter. -/
theorem CheckAfter.elapsedMs_eq {s₀ : State cfg size} {item : Item size}
    {timeout : Tick cfg.width} {elapsed : Nat}
    (h : CheckAfter slot s₀ n item timeout elapsed s) :
    ∃ call, s.threads[n]? = some (.refused call) ∧ call.timeout = timeout ∧
      s.elapsedMs call = elapsed % 2 ^ 32 * 1000 / cfg.frequency := by
  obtain ⟨s₁, as, call, hbegin, hrun, rfl, hn, hsince⟩ := h
  have hfollow := (Following.begin hbegin).run hrun
  obtain rfl := hfollow.same _ _ hn rfl hsince
  refine ⟨_, hn, rfl, ?_⟩
  unfold State.elapsedMs
  rw [hfollow.clock, BitVec.toNat_ofNat, Nat.add_zero]

/-- A check of a send that waits for a time: it returns `timeout` if the computed time says so. -/
theorem timedOut_iff {call : Send size cfg.width} (hn : s.threads[n]? = some (.refused call))
    (hwaits : call.timeout ≠ noWait) (hfinite : call.timeout ≠ waitForever)
    (hstep : s.step (.go n) = some s') :
    TimedOut s' n ↔ call.timeout.toNat ≤ s.elapsedMs call := by
  obtain ⟨s₁, hact, rfl⟩ := Option.map_eq_some_iff.mp hstep
  have hlen := (List.getElem?_eq_some_iff.mp hn).1
  obtain ⟨th, hth, hgo⟩ := Option.bind_eq_some_iff.mp hact
  obtain rfl := Option.some.inj (hn.symm.trans hth)
  cases hgo
  unfold TimedOut State.refused
  rw [if_neg hwaits]
  split
  · rename_i hover
    refine iff_of_true ?_ hover.2
    exact List.getElem?_set_self hlen
  · rename_i hleft
    refine iff_of_false (fun h => ?_) (fun hover => hleft ⟨hfinite, hover⟩)
    have hset : (s.threads.set n (.delay call))[n]? = some (.idle (some .timeout)) := h
    rw [List.getElem?_set_self hlen] at hset
    cases hset

end Send

/-! ### The measured time -/

/-- The ticks measure a time exactly where the turns of the counter between its ends match turns
of a `tick_t`. A send with a finite timeout is never early; where its time is over it returns at
the check if it is over without the full turns of the counter as well. -/
theorem cmsisWaits_measure {cfg : Config} (hfrequency : 1 ≤ cfg.frequency) :
    (∀ earlier later : Nat, Measures cfg.width cfg.frequency earlier later ↔
      TurnsMatch cfg.width cfg.frequency earlier later) ∧
    (∀ (size : Nat) (slot : QueueSlot) (s₀ s s' : State cfg size) (n : Nat) (item : Item size)
      (timeout : Tick cfg.width) (elapsed : Nat),
      timeout ≠ noWait → timeout ≠ waitForever →
      CheckAfter slot s₀ n item timeout elapsed s → s.step (.go n) = some s' →
      (TimedOut s' n → timeout.toNat * cfg.frequency ≤ elapsed * 1000) ∧
      (timeout.toNat * cfg.frequency ≤ elapsed * 1000 →
        (TimedOut s' n ↔ timeout.toNat * cfg.frequency ≤ elapsed % 2 ^ 32 * 1000))) := by
  refine ⟨fun _ _ => measures_iff, ?_⟩
  intro size slot s₀ s s' n item timeout elapsed hwaits hfinite hcheck hstep
  obtain ⟨call, hn, rfl, helapsed⟩ := hcheck.elapsedMs_eq
  have hverdict := timedOut_iff hn hwaits hfinite hstep
  rw [helapsed, Nat.le_div_iff_mul_le hfrequency] at hverdict
  have hmod := Nat.mod_le elapsed (2 ^ 32)
  exact ⟨fun h => (hverdict.mp h).trans (Nat.mul_le_mul_right 1000 hmod), fun _ => hverdict⟩

/-- A thread outside, with a queue of one message that is full. -/
def full (frequency : Nat) : State ⟨32, frequency⟩ 4 :=
  ⟨⟨some ⟨1, [.replicate 4 1]⟩, 4, 1, 1, true, true⟩, 0, [.idle none], [.replicate 4 1], [], [],
    [], [1]⟩

/-- Two seconds with a counter of a millisecond, and a send that waits for two counts. -/
theorem cmsisWaits_measure_millis :
    Measures 32 1000 5000 7000 ∧
    ∃ s s' : State ⟨32, 1000⟩ 4, CheckAfter (created 1) (full 1000) 0 #v[5, 6, 7, 8] 2 2 s ∧
      s.step (.go 0) = some s' ∧ TimedOut s' 0 :=
  have h := @cmsisWaits_measure ⟨32, 1000⟩ (show 1 ≤ 1000 by decide)
  have hcheck : ∃ s s' : State ⟨32, 1000⟩ 4,
      CheckAfter (created 1) (full 1000) 0 #v[5, 6, 7, 8] 2 2 s ∧ s.step (.go 0) = some s' :=
    ⟨_, _, ⟨_, [.go 0, .tick, .tick], _, rfl, rfl, rfl, rfl, rfl⟩, rfl⟩
  ⟨(h.1 5000 7000).2 (.of_same_turn (by decide) rfl),
    let ⟨s, s', hcheck, hstep⟩ := hcheck
    ⟨s, s', hcheck, hstep, ((h.2 4 (created 1) (full 1000) s s' 0 #v[5, 6, 7, 8] 2 2 (by decide)
      (by decide) hcheck hstep).2 (by decide)).2 (by decide)⟩⟩

theorem run_ticks {cfg : Config} {size : Nat} (slot : QueueSlot) (k : Nat)
    (s : State cfg size) : ∃ s', (machine cfg size slot).run s (.replicate k .tick) = some s' ∧
      s'.threads = s.threads := by
  induction k generalizing s with
  | zero => exact ⟨s, rfl, rfl⟩
  | succ k ih =>
      obtain ⟨s', hrun, hthreads⟩ := ih ({ s with clock := s.clock + 1 } : State cfg size).note
      exact ⟨s', hrun, hthreads⟩

/-- A send to the full queue is at its check after any time. -/
theorem checkAfter_full (frequency : Nat) (timeout : Tick 32) (elapsed : Nat) :
    ∃ s s' : State ⟨32, frequency⟩ 4,
      CheckAfter (created 1) (full frequency) 0 #v[5, 6, 7, 8] timeout elapsed s ∧
      s.step (.go 0) = some s' := by
  obtain ⟨s₁, s₂, hbegin, hgo, hthreads⟩ : ∃ s₁ s₂ : State ⟨32, frequency⟩ 4,
      (full frequency).step (.send 0 #v[5, 6, 7, 8] timeout) = some s₁ ∧
      s₁.step (.go 0) = some s₂ ∧
      s₂.threads = [.refused ⟨#v[5, 6, 7, 8], timeout, 0, 1⟩] := ⟨_, _, rfl, rfl, rfl⟩
  obtain ⟨s, hrun, hsame⟩ := run_ticks (created 1) elapsed s₂
  have hn : s.threads[0]? = some (.refused ⟨#v[5, 6, 7, 8], timeout, 0, 1⟩) := by
    rw [hsame, hthreads]
    rfl
  refine ⟨s, (s.refused 0 ⟨#v[5, 6, 7, 8], timeout, 0, 1⟩).note,
    ⟨s₁, .go 0 :: .replicate elapsed .tick, _, hbegin, ?_, ?_, hn, rfl⟩, ?_⟩
  · exact (congrArg (Option.bind · _) hgo).trans hrun
  · rw [List.countP_cons_of_neg (show ¬ Action.isTick (.go 0) = true from Bool.false_ne_true),
      List.countP_replicate, if_pos (show Action.isTick .tick = true from rfl)]
  · unfold State.step State.act
    dsimp only
    rw [hn]
    rfl

/-- With a counter of 100 MHz, two seconds across a turn of it are anything but two seconds, and a
send that waits for a minute does not return after one. -/
theorem cmsisWaits_mismeasure :
    (1000 * (4394967296 - 4194967296) < 2 ^ 32 * 100000000 ∧
      ¬ Measures 32 100000000 4194967296 4394967296) ∧
    ∃ s s' : State ⟨32, 100000000⟩ 4,
      CheckAfter (created 1) (full 100000000) 0 #v[5, 6, 7, 8] 60000 6000000000 s ∧
      s.step (.go 0) = some s' ∧ 60000 * 100000000 ≤ 6000000000 * 1000 ∧ ¬ TimedOut s' 0 := by
  refine ⟨⟨by decide, fun hmeasures => ?_⟩, ?_⟩
  · obtain ⟨j, hj⟩ := measures_iff.mp hmeasures
    rw [abs_le] at hj
    simp only [restOf] at hj
    omega
  · obtain ⟨s, s', hcheck, hstep⟩ := checkAfter_full 100000000 60000 6000000000
    obtain ⟨call, hn, htimeout, helapsed⟩ := hcheck.elapsedMs_eq
    have hverdict := timedOut_iff hn (htimeout ▸ by decide) (htimeout ▸ by decide) hstep
    rw [htimeout, helapsed] at hverdict
    exact ⟨s, s', hcheck, hstep, by decide, fun hover => absurd (hverdict.mp hover) (by decide)⟩

end MicrOsal.CmsisQueue
