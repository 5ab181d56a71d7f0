import MicrOsal.HostedQueue.Model
import MicrOsal.Lib.Tally

/-!
# MicrOsal.HostedQueue.Deadline

When `osal_queue_send` and `osal_queue_receive` give up. Each turn of a call is recorded
(`turns`), and is as the timeout promises (`Turn.Honest`) if it does not go wrong (`goesWrong`).

The loop computes its deadline anew in each turn: a call that is woken after its time and finds
nothing waits for the whole timeout again. The end of a wait is decided by what the wait returns,
and the queue is not looked at again. Nothing else goes wrong with ticks of at most a millisecond
(`Kept`), since a deadline is never before the time of the call and its timeout.
-/

namespace MicrOsal.HostedQueue

variable {w : Nat} {κ α : Type}

/-! ### Turns -/

/-- The time of the call and its timeout, in ticks of `tickUs` microseconds. -/
def endNs (tickUs begun : Nat) (timeout : Tick w) : Nat := begun + timeout.toNat * tickUs * 1000

/-- A send or a receive with a finite timeout. -/
def timed (call : Call α) (timeout : Tick w) : Bool := ! call.isPeek && finite timeout

/-- What is seen of a call that has got the mutex, once it has let go of it. -/
structure Turn (w : Nat) (α : Type) where
  call : Call α
  timeout : Tick w
  begun : Nat
  time : Nat
  /-- It has got the mutex from a wait. -/
  wakeUp : Bool
  /-- The queue was full, or empty. -/
  blocked : Bool
  /-- What the call has returned, if it has. -/
  result : Option (Result α)

/-- The call honours its deadline in this turn. -/
structure Turn.Honest (tickUs : Nat) (t : Turn w α) : Prop where
  /-- It returns when it is woken at or after its time. -/
  returns : t.wakeUp = true → endNs tickUs t.begun t.timeout ≤ t.time → t.result ≠ none
  /-- It returns `timeout` only then, and only if there is still nothing for it. -/
  timeout : t.result = some (.error .timeout) →
    endNs tickUs t.begun t.timeout ≤ t.time ∧ t.blocked = true

/-- What the call of thread `n` has returned. -/
def State.result (s : State w κ α) (n : Nat) : Option (Result α) :=
  match s.threads[n]? with
  | some (.outside last) => last
  | _ => none

/-- The turn that a step shows, of a send or a receive with a finite timeout. -/
def turns (b : Backend κ α) (s : State w κ α) (a : Action w α) (s' : State w κ α) :
    List (Turn w α) :=
  match a with
  | .resume n =>
      match s.threads[n]? with
      | some (.inside call timeout begun phase) =>
          if timed call timeout then
            [⟨call, timeout, begun, s.time, phase ≠ .entering, b.blocked s.queue call,
              s'.result n⟩]
          else []
      | _ => []
  | _ => []

/-- The call comes back from a wait that was not timed out, after its time, and finds nothing; or
its wait was timed out, and there is something for it. With ticks of more than a millisecond the
wait may also be timed out before its time. -/
def wrongTurn (b : Backend κ α) (s : State w κ α) : Thread w α → Bool
  | .inside call timeout begun .woken =>
      timed call timeout && b.blocked s.queue call && endNs b.tickUs begun timeout ≤ s.time
  | .inside call timeout begun .timedOut =>
      timed call timeout && (! b.blocked s.queue call ||
        (1000 < b.tickUs && s.time < endNs b.tickUs begun timeout))
  | _ => false

def goesWrong (b : Backend κ α) (s : State w κ α) : Action w α → Bool
  | .resume n => (s.threads[n]?).any (wrongTurn b s)
  | _ => false

/-! ### What a call knows of the time -/

/-- A wait lasts the milliseconds of the timeout since the call, at least. -/
def Phase.Kept (timeout : Tick w) (begun time last : Nat) : Phase → Prop
  | .entering => True
  | .asleep none => True
  | .asleep (some abs) => min (begun + timeout.toNat * 1000000) last ≤ abs.ns
  | .woken => True
  | .timedOut => begun + timeout.toNat * 1000000 ≤ time

def Thread.Kept (time last : Nat) : Thread w α → Prop
  | .outside _ => True
  | .inside _ timeout begun phase => begun ≤ time ∧ phase.Kept timeout begun time last

structure Kept (b : Backend κ α) (maxSeconds : Nat) (s : State w κ α) : Prop where
  ok : b.Ok s.queue
  time_lt : s.time < lastNs maxSeconds
  threads : ∀ th ∈ s.threads, th.Kept s.time (lastNs maxSeconds)

variable {b : Backend κ α} {maxSeconds : Nat} {s s' : State w κ α} {th : Thread w α} {n : Nat}
  {call : Call α} {timeout : Tick w} {begun : Nat}

theorem Thread.Kept.later {time time' last : Nat} (h : th.Kept time last) (hle : time ≤ time') :
    th.Kept time' last := by
  cases th with
  | outside last => trivial
  | inside call timeout begun phase =>
      refine ⟨h.1.trans hle, ?_⟩
      cases phase with
      | timedOut => exact (show begun + timeout.toNat * 1000000 ≤ time from h.2).trans hle
      | asleep abs => cases abs <;> exact h.2
      | entering => trivial
      | woken => trivial

/-- One thread goes on, and the queue may change with it. -/
theorem Kept.set (h : Kept b maxSeconds s) {queue : κ} (hok : b.Ok queue)
    (hth : th.Kept s.time (lastNs maxSeconds)) :
    Kept b maxSeconds ({ s with queue := queue }.setThread n th) := by
  refine ⟨hok, h.time_lt, fun th' hmem => ?_⟩
  rcases List.mem_or_eq_of_mem_set hmem with hold | rfl
  · exact h.threads th' hold
  · exact hth

theorem Kept.attempt (h : Kept b maxSeconds s) (hbegun : begun ≤ s.time) :
    Kept b maxSeconds (s.attempt b maxSeconds n call timeout begun) := by
  unfold State.attempt
  cases hblocked : b.blocked s.queue call with
  | false =>
      obtain ⟨⟨item, queue⟩, hperform, hok⟩ := b.ok_perform h.ok hblocked
      rw [if_neg (by decide), hperform]
      exact h.set hok trivial
  | true =>
      rw [if_pos rfl]
      split
      case isTrue => exact h.set h.ok trivial
      case isFalse hnoWait =>
        split
        case isTrue => exact h.set h.ok ⟨hbegun, trivial⟩
        case isFalse hforever =>
          have hfinite : finite timeout = true :=
            decide_eq_true ⟨fun heq => hnoWait (.inl heq), hforever⟩
          refine h.set h.ok ⟨hbegun, ?_⟩
          change min (begun + timeout.toNat * 1000000) (lastNs maxSeconds) ≤
            (toAbsTimespec maxSeconds (.ofNs s.time) timeout).ns
          rw [ns_toAbsTimespec hfinite h.time_lt.le]
          exact min_le_min_right _ (Nat.add_le_add_right hbegun _)

theorem Kept.step {a : Action w α} (h : Kept b maxSeconds s)
    (hs : s.step b maxSeconds a = some s') : Kept b maxSeconds s' := by
  cases a with
  | spawn =>
      obtain rfl := Option.some.inj hs
      refine ⟨h.ok, h.time_lt, fun th hmem => ?_⟩
      rcases List.mem_append.mp hmem with hold | hnew
      · exact h.threads th hold
      · obtain rfl := List.mem_singleton.mp hnew
        trivial
  | tick ns =>
      rw [State.step] at hs
      split at hs
      case isTrue hlt =>
        obtain rfl := Option.some.inj hs
        exact ⟨h.ok, hlt, fun th hmem => (h.threads th hmem).later (Nat.le_add_right _ _)⟩
      case isFalse => cases hs
  | call n call timeout =>
      rw [State.step] at hs
      split at hs
      case h_1 =>
        obtain rfl := Option.some.inj hs
        exact h.set h.ok ⟨Nat.le_refl _, trivial⟩
      case h_2 => cases hs
  | wake n =>
      rw [State.step] at hs
      split at hs
      case h_1 hn =>
        obtain rfl := Option.some.inj hs
        exact h.set h.ok ⟨(h.threads _ (List.mem_of_getElem? hn)).1, trivial⟩
      case h_2 => cases hs
  | expire n =>
      rw [State.step] at hs
      split at hs
      case h_1 abs hn =>
        split at hs
        case isTrue hover =>
          obtain rfl := Option.some.inj hs
          obtain ⟨hbegun, habs⟩ := h.threads _ (List.mem_of_getElem? hn)
          refine h.set h.ok ⟨hbegun, ?_⟩
          -- the clock does not reach its last time, so the deadline is not that one
          rcases min_le_iff.mp (habs.trans hover) with hdue | hlast
          · exact hdue
          · exact absurd h.time_lt (Nat.not_lt.mpr hlast)
        case isFalse => cases hs
      case h_2 => cases hs
  | resume n =>
      obtain ⟨th, hn, hresume⟩ := Option.bind_eq_some_iff.mp hs
      have hth := h.threads th (List.mem_of_getElem? hn)
      cases th with
      | outside last => cases hresume
      | inside call timeout begun phase =>
          cases phase with
          | entering => exact Option.some.inj hresume ▸ h.attempt hth.1
          | woken => exact Option.some.inj hresume ▸ h.attempt hth.1
          | asleep abs => cases hresume
          | timedOut => exact Option.some.inj hresume ▸ h.set h.ok trivial

theorem Kept.of_reachable (h : (machine w b maxSeconds).Reachable s) : Kept b maxSeconds s := by
  refine h.invariant (I := Kept b maxSeconds)
    ⟨b.ok_create, ?_, fun th hmem => (List.not_mem_nil hmem).elim⟩
    (fun s a s' _ hkept hs => hkept.step hs)
  change 0 < maxSeconds * 1000000000 + 999999999
  omega

/-! ### What a turn shows -/

theorem result_setThread (hn : s.threads[n]? = some th) (last : Option (Result α)) (queue : κ) :
    ({ s with queue := queue }.setThread n (.outside last)).result n = last := by
  have hlt := (List.getElem?_eq_some_iff.mp hn).1
  rw [State.result, State.setThread, List.getElem?_set_self hlt]

theorem result_inside (hn : s.threads[n]? = some th) (phase : Phase) :
    (s.setThread n (.inside call timeout begun phase)).result n = none := by
  have hlt := (List.getElem?_eq_some_iff.mp hn).1
  rw [State.result, State.setThread, List.getElem?_set_self hlt]

/-- A send or a receive with a finite timeout waits, or has what it wants. -/
theorem result_attempt (h : Kept b maxSeconds s) (hn : s.threads[n]? = some th)
    (htimed : timed call timeout = true) (begun : Nat) :
    (b.blocked s.queue call = true ∧
      (s.attempt b maxSeconds n call timeout begun).result n = none) ∨
    (b.blocked s.queue call = false ∧
      ∃ item, (s.attempt b maxSeconds n call timeout begun).result n = some (.ok item)) := by
  obtain ⟨hpeek, hfinite⟩ := Bool.and_eq_true_iff.mp htimed
  obtain ⟨hnoWait, hforever⟩ := of_decide_eq_true hfinite
  unfold State.attempt
  cases hblocked : b.blocked s.queue call with
  | false =>
      obtain ⟨⟨item, queue⟩, hperform, -⟩ := b.ok_perform h.ok hblocked
      rw [if_neg (by decide), hperform]
      exact .inr ⟨rfl, item, result_setThread hn _ queue⟩
  | true =>
      have hwaits : ¬ (timeout = noWait ∨ (call.isPeek && ! b.peekWaits) = true) := by
        rintro (heq | hnone)
        · exact hnoWait heq
        · have hsend : call.isPeek = false := by simpa using hpeek
          rw [hsend] at hnone
          cases hnone
      rw [if_pos rfl, if_neg hwaits, if_neg hforever]
      exact .inl ⟨rfl, result_inside hn _⟩

/-- A wait that is timed out has lasted its time, with ticks of at most a millisecond. -/
theorem endNs_le {time : Nat} (htick : b.tickUs ≤ 1000)
    (hkept : begun + timeout.toNat * 1000000 ≤ time) : endNs b.tickUs begun timeout ≤ time := by
  refine Nat.le_trans ?_ hkept
  unfold endNs
  rw [Nat.mul_assoc]
  exact Nat.add_le_add_left (Nat.mul_le_mul_left _ (by omega)) _

/-- A turn before the first wait, or after one that was not timed out. -/
theorem honest_attempt {wakeUp : Bool} {s₁ : State w κ α} (h : Kept b maxSeconds s)
    (hn : s.threads[n]? = some th) (htimed : timed call timeout = true)
    (hs : some (s.attempt b maxSeconds n call timeout begun) = some s₁) :
    Turn.Honest b.tickUs ⟨call, timeout, begun, s.time, wakeUp, b.blocked s.queue call,
        s₁.result n⟩ ↔
      (wakeUp && b.blocked s.queue call && endNs b.tickUs begun timeout ≤ s.time) = false := by
  obtain rfl := Option.some.inj hs
  rcases result_attempt h hn htimed begun with ⟨hblocked, hres⟩ | ⟨hblocked, item, hres⟩
  · rw [hres, hblocked, Bool.and_true]
    refine ⟨fun hhonest => ?_, fun hright => ⟨fun hwake hover => ?_, fun heq => nomatch heq⟩⟩
    · by_contra hwrong
      obtain ⟨hwake, hover⟩ := Bool.and_eq_true_iff.mp (Bool.not_eq_false _ ▸ hwrong)
      exact hhonest.returns hwake (of_decide_eq_true hover) rfl
    · rw [show wakeUp = true from hwake, Bool.true_and] at hright
      exact absurd hover (of_decide_eq_false hright)
  · rw [hres, hblocked, Bool.and_false, Bool.false_and]
    refine iff_of_true ⟨fun _ _ hnone => ?_, fun heq => ?_⟩ rfl
    · cases hnone
    · cases heq

/-- A turn after a wait that was timed out. -/
theorem honest_timedOut (hkept : begun + timeout.toNat * 1000000 ≤ s.time) :
    Turn.Honest b.tickUs ⟨call, timeout, begun, s.time, true, b.blocked s.queue call,
        some (.error .timeout)⟩ ↔
      (! b.blocked s.queue call ||
        (1000 < b.tickUs && s.time < endNs b.tickUs begun timeout)) = false := by
  rw [Bool.or_eq_false_iff, Bool.not_eq_false', Bool.and_eq_false_iff, decide_eq_false_iff_not,
    decide_eq_false_iff_not]
  refine ⟨fun hhonest => ?_, fun ⟨hblocked, htime⟩ => ⟨fun _ _ hnone => ?_, fun _ => ?_⟩⟩
  · obtain ⟨hover, hblocked⟩ := hhonest.timeout rfl
    exact ⟨hblocked, .inr (Nat.not_lt.mpr hover)⟩
  · cases hnone
  · refine ⟨?_, hblocked⟩
    rcases htime with htick | hover
    · exact endNs_le (Nat.not_lt.mp htick) hkept
    · exact Nat.not_lt.mp hover

/-- A step shows an honest turn if and only if it does not go wrong. -/
theorem honest_step {a : Action w α} (h : Kept b maxSeconds s)
    (hs : s.step b maxSeconds a = some s') :
    (∀ t ∈ turns b s a s', t.Honest b.tickUs) ↔ goesWrong b s a = false := by
  cases a with
  | resume n =>
      obtain ⟨th, hn, hresume⟩ := Option.bind_eq_some_iff.mp hs
      simp only [turns, goesWrong, hn, Option.any_some]
      cases th with
      | outside last => exact iff_of_true (fun t hmem => nomatch hmem) rfl
      | inside call timeout begun phase =>
          dsimp only
          by_cases htimed : timed call timeout = true
          · rw [if_pos htimed, List.forall_mem_singleton]
            cases phase with
            | entering =>
                refine (honest_attempt h hn htimed hresume).trans ?_
                simp [wrongTurn]
            | woken =>
                refine (honest_attempt h hn htimed hresume).trans ?_
                rw [wrongTurn, htimed]
                exact Iff.rfl
            | asleep abs => cases hresume
            | timedOut =>
                obtain rfl := Option.some.inj hresume
                have hres : (s.finish n (.error .timeout)).result n = some (.error .timeout) :=
                  result_setThread hn _ s.queue
                rw [hres]
                refine (honest_timedOut (h.threads _ (List.mem_of_getElem? hn)).2).trans ?_
                rw [wrongTurn, htimed, Bool.true_and]
          · rw [if_neg htimed]
            refine iff_of_true (fun t hmem => nomatch hmem) ?_
            rw [Bool.not_eq_true] at htimed
            cases phase <;> simp [wrongTurn, htimed]
  | _ => exact iff_of_true (fun t hmem => nomatch hmem) rfl

/-! ### Runs -/

/-- The end of a run of the queue, with its record. -/
def record (w : Nat) (b : Backend κ α) (maxSeconds : Nat) (as : List (Action w α)) :
    Option (State w κ α × List (Turn w α)) :=
  ((machine w b maxSeconds).logged (turns b)).run ((machine w b maxSeconds).init, []) as

/-- In every run the calls honour their deadlines if and only if no step goes wrong. -/
def HonoursUnlessWrong (w : Nat) (b : Backend κ α) (maxSeconds : Nat) : Prop :=
  ∀ as s log, record w b maxSeconds as = some (s, log) →
    ((∀ t ∈ log, t.Honest b.tickUs) ↔
      (machine w b maxSeconds).RunOk (fun s a => goesWrong b s a = false)
        (machine w b maxSeconds).init as)

theorem honoursUnlessWrong (w : Nat) (b : Backend κ α) (maxSeconds : Nat) :
    HonoursUnlessWrong w b maxSeconds := by
  intro as s log hrun
  have hiff := Machine.logged_run_iff (fun s a => goesWrong b s a = false)
    (fun s a s' hr hs => honest_step (Kept.of_reachable hr) hs) .init hrun
  exact hiff.trans (and_iff_right (fun t hmem => (List.not_mem_nil hmem).elim))

/-- The calls of a run of any of the three backends honour their deadlines if and only if no step
of it goes wrong. -/
theorem hostedQueues_honour (w size usecPerTick capacity maxSeconds : Nat) (buf : Nat → UInt8)
    (cache : α) :
    HonoursUnlessWrong w (linux size buf capacity) maxSeconds ∧
      HonoursUnlessWrong w (posix size buf capacity) maxSeconds ∧
      HonoursUnlessWrong w (nuttx usecPerTick cache capacity) maxSeconds :=
  ⟨honoursUnlessWrong w _ maxSeconds, honoursUnlessWrong w _ maxSeconds,
    honoursUnlessWrong w _ maxSeconds⟩

/-- The run ends with a turn in which a call has not honoured its deadline. -/
def Breaks (w : Nat) (b : Backend κ α) (maxSeconds : Nat) (as : List (Action w α)) : Prop :=
  ∃ s log t, record w b maxSeconds as = some (s, log) ∧ t ∈ log ∧ ¬ t.Honest b.tickUs

/-- It is woken at or after its time and waits again, or it returns `timeout` before its time or
though there is something for it. -/
def Turn.breaks (tickUs : Nat) (t : Turn w α) : Bool :=
  match t.result with
  | none => t.wakeUp && endNs tickUs t.begun t.timeout ≤ t.time
  | some (.error .timeout) => t.time < endNs tickUs t.begun t.timeout || ! t.blocked
  | _ => false

theorem Turn.Honest.not_breaks {tickUs : Nat} {t : Turn w α} (h : t.Honest tickUs) :
    t.breaks tickUs = false := by
  unfold Turn.breaks
  split
  case h_1 hnone =>
    by_contra hbreaks
    obtain ⟨hwake, hover⟩ := Bool.and_eq_true_iff.mp (Bool.not_eq_false _ ▸ hbreaks)
    exact h.returns hwake (of_decide_eq_true hover) hnone
  case h_2 htimeout =>
    obtain ⟨hover, hblocked⟩ := h.timeout htimeout
    rw [hblocked, decide_eq_false (Nat.not_lt.mpr hover)]
    rfl
  case h_3 => rfl

theorem Breaks.of_record {as : List (Action w α)}
    (h : (record w b maxSeconds as).map (fun p => p.2.any (Turn.breaks b.tickUs)) = some true) :
    Breaks w b maxSeconds as := by
  obtain ⟨⟨s, log⟩, hrun, hany⟩ := Option.map_eq_some_iff.mp h
  obtain ⟨t, hmem, hbreaks⟩ := List.any_eq_true.mp hany
  refine ⟨s, log, t, hrun, hmem, fun hhonest => ?_⟩
  rw [hhonest.not_breaks] at hbreaks
  cases hbreaks

/-- A receive with a timeout of 10 ticks at time 0: it is woken after 9 ms, and again after
17 ms, each time with nothing in the queue. -/
def lateReceive : List (Action 32 α) :=
  [.spawn, .call 0 .receive 10, .resume 0, .tick 9000000, .wake 0, .resume 0, .tick 8000000,
    .wake 0, .resume 0]

/-- Its wait is timed out after 10 ms, and an item comes before it has the mutex. -/
def missedItem (item : α) : List (Action 32 α) :=
  [.spawn, .spawn, .call 0 .receive 10, .resume 0, .tick 10000000, .expire 0,
    .call 1 (.send item) 0, .resume 1, .resume 0]

/-- The first receive goes on waiting after its time, and the second returns `timeout` with an
item in the queue; with ticks of 10 ms a receive returns `timeout` after a tenth of its time. -/
theorem hostedQueues_drift :
    (Breaks 32 (linux 1 (fun _ => 0) 1) (2 ^ 63 - 1) lateReceive ∧
      Breaks 32 (posix 1 (fun _ => 0) 1) (2 ^ 63 - 1) lateReceive ∧
      Breaks 32 (nuttx 1000 (0 : UInt8) 1) (2 ^ 63 - 1) lateReceive) ∧
    (Breaks 32 (linux 1 (fun _ => 0) 1) (2 ^ 63 - 1) (missedItem #v[7]) ∧
      Breaks 32 (posix 1 (fun _ => 0) 1) (2 ^ 63 - 1) (missedItem #v[7]) ∧
      Breaks 32 (nuttx 1000 (0 : UInt8) 1) (2 ^ 63 - 1) (missedItem 7)) ∧
    Breaks 32 (nuttx 10000 (0 : UInt8) 1) (2 ^ 63 - 1)
      [.spawn, .call 0 .receive 10, .resume 0, .tick 10000000, .expire 0, .resume 0] :=
  ⟨⟨.of_record (by decide +kernel), .of_record (by decide +kernel), .of_record (by decide +kernel)⟩,
    ⟨.of_record (by decide +kernel), .of_record (by decide +kernel),
      .of_record (by decide +kernel)⟩,
    .of_record (by decide +kernel)⟩

end MicrOsal.HostedQueue
