import MicrOsal.HostedWait.Client
import MicrOsal.Lib.Tally

/-!
# MicrOsal.HostedWait.Signal

`osal::wait_signal` (`include/osal/wait_signal.hpp`) over the hosted semaphore, with any number of
threads that notify and that try to wait.

The signal was created, so `status_` is ok; a give returns ok or overflow, which `notify` takes
for ok, so `failure_` is never stored.
-/

namespace MicrOsal.HostedWait.Signal

/-- The ticks of `wait_for_change`: `WAIT_FOREVER`, `NO_WAIT`, or others. -/
inductive Ticks
  | forever
  | noWait
  | finite
  deriving DecidableEq, Repr

/-- A thread, between two of its steps. `owner` says that it has the wait since `begin_wait`. -/
inductive Thread
  /-- Outside; `last` is what the last call returned. -/
  | outside (owner : Bool) (last : Option ErrorCode)
  /-- `wait_for_change`: about to load the generation. -/
  | checks (observed : BitVec 32) (ticks : Ticks)
  /-- Inside `osal_semaphore_take`: in the wait of the `sem_t`. -/
  | waits (observed : BitVec 32) (ticks : Ticks)
  /-- Inside `osal_semaphore_take`: about to decrement the count. -/
  | completes
  /-- `notify`: it has moved the generation, and is about to give. -/
  | gives (owner : Bool)
  /-- `notify`: between the compare-exchange of the give and `sem_post`. -/
  | posts (owner : Bool)
  deriving DecidableEq, Repr

structure State where
  generation : BitVec 32
  sem : Sem
  /-- `waiting_`. -/
  waiting : Bool
  threads : List Thread
  deriving DecidableEq, Repr

inductive Action
  | spawn
  | beginWait (n : Nat)
  | endWait (n : Nat)
  /-- `wait_for_change`, called only by the thread that has the wait. -/
  | waitForChange (n : Nat) (observed : BitVec 32) (ticks : Ticks)
  | notify (n : Nat)
  /-- A step of the call in progress; `timedOut` chooses how a wait of the `sem_t` ends, which
  has no end but success when the ticks are `WAIT_FOREVER`. -/
  | advance (n : Nat) (timedOut : Bool)
  deriving DecidableEq, Repr

namespace State

def setThread (s : State) (n : Nat) (th : Thread) : State :=
  { s with threads := s.threads.set n th }

/-- `begin_wait`: the test-and-set. -/
def beginWait (s : State) (n : Nat) : Option State :=
  match s.threads[n]? with
  | some (.outside owner _) =>
      if s.waiting then some (s.setThread n (.outside owner (some .alreadyExists)))
      else some ({ s with waiting := true }.setThread n (.outside true (some .ok)))
  | _ => none

/-- `end_wait`. -/
def endWait (s : State) (n : Nat) : Option State :=
  match s.threads[n]? with
  | some (.outside true last) =>
      some ({ s with waiting := false }.setThread n (.outside false last))
  | _ => none

def waitForChange (s : State) (n : Nat) (observed : BitVec 32) (ticks : Ticks) : Option State :=
  match s.threads[n]? with
  | some (.outside true _) => some (s.setThread n (.checks observed ticks))
  | _ => none

/-- `notify_impl`: the fetch-and-add of the generation. -/
def notify (s : State) (n : Nat) : Option State :=
  match s.threads[n]? with
  | some (.outside owner _) =>
      some ({ s with generation := s.generation + 1 }.setThread n (.gives owner))
  | _ => none

def advance (s : State) (n : Nat) (timedOut : Bool) : Option State :=
  match s.threads[n]? with
  | some (.checks observed ticks) =>
      if s.generation ≠ observed then some (s.setThread n (.outside true (some .ok)))
      else some (s.setThread n (.waits observed ticks))
  | some (.waits _ ticks) =>
      if timedOut then
        match ticks with
        | .forever => none
        | .noWait =>
            -- `sem_trywait` fails when the value is 0
            if 0 < s.sem.value then none
            else some (s.setThread n (.outside true (some .wouldBlock)))
        | .finite => some (s.setThread n (.outside true (some .timeout)))
      else if 0 < s.sem.value then
        some ({ s with sem := s.sem.wait }.setThread n .completes)
      else none
  | some .completes =>
      some ({ s with sem := s.sem.complete }.setThread n (.outside true (some .ok)))
  | some (.gives owner) =>
      -- overflow is returned as ok
      if s.sem.full then some (s.setThread n (.outside owner (some .ok)))
      else some ({ s with sem := s.sem.reserve }.setThread n (.posts owner))
  | some (.posts owner) =>
      some ({ s with sem := s.sem.post }.setThread n (.outside owner (some .ok)))
  | _ => none

def step (s : State) : Action → Option State
  | .spawn => some { s with threads := s.threads ++ [.outside false none] }
  | .beginWait n => s.beginWait n
  | .endWait n => s.endWait n
  | .waitForChange n observed ticks => s.waitForChange n observed ticks
  | .notify n => s.notify n
  | .advance n timedOut => s.advance n timedOut

end State

/-- A new signal. -/
def machine : Machine State Action where
  init := ⟨0, ⟨0, 0⟩, false, []⟩
  step := State.step

/-! ### What a step does -/

variable {s s' : State} {a : Action} {n : Nat} {th th' : Thread}

/-- The thread has the wait. -/
def Thread.owns : Thread → Bool
  | .outside owner _ | .gives owner | .posts owner => owner
  | .checks _ _ | .waits _ _ | .completes => true

/-- The thread has moved the generation, and goes on to give. -/
def Thread.notifies : Thread → Bool
  | .gives _ | .posts _ => true
  | .outside _ _ | .checks _ _ | .waits _ _ | .completes => false

/-- The thread has a permit in hand. -/
def Thread.holds : Thread → Bool
  | .posts _ | .completes => true
  | .outside _ _ | .checks _ _ | .waits _ _ | .gives _ => false

/-- A thread that goes from `th` to `th'`, and what happens to the rest. -/
inductive Goes (s : State) : Thread → Thread → State → Prop
  | refused {owner : Bool} {last : Option ErrorCode} :
      Goes s (.outside owner last) (.outside owner (some .alreadyExists)) s
  | claims {owner : Bool} {last : Option ErrorCode} (hfree : s.waiting = false) :
      Goes s (.outside owner last) (.outside true (some .ok)) { s with waiting := true }
  | ends {last : Option ErrorCode} :
      Goes s (.outside true last) (.outside false last) { s with waiting := false }
  | enters {last : Option ErrorCode} {observed : BitVec 32} {ticks : Ticks} :
      Goes s (.outside true last) (.checks observed ticks) s
  | bumps {owner : Bool} {last : Option ErrorCode} :
      Goes s (.outside owner last) (.gives owner) { s with generation := s.generation + 1 }
  | changed {observed : BitVec 32} {ticks : Ticks} :
      Goes s (.checks observed ticks) (.outside true (some .ok)) s
  | sleeps {ticks : Ticks} : Goes s (.checks s.generation ticks) (.waits s.generation ticks) s
  | expires {observed : BitVec 32} {ticks : Ticks} {code : ErrorCode} :
      Goes s (.waits observed ticks) (.outside true (some code)) s
  | takes {observed : BitVec 32} {ticks : Ticks} (hvalue : 0 < s.sem.value) :
      Goes s (.waits observed ticks) .completes { s with sem := s.sem.wait }
  | completes : Goes s .completes (.outside true (some .ok)) { s with sem := s.sem.complete }
  | overflows {owner : Bool} (hfull : s.sem.full) :
      Goes s (.gives owner) (.outside owner (some .ok)) s
  | reserves {owner : Bool} (hfull : ¬ s.sem.full) :
      Goes s (.gives owner) (.posts owner) { s with sem := s.sem.reserve }
  | posts {owner : Bool} :
      Goes s (.posts owner) (.outside owner (some .ok)) { s with sem := s.sem.post }

theorem goes_of_advance {timedOut : Bool} (hs : s.advance n timedOut = some s') :
    ∃ th th' t, s.threads[n]? = some th ∧ Goes s th th' t ∧ s' = t.setThread n th' := by
  unfold State.advance at hs
  cases hn : s.threads[n]? with
  | none =>
      rw [hn] at hs
      cases hs
  | some th =>
      rw [hn] at hs
      cases th with
      | outside => cases hs
      | checks observed ticks =>
          dsimp only at hs
          by_cases heq : s.generation = observed
          · subst heq
            rw [if_neg (not_not.mpr rfl)] at hs
            cases hs
            exact ⟨_, _, s, rfl, .sleeps, rfl⟩
          · rw [if_pos heq] at hs
            cases hs
            exact ⟨_, _, s, rfl, .changed, rfl⟩
      | waits observed ticks =>
          dsimp only at hs
          cases timedOut with
          | true =>
              cases ticks with
              | forever => cases hs
              | noWait =>
                  rw [if_pos rfl] at hs
                  dsimp only at hs
                  split at hs
                  case isTrue => cases hs
                  case isFalse =>
                    cases hs
                    exact ⟨_, _, s, rfl, .expires, rfl⟩
              | finite =>
                  cases hs
                  exact ⟨_, _, s, rfl, .expires, rfl⟩
          | false =>
              rw [if_neg Bool.false_ne_true] at hs
              split at hs
              case isTrue hvalue =>
                cases hs
                exact ⟨_, _, _, rfl, .takes hvalue, rfl⟩
              case isFalse => cases hs
      | completes =>
          cases hs
          exact ⟨_, _, _, rfl, .completes, rfl⟩
      | gives owner =>
          dsimp only at hs
          split at hs
          case isTrue hfull =>
            cases hs
            exact ⟨_, _, s, rfl, .overflows hfull, rfl⟩
          case isFalse hfull =>
            cases hs
            exact ⟨_, _, _, rfl, .reserves hfull, rfl⟩
      | posts owner =>
          cases hs
          exact ⟨_, _, _, rfl, .posts, rfl⟩

/-- A step is a new thread, or a thread that goes on. -/
theorem goes_of_step (hs : s.step a = some s') :
    s' = { s with threads := s.threads ++ [.outside false none] } ∨
      ∃ n th th' t, s.threads[n]? = some th ∧ Goes s th th' t ∧ s' = t.setThread n th' := by
  cases a with
  | spawn => exact .inl (Option.some.inj hs).symm
  | beginWait n =>
      dsimp only [State.step] at hs
      unfold State.beginWait at hs
      split at hs
      case h_1 owner last hn =>
        split at hs
        case isTrue =>
          cases hs
          exact .inr ⟨n, _, _, s, hn, .refused, rfl⟩
        case isFalse hfree =>
          cases hs
          exact .inr ⟨n, _, _, _, hn, .claims (Bool.eq_false_iff.mpr hfree), rfl⟩
      case h_2 => cases hs
  | endWait n =>
      dsimp only [State.step] at hs
      unfold State.endWait at hs
      split at hs
      case h_1 last hn =>
        cases hs
        exact .inr ⟨n, _, _, _, hn, .ends, rfl⟩
      case h_2 => cases hs
  | waitForChange n observed ticks =>
      dsimp only [State.step] at hs
      unfold State.waitForChange at hs
      split at hs
      case h_1 last hn =>
        cases hs
        exact .inr ⟨n, _, _, s, hn, .enters, rfl⟩
      case h_2 => cases hs
  | notify n =>
      dsimp only [State.step] at hs
      unfold State.notify at hs
      split at hs
      case h_1 owner last hn =>
        cases hs
        exact .inr ⟨n, .outside owner last, .gives owner, _, hn, .bumps, rfl⟩
      case h_2 => cases hs
  | advance n timedOut => exact .inr ⟨n, goes_of_advance hs⟩

/-! ### No waiter is left asleep -/

/-- `count` is the value and the permits in hand, one thread at most has the wait, and a thread
that waits has seen the current generation, or will be woken. -/
structure Kept (s : State) : Prop where
  counts : s.sem.count = s.sem.value + s.threads.countP Thread.holds
  bound : s.sem.count ≤ 1
  owner : s.threads.countP Thread.owns = s.waiting.toNat
  awake : ∀ (n : Nat) (observed : BitVec 32) (ticks : Ticks),
    s.threads[n]? = some (.waits observed ticks) →
      s.generation = observed ∨ 0 < s.sem.value ∨ 0 < s.threads.countP Thread.notifies

theorem Kept.owner_le (h : Kept s) : s.threads.countP Thread.owns ≤ 1 := by
  rw [h.owner]
  exact Bool.toNat_le s.waiting

/-- The thread that waits is the only one that has the wait. -/
theorem Kept.eq_of_waits {m : Nat} {observed : BitVec 32} {ticks : Ticks} (h : Kept s)
    (hm : s.threads[m]? = some (.waits observed ticks)) (hn : s.threads[n]? = some th)
    (howns : th.owns = true) : n = m :=
  eq_of_countP_le_one h.owner_le hn hm howns rfl

/-- While a thread waits, the permits in hand are about to be posted. -/
theorem Kept.posts_of_full {m : Nat} {observed : BitVec 32} {ticks : Ticks} (h : Kept s)
    (hm : s.threads[m]? = some (.waits observed ticks)) (hfull : s.sem.full) :
    0 < s.sem.value ∨ ∃ (k : Nat) (owner : Bool), s.threads[k]? = some (.posts owner) := by
  have hcounts := h.counts
  have hfull : 1 ≤ s.sem.count := hfull
  rcases Nat.eq_zero_or_pos s.sem.value with hzero | hpos
  · have hholds : 0 < s.threads.countP Thread.holds := by omega
    obtain ⟨th, hmem, hth⟩ := List.countP_pos_iff.mp hholds
    obtain ⟨k, hk⟩ := List.getElem?_of_mem hmem
    cases th with
    | posts owner => exact .inr ⟨k, owner, hk⟩
    | completes =>
        obtain rfl := h.eq_of_waits hm hk rfl
        cases hm.symm.trans hk
    | outside | checks | waits | gives => cases hth
  · exact .inl hpos

theorem countP_pos_of {p : Thread → Bool} {l : List Thread} (hn : l[n]? = some th)
    (hp : p th = true) : 0 < l.countP p :=
  List.countP_pos_iff.mpr ⟨th, List.mem_of_getElem? hn, hp⟩

/-- A thread that waits will be woken. -/
def State.Awake (s : State) (observed : BitVec 32) : Prop :=
  s.generation = observed ∨ 0 < s.sem.value ∨ 0 < s.threads.countP Thread.notifies

theorem countP_set_toNat {l : List Thread} (p : Thread → Bool) (th' : Thread)
    (hn : l[n]? = some th) :
    (l.set n th').countP p + (p th).toNat = l.countP p + (p th').toNat := by
  have hset := countP_set (b := th') p hn
  cases hp : p th <;> cases hp' : p th' <;> simpa [hp, hp'] using hset

/-- Thread `n` goes on, and threads that wait are as before. -/
theorem Kept.moved {t : State} (h : Kept s) (hn : s.threads[n]? = some th)
    (hthreads : t.threads = s.threads)
    (hcount : t.sem.count + s.sem.value + th.holds.toNat =
      t.sem.value + s.sem.count + th'.holds.toNat)
    (hbound : t.sem.count ≤ 1)
    (howner : t.waiting.toNat + th.owns.toNat = s.waiting.toNat + th'.owns.toNat)
    (hself : ∀ observed ticks, th' = .waits observed ticks → t.generation = observed)
    (hawake : ∀ (m : Nat) (observed : BitVec 32) (ticks : Ticks), m ≠ n →
      s.threads[m]? = some (.waits observed ticks) → s.Awake observed →
      (t.setThread n th').Awake observed) : Kept (t.setThread n th') := by
  have hcounts := h.counts
  have howners := h.owner
  have hholds := countP_set_toNat Thread.holds th' hn
  have howns := countP_set_toNat Thread.owns th' hn
  refine ⟨?_, hbound, ?_, fun m observed ticks hm => ?_⟩
  · change t.sem.count = t.sem.value + (t.threads.set n th').countP Thread.holds
    rw [hthreads]
    omega
  · change (t.threads.set n th').countP Thread.owns = t.waiting.toNat
    rw [hthreads]
    omega
  · have hm : (t.threads.set n th')[m]? = some (.waits observed ticks) := hm
    rw [hthreads] at hm
    rcases getElem?_set_cases hm with ⟨-, heq⟩ | ⟨hmn, hm⟩
    · exact .inl (hself observed ticks heq.symm)
    · exact hawake m observed ticks hmn hm (h.awake m observed ticks hm)

/-- What threads that wait rely on is kept when no value and no notifier is lost. -/
theorem State.Awake.keep {t : State} {observed : BitVec 32} (h : s.Awake observed)
    (hn : s.threads[n]? = some th) (hthreads : t.threads = s.threads)
    (hgeneration : t.generation = s.generation) (hvalue : s.sem.value ≤ t.sem.value)
    (hnotifies : th.notifies = true → th'.notifies = true) :
    (t.setThread n th').Awake observed := by
  rcases h with heq | hpos | hpos
  · exact .inl (hgeneration.trans heq)
  · exact .inr (.inl (lt_of_lt_of_le hpos hvalue))
  · refine .inr (.inr (lt_of_lt_of_le hpos ?_))
    change _ ≤ (t.threads.set n th').countP Thread.notifies
    rw [hthreads]
    exact le_countP_set hn hnotifies

/-- A thread that comes to notify wakes the others. -/
theorem awake_of_notifies {t : State} {observed : BitVec 32} (hn : s.threads[n]? = some th)
    (hthreads : t.threads = s.threads) (hnotifies : th'.notifies = true) :
    (t.setThread n th').Awake observed := by
  have hself : (t.threads.set n th')[n]? = some th' := by
    rw [hthreads]
    exact List.getElem?_set_self (List.getElem?_eq_some_iff.mp hn).1
  exact .inr (.inr (countP_pos_of hself hnotifies))

/-- A thread that waits is not the one that goes on with the wait. -/
theorem Kept.not_waits {m : Nat} {observed : BitVec 32} {ticks : Ticks} (h : Kept s)
    (hm : s.threads[m]? = some (.waits observed ticks)) (hmn : m ≠ n)
    (hn : s.threads[n]? = some th) : th.owns = false := by
  by_contra howns
  exact hmn (h.eq_of_waits hm hn (Bool.eq_true_of_not_eq_false howns)).symm

theorem Kept.goes {t : State} (h : Kept s) (hn : s.threads[n]? = some th)
    (hgoes : Goes s th th' t) : Kept (t.setThread n th') := by
  have hcounts := h.counts
  have hbound := h.bound
  have hswap : s.sem.count + s.sem.value + 0 = s.sem.value + s.sem.count + 0 := by omega
  cases hgoes with
  | refused | enters | changed | expires =>
      exact h.moved hn rfl hswap hbound rfl nofun
        (fun _ _ _ _ _ hold => hold.keep hn rfl rfl le_rfl nofun)
  | @claims owner last hfree =>
      -- nobody has the wait, so this thread had not
      have hnobody : owner = false := by
        have howner := h.owner
        rw [hfree] at howner
        cases owner with
        | false => rfl
        | true =>
            have hpos : 0 < s.threads.countP Thread.owns := countP_pos_of hn rfl
            rw [howner] at hpos
            cases hpos
      subst hnobody
      refine h.moved hn rfl hswap hbound ?_ nofun
        (fun _ _ _ _ _ hold => hold.keep hn rfl rfl le_rfl nofun)
      rw [hfree]
      rfl
  | ends =>
      have hwaiting : s.waiting = true := by
        have hpos : 0 < s.threads.countP Thread.owns := countP_pos_of hn rfl
        rw [h.owner] at hpos
        cases hw : s.waiting with
        | true => rfl
        | false =>
            rw [hw] at hpos
            cases hpos
      refine h.moved hn rfl hswap hbound ?_ nofun
        (fun _ _ _ _ _ hold => hold.keep hn rfl rfl le_rfl nofun)
      rw [hwaiting]
      rfl
  | bumps =>
      exact h.moved hn rfl hswap hbound rfl nofun
        (fun _ _ _ _ _ _ => awake_of_notifies hn rfl rfl)
  | sleeps =>
      refine h.moved hn rfl hswap hbound rfl (fun observed ticks heq => ?_)
        (fun _ _ _ _ _ hold => hold.keep hn rfl rfl le_rfl nofun)
      exact (Thread.waits.inj heq).1
  | takes hvalue =>
      refine h.moved hn rfl ?_ hbound rfl nofun (fun m observed ticks hmn hm _ => ?_)
      · change s.sem.count + s.sem.value + 0 = s.sem.value - 1 + s.sem.count + 1
        omega
      · cases h.not_waits hm hmn hn
  | completes =>
      have hholds : 0 < s.threads.countP Thread.holds := countP_pos_of hn rfl
      refine h.moved hn rfl ?_ ((Nat.sub_le _ _).trans hbound) rfl nofun
        (fun m observed ticks hmn hm _ => ?_)
      · change s.sem.count - 1 + s.sem.value + 1 = s.sem.value + s.sem.count + 0
        omega
      · cases h.not_waits hm hmn hn
  | @overflows owner hfull =>
      refine h.moved hn rfl hswap hbound rfl nofun (fun m observed ticks hmn hm _ => ?_)
      rcases h.posts_of_full hm hfull with hpos | ⟨k, other, hk⟩
      · exact .inr (.inl hpos)
      · -- the permit in hand is another thread's
        have hkn : n ≠ k := by
          rintro rfl
          cases hn.symm.trans hk
        exact .inr (.inr (countP_pos_of ((List.getElem?_set_ne hkn).trans hk) rfl))
  | reserves hfull =>
      refine h.moved hn rfl ?_ (not_le.mp hfull) rfl nofun
        (fun _ _ _ _ _ _ => awake_of_notifies hn rfl rfl)
      change s.sem.count + 1 + s.sem.value + 0 = s.sem.value + s.sem.count + 1
      omega
  | posts =>
      refine h.moved hn rfl ?_ hbound rfl nofun (fun _ _ _ _ _ _ => .inr (.inl ?_))
      · change s.sem.count + s.sem.value + 1 = s.sem.value + 1 + s.sem.count + 0
        omega
      · exact Nat.succ_pos _

theorem Kept.step (h : Kept s) (hs : s.step a = some s') : Kept s' := by
  rcases goes_of_step hs with rfl | ⟨n, th, th', t, hn, hgoes, rfl⟩
  · have hadd : ∀ p : Thread → Bool, p (.outside false none) = false →
        (s.threads ++ [Thread.outside false none]).countP p = s.threads.countP p := by
      intro p hp
      rw [List.countP_append, List.countP_singleton, hp]
      rfl
    refine ⟨?_, h.bound, ?_, fun n observed ticks hn => ?_⟩
    · rw [hadd Thread.holds rfl]
      exact h.counts
    · rw [hadd Thread.owns rfl]
      exact h.owner
    · rw [hadd Thread.notifies rfl]
      rcases getElem?_concat_cases hn with hn | ⟨-, heq⟩
      · exact h.awake n observed ticks hn
      · cases heq
  · exact h.goes hn hgoes

theorem Kept.of_reachable (h : machine.Reachable s) : Kept s := by
  refine h.invariant (I := Kept) ⟨rfl, Nat.zero_le 1, rfl, fun n observed ticks hn => ?_⟩
    (fun _ _ _ _ hi hs => hi.step hs)
  cases hn

/-- A thread that waits on a `sem_t` of value 0, although the generation has changed, will be
woken: a thread is between the compare-exchange and `sem_post` of its give, or it has moved the
generation and has not entered the give yet. -/
structure SignalAwake (s : State) : Prop where
  generation : ∀ (n : Nat) (observed : BitVec 32) (ticks : Ticks),
    s.threads[n]? = some (.waits observed ticks) → s.sem.value = 0 → s.generation ≠ observed →
      ∃ (m : Nat) (owner : Bool),
        s.threads[m]? = some (.posts owner) ∨ s.threads[m]? = some (.gives owner)

theorem signalAwake (h : machine.Reachable s) : SignalAwake s := by
  refine ⟨fun n observed ticks hn hvalue hchanged => ?_⟩
  rcases (Kept.of_reachable h).awake n observed ticks hn with heq | hpos | hnotifies
  · exact absurd heq hchanged
  · rw [hvalue] at hpos
    cases hpos
  · obtain ⟨th, hmem, hth⟩ := List.countP_pos_iff.mp hnotifies
    obtain ⟨m, hm⟩ := List.getElem?_of_mem hmem
    cases th with
    | posts owner => exact ⟨m, owner, .inl hm⟩
    | gives owner => exact ⟨m, owner, .inr hm⟩
    | outside | checks | waits | completes => cases hth

end MicrOsal.HostedWait.Signal
