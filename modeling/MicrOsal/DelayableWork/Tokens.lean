import MicrOsal.DelayableWork.Model

/-!
# MicrOsal.DelayableWork.Tokens

The right to submit or run the item's thunk is a token. It appears when
`state_` leaves `idle` or `armed` for `queued`, travels from the caller or the
timer callback into the queue and on to a worker, and disappears when whoever
holds it stores `idle`. The invariant (`DwTok`) says that at most one agent
holds it and that nobody does unless the state is `queued` or `running`; so the
`store_state` of an agent that loads first and stores later never overwrites a
word it has not seen.

All of this needs one thing from the environment: `timer_.start()` succeeds.
The item gives up an arming whose timer did not start with an unconditional
store, which may then race with a callback of an earlier arming.
-/

namespace MicrOsal

/-! ### The state word -/

/-- The word for arming `n` and state `st`. -/
def dwWord (n : Nat) (st : DwState) : BitVec 32 := tagged 32 3 n st.code

theorem DwState.code_lt (st : DwState) : st.code < 2 ^ 3 := by
  cases st <;> decide

theorem DwState.code_inj {st st' : DwState} (h : st.code = st'.code) : st = st' := by
  cases st <;> cases st' <;> first | rfl | cases h

theorem kStateMask_eq : kStateMask = tagMask 32 3 := by decide

@[simp] theorem decodeState_dwWord (n : Nat) (st : DwState) :
    decodeState (dwWord n st) = some st := by
  unfold decodeState dwWord
  rw [kStateMask_eq, tagged_and_mask (by decide) st.code_lt]
  cases st <;> rfl

@[simp] theorem withState_dwWord (n : Nat) (st st' : DwState) :
    withState (dwWord n st) st' = dwWord n st' := by
  unfold withState dwWord
  rw [kStateMask_eq, tagged_and_not_mask (by decide) st.code_lt,
    tagged_or (by decide) st'.code_lt]

/-- Any word is a generation and a tag, which need not be an enumerator. -/
theorem eq_tagged (raw : BitVec 32) :
    raw = tagged 32 3 (raw.toNat / 2 ^ 3) (raw.toNat % 2 ^ 3) := by
  rw [tagged, Nat.div_add_mod', BitVec.ofNat_toNat, BitVec.setWidth_eq]

/-- Whatever the word was, `with_state` leaves the state it was asked for. -/
@[simp] theorem decodeState_withState (raw : BitVec 32) (st : DwState) :
    decodeState (withState raw st) = some st := by
  have hword : withState raw st = dwWord (raw.toNat / 2 ^ 3) st := by
    unfold withState dwWord
    conv_lhs => rw [eq_tagged raw, kStateMask_eq]
    rw [tagged_and_not_mask (by decide) (Nat.mod_lt _ (by decide)),
      tagged_or (by decide) st.code_lt]
  rw [hword, decodeState_dwWord]

@[simp] theorem armWord_dwWord (n : Nat) (st : DwState) :
    armWord (dwWord n st) = dwWord (n + 1) .armed := by
  unfold armWord dwWord
  rw [kStateMask_eq, tagged_and_not_mask (by decide) st.code_lt,
    show kGenerationStep = BitVec.ofNat 32 (2 ^ 3) by decide, tagged_step,
    tagged_or (by decide) (DwState.code_lt _)]

/-- Whatever the word was, `arm_locked` leaves `armed`. -/
@[simp] theorem decodeState_armWord (raw : BitVec 32) :
    decodeState (armWord raw) = some .armed := by
  have hword : armWord raw = dwWord (raw.toNat / 2 ^ 3 + 1) .armed := by
    unfold armWord dwWord
    conv_lhs => rw [eq_tagged raw, kStateMask_eq]
    rw [tagged_and_not_mask (by decide) (Nat.mod_lt _ (by decide)),
      show kGenerationStep = BitVec.ofNat 32 (2 ^ 3) by decide, tagged_step,
      tagged_or (by decide) (DwState.code_lt _)]
  rw [hword, decodeState_dwWord]

/-- Words agree exactly when the states do and the armings are congruent. -/
theorem dwWord_inj {n m : Nat} {st st' : DwState} :
    dwWord n st = dwWord m st' ↔ st = st' ∧ n % 2 ^ 29 = m % 2 ^ 29 := by
  unfold dwWord
  rw [tagged_inj (by decide) st.code_lt st'.code_lt]
  constructor
  · rintro ⟨hcode, hmod⟩
    exact ⟨DwState.code_inj hcode, hmod⟩
  · rintro ⟨rfl, hmod⟩
    exact ⟨rfl, hmod⟩

/-! ### Who holds the token -/

/-- The places a token can be. -/
inductive DwAgent
  | caller
  | expiry (i : Nat)
  | slot (k : Nat)
  | worker (j : Nat)
  deriving DecidableEq

/-- The call whose token the lock holder has. -/
def DwCaller.token : DwCaller → Option Nat
  | .submit c | .store c (.failed _) | .storeRaw c (.failed _) _ => some c.id
  | _ => none

/-- The call whose token a timer callback has. -/
def DwExpiry.token : DwExpiry → Option Nat
  | .submit id _ _ | .failLoad id | .failStore id _ => some id
  | _ => none

/-- The call whose token a worker has. -/
def DwWorker.token : DwWorker → Option Nat
  | .idle => none
  | .entry id | .cas id _ | .callback id | .doneLoad id | .doneCas id _ => some id

/-- The state the item is in while a worker is at this point. -/
def DwWorker.state : DwWorker → DwState
  | .callback _ | .doneLoad _ | .doneCas _ _ => .running
  | _ => .queued

/-- The token at an agent. -/
def DwSys.token (s : DwSys) : DwAgent → Option Nat
  | .caller => s.holder.token
  | .expiry i => (s.expiries i).token
  | .slot k => s.queue[k]?
  | .worker j => (s.workers j).token

/-- The state the item is in while the agent holds the token. -/
def DwSys.tokenState (s : DwSys) : DwAgent → DwState
  | .worker j => (s.workers j).state
  | _ => .queued

/-- The word an agent loaded, if it is between the two halves of an update, is
still the current one. -/
def DwSys.RawOk (s : DwSys) : DwAgent → Prop
  | .expiry i =>
    match s.expiries i with
    | .failStore _ raw => raw = s.word
    | _ => True
  | .worker j =>
    match s.workers j with
    | .cas _ raw | .doneCas _ raw => raw = s.word
    | _ => True
  | _ => True

/-- A timer callback that read the state found it armed. -/
def DwExpiry.RawArmed : DwExpiry → Prop
  | .readStartHigh raw loaded | .readStartLow raw loaded _ | .readDelayHigh raw loaded _
  | .readDelayLow raw loaded _ _ | .readClock raw loaded _ _ | .cas raw loaded _ =>
    raw = dwWord loaded .armed
  | _ => True

/-- What the lock holder knows about the state at each point. -/
def DwCaller.Knows (word : BitVec 32) (st : DwState) : DwCaller → Prop
  | .cas _ raw => ∃ n, raw = dwWord n .armed
  | .stop _ _ | .store _ .stopped | .store _ (.restored _) => st = .stopping
  | .storeRaw _ .stopped raw | .storeRaw _ (.restored _) raw => st = .stopping ∧ raw = word
  | .begin _ | .armNow _ | .armPeriod _ _ | .armStartLow _ _ | .armStartHigh _ _
  | .armDelayLow _ _ | .armDelayHigh _ _ | .armLoad _ _ | .store _ .enqueue => st = .idle
  | .armStore _ _ raw | .storeRaw _ .enqueue raw => st = .idle ∧ raw = word
  | .submit _ | .store _ (.failed _) => st = .queued
  | .storeRaw _ (.failed _) raw => st = .queued ∧ raw = word
  | _ => True

/-- The token invariant: the state word, the only agent `o` that may hold a
token, and what each agent relies on. -/
structure DwTok (s : DwSys) (st : DwState) (o : Option DwAgent) : Prop where
  word : s.word = dwWord s.armings st
  owner : ∀ a, s.token a ≠ none → o = some a
  agent : ∀ a, s.token a ≠ none → s.tokenState a = st ∧ s.RawOk a
  holder : s.holder.Knows s.word st
  expiry : ∀ i, (s.expiries i).RawArmed

namespace DwTok

variable {s s' : DwSys} {st st' : DwState} {o : Option DwAgent}

theorem decode (h : DwTok s st o) : decodeState s.word = some st := by
  rw [h.word, decodeState_dwWord]

/-- Nobody holds a token unless the state is `queued` or `running`. -/
theorem none_of_state (h : DwTok s st o) (hq : st ≠ .queued) (hr : st ≠ .running) (a : DwAgent) :
    s.token a = none := by
  by_contra ha
  have hst := (h.agent a ha).1
  cases a with
  | worker j =>
      simp only [DwSys.tokenState] at hst
      unfold DwWorker.state at hst
      split at hst
      · exact hr hst.symm
      · exact hr hst.symm
      · exact hr hst.symm
      · exact hq hst.symm
  | _ => exact hq hst.symm

/-- If one agent holds the token, no other does. -/
theorem none_of_owner (h : DwTok s st o) {a b : DwAgent} (ha : s.token a ≠ none) (hb : b ≠ a) :
    s.token b = none := by
  by_contra hb'
  have hab := (h.owner a ha).symm.trans (h.owner b hb')
  exact hb (Option.some.inj hab).symm

/-- The holder's knowledge about `idle` and `stopping` excludes every token. -/
theorem knows_of_none {word word' : BitVec 32} {c : DwCaller} (hk : c.Knows word st)
    (htok : c.token = none) (hi : st ≠ .idle) (hs : st ≠ .stopping) : c.Knows word' st' := by
  cases c with
  | store c next =>
      cases next with
      | failed code => cases htok
      | enqueue => exact absurd hk hi
      | _ => exact absurd hk hs
  | storeRaw c next raw =>
      cases next with
      | failed code => cases htok
      | enqueue => exact absurd hk.1 hi
      | _ => exact absurd hk.1 hs
  | stop c result => exact absurd hk hs
  | submit c => cases htok
  | armStore c now raw => exact absurd hk.1 hi
  | begin c | armNow c => exact absurd hk hi
  | armPeriod c now | armStartLow c now | armStartHigh c now | armDelayLow c now
  | armDelayHigh c now | armLoad c now => exact absurd hk hi
  | cas c raw => exact hk
  | _ => trivial

/-- A step that leaves the word alone and creates no token. -/
theorem shrink (h : DwTok s st o) (hword : s'.word = s.word) (harm : s'.armings = s.armings)
    (hsub : ∀ a, s'.token a ≠ none →
      s.token a ≠ none ∧ s'.tokenState a = s.tokenState a ∧ (s.RawOk a → s'.RawOk a))
    (hk : s'.holder.Knows s.word st) (hexp : ∀ i, (s'.expiries i).RawArmed) : DwTok s' st o where
  word := by rw [hword, harm, h.word]
  owner a ha := h.owner a (hsub a ha).1
  agent a ha := by
    obtain ⟨ha', hst, hraw⟩ := hsub a ha
    exact ⟨hst.trans (h.agent a ha').1, hraw (h.agent a ha').2⟩
  holder := by
    rw [hword]
    exact hk
  expiry := hexp

/-- A step after which at most agent `b` holds a token. -/
theorem single (b : DwAgent) (hword : s'.word = dwWord s'.armings st')
    (hone : ∀ a, a ≠ b → s'.token a = none)
    (hb : s'.token b ≠ none → s'.tokenState b = st' ∧ s'.RawOk b)
    (hk : s'.holder.Knows s'.word st') (hexp : ∀ i, (s'.expiries i).RawArmed) :
    DwTok s' st' (some b) where
  word := hword
  owner a ha := by
    by_cases hab : a = b
    · rw [hab]
    · exact absurd (hone a hab) ha
  agent a ha := by
    by_cases hab : a = b
    · subst hab
      exact hb ha
    · exact absurd (hone a hab) ha
  holder := hk
  expiry := hexp

/-- A step of the lock holder that leaves the word alone and neither gains nor
loses a token. -/
theorem moveHolder (h : DwTok s st o) (hword : s'.word = s.word) (harm : s'.armings = s.armings)
    (hexp : s'.expiries = s.expiries) (hwork : s'.workers = s.workers)
    (hqueue : s'.queue = s.queue) (htok : s'.holder.token = s.holder.token)
    (hk : s'.holder.Knows s.word st) : DwTok s' st o := by
  refine h.shrink hword harm (fun a ha => ?_) hk (by rw [hexp]; exact h.expiry)
  cases a with
  | caller =>
      refine ⟨?_, rfl, fun _ => trivial⟩
      show s.holder.token ≠ none
      rw [← htok]
      exact ha
  | expiry i =>
      refine ⟨?_, rfl, ?_⟩
      · simpa only [DwSys.token, hexp] using ha
      · simp only [DwSys.RawOk, hexp, hword]
        exact id
  | slot k =>
      refine ⟨?_, rfl, fun _ => trivial⟩
      simpa only [DwSys.token, hqueue] using ha
  | worker j =>
      refine ⟨?_, ?_, ?_⟩
      · simpa only [DwSys.token, hwork] using ha
      · simp only [DwSys.tokenState, hwork]
      · simp only [DwSys.RawOk, hwork, hword]
        exact id

/-- A step of the lock holder that changes the word while no other agent has a
token. -/
theorem holderStores (h : DwTok s st o) (hnone : ∀ a, a ≠ .caller → s.token a = none)
    (hexp : s'.expiries = s.expiries) (hwork : s'.workers = s.workers)
    (hqueue : s'.queue = s.queue) (hword : s'.word = dwWord s'.armings st')
    (hb : s'.holder.token ≠ none → st' = .queued) (hk : s'.holder.Knows s'.word st') :
    DwTok s' st' (some .caller) := by
  refine single .caller hword (fun a ha => ?_) (fun hc => ⟨(hb hc).symm, trivial⟩) hk
    (by rw [hexp]; exact h.expiry)
  have hold := hnone a ha
  cases a with
  | caller => exact absurd rfl ha
  | expiry i => simpa only [DwSys.token, hexp] using hold
  | slot k => simpa only [DwSys.token, hqueue] using hold
  | worker j => simpa only [DwSys.token, hwork] using hold

/-! ### The lock holder's steps -/

/-- A call that returns without having had a token. -/
theorem returns (h : DwTok s st o) (htok : s.holder.token = none) (c : DwCall) (code : ErrorCode) :
    DwTok (s.returns c code) st o :=
  h.moveHolder rfl rfl rfl rfl rfl htok.symm trivial

theorem casFails (h : DwTok s st o) (htok : s.holder.token = none) (c : DwCall)
    (expected : Option DwState) : DwTok (s.casFails c expected) st o := by
  unfold DwSys.casFails
  split
  · split
    · exact h.returns htok c _
    · exact h.returns htok c _
  · exact h.returns htok c _

theorem stepLoad (h : DwTok s st o) {c : DwCall} (hc : s.holder = .load c) :
    DwTok (s.stepLoad c) st o := by
  have htok : s.holder.token = none := by rw [hc]; rfl
  unfold DwSys.stepLoad
  rw [h.decode]
  dsimp only
  split
  · split
    · rename_i hidle
      exact h.moveHolder rfl rfl rfl rfl rfl htok.symm (Option.some.inj hidle)
    · exact h.returns htok c _
  · split
    · exact h.returns htok c _
    · rename_i hbusy
      split
      · exact h.moveHolder rfl rfl rfl rfl rfl htok.symm trivial
      · rename_i harmed
        refine h.moveHolder rfl rfl rfl rfl rfl htok.symm ?_
        -- the four other states have been excluded
        show st = .idle
        cases st with
        | idle => rfl
        | armed => exact absurd rfl harmed
        | queued => exact absurd (Or.inl rfl) hbusy
        | running => exact absurd (Or.inr (Or.inl rfl)) hbusy
        | stopping => exact absurd (Or.inr (Or.inr rfl)) hbusy
  · split
    · exact h.moveHolder rfl rfl rfl rfl rfl htok.symm trivial
    · exact h.moveHolder rfl rfl rfl rfl rfl htok.symm trivial

/-- The store of `store_state` by the lock holder. -/
theorem storeRaw (h : DwTok s st o) {c : DwCall} {next : DwNext} {raw : BitVec 32}
    (hc : s.holder = .storeRaw c next raw) :
    DwTok ({ s with word := withState raw next.value }.afterStore c next) next.value
      (some .caller) := by
  have hk := h.holder
  rw [hc] at hk
  have hraw : withState raw next.value = dwWord s.armings next.value := by
    have hraw' : raw = s.word := by
      cases next <;> exact hk.2
    rw [hraw', h.word, withState_dwWord]
  have hnone : ∀ a, a ≠ .caller → s.token a = none := by
    intro a ha
    cases next with
    | failed code =>
        refine h.none_of_owner (a := .caller) ?_ ha
        show s.holder.token ≠ none
        rw [hc]
        exact Option.some_ne_none _
    | enqueue => exact h.none_of_state (by rw [hk.1]; decide) (by rw [hk.1]; decide) a
    | stopped => exact h.none_of_state (by rw [hk.1]; decide) (by rw [hk.1]; decide) a
    | restored code => exact h.none_of_state (by rw [hk.1]; decide) (by rw [hk.1]; decide) a
  cases next with
  | stopped =>
      simp only [DwSys.afterStore]
      split
      · exact h.holderStores hnone rfl rfl rfl hraw (fun hne => absurd rfl hne) trivial
      · exact h.holderStores hnone rfl rfl rfl hraw (fun hne => absurd rfl hne) rfl
  | restored code => exact h.holderStores hnone rfl rfl rfl hraw (fun hne => absurd rfl hne) trivial
  | enqueue => exact h.holderStores hnone rfl rfl rfl hraw (fun _ => rfl) rfl
  | failed code => exact h.holderStores hnone rfl rfl rfl hraw (fun hne => absurd rfl hne) trivial

/-- No token in any slot means an empty queue. -/
theorem queue_nil (hslots : ∀ k, s.token (.slot k) = none) : s.queue = [] := by
  have h₀ : s.queue[0]? = none := hslots 0
  exact List.length_eq_zero_iff.mp (Nat.le_zero.mp (List.getElem?_eq_none_iff.mp h₀))

/-- A submission: the only token is now in the only slot. -/
theorem toSlot (id : Nat) (hword : s'.word = dwWord s'.armings .queued) (hqueue : s'.queue = [id])
    (hcaller : s'.holder.token = none) (hexp : ∀ i, (s'.expiries i).token = none)
    (hwork : ∀ j, (s'.workers j).token = none) (hk : s'.holder.Knows s'.word .queued)
    (hraw : ∀ i, (s'.expiries i).RawArmed) : DwTok s' .queued (some (.slot 0)) := by
  refine single (.slot 0) hword (fun a ha => ?_) (fun _ => ⟨rfl, trivial⟩) hk hraw
  cases a with
  | caller => exact hcaller
  | expiry i => exact hexp i
  | worker j => exact hwork j
  | slot k =>
      show s'.queue[k]? = none
      have hk : k ≠ 0 := fun h₀ => ha (by rw [h₀])
      rw [hqueue]
      exact List.getElem?_eq_none (by simp only [List.length_singleton]; omega)

theorem stepCaller {result : Option ErrorCode} {period : Nat} (h : DwTok s st o)
    (hstart : ∀ c, s.holder = .armStart c → result = none)
    (hs : s.stepCaller result period = some s') : ∃ st' o', DwTok s' st' o' := by
  have hk := h.holder
  unfold DwSys.stepCaller at hs
  generalize hc : s.holder = here at hs
  cases here with
  | free => cases hs
  | load c =>
      cases hs
      exact ⟨st, o, h.stepLoad hc⟩
  | casLoad c =>
      have htok : s.holder.token = none := by rw [hc]; rfl
      dsimp only at hs
      split at hs
      · rename_i harmed
        cases hs
        rw [h.decode] at harmed
        cases harmed
        exact ⟨.armed, o, h.moveHolder rfl rfl rfl rfl rfl htok.symm ⟨s.armings, h.word⟩⟩
      · cases hs
        exact ⟨st, o, h.casFails htok c _⟩
  | cas c raw =>
      rw [hc] at hk
      have htok : s.holder.token = none := by rw [hc]; rfl
      dsimp only at hs
      split at hs
      · rename_i heq
        cases hs
        obtain ⟨n, rfl⟩ := hk
        obtain ⟨rfl, -⟩ := dwWord_inj.mp (h.word.symm.trans heq)
        have hnone := h.none_of_state (by decide) (by decide)
        refine ⟨.stopping, _, h.holderStores (fun a _ => hnone a) rfl rfl rfl ?_
          (fun hne => absurd rfl hne) rfl⟩
        show withState (dwWord n .armed) .stopping = dwWord s.armings .stopping
        rw [← heq, h.word, withState_dwWord]
      · cases hs
        exact ⟨st, o, h.casFails htok c _⟩
  | stop c res =>
      rw [hc] at hk
      have htok : s.holder.token = none := by rw [hc]; rfl
      cases res with
      | none =>
          cases hs
          exact ⟨st, o, h.moveHolder rfl rfl rfl rfl rfl htok.symm hk⟩
      | some code =>
          cases hs
          exact ⟨st, o, h.moveHolder rfl rfl rfl rfl rfl htok.symm hk⟩
  | store c next =>
      rw [hc] at hk
      cases hs
      refine ⟨st, o, h.moveHolder rfl rfl rfl rfl rfl ?_ ?_⟩
      · rw [hc]
        cases next <;> rfl
      · cases next <;> exact ⟨hk, rfl⟩
  | storeRaw c next raw =>
      cases hs
      exact ⟨next.value, some .caller, h.storeRaw hc⟩
  | begin c =>
      rw [hc] at hk
      have htok : s.holder.token = none := by rw [hc]; rfl
      dsimp only at hs
      split at hs
      · cases hs
        exact ⟨st, o, h.moveHolder rfl rfl rfl rfl rfl htok.symm hk⟩
      · cases hs
        exact ⟨st, o, h.moveHolder rfl rfl rfl rfl rfl htok.symm hk⟩
  | armPeriod c now =>
      rw [hc] at hk
      have htok : s.holder.token = none := by rw [hc]; rfl
      dsimp only at hs
      split at hs
      · cases hs
        exact ⟨st, o, h.returns htok c _⟩
      · cases hs
        exact ⟨st, o, h.moveHolder rfl rfl rfl rfl rfl htok.symm hk⟩
  | armNow c =>
      rw [hc] at hk
      have htok : s.holder.token = none := by rw [hc]; rfl
      cases hs
      exact ⟨st, o, h.moveHolder rfl rfl rfl rfl rfl htok.symm hk⟩
  | armStartLow c now | armStartHigh c now | armDelayLow c now | armDelayHigh c now =>
      rw [hc] at hk
      have htok : s.holder.token = none := by rw [hc]; rfl
      cases hs
      exact ⟨st, o, h.moveHolder rfl rfl rfl rfl rfl htok.symm hk⟩
  | armLoad c now =>
      rw [hc] at hk
      have htok : s.holder.token = none := by rw [hc]; rfl
      cases hs
      exact ⟨st, o, h.moveHolder rfl rfl rfl rfl rfl htok.symm ⟨hk, rfl⟩⟩
  | armStore c now raw =>
      rw [hc] at hk
      obtain ⟨hst, rfl⟩ := hk
      cases hs
      have hnone := h.none_of_state (by rw [hst]; decide) (by rw [hst]; decide)
      refine ⟨.armed, _, h.holderStores (fun a _ => hnone a) rfl rfl rfl ?_
        (fun hne => absurd rfl hne) trivial⟩
      show armWord s.word = dwWord (s.armings + 1) .armed
      rw [h.word, armWord_dwWord]
  | armStart c =>
      have htok : s.holder.token = none := by rw [hc]; rfl
      obtain rfl := hstart c hc
      cases hs
      exact ⟨st, o, h.moveHolder rfl rfl rfl rfl rfl htok.symm trivial⟩
  | submit c =>
      rw [hc] at hk
      obtain rfl : st = .queued := hk
      have htok : s.token .caller ≠ none := by
        show s.holder.token ≠ none
        rw [hc]
        exact Option.some_ne_none _
      cases result with
      | some code =>
          cases hs
          exact ⟨.queued, o, h.moveHolder rfl rfl rfl rfl rfl (by rw [hc]; rfl) rfl⟩
      | none =>
          cases hs
          have hqueue := queue_nil fun k => h.none_of_owner htok (b := .slot k) (by simp)
          refine ⟨.queued, _, toSlot c.id h.word ?_ rfl
            (fun i => h.none_of_owner htok (b := .expiry i) (by simp))
            (fun j => h.none_of_owner htok (b := .worker j) (by simp)) trivial h.expiry⟩
          simp [DwSys.returns, hqueue]

/-! ### The timer callbacks' steps -/

theorem token_setExpiry (s : DwSys) (i : Nat) (pc : DwExpiry) (a : DwAgent) :
    (s.setExpiry i pc).token a = if a = .expiry i then pc.token else s.token a := by
  cases a with
  | expiry i' =>
      by_cases hi : i' = i
      · subst hi
        simp [DwSys.token, DwSys.setExpiry]
      · simp [DwSys.token, DwSys.setExpiry, hi]
  | _ => rfl

theorem rawArmed_setExpiry {i : Nat} {pc : DwExpiry} (hexp : ∀ i, (s.expiries i).RawArmed)
    (hpc : pc.RawArmed) (k : Nat) : ((s.setExpiry i pc).expiries k).RawArmed := by
  by_cases hk : k = i
  · subst hk
    simpa [DwSys.setExpiry] using hpc
  · simpa [DwSys.setExpiry, hk] using hexp k

theorem rawOk_setExpiry {i : Nat} {pc : DwExpiry} {a : DwAgent} (ha : a ≠ .expiry i)
    (hraw : s.RawOk a) : (s.setExpiry i pc).RawOk a := by
  cases a with
  | expiry i' =>
      have hi : i' ≠ i := fun h => ha (by rw [h])
      simpa [DwSys.RawOk, DwSys.setExpiry, hi] using hraw
  | _ => exact hraw

/-- A step of a timer callback that leaves the word alone and keeps its token,
if it has one. -/
theorem moveExpiry (h : DwTok s st o) {i : Nat} {pc : DwExpiry}
    (htok : pc.token = (s.expiries i).token) (hpc : pc.RawArmed)
    (hok : (s.setExpiry i pc).RawOk (.expiry i)) : DwTok (s.setExpiry i pc) st o := by
  refine h.shrink rfl rfl (fun a ha => ?_) h.holder (rawArmed_setExpiry h.expiry hpc)
  rw [token_setExpiry] at ha
  by_cases hai : a = .expiry i
  · subst hai
    rw [if_pos rfl, htok] at ha
    exact ⟨ha, rfl, fun _ => hok⟩
  · rw [if_neg hai] at ha
    refine ⟨ha, ?_, rawOk_setExpiry hai⟩
    cases a <;> rfl

/-- A timer callback returns without a token. -/
theorem expiryReturns (h : DwTok s st o) {i : Nat} (htok : (s.expiries i).token = none) :
    DwTok (s.setExpiry i .absent) st o :=
  h.moveExpiry htok.symm trivial (by simp [DwSys.RawOk, DwSys.setExpiry])

/-- A timer callback changes the word while no other agent has a token. -/
theorem expiryStores (h : DwTok s st o) {i : Nat} {pc : DwExpiry} {word : BitVec 32}
    (hnone : ∀ a, a ≠ .expiry i → s.token a = none) (hword : word = dwWord s.armings st')
    (htok : pc.token ≠ none → st' = .queued) (hpc : pc.RawArmed)
    (hok : ({ s with word := word }.setExpiry i pc).RawOk (.expiry i))
    (hi : st ≠ .idle) (hs : st ≠ .stopping) :
    DwTok ({ s with word := word }.setExpiry i pc) st' (some (.expiry i)) := by
  refine single (.expiry i) hword (fun a ha => ?_) (fun hne => ⟨?_, hok⟩) ?_
    (rawArmed_setExpiry h.expiry hpc)
  · rw [token_setExpiry, if_neg ha]
    exact hnone a ha
  · rw [token_setExpiry, if_pos rfl] at hne
    exact (htok hne).symm
  · exact knows_of_none h.holder (hnone .caller (by simp)) hi hs

theorem stepExpiry {i : Nat} {result : Option ErrorCode} (h : DwTok s st o)
    (hs : s.stepExpiry i result = some s') : ∃ st' o', DwTok s' st' o' := by
  have hraw := h.expiry i
  have hown : (s.expiries i).token ≠ none → s.token (.expiry i) ≠ none := id
  unfold DwSys.stepExpiry at hs
  generalize hc : s.expiries i = here at hs
  cases here with
  | absent => cases hs
  | entered =>
      dsimp only at hs
      split at hs
      · rename_i harmed
        cases hs
        rw [h.decode] at harmed
        cases harmed
        exact ⟨_, o, h.moveExpiry (by rw [hc]; rfl) h.word (by simp [DwSys.RawOk, DwSys.setExpiry])⟩
      · cases hs
        exact ⟨st, o, h.expiryReturns (by rw [hc]; rfl)⟩
  | readStartHigh raw loaded | readStartLow raw loaded startHigh
  | readDelayHigh raw loaded started | readDelayLow raw loaded started delayHigh =>
      rw [hc] at hraw
      cases hs
      exact ⟨st, o, h.moveExpiry (by rw [hc]; rfl) hraw (by simp [DwSys.RawOk, DwSys.setExpiry])⟩
  | readClock raw loaded started delay =>
      rw [hc] at hraw
      dsimp only at hs
      split at hs
      · cases hs
        exact ⟨st, o, h.expiryReturns (by rw [hc]; rfl)⟩
      · cases hs
        exact ⟨st, o, h.moveExpiry (by rw [hc]; rfl) hraw
          (by simp [DwSys.RawOk, DwSys.setExpiry])⟩
  | cas raw loaded now =>
      rw [hc] at hraw
      dsimp only at hs
      split at hs
      · rename_i heq
        cases hs
        obtain rfl : raw = dwWord loaded .armed := hraw
        obtain ⟨rfl, -⟩ := dwWord_inj.mp (h.word.symm.trans heq)
        have hnone := h.none_of_state (by decide) (by decide)
        refine ⟨.queued, _, h.expiryStores (fun a _ => hnone a) ?_ (fun _ => rfl) trivial
          (by simp [DwSys.RawOk, DwSys.setExpiry]) (by decide) (by decide)⟩
        rw [← heq, h.word, withState_dwWord]
      · cases hs
        exact ⟨st, o, h.expiryReturns (by rw [hc]; rfl)⟩
  | submit id loaded current =>
      have htok : s.token (.expiry i) ≠ none := hown (by rw [hc]; exact Option.some_ne_none _)
      obtain rfl : .queued = st := (h.agent _ htok).1
      cases result with
      | some code =>
          cases hs
          have h' : DwTok (s.setDispatchError code) .queued o :=
            h.moveHolder rfl rfl rfl rfl rfl rfl h.holder
          exact ⟨.queued, o, h'.moveExpiry (by simp [DwSys.setDispatchError, hc, DwExpiry.token])
            trivial (by simp [DwSys.RawOk, DwSys.setExpiry])⟩
      | none =>
          cases hs
          have hqueue := queue_nil fun k => h.none_of_owner htok (b := .slot k) (by simp)
          refine ⟨.queued, _, toSlot id h.word (by simp [DwSys.setExpiry, hqueue])
            (h.none_of_owner htok (b := .caller) (by simp)) (fun k => ?_)
            (fun j => h.none_of_owner htok (b := .worker j) (by simp)) h.holder
            (rawArmed_setExpiry h.expiry trivial)⟩
          by_cases hk : k = i
          · subst hk
            simp [DwSys.setExpiry, DwExpiry.token]
          · have hother : (s.expiries k).token = none :=
              h.none_of_owner htok (b := .expiry k) (by simp [hk])
            simpa [DwSys.setExpiry, hk] using hother
  | failLoad id =>
      cases hs
      exact ⟨st, o, h.moveExpiry (by rw [hc]; rfl) trivial (by simp [DwSys.RawOk, DwSys.setExpiry])⟩
  | failStore id raw =>
      have htok : s.token (.expiry i) ≠ none := hown (by rw [hc]; exact Option.some_ne_none _)
      obtain ⟨hst, hword⟩ := h.agent _ htok
      obtain rfl : .queued = st := hst
      simp only [DwSys.RawOk, hc] at hword
      subst hword
      cases hs
      refine ⟨.idle, _, h.expiryStores (fun a ha => h.none_of_owner htok ha) ?_
        (fun hne => absurd rfl hne) trivial (by simp [DwSys.RawOk, DwSys.setExpiry])
        (by decide) (by decide)⟩
      rw [h.word, withState_dwWord]

/-! ### The workers' steps -/

theorem token_setWorker (s : DwSys) (j : Nat) (pc : DwWorker) (a : DwAgent) :
    (s.setWorker j pc).token a = if a = .worker j then pc.token else s.token a := by
  cases a with
  | worker j' =>
      by_cases hj : j' = j
      · subst hj
        simp [DwSys.token, DwSys.setWorker]
      · simp [DwSys.token, DwSys.setWorker, hj]
  | _ => rfl

/-- A worker step while no other agent has a token. -/
theorem workerMoves (h : DwTok s st o) {j : Nat} {pc : DwWorker} {word : BitVec 32}
    (log : List DwEvent) (hnone : ∀ a, a ≠ .worker j → s.token a = none)
    (hword : word = dwWord s.armings st') (htok : pc.token ≠ none → pc.state = st')
    (hok : ({ s with word := word, log := log }.setWorker j pc).RawOk (.worker j))
    (hi : st ≠ .idle) (hs : st ≠ .stopping) :
    DwTok ({ s with word := word, log := log }.setWorker j pc) st' (some (.worker j)) := by
  refine single (.worker j) hword (fun a ha => ?_) (fun hne => ⟨?_, hok⟩) ?_ h.expiry
  · rw [token_setWorker, if_neg ha]
    exact hnone a ha
  · rw [token_setWorker, if_pos rfl] at hne
    simpa [DwSys.tokenState, DwSys.setWorker] using htok hne
  · exact knows_of_none h.holder (hnone .caller (by simp)) hi hs

theorem stepWorker {j : Nat} (h : DwTok s st o) (hs : s.stepWorker j = some s') :
    ∃ st' o', DwTok s' st' o' := by
  unfold DwSys.stepWorker at hs
  by_cases hidle : s.workers j = .idle
  · rw [hidle] at hs
    cases hs
  have htok : s.token (.worker j) ≠ none := by
    show (s.workers j).token ≠ none
    cases hc : s.workers j with
    | idle => exact absurd hc hidle
    | _ => exact Option.some_ne_none _
  obtain ⟨hst, hok⟩ := h.agent _ htok
  have hnone : ∀ a, a ≠ .worker j → s.token a = none := fun a ha => h.none_of_owner htok ha
  simp only [DwSys.tokenState, DwSys.RawOk] at hst hok
  cases hc : s.workers j with
  | idle => exact absurd hc hidle
  | entry id =>
      rw [hc] at hs hst
      obtain rfl : .queued = st := hst
      dsimp only at hs
      rw [if_pos h.decode] at hs
      cases hs
      exact ⟨.queued, _, h.workerMoves s.log hnone h.word (fun _ => rfl)
        (by simp [DwSys.RawOk, DwSys.setWorker]) (by decide) (by decide)⟩
  | cas id raw =>
      rw [hc] at hs hst hok
      obtain rfl : .queued = st := hst
      obtain rfl : raw = s.word := hok
      dsimp only at hs
      rw [if_pos rfl] at hs
      cases hs
      refine ⟨.running, _, h.workerMoves _ hnone ?_ (fun _ => rfl)
        (by simp [DwSys.RawOk, DwSys.setWorker]) (by decide) (by decide)⟩
      rw [h.word, withState_dwWord]
  | callback id =>
      rw [hc] at hs hst
      obtain rfl : .running = st := hst
      cases hs
      exact ⟨.running, _, h.workerMoves _ hnone h.word (fun _ => rfl)
        (by simp [DwSys.RawOk, DwSys.setWorker]) (by decide) (by decide)⟩
  | doneLoad id =>
      rw [hc] at hs hst
      obtain rfl : .running = st := hst
      dsimp only at hs
      rw [if_pos h.decode] at hs
      cases hs
      exact ⟨.running, _, h.workerMoves _ hnone h.word (fun _ => rfl)
        (by simp [DwSys.RawOk, DwSys.setWorker]) (by decide) (by decide)⟩
  | doneCas id raw =>
      rw [hc] at hs hst hok
      obtain rfl : .running = st := hst
      obtain rfl : raw = s.word := hok
      dsimp only at hs
      rw [if_pos rfl] at hs
      cases hs
      refine ⟨.idle, _, h.workerMoves _ hnone ?_ (fun hne => absurd rfl hne)
        (by simp [DwSys.RawOk, DwSys.setWorker]) (by decide) (by decide)⟩
      rw [h.word, withState_dwWord]

/-- A worker takes the thunk out of the queue. -/
theorem dequeue (h : DwTok s st o) (j : Nat) {id : Nat} {rest : List Nat}
    (hqueue : s.queue = id :: rest) :
    ∃ st' o', DwTok ({ s with queue := rest }.setWorker j (.entry id)) st' o' := by
  have htok : s.token (.slot 0) ≠ none := by
    show s.queue[0]? ≠ none
    simp [hqueue]
  obtain rfl : .queued = st := (h.agent _ htok).1
  have hrest : rest = [] := by
    have h₁ : s.queue[1]? = none := h.none_of_owner htok (b := .slot 1) (by simp)
    simpa [hqueue] using h₁
  subst hrest
  refine ⟨.queued, _, single (.worker j) h.word (fun a ha => ?_) (fun _ => ?_) h.holder h.expiry⟩
  · rw [token_setWorker, if_neg ha]
    cases a with
    | slot k => simp [DwSys.token]
    | caller => exact h.none_of_owner htok (b := .caller) (by simp)
    | expiry i => exact h.none_of_owner htok (b := .expiry i) (by simp)
    | worker k => exact h.none_of_owner htok (b := .worker k) (by simp)
  · simp [DwSys.tokenState, DwSys.RawOk, DwSys.setWorker, DwWorker.state]

end DwTok

/-! ### Whole runs -/

/-- The result of the caller's next step, if that is `timer_.start()`, is `ok`. -/
def DwCaller.Starts (result : Option ErrorCode) : DwCaller → Prop
  | .armStart _ => result = none
  | _ => True

instance DwCaller.Starts.decidable (result : Option ErrorCode) :
    (c : DwCaller) → Decidable (c.Starts result)
  | .armStart _ => inferInstanceAs (Decidable (result = none))
  | .free | .load _ | .casLoad _ | .cas _ _ | .stop _ _ | .store _ _ | .storeRaw _ _ _
  | .begin _ | .armNow _ | .armPeriod _ _ | .armStartLow _ _ | .armStartHigh _ _
  | .armDelayLow _ _ | .armDelayHigh _ _ | .armLoad _ _ | .armStore _ _ _ | .submit _ =>
    .isTrue trivial

/-- The timer always starts. -/
def TimerStarts (s : DwSys) : DwAct → Prop
  | .caller result _ => s.holder.Starts result
  | _ => True

instance TimerStarts.decidable (s : DwSys) : (a : DwAct) → Decidable (TimerStarts s a)
  | .caller result _ => inferInstanceAs (Decidable (s.holder.Starts result))
  | .call _ _ | .fire | .expiry _ _ | .dequeue _ | .worker _ | .tick _ | .cancelAll =>
    .isTrue trivial

/-- Some state and owner fit. -/
def DwSys.Tokens (s : DwSys) : Prop := ∃ st o, DwTok s st o

theorem DwTok.step {s s' : DwSys} {a : DwAct} (h : s.Tokens) (hok : TimerStarts s a)
    (hs : s.step a = some s') : s'.Tokens := by
  obtain ⟨st, o, h⟩ := h
  cases a with
  | call op began =>
      simp only [DwSys.step] at hs
      split at hs
      · rename_i hc
        split at hs
        · cases hs
          exact ⟨st, o, h.moveHolder rfl rfl rfl rfl rfl (by rw [hc]; rfl) trivial⟩
        · cases hs
      · cases hs
  | caller result period =>
      simp only [DwSys.step] at hs
      split at hs
      · cases hs
      · refine h.stepCaller (fun c hc => ?_) hs
        simpa only [TimerStarts, hc, DwCaller.Starts] using hok
  | fire =>
      simp only [DwSys.step] at hs
      split at hs
      · cases hs
      · split at hs
        · cases hs
          refine ⟨st, o, h.shrink rfl rfl (fun a ha => ?_) h.holder
            (DwTok.rawArmed_setExpiry h.expiry trivial)⟩
          rw [DwTok.token_setExpiry] at ha
          by_cases hnew : a = .expiry s.nextExpiry
          · rw [if_pos hnew] at ha
            exact absurd rfl ha
          · rw [if_neg hnew] at ha
            refine ⟨ha, ?_, DwTok.rawOk_setExpiry hnew⟩
            cases a <;> rfl
        · cases hs
  | expiry i result =>
      simp only [DwSys.step] at hs
      split at hs
      · cases hs
      · exact h.stepExpiry hs
  | dequeue j =>
      simp only [DwSys.step] at hs
      split at hs
      · rename_i _ hqueue
        cases hs
        exact h.dequeue j hqueue
      · cases hs
  | worker j => exact h.stepWorker hs
  | tick ms =>
      simp only [DwSys.step] at hs
      split at hs
      · cases hs
        exact ⟨st, o, h.moveHolder rfl rfl rfl rfl rfl rfl h.holder⟩
      · cases hs
  | cancelAll =>
      cases hs
      refine ⟨st, o, h.shrink rfl rfl (fun a ha => ?_) h.holder h.expiry⟩
      cases a with
      | slot k =>
          simp only [DwSys.token, List.getElem?_nil] at ha
          exact absurd rfl ha
      | caller => exact ⟨ha, rfl, id⟩
      | expiry i => exact ⟨ha, rfl, id⟩
      | worker j => exact ⟨ha, rfl, id⟩

theorem DwTok.fresh (clock : Nat) : (DwSys.fresh clock).Tokens := by
  refine ⟨.idle, none, ⟨rfl, fun a ha => ?_, fun a ha => ?_, trivial, fun i => trivial⟩⟩
  · cases a <;>
      simp [DwSys.token, DwSys.fresh, DwCaller.token, DwExpiry.token, DwWorker.token] at ha
  · cases a <;>
      simp [DwSys.token, DwSys.fresh, DwCaller.token, DwExpiry.token, DwWorker.token] at ha

end MicrOsal
