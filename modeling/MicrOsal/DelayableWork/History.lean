import MicrOsal.DelayableWork.Times

/-!
# MicrOsal.DelayableWork.History

What the record of a run says: which submissions the latest commitments allow,
and which calls the callback ran for.

A scheduling call commits when it stores `armed` or `queued`. `boundOf` reads
off the record what the latest commitment (or cancellation) allows an expiry to
do; the invariant (`DwHist`) carries it from the commitment to the submission.
-/

namespace MicrOsal

/-! ### Reading the record -/

/-- What may be submitted: nothing, what a caller is about to submit itself, or
an expiry from some time on. -/
inductive DwBound
  | never
  | immediate
  | notBefore (time : Int)

/-- What the record, newest event first, allows. -/
def boundOf : List DwEvent → DwBound
  | [] => .never
  | .armed c :: _ => .notBefore (c.began + c.delay)
  | .enqueued _ :: _ => .immediate
  | .returned c code :: log =>
    if code = .ok ∧ c.delay ≤ 0 then .never else boundOf log
  | .callerSubmitted _ :: log => boundOf log
  | .expirySubmitted _ _ _ :: log => boundOf log
  | .ran _ :: log => boundOf log

/-- The calls that committed. -/
def committedIds : List DwEvent → List Nat
  | [] => []
  | .armed c :: log => c.id :: committedIds log
  | .enqueued c :: log => c.id :: committedIds log
  | _ :: log => committedIds log

/-- The calls the callback ran for. -/
def ranIds : List DwEvent → List Nat
  | [] => []
  | .ran id :: log => id :: ranIds log
  | _ :: log => ranIds log

/-- What an event must find in the record before it. -/
def EventOk (log : List DwEvent) : DwEvent → Prop
  | .callerSubmitted _ => boundOf log = .immediate
  | .expirySubmitted time loaded current =>
    loaded = current ∧ ∃ b, boundOf log = .notBefore b ∧ b ≤ time
  | .ran id => id ∉ ranIds log
  | .returned c code =>
    code = .ok → 0 < c.delay → boundOf log = .notBefore (c.began + c.delay)
  | _ => True

/-- Every event of the record is in order. -/
def LogOk : List DwEvent → Prop
  | [] => True
  | e :: log => EventOk log e ∧ LogOk log

/-- The call committed and the callback has not run for it. -/
def Unrun (log : List DwEvent) (id : Nat) : Prop := id ∈ committedIds log ∧ id ∉ ranIds log

/-- The call is a scheduling one that returned `ok`, or is about to, having
armed the item. -/
def Accounted (log : List DwEvent) (holder : DwCaller) (id : Nat) : Prop :=
  (∃ c, .returned c .ok ∈ log ∧ c.id = id ∧ c.op.delay ≠ none) ∨
    ∃ c, holder = .armStart c ∧ c.id = id

/-! ### The invariant -/

/-- What the lock holder's call has recorded at each point. -/
def HolderHist (log : List DwEvent) (next : Nat) : DwCaller → Prop
  | .free => True
  | .load c | .casLoad c | .cas c _ | .stop c none | .store c .stopped | .storeRaw c .stopped _ =>
    c.id < next ∧ c.id ∉ committedIds log
  | .stop _ (some code) | .store _ (.restored code) | .storeRaw _ (.restored code) _
  | .store _ (.failed code) | .storeRaw _ (.failed code) _ => code ≠ .ok
  | .begin c | .armNow c | .armPeriod c _ | .armStartLow c _ | .armStartHigh c _
  | .armDelayLow c _ | .armDelayHigh c _ | .armLoad c _ | .armStore c _ _ =>
    c.id < next ∧ c.id ∉ committedIds log ∧ c.op.delay ≠ none
  | .store c .enqueue | .storeRaw c .enqueue _ =>
    c.id < next ∧ c.id ∉ committedIds log ∧ c.op.delay ≠ none ∧ c.delay ≤ 0
  | .armStart c =>
    c.op.delay ≠ none ∧ 0 < c.delay ∧ boundOf log = .notBefore (c.began + c.delay)
  | .submit c => c.op.delay ≠ none ∧ c.delay ≤ 0 ∧ boundOf log = .immediate

/-- The history invariant. -/
structure DwHist (s : DwSys) : Prop where
  log : LogOk s.log
  live : s.Live → ∃ c t, s.arming = some (c, t) ∧
    boundOf s.log = .notBefore (c.began + c.delay) ∧ Unrun s.log c.id ∧
      Accounted s.log s.holder c.id
  holder : HolderHist s.log s.nextCall s.holder
  token : ∀ a id, s.token a = some id → id ∈ committedIds s.log ∧
    (s.tokenState a = .running ∨ id ∉ ranIds s.log) ∧
      (a ≠ .caller → Accounted s.log s.holder id)
  expiry : ∀ i id loaded current, s.expiries i = .submit id loaded current →
    loaded = current ∧ ∃ b, boundOf s.log = .notBefore b ∧ b ≤ s.clock
  ran : ∀ id ∈ ranIds s.log, id ∈ committedIds s.log ∧ Accounted s.log s.holder id
  committed : ∀ id ∈ committedIds s.log, id < s.nextCall

namespace DwHist

variable {s s' : DwSys}

theorem accounted_cons {log : List DwEvent} {h : DwCaller} {id : Nat} (e : DwEvent)
    (ha : Accounted log h id) : Accounted (e :: log) h id := by
  rcases ha with ⟨c, hc, hid, hop⟩ | hc
  · exact Or.inl ⟨c, List.mem_cons_of_mem _ hc, hid, hop⟩
  · exact Or.inr hc

/-- A lock holder that is not about to start the timer accounts for nobody. -/
theorem accounted_move {log : List DwEvent} {h h' : DwCaller} {id : Nat}
    (hh : ∀ c, h ≠ .armStart c) (ha : Accounted log h id) : Accounted log h' id := by
  rcases ha with ha | ⟨c, hc, -⟩
  · exact Or.inl ha
  · exact absurd hc (hh c)

/-- No token is out while the state is neither `queued` nor `running`. -/
theorem no_token {st : DwState} {o : Option DwAgent} (htok : DwTok s st o) (hq : st ≠ .queued)
    (hr : st ≠ .running) (a : DwAgent) (id : Nat) : s.token a ≠ some id := by
  rw [htok.none_of_state hq hr a]
  exact fun h => by cases h

/-- A callback that is about to submit holds a token. -/
theorem token_of_submit {i id loaded current : Nat}
    (hi : s.expiries i = .submit id loaded current) : s.token (.expiry i) ≠ none := by
  show (s.expiries i).token ≠ none
  rw [hi]
  exact Option.some_ne_none _

/-- A step of the lock holder that records nothing. -/
theorem moveHolder (h : DwHist s) (hlog : s'.log = s.log) (hlive : s'.Live → s.Live)
    (harming : s'.arming = s.arming) (htoken : ∀ a, s'.token a = s.token a)
    (hstate : ∀ a, s'.tokenState a = s.tokenState a) (hexp : s'.expiries = s.expiries)
    (hclock : s'.clock = s.clock) (hnext : s.nextCall ≤ s'.nextCall)
    (hstart : ∀ c, s.holder ≠ .armStart c)
    (hholder : HolderHist s.log s'.nextCall s'.holder) : DwHist s' where
  log := by rw [hlog]; exact h.log
  live hl := by
    obtain ⟨c, t, harm, hbound, hrun, hacc⟩ := h.live (hlive hl)
    rw [hlog, harming]
    exact ⟨c, t, harm, hbound, hrun, accounted_move hstart hacc⟩
  holder := by rw [hlog]; exact hholder
  token a id ha := by
    rw [htoken a] at ha
    obtain ⟨hcom, hran, hacc⟩ := h.token a id ha
    rw [hlog, hstate a]
    exact ⟨hcom, hran, fun hne => accounted_move hstart (hacc hne)⟩
  expiry i id loaded current hi := by
    rw [hexp] at hi
    rw [hlog, hclock]
    exact h.expiry i id loaded current hi
  ran id hid := by
    rw [hlog] at hid ⊢
    exact ⟨(h.ran id hid).1, accounted_move hstart (h.ran id hid).2⟩
  committed id hid := by
    rw [hlog] at hid
    exact (h.committed id hid).trans_le hnext

/-- A call that returns without having committed: the record still allows what
it allowed, unless the item is idle and the call says so. -/
theorem returns (h : DwHist s) {c : DwCall} {code : ErrorCode}
    (hstart : ∀ c, s.holder ≠ .armStart c)
    (hcode : code = .ok → c.delay ≤ 0 ∧ ¬ s.Live ∧ ∀ a id, s.token a ≠ some id) :
    DwHist (s.returns c code) := by
  have hcom : committedIds (s.returns c code).log = committedIds s.log := rfl
  have hran : ranIds (s.returns c code).log = ranIds s.log := rfl
  have hbound : code ≠ .ok → boundOf (s.returns c code).log = boundOf s.log := by
    intro hne
    exact if_neg fun hand => hne hand.1
  have htoken : ∀ a id, (s.returns c code).token a = some id → s.token a = some id := by
    intro a id ha
    cases a with
    | caller => cases ha
    | _ => exact ha
  refine ⟨⟨?_, h.log⟩, ?_, trivial, ?_, ?_, ?_, ?_⟩
  · intro hok hpos
    have := (hcode hok).1
    omega
  · intro hl
    have hne : code ≠ .ok := fun hok => (hcode hok).2.1 hl
    obtain ⟨c', t, harm, hb, hrun, hacc⟩ := h.live hl
    exact ⟨c', t, harm, (hbound hne).trans hb, hrun,
      accounted_cons _ (accounted_move hstart hacc)⟩
  · intro a id ha
    obtain ⟨hin, hrun, hacc⟩ := h.token a id (htoken a id ha)
    have hstate : (s.returns c code).tokenState a = s.tokenState a := by cases a <;> rfl
    rw [hstate]
    exact ⟨hin, hrun, fun hne => accounted_cons _ (accounted_move hstart (hacc hne))⟩
  · intro i id loaded current hi
    obtain ⟨heq, b, hb, hle⟩ := h.expiry i id loaded current hi
    have hne : code ≠ .ok := by
      intro hok
      obtain ⟨id', hid'⟩ := Option.ne_none_iff_exists'.mp (token_of_submit hi)
      exact (hcode hok).2.2 (.expiry i) id' hid'
    exact ⟨heq, b, (hbound hne).trans hb, hle⟩
  · intro id hid
    exact ⟨(h.ran id hid).1, accounted_cons _ (accounted_move hstart (h.ran id hid).2)⟩
  · exact h.committed

theorem token_same (hexp : s'.expiries = s.expiries) (hwork : s'.workers = s.workers)
    (hqueue : s'.queue = s.queue) (htok : s'.holder.token = s.holder.token) (a : DwAgent) :
    s'.token a = s.token a := by
  cases a with
  | caller => exact htok
  | expiry i => simp only [DwSys.token, hexp]
  | slot k => simp only [DwSys.token, hqueue]
  | worker j => simp only [DwSys.token, hwork]

theorem tokenState_same (hwork : s'.workers = s.workers) (a : DwAgent) :
    s'.tokenState a = s.tokenState a := by
  cases a with
  | worker j => simp only [DwSys.tokenState, hwork]
  | _ => rfl

/-! ### The lock holder's steps -/

/-- An idle item has no arming and no token. -/
theorem idle_facts {st : DwState} {o : Option DwAgent} (htok : DwTok s st o)
    (hidle : decodeState s.word = some .idle) : ¬ s.Live ∧ ∀ a id, s.token a ≠ some id := by
  rw [htok.decode] at hidle
  cases hidle
  refine ⟨?_, no_token htok (by decide) (by decide)⟩
  rintro (hl | hl) <;> rw [htok.decode] at hl <;> cases hl

theorem casFails {st : DwState} {o : Option DwAgent} (htok : DwTok s st o) (h : DwHist s)
    (c : DwCall) (hstart : ∀ c, s.holder ≠ .armStart c) :
    DwHist (s.casFails c (decodeState s.word)) := by
  unfold DwSys.casFails
  split
  · rename_i hop
    split
    · rename_i hidle
      exact h.returns hstart fun _ => ⟨by simp [DwCall.delay, hop, DwOp.delay],
        idle_facts htok hidle⟩
    · exact h.returns hstart fun hok => by cases hok
  · exact h.returns hstart fun hok => by cases hok

theorem clearDispatchError (h : DwHist s) (hstart : ∀ c, s.holder ≠ .armStart c) :
    DwHist s.clearDispatchError :=
  h.moveHolder rfl id rfl (fun _ => rfl) (fun a => by cases a <;> rfl) rfl rfl le_rfl hstart
    h.holder

theorem stepLoad {st : DwState} {o : Option DwAgent} (htok : DwTok s st o) (h : DwHist s)
    {c : DwCall} (hc : s.holder = .load c) : DwHist (s.stepLoad c) := by
  have hstart : ∀ c, s.holder ≠ .armStart c := by simp [hc]
  have hnone : s.holder.token = none := by rw [hc]; rfl
  have hhold := h.holder
  rw [hc] at hhold
  have hmove : ∀ pc : DwCaller, pc.token = none → HolderHist s.log s.nextCall pc →
      DwHist { s with holder := pc } := fun pc hpc hpc' =>
    h.moveHolder rfl id rfl (token_same rfl rfl rfl (hpc.trans hnone.symm)) (tokenState_same rfl)
      rfl rfl le_rfl hstart hpc'
  unfold DwSys.stepLoad
  dsimp only
  split
  · rename_i hop
    split
    · exact hmove _ rfl ⟨hhold.1, hhold.2, by simp [hop, DwOp.delay]⟩
    · exact h.returns hstart fun hok => by cases hok
  · rename_i hop
    split
    · exact h.returns hstart fun hok => by cases hok
    · split
      · exact hmove _ rfl hhold
      · exact hmove _ rfl ⟨hhold.1, hhold.2, by simp [hop, DwOp.delay]⟩
  · rename_i hop
    split
    · rename_i hidle
      obtain ⟨hlive, htoken⟩ := idle_facts htok hidle
      exact (h.clearDispatchError hstart).returns hstart fun _ =>
        ⟨by simp [DwCall.delay, hop, DwOp.delay], hlive, fun a => htoken a⟩
    · exact hmove _ rfl hhold


/-- The lock holder records its commitment while nobody has a token: the item
was idle. -/
theorem commits (h : DwHist s) (hnone : ∀ a id, s.token a ≠ some id) {c : DwCall} {e : DwEvent}
    {b : DwBound} (hlog : s'.log = e :: s.log)
    (hcom : committedIds (e :: s.log) = c.id :: committedIds s.log)
    (hran : ranIds (e :: s.log) = ranIds s.log) (hbound : boundOf (e :: s.log) = b)
    (hevent : EventOk s.log e) (hstart : ∀ c, s.holder ≠ .armStart c)
    (hexp : s'.expiries = s.expiries) (hnext : s'.nextCall = s.nextCall)
    (hid : c.id < s.nextCall) (hnew : c.id ∉ committedIds s.log)
    (hlive : s'.Live → ∃ t, s'.arming = some (c, t) ∧ b = .notBefore (c.began + c.delay) ∧
      Accounted s'.log s'.holder c.id)
    (htoken : ∀ a id, s'.token a = some id → a = .caller ∧ id = c.id)
    (hholder : HolderHist s'.log s'.nextCall s'.holder) : DwHist s' := by
  have hunrun : c.id ∉ ranIds s.log := fun hin => hnew (h.ran _ hin).1
  refine ⟨?_, ?_, hholder, ?_, ?_, ?_, ?_⟩
  · rw [hlog]
    exact ⟨hevent, h.log⟩
  · intro hl
    obtain ⟨t, harm, hb, hacc⟩ := hlive hl
    refine ⟨c, t, harm, ?_, ⟨?_, ?_⟩, hacc⟩
    · rw [hlog, hbound, hb]
    · rw [hlog, hcom]
      exact List.mem_cons_self ..
    · rw [hlog, hran]
      exact hunrun
  · intro a id ha
    obtain ⟨rfl, rfl⟩ := htoken a id ha
    refine ⟨?_, Or.inr ?_, fun hne => absurd rfl hne⟩
    · rw [hlog, hcom]
      exact List.mem_cons_self ..
    · rw [hlog, hran]
      exact hunrun
  · intro i id loaded current hi
    rw [hexp] at hi
    obtain ⟨id', hid'⟩ := Option.ne_none_iff_exists'.mp (token_of_submit hi)
    exact absurd hid' (hnone _ _)
  · intro id hin
    rw [hlog, hran] at hin
    rw [hlog, hcom]
    exact ⟨List.mem_cons_of_mem _ (h.ran id hin).1,
      accounted_cons _ (accounted_move hstart (h.ran id hin).2)⟩
  · intro id hin
    rw [hlog, hcom] at hin
    rw [hnext]
    rcases List.mem_cons.mp hin with rfl | hin
    · exact hid
    · exact h.committed id hin

/-- The store of `store_state` by the lock holder. -/
theorem storeRaw {st : DwState} {o : Option DwAgent} (htok : DwTok s st o) (h : DwHist s)
    {c : DwCall} {next : DwNext} {raw : BitVec 32} (hc : s.holder = .storeRaw c next raw) :
    DwHist ({ s with word := withState raw next.value }.afterStore c next) := by
  have hstart : ∀ c, s.holder ≠ .armStart c := by simp [hc]
  have hk := htok.holder
  have hhold := h.holder
  rw [hc] at hk hhold
  have hstores : (DwSys.Live { s with word := withState raw next.value } → s.Live) →
      DwHist { s with word := withState raw next.value } := fun hlive =>
    h.moveHolder rfl hlive rfl (fun _ => rfl) (tokenState_same rfl) rfl rfl le_rfl hstart h.holder
  cases next with
  | stopped =>
      have hdead : ¬ DwSys.Live { s with word := withState raw .idle } :=
        DwTimes.live_withState rfl (by decide) (by decide)
      simp only [DwSys.afterStore]
      split
      · rename_i hop
        have h₁ := (hstores fun hl => absurd hl hdead).clearDispatchError hstart
        have hnone := no_token htok (by rw [hk.1]; decide) (by rw [hk.1]; decide)
        exact h₁.returns hstart fun _ => ⟨by simp [DwCall.delay, hop, DwOp.delay], hdead,
          fun a => hnone a⟩
      · rename_i hop
        refine h.moveHolder rfl (fun hl => absurd hl hdead) rfl
          (token_same rfl rfl rfl (by rw [hc]; rfl)) (tokenState_same rfl) rfl rfl le_rfl hstart
          ⟨hhold.1, hhold.2, ?_⟩
        cases hcop : c.op with
        | cancel => exact absurd hcop hop
        | _ => exact Option.some_ne_none _
  | restored code =>
      have h₁ := hstores fun _ => Or.inr (by rw [htok.decode, hk.1])
      exact h₁.returns hstart fun hok => absurd hok hhold
  | enqueue =>
      obtain ⟨hid, hnew, hop, hdelay⟩ := hhold
      have hnone := no_token htok (by rw [hk.1]; decide) (by rw [hk.1]; decide)
      refine h.commits hnone rfl rfl rfl rfl trivial hstart rfl rfl hid hnew (fun hl => ?_)
        (fun a id ha => ?_) ⟨hop, hdelay, rfl⟩
      · exact absurd hl (DwTimes.live_withState rfl (by decide) (by decide))
      · cases a with
        | caller => exact ⟨rfl, (Option.some.inj ha).symm⟩
        | expiry i => exact absurd ha (hnone (.expiry i) id)
        | slot k => exact absurd ha (hnone (.slot k) id)
        | worker j => exact absurd ha (hnone (.worker j) id)
  | failed code =>
      have h₁ := hstores fun hl => absurd hl (DwTimes.live_withState rfl
        (show DwState.idle ≠ .armed by decide) (show DwState.idle ≠ .stopping by decide))
      exact h₁.returns hstart fun hok => absurd hok hhold

/-- `timer_.start()` succeeded: the call that armed the item returns. -/
theorem armStarts (h : DwHist s) {c : DwCall} (hc : s.holder = .armStart c) (timer : DwTimer) :
    DwHist ({ s with timer := timer }.returns c .ok) := by
  have hhold := h.holder
  rw [hc] at hhold
  obtain ⟨hop, hpos, hb⟩ := hhold
  have hbound : boundOf (.returned c .ok :: s.log) = boundOf s.log :=
    if_neg fun hand => absurd hand.2 (not_le.mpr hpos)
  -- whoever was accounted for by the call in progress is by its return
  have hacc : ∀ {id}, Accounted s.log s.holder id →
      Accounted (.returned c .ok :: s.log) .free id := by
    rintro id (ha | ⟨c', hc', hid⟩)
    · exact accounted_cons _ (Or.inl ha)
    · rw [hc] at hc'
      obtain rfl := DwCaller.armStart.inj hc'
      exact Or.inl ⟨c, List.mem_cons_self .., hid, hop⟩
  refine ⟨⟨fun _ _ => hb, h.log⟩, ?_, trivial, ?_, ?_, ?_, h.committed⟩
  · intro hl
    obtain ⟨c', t, harm, hb', hrun, ha⟩ := h.live hl
    exact ⟨c', t, harm, hbound.trans hb', hrun, hacc ha⟩
  · intro a id ha
    cases a with
    | caller => cases ha
    | expiry i =>
        obtain ⟨hin, hrun, ha'⟩ := h.token (.expiry i) id ha
        exact ⟨hin, hrun, fun hne => hacc (ha' hne)⟩
    | slot k =>
        obtain ⟨hin, hrun, ha'⟩ := h.token (.slot k) id ha
        exact ⟨hin, hrun, fun hne => hacc (ha' hne)⟩
    | worker j =>
        obtain ⟨hin, hrun, ha'⟩ := h.token (.worker j) id ha
        exact ⟨hin, hrun, fun hne => hacc (ha' hne)⟩
  · intro i id loaded current hi
    obtain ⟨heq, b, hb', hle⟩ := h.expiry i id loaded current hi
    exact ⟨heq, b, hbound.trans hb', hle⟩
  · intro id hid
    exact ⟨(h.ran id hid).1, hacc (h.ran id hid).2⟩

/-- A caller's `submit` succeeded: its token is in the queue and it returns. -/
theorem submits {st : DwState} {o : Option DwAgent} (htok : DwTok s st o) (h : DwHist s)
    {c : DwCall} (hc : s.holder = .submit c) :
    DwHist ({ s with
      queue := s.queue ++ [c.id], log := .callerSubmitted s.clock :: s.log }.returns c .ok) := by
  have hhold := h.holder
  have hknows := htok.holder
  rw [hc] at hhold hknows
  obtain ⟨hop, hdelay, hb⟩ := hhold
  obtain rfl : st = .queued := hknows
  have hstart : ∀ c, s.holder ≠ .armStart c := by simp [hc]
  have hcaller : s.token .caller = some c.id := by
    show s.holder.token = some c.id
    rw [hc]
    rfl
  have hmine := h.token .caller c.id hcaller
  have hother : ∀ a, a ≠ .caller → s.token a = none := fun a ha =>
    htok.none_of_owner (by rw [hcaller]; exact Option.some_ne_none _) ha
  have hqueue : s.queue = [] := DwTok.queue_nil fun k => hother (.slot k) (by simp)
  have hdead : ¬ s.Live := by
    rintro (hl | hl) <;> rw [htok.decode] at hl <;> cases hl
  refine ⟨⟨fun _ hpos => absurd hdelay (not_le.mpr hpos), hb, h.log⟩, fun hl => absurd hl hdead,
    trivial, ?_, ?_, ?_, h.committed⟩
  · intro a id ha
    cases a with
    | caller => cases ha
    | expiry i =>
        have hi : s.token (.expiry i) = some id := ha
        rw [hother (.expiry i) (by simp)] at hi
        cases hi
    | slot k =>
        have hk : (s.queue ++ [c.id])[k]? = some id := ha
        rw [hqueue, List.nil_append] at hk
        obtain rfl : c.id = id := by
          cases k with
          | zero => exact Option.some.inj hk
          | succ k => simp at hk
        have hrun : c.id ∉ ranIds s.log := hmine.2.1.resolve_left fun hr => by cases hr
        exact ⟨hmine.1, Or.inr hrun, fun _ => Or.inl ⟨c, List.mem_cons_self .., rfl, hop⟩⟩
    | worker j =>
        have hj : s.token (.worker j) = some id := ha
        rw [hother (.worker j) (by simp)] at hj
        cases hj
  · intro i id loaded current hi
    exact absurd (hother (.expiry i) (by simp)) (token_of_submit hi)
  · intro id hid
    exact ⟨(h.ran id hid).1,
      accounted_cons _ (accounted_cons _ (accounted_move hstart (h.ran id hid).2))⟩

theorem stepCaller {st : DwState} {o : Option DwAgent} {result : Option ErrorCode} {period : Nat}
    (htok : DwTok s st o) (htimes : DwTimes s) (hresult : result ≠ some .ok)
    (hstarts : ∀ c, s.holder = .armStart c → result = none) (h : DwHist s)
    (hs : s.stepCaller result period = some s') : DwHist s' := by
  have hhold := h.holder
  have hcall := htimes.caller
  have hk := htok.holder
  -- a step that only moves the holder on
  have hmove : (∀ c, s.holder ≠ .armStart c) → ∀ pc : DwCaller, pc.token = s.holder.token →
      HolderHist s.log s.nextCall pc → DwHist { s with holder := pc } := fun hstart pc hpc hpc' =>
    h.moveHolder rfl id rfl (token_same rfl rfl rfl hpc) (tokenState_same rfl) rfl rfl le_rfl
      hstart hpc'
  unfold DwSys.stepCaller at hs
  generalize hc : s.holder = here at hs
  cases here with
  | free => cases hs
  | load c =>
      cases hs
      exact stepLoad htok h hc
  | casLoad c =>
      rw [hc] at hhold hmove
      have hstart : ∀ c, s.holder ≠ .armStart c := by simp [hc]
      dsimp only at hs
      split at hs
      · cases hs
        exact hmove (by simp) _ rfl hhold
      · cases hs
        exact casFails htok h c hstart
  | cas c raw =>
      rw [hc] at hhold hk
      have hstart : ∀ c, s.holder ≠ .armStart c := by simp [hc]
      dsimp only at hs
      split at hs
      · rename_i heq
        cases hs
        obtain ⟨n, rfl⟩ := hk
        refine h.moveHolder rfl (fun _ => Or.inl (by rw [heq, decodeState_dwWord])) rfl
          (token_same rfl rfl rfl (by rw [hc]; rfl)) (tokenState_same rfl) rfl rfl le_rfl hstart ?_
        cases result with
        | none => exact hhold
        | some code => exact fun hok => hresult (by rw [hok])
      · cases hs
        exact casFails htok h c hstart
  | stop c res =>
      rw [hc] at hhold
      have hstart : ∀ c, s.holder ≠ .armStart c := by simp [hc]
      cases res with
      | none =>
          cases hs
          exact h.moveHolder rfl id rfl (token_same rfl rfl rfl (by rw [hc]; rfl))
            (tokenState_same rfl) rfl rfl le_rfl hstart hhold
      | some code =>
          cases hs
          exact hmove hstart _ (by rw [hc]; rfl) hhold
  | store c next =>
      rw [hc] at hhold
      have hstart : ∀ c, s.holder ≠ .armStart c := by simp [hc]
      cases hs
      refine hmove hstart _ ?_ ?_
      · rw [hc]
        cases next <;> rfl
      · cases next <;> exact hhold
  | storeRaw c next raw =>
      cases hs
      exact storeRaw htok h hc
  | begin c =>
      rw [hc] at hhold
      have hstart : ∀ c, s.holder ≠ .armStart c := by simp [hc]
      dsimp only at hs
      split at hs
      · rename_i hdelay
        cases hs
        exact h.moveHolder rfl id rfl (token_same rfl rfl rfl (by rw [hc]; rfl))
          (tokenState_same rfl) rfl rfl le_rfl hstart ⟨hhold.1, hhold.2.1, hhold.2.2, hdelay⟩
      · cases hs
        exact h.moveHolder rfl id rfl (token_same rfl rfl rfl (by rw [hc]; rfl))
          (tokenState_same rfl) rfl rfl le_rfl hstart hhold
  | armNow c =>
      rw [hc] at hhold hmove
      cases hs
      exact hmove (by simp) _ rfl hhold
  | armPeriod c now =>
      rw [hc] at hhold
      have hstart : ∀ c, s.holder ≠ .armStart c := by simp [hc]
      cases result with
      | some code =>
          cases hs
          exact h.returns hstart fun hok => absurd (by rw [hok]) hresult
      | none =>
          cases hs
          exact h.moveHolder rfl id rfl (token_same rfl rfl rfl (by rw [hc]; rfl))
            (tokenState_same rfl) rfl rfl le_rfl hstart hhold
  | armStartLow c now | armStartHigh c now | armDelayLow c now | armDelayHigh c now =>
      rw [hc] at hhold
      have hstart : ∀ c, s.holder ≠ .armStart c := by simp [hc]
      cases hs
      exact h.moveHolder rfl id rfl (token_same rfl rfl rfl (by rw [hc]; rfl))
        (tokenState_same rfl) rfl rfl le_rfl hstart hhold
  | armLoad c now =>
      rw [hc] at hhold hmove
      cases hs
      exact hmove (by simp) _ rfl hhold
  | armStore c now raw =>
      rw [hc] at hhold hk hcall
      have hstart : ∀ c, s.holder ≠ .armStart c := by simp [hc]
      obtain ⟨hid, hnew, hop⟩ := hhold
      cases hs
      have hnone := no_token htok (by rw [hk.1]; decide) (by rw [hk.1]; decide)
      refine h.commits hnone rfl rfl rfl rfl trivial hstart rfl rfl hid hnew
        (fun _ => ⟨now, rfl, rfl, Or.inr ⟨c, rfl, rfl⟩⟩) (fun a id ha => ?_)
        ⟨hop, hcall.1.pos, rfl⟩
      cases a with
      | caller => cases ha
      | expiry i => exact absurd ha (hnone (.expiry i) id)
      | slot k => exact absurd ha (hnone (.slot k) id)
      | worker j => exact absurd ha (hnone (.worker j) id)
  | armStart c =>
      obtain rfl := hstarts c hc
      cases hs
      exact h.armStarts hc _
  | submit c =>
      have hstart : ∀ c, s.holder ≠ .armStart c := by simp [hc]
      cases result with
      | some code =>
          cases hs
          exact h.moveHolder rfl id rfl (token_same rfl rfl rfl (by rw [hc]; rfl))
            (tokenState_same rfl) rfl rfl le_rfl hstart fun hok => hresult (by rw [hok])
      | none =>
          cases hs
          exact submits htok h hc

/-! ### Everybody else's steps -/

/-- A step that records nothing and is not the lock holder's: tokens may move,
keeping whether the callback has begun. -/
theorem others (h : DwHist s) (hlog : s'.log = s.log) (hlive : s'.Live → s.Live)
    (harming : s'.arming = s.arming) (hholder : s'.holder = s.holder)
    (hnext : s'.nextCall = s.nextCall) (hclock : s.clock ≤ s'.clock)
    (htoken : ∀ a id, s'.token a = some id → ∃ b, s.token b = some id ∧
      (a ≠ .caller → b ≠ .caller) ∧ (s.tokenState b = .running → s'.tokenState a = .running))
    (hexp : ∀ i id loaded current, s'.expiries i = .submit id loaded current →
      s.expiries i = .submit id loaded current) : DwHist s' where
  log := by rw [hlog]; exact h.log
  live hl := by
    rw [hlog, harming, hholder]
    exact h.live (hlive hl)
  holder := by
    rw [hlog, hholder, hnext]
    exact h.holder
  token a id ha := by
    obtain ⟨b, hb, hne, hrun⟩ := htoken a id ha
    obtain ⟨hin, hran, hacc⟩ := h.token b id hb
    rw [hlog, hholder]
    exact ⟨hin, hran.imp_left hrun, fun ha' => hacc (hne ha')⟩
  expiry i id loaded current hi := by
    obtain ⟨heq, b, hb, hle⟩ := h.expiry i id loaded current (hexp i id loaded current hi)
    rw [hlog]
    exact ⟨heq, b, hb, hle.trans (by exact_mod_cast hclock)⟩
  ran := by
    rw [hlog, hholder]
    exact h.ran
  committed := by
    rw [hlog, hnext]
    exact h.committed

/-- A timer callback moves on, with the token it has, or drops it. -/
theorem moveExpiry (h : DwHist s) (i : Nat) {pc : DwExpiry} {word : BitVec 32} {err : ErrorCode}
    {failed : Bool} (hlive : DwSys.Live { s with word := word } → s.Live)
    (htok : pc.token ≠ none → pc.token = (s.expiries i).token)
    (hpc : ∀ id loaded current, pc ≠ .submit id loaded current) :
    DwHist ({ s with
      word := word, dispatchError := err, dispatchFailed := failed }.setExpiry i pc) := by
  refine h.others rfl hlive rfl rfl rfl le_rfl
    (fun a id ha => ⟨a, ?_, fun hne => hne, fun hr => ?_⟩)
    fun k id loaded current hk => ?_
  · rw [DwTok.token_setExpiry] at ha
    split at ha
    · rename_i hai
      subst hai
      exact (htok (by rw [ha]; exact Option.some_ne_none _)).symm.trans ha
    · exact ha
  · cases a with
    | worker j => exact hr
    | _ => cases hr
  · by_cases hki : k = i
    · subst hki
      simp only [DwSys.setExpiry, Function.update_self] at hk
      exact absurd hk (hpc id loaded current)
    · simpa only [DwSys.setExpiry, Function.update_of_ne hki] using hk

/-- A timer callback takes the arming it read to `queued`. -/
theorem expiryTakes {o : Option DwAgent} (htok : DwTok s .armed o) (htimes : DwTimes s)
    (h : DwHist s) {i : Nat} {raw : BitVec 32} {now : Nat}
    (hi : s.expiries i = .cas raw s.armings now) :
    DwHist ({ s with word := withState raw .queued }.setExpiry i
      (.submit (s.arming.elim 0 fun a => a.1.id) s.armings s.armings)) := by
  have hl : s.Live := Or.inl htok.decode
  obtain ⟨c, t, harm, hb, ⟨hin, hrun⟩, hacc⟩ := h.live hl
  have hdead : ¬ DwSys.Live { s with word := withState raw .queued } :=
    DwTimes.live_withState rfl (by decide) (by decide)
  have hnone := no_token htok (by decide) (by decide)
  rw [harm]
  refine ⟨h.log, fun hl' => absurd hl' hdead, h.holder, ?_, ?_, h.ran, h.committed⟩
  · intro a id ha
    rw [DwTok.token_setExpiry] at ha
    split at ha
    · obtain rfl : c.id = id := Option.some.inj ha
      exact ⟨hin, Or.inr hrun, fun _ => hacc⟩
    · exact absurd ha (hnone a id)
  · intro k id loaded current hk
    by_cases hki : k = i
    · subst hki
      simp only [DwSys.setExpiry, Function.update_self, DwExpiry.submit.injEq] at hk
      obtain ⟨-, rfl, rfl⟩ := hk
      -- the guard looked at the timestamps of this very arming
      have hread := htimes.expiry k
      rw [hi] at hread
      obtain ⟨c', t', harm', harms, -⟩ := htimes.arming hl
      obtain ⟨c'', t'', harm'', hle⟩ := hread.2.2 rfl hl
      rw [harm] at harm' harm''
      obtain ⟨rfl, rfl⟩ := Prod.mk.inj (Option.some.inj harm')
      obtain ⟨rfl, rfl⟩ := Prod.mk.inj (Option.some.inj harm'')
      refine ⟨rfl, _, hb, ?_⟩
      have hbegan : (c.began : Int) ≤ t := by exact_mod_cast harms.began
      have hnow : (now : Int) ≤ s.clock := by exact_mod_cast hread.2.1
      show (c.began : Int) + c.delay ≤ s.clock
      omega
    · simp only [DwSys.setExpiry, Function.update_of_ne hki] at hk
      obtain ⟨id', hid'⟩ := Option.ne_none_iff_exists'.mp (token_of_submit hk)
      exact absurd hid' (hnone _ _)

/-- A timer callback's `submit` succeeded. -/
theorem expirySubmits {st : DwState} {o : Option DwAgent} (htok : DwTok s st o) (h : DwHist s)
    {i id loaded current : Nat} (hi : s.expiries i = .submit id loaded current) :
    DwHist ({ s with
      queue := s.queue ++ [id]
      log := .expirySubmitted s.clock loaded current :: s.log }.setExpiry i .absent) := by
  have hmine : s.token (.expiry i) = some id := by
    show (s.expiries i).token = some id
    rw [hi]
    rfl
  have hother : ∀ a, a ≠ .expiry i → s.token a = none := fun a ha =>
    htok.none_of_owner (by rw [hmine]; exact Option.some_ne_none _) ha
  have hqueue : s.queue = [] := DwTok.queue_nil fun k => hother (.slot k) (by simp)
  obtain ⟨heq, b, hb, hle⟩ := h.expiry i id loaded current hi
  obtain ⟨hin, hran, hacc⟩ := h.token _ id hmine
  refine ⟨⟨⟨heq, b, hb, hle⟩, h.log⟩, fun hl => ?_, ?_, ?_, ?_, fun id' hid' => ?_, h.committed⟩
  · obtain ⟨c, t, harm, hb', hrun, ha⟩ := h.live hl
    exact ⟨c, t, harm, hb', hrun, accounted_cons _ ha⟩
  · exact h.holder
  · intro a id' ha
    rw [DwTok.token_setExpiry] at ha
    split at ha
    · cases ha
    · rename_i hai
      cases a with
      | slot k =>
          have hk : (s.queue ++ [id])[k]? = some id' := ha
          rw [hqueue, List.nil_append] at hk
          obtain rfl : id = id' := by
            cases k with
            | zero => exact Option.some.inj hk
            | succ k => simp at hk
          exact ⟨hin, Or.inr (hran.resolve_left fun hr => by cases hr),
            fun _ => accounted_cons _ (hacc (by simp))⟩
      | caller => exact absurd ((hother .caller hai).symm.trans ha) (by simp)
      | expiry k => exact absurd ((hother (.expiry k) hai).symm.trans ha) (by simp)
      | worker j => exact absurd ((hother (.worker j) hai).symm.trans ha) (by simp)
  · intro k id' loaded' current' hk
    by_cases hki : k = i
    · subst hki
      simp [DwSys.setExpiry] at hk
    · simp only [DwSys.setExpiry, Function.update_of_ne hki] at hk
      exact absurd (hother (.expiry k) (by simp [hki])) (token_of_submit hk)
  · exact ⟨(h.ran id' hid').1, accounted_cons _ (h.ran id' hid').2⟩

theorem stepExpiry {st : DwState} {o : Option DwAgent} {i : Nat} {result : Option ErrorCode}
    (htok : DwTok s st o) (htimes : DwTimes s)
    (hwrap : ∀ raw loaded now, s.expiries i = .cas raw loaded now → s.armings < loaded + 2 ^ 29)
    (h : DwHist s) (hs : s.stepExpiry i result = some s') : DwHist s' := by
  have hraw := htok.expiry i
  have htime := htimes.expiry i
  unfold DwSys.stepExpiry at hs
  generalize hc : s.expiries i = here at hs
  cases here with
  | absent => cases hs
  | entered =>
      dsimp only at hs
      split at hs
      · cases hs
        exact h.moveExpiry i id (fun hne => absurd rfl hne) (by simp)
      · cases hs
        exact h.moveExpiry i id (fun hne => absurd rfl hne) (by simp)
  | readStartHigh raw loaded | readStartLow raw loaded startHigh
  | readDelayHigh raw loaded started | readDelayLow raw loaded started delayHigh =>
      cases hs
      exact h.moveExpiry i id (fun hne => absurd rfl hne) (by simp)
  | readClock raw loaded started delay =>
      dsimp only at hs
      split at hs
      · cases hs
        exact h.moveExpiry i id (fun hne => absurd rfl hne) (by simp)
      · cases hs
        exact h.moveExpiry i id (fun hne => absurd rfl hne) (by simp)
  | cas raw loaded now =>
      rw [hc] at hraw htime
      dsimp only at hs
      split at hs
      · rename_i heq
        cases hs
        -- equal words, and less than a full turn of the generation in between
        have hraw' : raw = dwWord loaded .armed := hraw
        rw [hraw'] at heq
        obtain ⟨rfl, hmod⟩ := dwWord_inj.mp (htok.word.symm.trans heq)
        obtain rfl : loaded = s.armings :=
          (eq_of_mod_eq_of_lt_turn htime.1 (hwrap raw loaded now hc) hmod.symm)
        exact expiryTakes htok htimes h hc
      · cases hs
        exact h.moveExpiry i id (fun hne => absurd rfl hne) (by simp)
  | submit id loaded current =>
      cases result with
      | some code =>
          cases hs
          exact h.moveExpiry i (fun hl => hl) (fun _ => by rw [hc]; rfl) (by simp)
      | none =>
          cases hs
          exact expirySubmits htok h hc
  | failLoad id =>
      cases hs
      exact h.moveExpiry i (fun hl => hl) (fun _ => by rw [hc]; rfl) (by simp)
  | failStore id raw =>
      cases hs
      exact h.moveExpiry i
        (fun hl => absurd hl (DwTimes.live_withState rfl (by decide) (by decide)))
        (fun hne => absurd rfl hne) (by simp)

/-- A worker moves on, with the token it has, or drops it. -/
theorem moveWorker (h : DwHist s) (j : Nat) {pc : DwWorker} {word : BitVec 32}
    (hlive : DwSys.Live { s with word := word } → s.Live)
    (htok : pc.token ≠ none → pc.token = (s.workers j).token)
    (hstate : pc.token ≠ none → (s.workers j).state = .running → pc.state = .running) :
    DwHist ({ s with word := word }.setWorker j pc) := by
  refine h.others rfl hlive rfl rfl rfl le_rfl (fun a id ha => ?_) fun _ _ _ _ hk => hk
  rw [DwTok.token_setWorker] at ha
  split at ha
  · rename_i haj
    subst haj
    have hne : pc.token ≠ none := by rw [ha]; exact Option.some_ne_none _
    refine ⟨.worker j, (htok hne).symm.trans ha, fun hcaller => hcaller, fun hr => ?_⟩
    simpa only [DwSys.tokenState, DwSys.setWorker, Function.update_self] using hstate hne hr
  · rename_i haj
    refine ⟨a, ha, fun hne => hne, fun hr => ?_⟩
    cases a with
    | worker k =>
        have hkj : k ≠ j := fun hkj => haj (by rw [hkj])
        simpa only [DwSys.tokenState, DwSys.setWorker, Function.update_of_ne hkj] using hr
    | _ => cases hr

/-- A worker begins to run the callback. -/
theorem workerRuns {st : DwState} {o : Option DwAgent} (htok : DwTok s st o) (h : DwHist s)
    {j id : Nat} {raw : BitVec 32} (hj : s.workers j = .cas id raw) :
    DwHist ({ s with
      word := withState raw .running, log := .ran id :: s.log }.setWorker j (.callback id)) := by
  have hmine : s.token (.worker j) = some id := by
    show (s.workers j).token = some id
    rw [hj]
    rfl
  have hother : ∀ a, a ≠ .worker j → s.token a = none := fun a ha =>
    htok.none_of_owner (by rw [hmine]; exact Option.some_ne_none _) ha
  obtain ⟨hin, hran, hacc⟩ := h.token _ id hmine
  have hnew : id ∉ ranIds s.log := by
    refine hran.resolve_left fun hr => ?_
    simp only [DwSys.tokenState, hj] at hr
    cases hr
  refine ⟨⟨hnew, h.log⟩, fun hl => ?_, h.holder, fun a id' ha => ?_, h.expiry, fun id' hid' => ?_,
    h.committed⟩
  · exact absurd hl (DwTimes.live_withState rfl (by decide) (by decide))
  · rw [DwTok.token_setWorker] at ha
    split at ha
    · rename_i haj
      subst haj
      obtain rfl : id = id' := Option.some.inj ha
      refine ⟨hin, Or.inl ?_, fun hne => accounted_cons _ (hacc hne)⟩
      simp [DwSys.tokenState, DwSys.setWorker, DwWorker.state]
    · rename_i haj
      exact absurd ((hother a haj).symm.trans ha) (by simp)
  · rcases List.mem_cons.mp hid' with rfl | hid'
    · exact ⟨hin, accounted_cons _ (hacc (by simp))⟩
    · exact ⟨(h.ran id' hid').1, accounted_cons _ (h.ran id' hid').2⟩

theorem stepWorker {st : DwState} {o : Option DwAgent} {j : Nat} (htok : DwTok s st o)
    (h : DwHist s) (hs : s.stepWorker j = some s') : DwHist s' := by
  unfold DwSys.stepWorker at hs
  generalize hc : s.workers j = here at hs
  cases here with
  | idle => cases hs
  | entry id =>
      dsimp only at hs
      split at hs
      · cases hs
        exact h.moveWorker j (fun hl => hl) (fun _ => by rw [hc]; rfl)
          (fun _ hr => by rw [hc] at hr; cases hr)
      · cases hs
        exact h.moveWorker j (fun hl => hl) (fun hne => absurd rfl hne) (fun hne => absurd rfl hne)
  | cas id raw =>
      dsimp only at hs
      split at hs
      · cases hs
        exact workerRuns htok h hc
      · cases hs
        exact h.moveWorker j (fun hl => hl) (fun hne => absurd rfl hne) (fun hne => absurd rfl hne)
  | callback id =>
      cases hs
      exact h.moveWorker j (fun hl => hl) (fun _ => by rw [hc]; rfl) (fun _ _ => rfl)
  | doneLoad id =>
      dsimp only at hs
      split at hs
      · cases hs
        exact h.moveWorker j (fun hl => hl) (fun _ => by rw [hc]; rfl) (fun _ _ => rfl)
      · cases hs
        exact h.moveWorker j (fun hl => hl) (fun hne => absurd rfl hne) (fun hne => absurd rfl hne)
  | doneCas id raw =>
      dsimp only at hs
      split at hs
      · cases hs
        exact h.moveWorker j
          (fun hl => absurd hl (DwTimes.live_withState rfl (by decide) (by decide)))
          (fun hne => absurd rfl hne) (fun hne => absurd rfl hne)
      · cases hs
        exact h.moveWorker j (fun hl => hl) (fun hne => absurd rfl hne) (fun hne => absurd rfl hne)

end DwHist

/-! ### Whole runs -/

/-- Fewer than `2 ^ 29` armings have happened since the callback loaded
`state_`, if its next step is the compare-exchange. -/
def DwExpiry.Fresh (armings : Nat) : DwExpiry → Prop
  | .cas _ loaded _ => armings < loaded + 2 ^ 29
  | _ => True

instance DwExpiry.Fresh.decidable (armings : Nat) : (pc : DwExpiry) → Decidable (pc.Fresh armings)
  | .cas _ loaded _ => inferInstanceAs (Decidable (armings < loaded + 2 ^ 29))
  | .absent | .entered | .readStartHigh _ _ | .readStartLow _ _ _ | .readDelayHigh _ _ _
  | .readDelayLow _ _ _ _ | .readClock _ _ _ _ | .submit _ _ _ | .failLoad _ | .failStore _ _ =>
    .isTrue trivial

/-- The generation does not come round between a timer callback's load of
`state_` and its compare-exchange. -/
def NoGenerationWrap (s : DwSys) : DwAct → Prop
  | .expiry i _ => (s.expiries i).Fresh s.armings
  | _ => True

instance NoGenerationWrap.decidable (s : DwSys) : (a : DwAct) → Decidable (NoGenerationWrap s a)
  | .expiry i _ => inferInstanceAs (Decidable ((s.expiries i).Fresh s.armings))
  | .call _ _ | .caller _ _ | .fire | .dequeue _ | .worker _ | .tick _ | .cancelAll =>
    .isTrue trivial

/-- What delayable work relies on: the timer starts, and fewer than `2 ^ 29`
armings happen inside one `on_timer`. -/
def DwAssumptions (s : DwSys) (a : DwAct) : Prop := TimerStarts s a ∧ NoGenerationWrap s a

instance (s : DwSys) (a : DwAct) : Decidable (DwAssumptions s a) :=
  inferInstanceAs (Decidable (_ ∧ _))

/-- Every step of the system keeps the record in order. -/
theorem DwHist.step {s s' : DwSys} {a : DwAct} (hbase : DwBase s) (h : DwHist s)
    (hok : DwAssumptions s a) (hs : s.step a = some s') : DwHist s' := by
  obtain ⟨st, o, htok⟩ := hbase.tok
  cases a with
  | call op began =>
      simp only [DwSys.step] at hs
      split at hs
      · rename_i hc
        split at hs
        · cases hs
          refine h.moveHolder rfl id rfl (DwHist.token_same rfl rfl rfl (by rw [hc]; rfl))
            (DwHist.tokenState_same rfl) rfl rfl (Nat.le_succ _) (by simp [hc])
            ⟨Nat.lt_succ_self _, fun hin => ?_⟩
          exact lt_irrefl _ (h.committed _ hin)
        · cases hs
      · cases hs
  | caller result period =>
      simp only [DwSys.step] at hs
      split at hs
      · cases hs
      · rename_i hresult
        refine DwHist.stepCaller htok hbase.times hresult (fun c hc => ?_) h hs
        simpa only [TimerStarts, hc, DwCaller.Starts] using hok.1
  | fire =>
      simp only [DwSys.step] at hs
      split at hs
      · cases hs
      · split at hs
        · cases hs
          have h₁ : DwHist { s with
              timer := { s.timer with due := none }, nextExpiry := s.nextExpiry + 1 } :=
            h.others rfl id rfl rfl rfl le_rfl
              (fun a id ha => ⟨a, ha, fun hne => hne, fun hr => hr⟩)
              fun _ _ _ _ hk => hk
          exact h₁.moveExpiry s.nextExpiry id (fun hne => absurd rfl hne) (by simp)
        · cases hs
  | expiry i result =>
      simp only [DwSys.step] at hs
      split at hs
      · cases hs
      · refine DwHist.stepExpiry htok hbase.times (fun raw loaded now hi => ?_) h hs
        simpa only [NoGenerationWrap, hi, DwExpiry.Fresh] using hok.2
  | dequeue j =>
      simp only [DwSys.step] at hs
      split at hs
      · rename_i _ hqueue
        cases hs
        refine h.others rfl id rfl rfl rfl le_rfl (fun a id ha => ?_) fun _ _ _ _ hk => hk
        rw [DwTok.token_setWorker] at ha
        split at ha
        · rename_i haj
          refine ⟨.slot 0, ?_, by simp, fun hr => by cases hr⟩
          show s.queue[0]? = some id
          rw [hqueue]
          exact ha
        · rename_i haj
          cases a with
          | slot k =>
              refine ⟨.slot (k + 1), ?_, by simp, fun hr => by cases hr⟩
              show s.queue[k + 1]? = some id
              rw [hqueue, List.getElem?_cons_succ]
              exact ha
          | worker k =>
              have hkj : k ≠ j := fun hkj => haj (by rw [hkj])
              refine ⟨.worker k, ha, fun hne => hne, fun hr => ?_⟩
              simpa only [DwSys.tokenState, DwSys.setWorker, Function.update_of_ne hkj] using hr
          | caller => exact ⟨.caller, ha, fun hne => hne, fun hr => by cases hr⟩
          | expiry i => exact ⟨.expiry i, ha, fun hne => hne, fun hr => by cases hr⟩
      · cases hs
  | worker j => exact DwHist.stepWorker htok h hs
  | tick ms =>
      simp only [DwSys.step] at hs
      split at hs
      · cases hs
        exact h.others rfl id rfl rfl rfl (Nat.le_add_right _ _)
          (fun a id ha => ⟨a, ha, fun hne => hne, fun hr => hr⟩) fun _ _ _ _ hk => hk
      · cases hs
  | cancelAll =>
      cases hs
      refine h.others rfl id rfl rfl rfl le_rfl
        (fun a id ha => ⟨a, ?_, fun hne => hne, fun hr => ?_⟩)
        fun _ _ _ _ hk => hk
      · cases a with
        | slot k => simp [DwSys.token] at ha
        | _ => exact ha
      · cases a with
        | worker j => exact hr
        | _ => cases hr

theorem DwHist.fresh (clock : Nat) : DwHist (DwSys.fresh clock) := by
  have hidle : decodeState (DwSys.fresh clock).word = some .idle := by
    show decodeState (BitVec.ofNat 32 DwState.idle.code) = some .idle
    decide
  obtain ⟨st, o, htok⟩ := DwTok.fresh clock
  obtain ⟨hdead, hnone⟩ := idle_facts htok hidle
  exact ⟨trivial, fun hl => absurd hl hdead, trivial, fun a id ha => absurd ha (hnone a id),
    fun i _ _ _ hi => (by cases hi), fun _ hid => (by cases hid), fun _ hid => (by cases hid)⟩

theorem DwHist.reachable {clock : Nat} (hclock : clock < 2 ^ 63) {s : DwSys}
    (hs : (dwMachine clock).ReachableBy DwAssumptions s) : DwHist s :=
  Machine.ReachableBy.invariant (DwHist.fresh clock)
    (fun _ _ _ hr h hok hstep =>
      h.step (DwBase.reachable hclock (fun _ _ hok => hok.1) hr) hok hstep) hs

end MicrOsal
