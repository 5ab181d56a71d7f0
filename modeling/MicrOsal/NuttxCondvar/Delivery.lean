import MicrOsal.NuttxCondvar.Waits

/-!
# MicrOsal.NuttxCondvar.Delivery

What becomes of a notification. A permit may go to a wait that began after the notification had
looked for waiters, and a waiter that it counted may time out before the post. As long as
neither happens (`Heeds`), the posts that a notification has still to make and the permits that
are left are enough for the waits it found (`NoteOk`).
-/

namespace MicrOsal.NuttxCondvar

variable {s s' : State} {a : Action} {n ticket j : Nat} {th th' : Thread} {N : Note}
  {waits : List Wait}

/-! ### Permits and waits -/

/-- The posts that a thread has to make for the waits that a note found. -/
def Thread.owes (j : Nat) : Thread → Nat
  | .posts note own _ => if note = j then own else 0
  | _ => 0

/-- It was posted for waits before the horizon only. -/
def Permit.within (horizon : Nat) : Permit → Bool
  | none => false
  | some h => h ≤ horizon

namespace State

def Waiting (s : State) (w : Nat) : Prop := s.waits[w]? = some .waiting

def succeeded (s : State) (w : Nat) : Bool := (s.waits[w]?).any Wait.succeeded

/-- It has not failed. -/
def live (s : State) (w : Nat) : Bool := (s.waits[w]?).any Wait.pending || s.succeeded w

/-- Every `notify_one` since the wait began has found another wait that has not failed, and
there was no `notify_all`. -/
def spared (s : State) (ticket : Nat) : Bool :=
  s.notes.all (fun N => ticket ∉ N.waiters ∨
    ! N.all ∧ N.waiters.any (fun w => w ≠ ticket ∧ s.live w))

/-- A permit that was posted for earlier waits goes to one of them, and a wait that times out
has not been notified, or not alone. -/
def heeds (s : State) : Action → Bool
  | .arrive n k =>
      match s.threads[n]?, s.permits[k]? with
      | some (.arrives ticket _), some permit => permit.admits ticket
      | _, _ => true
  | .post n owed (some m) =>
      match s.threads[n]?, s.threads[m]? with
      | some (.posts note _ _), some (.blocked ticket _) => (s.permitOf note owed).admits ticket
      | _, _ => true
  | .expire n | .interrupt n =>
      match s.threads[n]? with
      | some (.blocked ticket true) => s.spared ticket
      | _ => true
  | _ => true

def owed (s : State) (j : Nat) : Nat := tally (Thread.owes j) s.threads

/-- The waits before the horizon that have not ended. -/
def below (s : State) (horizon : Nat) : Nat := (s.waits.take horizon).countP Wait.pending

/-- What is left for them: permits, and posts of the note. -/
def supply (s : State) (j horizon : Nat) : Nat :=
  s.permits.countP (Permit.within horizon) + s.owed j

/-- A permit of the note is left, or is going to be posted. -/
def Hope (s : State) (j horizon : Nat) : Prop := 0 < s.owed j ∨ some horizon ∈ s.permits

end State

def Heeds (s : State) (a : Action) : Prop := s.heeds a = true

instance Heeds.decidable (s : State) (a : Action) : Decidable (Heeds s a) :=
  inferInstanceAs (Decidable (_ = _))

/-- A notification is on its way to the waits it found. -/
structure NoteOk (s : State) (j : Nat) (N : Note) : Prop where
  horizon : N.horizon ≤ s.waits.length
  found : ∀ w, w < N.horizon → s.Waiting w → w ∈ N.waiters
  before : ∀ w ∈ N.waiters, w < N.horizon
  one : N.all = false → N.waiters ≠ [] → (∃ w ∈ N.waiters, s.succeeded w = true) ∨
    (s.Hope j N.horizon ∧ ∃ w ∈ N.waiters, s.Waiting w)
  each : N.all = true → ∀ w ∈ N.waiters, s.live w = true
  enough : N.all = true → s.below N.horizon ≤ s.supply j N.horizon

/-! ### What the parts of a step do to it -/

theorem owed_set (hn : s.threads[n]? = some th) (howes : th'.owes j = th.owes j) :
    tally (Thread.owes j) (s.threads.set n th') = s.owed j :=
  tally_set_eq hn howes

theorem owes_posting {note own spare : Nat} :
    (Thread.posting note own spare).owes j = if note = j then own else 0 := by
  unfold Thread.posting
  split
  case isTrue hzero =>
    obtain rfl : own = 0 := by omega
    exact (ite_self 0).symm
  case isFalse => rfl

theorem owed_post {note own spare own' : Nat} {owed : Bool} (spare' : Nat)
    (hn : s.threads[n]? = some (.posts note own spare)) (howed : own = own' + owed.toNat) :
    tally (Thread.owes j) (s.threads.set n (.posting note own' spare')) +
      (if note = j then owed.toNat else 0) = s.owed j := by
  have hset := tally_set (f := Thread.owes j) (b := Thread.posting note own' spare') hn
  rw [owes_posting] at hset
  unfold State.owed
  dsimp only [Thread.owes] at hset
  split <;> split at hset <;> omega

theorem below_set {old : Wait} (horizon : Nat) (new : Wait)
    (hticket : waits[ticket]? = some old) :
    ((waits.set ticket new).take horizon).countP Wait.pending +
        (if ticket < horizon ∧ old.pending = true then 1 else 0) =
      (waits.take horizon).countP Wait.pending +
        (if ticket < horizon ∧ new.pending = true then 1 else 0) := by
  rw [List.take_set]
  by_cases hlt : ticket < horizon
  · have htake : (waits.take horizon)[ticket]? = some old :=
      (List.getElem?_take_of_lt hlt).trans hticket
    simpa [hlt] using countP_set (b := new) Wait.pending htake
  · rw [List.set_eq_of_length_le (by rw [List.length_take]; omega), if_neg (fun h => hlt h.1),
      if_neg (fun h => hlt h.1)]

theorem succeeded_set {w : Nat} {old new : Wait} (hticket : s.waits[ticket]? = some old)
    (hnew : old.succeeded = true → new.succeeded = true) (hw : s.succeeded w = true)
    (hwaits : s'.waits = s.waits.set ticket new) : s'.succeeded w = true := by
  unfold State.succeeded at hw ⊢
  rw [hwaits]
  by_cases heq : ticket = w
  · subst heq
    rw [List.getElem?_set_self (List.getElem?_eq_some_iff.mp hticket).1]
    rw [hticket] at hw
    exact hnew hw
  · rwa [List.getElem?_set_ne heq]

theorem live_of_waiting {w : Nat} (h : s.Waiting w) : s.live w = true := by
  unfold State.live
  rw [h]
  rfl

theorem live_cases {w : Nat} (h : s.live w = true) : s.Waiting w ∨ s.succeeded w = true := by
  unfold State.live at h
  rcases Bool.or_eq_true_iff.mp h with hpending | hdone
  · cases hw : s.waits[w]? with
    | none =>
        rw [hw] at hpending
        cases hpending
    | some x =>
        rw [hw] at hpending
        obtain rfl : x = .waiting := of_decide_eq_true hpending
        exact .inl hw
  · exact .inr hdone

namespace NoteOk

/-- Nothing that the waits of a note rely on is lost. -/
theorem keep (h : NoteOk s j N) (hlength : s.waits.length ≤ s'.waits.length)
    (hwaiting : ∀ w, w < N.horizon → (s'.Waiting w ↔ s.Waiting w))
    (hsucceeded : ∀ w, w < N.horizon → s.succeeded w = true → s'.succeeded w = true)
    (hbelow : s'.below N.horizon ≤ s.below N.horizon)
    (hhope : s.Hope j N.horizon → s'.Hope j N.horizon)
    (hsupply : s.supply j N.horizon ≤ s'.supply j N.horizon) : NoteOk s' j N where
  horizon := le_trans h.horizon hlength
  found w hw hwait := h.found w hw ((hwaiting w hw).mp hwait)
  before := h.before
  one hall hne := by
    rcases h.one hall hne with ⟨w, hw, hdone⟩ | ⟨hleft, w, hw, hwait⟩
    · exact .inl ⟨w, hw, hsucceeded w (h.before w hw) hdone⟩
    · exact .inr ⟨hhope hleft, w, hw, (hwaiting w (h.before w hw)).mpr hwait⟩
  each hall w hw := by
    rcases live_cases (h.each hall w hw) with hwait | hdone
    · exact live_of_waiting ((hwaiting w (h.before w hw)).mpr hwait)
    · exact Bool.or_eq_true_iff.mpr (.inr (hsucceeded w (h.before w hw) hdone))
  enough hall := le_trans hbelow (le_trans (h.enough hall) hsupply)

/-- Only threads and permits have changed. -/
theorem same (h : NoteOk s j N) (hwaits : s'.waits = s.waits)
    (hhope : s.Hope j N.horizon → s'.Hope j N.horizon)
    (hsupply : s.supply j N.horizon ≤ s'.supply j N.horizon) : NoteOk s' j N := by
  refine h.keep (hwaits ▸ le_rfl) (fun w _ => ?_) (fun w _ hdone => ?_) ?_ hhope hsupply
  · unfold State.Waiting
    rw [hwaits]
  · unfold State.succeeded
    rw [hwaits]
    exact hdone
  · unfold State.below
    rw [hwaits]

/-- A wait ends: it has a permit that was posted for it, or it fails and has been spared. -/
theorem settle {code : ErrorCode} (h : NoteOk s j N) (hticket : s.Waiting ticket)
    (hwaits : s'.waits = s.waits.set ticket (.going code))
    (hcode : code = .ok ∨ ((ticket ∈ N.waiters → N.all = false ∧
      ∃ w ∈ N.waiters, w ≠ ticket ∧ s.live w = true) ∧
      (s.Hope j N.horizon → s'.Hope j N.horizon)))
    (hhope : N.horizon ≤ ticket → s.Hope j N.horizon → s'.Hope j N.horizon)
    (hsupply : s.supply j N.horizon ≤
      s'.supply j N.horizon + if ticket < N.horizon then 1 else 0) :
    NoteOk s' j N := by
  have hlt : ticket < s.waits.length := (List.getElem?_eq_some_iff.mp hticket).1
  have hself : s'.waits[ticket]? = some (.going code) := by
    rw [hwaits]
    exact List.getElem?_set_self hlt
  have hother : ∀ w, w ≠ ticket → s'.waits[w]? = s.waits[w]? := by
    intro w hne
    rw [hwaits]
    exact List.getElem?_set_ne (Ne.symm hne)
  have hwaiting : ∀ w, s'.Waiting w → s.Waiting w := by
    intro w hw
    by_cases heq : w = ticket
    · exact heq ▸ hticket
    · exact (hother w heq).symm.trans hw
  have hsucceeded : ∀ w, s.succeeded w = true → s'.succeeded w = true :=
    fun w hw => succeeded_set hticket nofun hw hwaits
  have hlive : ∀ w, w ≠ ticket → s.live w = true → s'.live w = true := by
    intro w hne hw
    unfold State.live State.succeeded at hw ⊢
    rwa [hother w hne]
  have hbelow := below_set N.horizon (.going code) hticket
  rw [← hwaits] at hbelow
  have hgoing : (Wait.going code).pending = false := rfl
  have hpending : Wait.waiting.pending = true := rfl
  rw [hgoing, hpending] at hbelow
  simp only [Bool.false_eq_true, and_false, and_true, if_false] at hbelow
  have hdone : code = .ok → s'.succeeded ticket = true := by
    rintro rfl
    unfold State.succeeded
    rw [hself]
    rfl
  refine ⟨?_, fun w hw hwait => h.found w hw (hwaiting w hwait), h.before, fun hall hne => ?_,
    fun hall w hw => ?_, fun hall => ?_⟩
  · rw [hwaits, List.length_set]
    exact h.horizon
  · by_cases hmem : ticket ∈ N.waiters
    · rcases hcode with hok | ⟨hspared, hkept⟩
      · exact .inl ⟨ticket, hmem, hdone hok⟩
      · obtain ⟨-, w, hw, hneq, hwlive⟩ := hspared hmem
        rcases h.one hall hne with ⟨v, hv, hvdone⟩ | ⟨hleft, -⟩
        · exact .inl ⟨v, hv, hsucceeded v hvdone⟩
        · rcases live_cases hwlive with hwait | hwdone
          · exact .inr ⟨hkept hleft, w, hw, (hother w hneq).trans hwait⟩
          · exact .inl ⟨w, hw, hsucceeded w hwdone⟩
    · have hge : N.horizon ≤ ticket := by
        by_contra hlt'
        exact hmem (h.found ticket (not_le.mp hlt') hticket)
      rcases h.one hall hne with ⟨v, hv, hvdone⟩ | ⟨hleft, w, hw, hwait⟩
      · exact .inl ⟨v, hv, hsucceeded v hvdone⟩
      · refine .inr ⟨hhope hge hleft, w, hw, (hother w ?_).trans hwait⟩
        rintro rfl
        exact hmem hw
  · by_cases heq : w = ticket
    · subst heq
      rcases hcode with hok | ⟨hspared, -⟩
      · exact Bool.or_eq_true_iff.mpr (.inr (hdone hok))
      · exact nomatch hall.symm.trans (hspared hw).1
    · exact hlive w heq (h.each hall w hw)
  · have henough := h.enough hall
    unfold State.below at henough ⊢
    omega

end NoteOk

/-! ### Steps -/

theorem mem_waiters {w : Nat} : w ∈ s.waiters ↔ s.Waiting w := by
  unfold State.waiters State.Waiting
  rw [List.mem_filter, List.mem_range]
  constructor
  · rintro ⟨-, hpending⟩
    cases hw : s.waits[w]? with
    | none =>
        rw [hw] at hpending
        cases hpending
    | some x =>
        rw [hw] at hpending
        obtain rfl : x = .waiting := of_decide_eq_true hpending
        rfl
  · intro hw
    refine ⟨(List.getElem?_eq_some_iff.mp hw).1, ?_⟩
    rw [hw]
    rfl

theorem length_waiters : s.waiters.length = s.waits.countP Wait.pending :=
  (countP_eq_length_filter_range Wait.pending s.waits).symm

/-- A notification is going to post for every wait it has found, or for one of them. -/
theorem NoteOk.new {all : Bool} {last : Option ErrorCode} (h : Counted s)
    (hn : s.threads[n]? = some (.outside last))
    (hwaits : s'.waits = s.waits)
    (hthreads : s'.threads = s.threads.set n (.posting s.notes.length
      (min s.waiters.length (s.posts all)) (s.posts all - min s.waiters.length (s.posts all)))) :
    NoteOk s' s.notes.length ⟨all, s.waits.length, s.waiters⟩ := by
  have hle := h.waiters_le
  have hnone : s.owed s.notes.length = 0 := by
    refine tally_eq_zero (fun m u hm => ?_)
    cases u with
    | posts note own spare => exact if_neg (h.noted m note own spare hm).1.ne
    | outside | joined | arrives | blocked | leaves | relocks => rfl
  have howed : s'.owed s.notes.length = min s.waiters.length (s.posts all) := by
    have hset := tally_set (f := Thread.owes s.notes.length) (b := Thread.posting s.notes.length
      (min s.waiters.length (s.posts all))
      (s.posts all - min s.waiters.length (s.posts all))) hn
    rw [owes_posting, if_pos rfl] at hset
    unfold State.owed at hnone ⊢
    rw [hthreads]
    dsimp only [Thread.owes] at hset
    omega
  have hwaiting : ∀ w, s'.Waiting w ↔ s.Waiting w := by
    intro w
    unfold State.Waiting
    rw [hwaits]
  refine ⟨hwaits ▸ le_rfl, fun w _ hw => mem_waiters.mpr ((hwaiting w).mp hw), fun w hw => ?_,
    fun hall hne => ?_, fun hall w hw => ?_, fun hall => ?_⟩
  · exact (List.getElem?_eq_some_iff.mp (mem_waiters.mp hw)).1
  · obtain ⟨w, hw⟩ := List.exists_mem_of_ne_nil _ hne
    have hpos : 0 < s.waiters.length := List.length_pos_of_mem hw
    refine .inr ⟨.inl ?_, w, hw, (hwaiting w).mpr (mem_waiters.mp hw)⟩
    subst hall
    rw [howed]
    unfold State.posts
    rw [if_neg Bool.false_ne_true]
    omega
  · exact live_of_waiting ((hwaiting w).mpr (mem_waiters.mp hw))
  · subst hall
    unfold State.supply State.below
    rw [howed, hwaits, List.take_length, ← length_waiters]
    unfold State.posts
    rw [if_pos rfl]
    omega

/-- A step of one thread that posts nothing. -/
theorem NoteOk.thread (h : NoteOk s j N) (hn : s.threads[n]? = some th)
    (hthreads : s'.threads = s.threads.set n th') (howes : th'.owes j = th.owes j)
    (hwaits : s'.waits = s.waits) (hpermits : s'.permits = s.permits) :
    NoteOk s' j N := by
  have howed : s'.owed j = s.owed j := by
    rw [State.owed, hthreads]
    exact owed_set hn howes
  refine h.same hwaits (fun hhope => ?_) ?_
  · unfold State.Hope at hhope ⊢
    rwa [howed, hpermits]
  · unfold State.supply
    rw [howed, hpermits]

theorem spared_of_mem (h : s.spared ticket = true) (hN : N ∈ s.notes)
    (hmem : ticket ∈ N.waiters) :
    N.all = false ∧ ∃ w ∈ N.waiters, w ≠ ticket ∧ s.live w = true := by
  have hnote := List.all_eq_true.mp h N hN
  rcases of_decide_eq_true hnote with hnot | ⟨hall, hany⟩
  · exact absurd hmem hnot
  · obtain ⟨w, hw, hlive⟩ := List.any_eq_true.mp hany
    exact ⟨Bool.not_inj hall, w, hw, of_decide_eq_true hlive⟩

/-- A wait that has been spared fails. -/
theorem NoteOk.failed {timed : Bool} {code : ErrorCode} (h : NoteOk s j N) (hN : N ∈ s.notes)
    (hcounted : Counted s) (hn : s.threads[n]? = some (.blocked ticket timed))
    (hspared : s.spared ticket = true) : NoteOk (s.settle n ticket code) j N := by
  have howed : (s.settle n ticket code).owed j = s.owed j := owed_set hn rfl
  have hhope : s.Hope j N.horizon → (s.settle n ticket code).Hope j N.horizon := by
    unfold State.Hope
    rw [howed]
    exact id
  refine h.settle (hcounted.owned.recorded n _ ticket hn rfl) rfl
    (.inr ⟨spared_of_mem hspared hN, hhope⟩) (fun _ => hhope) ?_
  unfold State.supply
  rw [howed]
  exact Nat.le_add_right _ _

/-- Taking a permit leaves those that it was not posted with. -/
theorem countP_eraseIdx {p : Permit → Bool} {permits : List Permit} {k : Nat} {permit : Permit}
    (hk : permits[k]? = some permit) :
    permits.countP p = (permits.eraseIdx k).countP p + (p permit).toNat := by
  induction permits generalizing k with
  | nil => cases hk
  | cons first rest ih =>
      cases k with
      | zero =>
          obtain rfl := Option.some.inj hk
          rw [List.countP_cons, List.eraseIdx_cons_zero]
          cases p first <;> rfl
      | succ k =>
          rw [List.eraseIdx_cons_succ, List.countP_cons, List.countP_cons, ih hk]
          omega

theorem NoteOk.takes {k : Nat} {timed : Bool} {permit : Permit} (h : NoteOk s j N)
    (hcounted : Counted s) (hn : s.threads[n]? = some (.arrives ticket timed))
    (hk : s.permits[k]? = some permit) (hadmits : permit.admits ticket = true) :
    NoteOk ({ s with
      permits := s.permits.eraseIdx k
      takes := s.takes ++ [(ticket, permit)] }.settle n ticket .ok) j N := by
  have howed : tally (Thread.owes j) (s.threads.set n (.leaves ticket .ok)) = s.owed j :=
    owed_set hn rfl
  refine h.settle (hcounted.owned.recorded n _ ticket hn rfl) rfl (.inl rfl)
    (fun hge hhope => ?_) ?_
  · refine hhope.imp (fun hpos => lt_of_lt_of_eq hpos howed.symm) (fun hmem => ?_)
    obtain ⟨i, hi⟩ := List.getElem?_of_mem hmem
    refine List.mem_eraseIdx_iff_getElem?.mpr ⟨i, ?_, hi⟩
    rintro rfl
    obtain rfl := Option.some.inj (hi.symm.trans hk)
    exact absurd (of_decide_eq_true hadmits) (not_lt.mpr hge)
  · have hcount := countP_eraseIdx (p := Permit.within N.horizon) hk
    have hwithin : (Permit.within N.horizon permit).toNat ≤
        if ticket < N.horizon then 1 else 0 := by
      cases permit with
      | none => exact Nat.zero_le _
      | some horizon =>
          have hlt : ticket < horizon := of_decide_eq_true hadmits
          by_cases hle : horizon ≤ N.horizon
          · rw [if_pos (lt_of_lt_of_le hlt hle)]
            exact Bool.toNat_le _
          · have hnot : Permit.within N.horizon (some horizon) = false := decide_eq_false hle
            rw [hnot]
            exact Nat.zero_le _
    unfold State.supply State.owed at *
    dsimp only [State.settle, State.setThread]
    omega

theorem permitOf_note {note : Nat} (hN : s.notes[note]? = some N) :
    s.permitOf note true = some N.horizon := by
  unfold State.permitOf
  rw [if_pos rfl, hN]
  rfl

/-- A post is a permit more. -/
theorem NoteOk.frees {note own spare own' spare' : Nat} {owed : Bool} (h : NoteOk s j N)
    (hN : s.notes[j]? = some N) (hn : s.threads[n]? = some (.posts note own spare))
    (howed : own = own' + owed.toNat) :
    NoteOk ({ s with permits := s.permits ++ [s.permitOf note owed] }.setThread n
      (.posting note own' spare')) j N := by
  have hpost := owed_post (j := j) spare' hn howed
  by_cases hpaid : note = j ∧ owed = true
  · obtain ⟨rfl, rfl⟩ := hpaid
    rw [permitOf_note hN]
    rw [if_pos rfl] at hpost
    refine h.same rfl (fun _ => .inr (List.mem_append.mpr (.inr List.mem_cons_self))) ?_
    unfold State.supply
    dsimp only [State.setThread]
    rw [List.countP_append, List.countP_singleton]
    have hwithin : Permit.within N.horizon (some N.horizon) = true := decide_eq_true le_rfl
    rw [hwithin, if_pos rfl]
    unfold State.owed at hpost ⊢
    dsimp only [Bool.toNat_true] at hpost ⊢
    omega
  · have hsame : tally (Thread.owes j) (s.threads.set n (.posting note own' spare')) =
        s.owed j := by
      split at hpost
      case isTrue heq =>
        have hoff : owed = false := Bool.eq_false_iff.mpr (fun hon => hpaid ⟨heq, hon⟩)
        rw [hoff] at hpost
        exact hpost
      case isFalse => exact hpost
    refine h.same rfl (fun hhope => ?_) ?_
    · exact hhope.imp (fun hpos => lt_of_lt_of_eq hpos hsame.symm) (List.mem_append_left _)
    · unfold State.supply State.owed at *
      dsimp only [State.setThread]
      rw [List.countP_append]
      omega

/-- A post wakes a wait that it was made for. -/
theorem NoteOk.gives {m note own spare own' spare' : Nat} {owed timed : Bool}
    (h : NoteOk s j N) (hN : s.notes[j]? = some N) (hcounted : Counted s)
    (hn : s.threads[n]? = some (.posts note own spare)) (howed : own = own' + owed.toNat)
    (hm : s.threads[m]? = some (.blocked ticket timed))
    (hadmits : (s.permitOf note owed).admits ticket = true) :
    NoteOk (({ s with
      takes := s.takes ++ [(ticket, s.permitOf note owed)] }.setThread n
        (.posting note own' spare')).settle m ticket .ok) j N := by
  have hpost := owed_post (j := j) spare' hn howed
  have hm' : (s.threads.set n (.posting note own' spare'))[m]? = some (.blocked ticket timed) := by
    refine (List.getElem?_set_ne ?_).trans hm
    rintro rfl
    cases hn.symm.trans hm
  have hwoken : tally (Thread.owes j) ((s.threads.set n (.posting note own' spare')).set m
      (.leaves ticket .ok)) = tally (Thread.owes j) (s.threads.set n
        (.posting note own' spare')) := tally_set_eq hm' rfl
  have hmeant : note = j → owed = true → ticket < N.horizon := by
    rintro rfl rfl
    rw [permitOf_note hN] at hadmits
    exact of_decide_eq_true hadmits
  refine h.settle (hcounted.owned.recorded m _ ticket hm rfl) rfl (.inl rfl)
    (fun hge hhope => ?_) ?_
  · refine hhope.imp (fun hpos => ?_) id
    unfold State.owed at hpos hpost ⊢
    dsimp only [State.settle, State.setThread]
    rw [hwoken]
    split at hpost
    case isTrue heq =>
      cases owed with
      | true => exact absurd (hmeant heq rfl) (not_lt.mpr hge)
      | false =>
          dsimp only [Bool.toNat_false] at hpost
          omega
    case isFalse => omega
  · unfold State.supply State.owed at *
    dsimp only [State.settle, State.setThread]
    rw [hwoken]
    split at hpost
    case isTrue heq =>
      cases owed with
      | true =>
          rw [if_pos (hmeant heq rfl)]
          dsimp only [Bool.toNat_true] at hpost
          omega
      | false =>
          dsimp only [Bool.toNat_false] at hpost
          omega
    case isFalse => omega

end MicrOsal.NuttxCondvar
