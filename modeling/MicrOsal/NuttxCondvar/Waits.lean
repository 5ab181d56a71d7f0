import MicrOsal.NuttxCondvar.Model

/-!
# MicrOsal.NuttxCondvar.Waits

What a step does (`Moves`), and that a wait that has not ended belongs to one thread, which is
counted in `nwaiters` and is not blocked while there is a permit (`Counted`).
-/

namespace MicrOsal.NuttxCondvar

variable {s s' : State} {a : Action} {n m : Nat} {th th' : Thread} {threads : List Thread}
  {waits waits' : List Wait}

/-! ### What a step does -/

inductive Moves (s : State) : Action → State → Prop
  | spawns : Moves s .spawn { s with threads := s.threads ++ [.outside none] }
  | locks {n : Nat} : Moves s (.lock n) { s with owner := some n }
  | unlocks {n : Nat} : Moves s (.unlock n) { s with owner := none }
  | joins {n : Nat} {timed : Bool} {last : Option ErrorCode}
      (hn : s.threads[n]? = some (.outside last)) : Moves s (.wait n timed)
      ({ s with nwaiters := s.nwaiters + 1 }.setThread n (.joined timed))
  | begins {n : Nat} {timed : Bool} (hn : s.threads[n]? = some (.joined timed)) :
      Moves s (.release n) ({ s with
        owner := none
        waits := s.waits ++ [Wait.waiting] }.setThread n (.arrives s.waits.length timed))
  | blocks {n k ticket : Nat} {timed : Bool} (hn : s.threads[n]? = some (.arrives ticket timed))
      (hempty : s.permits = []) : Moves s (.arrive n k) (s.setThread n (.blocked ticket timed))
  | takes {n k ticket : Nat} {timed : Bool} {permit : Permit}
      (hn : s.threads[n]? = some (.arrives ticket timed)) (hk : s.permits[k]? = some permit) :
      Moves s (.arrive n k) ({ s with
        permits := s.permits.eraseIdx k
        takes := s.takes ++ [(ticket, permit)] }.settle n ticket .ok)
  | expires {n ticket : Nat} (hn : s.threads[n]? = some (.blocked ticket true)) :
      Moves s (.expire n) (s.settle n ticket .timeout)
  | interrupted {n ticket : Nat} (hn : s.threads[n]? = some (.blocked ticket true)) :
      Moves s (.interrupt n) (s.settle n ticket .unknown)
  | retries {n ticket : Nat} (hn : s.threads[n]? = some (.blocked ticket false)) :
      Moves s (.interrupt n) (s.setThread n (.arrives ticket false))
  | leaves {n ticket : Nat} {code : ErrorCode} (hn : s.threads[n]? = some (.leaves ticket code)) :
      Moves s (.leave n) ({ s with nwaiters := s.nwaiters - 1 }.setThread n (.relocks ticket code))
  | returns {n ticket : Nat} {code : ErrorCode}
      (hn : s.threads[n]? = some (.relocks ticket code)) :
      Moves s (.relock n) ({ s with
        owner := some n
        waits := s.waits.set ticket (.returned code) }.setThread n (.outside (some code)))
  | notifies {n : Nat} {all : Bool} {last : Option ErrorCode}
      (hn : s.threads[n]? = some (.outside last)) : Moves s (.notify n all) ({ s with
        notes := s.notes ++ [Note.mk all s.waits.length s.waiters] }.setThread n
          (.posting s.notes.length (min s.waiters.length (s.posts all))
            (s.posts all - min s.waiters.length (s.posts all))))
  | frees {n note own spare own' spare' : Nat} {owed : Bool}
      (hn : s.threads[n]? = some (.posts note own spare))
      (howed : own = own' + owed.toNat) (hspare : spare = spare' + (! owed).toNat)
      (hnobody : (s.threads.set n (.posting note own' spare')).any Thread.isBlocked = false) :
      Moves s (.post n owed none) ({ s with
        permits := s.permits ++ [s.permitOf note owed] }.setThread n (.posting note own' spare'))
  | gives {n m note own spare own' spare' ticket : Nat} {owed timed : Bool}
      (hn : s.threads[n]? = some (.posts note own spare))
      (howed : own = own' + owed.toNat) (hspare : spare = spare' + (! owed).toNat)
      (hm : s.threads[m]? = some (.blocked ticket timed)) :
      Moves s (.post n owed (some m)) (({ s with
        takes := s.takes ++ [(ticket, s.permitOf note owed)] }.setThread n
          (.posting note own' spare')).settle m ticket .ok)

theorem posting_not_blocked {note own spare ticket : Nat} {timed : Bool} :
    Thread.posting note own spare ≠ .blocked ticket timed := by
  unfold Thread.posting
  split <;> nofun

/-- A post gives its permit to a blocked thread, or leaves it in the semaphore. -/
theorem moves_of_give {note own spare own' spare' : Nat} {owed : Bool} {target : Option Nat}
    (hn : s.threads[n]? = some (.posts note own spare)) (howed : own = own' + owed.toNat)
    (hspare : spare = spare' + (! owed).toNat)
    (hs : (s.setThread n (.posting note own' spare')).give (s.permitOf note owed) target =
      some s') :
    Moves s (.post n owed target) s' := by
  unfold State.give at hs
  cases target with
  | none =>
      dsimp only at hs
      split at hs
      case isTrue => cases hs
      case isFalse hnobody =>
        cases hs
        exact .frees hn howed hspare (Bool.eq_false_iff.mpr hnobody)
  | some m =>
      dsimp only at hs
      split at hs
      case h_1 ticket timed hm =>
        cases hs
        rcases getElem?_set_cases hm with ⟨-, heq⟩ | ⟨-, hm⟩
        · exact absurd heq.symm posting_not_blocked
        · exact .gives hn howed hspare hm
      case h_2 => cases hs

theorem moves_of_post {owed : Bool} {target : Option Nat} (hs : s.post n owed target = some s') :
    Moves s (.post n owed target) s' := by
  unfold State.post at hs
  split at hs
  case h_1 note own spare hn => exact moves_of_give hn rfl rfl hs
  case h_2 note own spare hn => exact moves_of_give hn rfl rfl hs
  case h_3 => cases hs

theorem moves_of_step (hs : s.step a = some s') : Moves s a s' := by
  cases a with
  | spawn =>
      cases hs
      exact .spawns
  | lock n =>
      dsimp only [State.step] at hs
      unfold State.lock at hs
      split at hs
      · cases hs
        exact .locks
      · cases hs
  | unlock n =>
      dsimp only [State.step] at hs
      unfold State.unlock at hs
      split at hs
      · split at hs
        · cases hs
          exact .unlocks
        · cases hs
      · cases hs
  | wait n timed =>
      dsimp only [State.step] at hs
      unfold State.wait at hs
      split at hs
      case h_1 last hn =>
        split at hs
        · cases hs
          exact .joins hn
        · cases hs
      case h_2 => cases hs
  | release n =>
      dsimp only [State.step] at hs
      unfold State.release at hs
      split at hs
      case h_1 timed hn =>
        cases hs
        exact .begins hn
      case h_2 => cases hs
  | arrive n k =>
      dsimp only [State.step] at hs
      unfold State.arrive at hs
      split at hs
      case h_1 ticket timed hn =>
        split at hs
        case isTrue hempty =>
          cases hs
          exact .blocks hn hempty
        case isFalse =>
          obtain ⟨permit, hk, rfl⟩ := Option.map_eq_some_iff.mp hs
          exact .takes hn hk
      case h_2 => cases hs
  | expire n =>
      dsimp only [State.step] at hs
      unfold State.expire at hs
      split at hs
      case h_1 ticket hn =>
        cases hs
        exact .expires hn
      case h_2 => cases hs
  | interrupt n =>
      dsimp only [State.step] at hs
      unfold State.interrupt at hs
      split at hs
      case h_1 ticket hn =>
        cases hs
        exact .interrupted hn
      case h_2 ticket hn =>
        cases hs
        exact .retries hn
      case h_3 => cases hs
  | leave n =>
      dsimp only [State.step] at hs
      unfold State.leave at hs
      split at hs
      case h_1 ticket code hn =>
        cases hs
        exact .leaves hn
      case h_2 => cases hs
  | relock n =>
      dsimp only [State.step] at hs
      unfold State.relock at hs
      split at hs
      case h_1 ticket code hn _ =>
        cases hs
        exact .returns hn
      case h_2 => cases hs
  | notify n all =>
      dsimp only [State.step] at hs
      unfold State.notify at hs
      split at hs
      case h_1 last hn =>
        cases hs
        exact .notifies hn
      case h_2 => cases hs
  | post n owed m => exact moves_of_post hs

/-! ### Waits and threads -/

/-- The wait a thread is in. -/
def Thread.ticket : Thread → Option Nat
  | .arrives ticket _ | .blocked ticket _ | .leaves ticket _ | .relocks ticket _ => some ticket
  | _ => none

/-- What is recorded of the wait. -/
def Thread.wait : Thread → Option Wait
  | .arrives _ _ | .blocked _ _ => some .waiting
  | .leaves _ code | .relocks _ code => some (.going code)
  | _ => none

theorem Thread.wait_of_ticket {ticket : Nat} (h : th.ticket = some ticket) :
    ∃ w, th.wait = some w := by
  cases th <;> first | exact ⟨_, rfl⟩ | cases h

/-- It is counted in `nwaiters`. -/
def Thread.counted : Thread → Bool
  | .joined _ | .arrives _ _ | .blocked _ _ | .leaves _ _ => true
  | _ => false

/-- A thread's wait is recorded, and no other thread is in it. -/
structure Owned (waits : List Wait) (threads : List Thread) : Prop where
  recorded : ∀ (n : Nat) (th : Thread) (ticket : Nat), threads[n]? = some th →
    th.ticket = some ticket → waits[ticket]? = th.wait
  distinct : ∀ (m n : Nat) (th th' : Thread) (ticket : Nat), threads[m]? = some th →
    threads[n]? = some th' → th.ticket = some ticket → th'.ticket = some ticket → m = n

/-- A thread goes on in its wait, or out of it. -/
theorem Owned.set (h : Owned waits threads) (hn : threads[n]? = some th)
    (hticket : th'.ticket = th.ticket ∨ th'.ticket = none)
    (hwait : ∀ ticket, th'.ticket = some ticket → waits'[ticket]? = th'.wait)
    (hothers : ∀ ticket, th.ticket ≠ some ticket → waits'[ticket]? = waits[ticket]?) :
    Owned waits' (threads.set n th') := by
  have hold : ∀ ticket, th'.ticket = some ticket → th.ticket = some ticket := by
    intro ticket ht
    rcases hticket with heq | hnone
    · exact heq.symm.trans ht
    · cases hnone.symm.trans ht
  constructor
  · intro m u ticket hm hu
    rcases getElem?_set_cases hm with ⟨rfl, rfl⟩ | ⟨hne, hm⟩
    · exact hwait ticket hu
    · rw [hothers ticket (fun ht => hne (h.distinct m n u th ticket hm hn hu ht))]
      exact h.recorded m u ticket hm hu
  · intro m k u v ticket hm hk hu hv
    rcases getElem?_set_cases hm with ⟨rfl, rfl⟩ | ⟨-, hm'⟩
    · rcases getElem?_set_cases hk with ⟨rfl, -⟩ | ⟨-, hk'⟩
      · rfl
      · exact h.distinct m k th v ticket hn hk' (hold ticket hu) hv
    · rcases getElem?_set_cases hk with ⟨rfl, rfl⟩ | ⟨-, hk'⟩
      · exact h.distinct m k u th ticket hm' hn hu (hold ticket hv)
      · exact h.distinct m k u v ticket hm' hk' hu hv

/-- A thread begins a wait. -/
theorem Owned.begin {timed : Bool} (h : Owned waits threads) :
    Owned (waits ++ [Wait.waiting]) (threads.set n (.arrives waits.length timed)) := by
  have hlt : ∀ (m : Nat) (u : Thread) (ticket : Nat), threads[m]? = some u →
      u.ticket = some ticket → ticket < waits.length := by
    intro m u ticket hm hu
    have hrecorded := h.recorded m u ticket hm hu
    obtain ⟨w, hw⟩ := Thread.wait_of_ticket hu
    exact (List.getElem?_eq_some_iff.mp (hrecorded.trans hw)).1
  constructor
  · intro m u ticket hm hu
    rcases getElem?_set_cases hm with ⟨rfl, rfl⟩ | ⟨-, hm'⟩
    · cases hu
      exact List.getElem?_concat_length
    · rw [List.getElem?_append_left (hlt m u ticket hm' hu)]
      exact h.recorded m u ticket hm' hu
  · intro m k u v ticket hm hk hu hv
    rcases getElem?_set_cases hm with ⟨rfl, rfl⟩ | ⟨-, hm'⟩
    · cases hu
      rcases getElem?_set_cases hk with ⟨rfl, -⟩ | ⟨-, hk'⟩
      · rfl
      · exact absurd (hlt k v _ hk' hv) (Nat.lt_irrefl _)
    · rcases getElem?_set_cases hk with ⟨rfl, rfl⟩ | ⟨-, hk'⟩
      · cases hv
        exact absurd (hlt m u _ hm' hu) (Nat.lt_irrefl _)
      · exact h.distinct m k u v ticket hm' hk' hu hv

/-- The waits that have not ended are those of the threads that `nwaiters` counts, and perhaps
less; no thread is blocked while there is a permit. -/
structure Counted (s : State) : Prop where
  owned : Owned s.waits s.threads
  counted : s.nwaiters = s.threads.countP Thread.counted
  pending : s.waits.countP Wait.pending = s.threads.countP Thread.waits
  blocked : ∀ (n : Nat) (th : Thread), s.threads[n]? = some th → th.isBlocked = true →
    s.permits = []
  noted : ∀ (n note own spare : Nat), s.threads[n]? = some (.posts note own spare) →
    note < s.notes.length ∧ 0 < own + spare

theorem countP_set_same {p : Thread → Bool} (hn : threads[n]? = some th) (hp : p th' = p th) :
    (threads.set n th').countP p = threads.countP p := by
  have hset := countP_set (b := th') p hn
  rw [hp] at hset
  omega

theorem pending_set {ticket : Nat} {old new : Wait} (hticket : waits[ticket]? = some old)
    (hold : old.pending = false) (hnew : new.pending = false) :
    (waits.set ticket new).countP Wait.pending = waits.countP Wait.pending := by
  have hset := countP_set (b := new) Wait.pending hticket
  rw [hold, hnew] at hset
  omega

theorem pending_settle {ticket : Nat} {code : ErrorCode}
    (hticket : waits[ticket]? = some .waiting) :
    (waits.set ticket (.going code)).countP Wait.pending + 1 = waits.countP Wait.pending := by
  have hset := countP_set (b := Wait.going code) Wait.pending hticket
  simpa [Wait.pending] using hset

theorem getElem?_set_other {ticket other : Nat} {w : Wait} (hne : some ticket ≠ some other) :
    (waits.set ticket w)[other]? = waits[other]? :=
  List.getElem?_set_ne (fun heq => hne (congrArg some heq))

namespace Counted

/-- A thread goes on, and no wait begins or ends. -/
theorem thread (h : Counted s) (hn : s.threads[n]? = some th)
    (hticket : th'.ticket = th.ticket) (hwait : th'.wait = th.wait)
    (hcounted : th'.counted = th.counted) (hwaits : th'.waits = th.waits)
    (hblocked : th'.isBlocked = true → s.permits = [])
    (hnoted : ∀ note own spare : Nat, th' = .posts note own spare →
      note < s.notes.length ∧ 0 < own + spare) :
    Counted (s.setThread n th') where
  owned := by
    refine h.owned.set hn (.inl hticket) (fun ticket ht => ?_) (fun _ _ => rfl)
    rw [hwait]
    exact h.owned.recorded n th ticket hn (hticket.symm.trans ht)
  counted := h.counted.trans (countP_set_same hn hcounted).symm
  pending := h.pending.trans (countP_set_same hn hwaits).symm
  blocked m u hm hu := by
    rcases getElem?_set_cases hm with ⟨-, rfl⟩ | ⟨-, hm⟩
    · exact hblocked hu
    · exact h.blocked m u hm hu
  noted m note own spare hm := by
    rcases getElem?_set_cases hm with ⟨-, heq⟩ | ⟨-, hm⟩
    · exact hnoted note own spare heq.symm
    · exact h.noted m note own spare hm

/-- Other parts of the state do not matter. -/
theorem frame (h : Counted s) {permits : List Permit} {owner : Option Nat} {notes : List Note}
    {takes : List (Nat × Permit)}
    (hpermits : (∃ (m : Nat) (u : Thread), s.threads[m]? = some u ∧ u.isBlocked = true) →
      s.permits = [] → permits = [])
    (hnotes : s.notes.length ≤ notes.length) :
    Counted { s with permits := permits, owner := owner, notes := notes, takes := takes } where
  owned := h.owned
  counted := h.counted
  pending := h.pending
  blocked m u hm hu := hpermits ⟨m, u, hm, hu⟩ (h.blocked m u hm hu)
  noted m note own spare hm := (h.noted m note own spare hm).imp_left
    (fun hlt => lt_of_lt_of_le hlt hnotes)

/-- A thread that goes on is neither blocked nor in a notification. -/
theorem others (h : Counted s) (hblocked : th'.isBlocked = false)
    (hposts : ∀ note own spare, th' ≠ .posts note own spare) :
    (∀ (m : Nat) (u : Thread), (s.threads.set n th')[m]? = some u → u.isBlocked = true →
      s.permits = []) ∧
    ∀ m note own spare : Nat, (s.threads.set n th')[m]? = some (.posts note own spare) →
      note < s.notes.length ∧ 0 < own + spare := by
  constructor
  · intro m u hm hu
    rcases getElem?_set_cases hm with ⟨-, rfl⟩ | ⟨-, hm⟩
    · exact nomatch hblocked.symm.trans hu
    · exact h.blocked m u hm hu
  · intro m note own spare hm
    rcases getElem?_set_cases hm with ⟨-, heq⟩ | ⟨-, hm⟩
    · exact absurd heq.symm (hposts note own spare)
    · exact h.noted m note own spare hm

/-- A wait is out of the semaphore. -/
theorem settle {ticket : Nat} {timed : Bool} {code : ErrorCode} (h : Counted s)
    (hn : s.threads[n]? = some (.arrives ticket timed) ∨
      s.threads[n]? = some (.blocked ticket timed)) :
    Counted (s.settle n ticket code) := by
  obtain ⟨th, hn, hticket, hwait, hcounted, hwaits⟩ : ∃ th, s.threads[n]? = some th ∧
      th.ticket = some ticket ∧ th.wait = some .waiting ∧ th.counted = true ∧
      th.waits = true := by
    rcases hn with hn | hn
    · exact ⟨_, hn, rfl, rfl, rfl, rfl⟩
    · exact ⟨_, hn, rfl, rfl, rfl, rfl⟩
  have hwaiting : s.waits[ticket]? = some .waiting :=
    (h.owned.recorded n th ticket hn hticket).trans hwait
  have hlt := (List.getElem?_eq_some_iff.mp hwaiting).1
  refine ⟨?_, ?_, ?_, (h.others rfl (by nofun)).1, (h.others rfl (by nofun)).2⟩
  · refine h.owned.set hn (.inl hticket.symm) (fun t ht => ?_) (fun t ht => ?_)
    · cases ht
      exact List.getElem?_set_self hlt
    · exact getElem?_set_other (hticket ▸ ht)
  · exact h.counted.trans (countP_set_same hn hcounted.symm).symm
  · have hsettle : (s.waits.set ticket (.going code)).countP Wait.pending + 1 =
        s.waits.countP Wait.pending := pending_settle hwaiting
    have hset : (s.threads.set n (.leaves ticket code)).countP Thread.waits + 1 =
        s.threads.countP Thread.waits := by
      have hleaves : (Thread.leaves ticket code).waits = false := rfl
      simpa [hleaves, hwaits] using countP_set (b := Thread.leaves ticket code) Thread.waits hn
    have hpending := h.pending
    dsimp only [State.settle, State.setThread]
    omega

theorem waiters_le (h : Counted s) : s.waiters.length ≤ s.nwaiters := by
  have hlength : s.waiters.length = s.waits.countP Wait.pending :=
    (countP_eq_length_filter_range Wait.pending s.waits).symm
  rw [hlength, h.pending, h.counted]
  refine List.countP_mono_left (fun th _ hwaits => ?_)
  cases th <;> first | rfl | cases hwaits

theorem posting_plain (note own spare : Nat) :
    (Thread.posting note own spare).ticket = none ∧ (Thread.posting note own spare).wait = none ∧
      (Thread.posting note own spare).counted = false ∧
      (Thread.posting note own spare).waits = false ∧
      (Thread.posting note own spare).isBlocked = false := by
  unfold Thread.posting
  split <;> exact ⟨rfl, rfl, rfl, rfl, rfl⟩

theorem note_of_posting {note own spare note' own' spare' : Nat}
    (h : Thread.posting note own spare = .posts note' own' spare') :
    note' = note ∧ 0 < own' + spare' := by
  unfold Thread.posting at h
  split at h
  case isTrue => cases h
  case isFalse hpos =>
    cases h
    exact ⟨rfl, Nat.pos_of_ne_zero hpos⟩

/-- A thread makes one of its posts. -/
theorem post {note own spare : Nat} (own' spare' : Nat) (h : Counted s)
    (hn : s.threads[n]? = some (.posts note own spare)) :
    Counted (s.setThread n (.posting note own' spare')) := by
  obtain ⟨hticket, hwait, hcounted, hwaits, hblocked⟩ :=
    posting_plain note own' spare'
  refine h.thread hn hticket hwait hcounted hwaits (fun hb => nomatch hblocked.symm.trans hb) ?_
  intro note' o sp heq
  obtain ⟨rfl, hpos⟩ := note_of_posting heq
  exact ⟨(h.noted n note' own spare hn).1, hpos⟩

theorem step (h : Counted s) (hs : Moves s a s') : Counted s' := by
  cases hs with
  | spawns =>
      refine ⟨?_, ?_, ?_, fun m u hm hu => ?_, fun m note own spare hm => ?_⟩
      · constructor
        · intro m u ticket hm hu
          rcases getElem?_concat_cases hm with hm' | ⟨-, rfl⟩
          · exact h.owned.recorded m u ticket hm' hu
          · cases hu
        · intro m k u v ticket hm hk hu hv
          rcases getElem?_concat_cases hm with hm' | ⟨-, rfl⟩
          · rcases getElem?_concat_cases hk with hk' | ⟨-, rfl⟩
            · exact h.owned.distinct m k u v ticket hm' hk' hu hv
            · cases hv
          · cases hu
      · rw [List.countP_append]
        exact h.counted
      · rw [List.countP_append]
        exact h.pending
      · rcases getElem?_concat_cases hm with hm' | ⟨-, rfl⟩
        · exact h.blocked m u hm' hu
        · cases hu
      · rcases getElem?_concat_cases hm with hm' | ⟨-, heq⟩
        · exact h.noted m note own spare hm'
        · cases heq
  | locks | unlocks => exact h.frame (fun _ => id) le_rfl
  | @joins n timed last hn =>
      have hset : (s.threads.set n (.joined timed)).countP Thread.counted =
          s.threads.countP Thread.counted + 1 := by
        simpa [Thread.counted] using countP_set (b := Thread.joined timed) Thread.counted hn
      refine ⟨h.owned.set hn (.inl rfl) nofun (fun _ _ => rfl), ?_,
        h.pending.trans (countP_set_same hn (by rfl)).symm, (h.others rfl (by nofun)).1,
        (h.others rfl (by nofun)).2⟩
      rw [State.setThread, hset, h.counted]
  | @begins n timed hn =>
      refine ⟨h.owned.begin, h.counted.trans (countP_set_same hn (by rfl)).symm, ?_,
        (h.others rfl (by nofun)).1, (h.others rfl (by nofun)).2⟩
      · have hset : (s.threads.set n (.arrives s.waits.length timed)).countP Thread.waits =
            s.threads.countP Thread.waits + 1 := by
          simpa [Thread.waits] using
            countP_set (b := Thread.arrives s.waits.length timed) Thread.waits hn
        rw [State.setThread, hset, ← h.pending, List.countP_append]
        rfl
  | blocks hn hempty => exact h.thread hn rfl rfl rfl rfl (fun _ => hempty) nofun
  | @takes n k ticket timed permit hn hk =>
      have hnobody : ∀ (m : Nat) (u : Thread), s.threads[m]? = some u → u.isBlocked = true →
          s.permits.eraseIdx k = [] := by
        intro m u hm hu
        rw [h.blocked m u hm hu]
        rfl
      have hframe : Counted { s with
          permits := s.permits.eraseIdx k
          takes := s.takes ++ [(ticket, permit)] } :=
        h.frame (fun ⟨m, u, hm, hu⟩ _ => hnobody m u hm hu) le_rfl
      exact hframe.settle (.inl hn)
  | expires hn | interrupted hn => exact h.settle (.inr hn)
  | retries hn => exact h.thread hn rfl rfl rfl rfl nofun nofun
  | @leaves n ticket code hn =>
      have hset : (s.threads.set n (.relocks ticket code)).countP Thread.counted + 1 =
          s.threads.countP Thread.counted := by
        simpa [Thread.counted] using
          countP_set (b := Thread.relocks ticket code) Thread.counted hn
      have hcounted := h.counted
      refine ⟨?_, ?_, h.pending.trans (countP_set_same hn (by rfl)).symm,
        (h.others rfl (by nofun)).1, (h.others rfl (by nofun)).2⟩
      · refine h.owned.set hn (.inl rfl) (fun t ht => ?_) (fun _ _ => rfl)
        exact h.owned.recorded n (.leaves ticket code) t hn ht
      · dsimp only [State.setThread]
        omega
  | @returns n ticket code hn =>
      refine ⟨?_, h.counted.trans (countP_set_same hn (by rfl)).symm, ?_,
        (h.others rfl (by nofun)).1, (h.others rfl (by nofun)).2⟩
      · exact h.owned.set hn (.inr rfl) nofun (fun t ht => getElem?_set_other ht)
      · refine (pending_set (h.owned.recorded n _ ticket hn rfl) rfl rfl).trans ?_
        exact h.pending.trans (countP_set_same hn (by rfl)).symm
  | @notifies n all last hn =>
      have hframe : Counted { s with
          notes := s.notes ++ [Note.mk all s.waits.length s.waiters] } :=
        h.frame (fun _ => id) (by rw [List.length_append]; exact Nat.le_add_right _ _)
      obtain ⟨hticket, hwait, hcounted, hwaits, hblocked⟩ :=
        posting_plain s.notes.length (min s.waiters.length (s.posts all))
          (s.posts all - min s.waiters.length (s.posts all))
      refine hframe.thread hn hticket hwait hcounted hwaits
        (fun hb => nomatch hblocked.symm.trans hb) ?_
      intro note own spare heq
      obtain ⟨rfl, hpos⟩ := note_of_posting heq
      rw [List.length_append]
      exact ⟨Nat.lt_succ_self _, hpos⟩
  | @frees n note own spare own' spare' owed hn howed hspare hnobody =>
      refine (h.post own' spare' hn).frame ?_ le_rfl
      rintro ⟨m, u, hm, hu⟩
      have hany := List.any_eq_true.mpr ⟨u, List.mem_of_getElem? hm, hu⟩
      exact nomatch hnobody.symm.trans hany
  | @gives n m note own spare own' spare' ticket owed timed hn howed hspare hm =>
      have hframe : Counted { s with
          takes := s.takes ++ [(ticket, s.permitOf note owed)] } := h.frame (fun _ => id) le_rfl
      have hm' : (s.threads.set n (.posting note own' spare'))[m]? =
          some (.blocked ticket timed) := by
        refine (List.getElem?_set_ne ?_).trans hm
        rintro rfl
        cases hn.symm.trans hm
      exact (hframe.post own' spare' hn).settle (.inr hm')

theorem of_reachable (h : machine.Reachable s) : Counted s := by
  refine h.invariant (I := Counted) ?_ (fun _ _ _ _ hi hs => hi.step (moves_of_step hs))
  refine ⟨⟨fun n th ticket hn => ?_, fun m n th th' ticket hm => ?_⟩, rfl, rfl, fun n th hn => ?_,
    fun n note own spare hn => ?_⟩
  · cases hn
  · cases hm
  · cases hn
  · cases hn

end Counted

end MicrOsal.NuttxCondvar
