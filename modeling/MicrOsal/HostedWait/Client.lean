import MicrOsal.Core
import MicrOsal.Lib.Machine

/-!
# MicrOsal.HostedWait.Client

The hosted binary semaphore (`src/common/posix/posix_bounded_semaphore.inl`) under a producer and
a consumer that were modelled over semaphores whose give and take are one step each.

A give is a compare-exchange of `count` and then `sem_post`, and is refused when `count` is 1; a
take is `sem_wait` and then a decrement of `count`. So a give can be refused although the value of
the `sem_t` is 0: when the other side has waited and not decremented yet. `Client.next` makes
these steps of their own, and `Client.seen` is the buffer with the values of the `sem_t`s for the
tokens. A step is one of the buffer, or shows nothing, or is a give that is refused at value 0,
and then the other side is about to look at the buffer again, or to give itself (`Client.Shows`).
-/

namespace MicrOsal.HostedWait

/-! ### The semaphore -/

/-- `posix_bounded_semaphore` with `maximum` 1. -/
structure Sem where
  /-- The value of the `sem_t`. -/
  value : Nat
  count : Nat
  deriving DecidableEq, Repr

namespace Sem

/-- `bounded_sem_post` returns overflow. -/
def full (s : Sem) : Prop := 1 ≤ s.count

instance (s : Sem) : Decidable s.full := inferInstanceAs (Decidable (_ ≤ _))

/-- The compare-exchange of `bounded_sem_post`. -/
def reserve (s : Sem) : Sem := { s with count := s.count + 1 }

/-- `sem_post`. -/
def post (s : Sem) : Sem := { s with value := s.value + 1 }

/-- `sem_wait`, when the value is positive. -/
def wait (s : Sem) : Sem := { s with value := s.value - 1 }

/-- `bounded_sem_complete` after a wait that succeeded. -/
def complete (s : Sem) : Sem := { s with count := s.count - 1 }

def token (s : Sem) : Bool := 0 < s.value

end Sem

/-! ### The two sides -/

/-- The semaphores of a buffer, `data_sem` and `space_sem`. -/
inductive Name
  | data
  | space
  deriving DecidableEq, Repr

inductive Side
  | producer
  | consumer
  deriving DecidableEq, Repr

def Side.other : Side → Side
  | .producer => .consumer
  | .consumer => .producer

/-- A call of one of the entry points being made, a step of the call in progress on either side
(`timedOut` chooses how a blocked take ends), or the clock advancing. -/
inductive Call (w : Nat)
  | send (data : Option (List UInt8)) (timeout : Tick w)
  | sendIsr (data : Option (List UInt8))
  | receive (maxLen : Nat) (timeout : Tick w)
  | receiveIsr (maxLen : Nat)
  | producer (timedOut : Bool)
  | consumer (timedOut : Bool)
  | tick

variable {w : Nat}

/-- The side whose call in progress goes on. -/
def Call.side : Call w → Option Side
  | .producer _ => some .producer
  | .consumer _ => some .consumer
  | .send _ _ | .sendIsr _ | .receive _ _ | .receiveIsr _ | .tick => none

def Call.timedOut : Call w → Bool
  | .producer timedOut | .consumer timedOut => timedOut
  | .send _ _ | .sendIsr _ | .receive _ _ | .receiveIsr _ | .tick => false

/-- What a side does next. -/
inductive Stage
  /-- It has no call in progress. -/
  | idle
  /-- It is about to look at the buffer, at the start of the loop. -/
  | looks
  | gives (x : Name)
  | takes (x : Name)
  | other
  deriving DecidableEq, Repr

/-- A system of a producer and a consumer over two semaphores that are their token, and what its
steps do to the tokens and to the other side. -/
structure Client (w : Nat) (σ : Type) where
  init : σ
  step : σ → Call w → Option σ
  /-- The system with other tokens. -/
  view : (Name → Bool) → σ → σ
  stage : Side → σ → Stage
  view_view : ∀ v u s, view v (view u s) = view v s
  stage_view : ∀ i v s, stage i (view v s) = stage i s
  /-- A call that begins, or the clock. -/
  step_none : ∀ {v s a s'}, a.side = none → step (view v s) a = some s' → s' = view v s'
  /-- A step of a side, by what the side does next. -/
  step_some : ∀ {v s a s' i}, a.side = some i → step (view v s) a = some s' →
    match stage i s with
    | .gives x => s' = view (Function.update v x true) s'
    | .takes x => if a.timedOut then s' = view v s' else
        v x = true ∧ s' = view (Function.update v x false) s' ∧ stage i s' = .looks
    | .idle | .looks | .other => s' = view v s'
  /-- Nobody makes a step of the other side. -/
  stays : ∀ {s a s' i}, step s a = some s' → a.side ≠ some i →
    stage i s' = stage i s ∨ stage i s = .idle

/-- How far a side is in a call of `bounded_sem_post` or of the wait. -/
inductive Phase
  | free
  /-- Between the compare-exchange and `sem_post`. -/
  | posting (x : Name)
  /-- Between `sem_wait` and the decrement. -/
  | completing (x : Name)
  deriving DecidableEq, Repr

structure State (σ : Type) where
  sys : σ
  sem : Name → Sem
  phase : Side → Phase

namespace Client

variable {σ : Type} (C : Client w σ)

/-- The system with the values of the `sem_t`s for its tokens. -/
def seen (t : State σ) : σ := C.view (fun x => (t.sem x).token) t.sys

/-- A step that calls no semaphore. -/
def plain (t : State σ) (a : Call w) : Option (State σ) :=
  (C.step (C.seen t) a).map (fun sys => { t with sys := sys })

/-- A step of side `i`, which is in no call of a semaphore yet. -/
def enter (t : State σ) (a : Call w) (i : Side) : Option (State σ) :=
  match C.stage i t.sys with
  | .gives x =>
      -- the result `overflow` is ignored
      if (t.sem x).full then C.plain t a
      else some { t with
        sem := Function.update t.sem x (t.sem x).reserve
        phase := Function.update t.phase i (.posting x) }
  | .takes x =>
      if a.timedOut then C.plain t a
      else if 0 < (t.sem x).value then
        (C.step (C.seen t) a).map (fun sys =>
          { sys := sys
            sem := Function.update t.sem x (t.sem x).wait
            phase := Function.update t.phase i (.completing x) })
      else none
  | .idle | .looks | .other => C.plain t a

def next (t : State σ) (a : Call w) : Option (State σ) :=
  match a.side with
  | none => C.plain t a
  | some i =>
      match t.phase i with
      | .free => C.enter t a i
      | .posting x =>
          (C.step (C.seen t) a).map (fun sys =>
            { sys := sys
              sem := Function.update t.sem x (t.sem x).post
              phase := Function.update t.phase i .free })
      | .completing x =>
          some { t with
            sem := Function.update t.sem x (t.sem x).complete
            phase := Function.update t.phase i .free }

/-- The two sides over new semaphores. -/
def machine : Machine (State σ) (Call w) where
  init := ⟨C.init, fun _ => ⟨0, 0⟩, fun _ => .free⟩
  step := C.next

end Client

/-! ### What the semaphores hold -/

/-- The side has a permit of `x` in hand. -/
def Phase.holds (x : Name) (p : Phase) : Bool := p = .posting x ∨ p = .completing x

/-- The permits of `x` that are in hand. -/
def held (phase : Side → Phase) (x : Name) : Nat :=
  ((phase .producer).holds x).toNat + ((phase .consumer).holds x).toNat

theorem held_update {x : Name} (phase : Side → Phase) (i : Side) (p : Phase) :
    held (Function.update phase i p) x + ((phase i).holds x).toNat =
      held phase x + (p.holds x).toNat := by
  unfold held
  cases i with
  | producer =>
      rw [Function.update_self, Function.update_of_ne (by nofun)]
      omega
  | consumer =>
      rw [Function.update_self, Function.update_of_ne (by nofun)]
      omega

theorem held_other {phase : Side → Phase} {x : Name} {i : Side} (hi : phase i = .free)
    (hpos : 0 < held phase x) : (phase i.other).holds x = true := by
  unfold held at hpos
  cases i with
  | producer =>
      rw [hi] at hpos
      cases hc : (phase .consumer).holds x with
      | true => exact hc
      | false =>
          rw [hc] at hpos
          cases hpos
  | consumer =>
      rw [hi] at hpos
      cases hp : (phase .producer).holds x with
      | true => exact hp
      | false =>
          rw [hp] at hpos
          cases hpos

variable {σ : Type} {C : Client w σ} {t t' : State σ} {a : Call w} {i : Side} {x : Name} {s' : σ}

/-- `count` is the value and the permits in hand, and the phases are about the steps that the
sides make next. -/
structure Sound (C : Client w σ) (t : State σ) : Prop where
  counts : ∀ x, (t.sem x).count = (t.sem x).value + held t.phase x
  bound : ∀ x, (t.sem x).count ≤ 1
  posting : ∀ i x, t.phase i = .posting x → C.stage i t.sys = .gives x
  completing : ∀ i x, t.phase i = .completing x → C.stage i t.sys = .looks

theorem Sound.init : Sound C (C.machine).init :=
  ⟨fun _ => rfl, fun _ => Nat.zero_le 1, nofun, nofun⟩

/-- A side that nobody moves stays where it is in a call of a semaphore. -/
theorem Sound.stays (h : Sound C t) (hs : C.step (C.seen t) a = some s')
    (hi : a.side ≠ some i) :
    (∀ x, t.phase i = .posting x → C.stage i s' = .gives x) ∧
      ∀ x, t.phase i = .completing x → C.stage i s' = .looks := by
  have hstays := C.stays hs hi
  rw [Client.seen, C.stage_view] at hstays
  constructor
  · intro x hx
    have hgives := h.posting i x hx
    rcases hstays with hsame | hidle
    · exact hsame.trans hgives
    · cases hgives.symm.trans hidle
  · intro x hx
    have hlooks := h.completing i x hx
    rcases hstays with hsame | hidle
    · exact hsame.trans hlooks
    · cases hlooks.symm.trans hidle

/-- A step of the system, after which the sides that are in a call of a semaphore are where they
were. -/
theorem Sound.plain (h : Sound C t) (hfree : ∀ i, a.side = some i → t.phase i = .free)
    (hs : C.plain t a = some t') : Sound C t' := by
  obtain ⟨sys, hsys, rfl⟩ := Option.map_eq_some_iff.mp hs
  refine ⟨h.counts, h.bound, fun i x hx => ?_, fun i x hx => ?_⟩
  · refine (h.stays hsys (fun hi => ?_)).1 x hx
    cases (hfree i hi).symm.trans hx
  · refine (h.stays hsys (fun hi => ?_)).2 x hx
    cases (hfree i hi).symm.trans hx

/-- A step of side `i` that changes semaphore `x`. -/
theorem Sound.update {s : Sem} {p : Phase} (sys : σ) (h : Sound C t)
    (hcount : s.count + (t.sem x).value + ((t.phase i).holds x).toNat =
      s.value + (t.sem x).count + (p.holds x).toNat)
    (hbound : s.count ≤ 1)
    (hfar : ∀ y, y ≠ x → (p.holds y).toNat = ((t.phase i).holds y).toNat)
    (hposting : ∀ y, p = .posting y → C.stage i sys = .gives y)
    (hcompleting : ∀ y, p = .completing y → C.stage i sys = .looks)
    (hothers : ∀ j, j ≠ i → (∀ y, t.phase j = .posting y → C.stage j sys = .gives y) ∧
      ∀ y, t.phase j = .completing y → C.stage j sys = .looks) :
    Sound C
      { sys := sys, sem := Function.update t.sem x s, phase := Function.update t.phase i p } := by
  refine ⟨fun y => ?_, fun y => ?_, fun j y hy => ?_, fun j y hy => ?_⟩
  · have hheld := held_update (x := y) t.phase i p
    have hold := h.counts y
    dsimp only
    by_cases hyx : y = x
    · subst hyx
      rw [Function.update_self]
      omega
    · rw [Function.update_of_ne hyx]
      have := hfar y hyx
      omega
  · dsimp only
    by_cases hyx : y = x
    · subst hyx
      rw [Function.update_self]
      exact hbound
    · rw [Function.update_of_ne hyx]
      exact h.bound y
  · dsimp only at hy ⊢
    by_cases hji : j = i
    · subst hji
      rw [Function.update_self] at hy
      exact hposting y hy
    · rw [Function.update_of_ne hji] at hy
      exact (hothers j hji).1 y hy
  · dsimp only at hy ⊢
    by_cases hji : j = i
    · subst hji
      rw [Function.update_self] at hy
      exact hcompleting y hy
    · rw [Function.update_of_ne hji] at hy
      exact (hothers j hji).2 y hy

/-- A side that is about to give is in the call, or has not entered it yet. -/
theorem Sound.giving (h : Sound C t) (hgives : C.stage i t.sys = .gives x) :
    t.phase i = .posting x ∨ t.phase i = .free := by
  cases hphase : t.phase i with
  | free => exact .inr rfl
  | posting y =>
      obtain rfl := Stage.gives.inj ((h.posting i y hphase).symm.trans hgives)
      exact .inl rfl
  | completing y => cases (h.completing i y hphase).symm.trans hgives

theorem Sound.giving_or_other (h : Sound C t)
    (hstage : C.stage i t.sys = .gives x ∨ C.stage i t.sys = .other) :
    t.phase i = .posting x ∨ t.phase i = .free := by
  rcases hstage with hgives | hother
  · exact h.giving hgives
  · cases hphase : t.phase i with
    | free => exact .inr rfl
    | posting y => cases (h.posting i y hphase).symm.trans hother
    | completing y => cases (h.completing i y hphase).symm.trans hother

theorem holds_le_held {phase : Side → Phase} : ((phase i).holds x).toNat ≤ held phase x := by
  unfold held
  cases i with
  | producer => exact Nat.le_add_right _ _
  | consumer => exact Nat.le_add_left _ _

theorem free_holds : (Phase.free.holds x).toNat = 0 := rfl

theorem posting_holds : ((Phase.posting x).holds x).toNat = 1 := by simp [Phase.holds]

theorem completing_holds : ((Phase.completing x).holds x).toNat = 1 := by simp [Phase.holds]

theorem posting_holds_ne {y : Name} (h : y ≠ x) : ((Phase.posting x).holds y).toNat = 0 := by
  simp [Phase.holds, Ne.symm h]

theorem completing_holds_ne {y : Name} (h : y ≠ x) :
    ((Phase.completing x).holds y).toNat = 0 := by
  simp [Phase.holds, Ne.symm h]

theorem Sound.post (h : Sound C t) (hi : a.side = some i) (hphase : t.phase i = .posting x)
    (hs : C.step (C.seen t) a = some s') :
    Sound C
      { sys := s'
        sem := Function.update t.sem x (t.sem x).post
        phase := Function.update t.phase i .free } := by
  refine h.update _ ?_ (h.bound x) (fun y hy => ?_) nofun nofun (fun j hj => ?_)
  · rw [hphase, posting_holds, free_holds]
    change (t.sem x).count + (t.sem x).value + 1 = (t.sem x).value + 1 + (t.sem x).count + 0
    omega
  · rw [hphase, posting_holds_ne hy]
    rfl
  · refine h.stays hs (fun hside => hj ?_)
    exact Option.some.inj (hside.symm.trans hi)

theorem Sound.complete (h : Sound C t) (hphase : t.phase i = .completing x) :
    Sound C { t with
      sem := Function.update t.sem x (t.sem x).complete
      phase := Function.update t.phase i .free } := by
  have hcounts := h.counts x
  have hone : ((t.phase i).holds x).toNat ≤ held t.phase x := holds_le_held
  refine h.update t.sys ?_ ?_ (fun y hy => ?_) nofun nofun
    (fun j _ => ⟨h.posting j, h.completing j⟩)
  · rw [hphase, completing_holds] at hone ⊢
    rw [free_holds]
    change (t.sem x).count - 1 + (t.sem x).value + 1 = (t.sem x).value + (t.sem x).count + 0
    omega
  · exact (Nat.sub_le _ _).trans (h.bound x)
  · rw [hphase, completing_holds_ne hy]
    rfl

theorem Sound.reserve (h : Sound C t) (hphase : t.phase i = .free)
    (hgives : C.stage i t.sys = .gives x) (hfull : ¬ (t.sem x).full) :
    Sound C { t with
      sem := Function.update t.sem x (t.sem x).reserve
      phase := Function.update t.phase i (.posting x) } := by
  refine h.update t.sys ?_ ?_ (fun y hy => ?_) (fun y hy => ?_) nofun
    (fun j _ => ⟨h.posting j, h.completing j⟩)
  · rw [hphase, posting_holds, free_holds]
    change (t.sem x).count + 1 + (t.sem x).value + 0 = (t.sem x).value + (t.sem x).count + 1
    omega
  · exact not_le.mp hfull
  · rw [hphase, posting_holds_ne hy]
    rfl
  · obtain rfl := Phase.posting.inj hy
    exact hgives

theorem Sound.wait (h : Sound C t) (hi : a.side = some i) (hphase : t.phase i = .free)
    (hvalue : 0 < (t.sem x).value) (hlooks : C.stage i s' = .looks)
    (hs : C.step (C.seen t) a = some s') :
    Sound C
      { sys := s'
        sem := Function.update t.sem x (t.sem x).wait
        phase := Function.update t.phase i (.completing x) } := by
  refine h.update _ ?_ (h.bound x) (fun y hy => ?_) nofun (fun _ _ => hlooks) (fun j hj => ?_)
  · rw [hphase, completing_holds, free_holds]
    change (t.sem x).count + (t.sem x).value + 0 = (t.sem x).value - 1 + (t.sem x).count + 1
    omega
  · rw [hphase, completing_holds_ne hy]
    rfl
  · refine h.stays hs (fun hside => hj ?_)
    exact Option.some.inj (hside.symm.trans hi)

/-! ### What a step shows -/

/-- What a step does to the buffer, with the values of the `sem_t`s for the tokens. -/
inductive Shows (C : Client w σ) (t t' : State σ) (a : Call w) : Prop
  | nothing (hseen : C.seen t' = C.seen t)
  | step (hstep : C.step (C.seen t) a = some (C.seen t'))
  /-- A give that is refused although the value is 0. -/
  | refused {i : Side} {x : Name} {s' : σ} (hi : a.side = some i)
      (hgives : C.stage i (C.seen t) = .gives x) (hvalue : (t.sem x).token = false)
      (hother : C.stage i.other (C.seen t) = .gives x ∨ C.stage i.other (C.seen t) = .looks)
      (hstep : C.step (C.seen t) a = some s')
      (hseen : C.seen t' = C.view (fun y => (t.sem y).token) s')

theorem stage_seen : C.stage i (C.seen t) = C.stage i t.sys := C.stage_view ..

/-- A step of the system that leaves the tokens. -/
theorem Shows.plain (hs : C.plain t a = some t')
    (hkeeps : ∀ s', C.step (C.seen t) a = some s' → s' = C.view (fun y => (t.sem y).token) s') :
    Shows C t t' a := by
  obtain ⟨sys, hsys, rfl⟩ := Option.map_eq_some_iff.mp hs
  refine .step (hsys.trans (congrArg some ?_))
  exact hkeeps sys hsys

theorem token_update {y : Name} (sem : Name → Sem) (s : Sem) :
    (fun z => (Function.update sem y s z).token) =
      Function.update (fun z => (sem z).token) y s.token := by
  funext z
  by_cases hzy : z = y
  · subst hzy
    rw [Function.update_self, Function.update_self]
  · rw [Function.update_of_ne hzy, Function.update_of_ne hzy]

/-- The call of the semaphore is not the one that changes its value. -/
theorem seen_of_token {s : Sem} {phase : Side → Phase} (hs : s.token = (t.sem x).token) :
    C.seen { t with sem := Function.update t.sem x s, phase := phase } = C.seen t := by
  unfold Client.seen
  rw [token_update, hs]
  congr 1
  exact Function.update_eq_self x _

theorem Sound.step (h : Sound C t) (hs : C.next t a = some t') :
    Sound C t' ∧ Shows C t t' a := by
  unfold Client.next at hs
  cases hi : a.side with
  | none =>
      rw [hi] at hs
      exact ⟨h.plain (fun i hi' => (nomatch hi.symm.trans hi')) hs,
        .plain hs (fun s' hs' => C.step_none hi hs')⟩
  | some i =>
      rw [hi] at hs
      dsimp only at hs
      cases hphase : t.phase i with
      | posting x =>
          rw [hphase] at hs
          obtain ⟨s', hs', rfl⟩ := Option.map_eq_some_iff.mp hs
          refine ⟨h.post hi hphase hs', .step (hs'.trans (congrArg some ?_))⟩
          have hgives := C.step_some hi hs'
          rw [h.posting i x hphase] at hgives
          refine hgives.trans ?_
          unfold Client.seen
          rw [token_update]
          congr 2
      | completing x =>
          rw [hphase] at hs
          obtain rfl := Option.some.inj hs
          exact ⟨h.complete hphase, .nothing (seen_of_token rfl)⟩
      | free =>
          rw [hphase] at hs
          dsimp only at hs
          have hfree : ∀ j, a.side = some j → t.phase j = .free := by
            intro j hj
            obtain rfl := Option.some.inj (hi.symm.trans hj)
            exact hphase
          unfold Client.enter at hs
          cases hstage : C.stage i t.sys with
          | idle | looks | other =>
              rw [hstage] at hs
              refine ⟨h.plain hfree hs, .plain hs (fun s' hs' => ?_)⟩
              have hkeeps := C.step_some hi hs'
              rw [hstage] at hkeeps
              exact hkeeps
          | gives x =>
              rw [hstage] at hs
              dsimp only at hs
              split at hs
              case isTrue hfull =>
                refine ⟨h.plain hfree hs, ?_⟩
                cases hvalue : (t.sem x).token with
                | true =>
                    refine .plain hs (fun s' hs' => ?_)
                    have hgives := C.step_some hi hs'
                    rw [hstage] at hgives
                    refine hgives.trans ?_
                    congr 1
                    rw [← hvalue]
                    exact Function.update_eq_self x _
                | false =>
                    obtain ⟨s', hs', rfl⟩ := Option.map_eq_some_iff.mp hs
                    refine .refused hi (stage_seen.trans hstage) hvalue ?_ hs' rfl
                    have hzero : ¬ 0 < (t.sem x).value := of_decide_eq_false hvalue
                    have hcounts := h.counts x
                    have hfull : 1 ≤ (t.sem x).count := hfull
                    have hholds := held_other hphase (x := x) (by omega)
                    rw [stage_seen]
                    rcases of_decide_eq_true hholds with hposting | hcompleting
                    · exact .inl (h.posting _ x hposting)
                    · exact .inr (h.completing _ x hcompleting)
              case isFalse hfull =>
                obtain rfl := Option.some.inj hs
                exact ⟨h.reserve hphase hstage hfull, .nothing (seen_of_token rfl)⟩
          | takes x =>
              rw [hstage] at hs
              dsimp only at hs
              split at hs
              case isTrue hexpired =>
                refine ⟨h.plain hfree hs, .plain hs (fun s' hs' => ?_)⟩
                have hkeeps := C.step_some hi hs'
                rw [hstage] at hkeeps
                dsimp only at hkeeps
                rw [if_pos hexpired] at hkeeps
                exact hkeeps
              case isFalse hexpired =>
                split at hs
                case isFalse => cases hs
                case isTrue hvalue =>
                  obtain ⟨s', hs', rfl⟩ := Option.map_eq_some_iff.mp hs
                  have htakes := C.step_some hi hs'
                  rw [hstage] at htakes
                  dsimp only at htakes
                  rw [if_neg hexpired] at htakes
                  obtain ⟨-, hview, hlooks⟩ := htakes
                  refine ⟨h.wait hi hphase hvalue hlooks hs',
                    .step (hs'.trans (congrArg some (hview.trans ?_)))⟩
                  unfold Client.seen
                  rw [token_update]
                  congr 2
                  have hone : (t.sem x).value ≤ 1 := by
                    have := h.counts x
                    have := h.bound x
                    omega
                  refine (decide_eq_false ?_).symm
                  change ¬ 0 < (t.sem x).value - 1
                  omega

/-- A `sem_t` of value 0 has no token. -/
theorem token_of_value (h : (t.sem x).value = 0) : (t.sem x).token = false := by
  unfold Sem.token
  rw [h]
  rfl

/-- What every step of the buffer keeps, and every refused give. -/
theorem Client.invariant {I : σ → Prop} (hinit : I (C.view (fun _ => false) C.init))
    (hstep : ∀ s a s', I s → C.step s a = some s' → I s')
    (hrefused : ∀ v s a s' i x, I (C.view v s) → a.side = some i → v x = false →
      C.stage i (C.view v s) = .gives x →
      (C.stage i.other (C.view v s) = .gives x ∨ C.stage i.other (C.view v s) = .looks) →
      C.step (C.view v s) a = some s' → I (C.view v s'))
    (h : C.machine.Reachable t) : Sound C t ∧ I (C.seen t) := by
  refine h.invariant (I := fun t => Sound C t ∧ I (C.seen t)) ⟨.init, hinit⟩
    (fun t a t' _ hi hs => ?_)
  obtain ⟨hsound, hshows⟩ := hi.1.step hs
  refine ⟨hsound, ?_⟩
  cases hshows with
  | nothing hseen => exact hseen ▸ hi.2
  | step hs' => exact hstep _ _ _ hi.2 hs'
  | refused hside hgives hvalue hother hs' hseen =>
      rw [hseen]
      exact hrefused _ _ _ _ _ _ hi.2 hside hvalue hgives hother hs'

end MicrOsal.HostedWait
