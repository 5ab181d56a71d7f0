import MicrOsal.WaitReady.Model

/-!
# MicrOsal.WaitReady.Source

What `wait_until_ready` relies on at the stop source, along every step of it: a stop that is
requested stays requested, a callback is called only after that, and the status of a constructor
is not one of the results that say what became of the wait.
-/

namespace MicrOsal

/-- A code that says neither that time is over nor that a stop is requested: all that a primitive
may fail with that is not to wait. -/
def ErrorCode.plain (r : ErrorCode) : Bool := r ≠ .timeout ∧ r ≠ .cancelled

namespace Stop

variable {s s' u : State} {n c : Nat} {th : Thread} {rest stack : List Frame} {fr : Frame}
variable {last last' : Return} {status : ErrorCode} {r : Results} {maxCallbacks : Nat}
variable {stopped stopped' timed : Bool} {a : Action}

/-! ### Definitions -/

/-- Thread `n` is in a `close` with a timeout. -/
def State.inTimedClose (s : State) (n : Nat) : Bool :=
  match s.top n with
  | some (.close _ timed) => timed
  | _ => false

/-- No primitive returns a code that only a wait returns. -/
def State.plain (s : State) : Action → Bool
  | .advance n r =>
      (r.lock.plain || (r.lock = .timeout && s.inTimedClose n)) && r.unlock.plain &&
        r.notify.plain && r.wait ≠ .cancelled
  | _ => true

/-- The call has come so far only because stop was requested. -/
def Frame.follows : Frame → Bool
  | .invoke _ _ => true
  | .running _ _ => true
  | .relock _ => true
  | .unfinished _ _ => true
  | _ => false

def Return.plain : Return → Bool
  | .constructed _ status => status.plain
  | _ => true

structure Thread.Sane (stopped : Bool) (th : Thread) : Prop where
  stack : ∀ fr ∈ th.stack, fr.follows = true → stopped = true
  last : th.last.plain = true

structure Sane (s : State) : Prop where
  initialization : s.source.initialization.plain = true
  failure : s.source.failure.plain = true
  threads : ∀ th ∈ s.threads, th.Sane s.source.stopped

/-- A sane state, in which stop is requested if it was in `s`. -/
structure After (s s' : State) : Prop where
  sane : Sane s'
  stopped : s.source.stopped = true → s'.source.stopped = true

/-! ### Threads -/

theorem Thread.Sane.mono (h : Thread.Sane stopped th) (hle : stopped = true → stopped' = true) :
    Thread.Sane stopped' th :=
  ⟨fun fr hfr hf => hle (h.stack fr hfr hf), h.last⟩

theorem Thread.Sane.pop (h : Thread.Sane stopped ⟨fr :: rest, last⟩)
    (hlast : last'.plain = true) : Thread.Sane stopped ⟨rest, last'⟩ :=
  ⟨fun fr hfr => h.stack fr (List.mem_cons_of_mem _ hfr), hlast⟩

theorem Thread.Sane.push (h : Thread.Sane stopped ⟨rest, last⟩)
    (hfr : fr.follows = true → stopped = true) : Thread.Sane stopped ⟨fr :: rest, last⟩ := by
  refine ⟨fun fr' hfr' hf => ?_, h.last⟩
  rcases List.mem_cons.mp hfr' with rfl | hfr'
  · exact hfr hf
  · exact h.stack fr' hfr' hf

/-! ### Operations -/

theorem Sane.status_plain (h : Sane s) : s.source.status.plain = true := by
  rw [StopSource.status]
  split
  · exact h.failure
  · exact h.initialization

namespace After

theorem refl (h : Sane s) : After s s := ⟨h, id⟩

/-- What is not looked at changes. -/
theorem congr (h : After s s') (hinit : u.source.initialization = s'.source.initialization)
    (hfailure : u.source.failure = s'.source.failure) (hths : u.threads = s'.threads)
    (hstopped : u.source.stopped = s'.source.stopped) : After s u where
  sane := by
    refine ⟨?_, ?_, ?_⟩
    · rw [hinit]
      exact h.sane.initialization
    · rw [hfailure]
      exact h.sane.failure
    · rw [hths, hstopped]
      exact h.sane.threads
  stopped := by
    rw [hstopped]
    exact h.stopped

theorem note (h : After s s') (e : Event) : After s (s'.note e) :=
  ⟨⟨h.sane.initialization, h.sane.failure, h.sane.threads⟩, h.stopped⟩

theorem modifyCallback (h : After s s') (c : Nat) (f : StopCallback → StopCallback) :
    After s (s'.modifyCallback c f) :=
  ⟨⟨h.sane.initialization, h.sane.failure, h.sane.threads⟩, h.stopped⟩

theorem record (h : After s s') (hstatus : status.plain = true) : After s (s'.record status) := by
  unfold State.record StopSource.record
  split
  case isTrue => exact ⟨⟨h.sane.initialization, hstatus, h.sane.threads⟩, h.stopped⟩
  case isFalse => exact h

theorem unlock (h : After s s') (hr : r.unlock.plain = true) : After s (s'.unlock r) :=
  ⟨⟨(h.record hr).sane.initialization, (h.record hr).sane.failure, (h.record hr).sane.threads⟩,
    (h.record hr).stopped⟩

theorem setThread (h : After s s') (hth : Thread.Sane s'.source.stopped ⟨stack, last⟩) :
    After s (s'.setThread n stack last) := by
  refine ⟨⟨h.sane.initialization, h.sane.failure, fun th hmem => ?_⟩, h.stopped⟩
  rcases List.mem_or_eq_of_mem_set hmem with hmem | rfl
  · exact h.sane.threads th hmem
  · exact hth

variable {source : Bool} {e : Event}

theorem constructed (h : After s s') (hrest : Thread.Sane s.source.stopped ⟨rest, last⟩)
    (hstatus : status.plain = true) : After s (s'.constructed n rest c status source) :=
  ((h.modifyCallback _ _).note _).setThread ⟨(hrest.mono h.stopped).stack, hstatus⟩

theorem requested (h : After s s') (hrest : Thread.Sane s.source.stopped ⟨rest, last⟩)
    (first : Bool) : After s (s'.requested n rest status first) :=
  (h.note _).setThread ⟨(hrest.mono h.stopped).stack, rfl⟩

theorem closed (h : After s s') (hrest : Thread.Sane s.source.stopped ⟨rest, last⟩) :
    After s (s'.closed n rest c status) :=
  (h.note _).setThread ⟨(hrest.mono h.stopped).stack, rfl⟩

end After

/-! ### The three members -/

theorem After.construct (h : Sane s) (hth : th.Sane s.source.stopped) (token callback : Bool) :
    After s (s.construct n th token callback) := by
  have hnew : ∀ cbs, After s { s with callbacks := cbs } := fun cbs =>
    (After.refl h).congr rfl rfl rfl rfl
  unfold State.construct
  split
  case isTrue =>
    exact ((hnew _).note _).constructed hth rfl
  case isFalse =>
    split
    case isTrue => exact ((hnew _).note _).constructed hth rfl
    case isFalse =>
      split
      case isTrue => exact ((hnew _).note _).constructed hth h.status_plain
      case isFalse => exact (hnew _).setThread (hth.push (by rintro ⟨⟩))

theorem After.constructLocked (h : Sane s)
    (hth : Thread.Sane s.source.stopped ⟨.construct c :: rest, last⟩)
    (hunlock : r.unlock.plain = true) :
    After s (s.constructLocked maxCallbacks n rest last c r) := by
  have hrest : Thread.Sane s.source.stopped ⟨rest, last⟩ := hth.pop hth.last
  have hun : After s (s.unlock r) := (After.refl h).unlock hunlock
  unfold State.constructLocked
  split
  case isTrue hstopped =>
    split
    case isTrue =>
      exact hun.setThread ((hrest.mono hun.stopped).push (fun _ => hun.stopped hstopped))
    case isFalse => exact (hun.note _).constructed hrest hunlock
  case isFalse =>
    split
    case isTrue =>
      refine (hun.note _).constructed hrest ?_
      split
      · rfl
      · exact hunlock
    case isFalse =>
      have hadded : ∀ head count callbacks, After s { s with
          source := { s.source with head := head, count := count }, callbacks := callbacks } :=
        fun _ _ _ => (After.refl h).congr rfl rfl rfl rfl
      exact ((hadded _ _ _).unlock hunlock).constructed hrest hunlock

theorem After.loop (h : After s s') (hstopped : s'.source.stopped = true)
    (hrest : Thread.Sane s.source.stopped ⟨rest, last⟩) (hunlock : r.unlock.plain = true) :
    After s (s'.loop n rest last r) := by
  unfold State.loop
  split
  case h_1 => exact (h.unlock hunlock).requested hrest true
  case h_2 b hhead =>
    have hpopped : After s (({ s' with
        source := { s'.source with head := s'.next b, count := sizeDecr s'.source.count } }
          |>.modifyCallback b (fun cb => { cb with executing := true })).unlock r) :=
      After.unlock (h.congr rfl rfl rfl rfl) hunlock
    dsimp only
    split
    case isTrue =>
      refine hpopped.setThread ((hrest.mono hpopped.stopped).push (fun _ => ?_))
      simpa [State.unlock, State.modifyCallback] using hstopped
    case isFalse => exact (hpopped.note _).requested hrest true

theorem After.requestLocked (h : Sane s)
    (hth : Thread.Sane s.source.stopped ⟨.request :: rest, last⟩)
    (hunlock : r.unlock.plain = true) : After s (s.requestLocked n rest last r) := by
  have hrest : Thread.Sane s.source.stopped ⟨rest, last⟩ := hth.pop hth.last
  unfold State.requestLocked
  split
  case isTrue => exact ((After.refl h).unlock hunlock).requested hrest false
  case isFalse =>
    refine After.loop ⟨⟨h.initialization, h.failure, fun th hmem => ?_⟩, fun _ => rfl⟩ rfl hrest
      hunlock
    exact (h.threads th hmem).mono (fun _ => rfl)

theorem After.relocked (h : Sane s)
    (hth : Thread.Sane s.source.stopped ⟨.relock c :: rest, last⟩)
    (hunlock : r.unlock.plain = true) (hnotify : r.notify.plain = true) :
    After s (s.relocked n rest last c r) := by
  have hrest : Thread.Sane s.source.stopped ⟨rest, last⟩ := hth.pop hth.last
  have hstopped : s.source.stopped = true := hth.stack _ (List.mem_cons_self ..) rfl
  have hdone : After s ((s.finished c).record r.notify) :=
    ((After.refl h).modifyCallback _ _).record hnotify
  unfold State.relocked
  dsimp only
  split
  case isTrue => exact hdone.loop (hdone.stopped hstopped) hrest hunlock
  case isFalse => exact (hdone.unlock hunlock).requested hrest true

theorem After.unlink (h : Sane s) (hs : s.unlink c = some s') :
    After s s' := by
  obtain ⟨found, -, hs⟩ := Option.bind_eq_some_iff.mp hs
  split at hs <;> cases hs
  · exact .refl h
  · exact (After.refl h).congr rfl rfl rfl rfl
  · exact (After.refl h).congr rfl rfl rfl rfl

theorem After.closeLoop (h : After s u)
    (hrest : Thread.Sane s.source.stopped ⟨rest, last⟩) (hunlock : r.unlock.plain = true)
    (hs : u.closeLoop n rest last c timed r = some s') : After s s' := by
  obtain ⟨cb, -, hs⟩ := Option.bind_eq_some_iff.mp hs
  split at hs
  case isTrue => cases hs
  case isFalse =>
    split at hs
    case isTrue =>
      split at hs <;> cases hs
      · exact (h.unlock hunlock).closed hrest
      · exact h.setThread ((hrest.mono h.stopped).push (by rintro ⟨⟩))
    case isFalse =>
      split at hs <;> cases hs
      · exact ((h.unlock hunlock).modifyCallback _ _).closed hrest
      · exact (h.unlock hunlock).closed hrest

/-! ### Steps -/

theorem After.lockFailed (h : Sane s)
    (hlock : r.lock.plain = true ∨ (r.lock = .timeout ∧ timed = true)) :
    After s (s.lockFailed timed r.lock) := by
  unfold State.lockFailed
  split
  case isTrue => exact .refl h
  case isFalse hrecords =>
    refine (After.refl h).record (hlock.resolve_right ?_)
    rintro ⟨htimeout, rfl⟩
    exact hrecords ⟨rfl, .inl htimeout⟩

theorem After.advance (h : Sane s) (hth : s.threads[n]? = some th)
    (hplain : s.plain (.advance n r) = true)
    (hs : s.advance maxCallbacks n r th = some s') : After s s' := by
  obtain ⟨stack, last⟩ := th
  have hsane : Thread.Sane s.source.stopped ⟨stack, last⟩ :=
    h.threads _ (List.mem_of_getElem? hth)
  have htop : s.top n = stack.head? := by rw [State.top, hth, Option.bind_some]
  simp only [State.plain, State.inTimedClose, htop, Bool.and_eq_true, Bool.or_eq_true,
    decide_eq_true_eq] at hplain
  obtain ⟨⟨⟨hlock, hunlock⟩, hnotify⟩, hwait⟩ := hplain
  cases stack with
  | nil => cases hs
  | cons fr rest =>
      cases fr with
      | construct c =>
          have hlock : r.lock.plain = true := hlock.resolve_right (by rintro ⟨-, ⟨⟩⟩)
          rcases State.of_region hs with ⟨-, hs⟩ | ⟨-, -, hs⟩ <;> cases hs
          · exact ((After.lockFailed h (.inl hlock)).note _).constructed
              (hsane.pop hsane.last) hlock
          · exact .constructLocked h hsane hunlock
      | request =>
          have hlock : r.lock.plain = true := hlock.resolve_right (by rintro ⟨-, ⟨⟩⟩)
          rcases State.of_region hs with ⟨-, hs⟩ | ⟨-, -, hs⟩ <;> cases hs
          · exact (After.lockFailed h (.inl hlock)).requested
              (hsane.pop hsane.last) false
          · exact .requestLocked h hsane hunlock
      | invoke caller c =>
          cases hs
          exact ((After.refl h).note _).setThread ((hsane.pop hsane.last).push
            (fun _ => hsane.stack _ (List.mem_cons_self ..) rfl))
      | running caller c =>
          cases caller with
          | constructor =>
              cases hs
              exact (After.refl h).constructed (hsane.pop hsane.last) rfl
          | request =>
              cases hs
              exact (After.refl h).setThread ((hsane.pop hsane.last).push
                (fun _ => hsane.stack _ (List.mem_cons_self ..) rfl))
      | relock c =>
          have hlock : r.lock.plain = true := hlock.resolve_right (by rintro ⟨-, ⟨⟩⟩)
          rcases State.of_region hs with ⟨-, hs⟩ | ⟨-, -, hs⟩ <;> cases hs
          · have hfailed : After s (s.lockFailed false r.lock) := After.lockFailed h (.inl hlock)
            exact hfailed.setThread (((hsane.pop hsane.last).mono hfailed.stopped).push
              (fun _ => hfailed.stopped (hsane.stack _ (List.mem_cons_self ..) rfl)))
          · exact .relocked h hsane hunlock hnotify
      | unfinished c locked =>
          cases hs
          exact (((After.refl h).modifyCallback _ _).record hnotify).requested
            (hsane.pop hsane.last) true
      | close c timed =>
          rcases State.of_region hs with ⟨-, hs⟩ | ⟨-, -, hs⟩
          · cases hs
            exact (After.lockFailed h hlock).closed (hsane.pop hsane.last)
          · obtain ⟨u, hunlink, hs⟩ := Option.bind_eq_some_iff.mp hs
            exact (After.unlink h hunlink).closeLoop (hsane.pop hsane.last) hunlock hs
      | waiting c timed =>
          simp only [State.advance] at hs
          split at hs
          case isTrue => cases hs
          case isFalse =>
            split at hs
            case isTrue => exact (After.refl h).closeLoop (hsane.pop hsane.last) hunlock hs
            case isFalse hbad =>
              cases hs
              have hplain : r.wait.plain = true := by
                simp only [ErrorCode.plain, decide_eq_true_eq]
                exact ⟨fun ht => hbad (.inr (.inl ht)), hwait⟩
              unfold State.waitFailed
              dsimp only
              refine After.closed (After.unlock ?_ hunlock) (hsane.pop hsane.last)
              split
              · exact (After.refl h).record hplain
              · exact .refl h

/-- Every step leaves a sane source sane, and a stop requested. -/
theorem After.step (h : Sane s) (hplain : s.plain a = true)
    (hs : s.step maxCallbacks a = some s') : After s s' := by
  have hcall : ∀ {n : Nat} {f : Thread → Option State}, s.call n f = some s' →
      ∃ th, th.Sane s.source.stopped ∧ f th = some s' := by
    intro n f hs
    obtain ⟨th, hth, hs⟩ := Option.bind_eq_some_iff.mp hs
    split at hs
    case isTrue => exact ⟨th, h.threads th (List.mem_of_getElem? hth), hs⟩
    case isFalse => cases hs
  cases a with
  | spawn =>
      cases hs
      refine ⟨⟨h.initialization, h.failure, fun th hmem => ?_⟩, id⟩
      rcases List.mem_append.mp hmem with hmem | hmem
      · exact h.threads th hmem
      · rw [List.mem_singleton] at hmem
        subst hmem
        exact ⟨by rintro fr ⟨⟩, rfl⟩
  | construct n token callback =>
      obtain ⟨th, hth, hs⟩ := hcall hs
      cases hs
      exact .construct h hth token callback
  | request n =>
      obtain ⟨th, hth, hs⟩ := hcall hs
      cases hs
      unfold State.request
      split
      case isTrue => exact (After.refl h).requested hth false
      case isFalse => exact (After.refl h).setThread (hth.push (by rintro ⟨⟩))
  | close n c timed =>
      obtain ⟨th, hth, hs⟩ := hcall hs
      obtain ⟨cb, -, hs⟩ := Option.bind_eq_some_iff.mp hs
      split at hs
      case isTrue => cases hs
      case isFalse =>
        split at hs <;> cases hs
        · exact (After.refl h).closed hth
        · exact (After.refl h).setThread (hth.push (by rintro ⟨⟩))
  | advance n r =>
      obtain ⟨th, hth, hs⟩ := Option.bind_eq_some_iff.mp hs
      exact .advance h hth hplain hs
  | repair =>
      cases hs
      exact (After.refl h).congr rfl rfl rfl rfl

/-- The constructor returned, and the callback that it is in has been called. -/
theorem Sane.stopped_of_top (h : Sane s) (htop : s.top n = some fr) (hfr : fr.follows = true) :
    s.source.stopped = true := by
  obtain ⟨th, hth, htop⟩ := Option.bind_eq_some_iff.mp htop
  exact (h.threads th (List.mem_of_getElem? hth)).stack fr (List.mem_of_mem_head? htop) hfr

end Stop

end MicrOsal
