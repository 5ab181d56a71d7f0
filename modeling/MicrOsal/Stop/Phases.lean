import MicrOsal.Stop.Model

/-!
# MicrOsal.Stop.Phases

The life of one callback.

A `View` is all that the state and the record hold about a callback: its flags, whether it
is on the list, the calls that concern it and the events. Every step moves one callback at
most from one `Phase` to another, and a phase fixes the whole view; so what can happen to a
callback is read off the phases.
-/

namespace MicrOsal.Stop

/-! ### Calls and events that concern a callback -/

/-- How far a constructor or `request_stop` is with a callback. -/
inductive FrameKind
  | construct
  | invokeLate
  | runLate
  | invokeStop
  | runStop
  deriving DecidableEq, Repr

def Frame.kind : Frame → Option (Nat × FrameKind)
  | .construct c => some (c, .construct)
  | .invoke .constructor c => some (c, .invokeLate)
  | .running .constructor c => some (c, .runLate)
  | .invoke .request c => some (c, .invokeStop)
  | .running .request c => some (c, .runStop)
  | .relock c => some (c, .runStop)
  | .unfinished c _ => some (c, .runStop)
  | .request => none
  | .close _ _ => none
  | .waiting _ _ => none

inductive EventKind
  /-- The constructor has returned ok, with a source. -/
  | attached
  | unattached
  | called
  | unlinked
  | dropped
  deriving DecidableEq, Repr

def Event.kind : Event → Option (Nat × EventKind)
  | .constructed c .ok true => some (c, .attached)
  | .unattached c => some (c, .unattached)
  | .called c => some (c, .called)
  | .unlinked c => some (c, .unlinked)
  | .dropped c => some (c, .dropped)
  | _ => none

/-- The calls of a stack that concern callbacks. -/
def kinds (stack : List Frame) : List (Nat × FrameKind) := stack.filterMap Frame.kind

namespace State

/-- The calls that are at `k` with callback `c`. -/
def frames (s : State) (c : Nat) (k : FrameKind) : Nat :=
  tally (fun th => (kinds th.stack).count (c, k)) s.threads

/-- The events of kind `k` on callback `c`. -/
def events (s : State) (c : Nat) (k : EventKind) : Nat :=
  (s.log.filterMap Event.kind).count (c, k)

end State

/-! ### Views -/

/-- `source_`, `executing_` and whether the constructor has returned. -/
structure Flags where
  source : Bool
  executing : Bool
  constructed : Bool
  deriving DecidableEq, Repr

def StopCallback.flags (cb : StopCallback) : Flags := ⟨cb.source, cb.executing, cb.constructed⟩

/-- All there is about a callback. -/
structure View where
  flags : Option Flags
  listed : Nat
  frames : FrameKind → Nat
  events : EventKind → Nat

def State.flags (s : State) (c : Nat) : Option Flags := (s.callbacks[c]?).map StopCallback.flags

/-- The view of callback `c`, where `l` is the list. -/
def State.view (s : State) (l : List Nat) (c : Nat) : View :=
  ⟨s.flags c, l.count c, s.frames c, s.events c⟩

/-- Where a callback is in its life. `ok` tells whether its constructor has returned ok, and
`source` whether it still has its source. -/
inductive Phase
  | constructing (source : Bool)
  /-- Constructed, but neither registered nor called. -/
  | turnedAway (source : Bool)
  | listed (ok : Bool)
  | lateInvoke (source : Bool)
  | lateRunning (source : Bool)
  /-- Called by its constructor. -/
  | late (source : Bool)
  | invoking (ok : Bool)
  | running (ok : Bool)
  /-- Called by `request_stop`. -/
  | served (ok source : Bool)
  /-- Taken off the list by `close`. -/
  | unlinked (ok source : Bool)
  /-- Taken off the list by a `request_stop` that has failed. -/
  | dropped (ok : Bool)
  deriving DecidableEq, Repr

namespace Phase

def flags : Phase → Flags
  | .constructing source => ⟨source, false, false⟩
  | .turnedAway source => ⟨source, false, true⟩
  | .listed _ => ⟨true, false, true⟩
  | .lateInvoke source => ⟨source, false, false⟩
  | .lateRunning source => ⟨source, false, false⟩
  | .late source => ⟨source, false, true⟩
  | .invoking _ => ⟨true, true, true⟩
  | .running _ => ⟨true, true, true⟩
  | .served _ source => ⟨source, false, true⟩
  | .unlinked _ source => ⟨source, false, true⟩
  | .dropped _ => ⟨true, true, true⟩

def isListed : Phase → Nat
  | .listed _ => 1
  | _ => 0

/-- The call that is at work on the callback. -/
def frame : Phase → Option FrameKind
  | .constructing _ => some .construct
  | .lateInvoke _ => some .invokeLate
  | .lateRunning _ => some .runLate
  | .invoking _ => some .invokeStop
  | .running _ => some .runStop
  | _ => none

/-- What has happened to the callback. -/
def events : Phase → List EventKind
  | .constructing _ => []
  | .turnedAway _ => [.unattached]
  | .listed ok => if ok then [.attached] else []
  | .lateInvoke _ => []
  | .lateRunning _ => [.called]
  | .late _ => [.called, .attached]
  | .invoking ok => if ok then [.attached] else []
  | .running ok => if ok then [.attached, .called] else [.called]
  | .served ok _ => if ok then [.attached, .called] else [.called]
  | .unlinked ok _ => if ok then [.attached, .unlinked] else [.unlinked]
  | .dropped ok => if ok then [.attached, .dropped] else [.dropped]

/-- The view of a callback in a phase. -/
def view (ph : Phase) : View where
  flags := some ph.flags
  listed := ph.isListed
  frames k := if ph.frame = some k then 1 else 0
  events k := ph.events.count k

end Phase

/-- Nothing is known of a callback that does not exist. -/
def View.absent : View := ⟨none, 0, fun _ => 0, fun _ => 0⟩

/-- Every callback is in a phase. -/
structure Phases (s : State) (l : List Nat) : Prop where
  phase : ∀ c, c < s.callbacks.length → ∃ ph : Phase, s.view l c = ph.view
  absent : ∀ c, s.callbacks.length ≤ c → s.view l c = .absent

/-! ### Turns -/

/-- Thread `n` goes from a stack to another, and callback `c` alone is concerned: a call on
it that is at `x` comes to `y`, the events `z` happen, and its flags become `flags'`. -/
structure Turn (s s' : State) (n c : Nat) (x y : Option FrameKind) (z : List EventKind)
    (flags' : Flags) : Prop where
  inRange : c < s.callbacks.length
  length : s'.callbacks.length = s.callbacks.length
  threads : ∃ th th' rest, s.threads[n]? = some th ∧ s'.threads = s.threads.set n th' ∧
    kinds th.stack = x.toList.map (fun k => (c, k)) ++ rest ∧
    kinds th'.stack = y.toList.map (fun k => (c, k)) ++ rest
  log : ∃ evs, s'.log = s.log ++ evs ∧ evs.filterMap Event.kind = z.map (fun k => (c, k))
  here : s'.flags c = some flags'
  there : ∀ c', c' ≠ c → s'.flags c' = s.flags c'

section Turns

variable {s s' : State} {n c : Nat} {x y : Option FrameKind} {z : List EventKind}
variable {flags' : Flags} {l l' : List Nat} {ph ph' : Phase}

theorem count_pairs {β : Type} [DecidableEq β] (c c' : Nat) (k : β) (ks : List β) :
    (ks.map (fun k => (c, k))).count (c', k) = if c' = c then ks.count k else 0 := by
  by_cases hc : c' = c
  · subst hc
    rw [if_pos rfl, List.count_map_of_injective _ _ (Prod.mk_right_injective c')]
  · rw [if_neg hc, List.count_eq_zero]
    intro hmem
    obtain ⟨k', -, heq⟩ := List.mem_map.mp hmem
    exact hc (Prod.mk.inj heq).1.symm

theorem Turn.frames_add (ht : Turn s s' n c x y z flags') (c' : Nat) (k : FrameKind) :
    s'.frames c' k + (if c' = c then x.toList.count k else 0) =
      s.frames c' k + (if c' = c then y.toList.count k else 0) := by
  obtain ⟨th, th', rest, hth, hths, hx, hy⟩ := ht.threads
  have hset := tally_set (f := fun th => (kinds th.stack).count (c', k)) (b := th') hth
  rw [hx, hy, List.count_append, List.count_append, count_pairs, count_pairs] at hset
  rw [State.frames, State.frames, hths]
  omega

theorem Turn.events_eq (ht : Turn s s' n c x y z flags') (c' : Nat) (k : EventKind) :
    s'.events c' k = s.events c' k + if c' = c then z.count k else 0 := by
  obtain ⟨evs, hlog, hevs⟩ := ht.log
  rw [State.events, State.events, hlog, List.filterMap_append, List.count_append, hevs,
    count_pairs]

/-- The other callbacks see nothing. -/
theorem Turn.view_other (ht : Turn s s' n c x y z flags') {c' : Nat} (hne : c' ≠ c)
    (hl : l'.count c' = l.count c') : s'.view l' c' = s.view l c' := by
  have hframes : s'.frames c' = s.frames c' := by
    funext k
    have := ht.frames_add c' k
    rw [if_neg hne, if_neg hne] at this
    omega
  have hevents : s'.events c' = s.events c' := by
    funext k
    rw [ht.events_eq, if_neg hne, Nat.add_zero]
  rw [State.view, State.view, ht.there c' hne, hl, hframes, hevents]

theorem Phases.flags_eq (hph : s.view l c = ph.view) : s.flags c = some ph.flags :=
  congrArg View.flags hph

theorem Phases.listed_eq (hph : s.view l c = ph.view) : l.count c = ph.isListed :=
  congrArg View.listed hph

/-- The callback's own view, from a phase to another. -/
theorem Turn.view_self (ht : Turn s s' n c x y z flags') (hph : s.view l c = ph.view)
    (hflags : ph'.flags = flags') (hl : l'.count c = ph'.isListed) (hx : ph.frame = x)
    (hy : ph'.frame = y) (hz : (ph.events ++ z).Perm ph'.events) : s'.view l' c = ph'.view := by
  have hold : s.frames c = fun k => if ph.frame = some k then 1 else 0 := congrArg View.frames hph
  have holde : s.events c = fun k => ph.events.count k := congrArg View.events hph
  have hcount : ∀ (o : Option FrameKind) (k : FrameKind),
      o.toList.count k = if o = some k then 1 else 0 := by
    intro o k
    cases o with
    | none => rfl
    | some k' =>
        rw [Option.toList_some, List.count_singleton]
        simp
  have hframes : s'.frames c = fun k => if ph'.frame = some k then 1 else 0 := by
    funext k
    have := ht.frames_add c k
    rw [if_pos rfl, if_pos rfl, hcount, hcount, hold, hx, ← hy] at this
    dsimp only at this ⊢
    omega
  have hevents : s'.events c = fun k => ph'.events.count k := by
    funext k
    rw [ht.events_eq, if_pos rfl, holde, ← hz.count_eq, List.count_append]
  rw [State.view, Phase.view, ht.here, hl, hframes, hevents, hflags]

/-- A callback that a call is at work on. -/
theorem Phases.of_frame {th : Thread} {k : FrameKind} (hp : Phases s l)
    (hth : s.threads[n]? = some th) (hmem : (c, k) ∈ kinds th.stack) :
    c < s.callbacks.length ∧ ∃ ph : Phase, s.view l c = ph.view ∧ ph.frame = some k := by
  have hle := le_tally (f := fun th => (kinds th.stack).count (c, k)) hth
  have hpos : 0 < (kinds th.stack).count (c, k) := List.count_pos_iff.mpr hmem
  have hframes : 0 < s.frames c k := by
    rw [State.frames]
    omega
  rcases Nat.lt_or_ge c s.callbacks.length with hlt | hge
  · obtain ⟨ph, hph⟩ := hp.phase c hlt
    refine ⟨hlt, ph, hph, ?_⟩
    have heq : s.frames c k = if ph.frame = some k then 1 else 0 :=
      congrFun (congrArg View.frames hph) k
    by_contra hne
    rw [if_neg hne] at heq
    omega
  · have heq : s.frames c k = 0 := congrFun (congrArg View.frames (hp.absent c hge)) k
    omega

theorem Phases.of_top {fr : Frame} {rest : List Frame} {last : Return} {k : FrameKind}
    (hp : Phases s l) (hth : s.threads[n]? = some ⟨fr :: rest, last⟩)
    (hk : fr.kind = some (c, k)) :
    c < s.callbacks.length ∧ ∃ ph : Phase, s.view l c = ph.view ∧ ph.frame = some k :=
  hp.of_frame hth (List.mem_filterMap.mpr ⟨fr, List.mem_cons_self .., hk⟩)

/-- A turn that brings its callback to a phase keeps all in phases. -/
theorem Turn.phases (ht : Turn s s' n c x y z flags') (hp : Phases s l)
    (hl : ∀ c', c' ≠ c → l'.count c' = l.count c') (hself : s'.view l' c = ph'.view) :
    Phases s' l' where
  phase := by
    intro c' hlt
    by_cases hc : c' = c
    · subst hc
      exact ⟨ph', hself⟩
    · rw [ht.view_other hc (hl c' hc)]
      exact hp.phase c' (by rw [← ht.length]; exact hlt)
  absent := by
    intro c' hge
    have hc : c' ≠ c := by
      have := ht.inRange
      have := ht.length
      omega
    rw [ht.view_other hc (hl c' hc)]
    exact hp.absent c' (by rw [← ht.length]; exact hge)

/-- A thread moves on, and no callback is concerned. -/
theorem Phases.same {th th' : Thread} {evs : List Event} (hp : Phases s l)
    (hth : s.threads[n]? = some th) (hths : s'.threads = s.threads.set n th')
    (hkinds : kinds th'.stack = kinds th.stack) (hcb : s'.callbacks = s.callbacks)
    (hlog : s'.log = s.log ++ evs) (hevs : evs.filterMap Event.kind = []) : Phases s' l := by
  have hflags : s'.flags = s.flags := by
    funext c
    rw [State.flags, State.flags, hcb]
  have hevents : s'.events = s.events := by
    funext c k
    rw [State.events, State.events, hlog, List.filterMap_append, hevs, List.append_nil]
  have hframes : s'.frames = s.frames := by
    funext c k
    rw [State.frames, State.frames, hths]
    exact tally_set_eq hth (by rw [hkinds])
  have hview : ∀ c, s'.view l c = s.view l c := by
    intro c
    rw [State.view, State.view, hflags, hevents, hframes]
  constructor
  · intro c hlt
    rw [hview]
    exact hp.phase c (by rw [← hcb]; exact hlt)
  · intro c hge
    rw [hview]
    exact hp.absent c (by rw [← hcb]; exact hge)

end Turns

end MicrOsal.Stop
