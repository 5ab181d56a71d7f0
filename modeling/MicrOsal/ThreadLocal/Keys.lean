import MicrOsal.ThreadLocal.Model

/-!
# MicrOsal.ThreadLocal.Keys

What the steps do (`Next`), and who holds a key (`Holders`).

The bit of a key says that somebody holds it: an `acquire` that has not returned, an object,
or a `release` that has not cleared it. So live objects have different keys.
-/

namespace MicrOsal.ThreadLocal

variable {maxKeys : Nat} {s s' : State} {n k : Nat} {th : Thread} {a : Action}

/-! ### Steps -/

/-- Where a thread holds no key and uses no object. -/
def Pc.plain : Pc → Bool
  | .idle => true
  | .load _ => true
  | .cas _ _ => true
  | _ => false

/-- `acquire` looks at keys that have a bit, and tries those that were free. -/
def Pc.Sound : Pc → Prop
  | .load idx => idx < 32
  | .cas idx expected => idx < 32 ∧ expected.getLsbD idx = false
  | _ => True

/-- What a step does. -/
inductive Next (s : State) : Action → State → Prop
  | spawn : Next s .spawn
      { s with threads := s.threads ++ [⟨.idle, fun _ => none, fun _ => 0⟩] }
  /-- A thread moves within `acquire`, or a call ends without effect. -/
  | moves {a : Action} {n : Nat} {th : Thread} {pc : Pc} : s.threads[n]? = some th →
      th.pc.plain = true → pc.plain = true → pc.Sound →
      Next s a { s with threads := s.threads.set n { th with pc := pc } }
  /-- No key is free. -/
  | refused {a : Action} {n : Nat} {th : Thread} : s.threads[n]? = some th →
      th.pc.plain = true → Next s a
        { s with objects := s.objects ++ [⟨none, true⟩]
                 threads := s.threads.set n { th with pc := .idle } }
  | takes {n idx : Nat} {spurious : Bool} {th : Thread} : s.threads[n]? = some th →
      th.pc = .cas idx s.mask → Next s (.advance n spurious)
        { s with mask := s.mask ||| State.bit idx
                 threads := s.threads.set n { th with pc := .acquired idx } }
  | acquired {n key : Nat} {spurious : Bool} {th : Thread} : s.threads[n]? = some th →
      th.pc = .acquired key → Next s (.advance n spurious)
        { s.bump key with objects := s.objects ++ [⟨some key, true⟩]
                          threads := s.threads.set n { th with pc := .idle } }
  | sets {n o key : Nat} {value : Option Nat} {th : Thread} : s.threads[n]? = some th →
      th.pc = .idle → s.keyOf o = some key → Next s (.set n o value)
        { s with threads := s.threads.set n { th with pc := .setting o value (s.generation key) } }
  | stored {n o key gen : Nat} {value : Option Nat} {spurious : Bool} {th : Thread} :
      s.threads[n]? = some th → th.pc = .setting o value gen → s.keyOf o = some key →
      Next s (.advance n spurious)
        { s with
          threads := s.threads.set n
            ⟨.idle, Function.update th.values key value, Function.update th.seen key gen⟩
          log := s.log ++ [⟨n, o, value⟩] }
  /-- An object without a key is destroyed. -/
  | dies {a : Action} {o : Nat} {obj : Object} : s.objects[o]? = some obj → obj.key = none →
      Next s a { s with objects := s.objects.set o { obj with live := false } }
  | destroys {n o key : Nat} {obj : Object} {th : Thread} : s.threads[n]? = some th →
      th.pc = .idle → s.objects[o]? = some obj → obj.live = true → obj.key = some key →
      s.threads.any (Thread.uses o) = false → Next s (.destroy n o)
        { s with objects := s.objects.set o { obj with live := false }
                 threads := s.threads.set n { th with pc := .release key } }
  | clears {n key : Nat} {spurious : Bool} {th : Thread} : s.threads[n]? = some th →
      th.pc = .release key → Next s (.advance n spurious)
        { s with mask := s.mask &&& ~~~ State.bit key
                 threads := s.threads.set n { th with pc := .released key } }
  | released {n key : Nat} {spurious : Bool} {th : Thread} : s.threads[n]? = some th →
      th.pc = .released key → Next s (.advance n spurious)
        { s.bump key with threads := s.threads.set n { th with pc := .idle } }

theorem Next.tryKey (hth : s.threads[n]? = some th) (hplain : th.pc.plain = true) (idx : Nat) :
    Next s a (s.tryKey maxKeys n th idx) := by
  rw [State.tryKey]
  split
  case isTrue hlt =>
    have hlimit : State.limit maxKeys ≤ 32 := by
      rw [State.limit]
      split <;> omega
    exact .moves hth hplain rfl (Nat.lt_of_lt_of_le hlt hlimit)
  case isFalse => exact .refused hth hplain

theorem Next.check (hth : s.threads[n]? = some th) (hplain : th.pc.plain = true) {idx : Nat}
    (hidx : idx < 32) : Next s a (s.check maxKeys n th idx) := by
  rw [State.check]
  split
  case isTrue => exact .tryKey hth hplain _
  case isFalse hfree => exact .moves hth hplain rfl ⟨hidx, by simpa using hfree⟩

theorem Next.advance {spurious : Bool} (hth : s.threads[n]? = some th) (hsound : th.pc.Sound)
    (hs : s.advance maxKeys n spurious th = some s') : Next s (.advance n spurious) s' := by
  cases hpc : th.pc with
  | idle =>
      rw [State.advance, hpc] at hs
      cases hs
  | load idx =>
      rw [State.advance, hpc] at hs
      rw [hpc] at hsound
      cases hs
      exact .check hth (by rw [hpc]; rfl) hsound
  | cas idx expected =>
      rw [State.advance, hpc] at hs
      rw [hpc] at hsound
      dsimp only at hs
      split at hs
      case isTrue heq =>
        obtain ⟨rfl, -⟩ := heq
        cases hs
        exact .takes hth hpc
      case isFalse =>
        cases hs
        exact .check hth (by rw [hpc]; rfl) hsound.1
  | acquired key =>
      rw [State.advance, hpc] at hs
      cases hs
      exact .acquired hth hpc
  | setting o value gen =>
      rw [State.advance, hpc] at hs
      obtain ⟨key, hkey, hs⟩ := Option.bind_eq_some_iff.mp hs
      cases hs
      exact .stored hth hpc hkey
  | release key =>
      rw [State.advance, hpc] at hs
      cases hs
      exact .clears hth hpc
  | released key =>
      rw [State.advance, hpc] at hs
      cases hs
      exact .released hth hpc

theorem State.of_call {f : Thread → Option State} (hs : s.call n f = some s') :
    ∃ th, s.threads[n]? = some th ∧ th.pc = .idle ∧ f th = some s' := by
  obtain ⟨th, hth, hs⟩ := Option.bind_eq_some_iff.mp hs
  split at hs
  case isTrue hidle => exact ⟨th, hth, hidle, hs⟩
  case isFalse => cases hs

/-- Every step is one of those. -/
theorem Next.of_step (hsound : ∀ th ∈ s.threads, th.pc.Sound) (hs : s.step maxKeys a = some s') :
    Next s a s' := by
  cases a with
  | spawn =>
      cases hs
      exact .spawn
  | construct n =>
      obtain ⟨th, hth, hidle, hs⟩ := State.of_call hs
      cases hs
      exact .tryKey hth (by rw [hidle]; rfl) 0
  | destroy n o =>
      obtain ⟨th, hth, hidle, hs⟩ := State.of_call hs
      obtain ⟨obj, hobj, hs⟩ := Option.bind_eq_some_iff.mp hs
      split at hs
      case isTrue => cases hs
      case isFalse hnot =>
        obtain ⟨hlive, huse⟩ := not_or.mp hnot
        split at hs
        case h_1 hkey =>
          cases hs
          exact .dies hobj hkey
        case h_2 key hkey =>
          cases hs
          exact .destroys hth hidle hobj (by simpa using hlive) hkey (by simpa using huse)
  | set n o value =>
      obtain ⟨th, hth, hidle, hs⟩ := State.of_call hs
      obtain ⟨obj, hobj, hs⟩ := Option.bind_eq_some_iff.mp hs
      split at hs
      case isTrue => cases hs
      case isFalse hlive =>
        split at hs
        case h_1 =>
          cases hs
          have hself : s.threads.set n { th with pc := th.pc } = s.threads := by
            obtain ⟨hlt, heq⟩ := List.getElem?_eq_some_iff.mp hth
            rw [← heq, List.set_getElem_self]
          have hmove : Next s (.set n o value)
              { s with threads := s.threads.set n { th with pc := th.pc } } :=
            .moves hth (by rw [hidle]; rfl) (by rw [hidle]; rfl) (by rw [hidle]; trivial)
          rw [hself] at hmove
          exact hmove
        case h_2 key hkey =>
          cases hs
          refine .sets hth hidle ?_
          rw [State.keyOf, hobj]
          simpa [hkey] using hlive
  | advance n spurious =>
      obtain ⟨th, hth, hs⟩ := Option.bind_eq_some_iff.mp hs
      exact .advance hth (hsound th (List.mem_of_getElem? hth)) hs

/-! ### Who holds a key -/

/-- The key that a thread holds, in `acquire` or in `release`. -/
def Pc.held : Pc → Option Nat
  | .acquired key => some key
  | .release key => some key
  | _ => none

def Thread.holds (k : Nat) (th : Thread) : Bool := th.pc.held = some k

def Object.owns (k : Nat) (obj : Object) : Bool := obj.live ∧ obj.key = some k

def State.holders (s : State) (k : Nat) : Nat :=
  s.threads.countP (Thread.holds k) + s.objects.countP (Object.owns k)

/-- The bit of a key says that it has a holder, and there is one at most. -/
structure Holders (s : State) : Prop where
  sound : ∀ th ∈ s.threads, th.pc.Sound
  holders : ∀ k, s.holders k = (s.mask.getLsbD k).toNat

theorem getLsbD_bit (key k : Nat) (hkey : key < 32) :
    (State.bit key).getLsbD k = decide (k = key) := by
  rw [State.bit, BitVec.getLsbD_shiftLeft]
  by_cases hk : k = key
  · subst hk
    simp [hkey]
  · by_cases hlt : k < key
    · simp [hlt, Nat.ne_of_lt hlt]
    · have : k - key ≠ 0 := by omega
      simp [hk, this]

theorem Pc.held_plain {pc : Pc} (h : pc.plain = true) : pc.held = none := by
  cases pc with
  | idle | load | cas => rfl
  | acquired | setting | release | released => cases h

theorem countP_dies {objects : List Object} {o : Nat} {obj : Object} (hobj : objects[o]? = some obj)
    (k : Nat) : (objects.set o { obj with live := false }).countP (Object.owns k) +
      (obj.owns k).toNat = objects.countP (Object.owns k) := by
  have hset := countP_set (b := { obj with live := false }) (Object.owns k) hobj
  have hdead : Object.owns k { obj with live := false } = false := by simp [Object.owns]
  cases hp : obj.owns k <;> simp [hp, hdead] at hset ⊢ <;> omega

/-- A thread has moved, and the objects may have changed. -/
theorem Holders.update {th' : Thread} (hh : Holders s) (hth : s.threads[n]? = some th)
    (hths : s'.threads = s.threads.set n th') (hsound : th'.pc.Sound)
    (hbalance : ∀ k, (th'.holds k).toNat + s'.objects.countP (Object.owns k) +
        (s.mask.getLsbD k).toNat =
      (th.holds k).toNat + s.objects.countP (Object.owns k) + (s'.mask.getLsbD k).toNat) :
    Holders s' := by
  constructor
  · intro th₁ hmem
    rw [hths] at hmem
    rcases List.mem_or_eq_of_mem_set hmem with hmem | rfl
    · exact hh.sound th₁ hmem
    · exact hsound
  · intro k
    have hset := countP_set (b := th') (Thread.holds k) hth
    have hold := hh.holders k
    have hbal := hbalance k
    rw [State.holders] at hold ⊢
    rw [hths]
    cases hp : th.holds k <;> cases hp' : th'.holds k <;> simp [hp, hp'] at hset hbal <;> omega

theorem Holders.step (hh : Holders s) (hn : Next s a s') : Holders s' := by
  cases hn with
  | spawn =>
      constructor
      · intro th hmem
        rcases List.mem_append.mp hmem with hmem | hmem
        · exact hh.sound th hmem
        · rw [List.mem_singleton.mp hmem]
          trivial
      · intro k
        have hold := hh.holders k
        simpa [State.holders, Thread.holds, Pc.held] using hold
  | moves hth hplain hplain' hsound =>
      refine hh.update hth rfl hsound (fun k => ?_)
      rw [Thread.holds, Thread.holds, Pc.held_plain hplain, Pc.held_plain hplain']
  | refused hth hplain =>
      refine hh.update hth rfl trivial (fun k => ?_)
      rw [Thread.holds, Thread.holds, Pc.held_plain hplain]
      simp [Object.owns, Pc.held]
  | @takes n idx spurious th hth hpc =>
      have hsound := hh.sound th (List.mem_of_getElem? hth)
      rw [hpc] at hsound
      obtain ⟨hidx, hfree⟩ := hsound
      refine hh.update hth rfl trivial (fun k => ?_)
      rw [Thread.holds, Thread.holds, hpc, BitVec.getLsbD_or, getLsbD_bit idx k hidx]
      by_cases hk : k = idx
      · subst hk
        simp [Pc.held, hfree]
        omega
      · simp [Pc.held, hk, Ne.symm hk]
  | @acquired n key spurious th hth hpc =>
      refine hh.update hth rfl trivial (fun k => ?_)
      rw [Thread.holds, Thread.holds, hpc, List.countP_append]
      by_cases hk : key = k
      · simp [Pc.held, Object.owns, State.bump, hk]
        omega
      · simp [Pc.held, Object.owns, State.bump, hk]
  | sets hth hidle =>
      refine hh.update hth rfl trivial (fun k => ?_)
      rw [Thread.holds, Thread.holds, hidle]
      rfl
  | stored hth hpc =>
      refine hh.update hth rfl trivial (fun k => ?_)
      rw [Thread.holds, Thread.holds, hpc]
      rfl
  | @dies _ o obj hobj hkey =>
      refine ⟨hh.sound, fun k => ?_⟩
      have hdies := countP_dies hobj k
      have hold := hh.holders k
      have hno : obj.owns k = false := by simp [Object.owns, hkey]
      rw [hno] at hdies
      rw [State.holders] at hold ⊢
      rw [← hold, ← hdies]
      rfl
  | @destroys n o key obj th hth hidle hobj hlive hkey huse =>
      refine hh.update hth rfl trivial (fun k => ?_)
      have hdies := countP_dies hobj k
      have howns : obj.owns k = decide (key = k) := by simp [Object.owns, hkey, hlive]
      rw [howns] at hdies
      rw [Thread.holds, Thread.holds, hidle]
      by_cases hk : key = k
      · simp only [Pc.held, hk, decide_true, Bool.toNat_true] at hdies ⊢
        simp
        omega
      · simp only [hk, decide_false, Bool.toNat_false] at hdies
        simp [Pc.held, hk]
        omega
  | @clears n key spurious th hth hpc =>
      refine hh.update hth rfl trivial (fun k => ?_)
      have hheld : 0 < s.holders key := by
        have : 0 < s.threads.countP (Thread.holds key) := by
          refine List.countP_pos_iff.mpr ⟨th, List.mem_of_getElem? hth, ?_⟩
          rw [Thread.holds, hpc]
          exact decide_eq_true rfl
        rw [State.holders]
        omega
      have hset : s.mask.getLsbD key = true := by
        rw [hh.holders key] at hheld
        cases hb : s.mask.getLsbD key with
        | true => rfl
        | false =>
            rw [hb] at hheld
            cases hheld
      have hkey : key < 32 := BitVec.lt_of_getLsbD hset
      rw [Thread.holds, Thread.holds, hpc, BitVec.getLsbD_and, BitVec.getLsbD_not,
        getLsbD_bit key k hkey]
      by_cases hk : k = key
      · subst hk
        simp [Pc.held, hset]
        omega
      · have hlt : s.mask.getLsbD k = true → k < 32 := BitVec.lt_of_getLsbD
        cases hb : s.mask.getLsbD k <;> simp [Pc.held, hk, Ne.symm hk, hb, hlt]
  | released hth hpc =>
      refine hh.update hth rfl trivial (fun k => ?_)
      rw [Thread.holds, Thread.holds, hpc]
      rfl

theorem Holders.of_reachable (h : (tlsMachine maxKeys).Reachable s) : Holders s := by
  refine Machine.Reachable.invariant ⟨fun _ h => absurd h List.not_mem_nil, fun k => ?_⟩
    (fun s a s' _ hh hs => hh.step (.of_step hh.sound hs)) h
  simp [tlsMachine, State.holders]

theorem State.keyOf_eq_some {o : Nat} (h : s.keyOf o = some k) :
    ∃ obj, s.objects[o]? = some obj ∧ obj.owns k = true := by
  obtain ⟨obj, hobj, hkey⟩ := Option.bind_eq_some_iff.mp h
  split at hkey
  case isTrue hlive => exact ⟨obj, hobj, decide_eq_true ⟨hlive, hkey⟩⟩
  case isFalse => cases hkey

/-- Two objects do not own one key. -/
theorem Holders.keyOf_inj {o o' : Nat} (hh : Holders s) (h : s.keyOf o = some k)
    (h' : s.keyOf o' = some k) : o = o' := by
  obtain ⟨obj, hobj, howns⟩ := State.keyOf_eq_some h
  obtain ⟨obj', hobj', howns'⟩ := State.keyOf_eq_some h'
  have hle : s.objects.countP (Object.owns k) ≤ 1 := by
    have hone := hh.holders k
    have := Bool.toNat_le (s.mask.getLsbD k)
    rw [State.holders] at hone
    omega
  exact eq_of_countP_le_one hle hobj hobj' howns howns'

/-- While a thread holds a key, no object does. -/
theorem Holders.not_owned {o : Nat} (hh : Holders s) (hth : s.threads[n]? = some th)
    (hheld : th.pc.held = some k) : s.keyOf o ≠ some k := by
  intro h
  obtain ⟨obj, hobj, howns⟩ := State.keyOf_eq_some h
  have hobjs : 0 < s.objects.countP (Object.owns k) :=
    List.countP_pos_iff.mpr ⟨obj, List.mem_of_getElem? hobj, howns⟩
  have hths : 0 < s.threads.countP (Thread.holds k) :=
    List.countP_pos_iff.mpr ⟨th, List.mem_of_getElem? hth, decide_eq_true hheld⟩
  have hone := hh.holders k
  have := Bool.toNat_le (s.mask.getLsbD k)
  rw [State.holders] at hone
  omega

end MicrOsal.ThreadLocal
