import MicrOsal.ThreadLocal.Keys

/-!
# MicrOsal.ThreadLocal.Values

Thread-local keys are isolated (`tls_isolated`): a thread reads through an object what it
last set through it.

A stored pointer is current while the generation is the one of its store, and `acquire`
counts the generation before the new owner can store anything. `release` however counts
after it has cleared the bit, so its count can come when the next owner has stored already;
the pointers stored until then are lost (`tls_value_lost`).
-/

namespace MicrOsal.ThreadLocal

variable {maxKeys : Nat} {s s' : State} {n k : Nat} {th : Thread} {a : Action}

/-! ### What is stored -/

/-- What thread `n` last set through object `o`. -/
def lastSet (log : List Event) (n o : Nat) : Option (Option Nat) :=
  (log.filterMap (fun e => if e.n = n ∧ e.o = o then some e.value else none)).getLast?

theorem lastSet_append (log : List Event) (e : Event) (n o : Nat) :
    lastSet (log ++ [e]) n o = if e.n = n ∧ e.o = o then some e.value else lastSet log n o := by
  rw [lastSet, List.filterMap_append]
  split
  case isTrue h => simp [h]
  case isFalse h => simp [h, lastSet]

/-- Calls and events name threads and objects that exist. -/
structure Known (s : State) : Prop where
  event : ∀ e ∈ s.log, e.n < s.threads.length ∧ e.o < s.objects.length
  setting : ∀ th ∈ s.threads, ∀ o value gen, th.pc = .setting o value gen → o < s.objects.length

theorem Known.lastSet_none (hk : Known s) {o : Nat}
    (h : s.threads.length ≤ n ∨ s.objects.length ≤ o) : lastSet s.log n o = none := by
  rw [lastSet, List.getLast?_eq_none_iff, List.filterMap_eq_nil_iff]
  intro e he
  obtain ⟨hn, ho⟩ := hk.event e he
  rw [if_neg]
  rintro ⟨rfl, rfl⟩
  omega

/-- What the threads have stored under key `k`. -/
structure Values (s : State) (k : Nat) : Prop where
  seen : ∀ (n : Nat) (th : Thread), s.threads[n]? = some th → th.seen k ≤ s.bumps k
  reads : ∀ (n : Nat) (th : Thread) (o : Nat), s.threads[n]? = some th → s.keyOf o = some k →
    s.get th k = (lastSet s.log n o).join
  /-- A `set` that has read the generation: it is current, or a null pointer is stored. -/
  setting : ∀ (n : Nat) (th : Thread) (o : Nat) (value : Option Nat) (gen : Nat),
    s.threads[n]? = some th → th.pc = .setting o value gen → s.keyOf o = some k →
    gen ≤ s.bumps k ∧ (gen = s.bumps k ∨ value = none)

theorem Known.update {th' : Thread} (hk : Known s) (hths : s'.threads = s.threads.set n th')
    (hobjs : s.objects.length ≤ s'.objects.length)
    (hlog : ∀ e ∈ s'.log, e ∈ s.log ∨ (e.n < s.threads.length ∧ e.o < s.objects.length))
    (hset : ∀ o value gen, th'.pc = .setting o value gen → o < s'.objects.length) : Known s' := by
  have hlen : s'.threads.length = s.threads.length := by rw [hths, List.length_set]
  constructor
  · intro e he
    obtain ⟨hn, ho⟩ := (hlog e he).elim (hk.event e) id
    exact ⟨by omega, by omega⟩
  · intro th hmem o value gen hpc
    rw [hths] at hmem
    rcases List.mem_or_eq_of_mem_set hmem with hmem | rfl
    · exact Nat.lt_of_lt_of_le (hk.setting th hmem o value gen hpc) hobjs
    · exact hset o value gen hpc

theorem State.keyOf_lt {o : Nat} (h : s.keyOf o = some k) : o < s.objects.length := by
  obtain ⟨obj, hobj, -⟩ := State.keyOf_eq_some h
  exact (List.getElem?_eq_some_iff.mp hobj).1

theorem Known.step (hk : Known s) (hn : Next s a s') : Known s' := by
  cases hn with
  | spawn =>
      constructor
      · intro e he
        obtain ⟨hn, ho⟩ := hk.event e he
        exact ⟨by simp; omega, ho⟩
      · intro th hmem o value gen hpc
        rcases List.mem_append.mp hmem with hmem | hmem
        · exact hk.setting th hmem o value gen hpc
        · rw [List.mem_singleton.mp hmem] at hpc
          cases hpc
  | moves hth hplain hplain' =>
      refine hk.update rfl (Nat.le_refl _) (fun e he => .inl he) ?_
      rintro o value gen hpc
      dsimp only at hpc
      rw [hpc] at hplain'
      cases hplain'
  | refused => exact hk.update rfl (by simp) (fun e he => .inl he) nofun
  | takes => exact hk.update rfl (Nat.le_refl _) (fun e he => .inl he) nofun
  | acquired => exact hk.update rfl (by simp) (fun e he => .inl he) nofun
  | sets hth hidle hkey =>
      refine hk.update rfl (Nat.le_refl _) (fun e he => .inl he) ?_
      rintro o value gen ⟨⟩
      exact State.keyOf_lt hkey
  | stored hth hpc hkey =>
      refine hk.update rfl (Nat.le_refl _) (fun e he => ?_) nofun
      rcases List.mem_append.mp he with he | he
      · exact .inl he
      · rw [List.mem_singleton.mp he]
        exact .inr ⟨(List.getElem?_eq_some_iff.mp hth).1, State.keyOf_lt hkey⟩
  | dies =>
      refine ⟨fun e he => ?_, fun th hmem o value gen hpc => ?_⟩
      · simpa using hk.event e he
      · simpa using hk.setting th hmem o value gen hpc
  | destroys => exact hk.update rfl (by simp) (fun e he => .inl he) nofun
  | clears => exact hk.update rfl (Nat.le_refl _) (fun e he => .inl he) nofun
  | released => exact hk.update rfl (Nat.le_refl _) (fun e he => .inl he) nofun

/-- The generation of the key stays, and so do the pointers. -/
theorem Values.update {th' : Thread} (hv : Values s k) (hth : s.threads[n]? = some th)
    (hths : s'.threads = s.threads.set n th') (hbumps : s'.bumps k = s.bumps k)
    (hkeys : ∀ o, s'.keyOf o = some k → s.keyOf o = some k)
    (hlog : ∀ m o, s.keyOf o = some k → lastSet s'.log m o = lastSet s.log m o)
    (hvalues : th'.values k = th.values k) (hseen : th'.seen k = th.seen k)
    (hset : ∀ o value gen, th'.pc = .setting o value gen → s.keyOf o = some k →
      gen = s.bumps k) : Values s' k := by
  have hgen : s'.generation k = s.generation k := by
    rw [State.generation, State.generation, hbumps]
  constructor
  · intro m th₁ hm
    rw [hths] at hm
    rw [hbumps]
    rcases getElem?_set_cases hm with ⟨-, rfl⟩ | ⟨-, hm⟩
    · rw [hseen]
      exact hv.seen n th hth
    · exact hv.seen m th₁ hm
  · intro m th₁ o hm ho
    have ho' := hkeys o ho
    rw [hths] at hm
    rw [hlog m o ho', State.get, hgen]
    rcases getElem?_set_cases hm with ⟨rfl, rfl⟩ | ⟨-, hm⟩
    · rw [hseen, hvalues]
      exact hv.reads m th o hth ho'
    · exact hv.reads m th₁ o hm ho'
  · intro m th₁ o value gen hm hpc ho
    have ho' := hkeys o ho
    rw [hths] at hm
    rw [hbumps]
    rcases getElem?_set_cases hm with ⟨-, rfl⟩ | ⟨-, hm⟩
    · have := hset o value gen hpc ho'
      exact ⟨by omega, .inl this⟩
    · exact hv.setting m th₁ o value gen hm hpc ho'

/-- The generation of the key is counted, when nothing of its owner is stored. -/
theorem Values.bumped {th' : Thread} (hv : Values s k) (hths : s'.threads = s.threads.set n th')
    (hth : s.threads[n]? = some th) (hbumps : s'.bumps k = s.bumps k + 1)
    (hlt : s'.bumps k < generationModulus) (hseen : th'.seen = th.seen)
    (hnull : ∀ (m : Nat) (th₁ : Thread) (o : Nat), s.threads[m]? = some th₁ →
      s'.keyOf o = some k → (lastSet s'.log m o).join = none)
    (hset : ∀ (m : Nat) (th₁ : Thread) (o : Nat) (value : Option Nat) (gen : Nat),
      s'.threads[m]? = some th₁ → th₁.pc = .setting o value gen → s'.keyOf o = some k →
      gen ≤ s.bumps k ∧ value = none) : Values s' k := by
  have hle : ∀ (m : Nat) (th₁ : Thread), s'.threads[m]? = some th₁ → th₁.seen k ≤ s.bumps k := by
    intro m th₁ hm
    rw [hths] at hm
    rcases getElem?_set_cases hm with ⟨-, rfl⟩ | ⟨-, hm⟩
    · rw [hseen]
      exact hv.seen n th hth
    · exact hv.seen m th₁ hm
  constructor
  · intro m th₁ hm
    have := hle m th₁ hm
    omega
  · intro m th₁ o hm ho
    have hold : ∃ th₂, s.threads[m]? = some th₂ := by
      rw [hths] at hm
      rcases getElem?_set_cases hm with ⟨rfl, -⟩ | ⟨-, hm⟩
      · exact ⟨th, hth⟩
      · exact ⟨th₁, hm⟩
    obtain ⟨th₂, hm₂⟩ := hold
    have hne : th₁.seen k ≠ s'.generation k := by
      have := hle m th₁ hm
      rw [State.generation, Nat.mod_eq_of_lt hlt]
      omega
    rw [hnull m th₂ o hm₂ ho, State.get, if_neg hne]
  · intro m th₁ o value gen hm hpc ho
    obtain ⟨hgen, hvalue⟩ := hset m th₁ o value gen hm hpc ho
    exact ⟨by omega, .inr hvalue⟩

/-! ### Steps -/

/-- The thread is about to store a pointer under the current generation of `key`. -/
def State.stores (s : State) (key : Nat) (th : Thread) : Bool :=
  match th.pc with
  | .setting o (some _) gen => s.keyOf o = some key ∧ gen = s.generation key
  | _ => false

/-- A `release` counts the generation of a key that has a new owner already, and a thread
has a pointer of that owner or is about to store one. -/
def State.disturbs (s : State) : Action → Bool
  | .advance n _ =>
      match (s.threads[n]?).map Thread.pc with
      | some (.released key) => s.objects.any (Object.owns key) ∧
          s.threads.any (fun th => (s.get th key).isSome || s.stores key th)
      | _ => false
  | _ => false

theorem State.keyOf_concat {o : Nat} {obj : Object} (hobjs : s'.objects = s.objects ++ [obj])
    (h : s'.keyOf o = some k) : s.keyOf o = some k ∨ (o = s.objects.length ∧ obj.key = some k) := by
  rw [State.keyOf, hobjs] at h
  obtain ⟨obj', hobj, hkey⟩ := Option.bind_eq_some_iff.mp h
  rcases getElem?_concat_cases hobj with hobj | ⟨rfl, rfl⟩
  · exact .inl (Option.bind_eq_some_iff.mpr ⟨obj', hobj, hkey⟩)
  · split at hkey
    case isTrue => exact .inr ⟨rfl, hkey⟩
    case isFalse => cases hkey

/-- Objects die, and no key gets an owner. -/
theorem State.keyOf_dies {o o' : Nat} {obj : Object}
    (hobjs : s'.objects = s.objects.set o' { obj with live := false }) (h : s'.keyOf o = some k) :
    s.keyOf o = some k := by
  rw [State.keyOf, hobjs] at h
  obtain ⟨obj', hobj, hkey⟩ := Option.bind_eq_some_iff.mp h
  rcases getElem?_set_cases hobj with ⟨-, rfl⟩ | ⟨-, hobj⟩
  · cases hkey
  · exact Option.bind_eq_some_iff.mpr ⟨obj', hobj, hkey⟩

theorem State.bump_ne {key : Nat} (hne : k ≠ key) : (s.bump key).bumps k = s.bumps k :=
  Function.update_of_ne hne _ _

theorem State.bump_self : (s.bump k).bumps k = s.bumps k + 1 := Function.update_self ..

/-- A pointer is stored. -/
theorem Values.stored {th' : Thread} {o key gen : Nat} {value : Option Nat} (hv : Values s k)
    (hinj : ∀ o', s.keyOf o' = some key → o' = o) (hlt : s.bumps k < generationModulus)
    (hth : s.threads[n]? = some th) (hpc : th.pc = .setting o value gen)
    (hkey : s.keyOf o = some key)
    (hths : s'.threads = s.threads.set n th') (hpc' : th'.pc = .idle)
    (hvalues : th'.values = Function.update th.values key value)
    (hseen : th'.seen = Function.update th.seen key gen) (hbumps : s'.bumps = s.bumps)
    (hobjs : s'.objects = s.objects) (hlog : s'.log = s.log ++ [⟨n, o, value⟩]) : Values s' k := by
  have hkeyOf : ∀ o', s'.keyOf o' = s.keyOf o' := by
    intro o'
    rw [State.keyOf, State.keyOf, hobjs]
  by_cases hk : k = key
  · subst hk
    obtain ⟨hle, hcur⟩ := hv.setting n th o value gen hth hpc hkey
    have hgen : s'.generation k = s.bumps k := by
      rw [State.generation, hbumps, Nat.mod_eq_of_lt hlt]
    have hself : th'.seen k = gen := by rw [hseen, Function.update_self]
    constructor
    · intro m th₁ hm
      rw [hths] at hm
      rw [hbumps]
      rcases getElem?_set_cases hm with ⟨-, rfl⟩ | ⟨-, hm⟩
      · rwa [hself]
      · exact hv.seen m th₁ hm
    · intro m th₁ o' hm ho
      rw [hkeyOf] at ho
      obtain rfl := hinj o' ho
      rw [hths] at hm
      rw [hlog, lastSet_append]
      rcases getElem?_set_cases hm with ⟨rfl, rfl⟩ | ⟨hne, hm⟩
      · rw [if_pos ⟨rfl, rfl⟩, State.get, hgen, hself, hvalues, Function.update_self]
        rcases hcur with hcur | hcur
        · rw [if_pos hcur]
          rfl
        · rw [hcur, ite_self]
          rfl
      · rw [if_neg (fun h => hne h.1.symm), ← hv.reads m th₁ o' hm ho, State.get, State.get,
          hgen, State.generation, Nat.mod_eq_of_lt hlt]
    · intro m th₁ o' value' gen' hm hpc₁ ho
      rw [hkeyOf] at ho
      rw [hths] at hm
      rw [hbumps]
      rcases getElem?_set_cases hm with ⟨-, rfl⟩ | ⟨-, hm⟩
      · rw [hpc'] at hpc₁
        cases hpc₁
      · exact hv.setting m th₁ o' value' gen' hm hpc₁ ho
  · refine hv.update hth hths (by rw [hbumps]) (fun o' ho => by rwa [hkeyOf] at ho) ?_
      (by rw [hvalues, Function.update_of_ne hk]) (by rw [hseen, Function.update_of_ne hk]) ?_
    · intro m o' ho
      rw [hlog, lastSet_append, if_neg]
      rintro ⟨-, rfl⟩
      rw [hkey] at ho
      exact hk (Option.some.inj ho).symm
    · intro o' value' gen' hp
      rw [hpc'] at hp
      cases hp

theorem Values.spawn (hv : Values s k) (hk : Known s)
    (hths : s'.threads = s.threads ++ [⟨.idle, fun _ => none, fun _ => 0⟩])
    (hbumps : s'.bumps = s.bumps) (hobjs : s'.objects = s.objects) (hlog : s'.log = s.log) :
    Values s' k := by
  have hkeyOf : ∀ o, s'.keyOf o = s.keyOf o := by
    intro o
    rw [State.keyOf, State.keyOf, hobjs]
  have hget : ∀ th, s'.get th k = s.get th k := by
    intro th
    rw [State.get, State.get, State.generation, State.generation, hbumps]
  constructor
  · intro m th hm
    rw [hths] at hm
    rw [hbumps]
    rcases getElem?_concat_cases hm with hm | ⟨-, rfl⟩
    · exact hv.seen m th hm
    · exact Nat.zero_le _
  · intro m th o hm ho
    rw [hths] at hm
    rw [hkeyOf] at ho
    rw [hget, hlog]
    rcases getElem?_concat_cases hm with hm | ⟨rfl, rfl⟩
    · exact hv.reads m th o hm ho
    · rw [hk.lastSet_none (.inl (Nat.le_refl _)), State.get, ite_self]
      rfl
  · intro m th o value gen hm hpc ho
    rw [hths] at hm
    rw [hkeyOf] at ho
    rw [hbumps]
    rcases getElem?_concat_cases hm with hm | ⟨-, rfl⟩
    · exact hv.setting m th o value gen hm hpc ho
    · cases hpc

/-- `acquire` counts the generation of its key: there is no other owner, and the new one has
stored nothing. -/
theorem Values.acquired {th' : Thread} {key : Nat} (hv : Values s k) (hh : Holders s)
    (hk : Known s) (hth : s.threads[n]? = some th) (hpc : th.pc = .acquired key)
    (hths : s'.threads = s.threads.set n th') (hpc' : th'.pc = .idle)
    (hvalues : th'.values = th.values) (hseen : th'.seen = th.seen)
    (hbumps : s'.bumps = (s.bump key).bumps) (hobjs : s'.objects = s.objects ++ [⟨some key, true⟩])
    (hlog : s'.log = s.log) (hlt : s'.bumps k < generationModulus) : Values s' k := by
  by_cases hkk : k = key
  · subst hkk
    have hnew : ∀ o, s'.keyOf o = some k → o = s.objects.length := by
      intro o ho
      rcases State.keyOf_concat hobjs ho with ho | ⟨ho, -⟩
      · exact absurd ho (hh.not_owned hth (by rw [hpc]; rfl))
      · exact ho
    refine hv.bumped hths hth (by rw [hbumps]; exact State.bump_self) hlt hseen ?_ ?_
    · intro m th₁ o hm ho
      rw [hlog, hk.lastSet_none (.inr (Nat.le_of_eq (hnew o ho).symm))]
      rfl
    · intro m th₁ o value gen hm hpc₁ ho
      rw [hths] at hm
      rcases getElem?_set_cases hm with ⟨-, rfl⟩ | ⟨-, hm⟩
      · rw [hpc'] at hpc₁
        cases hpc₁
      · have := hk.setting th₁ (List.mem_of_getElem? hm) o value gen hpc₁
        have := hnew o ho
        omega
  · refine hv.update hth hths (by rw [hbumps]; exact State.bump_ne hkk) (fun o ho => ?_)
      (fun _ _ _ => by rw [hlog]) (by rw [hvalues]) (by rw [hseen]) ?_
    · rcases State.keyOf_concat hobjs ho with ho | ⟨-, ho⟩
      · exact ho
      · exact absurd (Option.some.inj ho).symm hkk
    · intro o value gen hp
      rw [hpc'] at hp
      cases hp

/-- `release` counts the generation of its key. -/
theorem Values.released {spurious : Bool} {key : Nat} (hv : Values s k)
    (hth : s.threads[n]? = some th) (hpc : th.pc = .released key)
    (hlt : (s.bump key).bumps k < generationModulus)
    (hok : s.disturbs (.advance n spurious) = false) :
    Values { s.bump key with threads := s.threads.set n { th with pc := .idle } } k := by
  by_cases hkk : k = key
  · subst hkk
    -- The new owner, if there is one, has stored nothing.
    have hquiet : ∀ o, s.keyOf o = some k → ∀ th₁ ∈ s.threads,
        s.get th₁ k = none ∧ s.stores k th₁ = false := by
      intro o ho th₁ hmem
      obtain ⟨obj, hobj, howns⟩ := State.keyOf_eq_some ho
      have hany : s.objects.any (Object.owns k) = true :=
        List.any_eq_true.mpr ⟨obj, List.mem_of_getElem? hobj, howns⟩
      simp only [State.disturbs, hth, Option.map_some, hpc, hany, true_and,
        decide_eq_false_iff_not, Bool.not_eq_true] at hok
      have := List.any_eq_false.mp hok th₁ hmem
      simpa using this
    refine hv.bumped rfl hth State.bump_self hlt rfl ?_ ?_
    · intro m th₁ o hm ho
      have hget := (hquiet o ho th₁ (List.mem_of_getElem? hm)).1
      rw [hv.reads m th₁ o hm ho] at hget
      exact hget
    · intro m th₁ o value gen hm hpc₁ ho
      rcases getElem?_set_cases hm with ⟨-, rfl⟩ | ⟨-, hm⟩
      · cases hpc₁
      · obtain ⟨hle, hcur⟩ := hv.setting m th₁ o value gen hm hpc₁ ho
        refine ⟨hle, ?_⟩
        cases value with
        | none => rfl
        | some v =>
            have hgen : gen = s.generation k := by
              rw [State.bump_self] at hlt
              rw [State.generation, Nat.mod_eq_of_lt (by omega)]
              exact hcur.resolve_right nofun
            have hstores : s.stores k th₁ = true := by
              rw [State.stores, hpc₁]
              exact decide_eq_true ⟨ho, hgen⟩
            rw [(hquiet o ho th₁ (List.mem_of_getElem? hm)).2] at hstores
            cases hstores
  · refine hv.update hth rfl (State.bump_ne hkk) (fun _ h => h) (fun _ _ _ => rfl) rfl rfl nofun

theorem Values.step (hv : Values s k) (hh : Holders s) (hk : Known s) (hn : Next s a s')
    (hlt : s'.bumps k < generationModulus) (hok : s.disturbs a = false) : Values s' k := by
  cases hn with
  | spawn => exact hv.spawn hk rfl rfl rfl rfl
  | moves hth hplain hplain' =>
      refine hv.update hth rfl rfl (fun _ h => h) (fun _ _ _ => rfl) rfl rfl ?_
      intro o value gen hpc
      dsimp only at hpc
      rw [hpc] at hplain'
      cases hplain'
  | refused hth hplain =>
      refine hv.update hth rfl rfl (fun o ho => ?_) (fun _ _ _ => rfl) rfl rfl nofun
      rcases State.keyOf_concat rfl ho with ho | ⟨-, ho⟩
      · exact ho
      · cases ho
  | takes hth hpc => exact hv.update hth rfl rfl (fun _ h => h) (fun _ _ _ => rfl) rfl rfl nofun
  | acquired hth hpc => exact hv.acquired hh hk hth hpc rfl rfl rfl rfl rfl rfl rfl hlt
  | @sets n o key value th hth hidle hkey =>
      refine hv.update hth rfl rfl (fun _ h => h) (fun _ _ _ => rfl) rfl rfl ?_
      rintro o value gen ⟨⟩ ho
      rw [hkey] at ho
      cases ho
      rw [State.generation, Nat.mod_eq_of_lt hlt]
  | stored hth hpc hkey =>
      exact hv.stored (fun o' ho => hh.keyOf_inj ho hkey) hlt hth hpc hkey rfl rfl rfl rfl rfl rfl
        rfl
  | dies hobj hkey =>
      refine ⟨hv.seen, fun m th o hm ho => hv.reads m th o hm (State.keyOf_dies rfl ho), ?_⟩
      exact fun m th o value gen hm hpc ho =>
        hv.setting m th o value gen hm hpc (State.keyOf_dies rfl ho)
  | destroys hth =>
      exact hv.update hth rfl rfl (fun o ho => State.keyOf_dies rfl ho) (fun _ _ _ => rfl) rfl rfl
        nofun
  | clears hth => exact hv.update hth rfl rfl (fun _ h => h) (fun _ _ _ => rfl) rfl rfl nofun
  | released hth hpc => exact hv.released hth hpc hlt hok

theorem Known.of_reachable (h : (tlsMachine maxKeys).Reachable s) : Known s := by
  refine Machine.Reachable.invariant
    ⟨fun _ h => absurd h List.not_mem_nil, fun _ h => absurd h List.not_mem_nil⟩
    (fun s a s' hr hk hs => hk.step (.of_step (Holders.of_reachable hr).sound hs)) h

theorem State.bumps_mono (hn : Next s a s') (k : Nat) : s.bumps k ≤ s'.bumps k := by
  have hbump : ∀ key, s.bumps k ≤ (s.bump key).bumps k := by
    intro key
    by_cases hk : k = key
    · subst hk
      rw [State.bump_self]
      exact Nat.le_succ _
    · exact Nat.le_of_eq (State.bump_ne hk).symm
  cases hn with
  | acquired | released => exact hbump _
  | spawn | moves | refused | takes | sets | stored | dies | destroys | clears =>
      exact Nat.le_refl _

theorem Values.of_reachable
    (h : (tlsMachine maxKeys).ReachableBy (fun s a => s.disturbs a = false) s)
    (hlt : s.bumps k < generationModulus) : Values s k := by
  refine Machine.ReachableBy.invariant
    (I := fun s => s.bumps k < generationModulus → Values s k) ?_ ?_ h hlt
  · intro _
    constructor
    · intro n th hth
      cases hth
    · intro n th o hth
      cases hth
    · intro n th o value gen hth
      cases hth
  · intro s a s' hr hv hok hs hlt
    have hh := Holders.of_reachable hr.reachable
    have hn := Next.of_step hh.sound hs
    have := State.bumps_mono hn k
    exact (hv (by omega)).step hh (Known.of_reachable hr.reachable) hn hlt hok

/-! ### Isolation -/

/-- What the users of thread-local data can rely on. -/
structure Isolated (s : State) : Prop where
  /-- Live objects have different keys. -/
  distinct : ∀ o o' key, s.keyOf o = some key → s.keyOf o' = some key → o = o'
  /-- A thread gets what it last set through the object, and null if it set nothing, while the
  generation of the key has not come round. -/
  reads : ∀ (n : Nat) (th : Thread) (o key : Nat), s.threads[n]? = some th →
    s.keyOf o = some key → s.bumps key < generationModulus →
    s.get th key = (lastSet s.log n o).join

/-- Keys are isolated as long as no `release` counts the generation of a key whose next owner
has stored something. -/
theorem tls_isolated (maxKeys : Nat) (s : State)
    (h : (tlsMachine maxKeys).ReachableBy (fun s a => s.disturbs a = false) s) : Isolated s where
  distinct := fun _ _ _ ho ho' => (Holders.of_reachable h.reachable).keyOf_inj ho ho'
  reads := fun n th o _ hth ho hlt => (Values.of_reachable h hlt).reads n th o hth ho

/-- An object is destroyed, and another one gets its key. -/
def keyReused : List Action :=
  [.spawn, .construct 0, .advance 0 false, .advance 0 false, .advance 0 false, .set 0 0 (some 7),
    .advance 0 false, .destroy 0 0, .advance 0 false, .advance 0 false, .construct 0,
    .advance 0 false, .advance 0 false, .advance 0 false]

/-- What was set through the first is not read through the second. -/
theorem tls_isolated_reused :
    ∃ s th, (tlsMachine 16).run (tlsMachine 16).init keyReused = some s ∧ Isolated s ∧
      s.threads[0]? = some th ∧ s.keyOf 1 = some 0 ∧ th.values 0 = some 7 ∧ s.get th 0 = none := by
  have hguard : (tlsMachine 16).RunOk (fun s a => s.disturbs a = false) (tlsMachine 16).init
      keyReused := by
    decide +kernel
  have hview : ((tlsMachine 16).run (tlsMachine 16).init keyReused).map
      (fun s => (s.keyOf 1, (s.threads[0]?).map (fun th => (th.values 0, s.get th 0)))) =
      some (some 0, some (some 7, none)) := by
    decide +kernel
  obtain ⟨s, hrun, hs⟩ := Option.map_eq_some_iff.mp hview
  obtain ⟨hkey, hs⟩ := Prod.mk.inj hs
  obtain ⟨th, hth, hs⟩ := Option.map_eq_some_iff.mp hs
  obtain ⟨hvalue, hget⟩ := Prod.mk.inj hs
  exact ⟨s, th, hrun, tls_isolated 16 s (.of_run .init hguard hrun), hth, hkey, hvalue, hget⟩

/-- Thread 0 is destroying an object and has cleared the bit; thread 1 constructs another
one, which gets the key, and sets a pointer; then thread 0 counts the generation. -/
def lateRelease : List Action :=
  [.spawn, .spawn, .construct 0, .advance 0 false, .advance 0 false, .advance 0 false,
    .destroy 0 0, .advance 0 false, .construct 1, .advance 1 false, .advance 1 false,
    .advance 1 false, .set 1 1 (some 7), .advance 1 false, .advance 0 false]

/-- The pointer is lost. -/
theorem tls_value_lost :
    ¬ ∀ (maxKeys : Nat) (s : State), (tlsMachine maxKeys).Reachable s → Isolated s := by
  intro hall
  have hview : ((tlsMachine 16).run (tlsMachine 16).init lateRelease).map
      (fun s => (s.keyOf 1, s.bumps 0, lastSet s.log 1 1,
        (s.threads[1]?).map (fun th => s.get th 0))) =
      some (some 0, 3, some (some 7), some none) := by
    decide +kernel
  obtain ⟨s, hrun, hs⟩ := Option.map_eq_some_iff.mp hview
  obtain ⟨hkey, hs⟩ := Prod.mk.inj hs
  obtain ⟨hbumps, hs⟩ := Prod.mk.inj hs
  obtain ⟨hlast, hs⟩ := Prod.mk.inj hs
  obtain ⟨th, hth, hget⟩ := Option.map_eq_some_iff.mp hs
  have hreads := (hall 16 s (.of_run hrun)).reads 1 th 1 0 hth hkey (by rw [hbumps]; decide)
  rw [hget, hlast] at hreads
  cases hreads

end MicrOsal.ThreadLocal
