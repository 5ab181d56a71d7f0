import MicrOsal.Creation.Model
import Mathlib.Data.List.Perm.Basic
import Mathlib.Data.List.Nodup

/-!
# MicrOsal.Creation.Unwind

What a create function leaves behind: after a failure nothing, after a success the parts of
the primitive in one slot of the pool. The stream and message buffers are the exception: when
only the first of their two semaphores cannot be created, the second stays (`Request.leaks`).
-/

namespace MicrOsal.Creation

variable {w w' : World} {slot : Nat} {made gone : List Part} {p : Part} {ok : Part → Bool}

/-- A failed creation. What it has created it has destroyed, each object once; the slot is
free again and not in the handle. -/
structure Failed (w w' : World) : Prop where
  used : w'.used = w.used
  native : w'.native = w.native ∨ w'.native = none
  events : ∃ (slot : Nat) (made gone : List Part), made.Nodup ∧ gone.Perm made ∧
    w'.events = w.events ++ made.map (.created slot) ++ gone.map (.destroyed slot)

/-- A creation that succeeded. It has taken one slot and created all parts, each once. -/
def Succeeded (parts : List Part) (w w' : World) : Prop :=
  ∃ slot, w.used[slot]? = some false ∧ w'.used = w.used.set slot true ∧
    w'.native = some slot ∧ parts.Nodup ∧ w'.events = w.events ++ parts.map (.created slot)

/-- The promise of a create function, for what it returned. -/
structure CreateOk (r : Request) (w : World) (result : ErrorCode × World) : Prop where
  failed : result.1 ≠ .ok → Failed w result.2
  succeeded : result.1 = .ok → Succeeded r.parts w result.2

/-! ### On the way -/

/-- A create function that holds `slot` has created `made`, and destroyed `gone` since. -/
structure Stage (w : World) (slot : Nat) (made gone : List Part) (w' : World) : Prop where
  free : w.used[slot]? = some false
  used : w'.used = w.used.set slot true
  native : w'.native = w.native
  events : w'.events = w.events ++ made.map (.created slot) ++ gone.map (.destroyed slot)

theorem getElem?_of_freeSlot (h : w.freeSlot = some slot) : w.used[slot]? = some false := by
  obtain ⟨hlt, hfree, -⟩ := List.findIdx?_eq_some_iff_getElem.mp h
  rw [List.getElem?_eq_getElem hlt]
  simpa using hfree

namespace Stage

theorem acquire (h : w.freeSlot = some slot) : Stage w slot [] [] (w.acquire slot) where
  free := getElem?_of_freeSlot h
  used := rfl
  native := rfl
  events := by simp [World.acquire]

theorem create (h : Stage w slot made [] w') (p : Part) :
    Stage w slot (made ++ [p]) [] (w'.create slot p) where
  free := h.free
  used := h.used
  native := h.native
  events := by simp [World.create, h.events]

theorem destroy (h : Stage w slot made gone w') (p : Part) :
    Stage w slot made (gone ++ [p]) (w'.destroy slot p) where
  free := h.free
  used := h.used
  native := h.native
  events := by simp [World.destroy, h.events]

theorem used_release (h : Stage w slot made gone w') : (w'.release slot).used = w.used := by
  obtain ⟨hlt, hfree⟩ := List.getElem?_eq_some_iff.mp h.free
  calc (w'.release slot).used
      = (w.used.set slot true).set slot false := by rw [World.release, h.used]
    _ = w.used.set slot false := List.set_set ..
    _ = w.used := by rw [← hfree, List.set_getElem_self]

/-- Everything is destroyed, and the slot is given back. -/
theorem failed (h : Stage w slot made gone w') (hnodup : made.Nodup) (hperm : gone.Perm made) :
    Failed w (w'.release slot) where
  used := h.used_release
  native := .inl h.native
  events := ⟨slot, made, gone, hnodup, hperm, h.events⟩

theorem succeeded (h : Stage w slot made [] w') (hnodup : made.Nodup) :
    Succeeded made w (w'.setNative (some slot)) := by
  refine ⟨slot, h.free, h.used, rfl, hnodup, ?_⟩
  have hevents := h.events
  rw [List.map_nil, List.append_nil] at hevents
  exact hevents

end Stage

theorem Failed.refl (w : World) : Failed w w :=
  ⟨rfl, .inl rfl, 0, [], [], List.nodup_nil, .nil, by simp⟩

/-- A failure that also clears the handle. -/
theorem Failed.setNative (h : Failed w w') : Failed w (w'.setNative none) :=
  ⟨h.used, .inr rfl, h.events⟩

namespace CreateOk

variable {r : Request}

theorem of_failed {code : ErrorCode} (hcode : code ≠ .ok) (h : Failed w w') :
    CreateOk r w (code, w') :=
  ⟨fun _ => h, fun heq => absurd heq hcode⟩

theorem of_succeeded (h : Succeeded r.parts w w') : CreateOk r w (.ok, w') :=
  ⟨fun hne => absurd rfl hne, fun _ => h⟩

end CreateOk

/-! ### The loops over the waiters -/

/-- The guard and the semaphores of the waiters below `n`. -/
def waiterParts (n : Nat) : List Part := .guard :: (List.range n).map .waiter

theorem nodup_waiterParts (n : Nat) : (waiterParts n).Nodup := by
  refine List.nodup_cons.mpr ⟨by simp, ?_⟩
  exact List.nodup_range.map (fun i j h => Part.waiter.inj h)

theorem Stage.createWaiters {left i : Nat} {w₁ : World} {failed : Option Nat}
    (h : Stage w slot (waiterParts i) [] w₁)
    (heq : w₁.createWaiters ok slot left i = (failed, w')) :
    Stage w slot (waiterParts (failed.getD (i + left))) [] w' := by
  induction left generalizing i w₁ with
  | zero =>
      obtain ⟨rfl, rfl⟩ := Prod.mk.inj heq
      exact h
  | succ left ih =>
      rw [World.createWaiters] at heq
      split at heq
      · have hnext := h.create (.waiter i)
        rw [waiterParts, List.cons_append, ← List.map_singleton, ← List.map_append,
          ← List.range_succ] at hnext
        rw [show i + (left + 1) = i + 1 + left by omega]
        exact ih hnext heq
      · obtain ⟨rfl, rfl⟩ := Prod.mk.inj heq
        exact h

theorem Stage.destroyWaiters (h : Stage w slot made gone w') (n : Nat) :
    Stage w slot made (gone ++ (List.range n).map .waiter) (w'.destroyWaiters slot n) := by
  induction n with
  | zero => simpa [World.destroyWaiters] using h
  | succ n ih =>
      have hnext := ih.destroy (.waiter n)
      rw [List.append_assoc, ← List.map_singleton, ← List.map_append] at hnext
      rw [World.destroyWaiters, List.range_succ, List.foldl_concat]
      exact hnext

theorem createWithWaiters_ok {r : Request} {maxWaiters : Nat}
    (hparts : r.parts = waiterParts maxWaiters) (handle : Bool) :
    CreateOk r w (createWithWaiters ok w handle maxWaiters) := by
  rw [createWithWaiters]
  split
  · exact .of_failed nofun (.refl w)
  split
  · exact .of_failed nofun (.refl w)
  case h_2 slot hfree =>
  have hslot := Stage.acquire hfree
  dsimp only
  split
  · exact .of_failed nofun (hslot.failed List.nodup_nil .nil)
  have hguard : Stage w slot (waiterParts 0) [] ((w.acquire slot).create slot .guard) :=
    hslot.create .guard
  split
  case h_1 i w' heq =>
    have hall := ((hguard.createWaiters heq).destroyWaiters i).destroy .guard
    refine .of_failed nofun (hall.failed (nodup_waiterParts i) ?_)
    exact List.perm_append_singleton _ _
  case h_2 w' heq =>
    have hall := hguard.createWaiters heq
    rw [Option.getD_none, Nat.zero_add, ← hparts] at hall
    exact .of_succeeded (hall.succeeded (hparts ▸ nodup_waiterParts maxWaiters))

/-! ### The other primitives -/

theorem workQueueCreate_ok (ok : Part → Bool) (w : World) (handle : Bool) (maxDepth depth : Nat) :
    CreateOk (.workQueue handle maxDepth depth) w (workQueueCreate ok w handle maxDepth depth) := by
  rw [workQueueCreate]
  split
  · exact .of_failed nofun (.refl w)
  split
  · exact .of_failed nofun (.refl w)
  case h_2 slot hfree =>
  have hslot := Stage.acquire hfree
  have hmtx := hslot.create .mtx
  have hsem := hmtx.create .notEmpty
  have hcv := hsem.create .flushCv
  dsimp only
  split
  · exact .of_failed nofun (hslot.failed List.nodup_nil .nil)
  split
  · exact .of_failed nofun (hslot.failed List.nodup_nil .nil)
  split
  · exact .of_failed nofun ((hmtx.destroy .mtx).failed (by decide) (by decide))
  split
  · exact .of_failed nofun (((hsem.destroy .notEmpty).destroy .mtx).failed (by decide) (by decide))
  split
  · exact .of_failed nofun
      ((((hcv.destroy .flushCv).destroy .notEmpty).destroy .mtx).failed (by decide) (by decide))
  · exact .of_succeeded ((hcv.create .worker).succeeded (by decide))

theorem memoryPoolCreate_ok (ok : Part → Bool) (w : World) (handle buffer : Bool)
    (maxWords bufBytes blockSize blockCount : Nat) :
    CreateOk (.memoryPool handle buffer maxWords bufBytes blockSize blockCount) w
      (memoryPoolCreate ok w handle buffer maxWords bufBytes blockSize blockCount) := by
  rw [memoryPoolCreate]
  split
  · exact .of_failed nofun (.refl w)
  split
  · exact .of_failed nofun (.refl w)
  split
  · exact .of_failed nofun (.refl w)
  case h_2 slot hfree =>
  have hslot := Stage.acquire hfree
  have hguard := hslot.create .guard
  dsimp only
  split
  · exact .of_failed nofun (hslot.failed List.nodup_nil .nil)
  split
  · exact .of_failed nofun (hslot.failed List.nodup_nil .nil)
  split
  · exact .of_failed nofun ((hguard.destroy .guard).failed (by decide) (by decide))
  · exact .of_succeeded ((hguard.create .sem).succeeded (by decide))

theorem rwlockCreate_ok (ok : Part → Bool) (w : World) (handle : Bool) :
    CreateOk (.rwlock handle) w (rwlockCreate ok w handle) := by
  rw [rwlockCreate]
  split
  · exact .of_failed nofun (.refl w)
  split
  · exact .of_failed nofun (.refl w)
  case h_2 slot hfree =>
  have hslot := Stage.acquire hfree
  have hguard := hslot.create .guard
  dsimp only
  split
  · exact .of_failed nofun (hslot.failed List.nodup_nil .nil)
  split
  · exact .of_failed nofun ((hguard.destroy .guard).failed (by decide) (by decide))
  · exact .of_succeeded ((hguard.create .cv).succeeded (by decide))

theorem barrierCreate_ok (ok : Part → Bool) (w : World) (handle : Bool) (count : Nat) :
    CreateOk (.barrier handle count) w (barrierCreate ok w handle count) := by
  rw [barrierCreate]
  split
  · split
    · exact .of_failed nofun (Failed.refl w).setNative
    · exact .of_failed nofun (.refl w)
  split
  · exact .of_failed nofun (Failed.refl w).setNative
  case h_2 slot hfree =>
  have hslot := Stage.acquire hfree
  have hguard := hslot.create .guard
  dsimp only
  split
  · exact .of_failed nofun (hslot.failed List.nodup_nil .nil).setNative
  split
  · exact .of_failed nofun ((hguard.destroy .guard).failed (by decide) (by decide)).setNative
  · exact .of_succeeded ((hguard.create .cv).succeeded (by decide))

/-! ### The buffers -/

/-- Only the first of the two semaphores cannot be created. -/
def missesFirst (ok : Part → Bool) : Bool := ! ok .dataSem && ok .spaceSem

theorem createWithSemaphores_ok {r : Request} (hparts : r.parts = [.dataSem, .spaceSem])
    (h : w.freeSlot = some slot) (hok : missesFirst ok = false) :
    CreateOk r w (createWithSemaphores ok slot (w.acquire slot)) := by
  have hslot := Stage.acquire h
  have hdata := hslot.create .dataSem
  rw [createWithSemaphores]
  cases hd : ok .dataSem with
  | false =>
      have hs : ok .spaceSem = false := by simpa [missesFirst, hd] using hok
      rw [hs]
      exact .of_failed nofun (hslot.failed List.nodup_nil .nil)
  | true =>
      cases hs : ok .spaceSem with
      | false => exact .of_failed nofun ((hdata.destroy .dataSem).failed (by decide) (by decide))
      | true =>
          have hall : Succeeded [.dataSem, .spaceSem] w _ :=
            (hdata.create .spaceSem).succeeded (by decide)
          exact .of_succeeded (hparts ▸ hall)

/-- The second semaphore is created, and stays. -/
theorem createWithSemaphores_leaks {r : Request} (hok : missesFirst ok = true) :
    ¬ CreateOk r w (createWithSemaphores ok slot (w.acquire slot)) := by
  obtain ⟨hd, hs⟩ : ok .dataSem = false ∧ ok .spaceSem = true := by
    simpa [missesFirst] using hok
  intro hcreate
  have hresult : createWithSemaphores ok slot (w.acquire slot) =
      (.outOfResources, ((w.acquire slot).create slot .spaceSem).release slot) := by
    simp [createWithSemaphores, hd, hs]
  rw [hresult] at hcreate
  obtain ⟨slot', made, gone, -, hperm, hevents⟩ := (hcreate.failed nofun).events
  -- As many objects are destroyed as created, but there is one event.
  have hlen := congrArg List.length hevents
  have heq := hperm.length_eq
  simp [World.release, World.create, World.acquire] at hlen
  omega

/-- The creation leaks: it is not refused, there is a slot, and only the first semaphore
cannot be created. -/
def bufferLeaks (ok : Part → Bool) (w : World) (refused : Bool) : Bool :=
  ! refused && w.freeSlot.isSome && missesFirst ok

theorem bufferCreate_iff {r : Request} (hparts : r.parts = [.dataSem, .spaceSem]) (refused : Bool) :
    CreateOk r w (bufferCreate ok w refused) ↔ bufferLeaks ok w refused = false := by
  rw [bufferCreate, bufferLeaks]
  cases refused with
  | true => exact iff_of_true (.of_failed nofun (.refl w)) rfl
  | false =>
      rw [if_neg nofun]
      cases hfree : w.freeSlot with
      | none => exact iff_of_true (.of_failed nofun (.refl w)) rfl
      | some slot =>
          cases hok : missesFirst ok with
          | false => exact iff_of_true (createWithSemaphores_ok hparts hfree hok) rfl
          | true => exact iff_of_false (createWithSemaphores_leaks hok) nofun

/-! ### All of them -/

/-- The creation leaks: it is that of a buffer, and leaks as `bufferLeaks` says. -/
def Request.leaks (r : Request) (ok : Part → Bool) (w : World) : Bool :=
  match r with
  | .streamBuffer handle buffer capacity =>
      bufferLeaks ok w (! handle || ! buffer || capacity = 0)
  | .messageBuffer handle buffer capacity =>
      bufferLeaks ok w (! handle || ! buffer || capacity ≤ msgHeaderBytes)
  | _ => false

theorem create_ok_iff (r : Request) (ok : Part → Bool) (w : World) :
    CreateOk r w (r.create ok w) ↔ r.leaks ok w = false := by
  cases r with
  | eventFlags handle maxWaiters => exact iff_of_true (createWithWaiters_ok rfl handle) rfl
  | condvar handle maxWaiters => exact iff_of_true (createWithWaiters_ok rfl handle) rfl
  | workQueue handle maxDepth depth =>
      exact iff_of_true (workQueueCreate_ok ok w handle maxDepth depth) rfl
  | memoryPool handle buffer maxWords bufBytes blockSize blockCount =>
      exact iff_of_true
        (memoryPoolCreate_ok ok w handle buffer maxWords bufBytes blockSize blockCount) rfl
  | streamBuffer handle buffer capacity => exact bufferCreate_iff rfl _
  | messageBuffer handle buffer capacity => exact bufferCreate_iff rfl _
  | rwlock handle => exact iff_of_true (rwlockCreate_ok ok w handle) rfl
  | barrier handle count => exact iff_of_true (barrierCreate_ok ok w handle count) rfl

/-! ### Failures in a row -/

/-- A create call: its arguments, what its handle holds before, and the fate of the parts. -/
structure Attempt where
  request : Request
  native : Option Nat
  ok : Part → Bool

def Attempt.run (a : Attempt) (w : World) : ErrorCode × World :=
  a.request.create a.ok (w.setNative a.native)

/-- The calls, one after the other: what they returned, and what is left. -/
def attempts : List Attempt → World → List ErrorCode × World
  | [], w => ([], w)
  | a :: rest, w =>
      let r := a.run w
      (r.1 :: (attempts rest r.2).1, (attempts rest r.2).2)

/-- A buffer's slot is free again after every failure, also after one that leaks. -/
theorem used_bufferCreate (refused : Bool) (hcode : (bufferCreate ok w refused).1 ≠ .ok) :
    (bufferCreate ok w refused).2.used = w.used := by
  rw [bufferCreate] at hcode ⊢
  cases refused with
  | true => rfl
  | false =>
      rw [if_neg nofun] at hcode ⊢
      cases hfree : w.freeSlot with
      | none => rfl
      | some slot =>
          rw [hfree] at hcode
          have hrelease : (w.used.set slot true).set slot false = w.used :=
            (Stage.acquire hfree).used_release
          dsimp only [createWithSemaphores] at hcode ⊢
          cases hd : ok .dataSem with
          | false => cases ok .spaceSem <;> exact hrelease
          | true =>
              cases hs : ok .spaceSem with
              | false => exact hrelease
              | true =>
                  rw [hd, hs] at hcode
                  exact absurd rfl hcode

theorem used_of_failure (r : Request) (ok : Part → Bool) (w : World)
    (hcode : (r.create ok w).1 ≠ .ok) : (r.create ok w).2.used = w.used := by
  cases hleaks : r.leaks ok w with
  | false => exact (((create_ok_iff r ok w).mpr hleaks).failed hcode).used
  | true =>
      cases r with
      | streamBuffer handle buffer capacity => exact used_bufferCreate _ hcode
      | messageBuffer handle buffer capacity => exact used_bufferCreate _ hcode
      | _ => cases hleaks

theorem used_attempts (as : List Attempt) (w : World)
    (h : ∀ code ∈ (attempts as w).1, code ≠ .ok) : (attempts as w).2.used = w.used := by
  induction as generalizing w with
  | nil => rfl
  | cons a rest ih =>
      obtain ⟨hfirst, hrest⟩ := List.forall_mem_cons.mp h
      calc (attempts (a :: rest) w).2.used
          = (a.run w).2.used := ih _ hrest
        _ = w.used := used_of_failure _ _ _ hfirst

/-- A creation leaves nothing behind when it fails, and one slot with all its parts when it
succeeds, exactly when it does not leak; and failures, however many, leave all slots of the
pool as they were. -/
theorem creation_unwinds (r : Request) (ok : Part → Bool) (w : World) :
    (CreateOk r w (r.create ok w) ↔ r.leaks ok w = false) ∧
      ∀ as : List Attempt, (∀ code ∈ (attempts as w).1, code ≠ .ok) →
        (attempts as w).2.used = w.used :=
  ⟨create_ok_iff r ok w, fun as h => used_attempts as w h⟩

/-- The second semaphore of a message buffer cannot be created: the first is destroyed, and
the slot stays free. -/
theorem creation_unwinds_second :
    CreateOk (.messageBuffer true true 16) ⟨[true, false], none, []⟩
        ((Request.messageBuffer true true 16).create (fun p => p ≠ .spaceSem)
          ⟨[true, false], none, []⟩) ∧
      (attempts [⟨.messageBuffer true true 16, none, fun p => p ≠ .spaceSem⟩]
        ⟨[true, false], none, []⟩).2.used = [true, false] :=
  ⟨(creation_unwinds _ _ _).1.mpr (by decide),
    (creation_unwinds (.messageBuffer true true 16) (fun p => p ≠ .spaceSem) _).2 _ (by decide)⟩

/-- The first cannot: the second is left behind. -/
theorem creation_leaks :
    ¬ ∀ (r : Request) (ok : Part → Bool) (w : World), CreateOk r w (r.create ok w) := by
  intro h
  have hleaks := (create_ok_iff _ _ _).mp
    (h (.streamBuffer true true 8) (fun p => p ≠ .dataSem) ⟨[false], none, []⟩)
  exact absurd hleaks (by decide)

end MicrOsal.Creation
