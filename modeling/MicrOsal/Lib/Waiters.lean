import MicrOsal.Lib.Tally

/-!
# MicrOsal.Lib.Waiters

Threads that sleep until a thing they wait for is there, and signals that wake one of them.

A monitor that signals one waiter for each thing it makes available, instead of all of them,
owes its sleepers an account: while somebody sleeps, the things are no more than the threads
that were woken for them (`Owed`). The rules say which changes of one thread keep the account.
-/

namespace MicrOsal

universe u

variable {τ : Type u}

/-- A signal to the threads that `waits` picks: it wakes one of them, if there is one. -/
inductive Signals (waits : τ → Bool) (wake : τ → τ) (threads : List τ) :
    Option Nat → List τ → Prop
  | nobody : (∀ th ∈ threads, waits th = false) → Signals waits wake threads none threads
  | one {m : Nat} {th : τ} : threads[m]? = some th → waits th = true →
      Signals waits wake threads (some m) (threads.set m (wake th))

/-- A signal leaves a thread alone that does not wait for it. -/
theorem Signals.getElem?_eq {waits : τ → Bool} {wake : τ → τ} {threads threads' : List τ}
    {signalled : Option Nat} {n : Nat} {th : τ} (h : Signals waits wake threads signalled threads')
    (hn : threads[n]? = some th) (hth : waits th = false) : threads'[n]? = some th := by
  cases h with
  | nobody => exact hn
  | @one m th' hm hw =>
      rw [List.getElem?_set_ne, hn]
      rintro rfl
      obtain rfl := Option.some.inj (hm.symm.trans hn)
      rw [hth] at hw
      cases hw

/-- While some thread sleeps, the things it waits for are no more than the threads that were
woken for them. -/
def Owed (sleeps woken : τ → Bool) (threads : List τ) (things : Nat) : Prop :=
  0 < threads.countP sleeps → things ≤ threads.countP woken

namespace Owed

variable {sleeps woken : τ → Bool} {threads threads' : List τ} {things n : Nat} {th th' : τ}

/-- The thread of a step that leaves the things alone: it falls asleep only if there are none,
and it gives up being woken only if there are none. -/
theorem settle (h : Owed sleeps woken threads things) (hn : threads[n]? = some th)
    (hsleeps : sleeps th' = true → sleeps th = true ∨ things = 0)
    (hwoken : woken th = true → woken th' = true ∨ things = 0) :
    Owed sleeps woken (threads.set n th') things := by
  intro hpos
  rcases Nat.eq_zero_or_pos things with hzero | hthings
  · omega
  have hle : (threads.set n th').countP sleeps ≤ threads.countP sleeps :=
    countP_set_le hn (fun ht => (hsleeps ht).resolve_right (by omega))
  have hge : threads.countP woken ≤ (threads.set n th').countP woken :=
    le_countP_set hn (fun ht => (hwoken ht).resolve_right (by omega))
  have hold := h (by omega)
  omega

/-- One thing less, taken by a thread that may have been woken for it. -/
theorem take (h : Owed sleeps woken threads (things + 1)) (hn : threads[n]? = some th)
    (hsleeps : sleeps th' = false) : Owed sleeps woken (threads.set n th') things := by
  intro hpos
  have hle : (threads.set n th').countP sleeps ≤ threads.countP sleeps :=
    countP_set_le hn (fun ht => by rw [hsleeps] at ht; cases ht)
  have hge := countP_le_set_succ (b := th') woken hn
  have hold := h (by omega)
  omega

/-- One thing more, and a sleeper is woken for it. -/
theorem put (h : Owed sleeps woken threads things) (hn : threads[n]? = some th)
    (hsleeps : sleeps th = true) (hwoken : woken th = false) (hwoken' : woken th' = true) :
    Owed sleeps woken (threads.set n th') (things + 1) := by
  intro hpos
  have hold := h (List.countP_pos_iff.mpr ⟨th, List.mem_of_getElem? hn, hsleeps⟩)
  have hmore := countP_set (b := th') woken hn
  rw [hwoken, hwoken', if_pos rfl, if_neg nofun] at hmore
  omega

/-- While nobody sleeps, nothing is owed. -/
theorem of_nobody (h : ∀ th ∈ threads, sleeps th = false) : Owed sleeps woken threads things := by
  intro hpos
  rw [List.countP_pos_iff] at hpos
  obtain ⟨th, hth, hs⟩ := hpos
  rw [h th hth] at hs
  cases hs

/-- A thread more. -/
theorem concat (h : Owed sleeps woken threads things) (hsleeps : sleeps th = false) :
    Owed sleeps woken (threads ++ [th]) things := by
  intro hpos
  rw [List.countP_append, List.countP_singleton, hsleeps] at hpos
  rw [List.countP_append]
  exact (h hpos).trans (Nat.le_add_right _ _)

end Owed

end MicrOsal
