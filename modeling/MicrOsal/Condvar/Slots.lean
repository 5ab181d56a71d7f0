import MicrOsal.Condvar.Model

/-!
# MicrOsal.Condvar.Slots

The slots and tokens of the emulated condition variable.

`CvInv` relates the waiter array to the threads: every slot in use belongs to one
wait, named by its ticket, and a token lies in its semaphore exactly between the
notify that selected the slot and the owner's `take`. `CvStage` says what the
place of a thread implies; a step of another thread that respects `CvFrame`
leaves it alone. The effects a step can have on the array are few (claim, take,
time out, free, signal), and each has one lemma.
-/

namespace MicrOsal

/-- What the place of thread `n` implies. -/
def CvStage (s : CvState) (n : Nat) : CvThread → Prop
  | .idle => True
  | .enter => True
  | .check => s.mutex = some n
  | .eval _ _ => s.mutex = some n
  | .finish => s.mutex = some n
  | .register _ => s.mutex = some n
  | .unlock _ k ticket => s.mutex = some n ∧ ticket ∉ s.timedOut ∧
      ∀ w, s.cv.waiters[k]? = some w → w.signalled = true → w.sem = true
  | .take _ k ticket => ticket ∉ s.timedOut ∧
      ∀ w, s.cv.waiters[k]? = some w → w.signalled = true → w.sem = true
  | .relock _ _ ticket r => (r = .ok ∧ ticket ∈ s.notified ∧ ticket ∉ s.timedOut) ∨
      (r = .timeout ∧ ticket ∈ s.timedOut)
  | .leave _ _ ticket r => s.mutex = some n ∧
      ((r = .ok ∧ ticket ∈ s.notified ∧ ticket ∉ s.timedOut) ∨
        (r = .timeout ∧ ticket ∈ s.timedOut))
  | .notifyAll k => s.cv.guard = some n ∧
      ∀ j w, j < k → s.cv.waiters[j]? = some w → w.inUse = true → w.signalled = true

/-- What thread `m` relies on is the same in `s'` as in `s`. -/
structure CvFrame (s s' : CvState) (m : Nat) : Prop where
  mutex : s.mutex = some m → s'.mutex = some m
  guard : s.cv.guard = some m → s'.cv.guard = some m
  token : ∀ k t, (s.threads m).registered = some (k, t) →
    (∀ w, s.cv.waiters[k]? = some w → w.signalled = true → w.sem = true) →
    ∀ w, s'.cv.waiters[k]? = some w → w.signalled = true → w.sem = true
  scanned : s.cv.guard = some m → ∀ (j : Nat) w', s'.cv.waiters[j]? = some w' → w'.inUse = true →
    ∃ w, s.cv.waiters[j]? = some w ∧ w.inUse = true ∧ (w.signalled = true → w'.signalled = true)
  notified : ∀ t ∈ s.notified, t ∈ s'.notified
  timedOut : ∀ k t, (s.threads m).registered = some (k, t) → (t ∈ s'.timedOut ↔ t ∈ s.timedOut)

theorem CvStage.frame {s s' : CvState} {m : Nat} (h : CvStage s m (s.threads m))
    (hf : CvFrame s s' m) : CvStage s' m (s.threads m) := by
  generalize hth : s.threads m = here at h
  cases here with
  | idle => trivial
  | enter => trivial
  | check =>
      exact hf.mutex h
  | eval caller again =>
      exact hf.mutex h
  | finish =>
      exact hf.mutex h
  | register c =>
      exact hf.mutex h
  | unlock c k t =>
      have hreg : (s.threads m).registered = some (k, t) := by rw [hth]; rfl
      exact ⟨hf.mutex h.1, fun ht => h.2.1 ((hf.timedOut k t hreg).mp ht),
        hf.token k t hreg h.2.2⟩
  | take c k t =>
      have hreg : (s.threads m).registered = some (k, t) := by rw [hth]; rfl
      exact ⟨fun ht => h.1 ((hf.timedOut k t hreg).mp ht), hf.token k t hreg h.2⟩
  | relock c k t r =>
      have hreg : (s.threads m).registered = some (k, t) := by rw [hth]; rfl
      have hiff := hf.timedOut k t hreg
      exact h.imp (fun ⟨hr, hn, ht⟩ => ⟨hr, hf.notified t hn, fun h' => ht (hiff.mp h')⟩)
        (fun ⟨hr, ht⟩ => ⟨hr, hiff.mpr ht⟩)
  | leave c k t r =>
      have hreg : (s.threads m).registered = some (k, t) := by rw [hth]; rfl
      have hiff := hf.timedOut k t hreg
      exact ⟨hf.mutex h.1,
        h.2.imp (fun ⟨hr, hn, ht⟩ => ⟨hr, hf.notified t hn, fun h' => ht (hiff.mp h')⟩)
          (fun ⟨hr, ht⟩ => ⟨hr, hiff.mpr ht⟩)⟩
  | notifyAll k =>
      refine ⟨hf.guard h.1, ?_⟩
      intro j w' hj hw' huse
      obtain ⟨w, hw, hwuse, hsig⟩ := hf.scanned h.1 j w' hw' huse
      exact hsig (h.2 j w hj hw hwuse)

/-- The slots, the tickets and the threads agree. -/
structure CvInv (s : CvState) : Prop where
  count : s.cv.nWaiters = s.cv.waiters.countP (·.inUse)
  token : ∀ (k : Nat) w, s.cv.waiters[k]? = some w → w.sem = true → w.signalled = true
  slot : ∀ n k t, (s.threads n).registered = some (k, t) →
    ∃ w, s.cv.waiters[k]? = some w ∧ w.inUse = true ∧ w.ticket = t
  owner : ∀ (k : Nat) w, s.cv.waiters[k]? = some w → w.inUse = true →
    (∃ n, (s.threads n).registered = some (k, w.ticket)) ∧
      (w.signalled = true ↔ w.ticket ∈ s.notified)
  unique : ∀ n m k k' t t', (s.threads n).registered = some (k, t) →
    (s.threads m).registered = some (k', t') → k = k' ∨ t = t' → n = m
  stage : ∀ n, CvStage s n (s.threads n)
  result : ∀ t r, (t, r) ∈ s.returned →
    (r = .ok ∧ t ∈ s.notified) ∨ (r = .timeout ∧ t ∈ s.timedOut)
  running : ∀ n k t r, (s.threads n).registered = some (k, t) → (t, r) ∉ s.returned
  drawn : ∀ t, (t ∈ s.notified ∨ t ∈ s.timedOut ∨ ∃ r, (t, r) ∈ s.returned) → t < s.nextTicket
  registered_lt : ∀ n k t, (s.threads n).registered = some (k, t) → t < s.nextTicket

section Effects

variable {s s' : CvState} {n : Nat} {th th' : CvThread}

/-- A property of all threads after one of them has changed its place. -/
theorem forall_threads_update {P : Nat → CvThread → Prop} {f : Nat → CvThread}
    (hn : P n th') (h : ∀ m, m ≠ n → P m (f m)) (m : Nat) :
    P m (Function.update f n th' m) := by
  by_cases hm : m = n
  · subst hm
    rwa [Function.update_self]
  · rw [Function.update_of_ne hm]
    exact h m hm

theorem registered_update {m k t : Nat} {f : Nat → CvThread}
    (h : (Function.update f n th' m).registered = some (k, t)) :
    (m = n ∧ th'.registered = some (k, t)) ∨ (m ≠ n ∧ (f m).registered = some (k, t)) := by
  by_cases hm : m = n
  · subst hm
    rw [Function.update_self] at h
    exact .inl ⟨rfl, h⟩
  · rw [Function.update_of_ne hm] at h
    exact .inr ⟨hm, h⟩

/-- After a thread has gone on in its wait, everybody is in the same waits. -/
theorem registered_same {f : Nat → CvThread} (hth : f n = th)
    (hreg : th'.registered = th.registered) (m : Nat) :
    (Function.update f n th' m).registered = (f m).registered := by
  by_cases hm : m = n
  · subst hm
    rw [Function.update_self, hreg, hth]
  · rw [Function.update_of_ne hm]

/-- A step that leaves the array and the record of notifications alone: the
thread goes on in its wait, or was and is in none. -/
theorem CvInv.thread (hi : CvInv s) (hth : s.threads n = th) (th' : CvThread)
    (mutex : Option Nat) (released : Nat → Bool) (hreg : th'.registered = th.registered)
    (hmutex : ∀ m, m ≠ n → s.mutex = some m → mutex = some m)
    (hstage : CvStage { s with mutex := mutex } n th') :
    CvInv { s with
      mutex := mutex
      released := released
      threads := Function.update s.threads n th' } := by
  have hregs : ∀ m, (Function.update s.threads n th' m).registered = (s.threads m).registered :=
    registered_same hth hreg
  refine ⟨hi.count, hi.token, ?_, ?_, ?_, ?_, hi.result, ?_, hi.drawn, ?_⟩
  · intro m k t hm
    rw [hregs] at hm
    exact hi.slot m k t hm
  · intro k w hw huse
    obtain ⟨⟨m, hm⟩, hsig⟩ := hi.owner k w hw huse
    exact ⟨⟨m, (hregs m).trans hm⟩, hsig⟩
  · intro m₁ m₂ k k' t t' h₁ h₂
    rw [hregs] at h₁ h₂
    exact hi.unique m₁ m₂ k k' t t' h₁ h₂
  · refine forall_threads_update ?_ ?_
    · cases th' <;> exact hstage
    · intro m hm
      refine (hi.stage m).frame ?_
      exact ⟨hmutex m hm, id, fun _ _ _ h => h, fun _ j w hw huse => ⟨w, hw, huse, id⟩,
        fun _ h => h, fun _ _ _ => Iff.rfl⟩
  · intro m k t r hm
    rw [hregs] at hm
    exact hi.running m k t r hm
  · intro m k t hm
    rw [hregs] at hm
    exact hi.registered_lt m k t hm

/-- The record of `notify_one` calls is no part of the invariant. -/
theorem CvInv.with_notices (hi : CvInv s) (notices : List CvNotice) :
    CvInv { s with notices := notices } := by
  refine ⟨hi.count, hi.token, hi.slot, hi.owner, hi.unique, ?_, hi.result, hi.running, hi.drawn,
    hi.registered_lt⟩
  intro m
  exact (hi.stage m).frame ⟨id, id, fun _ _ _ h => h,
    fun _ j w hw huse => ⟨w, hw, huse, id⟩, fun _ h => h, fun _ _ _ => Iff.rfl⟩

theorem EmuCondvar.claim_eq_some {cv cv' : EmuCondvar} {t k : Nat}
    (h : cv.claim t = some (k, cv')) :
    ∃ w, cv.waiters[k]? = some w ∧ w.inUse = false ∧
      cv' = { cv with
        waiters := cv.waiters.set k ⟨false, true, false, t⟩
        nWaiters := cv.nWaiters + 1 } := by
  rw [EmuCondvar.claim] at h
  split at h
  · cases h
  · next j hj =>
    cases h
    obtain ⟨hlt, hfree, -⟩ := List.findIdx?_eq_some_iff_getElem.mp hj
    exact ⟨_, List.getElem?_eq_getElem hlt, by simpa using hfree, rfl⟩

theorem EmuCondvar.claim_eq_none {cv : EmuCondvar} {t : Nat} (h : cv.claim t = none) :
    ∀ w ∈ cv.waiters, w.inUse = true := by
  rw [EmuCondvar.claim] at h
  split at h
  · next hj =>
    intro w hw
    have := List.findIdx?_eq_none_iff.mp hj w hw
    simpa using this
  · cases h

/-- A wait registers. -/
theorem CvInv.claim {c : CvWait} {k : Nat} {cv : EmuCondvar} (hi : CvInv s)
    (hth : s.threads n = .register c) (hguard : s.cv.guard = none)
    (hclaim : s.cv.claim s.nextTicket = some (k, cv)) :
    CvInv ({ s with cv := cv, nextTicket := s.nextTicket + 1 }.setThread n
      (.unlock c k s.nextTicket)) := by
  obtain ⟨w₀, hw₀, hfree, rfl⟩ := EmuCondvar.claim_eq_some hclaim
  have hmutex : s.mutex = some n := by
    have := hi.stage n
    rw [hth] at this
    exact this
  -- Slots of registered waits are in use, so the claimed one is none of them.
  have hne : ∀ m k' t, (s.threads m).registered = some (k', t) → k' ≠ k := by
    rintro m k' t hm rfl
    obtain ⟨w, hw, huse, -⟩ := hi.slot m k' t hm
    rw [hw₀] at hw
    cases hw
    rw [hfree] at huse
    cases huse
  have hnew : ∀ t, (t ∈ s.notified ∨ t ∈ s.timedOut ∨ ∃ r, (t, r) ∈ s.returned) →
      t ≠ s.nextTicket := fun t ht => Nat.ne_of_lt (hi.drawn t ht)
  refine ⟨?_, ?_, ?_, ?_, ?_, ?_, hi.result, ?_, ?_, ?_⟩
  · have hcount := countP_set (b := ⟨false, true, false, s.nextTicket⟩)
      (fun w : CvWaiter => w.inUse) hw₀
    have := hi.count
    simp only [hfree, Bool.false_eq_true, if_false, if_true] at hcount
    simp only [CvState.setThread]
    omega
  · intro j w hw hsem
    rcases getElem?_set_cases hw with ⟨rfl, rfl⟩ | ⟨-, hw⟩
    · cases hsem
    · exact hi.token j w hw hsem
  · intro m k' t hm
    rcases registered_update hm with ⟨rfl, g⟩ | ⟨-, g⟩
    · cases g
      obtain ⟨hlt, -⟩ := List.getElem?_eq_some_iff.mp hw₀
      exact ⟨_, List.getElem?_set_self hlt, rfl, rfl⟩
    · obtain ⟨w, hw, huse⟩ := hi.slot m k' t g
      exact ⟨w, (List.getElem?_set_ne (Ne.symm (hne m k' t g))).trans hw, huse⟩
  · intro j w hw huse
    rcases getElem?_set_cases hw with ⟨rfl, rfl⟩ | ⟨hj, hw⟩
    · refine ⟨⟨n, ?_⟩, ?_⟩
      · simp only [CvState.setThread, Function.update_self]
        rfl
      · constructor
        · intro h
          cases h
        · intro h
          exact absurd rfl (hnew _ (.inl h))
    · obtain ⟨⟨m, hm⟩, hsig⟩ := hi.owner j w hw huse
      refine ⟨⟨m, ?_⟩, hsig⟩
      have hmn : m ≠ n := by
        rintro rfl
        rw [hth] at hm
        cases hm
      simp only [CvState.setThread, Function.update_of_ne hmn]
      exact hm
  · intro m₁ m₂ k₁ k₂ t₁ t₂ h₁ h₂ heq
    rcases registered_update h₁ with ⟨rfl, g₁⟩ | ⟨-, g₁⟩ <;>
      rcases registered_update h₂ with ⟨rfl, g₂⟩ | ⟨-, g₂⟩
    · rfl
    · cases g₁
      rcases heq with rfl | rfl
      · exact absurd rfl (hne m₂ _ t₂ g₂)
      · exact absurd (hi.registered_lt m₂ k₂ _ g₂) (Nat.lt_irrefl _)
    · cases g₂
      rcases heq with rfl | rfl
      · exact absurd rfl (hne m₁ _ t₁ g₁)
      · exact absurd (hi.registered_lt m₁ k₁ _ g₁) (Nat.lt_irrefl _)
    · exact hi.unique m₁ m₂ k₁ k₂ t₁ t₂ g₁ g₂ heq
  · refine forall_threads_update ?_ ?_
    · refine ⟨hmutex, fun ht => hnew _ (.inr (.inl ht)) rfl, ?_⟩
      intro w hw hsig
      rcases getElem?_set_cases hw with ⟨-, rfl⟩ | ⟨hj, -⟩
      · cases hsig
      · exact absurd rfl hj
    · intro m hm
      refine (hi.stage m).frame ⟨id, id, ?_, ?_, fun _ h => h, fun _ _ _ => Iff.rfl⟩
      · intro k' t hreg htok w hw
        rcases getElem?_set_cases hw with ⟨rfl, -⟩ | ⟨-, hw⟩
        · exact absurd rfl (hne m _ t hreg)
        · exact htok w hw
      · intro hg
        rw [hguard] at hg
        cases hg
  · intro m k' t r hm hret
    rcases registered_update hm with ⟨rfl, g⟩ | ⟨-, g⟩
    · cases g
      exact hnew _ (.inr (.inr ⟨r, hret⟩)) rfl
    · exact hi.running m k' t r g hret
  · intro t ht
    exact Nat.lt_succ_of_lt (hi.drawn t ht)
  · intro m k' t hm
    rcases registered_update hm with ⟨rfl, g⟩ | ⟨-, g⟩
    · cases g
      exact Nat.lt_succ_self _
    · exact Nat.lt_succ_of_lt (hi.registered_lt m k' t g)

/-- The owner of a slot takes its token. -/
theorem CvInv.take_token {c : CvWait} {k t : Nat} {w : CvWaiter} (hi : CvInv s)
    (hth : s.threads n = .take c k t) (hw : s.cv.waiters[k]? = some w) (hsem : w.sem = true) :
    CvInv ({ s with cv := s.cv.setWaiter k { w with sem := false } }.setThread n
      (.relock c k t .ok)) := by
  have hregn : (s.threads n).registered = some (k, t) := by rw [hth]; rfl
  have hregs : ∀ m, (Function.update s.threads n (.relock c k t .ok) m).registered =
      (s.threads m).registered := registered_same hth rfl
  obtain ⟨w₀, hw₀, huse, htick⟩ := hi.slot n k t hregn
  obtain rfl : w = w₀ := Option.some.inj (hw.symm.trans hw₀)
  obtain ⟨hlt, -⟩ := List.getElem?_eq_some_iff.mp hw
  have hstage : CvStage s n (.take c k t) := hth ▸ hi.stage n
  refine ⟨?_, ?_, ?_, ?_, ?_, ?_, hi.result, ?_, hi.drawn, ?_⟩
  · have hcount := countP_set (b := { w with sem := false }) (fun w : CvWaiter => w.inUse) hw
    have := hi.count
    simp only at hcount
    simp only [CvState.setThread, EmuCondvar.setWaiter]
    omega
  · intro j w' hw' hsem'
    rcases getElem?_set_cases hw' with ⟨rfl, rfl⟩ | ⟨-, hw'⟩
    · cases hsem'
    · exact hi.token j w' hw' hsem'
  · intro m k' t' hm
    obtain ⟨w', hw', h'⟩ := hi.slot m k' t' ((hregs m).symm.trans hm)
    by_cases hk : k' = k
    · subst hk
      obtain rfl : w = w' := Option.some.inj (hw.symm.trans hw')
      exact ⟨_, List.getElem?_set_self hlt, h'⟩
    · exact ⟨w', (List.getElem?_set_ne (Ne.symm hk)).trans hw', h'⟩
  · intro j w' hw' huse'
    rcases getElem?_set_cases hw' with ⟨rfl, rfl⟩ | ⟨-, hw'⟩
    · obtain ⟨⟨m, hm⟩, hsig⟩ := hi.owner j w hw huse
      exact ⟨⟨m, (hregs m).trans hm⟩, hsig⟩
    · obtain ⟨⟨m, hm⟩, hsig⟩ := hi.owner j w' hw' huse'
      exact ⟨⟨m, (hregs m).trans hm⟩, hsig⟩
  · intro m₁ m₂ k₁ k₂ t₁ t₂ h₁ h₂
    exact hi.unique m₁ m₂ k₁ k₂ t₁ t₂ ((hregs m₁).symm.trans h₁) ((hregs m₂).symm.trans h₂)
  · refine forall_threads_update ?_ ?_
    · refine .inl ⟨rfl, ?_, hstage.1⟩
      rw [← htick]
      exact (hi.owner k w hw huse).2.mp (hi.token k w hw hsem)
    · intro m hm
      refine (hi.stage m).frame ⟨id, id, ?_, ?_, fun _ h => h, fun _ _ _ => Iff.rfl⟩
      · intro k' t' hreg htok w' hw'
        rcases getElem?_set_cases hw' with ⟨rfl, -⟩ | ⟨-, hw'⟩
        · exact absurd (hi.unique m n _ _ t' t hreg hregn (.inl rfl)) hm
        · exact htok w' hw'
      · intro _ j w' hw' huse'
        rcases getElem?_set_cases hw' with ⟨rfl, rfl⟩ | ⟨-, hw'⟩
        · exact ⟨w, hw, huse', id⟩
        · exact ⟨w', hw', huse', id⟩
  · intro m k' t' r hm
    exact hi.running m k' t' r ((hregs m).symm.trans hm)
  · intro m k' t' hm
    exact hi.registered_lt m k' t' ((hregs m).symm.trans hm)

/-- A timed wait gives up. -/
theorem CvInv.time_out {c : CvWait} {k t : Nat} (hi : CvInv s)
    (hth : s.threads n = .take c k t) :
    CvInv ({ s with timedOut := t :: s.timedOut }.setThread n (.relock c k t .timeout)) := by
  have hregn : (s.threads n).registered = some (k, t) := by rw [hth]; rfl
  have hregs : ∀ m, (Function.update s.threads n (.relock c k t .timeout) m).registered =
      (s.threads m).registered := registered_same hth rfl
  refine ⟨hi.count, hi.token, ?_, ?_, ?_, ?_, ?_, ?_, ?_, ?_⟩
  · intro m k' t' hm
    exact hi.slot m k' t' ((hregs m).symm.trans hm)
  · intro j w hw huse
    obtain ⟨⟨m, hm⟩, hsig⟩ := hi.owner j w hw huse
    exact ⟨⟨m, (hregs m).trans hm⟩, hsig⟩
  · intro m₁ m₂ k₁ k₂ t₁ t₂ h₁ h₂
    exact hi.unique m₁ m₂ k₁ k₂ t₁ t₂ ((hregs m₁).symm.trans h₁) ((hregs m₂).symm.trans h₂)
  · refine forall_threads_update ?_ ?_
    · exact .inr ⟨rfl, List.mem_cons_self⟩
    · intro m hm
      refine (hi.stage m).frame ⟨id, id, fun _ _ _ h => h,
        fun _ j w hw huse => ⟨w, hw, huse, id⟩, fun _ h => h, ?_⟩
      intro k' t' hreg
      have hne : t' ≠ t := by
        rintro rfl
        exact hm (hi.unique m n k' k _ _ hreg hregn (.inr rfl))
      simp [CvState.setThread, hne]
  · intro t' r hret
    exact (hi.result t' r hret).imp_right (fun ⟨hr, ht⟩ => ⟨hr, List.mem_cons_of_mem _ ht⟩)
  · intro m k' t' r hm
    exact hi.running m k' t' r ((hregs m).symm.trans hm)
  · rintro t' (h | h | h)
    · exact hi.drawn t' (.inl h)
    · rcases List.mem_cons.mp h with rfl | h
      · exact hi.registered_lt n k _ hregn
      · exact hi.drawn t' (.inr (.inl h))
    · exact hi.drawn t' (.inr (.inr h))
  · intro m k' t' hm
    exact hi.registered_lt m k' t' ((hregs m).symm.trans hm)

/-- A wait releases its slot and returns. -/
theorem CvInv.free {c : CvWait} {k t : Nat} {r : ErrorCode} {w : CvWaiter} (hi : CvInv s)
    (hth : s.threads n = .leave c k t r) (hw : s.cv.waiters[k]? = some w)
    (hguard : s.cv.guard = none) :
    CvInv ({ s with cv := s.cv.free k w, returned := (t, r) :: s.returned }.setThread n
      c.caller.resume) := by
  have hregn : (s.threads n).registered = some (k, t) := by rw [hth]; rfl
  have hresume : c.caller.resume.registered = none := by cases c.caller <;> rfl
  obtain ⟨w₀, hw₀, huse, htick⟩ := hi.slot n k t hregn
  obtain rfl : w = w₀ := Option.some.inj (hw.symm.trans hw₀)
  obtain ⟨hmutex, hresult⟩ : CvStage s n (.leave c k t r) := hth ▸ hi.stage n
  -- Whoever else is registered is so in another slot and with another ticket.
  have hother : ∀ {m k' t'}, (Function.update s.threads n c.caller.resume m).registered =
      some (k', t') → (s.threads m).registered = some (k', t') ∧ k' ≠ k ∧ t' ≠ t := by
    intro m k' t' hm
    rcases registered_update hm with ⟨-, g⟩ | ⟨hne, g⟩
    · rw [hresume] at g
      cases g
    · refine ⟨g, ?_, ?_⟩
      · rintro rfl
        exact hne (hi.unique m n _ _ t' t g hregn (.inl rfl))
      · rintro rfl
        exact hne (hi.unique m n k' k _ _ g hregn (.inr rfl))
  refine ⟨?_, ?_, ?_, ?_, ?_, ?_, ?_, ?_, ?_, ?_⟩
  · have hcount := countP_set (b := { w with inUse := false }) (fun w : CvWaiter => w.inUse) hw
    have hpos : 0 < s.cv.waiters.countP (·.inUse) :=
      List.countP_pos_iff.mpr ⟨w, List.mem_of_getElem? hw, huse⟩
    have := hi.count
    simp only [huse, Bool.false_eq_true, if_false, if_true] at hcount
    simp only [CvState.setThread, EmuCondvar.free]
    rw [if_neg (by omega)]
    omega
  · intro j w' hw' hsem
    rcases getElem?_set_cases hw' with ⟨rfl, rfl⟩ | ⟨-, hw'⟩
    · exact hi.token j w hw hsem
    · exact hi.token j w' hw' hsem
  · intro m k' t' hm
    obtain ⟨g, hk, -⟩ := hother hm
    obtain ⟨w', hw', h'⟩ := hi.slot m k' t' g
    exact ⟨w', (List.getElem?_set_ne (Ne.symm hk)).trans hw', h'⟩
  · intro j w' hw' huse'
    rcases getElem?_set_cases hw' with ⟨rfl, rfl⟩ | ⟨hj, hw'⟩
    · cases huse'
    · obtain ⟨⟨m, hm⟩, hsig⟩ := hi.owner j w' hw' huse'
      refine ⟨⟨m, ?_⟩, hsig⟩
      have hmn : m ≠ n := by
        rintro rfl
        rw [hregn] at hm
        cases hm
        exact hj rfl
      simp only [CvState.setThread, Function.update_of_ne hmn]
      exact hm
  · intro m₁ m₂ k₁ k₂ t₁ t₂ h₁ h₂
    exact hi.unique m₁ m₂ k₁ k₂ t₁ t₂ (hother h₁).1 (hother h₂).1
  · refine forall_threads_update ?_ ?_
    · cases hc : c.caller with
      | direct => trivial
      | predicate => exact hmutex
      | notification => exact hmutex
    · intro m hm
      refine (hi.stage m).frame ⟨id, id, ?_, ?_, fun _ h => h, fun _ _ _ => Iff.rfl⟩
      · intro k' t' hreg htok w' hw'
        rcases getElem?_set_cases hw' with ⟨rfl, -⟩ | ⟨-, hw'⟩
        · exact absurd (hi.unique m n _ _ t' t hreg hregn (.inl rfl)) hm
        · exact htok w' hw'
      · intro hg
        rw [hguard] at hg
        cases hg
  · intro t' r' hret
    rcases List.mem_cons.mp hret with heq | hret
    · cases heq
      exact hresult.imp_left (fun ⟨hr, hn, _⟩ => ⟨hr, hn⟩)
    · exact hi.result t' r' hret
  · intro m k' t' r' hm hret
    obtain ⟨g, -, hne⟩ := hother hm
    rcases List.mem_cons.mp hret with heq | hret
    · cases heq
      exact hne rfl
    · exact hi.running m k' t' r' g hret
  · rintro t' (h | h | ⟨r', h⟩)
    · exact hi.drawn t' (.inl h)
    · exact hi.drawn t' (.inr (.inl h))
    · rcases List.mem_cons.mp h with heq | h
      · cases heq
        exact hi.registered_lt n k _ hregn
      · exact hi.drawn t' (.inr (.inr ⟨r', h⟩))
  · intro m k' t' hm
    exact hi.registered_lt m k' t' (hother hm).1

/-- A notify signals a waiting slot. -/
theorem CvInv.signal {k : Nat} {w : CvWaiter} (hi : CvInv s) (hw : s.cv.waiters[k]? = some w)
    (hwaiting : w.waiting = true) :
    CvInv { s with cv := s.cv.setWaiter k w.signal, notified := w.ticket :: s.notified } := by
  have huse : w.inUse = true := by
    simp only [CvWaiter.waiting, Bool.and_eq_true] at hwaiting
    exact hwaiting.1
  obtain ⟨hlt, -⟩ := List.getElem?_eq_some_iff.mp hw
  obtain ⟨⟨m₀, hm₀⟩, -⟩ := hi.owner k w hw huse
  refine ⟨?_, ?_, ?_, ?_, hi.unique, ?_, ?_, hi.running, ?_, hi.registered_lt⟩
  · have hcount := countP_set (b := w.signal) (fun w : CvWaiter => w.inUse) hw
    have := hi.count
    simp only [CvWaiter.signal, huse, if_true] at hcount
    simp only [EmuCondvar.setWaiter, CvWaiter.signal, huse]
    omega
  · intro j w' hw' hsem
    rcases getElem?_set_cases hw' with ⟨rfl, rfl⟩ | ⟨-, hw'⟩
    · rfl
    · exact hi.token j w' hw' hsem
  · intro m k' t hm
    obtain ⟨w', hw', h'⟩ := hi.slot m k' t hm
    by_cases hk : k' = k
    · subst hk
      obtain rfl : w = w' := Option.some.inj (hw.symm.trans hw')
      exact ⟨_, List.getElem?_set_self hlt, h'⟩
    · exact ⟨w', (List.getElem?_set_ne (Ne.symm hk)).trans hw', h'⟩
  · intro j w' hw' huse'
    rcases getElem?_set_cases hw' with ⟨rfl, rfl⟩ | ⟨hj, hw'⟩
    · exact ⟨⟨m₀, hm₀⟩, fun _ => List.mem_cons_self, fun _ => rfl⟩
    · obtain ⟨⟨m, hm⟩, hsig⟩ := hi.owner j w' hw' huse'
      -- Two slots in use have different tickets.
      have hne : w'.ticket ≠ w.ticket := by
        intro heq
        obtain rfl := hi.unique m m₀ j k _ _ hm hm₀ (.inr heq)
        exact hj (congrArg Prod.fst (Option.some.inj (hm.symm.trans hm₀)))
      refine ⟨⟨m, hm⟩, ?_⟩
      rw [hsig, List.mem_cons]
      exact ⟨.inr, fun h => h.resolve_left hne⟩
  · intro m
    refine (hi.stage m).frame ⟨id, id, ?_, ?_, fun _ h => List.mem_cons_of_mem _ h,
      fun _ _ _ => Iff.rfl⟩
    · intro k' t hreg htok w' hw'
      rcases getElem?_set_cases hw' with ⟨rfl, rfl⟩ | ⟨-, hw'⟩
      · exact fun _ => rfl
      · exact htok w' hw'
    · intro _ j w' hw' huse'
      rcases getElem?_set_cases hw' with ⟨rfl, rfl⟩ | ⟨-, hw'⟩
      · exact ⟨w, hw, huse, fun _ => rfl⟩
      · exact ⟨w', hw', huse', id⟩
  · intro t r hret
    exact (hi.result t r hret).imp_left (fun ⟨hr, ht⟩ => ⟨hr, List.mem_cons_of_mem _ ht⟩)
  · rintro t (h | h)
    · rcases List.mem_cons.mp h with rfl | h
      · exact hi.registered_lt m₀ k _ hm₀
      · exact hi.drawn t (.inl h)
    · exact hi.drawn t (.inr h)

/-- The guard is taken for, or given up after, a scan. -/
theorem CvInv.scan (hi : CvInv s) (hth : s.threads n = th) (th' : CvThread)
    (guard : Option Nat) (hreg : th.registered = none) (hreg' : th'.registered = none)
    (hguard : ∀ m, m ≠ n → s.cv.guard ≠ some m)
    (hstage : CvStage { s with cv := { s.cv with guard := guard } } n th') :
    CvInv ({ s with cv := { s.cv with guard := guard } }.setThread n th') := by
  have hregs := registered_same hth (hreg'.trans hreg.symm)
  refine ⟨hi.count, hi.token, ?_, ?_, ?_, ?_, hi.result, ?_, hi.drawn, ?_⟩
  · intro m k t hm
    exact hi.slot m k t ((hregs m).symm.trans hm)
  · intro j w hw huse
    obtain ⟨⟨m, hm⟩, hsig⟩ := hi.owner j w hw huse
    exact ⟨⟨m, (hregs m).trans hm⟩, hsig⟩
  · intro m₁ m₂ k₁ k₂ t₁ t₂ h₁ h₂
    exact hi.unique m₁ m₂ k₁ k₂ t₁ t₂ ((hregs m₁).symm.trans h₁) ((hregs m₂).symm.trans h₂)
  · refine forall_threads_update ?_ ?_
    · cases th' <;> exact hstage
    · intro m hm
      exact (hi.stage m).frame ⟨id, fun hg => absurd hg (hguard m hm), fun _ _ _ h => h,
        fun hg => absurd hg (hguard m hm), fun _ h => h, fun _ _ _ => Iff.rfl⟩
  · intro m k t r hm
    exact hi.running m k t r ((hregs m).symm.trans hm)
  · intro m k t hm
    exact hi.registered_lt m k t ((hregs m).symm.trans hm)

end Effects

end MicrOsal
