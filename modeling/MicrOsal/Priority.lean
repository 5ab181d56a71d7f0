import MicrOsal.Lib.Checked
import Mathlib.Dynamics.FixedPoints.Basic

/-!
# MicrOsal.Priority

The priorities of the threads on FreeRTOS (`freertos_backend.cpp`) and Zephyr
(`zephyr_backend.cpp`): the mapping of the OSAL priorities 0 to 255 to the native levels, and the
one back that a query uses.

Both directions round towards the lower priority. A priority that is queried and set again stays on
its level exactly where the way back does not round; no priority is lost if `n - 1` for the `n`
levels divides 255 or is divided by it.
-/

namespace MicrOsal.Priority

/-- `PRIORITY_NORMAL`. -/
def priorityNormal : Int := 128

/-- `PRIORITY_HIGHEST`. -/
def priorityHighest : Nat := 255

/-- `static_cast<std::uint32_t>`. -/
def toU32 (x : Int) : Nat := (x % 2 ^ 32).toNat

/-! ### FreeRTOS, with `n` for `configMAX_PRIORITIES` -/

/-- `osal_to_freertos_priority`. -/
def osalToFreertosPriority (n : Nat) (p : Int) : Nat :=
  let frMax := n - 1
  toU32 p * frMax % 2 ^ 32 / priorityHighest

/-- `freertos_to_osal_priority`. -/
def freertosToOsalPriority (n priority : Nat) : Int :=
  let frMax := n - 1
  if frMax = 0 then priorityNormal
  else
    let priority := if frMax < priority then frMax else priority
    (priority * priorityHighest % 2 ^ 32 / frMax : Nat)

/-- The level of a thread after `osal_thread_get_priority` and `osal_thread_set_priority`. -/
def setQueriedFreertos (n level : Nat) : Nat :=
  osalToFreertosPriority n (freertosToOsalPriority n level)

/-! ### Zephyr, with `n` for `CONFIG_NUM_PREEMPT_PRIORITIES` -/

/-- The result of an operation on `int`. -/
abbrev i32 (x : Int) : Option Int := inRange (Signed 32) x

/-- `osal_to_zephyr_priority`. -/
def osalToZephyrPriority (n : Nat) (p : Int) : Option Int := do
  let zmax ← i32 ((n : Int) - 1)
  i32 (zmax - (toU32 p * toU32 zmax % 2 ^ 32 / priorityHighest : Nat))

/-- `zephyr_to_osal_priority`. -/
def zephyrToOsalPriority (n : Nat) (priority : Int) : Option Int := do
  let zmax ← i32 ((n : Int) - 1)
  if zmax ≤ 0 then return priorityNormal
  else
    let priority := if priority < 0 then 0 else if zmax < priority then zmax else priority
    let above ← i32 (zmax - priority)
    let scaled ← i32 (above * priorityHighest)
    return scaled.tdiv zmax

/-- The level of a thread after `osal_thread_get_priority` and `osal_thread_set_priority`. -/
def setQueriedZephyr (n : Nat) (level : Int) : Option Int :=
  zephyrToOsalPriority n level >>= osalToZephyrPriority n

/-! ### The mapping and the way back -/

section Levels

variable {m p q : Nat}

/-- The steps of a mapped priority above the lowest of `m + 1` levels. -/
def levelOf (m p : Nat) : Nat := p * m / 255

theorem levelOf_mono (h : p ≤ q) : levelOf m p ≤ levelOf m q :=
  Nat.div_le_div_right (Nat.mul_le_mul_right m h)

theorem levelOf_le (hp : p ≤ 255) : levelOf m p ≤ m := by
  unfold levelOf
  rw [Nat.div_le_iff_le_mul (by decide)]
  have := Nat.mul_le_mul_right m hp
  omega

/-- What the way back gives is an OSAL priority. -/
theorem back_le (hm : 0 < m) (hq : q ≤ m) : q * 255 / m ≤ 255 := by
  rw [Nat.div_le_iff_le_mul hm]
  have := Nat.mul_le_mul_right 255 hq
  omega

/-- A level comes back if the way back has no rest. -/
theorem levelOf_back_iff : levelOf m (q * 255 / m) = q ↔ m ∣ q * 255 := by
  unfold levelOf
  constructor
  · intro h
    have hle := Nat.div_mul_le_self (q * 255) m
    have hmod := Nat.div_add_mod (q * 255 / m * m) 255
    rw [h] at hmod
    have hexact : q * 255 = q * 255 / m * m := by omega
    exact hexact ▸ Nat.dvd_mul_left m (q * 255 / m)
  · intro hdvd
    rw [Nat.div_mul_cancel hdvd, Nat.mul_div_cancel q (by decide)]

/-- The rest of the way back is that of the way there. -/
theorem dvd_levelOf_iff : m ∣ levelOf m p * 255 ↔ m ∣ p * m % 255 := by
  have hsplit : levelOf m p * 255 + p * m % 255 = p * m := Nat.div_add_mod' (p * m) 255
  have hdvd : m ∣ levelOf m p * 255 + p * m % 255 := by
    rw [hsplit]
    exact Nat.dvd_mul_left m p
  exact ⟨(Nat.dvd_add_right · |>.mp hdvd), (Nat.dvd_add_left · |>.mp hdvd)⟩

/-- No rest for any priority: the levels divide 255 or are divided by it. -/
theorem forall_rest_iff (hm : 0 < m) :
    (∀ p ≤ 255, m ∣ p * m % 255) ↔ m ∣ 255 ∨ 255 ∣ m := by
  constructor
  · intro hall
    by_cases hmultiple : 255 ∣ m
    · exact .inr hmultiple
    left
    have hone := hall 1 (by decide)
    rw [Nat.one_mul] at hone
    have hrest : 0 < m % 255 := Nat.pos_of_ne_zero (mt Nat.dvd_of_mod_eq_zero hmultiple)
    have hsmall : m < 255 := lt_of_le_of_lt (Nat.le_of_dvd hrest hone) (Nat.mod_lt m (by decide))
    by_contra hdvd
    -- The first priority whose product is past 255 has the rest that 255 lacks to a multiple.
    have hlack : 0 < 255 % m := Nat.pos_of_ne_zero (mt Nat.dvd_of_mod_eq_zero hdvd)
    have hlt := Nat.mod_lt 255 hm
    have hdiv := Nat.div_add_mod' 255 m
    have htwo : 2 ≤ m := by
      by_contra hle
      have hm1 : m = 1 := by omega
      exact hdvd (hm1 ▸ Nat.one_dvd 255)
    have hp : 255 / m + 1 ≤ 255 := by
      have := Nat.div_le_div_left htwo (a := 255) (by decide)
      omega
    have hpast := hall _ hp
    have hval : (255 / m + 1) * m % 255 = m - 255 % m := by
      rw [Nat.add_one_mul, show 255 / m * m + m = m - 255 % m + 255 by omega,
        Nat.add_mod_right, Nat.mod_eq_of_lt (by omega)]
    rw [hval] at hpast
    have := Nat.le_of_dvd (by omega) hpast
    omega
  · rintro (hdvd | hmultiple) p -
    · exact (Nat.dvd_mod_iff hdvd).mpr (Nat.dvd_mul_left m p)
    · rw [Nat.mod_eq_zero_of_dvd (hmultiple.mul_left p)]
      exact Nat.dvd_zero m

end Levels

/-! ### The code on priorities and levels in range -/

section

variable {n p level : Nat}

theorem toU32_natCast (h : p < 2 ^ 32) : toU32 p = p := by
  unfold toU32
  omega

/-- The product is one of 32 bits for fewer than `2 ^ 24` levels. -/
theorem product_lt (hn : n < 2 ^ 24) (hp : p ≤ 255) : p * (n - 1) < 2 ^ 32 := by
  have := Nat.mul_le_mul_right (n - 1) hp
  omega

theorem osalToFreertosPriority_eq (hn : n < 2 ^ 24) (hp : p ≤ 255) :
    osalToFreertosPriority n p = levelOf (n - 1) p := by
  unfold osalToFreertosPriority levelOf priorityHighest
  dsimp only
  rw [toU32_natCast (by omega), Nat.mod_eq_of_lt (product_lt hn hp)]

theorem setQueriedFreertos_eq (hn2 : 2 ≤ n) (hn : n < 2 ^ 24) (hlevel : level ≤ n - 1) :
    setQueriedFreertos n level = levelOf (n - 1) (level * 255 / (n - 1)) := by
  have hback : freertosToOsalPriority n level = (level * 255 / (n - 1) : Nat) := by
    unfold freertosToOsalPriority priorityHighest
    dsimp only
    rw [if_neg (by omega), if_neg (by omega), Nat.mod_eq_of_lt (by omega)]
  unfold setQueriedFreertos
  rw [hback, osalToFreertosPriority_eq hn (back_le (by omega) hlevel)]

theorem i32_bind_natCast {α : Type} {x : Int} (hx : x = p) (hp : p < 2 ^ 31)
    (f : Int → Option α) : (i32 x >>= f) = f p := by
  subst hx
  exact inRange_bind (Signed.of_lt (by omega)) f

theorem osalToZephyrPriority_eq (hn2 : 2 ≤ n) (hn : n < 2 ^ 24) (hp : p ≤ 255) :
    osalToZephyrPriority n p = some ((n - 1 - levelOf (n - 1) p : Nat) : Int) := by
  have hle := levelOf_le (m := n - 1) hp
  unfold osalToZephyrPriority priorityHighest
  rw [i32_bind_natCast (p := n - 1) (by omega) (by omega), toU32_natCast (by omega),
    toU32_natCast (by omega), Nat.mod_eq_of_lt (product_lt hn hp)]
  unfold levelOf at hle ⊢
  rw [show ((n - 1 : Nat) : Int) - (p * (n - 1) / 255 : Nat) =
    ((n - 1 - p * (n - 1) / 255 : Nat) : Int) by omega]
  exact inRange_of (Signed.of_lt (by omega))

/-- The way back has a value if the scaled level is an `int`. -/
theorem setQueriedZephyr_eq (hn2 : 2 ≤ n) (hn : n < 2 ^ 24) (hlevel : level ≤ n - 1) :
    setQueriedZephyr n ((n - 1 - level : Nat) : Int) =
      if level * 255 < 2 ^ 31 then
        some ((n - 1 - levelOf (n - 1) (level * 255 / (n - 1)) : Nat) : Int)
      else none := by
  unfold setQueriedZephyr zephyrToOsalPriority priorityHighest
  rw [i32_bind_natCast (p := n - 1) (by omega) (by omega), if_neg (by omega), if_neg (by omega),
    if_neg (by omega)]
  rw [i32_bind_natCast (p := level) (by omega) (by omega)]
  split
  · rename_i hfits
    rw [i32_bind_natCast (p := level * 255) (by push_cast; rfl) (by omega)]
    exact osalToZephyrPriority_eq hn2 hn (back_le (by omega) hlevel)
  · rename_i hlarge
    rw [inRange_bind_not (by unfold Signed; omega)]
    rfl

/-- One repetition that changes nothing, and so none does. -/
theorem iterate_fixed_iff {α : Type} {f : α → α} {x : α} : (∀ k, f^[k] x = x) ↔ f x = x :=
  ⟨fun h => h 1, fun h k => Function.IsFixedPt.iterate h k⟩

theorem freertos_kept_iff (hn2 : 2 ≤ n) (hn : n < 2 ^ 24) (hp : p ≤ 255) :
    (∀ k, (setQueriedFreertos n)^[k] (osalToFreertosPriority n p) =
      osalToFreertosPriority n p) ↔ n - 1 ∣ p * (n - 1) % 255 := by
  rw [iterate_fixed_iff, osalToFreertosPriority_eq hn hp,
    setQueriedFreertos_eq hn2 hn (levelOf_le hp), levelOf_back_iff, dvd_levelOf_iff]

theorem zephyr_kept_iff (hn2 : 2 ≤ n) (hn : n < 2 ^ 24) (hp : p ≤ 255)
    (hfits : p * (n - 1) - p * (n - 1) % 255 < 2 ^ 31) :
    (∀ k, (· >>= setQueriedZephyr n)^[k] (osalToZephyrPriority n p) =
      osalToZephyrPriority n p) ↔ n - 1 ∣ p * (n - 1) % 255 := by
  have hle := levelOf_le (m := n - 1) hp
  have hscaled : p * (n - 1) - p * (n - 1) % 255 = levelOf (n - 1) p * 255 := by
    have hsplit : levelOf (n - 1) p * 255 + p * (n - 1) % 255 = p * (n - 1) :=
      Nat.div_add_mod' _ 255
    omega
  rw [iterate_fixed_iff, osalToZephyrPriority_eq hn2 hn hp, Option.bind_eq_bind, Option.bind_some,
    setQueriedZephyr_eq hn2 hn hle, if_pos (hscaled ▸ hfits), ← dvd_levelOf_iff,
    ← levelOf_back_iff, Option.some.injEq, Nat.cast_inj]
  have hback := levelOf_le (m := n - 1) (back_le (by omega) hle)
  omega

/-- What `n` levels make of the priorities. The levels of Zephyr count from the highest. -/
structure LevelsKept (n : Nat) : Prop where
  freertos_mono : ∀ p q : Nat, p ≤ q → q ≤ 255 →
    osalToFreertosPriority n p ≤ osalToFreertosPriority n q
  freertos_range : ∀ p : Nat, p ≤ 255 → osalToFreertosPriority n p ≤ n - 1
  freertos_kept : ∀ p : Nat, p ≤ 255 →
    ((∀ k, (setQueriedFreertos n)^[k] (osalToFreertosPriority n p) =
      osalToFreertosPriority n p) ↔ n - 1 ∣ p * (n - 1) % 255)
  freertos_all : (∀ p : Nat, p ≤ 255 → ∀ k,
    (setQueriedFreertos n)^[k] (osalToFreertosPriority n p) = osalToFreertosPriority n p) ↔
      n - 1 ∣ 255 ∨ 255 ∣ n - 1
  zephyr_mono : ∀ p q : Nat, p ≤ q → q ≤ 255 →
    ∃ a b, osalToZephyrPriority n p = some a ∧ osalToZephyrPriority n q = some b ∧ b ≤ a
  zephyr_range : ∀ p : Nat, p ≤ 255 →
    ∃ a, osalToZephyrPriority n p = some a ∧ 0 ≤ a ∧ a ≤ (n : Int) - 1
  /-- As long as the way back does not overflow. -/
  zephyr_kept : ∀ p : Nat, p ≤ 255 → p * (n - 1) - p * (n - 1) % 255 < 2 ^ 31 →
    ((∀ k, (· >>= setQueriedZephyr n)^[k] (osalToZephyrPriority n p) =
      osalToZephyrPriority n p) ↔ n - 1 ∣ p * (n - 1) % 255)
  zephyr_all : 255 * (n - 1) < 2 ^ 31 → ((∀ p : Nat, p ≤ 255 → ∀ k,
    (· >>= setQueriedZephyr n)^[k] (osalToZephyrPriority n p) = osalToZephyrPriority n p) ↔
      n - 1 ∣ 255 ∨ 255 ∣ n - 1)

/-- The mapping is monotone and in range. A queried priority that is set again, any number of
times, stays on its level exactly where the way back has no rest. -/
theorem queriedPriorities_kept (hn2 : 2 ≤ n) (hn : n < 2 ^ 24) : LevelsKept n where
  freertos_mono p q hpq hq := by
    rw [osalToFreertosPriority_eq hn (hpq.trans hq), osalToFreertosPriority_eq hn hq]
    exact levelOf_mono hpq
  freertos_range p hp := by
    rw [osalToFreertosPriority_eq hn hp]
    exact levelOf_le hp
  freertos_kept p hp := freertos_kept_iff hn2 hn hp
  freertos_all := by
    rw [← forall_rest_iff (by omega)]
    exact forall₂_congr fun p hp => freertos_kept_iff hn2 hn hp
  zephyr_mono p q hpq hq := by
    have hle := levelOf_mono (m := n - 1) hpq
    exact ⟨_, _, osalToZephyrPriority_eq hn2 hn (hpq.trans hq),
      osalToZephyrPriority_eq hn2 hn hq, by omega⟩
  zephyr_range p hp := ⟨_, osalToZephyrPriority_eq hn2 hn hp, by omega, by omega⟩
  zephyr_kept p hp hfits := zephyr_kept_iff hn2 hn hp hfits
  zephyr_all hfits := by
    rw [← forall_rest_iff (by omega)]
    refine forall₂_congr fun p hp => zephyr_kept_iff hn2 hn hp ?_
    have := Nat.mul_le_mul_right (n - 1) hp
    omega

end

/-- Sixteen levels. -/
theorem queriedPriorities_kept_sixteen : LevelsKept 16 :=
  queriedPriorities_kept (by decide) (by decide)

/-- With eight levels the priority 128 is on level 3, is queried as 109, and is on level 2 after
that; on Zephyr with the numbers from the other end. -/
theorem queriedPriority_lost :
    (osalToFreertosPriority 8 128 = 3 ∧ freertosToOsalPriority 8 3 = 109 ∧
      setQueriedFreertos 8 3 = 2) ∧
    (osalToZephyrPriority 8 128 = some 4 ∧ zephyrToOsalPriority 8 4 = some 109 ∧
      setQueriedZephyr 8 4 = some 5) := by
  decide

end MicrOsal.Priority
