import MicrOsal.HostedQueue.Model
import MicrOsal.Lib.Checked

/-!
# MicrOsal.HostedQueue.AbsTimespec

`backend_timeout_adapter::decode` and `backend_timeout_adapter::to_abs_timespec`
(`common/backend_timeout_adapter.hpp`) in the integer types of a platform: `long` and `time_t` of
any width from 32 bits on.

No operation overflows, and the deadline is the time of the clock and the timeout, or the last
time that a `timespec` shows.
-/

namespace MicrOsal.HostedQueue

variable {w : Nat}

/-! ### The conversion, operation by operation -/

/-- `timeout_kind`. -/
inductive TimeoutKind
  | noWait
  | waitForever
  | finite
  deriving DecidableEq

/-- `timeout_value`. -/
structure TimeoutValue where
  kind : TimeoutKind
  finiteMs : Nat

/-- `backend_timeout_adapter::decode`. -/
def decode (timeout : Tick w) : TimeoutValue :=
  if timeout = noWait then ⟨.noWait, 0⟩
  else if timeout = waitForever then ⟨.waitForever, 0⟩
  else ⟨.finite, timeout.toNat⟩

/-- The integer types of a platform. -/
structure Platform where
  longBits : Nat
  timeBits : Nat

namespace Platform

/-- `std::numeric_limits<time_t>::max()`. -/
def maxSeconds (p : Platform) : Nat := 2 ^ (p.timeBits - 1) - 1

/-- The result of an operation on `long`. -/
abbrev long (p : Platform) (x : Int) : Option Int := inRange (Signed p.longBits) x

/-- The result of an operation on `time_t`. -/
abbrev time (p : Platform) (x : Int) : Option Int := inRange (Signed p.timeBits) x

end Platform

/-- The result of an operation on `std::uint64_t`. -/
abbrev word (x : Int) : Option Int := inRange (Unsigned 64) x

/-- The carry of the nanoseconds into the seconds. -/
def carried (p : Platform) (seconds nsec : Int) : Option (Int × Int) :=
  if 1000000000 ≤ nsec then do
    let seconds ← word (seconds + 1)
    let nsec ← p.long (nsec - 1000000000)
    return (seconds, nsec)
  else return (seconds, nsec)

/-- The sum of the seconds, or the last time there is. -/
def limited (p : Platform) (now : Timespec) (seconds nsec : Int) : Option Timespec := do
  let left ← p.time (p.maxSeconds - now.tvSec)
  let left ← word left
  if left < seconds then return ⟨p.maxSeconds, 999999999⟩
  else
    let added ← p.time seconds
    let sec ← p.time (now.tvSec + added)
    return ⟨sec.toNat, nsec.toNat⟩

/-- `backend_timeout_adapter::to_abs_timespec` when the clock shows `now`, with every operation in
the type it is done in; there is no value if one of them leaves its range. -/
def toAbsTimespecIn (p : Platform) (now : Timespec) (timeout : Tick w) : Option Timespec := do
  let value := decode timeout
  let ms : Int := if value.kind = .finite then value.finiteMs else 0
  let restNs ← word (ms % 1000 * 1000000)
  let restNs ← p.long restNs
  let nsec ← p.long (now.tvNsec + restNs)
  let (seconds, nsec) ← carried p (ms / 1000) nsec
  limited p now seconds nsec

/-- The types have the bits that the standard or the platforms promise. -/
structure Platform.Ok (p : Platform) : Prop where
  long : 32 ≤ p.longBits
  time : 32 ≤ p.timeBits
  time64 : p.timeBits ≤ 64

/-- What `clock_gettime` shows on the platform. -/
structure Timespec.Ok (p : Platform) (now : Timespec) : Prop where
  sec : now.tvSec ≤ p.maxSeconds
  nsec : now.tvNsec < 1000000000

/-- The milliseconds that are waited for. -/
def timeoutMs (timeout : Tick w) : Nat := if finite timeout then timeout.toNat else 0

theorem decode_ms (timeout : Tick w) :
    (if (decode timeout).kind = .finite then ((decode timeout).finiteMs : Int) else 0) =
      timeoutMs timeout := by
  unfold decode timeoutMs finite
  by_cases hno : timeout = noWait
  · simp [hno]
  · by_cases hforever : timeout = waitForever
    · subst hforever
      simp [hno]
    · simp [hno, hforever]

section Platform

variable {p : Platform}

theorem Platform.Ok.long_bind (hp : p.Ok) {β : Type} {x : Int} {n : Nat} (hx : x = n)
    (hn : n < 2 ^ 31) (f : Int → Option β) : (p.long x >>= f) = f n := by
  subst hx
  have hpow : 2 ^ 31 ≤ 2 ^ (p.longBits - 1) :=
    Nat.pow_le_pow_right (by decide) (by have := hp.long; omega)
  exact inRange_bind (Signed.of_lt (by omega)) f

theorem Platform.time_bind {β : Type} {x : Int} {n : Nat} (hx : x = n)
    (hn : n ≤ p.maxSeconds) (f : Int → Option β) : (p.time x >>= f) = f n := by
  subst hx
  have hpos : 0 < 2 ^ (p.timeBits - 1) := Nat.two_pow_pos _
  unfold Platform.maxSeconds at hn
  exact inRange_bind (Signed.of_lt (by omega)) f

theorem Platform.Ok.maxSeconds_lt (hp : p.Ok) : p.maxSeconds < 2 ^ 63 := by
  have hpow : 2 ^ (p.timeBits - 1) ≤ 2 ^ 63 :=
    Nat.pow_le_pow_right (by decide) (by have := hp.time64; omega)
  unfold Platform.maxSeconds
  omega

theorem carried_eq (hp : p.Ok) {seconds nsec : Nat} (hseconds : seconds < 2 ^ 63)
    (hnsec : nsec < 2 ^ 31) :
    carried p seconds nsec = some (if 1000000000 ≤ nsec then
      (((seconds + 1 : Nat) : Int), ((nsec - 1000000000 : Nat) : Int)) else (seconds, nsec)) := by
  unfold carried
  by_cases hcarry : 1000000000 ≤ nsec
  · rw [if_pos (by omega), if_pos hcarry, unsigned_bind (n := seconds + 1) (by omega) (by omega),
      hp.long_bind (n := nsec - 1000000000) (by omega) (by omega)]
    rfl
  · rw [if_neg (by omega), if_neg hcarry]
    rfl

theorem limited_eq (hp : p.Ok) {now : Timespec} (hnow : now.Ok p) (seconds nsec : Nat) :
    limited p now seconds nsec = some (if p.maxSeconds - now.tvSec < seconds then
      ⟨p.maxSeconds, 999999999⟩ else ⟨now.tvSec + seconds, nsec⟩) := by
  have hsec := hnow.sec
  have hmax := hp.maxSeconds_lt
  unfold limited
  rw [Platform.time_bind (n := p.maxSeconds - now.tvSec) (by omega) (by omega),
    unsigned_bind (n := p.maxSeconds - now.tvSec) rfl (by omega)]
  by_cases hlate : p.maxSeconds - now.tvSec < seconds
  · rw [if_pos (by omega), if_pos hlate]
    rfl
  · rw [if_neg (by omega), if_neg hlate, Platform.time_bind (n := seconds) rfl (by omega),
      Platform.time_bind (n := now.tvSec + seconds) (by omega) (by omega)]
    rfl

/-- The conversion in numbers, with its four cases. -/
theorem toAbsTimespec_cases (maxSeconds : Nat) (now : Timespec) (timeout : Tick w) :
    toAbsTimespec maxSeconds now timeout =
      if 1000000000 ≤ now.tvNsec + timeoutMs timeout % 1000 * 1000000 then
        if maxSeconds - now.tvSec < timeoutMs timeout / 1000 + 1 then ⟨maxSeconds, 999999999⟩
        else ⟨now.tvSec + (timeoutMs timeout / 1000 + 1),
          now.tvNsec + timeoutMs timeout % 1000 * 1000000 - 1000000000⟩
      else
        if maxSeconds - now.tvSec < timeoutMs timeout / 1000 then ⟨maxSeconds, 999999999⟩
        else ⟨now.tvSec + timeoutMs timeout / 1000,
          now.tvNsec + timeoutMs timeout % 1000 * 1000000⟩ := by
  rw [toAbsTimespec_def, timeoutMs]
  beta_reduce
  by_cases hcarry : 1000000000 ≤
      now.tvNsec + (if finite timeout = true then timeout.toNat else 0) % 1000 * 1000000
  · rw [if_pos hcarry, if_pos hcarry]
  · rw [if_neg hcarry, if_neg hcarry]

/-- No operation leaves its range, and the result is that of the model with numbers. -/
theorem toAbsTimespecIn_eq (hp : p.Ok) (hw : w ≤ 64) {now : Timespec} (hnow : now.Ok p)
    (timeout : Tick w) :
    toAbsTimespecIn p now timeout = some (toAbsTimespec p.maxSeconds now timeout) := by
  have hnsec := hnow.nsec
  have hms : timeoutMs timeout < 2 ^ 64 := by
    have hlt := timeout.isLt
    have hpow : 2 ^ w ≤ 2 ^ 64 := Nat.pow_le_pow_right (by decide) hw
    unfold timeoutMs
    split <;> omega
  rw [toAbsTimespec_cases, toAbsTimespecIn]
  dsimp only
  rw [decode_ms]
  generalize timeoutMs timeout = ms at *
  have hmod : ms % 1000 < 1000 := Nat.mod_lt _ (by decide)
  rw [unsigned_bind (n := ms % 1000 * 1000000) (by push_cast; rfl) (by omega),
    hp.long_bind (n := ms % 1000 * 1000000) rfl (by omega),
    hp.long_bind (n := now.tvNsec + ms % 1000 * 1000000) (by push_cast; rfl) (by omega)]
  rw [show (ms : Int) / 1000 = ((ms / 1000 : Nat) : Int) by push_cast; rfl,
    carried_eq hp (by omega) (by omega)]
  generalize now.tvNsec + ms % 1000 * 1000000 = nsec
  generalize ms / 1000 = seconds
  by_cases hcarry : 1000000000 ≤ nsec
  · rw [if_pos hcarry, if_pos hcarry]
    exact limited_eq hp hnow (seconds + 1) (nsec - 1000000000)
  · rw [if_neg hcarry, if_neg hcarry]
    exact limited_eq hp hnow seconds nsec

/-! ### The deadline -/

/-- A `timespec` with normalised nanoseconds shows one time only. -/
theorem Timespec.eq_ofNs {ts : Timespec} {ns : Nat} (hnsec : ts.tvNsec < 1000000000)
    (hns : ts.ns = ns) : ts = .ofNs ns := by
  subst hns
  obtain ⟨sec, nsec⟩ := ts
  dsimp only at hnsec
  simp only [Timespec.ofNs, Timespec.ns, Timespec.mk.injEq]
  omega

/-- The deadline is the timeout away, or the last time there is. -/
theorem toAbsTimespec_eq_ofNs {now : Timespec} (hnow : now.Ok p) (timeout : Tick w) :
    toAbsTimespec p.maxSeconds now timeout =
      .ofNs (min (now.ns + timeoutMs timeout * 1000000) (lastNs p.maxSeconds)) := by
  have hsec := hnow.sec
  have hnsec := hnow.nsec
  have hmod : timeoutMs timeout % 1000 < 1000 := Nat.mod_lt _ (by decide)
  have hdiv := Nat.div_add_mod (timeoutMs timeout) 1000
  rw [toAbsTimespec_cases]
  generalize timeoutMs timeout / 1000 = seconds at *
  generalize timeoutMs timeout % 1000 = millis at *
  split <;> split <;> refine Timespec.eq_ofNs ?_ ?_ <;>
    simp only [Timespec.ns, lastNs] <;> omega

theorem timeoutMs_of_ne {timeout : Tick w} (hforever : timeout ≠ waitForever) :
    timeoutMs timeout = timeout.toNat := by
  unfold timeoutMs finite
  by_cases hno : timeout = noWait
  · rw [if_neg (by simp [hno]), hno]
    exact BitVec.toNat_zero.symm
  · rw [if_pos (by simp [hno, hforever])]

/-- The deadlines of `w`-bit timeouts when the clock shows `now`. -/
structure ExactDeadlines (p : Platform) (w : Nat) (now : Timespec) : Prop where
  /-- Nothing overflows, and the nanoseconds are normalised. -/
  defined : ∀ timeout : Tick w,
    ∃ ts, toAbsTimespecIn p now timeout = some ts ∧ ts.tvNsec < 1000000000
  /-- The deadline is the timeout in milliseconds away, if the platform can show that. -/
  exact : ∀ (timeout : Tick w) (ts : Timespec), timeout ≠ waitForever →
    toAbsTimespecIn p now timeout = some ts →
    now.ns + timeout.toNat * 1000000 ≤ lastNs p.maxSeconds →
    ts.ns = now.ns + timeout.toNat * 1000000
  /-- Otherwise it is the last time that the platform can show. -/
  otherwise : ∀ (timeout : Tick w) (ts : Timespec), timeout ≠ waitForever →
    toAbsTimespecIn p now timeout = some ts →
    lastNs p.maxSeconds < now.ns + timeout.toNat * 1000000 →
    ts = ⟨p.maxSeconds, 999999999⟩
  noWait : toAbsTimespecIn p now (noWait : Tick w) = some now
  waitForever : toAbsTimespecIn p now (waitForever : Tick w) = some now
  mono : ∀ (timeout timeout' : Tick w) (ts ts' : Timespec), timeout ≤ timeout' →
    timeout' < MicrOsal.waitForever → toAbsTimespecIn p now timeout = some ts →
    toAbsTimespecIn p now timeout' = some ts' → ts.ns ≤ ts'.ns

/-- The deadline of a `timespec` is exact, normalised and monotone on every platform, for every
time of the clock and every timeout. -/
theorem absDeadlines_exact (hp : p.Ok) (hw : w ≤ 64) {now : Timespec} (hnow : now.Ok p) :
    ExactDeadlines p w now := by
  have heq : ∀ timeout : Tick w, toAbsTimespecIn p now timeout =
      some (.ofNs (min (now.ns + timeoutMs timeout * 1000000) (lastNs p.maxSeconds))) := by
    intro timeout
    rw [toAbsTimespecIn_eq hp hw hnow, toAbsTimespec_eq_ofNs hnow]
  have hns : ∀ n, (Timespec.ofNs n).ns = n := fun n => Nat.div_add_mod' n 1000000000
  have hlast : now.ns ≤ lastNs p.maxSeconds := by
    have hsec := hnow.sec
    have hnsec := hnow.nsec
    simp only [Timespec.ns, lastNs]
    omega
  have hstay : ∀ timeout : Tick w, timeoutMs timeout = 0 →
      toAbsTimespecIn p now timeout = some now := by
    intro timeout hzero
    rw [heq, hzero, Nat.zero_mul, Nat.add_zero, Nat.min_eq_left hlast,
      ← Timespec.eq_ofNs hnow.nsec rfl]
  refine ⟨fun timeout => ⟨_, heq timeout, Nat.mod_lt _ (by decide)⟩, ?_, ?_, ?_, ?_, ?_⟩
  · intro timeout ts hne hts hle
    rw [heq, timeoutMs_of_ne hne, Nat.min_eq_left hle] at hts
    rw [← Option.some.inj hts, hns]
  · intro timeout ts hne hts hlt
    rw [heq, timeoutMs_of_ne hne, Nat.min_eq_right hlt.le] at hts
    rw [← Option.some.inj hts]
    exact (Timespec.eq_ofNs (by dsimp only; decide) rfl).symm
  · exact hstay _ (by simp [timeoutMs, finite])
  · exact hstay _ (by simp [timeoutMs, finite])
  · intro timeout timeout' ts ts' hle hlt hts hts'
    have hlt' : timeout < MicrOsal.waitForever :=
      BitVec.lt_def.mpr (lt_of_le_of_lt (BitVec.le_def.mp hle) (BitVec.lt_def.mp hlt))
    rw [heq, timeoutMs_of_ne (BitVec.ne_of_lt hlt')] at hts
    rw [heq, timeoutMs_of_ne (BitVec.ne_of_lt hlt)] at hts'
    rw [← Option.some.inj hts, ← Option.some.inj hts', hns, hns]
    have := BitVec.le_def.mp hle
    omega

end Platform

/-- A platform of 32 bits a second before its last time, with 64-bit timeouts. -/
theorem absDeadlines_exact_last :
    ExactDeadlines ⟨32, 32⟩ 64 ⟨2147483646, 999999999⟩ :=
  absDeadlines_exact ⟨by decide, by decide, by decide⟩ (by decide) ⟨by decide, by decide⟩

end MicrOsal.HostedQueue
