import Mathlib.Data.BitVec

/-!
# MicrOsal.Core

The vocabulary every modelled component shares: OSAL error codes and the tick
type with its two reserved values.

`tick_t` is an unsigned integer of 16, 32 or 64 bits depending on the
configuration, so ticks are `BitVec w` for an arbitrary width `w` and the
"wrap-safe" differences of the source are bit-vector subtractions. A machine
that needs the time carries the true (unbounded) tick count and reads it
through `clockTicks`.
-/

namespace MicrOsal

/-- `osal::error_code`. -/
inductive ErrorCode
  | ok
  | timeout
  | wouldBlock
  | invalidArgument
  | notSupported
  | outOfResources
  | permissionDenied
  | alreadyExists
  | notInitialized
  | overflow
  | underflow
  | deadlockDetected
  | notOwner
  | isrInvalid
  | barrierSerial
  | ownerDied
  | notRecoverable
  | cancelled
  | unknown
  deriving DecidableEq, Repr

/-- `osal::tick_t` for a configuration with `w`-bit ticks. -/
abbrev Tick (w : Nat) := BitVec w

/-- `osal::NO_WAIT`. -/
def noWait {w : Nat} : Tick w := 0

/-- `osal::WAIT_FOREVER`, the largest tick value. -/
def waitForever {w : Nat} : Tick w := BitVec.allOnes w

/-- `osal_clock_ticks`: the true tick count as the tick type shows it. -/
def clockTicks (w clock : Nat) : Tick w := BitVec.ofNat w clock

/-- The difference of two readings of a wrapping counter is the true difference,
wrapped. -/
theorem elapsed_eq (w : Nat) {start now : Nat} (h : start ≤ now) :
    BitVec.ofNat w now - BitVec.ofNat w start = BitVec.ofNat w (now - start) := by
  obtain ⟨d, rfl⟩ := Nat.exists_eq_add_of_le h
  rw [BitVec.ofNat_add, BitVec.add_comm, BitVec.add_sub_cancel, Nat.add_sub_cancel_left]

/-- `std::size_t` is 64 bits wide; arithmetic on it wraps at this modulus. -/
def sizeModulus : Nat := 2 ^ 64

/-- `--` on a `std::size_t`. -/
def sizeDecr (n : Nat) : Nat := if n = 0 then sizeModulus - 1 else n - 1

theorem sizeDecr_of_pos {n : Nat} (h : 0 < n) : sizeDecr n = n - 1 := if_neg (by omega)

end MicrOsal
