import QDaemon.Bits.PowerOfTwo

/-!
# Shared helpers

The return codes of `qd_common.h` that the models use, and the two
capacity-rounding helpers of the repository.  `nextPow264` serves the thread
pool, `roundUpPow2` the channel; both work modulo `2 ^ 64`, so a request above
`2 ^ 63` rounds to zero.
-/

namespace QDaemon.Common

open Bits

def qdOk : Int := 0
def qdErrNomem : Int := -2
def qdErrInval : Int := -3
def qdErrBusy : Int := -4
def qdErrTimeout : Int := -5
def qdErrIo : Int := -6
def qdErrNoent : Int := -7
def qdErrProto : Int := -10
def qdErrAgain : Int := -12

/-- `qd_next_pow2_64`: decrement, smear, increment, all on a 64-bit word. -/
def nextPow264 (x : Nat) : Nat :=
  (smear64 ((x + (2 ^ 64 - 1)) % 2 ^ 64) + 1) % 2 ^ 64

/-- `round_up_pow2` of the channel, which answers one for an empty request. -/
def roundUpPow2 (n : Nat) : Nat :=
  if n = 0 then 1 else (smear64 (n - 1) + 1) % 2 ^ 64

/-- The signed difference the ring compares with zero: two `size_t` values
converted to `intptr_t` and subtracted. -/
def signedDiff (left right : Nat) : Int :=
  ((left : Int) - right).bmod (2 ^ 64)

variable {n left right : Nat}

theorem size_pred_le (bound : n ≤ 2 ^ 63) : (n - 1).size ≤ 63 := by
  rw [Nat.size_le]
  omega

/-- Rounding a 64-bit request gives the power of two above its predecessor. -/
theorem nextPow264_eq (positive : 1 ≤ n) (bound : n ≤ 2 ^ 63) :
    nextPow264 n = 2 ^ (n - 1).size := by
  have pred : (n + (2 ^ 64 - 1)) % 2 ^ 64 = n - 1 := by omega
  have exponent : 2 ^ (n - 1).size ≤ 2 ^ 63 := Nat.pow_le_pow_right (by omega) (size_pred_le bound)
  have nonzero : 0 < 2 ^ (n - 1).size := Nat.two_pow_pos _
  rw [nextPow264, pred, smear64_eq (by omega)]
  omega

theorem roundUpPow2_eq (positive : 1 ≤ n) (bound : n ≤ 2 ^ 63) :
    roundUpPow2 n = 2 ^ (n - 1).size := by
  have exponent : 2 ^ (n - 1).size ≤ 2 ^ 63 := Nat.pow_le_pow_right (by omega) (size_pred_le bound)
  have nonzero : 0 < 2 ^ (n - 1).size := Nat.two_pow_pos _
  rw [roundUpPow2, if_neg (by omega), smear64_eq (by omega)]
  omega

/-- A request that no 64-bit power of two covers rounds to zero. -/
theorem roundUpPow2_eq_zero (low : 2 ^ 63 < n) (high : n < 2 ^ 64) : roundUpPow2 n = 0 := by
  have size : (n - 1).size = 64 := by
    have upper : (n - 1).size ≤ 64 := Nat.size_le.mpr (by omega)
    have lower : 63 < (n - 1).size := Nat.lt_size.mpr (by omega)
    omega
  rw [roundUpPow2, if_neg (by omega), smear64_eq (by omega), size]
  rfl

/-- Two 64-bit values have signed difference zero only when they are equal. -/
theorem signedDiff_eq_zero_iff (leftBound : left < 2 ^ 64) (rightBound : right < 2 ^ 64) :
    signedDiff left right = 0 ↔ left = right := by
  rw [signedDiff, ← Int.dvd_iff_bmod_eq_zero]
  constructor
  · rintro ⟨multiple, equal⟩
    omega
  · rintro rfl
    simp

/-- Subtraction of 64-bit counters that have not wrapped. -/
theorem wrappedSub_eq (le : right ≤ left) (leftLt : left < 2 ^ 64) :
    (left + 2 ^ 64 - right) % 2 ^ 64 = left - right := by
  omega

/-- The signed difference of two wrapped counters that are less than half a
turn apart. -/
theorem signedDiff_wrapped {distance : Int} (equal : (left : Int) - right = distance)
    (low : -2 ^ 63 ≤ distance) (high : distance < 2 ^ 63) :
    signedDiff (left % 2 ^ 64) (right % 2 ^ 64) = distance := by
  rw [signedDiff, Int.bmod_def]
  split <;> omega

end QDaemon.Common
