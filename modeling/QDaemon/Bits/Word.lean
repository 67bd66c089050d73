import QDaemon.Bits.PowerOfTwo

/-!
# Arithmetic of 64-bit words

Natural numbers stand for the values of `size_t`; sums and differences wrap at
`2 ^ 64`.
-/

namespace QDaemon.Bits

def wordAdd (left right : Nat) : Nat :=
  (left + right) % 2 ^ 64

def wordSub (left right : Nat) : Nat :=
  (left + (2 ^ 64 - right % 2 ^ 64)) % 2 ^ 64

/-- Round up with a mask: `(x + (a - 1)) & ~(a - 1)`. -/
def wordAlign (x a : Nat) : Nat :=
  (BitVec.ofNat 64 (wordAdd x (wordSub a 1)) &&& ~~~ BitVec.ofNat 64 (wordSub a 1)).toNat

variable {right left : Nat}

theorem wordAdd_eq (bound : left + right < 2 ^ 64) : wordAdd left right = left + right :=
  Nat.mod_eq_of_lt bound

theorem wordSub_eq (ordered : right ≤ left) (bound : left < 2 ^ 64) :
    wordSub left right = left - right := by
  rw [wordSub]
  omega

/-- The difference of two counters, when the first one is incremented. -/
theorem wordSub_wordAdd_left {count : Nat} (difference : wordSub left right = count)
    (bound : count + 1 < 2 ^ 64) : wordSub (wordAdd left 1) right = count + 1 := by
  rw [wordSub] at difference ⊢
  rw [wordAdd]
  omega

/-- The difference of two counters, when the second one is incremented. -/
theorem wordSub_wordAdd_right {count : Nat} (difference : wordSub left right = count)
    (positive : 0 < count) : wordSub left (wordAdd right 1) = count - 1 := by
  rw [wordSub] at difference ⊢
  rw [wordAdd]
  omega

/-- Clearing the low bits of a word. -/
theorem and_not_low {k : Nat} (x : BitVec 64) :
    x &&& ~~~ BitVec.ofNat 64 (2 ^ k - 1) = x >>> k <<< k := by
  apply BitVec.eq_of_getLsbD_eq
  intro i below
  rw [BitVec.getLsbD_and, BitVec.getLsbD_not, BitVec.getLsbD_ofNat, Nat.testBit_two_pow_sub_one,
    BitVec.getLsbD_shiftLeft, BitVec.getLsbD_ushiftRight]
  by_cases low : i < k
  · simp [low, below]
  · simp [low, below, Nat.add_sub_cancel' (Nat.not_lt.mp low)]

theorem wordAlign_two_pow {x k : Nat} (bound : k < 64) :
    wordAlign x (2 ^ k) = wordAdd x (2 ^ k - 1) / 2 ^ k * 2 ^ k := by
  have small : 2 ^ k < 2 ^ 64 := Nat.pow_lt_pow_right (by decide) bound
  have sumLt : wordAdd x (2 ^ k - 1) < 2 ^ 64 := Nat.mod_lt _ (by decide)
  rw [wordAlign, wordSub_eq (Nat.two_pow_pos k) small, and_not_low, BitVec.toNat_shiftLeft,
    BitVec.toNat_ushiftRight, BitVec.toNat_ofNat, Nat.mod_eq_of_lt sumLt, Nat.shiftRight_eq_div_pow,
    Nat.shiftLeft_eq, Nat.mod_eq_of_lt ((Nat.div_mul_le_self _ _).trans_lt sumLt)]

end QDaemon.Bits
