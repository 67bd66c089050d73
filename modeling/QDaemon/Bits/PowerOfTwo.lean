import Mathlib.Data.Nat.Bitwise
import Mathlib.Data.Nat.Size
import Mathlib.Data.Int.ModEq

/-!
# Masks and rounding to powers of two

Bit smearing copies the highest set bit of a word into every lower position.
Applied to the predecessor of a positive number it yields one less than the
least power of two not below that number.  The mask facts turn the index
computation of a ring buffer into a remainder.
-/

namespace QDaemon.Bits

/-- Or a word with its own right shift. -/
def smearBy (shift x : Nat) : Nat :=
  x ||| (x >>> shift)

/-- The six shifts that smear a 64-bit word. -/
def smear64 (x : Nat) : Nat :=
  smearBy 32 (smearBy 16 (smearBy 8 (smearBy 4 (smearBy 2 (smearBy 1 x)))))

/-- `y` has a bit wherever one of the `width` positions of `x` from there on
has one. -/
def Smeared (width x y : Nat) : Prop :=
  ∀ i, y.testBit i = true ↔ ∃ j, j < width ∧ x.testBit (i + j) = true

theorem smeared_one (x : Nat) : Smeared 1 x x := by
  intro i
  constructor
  · intro bit
    exact ⟨0, by omega, bit⟩
  · rintro ⟨j, bound, bit⟩
    obtain rfl : j = 0 := by omega
    exact bit

/-- One smearing step doubles the window. -/
theorem Smeared.smearBy {width x y : Nat} (smeared : Smeared width x y) :
    Smeared (width + width) x (smearBy width y) := by
  intro i
  rw [Bits.smearBy, Nat.testBit_or, Nat.testBit_shiftRight, Bool.or_eq_true,
    smeared i, smeared (width + i)]
  constructor
  · rintro (⟨j, bound, bit⟩ | ⟨j, bound, bit⟩)
    · exact ⟨j, by omega, bit⟩
    · refine ⟨width + j, by omega, ?_⟩
      rwa [show i + (width + j) = width + i + j by omega]
  · rintro ⟨j, bound, bit⟩
    by_cases near : j < width
    · exact .inl ⟨j, near, bit⟩
    · refine .inr ⟨j - width, by omega, ?_⟩
      rwa [show width + i + (j - width) = i + j by omega]

theorem smeared_smear64 (x : Nat) : Smeared 64 x (smear64 x) :=
  (smeared_one x).smearBy.smearBy.smearBy.smearBy.smearBy.smearBy

/-- Smearing a 64-bit word sets exactly the bits up to its highest one. -/
theorem smear64_eq {x : Nat} (bound : x < 2 ^ 64) : smear64 x = 2 ^ x.size - 1 := by
  apply Nat.eq_of_testBit_eq
  intro i
  rw [Nat.testBit_two_pow_sub_one, Bool.eq_iff_iff, smeared_smear64 x i, decide_eq_true_iff]
  constructor
  · rintro ⟨j, -, bit⟩
    have large : 2 ^ (i + j) ≤ x := Nat.ge_two_pow_of_testBit bit
    have := Nat.lt_size.mpr large
    omega
  · intro below
    -- the highest set bit lies inside the window because the word has 64 bits
    have sizeBound : x.size ≤ 64 := Nat.size_le.mpr bound
    refine ⟨x.size - 1 - i, by omega, ?_⟩
    rw [show i + (x.size - 1 - i) = x.size - 1 by omega]
    have lower : 2 ^ (x.size - 1) ≤ x := Nat.lt_size.mp (by omega)
    have upper : x < 2 ^ (x.size - 1 + 1) := by
      rw [show x.size - 1 + 1 = x.size by omega]
      exact Nat.lt_size_self x
    have quotient : x / 2 ^ (x.size - 1) = 1 :=
      Nat.div_eq_of_lt_le (by omega) (by rw [pow_succ] at upper; omega)
    rw [Nat.testBit_eq_decide_div_mod_eq, quotient]
    rfl

/-- Masking with one less than a power of two takes a remainder. -/
theorem land_pred_eq_mod {capacity : Nat} (power : ∃ k, capacity = 2 ^ k) (i : Nat) :
    i &&& (capacity - 1) = i % capacity := by
  obtain ⟨k, rfl⟩ := power
  exact Nat.and_two_pow_sub_one_eq_mod i k

/-- Two positions less than a capacity apart use different cells. -/
theorem mod_ne_of_lt {capacity i j : Nat} (less : i < j) (near : j < i + capacity) :
    i % capacity ≠ j % capacity := by
  intro equal
  have divides : capacity ∣ j - i := (Nat.modEq_iff_dvd' less.le).mp equal
  have := Nat.le_of_dvd (by omega) divides
  omega

/-- A window of a whole capacity contains a position for every cell. -/
theorem exists_mod_eq_of_window {capacity : Nat} (start pos : Nat) (positive : 0 < capacity) :
    ∃ i, start ≤ i ∧ i < start + capacity ∧ i % capacity = pos % capacity := by
  have small := Nat.mod_lt start positive
  have whole := Nat.div_add_mod start capacity
  refine ⟨start + (pos + capacity - start % capacity) % capacity, by omega, ?_, ?_⟩
  · have := Nat.mod_lt (pos + capacity - start % capacity) positive
    omega
  · rw [Nat.add_mod_mod]
    calc (start + (pos + capacity - start % capacity)) % capacity
        = (pos + capacity * (start / capacity + 1)) % capacity := by
          congr 1
          rw [Nat.mul_add]
          omega
      _ = pos % capacity := Nat.add_mul_mod_self_left _ _ _

end QDaemon.Bits
