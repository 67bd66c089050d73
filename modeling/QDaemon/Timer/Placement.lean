import QDaemon.Bits.PowerOfTwo
import QDaemon.Timer.Core

/-!
# Where a timer is placed

The slot of a timer on its level is determined by its expiry.  On level zero the
expiry is within the next 256 ticks, so the slot is left exactly at the expiry; on
a higher level the tick has not reached the expiry's slot yet, so the slot will be
cascaded at the expiry or before.
-/

namespace QDaemon.Timer

open Bits

universe u

/-- The tick has not passed the slot of an expiry on a level. -/
def Ahead (tick expires : Nat) : Nat → Prop
  | 0 => tick ≤ expires ∧ expires < tick + 256
  | level + 1 => tick / 256 ^ (level + 1) < expires / 256 ^ (level + 1)

/-- The slot of an expiry on a level. -/
def slotOf (expires level : Nat) : Nat :=
  expires / 256 ^ level % 256

theorem slotOf_lt (expires level : Nat) : slotOf expires level < 256 := Nat.mod_lt _ (by decide)

variable {expires tick level : Nat}

theorem Ahead.le (ahead : Ahead tick expires level) : tick ≤ expires := by
  cases level with
  | zero => exact ahead.1
  | succ level =>
    by_contra later
    exact absurd (Nat.div_le_div_right (Nat.le_of_not_le later)) (Nat.not_le.mpr ahead)

/-- A distance of at least a slot's width crosses a slot. -/
theorem ahead_of_width (far : tick + 256 ^ (level + 1) ≤ expires) :
    Ahead tick expires (level + 1) := by
  have width : 0 < 256 ^ (level + 1) := Nat.pow_pos (by decide)
  have shifted := Nat.div_le_div_right (c := 256 ^ (level + 1)) far
  rw [Nat.add_div_right _ width] at shifted
  exact shifted

theorem shiftRight_land_255 (n level : Nat) : (n >>> (level * 8)) &&& 255 = slotOf n level := by
  have mask : (255 : Nat) = 2 ^ 8 - 1 := rfl
  rw [mask, Nat.and_two_pow_sub_one_eq_mod, Nat.shiftRight_eq_div_pow, Nat.mul_comm, Nat.pow_mul]
  rfl

/-- `calculate_slot` always names a slot of the wheel. -/
theorem calculateSlot_lt (tick expires : Nat) :
    (calculateSlot tick expires).1 < 4 ∧ (calculateSlot tick expires).2 < 256 := by
  have slotLt (n level : Nat) : (n >>> (level * 8)) &&& 255 < 256 :=
    shiftRight_land_255 n level ▸ slotOf_lt n level
  simp only [calculateSlot]
  generalize (expires + 2 ^ 64 - tick) % 2 ^ 64 = delta
  generalize (tick + delta) % 2 ^ 64 = sum
  split
  · exact ⟨by simp, slotLt _ 0⟩
  split
  · exact ⟨by simp, slotLt _ 1⟩
  split
  · exact ⟨by simp, slotLt _ 2⟩
  · exact ⟨by simp, slotLt _ 3⟩

/-- `calculate_slot` places an expiry that has not passed ahead of the tick. -/
theorem calculateSlot_spec (due : tick ≤ expires) (bounded : expires < 2 ^ 64) :
    (calculateSlot tick expires).1 < 4 ∧
      (calculateSlot tick expires).2 = slotOf expires (calculateSlot tick expires).1 ∧
      Ahead tick expires (calculateSlot tick expires).1 := by
  have delta : (expires + 2 ^ 64 - tick) % 2 ^ 64 = expires - tick := by omega
  have sum : (tick + (expires - tick)) % 2 ^ 64 = expires := by omega
  have slot (level : Nat) := shiftRight_land_255 expires level
  simp only [calculateSlot, delta, sum]
  split
  · exact ⟨by simp, slot 0, due, by omega⟩
  split
  · exact ⟨by simp, slot 1, ahead_of_width (by omega)⟩
  split
  · exact ⟨by simp, slot 2, ahead_of_width (by omega)⟩
  · exact ⟨by simp, slot 3, ahead_of_width (by omega)⟩

section Tick

variable {T : Type u} {wheel : Wheel T}

theorem tickSlot_eq (level : Nat) : wheel.tickSlot level = slotOf wheel.currentTick level :=
  shiftRight_land_255 _ _

theorem atBoundary_iff (level : Nat) :
    wheel.AtBoundary level ↔ wheel.currentTick % 256 ^ level = 0 := by
  rw [Wheel.AtBoundary, Nat.and_two_pow_sub_one_eq_mod, Nat.mul_comm, Nat.pow_mul]

end Tick

/-- On level zero the slot of the tick holds exactly the timers that expire
now. -/
theorem expires_eq_of_slot (ahead : Ahead tick expires 0)
    (same : slotOf expires 0 = slotOf tick 0) : expires = tick := by
  obtain ⟨low, high⟩ := ahead
  simp only [slotOf] at same
  omega

theorem Ahead.succ_zero (ahead : Ahead tick expires 0) (other : slotOf expires 0 ≠ slotOf tick 0) :
    Ahead (tick + 1) expires 0 := by
  have different : expires ≠ tick := fun same => other (same ▸ rfl)
  obtain ⟨low, high⟩ := ahead
  exact ⟨by omega, by omega⟩

variable (ahead : Ahead tick expires (level + 1))
include ahead

/-- A tick that is not at the boundary of a level stays behind the expiry's
slot. -/
theorem Ahead.succ_of_not_boundary
    (inside : (tick + 1) % 256 ^ (level + 1) ≠ 0) : Ahead (tick + 1) expires (level + 1) := by
  rw [Ahead, Nat.succ_div_of_not_dvd fun divides => inside (Nat.mod_eq_zero_of_dvd divides)]
  exact ahead

/-- At the boundary of a level only the slot that the tick enters is reached. -/
theorem Ahead.succ_of_slot (other : slotOf expires (level + 1) ≠ slotOf (tick + 1) (level + 1)) :
    Ahead (tick + 1) expires (level + 1) := by
  have reached : (tick + 1) / 256 ^ (level + 1) ≤ expires / 256 ^ (level + 1) := by
    rw [Nat.succ_div]
    rw [Ahead] at ahead
    split <;> omega
  refine Nat.lt_of_le_of_ne reached fun same => other ?_
  rw [slotOf, ← same, slotOf]

/-- A timer of a higher level does not expire before the next tick. -/
theorem Ahead.succ_le : tick + 1 ≤ expires := by
  by_contra later
  have before : expires / 256 ^ (level + 1) ≤ tick / 256 ^ (level + 1) :=
    Nat.div_le_div_right (by omega)
  exact absurd ahead (Nat.not_lt.mpr before)

end QDaemon.Timer
