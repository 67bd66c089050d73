import QDaemon.Bits.PowerOfTwo

/-!
# Windows of a circular array

A circular array of `size` cells is read at positions that count up without end;
position `p` is stored in cell `p % size`.  `Holds cells size start items` says
that the items are found from position `start` on.
-/

namespace QDaemon.Circular

universe u

variable {α : Type u} {cells : Nat → α} {size start : Nat} {items more : List α}

/-- The distance between two positions less than a round apart, from their cells. -/
theorem distance_eq {first second : Nat} (ordered : first ≤ second) (near : second < first + size) :
    second - first = if first % size ≤ second % size then second % size - first % size
      else size - first % size + second % size := by
  have firstEq := Nat.div_add_mod first size
  have secondEq := Nat.div_add_mod second size
  have positive : 0 < size := by omega
  have firstLt := Nat.mod_lt first positive
  have lower : first / size ≤ second / size := Nat.div_le_div_right ordered
  have upper : second / size ≤ first / size + 1 := by
    rw [← Nat.add_div_right first positive]
    exact Nat.div_le_div_right (Nat.le_of_lt near)
  obtain same | next : second / size = first / size ∨ second / size = first / size + 1 := by
    omega
  · rw [same] at secondEq
    rw [if_pos (by omega)]
    omega
  · rw [next, Nat.mul_add] at secondEq
    rw [if_neg (by omega)]
    omega

/-- The items are stored from position `start` on. -/
def Holds (cells : Nat → α) (size start : Nat) (items : List α) : Prop :=
  ∀ offset (inside : offset < items.length), cells ((start + offset) % size) = items[offset]

theorem holds_nil : Holds cells size start [] := fun _ inside => absurd inside (Nat.not_lt_zero _)

theorem holds_append : Holds cells size start (items ++ more) ↔
      Holds cells size start items ∧ Holds cells size (start + items.length) more := by
  constructor
  · intro all
    constructor
    · intro offset inside
      have item := all offset (by simp; omega)
      rwa [List.getElem_append_left inside] at item
    · intro offset inside
      have item := all (items.length + offset) (by simp [inside])
      rw [List.getElem_append_right (Nat.le_add_right _ _)] at item
      simpa only [Nat.add_sub_cancel_left, Nat.add_assoc] using item
  · rintro ⟨front, back⟩ offset inside
    by_cases early : offset < items.length
    · rw [List.getElem_append_left early]
      exact front offset early
    · have late : items.length ≤ offset := Nat.not_lt.mp early
      rw [List.getElem_append_right late, ← back]
      congr 2
      omega

theorem holds_singleton {item : α} :
    Holds cells size start [item] ↔ cells (start % size) = item := by
  constructor
  · intro holds
    exact holds 0 (Nat.zero_lt_one)
  · intro eq offset inside
    obtain rfl : offset = 0 := by
      rw [List.length_singleton] at inside
      omega
    exact eq

variable (holds : Holds cells size start items)
include holds

theorem Holds.drop (count : Nat) (enough : count ≤ items.length) :
    Holds cells size (start + count) (items.drop count) := by
  have split := holds
  rw [← List.take_append_drop count items, holds_append, List.length_take,
    Nat.min_eq_left enough] at split
  exact split.2

/-- Writing a cell that no position of the window uses. -/
theorem Holds.update {position : Nat} (item : α)
    (outside : ∀ offset < items.length, position % size ≠ (start + offset) % size) :
    Holds (Function.update cells (position % size) item) size start items := by
  intro offset inside
  rw [Function.update_of_ne (outside offset inside).symm]
  exact holds offset inside

/-- Writing the cell after the window extends it. -/
theorem Holds.push (room : items.length < size) (item : α) :
    Holds (Function.update cells ((start + items.length) % size) item) size start
      (items ++ [item]) := by
  apply holds_append.mpr
  constructor
  · apply holds.update
    intro offset inside
    exact (Bits.mod_ne_of_lt (by omega) (by omega)).symm
  · exact holds_singleton.mpr (Function.update_self _ _ _)

end QDaemon.Circular
