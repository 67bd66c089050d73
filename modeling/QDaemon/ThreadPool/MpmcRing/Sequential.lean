import QDaemon.ThreadPool.MpmcRing.Core

/-!
# Undisturbed ring operations

What `qd_mpmc_ring_push` and `qd_mpmc_ring_pop` do when no other thread is in
the ring.  The two functions are what the atomic steps add up to; an operation
that reloads the same counter for ever has no result.  On a ring that holds a
list of tasks they are the operations of a bounded queue, with one exception: a
full ring of a single cell accepts another push.
-/

namespace QDaemon.ThreadPool.MpmcRing

open List Function Bits Common

universe u

variable {Task : Type u}

/-- `qd_mpmc_ring_push`, with whether it returned `QD_OK`. -/
def mpmcRingPush (ring : MpmcRing Task) (task : Task) : Option (MpmcRing Task × Bool) :=
  let pos := ring.tail
  let dif := signedDiff (ring.cell pos).seq pos
  if dif = 0 then
    some (setCell { ring with tail := (pos + 1) % 2 ^ 64 } pos ⟨(pos + 1) % 2 ^ 64, some task⟩,
      true)
  else if dif < 0 then some (ring, false)
  else none

/-- `qd_mpmc_ring_pop`, with the task it stored through its argument. -/
def mpmcRingPop (ring : MpmcRing Task) : Option (MpmcRing Task × Option Task) :=
  let pos := ring.head
  let dif := signedDiff (ring.cell pos).seq ((pos + 1) % 2 ^ 64)
  if dif = 0 then
    some (setCell { ring with head := (pos + 1) % 2 ^ 64 } pos
      ⟨(pos + ring.capacity) % 2 ^ 64, (ring.cell pos).task⟩, (ring.cell pos).task)
  else if dif < 0 then some (ring, none)
  else none

/-! ## Agreement with the atomic steps -/

/-- Let one thread run alone until it leaves the ring, for at most `fuel`
steps. -/
def solo : Nat → MpmcRing Task → Pc Task → Option (MpmcRing Task × Event Task)
  | 0, _, _ => none
  | fuel + 1, ring, pc =>
      match threadStep false ring pc with
      | (next, .idle, event) => some (next, event)
      | (next, pc, _) => solo fuel next pc

/-- The task an event hands to the caller. -/
def Event.task : Event Task → Option Task
  | .popOk _ task => task
  | _ => none

theorem setCell_setCell (ring : MpmcRing Task) (pos : Nat) (first second : MpmcCell Task) :
    (ring.setCell pos first).setCell pos second = ring.setCell pos second := by
  simp [setCell]

theorem cell_setCell_self (ring : MpmcRing Task) (pos : Nat) (value : MpmcCell Task) :
    (ring.setCell pos value).cell pos = value := by
  simp [setCell, cell]

variable {ring : MpmcRing Task}

theorem solo_push_spins {task : Task} (ahead : 0 < signedDiff (ring.cell ring.tail).seq ring.tail)
    (fuel : Nat) : solo fuel ring (.pushTail task) = none := by
  induction fuel using Nat.strong_induction_on with
  | _ fuel ih =>
    match fuel with
    | 0 => rfl
    | 1 => rfl
    | fuel + 2 =>
      have again := ih fuel (by omega)
      simpa [solo, threadStep, ne_of_gt ahead, not_lt.mpr ahead.le] using again

theorem solo_pop_spins (ahead : 0 < signedDiff (ring.cell ring.head).seq ((ring.head + 1) % 2 ^ 64))
    (fuel : Nat) : solo fuel ring .popHead = none := by
  induction fuel using Nat.strong_induction_on with
  | _ fuel ih =>
    match fuel with
    | 0 => rfl
    | 1 => rfl
    | fuel + 2 =>
      have again := ih fuel (by omega)
      simp only [solo, threadStep, if_neg (ne_of_gt ahead), if_neg (not_lt.mpr ahead.le)]
      exact again

/-- Five steps decide an undisturbed push: it returns what the function
computes, or it spins. -/
theorem solo_push (ring : MpmcRing Task) (task : Task) (fuel : Nat) :
    solo (fuel + 5) ring (.pushTail task) =
      (mpmcRingPush ring task).map fun result =>
        (result.1, if result.2 then .pushOk else .busy) := by
  rw [mpmcRingPush]
  by_cases equal : signedDiff (ring.cell ring.tail).seq ring.tail = 0
  · simp [solo, threadStep, equal, setCell_setCell, cell_setCell_self]
  · by_cases behind : signedDiff (ring.cell ring.tail).seq ring.tail < 0
    · simp [solo, threadStep, equal, behind]
    · rw [solo_push_spins (by omega)]
      simp [equal, behind]

/-- Five steps decide an undisturbed pop. -/
theorem solo_pop (ring : MpmcRing Task) (fuel : Nat) :
    (solo (fuel + 5) ring .popHead).map (fun result => (result.1, result.2.task)) =
      mpmcRingPop ring := by
  rw [mpmcRingPop]
  by_cases equal : signedDiff (ring.cell ring.head).seq ((ring.head + 1) % 2 ^ 64) = 0
  · simp only [solo, threadStep, if_pos equal]
    simp [cell, Event.task]
  · by_cases behind : signedDiff (ring.cell ring.head).seq ((ring.head + 1) % 2 ^ 64) < 0
    · simp only [solo, threadStep, if_neg equal, if_pos behind]
      rfl
    · rw [solo_pop_spins (by omega)]
      simp only [if_neg equal, if_neg behind]
      rfl

/-! ## The ring as a bounded queue -/

/-- The ring holds these tasks, oldest first, and nobody is inside it.  The
positions are counted from `head` without wrapping. -/
structure HoldsFrom (ring : MpmcRing Task) (head : Nat) (items : List Task) : Prop where
  power : ∃ k, k ≤ 63 ∧ ring.capacity = 2 ^ k
  maskEq : ring.mask = ring.capacity - 1
  lengthLe : items.length ≤ ring.capacity
  headEq : ring.head = head % 2 ^ 64
  tailEq : ring.tail = (head + items.length) % 2 ^ 64
  stored : ∀ k, k < items.length →
    ring.cell (head + k) = ⟨(head + k + 1) % 2 ^ 64, items[k]?⟩
  free : ∀ k, items.length ≤ k → k < ring.capacity →
    (ring.cell (head + k)).seq = (head + k) % 2 ^ 64

/-- The ring holds these tasks, oldest first, and nobody is inside it. -/
def Holds (ring : MpmcRing Task) (items : List Task) : Prop :=
  ∃ head, HoldsFrom ring head items

namespace HoldsFrom

variable {ring : MpmcRing Task} {head : Nat} {items : List Task}

section

variable (holds : HoldsFrom ring head items)
include holds

theorem capacity_le : ring.capacity ≤ 2 ^ 63 := by
  obtain ⟨k, bound, equal⟩ := holds.power
  rw [equal]
  exact Nat.pow_le_pow_right (by omega) bound

theorem capacity_pos : 0 < ring.capacity := by
  obtain ⟨k, -, equal⟩ := holds.power
  rw [equal]
  exact Nat.two_pow_pos k

theorem index_eq (pos : Nat) : pos &&& ring.mask = pos % ring.capacity := by
  obtain ⟨k, -, equal⟩ := holds.power
  rw [holds.maskEq, land_pred_eq_mod ⟨k, equal⟩]

theorem index_wrapped (pos : Nat) : (pos % 2 ^ 64) &&& ring.mask = pos &&& ring.mask := by
  obtain ⟨k, bound, equal⟩ := holds.power
  rw [holds.index_eq, holds.index_eq, equal, Nat.mod_mod_of_dvd _ (Nat.pow_dvd_pow 2 (by omega))]

/-- A wrapped counter names the same cell. -/
theorem cell_wrapped (pos : Nat) : ring.cell (pos % 2 ^ 64) = ring.cell pos := by
  rw [cell, cell, holds.index_wrapped]

/-- Writing one cell leaves the others of the window alone. -/
theorem cell_setCell_ne {i j : Nat} (different : i % ring.capacity ≠ j % ring.capacity)
    (newHead newTail : Nat) (value : MpmcCell Task) :
    (setCell { ring with head := newHead, tail := newTail } (j % 2 ^ 64) value).cell i =
      ring.cell i := by
  have index : i &&& ring.mask ≠ (j % 2 ^ 64) &&& ring.mask := by
    rw [holds.index_wrapped, holds.index_eq, holds.index_eq]
    exact different
  simp only [setCell, cell, update_of_ne index]

/-- A push to a ring with room appends its task. -/
theorem push_ok (task : Task) (room : items.length < ring.capacity) :
    ∃ next, mpmcRingPush ring task = some (next, true) ∧
      next.capacity = ring.capacity ∧ HoldsFrom next head (items ++ [task]) := by
  have seqEq : (ring.cell ring.tail).seq = (head + items.length) % 2 ^ 64 := by
    rw [holds.tailEq, holds.cell_wrapped]
    exact holds.free _ le_rfl room
  have equal : signedDiff (ring.cell ring.tail).seq ring.tail = 0 := by
    rw [seqEq, holds.tailEq]
    exact signedDiff_wrapped (by omega) (by omega) (by omega)
  have result : mpmcRingPush ring task =
      some (setCell { ring with tail := (ring.tail + 1) % 2 ^ 64 } ring.tail
        ⟨(ring.tail + 1) % 2 ^ 64, some task⟩, true) := by
    simp [mpmcRingPush, if_pos equal]
  refine ⟨_, result, rfl, ?_⟩
  refine ⟨holds.power, holds.maskEq, ?_, holds.headEq, ?_, ?_, ?_⟩
  · simpa using Nat.succ_le_of_lt room
  · change (ring.tail + 1) % 2 ^ 64 = _
    rw [holds.tailEq, length_append, length_singleton]
    omega
  · intro k inside
    rw [length_append, length_singleton] at inside
    by_cases last : k = items.length
    · subst last
      have index := holds.index_wrapped (head + items.length)
      simp only [setCell, cell, holds.tailEq, index]
      simp
    · have different : (head + k) % ring.capacity ≠ (head + items.length) % ring.capacity :=
        mod_ne_of_lt (by omega) (by omega)
      rw [holds.tailEq, holds.cell_setCell_ne different, holds.stored k (by omega),
        List.getElem?_append_left (by omega)]
  · intro k outside inside
    rw [length_append, length_singleton] at outside
    change k < ring.capacity at inside
    have different : (head + k) % ring.capacity ≠ (head + items.length) % ring.capacity :=
      (mod_ne_of_lt (by omega) (by omega)).symm
    rw [holds.tailEq, holds.cell_setCell_ne different]
    exact holds.free k (by omega) inside

/-- A push to a full ring of at least two cells is refused.  With one cell the
sequence number of the stored task is the position of the next push. -/
theorem push_full (task : Task) (full : items.length = ring.capacity) (two : 2 ≤ ring.capacity) :
    mpmcRingPush ring task = some (ring, false) := by
  have small := holds.capacity_le
  have same : ring.cell (head + ring.capacity) = ring.cell head := by
    rw [cell, cell, holds.index_eq, holds.index_eq, Nat.add_mod_right]
  have seqEq : (ring.cell ring.tail).seq = (head + 1) % 2 ^ 64 := by
    rw [holds.tailEq, holds.cell_wrapped, full, same]
    have oldest := holds.stored 0 (by omega)
    rw [Nat.add_zero] at oldest
    rw [oldest]
  have behind : signedDiff (ring.cell ring.tail).seq ring.tail = 1 - (ring.capacity : Int) := by
    rw [seqEq, holds.tailEq]
    exact signedDiff_wrapped (by omega) (by omega) (by omega)
  rw [mpmcRingPush]
  rw [if_neg (by omega), if_pos (by omega)]

end

/-- A pop takes the oldest task. -/
theorem pop_cons {task : Task} {rest : List Task} (holds : HoldsFrom ring head (task :: rest)) :
    ∃ next, mpmcRingPop ring = some (next, some task) ∧
      next.capacity = ring.capacity ∧ HoldsFrom next (head + 1) rest := by
  have lengthLe := holds.lengthLe
  rw [length_cons] at lengthLe
  have oldest : ring.cell ring.head = ⟨(head + 1) % 2 ^ 64, some task⟩ := by
    have first := holds.stored 0 (by simp)
    rw [Nat.add_zero] at first
    rw [holds.headEq, holds.cell_wrapped, first]
    rfl
  have next : (ring.head + 1) % 2 ^ 64 = (head + 1) % 2 ^ 64 := by
    rw [holds.headEq]
    omega
  have equal : signedDiff (ring.cell ring.head).seq ((ring.head + 1) % 2 ^ 64) = 0 := by
    rw [oldest, next]
    exact signedDiff_wrapped (by omega) (by omega) (by omega)
  have result : mpmcRingPop ring =
      some (setCell { ring with head := (ring.head + 1) % 2 ^ 64 } ring.head
        ⟨(ring.head + ring.capacity) % 2 ^ 64, (ring.cell ring.head).task⟩, some task) := by
    simp only [mpmcRingPop, if_pos equal]
    rw [oldest]
  refine ⟨_, result, rfl, ?_⟩
  refine ⟨holds.power, holds.maskEq, by simpa using (by omega : rest.length ≤ ring.capacity),
    next, ?_, ?_, ?_⟩
  · change ring.tail = _
    rw [holds.tailEq, length_cons]
    omega
  · intro k inside
    have different : (head + 1 + k) % ring.capacity ≠ head % ring.capacity :=
      (mod_ne_of_lt (by omega) (by omega)).symm
    rw [holds.headEq, holds.cell_setCell_ne different, Nat.add_right_comm head 1 k]
    have old := holds.stored (k + 1) (by simpa using inside)
    rw [← Nat.add_assoc] at old
    rw [old, List.getElem?_cons_succ]
  · intro k outside inside
    change k < ring.capacity at inside
    by_cases last : k + 1 = ring.capacity
    · -- the freed cell now belongs to the next lap
      have index : (head + 1 + k) &&& ring.mask = (head % 2 ^ 64) &&& ring.mask := by
        rw [holds.index_wrapped, holds.index_eq, holds.index_eq,
          show head + 1 + k = head + ring.capacity by omega, Nat.add_mod_right]
      simp only [setCell, cell, holds.headEq, index, update_self]
      omega
    · have different : (head + 1 + k) % ring.capacity ≠ head % ring.capacity :=
        (mod_ne_of_lt (by omega) (by omega)).symm
      rw [holds.headEq, holds.cell_setCell_ne different, Nat.add_right_comm head 1 k]
      exact holds.free (k + 1) (by simpa using outside) (by omega)

/-- A pop from an empty ring returns nothing. -/
theorem pop_nil (holds : HoldsFrom ring head []) : mpmcRingPop ring = some (ring, none) := by
  have seqEq : (ring.cell ring.head).seq = head % 2 ^ 64 := by
    rw [holds.headEq, holds.cell_wrapped]
    exact holds.free 0 le_rfl holds.capacity_pos
  have behind : signedDiff (ring.cell ring.head).seq ((ring.head + 1) % 2 ^ 64) = -1 := by
    rw [seqEq, holds.headEq, show (head % 2 ^ 64 + 1) % 2 ^ 64 = (head + 1) % 2 ^ 64 by omega]
    exact signedDiff_wrapped (by omega) (by omega) (by omega)
  simp only [mpmcRingPop, behind]
  rw [if_neg (by decide), if_pos (by decide)]

theorem head_eq_tail_iff (holds : HoldsFrom ring head items) :
    ring.head = ring.tail ↔ items = [] := by
  have small := holds.capacity_le
  have lengthLe := holds.lengthLe
  rw [holds.headEq, holds.tailEq, ← length_eq_zero_iff]
  omega

end HoldsFrom

/-- A ring that was just initialized is empty. -/
theorem holds_of_init {capacity : Nat} (bound : capacity ≤ 2 ^ 63)
    (initEq : mpmcRingInit capacity = some ring) :
    ring.capacity = nextPow264 capacity ∧ Holds ring [] := by
  rw [mpmcRingInit] at initEq
  split at initEq
  · cases initEq
  next positive =>
    split at initEq
    · cases initEq
    cases initEq
    have rounded := nextPow264_eq (Nat.one_le_iff_ne_zero.mpr positive) bound
    have power : ∃ k, nextPow264 capacity = 2 ^ k := ⟨_, rounded⟩
    refine ⟨rfl, 0, ⟨_, size_pred_le bound, rounded⟩, rfl, Nat.zero_le _, rfl, rfl, ?_, ?_⟩
    · intro k inside
      exact absurd inside (Nat.not_lt_zero k)
    · intro k _ inside
      change k < nextPow264 capacity at inside
      have small : nextPow264 capacity ≤ 2 ^ 63 := by
        rw [rounded]
        exact Nat.pow_le_pow_right (by omega) (size_pred_le bound)
      change (0 + k) &&& (nextPow264 capacity - 1) = (0 + k) % 2 ^ 64
      rw [land_pred_eq_mod power, Nat.zero_add, Nat.mod_eq_of_lt inside,
        Nat.mod_eq_of_lt (by omega)]

end QDaemon.ThreadPool.MpmcRing
