import Mathlib.Data.List.Induction
import Mathlib.Data.List.Perm.Basic
import QDaemon.ThreadPool.WsDeque.Core

/-!
# Safety of the work-stealing deque

The invariant carries the list of tasks the deque holds, from the top on.  A
pop that has read a smaller top owns the last element without a
compare-and-swap; every thief that can still win then has to leave it alone.
When the bottom has wrapped past the top both operations report an empty deque,
so the top never wraps and the invariant needs no bound on the number of
operations.
-/

namespace QDaemon.ThreadPool.WsDeque

open List Function Bits Common Transition

universe u v

variable {Task : Type u} {Tid : Type v}
variable {top : Nat} {next : State Task Tid} {thread : Tid}

/-- How many elements at the bottom end the owner has already taken without
having lowered the logical bottom. -/
def reserved : OwnerPc Task → Nat
  | .popRead bottom top => if top < bottom then 1 else 0
  | _ => 0

/-- What the owner may rely on between two of its steps. -/
def OwnerInv (deque : WsDeque Task) (items : List Task) : OwnerPc Task → Prop
  | .idle => True
  | .pushTop _ bottom => bottom = deque.bottom
  | .pushStore _ bottom => bottom = deque.bottom ∧ items.length + 1 < deque.capacity
  | .pushPublish task bottom => bottom = deque.bottom ∧
      items.length + 1 < deque.capacity ∧ deque.slot bottom = some task
  | .popStore bottom => bottom + 1 = deque.bottom
  | .popTop bottom => bottom = deque.bottom ∧ bottom + 1 < 2 ^ 64
  | .popRead bottom top => bottom = deque.bottom ∧ bottom + 1 < 2 ^ 64 ∧
      top ≤ bottom ∧ deque.top + items.length = bottom + 1 ∧
      (top < bottom → deque.top ≤ bottom)
  | .popCas bottom top task => bottom = deque.bottom ∧ bottom + 1 < 2 ^ 64 ∧
      top = bottom ∧ deque.top + items.length = bottom + 1 ∧ task = deque.slot bottom
  | .popRestore bottom _ => bottom = deque.bottom ∧ bottom + 1 < 2 ^ 64

/-- What a thief may rely on between two of its steps.  If the top it read is
still current, an element that the owner has not taken is there for it. -/
def ThiefInv (deque : WsDeque Task) (taken : Nat) (items : List Task) : ThiefPc Task → Prop
  | .idle => True
  | .stealBottom top => top ≤ deque.top
  | .stealRead top => top ≤ deque.top ∧ top + 1 < 2 ^ 64 ∧
      (top = deque.top → taken < items.length)
  | .stealCas top task => top ≤ deque.top ∧ top + 1 < 2 ^ 64 ∧
      (top = deque.top → taken < items.length ∧ task = items[0]?)

/-- The deque invariant for the tasks it holds. -/
structure Inv (state : State Task Tid) (items : List Task) : Prop where
  power : ∃ k, k ≤ 63 ∧ state.deque.capacity = 2 ^ k
  topLt : state.deque.top < 2 ^ 64
  lengthLt : items.length < state.deque.capacity
  bottomEq : logicalBottom state = (state.deque.top + items.length) % 2 ^ 64
  slots : ∀ k, k < items.length → state.deque.slot (state.deque.top + k) = items[k]?
  conserved : state.pushed.Perm (state.returned ++ items ++ hand state)
  owner : OwnerInv state.deque items state.owner
  thieves : ∀ thread, ThiefInv state.deque (reserved state.owner) items (state.thief thread)

/-- Reading a list index by index gives the list back. -/
theorem filterMap_range_getElem? (items : List Task) :
    ((List.range items.length).filterMap fun k => items[k]?) = items := by
  induction items using List.reverseRecOn with
  | nil => rfl
  | append_singleton items last ih =>
    have front : ∀ k ∈ List.range items.length, (items ++ [last])[k]? = items[k]? := by
      intro k mem
      exact List.getElem?_append_left (mem_range.mp mem)
    rw [length_append, length_singleton, range_succ, filterMap_append, filterMap_congr front, ih]
    simp

section Basics

variable {state : State Task Tid} {items : List Task}

variable (inv : Inv state items)
include inv

theorem Inv.capacity_le : state.deque.capacity ≤ 2 ^ 63 := by
  obtain ⟨k, bound, equal⟩ := inv.power
  rw [equal]
  exact Nat.pow_le_pow_right (by omega) bound

omit inv in
theorem slot_eq (power : ∃ k, state.deque.capacity = 2 ^ k) (index : Nat) :
    state.deque.slot index = state.deque.buffer (index % state.deque.capacity) := by
  rw [slot, land_pred_eq_mod power]

theorem Inv.powerOfTwo : ∃ k, state.deque.capacity = 2 ^ k := by
  obtain ⟨k, -, equal⟩ := inv.power
  exact ⟨k, equal⟩

/-- A wrapped index names the same slot. -/
theorem Inv.slot_mod (index : Nat) :
    state.deque.slot (index % 2 ^ 64) = state.deque.slot index := by
  obtain ⟨k, bound, equal⟩ := inv.power
  rw [slot_eq inv.powerOfTwo, slot_eq inv.powerOfTwo, equal,
    Nat.mod_mod_of_dvd _ (Nat.pow_dvd_pow 2 (by omega))]

/-- The buffer really holds the listed tasks. -/
theorem Inv.contents_eq : contents state = items := by
  have small := inv.capacity_le
  have length := inv.lengthLt
  have topLt := inv.topLt
  have count : (logicalBottom state + 2 ^ 64 - state.deque.top) % 2 ^ 64 = items.length := by
    rw [inv.bottomEq]
    omega
  rw [contents, count]
  have cells : ∀ k ∈ List.range items.length,
      state.deque.slot (state.deque.top + k) = items[k]? := by
    intro k mem
    exact inv.slots k (mem_range.mp mem)
  rw [filterMap_congr cells, filterMap_range_getElem?]

end Basics

/-! ## The owner -/

variable {deque : WsDeque Task} {items : List Task} {pc : ThiefPc Task}

/-- A thief is not disturbed when the owner gives up or keeps its hold on the
last element, and when the top element and the top stay as they are. -/
theorem ThiefInv.transfer {next : WsDeque Task} {taken nextTaken : Nat}
    {nextItems : List Task} (old : ThiefInv deque taken items pc) (topEq : next.top = deque.top)
    (enough : taken < items.length → nextTaken < nextItems.length ∧ nextItems[0]? = items[0]?) :
    ThiefInv next nextTaken nextItems pc := by
  cases pc with
  | idle => trivial
  | stealBottom top =>
    change top ≤ next.top
    rw [topEq]
    exact old
  | stealRead top =>
    obtain ⟨le, small, there⟩ := old
    exact ⟨by rw [topEq]; exact le, small, fun current =>
      (enough (there (current.trans topEq))).1⟩
  | stealCas top task =>
    obtain ⟨le, small, there⟩ := old
    refine ⟨by rw [topEq]; exact le, small, fun current => ?_⟩
    obtain ⟨available, taskEq⟩ := there (current.trans topEq)
    exact ⟨(enough available).1, taskEq.trans (enough available).2.symm⟩

/-- Once the top has moved, every top a thief holds is outdated. -/
theorem ThiefInv.outdated {next : WsDeque Task} {taken nextTaken : Nat} {nextItems : List Task}
    (old : ThiefInv deque taken items pc) (topEq : next.top = deque.top + 1) :
    ThiefInv next nextTaken nextItems pc := by
  cases pc with
  | idle => trivial
  | stealBottom top =>
    change top ≤ deque.top at old
    change top ≤ next.top
    omega
  | stealRead top | stealCas top task =>
    obtain ⟨le, small, -⟩ := old
    exact ⟨by omega, small, fun current => absurd current (by omega)⟩

section Owner

variable {state : State Task Tid} {items : List Task}

/-- The owner moves without touching the deque. -/
theorem Inv.setOwner (inv : Inv state items) {old pc : OwnerPc Task} (pcEq : state.owner = old)
    (bottomSame : logicalBottom { state with owner := pc } =
      logicalBottom { state with owner := old })
    (handSame : hand { state with owner := pc } = hand { state with owner := old })
    (allowed : OwnerInv state.deque items pc)
    (enough : reserved old < items.length → reserved pc < items.length) :
    Inv { state with owner := pc } items := by
  subst pcEq
  refine { inv with
    bottomEq := bottomSame.trans inv.bottomEq
    conserved := ?_
    owner := allowed
    thieves := fun thread => (inv.thieves thread).transfer rfl fun room => ⟨enough room, rfl⟩ }
  rw [handSame]
  exact inv.conserved

/-- The bottom word is 64 bits wide. -/
theorem Inv.bottom_lt (inv : Inv state items) : state.deque.bottom < 2 ^ 64 := by
  have bottomEq := inv.bottomEq
  have facts := inv.owner
  cases pcEq : state.owner with
  | popTop bottom | popRead bottom top | popCas bottom top task | popRestore bottom result =>
    rw [pcEq] at facts
    have bottomIs := facts.1
    have small := facts.2
    omega
  | idle | pushTop task bottom | pushStore task bottom | pushPublish task bottom
  | popStore bottom =>
    simp only [logicalBottom, pcEq] at bottomEq
    omega

variable {bottom : Nat}

section

variable (inv : Inv state items)
include inv

/-- The owner's store of a pushed task goes to a slot no listed task uses. -/
theorem Inv.pushStore {task : Task} (pcEq : state.owner = .pushStore task bottom) : Inv { state with
      deque := { state.deque with
        buffer := update state.deque.buffer
          (bottom &&& (state.deque.capacity - 1)) (some task) }
      owner := .pushPublish task bottom } items := by
  have facts := inv.owner
  rw [pcEq] at facts
  obtain ⟨bottomIs, room⟩ := facts
  have bottomEq := inv.bottomEq
  rw [logicalBottom, pcEq] at bottomEq
  change state.deque.bottom = (state.deque.top + items.length) % 2 ^ 64 at bottomEq
  refine { inv with
    bottomEq := bottomEq
    slots := ?_
    conserved := ?_
    owner := ⟨bottomIs, room, ?_⟩
    thieves := ?_ }
  · intro k inside
    have index : (state.deque.top + k) &&& (state.deque.capacity - 1) ≠
        bottom &&& (state.deque.capacity - 1) := by
      obtain ⟨exponent, bound, equal⟩ := inv.power
      have wrapped : (state.deque.top + items.length) % 2 ^ 64 % state.deque.capacity =
          (state.deque.top + items.length) % state.deque.capacity := by
        rw [equal, Nat.mod_mod_of_dvd _ (Nat.pow_dvd_pow 2 (by omega))]
      rw [land_pred_eq_mod inv.powerOfTwo, land_pred_eq_mod inv.powerOfTwo, bottomIs, bottomEq,
        wrapped]
      exact mod_ne_of_lt (by omega) (by have := inv.lengthLt; omega)
    have old := inv.slots k inside
    simpa [slot, update_of_ne index] using old
  · simpa [hand, pcEq] using inv.conserved
  · simp [slot]
  · intro thread
    refine (inv.thieves thread).transfer rfl fun available => ⟨?_, rfl⟩
    simpa [pcEq, reserved] using available

/-- The owner's store of the incremented bottom publishes the pushed task. -/
theorem Inv.pushPublish {task : Task} (pcEq : state.owner = .pushPublish task bottom) :
    Inv { state with
      deque := { state.deque with bottom := (bottom + 1) % 2 ^ 64 }
      owner := .idle
      pushed := state.pushed ++ [task] } (items ++ [task]) := by
  have facts := inv.owner
  rw [pcEq] at facts
  obtain ⟨bottomIs, room, stored⟩ := facts
  have bottomEq := inv.bottomEq
  rw [logicalBottom, pcEq] at bottomEq
  change state.deque.bottom = (state.deque.top + items.length) % 2 ^ 64 at bottomEq
  have storedAt : state.deque.slot (state.deque.top + items.length) = some task := by
    rw [← stored, bottomIs, bottomEq, inv.slot_mod]
  refine { inv with
    lengthLt := ?_
    bottomEq := ?_
    slots := ?_
    conserved := ?_
    owner := trivial
    thieves := ?_ }
  · simpa using room
  · change (bottom + 1) % 2 ^ 64 = (state.deque.top + (items ++ [task]).length) % 2 ^ 64
    rw [bottomIs, length_append, length_singleton]
    omega
  · intro k inside
    rw [length_append, length_singleton] at inside
    by_cases last : k = items.length
    · subst last
      simpa [slot] using storedAt
    · rw [List.getElem?_append_left (by omega)]
      exact inv.slots k (by omega)
  · have conserved := inv.conserved
    simp only [hand, pcEq] at conserved
    simpa [hand] using conserved.append_right [task]
  · intro thread
    refine (inv.thieves thread).transfer rfl fun available => ?_
    rw [pcEq] at available
    refine ⟨?_, List.getElem?_append_left available⟩
    change 0 < (items ++ [task]).length
    simp

/-- The owner's store of the decremented bottom. -/
theorem Inv.popStore (pcEq : state.owner = .popStore bottom) : Inv { state with
      deque := { state.deque with bottom := bottom }
      owner := .popTop bottom } items := by
  have facts := inv.owner
  rw [pcEq] at facts
  change bottom + 1 = state.deque.bottom at facts
  have plain : logicalBottom state = state.deque.bottom := by simp [logicalBottom, pcEq]
  have bottomEq := inv.bottomEq
  refine { inv with
    bottomEq := ?_
    conserved := ?_
    owner := ⟨rfl, by omega⟩
    thieves := ?_ }
  · change (bottom + 1) % 2 ^ 64 = _
    rw [Nat.mod_eq_of_lt (by omega), facts, ← plain]
    exact bottomEq
  · simpa [hand, pcEq] using inv.conserved
  · intro thread
    refine (inv.thieves thread).transfer rfl fun available => ⟨?_, rfl⟩
    simpa [pcEq, reserved] using available

/-- With the lowered bottom at or above the top the listed tasks end exactly
there: a wrapped bottom lies below the top. -/
theorem Inv.popTop_end (pcEq : state.owner = .popTop bottom) (nonempty : state.deque.top ≤ bottom) :
    state.deque.top + items.length = bottom + 1 := by
  have facts := inv.owner
  rw [pcEq] at facts
  obtain ⟨bottomIs, small⟩ := facts
  have bottomEq := inv.bottomEq
  rw [logicalBottom, pcEq] at bottomEq
  change (state.deque.bottom + 1) % 2 ^ 64 = _ at bottomEq
  have := inv.capacity_le
  have := inv.lengthLt
  omega

/-- The pop that saw more than one element takes the last one. -/
theorem Inv.popTake (pcEq : state.owner = .popRead bottom top) (several : top ≠ bottom) :
    ∃ front, Inv (State.give { state with owner := .idle } (state.deque.slot bottom))
      front := by
  have facts := inv.owner
  rw [pcEq] at facts
  obtain ⟨bottomIs, small, topLe, ends, mine⟩ := facts
  rcases eq_nil_or_concat items with rfl | ⟨front, last, rfl⟩
  · simp at ends
    omega
  rw [concat_eq_append] at inv ends
  rw [length_append, length_singleton] at ends
  have lastSlot : state.deque.slot bottom = some last := by
    have := inv.slots front.length (by simp)
    rw [show state.deque.top + front.length = bottom by omega] at this
    simpa using this
  refine ⟨front, ?_⟩
  rw [lastSlot]
  refine { inv with
    lengthLt := ?_
    bottomEq := ?_
    slots := ?_
    conserved := ?_
    owner := trivial
    thieves := ?_ }
  · have := inv.lengthLt
    rw [length_append] at this
    change front.length < state.deque.capacity
    omega
  · change state.deque.bottom = (state.deque.top + front.length) % 2 ^ 64
    omega
  · intro k inside
    have := inv.slots k (by simp; omega)
    rwa [List.getElem?_append_left inside] at this
  · have conserved := inv.conserved
    simp only [hand, pcEq, append_nil] at conserved
    simp only [State.give, hand, append_nil]
    refine conserved.trans ?_
    rw [append_assoc]
    exact (perm_append_singleton last front).append_left state.returned
  · intro thread
    refine (inv.thieves thread).transfer rfl fun available => ?_
    rw [pcEq] at available
    simp only [reserved, if_pos (show top < bottom by omega), length_append,
      length_singleton] at available
    change 0 < front.length ∧ _
    exact ⟨by omega, (List.getElem?_append_left (by omega)).symm⟩

/-- The pop that saw one element wins the race for it. -/
theorem Inv.popWin {task : Option Task} (pcEq : state.owner = .popCas bottom top task)
    (current : state.deque.top = top) : Inv { state with
      deque := { state.deque with top := (top + 1) % 2 ^ 64 }
      owner := .popRestore bottom task } [] := by
  have facts := inv.owner
  rw [pcEq] at facts
  obtain ⟨bottomIs, small, topIs, ends, taskEq⟩ := facts
  have one : items.length = 1 := by omega
  obtain ⟨only, rfl⟩ := length_eq_one_iff.mp one
  have taskIs : task = some only := by
    have := inv.slots 0 (by simp)
    rw [taskEq, ← topIs, ← current]
    simpa using this
  have newTop : (top + 1) % 2 ^ 64 = top + 1 := Nat.mod_eq_of_lt (by omega)
  rw [newTop]
  refine { inv with
    topLt := ?_
    lengthLt := ?_
    bottomEq := ?_
    slots := ?_
    conserved := ?_
    owner := ⟨bottomIs, small⟩
    thieves := ?_ }
  · change top + 1 < 2 ^ 64
    omega
  · have := inv.lengthLt
    change 0 < state.deque.capacity
    omega
  · change (state.deque.bottom + 1) % 2 ^ 64 = (top + 1 + 0) % 2 ^ 64
    omega
  · intro k inside
    simp at inside
  · simpa [hand, pcEq, taskIs] using inv.conserved
  · intro thread
    exact (inv.thieves thread).outdated (congrArg (· + 1) current.symm)

/-- The pop restores the bottom and returns what it won. -/
theorem Inv.popRestore {result : Option Task} (pcEq : state.owner = .popRestore bottom result) :
    Inv (State.give { state with
      deque := { state.deque with bottom := (bottom + 1) % 2 ^ 64 }
      owner := .idle } result) items := by
  have facts := inv.owner
  rw [pcEq] at facts
  obtain ⟨bottomIs, small⟩ := facts
  have bottomEq := inv.bottomEq
  rw [logicalBottom, pcEq] at bottomEq
  refine { inv with
    bottomEq := ?_
    conserved := ?_
    owner := trivial
    thieves := ?_ }
  · rw [bottomIs]
    exact bottomEq
  · have conserved := inv.conserved
    simp only [hand, pcEq, append_assoc] at conserved
    simp only [State.give, hand, append_nil, append_assoc]
    exact conserved.trans (perm_append_comm.append_left state.returned)
  · intro thread
    refine (inv.thieves thread).transfer rfl fun available => ⟨?_, rfl⟩
    rw [pcEq] at available
    exact available

/-- Every access of the owner keeps the invariant. -/
theorem Inv.ownerStep (stepEq : ownerStep state = some next) : ∃ nextItems, Inv next nextItems := by
  rw [WsDeque.ownerStep] at stepEq
  have facts := inv.owner
  split at stepEq
  · cases stepEq
  next task bottom pcEq =>
    rw [pcEq] at facts
    change bottom = state.deque.bottom at facts
    have bottomEq := inv.bottomEq
    rw [logicalBottom, pcEq] at bottomEq
    change state.deque.bottom = _ at bottomEq
    have := inv.capacity_le
    have := inv.topLt
    have := inv.lengthLt
    simp only at stepEq
    split at stepEq <;> cases stepEq
    · exact ⟨items, inv.setOwner pcEq rfl rfl trivial id⟩
    next notFull =>
      refine ⟨items, inv.setOwner pcEq rfl rfl ⟨facts, ?_⟩ id⟩
      omega
  next task bottom pcEq =>
    cases stepEq
    exact ⟨items, inv.pushStore pcEq⟩
  next task bottom pcEq =>
    cases stepEq
    exact ⟨items ++ [task], inv.pushPublish pcEq⟩
  next bottom pcEq =>
    cases stepEq
    exact ⟨items, inv.popStore pcEq⟩
  next bottom pcEq =>
    rw [pcEq] at facts
    obtain ⟨bottomIs, small⟩ := facts
    split at stepEq <;> cases stepEq
    next nonempty =>
      have ends := inv.popTop_end pcEq nonempty
      refine ⟨items, inv.setOwner pcEq rfl rfl
        ⟨bottomIs, small, nonempty, ends, fun _ => nonempty⟩ fun _ => ?_⟩
      simp only [reserved]
      split <;> omega
    · exact ⟨items, inv.setOwner pcEq rfl rfl ⟨bottomIs, small⟩ id⟩
  next bottom top pcEq =>
    split at stepEq <;> cases stepEq
    next single =>
      rw [pcEq] at facts
      obtain ⟨bottomIs, small, -, ends, -⟩ := facts
      exact ⟨items, inv.setOwner pcEq rfl rfl ⟨bottomIs, small, single, ends, rfl⟩
        (by simp [reserved, single])⟩
    next several => exact inv.popTake pcEq several
  next bottom top task pcEq =>
    split at stepEq <;> cases stepEq
    next current => exact ⟨[], inv.popWin pcEq current⟩
    · rw [pcEq] at facts
      exact ⟨items, inv.setOwner pcEq rfl rfl ⟨facts.1, facts.2.1⟩ id⟩
  next bottom result pcEq =>
    cases stepEq
    exact ⟨items, inv.popRestore pcEq⟩

end

end Owner

/-! ## Thieves -/

section Thieves

variable [DecidableEq Tid] {state : State Task Tid} {items : List Task}

variable (inv : Inv state items)
include inv

/-- A thief moves without touching the deque. -/
theorem Inv.setThief (allowed : ThiefInv state.deque (reserved state.owner) items pc) :
    Inv { state with thief := update state.thief thread pc } items := by
  exact { inv with
    thieves := (forall_update_iff _ fun _ pc => ThiefInv _ _ items pc).mpr
      ⟨allowed, fun other _ => inv.thieves other⟩ }

omit [DecidableEq Tid] in
/-- A thief that read a bottom above the current top is past the owner's hold:
a pop in progress has already lowered the word. -/
theorem Inv.reserved_lt (above : state.deque.top < state.deque.bottom) :
    reserved state.owner < items.length := by
  have bottomEq := inv.bottomEq
  have facts := inv.owner
  cases pcEq : state.owner with
  | popRead bottom top =>
    rw [pcEq] at facts
    obtain ⟨bottomIs, -, -, ends, -⟩ := facts
    simp only [reserved]
    split <;> omega
  | popTop bottom | popCas bottom top task | popRestore bottom result =>
    simp only [logicalBottom, pcEq] at bottomEq
    rw [pcEq] at facts
    have bottomIs := facts.1
    have small := facts.2
    simp only [reserved]
    omega
  | idle | pushTop task bottom | pushStore task bottom | pushPublish task bottom
  | popStore bottom =>
    simp only [logicalBottom, pcEq] at bottomEq
    simp only [reserved]
    omega

/-- The thief whose exchange succeeds returns the first task. -/
theorem Inv.stealWin {task : Option Task}
    (pcEq : state.thief thread = .stealCas top task) (current : state.deque.top = top) :
    Inv (State.give { state with
      deque := { state.deque with top := (top + 1) % 2 ^ 64 }
      thief := update state.thief thread .idle } task) items.tail := by
  have facts := inv.thieves thread
  rw [pcEq] at facts
  obtain ⟨-, small, there⟩ := facts
  obtain ⟨available, taskEq⟩ := there current.symm
  rw [Nat.mod_eq_of_lt small]
  cases items with
  | nil => simp at available
  | cons first rest =>
    have taskIs : task = some first := by simpa using taskEq
    subst taskIs
    rw [length_cons] at available
    refine { inv with
      topLt := small
      lengthLt := ?_
      bottomEq := ?_
      slots := ?_
      conserved := ?_
      owner := ?_
      thieves := ?_ }
    · have := inv.lengthLt
      rw [length_cons] at this
      change rest.length < state.deque.capacity
      omega
    · have bottomEq := inv.bottomEq
      rw [length_cons] at bottomEq
      change logicalBottom state = (top + 1 + rest.length) % 2 ^ 64
      omega
    · intro k inside
      have := inv.slots (k + 1) (by simpa using inside)
      rw [current, show top + (k + 1) = top + 1 + k by omega] at this
      simpa [slot, State.give] using this
    · have conserved := inv.conserved
      change state.pushed.Perm (state.returned ++ [first] ++ rest ++ hand state)
      simpa using conserved
    · have ownerFacts := inv.owner
      cases ownerAt : state.owner with rw [ownerAt] at ownerFacts
      | idle => trivial
      | pushStore newTask bottom =>
        exact ⟨ownerFacts.1, Nat.lt_of_succ_lt ownerFacts.2⟩
      | pushPublish newTask bottom =>
        exact ⟨ownerFacts.1, Nat.lt_of_succ_lt ownerFacts.2.1, ownerFacts.2.2⟩
      | popRead bottom ownerTop =>
        rw [ownerAt] at available
        obtain ⟨bottomIs, bound, le, ends, mine⟩ := ownerFacts
        rw [length_cons] at ends
        refine ⟨bottomIs, bound, le, ?_, fun several => ?_⟩
        · change top + 1 + rest.length = bottom + 1
          omega
        · simp only [reserved, if_pos several] at available
          change top + 1 ≤ bottom
          omega
      | popCas bottom ownerTop ownerTask =>
        obtain ⟨bottomIs, bound, same, ends, read⟩ := ownerFacts
        rw [length_cons] at ends
        refine ⟨bottomIs, bound, same, ?_, read⟩
        change top + 1 + rest.length = bottom + 1
        omega
      | _ => exact ownerFacts
    · intro other
      by_cases same : other = thread
      · subst same
        simp [State.give, ThiefInv]
      · have old := inv.thieves other
        simpa [State.give, same] using old.outdated (congrArg (· + 1) current.symm)

/-- Every access of a thief keeps the invariant. -/
theorem Inv.thiefStep (stepEq : thiefStep state thread = some next) :
    ∃ nextItems, Inv next nextItems := by
  rw [WsDeque.thiefStep] at stepEq
  have facts := inv.thieves thread
  split at stepEq
  · cases stepEq
  next top pcEq =>
    rw [pcEq] at facts
    split at stepEq <;> cases stepEq
    · exact ⟨items, inv.setThief trivial⟩
    next above =>
      have := inv.bottom_lt
      exact ⟨items, inv.setThief ⟨facts, by omega, fun current =>
        inv.reserved_lt (by omega)⟩⟩
  next top pcEq =>
    cases stepEq
    rw [pcEq] at facts
    obtain ⟨le, small, there⟩ := facts
    refine ⟨items, inv.setThief ⟨le, small, fun current => ⟨there current, ?_⟩⟩⟩
    have := inv.slots 0 (by have := there current; omega)
    rwa [← current] at this
  next top task pcEq =>
    split at stepEq <;> cases stepEq
    next current => exact ⟨items.tail, inv.stealWin pcEq current⟩
    · exact ⟨items, inv.setThief trivial⟩

end Thieves

/-! ## Runs -/

section Runs

variable [DecidableEq Tid]

theorem Inv.step {state : State Task Tid} {label : Label Task Tid} (inv : Inv state items)
    (stepEq : step state label = some next) : ∃ nextItems, Inv next nextItems := by
  cases label with simp only [WsDeque.step] at stepEq
  | push task =>
    split at stepEq <;> cases stepEq
    next pcEq => exact ⟨items, inv.setOwner pcEq rfl rfl rfl id⟩
  | pop =>
    split at stepEq
    next pcEq =>
      split at stepEq <;> cases stepEq
      · exact ⟨items, inv⟩
      next positive =>
        exact ⟨items, inv.setOwner pcEq rfl rfl (Nat.succ_pred positive) id⟩
    · cases stepEq
  | owner => exact inv.ownerStep stepEq
  | steal thread =>
    split at stepEq <;> cases stepEq
    exact ⟨items, inv.setThief (le_refl state.deque.top)⟩
  | thief thread => exact inv.thiefStep stepEq

omit [DecidableEq Tid] in
theorem initial_inv {capacity : Nat} (bound : capacity ≤ 2 ^ 63)
    (initEq : wsdequeInit capacity = some deque) :
    Inv (State.initial deque : State Task Tid) [] := by
  rw [wsdequeInit] at initEq
  split at initEq <;> cases initEq
  next positive =>
    have rounded := nextPow264_eq (Nat.one_le_iff_ne_zero.mpr positive) bound
    exact {
      power := ⟨(capacity - 1).size, size_pred_le bound, rounded⟩
      topLt := Nat.two_pow_pos 64
      lengthLt := by
        rw [rounded]
        exact Nat.two_pow_pos _
      bottomEq := rfl
      slots := fun k inside => absurd inside (Nat.not_lt_zero k)
      conserved := List.Perm.refl _
      owner := trivial
      thieves := fun _ => trivial }

theorem reachable_inv {capacity : Nat} (bound : capacity ≤ 2 ^ 63)
    (initEq : wsdequeInit capacity = some deque) {target : State Task Tid}
    (reachable : Reachable step (State.initial deque) target) : ∃ items, Inv target items := by
  refine reachable.invariant (fun state => ∃ items, Inv state items)
    ⟨[], initial_inv bound initEq⟩ ?_
  rintro state label next ⟨items, inv⟩ - stepEq
  exact inv.step stepEq

/-- In every interleaving of one owner and any number of thieves, the pushed
tasks are exactly those that pops and steals have returned, those in the buffer
between top and bottom, and the one that a pop which won the race for the last
element is about to return, each counted once.  So a task pushed once is
returned at most once, one that was not returned is still there, and nothing
else is ever returned. -/
theorem pushed_conserved {capacity : Nat} (bound : capacity ≤ 2 ^ 63) {deque : WsDeque Task}
    (initEq : wsdequeInit capacity = some deque) {target : State Task Tid}
    (reachable : Reachable step (State.initial deque) target) :
    target.pushed.Perm (target.returned ++ contents target ++ hand target) ∧
    (target.pushed.Nodup → (target.returned ++ contents target ++ hand target).Nodup) ∧
    (∀ task ∈ target.returned, task ∈ target.pushed) ∧
    (∀ task ∈ target.pushed, task ∉ target.returned →
      task ∈ contents target ∨ task ∈ hand target) := by
  obtain ⟨items, inv⟩ := reachable_inv bound initEq reachable
  have conserved := inv.conserved
  rw [← inv.contents_eq] at conserved
  refine ⟨conserved, conserved.nodup_iff.mp, ?_, ?_⟩
  · intro task mem
    exact conserved.mem_iff.mpr (by simp [mem])
  · intro task mem notReturned
    have := conserved.mem_iff.mp mem
    simpa [notReturned] using this

/-- The owner pushes two tasks and pops while a thief steals; the thief, which
read the top before the pop lowered the bottom, takes the first task and the
pop the second. -/
def ownerAgainstThief : List (Label Nat Unit) :=
  [.push 7, .owner, .owner, .owner, .push 8, .owner, .owner, .owner,
    .steal (), .thief (), .pop, .owner, .owner, .thief (), .thief (), .owner]

theorem pushed_conserved_ownerAgainstThief : ∃ deque target, wsdequeInit 3 = some deque ∧
      exec step (State.initial deque) ownerAgainstThief = some target ∧
      target.returned = [7, 8] ∧ target.pushed.Perm [7, 8] ∧ contents target = [] := by
  obtain ⟨deque, initEq⟩ : ∃ deque : WsDeque Nat, wsdequeInit 3 = some deque := ⟨_, rfl⟩
  obtain ⟨target, targetEq, returned, empty, nothing⟩ := exec_meets step
    (State.initial deque : State Nat Unit) ownerAgainstThief (fun state =>
      state.returned = [7, 8] ∧ contents state = [] ∧ hand state = []) (by
      cases initEq
      decide)
  have conserved := (pushed_conserved (by decide) initEq (reachable_of_exec targetEq)).1
  rw [returned, empty, nothing] at conserved
  exact ⟨deque, target, initEq, targetEq, returned, conserved, empty⟩

end Runs

end QDaemon.ThreadPool.WsDeque
