import QDaemon.Bytes.FreeList
import QDaemon.Memory.Slab.Core
import Mathlib.Data.List.Perm.Basic

/-!
# The layout of slab caches

A slab of a cache is cut into objects that do not overlap.  Each of them is either on
the free list of the slab or taken, and the slab is on the list that matches the
number of objects taken.
-/

namespace QDaemon.Memory

open Option Bits Bytes Linked

variable {cache : SlabCache} {size align address obj other : Nat}

theorem slabHeaderSize_eq : slabHeaderSize = 48 := by
  decide +kernel

/-! ## Objects -/

/-- The objects of a slab, by address. -/
def SlabCache.objects (cache : SlabCache) (address : Nat) : List Nat :=
  (List.range cache.objsPerSlab).map fun index => address + 48 + index * cache.objSize

/-- The bytes of an object. -/
def SlabCache.extent (cache : SlabCache) (obj : Nat) : Region :=
  ⟨obj, cache.objSize⟩

/-- An object has room for a pointer, a slab has room for its objects, and there are
at least two of them. -/
structure SlabCache.Shaped (cache : SlabCache) : Prop where
  size : 8 ≤ cache.objSize
  many : 2 ≤ cache.objsPerSlab
  few : cache.objsPerSlab < 2 ^ 32
  fits : cache.objsPerSlab * cache.objSize ≤ cache.slabSize
  bounded : cache.slabSize + 48 < 2 ^ 64

namespace SlabCache.Shaped

theorem region_eq (shaped : cache.Shaped) (address : Nat) :
    cache.region address = ⟨address, cache.slabSize + 48⟩ := by
  rw [region, slabHeaderSize_eq, wordAdd_eq shaped.bounded]

/-- The end of an object, seen from the first one of its slab. -/
theorem end_le {count index : Nat} (size : Nat) (inside : index < count) :
    index * size + size ≤ count * size := by
  rw [← Nat.succ_mul]
  exact Nat.mul_le_mul_right size inside

theorem mem_objects : obj ∈ cache.objects address ↔
    ∃ index < cache.objsPerSlab, obj = address + 48 + index * cache.objSize := by
  simp [objects, eq_comm]

variable (shaped : cache.Shaped)
include shaped

theorem region_covers (mem : obj ∈ cache.objects address) :
    (cache.region address).Covers (cache.extent obj) := by
  obtain ⟨index, inside, rfl⟩ := mem_objects.mp mem
  have upper := end_le cache.objSize inside
  have fits := shaped.fits
  rw [shaped.region_eq]
  constructor
  · exact Nat.le_trans (Nat.le_add_right address 48) (Nat.le_add_right _ _)
  · simp only [extent]
    omega

theorem extent_covers (obj : Nat) : (cache.extent obj).Covers ⟨obj, 8⟩ :=
  ⟨Nat.le_refl obj, Nat.add_le_add_left shaped.size obj⟩

theorem extent_contains (obj : Nat) : (cache.extent obj).Contains obj := by
  have size := shaped.size
  refine ⟨Nat.le_refl obj, ?_⟩
  simp only [extent]
  omega

omit shaped in
/-- Different objects of a slab do not overlap. -/
theorem extent_apart (mem : obj ∈ cache.objects address) (otherMem : other ∈ cache.objects address)
    (different : obj ≠ other) : (cache.extent obj).Apart (cache.extent other) := by
  obtain ⟨index, -, rfl⟩ := mem_objects.mp mem
  obtain ⟨otherIndex, -, rfl⟩ := mem_objects.mp otherMem
  rcases Nat.lt_trichotomy index otherIndex with before | same | behind
  · have upper := end_le cache.objSize before
    exact .inl (by simp [extent]; omega)
  · exact absurd (by rw [same]) different
  · have upper := end_le cache.objSize behind
    exact .inr (by simp [extent]; omega)

theorem nodup_objects (address : Nat) : (cache.objects address).Nodup := by
  apply List.Nodup.map _ List.nodup_range
  intro index other same
  have size := shaped.size
  exact Nat.eq_of_mul_eq_mul_right (by omega) (Nat.add_left_cancel same)

end SlabCache.Shaped

/-! ## Counters -/

@[simp] theorem Slab.pop_base (slab : Slab) (next : Nat) : (slab.pop next).base = slab.base := rfl
@[simp] theorem Slab.pop_total (slab : Slab) (next : Nat) : (slab.pop next).total = slab.total := rfl
@[simp] theorem Slab.push_base (slab : Slab) (ptr : Nat) : (slab.push ptr).base = slab.base := rfl
@[simp] theorem Slab.push_total (slab : Slab) (ptr : Nat) : (slab.push ptr).total = slab.total := rfl
@[simp] theorem Slab.push_freelist (slab : Slab) (ptr : Nat) : (slab.push ptr).freelist = ptr := rfl

variable {slab : Slab}

theorem Slab.pop_inuse (next : Nat) (bound : slab.inuse + 1 < 2 ^ 32) :
    (slab.pop next).inuse = slab.inuse + 1 := by
  rw [pop, Nat.mod_eq_of_lt bound]

theorem Slab.push_inuse (ptr : Nat) (used : 0 < slab.inuse) (bound : slab.inuse < 2 ^ 32) :
    slab.inuse = (slab.push ptr).inuse + 1 := by
  simp only [push]
  omega

/-! ## Creation -/

theorem slabCacheCreate_eq (size align : Nat) (flags : BitVec 32) (calloc : Bool) :
    slabCacheCreate size align flags calloc =
      if calloc then
        if wordAlign (max size 8) (max align 8) = 0 then none
        else some (some (newCache (wordAlign (max size 8) (max align 8)) flags))
      else some none := by
  have sizeEq : (if size < 8 then 8 else size) = max size 8 := by
    split <;> omega
  have alignEq : (if (if align = 0 then 8 else align) < 8 then 8
      else if align = 0 then 8 else align) = max align 8 := by
    by_cases none : align = 0
    · rw [if_pos none, none]
      rfl
    · rw [if_neg none]
      split <;> omega
  simp [slabCacheCreate, sizeEq, alignEq]

theorem eq_newCache {flags : BitVec 32} {calloc : Bool}
    (created : slabCacheCreate size align flags calloc = some (some cache)) :
    cache = newCache (wordAlign (max size 8) (max align 8)) flags := by
  rw [slabCacheCreate_eq] at created
  split at created
  · split at created
    · cases created
    · exact (some.inj (some.inj created)).symm
  · cases created

theorem shaped_newCache (flags : BitVec 32) (pointer : 8 ≤ size)
    (room : size ≤ 1024 ∨ size * 4 + 48 < 2 ^ 64) : (newCache size flags).Shaped := by
  by_cases large : size > 4096 / 4
  · have four : size * 4 / size = 4 := Nat.mul_div_cancel_left 4 (by omega)
    have whole : size * 4 % 2 ^ 64 = size * 4 := Nat.mod_eq_of_lt (by omega)
    constructor <;> simp only [newCache, if_pos large, whole, four]
    · exact pointer
    · decide
    · decide
    · exact Nat.le_of_eq (Nat.mul_comm 4 size)
    · omega
  · have least : 4096 / 1024 ≤ 4096 / size := Nat.div_le_div_left (by omega) (by omega)
    have most : 4096 / size ≤ 4096 := Nat.div_le_self 4096 size
    have product : 4096 / size * size ≤ 4096 := Nat.div_mul_le_self 4096 size
    have word : 4096 / size % 2 ^ 32 = 4096 / size := Nat.mod_eq_of_lt (by omega)
    constructor <;> simp only [newCache, if_neg large, word]
    · exact pointer
    · split <;> omega
    · split <;> omega
    · rwa [if_neg (by omega)]
    · decide

/-! ## Lists of slabs -/

/-- The predecessor of a slab, which is the mark of the place that it is reached from. -/
def prevMark : Place SlabList Nat → Option Nat
  | .head _ => none
  | .next slab => some slab

/-- The number of objects in use is the one for the list. -/
def SlabList.Matches : SlabList → Slab → Prop
  | .slabsFull, slab => slab.inuse = slab.total
  | .slabsPartial, slab => 0 < slab.inuse ∧ slab.inuse < slab.total
  | .slabsEmpty, slab => slab.inuse = 0

/-- Only one list matches. -/
theorem SlabList.Matches.unique {source target : SlabList} (left : source.Matches slab)
    (right : target.Matches slab) (some : 0 < slab.total) : source = target := by
  cases source <;> cases target <;>
    first | rfl | (simp only [SlabList.Matches] at left right; omega)

variable {lists after : SlabLists} {chains moved : SlabList → List Nat} {source target : SlabList}

theorem slabListAdd_spec {list : SlabList} (allocated : (lists.backOf address).isSome)
    (firstAllocated : ∀ next ∈ lists.first list, (lists.backOf next).isSome)
    (outside : lists.first list ≠ some address) :
    ∃ after, slabListAdd lists list address = some after ∧
      Lists.AddedHead prevMark lists after address list := by
  obtain ⟨first, firstEq, firstLoad, firstBack⟩ := Lists.store_spec
    (by rwa [Lists.isSome_load_next]) (lists.first list)
  obtain ⟨second, secondEq, secondLoad, secondBack⟩ := Lists.setBack_spec
    (by rwa [firstBack]) (none : Option Nat)
  have thirdAllocated : ∀ next ∈ lists.first list, (second.backOf next).isSome := by
    intro next mem
    rw [secondBack, firstBack]
    split
    · rfl
    · exact firstAllocated next mem
  obtain ⟨third, thirdEq, thirdLoad, thirdBack⟩ := second.setSuccessor_spec thirdAllocated
    (some address)
  obtain ⟨fourth, fourthEq, fourthLoad, fourthBack⟩ := Lists.store_spec
    (rfl : (third.load (.head list)).isSome = true) (some address)
  refine ⟨fourth, ?_, ?_, ?_⟩
  · simp [slabListAdd, firstEq, secondEq, thirdEq, fourthEq]
  · intro other
    rw [fourthLoad, thirdLoad, secondLoad, firstLoad]
  · intro other
    rw [fourthBack, thirdBack, secondBack, firstBack]
    by_cases same : other = address
    · rw [if_pos same, if_pos same, if_neg, prevMark]
      rw [same]
      exact outside.symm
    · rw [if_neg same, if_neg same, prevMark]

theorem slabListRemove_spec (rep : lists.Chains prevMark chains) (mem : address ∈ chains source) :
    ∃ after, slabListRemove lists source address = some after ∧
      after.Chains prevMark (Function.update chains source ((chains source).erase address)) ∧
      ∀ other, (after.backOf other).isSome = (lists.backOf other).isSome := by
  obtain ⟨place, after, position, prev, unlinked, chained, same⟩ := rep.unlink mem none
  refine ⟨after, ?_, chained, same⟩
  rw [slabListRemove, prev]
  -- The place is computed from the predecessor and the list that is given.
  rcases position with rfl | ⟨before, rfl⟩
  · exact unlinked
  · exact unlinked

/-- A slab is on the target list now, and the others are where they were. -/
def Moved (chains moved : SlabList → List Nat) (address : Nat) (target : SlabList) : Prop :=
  ∀ list other, other ∈ moved list ↔
    (other = address ∧ list = target) ∨ (other ≠ address ∧ other ∈ chains list)

/-- The move puts the slab on a list that matches it, and leaves the others where they
were. -/
def Seats (lists : SlabLists) (chains : SlabList → List Nat) (address : Nat) (slab : Slab)
    (move : Option SlabLists) : Prop :=
  ∃ after moved target, move = some after ∧
    after.Chains prevMark moved ∧ Moved chains moved address target ∧ target.Matches slab ∧
    ∀ other, (after.backOf other).isSome = (lists.backOf other).isSome

section

variable (rep : lists.Chains prevMark chains) (mem : address ∈ chains source)
include rep mem

theorem seats_stay (matched : source.Matches slab) :
    Seats lists chains address slab (some lists) := by
  refine Exists.intro lists ⟨chains, source, rfl, rep, fun list other => ?_, matched, fun _ => rfl⟩
  constructor
  · intro otherMem
    by_cases same : other = address
    · exact .inl ⟨same, rep.unique list source address (same ▸ otherMem) mem⟩
    · exact .inr ⟨same, otherMem⟩
  · rintro (⟨rfl, rfl⟩ | ⟨-, otherMem⟩)
    · exact mem
    · exact otherMem

theorem seats_slabListMove (matched : target.Matches slab) :
    Seats lists chains address slab (slabListMove lists source target address) := by
  obtain ⟨middle, removed, chained, middleSame⟩ := slabListRemove_spec rep mem
  have outside : ∀ list,
      address ∉ Function.update chains source ((chains source).erase address) list := by
    intro list listMem
    exact ((rep.mem_update_erase mem).mp listMem).1 rfl
  have allocated : (middle.backOf address).isSome := by
    rw [middleSame]
    exact rep.allocated mem
  have notFirst : middle.first target ≠ some address := by
    intro first
    rw [chained.first_eq] at first
    exact outside target (List.mem_of_head? first)
  obtain ⟨after, added, addedHead⟩ := slabListAdd_spec allocated (chained.first_allocated target)
    notFirst
  refine Exists.intro after
    ⟨_, target, ?_, chained.addHead outside addedHead, ?_, matched, ?_⟩
  · rw [slabListMove, removed, bind_some, added]
  · intro list other
    rw [Lists.mem_update_cons, rep.mem_update_erase mem]
  · intro other
    rw [addedHead.isSome_backOf allocated (chained.first_allocated target), middleSame]

/-- The list moves of an allocation: the slab goes to the list that matches. -/
theorem seats_allocMove {old : Slab} (before : source.Matches old) (room : old.inuse < old.total)
    (many : 2 ≤ old.total) (inuse : slab.inuse = old.inuse + 1) (total : slab.total = old.total) :
    Seats lists chains address slab (allocMove lists address slab) := by
  have positive := Nat.lt_of_lt_of_le Nat.two_pos many
  by_cases first : slab.inuse = 1
  · obtain rfl : source = .slabsEmpty := before.unique (by simp [SlabList.Matches]; omega) positive
    have notFirst : lists.first .slabsPartial ≠ some address := by
      intro head
      rw [rep.first_eq] at head
      exact absurd (rep.unique _ _ _ (List.mem_of_head? head) mem) (by decide)
    rw [allocMove, if_pos ⟨first, notFirst⟩]
    exact seats_slabListMove rep mem (by simp only [SlabList.Matches]; omega)
  · obtain rfl : source = .slabsPartial :=
      before.unique (by simp [SlabList.Matches]; omega) positive
    rw [allocMove, if_neg fun both => first both.1]
    split
    next last => exact seats_slabListMove rep mem last
    next notLast => exact seats_stay rep mem (by simp only [SlabList.Matches]; omega)

/-- The list moves of a release. -/
theorem seats_freeMove {old : Slab} (before : source.Matches old) (bound : old.inuse ≤ old.total)
    (many : 2 ≤ old.total) (few : old.total < 2 ^ 32) (inuse : old.inuse = slab.inuse + 1)
    (total : slab.total = old.total) :
    Seats lists chains address slab (freeMove lists address slab) := by
  have positive := Nat.lt_of_lt_of_le Nat.two_pos many
  have less : (slab.total + (2 ^ 32 - 1)) % 2 ^ 32 = slab.total - 1 := by omega
  rw [freeMove, less]
  split
  next empty =>
    obtain rfl : source = .slabsPartial :=
      before.unique (by simp [SlabList.Matches]; omega) positive
    exact seats_slabListMove rep mem empty
  next notEmpty =>
    have partly : SlabList.Matches .slabsPartial slab := by
      simp only [SlabList.Matches]
      omega
    split
    next full =>
      obtain rfl : source = .slabsFull := before.unique (by simp [SlabList.Matches]; omega) positive
      exact seats_slabListMove rep mem partly
    next notFull =>
      obtain rfl : source = .slabsPartial :=
        before.unique (by simp [SlabList.Matches]; omega) positive
      exact seats_stay rep mem partly

end

end QDaemon.Memory
