import QDaemon.Memory.Slab.Calls
import Mathlib.Order.Interval.Finset.Nat

/-!
# Runs of a slab cache

After any calls the slabs of a cache are on the lists that match them, their free
lists hold the objects that are not allocated, and no allocated object is handed out
again.  This is so for the sizes that are served; for other ones a full slab can stay
on the list of the partly used ones.
-/

namespace QDaemon.Memory

open List Function Bits Bytes Linked Transition

variable {cache : SlabCache} {space : Space} {chains : SlabList → List Nat}
  {free taken : Nat → List Nat} {state next : CacheState} {ptr : Nat}
variable {memory : Space} {address : Nat}

/-- The objects that are allocated are those that are taken, and the counters give
their number. -/
structure Accounted (state : CacheState) (taken : Nat → List Nat) : Prop where
  consistent : ∃ chains free, Consistent state.cache state.space chains free taken
  nodup : state.allocated.Nodup
  mem : ∀ obj, obj ∈ state.allocated ↔ ∃ address, obj ∈ taken address
  count : wordSub state.cache.allocs state.cache.frees = state.allocated.length

namespace Accounted

/-- There are fewer objects than addresses. -/
theorem length_lt {objects : List Nat} (nodup : objects.Nodup)
    (bounded : ∀ obj ∈ objects, 0 < obj ∧ obj < 2 ^ 64) : objects.length < 2 ^ 64 := by
  have subset : objects.toFinset ⊆ Finset.Ioo 0 (2 ^ 64) := by
    intro obj mem
    rw [mem_toFinset] at mem
    exact Finset.mem_Ioo.mpr (bounded obj mem)
  have card := Finset.card_le_card subset
  rw [toFinset_card_of_nodup nodup, Nat.card_Ioo] at card
  omega

theorem initial {size : Nat} {flags : BitVec 32} (shaped : (newCache size flags).Shaped)
    (space : Space) : Accounted ⟨newCache size flags, space, []⟩ fun _ => [] where
  consistent := ⟨_, _, consistent_newCache shaped space⟩
  nodup := nodup_nil
  mem := by simp
  count := (by decide : wordSub 0 0 = 0)

section

variable (accounted : Accounted state taken)
include accounted

/-- An object is handed out. -/
theorem alloc {after : SlabCache} {obj : Nat}
    (allocated : Allocated state.cache after state.space memory taken obj address) :
    Accounted ⟨after, memory, obj :: state.allocated⟩
      (update taken address (obj :: taken address)) := by
  have members : ∀ other, other ∈ obj :: state.allocated ↔
      ∃ slab, other ∈ update taken address (obj :: taken address) slab := by
    intro other
    rw [mem_cons, accounted.mem other]
    constructor
    · rintro (rfl | ⟨slab, held⟩)
      · exact ⟨address, by rw [update_self]; exact mem_cons_self⟩
      · refine ⟨slab, ?_⟩
        by_cases same : slab = address
        · subst same
          rw [update_self]
          exact mem_cons_of_mem obj held
        · rwa [update_of_ne same]
    · rintro ⟨slab, held⟩
      by_cases same : slab = address
      · subst same
        rw [update_self] at held
        exact (mem_cons.mp held).imp_right fun old => ⟨slab, old⟩
      · rw [update_of_ne same] at held
        exact .inr ⟨slab, held⟩
  have fresh : obj ∉ state.allocated := by
    intro mem
    obtain ⟨slab, held⟩ := (accounted.mem obj).mp mem
    exact allocated.fresh slab held
  have nodup : (obj :: state.allocated).Nodup := nodup_cons.mpr ⟨fresh, accounted.nodup⟩
  refine ⟨allocated.consistent, nodup, members, ?_⟩
  have bound : (obj :: state.allocated).length < 2 ^ 64 := by
    apply length_lt nodup
    intro other mem
    obtain ⟨chains, free, rep⟩ := allocated.consistent
    obtain ⟨slab, held⟩ := (members other).mp mem
    obtain ⟨list, listMem⟩ := rep.holds_of_taken held
    exact rep.object_bounded listMem ((rep.holds list slab listMem).mem_taken held)
  obtain ⟨lists, slab, rfl⟩ := allocated.parameters
  exact wordSub_wordAdd_left accounted.count bound

/-- An object is given back. -/
theorem release {after : SlabCache} (held : ptr ∈ taken address)
    (released : Released state.cache after state.space memory taken ptr address) :
    Accounted ⟨after, memory, state.allocated.erase ptr⟩
      (update taken address ((taken address).erase ptr)) := by
  obtain ⟨chains, free, rep⟩ := accounted.consistent
  have mem : ptr ∈ state.allocated := (accounted.mem ptr).mpr ⟨address, held⟩
  obtain ⟨list, listMem⟩ := rep.holds_of_taken held
  have holds := rep.holds list address listMem
  have nodup : (taken address).Nodup := (nodup_append.mp (holds.nodup rep.shaped)).2.1
  have elsewhere : ∀ slab, slab ≠ address → ptr ∉ taken slab := by
    intro slab different otherHeld
    obtain ⟨otherList, otherMem⟩ := rep.holds_of_taken otherHeld
    exact different (rep.slab_unique otherMem listMem
      ((rep.holds otherList slab otherMem).mem_taken otherHeld) (holds.mem_taken held))
  refine ⟨released.consistent, accounted.nodup.erase ptr, ?_, ?_⟩
  · intro other
    rw [accounted.nodup.mem_erase_iff, accounted.mem other]
    constructor
    · rintro ⟨different, slab, otherHeld⟩
      refine ⟨slab, ?_⟩
      by_cases same : slab = address
      · subst same
        rw [update_self]
        exact nodup.mem_erase_iff.mpr ⟨different, otherHeld⟩
      · rwa [update_of_ne same]
    · rintro ⟨slab, otherHeld⟩
      by_cases same : slab = address
      · subst same
        rw [update_self] at otherHeld
        obtain ⟨different, old⟩ := nodup.mem_erase_iff.mp otherHeld
        exact ⟨different, slab, old⟩
      · rw [update_of_ne same] at otherHeld
        refine ⟨?_, slab, otherHeld⟩
        rintro rfl
        exact elsewhere slab same otherHeld
  · obtain ⟨lists, slab, rfl⟩ := released.parameters
    rw [length_erase_of_mem mem]
    exact wordSub_wordAdd_right accounted.count (length_pos_of_mem mem)

/-- The owner of an object writes to it. -/
theorem write {offset : Nat} {data : List Byte} (mem : ptr ∈ state.allocated)
    (inside : offset + data.length ≤ state.cache.objSize)
    (written : state.space.write (ptr + offset) data = some memory) :
    Accounted { state with space := memory } taken := by
  obtain ⟨chains, free, rep⟩ := accounted.consistent
  obtain ⟨address, held⟩ := (accounted.mem ptr).mp mem
  obtain ⟨list, listMem⟩ := rep.holds_of_taken held
  have object := (rep.holds list address listMem).mem_taken held
  refine ⟨⟨chains, free, ?_⟩, accounted.nodup, accounted.mem, accounted.count⟩
  obtain ⟨regions, bytes⟩ := Space.of_write written
  have covers : (state.cache.extent ptr).Covers ⟨ptr + offset, data.length⟩ := by
    refine ⟨Nat.le_add_right ptr offset, ?_⟩
    simp only [SlabCache.extent]
    omega
  apply rep.frame
  · intro otherList other otherMem
    rw [regions]
    exact rep.mapped otherList other otherMem
  · intro otherList other otherMem obj objFree byte contained
    have different : obj ≠ ptr := by
      rintro rfl
      exact rep.not_mem_taken otherMem objFree address held
    have apart := rep.extent_apart otherMem listMem
      ((rep.holds otherList other otherMem).mem_free objFree) object different
    rw [bytes]
    apply overwrite_of_not_contains
    exact fun within => apart.not_contains contained (covers.contains within)

theorem step {call : CacheCall} (stepEq : cacheStep state call = some next) :
    ∃ takenAfter, Accounted next takenAfter := by
  obtain ⟨chains, free, rep⟩ := accounted.consistent
  cases call with
  | alloc mmap =>
    obtain ⟨⟨cache, space, result⟩, allocEq, rfl⟩ := Option.map_eq_some_iff.mp stepEq
    rcases (slabAlloc_yields rep mmap).good allocEq with ⟨rfl, rfl, rfl⟩ | ⟨obj, address, rfl, allocated⟩
    · exact ⟨taken, accounted⟩
    · exact ⟨_, accounted.alloc allocated⟩
  | free ptr rounds =>
    rw [cacheStep] at stepEq
    split at stepEq
    next mem =>
      obtain ⟨⟨cache, space, flag⟩, freeEq, rfl⟩ := Option.map_eq_some_iff.mp stepEq
      obtain ⟨address, held⟩ := (accounted.mem ptr).mp mem
      exact ⟨_, accounted.release held ((slabFree_yields rep held).good freeEq).2⟩
    · cases stepEq
  | shrink rounds =>
    obtain ⟨⟨cache, space, count⟩, shrinkEq, rfl⟩ := Option.map_eq_some_iff.mp stepEq
    have shrunk := (slabCacheShrink_yields rep).good shrinkEq
    obtain ⟨lists, rfl⟩ := shrunk.parameters
    exact ⟨taken, shrunk.consistent, accounted.nodup, accounted.mem, accounted.count⟩
  | write ptr offset data =>
    rw [cacheStep] at stepEq
    split at stepEq
    next owned =>
      obtain ⟨memory, written, rfl⟩ := Option.map_eq_some_iff.mp stepEq
      exact ⟨taken, accounted.write owned.1 owned.2 written⟩
    · cases stepEq

end

end Accounted

/-- The free list of a slab: different objects of the slab, none of which overlaps an
allocated one, and as many as are not in use. -/
structure FreeListSound (state : CacheState) (address : Nat) (objects : List Nat) : Prop where
  chain : FreeChain state.space.bytes (state.cache.slab address).freelist objects
  nodup : objects.Nodup
  inside : ∀ obj ∈ objects, (state.cache.region address).Covers (state.cache.extent obj)
  apart : ∀ obj ∈ objects, ∀ other ∈ state.allocated,
    (state.cache.extent obj).Apart (state.cache.extent other)
  count : objects.length + (state.cache.slab address).inuse = (state.cache.slab address).total

theorem Accounted.freeListSound (accounted : Accounted state taken)
    (rep : Consistent state.cache state.space chains free taken) {list : SlabList}
    (mem : address ∈ chains list) : FreeListSound state address (free address) := by
  have holds := rep.holds list address mem
  refine ⟨holds.chain, (nodup_append.mp (holds.nodup rep.shaped)).1, ?_, ?_, holds.length_add⟩
  · intro obj objFree
    exact rep.shaped.region_covers (holds.mem_free objFree)
  · intro obj objFree other otherMem
    obtain ⟨slab, held⟩ := (accounted.mem other).mp otherMem
    obtain ⟨otherList, slabMem⟩ := rep.holds_of_taken held
    apply rep.extent_apart mem slabMem (holds.mem_free objFree)
      ((rep.holds otherList slab slabMem).mem_taken held)
    rintro rfl
    exact rep.not_mem_taken mem objFree slab held

/-- For the sizes that are served, after any calls: each slab is on one list, which
matches it, and has a sound free list; the counters give the number of allocated
objects; every call returns, and an allocation returns no object that is allocated. -/
theorem slabCache_invariant {size align : Nat} {flags : BitVec 32} {calloc : Bool}
    {cache : SlabCache} {space : Space} {state : CacheState} (served : Served size align)
    (created : slabCacheCreate size align flags calloc = some (some cache))
    (run : Reachable cacheStep ⟨cache, space, []⟩ state) :
    (∃ chains, state.cache.lists.Chains prevMark chains ∧
      (∀ address, (state.cache.lists.node address).isSome → ∃! list, address ∈ chains list) ∧
      ∀ list, ∀ address ∈ chains list, list.Matches (state.cache.slab address) ∧
        ∃ objects, FreeListSound state address objects) ∧
      state.allocated.Nodup ∧
      wordSub state.cache.allocs state.cache.frees = state.allocated.length ∧
      (∀ mmap, (∀ address ∈ mmap, state.space.Fresh (state.cache.region address)) →
        ∃ after memory result, slabAlloc state.cache state.space mmap = some (after, memory, result) ∧
          ∀ obj slab, result = some (obj, slab) → obj ∉ state.allocated) ∧
      (∀ ptr ∈ state.allocated, ∃ bound, ∀ rounds ≥ bound, ∃ after memory,
        slabFree state.cache state.space ptr rounds = some (after, memory, true)) ∧
      ∃ bound, ∀ rounds ≥ bound, (slabCacheShrink state.cache state.space rounds).isSome := by
  obtain ⟨taken, accounted⟩ : ∃ taken, Accounted state taken := by
    rw [eq_newCache created] at run
    have shaped := shaped_newCache flags served.1 served.2
    exact run.invariant (fun state => ∃ taken, Accounted state taken)
      ⟨_, Accounted.initial shaped space⟩
      fun _ _ _ ⟨_, accounted⟩ _ stepEq => accounted.step stepEq
  obtain ⟨chains, free, rep⟩ := accounted.consistent
  refine ⟨⟨chains, rep.lists, ?_, ?_⟩, accounted.nodup, accounted.count, ?_, ?_, ?_⟩
  · intro address isSome
    obtain ⟨list, mem⟩ := rep.listed address (by rwa [SlabCache.Live, Lists.backOf, Option.isSome_map])
    exact ⟨list, mem, fun other otherMem => rep.lists.unique other list address otherMem mem⟩
  · intro list address mem
    exact ⟨rep.matching list address mem, free address, accounted.freeListSound rep mem⟩
  · intro mmap fresh
    obtain ⟨⟨after, memory, result⟩, returned, outcome⟩ := (slabAlloc_yields rep mmap).meets fresh
    refine ⟨after, memory, result, returned, ?_⟩
    rintro obj slab rfl mem
    rcases outcome with ⟨⟨⟩, -⟩ | ⟨_, _, ⟨⟩, allocated⟩
    obtain ⟨slab, held⟩ := (accounted.mem obj).mp mem
    exact allocated.fresh slab held
  · intro ptr mem
    obtain ⟨address, held⟩ := (accounted.mem ptr).mp mem
    obtain ⟨bound, returns⟩ := exists_rounds chains
    refine ⟨bound, fun rounds enough => ?_⟩
    obtain ⟨⟨after, memory, flag⟩, returned, rfl, -⟩ :=
      (slabFree_yields rep held).meets (returns rounds enough)
    exact ⟨after, memory, returned⟩
  · obtain ⟨bound, returns⟩ := exists_rounds chains
    exact ⟨bound, fun rounds enough => (slabCacheShrink_yields rep).returns (returns rounds enough _)⟩

/-- A process without any mapping. -/
def emptySpace : Space where
  bytes := fun _ => 0
  regions := []
  apart := List.Pairwise.nil
  valid := fun _ mem => absurd mem not_mem_nil

/-- Objects of 1000 bytes: a slab becomes full, a second one is mapped, and after the
releases it is empty and unmapped again. -/
def twoSlabs : List CacheCall :=
  [.alloc (some 4096), .alloc none, .alloc none, .write 7144 992 [1, 2, 3, 4, 5, 6, 7, 8],
    .alloc none, .alloc (some 16384), .free 7144 2, .free 19432 2, .shrink 2]

theorem slabCache_invariant_twoSlabs :
    ∃ cache state, slabCacheCreate 1000 8 0 true = some (some cache) ∧
      exec cacheStep ⟨cache, emptySpace, []⟩ twoSlabs = some state ∧
      state.allocated = [4144, 5144, 6144] ∧
      wordSub state.cache.allocs state.cache.frees = 3 ∧
      ∃ bound, ∀ rounds ≥ bound, (slabCacheShrink state.cache state.space rounds).isSome := by
  have outcome : (exec cacheStep ⟨newCache 1000 0, emptySpace, []⟩ twoSlabs).map
      (fun state => decide (state.allocated = [4144, 5144, 6144])) = some true := by
    decide +kernel
  have created : slabCacheCreate 1000 8 0 true = some (some (newCache 1000 0)) := by
    rfl
  have served : Served 1000 8 := by
    rw [Served]
    decide
  obtain ⟨state, stateEq, facts⟩ := Option.map_eq_some_iff.mp outcome
  have allocated := of_decide_eq_true facts
  obtain ⟨-, -, count, -, -, shrinks⟩ :=
    slabCache_invariant served created (reachable_of_exec stateEq)
  rw [allocated] at count
  exact ⟨_, state, created, stateEq, allocated, count, shrinks⟩

/-- Four objects of this size wrap to one page, which is taken for a slab with one
object.  After one allocation it is full and on the list of the partly used slabs, and
the next allocation reads the null address. -/
theorem slabCache_wrappingSize :
    ∃ cache state, slabCacheCreate (2 ^ 62 + 1024) 8 0 true = some (some cache) ∧
      exec cacheStep ⟨cache, emptySpace, []⟩ [.alloc (some 4096)] = some state ∧
      state.cache.lists.first .slabsPartial = some 4096 ∧
      (state.cache.slab 4096).inuse = (state.cache.slab 4096).total ∧
      ∀ mmap, slabAlloc state.cache state.space mmap = none := by
  have created : slabCacheCreate (2 ^ 62 + 1024) 8 0 true =
      some (some (newCache (2 ^ 62 + 1024) 0)) := by
    rfl
  obtain ⟨state, stateEq, first, full, stuck⟩ := exec_meets cacheStep ⟨newCache (2 ^ 62 + 1024) 0,
      emptySpace, []⟩ [.alloc (some 4096)] (fun state => state.cache.lists.first .slabsPartial =
      some 4096 ∧ (state.cache.slab 4096).inuse = (state.cache.slab 4096).total ∧ (allocFrom
      state.cache state.space 4096).isNone = true) (by decide +kernel)
  refine ⟨_, state, created, stateEq, first, full, ?_⟩
  intro mmap
  simp only [slabAlloc, first]
  change (allocFrom state.cache state.space 4096).map _ = none
  rw [Option.isNone_iff_eq_none.mp stuck, Option.map_none]

/-! ## Pointers to objects -/

/-- The pointer is where one of the objects of the slab begins. -/
def SlabCache.Starts (cache : SlabCache) (slab ptr : Nat) : Prop :=
  ∃ index < (cache.slab slab).total,
    ptr = ((cache.slab slab).base + index * cache.objSize) % 2 ^ 64

instance (cache : SlabCache) (slab ptr : Nat) : Decidable (cache.Starts slab ptr) :=
  inferInstanceAs (Decidable (∃ index < _, _))

theorem slabFindByPtr_matches {ptr rounds slab : Nat}
    (found : slabFindByPtr cache ptr rounds = some (some slab)) :
    slabPtrMatches cache slab ptr = true := by
  have search {list : SlabList} (met : cache.lists.find (slabFound cache ptr) rounds
      (cache.lists.first list) = some (some slab)) : slabPtrMatches cache slab ptr = true := by
    have accepted := Lists.find_met met
    rw [slabFound, Bool.and_eq_true] at accepted
    exact accepted.2
  obtain ⟨full, fullEq, found⟩ := Option.bind_eq_some_iff.mp found
  split at found
  · exact search (fullEq.trans found)
  · obtain ⟨part, partEq, found⟩ := Option.bind_eq_some_iff.mp found
    split at found
    · exact search (partEq.trans found)
    · exact search found

section

variable {flags : BitVec 32} {calloc : Bool} {space mapped : Space} {slab : Nat} {after : SlabCache}
variable (created : slabCacheCreate size align flags calloc = some (some cache))
variable (made : slabCreate cache space slab = some (after, mapped))
include created made

/-- The objects of a new slab fit into it, unless there is only the one there always is. -/
theorem slabCreate_objects : 0 < after.objSize ∧ after.slabSize < 2 ^ 64 ∧
    (after.slab slab).base < 2 ^ 64 ∧ ((after.slab slab).total = 1 ∨
      0 < (after.slab slab).total ∧ (after.slab slab).total * after.objSize ≤ after.slabSize) := by
  obtain ⟨_, -, made⟩ := Option.bind_eq_some_iff.mp made
  obtain ⟨_, -, made⟩ := Option.bind_eq_some_iff.mp made
  cases made
  have nonzero : wordAlign (max size 8) (max align 8) ≠ 0 := by
    intro zero
    simp [slabCacheCreate_eq, zero] at created
  simp only [Function.update_self, eq_newCache created]
  refine ⟨Nat.pos_of_ne_zero nonzero, ?_, Nat.mod_lt _ (by decide), ?_⟩
  · simp only [newCache]
    split <;> omega
  · generalize wordAlign (max size 8) (max align 8) = size
    by_cases none : (newCache size flags).slabSize / size % 2 ^ 32 = 0
    · exact .inl (if_pos none)
    · have count : (newCache size flags).objsPerSlab = (newCache size flags).slabSize / size % 2 ^ 32 :=
        if_neg none
      rw [count]
      exact .inr ⟨Nat.pos_of_ne_zero none,
        (Nat.mul_le_mul_right size (Nat.mod_le _ _)).trans (Nat.div_mul_le_self _ size)⟩

/-- Exactly the objects match if the slab is not empty and does not wrap, and there is
no room for another object to start behind them.  The search accepts what matches. -/
theorem slabPtrMatches_exact_iff :
    ((∀ ptr < 2 ^ 64, slabPtrMatches after slab ptr = true ↔ after.Starts slab ptr) ↔
      (after.slab slab).base + after.slabSize < 2 ^ 64 ∧ 0 < after.slabSize ∧
        after.slabSize ≤ (after.slab slab).total * after.objSize) ∧
    ∀ (current : SlabCache) (ptr rounds found : Nat),
      slabFindByPtr current ptr rounds = some (some found) →
        slabPtrMatches current found ptr = true := by
  obtain ⟨size, room, base, objects⟩ := slabCreate_objects created made
  refine ⟨⟨?_, ?_⟩, fun current ptr rounds found => slabFindByPtr_matches⟩
  · intro exact
    have first : after.Starts slab (after.slab slab).base :=
      ⟨0, by omega, by rw [Nat.zero_mul, Nat.add_zero, Nat.mod_eq_of_lt base]⟩
    have upper := ((slabPtrMatches_iff base).mp ((exact _ base).mpr first)).1
    rw [wordAdd] at upper
    refine ⟨by omega, by omega, ?_⟩
    by_contra tail
    -- The place behind the objects matches, too.
    have behind : slabPtrMatches after slab ((after.slab slab).base +
        (after.slab slab).total * after.objSize) = true :=
      (slabPtrMatches_iff (by omega)).mpr ⟨by rw [wordAdd]; omega, _, rfl⟩
    obtain ⟨index, inside, same⟩ := (exact _ (by omega)).mp behind
    have less := Nat.mul_lt_mul_of_pos_right inside size
    rw [Nat.mod_eq_of_lt (by omega)] at same
    omega
  · rintro ⟨bound, nonempty, full⟩ ptr word
    rw [slabPtrMatches_iff word, wordAdd_eq bound]
    constructor
    · rintro ⟨below, index, rfl⟩
      have inside := (Nat.add_lt_add_iff_left.mp below).trans_le full
      exact ⟨index, Nat.lt_of_mul_lt_mul_right inside, (Nat.mod_eq_of_lt word).symm⟩
    · rintro ⟨index, inside, rfl⟩
      have before : index * after.objSize < after.slabSize := by
        rcases objects with one | ⟨-, fits⟩
        · obtain rfl : index = 0 := by omega
          rwa [Nat.zero_mul]
        · exact (Nat.mul_lt_mul_of_pos_right inside size).trans_le fits
      rw [Nat.mod_eq_of_lt (by omega)]
      exact ⟨by omega, index, rfl⟩

end

/-- Four objects of 1024 bytes leave no room. -/
theorem slabPtrMatches_exact_iff_kilobyte : ∃ cache after mapped,
    slabCacheCreate 1024 8 0 true = some (some cache) ∧
      slabCreate cache emptySpace 4096 = some (after, mapped) ∧
      ∀ ptr < 2 ^ 64, slabPtrMatches after 4096 ptr = true ↔ after.Starts 4096 ptr := by
  have outcome : (slabCreate (newCache 1024 0) emptySpace 4096).any (fun made =>
      (made.1.slab 4096).base + made.1.slabSize < 2 ^ 64 ∧ 0 < made.1.slabSize ∧
        made.1.slabSize ≤ (made.1.slab 4096).total * made.1.objSize) = true := by
    decide +kernel
  obtain ⟨⟨after, mapped⟩, made, facts⟩ := (Option.any_eq_true _ _).mp outcome
  have created : slabCacheCreate 1024 8 0 true = some (some (newCache 1024 0)) := by
    rfl
  exact ⟨_, after, mapped, created, made,
    (slabPtrMatches_exact_iff created made).1.mpr (of_decide_eq_true facts)⟩

/-- Behind the four objects of 1000 bytes there is room for the start of another one. -/
theorem slabPtrMatches_tail : ∃ cache after mapped,
    slabCacheCreate 1000 8 0 true = some (some cache) ∧
      slabCreate cache emptySpace 4096 = some (after, mapped) ∧
      slabPtrMatches after 4096 8144 = true ∧ ¬ after.Starts 4096 8144 := by
  have outcome : (slabCreate (newCache 1000 0) emptySpace 4096).any (fun made =>
      slabPtrMatches made.1 4096 8144 = true ∧ ¬ made.1.Starts 4096 8144) = true := by
    decide +kernel
  obtain ⟨⟨after, mapped⟩, made, facts⟩ := (Option.any_eq_true _ _).mp outcome
  exact ⟨_, after, mapped, rfl, made, of_decide_eq_true facts⟩

end QDaemon.Memory
