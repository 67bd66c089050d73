import QDaemon.Memory.Slab.Layout

/-!
# The invariant of a slab cache

What a cache and the memory satisfy between calls, and how it is kept when one object
is taken or released.
-/

namespace QDaemon.Memory

open Option List Function Bits Bytes Linked Transition

variable {cache : SlabCache} {space : Space} {chains : SlabList → List Nat}
  {free taken : Nat → List Nat} {address obj ptr : Nat} {source : SlabList}

/-! ## The invariant -/

variable {other : Nat}

theorem SlabCache.Shaped.word_apart (shaped : cache.Shaped) (mem : obj ∈ cache.objects address)
    (otherMem : other ∈ cache.objects address) (different : obj ≠ other) :
    (cache.extent obj).Apart ⟨other, 8⟩ :=
  ((extent_apart mem otherMem different).symm.of_covers (shaped.extent_covers other)).symm

/-- The slab is mapped. -/
def SlabCache.Live (cache : SlabCache) (address : Nat) : Prop :=
  (cache.lists.backOf address).isSome

/-- Each object of a slab is free and linked, or taken and counted. -/
structure SlabHolds (cache : SlabCache) (bytes : Nat → Byte) (address : Nat) (slab : Slab)
    (free taken : List Nat) : Prop where
  base : slab.base = address + 48
  total : slab.total = cache.objsPerSlab
  chain : FreeChain bytes slab.freelist free
  objects : (free ++ taken).Perm (cache.objects address)
  inuse : slab.inuse = taken.length

/-- The invariant of a cache: the slabs that are mapped are on the lists, each on the
one that matches. -/
structure Consistent (cache : SlabCache) (space : Space) (chains : SlabList → List Nat)
    (free taken : Nat → List Nat) : Prop where
  shaped : cache.Shaped
  lists : cache.lists.Chains prevMark chains
  listed : ∀ address, cache.Live address → ∃ list, address ∈ chains list
  mapped : ∀ list, ∀ address ∈ chains list, cache.region address ∈ space.regions
  holds : ∀ list, ∀ address ∈ chains list,
    SlabHolds cache space.bytes address (cache.slab address) (free address) (taken address)
  matching : ∀ list, ∀ address ∈ chains list, list.Matches (cache.slab address)
  taken_live : ∀ address, taken address ≠ [] → ∃ list, address ∈ chains list

namespace SlabHolds

variable {bytes after : Nat → Byte} {slab : Slab} {freeList takenList : List Nat}

section

variable (holds : SlabHolds cache bytes address slab freeList takenList)
include holds

theorem mem_free (mem : obj ∈ freeList) : obj ∈ cache.objects address :=
  holds.objects.subset (mem_append_left takenList mem)

theorem mem_taken (mem : obj ∈ takenList) : obj ∈ cache.objects address :=
  holds.objects.subset (mem_append_right freeList mem)

theorem nodup (shaped : cache.Shaped) : (freeList ++ takenList).Nodup :=
  holds.objects.nodup_iff.mpr (shaped.nodup_objects address)

theorem length_add : freeList.length + slab.inuse = slab.total := by
  have lengths := holds.objects.length_eq
  rw [length_append, SlabCache.objects, length_map, length_range] at lengths
  rw [holds.inuse, holds.total, lengths]

end

/-- An object leaves the free list, and its bytes may change. -/
theorem pop {rest : List Nat} (holds : SlabHolds cache bytes address slab (obj :: rest) takenList)
    (shaped : cache.Shaped) (inuse : (slab.pop (wordAt bytes obj)).inuse = slab.inuse + 1)
    (same : ∀ byte, ¬ (cache.extent obj).Contains byte → after byte = bytes byte) :
    SlabHolds cache after address (slab.pop (wordAt bytes obj)) rest (obj :: takenList) where
  base := by rw [Slab.pop_base, holds.base]
  total := by rw [Slab.pop_total, holds.total]
  chain := by
    apply holds.chain.2.frame
    intro other mem
    have fresh := (nodup_cons.mp (holds.nodup shaped)).1
    have different : obj ≠ other := by
      rintro rfl
      exact fresh (mem_append_left takenList mem)
    have apart := shaped.word_apart (holds.mem_free mem_cons_self)
      (holds.mem_free (mem_cons_of_mem obj mem)) different
    rw [wordAt, wordAt, contents_congr]
    intro byte inside
    exact same byte (apart.symm.not_contains inside)
  objects := perm_middle.trans holds.objects
  inuse := by rw [length_cons, ← holds.inuse, inuse]

/-- An object comes to the free list. -/
theorem push (holds : SlabHolds cache bytes address slab freeList takenList) (shaped : cache.Shaped)
    (held : ptr ∈ takenList) (inuse : slab.inuse = (slab.push ptr).inuse + 1)
    (word : slab.freelist < 2 ^ 64)
    (same : ∀ byte, ¬ (cache.extent ptr).Contains byte → after byte = bytes byte) :
    SlabHolds cache (overwrite after ptr (encode 8 slab.freelist)) address (slab.push ptr)
      (ptr :: freeList) (takenList.erase ptr) := by
  have apart : ∀ other ∈ freeList, (cache.extent ptr).Apart ⟨other, 8⟩ := by
    intro other mem
    apply shaped.word_apart (holds.mem_taken held) (holds.mem_free mem)
    rintro rfl
    exact (nodup_append.mp (holds.nodup shaped)).2.2 ptr mem ptr held rfl
  constructor
  · rw [Slab.push_base, holds.base]
  · rw [Slab.push_total, holds.total]
  · rw [Slab.push_freelist]
    apply FreeChain.push _ word
    · intro other mem
      exact (apart other mem).of_covers (shaped.extent_covers ptr)
    · apply holds.chain.frame
      intro other mem
      rw [wordAt, wordAt, contents_congr]
      intro byte inside
      exact same byte ((apart other mem).symm.not_contains inside)
  · refine List.Perm.trans ?_ holds.objects
    exact perm_middle.symm.trans ((perm_cons_erase held).symm.append_left _)
  · rw [length_erase_of_mem held, ← holds.inuse, inuse, Nat.add_sub_cancel]

end SlabHolds

namespace Consistent

section

variable (rep : Consistent cache space chains free taken)
include rep

/-- The slab that an object is taken from. -/
theorem holds_of_taken (mem : obj ∈ taken address) : ∃ list, address ∈ chains list :=
  rep.taken_live address (ne_nil_of_mem mem)

theorem live_iff (address : Nat) : cache.Live address ↔ ∃ list, address ∈ chains list := by
  constructor
  · exact rep.listed address
  · rintro ⟨list, mem⟩
    exact rep.lists.allocated mem

end

variable {list otherList : SlabList}

section

variable (rep : Consistent cache space chains free taken)
include rep

section

variable (mem : address ∈ chains list)
include mem

theorem region_apart (otherMem : other ∈ chains otherList) (different : address ≠ other) :
    (cache.region address).Apart (cache.region other) := by
  apply space.apart_of_ne (rep.mapped list address mem) (rep.mapped otherList other otherMem)
  intro same
  exact different (congrArg Region.start same)

theorem accessible (object : obj ∈ cache.objects address) : space.Accessible (cache.extent obj) :=
  ⟨_, rep.mapped list address mem, rep.shaped.region_covers object⟩

theorem bounded : 0 < address ∧ address + (cache.slabSize + 48) < 2 ^ 64 := by
  have valid := space.valid _ (rep.mapped list address mem)
  rw [rep.shaped.region_eq] at valid
  exact ⟨valid.nonnull, valid.bounded⟩

theorem object_bounded (object : obj ∈ cache.objects address) : 0 < obj ∧ obj < 2 ^ 64 := by
  have covers := rep.shaped.region_covers object
  have bounds := rep.bounded mem
  rw [rep.shaped.region_eq] at covers
  have lower : address ≤ obj := covers.1
  have upper : obj + cache.objSize ≤ address + (cache.slabSize + 48) := covers.2
  omega

/-- An object belongs to one slab. -/
theorem slab_unique (otherMem : other ∈ chains otherList) (object : obj ∈ cache.objects address)
    (otherObject : obj ∈ cache.objects other) : address = other := by
  by_contra different
  have inside := rep.shaped.extent_contains obj
  exact (rep.region_apart mem otherMem different).not_contains
    ((rep.shaped.region_covers object).contains inside)
    ((rep.shaped.region_covers otherObject).contains inside)

/-- Different objects do not overlap. -/
theorem extent_apart {otherObj : Nat} (otherMem : other ∈ chains otherList)
    (object : obj ∈ cache.objects address) (otherObject : otherObj ∈ cache.objects other)
    (different : obj ≠ otherObj) : (cache.extent obj).Apart (cache.extent otherObj) := by
  by_cases same : address = other
  · subst same
    exact SlabCache.Shaped.extent_apart object otherObject different
  · have apart := (rep.region_apart mem otherMem same).of_covers (rep.shaped.region_covers object)
    exact (apart.symm.of_covers (rep.shaped.region_covers otherObject)).symm

/-- A free object is not taken. -/
theorem not_mem_taken (objFree : obj ∈ free address) (other : Nat) : obj ∉ taken other := by
  intro held
  obtain ⟨otherList, otherMem⟩ := rep.holds_of_taken held
  have holds := rep.holds list address mem
  obtain rfl := rep.slab_unique mem otherMem (holds.mem_free objFree)
    ((rep.holds otherList other otherMem).mem_taken held)
  exact (nodup_append.mp (holds.nodup rep.shaped)).2.2 obj objFree obj held rfl

end

/-- The bytes of the free objects are all that the cache needs of the memory. -/
theorem frame {after : Space}
    (regions : ∀ list, ∀ address ∈ chains list, cache.region address ∈ after.regions)
    (same : ∀ list, ∀ address ∈ chains list, ∀ obj ∈ free address, ∀ byte,
      (cache.extent obj).Contains byte → after.bytes byte = space.bytes byte) :
    Consistent cache after chains free taken := by
  refine { rep with mapped := regions, holds := ?_ }
  intro list address mem
  have holds := rep.holds list address mem
  refine { holds with chain := holds.chain.frame ?_ }
  intro obj objMem
  rw [wordAt, wordAt, contents_congr]
  intro byte inside
  exact same list address mem obj objMem byte ((rep.shaped.extent_covers obj).contains inside)

/-- One slab changes or is new, and goes to a list; the bytes of the other slabs stay. -/
theorem update {lists : SlabLists} {moved : SlabList → List Nat} {target : SlabList} {after : Space}
    {slab : Slab} {freeList takenList : List Nat} (allocs frees : Nat)
    (chained : lists.Chains prevMark moved) (movedTo : Moved chains moved address target)
    (matching : target.Matches slab)
    (nodes : ∀ other, other ≠ address → (lists.backOf other).isSome →
      (cache.lists.backOf other).isSome) (mapped : cache.region address ∈ after.regions)
    (regions : ∀ region ∈ space.regions, region ∈ after.regions)
    (bytes : ∀ byte, ¬ (cache.region address).Contains byte → after.bytes byte = space.bytes byte)
    (holds : SlabHolds cache after.bytes address slab freeList takenList) : Consistent { cache with
        lists := lists
        slab := update cache.slab address slab
        allocs := allocs
        frees := frees } after moved
      (update free address freeList) (update taken address takenList) := by
  have here : address ∈ moved target := (movedTo target address).mpr (.inl ⟨rfl, rfl⟩)
  have live : ∀ other, other ≠ address → (∃ list, other ∈ chains list) →
      ∃ list, other ∈ moved list := by
    rintro other different ⟨list, otherMem⟩
    exact ⟨list, (movedTo list other).mpr (.inr ⟨different, otherMem⟩)⟩
  refine ⟨⟨rep.shaped.size, rep.shaped.many, rep.shaped.few, rep.shaped.fits, rep.shaped.bounded⟩,
    chained, ?_, ?_, ?_, ?_, ?_⟩
  · intro other isSome
    by_cases same : other = address
    · exact ⟨target, same ▸ here⟩
    · exact live other same (rep.listed other (nodes other same isSome))
  · intro list other otherMem
    rcases (movedTo list other).mp otherMem with ⟨rfl, -⟩ | ⟨-, old⟩
    · exact mapped
    · exact regions _ (rep.mapped list other old)
  · intro list other otherMem
    rcases (movedTo list other).mp otherMem with ⟨rfl, -⟩ | ⟨different, old⟩
    · simp only [update_self]
      exact ⟨holds.base, holds.total, holds.chain, holds.objects, holds.inuse⟩
    · simp only [update_of_ne different]
      have oldHolds := rep.holds list other old
      refine ⟨oldHolds.base, oldHolds.total, oldHolds.chain.frame ?_, oldHolds.objects,
        oldHolds.inuse⟩
      intro obj objMem
      have covers := (rep.shaped.region_covers (oldHolds.mem_free objMem)).trans
        (rep.shaped.extent_covers obj)
      have apart : (cache.region other).Apart (cache.region address) := by
        apply after.apart_of_ne (regions _ (rep.mapped list other old)) mapped
        intro same
        exact different (congrArg Region.start same)
      rw [wordAt, wordAt, contents_congr]
      intro byte inside
      exact bytes byte (apart.not_contains (covers.contains inside))
  · intro list other otherMem
    rcases (movedTo list other).mp otherMem with ⟨rfl, rfl⟩ | ⟨different, old⟩
    · simp only [update_self]
      exact matching
    · simp only [update_of_ne different]
      exact rep.matching list other old
  · intro other nonempty
    by_cases same : other = address
    · exact ⟨target, same ▸ here⟩
    · rw [update_of_ne same] at nonempty
      exact live other same (rep.taken_live other nonempty)

end

end Consistent

/-- A new cache has no slabs. -/
theorem consistent_newCache {size : Nat} {flags : BitVec 32} (shaped : (newCache size flags).Shaped)
    (space : Space) :
    Consistent (newCache size flags) space (fun _ => []) (fun _ => []) (fun _ => []) where
  shaped := shaped
  lists := ⟨⟨fun _ => nodup_nil, fun _ _ _ mem => absurd mem not_mem_nil⟩, fun _ => ⟨trivial, rfl⟩⟩
  listed := fun _ isSome => absurd isSome (by simp [SlabCache.Live, newCache, Lists.backOf])
  mapped := fun _ _ mem => absurd mem not_mem_nil
  holds := fun _ _ mem => absurd mem not_mem_nil
  matching := fun _ _ mem => absurd mem not_mem_nil
  taken_live := fun _ nonempty => absurd rfl nonempty

/-! ## Taking an object from a slab -/

/-- Filling an object, or not, only changes its bytes. -/
theorem fillIf_spec (flag : BitVec 32) (byte : Byte)
    (accessible : space.Accessible (cache.extent obj)) :
    ∃ memory, fillIf cache flag space obj byte = some memory ∧ memory.regions = space.regions ∧
      ∀ address, ¬ (cache.extent obj).Contains address →
        memory.bytes address = space.bytes address := by
  rw [fillIf]
  split
  · obtain ⟨memory, memoryEq, regions, bytes⟩ := Space.memset_spec byte accessible
    refine ⟨memory, memoryEq, regions, ?_⟩
    intro address outside
    rw [bytes, overwrite_of_not_contains]
    rwa [length_replicate]
  · exact ⟨space, rfl, rfl, fun _ _ => rfl⟩

/-- What an allocation does: it takes an object that was not taken, of a slab that was
mapped or is new, and of the bytes that were mapped it only changes those of the
object. -/
structure Allocated (cache after : SlabCache) (space memory : Space) (taken : Nat → List Nat)
    (obj address : Nat) : Prop where
  parameters : ∃ lists slab, after = { cache with
    lists := lists
    slab := slab
    allocs := wordAdd cache.allocs 1 }
  consistent : ∃ chains free,
    Consistent after memory chains free (update taken address (obj :: taken address))
  fresh : ∀ other, obj ∉ taken other
  live : ∀ other, after.Live other ↔ other = address ∨ cache.Live other
  regions : (cache.Live address ∧ memory.regions = space.regions) ∨
    (space.Fresh (cache.region address) ∧ memory.regions = cache.region address :: space.regions)
  bytes : ∀ region ∈ space.regions, ∀ byte, region.Contains byte →
    ¬ (cache.extent obj).Contains byte → memory.bytes byte = space.bytes byte

section

variable (rep : Consistent cache space chains free taken)
include rep

/-- A slab that is not full serves an allocation. -/
theorem allocFrom_allocated (mem : address ∈ chains source) (notFull : source ≠ .slabsFull) :
    ∃ after memory obj, allocFrom cache space address = some (after, memory, obj) ∧
      Allocated cache after space memory taken obj address ∧ memory.regions = space.regions ∧
      ∀ byte, ¬ (cache.extent obj).Contains byte → memory.bytes byte = space.bytes byte := by
  have holds := rep.holds source address mem
  have shaped := rep.shaped
  have few := shaped.few
  have many := shaped.many
  rw [← holds.total] at few many
  have room : (cache.slab address).inuse < (cache.slab address).total := by
    have matching := rep.matching source address mem
    cases source with
    | slabsFull => exact absurd rfl notFull
    | slabsPartial => exact matching.2
    | slabsEmpty =>
      rw [show (cache.slab address).inuse = 0 from matching]
      omega
  cases freeEq : free address with
  | nil =>
    have lengths := holds.length_add
    rw [freeEq, length_nil, Nat.zero_add] at lengths
    exact absurd lengths (Nat.ne_of_lt room)
  | cons obj rest =>
    have unheld := rep.not_mem_taken mem (freeEq ▸ mem_cons_self : obj ∈ free address)
    rw [freeEq] at holds
    have head := holds.chain.1
    have object := holds.mem_free mem_cons_self
    have accessible := rep.accessible mem object
    have loaded := Space.loadWord_eq (accessible.of_covers (shaped.extent_covers obj))
    obtain ⟨memory, memoryEq, regions, bytes⟩ := fillIf_spec 0x01 0 accessible
    have inuse := Slab.pop_inuse (wordAt space.bytes obj) (Nat.lt_of_le_of_lt room few)
    obtain ⟨lists, moved, target, moveEq, chained, movedTo, matching, nodes⟩ :=
      seats_allocMove rep.lists mem (rep.matching source address mem) room many inuse
        (Slab.pop_total _ _)
    have live : cache.Live address := (rep.live_iff address).mpr ⟨source, mem⟩
    refine ⟨_, memory, obj, ?_, ⟨⟨lists, update cache.slab address
      ((cache.slab address).pop (wordAt space.bytes obj)), rfl⟩,
      ⟨moved, update free address rest, ?_⟩, unheld, ?_, .inl ⟨live, regions⟩,
      fun _ _ byte _ => bytes byte⟩, regions, bytes⟩
    · simp only [allocFrom, head, loaded, bind_eq_bind, bind_some, moveEq, memoryEq]
    · apply rep.update _ _ chained movedTo matching _ _ _ _ (holds.pop shaped inuse bytes)
      · intro other _ isSome
        rwa [nodes] at isSome
      · rw [regions]
        exact rep.mapped source address mem
      · intro region regionMem
        rwa [regions]
      · intro byte outside
        exact bytes byte fun inside => outside ((shaped.region_covers object).contains inside)
    · intro other
      change (lists.backOf other).isSome ↔ _
      rw [nodes]
      constructor
      · exact .inr
      · rintro (rfl | old)
        · exact live
        · exact old

end

/-! ## Releasing an object -/

/-- What a release does: the object is not taken any more, and only its bytes change. -/
structure Released (cache after : SlabCache) (space memory : Space) (taken : Nat → List Nat)
    (ptr address : Nat) : Prop where
  parameters : ∃ lists slab, after = { cache with
    lists := lists
    slab := slab
    frees := wordAdd cache.frees 1 }
  consistent : ∃ chains free,
    Consistent after memory chains free (update taken address ((taken address).erase ptr))
  live : ∀ other, after.Live other ↔ cache.Live other
  regions : memory.regions = space.regions
  bytes : ∀ byte, ¬ (cache.extent ptr).Contains byte → memory.bytes byte = space.bytes byte

/-- The slab of an object that is taken gets it back. -/
theorem slabFreeLocked_released (rep : Consistent cache space chains free taken)
    (held : ptr ∈ taken address) :
    ∃ after memory, slabFreeLocked cache space address ptr = some (after, memory) ∧
      Released cache after space memory taken ptr address := by
  obtain ⟨source, mem⟩ := rep.holds_of_taken held
  have holds := rep.holds source address mem
  have shaped := rep.shaped
  have object := holds.mem_taken held
  have accessible := rep.accessible mem object
  obtain ⟨poisoned, poisonEq, poisonRegions, poisonBytes⟩ := fillIf_spec 0x04 0xDE accessible
  have poisonAccessible : poisoned.Accessible ⟨ptr, 8⟩ := by
    obtain ⟨outer, outerMem, covers⟩ := accessible
    exact ⟨outer, poisonRegions ▸ outerMem, covers.trans (shaped.extent_covers ptr)⟩
  obtain ⟨memory, storeEq, storeRegions, storeBytes⟩ :=
    Space.storeWord_spec (cache.slab address).freelist poisonAccessible
  have few := shaped.few
  have many := shaped.many
  rw [← holds.total] at few many
  have lengths := holds.length_add
  have used : 0 < (cache.slab address).inuse := by
    rw [holds.inuse]
    exact length_pos_of_mem held
  have inuse := Slab.push_inuse ptr used (by omega)
  obtain ⟨lists, moved, target, moveEq, chained, movedTo, matching, nodes⟩ :=
    seats_freeMove rep.lists mem (rep.matching source address mem) (by omega) many few inuse
      (Slab.push_total _ _)
  have word := holds.chain.lt fun other otherMem =>
    (rep.object_bounded mem (holds.mem_free otherMem)).2
  have regions := storeRegions.trans poisonRegions
  have bytes : ∀ byte, ¬ (cache.extent ptr).Contains byte →
      memory.bytes byte = space.bytes byte := by
    intro byte outside
    rw [storeBytes, overwrite_of_not_contains, poisonBytes byte outside]
    exact fun inside => outside ((shaped.extent_covers ptr).contains inside)
  have after := holds.push shaped held inuse word poisonBytes
  rw [← storeBytes] at after
  refine ⟨_, memory, ?_, ⟨lists, update cache.slab address ((cache.slab address).push ptr), rfl⟩,
    ⟨moved, update free address (ptr :: free address), ?_⟩,
    fun other => iff_of_eq (congrArg (· = true) (nodes other)), regions, bytes⟩
  · simp only [slabFreeLocked, poisonEq, storeEq, bind_eq_bind, bind_some, moveEq]
  · apply rep.update _ _ chained movedTo matching _ _ _ _ after
    · intro other _ isSome
      rwa [nodes] at isSome
    · rw [regions]
      exact rep.mapped source address mem
    · intro region regionMem
      rwa [regions]
    · intro byte outside
      exact bytes byte fun inside => outside ((shaped.region_covers object).contains inside)

end QDaemon.Memory
