import QDaemon.Memory.Slab.Invariant

/-!
# The calls of a slab cache

An allocation takes an object of a slab that has one, and maps a slab if there is
none.  A release finds the slab of the object by its address.  Shrinking unmaps the
empty slabs.
-/

namespace QDaemon.Memory

open Option List Function Bits Bytes Linked Transition

variable {cache : SlabCache} {space : Space} {chains : SlabList → List Nat}
  {free taken : Nat → List Nat} {address obj ptr : Nat}
variable {rounds : Nat}

/-! ## New slabs -/

/-- The loop links the objects in front of those that are linked already. -/
theorem buildFreelist_spec {objSize count freelist : Nat} {linked : List Nat} (size : 8 ≤ objSize)
    (chain : FreeChain space.bytes freelist linked) (word : freelist < 2 ^ 64)
    (earlier : ∀ object ∈ linked, object + 8 ≤ obj)
    (accessible : space.Accessible ⟨obj, count * objSize⟩)
    (bounded : obj + count * objSize < 2 ^ 64) :
    ∃ memory head, buildFreelist objSize count space freelist obj = some (memory, head) ∧
      memory.regions = space.regions ∧
      FreeChain memory.bytes head
        (((List.range count).map fun index => obj + index * objSize).reverse ++ linked) ∧
      ∀ byte, ¬ Region.Contains ⟨obj, count * objSize⟩ byte →
        memory.bytes byte = space.bytes byte := by
  induction count generalizing space freelist obj linked with
  | zero => exact ⟨space, freelist, rfl, rfl, chain, fun _ _ => rfl⟩
  | succ count ih =>
    have product : (count + 1) * objSize = count * objSize + objSize := Nat.succ_mul count objSize
    have first : Region.Covers ⟨obj, (count + 1) * objSize⟩ ⟨obj, 8⟩ := by
      refine ⟨Nat.le_refl obj, ?_⟩
      simp only
      omega
    have rest : Region.Covers ⟨obj, (count + 1) * objSize⟩ ⟨obj + objSize, count * objSize⟩ := by
      refine ⟨Nat.le_add_right obj objSize, ?_⟩
      simp only
      omega
    obtain ⟨stored, storeEq, storeRegions, storeBytes⟩ := Space.storeWord_spec freelist
      (accessible.of_covers first)
    have storedAccessible : stored.Accessible ⟨obj + objSize, count * objSize⟩ := by
      obtain ⟨outer, mem, covers⟩ := accessible
      exact ⟨outer, storeRegions ▸ mem, covers.trans rest⟩
    have next : wordAdd obj objSize = obj + objSize := wordAdd_eq (by omega)
    have pushed : FreeChain stored.bytes obj (obj :: linked) := by
      rw [storeBytes]
      apply chain.push word
      intro object mem
      exact .inr (earlier object mem)
    have pushedEarlier : ∀ object ∈ obj :: linked, object + 8 ≤ obj + objSize := by
      intro object mem
      rcases mem_cons.mp mem with rfl | old
      · exact Nat.add_le_add_left size object
      · exact Nat.le_trans (earlier object old) (Nat.le_add_right obj objSize)
    obtain ⟨memory, head, buildEq, regions, built, bytes⟩ := ih pushed (by omega) pushedEarlier
      storedAccessible (by omega)
    refine ⟨memory, head, ?_, regions.trans storeRegions, ?_, ?_⟩
    · rw [buildFreelist, storeEq, bind_some, next, buildEq]
    · have shift : (List.range count).map (fun index => obj + (index + 1) * objSize) =
          (List.range count).map fun index => obj + objSize + index * objSize := by
        apply map_congr_left
        intro index mem
        rw [Nat.succ_mul]
        omega
      rw [range_succ_eq_map, map_cons, List.map_map, reverse_cons,
        append_assoc, Nat.zero_mul]
      simp only [comp_def, shift]
      exact built
    · intro byte outside
      rw [bytes, storeBytes, overwrite_of_not_contains]
      · rw [length_encode]
        exact fun inside => outside (first.contains inside)
      · exact fun inside => outside (rest.contains inside)

section

variable (rep : Consistent cache space chains free taken)
include rep

variable (fresh : space.Fresh (cache.region address))
include fresh

theorem Consistent.not_mem_of_fresh (list : SlabList) : address ∉ chains list := by
  intro mem
  have apart := fresh.2 _ (rep.mapped list address mem)
  have nonempty := fresh.1.2.1
  rcases apart with before | behind
  · exact absurd before (by omega)
  · exact absurd behind (by omega)

/-- A slab that has just been mapped is empty, and all of its objects are free. -/
theorem slabCreate_spec : ∃ created memory lists slab moved freeAfter,
      slabCreate cache space address = some (created, memory) ∧
      slabListAdd created.lists .slabsEmpty address = some lists ∧
      { created with lists := lists } = { cache with lists := lists, slab := slab } ∧
      Consistent { cache with lists := lists, slab := slab } memory moved freeAfter taken ∧
      address ∈ moved .slabsEmpty ∧ memory.regions = cache.region address :: space.regions ∧
      (∀ other, (lists.backOf other).isSome ↔ other = address ∨ cache.Live other) ∧
      ∀ byte, ¬ (cache.region address).Contains byte → memory.bytes byte = space.bytes byte := by
  have shaped := rep.shaped
  have outside := rep.not_mem_of_fresh fresh
  have bound : address + (cache.slabSize + 48) < 2 ^ 64 := by
    have bounded := fresh.1.2.2
    rwa [shaped.region_eq] at bounded
  have fits := shaped.fits
  have base : wordAdd address slabHeaderSize = address + 48 := by
    rw [slabHeaderSize_eq]
    exact wordAdd_eq (by omega)
  have covers : (cache.region address).Covers
      ⟨address + 48, cache.objsPerSlab * cache.objSize⟩ := by
    rw [shaped.region_eq]
    refine ⟨Nat.le_add_right address 48, ?_⟩
    simp only
    omega
  obtain ⟨mapped, mapEq, mapRegions, mapBytes⟩ := Space.map_spec (fun _ => 0) fresh
  have accessible : mapped.Accessible ⟨address + 48, cache.objsPerSlab * cache.objSize⟩ :=
    ⟨_, mapRegions ▸ mem_cons_self, covers⟩
  have nothing : FreeChain mapped.bytes 0 [] := rfl
  obtain ⟨memory, head, buildEq, buildRegions, built, buildBytes⟩ := buildFreelist_spec shaped.size
    nothing (Nat.two_pow_pos 64) (fun _ mem => absurd mem not_mem_nil) accessible (by omega)
  rw [append_nil] at built
  -- The header of the slab is a node now, which goes to the front of the empty slabs.
  have allocated := rep.lists.update_node outside (some ⟨none, none⟩)
  have notFirst : cache.lists.first .slabsEmpty ≠ some address := by
    intro first
    rw [rep.lists.first_eq] at first
    exact outside .slabsEmpty (mem_of_head? first)
  have isNode := cache.lists.isSome_backOf_setNode address ⟨none, none⟩
  obtain ⟨lists, addEq, added⟩ := slabListAdd_spec isNode
    (allocated.first_allocated .slabsEmpty) notFirst
  have regions : memory.regions = cache.region address :: space.regions :=
    buildRegions.trans mapRegions
  have bytes : ∀ byte, ¬ (cache.region address).Contains byte →
      memory.bytes byte = space.bytes byte := by
    intro byte outsideRegion
    rw [buildBytes byte fun inside => outsideRegion (covers.contains inside),
      mapBytes byte outsideRegion]
  have unused : taken address = [] := by
    by_contra nonempty
    obtain ⟨list, mem⟩ := rep.taken_live address nonempty
    exact outside list mem
  have holds : SlabHolds cache memory.bytes address ⟨address + 48, head, 0, cache.objsPerSlab⟩
      (cache.objects address).reverse (taken address) := by
    refine ⟨rfl, rfl, built, ?_, ?_⟩
    · rw [unused, append_nil]
      exact reverse_perm _
    · rw [unused, length_nil]
  have movedTo : Moved chains
      (update chains .slabsEmpty (address :: chains .slabsEmpty)) address .slabsEmpty := by
    intro list other
    rw [Lists.mem_update_cons]
    constructor
    · rintro (here | old)
      · exact .inl here
      · refine .inr ⟨?_, old⟩
        rintro rfl
        exact outside list old
    · exact Or.imp_right And.right
  have nodes : ∀ other, (lists.backOf other).isSome ↔ other = address ∨ cache.Live other := by
    intro other
    rw [added.isSome_backOf isNode (allocated.first_allocated .slabsEmpty)]
    by_cases same : other = address
    · rw [same]
      exact iff_of_true isNode (.inl rfl)
    · rw [or_iff_right same]
      exact iff_of_eq (congrArg (fun back => Option.isSome back = true)
        (Lists.backOf_setNode_of_ne same _))
  have consistent := rep.update cache.allocs cache.frees (allocated.addHead outside added) movedTo
    (rfl : SlabList.Matches .slabsEmpty ⟨address + 48, head, 0, cache.objsPerSlab⟩)
    (fun other different isSome => ((nodes other).mp isSome).resolve_left different)
    (regions ▸ mem_cons_self) (fun region mem => regions ▸ mem_cons_of_mem _ mem) bytes
    holds
  rw [update_eq_self] at consistent
  refine ⟨{ cache with
      lists := cache.lists.setNode address ⟨none, none⟩
      slab := update cache.slab address ⟨address + 48, head, 0, cache.objsPerSlab⟩ },
    memory, lists, _, _, _, ?_, addEq, rfl, consistent, ?_, regions, nodes, bytes⟩
  · simp only [slabCreate, mapEq, base, buildEq, bind_eq_bind, bind_some]
  · exact (movedTo .slabsEmpty address).mpr (.inl ⟨rfl, rfl⟩)

end

/-! ## Allocation -/

section

variable (rep : Consistent cache space chains free taken)
include rep

/-- An allocation returns an object, if there is one or a slab can be mapped. -/
theorem slabAlloc_yields (mmap : Option Nat) :
    Yields (slabAlloc cache space mmap) (∀ address ∈ mmap, space.Fresh (cache.region address))
      fun (after, memory, result) => (result = none ∧ after = cache ∧ memory = space) ∨
        ∃ obj address, result = some (obj, address) ∧
          Allocated cache after space memory taken obj address := by
  rw [slabAlloc.eq_def]
  cases found : cache.lists.first .slabsPartial <|> cache.lists.first .slabsEmpty with
  | some address =>
    have listed : ∃ source, source ≠ .slabsFull ∧ address ∈ chains source := by
      rcases (orElse_eq_some _ _ _).mp found with first | ⟨-, first⟩
      · rw [rep.lists.first_eq] at first
        exact ⟨.slabsPartial, by decide, mem_of_head? first⟩
      · rw [rep.lists.first_eq] at first
        exact ⟨.slabsEmpty, by decide, mem_of_head? first⟩
    obtain ⟨source, room, mem⟩ := listed
    obtain ⟨after, memory, obj, allocEq, allocated, -, -⟩ := allocFrom_allocated rep mem room
    simp only [allocEq, map_some]
    exact .pure (.inr ⟨obj, address, rfl, allocated⟩)
  | none =>
    cases mmap with
    | none => exact .pure (.inl ⟨rfl, rfl, rfl⟩)
    | some address =>
      by_cases fresh : space.Fresh (cache.region address)
      · obtain ⟨created, mapped, lists, slab, moved, freeCreated, createEq, addEq, createdEq,
          consistent, mem, createRegions, nodes, createBytes⟩ := slabCreate_spec rep fresh
        obtain ⟨after, memory, obj, allocEq, allocated, regions, bytes⟩ :=
          allocFrom_allocated consistent mem (by decide)
        rw [← createdEq] at allocEq
        simp only [createEq, addEq, allocEq, bind_eq_bind, bind_some]
        obtain ⟨listsAfter, slabAfter, afterEq⟩ := allocated.parameters
        refine .pure (.inr ⟨obj, address, rfl, ⟨listsAfter, slabAfter, afterEq⟩,
          allocated.consistent, allocated.fresh, ?_, .inr ⟨fresh, regions.trans createRegions⟩, ?_⟩)
        · intro other
          have added : SlabCache.Live { cache with lists := lists, slab := slab } other ↔
              other = address ∨ cache.Live other := nodes other
          rw [allocated.live, added, or_self_left]
        · intro region regionMem byte inside outside
          rw [bytes byte outside, createBytes byte]
          exact (fresh.2 region regionMem).symm.not_contains inside
      · have failed : slabCreate cache space address = none := by
          rw [slabCreate, Space.map, dif_neg fresh]
          rfl
        simp only [failed]
        exact .stuck fun allowed => fresh (allowed address rfl)

end

/-! ## Release -/

/-- The pointers that match, whether or not the slab has an object there. -/
theorem slabPtrMatches_iff {slab : Nat} (word : ptr < 2 ^ 64) :
    slabPtrMatches cache slab ptr = true ↔
      ptr < wordAdd (cache.slab slab).base cache.slabSize ∧
        ∃ index, ptr = (cache.slab slab).base + index * cache.objSize := by
  rw [slabPtrMatches]
  split
  next outside =>
    constructor
    · rintro ⟨⟩
    · rintro ⟨below, index, rfl⟩
      omega
  next inside =>
    rw [decide_eq_true_iff, wordSub_eq (by omega) word]
    constructor
    · intro multiple
      have whole := Nat.div_add_mod' (ptr - (cache.slab slab).base) cache.objSize
      exact ⟨by omega, (ptr - (cache.slab slab).base) / cache.objSize, by omega⟩
    · rintro ⟨-, index, rfl⟩
      rw [Nat.add_sub_cancel_left, Nat.mul_mod_left]

namespace Consistent

variable {list : SlabList}

section

variable (rep : Consistent cache space chains free taken)
include rep

section

variable (mem : address ∈ chains list)
include mem

/-- The range that the searches compare with. -/
theorem range_eq : (cache.slab address).base = address + 48 ∧
      wordAdd (cache.slab address).base cache.slabSize = address + 48 + cache.slabSize := by
  have bounds := rep.bounded mem
  rw [(rep.holds list address mem).base]
  exact ⟨rfl, wordAdd_eq (by omega)⟩

variable (object : ptr ∈ cache.objects address)
include object

/-- The check of a release passes for the objects of the slab. -/
theorem slabPtrMatches_of_object : slabPtrMatches cache address ptr = true := by
  obtain ⟨base, limit⟩ := rep.range_eq mem
  rw [slabPtrMatches_iff (rep.object_bounded mem object).2, limit, base]
  obtain ⟨index, inside, rfl⟩ := SlabCache.Shaped.mem_objects.mp object
  have upper := SlabCache.Shaped.end_le cache.objSize inside
  have fits := rep.shaped.fits
  have size := rep.shaped.size
  exact ⟨by omega, index, rfl⟩

/-- The searches find the slab of an object and no other one. -/
theorem slabFound_iff {other : Nat} {otherList : SlabList} (otherMem : other ∈ chains otherList) :
    slabFound cache ptr other = true ↔ other = address := by
  constructor
  · intro found
    simp only [slabFound, Bool.and_eq_true, decide_eq_true_eq] at found
    obtain ⟨base, limit⟩ := rep.range_eq otherMem
    have inside : (cache.region other).Contains ptr := by
      rw [rep.shaped.region_eq]
      simp only [Region.Contains]
      omega
    by_contra different
    exact (rep.region_apart otherMem mem different).not_contains inside
      ((rep.shaped.region_covers object).contains (rep.shaped.extent_contains ptr))
  · rintro rfl
    have matched := rep.slabPtrMatches_of_object mem object
    obtain ⟨below, index, start⟩ :=
      (slabPtrMatches_iff (rep.object_bounded mem object).2).mp matched
    simp only [slabFound, Bool.and_eq_true, decide_eq_true_eq]
    exact ⟨⟨by omega, below⟩, matched⟩

theorem find_slab (searched : SlabList) : (chains searched).find? (slabFound cache ptr) =
      if searched = list then some address else none := by
  split
  next same =>
    subst same
    cases search : (chains searched).find? (slabFound cache ptr) with
    | none =>
      have unmet := List.find?_eq_none.mp search address mem
      exact absurd ((rep.slabFound_iff mem object mem).mpr rfl) unmet
    | some other =>
      have otherMem := mem_of_find?_eq_some search
      rw [(rep.slabFound_iff mem object otherMem).mp (List.find?_some search)]
  next different =>
    apply List.find?_eq_none.mpr
    intro other otherMem found
    obtain rfl := (rep.slabFound_iff mem object otherMem).mp found
    exact different (rep.lists.unique _ _ _ otherMem mem)

/-- The search through all lists. -/
theorem slabFindByPtr_yields : Yields (slabFindByPtr cache ptr rounds)
      (∀ list, (chains list).length < rounds) (· = some address) := by
  have search (searched : SlabList) :
      Yields (cache.lists.find (slabFound cache ptr) rounds (cache.lists.first searched))
        (∀ list, (chains list).length < rounds)
        (· = if searched = list then some address else none) :=
    (rep.lists.find_yields _ searched).mono (fun enough => enough searched)
      fun _ found => found.trans (rep.find_slab mem object searched)
  refine (search .slabsFull).bind ?_
  rintro _ - rfl
  cases list with
  | slabsFull => exact .pure rfl
  | slabsPartial =>
    refine (search .slabsPartial).bind ?_
    rintro _ - rfl
    exact .pure rfl
  | slabsEmpty =>
    refine (search .slabsPartial).bind ?_
    rintro _ - rfl
    exact search .slabsEmpty

end

end

end Consistent

section

variable (rep : Consistent cache space chains free taken)
include rep

/-- A release of an object that is taken returns once the search does. -/
theorem slabFree_yields (held : ptr ∈ taken address) :
    Yields (slabFree cache space ptr rounds) (∀ list, (chains list).length < rounds)
      fun (after, memory, flag) => flag = true ∧
        Released cache after space memory taken ptr address := by
  obtain ⟨list, mem⟩ := rep.holds_of_taken held
  have object := (rep.holds list address mem).mem_taken held
  have nonnull := (rep.object_bounded mem object).1
  rw [slabFree, if_neg (Nat.ne_of_gt nonnull)]
  refine (rep.slabFindByPtr_yields mem object).bind ?_
  rintro _ - rfl
  obtain ⟨after, memory, freeEq, released⟩ := slabFreeLocked_released rep held
  simp only [freeEq, map_some]
  exact .pure ⟨rfl, released⟩

omit rep in
/-- There are enough rounds for the traversal of each list. -/
theorem exists_rounds (chains : SlabList → List Nat) :
    ∃ bound, ∀ rounds ≥ bound, ∀ list, (chains list).length < rounds := by
  refine ⟨(chains .slabsFull).length + (chains .slabsPartial).length +
    (chains .slabsEmpty).length + 1, ?_⟩
  intro rounds enough list
  cases list <;> omega

/-! ## Shrinking -/

/-- An empty slab can be unmapped. -/
theorem Consistent.destroy (mem : address ∈ chains .slabsEmpty) :
    ∃ lists, slabListRemove cache.lists .slabsEmpty address = some lists ∧
      Consistent { cache with lists := lists.free address } (space.unmap (cache.region address))
        (Function.update chains .slabsEmpty ((chains .slabsEmpty).erase address)) free taken := by
  obtain ⟨lists, removeEq, chained, same⟩ := slabListRemove_spec rep.lists mem
  have members : ∀ list other,
      other ∈ Function.update chains .slabsEmpty ((chains .slabsEmpty).erase address) list ↔
        other ≠ address ∧ other ∈ chains list :=
    fun list other => rep.lists.mem_update_erase mem
  have unused : taken address = [] := by
    have holds := rep.holds .slabsEmpty address mem
    have empty : (cache.slab address).inuse = 0 := rep.matching .slabsEmpty address mem
    rw [holds.inuse] at empty
    exact length_eq_zero_iff.mp empty
  refine ⟨lists, removeEq, ⟨rep.shaped.size, rep.shaped.many, rep.shaped.few, rep.shaped.fits,
    rep.shaped.bounded⟩, ?_, ?_, ?_, ?_, ?_, ?_⟩
  · apply chained.free
    intro list listMem
    exact ((members list address).mp listMem).1 rfl
  · intro other isSome
    have different : other ≠ address := by
      rintro rfl
      simp only [SlabCache.Live, Lists.backOf, Lists.free, update_self] at isSome
      cases isSome
    have before : (lists.backOf other).isSome := by
      simpa [SlabCache.Live, Lists.backOf, Lists.free, update_of_ne different] using isSome
    rw [same] at before
    obtain ⟨list, listMem⟩ := rep.listed other before
    exact ⟨list, (members list other).mpr ⟨different, listMem⟩⟩
  · intro list other listMem
    obtain ⟨different, old⟩ := (members list other).mp listMem
    apply (mem_erase_of_ne _).mpr (rep.mapped list other old)
    intro sameRegion
    exact different (congrArg Region.start sameRegion)
  · intro list other listMem
    have holds := rep.holds list other ((members list other).mp listMem).2
    exact ⟨holds.base, holds.total, holds.chain, holds.objects, holds.inuse⟩
  · intro list other listMem
    exact rep.matching list other ((members list other).mp listMem).2
  · intro other nonempty
    obtain ⟨list, listMem⟩ := rep.taken_live other nonempty
    refine ⟨list, (members list other).mpr ⟨?_, listMem⟩⟩
    rintro rfl
    exact nonempty unused

end

/-- What shrinking does: no object is concerned, and only slabs of the cache are
unmapped. -/
structure Shrunk (cache after : SlabCache) (space memory : Space) (taken : Nat → List Nat) :
    Prop where
  parameters : ∃ lists, after = { cache with lists := lists }
  consistent : ∃ chains free, Consistent after memory chains free taken
  bytes : memory.bytes = space.bytes

variable (rep : Consistent cache space chains free taken)
include rep

/-- The loop unmaps the slabs of the list of empty ones, from the first one on. -/
theorem shrinkFrom_yields {empty : List Nat} (listed : chains .slabsEmpty = empty) (freed : Nat) :
    Yields (shrinkFrom rounds cache space empty.head? freed) (empty.length < rounds)
      fun (after, memory, count) => count = freed + empty.length ∧
        Shrunk cache after space memory taken := by
  induction empty generalizing cache space chains rounds freed with
  | nil =>
    cases rounds with
    | zero => exact .stuck (Nat.not_lt_zero _)
    | succ rounds => exact .pure ⟨rfl, ⟨cache.lists, rfl⟩, ⟨chains, free, rep⟩, rfl⟩
  | cons address rest ih =>
    cases rounds with
    | zero => exact .stuck (Nat.not_lt_zero _)
    | succ rounds =>
      have mem : address ∈ chains .slabsEmpty := listed ▸ mem_cons_self
      have chain := rep.lists.chain .slabsEmpty
      rw [listed] at chain
      have nextChain : cache.lists.Chain prevMark (.next address) rest := ⟨chain.1.2.2, chain.2⟩
      obtain ⟨lists, removeEq, consistent⟩ := rep.destroy mem
      have remaining : update chains .slabsEmpty ((chains .slabsEmpty).erase address)
          .slabsEmpty = rest := by
        rw [update_self, listed, erase_cons_head]
      rw [List.head?_cons, shrinkFrom]
      simp only [nextChain.load_eq, removeEq, bind_eq_bind, bind_some]
      refine (ih consistent remaining (freed + 1)).mono Nat.lt_of_succ_lt_succ ?_
      rintro ⟨after, memory, count⟩ ⟨rfl, shrunk⟩
      obtain ⟨listsAfter, afterEq⟩ := shrunk.parameters
      exact ⟨by rw [length_cons, Nat.add_assoc, Nat.add_comm 1], ⟨listsAfter, afterEq⟩,
        shrunk.consistent, shrunk.bytes⟩

theorem slabCacheShrink_yields :
    Yields (slabCacheShrink cache space rounds) ((chains .slabsEmpty).length < rounds)
      fun (after, memory, _) => Shrunk cache after space memory taken := by
  rw [slabCacheShrink, rep.lists.first_eq]
  exact (shrinkFrom_yields rep rfl 0).mono id fun _ => And.right

end QDaemon.Memory
