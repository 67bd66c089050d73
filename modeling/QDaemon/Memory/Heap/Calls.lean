import QDaemon.Memory.Heap.Arena

/-!
# The calls of the general allocator

Each call keeps the arena.  An allocation returns a block that no other block is at, a
release gives back just the block that it is passed, and the header of a block says
where it came from.
-/

namespace QDaemon.Memory

open Option List Bits Bytes Transition

variable {heap : Heap} {ledger : Ledger} {base size : Nat} {origin : Origin}
variable {after : Heap} {ledgerAfter : Ledger} {address length newSize : Nat} {memory : Space}

/-! ## Headers -/

/-- The header of a block. -/
def headerFor (size : Nat) : Origin → AllocHeader
  | .slab cache slab => slabHeader size cache slab
  | .system => systemHeader size

theorem load_bytes_header {flags cache slab : Nat} (flagsFit : flags < 256 ^ 2)
    (sizeFits : size < 256 ^ 8) (cacheFits : cache < 256 ^ 8) (slabFits : slab < 256 ^ 8) :
    AllocHeader.load (AllocHeader.mk allocMagic flags 0 size cache slab).bytes =
      ⟨allocMagic, flags, 0, size, cache, slab⟩ := by
  have last := field_encode_front 8 slab []
  rw [append_nil] at last
  simp only [AllocHeader.load, AllocHeader.bytes, field_encode_front, field_encode_skip, last,
    Nat.reduceLeDiff, Nat.reduceSub, Nat.mod_eq_of_lt flagsFit,
    Nat.mod_eq_of_lt sizeFits, Nat.mod_eq_of_lt cacheFits, Nat.mod_eq_of_lt slabFits]
  rfl

/-- A block with its header. -/
structure Headed (heap : Heap) (ledger : Ledger) (base size : Nat) (origin : Origin) : Prop where
  placed : Placed heap ledger base size origin
  header : contents heap.space.bytes ⟨base, 32⟩ = (headerFor size origin).bytes

theorem chunk_covers_header (base size : Nat) : (chunk base size).Covers ⟨base, 32⟩ :=
  ⟨Nat.le_refl base, by simp only [chunk]; omega⟩

theorem chunk_covers_data (base size : Nat) : (chunk base size).Covers ⟨base + 32, size⟩ :=
  ⟨Nat.le_add_right base 32, by simp [chunk]; omega⟩

namespace Headed

section

variable (arena : Arena heap ledger)
include arena

variable (headed : Headed heap ledger base size origin)
include headed

/-- The fields of the header have their width. -/
theorem load_eq : AllocHeader.load (headerFor size origin).bytes = headerFor size origin := by
  have bounded := arena.placed_bounded headed.placed
  cases origin with
  | slab address slab =>
    obtain ⟨cache, found, held, -⟩ := headed.placed
    obtain ⟨chains, free, rep⟩ := arena.consistent address cache found
    obtain ⟨list, mem⟩ := rep.holds_of_taken held
    have slabBounded := rep.bounded mem
    have cacheValid := heap.space.valid _ (arena.mapped address cache found)
    have cacheBounded : address + 176 < 2 ^ 64 := cacheValid.bounded
    apply load_bytes_header (by decide) <;> omega
  | system => apply load_bytes_header (by decide) <;> omega

theorem wordSub_eq_base : wordSub (base + 32) allocHeaderSize = base := by
  have bounded := arena.placed_bounded headed.placed
  rw [allocHeaderSize_eq, wordSub_eq (Nat.le_add_left 32 base) (by omega), Nat.add_sub_cancel]

/-- What the calls read in front of a block. -/
theorem headerOf_eq : headerOf heap.space (base + 32) = some (headerFor size origin) := by
  have accessible := (arena.placed_accessible headed.placed).of_covers (chunk_covers_header base size)
  rw [headerOf, headed.wordSub_eq_base arena, Space.read_eq accessible, map_some,
    headed.header, headed.load_eq arena]

end

/-- A block that is kept. -/
theorem kept {except : Option Nat} (headed : Headed heap ledger base size origin)
    (keeps : Keeps heap ledger after ledgerAfter except) (other : except ≠ some base) :
    Headed after ledgerAfter base size origin := by
  refine ⟨keeps.placed base size origin other headed.placed, ?_⟩
  rw [← headed.header]
  apply contents_congr
  intro byte contained
  exact keeps.bytes base size origin other headed.placed byte
    ((chunk_covers_header base size).contains contained)

end Headed

/-- Writing the header of a block. -/
theorem Arena.writeHeader (arena : Arena heap ledger)
    (placed : Placed heap ledger base size origin) :
    ∃ memory, heap.space.write base (headerFor size origin).bytes = some memory ∧
      Arena { heap with space := memory } ledger ∧
      Keeps heap ledger { heap with space := memory } ledger (some base) ∧
      Headed { heap with space := memory } ledger base size origin := by
  have accessible : heap.space.Accessible ⟨base, (headerFor size origin).bytes.length⟩ := by
    exact (arena.placed_accessible placed).of_covers (chunk_covers_header base size)
  obtain ⟨memory, written, regions, bytes⟩ := Space.write_spec accessible
  have outside : ∀ byte, ¬ (chunk base size).Contains byte →
      memory.bytes byte = heap.space.bytes byte := by
    intro byte notInside
    rw [bytes, overwrite_of_not_contains]
    exact fun inside => notInside ((chunk_covers_header base size).contains inside)
  refine ⟨memory, written, arena.write placed regions outside,
    arena.keeps_write placed regions outside, placed.of_regions fun _ mem => regions ▸ mem, ?_⟩
  have read := contents_overwrite_self heap.space.bytes base (headerFor size origin).bytes
  rw [← bytes] at read
  exact read

/-! ## Initialisation -/

/-- Nothing has been given away. -/
def Ledger.blank : Ledger where
  taken := fun _ _ => []
  owner := fun _ => .nobody

/-- Before the first call there are no caches and no blocks. -/
structure Pristine (heap : Heap) (ledger : Ledger) : Prop where
  initialized : heap.initialized = false
  caches : heap.caches = []
  none : ∀ address, heap.cacheAt address = none
  ledger : ledger = .blank

theorem Pristine.not_placed (pristine : Pristine heap ledger) :
    ¬ Placed heap ledger base size origin := by
  intro placed
  cases origin with
  | slab address slab =>
    obtain ⟨cache, found, -⟩ := placed
    rw [pristine.none] at found
    cases found
  | system =>
    have owned := placed.2
    rw [pristine.ledger] at owned
    exact Owner.noConfusion owned

/-- The caches that have been created so far serve the sizes. -/
def Serves (heap : Heap) (caches sizes : List Nat) : Prop :=
  List.Forall₂ (fun address size => ∃ cache, heap.cacheAt address = some cache ∧
    size ≤ cache.objSize) caches sizes

variable {sizes : List Nat}

theorem Serves.exists_cache {caches : List Nat} (serves : Serves heap caches sizes)
    (mem : address ∈ caches) : ∃ cache, heap.cacheAt address = some cache := by
  induction serves with
  | nil => exact absurd mem not_mem_nil
  | cons first _ ih =>
    rcases mem_cons.mp mem with rfl | later
    · obtain ⟨cache, found, -⟩ := first
      exact ⟨cache, found⟩
    · exact ih later

/-- A cache is created. -/
theorem Arena.addCache (arena : Arena heap ledger) (off : heap.initialized = false)
    {cache : SlabCache} (fresh : heap.space.Fresh (cacheRegion address))
    (regions : memory.regions = cacheRegion address :: heap.space.regions)
    (bytes : ∀ byte, ¬ (cacheRegion address).Contains byte →
      memory.bytes byte = heap.space.bytes byte) (empty : ∀ slab, ¬ cache.Live slab)
    (consistent : ∃ chains free, Consistent cache memory chains free fun _ => [])
    (caches : List Nat) : Arena { heap with
        space := memory
        caches := caches
        cacheAt := Function.update heap.cacheAt address (some cache) }
      { ledger.own address .cache with
        taken := Function.update ledger.taken address fun _ => [] } := by
  have mapped := arena.map fresh regions bytes .cache
  have cases : ∀ {other found},
      Function.update heap.cacheAt address (some cache) other = some found →
      (other = address ∧ found = cache) ∨ (other ≠ address ∧ heap.cacheAt other = some found) :=
    fun foundEq => Arena.setCache_cases (show (heap.setCache address cache memory).cacheAt _ = _
      from foundEq)
  refine Arena.of_tenants ?_ fun on => absurd (off.symm.trans on) (by simp)
  intro other found foundEq
  rcases cases foundEq with ⟨rfl, rfl⟩ | ⟨different, old⟩
  · refine ⟨by simpa using consistent, ?_, ?_, fun slab live => absurd live (empty slab)⟩
    · change _ ∈ memory.regions
      rw [regions]
      exact mem_cons_self
    · exact Function.update_self other Owner.cache ledger.owner
  · refine ⟨?_, mapped.mapped other found old, mapped.ownedCache other found old,
      mapped.ownedSlab other found old⟩
    simp only [Function.update_of_ne different]
    exact mapped.consistent other found old

/-- Caches are dropped when one of them cannot be created. -/
theorem Arena.dropCaches {addresses : List Nat} (arena : Arena heap ledger)
    (off : heap.initialized = false)
    (owned : ∀ address ∈ addresses, ledger.owner address = .cache) :
    Arena (dropCaches heap addresses) ledger ∧ (dropCaches heap addresses).once = heap.once ∧
      (dropCaches heap addresses).initialized = false := by
  induction addresses generalizing heap with
  | nil => exact ⟨⟨arena.consistent, arena.mapped, arena.ownedCache, arena.ownedSlab,
      fun on => absurd (off.symm.trans on) (by simp)⟩, rfl, off⟩
  | cons address addresses ih =>
    have isCache := owned address mem_cons_self
    have remaining : ∀ {other found}, Function.update heap.cacheAt address none other = some found →
        other ≠ address ∧ heap.cacheAt other = some found := by
      intro other found foundEq
      by_cases same : other = address
      · rw [same, Function.update_self] at foundEq
        cases foundEq
      · rw [Function.update_of_ne same] at foundEq
        exact ⟨same, foundEq⟩
    have dropped : Arena { heap with
        space := heap.space.unmap (cacheRegion address)
        cacheAt := Function.update heap.cacheAt address none } ledger := by
      refine Arena.of_tenants ?_ fun on => absurd (off.symm.trans on) (by simp)
      intro other found foundEq
      obtain ⟨different, old⟩ := remaining foundEq
      refine arena.tenant_frame old rfl (fun region mem uses =>
        ⟨(mem_erase_of_ne ?_).mpr mem, rfl⟩) fun _ _ _ _ => rfl
      rintro rfl
      rcases uses with ⟨same, -⟩ | slabOwned
      · exact different same.symm
      · exact Owner.noConfusion (isCache.symm.trans slabOwned)
    exact ih dropped off fun other mem => owned other (mem_cons_of_mem address mem)

/-- The regions of the caches are fresh, and each also after the ones before it. -/
structure HonestCallocs (space : Space) (callocs : Nat → Option Nat) (start : Nat) : Prop where
  fresh : ∀ index ≥ start, ∀ address ∈ callocs index, space.Fresh (cacheRegion address)
  apart : ∀ index ≥ start, ∀ other > index, ∀ address ∈ callocs index,
    ∀ otherAddress ∈ callocs other, (cacheRegion otherAddress).Apart (cacheRegion address)

variable {callocs : Nat → Option Nat}

theorem HonestCallocs.next {space : Space} {start : Nat}
    (honest : HonestCallocs space callocs start) (given : callocs start = some address)
    (regions : memory.regions = cacheRegion address :: space.regions) :
    HonestCallocs memory callocs (start + 1) := by
  constructor
  · intro index later other otherGiven
    have fresh := honest.fresh index (Nat.le_of_succ_le later) other otherGiven
    refine ⟨fresh.1, ?_⟩
    rw [regions]
    intro region mem
    rcases mem_cons.mp mem with rfl | old
    · exact honest.apart start le_rfl index later address given other otherGiven
    · exact fresh.2 region old
  · intro index later
    exact honest.apart index (Nat.le_of_succ_le later)

/-- The sizes of the classes can be served, and the objects are large enough. -/
theorem sizeClasses_served : ∀ size ∈ sizeClasses, ∃ objSize,
    slabCacheCreate size 16 0 true = some (some (newCache objSize 0)) ∧ size ≤ objSize ∧
      8 ≤ objSize ∧ objSize ≤ 16384 := by
  intro size mem
  have facts : ∀ size ∈ sizeClasses, size ≤ wordAlign (max size 8) (max 16 8) ∧
      8 ≤ wordAlign (max size 8) (max 16 8) ∧ wordAlign (max size 8) (max 16 8) ≤ 16384 := by
    decide +kernel
  obtain ⟨enough, pointer, small⟩ := facts size mem
  refine ⟨wordAlign (max size 8) (max 16 8), ?_, enough, pointer, small⟩
  rw [slabCacheCreate_eq, if_pos rfl, if_neg (by omega)]

theorem not_live_newCache (objSize slab : Nat) : ¬ (newCache objSize 0).Live slab := by
  simp [SlabCache.Live, newCache, Linked.Lists.backOf]

/-- The loop creates a cache for each size, or none; it returns if it is given fresh
regions. -/
theorem createCaches_yields {done : List Nat} (arena : Arena heap ledger)
    (off : heap.initialized = false) (serves : Serves heap heap.caches done)
    (classes : ∀ size ∈ sizes, size ∈ sizeClasses) : Yields (createCaches callocs heap sizes)
      (HonestCallocs heap.space callocs heap.caches.length) fun (after, created) =>
      ∃ ledgerAfter, Arena after ledgerAfter ∧ after.once = heap.once ∧
        after.initialized = false ∧
        (created = true → Serves after after.caches (done ++ sizes)) := by
  induction sizes generalizing heap ledger done with
  | nil =>
    refine .pure ⟨ledger, arena, rfl, off, ?_⟩
    intro _
    rwa [append_nil]
  | cons size sizes ih =>
    have owned : ∀ address ∈ heap.caches, ledger.owner address = .cache := by
      intro address mem
      obtain ⟨cache, found⟩ := Serves.exists_cache serves mem
      exact arena.ownedCache address cache found
    rw [createCaches]
    split
    · obtain ⟨dropped, once, initialized⟩ := arena.dropCaches off owned
      refine .pure ⟨ledger, dropped, once, initialized, ?_⟩
      intro success
      cases success
    next address given =>
      refine ((Space.map_yields _).when fun honest => honest.fresh _ le_rfl address given).bind ?_
      rintro memory - ⟨fresh, regions, bytes⟩
      obtain ⟨objSize, createEq, enough, pointer, small⟩ :=
        sizeClasses_served size (classes size mem_cons_self)
      rw [createEq, append_cons done]
      have consistent := consistent_newCache (shaped_newCache 0 pointer (.inr (by omega))) memory
      have added := arena.addCache off fresh regions bytes (not_live_newCache objSize)
        ⟨_, _, consistent⟩ (heap.caches ++ [address])
      have servesNext : Serves { heap with
          space := memory
          caches := heap.caches ++ [address]
          cacheAt := Function.update heap.cacheAt address (some (newCache objSize 0)) }
          (heap.caches ++ [address]) (done ++ [size]) := by
        apply rel_append
        · apply serves.imp
          rintro other bound ⟨cache, found, fits⟩
          have different : other ≠ address :=
            Space.Fresh.start_ne fresh (arena.mapped other cache found)
          exact ⟨cache, (Function.update_of_ne different _ _).trans found, fits⟩
        · exact .cons ⟨_, Function.update_self _ _ _, enough⟩ .nil
      apply (ih added off servesNext fun other mem => classes other (mem_cons_of_mem size mem)).when
      intro honest
      rw [length_append]
      exact honest.next given regions

/-- The first call creates the caches or leaves the allocator without them. -/
theorem memoryInitOnce_yields (arena : Arena heap ledger)
    (pristine : heap.once = false → Pristine heap ledger) : Yields (memoryInitOnce callocs heap)
      (heap.once = false → HonestCallocs heap.space callocs 0) fun after =>
      ∃ ledgerAfter, Arena after ledgerAfter ∧ after.once = true ∧
        Keeps heap ledger after ledgerAfter none := by
  cases once : heap.once with
  | true =>
    rw [memoryInitOnce, once]
    exact .pure ⟨ledger, arena, once, Keeps.refl heap ledger⟩
  | false =>
    have nothing := pristine once
    have start : Arena { heap with once := true } ledger :=
      ⟨arena.consistent, arena.mapped, arena.ownedCache, arena.ownedSlab, arena.classes⟩
    have serves : Serves { heap with once := true } heap.caches [] := by
      rw [nothing.caches]
      exact .nil
    rw [memoryInitOnce, once, if_neg (by simp), memoryInit,
      if_neg (by simp [nothing.initialized])]
    refine .map ((createCaches_yields start nothing.initialized serves fun _ mem => mem).mono ?_ ?_)
    · intro honest
      simpa only [nothing.caches, length_nil] using honest rfl
    · rintro ⟨made, created⟩ ⟨ledgerAfter, afterArena, afterOnce, off, all⟩
      have keeps : ∀ result, Keeps heap ledger result ledgerAfter none :=
        fun _ => ⟨fun _ _ _ _ placed => absurd placed nothing.not_placed,
          fun _ _ _ _ placed => absurd placed nothing.not_placed⟩
      cases created with
      | false => exact ⟨ledgerAfter, afterArena, afterOnce, keeps _⟩
      | true =>
        refine ⟨ledgerAfter, ?_, afterOnce, keeps _⟩
        exact ⟨afterArena.consistent, afterArena.mapped, afterArena.ownedCache,
          afterArena.ownedSlab, fun _ => all rfl⟩

/-! ## Allocation -/

/-- What an allocation of a block does. -/
structure Granted (heap : Heap) (ledger : Ledger) (after : Heap) (ledgerAfter : Ledger)
    (base size : Nat) : Prop where
  arena : Arena after ledgerAfter
  once : after.once = heap.once
  keeps : Keeps heap ledger after ledgerAfter none
  headed : ∃ origin, Headed after ledgerAfter base size origin
  fresh : ∀ other otherSize otherOrigin, Placed heap ledger other otherSize otherOrigin →
    other ≠ base

/-- The cache of a size class has objects of at least this size. -/
theorem Arena.class_cache (arena : Arena heap ledger) (on : heap.initialized = true) {index : Nat}
    (found : findSizeClass size = some index) :
    ∃ address cache, heap.caches[index]? = some address ∧ heap.cacheAt address = some cache ∧
      size ≤ cache.objSize := by
  obtain ⟨inside, met, -⟩ := List.findIdx?_eq_some_iff_getElem.mp found
  have served := arena.classes on
  have cachesInside : index < heap.caches.length := by
    rw [served.length_eq]
    exact inside
  obtain ⟨cache, cacheEq, fits⟩ := served.get cachesInside inside
  exact ⟨_, cache, List.getElem?_eq_getElem cachesInside, cacheEq,
    Nat.le_trans (of_decide_eq_true met) fits⟩

variable {result : Option Nat}

/-- An object for a block, if the caches can provide one. -/
theorem slabMalloc_yields {mmap : Option Nat} (arena : Arena heap ledger) :
    Yields (slabMalloc heap size (size + 32) mmap)
      (∀ index address cache, findSizeClass (size + 32) = some index →
        heap.caches[index]? = some address → heap.cacheAt address = some cache →
        ∀ slab ∈ mmap, heap.space.Fresh (cache.region slab))
      fun (after, result) => (result = none ∧ after = heap) ∨
        ∃ base ledgerAfter, result = some (base + 32) ∧
          Granted heap ledger after ledgerAfter base size := by
  rw [slabMalloc]
  split
  next on =>
    split
    · exact .pure (.inl ⟨rfl, rfl⟩)
    next index classFound =>
      obtain ⟨address, cache, addressEq, found, fits⟩ := arena.class_cache on classFound
      obtain ⟨chains, free, rep⟩ := arena.consistent address cache found
      simp only [addressEq, found, bind_eq_bind, bind_some]
      refine ((slabAlloc_yields rep mmap).when fun fresh =>
        fresh index address cache classFound addressEq found).bind ?_
      rintro ⟨cacheAfter, memory, outcome⟩ - (⟨rfl, rfl, rfl⟩ | ⟨obj, slab, rfl, allocated⟩)
      · refine .pure (.inl ⟨rfl, ?_⟩)
        rw [← found, Function.update_eq_self]
      · have taken := arena.alloc allocated found
        obtain ⟨written, writeEq, writtenArena, writeKeeps, headed⟩ :=
          taken.writeHeader (allocated.placed fits)
        have fresh := fun other otherSize otherOrigin (placed : Placed heap ledger other otherSize
          otherOrigin) => allocated.base_ne arena found placed
        have storeEq : memory.write obj (slabHeader size address slab).bytes = _ := writeEq
        simp only [storeEq, map_some]
        refine .pure (.inr ⟨obj, ledger.take address slab obj, by rw [allocHeaderSize_eq],
          writtenArena, rfl, ?_, ⟨_, headed⟩, fresh⟩)
        exact (allocated.keeps arena found).of_fresh writeKeeps fresh
  · exact .pure (.inl ⟨rfl, rfl⟩)

/-- A region that is mapped for a block holds it. -/
theorem placed_own (ledger : Ledger) {mapped : Space}
    (regions : mapped.regions = chunk base size :: heap.space.regions) :
    Placed { heap with space := mapped } (ledger.own base .block) base size .system := by
  refine ⟨?_, Function.update_self _ _ _⟩
  rw [regions]
  exact mem_cons_self

variable {supply : Supply}

/-- A block from `malloc`, if it provides one. -/
theorem systemMalloc_yields (arena : Arena heap ledger) :
    Yields (systemMalloc heap size (size + 32) supply)
      (∀ base ∈ supply.malloc, heap.space.Fresh (chunk base size))
      fun (after, result) => (result = none ∧ after = heap) ∨
        ∃ base ledgerAfter, result = some (base + 32) ∧
          Granted heap ledger after ledgerAfter base size := by
  rw [systemMalloc]
  split
  · exact .pure (.inl ⟨rfl, rfl⟩)
  next base given =>
    refine ((Space.map_yields supply.fill).when fun fresh => fresh base given).bind ?_
    rintro mapped - ⟨freshRegion, regions, bytes⟩
    have owned := arena.map freshRegion regions bytes .block
    have placed := placed_own ledger regions
    obtain ⟨written, writeEq, writtenArena, writeKeeps, headed⟩ := owned.writeHeader placed
    have storeEq : mapped.write base (systemHeader size).bytes = _ := writeEq
    have fresh := fun other otherSize otherOrigin (otherPlaced : Placed heap ledger other otherSize
      otherOrigin) => arena.base_ne_of_fresh freshRegion otherPlaced
    simp only [storeEq, bind_eq_bind, bind_some]
    refine .pure (.inr ⟨base, ledger.own base .block, by rw [allocHeaderSize_eq], writtenArena, rfl,
      ?_, ⟨.system, headed⟩, fresh⟩)
    exact (arena.keeps_map freshRegion regions bytes .block).of_fresh writeKeeps fresh

/-- The state of the allocator between calls. -/
structure Sound (heap : Heap) (ledger : Ledger) : Prop where
  arena : Arena heap ledger
  pristine : heap.once = false → Pristine heap ledger

theorem sound_of_once (arena : Arena heap ledger) (once : heap.once = true) : Sound heap ledger :=
  ⟨arena, fun notOnce => absurd (notOnce.symm.trans once) (by simp)⟩

/-- What a call that may return a block does. -/
structure Delivered (heap : Heap) (ledger : Ledger) (after : Heap) (ledgerAfter : Ledger)
    (size : Nat) (result : Option Nat) : Prop where
  sound : Sound after ledgerAfter
  keeps : Keeps heap ledger after ledgerAfter none
  block : ∀ ptr ∈ result, 0 < size ∧ ∃ base origin, ptr = base + 32 ∧
    Headed after ledgerAfter base size origin ∧
    ∀ other otherSize otherOrigin, Placed heap ledger other otherSize otherOrigin → other ≠ base

/-- What the system returns to an allocation is fresh when it is asked for it. -/
structure Supply.Honest (heap : Heap) (size : Nat) (supply : Supply) : Prop where
  callocs : heap.once = false → HonestCallocs heap.space supply.callocs 0
  mmap : ∀ ready, memoryInitOnce supply.callocs heap = some ready →
    ∀ index address cache, findSizeClass (size + 32) = some index →
      ready.caches[index]? = some address → ready.cacheAt address = some cache →
      ∀ slab ∈ supply.mmap, ready.space.Fresh (cache.region slab)
  malloc : ∀ ready, memoryInitOnce supply.callocs heap = some ready →
    ∀ base ∈ supply.malloc, ready.space.Fresh (chunk base size)

theorem qdMalloc_yields (sound : Sound heap ledger) :
    Yields (qdMalloc heap size supply) (supply.Honest heap size) fun (after, result) =>
      ∃ ledgerAfter, Delivered heap ledger after ledgerAfter size result := by
  rw [qdMalloc, allocHeaderSize_eq]
  split
  · exact .pure ⟨ledger, sound, Keeps.refl heap ledger, fun _ absent => absurd absent (by simp)⟩
  next nonzero =>
    refine ((memoryInitOnce_yields sound.arena sound.pristine).when Supply.Honest.callocs).bind ?_
    rintro ready initEq ⟨readyLedger, readyArena, once, readyKeeps⟩
    have nothing : Delivered heap ledger ready readyLedger size none :=
      ⟨sound_of_once readyArena once, readyKeeps, fun _ absent => absurd absent (by simp)⟩
    have served : ∀ {later base laterLedger},
        Granted ready readyLedger later laterLedger base size →
        Delivered heap ledger later laterLedger size (some (base + 32)) := by
      intro later base laterLedger granted
      refine ⟨sound_of_once granted.arena (granted.once.trans once),
        readyKeeps.trans granted.keeps, ?_⟩
      rintro ptr ⟨⟩
      obtain ⟨origin, headed⟩ := granted.headed
      refine ⟨Nat.pos_of_ne_zero nonzero, base, origin, rfl, headed, ?_⟩
      intro other otherSize otherOrigin placed
      exact granted.fresh other otherSize otherOrigin
        (readyKeeps.placed other otherSize otherOrigin (by simp) placed)
    split
    · exact .pure ⟨readyLedger, nothing⟩
    · refine ((slabMalloc_yields readyArena).when fun honest => honest.mmap ready initEq).bind ?_
      rintro ⟨middle, slabResult⟩ - (⟨rfl, rfl⟩ | ⟨base, slabLedger, rfl, granted⟩)
      · refine (systemMalloc_yields readyArena).mono (fun honest => honest.malloc _ initEq) ?_
        rintro ⟨later, systemResult⟩ (⟨rfl, rfl⟩ | ⟨base, systemLedger, rfl, granted⟩)
        · exact ⟨readyLedger, nothing⟩
        · exact ⟨systemLedger, served granted⟩
      · exact .pure ⟨slabLedger, served granted⟩

/-! ## Release -/

/-- A live block can be freed, and no other one is concerned. -/
theorem qdFree_spec (sound : Sound heap ledger) (headed : Headed heap ledger base size origin) :
    ∃ after ledgerAfter, qdFree heap (some (base + 32)) = some after ∧ Sound after ledgerAfter ∧
      Keeps heap ledger after ledgerAfter (some base) := by
  have arena := sound.arena
  have once : heap.once = true := by
    by_contra notOnce
    exact (sound.pristine (by simpa using notOnce)).not_placed headed.placed
  have header := headed.headerOf_eq arena
  have baseEq := headed.wordSub_eq_base arena
  cases origin with
  | slab address slab =>
    obtain ⟨cache, found, held, fits⟩ := headed.placed
    obtain ⟨chains, free, rep⟩ := arena.consistent address cache found
    obtain ⟨list, mem⟩ := rep.holds_of_taken held
    have object := (rep.holds list slab mem).mem_taken held
    have cacheNonnull : address ≠ 0 :=
      Nat.ne_of_gt (heap.space.valid _ (arena.mapped address cache found)).nonnull
    have slabNonnull : slab ≠ 0 := Nat.ne_of_gt (rep.bounded mem).1
    obtain ⟨after, memory, freeEq, released⟩ := slabFreeLocked_released rep held
    refine ⟨heap.setCache address after memory, ledger.give address slab base, ?_,
      sound_of_once (arena.release found released held) once, released.keeps arena found held⟩
    rw [qdFree, header, bind_some]
    simp only [headerFor, slabHeader, baseEq]
    rw [if_pos ⟨by decide, cacheNonnull, slabNonnull⟩, found, bind_some,
      if_pos (rep.slabPtrMatches_of_object mem object), freeEq]
    rfl
  | system =>
    obtain ⟨unmapped, keeps⟩ := arena.unmap_block headed.placed
    refine ⟨_, ledger, ?_, sound_of_once unmapped once, keeps⟩
    have freed : systemFree heap.space base = some (heap.space.unmap (chunk base size)) := by
      rw [systemFree]
      cases search : heap.space.regions.find? fun region => region.start = base with
      | none =>
        have unmet := List.find?_eq_none.mp search (chunk base size) headed.placed.1
        exact absurd (decide_eq_true rfl) unmet
      | some region =>
        have start : region.start = base := by simpa using List.find?_some search
        have mem := mem_of_find?_eq_some search
        have same : region = chunk base size := by
          by_contra different
          have apart := heap.space.apart_of_ne mem headed.placed.1 different
          have nonempty := (heap.space.valid region mem).nonempty
          refine apart.not_contains ⟨le_rfl, Nat.lt_add_of_pos_right nonempty⟩ ?_
          rw [start]
          exact ⟨le_rfl, by simp only [chunk]; omega⟩
        rw [map_some, same]
    rw [qdFree, header, bind_some]
    simp only [headerFor, systemHeader, baseEq]
    rw [if_neg (by simp), freed, map_some]

/-! ## Contents -/

/-- Writing to the data of a block. -/
theorem Sound.fill (sound : Sound heap ledger) (headed : Headed heap ledger base size origin)
    (regions : memory.regions = heap.space.regions)
    (bytes : ∀ byte, ¬ Region.Contains ⟨base + 32, size⟩ byte →
      memory.bytes byte = heap.space.bytes byte) : Sound { heap with space := memory } ledger ∧
      Keeps heap ledger { heap with space := memory } ledger (some base) ∧
      Headed { heap with space := memory } ledger base size origin := by
  have outside : ∀ byte, ¬ (chunk base size).Contains byte →
      memory.bytes byte = heap.space.bytes byte := fun byte notInside =>
    bytes byte fun inside => notInside ((chunk_covers_data base size).contains inside)
  refine ⟨⟨sound.arena.write headed.placed regions outside, ?_⟩,
    sound.arena.keeps_write headed.placed regions outside,
    headed.placed.of_regions fun _ mem => regions ▸ mem, ?_⟩
  · intro notOnce
    exact absurd headed.placed (sound.pristine notOnce).not_placed
  · rw [← headed.header]
    apply contents_congr
    intro byte contained
    apply bytes
    have apart : Region.Apart ⟨base, 32⟩ ⟨base + 32, size⟩ := .inl le_rfl
    exact apart.not_contains contained

/-- The data of a block that is kept. -/
theorem Keeps.contents_eq {except : Option Nat}
    (keeps : Keeps heap ledger after ledgerAfter except) (other : except ≠ some base)
    (placed : Placed heap ledger base size origin) (inside : length ≤ size) :
    contents after.space.bytes ⟨base + 32, length⟩ =
      contents heap.space.bytes ⟨base + 32, length⟩ := by
  apply contents_congr
  intro byte contained
  apply keeps.bytes base size origin other placed
  apply (chunk_covers_data base size).contains
  exact ⟨contained.1, Nat.lt_of_lt_of_le contained.2 (Nat.add_le_add_left inside _)⟩

theorem Headed.data_accessible (arena : Arena heap ledger)
    (headed : Headed heap ledger base size origin) (inside : length ≤ size) :
    heap.space.Accessible ⟨base + 32, length⟩ :=
  (arena.placed_accessible headed.placed).of_covers
    ((chunk_covers_data base size).trans ⟨le_rfl, Nat.add_le_add_left inside _⟩)

theorem qdCalloc_yields {nmemb : Nat} (sound : Sound heap ledger) (exact : nmemb * size < 2 ^ 64) :
    Yields (qdCalloc heap nmemb size supply) (supply.Honest heap (nmemb * size))
      fun (after, result) =>
        ∃ ledgerAfter, Delivered heap ledger after ledgerAfter (nmemb * size) result ∧
          ∀ ptr ∈ result, contents after.space.bytes ⟨ptr, nmemb * size⟩ =
            List.replicate (nmemb * size) 0 := by
  simp only [qdCalloc, Nat.mod_eq_of_lt exact]
  refine (qdMalloc_yields sound).bind ?_
  rintro ⟨middle, given⟩ - ⟨middleLedger, delivered⟩
  cases given with
  | none => exact .pure ⟨middleLedger, delivered, fun _ absent => absurd absent (by simp)⟩
  | some ptr =>
    obtain ⟨positive, base, origin, rfl, headed, fresh⟩ := delivered.block ptr rfl
    obtain ⟨memory, memsetEq, regions, bytes⟩ := Space.memset_spec 0
      (headed.data_accessible delivered.sound.arena le_rfl)
    have outside : ∀ byte, ¬ Region.Contains ⟨base + 32, nmemb * size⟩ byte →
        memory.bytes byte = middle.space.bytes byte := by
      intro byte notInside
      rw [bytes, overwrite_of_not_contains]
      rwa [length_replicate]
    obtain ⟨filled, keeps, headedAfter⟩ := delivered.sound.fill headed regions outside
    simp only [memsetEq, map_some]
    refine .pure ⟨middleLedger, ⟨filled, delivered.keeps.of_fresh keeps fresh, ?_⟩, ?_⟩
    · rintro _ ⟨⟩
      exact ⟨positive, base, origin, rfl, headedAfter, fresh⟩
    · rintro _ ⟨⟩
      have zeros := contents_overwrite_self middle.space.bytes (base + 32)
        (List.replicate (nmemb * size) 0)
      rw [length_replicate, ← bytes] at zeros
      exact zeros

theorem contents_take {bytes : Nat → Byte} {start shorter : Nat} (inside : shorter ≤ length) :
    (contents bytes ⟨start, length⟩).take shorter = contents bytes ⟨start, shorter⟩ := by
  rw [contents, ← map_take, take_range, Nat.min_eq_left inside, contents]

/-- What a reallocation to another size does: the old block is gone, and the new one
begins with what it held. -/
structure Resized (heap : Heap) (ledger : Ledger) (after : Heap) (ledgerAfter : Ledger)
    (oldBase oldSize size ptr : Nat) : Prop where
  sound : Sound after ledgerAfter
  keeps : Keeps heap ledger after ledgerAfter (some oldBase)
  positive : 0 < size
  block : ∃ base origin, ptr = base + 32 ∧ Headed after ledgerAfter base size origin ∧
    ∀ other otherSize otherOrigin, Placed heap ledger other otherSize otherOrigin → other ≠ base
  copied : contents after.space.bytes ⟨ptr, min oldSize size⟩ =
    contents heap.space.bytes ⟨oldBase + 32, min oldSize size⟩

/-- The steps of a reallocation after `qd_malloc` has returned a block. -/
theorem resize_spec {middle : Heap} {middleLedger : Ledger} {new : Nat}
    (headed : Headed heap ledger base size origin)
    (delivered : Delivered heap ledger middle middleLedger newSize (some new)) :
    ∃ data memory after ledgerAfter,
      headerOf middle.space (base + 32) = some (headerFor size origin) ∧
      middle.space.read ⟨base + 32, min size newSize⟩ = some data ∧
      middle.space.write new data = some memory ∧
      qdFree { middle with space := memory } (some (base + 32)) = some after ∧
      Resized heap ledger after ledgerAfter base size newSize new := by
  obtain ⟨positive, newBase, newOrigin, rfl, newHeaded, fresh⟩ := delivered.block new rfl
  have kept := headed.kept delivered.keeps (by simp)
  have arena := delivered.sound.arena
  have different : base ≠ newBase := fresh base size origin headed.placed
  have readable := kept.data_accessible arena (Nat.min_le_left size newSize)
  obtain ⟨memory, writeEq, regions, bytes⟩ := Space.write_spec (show middle.space.Accessible
        ⟨newBase + 32, (contents middle.space.bytes ⟨base + 32, min size newSize⟩).length⟩ by
      rw [length_contents]
      exact newHeaded.data_accessible arena (Nat.min_le_right size newSize))
  have outside : ∀ byte, ¬ Region.Contains ⟨newBase + 32, newSize⟩ byte →
      memory.bytes byte = middle.space.bytes byte := by
    intro byte notInside
    rw [bytes, overwrite_of_not_contains]
    rw [length_contents]
    intro inside
    exact notInside ⟨inside.1, Nat.lt_of_lt_of_le inside.2
      (Nat.add_le_add_left (Nat.min_le_right size newSize) _)⟩
  obtain ⟨filled, fillKeeps, filledHeaded⟩ := delivered.sound.fill newHeaded regions outside
  have oldHeaded := kept.kept fillKeeps fun same => different (some.inj same).symm
  obtain ⟨after, ledgerAfter, freeEq, sound, freeKeeps⟩ := qdFree_spec filled oldHeaded
  have newKept : some base ≠ some newBase := fun same => different (some.inj same)
  refine ⟨_, memory, after, ledgerAfter, kept.headerOf_eq arena, Space.read_eq readable, writeEq,
    freeEq, sound, (delivered.keeps.of_fresh fillKeeps fresh).trans freeKeeps, positive,
    ⟨newBase, newOrigin, rfl, filledHeaded.kept freeKeeps newKept, fresh⟩, ?_⟩
  have written := contents_overwrite_self middle.space.bytes (newBase + 32)
    (contents middle.space.bytes ⟨base + 32, min size newSize⟩)
  rw [length_contents, ← bytes] at written
  rw [freeKeeps.contents_eq newKept filledHeaded.placed (Nat.min_le_right size newSize)]
  exact written.trans
    (delivered.keeps.contents_eq (by simp) headed.placed (Nat.min_le_left size newSize))

/-- A reallocation of a live block to a size other than zero. -/
theorem qdRealloc_yields (sound : Sound heap ledger) (headed : Headed heap ledger base size origin)
    (nonzero : newSize ≠ 0) :
    Yields (qdRealloc heap (some (base + 32)) newSize supply) (supply.Honest heap newSize)
      fun (after, result) =>
        (result = none ∧ ∃ ledgerAfter, Delivered heap ledger after ledgerAfter newSize none) ∨
          ∃ ptr ledgerAfter, result = some ptr ∧
            Resized heap ledger after ledgerAfter base size newSize ptr := by
  simp only [qdRealloc, if_neg nonzero]
  refine (qdMalloc_yields sound).bind ?_
  rintro ⟨middle, given⟩ - ⟨middleLedger, delivered⟩
  cases given with
  | none => exact .pure (.inl ⟨rfl, middleLedger, delivered⟩)
  | some new =>
    obtain ⟨data, memory, freed, ledgerAfter, headerEq, readEq, writeEq, freeEq, resized⟩ :=
      resize_spec headed delivered
    have length : (headerFor size origin).size = size := by
      cases origin <;> rfl
    have shorter : (if size < newSize then size else newSize) = min size newSize := by
      split <;> omega
    simp only [headerEq, bind_eq_bind, bind_some, length, shorter, readEq, writeEq, freeEq]
    exact .pure (.inr ⟨new, ledgerAfter, rfl, resized⟩)

end QDaemon.Memory
