import QDaemon.Memory.Heap.Core
import QDaemon.Memory.Slab.Calls

/-!
# Who owns the memory of the allocator

Every mapped region that the allocator knows holds the fields of a cache, a slab of a
cache, or a block from `malloc`.  A block lies in an object that is taken from a slab,
or in a region of its own, so blocks do not overlap.
-/

namespace QDaemon.Memory

open Option List Function Bits Bytes

/-- What a region that begins at an address is used for. -/
inductive Owner
  | nobody
  | cache
  | slab (cache : Nat)
  | block

/-- Where a block comes from. -/
inductive Origin
  | slab (cache slab : Nat)
  | system

/-- What the allocator has given away: the objects that are taken, by cache and slab,
and the owners of the regions. -/
structure Ledger where
  taken : Nat → Nat → List Nat
  owner : Nat → Owner

theorem allocHeaderSize_eq : allocHeaderSize = 32 := by
  decide +kernel

/-- The caches are consistent and use different regions. -/
structure Arena (heap : Heap) (ledger : Ledger) : Prop where
  consistent : ∀ address cache, heap.cacheAt address = some cache →
    ∃ chains free, Consistent cache heap.space chains free (ledger.taken address)
  mapped : ∀ address cache, heap.cacheAt address = some cache →
    cacheRegion address ∈ heap.space.regions
  ownedCache : ∀ address cache, heap.cacheAt address = some cache → ledger.owner address = .cache
  ownedSlab : ∀ address cache, heap.cacheAt address = some cache →
    ∀ slab, cache.Live slab → ledger.owner slab = .slab address
  classes : heap.initialized = true →
    List.Forall₂ (fun address size => ∃ cache, heap.cacheAt address = some cache ∧
      size ≤ cache.objSize) heap.caches sizeClasses

/-- What the arena says about one cache. -/
structure Tenant (space : Space) (ledger : Ledger) (address : Nat) (cache : SlabCache) : Prop where
  consistent : ∃ chains free, Consistent cache space chains free (ledger.taken address)
  mapped : cacheRegion address ∈ space.regions
  ownedCache : ledger.owner address = .cache
  ownedSlab : ∀ slab, cache.Live slab → ledger.owner slab = .slab address

/-- The region that begins at an address belongs to the cache. -/
def Ledger.Uses (ledger : Ledger) (address start : Nat) : Prop :=
  start = address ∧ ledger.owner start = .cache ∨ ledger.owner start = .slab address

/-- The memory of a block with its header. -/
def chunk (base size : Nat) : Region := ⟨base, size + 32⟩

/-- A block of a size has its header at the address. -/
def Placed (heap : Heap) (ledger : Ledger) (base size : Nat) : Origin → Prop
  | .slab address slab => ∃ cache, heap.cacheAt address = some cache ∧ base ∈ ledger.taken address slab ∧
      size + 32 ≤ cache.objSize
  | .system => chunk base size ∈ heap.space.regions ∧ ledger.owner base = .block

variable {heap : Heap} {ledger : Ledger}
  {address slab base size obj : Nat} {cache : SlabCache} {origin : Origin} {memory : Space}

theorem cache_extent_covers (fits : size + 32 ≤ cache.objSize) :
    (cache.extent base).Covers (chunk base size) :=
  ⟨Nat.le_refl base, Nat.add_le_add_left fits base⟩

theorem not_slab_of_block (owned : ledger.owner base = .block) :
    ledger.owner base ≠ .slab address := by
  rw [owned]
  exact Owner.noConfusion

theorem Ledger.Uses.ne_block {start : Nat} (uses : ledger.Uses address start) :
    ledger.owner start ≠ .block := by
  rcases uses with ⟨-, owned⟩ | owned <;> rw [owned] <;> exact Owner.noConfusion

theorem Ledger.Uses.ne_slab {start other : Nat} (uses : ledger.Uses address start)
    (different : address ≠ other) : ledger.owner start ≠ .slab other := by
  rcases uses with ⟨-, owned⟩ | owned <;> rw [owned]
  · exact Owner.noConfusion
  · exact fun same => different (Owner.slab.inj same)

/-- A block stays where it is when the regions stay mapped. -/
theorem Placed.of_regions (placed : Placed heap ledger base size origin)
    (regions : ∀ region ∈ heap.space.regions, region ∈ memory.regions) :
    Placed { heap with space := memory } ledger base size origin := by
  cases origin with
  | slab address slab => exact placed
  | system => exact ⟨regions _ placed.1, placed.2⟩

namespace Arena

/-- An object of a live slab. -/
structure Object (heap : Heap) (address : Nat) (cache : SlabCache) (slab obj : Nat) : Prop where
  found : heap.cacheAt address = some cache
  live : cache.Live slab
  mem : obj ∈ cache.objects slab

theorem of_tenants (tenants : ∀ address cache, heap.cacheAt address = some cache →
      Tenant heap.space ledger address cache) (classes : heap.initialized = true →
      List.Forall₂ (fun address size => ∃ cache, heap.cacheAt address = some cache ∧
        size ≤ cache.objSize) heap.caches sizeClasses) : Arena heap ledger where
  consistent address cache found := (tenants address cache found).consistent
  mapped address cache found := (tenants address cache found).mapped
  ownedCache address cache found := (tenants address cache found).ownedCache
  ownedSlab address cache found := (tenants address cache found).ownedSlab
  classes := classes

section

variable (arena : Arena heap ledger)
include arena

section

variable (found : heap.cacheAt address = some cache)
include found

/-- A slab that is live is mapped. -/
theorem slab_mapped (live : cache.Live slab) : cache.region slab ∈ heap.space.regions := by
  obtain ⟨chains, free, rep⟩ := arena.consistent address cache found
  obtain ⟨list, mem⟩ := rep.listed slab live
  exact rep.mapped list slab mem

omit found in
theorem Object.region_mem (object : Object heap address cache slab obj) :
    cache.region slab ∈ heap.space.regions ∧ (cache.region slab).Covers (cache.extent obj) := by
  obtain ⟨chains, free, rep⟩ := arena.consistent address cache object.found
  exact ⟨arena.slab_mapped object.found object.live, rep.shaped.region_covers object.mem⟩

/-- A cache stays in order if its regions stay and its free objects keep their bytes. -/
theorem tenant_frame {after : Ledger} (taken : after.taken address = ledger.taken address)
    (kept : ∀ region ∈ heap.space.regions, ledger.Uses address region.start →
      region ∈ memory.regions ∧ after.owner region.start = ledger.owner region.start)
    (bytes : ∀ {slab obj}, Object heap address cache slab obj →
      (∀ other, obj ∉ ledger.taken address other) →
      ∀ byte, (cache.extent obj).Contains byte → memory.bytes byte = heap.space.bytes byte) :
    Tenant memory after address cache := by
  obtain ⟨chains, free, rep⟩ := arena.consistent address cache found
  have ownedCache := arena.ownedCache address cache found
  have ownedSlab := arena.ownedSlab address cache found
  have cacheKept := kept _ (arena.mapped address cache found) (.inl ⟨rfl, ownedCache⟩)
  have slabKept := fun slab live =>
    kept (cache.region slab) (arena.slab_mapped found live) (.inr (ownedSlab slab live))
  refine ⟨⟨chains, free, ?_⟩, cacheKept.1, cacheKept.2.trans ownedCache, fun slab live =>
    (slabKept slab live).2.trans (ownedSlab slab live)⟩
  rw [taken]
  apply rep.frame
  · intro list slab mem
    exact (slabKept slab ((rep.live_iff slab).mpr ⟨list, mem⟩)).1
  · intro list slab mem obj objFree
    exact bytes ⟨found, (rep.live_iff slab).mpr ⟨list, mem⟩,
      (rep.holds list slab mem).mem_free objFree⟩ fun other => rep.not_mem_taken mem objFree other

theorem object_of_taken
    (held : obj ∈ ledger.taken address slab) : Object heap address cache slab obj := by
  obtain ⟨chains, free, rep⟩ := arena.consistent address cache found
  obtain ⟨list, mem⟩ := rep.holds_of_taken held
  exact ⟨found, (rep.live_iff slab).mpr ⟨list, mem⟩, (rep.holds list slab mem).mem_taken held⟩

end

/-- Objects of all caches do not overlap. -/
theorem object_apart {otherAddress otherSlab otherObj : Nat} {otherCache : SlabCache}
    (object : Object heap address cache slab obj)
    (other : Object heap otherAddress otherCache otherSlab otherObj)
    (different : address = otherAddress → obj ≠ otherObj) :
    (cache.extent obj).Apart (otherCache.extent otherObj) := by
  by_cases same : address = otherAddress
  · subst same
    cases object.found.symm.trans other.found
    obtain ⟨chains, free, rep⟩ := arena.consistent address cache object.found
    obtain ⟨list, mem⟩ := rep.listed slab object.live
    obtain ⟨otherList, otherMem⟩ := rep.listed otherSlab other.live
    exact rep.extent_apart mem otherMem object.mem other.mem (different rfl)
  · obtain ⟨regionMem, covers⟩ := object.region_mem arena
    obtain ⟨otherRegionMem, otherCovers⟩ := other.region_mem arena
    have apart : (cache.region slab).Apart (otherCache.region otherSlab) := by
      apply heap.space.apart_of_ne regionMem otherRegionMem
      intro sameRegion
      have sameSlab : slab = otherSlab := congrArg Region.start sameRegion
      have first := arena.ownedSlab address cache object.found slab object.live
      have second := arena.ownedSlab otherAddress otherCache other.found otherSlab other.live
      rw [← sameSlab, first] at second
      exact same (Owner.slab.inj second)
    exact ((apart.of_covers covers).symm.of_covers otherCovers).symm

variable {region : Region}

/-- An object does not overlap a region with another owner. -/
theorem object_apart_region (object : Object heap address cache slab obj)
    (mem : region ∈ heap.space.regions) (different : ledger.owner region.start ≠ .slab address) :
    (cache.extent obj).Apart region := by
  obtain ⟨regionMem, covers⟩ := object.region_mem arena
  have apart : (cache.region slab).Apart region := by
    apply heap.space.apart_of_ne regionMem mem
    intro same
    apply different
    rw [← same]
    exact arena.ownedSlab address cache object.found slab object.live
  exact apart.of_covers covers

section

variable (placed : Placed heap ledger base size origin)
include placed

/-- A block does not overlap an object that it is not in. -/
theorem placed_apart_object (object : Object heap address cache slab obj) (different : base ≠ obj) :
    (chunk base size).Apart (cache.extent obj) := by
  cases origin with
  | slab otherAddress otherSlab =>
    obtain ⟨otherCache, otherFound, held, fits⟩ := placed
    have apart := arena.object_apart (arena.object_of_taken otherFound held) object
      fun _ => different
    exact apart.of_covers (cache_extent_covers fits)
  | system =>
    exact (arena.object_apart_region object placed.1 (not_slab_of_block placed.2)).symm

/-- Blocks at different addresses do not overlap. -/
theorem placed_apart {otherBase otherSize : Nat} {otherOrigin : Origin}
    (other : Placed heap ledger otherBase otherSize otherOrigin) (different : base ≠ otherBase) :
    (chunk base size).Apart (chunk otherBase otherSize) := by
  cases otherOrigin with
  | slab otherAddress otherSlab =>
    obtain ⟨otherCache, otherFound, otherHeld, otherFits⟩ := other
    have apart := arena.placed_apart_object placed (arena.object_of_taken otherFound otherHeld)
      different
    exact (apart.symm.of_covers (cache_extent_covers otherFits)).symm
  | system =>
    cases origin with
    | slab address slab =>
      obtain ⟨cache, found, held, fits⟩ := placed
      have apart := arena.placed_apart_object other (arena.object_of_taken found held)
        different.symm
      exact apart.symm.of_covers (cache_extent_covers fits)
    | system =>
      apply heap.space.apart_of_ne placed.1 other.1
      intro same
      exact different (congrArg Region.start same)

theorem placed_accessible : heap.space.Accessible (chunk base size) := by
  cases origin with
  | slab address slab =>
    obtain ⟨cache, found, held, fits⟩ := placed
    obtain ⟨regionMem, covers⟩ := (arena.object_of_taken found held).region_mem arena
    exact ⟨_, regionMem, covers.trans (cache_extent_covers fits)⟩
  | system => exact ⟨_, placed.1, le_rfl, le_rfl⟩

/-- A block ends below the end of the address space. -/
theorem placed_bounded : 0 < base ∧ base + (size + 32) < 2 ^ 64 := by
  obtain ⟨outer, mem, lower, upper⟩ := arena.placed_accessible placed
  have valid := heap.space.valid outer mem
  have nonnull := valid.nonnull
  have bounded := valid.bounded
  simp only [chunk] at lower upper
  omega

/-- The header of a block is not at an object that no block of the same cache is in. -/
theorem placed_ne (object : Object heap address cache slab obj)
    (different : ∀ other, origin = .slab address other → base ≠ obj) : base ≠ obj := by
  obtain ⟨chains, free, rep⟩ := arena.consistent address cache object.found
  have inside := rep.shaped.extent_contains obj
  rintro rfl
  cases origin with
  | slab otherAddress otherSlab =>
    by_cases same : otherAddress = address
    · exact different otherSlab (by rw [same]) rfl
    · obtain ⟨otherCache, otherFound, held, -⟩ := placed
      obtain ⟨_, _, otherRep⟩ := arena.consistent otherAddress otherCache otherFound
      have apart := arena.object_apart object (arena.object_of_taken otherFound held)
        fun equal => absurd equal.symm same
      exact apart.not_contains inside (otherRep.shaped.extent_contains base)
  | system =>
    have apart := arena.object_apart_region object placed.1 (not_slab_of_block placed.2)
    refine apart.not_contains inside ⟨Nat.le_refl base, ?_⟩
    simp only [chunk]
    omega

/-- The bytes of a block may change. -/
theorem write (regions : memory.regions = heap.space.regions)
    (bytes : ∀ byte, ¬ (chunk base size).Contains byte →
      memory.bytes byte = heap.space.bytes byte) : Arena { heap with space := memory } ledger := by
  refine of_tenants (fun address cache found => arena.tenant_frame found rfl
    (fun region mem _ => ⟨regions ▸ mem, rfl⟩) ?_) arena.classes
  intro slab obj object out byte contained
  have different : base ≠ obj := by
    apply arena.placed_ne placed object
    rintro other rfl rfl
    obtain ⟨_, _, held, -⟩ := placed
    exact out other held
  exact bytes byte ((arena.placed_apart_object placed object different).symm.not_contains contained)

end

end

end Arena

/-! ## Changes -/

/-- The blocks stay with their bytes, except one. -/
structure Keeps (heap : Heap) (ledger : Ledger) (after : Heap) (ledgerAfter : Ledger)
    (except : Option Nat) : Prop where
  placed : ∀ base size origin, except ≠ some base → Placed heap ledger base size origin →
    Placed after ledgerAfter base size origin
  bytes : ∀ base size origin, except ≠ some base → Placed heap ledger base size origin →
    ∀ byte, (chunk base size).Contains byte → after.space.bytes byte = heap.space.bytes byte

theorem Keeps.refl (heap : Heap) (ledger : Ledger) : Keeps heap ledger heap ledger none :=
  ⟨fun _ _ _ _ placed => placed, fun _ _ _ _ _ _ _ => rfl⟩

theorem Keeps.trans {middle after : Heap} {middleLedger ledgerAfter : Ledger} {except : Option Nat}
    (first : Keeps heap ledger middle middleLedger none)
    (second : Keeps middle middleLedger after ledgerAfter except) :
    Keeps heap ledger after ledgerAfter except := by
  constructor
  · intro base size origin other placed
    exact second.placed base size origin other (first.placed base size origin (by simp) placed)
  · intro base size origin other placed byte contained
    rw [second.bytes base size origin other (first.placed base size origin (by simp) placed) byte
      contained, first.bytes base size origin (by simp) placed byte contained]

/-- No block was at the address that is excepted. -/
theorem Keeps.of_fresh {middle after : Heap} {middleLedger ledgerAfter : Ledger}
    (first : Keeps heap ledger middle middleLedger none)
    (second : Keeps middle middleLedger after ledgerAfter (some base))
    (fresh : ∀ other size origin, Placed heap ledger other size origin → other ≠ base) :
    Keeps heap ledger after ledgerAfter none := by
  have whole := first.trans second
  constructor
  · intro other size origin _ placed
    apply whole.placed other size origin _ placed
    intro same
    exact fresh other size origin placed (some.inj same).symm
  · intro other size origin _ placed
    apply whole.bytes other size origin _ placed
    intro same
    exact fresh other size origin placed (some.inj same).symm

/-- An object of a slab is taken. -/
def Ledger.take (ledger : Ledger) (address slab obj : Nat) : Ledger where
  taken := update ledger.taken address
    (update (ledger.taken address) slab (obj :: ledger.taken address slab))
  owner := update ledger.owner slab (.slab address)

/-- An object of a slab is given back. -/
def Ledger.give (ledger : Ledger) (address slab obj : Nat) : Ledger where
  taken := update ledger.taken address
    (update (ledger.taken address) slab ((ledger.taken address slab).erase obj))
  owner := ledger.owner

/-- The heap after a call of a cache. -/
def Heap.setCache (heap : Heap) (address : Nat) (cache : SlabCache) (space : Space) : Heap :=
  { heap with space := space, cacheAt := update heap.cacheAt address (some cache) }

namespace Arena

variable {after : SlabCache}

theorem setCache_cases {other : Nat} {found : SlabCache}
    (foundEq : (heap.setCache address after memory).cacheAt other = some found) :
    (other = address ∧ found = after) ∨ (other ≠ address ∧ heap.cacheAt other = some found) := by
  simp only [Heap.setCache, update_apply] at foundEq
  split at foundEq
  next same => exact .inl ⟨same, (some.inj foundEq).symm⟩
  next different => exact .inr ⟨different, foundEq⟩

/-- The classes only depend on the sizes of the objects. -/
theorem classes_setCache (arena : Arena heap ledger) (found : heap.cacheAt address = some cache)
    (size : after.objSize = cache.objSize) (initialized : heap.initialized = true) :
    List.Forall₂ (fun other size => ∃ cache,
      (heap.setCache address after memory).cacheAt other = some cache ∧ size ≤ cache.objSize)
      heap.caches sizeClasses := by
  refine (arena.classes initialized).imp ?_
  rintro other bound ⟨otherCache, otherFound, fits⟩
  by_cases same : other = address
  · subst same
    cases found.symm.trans otherFound
    exact ⟨after, by simp [Heap.setCache], size ▸ fits⟩
  · exact ⟨otherCache, by simpa [Heap.setCache, same] using otherFound, fits⟩

end Arena

/-- A block in an object stays if it is still taken. -/
theorem Placed.setCache {after : SlabCache} {otherAddress otherSlab : Nat}
    {taken : Nat → List Nat} {owner : Nat → Owner}
    (placed : Placed heap ledger base size (.slab otherAddress otherSlab))
    (found : heap.cacheAt address = some cache) (objSize : after.objSize = cache.objSize)
    (stays : base ∈ ledger.taken address otherSlab → base ∈ taken otherSlab) :
    Placed (heap.setCache address after memory) ⟨update ledger.taken address taken, owner⟩ base size
      (.slab otherAddress otherSlab) := by
  obtain ⟨otherCache, otherFound, held, fits⟩ := placed
  by_cases same : otherAddress = address
  · subst same
    cases found.symm.trans otherFound
    refine ⟨after, by simp [Heap.setCache], ?_, by rwa [objSize]⟩
    simpa using stays held
  · refine ⟨otherCache, by simpa [Heap.setCache, same] using otherFound, ?_, fits⟩
    simpa [update_of_ne same] using held

/-! ### Objects are taken -/

section Taking

variable {after : SlabCache}
  (allocated : Allocated cache after heap.space memory (ledger.taken address) obj slab)
include allocated

theorem Allocated.kept (mem : region ∈ heap.space.regions) : region ∈ memory.regions := by
  rcases allocated.regions with ⟨-, same⟩ | ⟨-, new⟩
  · rwa [same]
  · rw [new]
    exact mem_cons_of_mem _ mem

theorem Allocated.region_mem : cache.region slab ∈ memory.regions := by
  obtain ⟨chains, free, rep⟩ := allocated.consistent
  obtain ⟨list, mem⟩ := rep.listed slab ((allocated.live slab).mpr (.inl rfl))
  have mapped := rep.mapped list slab mem
  obtain ⟨lists, slabs, rfl⟩ := allocated.parameters
  exact mapped

theorem Allocated.placed (fits : size + 32 ≤ cache.objSize) :
    Placed (heap.setCache address after memory) (ledger.take address slab obj) obj size
      (.slab address slab) := by
  obtain ⟨lists, slabs, afterEq⟩ := allocated.parameters
  refine ⟨after, by simp [Heap.setCache], ?_, ?_⟩
  · simp [Ledger.take]
  · rw [afterEq]
    exact fits

variable (arena : Arena heap ledger) (found : heap.cacheAt address = some cache)
include arena found

/-- The slab is not a region of somebody else. -/
theorem Allocated.start_ne (mem : region ∈ heap.space.regions)
    (different : ledger.owner region.start ≠ .slab address) : region.start ≠ slab := by
  rcases allocated.regions with ⟨live, -⟩ | ⟨fresh, -⟩
  · intro same
    apply different
    rw [same]
    exact arena.ownedSlab address cache found slab live
  · exact Space.Fresh.start_ne fresh mem

theorem Arena.alloc :
    Arena (heap.setCache address after memory) (ledger.take address slab obj) := by
  obtain ⟨lists, slabs, afterEq⟩ := allocated.parameters
  have cacheNe : ∀ {other otherCache}, heap.cacheAt other = some otherCache → other ≠ slab := by
    intro other otherCache otherFound
    apply allocated.start_ne arena found (arena.mapped other otherCache otherFound)
    exact fun owned => Owner.noConfusion ((arena.ownedCache other _ otherFound).symm.trans owned)
  refine of_tenants ?_ (arena.classes_setCache found (by rw [afterEq]))
  intro other otherCache otherFound
  rcases Arena.setCache_cases otherFound with ⟨rfl, rfl⟩ | ⟨different, old⟩
  · refine ⟨by simpa [Ledger.take, Heap.setCache] using allocated.consistent,
      allocated.kept (arena.mapped other cache found), ?_, ?_⟩
    · simp only [Ledger.take, update_of_ne (cacheNe found)]
      exact arena.ownedCache other cache found
    · intro live isLive
      by_cases same : live = slab
      · simp [Ledger.take, same]
      · simp only [Ledger.take, update_of_ne same]
        exact arena.ownedSlab other cache found live
          (((allocated.live live).mp isLive).resolve_left same)
  · refine arena.tenant_frame old (update_of_ne different _ _) (fun region mem uses =>
      ⟨allocated.kept mem, update_of_ne (allocated.start_ne arena found mem
        (uses.ne_slab different)) _ _⟩) ?_
    intro live obj object _ byte contained
    obtain ⟨home, covers⟩ := object.region_mem arena
    have inHome := covers.contains contained
    apply allocated.bytes _ home byte inHome
    have apart : (otherCache.region live).Apart (cache.region slab) := by
      apply memory.apart_of_ne (allocated.kept home) allocated.region_mem
      intro same
      have uses : ledger.Uses other live := .inr (arena.ownedSlab other _ old live object.live)
      exact allocated.start_ne arena found home (uses.ne_slab different)
        (congrArg Region.start same)
    obtain ⟨_, _, afterRep⟩ := allocated.consistent
    obtain ⟨afterList, afterMem⟩ := afterRep.listed slab ((allocated.live slab).mpr (.inl rfl))
    have taken := (afterRep.holds afterList slab afterMem).mem_taken
      (by rw [update_self]; exact mem_cons_self)
    have objCovers := afterRep.shaped.region_covers taken
    rw [afterEq] at objCovers
    intro inside
    exact apart.not_contains inHome (Region.Covers.contains objCovers inside)

/-- The object is in a slab of the cache. -/
theorem Allocated.object :
    Arena.Object (heap.setCache address after memory) address after slab obj := by
  apply (arena.alloc allocated found).object_of_taken (by simp [Heap.setCache])
  simp [Ledger.take]

section

variable (placed : Placed heap ledger base size origin)
include placed

/-- The blocks stay when an object is taken. -/
theorem Allocated.keeps_placed :
    Placed (heap.setCache address after memory) (ledger.take address slab obj) base size origin := by
  cases origin with
  | slab otherAddress otherSlab =>
    obtain ⟨lists, slabs, afterEq⟩ := allocated.parameters
    apply placed.setCache found (by rw [afterEq])
    intro held
    by_cases sameSlab : otherSlab = slab
    · rw [sameSlab, update_self]
      exact mem_cons_of_mem obj (sameSlab ▸ held)
    · rwa [update_of_ne sameSlab]
  | system =>
    refine ⟨allocated.kept placed.1, ?_⟩
    have different : base ≠ slab :=
      allocated.start_ne arena found placed.1 (not_slab_of_block placed.2)
    simpa [Ledger.take, update_of_ne different] using placed.2

/-- The object holds no other block. -/
theorem Allocated.base_ne : base ≠ obj := by
  have afterArena := arena.alloc allocated found
  apply afterArena.placed_ne (allocated.keeps_placed arena found placed)
    (allocated.object arena found)
  rintro other rfl rfl
  obtain ⟨_, _, held, -⟩ := placed
  exact allocated.fresh other held

end

theorem Allocated.keeps :
    Keeps heap ledger (heap.setCache address after memory) (ledger.take address slab obj) none := by
  have afterArena := arena.alloc allocated found
  obtain ⟨lists, slabs, afterEq⟩ := allocated.parameters
  constructor
  · intro base size origin _ placed
    exact allocated.keeps_placed arena found placed
  · intro base size origin _ placed byte contained
    have different := allocated.base_ne arena found placed
    obtain ⟨home, homeMem, covers⟩ := arena.placed_accessible placed
    apply allocated.bytes home homeMem byte (covers.contains contained)
    have apart := afterArena.placed_apart_object (allocated.keeps_placed arena found placed)
      (allocated.object arena found) different
    rw [afterEq] at apart
    exact apart.not_contains contained

end Taking

/-! ### Objects are given back -/

section Giving

variable {after : SlabCache} (arena : Arena heap ledger) (found : heap.cacheAt address = some cache)
  (released : Released cache after heap.space memory (ledger.taken address) obj slab)
  (held : obj ∈ ledger.taken address slab)
include arena found released held

theorem Arena.release :
    Arena (heap.setCache address after memory) (ledger.give address slab obj) := by
  obtain ⟨lists, slabs, afterEq⟩ := released.parameters
  have object := arena.object_of_taken found held
  have kept : ∀ region ∈ heap.space.regions, region ∈ memory.regions := by
    rw [released.regions]
    exact fun _ mem => mem
  refine of_tenants ?_ (arena.classes_setCache found (by rw [afterEq]))
  intro other otherCache otherFound
  rcases Arena.setCache_cases otherFound with ⟨rfl, rfl⟩ | ⟨different, old⟩
  · refine ⟨by simpa [Ledger.give, Heap.setCache] using released.consistent,
      kept _ (arena.mapped other cache found),
      arena.ownedCache other cache found, fun live isLive => ?_⟩
    exact arena.ownedSlab other cache found live ((released.live live).mp isLive)
  · refine arena.tenant_frame old (update_of_ne different _ _) (fun region mem _ =>
      ⟨kept region mem, rfl⟩) fun freeObject _ byte contained => ?_
    have apart := arena.object_apart freeObject object fun same => absurd same different
    exact released.bytes byte (apart.not_contains contained)

theorem Released.keeps :
    Keeps heap ledger (heap.setCache address after memory) (ledger.give address slab obj)
      (some obj) := by
  obtain ⟨lists, slabs, afterEq⟩ := released.parameters
  have object := arena.object_of_taken found held
  constructor
  · intro base size origin other placed
    have different : base ≠ obj := fun same => other (congrArg some same.symm)
    cases origin with
    | slab otherAddress otherSlab =>
      apply placed.setCache found (by rw [afterEq])
      intro otherHeld
      by_cases sameSlab : otherSlab = slab
      · rw [sameSlab, update_self]
        exact (mem_erase_of_ne different).mpr (sameSlab ▸ otherHeld)
      · rwa [update_of_ne sameSlab]
    | system =>
      refine ⟨?_, placed.2⟩
      change _ ∈ memory.regions
      rw [released.regions]
      exact placed.1
  · intro base size origin other placed byte contained
    have different : base ≠ obj := fun same => other (congrArg some same.symm)
    exact released.bytes byte
      ((arena.placed_apart_object placed object different).not_contains contained)

end Giving

/-! ### Regions are mapped and unmapped -/

/-- A region has an owner now. -/
def Ledger.own (ledger : Ledger) (start : Nat) (owner : Owner) : Ledger :=
  { ledger with owner := update ledger.owner start owner }

section Mapping

variable {region : Region} (arena : Arena heap ledger)
include arena

section

variable (fresh : heap.space.Fresh region)
include fresh

variable (regions : memory.regions = region :: heap.space.regions)
include regions

variable (bytes : ∀ byte, ¬ region.Contains byte → memory.bytes byte = heap.space.bytes byte)
include bytes

theorem Arena.map
    (what : Owner) : Arena { heap with space := memory } (ledger.own region.start what) := by
  refine of_tenants (fun address cache found => arena.tenant_frame found rfl ?_ ?_) arena.classes
  · intro other mem _
    exact ⟨regions ▸ mem_cons_of_mem region mem,
      update_of_ne (Space.Fresh.start_ne fresh mem) _ _⟩
  · intro slab obj object _ byte contained
    obtain ⟨home, covers⟩ := object.region_mem arena
    exact bytes byte ((fresh.2 _ home).symm.not_contains (covers.contains contained))

omit bytes in
omit regions in
/-- A block is not in a fresh region. -/
theorem Arena.base_ne_of_fresh
    (placed : Placed heap ledger base size origin) : base ≠ region.start := by
  obtain ⟨home, homeMem, covers⟩ := arena.placed_accessible placed
  rintro rfl
  have inside : home.Contains region.start := covers.contains ⟨le_rfl, by
    simp only [chunk]
    omega⟩
  exact (fresh.2 home homeMem).symm.not_contains inside
    ⟨le_rfl, Nat.lt_add_of_pos_right fresh.1.2.1⟩

theorem Arena.keeps_map (what : Owner) :
    Keeps heap ledger { heap with space := memory } (ledger.own region.start what) none := by
  constructor
  · intro base size origin _ placed
    have different := arena.base_ne_of_fresh fresh placed
    cases origin with
    | slab address slab => exact placed
    | system =>
      refine ⟨?_, ?_⟩
      · change _ ∈ memory.regions
        rw [regions]
        exact mem_cons_of_mem region placed.1
      · simpa [Ledger.own, update_of_ne different] using placed.2
  · intro base size origin _ placed byte contained
    obtain ⟨home, homeMem, covers⟩ := arena.placed_accessible placed
    exact bytes byte ((fresh.2 home homeMem).symm.not_contains (covers.contains contained))

end

/-- A block from `malloc` is freed. -/
theorem Arena.unmap_block (placed : Placed heap ledger base size .system) :
    Arena { heap with space := heap.space.unmap (chunk base size) } ledger ∧
      Keeps heap ledger { heap with space := heap.space.unmap (chunk base size) } ledger
        (some base) := by
  constructor
  · refine of_tenants (fun address cache found => arena.tenant_frame found rfl
      (fun region mem uses => ⟨(mem_erase_of_ne ?_).mpr mem, rfl⟩) fun _ _ _ _ => rfl) arena.classes
    rintro rfl
    exact uses.ne_block placed.2
  · constructor
    · intro other otherSize origin excepted otherPlaced
      cases origin with
      | slab address slab => exact otherPlaced
      | system =>
        refine ⟨(mem_erase_of_ne ?_).mpr otherPlaced.1, otherPlaced.2⟩
        intro same
        exact excepted (congrArg some (congrArg Region.start same).symm)
    · intro other otherSize origin _ _ byte _
      rfl

end Mapping

/-- The bytes of one block change. -/
theorem Arena.keeps_write (arena : Arena heap ledger)
    (placed : Placed heap ledger base size origin) (regions : memory.regions = heap.space.regions)
    (bytes : ∀ byte, ¬ (chunk base size).Contains byte →
      memory.bytes byte = heap.space.bytes byte) :
    Keeps heap ledger { heap with space := memory } ledger (some base) := by
  constructor
  · intro other otherSize otherOrigin _ otherPlaced
    exact otherPlaced.of_regions fun _ mem => regions ▸ mem
  · intro other otherSize otherOrigin excepted otherPlaced byte contained
    have different : other ≠ base := fun same => excepted (congrArg some same.symm)
    exact bytes byte ((arena.placed_apart otherPlaced placed different).not_contains contained)

end QDaemon.Memory
