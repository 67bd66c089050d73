import QDaemon.Memory.Slab.Core

/-!
# The general allocator

`qd_malloc`, `qd_calloc`, `qd_realloc` and `qd_free`: a block is an object of one of
twelve slab caches, or comes from `malloc`, and has a header in front that says which.

The fields of the caches are kept apart from the bytes in memory, by the address of
the cache.  What `calloc`, `mmap` and `malloc` return is given with a call; a call does
not return if that is not a fresh region, or if it accesses memory that is not mapped.
-/

namespace QDaemon.Memory

open Function Bits Bytes Transition

/-! ## Headers -/

/-- `struct qd_alloc_header`. -/
structure AllocHeader where
  magic : Nat
  flags : Nat
  reserved : Nat
  size : Nat
  cache : Nat
  slab : Nat

/-- The header in memory. -/
def AllocHeader.bytes (header : AllocHeader) : List Byte :=
  encode 4 header.magic ++ (encode 2 header.flags ++ (encode 2 header.reserved ++
    (encode 8 header.size ++ (encode 8 header.cache ++ encode 8 header.slab))))

def AllocHeader.load (buffer : List Byte) : AllocHeader where
  magic := field 0 4 buffer
  flags := field 4 2 buffer
  reserved := field 6 2 buffer
  size := field 8 8 buffer
  cache := field 16 8 buffer
  slab := field 24 8 buffer

def allocMagic : Nat := 0x51444D48

/-- The header of a block in a slab. -/
def slabHeader (size cache slab : Nat) : AllocHeader :=
  ⟨allocMagic, 0x01, 0, size, cache, slab⟩

/-- The header of a block from `malloc`. -/
def systemHeader (size : Nat) : AllocHeader :=
  ⟨allocMagic, 0x02, 0, size, 0, 0⟩

/-- `qd_alloc_header_size`. -/
def allocHeaderSize : Nat := wordAlign 32 16

/-! ## The caches -/

/-- `size_classes`. -/
def sizeClasses : List Nat :=
  [8, 16, 32, 64, 128, 256, 512, 1024, 2048, 4096, 8192, 16384]

/-- `find_size_class`. -/
def findSizeClass (size : Nat) : Option Nat :=
  sizeClasses.findIdx? fun bound => decide (size ≤ bound)

/-- `g_memory` and the memory of the process; `once` says that `qd_memory_init` has
been called. -/
structure Heap where
  space : Space
  once : Bool
  initialized : Bool
  caches : List Nat
  cacheAt : Nat → Option SlabCache

/-- The memory of a `struct qd_slab_cache`. -/
def cacheRegion (address : Nat) : Region := ⟨address, 176⟩

/-- Free the caches that have been created; they have no slabs yet. -/
def dropCaches (heap : Heap) : List Nat → Heap
  | [] => { heap with caches := [] }
  | address :: addresses =>
      dropCaches { heap with
        space := heap.space.unmap (cacheRegion address)
        cacheAt := update heap.cacheAt address none } addresses

/-- The loop of `qd_memory_init`; it says whether all caches could be created. -/
def createCaches (callocs : Nat → Option Nat) (heap : Heap) : List Nat → Option (Heap × Bool)
  | [] => some (heap, true)
  | size :: sizes =>
      match callocs heap.caches.length with
      | none => some (dropCaches heap heap.caches, false)
      | some address =>
          (heap.space.map (cacheRegion address) fun _ => 0).bind fun space =>
            match slabCacheCreate size 16 0 true with
            | some (some cache) =>
                createCaches callocs { heap with
                  space := space
                  caches := heap.caches ++ [address]
                  cacheAt := update heap.cacheAt address (some cache) } sizes
            | _ => none

/-- `qd_memory_init`. -/
def memoryInit (callocs : Nat → Option Nat) (heap : Heap) : Option Heap :=
  if heap.initialized then some heap
  else
    (createCaches callocs heap sizeClasses).map fun (heap, created) =>
      if created then { heap with initialized := true } else heap

/-- `qd_memory_init`, the first time only. -/
def memoryInitOnce (callocs : Nat → Option Nat) (heap : Heap) : Option Heap :=
  if heap.once then some heap else memoryInit callocs { heap with once := true }

/-! ## Calls -/

/-- What the system returns to a call: the addresses of the caches when they are
created, of a slab, and of a block with its contents. -/
structure Supply where
  callocs : Nat → Option Nat
  mmap : Option Nat
  malloc : Option Nat
  fill : Nat → Byte

variable (heap : Heap)

/-- The part of `qd_malloc` that takes an object from a cache. -/
def slabMalloc (size allocSize : Nat) (mmap : Option Nat) : Option (Heap × Option Nat) :=
  if heap.initialized then
    match findSizeClass allocSize with
    | none => some (heap, none)
    | some index => do
        let address ← heap.caches[index]?
        let cache ← heap.cacheAt address
        let (cache, space, result) ← slabAlloc cache heap.space mmap
        let cacheAt := update heap.cacheAt address (some cache)
        match result with
        | none => some ({ heap with space := space, cacheAt := cacheAt }, none)
        | some (obj, slab) =>
            (space.write obj (slabHeader size address slab).bytes).map fun space =>
              ({ heap with space := space, cacheAt := cacheAt }, some (obj + allocHeaderSize))
  else some (heap, none)

/-- The part of `qd_malloc` that calls `malloc`. -/
def systemMalloc (size allocSize : Nat) (supply : Supply) : Option (Heap × Option Nat) :=
  match supply.malloc with
  | none => some (heap, none)
  | some base => do
      let space ← heap.space.map ⟨base, allocSize⟩ supply.fill
      let space ← space.write base (systemHeader size).bytes
      some ({ heap with space := space }, some (base + allocHeaderSize))

/-- `qd_malloc`; the result is absent where the source returns `NULL`. -/
def qdMalloc (size : Nat) (supply : Supply) : Option (Heap × Option Nat) :=
  if size = 0 then some (heap, none)
  else
    (memoryInitOnce supply.callocs heap).bind fun heap =>
      if size > 2 ^ 64 - 1 - allocHeaderSize then some (heap, none)
      else
        (slabMalloc heap size (size + allocHeaderSize) supply.mmap).bind fun
          | (heap, some ptr) => some (heap, some ptr)
          | (heap, none) => systemMalloc heap size (size + allocHeaderSize) supply

/-- `qd_calloc`. -/
def qdCalloc (nmemb size : Nat) (supply : Supply) : Option (Heap × Option Nat) :=
  let total := nmemb * size % 2 ^ 64
  (qdMalloc heap total supply).bind fun
    | (heap, none) => some (heap, none)
    | (heap, some ptr) =>
        (heap.space.memset ptr total 0).map fun space => ({ heap with space := space }, some ptr)

/-- The header of a block. -/
def headerOf (space : Space) (ptr : Nat) : Option AllocHeader :=
  (space.read ⟨wordSub ptr allocHeaderSize, 32⟩).map AllocHeader.load

/-- `free` of the C library, for an address that `malloc` has returned. -/
def systemFree (space : Space) (base : Nat) : Option Space :=
  (space.regions.find? fun region => region.start = base).map space.unmap

/-- `qd_free`. -/
def qdFree : Option Nat → Option Heap
  | none => some heap
  | some ptr =>
      (headerOf heap.space ptr).bind fun header =>
        let base := wordSub ptr allocHeaderSize
        if header.flags &&& 0x01 ≠ 0 ∧ header.cache ≠ 0 ∧ header.slab ≠ 0 then
          (heap.cacheAt header.cache).bind fun cache =>
            if slabPtrMatches cache header.slab base then
              (slabFreeLocked cache heap.space header.slab base).map fun (cache, space) =>
                { heap with
                  space := space
                  cacheAt := update heap.cacheAt header.cache (some cache) }
            else some heap
        else (systemFree heap.space base).map fun space => { heap with space := space }

/-- `qd_realloc`. -/
def qdRealloc (ptr : Option Nat) (size : Nat) (supply : Supply) : Option (Heap × Option Nat) :=
  match ptr with
  | none => qdMalloc heap size supply
  | some old =>
      if size = 0 then (qdFree heap (some old)).map fun heap => (heap, none)
      else
        (qdMalloc heap size supply).bind fun
          | (heap, none) => some (heap, none)
          | (heap, some new) => do
              let header ← headerOf heap.space old
              let copySize := if header.size < size then header.size else size
              let data ← heap.space.read ⟨old, copySize⟩
              let space ← heap.space.write new data
              let heap ← qdFree { heap with space := space } (some old)
              some (heap, some new)

/-! ## Blocks -/

/-- A live block with what its owner expects in it. -/
structure Block where
  ptr : Nat
  data : List Byte

/-- The bytes that belong to the owner of a block. -/
def Block.region (block : Block) : Region := ⟨block.ptr, block.data.length⟩

/-- A heap and the blocks that are live. -/
structure HeapState where
  heap : Heap
  blocks : List Block

/-- The allocator before the first call. -/
def HeapState.initial (space : Space) : HeapState :=
  ⟨⟨space, false, false, [], fun _ => none⟩, []⟩

/-- A call with what the system returns to it, or a write to a block by its owner. -/
inductive HeapCall
  | malloc (size : Nat) (supply : Supply)
  | calloc (nmemb size : Nat) (supply : Supply)
  | realloc (ptr : Option Nat) (size : Nat) (supply : Supply)
  | free (ptr : Option Nat)
  | write (ptr offset : Nat) (data : List Byte)

/-- The block that has been returned, with the bytes that are in it then. -/
def granted (size : Nat) (result : Option Nat) : List Block :=
  result.toList.map fun ptr => ⟨ptr, contents heap.space.bytes ⟨ptr, size⟩⟩

/-- The blocks without the one at an address. -/
def without (ptr : Option Nat) (blocks : List Block) : List Block :=
  blocks.filter fun block => some block.ptr ≠ ptr

/-- The pointer may be passed to `qd_free`. -/
def LivePtr (blocks : List Block) (ptr : Option Nat) : Prop :=
  ∀ address ∈ ptr, ∃ block ∈ blocks, block.ptr = address

instance (blocks : List Block) (ptr : Option Nat) : Decidable (LivePtr blocks ptr) :=
  match ptr with
  | none => isTrue (by simp [LivePtr])
  | some address =>
      decidable_of_iff (∃ block ∈ blocks, block.ptr = address) (by simp [LivePtr])

/-- The data of a block after a write to it. -/
def splice (old : List Byte) (offset : Nat) (data : List Byte) : List Byte :=
  old.take offset ++ data ++ old.drop (offset + data.length)

/-- One call that returns, and its result. -/
def heapCall (state : HeapState) : HeapCall → Option (HeapState × Option Nat)
  | .malloc size supply =>
      (qdMalloc state.heap size supply).map fun (heap, result) =>
        (⟨heap, granted heap size result ++ state.blocks⟩, result)
  | .calloc nmemb size supply =>
      if nmemb * size < 2 ^ 64 then
        (qdCalloc state.heap nmemb size supply).map fun (heap, result) =>
          (⟨heap, granted heap (nmemb * size) result ++ state.blocks⟩, result)
      else none
  | .realloc ptr size supply =>
      if LivePtr state.blocks ptr then
        (qdRealloc state.heap ptr size supply).map fun (heap, result) =>
          let rest := if size = 0 ∨ result.isSome then without ptr state.blocks else state.blocks
          (⟨heap, granted heap size result ++ rest⟩, result)
      else none
  | .free ptr =>
      if LivePtr state.blocks ptr then
        (qdFree state.heap ptr).map fun heap => (⟨heap, without ptr state.blocks⟩, none)
      else none
  | .write ptr offset data =>
      if ∃ block ∈ state.blocks, block.ptr = ptr ∧ offset + data.length ≤ block.data.length then
        (state.heap.space.write (ptr + offset) data).map fun space =>
          (⟨{ state.heap with space := space }, state.blocks.map fun block =>
            if block.ptr = ptr then { block with data := splice block.data offset data }
            else block⟩, none)
      else none

def heapStep (state : HeapState) (call : HeapCall) : Option HeapState :=
  (heapCall state call).map Prod.fst

end QDaemon.Memory
