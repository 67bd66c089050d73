import QDaemon.Bits.Word
import QDaemon.Bytes.Space
import QDaemon.Linked.Chain
import QDaemon.Transition.Run

/-!
# Slab caches

`qd_memory.c`: a cache hands out objects of one size.  They are cut from slabs, which
are mapped one by one; the free objects of a slab are linked through their first
words.  A slab is on the list of the full, of the partly used or of the empty slabs.

A slab begins with its header, `struct qd_slab`.  The headers are kept apart from the
bytes of the objects: the linkage is in the lists, the other fields are in a record,
and both are found by the address of the slab.  A function does not return if it
accesses memory that is not mapped, or if the rounds of a traversal run out.
-/

namespace QDaemon.Memory

open Function Bits Bytes Linked Transition

/-- The list heads of a cache. -/
inductive SlabList
  | slabsFull
  | slabsPartial
  | slabsEmpty
  deriving DecidableEq

/-- The fields of `struct qd_slab` without the linkage. -/
structure Slab where
  base : Nat
  freelist : Nat
  inuse : Nat
  total : Nat

/-- The linkage of the slabs; `prev` is the slab before. -/
abbrev SlabLists := Lists SlabList Nat (Option Nat)

/-- `struct qd_slab_cache`. -/
structure SlabCache where
  objSize : Nat
  slabSize : Nat
  flags : BitVec 32
  objsPerSlab : Nat
  lists : SlabLists
  slab : Nat → Slab
  allocs : Nat
  frees : Nat

/-- The header size of a slab, `QD_ALIGN(sizeof(qd_slab_t), 16)`. -/
def slabHeaderSize : Nat := wordAlign 48 16

/-- The fields of a new cache for objects of a size that has been rounded. -/
def newCache (size : Nat) (flags : BitVec 32) : SlabCache :=
  let slabSize := if size > 4096 / 4 then size * 4 % 2 ^ 64 else 4096
  let objsPerSlab := slabSize / size % 2 ^ 32
  { objSize := size
    slabSize := slabSize
    flags := flags
    objsPerSlab := if objsPerSlab = 0 then 1 else objsPerSlab
    lists := ⟨fun _ => none, fun _ => none⟩
    slab := fun _ => ⟨0, 0, 0, 0⟩
    allocs := 0
    frees := 0 }

/-- `qd_slab_cache_create`; `calloc` may fail.  It does not return if it divides by
zero. -/
def slabCacheCreate (size align : Nat) (flags : BitVec 32) (calloc : Bool) :
    Option (Option SlabCache) :=
  let size := if size < 8 then 8 else size
  let align := if align = 0 then 8 else align
  let align := if align < 8 then 8 else align
  let size := wordAlign size align
  if calloc then if size = 0 then none else some (some (newCache size flags)) else some none

/-! ## Slabs -/

/-- The loop of `slab_create` that links the objects. -/
def buildFreelist (objSize : Nat) : Nat → Space → Nat → Nat → Option (Space × Nat)
  | 0, space, freelist, _ => some (space, freelist)
  | count + 1, space, freelist, obj =>
      (space.storeWord obj freelist).bind fun space =>
        buildFreelist objSize count space obj (wordAdd obj objSize)

variable (cache : SlabCache)

/-- The pages of a slab. -/
def SlabCache.region (slab : Nat) : Region :=
  ⟨slab, wordAdd cache.slabSize slabHeaderSize⟩

/-- `slab_create` where `mmap` has returned an address. -/
def slabCreate (space : Space) (mem : Nat) : Option (SlabCache × Space) := do
  let space ← space.map (cache.region mem) fun _ => 0
  let base := wordAdd mem slabHeaderSize
  let (space, freelist) ← buildFreelist cache.objSize cache.objsPerSlab space 0 base
  let slab := ⟨base, freelist, 0, cache.objsPerSlab⟩
  some ({ cache with
    lists := cache.lists.setNode mem ⟨none, none⟩
    slab := update cache.slab mem slab }, space)

/-- `slab_list_add`. -/
def slabListAdd (lists : SlabLists) (head : SlabList) (slab : Nat) : Option SlabLists := do
  let first := lists.first head
  let lists ← lists.store first (.next slab)
  let lists ← lists.setBack slab none
  let lists ← lists.setSuccessor (some slab) first
  lists.store (some slab) (.head head)

/-- `slab_list_remove`. -/
def slabListRemove (lists : SlabLists) (head : SlabList) (slab : Nat) : Option SlabLists :=
  (lists.backOf slab).bind fun prev =>
    let place := match prev with
      | some prev => .next prev
      | none => .head head
    lists.unlink place prev none slab

/-- A slab is taken from one list and put on another one. -/
def slabListMove (lists : SlabLists) (source target : SlabList) (slab : Nat) : Option SlabLists :=
  (slabListRemove lists source slab).bind fun lists => slabListAdd lists target slab

/-- `slab_ptr_matches`. -/
def slabPtrMatches (slab ptr : Nat) : Bool :=
  let base := (cache.slab slab).base
  if ptr < base ∨ ptr ≥ wordAdd base cache.slabSize then false
  else wordSub ptr base % cache.objSize = 0

/-- Fill an object if the cache has a flag. -/
def fillIf (flag : BitVec 32) (space : Space) (obj : Nat) (byte : Byte) : Option Space :=
  if cache.flags &&& flag ≠ 0 then space.memset obj cache.objSize byte else some space

/-! ## Allocation -/

/-- An object is taken from the free list: `freelist` is its first word. -/
def Slab.pop (slab : Slab) (next : Nat) : Slab :=
  { slab with freelist := next, inuse := (slab.inuse + 1) % 2 ^ 32 }

/-- The list moves of `qd_slab_alloc_internal`; the slab is the one after `inuse++`. -/
def allocMove (lists : SlabLists) (address : Nat) (slab : Slab) : Option SlabLists :=
  if slab.inuse = 1 ∧ lists.first .slabsPartial ≠ some address then
    slabListMove lists .slabsEmpty .slabsPartial address
  else if slab.inuse = slab.total then slabListMove lists .slabsPartial .slabsFull address
  else some lists

/-- The part of `qd_slab_alloc_internal` that takes an object from a slab. -/
def allocFrom (space : Space) (address : Nat) : Option (SlabCache × Space × Nat) := do
  let obj := (cache.slab address).freelist
  let next ← space.loadWord obj
  let slab := (cache.slab address).pop next
  let lists ← allocMove cache.lists address slab
  let space ← fillIf cache 0x01 space obj 0
  some ({ cache with
    lists := lists
    slab := update cache.slab address slab
    allocs := wordAdd cache.allocs 1 }, space, obj)

/-- `qd_slab_alloc_internal`; `mmap` returns an address or fails.  The object comes
with its slab. -/
def slabAlloc (space : Space) (mmap : Option Nat) :
    Option (SlabCache × Space × Option (Nat × Nat)) :=
  match cache.lists.first .slabsPartial <|> cache.lists.first .slabsEmpty with
  | some slab =>
      (allocFrom cache space slab).map fun (cache, space, obj) => (cache, space, some (obj, slab))
  | none =>
      match mmap with
      | none => some (cache, space, none)
      | some mem => do
          let (cache, space) ← slabCreate cache space mem
          let lists ← slabListAdd cache.lists .slabsEmpty mem
          let (cache, space, obj) ← allocFrom { cache with lists := lists } space mem
          some (cache, space, some (obj, mem))

/-! ## Release -/

/-- An object is put on the free list. -/
def Slab.push (slab : Slab) (ptr : Nat) : Slab :=
  { slab with freelist := ptr, inuse := (slab.inuse + (2 ^ 32 - 1)) % 2 ^ 32 }

/-- The list moves of `slab_free_locked`; the slab is the one after `inuse--`. -/
def freeMove (lists : SlabLists) (address : Nat) (slab : Slab) : Option SlabLists :=
  if slab.inuse = 0 then slabListMove lists .slabsPartial .slabsEmpty address
  else if slab.inuse = (slab.total + (2 ^ 32 - 1)) % 2 ^ 32 then
    slabListMove lists .slabsFull .slabsPartial address
  else some lists

/-- `slab_free_locked`. -/
def slabFreeLocked (space : Space) (address ptr : Nat) : Option (SlabCache × Space) := do
  let space ← fillIf cache 0x04 space ptr 0xDE
  let space ← space.storeWord ptr (cache.slab address).freelist
  let slab := (cache.slab address).push ptr
  let lists ← freeMove cache.lists address slab
  some ({ cache with
    lists := lists
    slab := update cache.slab address slab
    frees := wordAdd cache.frees 1 }, space)

/-- The condition of the loops of `slab_find_by_ptr`. -/
def slabFound (ptr slab : Nat) : Bool :=
  let base := (cache.slab slab).base
  ptr ≥ base && ptr < wordAdd base cache.slabSize && slabPtrMatches cache slab ptr

/-- `slab_find_by_ptr`. -/
def slabFindByPtr (ptr rounds : Nat) : Option (Option Nat) := do
  let search (list : SlabList) :=
    cache.lists.find (slabFound cache ptr) rounds (cache.lists.first list)
  let full ← search .slabsFull
  if full.isSome then some full
  else
    let part ← search .slabsPartial
    if part.isSome then some part else search .slabsEmpty

/-- `slab_free_checked`; the result says whether the object was released. -/
def slabFree (space : Space) (ptr rounds : Nat) : Option (SlabCache × Space × Bool) :=
  if ptr = 0 then some (cache, space, false)
  else
    (slabFindByPtr cache ptr rounds).bind fun
      | none => some (cache, space, false)
      | some slab =>
          (slabFreeLocked cache space slab ptr).map fun (cache, space) => (cache, space, true)

/-- `qd_slab_cache_shrink`: the loop over the empty slabs, which counts them. -/
def shrinkFrom : Nat → SlabCache → Space → Option Nat → Nat → Option (SlabCache × Space × Nat)
  | 0, _, _, _, _ => none
  | _ + 1, cache, space, none, freed => some (cache, space, freed)
  | rounds + 1, cache, space, some slab, freed => do
      let next ← cache.lists.load (.next slab)
      let lists ← slabListRemove cache.lists .slabsEmpty slab
      shrinkFrom rounds { cache with lists := lists.free slab } (space.unmap (cache.region slab))
        next (freed + 1)

def slabCacheShrink (space : Space) (rounds : Nat) : Option (SlabCache × Space × Nat) :=
  shrinkFrom rounds cache space (cache.lists.first .slabsEmpty) 0

/-! ## Calls -/

/-- A cache, the memory, and the objects that are allocated. -/
structure CacheState where
  cache : SlabCache
  space : Space
  allocated : List Nat

/-- A call with what it meets, or a write to an object by its owner. -/
inductive CacheCall
  | alloc (mmap : Option Nat)
  | free (ptr rounds : Nat)
  | shrink (rounds : Nat)
  | write (ptr offset : Nat) (data : List Byte)

/-- One call that returns. -/
def cacheStep (state : CacheState) : CacheCall → Option CacheState
  | .alloc mmap =>
      (slabAlloc state.cache state.space mmap).map fun (cache, space, result) =>
        ⟨cache, space, (result.map Prod.fst).toList ++ state.allocated⟩
  | .free ptr rounds =>
      if ptr ∈ state.allocated then
        (slabFree state.cache state.space ptr rounds).map fun (cache, space, _) =>
          ⟨cache, space, state.allocated.erase ptr⟩
      else none
  | .shrink rounds =>
      (slabCacheShrink state.cache state.space rounds).map fun (cache, space, _) =>
        { state with cache := cache, space := space }
  | .write ptr offset data =>
      if ptr ∈ state.allocated ∧ offset + data.length ≤ state.cache.objSize then
        (state.space.write (ptr + offset) data).map fun space => { state with space := space }
      else none

/-- The sizes that a cache can serve: the rounded size does not come out below a
pointer, and neither four objects nor the slab with its header wrap. -/
def Served (size align : Nat) : Prop :=
  8 ≤ wordAlign (max size 8) (max align 8) ∧
    (wordAlign (max size 8) (max align 8) ≤ 1024 ∨
      wordAlign (max size 8) (max align 8) * 4 + 48 < 2 ^ 64)

end QDaemon.Memory
