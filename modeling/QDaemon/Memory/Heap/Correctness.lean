import QDaemon.Memory.Heap.Calls
import QDaemon.Memory.Slab.Correctness

/-!
# The general allocator is a heap

Live blocks are mapped and do not overlap, and hold what their owners have put there.
A reallocation keeps the common part; if it fails, the old block stays, unless the size
is zero, which is a way to free the block.
-/

namespace QDaemon.Memory

open Option List Bits Bytes Transition

variable {state : HeapState} {ledger ledgerAfter : Ledger} {after : Heap} {block : Block}

/-- A live block is in place and holds its data. -/
structure Kept (heap : Heap) (ledger : Ledger) (block : Block) : Prop where
  positive : 0 < block.data.length
  headed : ∃ base origin, block.ptr = base + 32 ∧
    Headed heap ledger base block.data.length origin
  data : contents heap.space.bytes block.region = block.data

/-- The invariant of the calls. -/
structure Owned (state : HeapState) (ledger : Ledger) : Prop where
  sound : Sound state.heap ledger
  nodup : (state.blocks.map Block.ptr).Nodup
  kept : ∀ block ∈ state.blocks, Kept state.heap ledger block

variable {heap : Heap}
variable {result : Option Nat} {base offset : Nat}

theorem Kept.keep {except : Option Nat} (kept : Kept heap ledger block)
    (keeps : Keeps heap ledger after ledgerAfter except)
    (other : ∀ base, block.ptr = base + 32 → except ≠ some base) :
    Kept after ledgerAfter block := by
  obtain ⟨base, origin, ptrEq, headed⟩ := kept.headed
  refine ⟨kept.positive, ⟨base, origin, ptrEq, headed.kept keeps (other base ptrEq)⟩, ?_⟩
  have same := keeps.contents_eq (other base ptrEq) headed.placed le_rfl
  rw [← ptrEq] at same
  exact same.trans kept.data

variable {size : Nat}

namespace Owned

variable {blocks : List Block}

/-- A new block beside those that are left. -/
theorem add {rest : List Block} {origin : Origin} (owned : Owned ⟨heap, blocks⟩ ledger)
    (sound : Sound after ledgerAfter) (positive : 0 < size)
    (headed : Headed after ledgerAfter base size origin)
    (fresh : ∀ other otherSize otherOrigin, Placed heap ledger other otherSize otherOrigin →
      other ≠ base) (nodup : (rest.map Block.ptr).Nodup) (subset : ∀ block ∈ rest, block ∈ blocks)
    (kept : ∀ block ∈ rest, Kept after ledgerAfter block) :
    Owned ⟨after, granted after size (some (base + 32)) ++ rest⟩ ledgerAfter := by
  refine ⟨sound, ?_, ?_⟩
  · refine nodup_cons.mpr ⟨?_, nodup⟩
    intro mem
    obtain ⟨block, blockMem, ptrEq⟩ := mem_map.mp mem
    obtain ⟨other, otherOrigin, otherEq, otherHeaded⟩ :=
      (owned.kept block (subset block blockMem)).headed
    apply fresh other _ otherOrigin otherHeaded.placed
    exact Nat.add_right_cancel (otherEq.symm.trans ptrEq)
  · intro block mem
    rcases mem_cons.mp mem with rfl | old
    · have length := length_contents after.space.bytes ⟨base + 32, size⟩
      refine ⟨by rw [length]; exact positive, ⟨base, origin, rfl, by rw [length]; exact headed⟩, ?_⟩
      rw [Block.region, length]
    · exact kept block old

/-- The blocks after a call that only adds one. -/
theorem deliver (owned : Owned ⟨heap, blocks⟩ ledger)
    (delivered : Delivered heap ledger after ledgerAfter size result) :
    Owned ⟨after, granted after size result ++ blocks⟩ ledgerAfter := by
  have kept : ∀ block ∈ blocks, Kept after ledgerAfter block := fun block mem =>
    (owned.kept block mem).keep delivered.keeps (by simp)
  cases result with
  | none => exact ⟨delivered.sound, owned.nodup, kept⟩
  | some ptr =>
    obtain ⟨positive, base, origin, rfl, headed, fresh⟩ := delivered.block ptr rfl
    exact owned.add delivered.sound positive headed fresh owned.nodup (fun _ mem => mem) kept

variable {ptr : Option Nat}

theorem without_nodup (nodup : (blocks.map Block.ptr).Nodup) :
    ((without ptr blocks).map Block.ptr).Nodup :=
  nodup.sublist (filter_sublist.map Block.ptr)

theorem mem_without : block ∈ without ptr blocks ↔ block ∈ blocks ∧ some block.ptr ≠ ptr := by
  simp [without]

theorem kept_without (owned : Owned ⟨heap, blocks⟩ ledger)
    (keeps : Keeps heap ledger after ledgerAfter (some base)) :
    ∀ block ∈ without (some (base + 32)) blocks, Kept after ledgerAfter block := by
  intro block mem
  obtain ⟨old, different⟩ := mem_without.mp mem
  apply (owned.kept block old).keep keeps
  rintro other ptrEq same
  rw [ptrEq, some.inj same] at different
  exact different rfl

/-- The block at a pointer that may be passed to `qd_free`. -/
theorem headed_of_live (owned : Owned state ledger) {ptr : Nat}
    (live : LivePtr state.blocks (some ptr)) :
    ∃ block ∈ state.blocks, block.ptr = ptr ∧ ∃ base origin, ptr = base + 32 ∧
      Headed state.heap ledger base block.data.length origin := by
  obtain ⟨block, mem, ptrEq⟩ := live ptr rfl
  obtain ⟨base, origin, baseEq, headed⟩ := (owned.kept block mem).headed
  exact ⟨block, mem, ptrEq, base, origin, ptrEq.symm.trans baseEq, headed⟩

theorem free (owned : Owned state ledger) (live : LivePtr state.blocks ptr) :
    ∃ after ledgerAfter, qdFree state.heap ptr = some after ∧
      Owned ⟨after, without ptr state.blocks⟩ ledgerAfter := by
  cases ptr with
  | none =>
    have same : without none state.blocks = state.blocks := by
      apply filter_eq_self.mpr
      simp
    exact ⟨state.heap, ledger, rfl, by rw [same]; exact owned⟩
  | some ptr =>
    obtain ⟨block, mem, ptrEq, base, origin, rfl, headed⟩ := owned.headed_of_live live
    obtain ⟨after, ledgerAfter, freeEq, sound, keeps⟩ := qdFree_spec owned.sound headed
    exact ⟨after, ledgerAfter, freeEq, sound, without_nodup owned.nodup, owned.kept_without keeps⟩

end Owned

/-! ## Writes of the owners -/

variable {data : List Byte}

theorem length_splice {old : List Byte} (inside : offset + data.length ≤ old.length) :
    (splice old offset data).length = old.length := by
  simp only [splice, length_append, length_take, length_drop]
  omega

theorem contents_splice {bytes : Nat → Byte} {start length : Nat}
    (inside : offset + data.length ≤ length) :
    contents (overwrite bytes (start + offset) data) ⟨start, length⟩ =
      splice (contents bytes ⟨start, length⟩) offset data := by
  apply ext_getElem
  · rw [length_splice (by rwa [length_contents]), length_contents, length_contents]
  · intro index bound _
    simp only [contents, overwrite, splice, getElem_map, getElem_range]
    by_cases before : index < offset
    · rw [if_neg (by omega), getElem_append_left (by simp; omega),
        getElem_append_left (by simp; omega)]
      simp
    · rw [if_pos (by omega)]
      by_cases within : index < offset + data.length
      · rw [getElem_append_left (by simp; omega), getElem_append_right (by simp; omega)]
        have position : start + index - (start + offset) = index - offset := by omega
        have cut : min offset length = offset := by omega
        simp only [position, length_take, length_map, length_range, cut]
        rw [List.getElem?_eq_getElem (by omega), getD_some]
      · rw [List.getElem?_eq_none (by omega), getD_none, getElem_append_right (by simp; omega)]
        simp only [getElem_drop, getElem_map, getElem_range]
        congr 2
        simp only [length_append, length_take, length_map, length_range]
        omega

theorem Owned.write {ptr : Nat} {memory : Space} (owned : Owned state ledger)
    (mem : block ∈ state.blocks) (ptrEq : block.ptr = ptr)
    (inside : offset + data.length ≤ block.data.length)
    (written : state.heap.space.write (ptr + offset) data = some memory) :
    Owned ⟨{ state.heap with space := memory }, state.blocks.map fun block =>
      if block.ptr = ptr then { block with data := splice block.data offset data } else block⟩
      ledger := by
  obtain ⟨base, origin, baseEq, headed⟩ := (owned.kept block mem).headed
  obtain ⟨regions, bytes⟩ := Space.of_write written
  have ptrBase : ptr = base + 32 := ptrEq.symm.trans baseEq
  have outside : ∀ byte, ¬ Region.Contains ⟨base + 32, block.data.length⟩ byte →
      memory.bytes byte = state.heap.space.bytes byte := by
    intro byte notInside
    rw [bytes, overwrite_of_not_contains]
    rintro ⟨lower, upper⟩
    apply notInside
    simp only [Region.Contains] at lower upper ⊢
    omega
  obtain ⟨sound, keeps, headedAfter⟩ := owned.sound.fill headed regions outside
  have unique : ∀ other ∈ state.blocks, other.ptr = ptr → other = block := fun other otherMem same =>
    inj_on_of_nodup_map owned.nodup otherMem mem (same.trans ptrEq.symm)
  refine ⟨sound, ?_, ?_⟩
  · have samePtrs : (state.blocks.map fun block =>
        if block.ptr = ptr then { block with data := splice block.data offset data }
        else block).map Block.ptr = state.blocks.map Block.ptr := by
      rw [List.map_map]
      apply map_congr_left
      intro other _
      simp only [Function.comp_apply]
      split <;> rfl
    rw [samePtrs]
    exact owned.nodup
  · intro changed changedMem
    obtain ⟨other, otherMem, rfl⟩ := mem_map.mp changedMem
    split
    next same =>
      obtain rfl := unique other otherMem same
      have length := length_splice inside
      refine ⟨?_, ⟨base, origin, baseEq, ?_⟩, ?_⟩
      · rw [length]
        exact (owned.kept other mem).positive
      · rw [length]
        exact headedAfter
      · change contents memory.bytes ⟨other.ptr, (splice other.data offset data).length⟩ = _
        rw [bytes, length, ← ptrEq, contents_splice inside]
        exact congrArg (fun old => splice old offset data) (owned.kept other mem).data
    next different =>
      apply (owned.kept other otherMem).keep keeps
      intro otherBase otherEq same
      apply different
      rw [otherEq, ptrBase, some.inj same]

/-! ## Runs -/

theorem owned_initial (space : Space) : Owned (HeapState.initial space) .blank where
  sound := {
    arena := .of_tenants (fun _ _ found => absurd found (by simp [HeapState.initial]))
      fun on => absurd on (by simp [HeapState.initial])
    pristine := fun _ => ⟨rfl, rfl, fun _ => rfl, rfl⟩ }
  nodup := nodup_nil
  kept := fun _ mem => absurd mem not_mem_nil

/-- Blocks at different addresses do not overlap. -/
theorem Owned.pairwise (owned : Owned state ledger) :
    state.blocks.Pairwise fun block other => block.region.Apart other.region := by
  have different := pairwise_map.mp owned.nodup
  apply different.imp_of_mem
  intro block other mem otherMem distinct
  obtain ⟨base, origin, ptrEq, headed⟩ := (owned.kept block mem).headed
  obtain ⟨otherBase, otherOrigin, otherEq, otherHeaded⟩ := (owned.kept other otherMem).headed
  have apart := owned.sound.arena.placed_apart headed.placed otherHeaded.placed fun same =>
    distinct (by rw [ptrEq, otherEq, same])
  have inner := (apart.of_covers (chunk_covers_data base _)).symm.of_covers
    (chunk_covers_data otherBase _)
  rw [← ptrEq, ← otherEq] at inner
  exact inner.symm

/-! ## Calls -/

/-- The call keeps to the rules: pointers are live, products do not wrap, and the
system returns fresh regions. -/
def Permitted (state : HeapState) : HeapCall → Prop
  | .malloc size supply => supply.Honest state.heap size
  | .calloc nmemb size supply => nmemb * size < 2 ^ 64 ∧ supply.Honest state.heap (nmemb * size)
  | .realloc ptr size supply => LivePtr state.blocks ptr ∧ supply.Honest state.heap size
  | .free ptr => LivePtr state.blocks ptr
  | .write ptr offset data =>
      ∃ block ∈ state.blocks, block.ptr = ptr ∧ offset + data.length ≤ block.data.length

/-- The blocks after a call, by its result. -/
def Effect (state : HeapState) (after : HeapState) (result : Option Nat) : HeapCall → Prop
  | .malloc size _ =>
      (result = none → after.blocks = state.blocks) ∧
      ∀ ptr ∈ result, ∃ data, data.length = size ∧ after.blocks = ⟨ptr, data⟩ :: state.blocks
  | .calloc nmemb size _ =>
      (result = none → after.blocks = state.blocks) ∧
      ∀ ptr ∈ result, after.blocks = ⟨ptr, List.replicate (nmemb * size) 0⟩ :: state.blocks
  | .realloc ptr size _ =>
      (result = none → size ≠ 0 → after.blocks = state.blocks) ∧
      (size = 0 → after.blocks = without ptr state.blocks) ∧
      ∀ new ∈ result, ∃ data, data.length = size ∧
        after.blocks = ⟨new, data⟩ :: without ptr state.blocks ∧
        ∀ block ∈ state.blocks, ptr = some block.ptr →
          data.take (min block.data.length size) = block.data.take (min block.data.length size)
  | .free ptr => after.blocks = without ptr state.blocks
  | .write ptr offset data =>
      after.blocks = state.blocks.map fun block =>
        if block.ptr = ptr then { block with data := splice block.data offset data } else block

/-- What is shown of every call. -/
def Keeping (state : HeapState) (call : HeapCall) (next : HeapState × Option Nat) : Prop :=
  (∃ ledgerAfter, Owned next.1 ledgerAfter) ∧ Effect state next.1 next.2 call

/-- A reallocation moves a block or leaves it. -/
theorem Owned.realloc_yields {ptr : Option Nat} {supply : Supply} (owned : Owned state ledger)
    (live : LivePtr state.blocks ptr) :
    Yields (qdRealloc state.heap ptr size supply) (supply.Honest state.heap size)
      fun (after, result) => Keeping state (.realloc ptr size supply) (⟨after,
        granted after size result ++
          if size = 0 ∨ result.isSome then without ptr state.blocks else state.blocks⟩, result) := by
  cases ptr with
  | none =>
    have same : without none state.blocks = state.blocks := by
      apply filter_eq_self.mpr
      simp
    refine (qdMalloc_yields owned.sound).mono (fun honest => honest) ?_
    rintro ⟨after, result⟩ ⟨ledgerAfter, delivered⟩
    simp only [Keeping, Effect, same, ite_self]
    refine ⟨⟨ledgerAfter, owned.deliver delivered⟩, ?_, ?_, ?_⟩
    · rintro rfl _
      rfl
    · rintro rfl
      cases result with
      | none => rfl
      | some ptr => exact absurd (delivered.block ptr rfl).1 (Nat.lt_irrefl 0)
    · rintro new ⟨⟩
      exact ⟨_, length_contents _ _, rfl, fun _ _ absent => absurd absent (by simp)⟩
  | some ptr =>
    by_cases zero : size = 0
    · obtain ⟨after, ledgerAfter, freeEq, ownedAfter⟩ := owned.free live
      simp only [qdRealloc, if_pos zero, freeEq, map_some]
      refine .pure ⟨⟨ledgerAfter, ?_⟩, fun _ nonzero => absurd zero nonzero, fun _ => ?_, by simp⟩
      · rw [if_pos (.inl zero)]
        exact ownedAfter
      · simp [granted, zero]
    · obtain ⟨block, mem, ptrEq, base, origin, rfl, headed⟩ := owned.headed_of_live live
      refine (qdRealloc_yields owned.sound headed zero).mono (fun honest => honest) ?_
      rintro ⟨after, result⟩ (⟨rfl, ledgerAfter, delivered⟩ | ⟨new, ledgerAfter, rfl, resized⟩)
      · simp only [Keeping, zero, isSome_none, Bool.false_eq_true, or_false, if_false]
        exact ⟨⟨ledgerAfter, owned.deliver delivered⟩, fun _ _ => rfl, fun isZero =>
          absurd isZero zero, by simp⟩
      · obtain ⟨newBase, newOrigin, rfl, newHeaded, fresh⟩ := resized.block
        simp only [Keeping, isSome_some, or_true, if_true]
        refine ⟨⟨ledgerAfter, owned.add resized.sound resized.positive newHeaded fresh
          (Owned.without_nodup owned.nodup) ?_ (owned.kept_without resized.keeps)⟩,
          by simp, fun isZero => absurd isZero zero, ?_⟩
        · intro other otherMem
          exact (Owned.mem_without.mp otherMem).1
        · rintro _ ⟨⟩
          refine ⟨_, length_contents _ _, rfl, ?_⟩
          rintro other otherMem same
          obtain rfl := inj_on_of_nodup_map owned.nodup otherMem mem
            ((some.inj same).symm.trans ptrEq.symm)
          rw [contents_take (Nat.min_le_right _ _), resized.copied,
            ← contents_take (Nat.min_le_left _ size), ← ptrEq]
          exact congrArg _ (owned.kept other mem).data

variable {call : HeapCall}

theorem Owned.call_yields (owned : Owned state ledger) :
    Yields (heapCall state call) (Permitted state call) (Keeping state call) := by
  cases call with rw [heapCall]
  | malloc size supply =>
    refine .map ((qdMalloc_yields owned.sound).mono (fun honest => honest) ?_)
    rintro ⟨after, result⟩ ⟨ledgerAfter, delivered⟩
    refine ⟨⟨ledgerAfter, owned.deliver delivered⟩, ?_, ?_⟩
    · rintro rfl
      rfl
    · rintro ptr ⟨⟩
      exact ⟨_, length_contents _ _, rfl⟩
  | calloc nmemb size supply =>
    split
    next exact =>
      refine .map ((qdCalloc_yields owned.sound exact).mono And.right ?_)
      rintro ⟨after, result⟩ ⟨ledgerAfter, delivered, zeros⟩
      refine ⟨⟨ledgerAfter, owned.deliver delivered⟩, ?_, ?_⟩
      · rintro rfl
        rfl
      · rintro ptr ⟨⟩
        simp only [granted, toList_some, map_cons, zeros ptr rfl]
        rfl
    next wraps => exact .stuck fun permitted => wraps permitted.1
  | realloc ptr size supply =>
    split
    next live => exact .map ((owned.realloc_yields live).when And.right)
    next dead => exact .stuck fun permitted => dead permitted.1
  | free ptr =>
    split
    next live =>
      obtain ⟨after, ledgerAfter, freeEq, ownedAfter⟩ := owned.free live
      rw [freeEq]
      exact .pure ⟨⟨ledgerAfter, ownedAfter⟩, rfl⟩
    next dead => exact .stuck dead
  | write ptr offset data =>
    split
    next owner =>
      obtain ⟨block, mem, rfl, inside⟩ := owner
      obtain ⟨base, origin, ptrEq, headed⟩ := (owned.kept block mem).headed
      have accessible := (headed.data_accessible owned.sound.arena le_rfl).of_covers
        (show Region.Covers ⟨base + 32, block.data.length⟩ ⟨block.ptr + offset, data.length⟩ by
          simp only [Region.Covers]
          omega)
      obtain ⟨memory, written, -⟩ := Space.write_spec accessible
      rw [written]
      exact .pure ⟨⟨ledger, owned.write mem rfl inside written⟩, rfl⟩
    next outside => exact .stuck outside

/-- After any calls, the live blocks are mapped, hold their data and do not overlap;
a call that keeps to the rules returns, and has its effect on the blocks. -/
theorem heap_correct {space : Space} {state : HeapState}
    (run : Reachable heapStep (HeapState.initial space) state) :
    (∀ block ∈ state.blocks, state.heap.space.Accessible block.region ∧
      contents state.heap.space.bytes block.region = block.data) ∧
      (state.blocks.Pairwise fun block other => block.region.Apart other.region) ∧
      (∀ call, Permitted state call → (heapCall state call).isSome) ∧
      ∀ call after result, heapCall state call = some (after, result) →
        Effect state after result call := by
  obtain ⟨ledger, owned⟩ : ∃ ledger, Owned state ledger := by
    apply run.invariant (fun state => ∃ ledger, Owned state ledger) ⟨_, owned_initial space⟩
    rintro before call later ⟨ledger, owned⟩ - stepEq
    obtain ⟨next, callEq, rfl⟩ := map_eq_some_iff.mp stepEq
    exact (owned.call_yields.good callEq).1
  refine ⟨?_, owned.pairwise, fun _ => owned.call_yields.returns, fun _ _ _ called =>
    (owned.call_yields.good called).2⟩
  intro block mem
  have kept := owned.kept block mem
  obtain ⟨base, origin, ptrEq, headed⟩ := kept.headed
  refine ⟨?_, kept.data⟩
  rw [Block.region, ptrEq]
  exact headed.data_accessible owned.sound.arena le_rfl

/-- The caches get memory, and a slab is mapped at the address. -/
def slabSupply (mmap : Option Nat) : Supply where
  callocs := fun index => if index < 12 then some (65536 + 256 * index) else none
  mmap := mmap
  malloc := none
  fill := fun _ => 0

/-- Only `malloc` has memory, which is filled with other data. -/
def systemSupply (base : Nat) : Supply where
  callocs := fun _ => none
  mmap := none
  malloc := some base
  fill := fun _ => 7

/-- A block in a slab is written to and moves to `malloc` when it grows; then another
one is freed and handed out again, cleared. -/
def growingBlock : List HeapCall :=
  [.malloc 600 (slabSupply (some 8192)), .write 11344 1 [5, 6], .malloc 700 (slabSupply none),
    .realloc (some 11344) 2000 (systemSupply 32768), .free (some 10320),
    .calloc 2 400 (slabSupply none)]

theorem heap_correct_growingBlock :
    ∃ state, exec heapStep (HeapState.initial emptySpace) growingBlock = some state ∧
      (state.blocks.map fun block => (block.ptr, block.data.take 4)) =
        [(10320, [0, 0, 0, 0]), (32800, [0, 5, 6, 0])] ∧
      ∀ block ∈ state.blocks, contents state.heap.space.bytes block.region = block.data := by
  refine exists_exec (fun state => (state.blocks.map fun block => (block.ptr, block.data.take 4)) =
    [(10320, [0, 0, 0, 0]), (32800, [0, 5, 6, 0])]) (by decide +kernel) ?_
  intro state stateEq facts
  obtain ⟨blocks, -, -, -⟩ := heap_correct (reachable_of_exec stateEq)
  exact ⟨facts, fun block mem => (blocks block mem).2⟩

/-- A reallocation to size zero returns `NULL`, and the old block is not mapped any
more. -/
theorem realloc_zero_frees :
    ∃ state after, exec heapStep (HeapState.initial emptySpace) [.malloc 8 (systemSupply 4096)] =
        some state ∧
      heapCall state (.realloc (some 4128) 0 (systemSupply 8192)) = some (after, none) ∧
      ∃ block ∈ state.blocks, block.ptr = 4128 ∧ ¬ after.heap.space.Accessible block.region := by
  have outcome : (exec heapStep (HeapState.initial emptySpace)
      [.malloc 8 (systemSupply 4096)]).bind (fun state =>
        (heapCall state (.realloc (some 4128) 0 (systemSupply 8192))).map fun next =>
          decide (next.2 = none ∧ ∃ block ∈ state.blocks, block.ptr = 4128 ∧
            ¬ next.1.heap.space.Accessible block.region)) = some true := by
    decide +kernel
  obtain ⟨state, stateEq, rest⟩ := bind_eq_some_iff.mp outcome
  obtain ⟨⟨after, result⟩, callEq, facts⟩ := map_eq_some_iff.mp rest
  obtain ⟨rfl, block⟩ := of_decide_eq_true facts
  exact ⟨state, after, stateEq, callEq, block⟩

end QDaemon.Memory
