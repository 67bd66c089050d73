import QDaemon.Bytes.LittleEndian
import QDaemon.Transition.Partial
import Mathlib.Data.List.Pairwise

/-!
# Address spaces

A space has a byte at each address, and regions that are mapped.  The regions do
not overlap, and neither the null address nor the last one belongs to them.  Only
addresses in a region can be accessed.
-/

namespace QDaemon.Bytes

open Option List Transition

/-- A range of addresses. -/
structure Region where
  start : Nat
  length : Nat
  deriving DecidableEq

namespace Region

/-- The region contains an address. -/
def Contains (region : Region) (address : Nat) : Prop :=
  region.start ≤ address ∧ address < region.start + region.length

/-- The other region is a part of the region. -/
def Covers (region other : Region) : Prop :=
  region.start ≤ other.start ∧ other.start + other.length ≤ region.start + region.length

/-- The regions do not overlap. -/
def Apart (region other : Region) : Prop :=
  region.start + region.length ≤ other.start ∨ other.start + other.length ≤ region.start

instance (region : Region) (address : Nat) : Decidable (region.Contains address) :=
  inferInstanceAs (Decidable (_ ∧ _))

instance (region other : Region) : Decidable (region.Covers other) :=
  inferInstanceAs (Decidable (_ ∧ _))

instance (region other : Region) : Decidable (region.Apart other) :=
  inferInstanceAs (Decidable (_ ∨ _))

variable {region other part : Region} {address : Nat}

theorem Apart.symm (apart : region.Apart other) : other.Apart region := Or.symm apart

instance : Std.Symm Apart :=
  ⟨fun _ _ => Apart.symm⟩

theorem Apart.of_covers (apart : region.Apart other) (covers : region.Covers part) :
    part.Apart other := by
  rcases apart with before | behind
  · exact .inl (Nat.le_trans covers.2 before)
  · exact .inr (Nat.le_trans behind covers.1)

theorem Apart.not_contains (apart : region.Apart other) (inside : region.Contains address) :
    ¬ other.Contains address := by
  rintro ⟨lower, upper⟩
  rcases apart with before | behind
  · exact Nat.lt_irrefl _ (Nat.lt_of_lt_of_le inside.2 (Nat.le_trans before lower))
  · exact Nat.lt_irrefl _ (Nat.lt_of_lt_of_le upper (Nat.le_trans behind inside.1))

theorem Covers.contains (covers : region.Covers part) (inside : part.Contains address) :
    region.Contains address :=
  ⟨Nat.le_trans covers.1 inside.1, Nat.lt_of_lt_of_le inside.2 covers.2⟩

theorem Covers.trans (covers : region.Covers other) (inner : other.Covers part) :
    region.Covers part :=
  ⟨Nat.le_trans covers.1 inner.1, Nat.le_trans inner.2 covers.2⟩

/-- The null address and the one behind the last one are outside. -/
structure Valid (region : Region) : Prop where
  nonnull : 0 < region.start
  nonempty : 0 < region.length
  bounded : region.start + region.length < 2 ^ 64

end Region

/-! ## Contents -/

/-- The bytes of a region. -/
def contents (bytes : Nat → Byte) (region : Region) : List Byte :=
  (List.range region.length).map fun offset => bytes (region.start + offset)

/-- Assign to the bytes from an address on. -/
def overwrite (bytes : Nat → Byte) (start : Nat) (data : List Byte) (address : Nat) : Byte :=
  if start ≤ address then data[address - start]?.getD (bytes address) else bytes address

/-- The 64-bit word at an address. -/
def wordAt (bytes : Nat → Byte) (address : Nat) : Nat :=
  decode (contents bytes ⟨address, 8⟩)

variable {bytes after : Nat → Byte} {start address : Nat} {data : List Byte} {region : Region}

@[simp]
theorem length_contents (bytes : Nat → Byte) (region : Region) :
    (contents bytes region).length = region.length := by
  rw [contents, length_map, length_range]

theorem contents_congr (same : ∀ address, region.Contains address → after address = bytes address) :
    contents after region = contents bytes region := by
  apply map_congr_left
  intro offset mem
  have bound := mem_range.mp mem
  exact same _ ⟨Nat.le_add_right _ _, Nat.add_lt_add_left bound _⟩

theorem overwrite_of_not_contains (outside : ¬ Region.Contains ⟨start, data.length⟩ address) :
    overwrite bytes start data address = bytes address := by
  rw [overwrite]
  split
  next above =>
    rw [List.getElem?_eq_none, getD_none]
    by_contra short
    exact outside ⟨above, by change address < start + data.length; omega⟩
  · rfl

theorem contents_overwrite_self (bytes : Nat → Byte) (start : Nat) (data : List Byte) :
    contents (overwrite bytes start data) ⟨start, data.length⟩ = data := by
  apply ext_getElem
  · rw [length_contents]
  · intro index inside bound
    simp [contents, overwrite, bound]

theorem contents_overwrite_apart (apart : Region.Apart ⟨start, data.length⟩ region) :
    contents (overwrite bytes start data) region = contents bytes region :=
  contents_congr fun _ inside => overwrite_of_not_contains (apart.symm.not_contains inside)

theorem wordAt_overwrite_self {value : Nat} (word : value < 2 ^ 64) :
    wordAt (overwrite bytes address (encode 8 value)) address = value := by
  have written := contents_overwrite_self bytes address (encode 8 value)
  rw [length_encode] at written
  rw [wordAt, written, decode_encode]
  exact Nat.mod_eq_of_lt word

/-! ## Spaces -/

/-- The memory of a process. -/
structure Space where
  bytes : Nat → Byte
  regions : List Region
  apart : regions.Pairwise Region.Apart
  valid : ∀ region ∈ regions, region.Valid

namespace Space

/-- All addresses of the region can be accessed. -/
def Accessible (space : Space) (region : Region) : Prop :=
  ∃ outer ∈ space.regions, outer.Covers region

/-- The region can be mapped. -/
def Fresh (space : Space) (region : Region) : Prop :=
  (0 < region.start ∧ 0 < region.length ∧ region.start + region.length < 2 ^ 64) ∧
    ∀ other ∈ space.regions, region.Apart other

instance (space : Space) (region : Region) : Decidable (space.Accessible region) :=
  inferInstanceAs (Decidable (∃ outer ∈ space.regions, outer.Covers region))

instance (space : Space) (region : Region) : Decidable (space.Fresh region) :=
  inferInstanceAs (Decidable (_ ∧ _))

/-- Map a region with given contents. -/
def map (space : Space) (region : Region) (fill : Nat → Byte) : Option Space :=
  if fresh : space.Fresh region then
    some {
      bytes := fun address => if region.Contains address then fill address else space.bytes address
      regions := region :: space.regions
      apart := pairwise_cons.mpr ⟨fresh.2, space.apart⟩
      valid := forall_mem_cons.mpr
        ⟨⟨fresh.1.1, fresh.1.2.1, fresh.1.2.2⟩, space.valid⟩ }
  else none

/-- Remove a region. -/
def unmap (space : Space) (region : Region) : Space where
  bytes := space.bytes
  regions := space.regions.erase region
  apart := space.apart.sublist erase_sublist
  valid := fun other mem => space.valid other (mem_of_mem_erase mem)

/-- Read the bytes of a region. -/
def read (space : Space) (region : Region) : Option (List Byte) :=
  if space.Accessible region then some (contents space.bytes region) else none

/-- Write bytes from an address on. -/
def write (space : Space) (start : Nat) (data : List Byte) : Option Space :=
  if space.Accessible ⟨start, data.length⟩ then
    some { space with bytes := overwrite space.bytes start data }
  else none

def loadWord (space : Space) (address : Nat) : Option Nat :=
  (space.read ⟨address, 8⟩).map decode

def storeWord (space : Space) (address value : Nat) : Option Space :=
  space.write address (encode 8 value)

def memset (space : Space) (start length : Nat) (byte : Byte) : Option Space :=
  space.write start (List.replicate length byte)

variable {space : Space} {other : Region}

theorem read_eq (accessible : space.Accessible region) :
    space.read region = some (contents space.bytes region) :=
  if_pos accessible

theorem write_spec (accessible : space.Accessible ⟨start, data.length⟩) :
    ∃ memory, space.write start data = some memory ∧ memory.regions = space.regions ∧
      memory.bytes = overwrite space.bytes start data :=
  ⟨_, if_pos accessible, rfl, rfl⟩

theorem of_write {memory : Space} (written : space.write start data = some memory) :
    memory.regions = space.regions ∧ memory.bytes = overwrite space.bytes start data := by
  rw [write] at written
  split at written
  · cases written
    exact ⟨rfl, rfl⟩
  · cases written

theorem loadWord_eq (accessible : space.Accessible ⟨address, 8⟩) :
    space.loadWord address = some (wordAt space.bytes address) := by
  rw [loadWord, read_eq accessible, map_some, wordAt]

theorem storeWord_spec (value : Nat) (accessible : space.Accessible ⟨address, 8⟩) :
    ∃ memory, space.storeWord address value = some memory ∧ memory.regions = space.regions ∧
      memory.bytes = overwrite space.bytes address (encode 8 value) := by
  apply write_spec
  rwa [length_encode]

theorem memset_spec {length : Nat} (byte : Byte) (accessible : space.Accessible ⟨start, length⟩) :
    ∃ memory, space.memset start length byte = some memory ∧ memory.regions = space.regions ∧
      memory.bytes = overwrite space.bytes start (List.replicate length byte) := by
  apply write_spec
  rwa [length_replicate]

/-- Different regions do not overlap. -/
theorem apart_of_ne (mem : region ∈ space.regions) (otherMem : other ∈ space.regions)
    (different : region ≠ other) : region.Apart other :=
  space.apart.forall mem otherMem different

theorem Accessible.of_covers (accessible : space.Accessible region) (covers : region.Covers other) :
    space.Accessible other := by
  obtain ⟨outer, mem, outerCovers⟩ := accessible
  exact ⟨outer, mem, outerCovers.trans covers⟩

/-- A fresh region does not begin where a mapped one does. -/
theorem Fresh.start_ne (fresh : space.Fresh region) (mem : other ∈ space.regions) :
    other.start ≠ region.start := by
  have nonempty := fresh.1.2.1
  have otherNonempty := (space.valid other mem).nonempty
  rcases fresh.2 other mem with before | behind
  · omega
  · omega

/-- What `map` gives: a new region, and the old bytes outside it. -/
theorem map_spec (fill : Nat → Byte) (fresh : space.Fresh region) :
    ∃ mapped, space.map region fill = some mapped ∧ mapped.regions = region :: space.regions ∧
      ∀ address, ¬ region.Contains address → mapped.bytes address = space.bytes address := by
  refine ⟨_, dif_pos fresh, rfl, ?_⟩
  intro address outside
  exact if_neg outside

theorem map_yields (fill : Nat → Byte) :
    Yields (space.map region fill) (space.Fresh region) fun mapped =>
      space.Fresh region ∧ mapped.regions = region :: space.regions ∧
        ∀ address, ¬ region.Contains address → mapped.bytes address = space.bytes address := by
  by_cases fresh : space.Fresh region
  · obtain ⟨mapped, mapEq, regions, bytes⟩ := map_spec fill fresh
    rw [mapEq]
    exact .pure ⟨fresh, regions, bytes⟩
  · rw [map, dif_neg fresh]
    exact .stuck fresh

end Space

end QDaemon.Bytes
