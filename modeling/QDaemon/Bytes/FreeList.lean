import QDaemon.Bytes.Space

/-!
# Free lists in memory

Objects that nobody uses are linked through their first words, and the last of them
holds the null address.
-/

namespace QDaemon.Bytes

/-- The objects that are linked from an address on. -/
def FreeChain (bytes : Nat → Byte) : Nat → List Nat → Prop
  | head, [] => head = 0
  | head, object :: objects => head = object ∧ FreeChain bytes (wordAt bytes object) objects

variable {bytes after : Nat → Byte} {head address : Nat} {objects : List Nat}

section

variable (chain : FreeChain bytes head objects)
include chain

theorem FreeChain.frame (same : ∀ object ∈ objects, wordAt after object = wordAt bytes object) :
    FreeChain after head objects := by
  induction objects generalizing head with
  | nil => exact chain
  | cons object objects ih =>
    refine ⟨chain.1, ?_⟩
    rw [same object List.mem_cons_self]
    apply ih chain.2
    intro other mem
    exact same other (List.mem_cons_of_mem object mem)

/-- Writing outside the objects. -/
theorem FreeChain.overwrite {data : List Byte}
    (apart : ∀ object ∈ objects, Region.Apart ⟨address, data.length⟩ ⟨object, 8⟩) :
    FreeChain (overwrite bytes address data) head objects := by
  apply chain.frame
  intro object mem
  rw [wordAt, wordAt, contents_overwrite_apart (apart object mem)]

/-- Putting an object in front. -/
theorem FreeChain.push (word : head < 2 ^ 64)
    (apart : ∀ object ∈ objects, Region.Apart ⟨address, 8⟩ ⟨object, 8⟩) :
    FreeChain (Bytes.overwrite bytes address (encode 8 head)) address (address :: objects) := by
  refine ⟨rfl, ?_⟩
  rw [wordAt_overwrite_self word]
  apply chain.overwrite
  rwa [length_encode]

theorem FreeChain.lt (bounded : ∀ object ∈ objects, object < 2 ^ 64) : head < 2 ^ 64 := by
  cases objects with
  | nil => exact chain.symm ▸ Nat.two_pow_pos 64
  | cons object objects => exact chain.1.symm ▸ bounded object List.mem_cons_self

end

end QDaemon.Bytes
