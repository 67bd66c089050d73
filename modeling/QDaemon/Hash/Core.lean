import QDaemon.Bits.Word
import QDaemon.Bytes.LittleEndian
import QDaemon.Linked.Chain
import QDaemon.Transition.Run

/-!
# The string hash map

`qd_hash.h`: a table of chains, selected by the FNV-1a hash of the key.  The
entries are allocated one by one and own a copy of their key.  A traversal follows
pointers, so it is given a number of rounds; it does not return if they run out or
if it meets an entry that is not allocated.
-/

namespace QDaemon.Hash

open Function Bits Bytes Linked Transition

/-- An address or a value of type `void *`; zero is `NULL`. -/
abbrev Ptr := BitVec 64

/-- The contents of a C string. -/
abbrev CString := { bytes : List Byte // 0 ∉ bytes }

/-- `qd_hash_string`. -/
def hashString (key : CString) : BitVec 32 :=
  key.val.foldl (fun hash byte => (hash ^^^ byte.setWidth 32) * 16777619) 2166136261

/-! ## Chains of entries -/

/-- The heads of the buckets and the nodes; `pprev` is the address of the link to the
node. -/
abbrev Hlists := Lists Nat Ptr (Option (Place Nat Ptr))

/-- `qd_hlist_del`. -/
def hlistDel (lists : Hlists) (node : Ptr) : Option Hlists :=
  (lists.backOf node).bind fun pprev =>
    pprev.bind fun place => lists.unlink place (some place) none node

/-- `qd_hlist_add_head`. -/
def hlistAddHead (lists : Hlists) (node : Ptr) (list : Nat) : Option Hlists := do
  let first := lists.first list
  let lists ← lists.store first (.next node)
  let lists ← lists.setSuccessor (some (.next node)) first
  let lists ← lists.store (some node) (.head list)
  lists.setBack node (some (.head list))

/-! ## The map -/

/-- The map: `struct qd_hash_entry` is an allocated node together with its key and
value. -/
structure HashMap where
  lists : Hlists
  key : Ptr → CString
  value : Ptr → Ptr
  size : Nat
  count : Nat
  mask : Nat

namespace HashMap

/-- `qd_hashtable_bucket`: the index of the bucket for a hash. -/
def bucket (map : HashMap) (hash : BitVec 32) : Nat :=
  hash.toNat &&& map.mask

/-- The loop of `qd_hashtable_init` that doubles `n`. -/
def roundUp (size : Nat) : Nat → Nat → Option Nat
  | 0, _ => none
  | rounds + 1, n => if n < size then roundUp size rounds (n * 2 % 2 ^ 64) else some n

/-- `qd_hashmap_init`, where `memory` is what the fields of entries that have never
been allocated hold, and `calloc` may fail. -/
def init (memory : Ptr → CString × Ptr) (rounds size : Nat) (allocated : Bool) :
    Option (Except Int HashMap) :=
  (roundUp (if size = 0 then 16 else size) rounds 1).map fun size =>
    if allocated then
      .ok {
        lists := ⟨fun _ => none, fun _ => none⟩
        key := fun entry => (memory entry).1
        value := fun entry => (memory entry).2
        size := size
        count := 0
        mask := wordSub size 1 }
    else .error (-1)

/-- The traversal of the bucket of a key. -/
def find (map : HashMap) (key : CString) (rounds : Nat) : Option (Option Ptr) :=
  map.lists.find (fun entry => map.key entry = key) rounds
    (map.lists.first (map.bucket (hashString key)))

/-- `qd_hashmap_get`. -/
def get (map : HashMap) (key : CString) (rounds : Nat) : Option Ptr :=
  (map.find key rounds).map fun
    | none => 0
    | some entry => map.value entry

/-- Fill in an allocated entry and put it into its bucket. -/
def link (map : HashMap) (key : CString) (value entry : Ptr) : Option HashMap :=
  (hlistAddHead map.lists entry (map.bucket (hashString key))).map fun lists =>
    { map with
      lists := lists
      key := update map.key entry key
      value := update map.value entry value
      count := wordAdd map.count 1 }

/-- `qd_hashmap_put`.  `malloc` returns an entry or fails, and so does `strdup`. -/
def put (map : HashMap) (key : CString) (value : Ptr) (rounds : Nat) (malloc : Option Ptr)
    (strdup : Bool) : Option (HashMap × Int) :=
  (map.find key rounds).bind fun
    | some entry => some ({ map with value := update map.value entry value }, 0)
    | none =>
        match malloc with
        | none => some (map, -1)
        | some entry =>
            let lists := map.lists.setNode entry ⟨none, none⟩
            if strdup then ({ map with lists := lists }.link key value entry).map fun map => (map, 0)
            else some ({ map with lists := lists.free entry }, -1)

/-- `qd_hashmap_remove`. -/
def remove (map : HashMap) (key : CString) (rounds : Nat) : Option (HashMap × Ptr) :=
  (map.find key rounds).bind fun
    | none => some (map, 0)
    | some entry =>
        (hlistDel map.lists entry).map fun lists =>
          ({ map with lists := lists.free entry, count := wordSub map.count 1 }, map.value entry)

end HashMap

/-! ## Calls -/

/-- The calls that change the map: a put that succeeded, or a remove. -/
inductive MapEvent
  | put (key : CString) (value : Ptr)
  | remove (key : CString)

/-- The value of the last put of a key that is not followed by a remove. -/
def lastPut (key : CString) : List MapEvent → Option Ptr
  | [] => none
  | .put other value :: earlier => if other = key then some value else lastPut key earlier
  | .remove other :: earlier => if other = key then none else lastPut key earlier

/-- A map and what has been done with it, latest first. -/
structure MapState where
  map : HashMap
  history : List MapEvent

/-- A call with what it meets. -/
inductive MapCall
  | get (key : CString) (rounds : Nat)
  | put (key : CString) (value : Ptr) (rounds : Nat) (malloc : Option Ptr) (strdup : Bool)
  | remove (key : CString) (rounds : Nat)

/-- What `malloc` may return: an entry that is not in use. -/
def Unused (map : HashMap) (malloc : Option Ptr) : Prop :=
  ∀ entry ∈ malloc, entry ≠ 0 ∧ map.lists.node entry = none

instance (map : HashMap) (malloc : Option Ptr) : Decidable (Unused map malloc) :=
  match malloc with
  | none => isTrue (by simp [Unused])
  | some entry =>
      decidable_of_iff (entry ≠ 0 ∧ (map.lists.node entry).isNone = true) (by simp [Unused])

/-- One call that returns. -/
def mapStep (state : MapState) : MapCall → Option MapState
  | .get key rounds => (state.map.get key rounds).map fun _ => state
  | .put key value rounds malloc strdup =>
      if Unused state.map malloc then
        (state.map.put key value rounds malloc strdup).map fun after =>
          if after.2 = 0 then ⟨after.1, .put key value :: state.history⟩
          else { state with map := after.1 }
      else none
  | .remove key rounds =>
      (state.map.remove key rounds).map fun after => ⟨after.1, .remove key :: state.history⟩

end QDaemon.Hash
