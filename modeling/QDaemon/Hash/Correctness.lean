import QDaemon.Common
import QDaemon.Hash.Core
import Mathlib.Data.Set.Card

/-!
# The hash map is a finite map

Every bucket is a chain of entries whose keys belong there, and no key is in two
entries.  The values in the chains are those of the last puts that were not
followed by a remove.
-/

namespace QDaemon.Hash

open Option List Function Bits Common Linked Transition

variable {map : HashMap} {chains : Nat → List Ptr} {nodes : List Ptr} {key : CString}

namespace HashMap

/-! ## The table -/

variable {rounds size : Nat}
variable {found : Option Ptr} {entry : Ptr}

/-- The doubling stops at the least power of two that is not below the size. -/
theorem roundUp_two_pow {k left : Nat} (small : (size - 1).size < 64)
    (exponent : (size - 1).size = k + left) (enough : left < rounds) :
    roundUp size rounds (2 ^ k) = some (2 ^ (size - 1).size) := by
  induction left generalizing k rounds with
  | zero =>
    obtain ⟨rounds, rfl⟩ := Nat.exists_eq_add_of_lt enough
    have covered := Nat.lt_size_self (size - 1)
    rw [exponent, Nat.add_zero] at covered
    rw [roundUp, if_neg (by omega), exponent, Nat.add_zero]
  | succ left ih =>
    obtain ⟨rounds, rfl⟩ := Nat.exists_eq_add_of_lt enough
    have below : 2 ^ k ≤ size - 1 := Nat.lt_size.mp (by omega)
    have positive := Nat.two_pow_pos k
    have bound : 2 ^ (k + 1) < 2 ^ 64 := Nat.pow_lt_pow_right (by decide) (by omega)
    rw [roundUp, if_pos (by omega), ← Nat.pow_succ, Nat.mod_eq_of_lt bound]
    exact ih (by omega) (by omega)

theorem roundUp_bounds {n result : Nat} (word : n < 2 ^ 64)
    (returned : roundUp size rounds n = some result) : size ≤ result ∧ result < 2 ^ 64 := by
  induction rounds generalizing n with
  | zero => cases returned
  | succ rounds ih =>
    rw [roundUp] at returned
    split at returned
    · exact ih (Nat.mod_lt _ (Nat.two_pow_pos 64)) returned
    next done =>
      rw [← some.inj returned]
      exact ⟨Nat.not_lt.mp done, word⟩

/-- Up to `2 ^ 63` buckets can be asked for. -/
theorem init_returns (memory : Ptr → CString × Ptr) (bound : size ≤ 2 ^ 63) (allocated : Bool) :
    (init memory 64 size allocated).isSome := by
  have small : ((if size = 0 then 16 else size) - 1).size ≤ 63 :=
    size_pred_le (by split <;> omega)
  rw [init, isSome_map, ← Nat.pow_zero 2,
    roundUp_two_pow (by omega) (Nat.zero_add _).symm (by omega)]
  rfl

/-- The three capacity computations agree on the least power of two, by which a
mask takes remainders. -/
theorem capacities_agree {n : Nat} (positive : 1 ≤ n) (bound : n ≤ 2 ^ 63) :
    ∃ capacity, IsLeast {power | n ≤ power ∧ ∃ k, power = 2 ^ k} capacity ∧
      nextPow264 n = capacity ∧ roundUpPow2 n = capacity ∧
      (∀ rounds, 64 ≤ rounds → roundUp n rounds 1 = some capacity) ∧
      ∀ i, i &&& (capacity - 1) = i % capacity := by
  have small := size_pred_le bound
  have covered := Nat.lt_size_self (n - 1)
  refine ⟨2 ^ (n - 1).size, ⟨⟨by omega, _, rfl⟩, ?_⟩, nextPow264_eq positive bound,
    roundUpPow2_eq positive bound, ?_, land_pred_eq_mod ⟨_, rfl⟩⟩
  · rintro _ ⟨above, k, rfl⟩
    exact Nat.pow_le_pow_right Nat.two_pos (Nat.size_le.mpr (by omega))
  · intro rounds enough
    exact roundUp_two_pow (k := 0) (by omega) (Nat.zero_add _).symm (by omega)

theorem capacities_agree_five : 1 ≤ 5 ∧ 5 ≤ 2 ^ 63 ∧ roundUp 5 64 1 = some (nextPow264 5) := by
  obtain ⟨capacity, -, pool, -, table, -⟩ := capacities_agree (n := 5) (by decide) (by decide)
  exact ⟨by decide, by decide, pool ▸ table 64 le_rfl⟩

/-- What the table and the entries in it satisfy. -/
structure Represents (map : HashMap) (chains : Nat → List Ptr) (nodes : List Ptr) : Prop where
  lists : map.lists.Chains some chains
  inside : ∀ hash, map.bucket hash < map.size
  placed : ∀ list, ∀ entry ∈ chains list, list = map.bucket (hashString (map.key entry))
  keys : (nodes.map map.key).Nodup
  mem : ∀ entry, entry ∈ nodes ↔ ∃ list, entry ∈ chains list
  nonnull : 0 ∉ nodes
  count : map.count = nodes.length

/-- An empty table. -/
theorem represents_init {memory : Ptr → CString × Ptr} {allocated : Bool}
    (initialised : init memory rounds size allocated = some (.ok map)) :
    map.Represents (fun _ => []) [] := by
  obtain ⟨buckets, returned, mapEq⟩ := map_eq_some_iff.mp initialised
  obtain ⟨lower, upper⟩ := roundUp_bounds (by decide) returned
  have positive : 1 ≤ buckets := by
    split at lower <;> omega
  split at mapEq
  · obtain rfl := Except.ok.inj mapEq
    refine ⟨⟨⟨fun _ => nodup_nil, ?_⟩, fun _ => ⟨trivial, rfl⟩⟩, ?_, ?_, nodup_nil,
      ?_, not_mem_nil, rfl⟩
    · intro list other node mem
      exact absurd mem not_mem_nil
    · intro hash
      have masked : hash.toNat &&& wordSub buckets 1 ≤ wordSub buckets 1 := Nat.and_le_right
      rw [wordSub_eq positive upper] at masked
      change hash.toNat &&& wordSub buckets 1 < buckets
      rw [wordSub_eq positive upper]
      omega
    · intro list entry mem
      exact absurd mem not_mem_nil
    · intro entry
      simp
  · cases mapEq

/-! ## Buckets -/

/-- The chains of the buckets; a node points back to the link to it. -/
theorem hlistAddHead_spec {lists : Hlists} {list : Nat} (allocated : (lists.backOf entry).isSome)
    (firstAllocated : ∀ next ∈ lists.first list, (lists.backOf next).isSome) :
    ∃ after, hlistAddHead lists entry list = some after ∧
      Lists.AddedHead some lists after entry list := by
  obtain ⟨first, firstEq, firstLoad, firstBack⟩ := Lists.store_spec
    (by rwa [Lists.isSome_load_next]) (lists.first list)
  obtain ⟨second, secondEq, secondLoad, secondBack⟩ := first.setSuccessor_spec
    (fun next mem => by rw [firstBack]; exact firstAllocated next mem) (some (.next entry))
  obtain ⟨third, thirdEq, thirdLoad, thirdBack⟩ := Lists.store_spec
    (rfl : (second.load (.head list)).isSome = true) (some entry)
  have thirdAllocated : (third.backOf entry).isSome := by
    rw [thirdBack, secondBack, firstBack]
    split
    · rfl
    · exact allocated
  obtain ⟨fourth, fourthEq, fourthLoad, fourthBack⟩ := Lists.setBack_spec thirdAllocated
    (some (.head list))
  refine ⟨fourth, ?_, ?_, ?_⟩
  · simp [hlistAddHead, firstEq, secondEq, thirdEq, fourthEq]
  · intro other
    rw [fourthLoad, thirdLoad, secondLoad, firstLoad]
  · intro other
    rw [fourthBack, thirdBack, secondBack, firstBack]

namespace Represents

variable {entry : Ptr}

section

variable (rep : map.Represents chains nodes)
include rep

/-- A traversal finds the entry with the key, if there is one. -/
theorem find_yields (key : CString) :
    Yields (map.find key rounds) ((chains (map.bucket (hashString key))).length < rounds)
      fun found => (∃ entry ∈ nodes, map.key entry = key ∧ found = some entry) ∨
        (key ∉ nodes.map map.key ∧ found = none) := by
  refine (rep.lists.find_yields (fun entry => map.key entry = key) _).mono id ?_
  rintro _ rfl
  cases search : (chains (map.bucket (hashString key))).find? fun entry => map.key entry = key with
  | some entry =>
    have matched : map.key entry = key := by simpa using List.find?_some search
    exact .inl ⟨entry, (rep.mem entry).mpr ⟨_, mem_of_find?_eq_some search⟩, matched, rfl⟩
  | none =>
    refine .inr ⟨?_, rfl⟩
    intro keyMem
    obtain ⟨entry, mem, matched⟩ := mem_map.mp keyMem
    obtain ⟨list, listMem⟩ := (rep.mem entry).mp mem
    have place := rep.placed list entry listMem
    rw [matched] at place
    have all := List.find?_eq_none.mp search entry (place ▸ listMem)
    exact all (by simpa using matched)

theorem nodup : nodes.Nodup := rep.keys.of_map

theorem key_injective {other : Ptr} (mem : entry ∈ nodes) (otherMem : other ∈ nodes)
    (same : map.key entry = map.key other) : entry = other :=
  inj_on_of_nodup_map rep.keys mem otherMem same

/-! ## Changes of the table -/

/-- Only the value of an entry changes. -/
theorem setValue (values : Ptr → Ptr) : { map with value := values }.Represents chains nodes :=
  ⟨rep.lists, rep.inside, rep.placed, rep.keys, rep.mem, rep.nonnull, rep.count⟩

end

/-- There are fewer entries than addresses, so that the counter does not wrap. -/
theorem length_lt (nodup : nodes.Nodup) (nonnull : 0 ∉ nodes) : nodes.length < 2 ^ 64 := by
  have all : (0 :: nodes).Nodup := nodup_cons.mpr ⟨nonnull, nodup⟩
  have injective : Function.Injective (BitVec.toFin : Ptr → Fin (2 ^ 64)) :=
    fun _ _ same => BitVec.eq_of_toFin_eq same
  have addresses := (all.map injective).length_le_card
  rw [Fintype.card_fin, length_map] at addresses
  exact addresses

variable (rep : map.Represents chains nodes)
include rep

/-- A new entry is put in front of its bucket. -/
theorem link (value : Ptr) (absent : key ∉ nodes.map map.key)
    (nonnull : entry ≠ 0) (unused : map.lists.node entry = none) :
    ∃ after, { map with lists := map.lists.setNode entry ⟨none, none⟩ }.link key value entry = some after ∧
      after.Represents (update chains (map.bucket (hashString key))
        (entry :: chains (map.bucket (hashString key)))) (entry :: nodes) ∧
      after.key = update map.key entry key ∧
      after.value = update map.value entry value := by
  have fresh := rep.lists.not_mem_of_node unused
  have freshNode : entry ∉ nodes := by
    intro mem
    obtain ⟨list, listMem⟩ := (rep.mem entry).mp mem
    exact fresh list listMem
  have allocated := rep.lists.setNode unused ⟨none, none⟩
  obtain ⟨lists, addEq, added⟩ := hlistAddHead_spec
    (map.lists.isSome_backOf_setNode entry ⟨none, none⟩)
    (allocated.first_allocated (map.bucket (hashString key)))
  have chained := allocated.addHead fresh added
  have keysEq : (entry :: nodes).map (update map.key entry key) = key :: nodes.map map.key := by
    rw [map_cons, update_self]
    congr 1
    apply map_congr_left
    intro other mem
    rw [update_of_ne]
    rintro rfl
    exact freshNode mem
  have nonnullAll : 0 ∉ entry :: nodes := by
    rw [mem_cons, not_or]
    exact ⟨nonnull.symm, rep.nonnull⟩
  have keysNodup : ((entry :: nodes).map (update map.key entry key)).Nodup := by
    rw [keysEq]
    exact nodup_cons.mpr ⟨absent, rep.keys⟩
  refine ⟨{ map with
      lists := lists
      key := update map.key entry key
      value := update map.value entry value
      count := wordAdd map.count 1 }, ?_,
    ⟨chained, rep.inside, ?_, keysNodup, ?_, nonnullAll, ?_⟩, rfl, rfl⟩
  · simp only [HashMap.link]
    exact congrArg _ addEq
  · intro list other mem
    change list = map.bucket (hashString (update map.key entry key other))
    rcases Lists.mem_update_cons.mp mem with ⟨rfl, rfl⟩ | old
    · rw [update_self]
    · rw [update_of_ne]
      · exact rep.placed list other old
      · rintro rfl
        exact fresh list old
  · intro other
    simp only [Lists.mem_update_cons, mem_cons, rep.mem other]
    constructor
    · rintro (rfl | ⟨list, mem⟩)
      · exact ⟨_, .inl ⟨rfl, rfl⟩⟩
      · exact ⟨list, .inr mem⟩
    · rintro ⟨list, ⟨same, -⟩ | mem⟩
      · exact .inl same
      · exact .inr ⟨list, mem⟩
  · have bound := length_lt keysNodup.of_map nonnullAll
    rw [rep.count, wordAdd_eq bound, length_cons]

/-- An entry is taken out of its bucket and freed. -/
theorem unlink (mem : entry ∈ nodes) : ∃ lists list, hlistDel map.lists entry = some lists ∧
      { map with lists := lists.free entry, count := wordSub map.count 1 }.Represents
        (update chains list ((chains list).erase entry)) (nodes.erase entry) := by
  obtain ⟨list, listMem⟩ := (rep.mem entry).mp mem
  obtain ⟨place, lists, -, pprev, unlinked, chained, -⟩ := rep.lists.unlink listMem none
  have delEq : hlistDel map.lists entry = some lists := by
    rw [hlistDel, pprev, bind_some, bind_some, unlinked]
  have members : ∀ other next,
      next ∈ update chains list ((chains list).erase entry) other ↔
        next ≠ entry ∧ next ∈ chains other :=
    fun other next => rep.lists.mem_update_erase listMem
  refine ⟨lists, list, delEq, ?_, rep.inside, ?_, ?_, ?_, ?_, ?_⟩
  · apply chained.free
    intro other otherMem
    exact ((members other entry).mp otherMem).1 rfl
  · intro other next otherMem
    exact rep.placed other next ((members other next).mp otherMem).2
  · exact rep.keys.sublist (erase_sublist.map _)
  · intro next
    simp [members, rep.nodup.mem_erase_iff, rep.mem next, exists_and_left]
  · intro null
    exact rep.nonnull (mem_of_mem_erase null)
  · have bound := length_lt rep.nodup rep.nonnull
    have positive := length_pos_of_mem mem
    rw [rep.count, length_erase_of_mem mem, wordSub_eq positive bound]

end Represents

end HashMap

/-! ## The finite map -/

/-- The entries hold the values of the last puts. -/
structure Holds (map : HashMap) (nodes : List Ptr) (history : List MapEvent) : Prop where
  present : ∀ entry ∈ nodes, lastPut (map.key entry) history = some (map.value entry)
  absent : ∀ key, key ∉ nodes.map map.key → lastPut key history = none

/-- The invariant of the calls. -/
def Refines (state : MapState) : Prop :=
  ∃ chains nodes, state.map.Represents chains nodes ∧ Holds state.map nodes state.history

variable {history : List MapEvent} {entry value : Ptr}

theorem lastPut_put_self : lastPut key (.put key value :: history) = some value := if_pos rfl

theorem lastPut_put_of_ne {other : CString} (different : key ≠ other) :
    lastPut other (.put key value :: history) = lastPut other history :=
  if_neg different

theorem lastPut_remove_self : lastPut key (.remove key :: history) = none := if_pos rfl

theorem lastPut_remove_of_ne {other : CString} (different : key ≠ other) :
    lastPut other (.remove key :: history) = lastPut other history :=
  if_neg different

section

variable (holds : Holds map nodes history)
include holds

/-- A put that finds the key changes the value of its entry. -/
theorem Holds.setValue (rep : map.Represents chains nodes) (mem : entry ∈ nodes) :
    Holds { map with value := update map.value entry value } nodes
      (.put (map.key entry) value :: history) := by
  constructor
  · intro other otherMem
    by_cases same : other = entry
    · rw [same, lastPut_put_self]
      exact congrArg some (update_self entry value map.value).symm
    · rw [lastPut_put_of_ne, holds.present other otherMem]
      · exact congrArg some (update_of_ne same value map.value).symm
      · intro sameKey
        exact same (rep.key_injective otherMem mem sameKey.symm)
  · intro other absent
    rw [lastPut_put_of_ne, holds.absent other absent]
    rintro rfl
    exact absent (mem_map_of_mem mem)

/-- A put of a new key adds an entry. -/
theorem Holds.link {after : HashMap} (fresh : entry ∉ nodes) (absent : key ∉ nodes.map map.key)
    (keys : after.key = update map.key entry key)
    (values : after.value = update map.value entry value) :
    Holds after (entry :: nodes) (.put key value :: history) := by
  have kept : ∀ other ∈ nodes, after.key other = map.key other ∧
      after.value other = map.value other := by
    intro other mem
    have different : other ≠ entry := by
      rintro rfl
      exact fresh mem
    rw [keys, values, update_of_ne different, update_of_ne different]
    exact ⟨rfl, rfl⟩
  constructor
  · intro other mem
    rcases mem_cons.mp mem with rfl | old
    · rw [keys, values, update_self, update_self, lastPut_put_self]
    · obtain ⟨keyEq, valueEq⟩ := kept other old
      rw [keyEq, valueEq, lastPut_put_of_ne, holds.present other old]
      rintro rfl
      exact absent (mem_map_of_mem old)
  · intro other outside
    rw [map_cons, mem_cons, not_or, keys, update_self] at outside
    rw [lastPut_put_of_ne (fun same => outside.1 same.symm), holds.absent]
    intro mem
    obtain ⟨node, nodeMem, rfl⟩ := mem_map.mp mem
    rw [← (kept node nodeMem).1, keys] at outside
    exact outside.2 (mem_map_of_mem nodeMem)

/-- A remove of a key that is present. -/
theorem Holds.unlink {after : HashMap} (rep : map.Represents chains nodes) (mem : entry ∈ nodes)
    (keys : after.key = map.key) (values : after.value = map.value) :
    Holds after (nodes.erase entry) (.remove (map.key entry) :: history) := by
  constructor
  · intro other otherMem
    obtain ⟨different, old⟩ := rep.nodup.mem_erase_iff.mp otherMem
    rw [keys, values, lastPut_remove_of_ne, holds.present other old]
    intro sameKey
    exact different (rep.key_injective old mem sameKey.symm)
  · intro other outside
    by_cases same : map.key entry = other
    · rw [← same, lastPut_remove_self]
    · rw [lastPut_remove_of_ne same, holds.absent]
      intro otherMem
      obtain ⟨node, nodeMem, rfl⟩ := mem_map.mp otherMem
      rw [keys] at outside
      have kept : node ∈ nodes.erase entry := by
        apply rep.nodup.mem_erase_iff.mpr
        refine ⟨?_, nodeMem⟩
        rintro rfl
        exact same rfl
      exact outside (mem_map_of_mem kept)

/-- A remove of a key that is absent. -/
theorem Holds.remove_absent (absent : key ∉ nodes.map map.key) :
    Holds map nodes (.remove key :: history) := by
  constructor
  · intro other mem
    rw [lastPut_remove_of_ne, holds.present other mem]
    rintro rfl
    exact absent (mem_map_of_mem mem)
  · intro other outside
    by_cases same : key = other
    · rw [same, lastPut_remove_self]
    · rw [lastPut_remove_of_ne same, holds.absent other outside]

end

/-! ## Calls -/

variable {rounds : Nat}

section

variable (rep : map.Represents chains nodes)
include rep

variable (holds : Holds map nodes history)
include holds

/-- A put returns once its traversal does.  It fails for lack of memory only and
then changes nothing. -/
theorem put_yields {malloc : Option Ptr} (unused : Unused map malloc) (key : CString) (value : Ptr)
    (strdup : Bool) : Yields (map.put key value rounds malloc strdup)
      ((chains (map.bucket (hashString key))).length < rounds) fun (after, result) =>
      (result = 0 ∧ Refines ⟨after, .put key value :: history⟩) ∨
        (result = -1 ∧ after = map ∧ (malloc = none ∨ strdup = false)) := by
  refine (rep.find_yields key).bind ?_
  rintro _ - (⟨entry, mem, matched, rfl⟩ | ⟨absent, rfl⟩)
  · rw [← matched]
    exact .pure (.inl ⟨rfl, chains, nodes, rep.setValue _, holds.setValue rep mem⟩)
  · cases malloc with
    | none => exact .pure (.inr ⟨rfl, rfl, .inl rfl⟩)
    | some entry =>
      obtain ⟨nonnull, free⟩ := unused entry rfl
      cases strdup with
      | false =>
        simp only [Lists.free_setNode free]
        exact .pure (.inr ⟨rfl, rfl, .inr trivial⟩)
      | true =>
        obtain ⟨after, linkEq, linked, keys, values⟩ := rep.link value absent nonnull free
        simp only [linkEq]
        refine .pure (.inl ⟨rfl, _, _, linked, holds.link ?_ absent keys values⟩)
        intro mem
        obtain ⟨list, listMem⟩ := (rep.mem entry).mp mem
        exact rep.lists.not_mem_of_node free list listMem

/-- A remove returns once its traversal does. -/
theorem remove_yields (key : CString) :
    Yields (map.remove key rounds) ((chains (map.bucket (hashString key))).length < rounds)
      fun (after, value) => value = (lastPut key history).getD 0 ∧
        Refines ⟨after, .remove key :: history⟩ := by
  refine (rep.find_yields key).bind ?_
  rintro _ - (⟨entry, mem, rfl, rfl⟩ | ⟨absent, rfl⟩)
  · obtain ⟨lists, list, delEq, unlinked⟩ := rep.unlink mem
    rw [holds.present entry mem]
    simp only [delEq]
    exact .pure ⟨rfl, _, _, unlinked, holds.unlink rep mem rfl rfl⟩
  · rw [holds.absent key absent]
    exact .pure ⟨rfl, chains, nodes, rep, holds.remove_absent absent⟩

theorem get_yields (key : CString) :
    Yields (map.get key rounds) ((chains (map.bucket (hashString key))).length < rounds)
      (· = (lastPut key history).getD 0) := by
  refine ((rep.find_yields key).mono id ?_).map
  rintro _ (⟨entry, mem, rfl, rfl⟩ | ⟨absent, rfl⟩)
  · rw [holds.present entry mem, getD_some]
  · rw [holds.absent key absent, getD_none]

omit holds in
omit rep in
theorem Refines.step {state next : MapState} {call : MapCall} (refines : Refines state)
    (stepEq : mapStep state call = some next) : Refines next := by
  obtain ⟨chains, nodes, rep, holds⟩ := refines
  cases call with
  | get key rounds =>
    obtain ⟨-, -, rfl⟩ := map_eq_some_iff.mp stepEq
    exact ⟨chains, nodes, rep, holds⟩
  | put key value rounds malloc strdup =>
    rw [mapStep] at stepEq
    split at stepEq
    next unused =>
      obtain ⟨⟨after, result⟩, putEq, rfl⟩ := map_eq_some_iff.mp stepEq
      rcases (put_yields rep holds unused key value strdup).good putEq with
        ⟨rfl, refined⟩ | ⟨rfl, rfl, -⟩
      · exact refined
      · exact ⟨chains, nodes, rep, holds⟩
    · cases stepEq
  | remove key rounds =>
    obtain ⟨⟨after, value⟩, removeEq, rfl⟩ := map_eq_some_iff.mp stepEq
    exact ((remove_yields rep holds key).good removeEq).2

/-- The counter is the number of keys that are present. -/
theorem count_eq : map.count = Set.ncard { key | (lastPut key history).isSome } := by
  have keySet : { key | (lastPut key history).isSome } = ↑(nodes.map map.key).toFinset := by
    ext key
    rw [coe_toFinset, Set.mem_ofPred_eq]
    constructor
    · intro some
      by_contra absent
      rw [holds.absent key absent] at some
      cases some
    · intro mem
      obtain ⟨entry, entryMem, rfl⟩ := mem_map.mp mem
      rw [holds.present entry entryMem]
      rfl
  rw [keySet, Set.ncard_coe_finset, toFinset_card_of_nodup rep.keys, length_map, rep.count]

end

/-- A map that has just been initialised. -/
def MapState.initial (map : HashMap) : MapState := ⟨map, []⟩

/-- After any calls on an initialised map, its buckets are chains of the keys that
hash to them, its size is the number of keys that are present, and with enough
rounds each call returns: `get` and `remove` the value of the last put that is not
followed by a remove, and `put` success, or failure for lack of memory and the map
as it was. -/
theorem hashmap_refines {memory : Ptr → CString × Ptr} {rounds size : Nat} {allocated : Bool}
    {map : HashMap} {state : MapState}
    (initialised : HashMap.init memory rounds size allocated = some (.ok map))
    (run : Reachable mapStep (MapState.initial map) state) :
    (∃ chains, state.map.lists.Chains some chains ∧ ∀ list, ∀ entry ∈ chains list,
        list < state.map.size ∧ list = state.map.bucket (hashString (state.map.key entry))) ∧
      state.map.count = Set.ncard { key | (lastPut key state.history).isSome } ∧
      ∀ key, ∃ bound, ∀ rounds ≥ bound,
        state.map.get key rounds = some ((lastPut key state.history).getD 0) ∧
        (∃ after, state.map.remove key rounds = some (after, (lastPut key state.history).getD 0)) ∧
        ∀ value malloc strdup, Unused state.map malloc →
          ∃ after result, state.map.put key value rounds malloc strdup = some (after, result) ∧
            (result = 0 ∨
              (result = -1 ∧ after = state.map ∧ (malloc = none ∨ strdup = false))) := by
  have initial : Refines (MapState.initial map) :=
    ⟨fun _ => [], [], HashMap.represents_init initialised,
      fun _ mem => absurd mem not_mem_nil, fun _ _ => rfl⟩
  obtain ⟨chains, nodes, rep, holds⟩ :=
    run.invariant Refines initial fun _ _ _ refines _ stepEq => refines.step stepEq
  refine ⟨⟨chains, rep.lists, ?_⟩, count_eq rep holds, ?_⟩
  · intro list entry mem
    have placed := rep.placed list entry mem
    exact ⟨placed ▸ rep.inside _, placed⟩
  · intro key
    refine ⟨(chains (state.map.bucket (hashString key))).length + 1, ?_⟩
    intro rounds enough
    refine ⟨?_, ?_, ?_⟩
    · obtain ⟨value, returned, rfl⟩ := (get_yields rep holds key).meets enough
      exact returned
    · obtain ⟨⟨after, value⟩, returned, rfl, -⟩ := (remove_yields rep holds key).meets enough
      exact ⟨after, returned⟩
    · intro value malloc strdup unused
      obtain ⟨⟨after, result⟩, returned, outcome⟩ :=
        (put_yields rep holds unused key value strdup).meets enough
      exact ⟨after, result, returned, outcome.imp_left And.left⟩

/-- A map with one bucket. -/
def oneBucket : HashMap where
  lists := ⟨fun _ => none, fun _ => none⟩
  key := fun _ => ⟨[], by decide⟩
  value := fun _ => 0
  size := 1
  count := 0
  mask := 0

def keyA : CString := ⟨[97], by decide⟩
def keyB : CString := ⟨[98], by decide⟩
def keyC : CString := ⟨[99], by decide⟩

/-- Two keys in the same bucket; one is put again, the other one is removed, and a
third one finds no memory. -/
def collidingKeys : List MapCall :=
  [.put keyA 5 1 (some 16) true, .put keyB 7 2 (some 32) true,
    .put keyA 9 2 none true, .remove keyB 1, .put keyC 1 2 (some 32) false]

theorem hashmap_refines_collidingKeys :
    HashMap.init (fun _ => (⟨[], by decide⟩, 0)) 1 1 true = some (.ok oneBucket) ∧
      ∃ state, exec mapStep (MapState.initial oneBucket) collidingKeys = some state ∧
        state.history.length = 4 ∧ lastPut keyA state.history = some 9 ∧
        ∃ rounds, state.map.get keyA rounds = some 9 := by
  have initialised : HashMap.init (fun _ => (⟨[], by decide⟩, 0)) 1 1 true =
      some (.ok oneBucket) := rfl
  refine ⟨initialised, exists_exec (fun state =>
    state.history.length = 4 ∧ lastPut keyA state.history = some 9) (by decide +kernel) ?_⟩
  rintro state stateEq ⟨length, last⟩
  obtain ⟨-, -, calls⟩ := hashmap_refines initialised (reachable_of_exec stateEq)
  obtain ⟨bound, returns⟩ := calls keyA
  have got := (returns bound le_rfl).1
  rw [last] at got
  exact ⟨length, last, bound, got⟩

end QDaemon.Hash
