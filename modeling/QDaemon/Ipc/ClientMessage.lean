import QDaemon.Ipc.Client

/-!
# Messages of the client library

The add functions of `qdc_message.c` fill at most 64 entries, with keys that are cut and
values that are not.  `serialize_message` stores them one after the other in 4096 bytes
and never looks at what is left of them.
-/

namespace QDaemon.Client

open List Bytes Ipc

def qdcErrNomem : Int := -1
def maxMsgEntries : Nat := 64

/-- A string, without the zero byte that ends it. -/
abbrev CString := { bytes : List Byte // 0 ∉ bytes }

/-- `type` and `val` of an entry.  A `double` is given by its bits. -/
inductive Value
  | str (text : Option CString)
  | int (value : BitVec 64)
  | float (bits : BitVec 64)
  | bool (value : Bool)
  | bin (data : List Byte)

/-- `msg_entry_t`. -/
structure Entry where
  key : CString
  key_short : key.val.length ≤ 63
  val : Value

/-- `qdc_message_t`. -/
structure Message where
  entries : List Entry
  count_le : entries.length ≤ maxMsgEntries

/-! ## Adding -/

/-- `strncpy(e->key, key, sizeof(e->key) - 1)`. -/
def Entry.named (key : CString) (val : Value) : Entry :=
  ⟨⟨key.val.take 63, fun zero => key.property (mem_of_mem_take zero)⟩, length_take_le 63 _, val⟩

section Adding

variable (message : Message) (key : CString)

/-- What the add functions have in common. -/
def addEntry (val : Value) : Int × Message :=
  if room : message.entries.length < maxMsgEntries then
    (qdcOk, ⟨message.entries ++ [.named key val], length_append.trans_le room⟩)
  else (qdcErrNomem, message)

/-- `qdc_message_add_string`, which stores `NULL` if `strdup` finds no memory. -/
def messageAddString (value : Option CString) (memory : Bool) : Int × Message :=
  addEntry message key (.str (if memory then value else none))

/-- `qdc_message_add_int`. -/
def messageAddInt (value : BitVec 64) : Int × Message :=
  addEntry message key (.int value)

/-- `qdc_message_add_float`. -/
def messageAddFloat (value : BitVec 64) : Int × Message :=
  addEntry message key (.float value)

/-- `qdc_message_add_bool`. -/
def messageAddBool (value : BitVec 32) : Int × Message :=
  addEntry message key (.bool (value ≠ 0))

/-- `qdc_message_add_binary`, which takes the entry back if `malloc` finds no memory. -/
def messageAddBinary (data : List Byte) (memory : Bool) : Int × Message :=
  if memory then addEntry message key (.bin data) else (qdcErrNomem, message)

end Adding

/-- A call of an add function. -/
inductive Add
  | string (key : CString) (value : Option CString) (memory : Bool)
  | int (key : CString) (value : BitVec 64)
  | float (key : CString) (value : BitVec 64)
  | bool (key : CString) (value : BitVec 32)
  | binary (key : CString) (data : List Byte) (memory : Bool)

def Message.add (message : Message) : Add → Int × Message
  | .string key value memory => messageAddString message key value memory
  | .int key value => messageAddInt message key value
  | .float key value => messageAddFloat message key value
  | .bool key value => messageAddBool message key value
  | .binary key data memory => messageAddBinary message key data memory

/-- The message after `qdc_message_create` and calls of the add functions. -/
def build (adds : List Add) : Message :=
  adds.foldl (fun message add => (message.add add).2) ⟨[], Nat.zero_le _⟩

/-! ## Serializing -/

/-- The bytes at a `char *`, none for `NULL`. -/
def textBytes (text : Option CString) : List Byte :=
  text.elim [] Subtype.val

/-- `e->type`. -/
def Value.type : Value → Byte
  | .str _ => 0
  | .int _ => 1
  | .float _ => 2
  | .bool _ => 3
  | .bin _ => 4

/-- What the `switch` stores, one after the other. -/
def Value.stores : Value → List (List Byte)
  | .str text => [encode 4 (textBytes text).length, textBytes text]
  | .int value => [encode 8 value.toNat]
  | .float bits => [encode 8 bits.toNat]
  | .bool value => [encode 1 value.toNat]
  | .bin data => [encode 4 data.length, data]

/-- What a round of the loop stores. -/
def Entry.stores (entry : Entry) : List (List Byte) :=
  [encode 1 entry.key.val.length, entry.key.val, [entry.val.type]] ++ entry.val.stores

/-- A store at `p`, which has no result if it is not inside the buffer. -/
def store (written bytes : List Byte) : Option (List Byte) :=
  if written.length + bytes.length ≤ 4096 then some (written ++ bytes) else none

/-- `serialize_message`, with memory for its buffer: the bytes up to the returned length. -/
def serializeMessage (message : Message) : Option (List Byte) :=
  (encode 4 message.entries.length :: message.entries.flatMap Entry.stores).foldlM store []

/-- The stores are inside the buffer, and no other entries are serialized to the same bytes. -/
def Determined (message : Message) : Prop :=
  ∃ bytes, serializeMessage message = some bytes ∧
    ∀ other, serializeMessage other = some bytes → other.entries = message.entries

/-- The size of a value in the buffer. -/
def Value.size : Value → Nat
  | .str text => 4 + (textBytes text).length
  | .int _ | .float _ => 8
  | .bool _ => 1
  | .bin data => 4 + data.length

/-- The size of an entry in the buffer. -/
def Entry.size (entry : Entry) : Nat :=
  2 + entry.key.val.length + entry.val.size

/-- A string that is `NULL` or empty. -/
def Value.Blank (val : Value) : Prop :=
  ∃ text, val = .str text ∧ textBytes text = []

/-- The entries fit into the buffer, and no string is `NULL` or empty. -/
def Plain (message : Message) : Prop :=
  4 + (message.entries.map Entry.size).sum ≤ 4096 ∧ ∀ entry ∈ message.entries, ¬ entry.val.Blank

/-- Stores one after the other are inside the buffer if all they store is. -/
theorem store_all (chunks : List (List Byte)) {written : List Byte} (inside : written.length ≤ 4096) :
    chunks.foldlM store written =
      if written.length + chunks.flatten.length ≤ 4096 then some (written ++ chunks.flatten)
      else none := by
  induction chunks generalizing written with
  | nil => rw [flatten_nil, append_nil, length_nil, Nat.add_zero, if_pos inside]; rfl
  | cons bytes chunks ih =>
    rw [foldlM_cons, store, flatten_cons, length_append, ← Nat.add_assoc, ← append_assoc]
    split_ifs with fits all all
    · rw [Option.bind_eq_bind, Option.bind_some, ih (length_append.trans_le fits), length_append,
        if_pos all]
    · rw [Option.bind_eq_bind, Option.bind_some, ih (length_append.trans_le fits), length_append,
        if_neg all]
    · exact absurd (Nat.le_of_add_right_le all) fits
    · rfl

/-- The bytes of an entry. -/
def Entry.bytes (entry : Entry) : List Byte :=
  entry.stores.flatten

theorem Entry.length_bytes (entry : Entry) : entry.bytes.length = entry.size := by
  obtain ⟨key, short, val⟩ := entry
  rw [bytes, stores, size]
  cases val <;> simp [Value.stores, Value.size] <;> omega

theorem serializeMessage_eq (message : Message) : serializeMessage message =
    if 4 + (message.entries.map Entry.size).sum ≤ 4096 then
      some (encode 4 message.entries.length ++ message.entries.flatMap Entry.bytes) else none := by
  have flat (entries : List Entry) :
      (entries.flatMap Entry.stores).flatten = entries.flatMap Entry.bytes := by
    induction entries with
    | nil => rfl
    | cons entry entries ih => rw [flatMap_cons, flatten_append, ih, flatMap_cons, Entry.bytes]
  rw [serializeMessage, store_all _ (Nat.zero_le _), flatten_cons, flat, length_nil, Nat.zero_add,
    length_append, length_encode, length_flatMap, nil_append]
  simp only [Entry.length_bytes]

/-! ## Reading back -/

variable {rest rest' : List Byte}

/-- A value that is not blank and what follows it are determined by their bytes. -/
theorem Value.stores_inj {left right : Value} (small : left.size ≤ 4096)
    (small' : right.size ≤ 4096) (plain : ¬ left.Blank) (type : left.type = right.type)
    (same : left.stores.flatten ++ rest = right.stores.flatten ++ rest') :
    left = right ∧ rest = rest' := by
  rcases left with text | value | bits | value | data <;>
    rcases right with text' | value' | bits' | value' | data' <;> try cases type
  all_goals
    simp only [stores, flatten_cons, flatten_nil, append_nil, append_assoc] at same
    simp only [size] at small small'
  · obtain ⟨texts, rests⟩ := counted_inj (by omega) (by omega) same
    have filled : textBytes text ≠ [] := fun empty => plain ⟨text, rfl, empty⟩
    rcases text with _ | text <;> rcases text' with _ | text'
    · exact absurd rfl filled
    · exact absurd rfl filled
    · exact absurd texts filled
    · exact ⟨by rw [Subtype.ext texts], rests⟩
  · obtain ⟨numbers, rests⟩ := encode_append_inj value.isLt value'.isLt same
    exact ⟨congrArg _ (BitVec.eq_of_toNat_eq numbers), rests⟩
  · obtain ⟨numbers, rests⟩ := encode_append_inj bits.isLt bits'.isLt same
    exact ⟨congrArg _ (BitVec.eq_of_toNat_eq numbers), rests⟩
  · obtain ⟨bits, rests⟩ := encode_append_inj (by cases value <;> decide)
      (by cases value' <;> decide) same
    cases value <;> cases value' <;> first | exact ⟨rfl, rests⟩ | cases bits
  · obtain ⟨rfl, rests⟩ := counted_inj (by omega) (by omega) same
    exact ⟨rfl, rests⟩

theorem Entry.bytes_inj {left right : Entry} (small : left.size ≤ 4096)
    (small' : right.size ≤ 4096) (plain : ¬ left.val.Blank)
    (same : left.bytes ++ rest = right.bytes ++ rest') : left = right ∧ rest = rest' := by
  obtain ⟨key, short, val⟩ := left
  obtain ⟨key', short', val'⟩ := right
  simp only [bytes, stores, flatten_append, flatten_cons, flatten_nil, append_nil,
    append_assoc] at same
  obtain ⟨keys, others⟩ := counted_inj (by omega) (by omega) same
  obtain ⟨types, values⟩ := cons_eq_cons.mp others
  obtain rfl := Subtype.ext keys
  obtain ⟨rfl, rests⟩ := Value.stores_inj (Nat.le_of_add_left_le small)
    (Nat.le_of_add_left_le small') plain types values
  exact ⟨rfl, rests⟩

/-- As many entries with the same bytes are the same entries. -/
theorem entries_inj {left right : List Entry} (lengths : left.length = right.length)
    (small : (left.map Entry.size).sum ≤ 4096) (small' : (right.map Entry.size).sum ≤ 4096)
    (plain : ∀ entry ∈ left, ¬ entry.val.Blank)
    (same : left.flatMap Entry.bytes = right.flatMap Entry.bytes) : left = right := by
  induction left generalizing right with
  | nil => exact (length_eq_zero_iff.mp lengths.symm).symm
  | cons entry left ih =>
    cases right with
    | nil => cases lengths
    | cons entry' right =>
      rw [map_cons, sum_cons] at small small'
      obtain ⟨first, others⟩ := forall_mem_cons.mp plain
      obtain ⟨rfl, tails⟩ := Entry.bytes_inj (Nat.le_of_add_right_le small)
        (Nat.le_of_add_right_le small') first same
      rw [ih (Nat.succ.inj lengths) (Nat.le_of_add_left_le small)
        (Nat.le_of_add_left_le small') others tails]

theorem zero_not_mem_nil : (0 : Byte) ∉ [] := not_mem_nil

/-- The other blank string in place of one. -/
def Value.flip : Value → Value
  | .str none => .str (some ⟨[], zero_not_mem_nil⟩)
  | .str (some ⟨[], _⟩) => .str none
  | val => val

def Entry.flip (entry : Entry) : Entry :=
  { entry with val := entry.val.flip }

theorem Entry.flip_stores (entry : Entry) : entry.flip.stores = entry.stores := by
  rcases entry with ⟨_, _, (_ | ⟨_ | _, _⟩) | _ | _ | _ | _⟩ <;> rfl

theorem Value.Blank.flip_ne {val : Value} (blank : val.Blank) : val.flip ≠ val := by
  obtain ⟨_ | ⟨_ | _, _⟩, rfl, empty⟩ := blank
  · rintro ⟨⟩
  · rintro ⟨⟩
  · cases empty

theorem Determined.fits {message : Message} (determined : Determined message) :
    4 + (message.entries.map Entry.size).sum ≤ 4096 := by
  obtain ⟨bytes, serialized, -⟩ := determined
  by_contra large
  rw [serializeMessage_eq, if_neg large] at serialized
  cases serialized

/-- The bytes of a message are inside the buffer and tell its entries if and only if its entries
fit and none is a blank string. -/
theorem determined_iff (adds : List Add) : Determined (build adds) ↔ Plain (build adds) := by
  generalize build adds = message
  constructor
  · intro determined
    refine ⟨determined.fits, fun entry member blank => ?_⟩
    obtain ⟨bytes, serialized, unique⟩ := determined
    have same := unique ⟨message.entries.map Entry.flip, (length_map _).trans_le message.count_le⟩ (by
      rw [← serialized, serializeMessage, serializeMessage]
      simp only [length_map, flatMap_map, Entry.flip_stores])
    exact blank.flip_ne (congrArg Entry.val (map_inj_left.mp (same.trans (map_id _).symm) _ member))
  · rintro ⟨fits, plain⟩
    refine ⟨_, by rw [serializeMessage_eq, if_pos fits], fun other same => ?_⟩
    rw [serializeMessage_eq] at same
    split_ifs at same with fits'
    obtain ⟨counts, bytes⟩ := encode_append_inj (other.count_le.trans_lt (by decide))
      (message.count_le.trans_lt (by decide)) (Option.some.inj same)
    exact (entries_inj counts.symm (Nat.le_of_add_left_le fits) (Nat.le_of_add_left_le fits') plain
      bytes.symm).symm

/-- A value of 5000 characters is stored past the end of the buffer. -/
theorem not_determined_long : ∃ key value : CString, value.val.length = 5000 ∧
    ¬ Determined (build [.string key (some value) true]) := by
  obtain ⟨value, long⟩ : ∃ value : CString, value.val.length = 5000 :=
    ⟨⟨replicate 5000 97, fun zero => absurd (eq_of_mem_replicate zero) (by decide)⟩,
      length_replicate⟩
  refine ⟨⟨[107], by decide⟩, value, long, fun determined => ?_⟩
  have fits : 4 + (2 + 1 + (4 + value.val.length) + 0) ≤ 4096 := determined.fits
  omega

end QDaemon.Client
