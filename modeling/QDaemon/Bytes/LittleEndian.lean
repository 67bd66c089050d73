import Mathlib.Data.List.TakeDrop
import Mathlib.Tactic.Ring

/-!
# Little-endian fields of a byte buffer

Numbers are stored least significant byte first.  A field is a number read from
a buffer at an offset; the lemmas here compute fields of a concatenation, also
where the reader's field and the writer's do not have the same width.
-/

namespace QDaemon.Bytes

open List

/-- A byte. -/
abbrev Byte := BitVec 8

/-- The lowest `width` bytes of a number. -/
def encode : Nat → Nat → List Byte
  | 0, _ => []
  | width + 1, value => BitVec.ofNat 8 value :: encode width (value / 256)

/-- The number that a list of bytes stands for. -/
def decode : List Byte → Nat
  | [] => 0
  | byte :: rest => byte.toNat + 256 * decode rest

@[simp]
theorem length_encode (width value : Nat) : (encode width value).length = width := by
  induction width generalizing value with
  | zero => rfl
  | succ width ih => rw [encode, length_cons, ih]

theorem decode_encode (width value : Nat) : decode (encode width value) = value % 256 ^ width := by
  induction width generalizing value with
  | zero => rw [encode, decode, pow_zero, Nat.mod_one]
  | succ width ih =>
    rw [encode, decode, ih, BitVec.toNat_ofNat, pow_succ' 256 width, Nat.mod_mul]

/-- A number that fits into its bytes and what follows them are determined. -/
theorem encode_append_inj {width left right : Nat} {rest rest' : List Byte}
    (fits : left < 256 ^ width) (fits' : right < 256 ^ width)
    (same : encode width left ++ rest = encode width right ++ rest') :
    left = right ∧ rest = rest' := by
  obtain ⟨codes, rests⟩ := append_inj same (by rw [length_encode, length_encode])
  have numbers := congrArg decode codes
  rw [decode_encode, decode_encode, Nat.mod_eq_of_lt fits, Nat.mod_eq_of_lt fits'] at numbers
  exact ⟨numbers, rests⟩

/-- Bytes after their number and what follows them are determined. -/
theorem counted_inj {width : Nat} {left right rest rest' : List Byte}
    (fits : left.length < 256 ^ width) (fits' : right.length < 256 ^ width)
    (same : encode width left.length ++ (left ++ rest) =
      encode width right.length ++ (right ++ rest')) : left = right ∧ rest = rest' := by
  obtain ⟨lengths, others⟩ := encode_append_inj fits fits' same
  exact append_inj others lengths

theorem encode_add (low high value : Nat) :
    encode (low + high) value = encode low value ++ encode high (value / 256 ^ low) := by
  induction low generalizing value with
  | zero => simp [encode]
  | succ low ih =>
    rw [Nat.succ_add, encode, ih, encode, cons_append, Nat.div_div_eq_div_mul, pow_succ']

theorem decode_append (front back : List Byte) :
    decode (front ++ back) = decode front + 256 ^ front.length * decode back := by
  induction front with
  | nil => simp [decode]
  | cons byte front ih =>
    rw [cons_append, decode, decode, ih, length_cons]
    ring

theorem decode_lt (bytes : List Byte) : decode bytes < 256 ^ bytes.length := by
  induction bytes with
  | nil => exact Nat.one_pos
  | cons byte rest ih =>
    rw [decode, length_cons]
    omega

theorem encode_decode (bytes : List Byte) : encode bytes.length (decode bytes) = bytes := by
  induction bytes with
  | nil => rfl
  | cons byte rest ih =>
    have quotient : (byte.toNat + 256 * decode rest) / 256 = decode rest := by omega
    have first : BitVec.ofNat 8 (byte.toNat + 256 * decode rest) = byte := by
      apply BitVec.eq_of_toNat_eq
      rw [BitVec.toNat_ofNat]
      omega
    rw [length_cons, decode, encode, quotient, ih, first]

/-! ## Fields -/

/-- The number at an offset of a buffer. -/
def field (offset width : Nat) (buffer : List Byte) : Nat :=
  decode ((buffer.drop offset).take width)

variable {width offset : Nat}

theorem field_skip {front back : List Byte} (past : front.length ≤ offset) :
    field offset width (front ++ back) = field (offset - front.length) width back := by
  rw [field, drop_append, drop_eq_nil_of_le past, nil_append, field]

theorem field_front {front back : List Byte} (exact : front.length = width) :
    field 0 width (front ++ back) = decode front := by
  rw [field, drop_zero, ← exact, take_left]

theorem field_encode_front (width value : Nat) (back : List Byte) :
    field 0 width (encode width value ++ back) = value % 256 ^ width := by
  rw [field_front (length_encode width value), decode_encode]

theorem field_encode_skip {skipped : Nat} (value : Nat) (back : List Byte)
    (past : skipped ≤ offset) :
    field offset width (encode skipped value ++ back) = field (offset - skipped) width back := by
  rw [field_skip (by rwa [length_encode]), length_encode]

theorem field_take {n : Nat} {buffer : List Byte} (inside : offset + width ≤ n) :
    field offset width (buffer.take n) = field offset width buffer := by
  rw [field, drop_take, take_take, Nat.min_eq_left (by omega), field]

theorem field_lt (offset width : Nat) (buffer : List Byte) :
    field offset width buffer < 256 ^ width := by
  refine Nat.lt_of_lt_of_le (decode_lt _) (Nat.pow_le_pow_right (by decide) ?_)
  rw [length_take]
  exact Nat.min_le_left _ _

/-- Writing back the number that was read. -/
theorem encode_field {buffer : List Byte} (inside : offset + width ≤ buffer.length) :
    encode width (field offset width buffer) = (buffer.drop offset).take width := by
  have length : ((buffer.drop offset).take width).length = width := by
    rw [length_take, length_drop]
    omega
  have same := encode_decode ((buffer.drop offset).take width)
  rwa [length] at same

/-- A wide field consists of two narrow ones. -/
theorem field_add (offset low high : Nat) (buffer : List Byte) : field offset (low + high) buffer =
      field offset low buffer + 256 ^ low * field (offset + low) high buffer := by
  have split : (buffer.drop offset).take (low + high) =
      (buffer.drop offset).take low ++ (buffer.drop (offset + low)).take high := by
    rw [take_add, drop_drop]
  rw [field, split, decode_append, ← field, ← field]
  by_cases short : (buffer.drop offset).length < low
  · have empty : field (offset + low) high buffer = 0 := by
      rw [length_drop] at short
      rw [field, drop_eq_nil_of_le (by omega), take_nil, decode]
    rw [empty, Nat.mul_zero, Nat.mul_zero]
  · rw [length_take, Nat.min_eq_left (by omega)]

end QDaemon.Bytes
