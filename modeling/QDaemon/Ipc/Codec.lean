import QDaemon.Ipc.Protocol

/-!
# Serializing and deserializing messages

A well-formed message is read back from its serialization.  The decoder clears
the last byte of the service name, so a buffer that it accepts is written back
with that byte cleared.
-/

namespace QDaemon.Ipc

open List Bytes Common

/-! ## Headers -/

namespace IpcHeader

/-- The header is read back from its bytes. -/
theorem load_bytes (header : IpcHeader) (rest : List Byte) :
    load (header.bytes ++ rest) = header := by
  simp only [load, bytes, append_assoc, field_encode_front, field_encode_skip, Nat.reduceLeDiff, Nat.reduceSub]
  obtain ⟨magic, version, msgType, msgId, payloadLen, flags, timestamp⟩ := header
  simp only [IpcHeader.mk.injEq]
  refine ⟨?_, ?_, ?_, ?_, ?_, ?_, ?_⟩
  all_goals
    apply BitVec.eq_of_toNat_eq
    simp only [BitVec.toNat_ofNat]
    omega

/-- The bytes of a header that was read are the bytes it was read from. -/
theorem bytes_load {buffer : List Byte} (long : size ≤ buffer.length) :
    (load buffer).bytes = buffer.take size := by
  unfold size at long
  have four (offset : Nat) : field offset 4 buffer % 2 ^ 32 = field offset 4 buffer :=
    Nat.mod_eq_of_lt (field_lt offset 4 buffer)
  have two (offset : Nat) : field offset 2 buffer % 2 ^ 16 = field offset 2 buffer :=
    Nat.mod_eq_of_lt (field_lt offset 2 buffer)
  have eight (offset : Nat) : field offset 8 buffer % 2 ^ 64 = field offset 8 buffer :=
    Nat.mod_eq_of_lt (field_lt offset 8 buffer)
  simp only [bytes, load, BitVec.toNat_ofNat, four, two, eight]
  rw [encode_field (by omega), encode_field (by omega), encode_field (by omega),
    encode_field (by omega), encode_field (by omega), encode_field (by omega),
    encode_field (by omega)]
  have whole : size = 4 + (2 + (2 + (4 + (4 + (4 + 8))))) := rfl
  rw [whole, take_add, take_add, take_add, take_add, take_add, take_add]
  simp

end IpcHeader

/-! ## Names -/

/-- The string in a `char` array. -/
def cString (bytes : List Byte) : List Byte :=
  bytes.takeWhile (· ≠ 0)

/-- Clearing the last byte of a terminated array does not change its string. -/
theorem cString_clear_last (front : List Byte) (last : Byte) (terminated : 0 ∈ front ++ [last]) :
    cString (front ++ [0]) = cString (front ++ [last]) := by
  induction front with
  | nil =>
    rw [nil_append, mem_singleton] at terminated
    rw [← terminated]
  | cons byte front ih =>
    by_cases zero : byte = 0
    · simp [cString, zero]
    · have tails := ih ((mem_cons.mp terminated).resolve_left (Ne.symm zero))
      simp only [cString, cons_append, takeWhile_cons] at tails ⊢
      rw [tails]

/-- The decoder keeps the string of a terminated name. -/
theorem cString_loadService {bytes : List Byte} (length : bytes.length = ipcMaxNameLen)
    (terminated : 0 ∈ bytes) (long : ipcMaxNameLen ≤ bytes.length) :
    cString (loadService bytes long).val = cString bytes := by
  have notEmpty : bytes ≠ [] := ne_nil_of_mem terminated
  have split : bytes = bytes.take (ipcMaxNameLen - 1) ++ [bytes.getLast notEmpty] := by
    rw [← length, ← dropLast_eq_take, dropLast_concat_getLast]
  rw [split] at terminated
  have same := cString_clear_last _ _ terminated
  rw [← split] at same
  exact same

/-! ## Messages -/

/-- A message with the protocol's magic and version, a payload of the announced
length that is not too long, and a terminated service name. -/
structure WellFormedMsg (msg : IpcMsg) : Prop where
  magic : msg.header.magic = ipcMagic
  version : msg.header.version = ipcVersion
  bounded : msg.header.payloadLen.toNat ≤ ipcMaxMsgSize
  payloadLen : msg.header.payloadLen.toNat = msg.payload.length
  terminated : 0 ∈ msg.service.val

/-- What a buffer has to satisfy in order to be decoded: it is complete, with the
right magic and version and an announced payload that is not too long. -/
structure Decodable (buffer : List Byte) : Prop where
  headerAndName : IpcHeader.size + ipcMaxNameLen ≤ buffer.length
  magic : (IpcHeader.load buffer).magic = ipcMagic
  version : (IpcHeader.load buffer).version = ipcVersion
  bounded : (IpcHeader.load buffer).payloadLen.toNat ≤ ipcMaxMsgSize
  complete : msgTotalSize (IpcHeader.load buffer) ≤ buffer.length

/-- The decoder accepts the decodable buffers and rejects the others with one
error. -/
theorem msgDeserialize_cases (buffer : List Byte) :
    (Decodable buffer ∧ ∃ long, msgDeserialize buffer = .ok
        { header := IpcHeader.load buffer
          service := loadService (buffer.drop IpcHeader.size) long
          payload := (buffer.drop (IpcHeader.size + ipcMaxNameLen)).take
            (IpcHeader.load buffer).payloadLen.toNat }) ∨
      (¬ Decodable buffer ∧ msgDeserialize buffer = .error qdErrProto) := by
  unfold msgDeserialize
  split
  next short => exact .inr ⟨fun ok => absurd ok.headerAndName (Nat.not_le.mpr short), rfl⟩
  next long =>
    simp only
    split
    next magic => exact .inr ⟨fun ok => magic ok.magic, rfl⟩
    next magic =>
      split
      next version => exact .inr ⟨fun ok => version ok.version, rfl⟩
      next version =>
        split
        next big => exact .inr ⟨fun ok => absurd ok.bounded (Nat.not_le.mpr big), rfl⟩
        next bounded =>
          split
          next cut => exact .inr ⟨fun ok => absurd ok.complete (Nat.not_le.mpr cut), rfl⟩
          next complete =>
            have nameLong : ipcMaxNameLen ≤ (buffer.drop IpcHeader.size).length := by
              rw [length_drop]
              omega
            exact .inl ⟨⟨Nat.not_lt.mp long, not_not.mp magic, not_not.mp version,
              Nat.not_lt.mp bounded, Nat.not_lt.mp complete⟩, nameLong, rfl⟩

variable {msg : IpcMsg}

section

variable (wellFormed : WellFormedMsg msg)
include wellFormed

variable (memory : Nat → Byte)
include memory

/-- The serialization of a well-formed message is its header, its name and its
payload. -/
theorem WellFormedMsg.msgSerialize_eq :
    msgSerialize memory msg = msg.header.bytes ++ (msg.service.val ++ msg.payload) := by
  rw [msgSerialize, wellFormed.payloadLen]
  split
  next empty => rw [empty, length_nil, range_zero, map_nil]
  · rw [take_length]

theorem WellFormedMsg.length_msgSerialize :
    (msgSerialize memory msg).length = msgTotalSize msg.header := by
  rw [wellFormed.msgSerialize_eq, length_append, length_append, IpcHeader.length_bytes,
    msg.service.property, msgTotalSize, wellFormed.payloadLen, Nat.add_assoc]

/-- A well-formed message is read back, with the last byte of the name cleared;
bytes after the message do not matter. -/
theorem WellFormedMsg.msgDeserialize_append (rest : List Byte) :
    ∃ long, msgDeserialize (msgSerialize memory msg ++ rest) =
      .ok { msg with service := loadService msg.service.val long } := by
  have headerEq : IpcHeader.load (msgSerialize memory msg ++ rest) = msg.header := by
    rw [wellFormed.msgSerialize_eq, append_assoc, IpcHeader.load_bytes]
  have size := wellFormed.length_msgSerialize memory
  have total : msgTotalSize msg.header ≤ (msgSerialize memory msg ++ rest).length := by
    rw [length_append, size]
    exact Nat.le_add_right _ _
  have decodable : Decodable (msgSerialize memory msg ++ rest) := by
    constructor
    · exact Nat.le_trans (Nat.le_add_right _ _) total
    · rw [headerEq]
      exact wellFormed.magic
    · rw [headerEq]
      exact wellFormed.version
    · rw [headerEq]
      exact wellFormed.bounded
    · rw [headerEq]
      exact total
  have afterHeader : (msgSerialize memory msg ++ rest).drop IpcHeader.size =
      msg.service.val ++ (msg.payload ++ rest) := by
    rw [wellFormed.msgSerialize_eq, append_assoc, append_assoc]
    exact drop_left' (IpcHeader.length_bytes msg.header)
  refine ⟨msg.service.property.ge, ?_⟩
  rcases msgDeserialize_cases (msgSerialize memory msg ++ rest) with
    ⟨-, long, accepted⟩ | ⟨rejected, -⟩
  · rw [accepted]
    simp only [Except.ok.injEq, IpcMsg.mk.injEq]
    refine ⟨headerEq, Subtype.ext ?_, ?_⟩
    · change List.take _ _ ++ [0] = List.take _ _ ++ [0]
      have inside : ipcMaxNameLen - 1 ≤ msg.service.val.length := by
        rw [msg.service.property]
        exact Nat.sub_le _ _
      rw [afterHeader, take_append_of_le_length inside]
    · rw [← drop_drop, afterHeader, drop_left' msg.service.property, headerEq,
        wellFormed.payloadLen, take_left]
  · exact absurd decodable rejected

end

/-- Writing back an accepted buffer clears the last byte of the name. -/
theorem msgSerialize_of_accepted {buffer : List Byte} (accepted : msgDeserialize buffer = .ok msg)
    (memory : Nat → Byte) : msgSerialize memory msg =
      (buffer.take (msgTotalSize msg.header)).set (IpcHeader.size + ipcMaxNameLen - 1) 0 := by
  rcases msgDeserialize_cases buffer with ⟨decodable, long, result⟩ | ⟨-, rejected⟩
  · rw [result] at accepted
    obtain rfl := Except.ok.inj accepted
    have complete := decodable.complete
    unfold msgTotalSize at complete
    have payloadLength : ((buffer.drop (IpcHeader.size + ipcMaxNameLen)).take
        (IpcHeader.load buffer).payloadLen.toNat).length =
        (IpcHeader.load buffer).payloadLen.toNat := by
      rw [length_take, length_drop]
      omega
    have payloadEq : msgSerialize memory
        { header := IpcHeader.load buffer
          service := loadService (buffer.drop IpcHeader.size) long
          payload := (buffer.drop (IpcHeader.size + ipcMaxNameLen)).take
            (IpcHeader.load buffer).payloadLen.toNat } =
        buffer.take IpcHeader.size ++ ((buffer.drop IpcHeader.size).take (ipcMaxNameLen - 1) ++
          0 :: (buffer.drop (IpcHeader.size + ipcMaxNameLen)).take
            (IpcHeader.load buffer).payloadLen.toNat) := by
      have header : (IpcHeader.load buffer).bytes = buffer.take IpcHeader.size :=
        IpcHeader.bytes_load (by omega)
      simp only [msgSerialize, header, loadService, append_assoc, singleton_append]
      split
      next empty =>
        rw [empty, length_nil] at payloadLength
        rw [empty, ← payloadLength, range_zero, map_nil]
      · rw [take_take, Nat.min_self]
    have sizes : IpcHeader.size + ipcMaxNameLen - 1 = 91 ∧ IpcHeader.size + ipcMaxNameLen = 91 + 1 :=
      ⟨rfl, rfl⟩
    have inside : 91 < buffer.length := by omega
    rw [payloadEq, msgTotalSize, sizes.2, Nat.add_assoc 91, take_add,
      drop_eq_getElem_cons inside, Nat.add_comm 1, take_succ_cons,
      set_append_right _ _ (by rw [length_take]; omega), length_take,
      Nat.min_eq_left inside.le, ← append_assoc,
      ← take_add]
    rfl
  · rw [rejected] at accepted
    cases accepted

/-! ## The codec -/

/-- A well-formed message is read back with its header, its name and its payload.
A buffer that is accepted is written back up to the last byte of the name, which
the decoder clears.  Exactly the buffers that are cut short, have another magic
or version or announce too long a payload are rejected. -/
theorem codec_roundTrip (memory : Nat → Byte) : (∀ msg, WellFormedMsg msg → ∃ decoded,
      msgDeserialize (msgSerialize memory msg) = .ok decoded ∧ decoded.header = msg.header ∧
        cString decoded.service.val = cString msg.service.val ∧ decoded.payload = msg.payload) ∧
    (∀ buffer msg, msgDeserialize buffer = .ok msg →
      msgTotalSize msg.header ≤ buffer.length ∧ msgSerialize memory msg =
        (buffer.take (msgTotalSize msg.header)).set (IpcHeader.size + ipcMaxNameLen - 1) 0) ∧
    (∀ buffer, msgDeserialize buffer = .error qdErrProto ↔
      buffer.length < IpcHeader.size + ipcMaxNameLen ∨
        (IpcHeader.load buffer).magic ≠ ipcMagic ∨ (IpcHeader.load buffer).version ≠ ipcVersion ∨
        ipcMaxMsgSize < (IpcHeader.load buffer).payloadLen.toNat ∨
        buffer.length < msgTotalSize (IpcHeader.load buffer)) := by
  refine ⟨fun msg wellFormed => ?_, fun buffer msg accepted => ?_, fun buffer => ?_⟩
  · obtain ⟨long, decoded⟩ := wellFormed.msgDeserialize_append memory []
    rw [append_nil] at decoded
    exact ⟨_, decoded, rfl,
      cString_loadService msg.service.property wellFormed.terminated long, rfl⟩
  · refine ⟨?_, msgSerialize_of_accepted accepted memory⟩
    rw [header_of_msgDeserialize accepted]
    rcases msgDeserialize_cases buffer with ⟨decodable, -⟩ | ⟨-, rejected⟩
    · exact decodable.complete
    · rw [rejected] at accepted
      cases accepted
  · rcases msgDeserialize_cases buffer with ⟨decodable, long, result⟩ | ⟨rejected, result⟩
    · rw [result]
      refine iff_of_false (by simp) ?_
      rintro (short | magic | version | big | cut)
      · exact absurd decodable.headerAndName (Nat.not_le.mpr short)
      · exact magic decodable.magic
      · exact version decodable.version
      · exact absurd decodable.bounded (Nat.not_le.mpr big)
      · exact absurd decodable.complete (Nat.not_le.mpr cut)
    · refine iff_of_true result ?_
      by_contra none_
      simp only [not_or, Nat.not_lt, not_not] at none_
      obtain ⟨long, magic, version, bounded, complete⟩ := none_
      exact rejected ⟨long, magic, version, bounded, complete⟩

/-- A notification for the service "a" with the payload bytes 7 and 8. -/
def sampleMsg : IpcMsg where
  header := ⟨ipcMagic, ipcVersion, 6, 3, 2, 1, 99⟩
  service := ⟨97 :: List.replicate 63 0, by simp [ipcMaxNameLen]⟩
  payload := [7, 8]

theorem codec_roundTrip_sampleMsg : WellFormedMsg sampleMsg ∧ ∃ decoded,
      msgDeserialize (msgSerialize (fun _ => 0) sampleMsg) = .ok decoded ∧
        decoded.header = sampleMsg.header ∧ cString decoded.service.val = [97] ∧
        decoded.payload = [7, 8] := by
  have wellFormed : WellFormedMsg sampleMsg := ⟨rfl, rfl, by decide, rfl, by decide⟩
  obtain ⟨decoded, decodedEq, headerEq, nameEq, payloadEq⟩ :=
    (codec_roundTrip fun _ => 0).1 sampleMsg wellFormed
  refine ⟨wellFormed, decoded, decodedEq, headerEq, ?_, payloadEq⟩
  rw [nameEq]
  decide

/-- A message without payload whose name field holds 64 letters. -/
def unterminatedName : List Byte :=
  (IpcHeader.mk ipcMagic ipcVersion 6 3 0 0 0).bytes ++ List.replicate 64 97

/-- The name without a terminating zero is accepted, and written back with one. -/
theorem accepted_not_rewritten_unterminatedName : ∃ msg, msgDeserialize unterminatedName = .ok msg ∧
      msgSerialize (fun _ => 0) msg ≠ unterminatedName.take (msgTotalSize msg.header) := by
  have outcome : ∃ msg, msgDeserialize unterminatedName = .ok msg := ⟨_, rfl⟩
  obtain ⟨msg, accepted⟩ := outcome
  refine ⟨msg, accepted, fun same => ?_⟩
  rw [msgSerialize_of_accepted accepted, header_of_msgDeserialize accepted] at same
  cases same

end QDaemon.Ipc
