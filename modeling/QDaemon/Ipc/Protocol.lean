import QDaemon.Bytes.LittleEndian
import QDaemon.Common

/-!
# Messages of the IPC server

The header of the server is a packed structure of 28 bytes.  A message on the
wire is the header, a service name of 64 bytes and the payload.
-/

namespace QDaemon.Ipc

open Bytes Common

/-- `QD_IPC_MAGIC`, "QDIP". -/
def ipcMagic : BitVec 32 := 0x51444950

/-- `QD_IPC_VERSION`. -/
def ipcVersion : BitVec 16 := 1

/-- `QD_IPC_MAX_MSG_SIZE`. -/
def ipcMaxMsgSize : Nat := 64 * 1024

/-- `QD_IPC_MAX_NAME_LEN`. -/
def ipcMaxNameLen : Nat := 64

/-- `QD_IPC_MSG_RESPONSE`. -/
def ipcMsgResponse : BitVec 16 := 5

/-- `qd_ipc_header_t`. -/
structure IpcHeader where
  magic : BitVec 32
  version : BitVec 16
  msgType : BitVec 16
  msgId : BitVec 32
  payloadLen : BitVec 32
  flags : BitVec 32
  timestamp : BitVec 64
  deriving DecidableEq

namespace IpcHeader

/-- `sizeof(qd_ipc_header_t)`. -/
def size : Nat := 28

/-- The header in memory. -/
def bytes (header : IpcHeader) : List Byte :=
  encode 4 header.magic.toNat ++ (encode 2 header.version.toNat ++
    (encode 2 header.msgType.toNat ++ (encode 4 header.msgId.toNat ++
    (encode 4 header.payloadLen.toNat ++ (encode 4 header.flags.toNat ++
    encode 8 header.timestamp.toNat)))))

/-- The header at the start of a buffer. -/
def load (buffer : List Byte) : IpcHeader where
  magic := BitVec.ofNat 32 (field 0 4 buffer)
  version := BitVec.ofNat 16 (field 4 2 buffer)
  msgType := BitVec.ofNat 16 (field 6 2 buffer)
  msgId := BitVec.ofNat 32 (field 8 4 buffer)
  payloadLen := BitVec.ofNat 32 (field 12 4 buffer)
  flags := BitVec.ofNat 32 (field 16 4 buffer)
  timestamp := BitVec.ofNat 64 (field 20 8 buffer)

@[simp]
theorem length_bytes (header : IpcHeader) : header.bytes.length = size := by
  simp [bytes, size]

variable {buffer : List Byte}

/-- Only the first 28 bytes of a buffer matter. -/
theorem load_take {n : Nat} (enough : size ≤ n) : load (buffer.take n) = load buffer := by
  unfold size at enough
  simp only [load]
  rw [field_take (by omega), field_take (by omega), field_take (by omega), field_take (by omega),
    field_take (by omega), field_take (by omega), field_take (by omega)]

theorem load_of_prefix {front : List Byte} (starts : front <+: buffer)
    (enough : size ≤ front.length) : load front = load buffer := by
  rw [List.prefix_iff_eq_take.mp starts]
  exact load_take enough

end IpcHeader

/-- A `char` array for a service name. -/
abbrev NameField := { bytes : List Byte // bytes.length = ipcMaxNameLen }

/-- `struct qd_ipc_msg`: the header, the service name and the payload buffer,
which is empty for `NULL`. -/
structure IpcMsg where
  header : IpcHeader
  service : NameField
  payload : List Byte
  deriving DecidableEq

/-- `qd_ipc_msg_init`; `timestamp` is the clock. -/
def msgInit (msgType : BitVec 16) (timestamp : BitVec 64) : IpcMsg where
  header :=
    { magic := ipcMagic
      version := ipcVersion
      msgType := msgType
      msgId := 0
      payloadLen := 0
      flags := 0
      timestamp := timestamp }
  service := ⟨List.replicate ipcMaxNameLen 0, List.length_replicate⟩
  payload := []

/-- `qd_ipc_msg_set_payload`. -/
def msgSetPayload (msg : IpcMsg) (payload : List Byte) : Except Int IpcMsg :=
  if ipcMaxMsgSize < payload.length then .error qdErrInval
  else .ok
    { msg with
      header := { msg.header with payloadLen := BitVec.ofNat 32 payload.length }
      payload := payload }

/-- `qd_ipc_msg_serialize`.  Without a payload buffer the payload bytes are what
the allocated `memory` holds. -/
def msgSerialize (memory : Nat → Byte) (msg : IpcMsg) : List Byte :=
  msg.header.bytes ++ (msg.service.val ++
    (if msg.payload = [] then (List.range msg.header.payloadLen.toNat).map memory
    else msg.payload.take msg.header.payloadLen.toNat))

/-- `qd_ipc_msg_total_size`. -/
def msgTotalSize (header : IpcHeader) : Nat :=
  IpcHeader.size + ipcMaxNameLen + header.payloadLen.toNat

/-- A service name out of a buffer, with its last byte cleared. -/
def loadService (buffer : List Byte) (long : ipcMaxNameLen ≤ buffer.length) : NameField :=
  ⟨buffer.take (ipcMaxNameLen - 1) ++ [0], by
    have : ipcMaxNameLen = 64 := rfl
    simp only [List.length_append, List.length_take, List.length_singleton]
    omega⟩

/-- `qd_ipc_msg_deserialize`. -/
def msgDeserialize (buffer : List Byte) : Except Int IpcMsg :=
  if short : buffer.length < IpcHeader.size + ipcMaxNameLen then .error qdErrProto
  else
    let header := IpcHeader.load buffer
    if header.magic ≠ ipcMagic then .error qdErrProto
    else if header.version ≠ ipcVersion then .error qdErrProto
    else if ipcMaxMsgSize < header.payloadLen.toNat then .error qdErrProto
    else if buffer.length < IpcHeader.size + ipcMaxNameLen + header.payloadLen.toNat then
      .error qdErrProto
    else .ok
      { header := header
        service := loadService (buffer.drop IpcHeader.size) (by
          rw [List.length_drop]
          omega)
        payload := (buffer.drop (IpcHeader.size + ipcMaxNameLen)).take header.payloadLen.toNat }

/-- An accepted message has the header that the buffer starts with. -/
theorem header_of_msgDeserialize {msg : IpcMsg} (accepted : msgDeserialize buffer = .ok msg) :
    msg.header = IpcHeader.load buffer := by
  simp only [msgDeserialize] at accepted
  repeat' split at accepted
  all_goals simp only [reduceCtorEq, Except.ok.injEq] at accepted
  rw [← accepted]

end QDaemon.Ipc
