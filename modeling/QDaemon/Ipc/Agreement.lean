import QDaemon.Ipc.Client
import QDaemon.Ipc.Server

/-!
# Client library and server on one wire

The client library writes `version` and `msg_type` as 32-bit fields, the server
reads them as 16-bit fields.  From the second word on, every field that one side
reads is a different field of the other side.
-/

namespace QDaemon.Ipc

open Bytes Common

/-! ## Reading the other side's header -/

/-- The server's view of a client header: the message type is the upper half of
the version, and every later field is the client's field before it. -/
theorem IpcHeader.load_qdcHeader (header : QdcHeader) (rest : List Byte) :
    IpcHeader.load (header.bytes ++ rest) =
      { magic := header.magic
        version := BitVec.ofNat 16 header.version.toNat
        msgType := BitVec.ofNat 16 (header.version.toNat / 2 ^ 16)
        msgId := header.msgType
        payloadLen := header.msgId
        flags := header.payloadLen
        timestamp := BitVec.ofNat 64 (header.flags.toNat + 2 ^ 32 * header.timestamp.toNat) } := by
  have version := encode_add 2 2 header.version.toNat
  have timestamp := encode_add 4 4 header.timestamp.toNat
  have wide (buffer : List Byte) := field_add 0 4 4 buffer
  simp only [Nat.reduceAdd] at version timestamp wide
  simp only [load, QdcHeader.bytes, version, timestamp, List.append_assoc, wide,
    field_encode_front, field_encode_skip, Nat.reduceLeDiff, Nat.reduceSub,
    IpcHeader.mk.injEq]
  refine ⟨?_, ?_, ?_, ?_, ?_, ?_, ?_⟩ <;>
    refine BitVec.eq_of_toNat_eq ?_ <;> simp only [BitVec.toNat_ofNat] <;> omega

/-- The client's view of a server header: every field after the version is the
server's field after it. -/
theorem QdcHeader.load_ipcHeader (header : IpcHeader) (rest : List Byte) :
    QdcHeader.load (header.bytes ++ rest) =
      { magic := header.magic
        version := BitVec.ofNat 32 (header.version.toNat + 2 ^ 16 * header.msgType.toNat)
        msgType := header.msgId
        msgId := header.payloadLen
        payloadLen := header.flags
        flags := BitVec.ofNat 32 header.timestamp.toNat
        timestamp := BitVec.ofNat 64
          (header.timestamp.toNat / 2 ^ 32 + 2 ^ 32 * field 0 4 rest) } := by
  have version (buffer : List Byte) := field_add 4 2 2 buffer
  have timestamp := encode_add 4 4 header.timestamp.toNat
  have wide (buffer : List Byte) := field_add 24 4 4 buffer
  simp only [Nat.reduceAdd] at version timestamp wide
  -- the wide fields are split before any offset changes
  simp only [load, version, wide]
  simp only [IpcHeader.bytes, timestamp, List.append_assoc, field_encode_front, field_encode_skip,
    Nat.reduceLeDiff, Nat.reduceSub, QdcHeader.mk.injEq]
  refine ⟨?_, ?_, ?_, ?_, ?_, ?_, ?_⟩ <;>
    refine BitVec.eq_of_toNat_eq ?_ <;> simp only [BitVec.toNat_ofNat] <;> omega

/-! ## Requests and notifications -/

/-- The server's message carries what the client put into its call: the type, the
id, the length, the name cut to 63 bytes and the payload. -/
def Carries (msg : IpcMsg) (call : QdcCall) (msgId : BitVec 32) (service data : List Byte) : Prop :=
  msg.header.msgType.toNat = call.msgType.toNat ∧ msg.header.msgId = msgId ∧
    msg.header.payloadLen.toNat = data.length ∧ msg.service.val = svcBuf service ∧
    msg.payload = data

/-- Whatever the client sends, the server reads message type zero. -/
theorem msgType_of_stream (call : QdcCall) (msgId : BitVec 32) (data rest : List Byte) :
    (IpcHeader.load ((messageHeader call msgId data).bytes ++ rest)).msgType = 0 := by
  rw [IpcHeader.load_qdcHeader]
  change BitVec.ofNat 16 (qdcVersion.toNat / 2 ^ 16) = 0
  decide

variable {data : List Byte}

/-- The message that the server takes off a client's stream does not carry what
the client sent. -/
theorem not_carries {call : QdcCall} {msgId : BitVec 32} {service rest : List Byte}
    {recvCap : Nat} {callbacks : List (List Nat)} {msg : IpcMsg}
    (dispatched : (serve callbacks (connCreate recvCap
      ((messageHeader call msgId data).bytes ++ rest))).dispatched = [msg]) :
    ¬ Carries msg call msgId service data := by
  rintro ⟨typeEq, -⟩
  have first := (firstHeader_connCreate recvCap
    ((messageHeader call msgId data).bytes ++ rest)).serve callbacks
  rw [FirstHeader, dispatched] at first
  have headerEq : msg.header = _ := first
  rw [headerEq, msgType_of_stream] at typeEq
  cases call <;> cases typeEq

/-! ## Replies -/

/-- The client's response carries the id and the payload of the server's reply;
`receiveResponse` has checked the type. -/
def Recovers (response : QdcResponse) (msgId : BitVec 32) (data : List Byte) : Prop :=
  response.msgId = msgId ∧ response.data = data

/-- The header of a reply: the id of the request and the length of the payload,
with no flags. -/
theorem header_of_serverReply {request reply : IpcMsg} {timestamp : BitVec 64}
    (replied : serverReply request timestamp data = .ok reply) :
    reply.header.msgId = request.header.msgId ∧ reply.header.flags = 0 ∧
      reply.header.payloadLen.toNat = data.length := by
  simp only [serverReply] at replied
  split at replied
  next empty =>
    obtain rfl := Except.ok.inj replied
    exact ⟨rfl, rfl, by rw [empty]; rfl⟩
  · split at replied
    · simp at replied
    next response payloadEq =>
      obtain rfl := Except.ok.inj replied
      rw [msgSetPayload] at payloadEq
      split at payloadEq
      · simp at payloadEq
      next fits =>
        obtain rfl := Except.ok.inj payloadEq
        refine ⟨rfl, rfl, ?_⟩
        unfold ipcMaxMsgSize at fits
        rw [BitVec.toNat_ofNat]
        omega

/-- What the client makes of a response: it has the id and the length of the
header at the start of the stream, whose type says response. -/
theorem header_of_receiveResponse {outcomes : List Transfer} {socket : List Byte}
    {response : QdcResponse} (received : receiveResponse outcomes socket = some response) :
    (QdcHeader.load (socket.take QdcHeader.size)).msgType = qdcMsgResponse ∧
      response.msgId = (QdcHeader.load (socket.take QdcHeader.size)).msgId ∧
      response.data.length = (QdcHeader.load (socket.take QdcHeader.size)).payloadLen.toNat := by
  unfold receiveResponse at received
  split at received
  · simp at received
  next start _ _ headerEq =>
    obtain ⟨whole, long⟩ := recvFull_ok headerEq (Nat.zero_le _)
    have startEq : socket.take QdcHeader.size = start := by
      rw [← List.nil_append socket, ← whole, ← long, List.take_left]
    rw [startEq]
    simp only at received
    split at received
    · simp at received
    next checked =>
      have typeEq := not_not.mp (not_or.mp checked).2
      split at received
      next empty =>
        cases received
        exact ⟨typeEq, rfl, empty.symm⟩
      · split at received
        · simp at received
        next data _ _ dataEq =>
          cases received
          exact ⟨typeEq, rfl, (recvFull_ok dataEq (Nat.zero_le _)).2⟩

/-- No reply of the server is recovered by the client: the id it reads is the
length of the payload, and the length it reads is zero. -/
theorem not_recovers {request reply : IpcMsg} {timestamp : BitVec 64} {rest : List Byte}
    {memory : Nat → Byte} {outcomes : List Transfer} {response : QdcResponse}
    (replied : serverReply request timestamp data = .ok reply)
    (received : receiveResponse outcomes (msgSerialize memory reply ++ rest) = some response) :
    ¬ Recovers response request.header.msgId data := by
  rintro ⟨idEq, dataEq⟩
  obtain ⟨replyId, noFlags, lengthEq⟩ := header_of_serverReply replied
  obtain ⟨typeEq, idRead, lengthRead⟩ := header_of_receiveResponse received
  rw [QdcHeader.load_take le_rfl, msgSerialize, List.append_assoc,
    QdcHeader.load_ipcHeader] at typeEq idRead lengthRead
  simp only [noFlags] at typeEq idRead lengthRead
  -- an empty payload has length zero, but the id of the reply is its length
  have idIsLength : qdcMsgResponse.toNat = data.length := by
    rw [← typeEq, replyId, ← idEq, idRead, lengthEq]
  rw [← dataEq, lengthRead] at idIsLength
  cases idIsLength

/-! ## Disagreement -/

/-- Client library and server do not agree on any message.  However the bytes of
a request or a notification are cut into reads, and whatever the size of the
receive buffer, the server does not dispatch one message that carries what was
sent; and whatever the server replies, the client does not recover it. -/
theorem client_server_disagree (call : QdcCall) (msgId : BitVec 32)
    (service data : List Byte) (recvCap : Nat) (callbacks : List (List Nat)) (request : IpcMsg)
    (timestamp : BitVec 64) (replyData rest : List Byte) (memory : Nat → Byte)
    (outcomes : List Transfer) : (¬ ∃ msg, (serve callbacks (connCreate recvCap
        (messageBytes call msgId service data))).dispatched = [msg] ∧
          Carries msg call msgId service data) ∧
    (¬ ∃ reply response, serverReply request timestamp replyData = .ok reply ∧
        receiveResponse outcomes (msgSerialize memory reply ++ rest) = some response ∧
          Recovers response request.header.msgId replyData) := by
  constructor
  · rintro ⟨msg, dispatched, carries⟩
    exact not_carries dispatched carries
  · rintro ⟨reply, response, replied, received, same⟩
    exact not_recovers replied received same

/-- A request to the service "echo" with the payload byte 7 and message id 1 is
dispatched with type 0, id 4 and the payload length 1 read from the id. -/
theorem request_misread_echo : ∃ left sent msg,
      sendMessage .request 1 [101, 99, 104, 111] [7] [.moved 99, .moved 99, .moved 99] [] =
        (true, left, sent) ∧
      (serve [[4095]] (connCreate 8192 sent)).dispatched = [msg] ∧
      msg.header.msgType = 0 ∧ msg.header.msgId = 4 ∧ msg.header.payloadLen = 1 ∧
      msg.payload = [0] ∧ ¬ Carries msg .request 1 [101, 99, 104, 111] [7] := by
  obtain ⟨left, sent, sentEq⟩ : ∃ left sent,
      sendMessage .request 1 [101, 99, 104, 111] [7] [.moved 99, .moved 99, .moved 99] [] =
        (true, left, sent) := ⟨_, _, rfl⟩
  have outcome : (serve [[4095]] (connCreate 8192 sent)).dispatched.map (fun msg =>
      (msg.header.msgType, msg.header.msgId, msg.header.payloadLen, msg.payload)) =
      [(0, 4, 1, [0])] := by
    obtain rfl : _ = sent := congrArg (fun outcome => outcome.2.2) sentEq
    decide +kernel
  obtain ⟨msg, dispatched, facts⟩ := List.map_eq_singleton_iff.mp outcome
  simp only [Prod.mk.injEq] at facts
  refine ⟨left, sent, msg, sentEq, dispatched, facts.1, facts.2.1, facts.2.2.1, facts.2.2.2, ?_⟩
  rintro ⟨-, -, -, -, payloadEq⟩
  rw [facts.2.2.2] at payloadEq
  cases payloadEq

end QDaemon.Ipc
