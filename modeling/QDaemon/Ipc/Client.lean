import QDaemon.Bytes.LittleEndian

/-!
# The client library

The client library has its own definition of the protocol header, 32 bytes long,
and sends a message as the header, a service name of 64 bytes and the payload.
`send_full` and `recv_full` poll the socket between partial transfers; the
outcome of each round is chosen by the environment.
-/

namespace QDaemon.Ipc

open Bytes

def qdcOk : Int := 0
def qdcErrIo : Int := -3
def qdcErrTimeout : Int := -4
def qdcErrConn : Int := -6

/-- `QDC_MAGIC`. -/
def qdcMagic : BitVec 32 := 0x51444950

/-- `QDC_VERSION`. -/
def qdcVersion : BitVec 32 := 1

/-- `QDC_MAX_NAME_LEN`. -/
def qdcMaxNameLen : Nat := 64

/-- The calls of the client library that put a message on the socket. -/
inductive QdcCall
  | request
  | notify
  deriving DecidableEq

/-- `QDC_MSG_REQUEST` and `QDC_MSG_NOTIFY`. -/
def QdcCall.msgType : QdcCall → BitVec 32
  | .request => 4
  | .notify => 6

/-- `QDC_MSG_RESPONSE`. -/
def qdcMsgResponse : BitVec 32 := 5

/-- `qdc_header_t`. -/
structure QdcHeader where
  magic : BitVec 32
  version : BitVec 32
  msgType : BitVec 32
  msgId : BitVec 32
  payloadLen : BitVec 32
  flags : BitVec 32
  timestamp : BitVec 64
  deriving DecidableEq

namespace QdcHeader

/-- `sizeof(qdc_header_t)`. -/
def size : Nat := 32

/-- The header in memory. -/
def bytes (header : QdcHeader) : List Byte :=
  encode 4 header.magic.toNat ++ (encode 4 header.version.toNat ++
    (encode 4 header.msgType.toNat ++ (encode 4 header.msgId.toNat ++
    (encode 4 header.payloadLen.toNat ++ (encode 4 header.flags.toNat ++
    encode 8 header.timestamp.toNat)))))

/-- The header at the start of a buffer. -/
def load (buffer : List Byte) : QdcHeader where
  magic := BitVec.ofNat 32 (field 0 4 buffer)
  version := BitVec.ofNat 32 (field 4 4 buffer)
  msgType := BitVec.ofNat 32 (field 8 4 buffer)
  msgId := BitVec.ofNat 32 (field 12 4 buffer)
  payloadLen := BitVec.ofNat 32 (field 16 4 buffer)
  flags := BitVec.ofNat 32 (field 20 4 buffer)
  timestamp := BitVec.ofNat 64 (field 24 8 buffer)

/-- Only the first 32 bytes of a buffer matter. -/
theorem load_take {buffer : List Byte} {n : Nat} (enough : size ≤ n) :
    load (buffer.take n) = load buffer := by
  unfold size at enough
  simp only [load]
  rw [field_take (by omega), field_take (by omega), field_take (by omega), field_take (by omega),
    field_take (by omega), field_take (by omega), field_take (by omega)]

end QdcHeader

/-! ## Sending -/

/-- What one round of polling and transferring comes to; `moved` transfers one
byte more than its argument, as far as there are as many. -/
inductive Transfer
  | timeout
  | again
  | error
  | eof
  | moved (more : Nat)

/-- `send_full`: the result, the outcomes left over and the bytes in the socket.
Without an outcome the poll times out. -/
def sendFull : List Transfer → List Byte → List Byte → Int × List Transfer × List Byte
  | outcomes, [], socket => (qdcOk, outcomes, socket)
  | [], _ :: _, socket => (qdcErrTimeout, [], socket)
  | .timeout :: rest, _ :: _, socket => (qdcErrTimeout, rest, socket)
  | .again :: rest, byte :: buf, socket => sendFull rest (byte :: buf) socket
  | .error :: rest, _ :: _, socket => (qdcErrIo, rest, socket)
  | .eof :: rest, _ :: _, socket => (qdcErrIo, rest, socket)
  | .moved more :: rest, byte :: buf, socket =>
      sendFull rest ((byte :: buf).drop (more + 1)) (socket ++ (byte :: buf).take (more + 1))

/-- The header that `qdc_request_timeout` and `qdc_notify` fill in. -/
def messageHeader (call : QdcCall) (msgId : BitVec 32) (data : List Byte) : QdcHeader where
  magic := qdcMagic
  version := qdcVersion
  msgType := call.msgType
  msgId := msgId
  payloadLen := BitVec.ofNat 32 data.length
  flags := 0
  timestamp := 0

/-- The service name in its zeroed buffer: `strncpy` copies up to the first zero
byte and at most 63 bytes. -/
def svcBuf (service : List Byte) : List Byte :=
  let copied := (service.takeWhile (· ≠ 0)).take (qdcMaxNameLen - 1)
  copied ++ List.replicate (qdcMaxNameLen - copied.length) 0

/-- A message as it should appear on the wire. -/
def messageBytes (call : QdcCall) (msgId : BitVec 32) (service data : List Byte) : List Byte :=
  (messageHeader call msgId data).bytes ++ (svcBuf service ++ data)

/-- The three parts of a message are sent one after the other, the last one only
if there is a payload; a failure ends the sequence. -/
def sendMessage (call : QdcCall) (msgId : BitVec 32) (service data : List Byte)
    (outcomes : List Transfer) (socket : List Byte) : Bool × List Transfer × List Byte :=
  match sendFull outcomes (messageHeader call msgId data).bytes socket with
  | (result, outcomes, socket) =>
      if result ≠ qdcOk then (false, outcomes, socket)
      else
        match sendFull outcomes (svcBuf service) socket with
        | (result, outcomes, socket) =>
            if result ≠ qdcOk then (false, outcomes, socket)
            else if data.length = 0 then (true, outcomes, socket)
            else
              match sendFull outcomes data socket with
              | (result, outcomes, socket) => (decide (result = qdcOk), outcomes, socket)

/-! ## Receiving -/

/-- `recv_full`: the bytes read or an error, the outcomes left over and the bytes
still in the socket. -/
def recvFull (len : Nat) :
    List Transfer → List Byte → List Byte → Except Int (List Byte) × List Transfer × List Byte
  | [], got, socket =>
      if got.length < len then (.error qdcErrTimeout, [], socket) else (.ok got, [], socket)
  | outcome :: rest, got, socket =>
      if got.length < len then
        match outcome with
        | .timeout => (.error qdcErrTimeout, rest, socket)
        | .again => recvFull len rest got socket
        | .error => (.error qdcErrIo, rest, socket)
        | .eof => (.error qdcErrConn, rest, socket)
        | .moved more =>
            let n := min (more + 1) (min (len - got.length) socket.length)
            if n = 0 then (.error qdcErrTimeout, rest, socket)
            else recvFull len rest (got ++ socket.take n) (socket.drop n)
      else (.ok got, outcome :: rest, socket)

/-- `qdc_response_t`. -/
structure QdcResponse where
  status : Int
  msgId : BitVec 32
  len : Nat
  data : List Byte
  deriving DecidableEq

/-- The second half of `qdc_request_timeout`: read the header of the response,
skip the service name, read the payload. -/
def receiveResponse (outcomes : List Transfer) (socket : List Byte) : Option QdcResponse :=
  match recvFull QdcHeader.size outcomes [] socket with
  | (.error _, _, _) => none
  | (.ok received, outcomes, socket) =>
      let header := QdcHeader.load received
      if header.magic ≠ qdcMagic ∨ header.msgType ≠ qdcMsgResponse then none
      else
        match recvFull qdcMaxNameLen outcomes [] socket with
        | (_, outcomes, socket) =>
            if header.payloadLen.toNat = 0 then some ⟨0, header.msgId, 0, []⟩
            else
              match recvFull header.payloadLen.toNat outcomes [] socket with
              | (.error _, _, _) => none
              | (.ok data, _, _) => some ⟨0, header.msgId, header.payloadLen.toNat, data⟩

/-! ## Complete transfers -/

variable {outcomes left : List Transfer} {socket : List Byte}

theorem sendFull_ok {buf sent : List Byte}
    (complete : sendFull outcomes buf socket = (qdcOk, left, sent)) : sent = socket ++ buf := by
  induction outcomes generalizing buf socket with
  | nil =>
    cases buf with
    | nil =>
      simp only [sendFull, Prod.mk.injEq] at complete
      simp [complete.2.2]
    | cons byte buf => simp [sendFull, qdcOk, qdcErrTimeout] at complete
  | cons outcome outcomes ih =>
    cases buf with
    | nil =>
      simp only [sendFull, Prod.mk.injEq] at complete
      simp [complete.2.2]
    | cons byte buf =>
      cases outcome with
      | again => exact ih complete
      | moved more =>
        rw [ih complete, List.append_assoc, List.take_append_drop]
      | _ => simp [sendFull, qdcOk, qdcErrTimeout, qdcErrIo] at complete

/-- A message whose sending succeeds is on the socket as a whole. -/
theorem sendMessage_ok {call : QdcCall} {msgId : BitVec 32} {service data : List Byte}
    {sent : List Byte}
    (complete : sendMessage call msgId service data outcomes socket = (true, left, sent)) :
    sent = socket ++ messageBytes call msgId service data := by
  unfold sendMessage at complete
  split at complete
  next result outcomes afterHeader headerEq =>
    split at complete
    · simp at complete
    next headerOk =>
      split at complete
      next result outcomes afterName nameEq =>
        split at complete
        · simp at complete
        next nameOk =>
          have headerSent := sendFull_ok (not_not.mp headerOk ▸ headerEq)
          have nameSent := sendFull_ok (not_not.mp nameOk ▸ nameEq)
          split at complete
          next empty =>
            simp only [Prod.mk.injEq, true_and] at complete
            rw [← complete.2, nameSent, headerSent, List.length_eq_zero_iff.mp empty]
            simp [messageBytes]
          · split at complete
            next result outcomes afterData dataEq =>
              simp only [Prod.mk.injEq, decide_eq_true_eq] at complete
              have dataSent := sendFull_ok (complete.1 ▸ dataEq)
              rw [← complete.2.2, dataSent, nameSent, headerSent]
              simp [messageBytes]

theorem sendMessage_ok_shortWrite : ∃ left sent, sendMessage .notify 7 [] [] [.moved 9, .moved 99,
    .moved 99] [] = (true, left, sent) ∧ sent = [] ++ messageBytes .notify 7 [] [] :=
  ⟨_, _, rfl, @sendMessage_ok [.moved 9, .moved 99, .moved 99] _ _ _ _ _ _ _ rfl⟩

theorem recvFull_ok {len : Nat} {got bytes rest : List Byte}
    (complete : recvFull len outcomes got socket = (.ok bytes, left, rest))
    (notPast : got.length ≤ len) : bytes ++ rest = got ++ socket ∧ bytes.length = len := by
  induction outcomes generalizing got socket with
  | nil =>
    simp only [recvFull] at complete
    split at complete
    · simp at complete
    · simp only [Prod.mk.injEq, Except.ok.injEq] at complete
      obtain ⟨rfl, -, rfl⟩ := complete
      exact ⟨rfl, by omega⟩
  | cons outcome outcomes ih =>
    simp only [recvFull] at complete
    split at complete
    · cases outcome with
      | again => exact ih complete notPast
      | moved more =>
        simp only at complete
        split at complete
        · simp at complete
        · obtain ⟨whole, long⟩ := ih complete (by
            rw [List.length_append, List.length_take]
            omega)
          rw [List.append_assoc, List.take_append_drop] at whole
          exact ⟨whole, long⟩
      | _ => simp at complete
    · simp only [Prod.mk.injEq, Except.ok.injEq] at complete
      obtain ⟨rfl, -, rfl⟩ := complete
      exact ⟨rfl, by omega⟩

end QDaemon.Ipc
