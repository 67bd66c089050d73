import QDaemon.Ipc.Codec
import QDaemon.Ipc.Server

/-!
# Taking messages off a stream

However a stream of messages is cut into reads, the messages that have been
dispatched, those in the receive buffer and those still in the socket are the
messages of the stream, in order.
-/

namespace QDaemon.Ipc

open Option List Bytes Common

/-- The messages on the wire, one after the other. -/
def stream (memory : Nat → Byte) (msgs : List IpcMsg) : List Byte :=
  (msgs.map (msgSerialize memory)).flatten

/-- What a message says: its header, the string in its name field and its
payload. -/
def IpcMsg.contents (msg : IpcMsg) : IpcHeader × List Byte × List Byte :=
  (msg.header, cString msg.service.val, msg.payload)

section Stream

variable {memory : Nat → Byte} {msg : IpcMsg} {msgs : List IpcMsg}
variable {conn : IpcConn}

@[simp]
theorem stream_nil : stream memory [] = [] := rfl

@[simp]
theorem stream_cons : stream memory (msg :: msgs) = msgSerialize memory msg ++ stream memory msgs :=
  rfl

/-- A well-formed message at the front is read back. -/
theorem WellFormedMsg.msgDeserialize_contents (wellFormed : WellFormedMsg msg)
    (memory : Nat → Byte) (rest : List Byte) :
    ∃ received, msgDeserialize (msgSerialize memory msg ++ rest) = .ok received ∧
      received.contents = msg.contents := by
  obtain ⟨long, decoded⟩ := wellFormed.msgDeserialize_append memory rest
  refine ⟨_, decoded, ?_⟩
  simp [IpcMsg.contents, cString_loadService msg.service.property wellFormed.terminated long]

variable {buffer more : List Byte}

section

variable (wellFormed : WellFormedMsg msg)
include wellFormed

/-- A message that is not complete stays in the buffer. -/
theorem takeMessages_of_incomplete {rest : List Byte}
    (whole : buffer ++ more = msgSerialize memory msg ++ rest)
    (incomplete : buffer.length < msgTotalSize msg.header) :
    takeMessages buffer = ([], some buffer) := by
  rw [takeMessages]
  split
  next long =>
    have headerEq : IpcHeader.load buffer = msg.header := by
      rw [IpcHeader.load_of_prefix ⟨more, whole⟩ long, wellFormed.msgSerialize_eq, append_assoc,
        IpcHeader.load_bytes]
    rw [headerEq, if_neg (not_not.mpr wellFormed.magic)]
    exact if_pos incomplete
  · rfl

/-- A complete message is taken off the buffer. -/
theorem takeMessages_of_complete (memory : Nat → Byte) (rest : List Byte) :
    ∃ received, received.contents = msg.contents ∧
      takeMessages (msgSerialize memory msg ++ rest) =
        (received :: (takeMessages rest).1, (takeMessages rest).2) := by
  have length := wellFormed.length_msgSerialize memory
  have long : IpcHeader.size ≤ (msgSerialize memory msg ++ rest).length := by
    rw [length_append, length, msgTotalSize]
    omega
  have headerEq : IpcHeader.load (msgSerialize memory msg ++ rest) = msg.header := by
    rw [wellFormed.msgSerialize_eq, append_assoc, IpcHeader.load_bytes]
  obtain ⟨received, decoded, contentsEq⟩ := wellFormed.msgDeserialize_contents memory []
  refine ⟨received, contentsEq, ?_⟩
  rw [takeMessages, if_pos long]
  simp only [headerEq]
  rw [if_neg (not_not.mpr wellFormed.magic), if_neg (by rw [length_append]; omega),
    ← length, take_left, drop_left]
  rw [append_nil] at decoded
  rw [decoded]

end

variable (wellFormed : ∀ msg ∈ msgs, WellFormedMsg msg)
include wellFormed

/-- A whole stream is taken off completely. -/
theorem takeMessages_stream (memory : Nat → Byte) :
    (takeMessages (stream memory msgs)).1.map IpcMsg.contents = msgs.map IpcMsg.contents := by
  induction msgs with
  | nil =>
    rw [stream_nil, takeMessages, if_neg (by decide)]
  | cons msg msgs ih =>
    obtain ⟨received, contentsEq, taken⟩ := takeMessages_of_complete
      (wellFormed msg mem_cons_self) memory (stream memory msgs)
    rw [stream_cons, taken, map_cons, map_cons, contentsEq,
      ih fun other mem => wellFormed other (mem_cons_of_mem _ mem)]

/-- The start of a stream: complete messages are taken off, and the rest of the
stream is left. -/
theorem takeMessages_of_prefix (whole : buffer ++ more = stream memory msgs) :
    ∃ taken left received rest, msgs = taken ++ left ∧ takeMessages buffer = (received, some rest) ∧
      received.map IpcMsg.contents = taken.map IpcMsg.contents ∧
      rest.length ≤ buffer.length ∧ rest ++ more = stream memory left ∧
      takeMessages rest = ([], some rest) := by
  induction msgs generalizing buffer with
  | nil =>
    rw [stream_nil, append_eq_nil_iff] at whole
    obtain ⟨rfl, rfl⟩ := whole
    have stays : takeMessages [] = ([], some []) := by
      rw [takeMessages, if_neg (by decide)]
    exact ⟨[], [], [], [], rfl, stays, rfl, le_rfl, rfl, stays⟩
  | cons msg msgs ih =>
    have first := wellFormed msg mem_cons_self
    have length := first.length_msgSerialize memory
    by_cases incomplete : buffer.length < msgTotalSize msg.header
    · have stays := takeMessages_of_incomplete first whole incomplete
      exact ⟨[], msg :: msgs, [], buffer, rfl, stays, rfl, le_rfl, whole, stays⟩
    · -- the buffer starts with the whole message
      obtain ⟨rest, rfl⟩ : msgSerialize memory msg <+: buffer :=
        prefix_of_prefix_length_le ⟨_, whole.symm⟩ ⟨_, rfl⟩
          (by rw [length]; exact Nat.not_lt.mp incomplete)
      rw [stream_cons, append_assoc, append_cancel_left_eq] at whole
      obtain ⟨taken, left, received, remaining, rfl, takenEq, contentsEq, shorter, restEq, stays⟩ :=
        ih (fun other mem => wellFormed other (mem_cons_of_mem _ mem)) whole
      obtain ⟨head, headEq, step⟩ := takeMessages_of_complete first memory rest
      refine ⟨msg :: taken, left, head :: received, remaining, rfl, ?_, ?_, ?_, restEq, stays⟩
      · rw [step, takenEq]
      · rw [map_cons, map_cons, headEq, contentsEq]
      · rw [length_append]
        omega

end Stream

/-! ## Callbacks -/

/-- The messages of the stream are dispatched, or in the buffer and the socket. -/
def Framed (memory : Nat → Byte) (recvCap : Nat) (msgs : List IpcMsg) (conn : IpcConn) : Prop :=
  conn.connected = true ∧ conn.recvCap = recvCap ∧ conn.recvBuf.length ≤ recvCap ∧ ∃ done left,
    msgs = done ++ left ∧ conn.dispatched.map IpcMsg.contents = done.map IpcMsg.contents ∧
    conn.recvBuf ++ conn.socket = stream memory left

/-- One callback keeps the stream. -/
theorem Framed.connReadCallback {memory : Nat → Byte} {recvCap : Nat} {msgs : List IpcMsg}
    (framed : Framed memory recvCap msgs conn) (wellFormed : ∀ msg ∈ msgs, WellFormedMsg msg)
    (reads : List Nat) : Framed memory recvCap msgs (connReadCallback reads conn) := by
  obtain ⟨connected, rfl, bounded, done, left, rfl, dispatchedEq, streamEq⟩ := framed
  obtain ⟨kept, sameDispatched, capEq, -, stays⟩ := readLoop_keeps reads conn
  have fullBounded := stays bounded
  obtain ⟨taken, rest, received, remaining, rfl, takenEq, contentsEq, shorter, restEq, -⟩ :=
    takeMessages_of_prefix (fun msg mem => wellFormed msg (mem_append_right _ mem))
      (kept.trans streamEq)
  refine ⟨?_, capEq, ?_, done ++ taken, rest, (append_assoc _ _ _).symm, ?_, ?_⟩
  · simp [Ipc.connReadCallback, takenEq]
  · simp only [Ipc.connReadCallback, takenEq, getD_some]
    omega
  · simp [Ipc.connReadCallback, takenEq, sameDispatched, map_append, dispatchedEq, contentsEq]
  · simp only [Ipc.connReadCallback, takenEq]
    exact restEq

/-- A sequence of callbacks keeps the stream. -/
theorem Framed.serve {memory : Nat → Byte} {recvCap : Nat} {msgs : List IpcMsg}
    (framed : Framed memory recvCap msgs conn) (wellFormed : ∀ msg ∈ msgs, WellFormedMsg msg)
    (callbacks : List (List Nat)) : Framed memory recvCap msgs (serve callbacks conn) := by
  induction callbacks generalizing conn with
  | nil => exact framed
  | cons reads callbacks ih =>
    rw [Ipc.serve, if_pos framed.1]
    exact ih (framed.connReadCallback wellFormed reads)

theorem framed_connCreate (memory : Nat → Byte) (recvCap : Nat) (msgs : List IpcMsg) :
    Framed memory recvCap msgs (connCreate recvCap (stream memory msgs)) :=
  ⟨rfl, rfl, Nat.zero_le _, [], msgs, rfl, rfl, rfl⟩

/-- However the stream of well-formed messages is cut into reads and callbacks,
the connection stays open, the buffer is never overrun, and the messages that
have been dispatched, followed by those in the buffer and the socket, are the
messages of the stream. -/
theorem serve_keeps_messages {msgs : List IpcMsg} (wellFormed : ∀ msg ∈ msgs, WellFormedMsg msg)
    {memory : Nat → Byte} {recvCap : Nat} {callbacks : List (List Nat)} {conn : IpcConn}
    (served : serve callbacks (connCreate recvCap (stream memory msgs)) = conn) :
    conn.connected = true ∧ conn.recvBuf.length ≤ recvCap ∧
      (conn.dispatched ++ (takeMessages (conn.recvBuf ++ conn.socket)).1).map IpcMsg.contents =
        msgs.map IpcMsg.contents := by
  have framed := (framed_connCreate memory recvCap msgs).serve wellFormed callbacks
  rw [served] at framed
  obtain ⟨connected, -, bounded, done, left, rfl, dispatchedEq, streamEq⟩ := framed
  refine ⟨connected, bounded, ?_⟩
  have decoded := takeMessages_stream
    (fun msg mem => wellFormed msg (mem_append_right done mem)) memory
  rw [map_append, map_append, dispatchedEq, streamEq, decoded]

/-- Two notifications, cut in the middle of the second one's header. -/
theorem serve_keeps_messages_twoNotifications :
    (∀ msg ∈ [sampleMsg, sampleMsg], WellFormedMsg msg) ∧ ∃ conn,
      serve [[99], [9, 0]] (connCreate 512
        (stream (fun _ => 0) [sampleMsg, sampleMsg])) = conn ∧
      conn.recvBuf.length = 17 ∧ conn.dispatched.length = 1 ∧
      (conn.dispatched ++ (takeMessages (conn.recvBuf ++ conn.socket)).1).map IpcMsg.contents =
        [sampleMsg.contents, sampleMsg.contents] := by
  have first : WellFormedMsg sampleMsg := ⟨rfl, rfl, by decide, rfl, by decide⟩
  have wellFormed : ∀ msg ∈ [sampleMsg, sampleMsg], WellFormedMsg msg := by
    simp [first]
  have lengths : (serve [[99], [9, 0]] (connCreate 512
      (stream (fun _ => 0) [sampleMsg, sampleMsg]))).recvBuf.length = 17 ∧
      (serve [[99], [9, 0]] (connCreate 512
        (stream (fun _ => 0) [sampleMsg, sampleMsg]))).dispatched.length = 1 := by
    decide +kernel
  exact ⟨wellFormed, _, rfl, lengths.1, lengths.2, (serve_keeps_messages wellFormed rfl).2.2⟩

end QDaemon.Ipc
