import QDaemon.Ipc.Protocol

/-!
# The server's side of a connection

`conn_read_callback` reads from the socket into the receive buffer until the
buffer is full or there is nothing to read, then takes complete messages off the
front of the buffer and dispatches them.  How many bytes a `read` returns is
chosen by the environment.
-/

namespace QDaemon.Ipc

open Bytes Common

/-- A connection: the bytes in the socket, the first `recv_len` bytes of the
receive buffer, its capacity, whether the connection is still open, and the
messages handed to `process_message`. -/
structure IpcConn where
  socket : List Byte
  recvBuf : List Byte
  recvCap : Nat
  connected : Bool
  dispatched : List IpcMsg

/-- `conn_create`, with bytes waiting in the socket. -/
def connCreate (recvCap : Nat) (socket : List Byte) : IpcConn :=
  ⟨socket, [], recvCap, true, []⟩

/-- The reading loop of `conn_read_callback`.  A read takes one byte more than
the next number of the list, if there is room and there are as many; at the end
of the list `read` fails with `EAGAIN`. -/
def readLoop : List Nat → IpcConn → IpcConn
  | [], conn => conn
  | more :: reads, conn =>
      let space := conn.recvCap - conn.recvBuf.length
      if space = 0 then conn
      else
        let n := min (more + 1) (min space conn.socket.length)
        if n = 0 then conn
        else readLoop reads
          { conn with
            socket := conn.socket.drop n
            recvBuf := conn.recvBuf ++ conn.socket.take n }

/-- The messages at the front of the receive buffer and what remains of it, or
nothing if the connection is closed for a protocol error. -/
def takeMessages (buffer : List Byte) : List IpcMsg × Option (List Byte) :=
  if IpcHeader.size ≤ buffer.length then
    if (IpcHeader.load buffer).magic ≠ ipcMagic then ([], none)
    else
      let msgSize := msgTotalSize (IpcHeader.load buffer)
      if buffer.length < msgSize then ([], some buffer)
      else
        match msgDeserialize (buffer.take msgSize) with
        | .error _ => ([], none)
        | .ok msg =>
            let taken := takeMessages (buffer.drop msgSize)
            (msg :: taken.1, taken.2)
  else ([], some buffer)
  termination_by buffer.length
  decreasing_by
    rw [List.length_drop]
    have : 28 ≤ msgTotalSize (IpcHeader.load buffer) := by
      unfold msgTotalSize IpcHeader.size
      omega
    unfold IpcHeader.size at *
    omega

/-- `conn_read_callback`, for readable data. -/
def connReadCallback (reads : List Nat) (conn : IpcConn) : IpcConn :=
  let full := readLoop reads conn
  let taken := takeMessages full.recvBuf
  { full with
    recvBuf := taken.2.getD []
    connected := taken.2.isSome
    dispatched := full.dispatched ++ taken.1 }

/-- A sequence of callbacks, up to the one that closes the connection. -/
def serve : List (List Nat) → IpcConn → IpcConn
  | [], conn => conn
  | reads :: callbacks, conn =>
      if conn.connected then serve callbacks (connReadCallback reads conn) else conn

/-- The message that `qd_ipc_server_reply` sends; `timestamp` is the clock. -/
def serverReply (request : IpcMsg) (timestamp : BitVec 64) (data : List Byte) : Except Int IpcMsg :=
  let response := msgInit ipcMsgResponse timestamp
  let response := { response with
    header := { response.header with msgId := request.header.msgId } }
  if data = [] then .ok response
  else
    match msgSetPayload response data with
    | .error _ => .error qdErrNomem
    | .ok response => .ok response

/-! ## What is dispatched -/

/-- One round of the loop: the connection is closed, the buffer is left as it
is, or its first message is taken off. -/
theorem takeMessages_cases (buffer : List Byte) :
    takeMessages buffer = ([], none) ∨ takeMessages buffer = ([], some buffer) ∨
      ∃ msg rest, takeMessages buffer = (msg :: rest.1, rest.2) ∧
        rest = takeMessages (buffer.drop (msgTotalSize (IpcHeader.load buffer))) ∧
        IpcHeader.size ≤ buffer.length ∧ msg.header = IpcHeader.load buffer := by
  rw [takeMessages]
  split
  next long =>
    split
    · exact .inl rfl
    simp only
    split
    · exact .inr (.inl rfl)
    split
    · exact .inl rfl
    next msg accepted =>
      have enough : IpcHeader.size ≤ msgTotalSize (IpcHeader.load buffer) := by
        unfold msgTotalSize
        omega
      refine .inr (.inr ⟨msg, _, rfl, rfl, long, ?_⟩)
      rw [header_of_msgDeserialize accepted, IpcHeader.load_take enough]
  · exact .inr (.inl rfl)

/-- The loop moves bytes into the buffer, as far as there is room. -/
theorem readLoop_keeps (reads : List Nat) (conn : IpcConn) :
    (readLoop reads conn).recvBuf ++ (readLoop reads conn).socket = conn.recvBuf ++ conn.socket ∧
      (readLoop reads conn).dispatched = conn.dispatched ∧
      (readLoop reads conn).recvCap = conn.recvCap ∧
      (readLoop reads conn).connected = conn.connected ∧
      (conn.recvBuf.length ≤ conn.recvCap →
        (readLoop reads conn).recvBuf.length ≤ conn.recvCap) := by
  induction reads generalizing conn with
  | nil => exact ⟨rfl, rfl, rfl, rfl, id⟩
  | cons more reads ih =>
    simp only [readLoop]
    split
    · exact ⟨rfl, rfl, rfl, rfl, id⟩
    split
    · exact ⟨rfl, rfl, rfl, rfl, id⟩
    · refine (ih _).imp (fun same => same.trans ?_) (.imp_right (.imp_right (.imp_right ?_)))
      · intro stays bounded
        apply stays
        simp only [List.length_append, List.length_take]
        omega
      · rw [List.append_assoc, List.take_append_drop]

/-- The first message of a connection has the header that its stream starts
with. -/
def FirstHeader (stream : List Byte) (conn : IpcConn) : Prop :=
  match conn.dispatched with
  | [] => conn.connected = true → conn.recvBuf ++ conn.socket = stream
  | msg :: _ => msg.header = IpcHeader.load stream

theorem FirstHeader.connReadCallback {stream : List Byte} {conn : IpcConn}
    (inv : FirstHeader stream conn) (connected : conn.connected = true) (reads : List Nat) :
    FirstHeader stream (connReadCallback reads conn) := by
  obtain ⟨kept, same, -⟩ := readLoop_keeps reads conn
  cases dispatchedEq : conn.dispatched with
  | cons msg rest =>
    simp only [FirstHeader, Ipc.connReadCallback, same, dispatchedEq] at inv ⊢
    exact inv
  | nil =>
    simp only [FirstHeader, dispatchedEq] at inv
    have whole := kept.trans (inv connected)
    simp only [FirstHeader, Ipc.connReadCallback, same, dispatchedEq]
    rcases takeMessages_cases (readLoop reads conn).recvBuf with
      closed | left | ⟨msg, rest, takenEq, -, long, headerEq⟩
    · rw [closed]
      simp
    · rw [left]
      exact fun _ => whole
    · rw [takenEq]
      exact headerEq.trans (IpcHeader.load_of_prefix ⟨_, whole⟩ long)

theorem FirstHeader.serve {stream : List Byte} {conn : IpcConn} (inv : FirstHeader stream conn)
    (callbacks : List (List Nat)) : FirstHeader stream (serve callbacks conn) := by
  induction callbacks generalizing conn with
  | nil => exact inv
  | cons reads callbacks ih =>
    rw [Ipc.serve]
    split
    next connected => exact ih (inv.connReadCallback connected reads)
    · exact inv

theorem firstHeader_connCreate (recvCap : Nat) (stream : List Byte) :
    FirstHeader stream (connCreate recvCap stream) :=
  fun _ => rfl

end QDaemon.Ipc
