import QDaemon.Ipc.Framing
import QDaemon.Transition.Run

/-!
# Progress on edge-triggered input

The socket of a connection is registered edge-triggered: bytes that arrive make
the event loop call `conn_read_callback` once more, bytes that are already there
do not.  The reading loop stops at `EAGAIN` or when the receive buffer is full; in
the second case the rest of the input waits until more of it arrives.
-/

namespace QDaemon.Ipc

open Option List Bytes Transition

/-- How the reading loop of a callback ended. -/
inductive ReadExit
  | eagain
  | full
  deriving DecidableEq

/-- A connection and the event loop: the bytes that have not arrived yet, whether
an event is pending, whether a callback is in its reading loop, and how the last
one ended. -/
structure EdgeConn where
  conn : IpcConn
  incoming : List Byte
  edge : Bool
  reading : Bool
  lastExit : Option ReadExit

/-- Bytes arrive, the event loop calls the callback, or the callback takes the
next turn of its reading loop; a number stands for one byte more. -/
inductive EdgeLabel
  | arrive (more : Nat)
  | wake
  | read (more : Nat)

/-- The reading loop has ended: process the buffer and return. -/
def EdgeConn.finish (state : EdgeConn) (exit : ReadExit) : EdgeConn :=
  { state with
    conn := connReadCallback [] state.conn
    reading := false
    lastExit := some exit }

/-- The step relation. -/
def edgeStep (state : EdgeConn) : EdgeLabel → Option EdgeConn
  | .arrive more =>
      if state.incoming = [] then none
      else some
        { state with
          conn := { state.conn with
            socket := state.conn.socket ++ state.incoming.take (more + 1) }
          incoming := state.incoming.drop (more + 1)
          edge := true }
  | .wake =>
      if state.conn.connected ∧ state.edge ∧ ¬ state.reading then
        some { state with edge := false, reading := true }
      else none
  | .read more =>
      if ¬ state.reading then none
      else if state.conn.recvCap - state.conn.recvBuf.length = 0 then some (state.finish .full)
      else if state.conn.socket = [] then some (state.finish .eagain)
      else some { state with conn := readLoop [more] state.conn }

/-- A new connection, with the whole stream still to arrive. -/
def EdgeConn.initial (recvCap : Nat) (incoming : List Byte) : EdgeConn :=
  ⟨connCreate recvCap [], incoming, false, false, none⟩

/-- `recv_buf_size` of `QD_IPC_SERVER_CONFIG_DEFAULT`. -/
def defaultRecvBufSize : Nat := 8192

/-- After a callback the socket has been read until `EAGAIN` and the buffer holds
no complete message, or the callback will be called again. -/
def Progress (state : EdgeConn) : Prop :=
  state.reading = false → state.conn.connected = true → ∀ exit, state.lastExit = some exit →
    (exit = .eagain ∧ (takeMessages state.conn.recvBuf).1 = []) ∨ state.edge = true

/-- A callback starts with room for all bytes in the socket. -/
def Roomy (state : EdgeConn) : EdgeLabel → Prop
  | .wake => state.conn.recvBuf.length + state.conn.socket.length < state.conn.recvCap
  | _ => True

instance (state : EdgeConn) (label : EdgeLabel) : Decidable (Roomy state label) := by
  unfold Roomy
  split <;> infer_instance

/-! ## Invariant -/

/-- What holds between the turns of the reading loop and between callbacks. -/
structure EdgeInv (memory : Nat → Byte) (msgs : List IpcMsg) (state : EdgeConn) : Prop where
  connected : state.conn.connected = true
  framed : ∃ done left, msgs = done ++ left ∧
    state.conn.dispatched.map IpcMsg.contents = done.map IpcMsg.contents ∧
    state.conn.recvBuf ++ (state.conn.socket ++ state.incoming) = stream memory left
  roomy : state.reading = true → state.edge = true ∨
    state.conn.recvBuf.length + state.conn.socket.length < state.conn.recvCap
  full : state.reading = false → state.lastExit = some .full → state.edge = true
  drained : state.reading = false → state.edge = true ∨ state.conn.socket = []
  noMessage : state.reading = false →
    takeMessages state.conn.recvBuf = ([], some state.conn.recvBuf)

theorem edgeInv_initial (memory : Nat → Byte) (recvCap : Nat) (msgs : List IpcMsg) :
    EdgeInv memory msgs (EdgeConn.initial recvCap (stream memory msgs)) where
  connected := rfl
  framed := ⟨[], msgs, rfl, rfl, rfl⟩
  roomy := by simp [EdgeConn.initial]
  full := by simp [EdgeConn.initial]
  drained := fun _ => .inr rfl
  noMessage := fun _ => by
    change takeMessages [] = ([], some [])
    rw [takeMessages, if_neg (by decide)]

section Steps

variable {memory : Nat → Byte} {msgs : List IpcMsg} {state : EdgeConn}

section

variable (inv : EdgeInv memory msgs state)
include inv

variable (wellFormed : ∀ msg ∈ msgs, WellFormedMsg msg)
include wellFormed

/-- The end of a callback takes the complete messages off the buffer. -/
theorem EdgeInv.finish {exit : ReadExit} (full : exit = .full → state.edge = true)
    (drained : state.edge = true ∨ state.conn.socket = []) :
    EdgeInv memory msgs (state.finish exit) := by
  obtain ⟨done, left, rfl, dispatchedEq, streamEq⟩ := inv.framed
  obtain ⟨taken, rest, received, remaining, rfl, takenEq, contentsEq, -, restEq, stays⟩ :=
    takeMessages_of_prefix (fun msg mem => wellFormed msg (mem_append_right _ mem)) streamEq
  have connEq : (state.finish exit).conn = { state.conn with
      recvBuf := remaining
      connected := true
      dispatched := state.conn.dispatched ++ received } := by
    simp [EdgeConn.finish, connReadCallback, readLoop, takenEq, getD_some]
  constructor
  · rw [connEq]
  · refine ⟨done ++ taken, rest, (append_assoc _ _ _).symm, ?_, ?_⟩
    · rw [connEq, map_append, map_append, dispatchedEq, contentsEq]
    · rw [connEq]
      exact restEq
  · intro isReading
    cases isReading
  · intro _ isFull
    exact full (some.inj isFull)
  · intro _
    exact drained
  · intro _
    rw [connEq]
    exact stays

omit wellFormed in
/-- A read moves bytes from the socket to the buffer. -/
theorem EdgeInv.read (isReading : state.reading = true) (more : Nat) :
    EdgeInv memory msgs { state with conn := readLoop [more] state.conn } := by
  obtain ⟨done, left, msgsEq, dispatchedEq, streamEq⟩ := inv.framed
  obtain ⟨kept, sameDispatched, capEq, connectedEq, -⟩ := readLoop_keeps [more] state.conn
  have lengths := congrArg List.length kept
  rw [length_append, length_append] at lengths
  constructor
  · exact connectedEq.trans inv.connected
  · refine ⟨done, left, msgsEq, ?_, ?_⟩
    · rw [sameDispatched]
      exact dispatchedEq
    · rw [← append_assoc, kept, append_assoc]
      exact streamEq
  · intro _
    rw [lengths, capEq]
    exact inv.roomy isReading
  all_goals
    intro notReading
    exact absurd (isReading.symm.trans notReading) (by simp)

theorem EdgeInv.step {next : EdgeConn} {label : EdgeLabel} (roomy : Roomy state label)
    (stepEq : edgeStep state label = some next) : EdgeInv memory msgs next := by
  cases label with simp only [edgeStep] at stepEq
  | arrive more =>
    split at stepEq <;> cases stepEq
    refine { inv with framed := ?_, roomy := ?_, full := ?_, drained := ?_ }
    · obtain ⟨done, left, msgsEq, dispatchedEq, streamEq⟩ := inv.framed
      refine ⟨done, left, msgsEq, dispatchedEq, ?_⟩
      simp only [append_assoc, take_append_drop]
      exact streamEq
    · exact fun _ => .inl rfl
    · exact fun _ _ => rfl
    · exact fun _ => .inl rfl
  | wake =>
    split at stepEq <;> cases stepEq
    exact { inv with
      roomy := fun _ => .inr roomy
      full := by simp
      drained := by simp
      noMessage := by simp }
  | read more =>
    split at stepEq
    · cases stepEq
    next isReading =>
      rw [Bool.not_eq_true, Bool.not_eq_false] at isReading
      split at stepEq
      next isFull =>
        cases stepEq
        -- the callback did not start with so many bytes, so some have arrived since
        have edge : state.edge = true := by
          apply (inv.roomy isReading).resolve_right
          omega
        exact inv.finish wellFormed (fun _ => edge) (.inl edge)
      · split at stepEq <;> cases stepEq
        next empty => exact inv.finish wellFormed (fun isFull => by simp at isFull) (.inr empty)
        · exact inv.read isReading more

omit wellFormed in
theorem EdgeInv.progress : Progress state := by
  intro notReading _ exit exitEq
  cases exit with
  | eagain => exact .inl ⟨rfl, congrArg Prod.fst (inv.noMessage notReading)⟩
  | full => exact .inr (inv.full notReading exitEq)

/-- When all bytes have arrived and no event is pending, every message has been
dispatched. -/
theorem EdgeInv.delivered (notReading : state.reading = false) (noEdge : state.edge = false)
    (arrived : state.incoming = []) :
    state.conn.dispatched.map IpcMsg.contents = msgs.map IpcMsg.contents := by
  obtain ⟨done, left, rfl, dispatchedEq, streamEq⟩ := inv.framed
  have socketEq : state.conn.socket = [] :=
    (inv.drained notReading).resolve_left (by rw [noEdge]; simp)
  rw [socketEq, arrived, append_nil, append_nil] at streamEq
  have nothing := inv.noMessage notReading
  have decoded := takeMessages_stream
    (fun msg mem => wellFormed msg (mem_append_right done mem)) memory
  rw [← streamEq, nothing] at decoded
  rw [dispatchedEq, map_append, ← decoded, map_nil, append_nil]

end

end Steps

/-! ## Runs -/

/-- If every callback starts with room for all bytes in the socket, the connection
makes progress after every callback, and when all bytes have arrived and no event
is pending, all messages have been dispatched. -/
theorem progress_of_roomy {msgs : List IpcMsg} (wellFormed : ∀ msg ∈ msgs, WellFormedMsg msg)
    {memory : Nat → Byte} {recvCap : Nat} {state : EdgeConn}
    (run : GuardedRun edgeStep Roomy (EdgeConn.initial recvCap (stream memory msgs)) state) :
    state.conn.connected = true ∧ Progress state ∧
      (state.reading = false → state.edge = false → state.incoming = [] →
        state.conn.dispatched.map IpcMsg.contents = msgs.map IpcMsg.contents) := by
  have inv : EdgeInv memory msgs state :=
    run.invariant (EdgeInv memory msgs) (edgeInv_initial memory recvCap msgs)
      fun _ _ _ before roomy stepEq => before.step wellFormed roomy stepEq
  exact ⟨inv.connected, inv.progress, inv.delivered wellFormed⟩

/-- The bytes of a message arrive in two parts, with a callback for each. -/
def twoEdges : List EdgeLabel :=
  [.arrive 49, .wake, .read 99, .read 0, .arrive 99, .wake, .read 9, .read 99, .read 0]

theorem progress_of_roomy_twoEdges : (∀ msg ∈ [sampleMsg], WellFormedMsg msg) ∧ ∃ state,
      exec (guarded edgeStep Roomy) (EdgeConn.initial defaultRecvBufSize
        (stream (fun _ => 0) [sampleMsg])) twoEdges = some state ∧
      state.lastExit = some .eagain ∧ Progress state ∧
      state.conn.dispatched.map IpcMsg.contents = [sampleMsg.contents] := by
  have wellFormed : ∀ msg ∈ [sampleMsg], WellFormedMsg msg := by
    intro msg mem
    rw [mem_singleton.mp mem]
    exact ⟨rfl, rfl, by decide, rfl, by decide⟩
  refine ⟨wellFormed, exists_exec (fun state => state.lastExit = some .eagain ∧
    state.reading = false ∧ state.edge = false ∧ state.incoming = []) (by decide +kernel) ?_⟩
  rintro state stateEq ⟨exitEq, notReading, noEdge, arrived⟩
  obtain ⟨-, progress, delivered⟩ := progress_of_roomy wellFormed (guardedRun_of_exec stateEq)
  exact ⟨exitEq, progress, delivered notReading noEdge arrived⟩

/-- A notification with a payload of 8192 bytes. -/
def largeMsg : IpcMsg where
  header := ⟨ipcMagic, ipcVersion, 6, 3, 8192, 0, 0⟩
  service := ⟨List.replicate 64 0, by simp [ipcMaxNameLen]⟩
  payload := List.replicate 8192 7

/-- All bytes of the message have arrived, the buffer is full without holding it,
and nothing happens any more. -/
theorem stuck_largeMsg : WellFormedMsg largeMsg ∧ ∃ state,
      Reachable edgeStep (EdgeConn.initial defaultRecvBufSize
        (stream (fun _ => 0) [largeMsg])) state ∧
      state.incoming = [] ∧ state.conn.connected = true ∧ ¬ Progress state ∧
      state.conn.dispatched = [] ∧ ∀ label, edgeStep state label = none := by
  have wellFormed : WellFormedMsg largeMsg :=
    ⟨rfl, rfl, by decide, length_replicate.symm, mem_replicate.mpr ⟨by decide, rfl⟩⟩
  refine ⟨wellFormed, exists_reachable [.arrive 9999, .wake, .read 9999, .read 0] (fun state =>
    state.incoming = [] ∧ state.conn.connected = true ∧ state.reading = false ∧ state.edge = false ∧
      state.lastExit = some .full ∧ state.conn.dispatched = []) (by decide +kernel) ?_⟩
  rintro state ⟨arrived, connected, notReading, noEdge, exitEq, dispatchedEq⟩
  refine ⟨arrived, connected, ?_, dispatchedEq, ?_⟩
  · intro progress
    rcases progress notReading connected .full exitEq with ⟨eagain, -⟩ | edge
    · cases eagain
    · rw [noEdge] at edge
      cases edge
  · intro label
    cases label with
    | arrive more => exact if_pos arrived
    | wake => exact if_neg (by simp [noEdge])
    | read more => exact if_pos (by simp [notReading])

end QDaemon.Ipc
