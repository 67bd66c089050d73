import QDaemon.Ipc.Codec
import QDaemon.Ipc.Server
import QDaemon.Transition.Run

/-!
# The server's writes

`qd_ipc_server_send` serializes a message and writes it to the non-blocking socket
of a connection.  If the socket takes no more bytes, the loop is left and the call
returns as if the message had been sent; what remains of the message is dropped.
-/

namespace QDaemon.Ipc

open List Bytes Common Transition

/-- What a call of `write` comes to: so many bytes are taken, as far as there are
as many, or it fails with `EAGAIN` or with another error. -/
inductive WriteOutcome
  | wrote (n : Nat)
  | again
  | error
  deriving DecidableEq

/-- The loop of `qd_ipc_server_send`: the bytes handed to the socket and the
result.  At the end of the list `write` fails with `EAGAIN`. -/
def writeLoop : List WriteOutcome → List Byte → List Byte × Int
  | [], _ => ([], qdOk)
  | outcome :: outcomes, bytes =>
      if bytes = [] then ([], qdOk)
      else
        match outcome with
        | .again => ([], qdOk)
        | .error => ([], qdErrIo)
        | .wrote n =>
            let rest := writeLoop outcomes (bytes.drop n)
            (bytes.take n ++ rest.1, rest.2)

/-- A `write` fails with `EAGAIN` before the last byte has been taken. -/
def Blocked : List WriteOutcome → List Byte → Prop
  | [], bytes => bytes ≠ []
  | outcome :: outcomes, bytes =>
      bytes ≠ [] ∧
        match outcome with
        | .again => True
        | .error => False
        | .wrote n => Blocked outcomes (bytes.drop n)

instance decidableBlocked :
    ∀ (outcomes : List WriteOutcome) (bytes : List Byte), Decidable (Blocked outcomes bytes)
  | [], bytes => inferInstanceAs (Decidable (bytes ≠ []))
  | .again :: _, bytes => inferInstanceAs (Decidable (bytes ≠ [] ∧ True))
  | .error :: _, bytes => inferInstanceAs (Decidable (bytes ≠ [] ∧ False))
  | .wrote n :: outcomes, bytes =>
      have := decidableBlocked outcomes (bytes.drop n)
      inferInstanceAs (Decidable (bytes ≠ [] ∧ Blocked outcomes (bytes.drop n)))

theorem writeLoop_written (outcomes : List WriteOutcome) (bytes : List Byte) :
    (writeLoop outcomes bytes).1 <+: bytes := by
  induction outcomes generalizing bytes with
  | nil => exact nil_prefix
  | cons outcome outcomes ih =>
    by_cases empty : bytes = []
    · simp [writeLoop, empty]
    · cases outcome with
      | again | error => simp [writeLoop, empty]
      | wrote n =>
        rw [writeLoop, if_neg empty]
        have rest := (prefix_append_right_inj (bytes.take n)).mpr (ih (bytes.drop n))
        rwa [take_append_drop] at rest

/-- The call reports success and has handed over the whole message, or it was
blocked, or it reports an error. -/
theorem writeLoop_cases (outcomes : List WriteOutcome) (bytes : List Byte) :
    (¬ Blocked outcomes bytes ∧ writeLoop outcomes bytes = (bytes, qdOk)) ∨
      (Blocked outcomes bytes ∧ (writeLoop outcomes bytes).1 ≠ bytes ∧
        (writeLoop outcomes bytes).2 = qdOk) ∨
      (¬ Blocked outcomes bytes ∧ (writeLoop outcomes bytes).2 = qdErrIo) := by
  induction outcomes generalizing bytes with
  | nil =>
    by_cases empty : bytes = []
    · exact .inl ⟨fun blocked => blocked empty, by rw [empty, writeLoop]⟩
    · exact .inr (.inl ⟨empty, fun same => empty same.symm, rfl⟩)
  | cons outcome outcomes ih =>
    by_cases empty : bytes = []
    · refine .inl ⟨fun blocked => blocked.1 empty, ?_⟩
      simp [writeLoop, empty]
    · cases outcome with
      | again =>
        refine .inr (.inl ⟨⟨empty, trivial⟩, ?_, ?_⟩)
        · rw [writeLoop, if_neg empty]
          exact fun same => empty same.symm
        · rw [writeLoop, if_neg empty]
      | error =>
        refine .inr (.inr ⟨fun blocked => blocked.2, ?_⟩)
        rw [writeLoop, if_neg empty]
      | wrote n =>
        simp only [writeLoop, Blocked, ne_eq, empty, not_false_eq_true, true_and, if_false]
        rcases ih (bytes.drop n) with ⟨free, result⟩ | ⟨blocked, cut, ok⟩ | ⟨free, failed⟩
        · refine .inl ⟨free, ?_⟩
          rw [result, take_append_drop]
        · refine .inr (.inl ⟨blocked, fun same => cut ?_, ok⟩)
          have whole := same.trans (take_append_drop n bytes).symm
          exact append_cancel_left whole
        · exact .inr (.inr ⟨free, failed⟩)

theorem writeLoop_ok_of_free {outcomes : List WriteOutcome} {bytes : List Byte}
    (free : ¬ Blocked outcomes bytes) :
    (writeLoop outcomes bytes).2 = qdOk → (writeLoop outcomes bytes).1 = bytes := by
  intro ok
  rcases writeLoop_cases outcomes bytes with ⟨-, whole⟩ | ⟨blocked, -⟩ | ⟨-, failed⟩
  · rw [whole]
  · exact absurd blocked free
  · rw [failed] at ok
    cases ok

/-! ## Calls on a connection -/

/-- A call of `qd_ipc_server_send`: the serialized message, the bytes handed to
the socket, and the result. -/
structure SendRecord where
  message : List Byte
  handed : List Byte
  result : Int
  deriving DecidableEq

/-- The bytes written on a connection and the calls that wrote them. -/
structure SendConn where
  written : List Byte
  sends : List SendRecord

/-- The calls that send on a connection.  A reply copies its data first, which
can fail for lack of memory. -/
inductive SendCall
  | send (msg : IpcMsg)
  | reply (request : IpcMsg) (timestamp : BitVec 64) (data : List Byte) (copied : Bool)
  | broadcast (msg : IpcMsg)

/-- The message that a call passes to `qd_ipc_server_send`, if any. -/
def SendCall.message : SendCall → Option IpcMsg
  | .send msg => some msg
  | .reply request timestamp data copied =>
      if copied ∨ data = [] then (serverReply request timestamp data).toOption else none
  | .broadcast msg => some msg

/-- A call with what it meets: whether memory for the serialized message is found
and what that memory holds, and the outcomes of its writes. -/
structure SendLabel where
  call : SendCall
  allocated : Bool
  memory : Nat → Byte
  outcomes : List WriteOutcome

/-- `qd_ipc_server_send`. -/
def serverSend (conn : SendConn) (label : SendLabel) (msg : IpcMsg) : SendConn :=
  let message := msgSerialize label.memory msg
  if label.allocated then
    let sent := writeLoop label.outcomes message
    ⟨conn.written ++ sent.1, conn.sends ++ [⟨message, sent.1, sent.2⟩]⟩
  else ⟨conn.written, conn.sends ++ [⟨message, [], qdErrNomem⟩]⟩

/-- One call. -/
def sendStep (conn : SendConn) (label : SendLabel) : Option SendConn :=
  match label.call.message with
  | none => some conn
  | some msg => some (serverSend conn label msg)

/-- A message of which only a part has been written. -/
def SendRecord.CutOff (record : SendRecord) : Prop :=
  record.handed ≠ [] ∧ record.handed ≠ record.message

instance (record : SendRecord) : Decidable record.CutOff :=
  inferInstanceAs (Decidable (_ ∧ _))

/-- The messages that were written completely. -/
def completeMessages (sends : List SendRecord) : List (List Byte) :=
  (sends.filter fun record => record.handed = record.message).map SendRecord.message

/-- Success means that the message was handed over, and the bytes on the connection
are complete messages and at most the start of one more. -/
def Intact (conn : SendConn) : Prop :=
  (∀ record ∈ conn.sends, record.result = qdOk → record.handed = record.message) ∧
    ∃ tail, conn.written = (completeMessages conn.sends).flatten ++ tail ∧
      (tail = [] ∨ ∃ record ∈ conn.sends, tail <+: record.message)

/-- No write of the call is refused with bytes left to write, and after a message
that was cut off by an error the socket keeps failing. -/
def Flowing (conn : SendConn) (label : SendLabel) : Prop :=
  ∀ msg ∈ label.call.message, label.allocated = true →
    ¬ Blocked label.outcomes (msgSerialize label.memory msg) ∧
      (label.outcomes.head? = some .error ∨ ∀ record ∈ conn.sends, ¬ record.CutOff)

instance (conn : SendConn) (label : SendLabel) : Decidable (Flowing conn label) :=
  inferInstanceAs (Decidable (∀ _ ∈ _, _))

/-! ## Whole runs -/

theorem msgSerialize_ne_nil (memory : Nat → Byte) (msg : IpcMsg) :
    msgSerialize memory msg ≠ [] := by
  intro empty
  have size := IpcHeader.length_bytes msg.header
  rw [msgSerialize, append_eq_nil_iff] at empty
  rw [empty.1] at size
  cases size

theorem writeLoop_of_head_error {outcomes : List WriteOutcome}
    (failing : outcomes.head? = some .error) (bytes : List Byte) :
    (writeLoop outcomes bytes).1 = [] := by
  obtain ⟨rest, rfl⟩ := List.head?_eq_some_iff.mp failing
  rw [writeLoop]
  split <;> rfl

theorem completeMessages_concat (sends : List SendRecord) (record : SendRecord) :
    completeMessages (sends ++ [record]) =
      completeMessages sends ++
        if record.handed = record.message then [record.message] else [] := by
  rw [completeMessages, completeMessages, filter_append]
  by_cases complete : record.handed = record.message
  · simp [complete]
  · simp [complete]

/-- The invariant of the sends: bytes of an unfinished message are at the end, and
there are none unless a message has been cut off. -/
structure Unbroken (conn : SendConn) : Prop where
  reported : ∀ record ∈ conn.sends, record.result = qdOk → record.handed = record.message
  written : ∃ tail, conn.written = (completeMessages conn.sends).flatten ++ tail ∧
    (tail = [] ∨ ∃ record ∈ conn.sends, record.CutOff ∧ tail <+: record.message)

variable {conn : SendConn}

section

variable (unbroken : Unbroken conn)
include unbroken

theorem Unbroken.intact : Intact conn := by
  obtain ⟨tail, written, place⟩ := unbroken.written
  refine ⟨unbroken.reported, tail, written, place.imp_right ?_⟩
  rintro ⟨record, mem, -, starts⟩
  exact ⟨record, mem, starts⟩

/-- A call that writes nothing. -/
theorem Unbroken.concat_of_silent (record : SendRecord)
    (silent : record.handed = []) (message : record.message ≠ [])
    (last : record.result = qdOk → record.handed = record.message) :
    Unbroken ⟨conn.written ++ record.handed, conn.sends ++ [record]⟩ := by
  obtain ⟨tail, written, place⟩ := unbroken.written
  have incomplete : record.handed ≠ record.message := by
    rw [silent]
    exact message.symm
  refine ⟨forall_mem_append.mpr ⟨unbroken.reported, forall_mem_singleton.mpr last⟩, tail, ?_,
    place.imp_right ?_⟩
  · rw [completeMessages_concat, if_neg incomplete, append_nil, silent, append_nil]
    exact written
  · rintro ⟨record, mem, starts⟩
    exact ⟨record, mem_append_left _ mem, starts⟩

/-- A call on a connection on which no message has been cut off. -/
theorem Unbroken.concat_of_clean (record : SendRecord)
    (clean : ∀ record ∈ conn.sends, ¬ record.CutOff) (starts : record.handed <+: record.message)
    (last : record.result = qdOk → record.handed = record.message) :
    Unbroken ⟨conn.written ++ record.handed, conn.sends ++ [record]⟩ := by
  obtain ⟨tail, written, place⟩ := unbroken.written
  have noTail : tail = [] := by
    rcases place with empty | ⟨record, mem, cut, -⟩
    · exact empty
    · exact absurd cut (clean record mem)
  rw [noTail, append_nil] at written
  refine ⟨forall_mem_append.mpr ⟨unbroken.reported, forall_mem_singleton.mpr last⟩, ?_⟩
  by_cases complete : record.handed = record.message
  · refine ⟨[], ?_, .inl rfl⟩
    rw [completeMessages_concat, if_pos complete, flatten_append, flatten_singleton,
      append_nil, ← written, complete]
  · refine ⟨record.handed, ?_, ?_⟩
    · rw [completeMessages_concat, if_neg complete, append_nil, ← written]
    · by_cases silent : record.handed = []
      · exact .inl silent
      · exact .inr ⟨record, mem_append_right _ (mem_singleton.mpr rfl), ⟨silent, complete⟩, starts⟩

theorem Unbroken.serverSend {label : SendLabel} {msg : IpcMsg}
    (flowing : Flowing conn label) (call : label.call.message = some msg) :
    Unbroken (serverSend conn label msg) := by
  rw [Ipc.serverSend]
  by_cases allocated : label.allocated = true
  · rw [if_pos allocated]
    obtain ⟨free, clean⟩ := flowing msg (Option.mem_def.mpr call) allocated
    rcases clean with failing | clean
    · exact unbroken.concat_of_silent ⟨_, _, _⟩ (writeLoop_of_head_error failing _)
        (msgSerialize_ne_nil label.memory msg) (writeLoop_ok_of_free free)
    · exact unbroken.concat_of_clean ⟨_, _, _⟩ clean (writeLoop_written _ _)
        (writeLoop_ok_of_free free)
  · rw [if_neg allocated]
    have notOk : qdErrNomem ≠ qdOk := by decide
    have kept := unbroken.concat_of_silent ⟨_, [], _⟩ rfl
      (msgSerialize_ne_nil label.memory msg) (fun ok => absurd ok notOk)
    rwa [append_nil] at kept

theorem Unbroken.step {next : SendConn} {label : SendLabel}
    (flowing : Flowing conn label) (stepEq : sendStep conn label = some next) : Unbroken next := by
  rw [sendStep] at stepEq
  split at stepEq <;> cases stepEq
  · exact unbroken
  next msg call => exact unbroken.serverSend flowing call

end

/-- A connection on which nothing has been sent. -/
def SendConn.initial : SendConn := ⟨[], []⟩

/-- As long as no write is refused, a call that reports success has handed over its
message, and the bytes on the connection are complete messages and at most the
start of one that an error cut off. -/
theorem intact_of_flowing {conn : SendConn}
    (run : GuardedRun sendStep Flowing SendConn.initial conn) : Intact conn := by
  have initial : Unbroken SendConn.initial :=
    ⟨fun _ mem => absurd mem not_mem_nil, [], rfl, .inl rfl⟩
  have unbroken := run.invariant Unbroken initial
    fun _ _ _ unbroken flowing stepEq => unbroken.step flowing stepEq
  exact unbroken.intact

/-- Two sends, of which the second one loses the connection after ten bytes. -/
def shortWrites : List SendLabel :=
  [⟨.send sampleMsg, true, fun _ => 0, [.wrote 40, .wrote 0, .wrote 99]⟩,
    ⟨.reply sampleMsg 5 [1, 2] true, true, fun _ => 0, [.wrote 10, .error]⟩]

theorem intact_of_flowing_shortWrites :
    ∃ conn, exec (guarded sendStep Flowing) SendConn.initial shortWrites = some conn ∧
      conn.sends.map SendRecord.result = [qdOk, qdErrIo] ∧ Intact conn := by
  apply exists_exec fun conn => conn.sends.map SendRecord.result = [qdOk, qdErrIo]
  · decide +kernel
  · exact fun conn connEq results => ⟨results, intact_of_flowing (guardedRun_of_exec connEq)⟩

/-- The socket takes ten bytes of the first message and is full; the second message
is written after these. -/
def fullSocket : List SendLabel :=
  [⟨.send sampleMsg, true, fun _ => 0, [.wrote 10, .again]⟩,
    ⟨.broadcast sampleMsg, true, fun _ => 0, [.wrote 99]⟩]

/-- The first call reports success for a message of which ten bytes were written,
and what is on the connection does not start with a message. -/
theorem not_intact_fullSocket : ∃ conn, Reachable sendStep SendConn.initial conn ∧
      conn.sends.map SendRecord.result = [qdOk, qdOk] ∧
      (∃ record ∈ conn.sends, record.result = qdOk ∧ record.handed ≠ record.message) ∧
      ¬ (completeMessages conn.sends).flatten <+: conn.written ∧ ¬ Intact conn := by
  refine exists_reachable fullSocket (fun conn =>
    conn.sends.map SendRecord.result = [qdOk, qdOk] ∧
      (∃ record ∈ conn.sends, record.result = qdOk ∧ record.handed ≠ record.message) ∧
      ¬ (completeMessages conn.sends).flatten <+: conn.written) (by decide +kernel) ?_
  rintro conn ⟨results, cut, misplaced⟩
  refine ⟨results, cut, misplaced, fun intact => ?_⟩
  obtain ⟨record, mem, ok, incomplete⟩ := cut
  exact incomplete (intact.1 record mem ok)

end QDaemon.Ipc
