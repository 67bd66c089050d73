import QDaemon.Dhcp.Batch
import QDaemon.Transition.Run
import Mathlib.Algebra.Group.Nat.Defs

/-!
# Reliable delivery of DHCP commands

`qd_dhcp_send_reliable` transmits a message, keeps it in a pending slot and waits for its
response.  The slot is serviced while the call waits and by later calls: it is due for a
retransmission when its timeout has passed, which is when the call gives up waiting.
-/

namespace QDaemon.Dhcp.Reliable

open List Transition

/-- `QD_DHCP_ERR_TIMEOUT` and `QD_DHCP_ERR_FULL`. -/
def dhcpErrTimeout : Int := -4

@[inherit_doc dhcpErrTimeout]
def dhcpErrFull : Int := -6

/-- `qd_dhcp_pending_msg_t`, with the number of the call; `saved` says whether there was memory
for the message. -/
structure Pending where
  call : Nat
  seq : Nat
  sendTime : Nat
  timeout : Nat
  retryCount : Int
  saved : Bool
  deriving DecidableEq

/-- A call that has returned: how often its message had been transmitted then. -/
structure Returned where
  result : Int
  retryCount : Nat
  transmitted : Nat
  deriving DecidableEq

/-- `qd_dhcp_conn_t`: its settings and its slots, with the calls that each transmission was for
and the calls that have returned. -/
structure Conn where
  timeout : Nat
  retryCount : BitVec 32
  pending : List (Option Pending)
  sent : List Nat
  returned : List Returned

/-- A connection with its 64 slots. -/
def Conn.initial (timeout : Nat) (retryCount : BitVec 32) : Conn :=
  ⟨timeout, retryCount, List.replicate 64 none, [], []⟩

/-! ## Pending slots -/

/-- The first free slot is taken, if there is one. -/
def findPendingSlot (msg : Pending) : List (Option Pending) → Option (List (Option Pending))
  | [] => none
  | none :: slots => some (some msg :: slots)
  | some other :: slots => (findPendingSlot msg slots).map (some other :: ·)

/-- No slot is in use. -/
def Free (slots : List (Option Pending)) : Prop :=
  ∀ slot ∈ slots, slot = none

/-- The first slot with this number is freed. -/
def freePendingSeq (seq : Nat) : List (Option Pending) → List (Option Pending)
  | [] => []
  | none :: slots => none :: freePendingSeq seq slots
  | some msg :: slots =>
      if msg.seq = seq then none :: slots else some msg :: freePendingSeq seq slots

/-- `qd_dhcp_process_ack`. -/
def processAck (conn : Conn) (seq : Nat) : Conn :=
  { conn with pending := freePendingSeq seq conn.pending }

/-- A slot in the loop of `qd_dhcp_check_timeouts`, and what is transmitted for it. -/
def service (now : Nat) : Option Pending → Option Pending × List Nat
  | none => (none, [])
  | some msg =>
      if msg.timeout ≤ (now + 2 ^ 64 - msg.sendTime) % 2 ^ 64 then
        if 0 < msg.retryCount ∧ msg.saved then
          (some { msg with retryCount := msg.retryCount - 1, sendTime := now }, [msg.call])
        else (none, [])
      else (some msg, [])

/-- `qd_dhcp_check_timeouts`. -/
def checkTimeouts (conn : Conn) (now : Nat) : Conn :=
  { conn with
    pending := conn.pending.map fun slot => (service now slot).1
    sent := conn.sent ++ conn.pending.flatMap fun slot => (service now slot).2 }

/-! ## Calls -/

/-- What a receive brings: a response, a failure other than `QD_DHCP_ERR_IO`, or nothing that
matters. -/
inductive Received
  | response (seq : Nat) (error : Bool) (status : Int)
  | failed (result : Int)
  | nothing

/-- A round of the loop of `qd_dhcp_wait_ack`: the clock in its test, what it receives, and the
clock in `qd_dhcp_check_timeouts`. -/
structure Round where
  time : Nat
  received : Received
  now : Nat

/-- `qd_dhcp_wait_ack`, which has not returned where the rounds end. -/
def waitAck (conn : Conn) (seq deadline : Nat) : List Round → Option (Int × Conn)
  | [] => none
  | round :: rounds =>
      if round.time < deadline then
        match round.received with
        | .response other error status =>
            if other = seq then some (if error then status else dhcpOk, processAck conn other)
            else waitAck (checkTimeouts (processAck conn other) round.now) seq deadline rounds
        | .failed result => some (result, conn)
        | .nothing => waitAck (checkTimeouts conn round.now) seq deadline rounds
      else some (dhcpErrTimeout, conn)

/-- `qd_dhcp_request_opts_t`. -/
structure Opts where
  timeout : Nat
  retryCount : BitVec 32
  noAck : Bool

/-- A call of `qd_dhcp_send_reliable`, with what it meets: the result of the transport, whether
there is memory, the clock, and the rounds of its wait. -/
structure Request where
  seq : Nat
  opts : Option Opts
  sent : Int
  saved : Bool
  sendTime : Nat
  start : Nat
  rounds : List Round

/-- The timeout and the number of retries of a call. -/
def Conn.settings (conn : Conn) : Option Opts → Nat × BitVec 32
  | none => (conn.timeout, conn.retryCount)
  | some opts => (if opts.timeout > 0 then opts.timeout else conn.timeout,
      if opts.retryCount > 0 then opts.retryCount else conn.retryCount)

/-- No acknowledgement is wanted. -/
def Request.noAck (request : Request) : Bool :=
  request.opts.elim false Opts.noAck

/-- `qd_dhcp_send_reliable`. -/
def sendReliable (conn : Conn) (request : Request) : Option (Int × Conn) :=
  let call := conn.returned.length
  let settings := conn.settings request.opts
  if request.sent ≠ dhcpOk then some (request.sent, conn)
  else
    let conn := { conn with sent := conn.sent ++ [call] }
    if request.noAck then some (dhcpOk, conn)
    else
      match findPendingSlot ⟨call, request.seq, request.sendTime, settings.1, settings.2.toInt,
          request.saved⟩ conn.pending with
      | none => some (dhcpErrFull, conn)
      | some pending =>
          waitAck { conn with pending := pending } request.seq (request.start + settings.1)
            request.rounds

/-- A call sends a message, or `qd_dhcp_process` takes responses and looks at the clock. -/
inductive Label
  | send (request : Request)
  | process (responses : List Nat) (now : Nat)

/-- The step relation. -/
def step (conn : Conn) : Label → Option Conn
  | .send request => (sendReliable conn request).map fun (result, after) =>
      { after with
        returned := after.returned ++ [⟨result, (conn.settings request.opts).2.toNat,
          after.sent.count conn.returned.length⟩] }
  | .process responses now => some (checkTimeouts (responses.foldl processAck conn) now)

/-! ## Delivery -/

/-- A call reports a timeout only after its message has been transmitted as often as it may be;
once it has returned the message is not transmitted again, and no slot is in use. -/
def Honoured (conn : Conn) : Prop :=
  Free conn.pending ∧
    ∀ call returned, conn.returned[call]? = some returned →
      (returned.result = dhcpErrTimeout → 1 + returned.retryCount ≤ returned.transmitted) ∧
      conn.sent.count call = returned.transmitted

/-- The response comes in a round before the deadline, and no receive fails before it. -/
def Answered (seq deadline : Nat) : List Round → Prop
  | [] => False
  | round :: rounds => round.time < deadline ∧
      match round.received with
      | .response other error status =>
          if other = seq then ¬ (error = true ∧ status = dhcpErrTimeout)
          else Answered seq deadline rounds
      | .failed _ => False
      | .nothing => Answered seq deadline rounds

instance Answered.decidable (seq deadline : Nat) :
    (rounds : List Round) → Decidable (Answered seq deadline rounds)
  | [] => isFalse id
  | ⟨_, received, _⟩ :: rounds => by
      have := Answered.decidable seq deadline rounds
      rcases received with _ | _ | _ <;> unfold Answered <;> infer_instance

/-- The transport refuses the message, no acknowledgement is wanted, or it comes in time. -/
def Settles (conn : Conn) : Label → Prop
  | .send request => request.sent ≠ dhcpErrTimeout ∧ (request.sent ≠ dhcpOk ∨ request.noAck = true ∨
      Answered request.seq (request.start + (conn.settings request.opts).1) request.rounds)
  | .process .. => True

instance (conn : Conn) (label : Label) : Decidable (Settles conn label) := by
  rcases label with _ | _ <;> unfold Settles <;> infer_instance

/-- A call has ended without a timeout, has left no slot in use and has transmitted only its own
message. -/
structure Settled (conn : Conn) (call : Nat) (result : Int) (after : Conn) : Prop where
  notTimeout : result ≠ dhcpErrTimeout
  free : Free after.pending
  returned : after.returned = conn.returned
  sent : ∃ count, after.sent = conn.sent ++ List.replicate count call

/-- At most the first slot is in use, by a call with this number. -/
def Alone (call seq : Nat) (pending : List (Option Pending)) : Prop :=
  ∃ slot slots, pending = slot :: slots ∧ Free slots ∧
    ∀ msg, slot = some msg → msg.call = call ∧ msg.seq = seq

theorem Free.cons {slots : List (Option Pending)} (free : Free slots) : Free (none :: slots) :=
  forall_mem_cons.mpr ⟨rfl, free⟩

/-- Nothing happens to free slots. -/
theorem Free.same {slots : List (Option Pending)} (free : Free slots) (seq now : Nat) :
    freePendingSeq seq slots = slots ∧ slots.map (fun slot => (service now slot).1) = slots ∧
      slots.flatMap (fun slot => (service now slot).2) = [] := by
  induction slots with
  | nil => exact ⟨rfl, rfl, rfl⟩
  | cons slot slots ih =>
    obtain ⟨isFree, others⟩ := forall_mem_cons.mp free
    obtain ⟨notFreed, same, nothing⟩ := ih others
    rw [map_cons, flatMap_cons, isFree, freePendingSeq, notFreed, same, nothing]
    exact ⟨rfl, rfl, rfl⟩

section Wait

variable {conn : Conn} {call seq : Nat} (alone : Alone call seq conn.pending)
include alone

/-- The slot of the call is serviced, and nothing else is transmitted. -/
theorem Alone.checkTimeouts (now : Nat) : Alone call seq (checkTimeouts conn now).pending ∧
      ∃ count, (checkTimeouts conn now).sent = conn.sent ++ List.replicate count call := by
  obtain ⟨slot, slots, pendingEq, free, mine⟩ := alone
  obtain ⟨-, same, nothing⟩ := free.same 0 now
  simp only [Reliable.checkTimeouts, pendingEq, map_cons, flatMap_cons, same, nothing]
  cases slot with
  | none => exact ⟨⟨_, _, rfl, free, mine⟩, 0, rfl⟩
  | some msg =>
    obtain ⟨rfl, rfl⟩ := mine msg rfl
    rw [service]
    split_ifs
    · refine ⟨⟨_, _, rfl, free, ?_⟩, 1, rfl⟩
      rintro _ ⟨⟩
      exact ⟨rfl, rfl⟩
    · exact ⟨⟨_, _, rfl, free, by simp⟩, 0, rfl⟩
    · exact ⟨⟨_, _, rfl, free, mine⟩, 0, rfl⟩

/-- A response frees the slot if it is the one to its message, and changes nothing otherwise. -/
theorem Alone.processAck (other : Nat) : (other = seq → Free (processAck conn other).pending) ∧
      (other ≠ seq → processAck conn other = conn) := by
  obtain ⟨slot, slots, pendingEq, free, mine⟩ := alone
  obtain ⟨timeout, retryCount, pending, sent, returned⟩ := conn
  cases pendingEq
  cases slot with
  | none =>
    rw [Reliable.processAck, freePendingSeq, (free.same other 0).1]
    exact ⟨fun _ => free.cons, fun _ => rfl⟩
  | some msg =>
    obtain ⟨-, rfl⟩ := mine msg rfl
    rw [Reliable.processAck, freePendingSeq, (free.same other 0).1]
    refine ⟨fun same => ?_, fun different => by rw [if_neg different.symm]⟩
    rw [if_pos same.symm]
    exact free.cons

/-- A wait that is answered settles its message. -/
theorem Alone.waitAck {deadline : Nat} {rounds : List Round}
    (answered : Answered seq deadline rounds) {result : Int} {after : Conn}
    (ended : waitAck conn seq deadline rounds = some (result, after)) :
    Settled conn call result after := by
  induction rounds generalizing conn with
  | nil => exact answered.elim
  | cons round rounds ih =>
    obtain ⟨time, received, now⟩ := round
    obtain ⟨inTime, answered⟩ := answered
    rw [Reliable.waitAck, if_pos inTime] at ended
    have goOn (answered : Answered seq deadline rounds)
        (ended : Reliable.waitAck (Reliable.checkTimeouts conn now) seq deadline rounds =
          some (result, after)) : Settled conn call result after := by
      obtain ⟨still, more, sentEq⟩ := alone.checkTimeouts now
      obtain ⟨notTimeout, free, returned, count, laterEq⟩ := ih still answered ended
      refine ⟨notTimeout, free, returned, more + count, ?_⟩
      rw [laterEq, sentEq, append_assoc, replicate_append_replicate]
    cases received with
    | response other error status =>
      by_cases isOurs : other = seq
      · simp only [isOurs] at answered ended
        cases ended
        refine ⟨?_, (alone.processAck seq).1 rfl, rfl, 0, (append_nil _).symm⟩
        cases error with
        | false => exact (by decide : dhcpOk ≠ dhcpErrTimeout)
        | true => exact fun timeout => answered ⟨rfl, timeout⟩
      · simp only [isOurs, (alone.processAck other).2 isOurs] at answered ended
        exact goOn answered ended
    | failed result => exact answered.elim
    | nothing => exact goOn answered ended

end Wait

variable {conn next : Conn}

theorem sendReliable_settles {after : Conn} {request : Request} {result : Int}
    (free : Free conn.pending) (settles : Settles conn (.send request))
    (ended : sendReliable conn request = some (result, after)) :
    Settled conn conn.returned.length result after := by
  obtain ⟨notTimeout, settles⟩ := settles
  simp only [sendReliable] at ended
  split_ifs at ended with refused noAck
  · cases ended
    exact ⟨notTimeout, free, rfl, 0, (append_nil _).symm⟩
  · cases ended
    exact ⟨by decide, free, rfl, 1, rfl⟩
  · have answered := (settles.resolve_left fun other => other (not_not.mp refused)).resolve_left noAck
    split at ended
    · cases ended
      exact ⟨by decide, free, rfl, 1, rfl⟩
    next pending placed =>
      have alone : Alone conn.returned.length request.seq pending := by
        cases slotsEq : conn.pending with
        | nil =>
          rw [slotsEq] at placed
          cases placed
        | cons slot slots =>
          rw [slotsEq] at free placed
          obtain ⟨rfl, others⟩ := forall_mem_cons.mp free
          cases placed
          refine ⟨_, _, rfl, others, ?_⟩
          rintro _ ⟨⟩
          exact ⟨rfl, rfl⟩
      obtain ⟨notTimeout, free, returned, count, sentEq⟩ := alone.waitAck answered ended
      refine ⟨notTimeout, free, returned, 1 + count, sentEq.trans ?_⟩
      rw [append_assoc, replicate_add, replicate_one]

/-- Transmissions are for calls that have returned. -/
def Inv (conn : Conn) : Prop :=
  Honoured conn ∧ ∀ call ∈ conn.sent, call < conn.returned.length

theorem Inv.step {label : Label} (inv : Inv conn) (settles : Settles conn label)
    (stepEq : step conn label = some next) : Inv next := by
  obtain ⟨⟨free, calls⟩, known⟩ := inv
  cases label with
  | process responses now =>
    have acked (seq : Nat) : processAck conn seq = conn := by
      rw [processAck, (free.same seq now).1]
    obtain ⟨-, same, nothing⟩ := free.same 0 now
    cases stepEq
    rw [foldl_fixed' acked, checkTimeouts, same, nothing, append_nil]
    exact ⟨⟨free, calls⟩, known⟩
  | send request =>
    obtain ⟨⟨result, after⟩, ended, rfl⟩ := Option.map_eq_some_iff.mp stepEq
    obtain ⟨notTimeout, afterFree, returnedEq, count, sentEq⟩ := sendReliable_settles free settles ended
    simp only [returnedEq, sentEq]
    refine ⟨⟨afterFree, fun call returned found => ?_⟩, fun call member => ?_⟩
    · rcases Nat.lt_or_ge call conn.returned.length with earlier | last
      · rw [List.getElem?_append_left earlier] at found
        rw [count_append, count_replicate, if_neg (by simpa using Nat.ne_of_gt earlier)]
        exact calls call returned found
      · obtain rfl : call = conn.returned.length := by
          have := (List.getElem?_eq_some_iff.mp found).choose
          simp at this
          omega
        rw [List.getElem?_concat_length] at found
        cases found
        exact ⟨fun timeout => absurd timeout notTimeout, rfl⟩
    · rw [length_append]
      rcases mem_append.mp member with earlier | now
      · exact Nat.lt_add_right _ (known call earlier)
      · rw [eq_of_mem_replicate now]
        exact Nat.lt_succ_self _

/-- In every run in which each message is refused, wants no acknowledgement or is answered in
time, every call honours its number of retries and leaves nothing behind. -/
theorem retries_honoured {timeout : Nat} {retryCount : BitVec 32}
    (run : GuardedRun step Settles (Conn.initial timeout retryCount) conn) : Honoured conn := by
  refine (run.invariant Inv ⟨⟨?_, ?_⟩, ?_⟩ fun _ _ _ inv settles => inv.step settles).1
  · exact fun slot member => eq_of_mem_replicate member
  · simp [Conn.initial]
  · simp [Conn.initial]

/-- A message that is answered in the second round. -/
theorem retries_honoured_answered :
    ∃ conn, exec (guarded step Settles) (Conn.initial 5000 3) [.send ⟨1, none, 0, true, 0, 0,
        [⟨0, .nothing, 0⟩, ⟨1, .response 1 false 0, 1⟩]⟩] = some conn ∧
      conn.returned = [⟨0, 3, 1⟩] ∧ Honoured conn := by
  apply exists_exec fun conn => conn.returned = [⟨0, 3, 1⟩]
  · decide +kernel
  · exact fun conn connEq returned => ⟨returned, retries_honoured (guardedRun_of_exec connEq)⟩

/-- Without a response the call reports a timeout after one transmission out of four, and its
message is transmitted again by a later call. -/
theorem not_honoured_lost :
    ∃ conn, Reachable step (Conn.initial 5000 3) conn ∧ conn.returned = [⟨dhcpErrTimeout, 3, 1⟩] ∧
      conn.sent = [0, 0] ∧ ¬ Honoured conn := by
  refine exists_reachable
    [.send ⟨1, none, 0, true, 0, 0, [⟨0, .nothing, 0⟩, ⟨5000, .nothing, 5000⟩]⟩, .process [] 5000]
    (fun conn => conn.returned = [⟨dhcpErrTimeout, 3, 1⟩] ∧ conn.sent = [0, 0]) (by decide +kernel) ?_
  rintro conn ⟨returned, sent⟩
  refine ⟨returned, sent, fun honoured => ?_⟩
  have first := (honoured.2 0 ⟨dhcpErrTimeout, 3, 1⟩ (by rw [returned]; rfl)).1 rfl
  exact absurd first (by decide)

end QDaemon.Dhcp.Reliable
