import QDaemon.Aio.Epoll.PendingList

/-!
# Results of completions

`qd_ep_do_io` returns -1 for an operation that failed, and `qd_ep_wait` then reports
`-errno`.  The error of a connection comes from `getsockopt` with `SO_ERROR` and is not
stored in `errno`.
-/

namespace QDaemon.Aio.Epoll

open Transition

universe u v

/-- What the system says of an operation: `errno` before it, the result of its system
call or the `errno` of that call, and what `getsockopt` stores for a connection.  A call
transfers at most 0x7ffff000 bytes, so that its result is an `int`. -/
structure SystemCall where
  errno : Int
  call : Except Int Int
  socketError : Int
  result_nonneg : ∀ result, call = .ok result → 0 ≤ result
  code_pos : ∀ code, call = .error code → 0 < code
  socketError_nonneg : 0 ≤ socketError

namespace SystemCall

variable (system : SystemCall)

/-- The result of a connection, with `code` as the error of one that was refused. -/
def connection (code : Int) : Except Int Int :=
  system.call.bind fun _ => if system.socketError ≠ 0 then .error code else .ok 0

/-- What `qd_ep_do_io` has from the system: the result of an operation, or `errno`. -/
def answer : Op → Except Int Int
  | .connect => system.connection system.errno
  | _ => system.call

/-- What became of an operation: its result, or its error.  A timer that has already been
drained has expired. -/
def operation : Op → Except Int Int
  | .read | .write | .accept | .send | .recv => system.call
  | .connect => system.connection system.socketError
  | .timeout => if system.call = .error eagain then .ok 0 else system.call.map fun _ => 0
  | .poll | .channel => .ok 0
  | .nop | .close | .cancel => .error enotsup

/-- The result tells what became of the operation. -/
def Reported (op : Op) (result : Int) : Prop :=
  match system.operation op with
  | .ok value => 0 ≤ result ∧ result = value
  | .error code => result < 0 ∧ result = -code

/-- Where the connection was refused, `errno` was already the error of the connection. -/
def Stored : Prop :=
  system.call.isOk → system.socketError ≠ 0 → system.errno = system.socketError

variable {system}

theorem reported_connect_iff :
    system.Reported .connect (ioResult .connect (system.answer .connect)) ↔ system.Stored := by
  obtain ⟨errno, call, socketError, nonneg, pos, socketError_nonneg⟩ := system
  cases call with
  | error code =>
      have := pos code rfl
      simp [Reported, operation, connection, ioResult, doIo, answer, Stored, Except.bind, this,
        Except.toBool]
  | ok result =>
      by_cases refused : socketError = 0
      · simp [Reported, operation, connection, ioResult, doIo, answer, Stored, Except.bind, refused]
      · simp only [Reported, operation, connection, ioResult, doIo, answer, Stored, Except.bind,
          refused, Except.toBool, ne_eq, not_false_eq_true, if_true, forall_const]
        omega

theorem reported_of_ne {op : Op} (other : op ≠ .connect) :
    system.Reported op (ioResult op (system.answer op)) := by
  obtain ⟨errno, call, socketError, nonneg, pos, socketError_nonneg⟩ := system
  cases call with
  | error code =>
      have := pos code rfl
      cases op with
      | connect => exact absurd rfl other
      | timeout =>
          by_cases drained : code = eagain <;>
            simp [Reported, operation, ioResult, doIo, answer, Except.map, drained, this]
      | _ => simp [Reported, operation, ioResult, doIo, answer, enotsup, this]
  | ok result =>
      have := nonneg result rfl
      cases op with
      | connect => exact absurd rfl other
      | _ => simp [Reported, operation, ioResult, doIo, answer, Except.map, enotsup, this]

end SystemCall

/-- In every round of the loop of `qd_ep_wait` the result that is reported is negative
exactly when the operation failed and is then minus its error, and is the result of the
operation otherwise, if and only if the operation is not a connection that was refused
while `errno` was something else. -/
theorem complete_reported_iff {N : Type u} {U : Type v} [DecidableEq N] {backend next : Backend N U}
    {node : N} {system : SystemCall} {completion : Completion U}
    (completed : backend.complete node (system.answer (backend.pending node).req.op) =
      some (next, completion)) : system.Reported completion.op completion.result ↔
      ((backend.pending node).isWatch = false → (backend.pending node).req.op = .connect →
        system.Stored) := by
  unfold Backend.complete at completed
  split at completed
  · cases completed
  split at completed
  case isTrue watch =>
    cases completed
    simp [watch, SystemCall.Reported, SystemCall.operation]
  case isFalse regular =>
    obtain ⟨_, _, completionEq⟩ := Option.map_eq_some_iff.mp completed
    cases completionEq
    by_cases connect : (backend.pending node).req.op = .connect
    · rw [connect, SystemCall.reported_connect_iff]
      simp [regular]
    · exact iff_of_true (SystemCall.reported_of_ne connect) fun _ is => absurd is connect

/-- A refused connection, with `errno` as it was left by an earlier call. -/
def refused (errno : Int) : SystemCall where
  errno := errno
  call := .ok 0
  socketError := 111
  result_nonneg := by
    rintro _ ⟨⟩
    exact Int.le_refl 0
  code_pos := by rintro _ ⟨⟩
  socketError_nonneg := by decide

/-- A connection that is ready. -/
def connecting : List (Label Bool Nat) :=
  [.submit ⟨.connect, 3, some 1⟩ (giving false), .wait 8 [3]]

theorem complete_reported_iff_connecting :
    ∃ state next completion, exec step (State.initial 16 blank) connecting = some state ∧
      state.backend.complete false ((refused 111).answer (state.backend.pending false).req.op) =
        some (next, completion) ∧ (refused 111).Reported completion.op completion.result := by
  obtain ⟨state, stateEq, completed⟩ := exec_meets step (State.initial 16 blank) connecting
    (fun state => (state.backend.complete false
      ((refused 111).answer (state.backend.pending false).req.op)).isSome) (by decide +kernel)
  obtain ⟨⟨next, completion⟩, completed⟩ := Option.isSome_iff_exists.mp completed
  exact ⟨state, next, completion, stateEq, completed,
    (complete_reported_iff completed).mpr fun _ _ _ _ => rfl⟩

/-- With `errno` at 0 a refused connection completes with the result of an established
one. -/
theorem refused_reported_established : ∃ state next, Reachable step (State.initial 16 blank) state ∧
      state.backend.complete false ((refused 0).answer .connect) =
        some (next, ⟨some 1, 0, 0, .connect⟩) ∧ ¬ (refused 0).Reported .connect 0 := by
  obtain ⟨state, stateEq, completed⟩ := exec_meets step (State.initial 16 blank) connecting
    (fun state => (state.backend.complete false ((refused 0).answer .connect)).map Prod.snd =
      some ⟨some 1, 0, 0, .connect⟩) (by decide +kernel)
  obtain ⟨⟨next, -⟩, completed, rfl⟩ := Option.map_eq_some_iff.mp completed
  exact ⟨state, next, reachable_of_exec stateEq, completed, by simp [SystemCall.Reported,
    SystemCall.operation, SystemCall.connection, refused, Except.bind]⟩

end QDaemon.Aio.Epoll
