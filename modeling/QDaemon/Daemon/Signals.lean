import QDaemon.Daemon.LifeCycle

/-!
# The dispatch of signals

`qd_signal_process` calls the handlers of a signal while it holds the lock of the signal
table.  The lock is not recursive: a call of a handler that takes it never returns.
-/

namespace QDaemon.Daemon.Signals

open Transition

/-- The default handlers, or a handler of the user; `code` names what it calls. -/
inductive Handler (κ : Type)
  | sigterm | sigint | sigchld
  | sighup (onReload : κ)
  | user (code : κ)

/-- The lock, the table and the state of the daemon.  The descriptor is open while
`initialized` is set. -/
structure Machine (κ : Type) where
  held : Bool
  handlers : List (Nat × Option (Handler κ))
  initialized : Bool
  state : DaemonState

/-- What a handler calls: a routine of the signal table with its body under the lock,
`qd_signal_process` with or without a signal to read, `qd_daemon_shutdown`, or a store of
`qd_daemon_init` or `qd_daemon_reload`. -/
inductive Call (κ : Type)
  | table (body : Machine κ → Machine κ)
  | process (waiting : Bool)
  | shutdown
  | store (state : DaemonState)

variable {κ : Type} {machine after : Machine κ} {commands : List (Call κ)}

/-- Lock, body and unlock: nothing follows where the thread has the lock already. -/
def Machine.locked (machine : Machine κ) (body : Machine κ → Machine κ) : Option (Machine κ) :=
  if machine.held then none else some (body machine)

def qdSignalShutdown (machine : Machine κ) : Machine κ :=
  if machine.initialized then { machine with handlers := [], initialized := false } else machine

/-- A call of a handler; `none` if it does not return. -/
def Machine.call (machine : Machine κ) : Call κ → Option (Machine κ)
  | .table body => machine.locked body
  | .process waiting => if waiting then machine.locked id else some machine
  | .shutdown =>
      if machine.state = .running then
        (Machine.locked { machine with state := .stopping } qdSignalShutdown).map
          ({ · with state := .stopped })
      else some machine
  | .store state => some { machine with state := state }

/-- No call takes the lock, from a state of the daemon on. -/
def Quiet : DaemonState → List (Call κ) → Prop
  | _, [] => True
  | _, .table _ :: _ => False
  | state, .process waiting :: calls => waiting = false ∧ Quiet state calls
  | state, .shutdown :: calls => state ≠ .running ∧ Quiet state calls
  | _, .store state :: calls => Quiet state calls

/-- Under the lock only the state changes. -/
theorem table_of_exec (held : machine.held = true)
    (execEq : exec Machine.call machine commands = some after) :
    after.held = true ∧ after.handlers = machine.handlers := by
  apply (reachable_of_exec execEq).invariant
    (fun current => current.held = true ∧ current.handlers = machine.handlers) ⟨held, rfl⟩
  rintro current call next ⟨locked, same⟩ - callEq
  cases call <;> simp [Machine.call, Machine.locked, locked] at callEq
  · rwa [← callEq.2, and_iff_right locked]
  · rwa [← callEq.2, and_iff_right locked]
  · rwa [← callEq, and_iff_right rfl]

theorem returns_iff_quiet (held : machine.held = true) :
    (exec Machine.call machine commands).isSome ↔ Quiet machine.state commands := by
  induction commands generalizing machine with
  | nil => simp [Quiet]
  | cons call commands ih =>
    rw [exec_cons]
    cases call with
    | table body => simp [Machine.call, Machine.locked, held, Quiet]
    | process waiting =>
      cases waiting <;> simp [Machine.call, Machine.locked, held, Quiet, ih held]
    | shutdown =>
      by_cases running : machine.state = .running <;>
        simp [Machine.call, Machine.locked, held, Quiet, running, ih held]
    | store state => exact ih held

section Dispatch

variable (code : κ → List (Call κ))

def Handler.calls : Handler κ → List (Call κ)
  | .sigterm | .sigint => [.shutdown]
  | .sigchld => []
  | .sighup onReload => .store .reloading :: code onReload ++ [.store .running]
  | .user name => code name

/-- The calls that the loop over the table makes for a signal. -/
def dispatched (handlers : List (Nat × Option (Handler κ))) (signo : Nat) : List (Call κ) :=
  handlers.flatMap fun (number, handler) =>
    if number = signo then handler.elim [] (Handler.calls code) else []

/-- One round of `qd_signal_process`: lock, call the handlers, unlock. -/
def dispatch (machine : Machine κ) (signo : Nat) : Option (Machine κ) :=
  if machine.held then none
  else
    (exec Machine.call { machine with held := true } (dispatched code machine.handlers signo)).map
      ({ · with held := false })

/-- `qd_signal_process`, with the signals it reads. -/
def qdSignalProcess (machine : Machine κ) (signals : List Nat) : Option (Machine κ) :=
  if machine.initialized then exec (dispatch code) machine signals else some machine

/-- The process returns.  A first signal that makes a running daemon call
`qd_daemon_shutdown` first, as the default handlers do, stops it. -/
def Completes (machine : Machine κ) (signals : List Nat) : Prop :=
  (qdSignalProcess code machine signals).isSome ∧
    ∀ signo ∈ signals.head?, machine.initialized = true → machine.state = .running →
      (dispatched code machine.handlers signo).head? = some .shutdown →
        (dispatch code machine signo).any (·.state = .stopped)

theorem dispatch_returns (free : machine.held = false) (signals : List Nat) :
    (exec (dispatch code) machine signals).isSome ↔
      Quiet machine.state (signals.flatMap (dispatched code machine.handlers)) := by
  induction signals generalizing machine with
  | nil => simp [Quiet]
  | cons signo signals ih =>
    let locked := { machine with held := true }
    change _ ↔ Quiet locked.state _
    rw [← returns_iff_quiet rfl, List.flatMap_cons, exec_append, exec_cons, dispatch, free]
    cases first : exec Machine.call locked (dispatched code machine.handlers signo) with
    | none => simp
    | some after =>
      obtain ⟨held, same⟩ := table_of_exec rfl first
      have rest : _ ↔ Quiet { after with held := false }.state _ := ih rfl
      simpa [returns_iff_quiet held, same] using rest

end Dispatch

/-- The table after `qd_signal_init`. -/
def ready : Machine Unit :=
  ⟨false, [(15, some .sigterm), (2, some .sigint), (1, some (.sighup ())), (17, some .sigchld)],
    true, .running⟩

end QDaemon.Daemon.Signals
