import QDaemon.Transition.Run
import QDaemon.Transition.Threads

/-!
# Workers, submitters and shutdown of the thread pool

The control flow of `worker_thread` against the calls that change what it
reads: submissions, pause, resume and shutdown.  Each step is one atomic load,
store, read-modify-write or eventfd operation.  Tasks are counted, not named;
which queue a task sits in does not matter for the loop.

The wake descriptor is an eventfd in semaphore mode: a write adds to the
counter and blocks when the counter would pass its limit, a read takes one and
blocks at zero.
-/

namespace QDaemon.ThreadPool.Shutdown

open Transition

universe u

/-- `qd_shutdown_mode_t`. -/
inductive ShutdownMode
  | graceful
  | immediate
  deriving DecidableEq

/-- Where a worker stands in `worker_thread`.  The constructors are named after
the access that comes next; those that start with `idle` belong to the branch
that found no task. -/
inductive WorkerPc
  | topShutdown
  | topPending
  | topPaused
  | pauseRead
  | search
  | run
  | finish
  | idleShutdown
  | idlePending
  | idleRead
  | exited
  deriving DecidableEq

/-- Where a calling thread stands: nowhere, in a submission with `left` tasks to
go, in `qd_pool_wake`, or in `qd_threadpool_shutdown`. -/
inductive CallPc
  | none
  | submitAdd (left submitted : Nat)
  | submitPush (left submitted : Nat)
  | submitSub (submitted : Nat)
  | wake (count : Nat)
  | shutdownRunning (mode : ShutdownMode)
  | shutdownWake (mode : ShutdownMode)
  deriving DecidableEq

/-- The shared words of `qd_threadpool_t`, the number of queued tasks, the
program counters, and whether a graceful shutdown call has returned. -/
structure State (n : Nat) (Tid : Type u) where
  shutdownMode : Option ShutdownMode
  running : Bool
  paused : Bool
  pendingTasks : BitVec 32
  queued : Nat
  wakeFd : Nat
  worker : Fin n → WorkerPc
  caller : Tid → CallPc
  gracefulRequested : Bool

variable {n : Nat} {Tid : Type u}

/-- The pool as `qd_threadpool_create_ex` leaves it. -/
def State.initial (n : Nat) : State n Tid :=
  ⟨none, true, false, 0, 0, 0, fun _ => .topShutdown, fun _ => .none, false⟩

/-- A call enters one of the pool's functions, or a thread takes its next step.
`ok` says whether the task was allocated or its push accepted, `found` whether
the search over the queues returned a task, and `interrupt` is a signal that
ends a blocking read. -/
inductive Label (n : Nat) (Tid : Type u)
  | submit (thread : Tid) (count : Nat)
  | pause (thread : Tid)
  | resume (thread : Tid)
  | shutdown (thread : Tid) (mode : ShutdownMode)
  | call (thread : Tid) (ok : Bool)
  | worker (id : Fin n) (found : Bool)
  | interrupt (id : Fin n)

/-- The submission loop after a task: the next one, or the wake-up for those
submitted. -/
def submitNext (left submitted : Nat) : CallPc :=
  if left = 0 then (if submitted = 0 then .none else .wake submitted)
  else .submitAdd left submitted

/-- The counter after a write to the eventfd; `none` while the write blocks. -/
def eventfdWrite (counter count : Nat) : Option Nat :=
  if counter + count ≤ 2 ^ 64 - 2 then some (counter + count) else none

/-- The counter after a semaphore read; `none` while the read blocks. -/
def eventfdRead (counter : Nat) : Option Nat :=
  if counter = 0 then none else some (counter - 1)

namespace State

variable [DecidableEq Tid]

/-- Move one worker. -/
def setWorker (state : State n Tid) (id : Fin n) (pc : WorkerPc) : State n Tid :=
  { state with worker := Function.update state.worker id pc }

/-- Move one caller. -/
def setCaller (state : State n Tid) (thread : Tid) (pc : CallPc) : State n Tid :=
  { state with caller := Function.update state.caller thread pc }

end State

/-- A worker's next access. -/
def workerStep (state : State n Tid) (id : Fin n) (found : Bool) : Option (State n Tid) :=
  match state.worker id with
  | .topShutdown =>
      match state.shutdownMode with
      | some .immediate => some (state.setWorker id .exited)
      | some .graceful => some (state.setWorker id .topPending)
      | none => some (state.setWorker id .topPaused)
  | .topPending =>
      if state.pendingTasks = 0 then some (state.setWorker id .exited)
      else some (state.setWorker id .search)
  | .topPaused =>
      if state.paused then some (state.setWorker id .pauseRead)
      else some (state.setWorker id .search)
  | .pauseRead | .idleRead =>
      (eventfdRead state.wakeFd).map fun counter =>
        { state.setWorker id .topShutdown with wakeFd := counter }
  | .search =>
      if found then
        if state.queued = 0 then none
        else some { state.setWorker id .run with queued := state.queued - 1 }
      else some (state.setWorker id .idleShutdown)
  | .run => some (state.setWorker id .finish)
  | .finish =>
      some { state.setWorker id .topShutdown with pendingTasks := state.pendingTasks - 1 }
  | .idleShutdown =>
      match state.shutdownMode with
      | some .immediate => some (state.setWorker id .exited)
      | some .graceful => some (state.setWorker id .idlePending)
      | none => some (state.setWorker id .idleRead)
  | .idlePending =>
      if state.pendingTasks = 0 then some (state.setWorker id .exited)
      else some (state.setWorker id .idleRead)
  | .exited => none

variable [DecidableEq Tid]

/-- A caller's next access. -/
def callStep (state : State n Tid) (thread : Tid) (ok : Bool) : Option (State n Tid) :=
  match state.caller thread with
  | .none => none
  | .submitAdd left submitted =>
      if ok then some { state.setCaller thread (.submitPush (left - 1) submitted) with
        pendingTasks := state.pendingTasks + 1 }
      else some (state.setCaller thread (submitNext 0 submitted))
  | .submitPush left submitted =>
      if ok then some { state.setCaller thread (submitNext left (submitted + 1)) with
        queued := state.queued + 1 }
      else some (state.setCaller thread (.submitSub submitted))
  | .submitSub submitted =>
      some { state.setCaller thread (submitNext 0 submitted) with
        pendingTasks := state.pendingTasks - 1 }
  | .wake count =>
      (eventfdWrite state.wakeFd count).map fun counter =>
        { state.setCaller thread .none with wakeFd := counter }
  | .shutdownRunning mode =>
      some { state.setCaller thread (.shutdownWake mode) with running := false }
  | .shutdownWake mode =>
      (eventfdWrite state.wakeFd n).map fun counter =>
        { state.setCaller thread .none with
          wakeFd := counter
          gracefulRequested := state.gracefulRequested || decide (mode = .graceful) }

/-- Entering a function is its first access.  A call made by a thread that is
inside another one is not a step. -/
def enter (state : State n Tid) (thread : Tid) (next : State n Tid) : Option (State n Tid) :=
  if state.caller thread = .none then some next else none

/-- The step relation. -/
def step (state : State n Tid) : Label n Tid → Option (State n Tid)
  | .submit thread count =>
      enter state thread
        (if state.running then state.setCaller thread (submitNext count 0) else state)
  | .pause thread =>
      enter state thread { state.setCaller thread (.wake n) with paused := true }
  | .resume thread =>
      enter state thread { state.setCaller thread (.wake n) with paused := false }
  | .shutdown thread mode =>
      enter state thread
        { state.setCaller thread (.shutdownRunning mode) with shutdownMode := some mode }
  | .call thread ok => callStep state thread ok
  | .worker id found => workerStep state id found
  | .interrupt id =>
      match state.worker id with
      | .pauseRead | .idleRead => some (state.setWorker id .topShutdown)
      | _ => none

/-- A worker inside `read` on the wake descriptor. -/
def WorkerPc.Reading (pc : WorkerPc) : Prop :=
  pc = .pauseRead ∨ pc = .idleRead

instance : DecidablePred WorkerPc.Reading := fun _ =>
  inferInstanceAs (Decidable (_ ∨ _))

/-- The state shutdown must not reach: a graceful shutdown call has returned,
no task is pending, and one worker is blocked on an empty counter after every
other worker has exited. -/
def Stranded (state : State n Tid) : Prop :=
  state.gracefulRequested = true ∧ state.pendingTasks = 0 ∧ state.wakeFd = 0 ∧
    ∃ id, (state.worker id).Reading ∧ ∀ other, other ≠ id → state.worker other = .exited

instance (state : State n Tid) : Decidable (Stranded state) :=
  inferInstanceAs (Decidable (_ ∧ _ ∧ _ ∧ _))

end QDaemon.ThreadPool.Shutdown
