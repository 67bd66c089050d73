import QDaemon.Common
import QDaemon.Transition.Run

/-!
# Futures

`qd_threadpool_submit_future` creates a future and a task that refers to it.  The
worker that runs the task stores the states RUNNING and COMPLETED; any number of
threads of the caller cancel the future, wait for it or read its result; and the
caller releases its reference once, when none of them is inside.

The model follows one future.  Its task is in the pool's queues, with a worker, or
gone; which queue and which worker does not matter.  Each step is one access to the
future by the submission, the worker or a thread of the caller, under sequential
consistency.  A thread that sleeps on the condition variable may wake at any time.
-/

namespace QDaemon.ThreadPool.Future

open Common Transition

universe u

/-- `qd_future_state_t`. -/
inductive FutureState
  | pending
  | running
  | completed
  | cancelled
  | error
  deriving DecidableEq

/-- The value of the enumeration constant. -/
def FutureState.code : FutureState → Nat
  | .pending => 0
  | .running => 1
  | .completed => 2
  | .cancelled => 3
  | .error => 4

/-- The test of `qd_future_wait` and `qd_future_is_done`:
`state >= QD_FUTURE_COMPLETED`. -/
def FutureState.Done (state : FutureState) : Prop :=
  FutureState.completed.code ≤ state.code

instance (state : FutureState) : Decidable state.Done :=
  inferInstanceAs (Decidable (_ ≤ _))

/-- Who may hold the future's mutex. -/
inductive Party (Tid : Type u)
  | worker
  | caller (thread : Tid)
  deriving DecidableEq

/-- `struct qd_future`. -/
structure QdFuture (Tid : Type u) where
  state : FutureState
  result : BitVec 64
  error : Int
  mutex : Option (Party Tid)
  refcount : Int

/-- `future_create`. -/
def futureCreate {Tid : Type u} : QdFuture Tid :=
  ⟨.pending, 0, 0, none, 1⟩

/-- Where `qd_threadpool_submit_future` stands.  `rejected` is a return before the
future exists; `dropFuture`, `releaseTask` and `releaseCaller` are the releases on
its error paths, after which it has `failed`. -/
inductive SubmitPc
  | start
  | rejected
  | allocTask
  | dropFuture
  | addRef
  | push
  | releaseTask
  | releaseCaller
  | returned
  | failed
  deriving DecidableEq

/-- Where the task is.  `taken` to `unlock` are the accesses of the worker that has
popped it. -/
inductive TaskPc
  | absent
  | queued
  | taken
  | run
  | lock
  | complete
  | broadcast
  | unlock
  | finished
  | discarded
  deriving DecidableEq

/-- Where a thread of the caller stands in `qd_future_cancel`, `qd_future_wait` or
`qd_future_get`.  Outside it keeps the return code of its last call. -/
inductive CallerPc
  | idle (result : Int)
  | cancelCas
  | cancelLock
  | cancelBroadcast
  | cancelUnlock
  | waitLock (timed : Bool)
  | waitCheck (timed : Bool)
  | waitSleep (timed : Bool)
  | waitRelock (timed expired : Bool)
  | waitUnlock (result : Int)
  | get
  deriving DecidableEq

/-- A call of the future's interface. -/
inductive Operation
  | cancel
  | wait (timed : Bool)
  | get

/-- The first access of a call. -/
def Operation.enter : Operation → CallerPc
  | .cancel => .cancelCas
  | .wait timed => .waitLock timed
  | .get => .get

/-- The future with everyone who uses it.  `inside` counts the caller's threads
that are in a call.  `freed`, `starts` and `cancels` count the calls of
`future_destroy`, the starts of the task function and the cancellations that
returned `QD_OK`; `got` is what the last `qd_future_get` returned. -/
structure State (Tid : Type u) where
  future : QdFuture Tid
  submit : SubmitPc
  task : TaskPc
  caller : Tid → CallerPc
  inside : Nat
  released : Bool
  freed : Nat
  starts : Nat
  cancels : Nat
  got : BitVec 64 × Int

variable {Tid : Type u}

def initial : State Tid where
  future := futureCreate
  submit := .start
  task := .absent
  caller := fun _ => .idle qdOk
  inside := 0
  released := false
  freed := 0
  starts := 0
  cancels := 0
  got := (0, 0)

/-- `qd_future_release`. -/
def futureRelease (state : State Tid) : State Tid :=
  { state with
    future := { state.future with refcount := state.future.refcount - 1 }
    freed := if state.future.refcount = 1 then state.freed + 1 else state.freed }

/-- The next access of `qd_threadpool_submit_future`.  `ok` is the outcome of the
checks, of an allocation or of the push. -/
def submitStep (ok : Bool) (state : State Tid) : SubmitPc → Option (State Tid)
  | .start =>
      if ok then some { state with future := futureCreate, submit := .allocTask }
      else some { state with submit := .rejected }
  | .allocTask => some { state with submit := if ok then .addRef else .dropFuture }
  | .dropFuture => some { futureRelease state with submit := .failed }
  | .addRef => some { state with
      future := { state.future with refcount := state.future.refcount + 1 }
      submit := .push }
  | .push =>
      if ok then some { state with submit := .returned, task := .queued }
      else some { state with submit := .releaseTask }
  | .releaseTask => some { futureRelease state with submit := .releaseCaller }
  | .releaseCaller => some { futureRelease state with submit := .failed }
  | .rejected | .returned | .failed => none

/-- The worker's next access to the future. -/
def workerStep (state : State Tid) : TaskPc → Option (State Tid)
  | .taken => some { state with
      future := { state.future with state := .running }
      task := .run }
  | .run => some { state with starts := state.starts + 1, task := .lock }
  | .lock =>
      match state.future.mutex with
      | none => some { state with
          future := { state.future with mutex := some .worker }
          task := .complete }
      | some _ => none
  | .complete => some { state with
      future := { state.future with state := .completed }
      task := .broadcast }
  | .broadcast => some { state with task := .unlock }
  | .unlock => some { state with
      future := { state.future with mutex := none }
      task := .finished }
  | .absent | .queued | .finished | .discarded => none

/-- Take the mutex for a thread of the caller. -/
def lockFor (thread : Tid) (state : State Tid) (pc : CallerPc) : Option (State Tid × CallerPc) :=
  match state.future.mutex with
  | none => some ({ state with
      future := { state.future with mutex := some (.caller thread) } }, pc)
  | some _ => none

/-- Give the mutex back. -/
def unlocked (state : State Tid) : State Tid :=
  { state with future := { state.future with mutex := none } }

/-- The next access of a thread of the caller.  `expired` says that
`pthread_cond_timedwait` returned `ETIMEDOUT`. -/
def callerStep (thread : Tid) (expired : Bool) (state : State Tid) :
    CallerPc → Option (State Tid × CallerPc)
  | .idle _ => none
  | .cancelCas =>
      if state.future.state = .pending then
        some ({ state with future := { state.future with state := .cancelled } }, .cancelLock)
      else some ({ state with inside := state.inside - 1 }, .idle qdErrBusy)
  | .cancelLock => lockFor thread state .cancelBroadcast
  | .cancelBroadcast => some (state, .cancelUnlock)
  | .cancelUnlock => some ({ unlocked state with
      inside := state.inside - 1
      cancels := state.cancels + 1 }, .idle qdOk)
  | .waitLock timed => lockFor thread state (.waitCheck timed)
  | .waitCheck timed =>
      if state.future.state.Done then some (state, .waitUnlock qdOk)
      else some (unlocked state, .waitSleep timed)
  | .waitSleep timed => some (state, .waitRelock timed (timed && expired))
  | .waitRelock timed expired =>
      lockFor thread state (if expired then .waitUnlock qdErrTimeout else .waitCheck timed)
  | .waitUnlock result => some ({ unlocked state with inside := state.inside - 1 }, .idle result)
  | .get => some ({ state with
      inside := state.inside - 1
      got := (state.future.result, state.future.error) }, .idle qdOk)

/-- The steps of the system. -/
inductive Label (Tid : Type u)
  | submit (ok : Bool)
  | take
  | discard
  | worker
  | call (thread : Tid) (operation : Operation)
  | caller (thread : Tid) (expired : Bool)
  | release

variable [DecidableEq Tid]

/-- The step relation.  A task that is still queued when the workers are gone is
discarded with the pool. -/
def step (state : State Tid) : Label Tid → Option (State Tid)
  | .submit ok => submitStep ok state state.submit
  | .take => if state.task = .queued then some { state with task := .taken } else none
  | .discard => if state.task = .queued then some { state with task := .discarded } else none
  | .worker => workerStep state state.task
  | .call thread operation =>
      match state.caller thread with
      | .idle _ =>
          if state.submit = .returned ∧ state.released = false then some { state with
            inside := state.inside + 1
            caller := Function.update state.caller thread operation.enter }
          else none
      | _ => none
  | .caller thread expired =>
      (callerStep thread expired state (state.caller thread)).map fun (next, pc) =>
        { next with caller := Function.update state.caller thread pc }
  | .release =>
      if state.submit = .returned ∧ state.released = false ∧ state.inside = 0 then
        some { futureRelease state with released := true }
      else none

end QDaemon.ThreadPool.Future
