import QDaemon.ThreadPool.Pool.Core

/-!
# Submission from any thread

A submission looks at the thread-local `tls_worker_id`.  If it is the index of a
worker of the pool that is submitted to, the task goes to that worker's local
queue, and a task of normal priority to its work-stealing deque; otherwise the
submission is one from outside.  `tls_worker_id` is set once, when a worker thread
starts, and says nothing about which pool the thread belongs to.

The system here is any family of pools with their worker threads and any other
threads.  Workers take tasks from their own pool, and a thread outside the pools or
a task on a worker submits to any pool.  As in `QDaemon.ThreadPool.Pool`, one call
and one pass of a worker are one step each.
-/

namespace QDaemon.ThreadPool.Nested

open Function ThreadPool.Pool Transition

universe u v w x

variable {Fn : Type u} {Arg : Type v}

/-! ## Submission with a thread-local index -/

section Submission

variable {n : Nat} [NeZero n]

/-- `worker_id >= 0 && worker_id < pool->num_workers`. -/
def localWorker (n : Nat) (tls : Int) : Option (Fin n) :=
  if inRange : 0 ≤ tls ∧ tls < n then some ⟨tls.toNat, by omega⟩ else none

/-- What a submission leaves behind: the pool, whether the task was accepted, and the
workers whose deques `qd_wsdeque_push` was called on. -/
structure Outcome (n : Nat) (Fn : Type u) (Arg : Type v) where
  pool : Threadpool n (Task Fn Arg)
  ok : Bool
  pushed : List (Fin n)

/-- `work_queue_push` on the local queue of a worker. -/
def pushLocal (pool : Threadpool n (Task Fn Arg)) (id : Fin n) (task : Task Fn Arg)
    (useDeque : Bool) : Outcome n Fn Arg :=
  let (queue, ok) := workQueuePush (pool.queues id) task useDeque
  ⟨{ pool with queues := update pool.queues id queue }, ok,
    if useDeque ∧ task.priority = .normal then [id] else []⟩

/-- Count the task as pending, hand it to a queue, and take the count back when that
fails. -/
def enqueueFrom (tls : Int) (pool : Threadpool n (Task Fn Arg)) (task : Task Fn Arg) :
    Option (Outcome n Fn Arg) :=
  match localWorker n tls with
  | some id =>
      let outcome := pushLocal { pool with pendingTasks := pool.pendingTasks + 1#32 } id task
        (task.priority = .normal)
      some (if outcome.ok then outcome
        else { outcome with
          pool := { outcome.pool with pendingTasks := outcome.pool.pendingTasks - 1#32 } })
  | none => (enqueue pool task).map fun result => ⟨result.1, result.2, []⟩

/-- The submission of one task. -/
def submitTaskFrom (tls : Int) (pool : Threadpool n (Task Fn Arg)) (func : Option Fn)
    (allocated : Bool) (task : Fn → Task Fn Arg) :
    Option (Threadpool n (Task Fn Arg) × Status × List (Fin n)) :=
  match func with
  | none => some (pool, .inval, [])
  | some func =>
      if pool.running = false then some (pool, .busy, [])
      else if allocated = false then some (pool, .nomem, [])
      else (enqueueFrom tls pool (task func)).map fun outcome =>
        (outcome.pool, if outcome.ok then .ok else .busy, outcome.pushed)

/-- `qd_threadpool_submit_priority`. -/
def submitPriorityFrom (tls : Int) (pool : Threadpool n (Task Fn Arg)) (func : Option Fn)
    (arg : Arg) (priority : Priority) (allocated : Bool) :
    Option (Threadpool n (Task Fn Arg) × Status × List (Fin n)) :=
  submitTaskFrom tls pool func allocated fun func => ⟨func, arg, none, priority⟩

/-- `qd_threadpool_submit_callback`. -/
def submitCallbackFrom (tls : Int) (pool : Threadpool n (Task Fn Arg)) (func : Option Fn)
    (arg : Arg) (onComplete : Option (Fn × Arg)) (allocated : Bool) :
    Option (Threadpool n (Task Fn Arg) × Status × List (Fin n)) :=
  submitTaskFrom tls pool func allocated fun func => ⟨func, arg, onComplete, .normal⟩

/-- `qd_threadpool_submit_future`, which returns `NULL` unless the status is `ok`;
`allocated` says whether the future and the task were allocated. -/
def submitFutureFrom (tls : Int) (pool : Threadpool n (Task Fn Arg)) (func : Option Fn)
    (arg : Arg) (allocated : Bool) :
    Option (Threadpool n (Task Fn Arg) × Status × List (Fin n)) :=
  submitTaskFrom tls pool func allocated fun func => ⟨func, arg, none, .normal⟩

/-- One task of a batch.  A task that does not fit into the local deque is submitted
as one from outside. -/
def enqueueBatchFrom (tls : Int) (pool : Threadpool n (Task Fn Arg)) (task : Task Fn Arg) :
    Option (Outcome n Fn Arg) :=
  match localWorker n tls with
  | some id =>
      let outcome := pushLocal { pool with pendingTasks := pool.pendingTasks + 1#32 } id task true
      if outcome.ok then some outcome
      else (poolSubmitExternal outcome.pool task).map fun result =>
        ⟨if result.2 then result.1
          else { result.1 with pendingTasks := result.1.pendingTasks - 1#32 }, result.2,
          outcome.pushed⟩
  | none => (enqueue pool task).map fun result => ⟨result.1, result.2, []⟩

/-- The loop of `qd_threadpool_submit_batch`, with the number of tasks it counts as
submitted. -/
def submitLoopFrom (tls : Int) (pool : Threadpool n (Task Fn Arg)) :
    List (BatchEntry Fn Arg) → Option (Threadpool n (Task Fn Arg) × Nat × List (Fin n))
  | [] => some (pool, 0, [])
  | entry :: rest =>
      match entry.func with
      | none => submitLoopFrom tls pool rest
      | some func =>
          if entry.allocated = false then some (pool, 0, [])
          else (enqueueBatchFrom tls pool (entry.task func)).bind fun outcome =>
            if outcome.ok then
              (submitLoopFrom tls outcome.pool rest).map fun (final, submitted, pushed) =>
                (final, submitted + 1, outcome.pushed ++ pushed)
            else some (outcome.pool, 0, outcome.pushed)

/-- `qd_threadpool_submit_batch`. -/
def submitBatchFrom (tls : Int) (pool : Threadpool n (Task Fn Arg))
    (entries : List (BatchEntry Fn Arg)) :
    Option (Threadpool n (Task Fn Arg) × Except Status Nat × List (Fin n)) :=
  if entries = [] then some (pool, .error .inval, [])
  else if pool.running = false then some (pool, .error .busy, [])
  else (submitLoopFrom tls pool entries).map fun (next, submitted, pushed) =>
    (next, .ok submitted, pushed)

/-- A thread without a worker index submits as one from outside. -/
theorem enqueueFrom_outside (pool : Threadpool n (Task Fn Arg)) (task : Task Fn Arg) :
    enqueueFrom (-1) pool task = (enqueue pool task).map fun result => ⟨result.1, result.2, []⟩ :=
  rfl

/-- A call of one of the submission functions. -/
inductive Call (Fn : Type u) (Arg : Type v)
  | priority (func : Option Fn) (arg : Arg) (priority : Priority) (allocated : Bool)
  | callback (func : Option Fn) (arg : Arg) (onComplete : Option (Fn × Arg)) (allocated : Bool)
  | future (func : Option Fn) (arg : Arg) (allocated : Bool)
  | batch (entries : List (BatchEntry Fn Arg))

/-- Make a call: the pool after it and the deques pushed to. -/
def Call.run (tls : Int) (pool : Threadpool n (Task Fn Arg)) :
    Call Fn Arg → Option (Threadpool n (Task Fn Arg) × List (Fin n))
  | .priority func arg level allocated =>
      (submitPriorityFrom tls pool func arg level allocated).map fun result =>
        (result.1, result.2.2)
  | .callback func arg onComplete allocated =>
      (submitCallbackFrom tls pool func arg onComplete allocated).map fun result =>
        (result.1, result.2.2)
  | .future func arg allocated =>
      (submitFutureFrom tls pool func arg allocated).map fun result => (result.1, result.2.2)
  | .batch entries =>
      (submitBatchFrom tls pool entries).map fun result => (result.1, result.2.2)

/-- Whether a call submits with normal priority, and so to a deque if to a local
queue. -/
def Call.normal : Call Fn Arg → Bool
  | .priority _ _ level _ => level = .normal
  | _ => true

end Submission

/-! ## The system -/

section System

variable {P : Type w} {E : Type x} (n : P → Nat)

/-- A worker of one of the pools, or a thread outside all of them. -/
inductive Thread (E : Type x)
  | worker (pool : P) (id : Fin (n pool))
  | outside (thread : E)
  deriving DecidableEq

/-- The pools, each thread's `tls_worker_id`, the task each worker is running, and the
calls of `qd_wsdeque_push` with the thread that made them. -/
structure State (E : Type x) (Fn : Type u) (Arg : Type v) where
  pools : (p : P) → Threadpool (n p) (Task Fn Arg)
  tls : Thread n E → Int
  current : (p : P) → Fin (n p) → Option (Task Fn Arg)
  pushes : List (Thread n E × Sigma fun p : P => Fin (n p))

/-- The pools before their workers have started. -/
def initial (pools : (p : P) → Threadpool (n p) (Task Fn Arg)) : State n E Fn Arg :=
  ⟨pools, fun _ => -1, fun _ _ => none, []⟩

/-- A worker thread starts, looks for a task, or is done with one; or a thread makes a
submission call. -/
inductive Label (E : Type x) (Fn : Type u) (Arg : Type v)
  | begin (pool : P) (id : Fin (n pool))
  | take (pool : P) (id : Fin (n pool))
  | finish (pool : P) (id : Fin (n pool))
  | submit (thread : Thread n E) (pool : P) (call : Call Fn Arg)

variable {n}

/-- A worker submits from within a task. -/
def State.maySubmit (state : State n E Fn Arg) : Thread n E → Bool
  | .worker p id => (state.current p id).isSome
  | .outside _ => true

variable [∀ p, NeZero (n p)] [DecidableEq P] [DecidableEq (Thread n E)]

/-- The step relation. -/
def step (state : State n E Fn Arg) : Label n E Fn Arg → Option (State n E Fn Arg)
  | .begin p id =>
      some { state with tls := update state.tls (.worker p id) id.val }
  | .take p id =>
      if state.tls (.worker p id) = -1 ∨ (state.current p id).isSome then none
      else
        (search (sources (state.pools p).enableStealing id) (state.pools p)).map fun result =>
          { state with
            pools := update state.pools p result.1
            current := update state.current p
              (update (state.current p) id result.2) }
  | .finish p id =>
      if (state.current p id).isSome then some { state with
        pools := update state.pools p
          { state.pools p with pendingTasks := (state.pools p).pendingTasks - 1#32 }
        current := update state.current p (update (state.current p) id none) }
      else none
  | .submit thread p call =>
      if state.maySubmit thread then
        (call.run (state.tls thread) (state.pools p)).map fun (pool, pushed) => { state with
          pools := update state.pools p pool
          pushes := state.pushes ++ pushed.map fun id => (thread, ⟨p, id⟩) }
      else none

end System

end QDaemon.ThreadPool.Nested
