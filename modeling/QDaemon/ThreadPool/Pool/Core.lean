import Mathlib.Data.Fintype.Basic
import QDaemon.ThreadPool.MpmcRing.Sequential
import QDaemon.ThreadPool.WsDeque.Sequential

/-!
# The task queues of the thread pool

A task from outside the pool goes to the global ring, from there to one of the
per-worker rings, and from there to the locked global queue.  A worker looks in
its local queue, the global queue, its own ring, the global ring and then at
the other workers.  One call and one pass of a worker over the queues are one
step each; the atomic steps inside a ring or a deque are those of
`QDaemon.ThreadPool.MpmcRing` and `QDaemon.ThreadPool.WsDeque`.  Nothing here
returns when a ring operation spins for ever.
-/

namespace QDaemon.ThreadPool.Pool

open Function Transition

universe u v

/-- `qd_priority_t`. -/
inductive Priority
  | low
  | normal
  | high
  | urgent
  deriving DecidableEq

instance : Fintype Priority :=
  ⟨{.low, .normal, .high, .urgent}, by intro priority; cases priority <;> decide⟩

/-- The fields of `struct qd_task` that the queues and the workers read. -/
structure Task (Fn : Type u) (Arg : Type v) where
  func : Fn
  arg : Arg
  onComplete : Option (Fn × Arg)
  priority : Priority
  deriving DecidableEq

/-! ## Locked queues -/

/-- `struct qd_work_queue`: the deque and one list per priority. -/
structure WorkQueue (T : Type u) where
  deque : WsDeque T
  priorityQueues : Priority → List T

section WorkQueue

variable {T : Type u}

/-- `work_queue_init`. -/
def workQueueInit : Option (WorkQueue T) :=
  (WsDeque.wsdequeInit 1024).map fun deque => ⟨deque, fun _ => []⟩

/-- The search of the priority lists, in the given order. -/
def popFrom (queue : WorkQueue T) : List Priority → WorkQueue T × Option T
  | [] => (queue, none)
  | priority :: rest =>
      match queue.priorityQueues priority with
      | [] => popFrom queue rest
      | task :: others => ({ queue with
          priorityQueues := update queue.priorityQueues priority others }, some task)

/-- `work_queue_pop_priority`. -/
def workQueuePopPriority (queue : WorkQueue T) : WorkQueue T × Option T :=
  popFrom queue [.urgent, .high, .normal, .low]

/-- `work_queue_pop`. -/
def workQueuePop (queue : WorkQueue T) : WorkQueue T × Option T :=
  match workQueuePopPriority queue with
  | (queue, some task) => (queue, some task)
  | (queue, none) =>
      let (deque, task) := queue.deque.wsdequePop
      ({ queue with deque := deque }, task)

/-- `work_queue_steal`. -/
def workQueueSteal (queue : WorkQueue T) : WorkQueue T × Option T :=
  let (deque, task) := queue.deque.wsdequeSteal
  ({ queue with deque := deque }, task)

end WorkQueue

variable {Fn : Type u} {Arg : Type v}

/-- `work_queue_push`, with whether it returned zero. -/
def workQueuePush (queue : WorkQueue (Task Fn Arg)) (task : Task Fn Arg) (useDeque : Bool) :
    WorkQueue (Task Fn Arg) × Bool :=
  if useDeque ∧ task.priority = .normal then
    let (deque, ok) := queue.deque.wsdequePush task
    ({ queue with deque := deque }, ok)
  else ({ queue with
    priorityQueues := update queue.priorityQueues task.priority
      (queue.priorityQueues task.priority ++ [task]) }, true)

/-! ## Creation -/

/-- The fields of `qd_threadpool_config_t` that the queues depend on. -/
structure Config where
  numThreads : BitVec 32
  maxQueueSize : BitVec 32
  enableStealing : Bool

/-- The queues and counters of `struct qd_threadpool`. -/
structure Threadpool (n : Nat) (T : Type u) where
  enableStealing : Bool
  running : Bool
  queues : Fin n → WorkQueue T
  globalQueue : WorkQueue T
  globalRing : MpmcRing T
  extRings : Fin n → MpmcRing T
  rrIndex : Nat
  pendingTasks : BitVec 32

/-- The number of workers; `online` is what `sysconf` answers. -/
def numWorkers (online : BitVec 32) (config : Config) : Nat :=
  if config.numThreads.toInt ≤ 0 then
    if online.toInt ≤ 0 then 4 else online.toInt.toNat
  else config.numThreads.toInt.toNat

instance (online : BitVec 32) (config : Config) : NeZero (numWorkers online config) := by
  refine ⟨?_⟩
  rw [numWorkers]
  split
  · split <;> omega
  · omega

def ringCapacity (config : Config) : Nat :=
  if 0 < config.maxQueueSize.toInt then config.maxQueueSize.toInt.toNat else 1024

def globalCapacity (online : BitVec 32) (config : Config) : Nat :=
  let product := ringCapacity config * numWorkers online config % 2 ^ 64
  if product < ringCapacity config then ringCapacity config else product

/-- `qd_threadpool_create_ex`. -/
def threadpoolCreateEx {T : Type u} (online : BitVec 32) (config : Config) :
    Option (Threadpool (numWorkers online config) T) := do
  let queue ← workQueueInit
  let extRing ← MpmcRing.mpmcRingInit (ringCapacity config)
  let globalRing ← MpmcRing.mpmcRingInit (globalCapacity online config)
  return {
    enableStealing := config.enableStealing
    running := true
    queues := fun _ => queue
    globalQueue := queue
    globalRing := globalRing
    extRings := fun _ => extRing
    rrIndex := 0
    pendingTasks := 0 }

/-! ## Submission from outside the pool -/

/-- The return codes of the submission functions. -/
inductive Status
  | ok
  | inval
  | busy
  | nomem
  deriving DecidableEq

section Submission

variable {n : Nat} [NeZero n]

/-- The per-worker ring whose turn it is. -/
def nextRing (pool : Threadpool n (Task Fn Arg)) : Fin n :=
  Fin.ofNat n pool.rrIndex

/-- `pool_submit_external`, with whether it returned `QD_OK`. -/
def poolSubmitExternal (pool : Threadpool n (Task Fn Arg)) (task : Task Fn Arg) :
    Option (Threadpool n (Task Fn Arg) × Bool) := do
  let (globalRing, ok) ← pool.globalRing.mpmcRingPush task
  if ok then return ({ pool with globalRing := globalRing }, true)
  let (extRing, ok) ← (pool.extRings (nextRing pool)).mpmcRingPush task
  let (globalQueue, queued) :=
    if ok then (pool.globalQueue, true) else workQueuePush pool.globalQueue task false
  return ({ pool with
    globalRing := globalRing
    extRings := update pool.extRings (nextRing pool) extRing
    globalQueue := globalQueue
    rrIndex := (pool.rrIndex + 1) % 2 ^ 32 }, queued)

/-- Count the task as pending, hand it to a queue, and take the count back when
that fails. -/
def enqueue (pool : Threadpool n (Task Fn Arg)) (task : Task Fn Arg) :
    Option (Threadpool n (Task Fn Arg) × Bool) := do
  let counted := { pool with pendingTasks := pool.pendingTasks + 1#32 }
  let (next, ok) ←
    if task.priority = .normal then poolSubmitExternal counted task
    else
      let (globalQueue, ok) := workQueuePush counted.globalQueue task false
      some ({ counted with globalQueue := globalQueue }, ok)
  return (if ok then next else { next with pendingTasks := next.pendingTasks - 1#32 }, ok)

/-- The submission of one task.  `allocated` says whether `qd_task_alloc`
returned memory. -/
def submitTask (pool : Threadpool n (Task Fn Arg)) (func : Option Fn) (allocated : Bool)
    (task : Fn → Task Fn Arg) : Option (Threadpool n (Task Fn Arg) × Status × List (Task Fn Arg)) :=
  match func with
  | none => some (pool, .inval, [])
  | some func =>
      if pool.running = false then some (pool, .busy, [])
      else if allocated = false then some (pool, .nomem, [])
      else (enqueue pool (task func)).map fun result =>
        if result.2 then (result.1, .ok, [task func]) else (result.1, .busy, [])

/-- `qd_threadpool_submit_priority`; the last component is the accepted task. -/
def submitPriority (pool : Threadpool n (Task Fn Arg)) (func : Option Fn) (arg : Arg)
    (priority : Priority) (allocated : Bool) :
    Option (Threadpool n (Task Fn Arg) × Status × List (Task Fn Arg)) :=
  submitTask pool func allocated fun func => ⟨func, arg, none, priority⟩

/-- `qd_threadpool_submit`. -/
def submit (pool : Threadpool n (Task Fn Arg)) (func : Option Fn) (arg : Arg) (allocated : Bool) :
    Option (Threadpool n (Task Fn Arg) × Status × List (Task Fn Arg)) :=
  submitPriority pool func arg .normal allocated

/-- `qd_threadpool_submit_callback`. -/
def submitCallback (pool : Threadpool n (Task Fn Arg)) (func : Option Fn) (arg : Arg)
    (onComplete : Option (Fn × Arg)) (allocated : Bool) :
    Option (Threadpool n (Task Fn Arg) × Status × List (Task Fn Arg)) :=
  submitTask pool func allocated fun func => ⟨func, arg, onComplete, .normal⟩

/-- One entry of a batch, with whether its task can be allocated. -/
structure BatchEntry (Fn : Type u) (Arg : Type v) where
  func : Option Fn
  arg : Arg
  allocated : Bool

/-- The task the batch makes of an entry. -/
def BatchEntry.task (entry : BatchEntry Fn Arg) (func : Fn) : Task Fn Arg :=
  ⟨func, entry.arg, none, .normal⟩

/-- The loop of `qd_threadpool_submit_batch`, with the tasks it counts as
submitted. -/
def submitLoop (pool : Threadpool n (Task Fn Arg)) :
    List (BatchEntry Fn Arg) → Option (Threadpool n (Task Fn Arg) × List (Task Fn Arg))
  | [] => some (pool, [])
  | entry :: rest =>
      match entry.func with
      | none => submitLoop pool rest
      | some func =>
          if entry.allocated = false then some (pool, [])
          else (enqueue pool (entry.task func)).bind fun result =>
            if result.2 then
              (submitLoop result.1 rest).map fun final =>
                (final.1, entry.task func :: final.2)
            else some (result.1, [])

/-- `qd_threadpool_submit_batch`. -/
def submitBatch (pool : Threadpool n (Task Fn Arg)) (entries : List (BatchEntry Fn Arg)) :
    Option (Threadpool n (Task Fn Arg) × Except Status Nat × List (Task Fn Arg)) :=
  if entries = [] then some (pool, .error .inval, [])
  else if pool.running = false then some (pool, .error .busy, [])
  else (submitLoop pool entries).map fun result => (result.1, .ok result.2.length, result.2)

end Submission

/-! ## The search of a worker -/

section Search

variable {n : Nat} {T : Type u}

/-- A place to look for a task; the result has a task if there was one. -/
abbrev Source (n : Nat) (T : Type u) := Threadpool n T → Option (Threadpool n T × Option T)

def localQueue (id : Fin n) : Source n T := fun pool =>
  let (queue, task) := workQueuePop (pool.queues id)
  some ({ pool with queues := update pool.queues id queue }, task)

def globalPriority : Source n T := fun pool =>
  let (queue, task) := workQueuePopPriority pool.globalQueue
  some ({ pool with globalQueue := queue }, task)

def ownRing (id : Fin n) : Source n T := fun pool =>
  (pool.extRings id).mpmcRingPop.map fun result =>
    ({ pool with extRings := update pool.extRings id result.1 }, result.2)

def sharedRing : Source n T := fun pool =>
  pool.globalRing.mpmcRingPop.map fun result =>
    ({ pool with globalRing := result.1 }, result.2)

def stolenDeque (victim : Fin n) : Source n T := fun pool =>
  let (queue, task) := workQueueSteal (pool.queues victim)
  some ({ pool with queues := update pool.queues victim queue }, task)

/-- Look in one place after the other until there is a task. -/
def search : List (Source n T) → Source n T
  | [], pool => some (pool, none)
  | source :: rest, pool =>
      (source pool).bind fun result =>
        match result.2 with
        | some task => some (result.1, some task)
        | none => search rest result.1

/-- The workers the stealing loop visits: `i` runs over the indices other than
the worker's own, and the victim is `id + i`, so the worker itself comes first
and one other worker is left out. -/
def victims [NeZero n] (id : Fin n) : List (Fin n) :=
  ((List.range n).filter fun i => i ≠ id.val).map fun i => Fin.ofNat n (id.val + i)

/-- Where `worker_thread` looks for a task. -/
def sources [NeZero n] (stealing : Bool) (id : Fin n) : List (Source n T) :=
  [localQueue id, globalPriority, ownRing id, sharedRing] ++
    if stealing then (victims id).flatMap fun victim => [ownRing victim, stolenDeque victim]
    else []

end Search

/-! ## The system -/

variable {n : Nat} [NeZero n]

/-- The pool with the history of accepted and of executed tasks. -/
structure State (n : Nat) (Fn : Type u) (Arg : Type v) where
  pool : Threadpool n (Task Fn Arg)
  accepted : List (Task Fn Arg)
  executed : List (Task Fn Arg)

/-- A thread outside the pool submits, or a worker makes one pass of its loop. -/
inductive Label (n : Nat) (Fn : Type u) (Arg : Type v)
  | submit (func : Option Fn) (arg : Arg) (allocated : Bool)
  | submitPriority (func : Option Fn) (arg : Arg) (priority : Priority) (allocated : Bool)
  | submitCallback (func : Option Fn) (arg : Arg) (onComplete : Option (Fn × Arg))
      (allocated : Bool)
  | submitBatch (entries : List (BatchEntry Fn Arg))
  | work (id : Fin n)

/-- Keep the pool a call returned and record the tasks it accepted. -/
def State.accept {R : Type} (state : State n Fn Arg)
    (result : Option (Threadpool n (Task Fn Arg) × R × List (Task Fn Arg))) :
    Option (State n Fn Arg) :=
  result.map fun outcome =>
    { state with pool := outcome.1, accepted := state.accepted ++ outcome.2.2 }

/-- One pass of a worker: it executes the task it finds, if any. -/
def work (state : State n Fn Arg) (id : Fin n) : Option (State n Fn Arg) :=
  (search (sources state.pool.enableStealing id) state.pool).map fun result =>
    match result.2 with
    | none => { state with pool := result.1 }
    | some task => { state with
        pool := { result.1 with pendingTasks := result.1.pendingTasks - 1#32 }
        executed := state.executed ++ [task] }

/-- The step relation. -/
def step (state : State n Fn Arg) : Label n Fn Arg → Option (State n Fn Arg)
  | .submit func arg allocated => state.accept (submit state.pool func arg allocated)
  | .submitPriority func arg priority allocated =>
      state.accept (submitPriority state.pool func arg priority allocated)
  | .submitCallback func arg onComplete allocated =>
      state.accept (submitCallback state.pool func arg onComplete allocated)
  | .submitBatch entries => state.accept (submitBatch state.pool entries)
  | .work id => work state id

/-- All queues are empty. -/
def Drained (pool : Threadpool n (Task Fn Arg)) : Prop :=
  pool.globalRing.head = pool.globalRing.tail ∧
  (∀ id, (pool.extRings id).head = (pool.extRings id).tail) ∧
  (∀ priority, pool.globalQueue.priorityQueues priority = []) ∧
  ∀ id, (pool.queues id).deque.top = (pool.queues id).deque.bottom ∧
    ∀ priority, (pool.queues id).priorityQueues priority = []

end QDaemon.ThreadPool.Pool
