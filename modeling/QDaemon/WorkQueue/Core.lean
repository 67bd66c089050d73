import QDaemon.Channel.Drain

/-!
# The work queue

A work queue hands items to a thread pool, directly or through a timeout of the
event loop.  A worker runs the item and sends a completion through the channel;
the event loop drains the channel and calls `on_complete`.

The pool and the timeouts are only assumed to hold what they accepted: the pool
starts any item it holds, and a timeout fires at any time.  Submitters, workers
and the event loop interleave at their atomic accesses.  What a work function
returns and whether it leaves `errno` set is chosen by the environment.
-/

namespace QDaemon.WorkQueue

open Function Channel

universe u v

/-- A `void *` or a function pointer; zero is `NULL`. -/
abbrev Pointer := BitVec 64

/-- The status codes `QD_WORK_OK`, `QD_WORK_CANCELLED`, `QD_WORK_TIMEOUT` and
`QD_WORK_ERROR`. -/
inductive Status
  | ok
  | cancelled
  | timeout
  | error
  deriving DecidableEq

/-- The fields of `qd_work_item_t` that are fixed when the item is filled in.
An accepted item is named by its index among the accepted ones. -/
structure WorkItem where
  workFn : Pointer
  workArg : Pointer
  userData : Pointer
  delayMs : BitVec 64
  deriving DecidableEq

/-- `result_struct_t`: the item and its status, copied as one unit. -/
abbrev Completion := Nat × Status

/-- The item a completion in the channel is about. -/
def itemOf (completion : Item 1 Completion) : Nat :=
  (completion 0).1

/-! ## Submission -/

/-- The fields of `qd_work_t` that a submission reads. -/
structure QdWork where
  work : Pointer
  arg : Pointer
  delayMs : BitVec 64
  userData : Pointer

/-- A call of one of the submission functions. -/
inductive Submission
  | submit (work arg : Pointer)
  | submitBatch (funcs : List Pointer) (args : Option (Nat → Pointer))
  | submitDelayed (work arg : Pointer) (delayMs : BitVec 64)
  | submitWork (work : QdWork)
  | submitCancellable (work arg : Pointer)

namespace Submission

/-- The items that a call fills in. -/
def items (completeArg : Pointer) : Submission → List WorkItem
  | .submit work arg => [⟨work, arg, completeArg, 0⟩]
  | .submitBatch funcs args =>
      funcs.mapIdx fun i func => ⟨func, (args.map (fun values => values i)).getD 0, completeArg, 0⟩
  | .submitDelayed work arg delayMs => [⟨work, arg, completeArg, delayMs⟩]
  | .submitWork work =>
      [⟨work.work, work.arg, if work.userData ≠ 0 then work.userData else completeArg,
        work.delayMs⟩]
  | .submitCancellable work arg => [⟨work, arg, completeArg, 0⟩]

/-- Whether a call goes through `qd_aio_timeout` and not straight to the pool. -/
def viaTimeout : Submission → Bool
  | .submitDelayed _ _ _ => true
  | .submitWork work => 0 < work.delayMs
  | _ => false

end Submission

/-- Where a submitter stands, with the items it has not handed over yet.  The
last two constructors undo the counters of an item that was refused. -/
inductive SubmitterPc
  | idle
  | addPending (timeout : Bool) (items : List WorkItem)
  | addInflight (timeout : Bool) (items : List WorkItem)
  | handOver (timeout : Bool) (items : List WorkItem)
  | subPending (timeout : Bool) (items : List WorkItem)
  | subInflight (timeout : Bool) (items : List WorkItem)
  deriving DecidableEq

/-- Where a worker stands in `work_item_execute` and `work_item_complete`.  While
it is sending, the channel keeps its position in `qd_channel_try_send`. -/
inductive WorkerPc
  | idle
  | execute (item : Nat)
  | run (item : Nat)
  | store (item : Nat) (returned : Pointer) (errno : Bool)
  | complete (item : Nat)
  | status (item : Nat)
  | sending
  | subInflight
  deriving DecidableEq

/-- A call of `on_complete`. -/
structure Call where
  item : Nat
  result : Pointer
  status : Status
  userData : Pointer
  deriving DecidableEq

/-! ## The system -/

/-- The work queue with its threads.  `settle` is set between the call of
`on_complete` for an item and the decrement of `pending`.  The lists `dropped`,
`executed`, `delivered` and `calls` record what has happened: the accepted items
that the pool refused when their timeout fired, what each work function returned
with the resulting status, the items taken out of the channel, and the calls of
`on_complete`. -/
structure State (Sid : Type u) (Tid : Type v) where
  onComplete : Bool
  completeArg : Pointer
  pending : BitVec 32
  inflight : BitVec 32
  draining : Bool
  channel : Channel.State 1 Completion Tid
  drain : DrainPc 1 Completion
  settle : Bool
  accepted : List WorkItem
  result : Nat → Pointer
  status : Nat → Status
  timeouts : List Nat
  queue : List Nat
  submitter : Sid → SubmitterPc
  worker : Tid → WorkerPc
  dropped : List Nat
  executed : List (Nat × Pointer × Status)
  delivered : List Nat
  calls : List Call

variable {Sid : Type u} {Tid : Type v}

/-- `qd_workqueue_create`; `memory` is what the channel's buffer holds. -/
def workqueueCreate (onComplete : Bool) (completeArg : Pointer)
    (memory : Nat → Item 1 Completion) : Option (State Sid Tid) :=
  (channelCreate 4096 false memory).map fun chan =>
    { onComplete := onComplete
      completeArg := completeArg
      pending := 0
      inflight := 0
      draining := false
      channel := Channel.State.initial chan
      drain := .outside
      settle := false
      accepted := []
      result := fun _ => 0
      status := fun _ => .ok
      timeouts := []
      queue := []
      submitter := fun _ => .idle
      worker := fun _ => .idle
      dropped := []
      executed := []
      delivered := []
      calls := [] }

/-- The steps of the system.  `accepted` says whether the pool or the event loop
takes the item, `allocated` whether memory was found; `returned` and `errno` are
the outcome of the work function, `spurious` that of a weak compare-and-swap. -/
inductive Label (Sid : Type u) (Tid : Type v)
  | submit (thread : Sid) (submission : Submission) (allocated : Bool)
  | submitter (thread : Sid) (accepted : Bool)
  | timeout (item : Nat) (accepted : Bool)
  | start (thread : Tid) (item : Nat)
  | worker (thread : Tid) (returned : Pointer) (errno spurious : Bool)
  | process (memory : Item 1 Completion)

/-- Hand an item to the pool or to the event loop, which has taken it. -/
def accept (state : State Sid Tid) (timeout : Bool) (item : WorkItem) : State Sid Tid :=
  { state with
    accepted := state.accepted ++ [item]
    result := update state.result state.accepted.length 0
    status := update state.status state.accepted.length .ok
    timeouts := if timeout then state.timeouts ++ [state.accepted.length] else state.timeouts
    queue := if timeout then state.queue else state.queue ++ [state.accepted.length] }

/-- A submitter's next access. -/
def submitterStep (accepted : Bool) (state : State Sid Tid) :
    SubmitterPc → Option (State Sid Tid × SubmitterPc)
  | .idle => none
  | .addPending timeout items =>
      some ({ state with pending := state.pending + BitVec.ofNat 32 items.length },
        .addInflight timeout items)
  | .addInflight timeout items =>
      some ({ state with inflight := state.inflight + BitVec.ofNat 32 items.length },
        .handOver timeout items)
  | .handOver _ [] => some (state, .idle)
  | .handOver timeout (item :: rest) =>
      if accepted then some (accept state timeout item, .handOver timeout rest)
      else some (state, .subPending timeout rest)
  | .subPending timeout rest =>
      some ({ state with pending := state.pending - 1#32 }, .subInflight timeout rest)
  | .subInflight timeout rest =>
      some ({ state with inflight := state.inflight - 1#32 }, .handOver timeout rest)

/-- `qd_workqueue_handle_completion` for a timeout. -/
def timeoutFired (state : State Sid Tid) (item : Nat) (accepted : Bool) : State Sid Tid :=
  if accepted then
    { state with
      timeouts := state.timeouts.erase item
      queue := state.queue ++ [item] }
  else
    { state with
      timeouts := state.timeouts.erase item
      pending := state.pending - 1#32
      inflight := state.inflight - 1#32
      dropped := state.dropped ++ [item] }

section Worker

variable [DecidableEq Tid]

/-- The next access of a worker: `work_item_execute`, then `work_item_complete`. -/
def workerStep (thread : Tid) (returned : Pointer) (errno spurious : Bool)
    (state : State Sid Tid) : WorkerPc → Option (State Sid Tid × WorkerPc)
  | .idle => none
  | .execute item =>
      match state.accepted[item]? with
      | none => none
      | some work =>
          -- an invalid item is not run, but completed all the same
          if work.workFn = 0 then
            some ({ state with
              executed := state.executed ++ [(item, state.result item, state.status item)] },
              .complete item)
          else if state.status item = .cancelled then some (state, .complete item)
          else some (state, .run item)
  | .run item =>
      some ({ state with result := update state.result item returned },
        .store item returned errno)
  | .store item returned errno =>
      some ({ state with
        status := update state.status item
          (if state.result item = 0 ∧ errno then .error else .ok)
        executed := state.executed ++
          [(item, returned, if returned = 0 ∧ errno then .error else .ok)] },
        .complete item)
  | .complete item =>
      if state.draining then some ({ state with inflight := state.inflight - 1#32 }, .idle)
      else some (state, .status item)
  | .status item =>
      (Channel.step state.channel (.trySend thread fun _ => (item, state.status item))).map
        fun next => ({ state with channel := next }, .sending)
  | .sending =>
      match state.channel.producer thread with
      | .idle => some (state, .subInflight)
      | _ => (Channel.step state.channel (.producer thread spurious)).map
          fun next => ({ state with channel := next }, .sending)
  | .subInflight => some ({ state with inflight := state.inflight - 1#32 }, .idle)

/-- What the loop of `drain_channel_completions` does with one completion. -/
def deliver (state : State Sid Tid) (item : Nat) : Option (State Sid Tid) :=
  state.accepted[item]?.map fun work =>
    if 0 < work.delayMs then { state with delivered := state.delivered ++ [item] }
    else
      { state with
        delivered := state.delivered ++ [item]
        settle := true
        calls :=
          if state.status item ≠ .cancelled ∧ state.onComplete then
            state.calls ++ [⟨item, state.result item, state.status item, work.userData⟩]
          else state.calls }

/-- The next access of `qd_workqueue_process`. -/
def processStep (memory : Item 1 Completion) (state : State Sid Tid) : Option (State Sid Tid) :=
  if state.settle then some { state with pending := state.pending - 1#32, settle := false }
  else
    (match state.drain with
    | .outside => startBatch memory state.channel
    | pc => drainStep memory state.channel pc).bind fun (channel, pc, completion) =>
      let next := { state with channel := channel, drain := pc }
      match completion with
      | none => some next
      | some completion => deliver next (itemOf completion)

variable [DecidableEq Sid]

/-- The step relation. -/
def step (state : State Sid Tid) : Label Sid Tid → Option (State Sid Tid)
  | .submit thread submission allocated =>
      match state.submitter thread, submission.items state.completeArg with
      | .idle, [] => some state
      | .idle, items =>
          if allocated then some { state with
            submitter := update state.submitter thread
              (.addPending submission.viaTimeout items) }
          else some state
      | _, _ => none
  | .submitter thread accepted =>
      (submitterStep accepted state (state.submitter thread)).map fun (next, pc) =>
        { next with submitter := update state.submitter thread pc }
  | .timeout item accepted =>
      if item ∈ state.timeouts then some (timeoutFired state item accepted) else none
  | .start thread item =>
      match state.worker thread with
      | .idle =>
          if item ∈ state.queue then some { state with
            queue := state.queue.erase item
            worker := update state.worker thread (.execute item) }
          else none
      | _ => none
  | .worker thread returned errno spurious =>
      (workerStep thread returned errno spurious state (state.worker thread)).map fun (next, pc) =>
        { next with worker := update state.worker thread pc }
  | .process memory => processStep memory state

end Worker

end QDaemon.WorkQueue
