import QDaemon.WorkQueue.Core

/-!
# Cancelling work

A handle of `qd_workqueue_submit_cancellable` keeps the address of the work item,
and the item goes back to the slab when its completion has been drained.  Here an
item is therefore a cell of memory that one submission after another may occupy,
and a cancellation stores into whatever occupies the cell.

An item is in one place at a time, so the model follows each item through its
stages and does not name the worker that runs it.  The pool starts any item it
holds, the channel hands over any completion that was sent and may refuse one when
it is full, and the slab returns any cell that is not in use.  Steps are the
accesses to an item by submitters, workers, the event loop and cancelling threads.
-/

namespace QDaemon.WorkQueue.Cancel

open WorkQueue

/-- What is done next with the item in a cell.  `filled` belongs to the submission
call; `execute`, `run`, `store` and `complete` to the worker; `received`, `call`
and `release` to the drain.  An item whose completion does not fit into the channel
and a delayed item whose completion has been received are `lost`. -/
inductive Stage
  | free
  | filled (timeout cancellable : Bool)
  | waiting
  | queued
  | execute
  | run
  | store (errno : Bool)
  | complete
  | sent
  | received
  | call (status : Status)
  | release
  | lost
  deriving DecidableEq

/-- A cell of the slab with the fields of `qd_work_item_t`, and the submission
that occupies it. -/
structure Cell where
  work : WorkItem
  result : Pointer
  status : Status
  stage : Stage
  submission : Nat

/-- `struct qd_work_handle`, the submission it was made for, and whether its owner
has not released it yet. -/
structure Handle where
  item : Nat
  cancelled : Bool
  submission : Nat
  held : Bool

/-- What has happened to a submission: whether it was cancelled through its own
handle before a worker looked at it, whether its work function was started,
whether a worker passed it over, the result and status that came out, the calls of
`on_complete`, and whether its item was given back after the drain. -/
structure Progress where
  work : WorkItem
  early : Bool
  started : Bool
  skipped : Bool
  outcome : Option (Pointer × Status)
  calls : List Call
  drained : Bool
  deriving DecidableEq

/-- A submission that has just been filled in. -/
def Progress.initial (work : WorkItem) : Progress :=
  ⟨work, false, false, false, none, [], false⟩

/-- The cells, the handles and the submissions in the order of their allocation. -/
structure State where
  onComplete : Bool
  completeArg : Pointer
  cell : Nat → Cell
  handles : List Handle
  count : Nat
  progress : Nat → Progress

def initial (onComplete : Bool) (completeArg : Pointer) : State where
  onComplete := onComplete
  completeArg := completeArg
  cell := fun _ => ⟨⟨0, 0, 0, 0⟩, 0, .ok, .free, 0⟩
  handles := []
  count := 0
  progress := fun _ => .initial ⟨0, 0, 0, 0⟩

/-- What is done with the item in a cell.  `accepted` says whether the pool or the
event loop takes it, `room` whether the channel does; `returned` and `errno` are
the outcome of the work function. -/
inductive Act
  | handOver (accepted : Bool)
  | fire (accepted : Bool)
  | start
  | execute
  | run (returned : Pointer) (errno : Bool)
  | store
  | complete (room : Bool)
  | receive
  | settle
  | call
  | release

/-- The steps: one item of a submission call is filled in, something is done with
the item in a cell, or a handle is used or released. -/
inductive Label
  | fill (cell : Nat) (submission : Submission) (index : Nat)
  | act (cell : Nat) (act : Act)
  | cancel (handle : Nat)
  | handleRelease (handle : Nat)

/-- Note a cancellation through the submission's own handle, if it comes before a
worker looks at the item. -/
def Progress.noteCancel (progress : Progress) : Progress :=
  { progress with
    early := progress.early ||
      (!progress.started && !progress.skipped && progress.outcome.isNone) }

variable (state : State)

namespace State

/-- Change a cell and what is known of the submission in it. -/
def update (state : State) (a : Nat) (cell : Cell) (progress : Progress) : State :=
  { state with
    cell := Function.update state.cell a cell
    progress := Function.update state.progress (state.cell a).submission progress }

/-- What is known of the submission in a cell. -/
def progressOf (a : Nat) : Progress :=
  state.progress (state.cell a).submission

/-- Move the item in a cell to another stage. -/
def moveTo (a : Nat) (stage : Stage) : State :=
  state.update a { state.cell a with stage := stage } (state.progressOf a)

end State

/-- Whether a submission returns a handle. -/
def isCancellable : Submission → Bool
  | .submitCancellable _ _ => true
  | _ => false

/-- `work_item_alloc` and the stores that fill the item in, for one item of a
submission call. -/
def fill (a : Nat) (submission : Submission) (index : Nat) : Option State :=
  match (state.cell a).stage, (submission.items state.completeArg)[index]? with
  | .free, some work => some { state with
      cell := Function.update state.cell a
        ⟨work, 0, .ok, .filled submission.viaTimeout (isCancellable submission), state.count⟩
      count := state.count + 1
      progress := Function.update state.progress state.count (.initial work) }
  | _, _ => none

/-- `qd_threadpool_submit_callback` or `qd_aio_timeout` takes the item, and the
caller of `qd_workqueue_submit_cancellable` gets its handle; or it is refused and
freed. -/
def handOver (a : Nat) (timeout cancellable accepted : Bool) : State :=
  if accepted then
    let next := state.moveTo a (if timeout then .waiting else .queued)
    if cancellable then
      { next with handles := state.handles ++ [⟨a, false, (state.cell a).submission, true⟩] }
    else next
  else state.moveTo a .free

/-- `work_item_execute` up to the call of the work function. -/
def execute (a : Nat) : State :=
  let cell := state.cell a
  let progress := state.progressOf a
  if cell.work.workFn = 0 then
    -- an invalid item is not run, but completed all the same
    state.update a { cell with stage := .complete }
      (if cell.status = .cancelled then { progress with skipped := true }
      else { progress with outcome := some (cell.result, cell.status) })
  else if cell.status = .cancelled then
    state.update a { cell with stage := .complete } { progress with skipped := true }
  else state.update a { cell with stage := .run } { progress with started := true }

/-- The end of `work_item_execute`. -/
def store (a : Nat) (errno : Bool) : State :=
  let cell := state.cell a
  let status : Status := if cell.result = 0 ∧ errno then .error else .ok
  state.update a { cell with status := status, stage := .complete }
    { state.progressOf a with outcome := some (cell.result, status) }

/-- What the loop of `drain_channel_completions` decides about one completion. -/
def settleStage (onComplete : Bool) (cell : Cell) : Stage :=
  if 0 < cell.work.delayMs then .lost
  else if cell.status = .cancelled then .release
  else if onComplete then .call cell.status
  else .release

/-- The call of `on_complete`. -/
def call (a : Nat) (status : Status) : State :=
  let cell := state.cell a
  let progress := state.progressOf a
  state.update a { cell with stage := .release }
    { progress with
      calls := progress.calls ++ [⟨cell.submission, cell.result, status, cell.work.userData⟩] }

/-- `qd_workqueue_cancel`: the status of whatever is in the cell. -/
def cancel (index : Nat) (handle : Handle) : State :=
  { state with
    cell := Function.update state.cell handle.item
      { state.cell handle.item with status := .cancelled }
    handles := state.handles.set index { handle with cancelled := true }
    progress := Function.update state.progress handle.submission
      (state.progress handle.submission).noteCancel }

/-- What can be done with an item at each stage. -/
def actStep (a : Nat) : Act → Stage → Option State
  | .handOver accepted, .filled timeout cancellable =>
      some (handOver state a timeout cancellable accepted)
  | .fire accepted, .waiting => some (state.moveTo a (if accepted then .queued else .free))
  | .start, .queued => some (state.moveTo a .execute)
  | .execute, .execute => some (execute state a)
  | .run returned errno, .run => some (state.update a
      { state.cell a with result := returned, stage := .store errno } (state.progressOf a))
  | .store, .store errno => some (store state a errno)
  | .complete room, .complete => some (state.moveTo a (if room then .sent else .lost))
  | .receive, .sent => some (state.moveTo a .received)
  | .settle, .received => some (state.moveTo a (settleStage state.onComplete (state.cell a)))
  | .call, .call status => some (call state a status)
  | .release, .release => some (state.update a { state.cell a with stage := .free }
      { state.progressOf a with drained := true })
  | _, _ => none

/-- A handle that its owner has not released. -/
def heldHandle (index : Nat) : Option Handle :=
  state.handles[index]?.filter fun handle => handle.held

/-- The step relation. -/
def step : Label → Option State
  | .fill a submission index => fill state a submission index
  | .act a act => actStep state a act (state.cell a).stage
  | .cancel index => (heldHandle state index).map fun handle => cancel state index handle
  | .handleRelease index => (heldHandle state index).map fun handle =>
      { state with handles := state.handles.set index { handle with held := false } }

/-! ## What cancelling may not do -/

/-- The delivery of a submission is its own.  Every call of `on_complete` passes
what came out of the work function, there is at most one, and it is not missing
once the item has been drained; and a submission is passed over only if it was
cancelled through its own handle before it was started. -/
structure Precise (onComplete : Bool) (progress : Progress) : Prop where
  exact : ∀ call ∈ progress.calls,
    progress.outcome = some (call.result, call.status) ∧ call.userData = progress.work.userData
  once : progress.calls.length ≤ 1
  called : progress.drained = true → progress.outcome ≠ none → onComplete = true →
    progress.calls ≠ []
  passed : progress.drained = true → progress.outcome = none → progress.skipped = true
  cancelled : progress.skipped = true → progress.early = true ∧ progress.started = false

/-- A cancellation comes before the outcome of the handle's own submission is
stored, and before its item has been given back. -/
def Timely : Label → Prop
  | .cancel index => ∀ handle ∈ heldHandle state index,
      (state.progress handle.submission).outcome = none ∧
        (state.progress handle.submission).drained = false
  | _ => True

instance Timely.decidable (state : State) (label : Label) : Decidable (Timely state label) :=
  match label with
  | .fill _ _ _ | .act _ _ | .handleRelease _ => isTrue trivial
  | .cancel index =>
      match found : heldHandle state index with
      | none => isTrue fun handle member => absurd (found.symm.trans member) (by simp)
      | some handle =>
          decidable_of_iff ((state.progress handle.submission).outcome = none ∧
              (state.progress handle.submission).drained = false)
            ⟨fun timely other member =>
              Option.some.inj (found.symm.trans member) ▸ timely, fun timely => timely handle found⟩

end QDaemon.WorkQueue.Cancel
