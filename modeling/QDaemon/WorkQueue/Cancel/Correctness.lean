import QDaemon.WorkQueue.Cancel.Core

/-!
# When cancelling is precise

The invariant says, for each stage of an item, what is known of the submission in
its cell.  Cells in use hold different submissions, and as long as a submission has
not been drained its handle still points at its own cell.  A cancellation that comes
in time therefore changes only its own submission, and only before the outcome is
stored.
-/

namespace QDaemon.WorkQueue.Cancel

open Option List Function Transition WorkQueue

/-- No worker has looked at the submission yet. -/
structure Untouched (progress : Progress) : Prop where
  started : progress.started = false
  skipped : progress.skipped = false
  outcome : progress.outcome = none
  calls : progress.calls = []
  drained : progress.drained = false

/-- A worker is running the submission. -/
structure Running (progress : Progress) : Prop where
  skipped : progress.skipped = false
  outcome : progress.outcome = none
  calls : progress.calls = []
  drained : progress.drained = false

/-- A worker is done with the submission, which is not delivered yet.  Either it was
passed over, and its status says so, or its outcome is in the cell. -/
structure Finished (progress : Progress) (result : Pointer) (status : Status) : Prop where
  calls : progress.calls = []
  drained : progress.drained = false
  result : (progress.skipped = true ∧ progress.outcome = none ∧ status = .cancelled) ∨
    (progress.skipped = false ∧ progress.outcome = some (result, status) ∧ status ≠ .cancelled)

/-- No worker has looked at the item in the cell; only its own handle can have
cancelled it. -/
def Pending (progress : Progress) (cell : Cell) : Prop :=
  cell.work = progress.work ∧ Untouched progress ∧
    (cell.status = .ok ∨ (cell.status = .cancelled ∧ progress.early = true))

/-- What is known of the submission in a cell. -/
def CellInv (onComplete : Bool) (progress : Progress) (cell : Cell) : Prop :=
  match cell.stage with
  | .free => True
  | .filled timeout cancellable => (cancellable = true → timeout = false) ∧ Pending progress cell
  | .waiting | .queued | .execute => Pending progress cell
  | .run | .store _ => cell.work = progress.work ∧ Running progress
  | .complete | .sent | .received | .lost =>
      cell.work = progress.work ∧ Finished progress cell.result cell.status
  | .call status => cell.work = progress.work ∧ progress.calls = [] ∧
      progress.drained = false ∧ progress.outcome = some (cell.result, status) ∧
        progress.skipped = false
  | .release => progress.drained = false ∧
      ((progress.skipped = true ∧ progress.outcome = none ∧ progress.calls = []) ∨
        (progress.outcome ≠ none ∧ progress.skipped = false ∧
          (onComplete = true → progress.calls ≠ [])))

/-- The stages after the submission call has returned a handle. -/
def Handled : Stage → Prop
  | .free | .filled _ _ | .waiting => False
  | _ => True

variable {index : Nat} {stage : Stage} {next state : State} {handle : Handle}

theorem Handled.ne_free (handled : Handled stage) : stage ≠ .free := by
  rintro rfl
  exact handled

/-- The invariant of the system. -/
structure Inv (state : State) : Prop where
  precise : ∀ s, Precise state.onComplete (state.progress s)
  cells : ∀ a, CellInv state.onComplete (state.progressOf a) (state.cell a)
  distinct : ∀ a b, (state.cell a).stage ≠ .free → (state.cell b).stage ≠ .free →
    (state.cell a).submission = (state.cell b).submission → a = b
  below : ∀ a, (state.cell a).stage ≠ .free → (state.cell a).submission < state.count
  handles : ∀ handle ∈ state.handles, handle.submission < state.count ∧
    ((state.progress handle.submission).drained = false →
      (state.cell handle.item).submission = handle.submission ∧
        Handled (state.cell handle.item).stage)

theorem precise_initial (onComplete : Bool) (work : WorkItem) :
    Precise onComplete (.initial work) where
  exact := by simp [Progress.initial]
  once := Nat.zero_le _
  called := by simp [Progress.initial]
  passed := by simp [Progress.initial]
  cancelled := by simp [Progress.initial]

theorem initial_inv (onComplete : Bool) (completeArg : Pointer) :
    Inv (initial onComplete completeArg) where
  precise _ := precise_initial _ _
  cells _ := trivial
  distinct _ _ used := absurd rfl used
  below _ used := absurd rfl used
  handles _ member := absurd member (not_mem_nil)

/-! ## One cell moves -/

section Update

variable {state : State} {a : Nat} {cell : Cell} {progress : Progress}

/-- Cells in use stay distinct if no other one has the submission of the new one. -/
theorem Inv.distinct_update (inv : Inv state)
    (alone : ∀ b, (state.cell b).stage ≠ .free → (state.cell b).submission = cell.submission → b = a)
    (b c : Nat) (usedB : (Function.update state.cell a cell b).stage ≠ .free)
    (usedC : (Function.update state.cell a cell c).stage ≠ .free)
    (equal : (Function.update state.cell a cell b).submission =
      (Function.update state.cell a cell c).submission) : b = c := by
  by_cases bMine : b = a <;> by_cases cMine : c = a
  · rw [bMine, cMine]
  · subst bMine
    rw [update_self, update_of_ne cMine] at equal
    rw [update_of_ne cMine] at usedC
    exact (alone c usedC equal.symm).symm
  · subst cMine
    rw [update_self, update_of_ne bMine] at equal
    rw [update_of_ne bMine] at usedB
    exact alone b usedB equal
  · rw [update_of_ne bMine] at usedB equal
    rw [update_of_ne cMine] at usedC equal
    exact inv.distinct b c usedB usedC equal

/-- A step on one cell in use keeps everything known of the others. -/
theorem Inv.update (inv : Inv state) (used : (state.cell a).stage ≠ .free)
    (same : cell.submission = (state.cell a).submission)
    (precise : Precise state.onComplete progress) (known : CellInv state.onComplete progress cell)
    (kept : progress.drained = false → (state.progressOf a).drained = false ∧
      (Handled (state.cell a).stage → Handled cell.stage)) :
    Inv (state.update a cell progress) where
  precise := (forall_update_iff _ fun _ => Precise state.onComplete).mpr
    ⟨precise, fun s _ => inv.precise s⟩
  cells b := by
    by_cases mine : b = a
    · subst mine
      simpa [State.update, State.progressOf, same] using known
    · by_cases free : (state.cell b).stage = .free
      · simp [State.update, mine, CellInv, free]
      · have other : (state.cell b).submission ≠ (state.cell a).submission :=
          fun equal => mine (inv.distinct b a free used equal)
        simpa [State.update, State.progressOf, mine, other] using inv.cells b
  distinct := inv.distinct_update fun b usedB equal => inv.distinct b a usedB used (equal.trans same)
  below := (forall_update_iff state.cell fun _ cell =>
    cell.stage ≠ .free → cell.submission < state.count).mpr
      ⟨fun _ => same ▸ inv.below a used, fun b _ => inv.below b⟩
  handles handle member := by
    obtain ⟨below, points⟩ := inv.handles handle member
    refine ⟨below, fun undrained => ?_⟩
    by_cases mine : handle.submission = (state.cell a).submission
    · simp only [State.update, mine, update_self] at undrained
      obtain ⟨wasUndrained, handled⟩ := kept undrained
      rw [mine] at points
      obtain ⟨owns, stage⟩ := points wasUndrained
      have itemEq : handle.item = a := inv.distinct _ _ stage.ne_free used owns
      simp only [State.update, itemEq, update_self]
      rw [itemEq] at stage
      exact ⟨same.trans mine.symm, handled stage⟩
    · simp only [State.update, update_of_ne mine] at undrained
      obtain ⟨owns, stage⟩ := points undrained
      have different : handle.item ≠ a := by
        intro equal
        rw [equal] at owns
        exact mine owns.symm
      simp only [State.update, update_of_ne different]
      exact ⟨owns, stage⟩

/-- The item moves on and nothing new is known of its submission. -/
theorem Inv.moveTo (inv : Inv state) (used : (state.cell a).stage ≠ .free)
    (known : CellInv state.onComplete (state.progressOf a) { state.cell a with stage := stage })
    (handled : Handled (state.cell a).stage → Handled stage) : Inv (state.moveTo a stage) :=
  inv.update used rfl (inv.precise _) known fun undrained => ⟨undrained, handled⟩

end Update

/-! ## The submission call -/

section Steps

variable {state : State} {a : Nat}

theorem viaTimeout_of_isCancellable {submission : Submission}
    (cancellable : isCancellable submission = true) : submission.viaTimeout = false := by
  cases submission <;> first | rfl | cases cancellable

theorem Inv.fill (inv : Inv state) {submission : Submission}
    (stepEq : fill state a submission index = some next) : Inv next := by
  rw [Cancel.fill] at stepEq
  split at stepEq
  case h_2 => cases stepEq
  case h_1 work free itemEq =>
    cases stepEq
    have older {b : Nat} (used : (state.cell b).stage ≠ .free) :
        (state.cell b).submission ≠ state.count := (inv.below b used).ne
    refine {
      precise := (forall_update_iff _ fun _ => Precise state.onComplete).mpr
        ⟨precise_initial state.onComplete work, fun s _ => inv.precise s⟩
      cells := ?_
      distinct := inv.distinct_update fun b used equal => absurd equal (older used)
      below := (forall_update_iff state.cell fun _ cell =>
        cell.stage ≠ .free → cell.submission < state.count + 1).mpr
          ⟨fun _ => Nat.lt_succ_self _, fun b _ used => (inv.below b used).trans (Nat.lt_succ_self _)⟩
      handles := ?_ }
    · intro b
      by_cases mine : b = a
      · subst mine
        simp only [State.progressOf, update_self]
        exact ⟨viaTimeout_of_isCancellable, rfl, ⟨rfl, rfl, rfl, rfl, rfl⟩, .inl rfl⟩
      · by_cases unused : (state.cell b).stage = .free
        · simp [mine, CellInv, unused]
        · simpa [State.progressOf, mine, older unused] using inv.cells b
    · intro handle member
      obtain ⟨below, points⟩ := inv.handles handle member
      refine ⟨below.trans (Nat.lt_succ_self _), fun undrained => ?_⟩
      simp only [update_of_ne below.ne] at undrained
      obtain ⟨owns, stage⟩ := points undrained
      have different : handle.item ≠ a := by
        intro equal
        rw [equal] at stage
        exact stage.ne_free free
      simp only [update_of_ne different]
      exact ⟨owns, stage⟩

/-- The handle that the submission call returns points at its own item. -/
theorem Inv.addHandle (inv : Inv state) (handled : Handled (state.cell a).stage) : Inv { state with
      handles := state.handles ++ [⟨a, false, (state.cell a).submission, true⟩] } :=
  { inv with
    handles := by
      intro handle member
      rcases mem_append.mp member with old | new
      · exact inv.handles handle old
      · obtain rfl := mem_singleton.mp new
        exact ⟨inv.below a handled.ne_free, fun _ => ⟨rfl, handled⟩⟩ }

theorem Inv.handOver (inv : Inv state) {timeout cancellable : Bool} (accepted : Bool)
    (stageEq : (state.cell a).stage = .filled timeout cancellable) :
    Inv (handOver state a timeout cancellable accepted) := by
  have used : (state.cell a).stage ≠ .free := by simp [stageEq]
  have known := inv.cells a
  simp only [CellInv, stageEq] at known
  obtain ⟨direct, pending⟩ := known
  have unhandled : ¬ Handled (state.cell a).stage := by
    rw [stageEq]
    exact fun handled => handled
  have moved : Inv (state.moveTo a (if timeout then .waiting else .queued)) := by
    refine inv.moveTo used ?_ fun handled => absurd handled unhandled
    split <;> exact pending
  cases accepted with
  | false => exact inv.moveTo used trivial fun handled => absurd handled unhandled
  | true =>
    cases cancellable with
    | false => exact moved
    | true =>
      have handled : Handled
          ((state.moveTo a (if timeout then .waiting else .queued)).cell a).stage := by
        simp [State.moveTo, State.update, direct rfl, Handled]
      simpa [Cancel.handOver, State.moveTo, State.update] using moved.addHandle handled

/-! ## The worker -/

variable {progress : Progress} {onComplete : Bool}

theorem Untouched.precise_cancelled (untouched : Untouched progress)
    (early : progress.early = true) : Precise onComplete { progress with skipped := true } where
  exact := by simp [untouched.calls]
  once := by simp [untouched.calls]
  called := by simp [untouched.drained]
  passed := by simp
  cancelled := fun _ => ⟨early, untouched.started⟩

theorem Precise.start (precise : Precise onComplete progress) (untouched : Untouched progress) :
    Precise onComplete { progress with started := true } :=
  { precise with
    cancelled := fun skipped => absurd (untouched.skipped.symm.trans skipped) (by simp) }

/-- The outcome of a submission that was not passed over is noted before anything is
delivered. -/
theorem Precise.finish (precise : Precise onComplete progress) (calls : progress.calls = [])
    (drained : progress.drained = false) (outcome : Pointer × Status) :
    Precise onComplete { progress with outcome := some outcome } :=
  { precise with
    exact := by simp [calls]
    called := by simp [drained]
    passed := by simp }

section

variable (inv : Inv state)
include inv

theorem Inv.execute (stageEq : (state.cell a).stage = .execute) : Inv (execute state a) := by
  have used : (state.cell a).stage ≠ .free := by simp [stageEq]
  have precise := inv.precise (state.cell a).submission
  have known := inv.cells a
  simp only [CellInv, stageEq] at known
  obtain ⟨workEq, untouched, status⟩ := known
  have skip (cancelled : (state.cell a).status = .cancelled) :
      Inv (state.update a { state.cell a with stage := .complete }
        { state.progressOf a with skipped := true }) := by
    have early : (state.progressOf a).early = true := by
      rcases status with ok | ⟨-, early⟩
      · rw [ok] at cancelled
        cases cancelled
      · exact early
    refine inv.update used rfl (untouched.precise_cancelled early) ⟨workEq, ?_⟩
      fun _ => ⟨untouched.drained, fun _ => trivial⟩
    exact ⟨untouched.calls, untouched.drained, .inl ⟨rfl, untouched.outcome, cancelled⟩⟩
  simp only [Cancel.execute]
  split
  · split
    next cancelled => exact skip cancelled
    next valid =>
      refine inv.update used rfl (precise.finish untouched.calls untouched.drained _) ⟨workEq, ?_⟩
        fun _ => ⟨untouched.drained, fun _ => trivial⟩
      exact ⟨untouched.calls, untouched.drained, .inr ⟨untouched.skipped, rfl, valid⟩⟩
  · split
    next cancelled => exact skip cancelled
    · refine inv.update used rfl (precise.start untouched) ⟨workEq, ?_⟩
        fun _ => ⟨untouched.drained, fun _ => trivial⟩
      exact ⟨untouched.skipped, untouched.outcome, untouched.calls, untouched.drained⟩

theorem Inv.store {errno : Bool}
    (stageEq : (state.cell a).stage = .store errno) : Inv (store state a errno) := by
  have used : (state.cell a).stage ≠ .free := by simp [stageEq]
  have known := inv.cells a
  simp only [CellInv, stageEq] at known
  obtain ⟨workEq, running⟩ := known
  refine inv.update used rfl
    ((inv.precise (state.cell a).submission).finish running.calls running.drained _) ⟨workEq, ?_⟩
    fun _ => ⟨running.drained, fun _ => trivial⟩
  refine ⟨running.calls, running.drained, .inr ⟨running.skipped, rfl, ?_⟩⟩
  split <;> simp

/-! ## The drain -/

theorem Inv.settle (stageEq : (state.cell a).stage = .received) :
    Inv (state.moveTo a (settleStage state.onComplete (state.cell a))) := by
  have used : (state.cell a).stage ≠ .free := by simp [stageEq]
  have known := inv.cells a
  simp only [CellInv, stageEq] at known
  obtain ⟨workEq, finished⟩ := known
  rw [settleStage]
  split
  · exact inv.moveTo used ⟨workEq, finished⟩ fun _ => trivial
  split
  next cancelled =>
    refine inv.moveTo used ⟨finished.drained, .inl ?_⟩ fun _ => trivial
    rcases finished.result with ⟨skipped, outcome, -⟩ | ⟨-, -, valid⟩
    · exact ⟨skipped, outcome, finished.calls⟩
    · exact absurd cancelled valid
  next valid =>
    obtain ⟨skipped, outcome, -⟩ := finished.result.resolve_left fun passed => valid passed.2.2
    split
    · exact inv.moveTo used ⟨workEq, finished.calls, finished.drained, outcome, skipped⟩
        fun _ => trivial
    next silent =>
      refine inv.moveTo used ⟨finished.drained, .inr ⟨?_, skipped, fun called => ?_⟩⟩
        fun _ => trivial
      · rw [outcome]
        simp
      · exact absurd called silent

theorem Inv.call {status : Status}
    (stageEq : (state.cell a).stage = .call status) : Inv (call state a status) := by
  have used : (state.cell a).stage ≠ .free := by simp [stageEq]
  have known := inv.cells a
  simp only [CellInv, stageEq] at known
  obtain ⟨workEq, calls, drained, outcome, skipped⟩ := known
  refine inv.update used rfl ?_ ⟨drained, .inr ⟨by rw [outcome]; simp, skipped, by simp⟩⟩
    fun _ => ⟨drained, fun _ => trivial⟩
  have precise := inv.precise (state.cell a).submission
  exact { precise with
    exact := by
      intro call member
      rw [calls, nil_append, mem_singleton] at member
      subst member
      exact ⟨outcome, congrArg WorkItem.userData workEq⟩
    once := by simp [calls]
    called := by simp }

theorem Inv.release (stageEq : (state.cell a).stage = .release) :
    Inv (state.update a { state.cell a with stage := .free }
      { state.progressOf a with drained := true }) := by
  have used : (state.cell a).stage ≠ .free := by simp [stageEq]
  have known := inv.cells a
  simp only [CellInv, stageEq] at known
  obtain ⟨drained, settled⟩ := known
  refine inv.update used rfl ?_ trivial fun undrained => absurd undrained (by simp)
  have precise := inv.precise (state.cell a).submission
  exact { precise with
    called := by
      intro _ produced called
      rcases settled with ⟨-, outcome, -⟩ | ⟨-, -, delivered⟩
      · exact absurd outcome produced
      · exact delivered called
    passed := by
      intro _ outcome
      rcases settled with ⟨skipped, -, -⟩ | ⟨produced, -, -⟩
      · exact skipped
      · exact absurd outcome produced }

/-! ## Handles -/

/-- A handle changes, but not what it points at. -/
theorem Inv.setHandle {next : Handle}
    (found : state.handles[index]? = some handle) (itemEq : next.item = handle.item)
    (submissionEq : next.submission = handle.submission) :
    Inv { state with handles := state.handles.set index next } :=
  { inv with
    handles := by
      intro other member
      rcases mem_or_eq_of_mem_set member with old | rfl
      · exact inv.handles other old
      · rw [itemEq, submissionEq]
        exact inv.handles handle (mem_of_getElem? found) }

end

/-- The status of a cell is cancelled before the outcome of its submission is
stored. -/
theorem CellInv.cancel {cell : Cell} (known : CellInv onComplete progress cell)
    (handled : Handled cell.stage) (outcome : progress.outcome = none) :
    CellInv onComplete progress.noteCancel { cell with status := .cancelled } := by
  simp only [CellInv] at known ⊢
  have finished (old : Finished progress cell.result cell.status) :
      Finished progress.noteCancel cell.result .cancelled := by
    refine ⟨old.calls, old.drained, .inl ?_⟩
    rcases old.result with ⟨skipped, -, -⟩ | ⟨-, produced, -⟩
    · exact ⟨skipped, outcome, rfl⟩
    · rw [outcome] at produced
      cases produced
  have pending (old : Pending progress cell) :
      Pending progress.noteCancel { cell with status := .cancelled } := by
    obtain ⟨workEq, untouched, -⟩ := old
    refine ⟨workEq, ⟨untouched.started, untouched.skipped, untouched.outcome, untouched.calls,
      untouched.drained⟩, .inr ⟨rfl, ?_⟩⟩
    simp [Progress.noteCancel, untouched.started, untouched.skipped, outcome]
  cases stageEq : cell.stage with
  | free | filled timeout cancellable | waiting =>
    rw [stageEq] at handled
    exact handled.elim
  | queued | execute =>
    simp only [stageEq] at known
    exact pending known
  | run | store errno =>
    simp only [stageEq] at known
    obtain ⟨workEq, running⟩ := known
    exact ⟨workEq, running.skipped, running.outcome, running.calls, running.drained⟩
  | complete | sent | received | lost =>
    simp only [stageEq] at known
    exact ⟨known.1, finished known.2⟩
  | call status =>
    simp only [stageEq] at known
    obtain ⟨-, -, -, produced, -⟩ := known
    rw [outcome] at produced
    cases produced
  | release =>
    simp only [stageEq] at known
    exact known

theorem Precise.noteCancel (precise : Precise onComplete progress) :
    Precise onComplete progress.noteCancel :=
  { precise with
    cancelled := by
      intro skipped
      obtain ⟨early, notStarted⟩ := precise.cancelled skipped
      exact ⟨by simp [Progress.noteCancel, early], notStarted⟩ }

/-- A cancellation that comes in time finds its own submission in the cell. -/
theorem Inv.cancel (inv : Inv state) (found : state.handles[index]? = some handle)
    (outcome : (state.progress handle.submission).outcome = none)
    (undrained : (state.progress handle.submission).drained = false) :
    Inv (cancel state index handle) := by
  obtain ⟨-, points⟩ := inv.handles handle (mem_of_getElem? found)
  obtain ⟨owns, handled⟩ := points undrained
  have known := inv.cells handle.item
  rw [State.progressOf, owns] at known
  have updated : Inv (state.update handle.item
      { state.cell handle.item with status := .cancelled }
      (state.progress handle.submission).noteCancel) := by
    refine inv.update handled.ne_free rfl (inv.precise _).noteCancel
      (known.cancel handled outcome) fun kept => ⟨?_, fun _ => handled⟩
    rw [State.progressOf, owns]
    exact kept
  rw [State.update, owns] at updated
  exact updated.setHandle found rfl rfl

end Steps

/-! ## Runs -/

theorem Inv.actStep {a : Nat} {act : Act} (inv : Inv state)
    (stageEq : (state.cell a).stage = stage) (stepEq : actStep state a act stage = some next) :
    Inv next := by
  have known := inv.cells a
  simp only [CellInv, stageEq] at known
  unfold Cancel.actStep at stepEq
  split at stepEq
  case h_12 => cases stepEq
  all_goals cases stepEq
  case h_1 => exact inv.handOver _ stageEq
  case h_2 accepted =>
    refine inv.moveTo (by simp [stageEq]) ?_ fun handled => ?_
    · split
      · exact known
      · trivial
    · rw [stageEq] at handled
      exact handled.elim
  case h_3 => exact inv.moveTo (by simp [stageEq]) known fun _ => trivial
  case h_4 => exact inv.execute stageEq
  case h_5 =>
    exact inv.update (by simp [stageEq]) rfl (inv.precise _) known
      fun undrained => ⟨undrained, fun _ => trivial⟩
  case h_6 => exact inv.store stageEq
  case h_7 =>
    refine inv.moveTo (by simp [stageEq]) ?_ fun _ => ?_
    · split <;> exact known
    · split <;> trivial
  case h_8 => exact inv.moveTo (by simp [stageEq]) known fun _ => trivial
  case h_9 => exact inv.settle stageEq
  case h_10 => exact inv.call stageEq
  case h_11 => exact inv.release stageEq

theorem heldHandle_eq_some (found : heldHandle state index = some handle) :
    state.handles[index]? = some handle :=
  (filter_eq_some_iff.mp found).1

theorem Inv.step {label : Label} (inv : Inv state) (timely : Timely state label)
    (stepEq : step state label = some next) : Inv next := by
  cases label with
  | fill a submission index => exact inv.fill stepEq
  | act a act => exact inv.actStep rfl stepEq
  | cancel index =>
    obtain ⟨handle, found, rfl⟩ := map_eq_some_iff.mp stepEq
    obtain ⟨outcome, undrained⟩ := timely handle found
    exact inv.cancel (heldHandle_eq_some found) outcome undrained
  | handleRelease index =>
    obtain ⟨handle, found, rfl⟩ := map_eq_some_iff.mp stepEq
    exact inv.setHandle (heldHandle_eq_some found) rfl rfl

/-- In every run whose cancellations come in time, each submission is delivered as
if no other handle and no late cancellation existed. -/
theorem cancel_precise {onComplete : Bool} {completeArg : Pointer} {target : State}
    (run : GuardedRun step Timely (initial onComplete completeArg) target) (s : Nat) :
    Precise target.onComplete (target.progress s) :=
  (run.invariant Inv (initial_inv onComplete completeArg)
    fun _ _ _ inv timely stepEq => inv.step timely stepEq).precise s

/-- The first of two submissions is cancelled while the pool holds it. -/
def cancelQueued : List Label :=
  [.fill 0 (.submitCancellable 7 0) 0, .act 0 (.handOver true), .fill 1 (.submit 8 0) 0,
    .act 1 (.handOver true), .cancel 0, .act 0 .start, .act 0 .execute, .act 1 .start,
    .act 1 .execute, .act 1 (.run 42 false), .act 1 .store, .act 1 (.complete true),
    .act 1 .receive, .act 1 .settle, .act 1 .call, .act 1 .release, .act 0 (.complete true),
    .act 0 .receive, .act 0 .settle, .act 0 .release]

theorem cancel_precise_cancelQueued :
    ∃ target, exec (guarded step Timely) (initial true 0) cancelQueued = some target ∧
      (target.progress 0).skipped = true ∧ (target.progress 1).calls = [⟨1, 42, .ok, 0⟩] ∧
      Precise target.onComplete (target.progress 0) ∧
      Precise target.onComplete (target.progress 1) := by
  apply exists_exec fun state => (state.progress 0).skipped = true ∧
    (state.progress 1).calls = [⟨1, 42, .ok, 0⟩]
  · decide +kernel
  · rintro target targetEq ⟨skipped, called⟩
    have run := guardedRun_of_exec targetEq
    exact ⟨skipped, called, cancel_precise run 0, cancel_precise run 1⟩

/-- The item of a cancellable submission, up to the store of its outcome. -/
def runCancellable : List Label :=
  [.fill 0 (.submitCancellable 7 0) 0, .act 0 (.handOver true), .act 0 .start, .act 0 .execute,
    .act 0 (.run 42 false), .act 0 .store]

/-- The work is done before it is cancelled, and drained afterwards. -/
def cancelDone : List Label :=
  runCancellable ++ [.cancel 0, .act 0 (.complete true), .act 0 .receive, .act 0 .settle,
    .act 0 .release]

/-- The work is delivered, another submission gets its cell, and then the old handle
is used. -/
def cancelReused : List Label :=
  runCancellable ++ [.act 0 (.complete true), .act 0 .receive, .act 0 .settle, .act 0 .call,
    .act 0 .release, .fill 0 (.submit 8 0) 0, .act 0 (.handOver true), .cancel 0, .act 0 .start,
    .act 0 .execute]

/-- Cancelling work that is done suppresses its delivery, and cancelling through an
old handle keeps another submission from running. -/
theorem not_precise_lateCancel : (∃ target, Reachable step (initial true 0) target ∧
      (target.progress 0).outcome = some (42, .ok) ∧ (target.progress 0).drained = true ∧
      (target.progress 0).calls = [] ∧ ¬ Precise target.onComplete (target.progress 0)) ∧
    (∃ target, Reachable step (initial true 0) target ∧
      (target.progress 1).skipped = true ∧ (target.progress 1).early = false ∧
      ¬ Precise target.onComplete (target.progress 1)) := by
  constructor
  · refine exists_reachable cancelDone (fun state => state.onComplete = true ∧
      (state.progress 0).outcome = some (42, .ok) ∧ (state.progress 0).drained = true ∧
      (state.progress 0).calls = []) (by decide +kernel) ?_
    rintro target ⟨called, produced, drained, silent⟩
    refine ⟨produced, drained, silent, fun precise => ?_⟩
    exact precise.called drained (by rw [produced]; simp) called silent
  · refine exists_reachable cancelReused (fun state => (state.progress 1).skipped = true ∧
      (state.progress 1).early = false) (by decide +kernel) ?_
    rintro target ⟨skipped, notOwn⟩
    refine ⟨skipped, notOwn, fun precise => ?_⟩
    rw [(precise.cancelled skipped).1] at notOwn
    cases notOwn

end QDaemon.WorkQueue.Cancel
