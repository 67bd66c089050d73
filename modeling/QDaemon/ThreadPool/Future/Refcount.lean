import QDaemon.ThreadPool.Future.Core

/-!
# The reference count of a future

The submission takes one reference for the caller and one for the task.  Its error
paths give back both, and the caller gives back its own; but nobody gives back the
reference of a task that was run or discarded.  As long as the task is in use the
count is exact.
-/

namespace QDaemon.ThreadPool.Future

open Common Transition

universe u

variable {Tid : Type u}

/-- The future exists, or has existed. -/
def SubmitPc.Created : SubmitPc → Prop
  | .start | .rejected => False
  | _ => True

/-- The caller, or the submission on its behalf, is entitled to use the future. -/
def callerHolds (released : Bool) : SubmitPc → Nat
  | .start | .rejected | .failed => 0
  | .returned => if released then 0 else 1
  | _ => 1

/-- The task is entitled to use the future: it is queued, or a worker has not made its
last access yet. -/
def TaskPc.holds : TaskPc → Nat
  | .absent | .finished | .discarded => 0
  | _ => 1

/-- The task's entitlement; while the submission is at work it has the task in
hand. -/
def taskHolds (task : TaskPc) : SubmitPc → Nat
  | .push | .releaseTask => 1
  | .returned => task.holds
  | _ => 0

/-- How many holders are still entitled to use the future. -/
def holders (state : State Tid) : Nat :=
  callerHolds state.released state.submit + taskHolds state.task state.submit

/-- The reference count is the number of holders, and the future has been freed, once,
exactly if there is none. -/
def Counted (state : State Tid) : Prop :=
  state.submit.Created → state.future.refcount = holders state ∧
    state.freed = if holders state = 0 then 1 else 0

/-- The task is neither finished by a worker nor discarded by the pool. -/
def TaskKept (state : State Tid) : Label Tid → Prop
  | .worker => state.task ≠ .unlock
  | .discard => False
  | _ => True

instance TaskKept.decidable (state : State Tid) (label : Label Tid) :
    Decidable (TaskKept state label) := by
  rcases label with _ | _ <;> unfold TaskKept <;> infer_instance

structure CountInv (state : State Tid) : Prop where
  counted : Counted state
  fresh : ¬ state.submit.Created → state.freed = 0
  absent : state.submit ≠ .returned → state.task = .absent ∧ state.released = false

theorem initial_countInv : CountInv (initial : State Tid) where
  counted created := created.elim
  fresh _ := rfl
  absent _ := ⟨rfl, rfl⟩

section Steps

variable {state next : State Tid}

/-- A step that neither counts nor changes who holds the future. -/
theorem CountInv.congr (inv : CountInv state) (submitEq : next.submit = state.submit)
    (releasedEq : next.released = state.released) (holdsEq : next.task.holds = state.task.holds)
    (taskEq : state.submit ≠ .returned → next.task = state.task)
    (refcountEq : next.future.refcount = state.future.refcount)
    (freedEq : next.freed = state.freed) : CountInv next where
  counted := by
    have same : holders next = holders state := by
      rw [holders, holders, submitEq, releasedEq]
      cases state.submit <;> simp [taskHolds, holdsEq]
    rw [Counted, submitEq, refcountEq, freedEq, same]
    exact inv.counted
  fresh := by
    rw [submitEq, freedEq]
    exact inv.fresh
  absent elsewhere := by
    rw [submitEq] at elsewhere
    rw [taskEq elsewhere, releasedEq]
    exact inv.absent elsewhere

theorem CountInv.submitStep (inv : CountInv state) {ok : Bool}
    (stepEq : submitStep ok state state.submit = some next) : CountInv next := by
  have counted := inv.counted
  rw [Counted, holders] at counted
  cases pcEq : state.submit with
  | rejected | returned | failed => simp [Future.submitStep, pcEq] at stepEq
  | start =>
    have freed := inv.fresh (by rw [pcEq]; exact fun created => created)
    obtain ⟨absent, unreleased⟩ := inv.absent (by simp [pcEq])
    rw [pcEq, Future.submitStep] at stepEq
    split at stepEq <;> cases stepEq
    · refine ⟨fun _ => ⟨rfl, ?_⟩, fun absurdly => absurd trivial absurdly,
        fun _ => ⟨absent, unreleased⟩⟩
      simp [holders, callerHolds, freed]
    · exact ⟨fun created => created.elim, fun _ => freed, fun _ => ⟨absent, unreleased⟩⟩
  | push =>
    obtain ⟨absent, unreleased⟩ := inv.absent (by simp [pcEq])
    rw [pcEq] at counted
    obtain ⟨refcount, freed⟩ := counted trivial
    rw [pcEq, Future.submitStep] at stepEq
    split at stepEq <;> cases stepEq
    · refine ⟨fun _ => ?_, fun absurdly => absurd trivial absurdly, by simp⟩
      simpa [holders, callerHolds, taskHolds, TaskPc.holds, unreleased] using
        And.intro refcount freed
    · exact ⟨fun _ => ⟨refcount, freed⟩, fun absurdly => absurd trivial absurdly,
        fun _ => ⟨absent, unreleased⟩⟩
  | allocTask =>
    rw [pcEq] at counted
    have kept := inv.absent (by simp [pcEq])
    rw [pcEq] at stepEq
    cases stepEq
    cases ok with
    | true | false =>
      exact ⟨fun _ => counted trivial, fun absurdly => absurd trivial absurdly, fun _ => kept⟩
  | addRef | dropFuture | releaseTask | releaseCaller =>
    rw [pcEq] at counted
    have kept := inv.absent (by simp [pcEq])
    obtain ⟨refcount, freed⟩ := counted trivial
    rw [pcEq] at stepEq
    cases stepEq
    refine ⟨fun _ => ?_, fun absurdly => absurd trivial absurdly, fun _ => kept⟩
    simp [holders, callerHolds, taskHolds, futureRelease, refcount, freed]

/-- A worker that does not make its last access keeps its entitlement. -/
theorem workerStep_holds {pc : TaskPc} (stepEq : workerStep state pc = some next)
    (kept : pc ≠ .unlock) : next.task.holds = pc.holds ∧ pc ≠ .absent ∧ next.submit = state.submit ∧
      next.released = state.released ∧ next.future.refcount = state.future.refcount ∧
      next.freed = state.freed := by
  cases pc with
  | absent | queued | finished | discarded => simp [workerStep] at stepEq
  | unlock => exact absurd rfl kept
  | taken | run | complete | broadcast =>
    cases stepEq
    exact ⟨rfl, by simp, rfl, rfl, rfl, rfl⟩
  | lock =>
    rw [workerStep] at stepEq
    split at stepEq <;> cases stepEq
    exact ⟨rfl, by simp, rfl, rfl, rfl, rfl⟩

/-- The threads of the caller do not count. -/
theorem callerStep_refcount {thread : Tid} {expired : Bool} {pc after : CallerPc}
    (stepEq : callerStep thread expired state pc = some (next, after)) :
    next.submit = state.submit ∧ next.released = state.released ∧ next.task = state.task ∧
      next.future.refcount = state.future.refcount ∧ next.freed = state.freed := by
  have locks {pc after : CallerPc} (lockEq : lockFor thread state pc = some (next, after)) :
      next.submit = state.submit ∧ next.released = state.released ∧ next.task = state.task ∧
        next.future.refcount = state.future.refcount ∧ next.freed = state.freed := by
    rw [lockFor] at lockEq
    split at lockEq <;> cases lockEq
    exact ⟨rfl, rfl, rfl, rfl, rfl⟩
  cases pc with
  | idle result => simp [callerStep] at stepEq
  | cancelLock | waitLock timed | waitRelock timed late => exact locks stepEq
  | cancelCas | waitCheck timed =>
    rw [callerStep] at stepEq
    split at stepEq <;> cases stepEq <;>
      exact ⟨rfl, rfl, rfl, rfl, rfl⟩
  | cancelBroadcast | cancelUnlock | waitSleep timed | waitUnlock result | get =>
    cases stepEq
    exact ⟨rfl, rfl, rfl, rfl, rfl⟩

/-- The caller's own release. -/
theorem CountInv.release (inv : CountInv state) (returned : state.submit = .returned)
    (unreleased : state.released = false) :
    CountInv { futureRelease state with released := true } := by
  have counted := inv.counted
  rw [Counted, holders, returned] at counted
  obtain ⟨refcount, freed⟩ := counted trivial
  simp only [unreleased] at refcount freed
  refine ⟨fun _ => ⟨?_, ?_⟩, fun absurdly => ?_, fun elsewhere => absurd returned elsewhere⟩
  · simp [holders, callerHolds, taskHolds, futureRelease, returned, refcount]
  · simp [holders, callerHolds, taskHolds, futureRelease, returned, refcount, freed]
  · change ¬ state.submit.Created at absurdly
    rw [returned] at absurdly
    exact absurd trivial absurdly

variable [DecidableEq Tid]

theorem CountInv.step (inv : CountInv state) {label : Label Tid} (kept : TaskKept state label)
    (stepEq : step state label = some next) : CountInv next := by
  cases label with simp only [Future.step] at stepEq
  | submit ok => exact inv.submitStep stepEq
  | take =>
    split at stepEq <;> cases stepEq
    next queued =>
      refine inv.congr rfl rfl (by rw [queued]; rfl) (fun elsewhere => ?_) rfl rfl
      exact absurd (queued.symm.trans (inv.absent elsewhere).1) (by simp)
  | discard => exact kept.elim
  | worker =>
    obtain ⟨holdsEq, present, submitEq, releasedEq, refcountEq, freedEq⟩ :=
      workerStep_holds stepEq kept
    exact inv.congr submitEq releasedEq holdsEq
      (fun elsewhere => absurd (inv.absent elsewhere).1 present) refcountEq freedEq
  | call thread operation =>
    split at stepEq
    · split at stepEq <;> cases stepEq
      exact inv.congr rfl rfl rfl (fun _ => rfl) rfl rfl
    · cases stepEq
  | caller thread expired =>
    obtain ⟨⟨base, pc⟩, callerEq, rfl⟩ := Option.map_eq_some_iff.mp stepEq
    obtain ⟨submitEq, releasedEq, taskEq, refcountEq, freedEq⟩ := callerStep_refcount callerEq
    exact inv.congr submitEq releasedEq (congrArg TaskPc.holds taskEq) (fun _ => taskEq)
      refcountEq freedEq
  | release =>
    split at stepEq <;> cases stepEq
    next allowed => exact inv.release allowed.1 allowed.2.1

end Steps

/-! ## Runs -/

section Runs

variable [DecidableEq Tid]

/-- As long as the task is neither finished nor discarded, the reference count is the
number of holders, and the future is freed exactly when there is none left. -/
theorem refcount_counts {target : State Tid} (run : GuardedRun step TaskKept initial target) :
    Counted target :=
  (run.invariant CountInv initial_countInv
    fun _ _ _ inv kept stepEq => inv.step kept stepEq).counted

/-- The push is refused, and both references are given back. -/
def refusedPush : List (Label Unit) :=
  [.submit true, .submit true, .submit true, .submit false, .submit false, .submit false]

theorem refcount_counts_refusedPush :
    ∃ target, exec (guarded step TaskKept) (initial : State Unit) refusedPush = some target ∧
      target.submit = .failed ∧ target.freed = 1 ∧ Counted target := by
  apply exists_exec fun state => state.submit = .failed ∧ state.freed = 1
  · decide +kernel
  · rintro target targetEq ⟨failed, freed⟩
    exact ⟨failed, freed, refcount_counts (guardedRun_of_exec targetEq)⟩

/-- A worker runs the task to its end, and the caller releases the future. -/
def runAndRelease : List (Label Unit) :=
  [.submit true, .submit true, .submit true, .submit true, .take, .worker, .worker, .worker,
    .worker, .worker, .worker, .release]

/-- Nobody holds the future any more, but its count is one and it is never freed. -/
theorem not_counted_runAndRelease :
    ∃ target : State Unit, Reachable step initial target ∧ target.task = .finished ∧
      target.released = true ∧ holders target = 0 ∧ target.future.refcount = 1 ∧
      target.freed = 0 ∧ ¬ Counted target := by
  refine exists_reachable runAndRelease (fun state => state.submit = .returned ∧
    state.task = .finished ∧ state.released = true ∧ holders state = 0 ∧
    state.future.refcount = 1 ∧ state.freed = 0) (by decide +kernel) ?_
  rintro target ⟨returned, finished, released, nobody, count, kept⟩
  refine ⟨finished, released, nobody, count, kept, ?_⟩
  intro counted
  have refcount := (counted (by rw [returned]; trivial)).1
  rw [count, nobody] at refcount
  cases refcount

end Runs

end QDaemon.ThreadPool.Future
