import QDaemon.ThreadPool.Future.Core

/-!
# Terminal states of a future

A worker does not look at the state of a future before it stores RUNNING, so a
cancellation that succeeds while the task can still be started is overwritten.  If
every cancellation that finds the future pending comes after the task has been
discarded, a terminal state is final.
-/

namespace QDaemon.ThreadPool.Future

open Option Function Common Transition

universe u

variable {Tid : Type u}
variable {thread : Tid} {pc : CallerPc}

/-- A cancellation that finds the future pending is made when the task is neither
queued nor with a worker any more. -/
def Undisputed (state : State Tid) : Label Tid → Prop
  | .caller thread _ => state.caller thread = .cancelCas → state.future.state = .pending →
      state.task = .discarded
  | _ => True

instance Undisputed.decidable (state : State Tid) (label : Label Tid) :
    Decidable (Undisputed state label) := by
  unfold Undisputed
  split <;> infer_instance

/-- The state that the task's progress implies. -/
def Agrees (state : FutureState) : TaskPc → Prop
  | .absent | .queued | .taken => state = .pending
  | .run | .lock | .complete => state = .running
  | .broadcast | .unlock | .finished => state = .completed
  | .discarded => state = .pending ∨ state = .cancelled

/-- The thread's compare-and-swap has succeeded and its call has not returned. -/
def Cancelling : CallerPc → Prop
  | .cancelLock | .cancelBroadcast | .cancelUnlock => True
  | _ => False

/-- The task's progress determines the state of the future, and every successful
cancellation has left its mark. -/
structure FinalInv (state : State Tid) : Prop where
  agrees : Agrees state.future.state state.task
  absent : state.submit ≠ .returned → state.task = .absent
  returned : 0 < state.cancels → state.future.state = .cancelled
  cancelling : ∀ thread, Cancelling (state.caller thread) → state.future.state = .cancelled

theorem initial_finalInv : FinalInv (initial : State Tid) where
  agrees := rfl
  absent _ := rfl
  returned positive := absurd positive (Nat.lt_irrefl 0)
  cancelling _ cancelling := cancelling.elim

/-- A step keeps a terminal state, and does not start the task of a cancelled
future. -/
def Keeps (state next : State Tid) : Prop :=
  state.future.state.Done → next.future.state = state.future.state ∧
    (state.future.state = .cancelled → next.starts = state.starts)

theorem Keeps.of_eq {state next : State Tid} (stateEq : next.future.state = state.future.state)
    (startsEq : next.starts = state.starts) : Keeps state next :=
  fun _ => ⟨stateEq, fun _ => startsEq⟩

section Steps

variable {state next : State Tid}

section

variable (inv : FinalInv state)
include inv

/-- A step that leaves the state, the task and the counters alone. -/
theorem FinalInv.congr (stateEq : next.future.state = state.future.state)
    (taskEq : next.task = state.task) (submitted : next.submit ≠ .returned → next.task = .absent)
    (cancelsEq : next.cancels = state.cancels) (callerEq : next.caller = state.caller) :
    FinalInv next where
  agrees := by
    rw [stateEq, taskEq]
    exact inv.agrees
  absent := submitted
  returned positive := by
    rw [stateEq]
    exact inv.returned (cancelsEq ▸ positive)
  cancelling thread cancelling := by
    rw [stateEq]
    exact inv.cancelling thread (callerEq ▸ cancelling)

/-- No cancellation has succeeded while the future is not cancelled. -/
theorem FinalInv.of_not_cancelled
    (alive : state.future.state ≠ .cancelled) (agrees : Agrees next.future.state next.task)
    (absent : next.submit ≠ .returned → next.task = .absent)
    (cancelsEq : next.cancels = state.cancels) (callerEq : next.caller = state.caller) :
    FinalInv next where
  agrees := agrees
  absent := absent
  returned positive := absurd (inv.returned (cancelsEq ▸ positive)) alive
  cancelling thread cancelling := absurd (inv.cancelling thread (callerEq ▸ cancelling)) alive

theorem FinalInv.submitStep {ok : Bool}
    (stepEq : submitStep ok state state.submit = some next) : FinalInv next ∧ Keeps state next := by
  cases pcEq : state.submit with
  | rejected | returned | failed => simp [Future.submitStep, pcEq] at stepEq
  | start =>
    have taskEq := inv.absent (by simp [pcEq])
    have pending : state.future.state = .pending := by
      have agrees := inv.agrees
      rwa [taskEq] at agrees
    rw [pcEq, Future.submitStep] at stepEq
    split at stepEq <;> cases stepEq
    · exact ⟨inv.congr pending.symm rfl (fun _ => taskEq) rfl rfl, .of_eq pending.symm rfl⟩
    · exact ⟨inv.congr rfl rfl (fun _ => taskEq) rfl rfl, .of_eq rfl rfl⟩
  | push =>
    have taskEq := inv.absent (by simp [pcEq])
    have pending : state.future.state = .pending := by
      have agrees := inv.agrees
      rwa [taskEq] at agrees
    rw [pcEq, Future.submitStep] at stepEq
    split at stepEq <;> cases stepEq
    · exact ⟨inv.of_not_cancelled (by rw [pending]; simp) pending (by simp) rfl rfl, .of_eq rfl rfl⟩
    · exact ⟨inv.congr rfl rfl (fun _ => taskEq) rfl rfl, .of_eq rfl rfl⟩
  | _ =>
    have taskEq := inv.absent (by simp [pcEq])
    rw [pcEq] at stepEq
    cases stepEq
    exact ⟨inv.congr rfl rfl (fun _ => taskEq) rfl rfl, .of_eq rfl rfl⟩

end

/-- A worker goes on from the state that it has stored; it never finds a terminal
state other than its own. -/
theorem workerStep_agrees {pc : TaskPc} (stepEq : workerStep state pc = some next)
    (agrees : Agrees state.future.state pc) :
    state.future.state ≠ .cancelled ∧ Agrees next.future.state next.task ∧ Keeps state next ∧
      pc ≠ .absent ∧ next.submit = state.submit ∧ next.cancels = state.cancels ∧
      next.caller = state.caller := by
  have notDone {source : FutureState} (here : state.future.state = source)
      (early : ¬ source.Done) : Keeps state next := by
    intro done
    rw [here] at done
    exact absurd done early
  cases pc with
  | absent | queued | finished | discarded => simp [workerStep] at stepEq
  | taken =>
    have pending : state.future.state = .pending := agrees
    have keeps := notDone pending (by decide)
    cases stepEq
    exact ⟨by simp [pending], rfl, keeps, by simp, rfl, rfl, rfl⟩
  | run =>
    have running : state.future.state = .running := agrees
    have keeps := notDone running (by decide)
    cases stepEq
    exact ⟨by simp [running], running, keeps, by simp, rfl, rfl, rfl⟩
  | complete =>
    have running : state.future.state = .running := agrees
    have keeps := notDone running (by decide)
    cases stepEq
    exact ⟨by simp [running], rfl, keeps, by simp, rfl, rfl, rfl⟩
  | lock =>
    have running : state.future.state = .running := agrees
    rw [workerStep] at stepEq
    split at stepEq <;> cases stepEq
    exact ⟨by simp [running], running, .of_eq rfl rfl, by simp, rfl, rfl, rfl⟩
  | broadcast | unlock =>
    have completed : state.future.state = .completed := agrees
    cases stepEq
    exact ⟨by simp [completed], completed, .of_eq rfl rfl, by simp, rfl, rfl, rfl⟩

theorem FinalInv.workerStep (inv : FinalInv state)
    (stepEq : workerStep state state.task = some next) : FinalInv next ∧ Keeps state next := by
  obtain ⟨alive, agrees, keeps, present, submitEq, cancelsEq, callerEq⟩ :=
    workerStep_agrees stepEq inv.agrees
  refine ⟨inv.of_not_cancelled alive agrees (fun elsewhere => ?_) cancelsEq callerEq, keeps⟩
  exact absurd (inv.absent (submitEq ▸ elsewhere)) present

variable [DecidableEq Tid] {base : State Tid}

variable (inv : FinalInv state)
include inv

/-- A thread of the caller moves without touching the state. -/
theorem FinalInv.setCaller
    (stateEq : base.future.state = state.future.state) (taskEq : base.task = state.task)
    (submitEq : base.submit = state.submit)
    (counted : 0 < base.cancels → state.future.state = .cancelled)
    (cancelling : Cancelling pc → state.future.state = .cancelled) :
    FinalInv { base with caller := update state.caller thread pc } where
  agrees := by
    rw [stateEq, taskEq]
    exact inv.agrees
  absent elsewhere := taskEq.trans (inv.absent (submitEq ▸ elsewhere))
  returned positive := stateEq.trans (counted positive)
  cancelling other cancels := by
    refine stateEq.trans ?_
    by_cases mine : other = thread
    · subst mine
      simp only [update_self] at cancels
      exact cancelling cancels
    · simp only [update_of_ne mine] at cancels
      exact inv.cancelling other cancels

/-- A lock step of a thread of the caller. -/
theorem FinalInv.lockFor {after : CallerPc} (stepEq : lockFor thread state pc = some (base, after))
    (cancelling : Cancelling pc → state.future.state = .cancelled) :
    FinalInv { base with caller := update state.caller thread after } ∧
      Keeps state { base with caller := update state.caller thread after } := by
  rw [Future.lockFor] at stepEq
  split at stepEq <;> cases stepEq
  exact ⟨inv.setCaller rfl rfl rfl inv.returned cancelling, .of_eq rfl rfl⟩

theorem FinalInv.callerStep {expired : Bool}
    (stepEq : callerStep thread expired state (state.caller thread) = some (base, pc))
    (undisputed : Undisputed state (.caller thread expired)) :
    FinalInv { base with caller := update state.caller thread pc } ∧
      Keeps state { base with caller := update state.caller thread pc } := by
  cases pcEq : state.caller thread with rw [pcEq, Future.callerStep] at stepEq
  | idle result => cases stepEq
  | cancelCas =>
    split at stepEq <;> cases stepEq
    next pending =>
      have gone := undisputed pcEq pending
      refine ⟨⟨?_, inv.absent, fun _ => rfl, fun _ _ => rfl⟩, ?_⟩
      · change Agrees .cancelled state.task
        rw [gone]
        exact .inr rfl
      · intro done
        rw [pending] at done
        cases done
    · exact ⟨inv.setCaller rfl rfl rfl inv.returned fun cancelling => cancelling.elim,
        .of_eq rfl rfl⟩
  | cancelLock =>
    exact inv.lockFor stepEq fun _ => inv.cancelling thread (by rw [pcEq]; trivial)
  | waitLock timed => exact inv.lockFor stepEq fun cancelling => cancelling.elim
  | waitRelock timed late =>
    refine inv.lockFor stepEq fun cancelling => ?_
    split at cancelling <;> exact cancelling.elim
  | cancelBroadcast =>
    have cancelled := inv.cancelling thread (by rw [pcEq]; trivial)
    cases stepEq
    exact ⟨inv.setCaller rfl rfl rfl inv.returned fun _ => cancelled, .of_eq rfl rfl⟩
  | cancelUnlock =>
    have cancelled := inv.cancelling thread (by rw [pcEq]; trivial)
    cases stepEq
    exact ⟨inv.setCaller rfl rfl rfl (fun _ => cancelled) fun _ => cancelled, .of_eq rfl rfl⟩
  | waitCheck timed =>
    split at stepEq <;> cases stepEq <;>
      exact ⟨inv.setCaller rfl rfl rfl inv.returned fun cancelling => cancelling.elim,
        .of_eq rfl rfl⟩
  | waitSleep timed | waitUnlock result | get =>
    cases stepEq
    exact ⟨inv.setCaller rfl rfl rfl inv.returned fun cancelling => cancelling.elim, .of_eq rfl rfl⟩

theorem FinalInv.step {label : Label Tid}
    (undisputed : Undisputed state label) (stepEq : step state label = some next) :
    FinalInv next ∧ Keeps state next := by
  cases label with simp only [Future.step] at stepEq
  | submit ok => exact inv.submitStep stepEq
  | worker => exact inv.workerStep stepEq
  | take =>
    split at stepEq <;> cases stepEq
    next queued =>
      have agrees := inv.agrees
      rw [queued] at agrees
      have pending : state.future.state = .pending := agrees
      refine ⟨inv.of_not_cancelled (by simp [pending]) pending (fun elsewhere => ?_) rfl rfl,
        .of_eq rfl rfl⟩
      exact absurd (queued.symm.trans (inv.absent elsewhere)) (by simp)
  | discard =>
    split at stepEq <;> cases stepEq
    next queued =>
      have agrees := inv.agrees
      rw [queued] at agrees
      have pending : state.future.state = .pending := agrees
      refine ⟨inv.of_not_cancelled (by simp [pending]) (.inl pending) (fun elsewhere => ?_) rfl
        rfl, .of_eq rfl rfl⟩
      exact absurd (queued.symm.trans (inv.absent elsewhere)) (by simp)
  | call thread operation =>
    split at stepEq
    · split at stepEq <;> cases stepEq
      have entering : ¬ Cancelling operation.enter := by
        cases operation <;> exact fun cancelling => cancelling
      have entered : FinalInv { state with inside := state.inside + 1 } :=
        inv.congr rfl rfl inv.absent rfl rfl
      exact ⟨entered.setCaller rfl rfl rfl inv.returned fun cancelling =>
        absurd cancelling entering, .of_eq rfl rfl⟩
    · cases stepEq
  | caller thread expired =>
    obtain ⟨⟨base, pc⟩, callerEq, rfl⟩ := map_eq_some_iff.mp stepEq
    exact inv.callerStep callerEq undisputed
  | release =>
    split at stepEq <;> cases stepEq
    exact ⟨inv.congr rfl rfl inv.absent rfl rfl, .of_eq rfl rfl⟩

end Steps

/-! ## Runs -/

section Runs

variable [DecidableEq Tid]

/-- A terminal state of the future is kept by the rest of the run. -/
theorem FinalInv.keeps_run {middle target : State Tid} (inv : FinalInv middle)
    (rest : GuardedRun Future.step Undisputed middle target) : Keeps middle target := by
  have kept := rest.invariant (fun state => FinalInv state ∧ Keeps middle state)
    ⟨inv, .of_eq rfl rfl⟩ ?_
  · exact kept.2
  rintro state label next ⟨stateInv, keeps⟩ undisputed stepEq
  obtain ⟨nextInv, keepsNext⟩ := stateInv.step undisputed stepEq
  refine ⟨nextInv, fun done => ?_⟩
  obtain ⟨stateEq, startsEq⟩ := keeps done
  obtain ⟨nextEq, nextStarts⟩ := keepsNext (stateEq ▸ done)
  exact ⟨nextEq.trans stateEq, fun cancelled =>
    (nextStarts (stateEq.trans cancelled)).trans (startsEq cancelled)⟩

/-- If every cancellation that finds the future pending comes after its task has been
discarded, then a terminal state never changes, and after a cancellation has
returned `QD_OK` the future stays cancelled and its task is not started. -/
theorem terminal_final {middle target : State Tid} (run : GuardedRun step Undisputed initial middle)
    (rest : GuardedRun step Undisputed middle target) :
    (middle.future.state.Done → target.future.state = middle.future.state) ∧
    (0 < middle.cancels → target.future.state = .cancelled ∧ target.starts = middle.starts) := by
  have inv : FinalInv middle := run.invariant FinalInv initial_finalInv
    fun _ _ _ inv undisputed stepEq => (inv.step undisputed stepEq).1
  have keeps := inv.keeps_run rest
  refine ⟨fun done => (keeps done).1, fun positive => ?_⟩
  have cancelled := inv.returned positive
  obtain ⟨stateEq, startsEq⟩ := keeps (by rw [cancelled]; decide)
  exact ⟨stateEq.trans cancelled, startsEq cancelled⟩

/-- A future whose task is discarded with the pool, and then cancelled. -/
def cancelDiscarded : List (Label Unit) :=
  [.submit true, .submit true, .submit true, .submit true, .discard, .call () .cancel,
    .caller () false, .caller () false, .caller () false, .caller () false]

theorem terminal_final_cancelDiscarded :
    ∃ middle, exec (guarded step Undisputed) (initial : State Unit) cancelDiscarded = some middle ∧
      0 < middle.cancels ∧
      ∃ target, exec (guarded step Undisputed) middle [.call () (.wait false), .caller () false,
          .caller () false, .caller () false, .release] = some target ∧
        target.future.state = .cancelled ∧ target.starts = middle.starts := by
  obtain ⟨middle, middleEq, positive, goesOn⟩ := exec_meets (guarded step Undisputed) (initial :
      State Unit) cancelDiscarded (fun middle => 0 < middle.cancels ∧ (exec (guarded step
      Undisputed) middle [.call () (.wait false), .caller () false, .caller () false, .caller ()
      false, .release]).isSome = true) (by decide +kernel)
  obtain ⟨target, targetEq⟩ := isSome_iff_exists.mp goesOn
  exact ⟨middle, middleEq, positive, target, targetEq,
    (terminal_final (guardedRun_of_exec middleEq) (guardedRun_of_exec targetEq)).2 positive⟩

/-- A future is cancelled while its task is queued. -/
def cancelQueued : List (Label Unit) :=
  [.submit true, .submit true, .submit true, .submit true, .call () .cancel, .caller () false,
    .caller () false, .caller () false, .caller () false]

/-- The cancellation has returned `QD_OK`, and then a worker runs the task: the state
goes on to COMPLETED. -/
theorem not_final_cancelQueued :
    ∃ middle target : State Unit, Reachable step initial middle ∧ Reachable step middle target ∧
      0 < middle.cancels ∧ middle.future.state = .cancelled ∧ middle.starts = 0 ∧
      target.future.state = .completed ∧ target.starts = 1 := by
  obtain ⟨middle, middleEq, ⟨positive, cancelled, notStarted⟩, goesOn⟩ := exec_meets step (initial :
      State Unit) cancelQueued (fun middle => (0 < middle.cancels ∧ middle.future.state = .cancelled
      ∧ middle.starts = 0) ∧ (exec step middle [.take, .worker, .worker, .worker, .worker]).map (fun
      target => decide (target.future.state = .completed ∧ target.starts = 1)) = some true)
      (by decide +kernel)
  obtain ⟨target, targetEq, ends⟩ := map_eq_some_iff.mp goesOn
  obtain ⟨completed, started⟩ := of_decide_eq_true ends
  exact ⟨middle, target, reachable_of_exec middleEq, reachable_of_exec targetEq, positive,
    cancelled, notStarted, completed, started⟩

end Runs

end QDaemon.ThreadPool.Future
