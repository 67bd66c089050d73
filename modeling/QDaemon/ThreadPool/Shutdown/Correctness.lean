import QDaemon.ThreadPool.Shutdown.Core

/-!
# Wake-ups after a graceful shutdown

A graceful shutdown writes one wake-up per worker.  The counter then covers
every worker that is in `read` or on its way there, and it keeps covering them
as long as no worker goes back to `read` on a wake-up that is not spare.  A
worker that finds no task while another one is still running does go back, so
the counter can run out.
-/

namespace QDaemon.ThreadPool.Shutdown

open Option Function Transition

universe u

variable {n : Nat} {Tid : Type u}
variable {thread : Tid} {pc : WorkerPc}

/-- A worker in `read`, or past the shutdown check that leads there with no
other one in between. -/
def WorkerPc.Waiting (pc : WorkerPc) : Prop :=
  pc = .topPaused ∨ pc.Reading

instance : DecidablePred WorkerPc.Waiting := fun _ =>
  inferInstanceAs (Decidable (_ ∨ _))

/-- The number of workers the counter has to cover. -/
def waitingWorkers (state : State n Tid) : Nat :=
  countPcs WorkerPc.Waiting state.worker

/-- Once a graceful shutdown has returned, a worker that found no task and
still sees pending ones has a wake-up to spare: there are more of them than
workers waiting. -/
def WakeupToSpare (state : State n Tid) : Label n Tid → Prop
  | .worker id _ => state.gracefulRequested = true → state.worker id = .idlePending →
      state.pendingTasks ≠ 0 → waitingWorkers state < state.wakeFd
  | _ => True

instance (state : State n Tid) (label : Label n Tid) : Decidable (WakeupToSpare state label) := by
  cases label <;> unfold WakeupToSpare <;> infer_instance

/-- A caller inside `qd_threadpool_shutdown`. -/
def CallPc.InShutdown (pc : CallPc) : Prop :=
  ∃ mode, pc = .shutdownRunning mode ∨ pc = .shutdownWake mode

/-- Shutdown is visible to the workers before it is announced, and the
announcement covers every waiting worker. -/
structure Inv (state : State n Tid) : Prop where
  modeSet : ∀ thread, (state.caller thread).InShutdown → state.shutdownMode ≠ none
  requestedMode : state.gracefulRequested = true → state.shutdownMode ≠ none
  covered : state.gracefulRequested = true → waitingWorkers state ≤ state.wakeFd

theorem submitNext_not_inShutdown (left submitted : Nat) :
    ¬ (submitNext left submitted).InShutdown := by
  rintro ⟨mode, equal | equal⟩
  all_goals
    rw [submitNext] at equal
    split at equal
    · split at equal <;> cases equal
    · cases equal

theorem eventfdWrite_eq {counter count next : Nat}
    (writeEq : eventfdWrite counter count = some next) : next = counter + count := by
  rw [eventfdWrite] at writeEq
  split at writeEq
  · exact (some.inj writeEq).symm
  · cases writeEq

theorem enter_eq {state result next : State n Tid}
    (enterEq : enter state thread next = some result) : result = next := by
  rw [enter] at enterEq
  split at enterEq
  · exact (some.inj enterEq).symm
  · cases enterEq

section Workers

variable {state next : State n Tid}

/-- A worker's move keeps the invariant when the counter still covers the
waiting workers. -/
theorem Inv.moveWorker (inv : Inv state) (modeEq : next.shutdownMode = state.shutdownMode)
    (callerEq : next.caller = state.caller)
    (requestedEq : next.gracefulRequested = state.gracefulRequested)
    (covered : state.gracefulRequested = true → waitingWorkers next ≤ next.wakeFd) : Inv next := by
  refine ⟨?_, ?_, ?_⟩
  · intro thread inside
    rw [modeEq]
    rw [callerEq] at inside
    exact inv.modeSet thread inside
  · intro requested
    rw [modeEq]
    exact inv.requestedMode (requestedEq ▸ requested)
  · intro requested
    exact covered (requestedEq ▸ requested)

variable {id : Fin n}

variable (inv : Inv state)
include inv

/-- A worker that does not start waiting leaves the rest covered. -/
theorem Inv.setWorker (kept : ¬ pc.Waiting ∨ (state.worker id).Waiting) :
    Inv (state.setWorker id pc) := by
  refine inv.moveWorker rfl rfl rfl fun requested => ?_
  have covered := inv.covered requested
  have count := countPcs_update WorkerPc.Waiting state.worker id pc
  change countPcs WorkerPc.Waiting (update state.worker id pc) ≤ state.wakeFd
  rw [waitingWorkers] at covered
  rcases kept with leaves | waits
  · rw [if_neg leaves] at count
    omega
  · rw [if_pos waits] at count
    split at count <;> omega

/-- Fields the invariant does not read may change along with a worker. -/
theorem Inv.setWorker_with (queued : Nat) (pendingTasks : BitVec 32)
    (kept : ¬ pc.Waiting ∨ (state.worker id).Waiting) :
    Inv { state.setWorker id pc with queued := queued, pendingTasks := pendingTasks } :=
  (inv.setWorker kept).moveWorker rfl rfl rfl (inv.setWorker kept).covered

/-- A read takes one wake-up and the worker stops waiting. -/
theorem Inv.read {counter : Nat} (reading : (state.worker id).Reading)
    (readEq : eventfdRead state.wakeFd = some counter) :
    Inv { state.setWorker id .topShutdown with wakeFd := counter } := by
  refine inv.moveWorker rfl rfl rfl fun requested => ?_
  have covered := inv.covered requested
  have count := countPcs_update WorkerPc.Waiting state.worker id .topShutdown
  have waiting : (state.worker id).Waiting := .inr reading
  rw [if_pos waiting, if_neg (by decide)] at count
  rw [eventfdRead] at readEq
  split at readEq <;> cases readEq
  rw [waitingWorkers] at covered
  change countPcs WorkerPc.Waiting (update state.worker id .topShutdown) ≤ state.wakeFd - 1
  omega

/-- A worker may start waiting on a spare wake-up. -/
theorem Inv.startWaiting
    (spare : state.gracefulRequested = true → waitingWorkers state < state.wakeFd) :
    Inv (state.setWorker id pc) := by
  refine inv.moveWorker rfl rfl rfl fun requested => ?_
  have below := spare requested
  have count := countPcs_update WorkerPc.Waiting state.worker id pc
  rw [waitingWorkers] at below
  change countPcs WorkerPc.Waiting (update state.worker id pc) ≤ state.wakeFd
  split at count <;> split at count <;> omega

theorem Inv.workerStep {found : Bool} (spare : WakeupToSpare state (.worker id found))
    (stepEq : workerStep state id found = some next) : Inv next := by
  have unset : state.shutdownMode = none → state.gracefulRequested = true →
      waitingWorkers state < state.wakeFd :=
    fun none requested => absurd none (inv.requestedMode requested)
  rw [Shutdown.workerStep] at stepEq
  split at stepEq
  next pcEq =>
    split at stepEq <;> cases stepEq
    · exact inv.setWorker (.inl (by decide))
    · exact inv.setWorker (.inl (by decide))
    next modeEq => exact inv.startWaiting (unset modeEq)
  next pcEq =>
    split at stepEq <;> cases stepEq <;> exact inv.setWorker (.inl (by decide))
  next pcEq =>
    split at stepEq <;> cases stepEq <;>
      exact inv.setWorker (.inr (.inl pcEq))
  next pcEq =>
    obtain ⟨counter, readEq, rfl⟩ := map_eq_some_iff.mp stepEq
    exact inv.read (.inl pcEq) readEq
  next pcEq =>
    obtain ⟨counter, readEq, rfl⟩ := map_eq_some_iff.mp stepEq
    exact inv.read (.inr pcEq) readEq
  next pcEq =>
    split at stepEq
    · split at stepEq <;> cases stepEq
      exact inv.setWorker_with (state.queued - 1) state.pendingTasks (.inl (by decide))
    · cases stepEq
      exact inv.setWorker (.inl (by decide))
  next pcEq =>
    cases stepEq
    exact inv.setWorker (.inl (by decide))
  next pcEq =>
    cases stepEq
    exact inv.setWorker_with state.queued (state.pendingTasks - 1) (.inl (by decide))
  next pcEq =>
    split at stepEq <;> cases stepEq
    · exact inv.setWorker (.inl (by decide))
    · exact inv.setWorker (.inl (by decide))
    next modeEq => exact inv.startWaiting (unset modeEq)
  next pcEq =>
    split at stepEq <;> cases stepEq
    · exact inv.setWorker (.inl (by decide))
    next pending => exact inv.startWaiting fun requested => spare requested pcEq pending
  · cases stepEq

end Workers

/-! ## Callers -/

section Callers

variable [DecidableEq Tid] {state next : State n Tid}

/-- A caller's move keeps the invariant when shutdown is visible before the
caller is inside it and the counter does not shrink. -/
theorem Inv.moveCaller (inv : Inv state) {pc : CallPc}
    (callerEq : next.caller = update state.caller thread pc) (workerEq : next.worker = state.worker)
    (modeKept : state.shutdownMode ≠ none → next.shutdownMode ≠ none)
    (inside : pc.InShutdown → next.shutdownMode ≠ none) (counterGrows : state.wakeFd ≤ next.wakeFd)
    (requested : next.gracefulRequested = true → state.gracefulRequested = true ∨
      (next.shutdownMode ≠ none ∧ n ≤ next.wakeFd)) : Inv next := by
  have bounded : waitingWorkers next ≤ n := (countPcs_le_card _ _).trans_eq (Fintype.card_fin n)
  refine ⟨?_, ?_, ?_⟩
  · intro other shuttingDown
    rw [callerEq] at shuttingDown
    by_cases same : other = thread
    · subst same
      rw [update_self] at shuttingDown
      exact inside shuttingDown
    · rw [update_of_ne same] at shuttingDown
      exact modeKept (inv.modeSet other shuttingDown)
  · intro now
    rcases requested now with before | ⟨mode, -⟩
    · exact modeKept (inv.requestedMode before)
    · exact mode
  · intro now
    rcases requested now with before | ⟨-, counter⟩
    · have covered := inv.covered before
      rw [waitingWorkers] at covered ⊢
      rw [workerEq]
      omega
    · omega

theorem Inv.callStep (inv : Inv state) {ok : Bool} (stepEq : callStep state thread ok = some next) :
    Inv next := by
  rw [Shutdown.callStep] at stepEq
  split at stepEq
  · cases stepEq
  next left submitted pcEq =>
    split at stepEq <;> cases stepEq
    · exact inv.moveCaller rfl rfl id (by simp [CallPc.InShutdown]) le_rfl .inl
    · exact inv.moveCaller rfl rfl id (absurd · (submitNext_not_inShutdown _ _)) le_rfl .inl
  next left submitted pcEq =>
    split at stepEq <;> cases stepEq
    · exact inv.moveCaller rfl rfl id (absurd · (submitNext_not_inShutdown _ _)) le_rfl .inl
    · exact inv.moveCaller rfl rfl id (by simp [CallPc.InShutdown]) le_rfl .inl
  next submitted pcEq =>
    cases stepEq
    exact inv.moveCaller rfl rfl id (absurd · (submitNext_not_inShutdown _ _)) le_rfl .inl
  next count pcEq =>
    obtain ⟨counter, writeEq, rfl⟩ := map_eq_some_iff.mp stepEq
    exact inv.moveCaller rfl rfl id (by simp [CallPc.InShutdown])
      (eventfdWrite_eq writeEq ▸ Nat.le_add_right _ _) .inl
  next mode pcEq =>
    cases stepEq
    exact inv.moveCaller rfl rfl id (fun _ => inv.modeSet thread ⟨mode, .inl pcEq⟩) le_rfl .inl
  next mode pcEq =>
    obtain ⟨counter, writeEq, rfl⟩ := map_eq_some_iff.mp stepEq
    have counterEq := eventfdWrite_eq writeEq
    refine inv.moveCaller rfl rfl id (by simp [CallPc.InShutdown])
      (counterEq ▸ Nat.le_add_right _ _) fun _ => .inr ⟨?_, ?_⟩
    · exact inv.modeSet thread ⟨mode, .inr pcEq⟩
    · exact counterEq ▸ Nat.le_add_left _ _

end Callers

/-! ## Runs -/

section Runs

theorem initial_inv : Inv (State.initial n : State n Tid) := by
  refine ⟨?_, ?_, ?_⟩
  · rintro thread ⟨mode, equal | equal⟩ <;> cases equal
  · intro requested
    cases requested
  · intro requested
    cases requested

variable [DecidableEq Tid]

theorem Inv.step {state next : State n Tid} {label : Label n Tid} (inv : Inv state)
    (spare : WakeupToSpare state label) (stepEq : step state label = some next) : Inv next := by
  cases label with
  | submit thread count =>
    obtain rfl := enter_eq stepEq
    split
    · exact inv.moveCaller rfl rfl id (absurd · (submitNext_not_inShutdown _ _)) le_rfl .inl
    · exact inv
  | pause thread | resume thread =>
    obtain rfl := enter_eq stepEq
    exact inv.moveCaller rfl rfl id (by simp [CallPc.InShutdown]) le_rfl .inl
  | shutdown thread mode =>
    obtain rfl := enter_eq stepEq
    exact inv.moveCaller rfl rfl (fun _ => by simp) (fun _ => by simp) le_rfl .inl
  | call thread ok => exact inv.callStep stepEq
  | worker id found => exact inv.workerStep spare stepEq
  | interrupt id =>
    simp only [Shutdown.step] at stepEq
    split at stepEq <;> cases stepEq
    · exact inv.setWorker (.inl (by decide))
    · exact inv.setWorker (.inl (by decide))

/-- No worker is stranded by a graceful shutdown in a run in which every worker
that goes back to `read` after it has a wake-up to spare. -/
theorem not_stranded {target : State n Tid}
    (run : GuardedRun step WakeupToSpare (State.initial n) target) : ¬ Stranded target := by
  have inv : Inv target := run.invariant Inv initial_inv fun _ _ _ inv => inv.step
  rintro ⟨requested, -, empty, id, reading, -⟩
  have covered := inv.covered requested
  have waiting : (target.worker id).Waiting := .inr reading
  have positive : 0 < waitingWorkers target := countPcs_pos _ waiting
  omega

end Runs

/-- Worker 0 goes idle, worker 1 runs a submitted task, and shutdown wakes
both. -/
def quietShutdown : List (Label 2 Unit) :=
  [.worker 0 false, .worker 0 false, .worker 0 false, .worker 0 false,
    .submit () 1, .call () true, .call () true, .call () true,
    .worker 1 false, .worker 1 false, .worker 1 true, .worker 1 true, .worker 1 true,
    .shutdown () .graceful, .call () true, .call () true,
    .worker 0 false, .worker 0 false, .worker 0 false, .worker 1 false, .worker 1 false]

theorem not_stranded_quietShutdown :
    ∃ target, exec (guarded step WakeupToSpare) (State.initial 2) quietShutdown = some target ∧
      target.gracefulRequested = true ∧ (∀ id, target.worker id = .exited) ∧
      ¬ Stranded target := by
  apply exists_exec fun state => state.gracefulRequested = true ∧ ∀ id, state.worker id = .exited
  · decide
  · rintro target targetEq ⟨requested, exited⟩
    exact ⟨requested, exited, not_stranded (guardedRun_of_exec targetEq)⟩

/-- Worker 0 runs a task.  Shutdown writes two wake-ups, worker 1 takes both
because the task is still pending, and worker 0 then exits without writing
another. -/
def longTask : List (Label 2 Unit) :=
  [.submit () 1, .call () true, .call () true, .call () true,
    .worker 0 false, .worker 0 false, .worker 0 true,
    .worker 1 false, .worker 1 false, .worker 1 false, .worker 1 false, .worker 1 false,
    .worker 1 false, .worker 1 false, .worker 1 false, .worker 1 false,
    .shutdown () .graceful, .call () true, .call () true,
    .worker 1 false, .worker 1 false, .worker 1 false, .worker 1 false, .worker 1 false,
    .worker 1 false,
    .worker 1 false, .worker 1 false, .worker 1 false, .worker 1 false, .worker 1 false,
    .worker 1 false,
    .worker 0 false, .worker 0 false, .worker 0 false, .worker 0 false]

/-- A graceful shutdown of two workers can strand one of them. -/
theorem exists_stranded_longTask :
    ∃ target : State 2 Unit, Reachable step (State.initial 2) target ∧ Stranded target := by
  exact exists_reachable longTask Stranded (by decide) fun _ stranded => stranded

end QDaemon.ThreadPool.Shutdown
