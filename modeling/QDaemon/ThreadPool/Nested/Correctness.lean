import QDaemon.ThreadPool.Nested.Core

/-!
# Who pushes to a deque

Only the owner may push to a work-stealing deque.  A worker's thread-local index is
its own index, so a submission to its own pool pushes to its own deque; but the same
index selects a deque of any other pool it submits to.
-/

namespace QDaemon.ThreadPool.Nested

open Option List ThreadPool.Pool Transition

universe u v w x

variable {Fn : Type u} {Arg : Type v}

/-! ## The deques a call pushes to -/

section Submission

variable {n : Nat} {id : Fin n} {tls : Int}

theorem localWorker_eq_some (found : localWorker n tls = some id) : tls = id.val := by
  rw [localWorker] at found
  split at found <;> cases found
  next inRange => exact (Int.toNat_of_nonneg inRange.1).symm

variable {pool : Threadpool n (Task Fn Arg)} {task : Task Fn Arg}

theorem pushLocal_pushed {other : Fin n} {useDeque : Bool}
    (pushed : other ∈ (pushLocal pool id task useDeque).pushed) :
    other = id ∧ task.priority = .normal := by
  simp only [pushLocal] at pushed
  split at pushed
  next normal => exact ⟨mem_singleton.mp pushed, normal.2⟩
  · exact absurd pushed (not_mem_nil)

variable [NeZero n]

theorem enqueueFrom_pushed {outcome : Outcome n Fn Arg}
    (returned : enqueueFrom tls pool task = some outcome) (pushed : id ∈ outcome.pushed) :
    localWorker n tls = some id ∧ task.priority = .normal := by
  rw [enqueueFrom] at returned
  split at returned
  next worker found =>
    cases returned
    have pushedLocally : id ∈ (pushLocal { pool with pendingTasks := pool.pendingTasks + 1#32 } worker task
        (task.priority = .normal)).pushed := by
      split at pushed <;> exact pushed
    obtain ⟨rfl, normal⟩ := pushLocal_pushed pushedLocally
    exact ⟨found, normal⟩
  · obtain ⟨result, -, rfl⟩ := map_eq_some_iff.mp returned
    exact absurd pushed (not_mem_nil)

theorem enqueueBatchFrom_pushed {outcome : Outcome n Fn Arg}
    (returned : enqueueBatchFrom tls pool task = some outcome) (pushed : id ∈ outcome.pushed) :
    localWorker n tls = some id := by
  rw [enqueueBatchFrom] at returned
  split at returned
  next worker found =>
    simp only at returned
    split at returned
    · cases returned
      obtain ⟨rfl, -⟩ := pushLocal_pushed pushed
      exact found
    · obtain ⟨result, -, rfl⟩ := map_eq_some_iff.mp returned
      have pushedLocally : id ∈ (pushLocal { pool with pendingTasks := pool.pendingTasks + 1#32 }
          worker task true).pushed := pushed
      obtain ⟨rfl, -⟩ := pushLocal_pushed pushedLocally
      exact found
  · obtain ⟨result, -, rfl⟩ := map_eq_some_iff.mp returned
    exact absurd pushed (not_mem_nil)

variable {next : Threadpool n (Task Fn Arg)} {pushed : List (Fin n)}

theorem submitTaskFrom_pushed {func : Option Fn} {allocated : Bool} {task : Fn → Task Fn Arg}
    {status : Status}
    (returned : submitTaskFrom tls pool func allocated task = some (next, status, pushed))
    (member : id ∈ pushed) :
    localWorker n tls = some id ∧ ∃ func, (task func).priority = .normal := by
  cases func with
  | none =>
    cases returned
    exact absurd member (not_mem_nil)
  | some func =>
    simp only [submitTaskFrom] at returned
    split at returned
    · cases returned
      exact absurd member (not_mem_nil)
    split at returned
    · cases returned
      exact absurd member (not_mem_nil)
    · obtain ⟨outcome, enqueued, equal⟩ := map_eq_some_iff.mp returned
      cases equal
      obtain ⟨found, normal⟩ := enqueueFrom_pushed enqueued member
      exact ⟨found, func, normal⟩

theorem submitLoopFrom_pushed {entries : List (BatchEntry Fn Arg)} {submitted : Nat}
    (returned : submitLoopFrom tls pool entries = some (next, submitted, pushed))
    (member : id ∈ pushed) : localWorker n tls = some id := by
  induction entries generalizing pool next submitted pushed with
  | nil =>
    cases returned
    exact absurd member (not_mem_nil)
  | cons entry rest ih =>
    simp only [submitLoopFrom] at returned
    split at returned
    · exact ih returned member
    split at returned
    · cases returned
      exact absurd member (not_mem_nil)
    · obtain ⟨outcome, enqueued, continued⟩ := bind_eq_some_iff.mp returned
      split at continued
      · obtain ⟨⟨final, count, later⟩, looped, equal⟩ := map_eq_some_iff.mp continued
        cases equal
        rcases mem_append.mp member with now | afterwards
        · exact enqueueBatchFrom_pushed enqueued now
        · exact ih looped afterwards
      · cases continued
        exact enqueueBatchFrom_pushed enqueued member

/-- A call pushes only to the deque that the thread-local index selects, and only with
normal priority. -/
theorem Call.run_pushed {call : Call Fn Arg} (returned : call.run tls pool = some (next, pushed))
    (member : id ∈ pushed) : localWorker n tls = some id ∧ call.normal = true := by
  cases call with
  | priority func arg level allocated =>
    obtain ⟨⟨_, status, _⟩, submitted, equal⟩ := map_eq_some_iff.mp returned
    cases equal
    obtain ⟨found, _, normal⟩ := submitTaskFrom_pushed submitted member
    exact ⟨found, decide_eq_true normal⟩
  | callback func arg onComplete allocated | future func arg allocated =>
    obtain ⟨⟨_, status, _⟩, submitted, equal⟩ := map_eq_some_iff.mp returned
    cases equal
    exact ⟨(submitTaskFrom_pushed submitted member).1, rfl⟩
  | batch entries =>
    obtain ⟨⟨_, result, _⟩, submitted, equal⟩ := map_eq_some_iff.mp returned
    cases equal
    refine ⟨?_, rfl⟩
    rw [submitBatchFrom] at submitted
    split at submitted
    · cases submitted
      exact absurd member (not_mem_nil)
    split at submitted
    · cases submitted
      exact absurd member (not_mem_nil)
    · obtain ⟨⟨_, count, _⟩, looped, equal⟩ := map_eq_some_iff.mp submitted
      cases equal
      exact submitLoopFrom_pushed looped member

end Submission

/-! ## Runs -/

section Runs

variable {P : Type w} {E : Type x} {n : P → Nat}

/-- Every push to a deque was made by the worker that owns it. -/
def OwnerOnly (state : State n E Fn Arg) : Prop :=
  ∀ push ∈ state.pushes, push.1 = .worker push.2.1 push.2.2

/-- A task that submits with normal priority submits to its own pool, or to one that
has no worker with its worker's index. -/
def AtHome (_ : State n E Fn Arg) : Label n E Fn Arg → Prop
  | .submit (.worker p id) q call => call.normal = true → p = q ∨ n q ≤ id
  | _ => True

instance AtHome.decidable [DecidableEq P] (state : State n E Fn Arg) (label : Label n E Fn Arg) :
    Decidable (AtHome state label) := by
  unfold AtHome
  split <;> infer_instance

/-- A thread's index is unset, or it is that of the worker that runs it. -/
def Indexed (state : State n E Fn Arg) : Prop :=
  ∀ thread, state.tls thread = -1 ∨
    ∃ p id, thread = .worker p id ∧ state.tls thread = id.val

variable [∀ p, NeZero (n p)] [DecidableEq P] [DecidableEq (Thread n E)]

theorem Indexed.step {state next : State n E Fn Arg} {label : Label n E Fn Arg}
    (indexed : Indexed state) (stepEq : step state label = some next) : Indexed next := by
  cases label with simp only [Nested.step] at stepEq
  | begin p id =>
    cases stepEq
    intro thread
    by_cases mine : thread = .worker p id
    · subst mine
      exact .inr ⟨p, id, rfl, Function.update_self _ _ _⟩
    · simp only [Function.update_of_ne mine]
      exact indexed thread
  | take p id =>
    split at stepEq
    · cases stepEq
    · obtain ⟨result, -, rfl⟩ := map_eq_some_iff.mp stepEq
      exact indexed
  | finish p id =>
    split at stepEq <;> cases stepEq
    exact indexed
  | submit thread p call =>
    split at stepEq
    · obtain ⟨result, -, rfl⟩ := map_eq_some_iff.mp stepEq
      exact indexed
    · cases stepEq

theorem OwnerOnly.step {state next : State n E Fn Arg} {label : Label n E Fn Arg}
    (owner : OwnerOnly state) (indexed : Indexed state) (atHome : AtHome state label)
    (stepEq : step state label = some next) : OwnerOnly next := by
  cases label with simp only [Nested.step] at stepEq
  | begin p id =>
    cases stepEq
    exact owner
  | take p id =>
    split at stepEq
    · cases stepEq
    · obtain ⟨result, -, rfl⟩ := map_eq_some_iff.mp stepEq
      exact owner
  | finish p id =>
    split at stepEq <;> cases stepEq
    exact owner
  | submit thread q call =>
    split at stepEq
    case isFalse => cases stepEq
    obtain ⟨⟨pool, pushed⟩, returned, rfl⟩ := map_eq_some_iff.mp stepEq
    intro push member
    rcases mem_append.mp member with old | new
    · exact owner push old
    obtain ⟨id, idPushed, rfl⟩ := mem_map.mp new
    obtain ⟨found, normal⟩ := Call.run_pushed returned idPushed
    have tlsEq := localWorker_eq_some found
    rcases indexed thread with unset | ⟨p, own, rfl, ownEq⟩
    · rw [unset] at tlsEq
      omega
    · have same : own.val = id.val := by omega
      rcases atHome normal with rfl | foreign
      · exact congrArg (Thread.worker p) (Fin.ext same)
      · exact absurd id.isLt (by omega)

/-- If tasks submit only to their own pool, or to a pool without a worker of their
index, every push to a deque is made by its owner. -/
theorem pushes_ownerOnly {pools : (p : P) → Threadpool (n p) (Task Fn Arg)}
    {target : State n E Fn Arg} (run : GuardedRun step AtHome (initial n pools) target) :
    OwnerOnly target := by
  have both := run.invariant (fun state => OwnerOnly state ∧ Indexed state)
    ⟨fun push member => absurd member (not_mem_nil), fun _ => .inl rfl⟩
    fun _ _ _ inv atHome stepEq =>
      ⟨inv.1.step inv.2 atHome stepEq, inv.2.step stepEq⟩
  exact both.1

end Runs

/-! ## Two pools of one worker -/

/-- One worker and rings of four cells. -/
def oneWorker : Config :=
  ⟨1, 4, true⟩

/-- Two pools with the same configuration. -/
abbrev TwoPools := State (fun _ : Bool => numWorkers 0 oneWorker) Unit Nat Nat

/-- A task from outside runs on the worker of the first pool and submits to `pool`. -/
def nestedSubmit (pool : Bool) :
    List (Label (fun _ : Bool => numWorkers 0 oneWorker) Unit Nat Nat) :=
  [.begin false 0, .begin true 0, .submit (.outside ()) false (.callback (some 1) 10 none true),
    .take false 0, .submit (.worker false 0) pool (.callback (some 2) 20 none true)]

/-- The task submits to its own pool. -/
theorem pushes_ownerOnly_nestedSubmit :
    ∃ (pool : Threadpool (numWorkers 0 oneWorker) (Task Nat Nat)) (target : TwoPools),
      threadpoolCreateEx 0 oneWorker = some pool ∧
      exec (guarded step AtHome) (initial _ fun _ => pool) (nestedSubmit false) = some target ∧
      target.pushes = [(.worker false 0, ⟨false, 0⟩)] ∧ OwnerOnly target := by
  obtain ⟨pool, created⟩ : ∃ pool : Threadpool (numWorkers 0 oneWorker) (Task Nat Nat),
      threadpoolCreateEx 0 oneWorker = some pool := ⟨_, rfl⟩
  have outcome : (exec (guarded step AtHome) (initial _ fun _ => pool : TwoPools)
      (nestedSubmit false)).map (fun state => state.pushes) =
      some [(.worker false 0, ⟨false, 0⟩)] := by
    cases created
    decide +kernel
  obtain ⟨target, targetEq, pushes⟩ := map_eq_some_iff.mp outcome
  exact ⟨pool, target, created, targetEq, pushes, pushes_ownerOnly (guardedRun_of_exec targetEq)⟩

/-- The task submits to the other pool: the worker of the first pool pushes to the deque
of the second pool's worker. -/
theorem not_ownerOnly_nestedSubmit :
    ∃ (pool : Threadpool (numWorkers 0 oneWorker) (Task Nat Nat)) (target : TwoPools),
      threadpoolCreateEx 0 oneWorker = some pool ∧
      Reachable step (initial _ fun _ => pool) target ∧
      target.pushes = [(.worker false 0, ⟨true, 0⟩)] ∧ ¬ OwnerOnly target := by
  obtain ⟨pool, created⟩ : ∃ pool : Threadpool (numWorkers 0 oneWorker) (Task Nat Nat),
      threadpoolCreateEx 0 oneWorker = some pool := ⟨_, rfl⟩
  have outcome : (exec step (initial _ fun _ => pool : TwoPools) (nestedSubmit true)).map
      (fun state => state.pushes) = some [(.worker false 0, ⟨true, 0⟩)] := by
    cases created
    decide +kernel
  obtain ⟨target, targetEq, pushes⟩ := map_eq_some_iff.mp outcome
  refine ⟨pool, target, created, reachable_of_exec targetEq, pushes, fun owner => ?_⟩
  rw [OwnerOnly, pushes] at owner
  exact absurd (owner _ (mem_singleton.mpr rfl)) (by decide)

end QDaemon.ThreadPool.Nested
