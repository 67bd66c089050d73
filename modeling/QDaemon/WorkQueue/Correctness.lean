import QDaemon.WorkQueue.Accounting

/-!
# Conservation of completions

Two things break the account of a work queue: an item with a delay, which the
drain loop passes over, and a completion that a full channel refuses.  In runs
without them `on_complete` is called once for every accepted item and `pending`
returns to zero.
-/

namespace QDaemon.WorkQueue

open Option Multiset Function Channel Transition

universe u v

variable {Sid : Type u} {Tid : Type v}

variable [DecidableEq Sid] [DecidableEq Tid]

/-- No submitted item has a delay, and a worker that sends a completion finds the
channel below its capacity when it loads the head. -/
def Deliverable (state : State Sid Tid) : Label Sid Tid → Prop
  | .submit _ submission _ => ∀ item ∈ submission.items state.completeArg, item.delayMs = 0
  | .worker thread _ _ _ =>
      match state.worker thread, state.channel.producer thread with
      | .sending, .sendHead _ tail =>
          (tail + 2 ^ 64 - state.channel.chan.head) % 2 ^ 64 < state.channel.chan.capacity
      | _, _ => True
  | _ => True

omit [DecidableEq Sid] [DecidableEq Tid] in
instance (state : State Sid Tid) (label : Label Sid Tid) : Decidable (Deliverable state label) := by
  unfold Deliverable
  repeat' split
  all_goals infer_instance

variable [Fintype Sid] [Fintype Tid] {state next : State Sid Tid}

omit [DecidableEq Tid] in
theorem Inv.submitterStep (inv : Inv state) {thread : Sid} {accepted : Bool} {pc : SubmitterPc}
    (stepEq : submitterStep accepted state (state.submitter thread) = some (next, pc)) :
    Inv { next with submitter := update state.submitter thread pc } := by
  have held := inv.immediateHeld thread
  cases pcEq : state.submitter thread with
  | idle => simp [WorkQueue.submitterStep, pcEq] at stepEq
  | handOver timeout items =>
    cases items with
    | nil =>
      simp only [pcEq] at stepEq
      cases stepEq
      exact inv.setSubmitter (by simp [heldItems]) (by rw [pcEq]; rfl)
    | cons item rest =>
      rw [pcEq] at held
      simp only [WorkQueue.submitterStep, pcEq] at stepEq
      split at stepEq <;> cases stepEq
      · exact inv.accept pcEq
      · exact inv.setSubmitter (fun later mem => held later (List.mem_cons_of_mem item mem))
          (by rw [pcEq]; rfl)
  | _ =>
    rw [pcEq] at held
    simp only [pcEq] at stepEq
    cases stepEq
    refine inv.setSubmitter held ?_
    simp [pcEq, owed, BitVec.ofNat_add, add_comm]

omit [DecidableEq Sid] in
theorem Inv.workerStep (inv : Inv state) {thread : Tid} {returned : Pointer}
    {errno spurious : Bool} {pc : WorkerPc}
    (deliverable : Deliverable state (.worker thread returned errno spurious))
    (bound : next.channel.sent.length < 2 ^ 64)
    (stepEq : workerStep thread returned errno spurious state (state.worker thread) =
      some (next, pc)) : Inv { next with worker := update state.worker thread pc } := by
  have facts := inv.workers thread
  cases pcEq : state.worker thread with
      (rw [pcEq] at facts; simp only [WorkQueue.workerStep, pcEq] at stepEq)
  | idle => cases stepEq
  | execute item =>
    split at stepEq
    · cases stepEq
    split at stepEq
    · cases stepEq
      have mine : before (state.worker thread) = {item} := by rw [pcEq]; rfl
      have finished := inv.finish (inv.uncancelled item) mine facts
      rwa [update_eq_self] at finished
    · simp only [inv.uncancelled item] at stepEq
      cases stepEq
      exact inv.setWorker (by rw [pcEq]; rfl) (by rw [pcEq]; rfl) facts
  | run item =>
    cases stepEq
    exact inv.run returned errno pcEq
  | store item returned errno =>
    obtain ⟨resultEq, outside⟩ := facts
    cases stepEq
    rw [← resultEq]
    refine inv.finish ?_ (by rw [pcEq]; rfl) outside
    split <;> simp
  | complete item =>
    simp only [inv.live] at stepEq
    cases stepEq
    exact inv.setWorker (by rw [pcEq]; rfl) (by rw [pcEq]; rfl) facts
  | status item =>
    simp only [map_eq_some_iff] at stepEq
    obtain ⟨channel, channelEq, rfl, rfl⟩ := stepEq
    exact inv.trySend pcEq channelEq
  | sending =>
    split at stepEq
    next outside =>
      cases stepEq
      exact inv.setWorker (by rw [pcEq]; rfl) (by rw [pcEq, outside]; rfl) outside
    · simp only [map_eq_some_iff] at stepEq
      obtain ⟨channel, channelEq, rfl, rfl⟩ := stepEq
      refine inv.send pcEq (fun completion tail producerEq => ?_) bound channelEq
      simpa [Deliverable, pcEq, producerEq] using deliverable
  | subInflight =>
    cases stepEq
    exact inv.setWorker (by rw [pcEq]; rfl) (by rw [pcEq]; rfl) facts

theorem Inv.step (inv : Inv state) {label : Label Sid Tid}
    (deliverable : Deliverable state label) (bound : next.channel.sent.length < 2 ^ 64)
    (stepEq : step state label = some next) : Inv next := by
  cases label with simp only [WorkQueue.step] at stepEq
  | submit thread submission allocated =>
    split at stepEq
    · cases stepEq
      exact inv
    next idle _ =>
      split at stepEq <;> cases stepEq
      · exact inv.setSubmitter deliverable (by rw [idle]; rfl)
      · exact inv
    · cases stepEq
  | submitter thread accepted =>
    obtain ⟨⟨reached, pc⟩, submitterEq, rfl⟩ := map_eq_some_iff.mp stepEq
    exact inv.submitterStep submitterEq
  | timeout item accepted =>
    split at stepEq <;> cases stepEq
    next mem => exact inv.timeoutFired mem accepted
  | start thread item =>
    split at stepEq
    next idle =>
      split at stepEq <;> cases stepEq
      next mem => exact inv.start idle mem
    · cases stepEq
  | worker thread returned errno spurious =>
    obtain ⟨⟨reached, pc⟩, workerEq, rfl⟩ := map_eq_some_iff.mp stepEq
    exact inv.workerStep deliverable bound workerEq
  | process memory => exact inv.processStep stepEq

omit [DecidableEq Sid] [DecidableEq Tid] in
theorem initial_inv {completeArg : Pointer} {memory : Nat → Item 1 Completion}
    (created : workqueueCreate true completeArg memory = some state) : Inv state := by
  rw [workqueueCreate, map_eq_some_iff] at created
  obtain ⟨chan, chanEq, rfl⟩ := created
  obtain ⟨nonzero, rfl⟩ := channelCreate_eq_some chanEq
  exact {
    channel := Channel.initial_inv nonzero
    notClosed := rfl
    callback := rfl
    live := rfl
    immediate := by simp
    immediateHeld := by simp [heldItems]
    uncancelled := by simp
    located := by simp [unfinished, finished, before, after, Channel.State.initial]
    executedEq := by simp [finished, after, Channel.State.initial]
    records := by simp
    workers := fun _ => rfl
    batching := trivial
    deliveredEq := ⟨[], rfl, rfl⟩
    callsEq := rfl
    callsOwn := by simp
    pendingEq := by
      simp [owed, unfinished, finished, before, after, Channel.State.initial] }

omit [Fintype Sid] [Fintype Tid] in
theorem step_sent_length {label : Label Sid Tid} (stepEq : step state label = some next) :
    state.channel.sent.length ≤ next.channel.sent.length := by
  cases label with simp only [step] at stepEq
  | submit thread submission allocated | start thread item =>
    repeat' split at stepEq
    all_goals simp only [reduceCtorEq, some.injEq] at stepEq
    all_goals
      subst stepEq
      rfl
  | submitter thread accepted =>
    obtain ⟨⟨reached, pc⟩, submitterEq, rfl⟩ := map_eq_some_iff.mp stepEq
    have same : reached.channel = state.channel := by
      unfold submitterStep at submitterEq
      repeat' split at submitterEq
      all_goals simp only [reduceCtorEq, some.injEq] at submitterEq
      all_goals
        obtain ⟨rfl, -⟩ := submitterEq
        rfl
    exact (congrArg (fun channel => channel.sent.length) same).ge
  | timeout item accepted =>
    split at stepEq <;> cases stepEq
    cases accepted <;> rfl
  | worker thread returned errno spurious =>
    obtain ⟨⟨reached, pc⟩, workerEq, rfl⟩ := map_eq_some_iff.mp stepEq
    unfold workerStep at workerEq
    repeat' split at workerEq
    all_goals simp only [reduceCtorEq, map_eq_some_iff, some.injEq] at workerEq
    all_goals first
      | (obtain ⟨rfl, -⟩ := workerEq; rfl)
      | (obtain ⟨channel, channelEq, rfl, -⟩ := workerEq
         exact Channel.step_sent_length channelEq)
  | process memory =>
    simp only [processStep] at stepEq
    split at stepEq
    · cases stepEq
      rfl
    · obtain ⟨⟨channel, pc, completion⟩, drainEq, stepEq⟩ := bind_eq_some_iff.mp stepEq
      have same : channel.sent = state.channel.sent := by
        split at drainEq
        · exact (SameProducers.of_startBatch drainEq).sent
        · exact (SameProducers.of_drainStep drainEq).sent
      cases completion with
      | none =>
        cases stepEq
        exact (congrArg List.length same).ge
      | some completion =>
        obtain ⟨work, -, rfl⟩ := map_eq_some_iff.mp stepEq
        split <;> exact (congrArg List.length same).ge

/-- Nobody is inside a submission or a worker, every accepted item has been run,
and a call of `qd_workqueue_process` has left the channel empty. -/
def Drained (state : State Sid Tid) : Prop :=
  (∀ thread, state.submitter thread = .idle) ∧ (∀ thread, state.worker thread = .idle) ∧
    (∀ item < state.accepted.length, item ∈ state.executed.map Prod.fst) ∧
    state.channel.chan.head = state.channel.chan.tail ∧ state.drain = .outside ∧
    state.settle = false

instance (state : State Sid Tid) : Decidable (Drained state) := by
  unfold Drained
  infer_instance

omit [DecidableEq Sid] [DecidableEq Tid] in
/-- In a drained state every accepted item is in the order of the channel and has
been delivered. -/
theorem Inv.drained (inv : Inv state) (drained : Drained state) :
    unfinished state = 0 ∧ (state.channel.sent.map itemOf).Perm (List.range state.accepted.length) ∧
      state.delivered = state.channel.sent.map itemOf := by
  obtain ⟨-, workersIdle, allRun, empty, outside, -⟩ := drained
  have finishedEq : finished state = ((state.channel.sent.map itemOf : List Nat) : Multiset Nat) := by
    simp [finished, workersIdle, after]
  have allFinished : Multiset.range state.accepted.length ≤ finished state := by
    refine (le_iff_subset (nodup_range _)).mpr fun item mem => ?_
    rw [← inv.executedEq]
    exact allRun item (mem_range.mp mem)
  have located := inv.located
  have none : unfinished state + (state.dropped : Multiset Nat) = 0 := by
    have cards := congrArg Multiset.card located
    have least := card_le_card allFinished
    rw [← card_eq_zero]
    simp only [card_add] at cards ⊢
    omega
  obtain ⟨noneLeft, noneDropped⟩ := add_eq_zero.mp none
  rw [noneLeft, noneDropped, add_zero, finishedEq] at located
  refine ⟨noneLeft, coe_eq_coe.mp located.symm, ?_⟩
  obtain ⟨done, doneEq, receivedEq⟩ := inv.deliveredEq
  rw [outside, inv.channel.receivedEq, empty, inv.channel.tailEq, List.take_length] at receivedEq
  rw [← doneEq, receivedEq]
  simp [undelivered]

/-- On a work queue with a completion callback, in every run in which no item is
submitted with a delay, every worker that sends a completion finds room in the
channel, and fewer than `2 ^ 64` completions are sent: the callback is called at
most once for an item, with the result and the status of its one execution and
the item's own argument; and once everything accepted has been run and the
channel is drained, it has been called exactly once for each accepted item and
`qd_workqueue_pending` is zero. -/
theorem completions_conserved {completeArg : Pointer} {memory : Nat → Item 1 Completion}
    {source target : State Sid Tid}
    (created : workqueueCreate true completeArg memory = some source)
    (run : GuardedRun step Deliverable source target)
    (bound : target.channel.sent.length < 2 ^ 64) :
    (target.calls.map Call.item).Nodup ∧ (target.executed.map Prod.fst).Nodup ∧
    (∀ call ∈ target.calls, (call.item, call.result, call.status) ∈ target.executed ∧
      ∃ item, target.accepted[call.item]? = some item ∧ call.userData = item.userData) ∧
    (Drained target →
      (target.calls.map Call.item).Perm (List.range target.accepted.length) ∧
        target.pending = 0) := by
  have inv : Inv target :=
    run.invariant_of_lt Inv (fun state => state.channel.sent.length) (2 ^ 64) bound
      (fun _ _ _ => step_sent_length) (initial_inv created)
      (fun _ _ _ inv below deliverable stepEq => inv.step deliverable below stepEq)
  have finishedNodup := (nodup_add.mp inv.nodup).2.1
  refine ⟨?_, ?_, inv.callsOwn, fun drained => ?_⟩
  · obtain ⟨done, doneEq, receivedEq⟩ := inv.deliveredEq
    have within : done <+: target.channel.sent := by
      refine List.IsPrefix.trans ⟨_, receivedEq.symm⟩ ?_
      rw [inv.channel.receivedEq]
      exact List.take_prefix _ _
    have sentNodup : (target.channel.sent.map itemOf).Nodup :=
      coe_nodup.mp (nodup_add.mp finishedNodup).2.1
    rw [inv.callsEq, ← doneEq]
    exact sentNodup.sublist (within.map itemOf).sublist
  · rw [← coe_nodup, inv.executedEq]
    exact finishedNodup
  · obtain ⟨noneLeft, perm, deliveredEq⟩ := inv.drained drained
    obtain ⟨submittersIdle, workersIdle, -, -, -, settled⟩ := drained
    refine ⟨by rw [inv.callsEq, deliveredEq]; exact perm, ?_⟩
    have counted := inv.pendingEq
    rw [noneLeft, settled, deliveredEq] at counted
    simpa [submittersIdle, workersIdle, owed, finished, after] using counted

/-- Submit one item, run it on the pool, drain. -/
def oneCompletion : List (Label Unit Unit) :=
  [.submit () (.submit 1 2) true] ++ List.replicate 4 (.submitter () true) ++ [.start () 0] ++
    List.replicate 13 (.worker () 42 false false) ++
    List.replicate 19 (.process fun _ => (0, .ok))

theorem completions_conserved_oneCompletion :
    ∃ source target : State Unit Unit, workqueueCreate true 7 (fun _ _ => (0, .ok)) = some source ∧
      exec (guarded step Deliverable) source oneCompletion = some target ∧ Drained target ∧
      target.calls = [⟨0, 42, .ok, 7⟩] ∧
      (target.calls.map Call.item).Perm (List.range target.accepted.length) ∧
      target.pending = 0 := by
  obtain ⟨source, created⟩ : ∃ source : State Unit Unit,
      workqueueCreate true 7 (fun _ _ => (0, .ok)) = some source := ⟨_, rfl⟩
  obtain ⟨target, targetEq, drained, callsEq, sentEq⟩ := exec_meets (guarded step Deliverable)
    source oneCompletion (fun state => Drained state ∧ state.calls = [⟨0, 42, .ok, 7⟩] ∧
      state.channel.sent.length = 1) (by
      cases created
      decide)
  have conserved := completions_conserved created (guardedRun_of_exec targetEq)
    (by rw [sentEq]; decide)
  exact ⟨source, target, created, targetEq, drained, callsEq, conserved.2.2.2 drained⟩

/-- Submit one item with a delay, let the timeout fire, run it, drain: the drain
loop passes over the completion. -/
def oneDelayed : List (Label Unit Unit) :=
  [.submit () (.submitDelayed 1 2 50) true] ++ List.replicate 4 (.submitter () true) ++
    [.timeout 0 true, .start () 0] ++ List.replicate 13 (.worker () 42 false false) ++
    List.replicate 18 (.process fun _ => (0, .ok))

theorem exists_uncalled_oneDelayed :
    ∃ source target : State Unit Unit, workqueueCreate true 7 (fun _ _ => (0, .ok)) = some source ∧
      Reachable step source target ∧ Drained target ∧ target.accepted.length = 1 ∧
      target.executed = [(0, 42, .ok)] ∧ target.calls = [] ∧ target.pending = 1 := by
  obtain ⟨source, created⟩ : ∃ source : State Unit Unit,
      workqueueCreate true 7 (fun _ _ => (0, .ok)) = some source := ⟨_, rfl⟩
  obtain ⟨target, targetEq, facts⟩ := exec_meets step source oneDelayed (fun state => Drained state
      ∧ state.accepted.length = 1 ∧ state.executed = [(0, 42, .ok)] ∧ state.calls = [] ∧
      state.pending = 1) (by
        cases created
        decide)
  exact ⟨source, target, created, reachable_of_exec targetEq, facts⟩

end QDaemon.WorkQueue
