import Mathlib.Data.BitVec
import QDaemon.WorkQueue.Core

/-!
# The account of a work queue

Every accepted item is in exactly one place: a timeout, the pool, the hands of a
worker, or the order of the channel; from there it is delivered and `on_complete`
is called.  `pending` counts the items on their way.  The invariant of this module
states the account, and each step of a submitter, a timeout, a worker or the event
loop keeps it, as long as no item has a delay and no completion is refused.
-/

namespace QDaemon.WorkQueue

open Option Multiset Function Channel Transition

universe u v

variable {Sid : Type u} {Tid : Type v}

/-! ## Where the items are -/

/-- The item that a worker has started and not finished running. -/
def before : WorkerPc → Multiset Nat
  | .execute item => {item}
  | .run item => {item}
  | .store item _ _ => {item}
  | _ => 0

/-- The item whose completion a producer has not reserved a slot for. -/
def held : ProducerPc 1 Completion → Multiset Nat
  | .sendTail completion => {itemOf completion}
  | .sendHead completion _ => {itemOf completion}
  | .sendCas completion _ _ => {itemOf completion}
  | _ => 0

/-- The item that a worker has run and not put into the channel. -/
def after : WorkerPc → ProducerPc 1 Completion → Multiset Nat
  | .complete item, _ => {item}
  | .status item, _ => {item}
  | .sending, pc => held pc
  | _, _ => 0

variable {item : Nat} {pc : WorkerPc}
variable {thread : Tid} {inflight : BitVec 32}

theorem after_of_before (running : before pc = {item}) (producer : ProducerPc 1 Completion) :
    after pc producer = 0 := by
  cases pc with
  | execute _ | run _ | store _ _ _ => rfl
  | _ => exact absurd running.symm (singleton_ne_zero item)

/-- The items that a submitter still holds. -/
def heldItems : SubmitterPc → List WorkItem
  | .idle => []
  | .addPending _ items => items
  | .addInflight _ items => items
  | .handOver _ items => items
  | .subPending _ items => items
  | .subInflight _ items => items

/-- What a submitter has added to `pending` for items that are not accepted. -/
def owed : SubmitterPc → Nat
  | .addInflight _ items => items.length
  | .handOver _ items => items.length
  | .subPending _ items => items.length + 1
  | .subInflight _ items => items.length
  | _ => 0

section Places

variable [Fintype Tid]

/-- The accepted items that have not been run. -/
def unfinished (state : State Sid Tid) : Multiset Nat :=
  state.timeouts + state.queue + ∑ thread, before (state.worker thread)

/-- The items that have been run: those with a worker and those in the order of
the channel. -/
def finished (state : State Sid Tid) : Multiset Nat :=
  (∑ thread, after (state.worker thread) (state.channel.producer thread)) +
    ((state.channel.sent.map itemOf : List Nat) : Multiset Nat)

end Places

/-- A worker that is not sending is outside of the channel, and between its two
stores the result is what its work function returned. -/
def WorkerInv (result : Nat → Pointer) : WorkerPc → ProducerPc 1 Completion → Prop
  | .sending, _ => True
  | .store item returned _, pc => result item = returned ∧ pc = .idle
  | _, pc => pc = .idle

/-- Changing the results of other items keeps what a worker knows. -/
theorem WorkerInv.congr {result next : Nat → Pointer} {producer : ProducerPc 1 Completion}
    (facts : WorkerInv result pc producer) (kept : ∀ item ∈ before pc, next item = result item) :
    WorkerInv next pc producer := by
  cases pc with
  | store item returned errno =>
    exact ⟨(kept item (mem_singleton_self item)).trans facts.1, facts.2⟩
  | _ => exact facts

/-- The account of a work queue: `located` says where the accepted items are, and
`pendingEq` that `pending` counts the items that are not settled. -/
structure Inv [Fintype Sid] [Fintype Tid] (state : State Sid Tid) : Prop where
  channel : Channel.Inv state.channel
  notClosed : state.channel.chan.closed = false
  callback : state.onComplete = true
  live : state.draining = false
  immediate : ∀ item ∈ state.accepted, item.delayMs = 0
  immediateHeld : ∀ thread, ∀ item ∈ heldItems (state.submitter thread), item.delayMs = 0
  uncancelled : ∀ item, state.status item ≠ .cancelled
  located : Multiset.range state.accepted.length =
    unfinished state + finished state + (state.dropped : Multiset Nat)
  executedEq : ((state.executed.map Prod.fst : List Nat) : Multiset Nat) = finished state
  records : ∀ record ∈ state.executed,
    state.result record.1 = record.2.1 ∧ state.status record.1 = record.2.2
  workers : ∀ thread,
    WorkerInv state.result (state.worker thread) (state.channel.producer thread)
  batching : Batching state.drain state.channel.consumer
  deliveredEq : ∃ done, done.map itemOf = state.delivered ∧
    state.channel.received = done ++ undelivered state.drain state.channel.consumer
  callsEq : state.calls.map Call.item = state.delivered
  callsOwn : ∀ call ∈ state.calls,
    (call.item, call.result, call.status) ∈ state.executed ∧
      ∃ item, state.accepted[call.item]? = some item ∧ call.userData = item.userData
  pendingEq : state.pending + BitVec.ofNat 32 state.delivered.length =
    BitVec.ofNat 32 ((∑ thread, owed (state.submitter thread)) +
      (unfinished state + finished state).card + state.settle.toNat)

/-! ## Consequences of the account -/

section Account

variable [Fintype Sid] [Fintype Tid] {state : State Sid Tid}

variable (inv : Inv state)
include inv

theorem Inv.nodup : (unfinished state + finished state).Nodup := by
  have all := nodup_range state.accepted.length
  rw [inv.located] at all
  exact (nodup_add.mp all).1

/-- An item that is not finished has not been run. -/
theorem Inv.not_executed (mem : item ∈ unfinished state)
    {record : Nat × Pointer × Status} (executed : record ∈ state.executed) : record.1 ≠ item := by
  rintro rfl
  have also : record.1 ∈ finished state := by
    rw [← inv.executedEq]
    exact List.mem_map_of_mem executed
  exact disjoint_left.mp (nodup_add.mp inv.nodup).2.2 mem also

omit inv in
omit [Fintype Sid] in
theorem mem_unfinished_of_worker (mine : item ∈ before (state.worker thread)) :
    item ∈ unfinished state :=
  mem_add.mpr (.inr (mem_sum.mpr ⟨thread, Finset.mem_univ thread, mine⟩))

/-- Every item in one of the places has been accepted. -/
theorem Inv.lt_accepted (mem : item ∈ unfinished state + finished state) :
    item < state.accepted.length := by
  have : item ∈ Multiset.range state.accepted.length := by
    rw [inv.located]
    exact mem_add.mpr (.inl mem)
  exact mem_range.mp this

/-- Two workers do not run the same item. -/
theorem Inv.before_unique {first second : Tid} (firstMem : item ∈ before (state.worker first))
    (secondMem : item ∈ before (state.worker second)) : first = second := by
  classical
  by_contra different
  have nodup := (nodup_add.mp (nodup_add.mp inv.nodup).1).2.1
  rw [← Finset.add_sum_erase _ _ (Finset.mem_univ first)] at nodup
  refine disjoint_left.mp (nodup_add.mp nodup).2.2 firstMem ?_
  refine mem_sum.mpr ⟨second, ?_, secondMem⟩
  exact Finset.mem_erase.mpr ⟨fun same => different same.symm, Finset.mem_univ second⟩

/-- The record of an item in the channel's order. -/
theorem Inv.record_of_sent {completion : Item 1 Completion}
    (sent : completion ∈ state.channel.sent) :
    (itemOf completion, state.result (itemOf completion), state.status (itemOf completion)) ∈
      state.executed := by
  have mem : itemOf completion ∈ finished state := mem_add.mpr (.inr (List.mem_map_of_mem sent))
  rw [← inv.executedEq] at mem
  obtain ⟨record, recorded, sameItem⟩ := List.mem_map.mp mem
  obtain ⟨resultEq, statusEq⟩ := inv.records record recorded
  rw [← sameItem, resultEq, statusEq]
  exact recorded

end Account

/-! ## Submitters and timeouts -/

/-- The counter follows a count that changes by as much. -/
theorem pending_balance {pending next : BitVec 32} {delivered total nextTotal : Nat}
    (less more : Nat) (pendingEq : pending + BitVec.ofNat 32 delivered = BitVec.ofNat 32 total)
    (balance : next + BitVec.ofNat 32 less = pending + BitVec.ofNat 32 more)
    (count : nextTotal + less = total + more) :
    next + BitVec.ofNat 32 delivered = BitVec.ofNat 32 nextTotal := by
  have sums := congrArg (BitVec.ofNat 32) count
  rw [BitVec.ofNat_add, BitVec.ofNat_add, ← pendingEq] at sums
  have shifted : next + BitVec.ofNat 32 delivered + BitVec.ofNat 32 less =
      BitVec.ofNat 32 nextTotal + BitVec.ofNat 32 less := by
    rw [sums, add_right_comm, balance, add_right_comm]
  exact add_right_cancel shifted

section Submitters

variable [Fintype Sid] [Fintype Tid] [DecidableEq Sid] {state : State Sid Tid}

/-- A submitter's move that accepts no item. -/
theorem Inv.setSubmitter (inv : Inv state) {thread : Sid} {pc : SubmitterPc} {pending : BitVec 32}
    (immediate : ∀ item ∈ heldItems pc, item.delayMs = 0)
    (balance : pending + BitVec.ofNat 32 (owed (state.submitter thread)) =
      state.pending + BitVec.ofNat 32 (owed pc)) : Inv { state with
      pending := pending
      inflight := inflight
      submitter := update state.submitter thread pc } :=
  { inv with
    immediateHeld := (forall_update_iff _ fun _ pc => ∀ item ∈ heldItems pc, item.delayMs = 0).mpr
      ⟨immediate, fun other _ => inv.immediateHeld other⟩
    pendingEq := by
      have moved := sum_update owed state.submitter thread pc
      refine pending_balance _ _ inv.pendingEq balance ?_
      change (∑ other, owed (update state.submitter thread pc other)) +
        (unfinished state + finished state).card + state.settle.toNat + _ = _
      omega }

omit [Fintype Sid] [DecidableEq Sid] in
theorem unfinished_accept (timeout : Bool) (item : WorkItem) :
    unfinished (accept state timeout item) = {state.accepted.length} + unfinished state := by
  cases timeout <;> simp only [unfinished, accept, Bool.false_eq_true, if_true, if_false,
    ← coe_add, coe_singleton] <;> abel

/-- Handing over an item moves it from the submitter to a timeout or the pool. -/
theorem Inv.accept (inv : Inv state) {thread : Sid} {timeout : Bool} {item : WorkItem}
    {rest : List WorkItem} (pcEq : state.submitter thread = .handOver timeout (item :: rest)) :
    Inv { accept state timeout item with
      submitter := update state.submitter thread (.handOver timeout rest) } := by
  have held := inv.immediateHeld thread
  rw [pcEq] at held
  have old {index : Nat} (mem : index ∈ unfinished state + finished state) :
      index ≠ state.accepted.length := (inv.lt_accepted mem).ne
  exact { inv with
    immediate := List.forall_mem_append.mpr
      ⟨inv.immediate, List.forall_mem_singleton.mpr (held item List.mem_cons_self)⟩
    immediateHeld := (forall_update_iff _ fun _ pc => ∀ item ∈ heldItems pc, item.delayMs = 0).mpr
      ⟨fun later mem => held later (List.mem_cons_of_mem item mem),
        fun other _ => inv.immediateHeld other⟩
    uncancelled := (forall_update_iff state.status fun _ status => status ≠ .cancelled).mpr
      ⟨by simp, fun index _ => inv.uncancelled index⟩
    located := by
      change Multiset.range (state.accepted ++ [item]).length =
        unfinished (WorkQueue.accept state timeout item) + finished state +
          (state.dropped : Multiset Nat)
      rw [List.length_append, List.length_singleton, range_succ, inv.located,
        unfinished_accept, ← singleton_add]
      abel
    records := by
      intro record mem
      have ran : record.1 ∈ finished state := by
        rw [← inv.executedEq]
        exact List.mem_map_of_mem mem
      have different := old (mem_add.mpr (.inr ran))
      simpa [WorkQueue.accept, update_of_ne different] using inv.records record mem
    workers := by
      intro worker
      refine (inv.workers worker).congr fun index mine => ?_
      exact update_of_ne (old (mem_add.mpr (.inl (mem_unfinished_of_worker mine)))) _ _
    callsOwn := by
      intro call mem
      obtain ⟨recorded, work, workEq, userData⟩ := inv.callsOwn call mem
      refine ⟨recorded, work, ?_, userData⟩
      obtain ⟨below, -⟩ := List.getElem?_eq_some_iff.mp workEq
      change (state.accepted ++ [item])[call.item]? = some work
      rw [List.getElem?_append_left below, workEq]
    pendingEq := by
      have moved := sum_update owed state.submitter thread (.handOver timeout rest)
      rw [pcEq] at moved
      change (∑ other, _) + (rest.length + 1) = _ + rest.length at moved
      change state.pending + BitVec.ofNat 32 state.delivered.length = BitVec.ofNat 32
        ((∑ other, owed (update state.submitter thread (.handOver timeout rest) other)) +
          (unfinished (WorkQueue.accept state timeout item) + finished state).card +
          state.settle.toNat)
      rw [inv.pendingEq, unfinished_accept]
      simp only [card_add, card_singleton]
      congr 1
      omega }

end Submitters

section Timeouts

variable [Fintype Sid] [Fintype Tid] {state : State Sid Tid}

/-- A timeout hands its item to the pool, or drops it and gives its count back. -/
theorem Inv.timeoutFired (inv : Inv state) (mem : item ∈ state.timeouts) (accepted : Bool) :
    Inv (timeoutFired state item accepted) := by
  have split : (state.timeouts : Multiset Nat) = {item} + (state.timeouts.erase item : List Nat) :=
    coe_eq_coe.mpr (List.perm_cons_erase mem)
  cases accepted with
  | true =>
    have same : unfinished (WorkQueue.timeoutFired state item true) = unfinished state := by
      simp only [unfinished, WorkQueue.timeoutFired, if_true, split, ← coe_add, coe_singleton]
      abel
    exact { inv with
      located := by
        rw [same]
        exact inv.located
      pendingEq := by
        rw [same]
        exact inv.pendingEq }
  | false =>
    have less : unfinished state =
        {item} + unfinished (WorkQueue.timeoutFired state item false) := by
      simp only [unfinished, split]
      abel
    exact { inv with
      located := by
        change Multiset.range state.accepted.length = _ + finished state +
          ((state.dropped ++ [item] : List Nat) : Multiset Nat)
        rw [inv.located, less, ← coe_add, coe_singleton]
        abel
      pendingEq := by
        refine pending_balance 1 0 inv.pendingEq ?_ ?_
        · simp [WorkQueue.timeoutFired]
        · change (∑ thread, owed (state.submitter thread)) +
            (_ + finished state).card + state.settle.toNat + 1 = _
          rw [less]
          simp only [card_add, card_singleton]
          omega }

end Timeouts

/-! ## Workers -/

/-- What the channel shows of one producer's step: the items it reserves. -/
structure ProducerMoved (thread : Tid) (items : List (Item 1 Completion))
    (state next : Channel.State 1 Completion Tid) : Prop where
  closed : next.chan.closed = state.chan.closed
  others : ∀ other, other ≠ thread → next.producer other = state.producer other
  sent : next.sent = state.sent ++ items
  received : next.received = state.received
  consumer : next.consumer = state.consumer

theorem ProducerMoved.refl (thread : Tid) (state : Channel.State 1 Completion Tid) :
    ProducerMoved thread [] state state :=
  ⟨rfl, fun _ _ => rfl, (List.append_nil _).symm, rfl, rfl⟩

section Workers

variable [Fintype Sid] [Fintype Tid] [DecidableEq Tid] {state : State Sid Tid}
variable {channel : Channel.State 1 Completion Tid}

omit [Fintype Sid] in
/-- One worker's move changes the finished items by what it holds and by what it
puts into the channel. -/
theorem finished_move (pc : WorkerPc) {items : List (Item 1 Completion)}
    (moved : ProducerMoved thread items state.channel channel) : finished { state with
        channel := channel
        worker := update state.worker thread pc } +
      after (state.worker thread) (state.channel.producer thread) =
    finished state + after pc (channel.producer thread) +
      ((items.map itemOf : List Nat) : Multiset Nat) := by
  have changed := sum_eq_off
    (fun other => after (state.worker other) (state.channel.producer other))
    (fun other => after (update state.worker thread pc other) (channel.producer other))
    thread fun other different => by
      rw [update_of_ne different, moved.others other different]
  rw [update_self] at changed
  simp only [finished, moved.sent, List.map_append, ← coe_add]
  rw [add_right_comm, changed]
  abel

section

variable (inv : Inv state)
include inv

/-- A worker's step that does not finish the run of its item. -/
theorem Inv.moveWorker {queue : List Nat} (items : List (Item 1 Completion))
    (channelInv : Channel.Inv channel) (moved : ProducerMoved thread items state.channel channel)
    (beforeEq : (queue : Multiset Nat) + before pc = state.queue + before (state.worker thread))
    (afterEq : after pc (channel.producer thread) + ((items.map itemOf : List Nat) : Multiset Nat) =
      after (state.worker thread) (state.channel.producer thread))
    (mine : WorkerInv state.result pc (channel.producer thread)) : Inv { state with
      inflight := inflight
      channel := channel
      queue := queue
      worker := update state.worker thread pc } := by
  have unfinishedEq : unfinished { state with
      inflight := inflight
      channel := channel
      queue := queue
      worker := update state.worker thread pc } = unfinished state := by
    have changed := sum_update before state.worker thread pc
    refine add_right_cancel (b := before (state.worker thread)) ?_
    simp only [unfinished]
    rw [add_assoc, changed, add_comm (∑ other, before (state.worker other)), ← add_assoc,
      add_assoc (state.timeouts : Multiset Nat), beforeEq]
    abel
  have finishedEq : finished { state with
      inflight := inflight
      channel := channel
      queue := queue
      worker := update state.worker thread pc } = finished state := by
    have changed := finished_move pc moved
    rw [add_assoc (finished state), afterEq] at changed
    exact add_right_cancel changed
  exact { inv with
    channel := channelInv
    notClosed := moved.closed.trans inv.notClosed
    located := by
      rw [unfinishedEq, finishedEq]
      exact inv.located
    executedEq := by
      rw [finishedEq]
      exact inv.executedEq
    workers := by
      refine (forall_update_iff _ fun other pc =>
        WorkerInv state.result pc (channel.producer other)).mpr ⟨mine, fun other different => ?_⟩
      rw [moved.others other different]
      exact inv.workers other
    batching := by
      simp only [moved.consumer]
      exact inv.batching
    deliveredEq := by
      simp only [moved.consumer, moved.received]
      exact inv.deliveredEq
    pendingEq := by
      rw [unfinishedEq, finishedEq]
      exact inv.pendingEq }

/-- A worker's step outside of the channel that does not finish the run. -/
theorem Inv.setWorker (beforeEq : before pc = before (state.worker thread))
    (afterEq : after pc (state.channel.producer thread) =
      after (state.worker thread) (state.channel.producer thread))
    (mine : WorkerInv state.result pc (state.channel.producer thread)) : Inv { state with
      inflight := inflight
      worker := update state.worker thread pc } :=
  inv.moveWorker [] inv.channel (ProducerMoved.refl thread state.channel) (by rw [beforeEq])
    (by simpa using afterEq) mine

/-- A worker takes an item from the pool. -/
theorem Inv.start (idle : state.worker thread = .idle) (mem : item ∈ state.queue) : Inv { state with
      queue := state.queue.erase item
      worker := update state.worker thread (.execute item) } := by
  have outside := inv.workers thread
  rw [idle] at outside
  refine inv.moveWorker [] inv.channel (ProducerMoved.refl thread state.channel) ?_ ?_ outside
  · have split := coe_eq_coe.mpr (List.perm_cons_erase mem)
    rw [split, idle, ← cons_coe]
    exact (add_comm _ _).trans (add_zero _).symm
  · rw [idle]
    rfl

/-- The work function returns. -/
theorem Inv.run (returned : Pointer) (errno : Bool) (pcEq : state.worker thread = .run item) :
    Inv { state with
      result := update state.result item returned
      worker := update state.worker thread (.store item returned errno) } := by
  have mine : item ∈ before (state.worker thread) := by
    rw [pcEq]
    exact mem_singleton_self item
  have outside := inv.workers thread
  rw [pcEq] at outside
  have stored : Inv { state with result := update state.result item returned } :=
    { inv with
      records := by
        intro record mem
        have different := inv.not_executed (mem_unfinished_of_worker mine) mem
        simp only [update_of_ne different]
        exact inv.records record mem
      workers := by
        intro other
        by_cases same : other = thread
        · subst same
          simp only [pcEq]
          exact outside
        · refine (inv.workers other).congr fun index also => update_of_ne ?_ _ _
          rintro rfl
          exact same (inv.before_unique also mine) }
  refine stored.setWorker ?_ ?_ ⟨update_self _ _ _, outside⟩
  · simp only [pcEq]
    rfl
  · simp only [pcEq]
    rfl

/-- The run of an item is over, with its status stored. -/
theorem Inv.finish {status : Status} (notCancelled : status ≠ .cancelled)
    (mine : before (state.worker thread) = {item})
    (outside : state.channel.producer thread = .idle) : Inv { state with
      status := update state.status item status
      executed := state.executed ++ [(item, state.result item, status)]
      worker := update state.worker thread (.complete item) } := by
  have mem : item ∈ unfinished state := by
    apply mem_unfinished_of_worker
    rw [mine]
    exact mem_singleton_self item
  let moved : State Sid Tid := { state with worker := update state.worker thread (.complete item) }
  have less : unfinished moved + {item} = unfinished state := by
    have changed := sum_update before state.worker thread (.complete item)
    rw [mine] at changed
    change _ = _ + 0 at changed
    simp only [unfinished]
    rw [add_assoc, changed, add_zero]
  have more : finished moved = finished state + {item} := by
    have changed := finished_move (.complete item) (ProducerMoved.refl thread state.channel)
    rw [after_of_before mine] at changed
    simpa [after] using changed
  have sum : unfinished moved + finished moved = unfinished state + finished state := by
    rw [more, ← less]
    abel
  exact { inv with
    uncancelled := (forall_update_iff state.status fun _ status => status ≠ .cancelled).mpr
      ⟨notCancelled, fun index _ => inv.uncancelled index⟩
    located := by
      change _ = unfinished moved + finished moved + _
      rw [sum]
      exact inv.located
    executedEq := by
      change _ = finished moved
      rw [more, ← inv.executedEq, List.map_append]
      rfl
    records := by
      intro record recorded
      rcases List.mem_append.mp recorded with old | new
      · have different := inv.not_executed mem old
        simp only [update_of_ne different]
        exact inv.records record old
      · rw [List.mem_singleton.mp new]
        exact ⟨rfl, update_self _ _ _⟩
    workers := (forall_update_iff _ fun other pc =>
      WorkerInv state.result pc (state.channel.producer other)).mpr
        ⟨outside, fun other _ => inv.workers other⟩
    callsOwn := by
      intro call called
      obtain ⟨recorded, rest⟩ := inv.callsOwn call called
      exact ⟨List.mem_append_left _ recorded, rest⟩
    pendingEq := by
      change _ = BitVec.ofNat 32 (_ + (unfinished moved + finished moved).card + _)
      rw [sum]
      exact inv.pendingEq }

end

omit [Fintype Tid] in
/-- A producer that finds room keeps its item until it has reserved a slot for
it. -/
theorem producerStep_held (inv : Channel.Inv channel) {spurious : Bool}
    {chan : QdChannel 1 Completion} {lock : Option Tid} {pc : ProducerPc 1 Completion}
    {items : List (Item 1 Completion)}
    (room : ∀ completion tail, channel.producer thread = .sendHead completion tail →
      (tail + 2 ^ 64 - channel.chan.head) % 2 ^ 64 < channel.chan.capacity)
    (stepEq : producerStep thread spurious channel.chan channel.lock (channel.producer thread) =
      some (chan, lock, pc, items)) :
    held pc + ((items.map itemOf : List Nat) : Multiset Nat) = held (channel.producer thread) ∧
      chan.closed = channel.chan.closed := by
  have facts := inv.producers thread
  cases pcEq : channel.producer thread with
      (rw [pcEq] at facts; simp only [producerStep, pcEq] at stepEq)
  | idle => cases stepEq
  | sendTail completion | signal =>
    cases stepEq
    exact ⟨rfl, rfl⟩
  | sendHead completion tail =>
    simp only [Nat.not_le.mpr (room completion tail pcEq)] at stepEq
    cases stepEq
    exact ⟨rfl, rfl⟩
  | sendCas completion tail head =>
    split at stepEq <;> cases stepEq <;> exact ⟨rfl, rfl⟩
  | write completion tail head copied =>
    split at stepEq <;> cases stepEq
    · exact ⟨rfl, rfl⟩
    · refine ⟨?_, rfl⟩
      split <;> rfl
  | _ => exact facts.elim

/-- A worker inside `qd_channel_try_send` that finds room. -/
theorem Inv.send (inv : Inv state) {spurious : Bool} (pcEq : state.worker thread = .sending)
    (room : ∀ completion tail, state.channel.producer thread = .sendHead completion tail →
      (tail + 2 ^ 64 - state.channel.chan.head) % 2 ^ 64 < state.channel.chan.capacity)
    (bound : channel.sent.length < 2 ^ 64)
    (stepEq : Channel.step state.channel (.producer thread spurious) = some channel) :
    Inv { state with
      channel := channel
      worker := update state.worker thread .sending } := by
  have channelInv := inv.channel.step bound stepEq
  obtain ⟨⟨chan, lock, pc, items⟩, producerEq, rfl⟩ := map_eq_some_iff.mp stepEq
  obtain ⟨heldEq, closedEq⟩ := producerStep_held inv.channel room producerEq
  refine inv.moveWorker items channelInv
    ⟨closedEq, fun other different => ?_, rfl, rfl, rfl⟩ ?_ ?_ trivial
  · simp [update_of_ne different]
  · rw [pcEq]
  · simp only [update_self, pcEq]
    exact heldEq

/-- A worker enters `qd_channel_try_send` with its completion. -/
theorem Inv.trySend (inv : Inv state) {status : Status} (pcEq : state.worker thread = .status item)
    (stepEq : Channel.step state.channel (.trySend thread fun _ => (item, status)) = some channel) :
    Inv { state with
      channel := channel
      worker := update state.worker thread .sending } := by
  have outside := inv.workers thread
  rw [pcEq] at outside
  have outside : state.channel.producer thread = .idle := outside
  have entered := stepEq
  simp only [Channel.step, outside, inv.notClosed, Bool.false_eq_true, if_false,
    some.injEq] at entered
  have channelInv := inv.channel.step (by rw [← entered]; exact inv.channel.sentLt) stepEq
  subst entered
  refine inv.moveWorker [] channelInv
    ⟨rfl, fun other different => ?_, (List.append_nil _).symm, rfl, rfl⟩ ?_ ?_ trivial
  · simp [update_of_ne different]
  · rw [pcEq]
    rfl
  · simp only [update_self, pcEq]
    rfl

end Workers

/-! ## The event loop -/

section Process

variable [Fintype Sid] [Fintype Tid] {state : State Sid Tid}
  {channel : Channel.State 1 Completion Tid} {pc : DrainPc 1 Completion}

omit [Fintype Sid] in
/-- The steps of the consumer do not change where the items are. -/
theorem finished_consumer (pc : DrainPc 1 Completion) (same : SameProducers state.channel channel) :
    finished { state with
      channel := channel
      drain := pc } = finished state := by
  simp [finished, same.sent, same.producer]

variable (inv : Inv state)
include inv

/-- A step of the drain loop that delivers nothing. -/
theorem Inv.drain (channelInv : Channel.Inv channel)
    (same : SameProducers state.channel channel) (batching : Batching pc channel.consumer)
    (received : ∀ done, state.channel.received =
      done ++ undelivered state.drain state.channel.consumer →
      channel.received = done ++ undelivered pc channel.consumer) : Inv { state with
      channel := channel
      drain := pc } :=
  { inv with
    channel := channelInv
    notClosed := same.closed.trans inv.notClosed
    located := by
      rw [finished_consumer pc same]
      exact inv.located
    executedEq := by
      rw [finished_consumer pc same]
      exact inv.executedEq
    workers := by
      simp only [same.producer]
      exact inv.workers
    batching := batching
    deliveredEq := by
      obtain ⟨done, doneEq, receivedEq⟩ := inv.deliveredEq
      exact ⟨done, doneEq, received done receivedEq⟩
    pendingEq := by
      rw [finished_consumer pc same]
      exact inv.pendingEq }

/-- A step of the drain loop that delivers a completion. -/
theorem Inv.deliver {completion : Item 1 Completion} {next : State Sid Tid}
    (settled : state.settle = false) (channelInv : Channel.Inv channel)
    (same : SameProducers state.channel channel) (batching : Batching pc channel.consumer)
    (received : ∀ done, state.channel.received =
      done ++ undelivered state.drain state.channel.consumer →
      channel.received = done ++ [completion] ++ undelivered pc channel.consumer)
    (deliverEq : deliver { state with channel := channel, drain := pc } (itemOf completion) =
      some next) : Inv next := by
  obtain ⟨done, doneEq, receivedEq⟩ := inv.deliveredEq
  have receivedNext := received done receivedEq
  have sent : completion ∈ state.channel.sent := by
    rw [← same.sent]
    refine List.mem_of_mem_take (i := channel.chan.head) ?_
    rw [← channelInv.receivedEq, receivedNext]
    simp
  have recorded := inv.record_of_sent sent
  rw [WorkQueue.deliver, map_eq_some_iff] at deliverEq
  obtain ⟨work, workEq, rfl⟩ := deliverEq
  have immediate := inv.immediate work (List.mem_of_getElem? workEq)
  simp only [immediate, BitVec.lt_irrefl, if_false, inv.callback, ne_eq, inv.uncancelled,
    not_false_iff, and_self, if_true]
  exact { inv with
    channel := channelInv
    notClosed := same.closed.trans inv.notClosed
    callback := rfl
    located := by
      refine inv.located.trans ?_
      rw [← finished_consumer pc same]
      rfl
    executedEq := by
      refine inv.executedEq.trans ?_
      rw [← finished_consumer pc same]
      rfl
    workers := by
      simp only [same.producer]
      exact inv.workers
    batching := batching
    deliveredEq := by
      refine ⟨done ++ [completion], ?_, receivedNext⟩
      simp [doneEq]
    callsEq := by
      rw [List.map_append, inv.callsEq]
      rfl
    callsOwn := by
      intro call called
      rcases List.mem_append.mp called with old | new
      · exact inv.callsOwn call old
      · rw [List.mem_singleton.mp new]
        exact ⟨recorded, work, workEq, rfl⟩
    pendingEq := by
      have counted := inv.pendingEq
      rw [settled, ← finished_consumer pc same] at counted
      rw [List.length_append, BitVec.ofNat_add, ← add_assoc, counted,
        ← BitVec.ofNat_add]
      rfl }

theorem Inv.processStep [DecidableEq Tid] {memory : Item 1 Completion}
    {next : State Sid Tid} (stepEq : processStep memory state = some next) : Inv next := by
  rw [WorkQueue.processStep] at stepEq
  split at stepEq
  next settling =>
    cases stepEq
    exact { inv with
      pendingEq := by
        refine pending_balance 1 0 inv.pendingEq (by simp) ?_
        rw [settling]
        rfl }
  next settled =>
    obtain ⟨⟨channel, pc, completion⟩, drainEq, stepEq⟩ := bind_eq_some_iff.mp stepEq
    have facts : (Channel.Inv channel ∧ SameProducers state.channel channel) ∧
        Batching pc channel.consumer ∧ ∀ done, state.channel.received =
          done ++ undelivered state.drain state.channel.consumer →
          channel.received = done ++ completion.toList ++ undelivered pc channel.consumer := by
      split at drainEq
      next outside =>
        obtain ⟨rfl, same, batching, empty⟩ := startBatch_undelivered drainEq
        refine ⟨⟨inv.channel.startBatch drainEq, SameProducers.of_startBatch drainEq⟩, batching,
          fun done receivedEq => ?_⟩
        rw [empty, same, receivedEq, outside]
        simp [undelivered]
      · refine ⟨⟨inv.channel.drainStep drainEq, SameProducers.of_drainStep drainEq⟩, ?_,
          fun done receivedEq => ?_⟩
        · obtain ⟨done, -, receivedEq⟩ := inv.deliveredEq
          exact (drainStep_undelivered inv.batching receivedEq drainEq).1
        · exact (drainStep_undelivered inv.batching receivedEq drainEq).2
    obtain ⟨⟨channelInv, same⟩, batching, received⟩ := facts
    cases completion with
    | none =>
      cases stepEq
      exact inv.drain channelInv same batching (by simpa using received)
    | some completion =>
      exact inv.deliver (Bool.eq_false_iff.mpr settled) channelInv same batching received stepEq

end Process

end QDaemon.WorkQueue
