import QDaemon.Channel.Correctness

/-!
# Draining a channel

The loop of `drain_channel_completions`: receive a batch and deliver its items;
when there is nothing to receive, acknowledge the eventfd, look at the size and
stop if the channel is empty.  The loop runs on top of the channel's own steps,
one access at a time, so that producers can move between any two of them.
-/

namespace QDaemon.Channel

open Option Transition

universe u v

variable {n : Nat} {β : Type u} {Tid : Type v}

/-- Where the consumer stands in `drain_channel_completions`: outside, inside
`qd_channel_try_recv_batch`, delivering the items of a batch, reading the eventfd
in `qd_channel_ack`, or loading the tail or the head in `qd_channel_size`. -/
inductive DrainPc (n : Nat) (β : Type u)
  | outside
  | batch
  | deliver (items : List (Item n β))
  | ack
  | sizeTail
  | sizeHead (tail : Nat)
  deriving DecidableEq

/-- `QD_WQ_BATCH`. -/
def batchSize : Nat := 128

/-- The result of `qd_channel_size`: a 64-bit difference converted to `int`. -/
def channelSize (tail head : Nat) : Int :=
  (((tail + 2 ^ 64 - head) % 2 ^ 64 : Nat) : Int).bmod (2 ^ 32)

variable [DecidableEq Tid]

/-- Call `qd_channel_try_recv_batch`; `memory` is what the result array holds. -/
def startBatch (memory : Item n β) (state : State n β Tid) :
    Option (State n β Tid × DrainPc n β × Option (Item n β)) :=
  (step state (.tryRecvBatch batchSize memory)).map fun next => (next, .batch, none)

/-- The next access of the loop, with the item it delivers, if any. -/
def drainStep (memory : Item n β) (state : State n β Tid) :
    DrainPc n β → Option (State n β Tid × DrainPc n β × Option (Item n β))
  | .outside => none
  | .batch =>
      match state.consumer with
      | .idle result items =>
          if result ≤ 0 then some (state, .ack, none) else some (state, .deliver items, none)
      | _ => (step state .consumer).map fun next => (next, .batch, none)
  | .deliver [] => startBatch memory state
  | .deliver (item :: rest) => some (state, .deliver rest, some item)
  | .ack =>
      if state.chan.eventfd = 0 then some (state, .sizeTail, none)
      else some ({ state with chan := { state.chan with eventfd := 0 } }, .ack, none)
  | .sizeTail => some (state, .sizeHead state.chan.tail, none)
  | .sizeHead tail =>
      if channelSize tail state.chan.head = 0 then some (state, .outside, none)
      else startBatch memory state

/-- What a step of the consumer leaves alone: the producers, the order of the
items, the tail, the capacity and the closed flag. -/
structure SameProducers (state next : State n β Tid) : Prop where
  sent : next.sent = state.sent
  producer : next.producer = state.producer
  tail : next.chan.tail = state.chan.tail
  capacity : next.chan.capacity = state.chan.capacity
  closed : next.chan.closed = state.chan.closed

variable {state next : State n β Tid}

theorem sameProducers_of_consumer (stepEq : step state .consumer = some next) :
    SameProducers state next := by
  obtain ⟨⟨chan, pc, items⟩, consumerEq, rfl⟩ := map_eq_some_iff.mp stepEq
  obtain ⟨tail, capacity, closed⟩ := consumerStep_words consumerEq
  exact ⟨rfl, rfl, tail, capacity, closed⟩

variable {memory : Item n β}

theorem sameProducers_of_tryRecvBatch {max : Nat}
    (stepEq : step state (.tryRecvBatch max memory) = some next) :
    SameProducers state next ∧ next.chan = state.chan := by
  simp only [step] at stepEq
  split at stepEq
  · split at stepEq
    · cases stepEq
      exact ⟨⟨rfl, rfl, rfl, rfl, rfl⟩, rfl⟩
    · split at stepEq <;> cases stepEq <;>
        exact ⟨⟨rfl, rfl, rfl, rfl, rfl⟩, rfl⟩
  · cases stepEq

variable {item : Option (Item n β)} {pc : DrainPc n β}

theorem startBatch_spec (stepEq : startBatch memory state = some (next, pc, item)) :
    pc = .batch ∧ item = none ∧ step state (.tryRecvBatch batchSize memory) = some next := by
  rw [startBatch, map_eq_some_iff] at stepEq
  obtain ⟨reached, reachedEq, equal⟩ := stepEq
  cases equal
  exact ⟨rfl, rfl, reachedEq⟩

variable {nextPc : DrainPc n β}

section

variable (stepEq : drainStep memory state pc = some (next, nextPc, item))
include stepEq

/-- The loop only takes steps of the channel's consumer and clears the
eventfd. -/
theorem drainStep_cases : next = state ∨ (pc = .batch ∧ step state .consumer = some next) ∨
      (nextPc = .batch ∧ step state (.tryRecvBatch batchSize memory) = some next) ∨
      (pc = .ack ∧ nextPc = .ack ∧
        next = { state with chan := { state.chan with eventfd := 0 } }) := by
  cases pc with simp only [drainStep] at stepEq
  | outside => cases stepEq
  | batch =>
    split at stepEq
    · split at stepEq <;> simp only [some.injEq, Prod.mk.injEq] at stepEq <;>
        exact .inl stepEq.1.symm
    · obtain ⟨reached, reachedEq, equal⟩ := map_eq_some_iff.mp stepEq
      cases equal
      exact .inr (.inl ⟨rfl, reachedEq⟩)
  | deliver items =>
    cases items with
    | nil =>
      obtain ⟨pcEq, -, started⟩ := startBatch_spec stepEq
      exact .inr (.inr (.inl ⟨pcEq, started⟩))
    | cons first rest =>
      simp only [some.injEq, Prod.mk.injEq] at stepEq
      exact .inl stepEq.1.symm
  | ack =>
    split at stepEq <;> simp only [some.injEq, Prod.mk.injEq] at stepEq
    · exact .inl stepEq.1.symm
    · obtain ⟨rfl, rfl, -⟩ := stepEq
      exact .inr (.inr (.inr ⟨rfl, rfl, rfl⟩))
  | sizeTail =>
    simp only [some.injEq, Prod.mk.injEq] at stepEq
    exact .inl stepEq.1.symm
  | sizeHead tail =>
    split at stepEq
    · simp only [some.injEq, Prod.mk.injEq] at stepEq
      exact .inl stepEq.1.symm
    · obtain ⟨pcEq, -, started⟩ := startBatch_spec stepEq
      exact .inr (.inr (.inl ⟨pcEq, started⟩))

omit stepEq in
theorem SameProducers.of_startBatch (stepEq : startBatch memory state = some (next, pc, item)) :
    SameProducers state next :=
  (sameProducers_of_tryRecvBatch (startBatch_spec stepEq).2.2).1

theorem SameProducers.of_drainStep : SameProducers state next := by
  rcases drainStep_cases stepEq with rfl | ⟨-, consumed⟩ | ⟨-, started⟩ | ⟨-, -, rfl⟩
  · exact ⟨rfl, rfl, rfl, rfl, rfl⟩
  · exact sameProducers_of_consumer consumed
  · exact (sameProducers_of_tryRecvBatch started).1
  · exact ⟨rfl, rfl, rfl, rfl, rfl⟩

end

theorem Inv.startBatch (inv : Inv state)
    (stepEq : startBatch memory state = some (next, pc, item)) : Inv next := by
  have same := SameProducers.of_startBatch stepEq
  exact inv.step (by rw [same.sent]; exact inv.sentLt) (startBatch_spec stepEq).2.2

/-- A step of the loop keeps the channel's invariant. -/
theorem Inv.drainStep (inv : Inv state)
    (stepEq : drainStep memory state pc = some (next, nextPc, item)) : Inv next := by
  have bound : next.sent.length < 2 ^ 64 := by
    rw [(SameProducers.of_drainStep stepEq).sent]
    exact inv.sentLt
  rcases drainStep_cases stepEq with rfl | ⟨-, consumed⟩ | ⟨-, started⟩ | ⟨-, -, rfl⟩
  · exact inv
  · exact inv.step bound consumed
  · exact inv.step bound started
  · exact inv.setEventfd 0

/-! ## Delivery -/

/-- The consumer of a draining loop is inside a batch receive, or outside of any
operation; a batch receive that returns no positive count returns no items. -/
def Batching : DrainPc n β → ConsumerPc n β → Prop
  | .batch, .idle result items => result ≤ 0 → items = []
  | .batch, .batchHead _ _ => True
  | .batch, .batchTail _ _ _ => True
  | .batch, .batchSpin _ _ => True
  | .batch, .batchCheck _ => True
  | .batch, .batchCopy _ _ _ => True
  | .batch, .batchPublish _ => True
  | .batch, _ => False
  | _, .idle _ _ => True
  | _, _ => False

/-- The items that the loop has received and not delivered yet. -/
def undelivered : DrainPc n β → ConsumerPc n β → List (Item n β)
  | .deliver items, _ => items
  | .batch, .idle _ items => items
  | _, _ => []

theorem batching_batchStop (batch : Batch n β) :
    Batching .batch (batchStop batch) ∧ undelivered .batch (batchStop batch) = [] := by
  rw [batchStop]
  split
  · exact ⟨fun _ => rfl, rfl⟩
  · exact ⟨trivial, rfl⟩

theorem batching_batchNext (batch : Batch n β) :
    Batching .batch (batchNext batch) ∧ undelivered .batch (batchNext batch) = [] := by
  rw [batchNext]
  split
  · exact ⟨trivial, rfl⟩
  · exact batching_batchStop batch

/-- A step inside a batch receive hands over exactly the items it returns. -/
theorem consumerStep_undelivered {chan next : QdChannel n β} {pc nextPc : ConsumerPc n β}
    {items : List (Item n β)} (batching : Batching .batch pc)
    (stepEq : consumerStep chan pc = some (next, nextPc, items)) :
    undelivered .batch pc = [] ∧ Batching .batch nextPc ∧ undelivered .batch nextPc = items := by
  cases pc with simp only [consumerStep] at stepEq
  | idle result items => cases stepEq
  | batchPublish batch =>
    cases stepEq
    refine ⟨rfl, fun count => ?_, rfl⟩
    exact List.length_eq_zero_iff.mp (by omega)
  | batchHead max memory =>
    cases stepEq
    exact ⟨rfl, trivial, rfl⟩
  | batchTail max memory head =>
    split at stepEq <;> cases stepEq
    · exact ⟨rfl, fun _ => rfl, rfl⟩
    · exact ⟨rfl, batching_batchNext _⟩
  | batchSpin batch spins =>
    repeat' split at stepEq
    all_goals
      cases stepEq
      exact ⟨rfl, trivial, rfl⟩
  | batchCheck batch =>
    split at stepEq <;> cases stepEq
    · exact ⟨rfl, trivial, rfl⟩
    · exact ⟨rfl, batching_batchStop _⟩
  | batchCopy batch memory copied =>
    split at stepEq <;> cases stepEq
    · exact ⟨rfl, trivial, rfl⟩
    · exact ⟨rfl, batching_batchNext _⟩
  | _ => exact batching.elim

theorem startBatch_undelivered (stepEq : startBatch memory state = some (next, pc, item)) :
    item = none ∧ next.received = state.received ∧ Batching pc next.consumer ∧
      undelivered pc next.consumer = [] := by
  obtain ⟨rfl, rfl, started⟩ := startBatch_spec stepEq
  simp only [step] at started
  split at started
  · split at started
    · cases started
      exact ⟨rfl, rfl, fun _ => rfl, rfl⟩
    · split at started <;> cases started
      · exact ⟨rfl, rfl, fun _ => rfl, rfl⟩
      · exact ⟨rfl, rfl, trivial, rfl⟩
  · cases started

/-- Between two batch receives the consumer is outside of any operation. -/
theorem Batching.congr {consumer : ConsumerPc n β} (batching : Batching pc consumer)
    (notBatch : pc ≠ .batch) (notNext : nextPc ≠ .batch) : Batching nextPc consumer := by
  cases consumer <;> cases pc <;> cases nextPc <;> trivial

/-- The loop delivers the received items in order: if `done` were delivered
before the step, then `done` and the item of the step are delivered after it. -/
theorem drainStep_undelivered {done : List (Item n β)} (batching : Batching pc state.consumer)
    (doneEq : state.received = done ++ undelivered pc state.consumer)
    (stepEq : drainStep memory state pc = some (next, nextPc, item)) :
    Batching nextPc next.consumer ∧
      next.received = (done ++ item.toList) ++ undelivered nextPc next.consumer := by
  have started (empty : undelivered pc state.consumer = [])
      (startEq : startBatch memory state = some (next, nextPc, item)) :
      Batching nextPc next.consumer ∧
        next.received = (done ++ item.toList) ++ undelivered nextPc next.consumer := by
    obtain ⟨rfl, same, nextBatching, none⟩ := startBatch_undelivered startEq
    rw [none, same, doneEq, empty]
    exact ⟨nextBatching, by simp⟩
  cases pc with simp only [drainStep] at stepEq
  | outside => cases stepEq
  | batch =>
    split at stepEq
    next result items consumerEq =>
      rw [consumerEq] at batching doneEq
      split at stepEq <;> cases stepEq <;> rw [consumerEq]
      next nothing =>
        obtain rfl : items = [] := batching nothing
        exact ⟨trivial, by simpa [undelivered] using doneEq⟩
      · exact ⟨trivial, by simpa [undelivered] using doneEq⟩
    · obtain ⟨reached, reachedEq, equal⟩ := map_eq_some_iff.mp stepEq
      cases equal
      obtain ⟨⟨chan, pc, items⟩, consumerEq, rfl⟩ := map_eq_some_iff.mp reachedEq
      obtain ⟨none, nextBatching, handed⟩ := consumerStep_undelivered batching consumerEq
      rw [none] at doneEq
      exact ⟨nextBatching, by simp [handed, doneEq]⟩
  | deliver items =>
    cases items with
    | nil => exact started rfl stepEq
    | cons first rest =>
      cases stepEq
      exact ⟨batching.congr (by simp) (by simp), by simpa [undelivered] using doneEq⟩
  | ack =>
    split at stepEq <;> cases stepEq <;>
      exact ⟨batching.congr (by simp) (by simp), by simpa [undelivered] using doneEq⟩
  | sizeTail =>
    cases stepEq
    exact ⟨batching.congr (by simp) (by simp), by simpa [undelivered] using doneEq⟩
  | sizeHead tail =>
    split at stepEq
    · cases stepEq
      exact ⟨batching.congr (by simp) (by simp), by simpa [undelivered] using doneEq⟩
    · exact started rfl stepEq

end QDaemon.Channel
