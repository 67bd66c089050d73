import QDaemon.Channel.Correctness

/-!
# The channel in overflow mode

In overflow mode a producer that finds the channel full takes the lock, drops
the oldest item and writes its own without a reservation.  The branch is an
instance of the lossless protocol if its accesses are not interleaved with those
they compete with: the drop is then a receive whose item is thrown away, and the
locked write is a reservation whose tail is stored late.

`lossless` is that reading of a state.  The invariant of the lossless channel
holds of it in every run that keeps the drop apart from the consumer and from the
writer of the oldest item, and the locked section apart from reservations.
-/

namespace QDaemon.Channel

open Bits Common Transition

universe u v

variable {n : Nat} {β : Type u} {Tid : Type v}

/-! ## The locked section -/

/-- The producer holds the lock. -/
def InLock : ProducerPc n β → Prop
  | .lockedTail _ | .lockedHead _ _ | .lockedClear _ _ _ | .lockedAdvance _ _ _
  | .lockedWrite _ _ _ _ | .lockedPublish _ _ _ | .unlock _ => True
  | _ => False

/-- The producer has loaded the tail under the lock and not stored it yet. -/
def Claiming : ProducerPc n β → Prop
  | .lockedHead _ _ | .lockedClear _ _ _ | .lockedAdvance _ _ _ | .lockedWrite _ _ _ _
  | .lockedPublish _ _ _ => True
  | _ => False

/-- The producer has found the channel full under the lock and not advanced the
head yet. -/
def Dropping : ProducerPc n β → Prop
  | .lockedClear _ _ _ | .lockedAdvance _ _ _ => True
  | _ => False

/-- The consumer is between two calls. -/
def Outside : ConsumerPc n β → Prop
  | .idle _ _ => True
  | _ => False

instance InLock.decidable (pc : ProducerPc n β) : Decidable (InLock pc) := by
  rcases pc with _ | _ <;> unfold InLock <;> infer_instance

instance Claiming.decidable (pc : ProducerPc n β) : Decidable (Claiming pc) := by
  rcases pc with _ | _ <;> unfold Claiming <;> infer_instance

instance Dropping.decidable (pc : ProducerPc n β) : Decidable (Dropping pc) := by
  rcases pc with _ | _ <;> unfold Dropping <;> infer_instance

instance Writing.decidable (pc : ProducerPc n β) (i : Nat) : Decidable (Writing pc i) := by
  rcases pc with _ | _ <;> unfold Writing <;> infer_instance

instance Outside.decidable (pc : ConsumerPc n β) : Decidable (Outside pc) := by
  rcases pc with _ | _ <;> unfold Outside <;> infer_instance

variable {pc : ProducerPc n β}
variable {thread : Tid}

theorem Claiming.inLock (claiming : Claiming pc) : InLock pc := by
  cases pc <;> trivial

theorem taken_of_outside {pc : ConsumerPc n β} (outside : Outside pc) : taken pc = [] := by
  cases pc with
  | idle result items => rfl
  | _ => exact outside.elim

/-- No step of the overflow branch is interleaved with an access it competes
with.  No reservation succeeds while a producer is between its load and its store
of the tail under the lock; a producer that finds the channel full under the lock
does so while the consumer is outside and the oldest item is written; and no
receive starts before the drop is complete.  The counters do not wrap. -/
def Exclusive (state : State n β Tid) (label : Label n β Tid) : Prop :=
  state.sent.length + 1 < 2 ^ 64 ∧
  match label with
  | .producer thread spurious =>
      match state.producer thread with
      | .sendCas _ tail _ => state.chan.tail = tail → spurious = false →
          ∀ other, ¬ Claiming (state.producer other)
      | .lockedHead _ tail =>
          state.chan.capacity ≤ (tail + 2 ^ 64 - state.chan.head) % 2 ^ 64 →
            Outside state.consumer ∧ ∀ other, ¬ Writing (state.producer other) state.chan.head
      | _ => True
  | .tryRecv _ | .tryRecvBatch _ _ => ∀ thread, ¬ Dropping (state.producer thread)
  | _ => True

instance Exclusive.decidable [Fintype Tid] (state : State n β Tid) (label : Label n β Tid) :
    Decidable (Exclusive state label) := by
  unfold Exclusive
  repeat' split
  all_goals infer_instance

/-! ## The lossless reading of a state -/

/-- The program counter of the lossless protocol that a producer has reached. -/
def seenPc : ProducerPc n β → ProducerPc n β
  | .lock item | .lockedTail item | .lockedHead item _ | .lockedClear item _ _
  | .lockedAdvance item _ _ => .sendTail item
  | .lockedWrite item tail head copied => .write item tail head copied
  | .lockedPublish _ _ _ | .unlock _ => .idle
  | pc => pc

/-- The item that has a slot although the tail is not stored yet. -/
def early : ProducerPc n β → List (Item n β)
  | .lockedWrite item _ _ _ | .lockedPublish item _ _ => [item]
  | _ => []

@[simp]
theorem early_lockedWrite (item : Item n β) (tail head copied : Nat) :
    early (.lockedWrite item tail head copied) = [item] := rfl

/-- The oldest item has lost its flag although the head is not advanced yet. -/
def half : ProducerPc n β → Nat
  | .lockedAdvance _ _ _ => 1
  | _ => 0

/-- Where the holder of the lock stands. -/
def holderOf (lock : Option Tid) (producer : Tid → ProducerPc n β) : ProducerPc n β :=
  match lock with
  | some thread => producer thread
  | none => .idle

def State.holder (state : State n β Tid) : ProducerPc n β :=
  holderOf state.lock state.producer

/-- The counters as the lossless protocol sees them. -/
def seenChan (holder : ProducerPc n β) (chan : QdChannel n β) : QdChannel n β :=
  { chan with
    overflow := false
    head := chan.head + half holder
    tail := chan.tail + (early holder).length }

/-- The state as the lossless protocol sees it: a dropped item counts as
received. -/
def lossless (state : State n β Tid) : State n β Tid where
  chan := seenChan state.holder state.chan
  lock := none
  producer := seenPc ∘ state.producer
  consumer := state.consumer
  sent := state.sent ++ early state.holder
  received := (state.sent ++ early state.holder).take (state.chan.head + half state.holder)

theorem seenPc_of_not_inLock (outer : ¬ InLock pc) {i : Nat} :
    Writing (seenPc pc) i ↔ Writing pc i := by
  cases pc <;> first | exact Iff.rfl | exact absurd trivial outer

theorem early_eq_nil (idle : ¬ Claiming pc) : early pc = [] := by
  cases pc <;> first | rfl | exact absurd trivial idle

theorem half_eq_zero (idle : ¬ Dropping pc) : half pc = 0 := by
  cases pc <;> first | rfl | exact absurd trivial idle

/-- The lossless invariant reads neither the lock nor, beyond its own equation,
the received items. -/
theorem Inv.congr {state next : State n β Tid} (inv : Inv state) (chanEq : next.chan = state.chan)
    (producerEq : next.producer = state.producer) (consumerEq : next.consumer = state.consumer)
    (sentEq : next.sent = state.sent)
    (receivedEq : next.received = next.sent.take next.chan.head) : Inv next := by
  cases state
  cases next
  subst chanEq producerEq consumerEq sentEq
  exact { inv with receivedEq := receivedEq }

/-- Dropping the oldest item is receiving it and throwing it away. -/
theorem Inv.drop {state : State n β Tid} (inv : Inv state) (outside : Outside state.consumer)
    (nonempty : state.chan.head < state.chan.tail)
    (flag : state.chan.committed (state.chan.slot state.chan.head) = true) : Inv { state with
      chan := { state.chan.setCommitted state.chan.head false with head := state.chan.head + 1 }
      received := state.sent.take (state.chan.head + 1) } := by
  cases pcEq : state.consumer with
  | idle result items =>
    have none : taken state.consumer = [] := by rw [pcEq]; rfl
    have held := inv.buffer_of_committed (by simp [none]) nonempty flag
    have copied : Inv { state with
        consumer := .recvCopy (state.chan.buffer (state.chan.slot state.chan.head))
          state.chan.head n } :=
      inv.setConsumer rfl none.symm ⟨⟨rfl, nonempty⟩, flag, _, held, fun _ _ => rfl⟩
    have cleared : Inv { state with
        chan := state.chan.setCommitted state.chan.head false
        consumer := .recvPublish (state.chan.buffer (state.chan.slot state.chan.head))
          state.chan.head } :=
      copied.clear rfl nonempty flag held rfl ⟨rfl, nonempty⟩
    have published := cleared.publish qdOk rfl
    have outside : Inv { state with
        chan := { state.chan.setCommitted state.chan.head false with
          head := (state.chan.head + 1) % 2 ^ 64 }
        consumer := .idle result items
        received := state.received ++ [state.chan.buffer (state.chan.slot state.chan.head)] } :=
      published.setConsumer rfl rfl trivial
    have small : state.chan.head + 1 < 2 ^ 64 := by
      have := inv.tailEq
      have := inv.sentLt
      omega
    refine outside.congr ?_ rfl rfl rfl rfl
    rw [Nat.mod_eq_of_lt small]
  | _ =>
    rw [pcEq] at outside
    exact outside.elim

/-! ## The invariant -/

/-- The last position, plus one, that the consumer may read after its load of the
tail. -/
def limit : ConsumerPc n β → Nat
  | .recvSpin _ head | .recvCopy _ head _ | .recvPublish _ head => head + 1
  | .batchSpin batch _ | .batchCheck batch | .batchCopy batch _ _ | .batchPublish batch =>
      batch.head + batch.toRead
  | _ => 0

/-- What the holder of the lock may rely on between two steps. -/
def LockedInv (chan : QdChannel n β) (consumer : ConsumerPc n β) : ProducerPc n β → Prop
  | .lockedHead _ tail | .lockedWrite _ tail _ _ | .lockedPublish _ tail _ => tail = chan.tail
  | .lockedClear _ tail head => (tail = chan.tail ∧ head = chan.head ∧ head < tail) ∧
      Outside consumer ∧ chan.committed (chan.slot head) = true
  | .lockedAdvance _ tail head => (tail = chan.tail ∧ head = chan.head ∧ head < tail) ∧
      Outside consumer ∧ tail ≤ head + chan.capacity
  | _ => True

/-- The invariant of the channel in overflow mode. -/
structure DropInv (state : State n β Tid) : Prop where
  seen : Inv (lossless state)
  mutex : ∀ thread, InLock (state.producer thread) ↔ state.lock = some thread
  locked : ∀ thread, LockedInv state.chan state.consumer (state.producer thread)
  receivedSub : state.received.Sublist (state.sent.take state.chan.head)
  headLe : state.chan.head + half state.holder ≤ state.chan.tail
  limitLe : limit state.consumer ≤ state.chan.tail
  notClosed : state.chan.closed = false

theorem lockedInv_of_not_claiming {chan : QdChannel n β} {consumer : ConsumerPc n β}
    (idle : ¬ Claiming pc) : LockedInv chan consumer pc := by
  cases pc <;> first | trivial | exact absurd trivial idle

/-- The holder of the lock is not disturbed by a step that keeps the tail, and
during a drop the head, the flag and the absence of the consumer. -/
theorem LockedInv.transfer {chan next : QdChannel n β} {consumer after : ConsumerPc n β} (old : LockedInv chan consumer pc)
    (tailEq : Claiming pc → next.tail = chan.tail) (capacityEq : next.capacity = chan.capacity)
    (dropEq : Dropping pc → next.head = chan.head ∧ (Outside consumer → Outside after) ∧
      ∀ i, chan.committed (chan.slot i) = true → next.committed (next.slot i) = true) :
    LockedInv next after pc := by
  cases pc with
  | lockedHead item tail | lockedWrite item tail head copied | lockedPublish item tail head =>
    exact Eq.trans old (tailEq trivial).symm
  | lockedClear item tail head =>
    obtain ⟨⟨tailIs, headIs, below⟩, outside, flag⟩ := old
    obtain ⟨headEq, stay, flags⟩ := dropEq trivial
    exact ⟨⟨tailIs.trans (tailEq trivial).symm, headIs.trans headEq.symm, below⟩, stay outside,
      flags head flag⟩
  | lockedAdvance item tail head =>
    obtain ⟨⟨tailIs, headIs, below⟩, outside, fits⟩ := old
    obtain ⟨headEq, stay, -⟩ := dropEq trivial
    exact ⟨⟨tailIs.trans (tailEq trivial).symm, headIs.trans headEq.symm, below⟩, stay outside,
      by rw [capacityEq]; exact fits⟩
  | _ => trivial

section Holder

variable {state : State n β Tid}

section

variable (inv : DropInv state)
include inv

theorem DropInv.tailEq : state.chan.tail = state.sent.length := by
  have := inv.seen.tailEq
  change state.chan.tail + (early state.holder).length =
    (state.sent ++ early state.holder).length at this
  rw [List.length_append] at this
  exact Nat.add_right_cancel this

theorem DropInv.holder_of_inLock (inside : InLock (state.producer thread)) :
    state.holder = state.producer thread := by
  rw [State.holder, (inv.mutex thread).mp inside]
  rfl

/-- What is known of a producer inside the locked section. -/
theorem DropInv.holding (pcEq : state.producer thread = pc)
    (inside : InLock pc) : InLock (state.producer thread) ∧ state.holder = pc ∧
      LockedInv state.chan state.consumer pc := by
  subst pcEq
  exact ⟨inside, inv.holder_of_inLock inside, inv.locked thread⟩

theorem DropInv.not_inLock_of_ne {other : Tid}
    (inside : InLock (state.producer thread)) (different : other ≠ thread) :
    ¬ InLock (state.producer other) := by
  intro also
  have equal := (inv.mutex other).mp also
  rw [(inv.mutex thread).mp inside] at equal
  exact different (Option.some.inj equal).symm

end

/-- A property that implies holding the lock and holds for no producer does not
hold for the holder. -/
theorem holder_of_forall {holds : ProducerPc n β → Prop} (idle : ¬ holds .idle)
    (nobody : ∀ thread, ¬ holds (state.producer thread)) : ¬ holds state.holder := by
  rw [State.holder]
  cases state.lock with
  | none => exact idle
  | some thread => exact nobody thread

variable [DecidableEq Tid]

theorem holder_update_of_not_inLock (inv : DropInv state)
    (outer : ¬ InLock (state.producer thread)) (pc : ProducerPc n β) :
    holderOf state.lock (Function.update state.producer thread pc) = state.holder := by
  rw [State.holder]
  cases lockEq : state.lock with
  | none => rfl
  | some holder =>
    have different : holder ≠ thread := by
      rintro rfl
      exact outer ((inv.mutex holder).mpr lockEq)
    exact Function.update_of_ne different _ _

end Holder

end QDaemon.Channel
