import Mathlib.Data.Fintype.Basic
import QDaemon.Common
import QDaemon.Transition.Run

/-!
# The bounded channel

A channel is a ring of slots with a commit flag per slot.  A producer reserves
a slot with a compare-and-swap on the tail, copies its item into it and sets the
flag; the single consumer waits for the flag, copies the item out, clears the
flag and publishes the head, once per item or once per batch.

Each step of the model is one load, store, compare-and-swap, eventfd operation
or the copy of one unit of an item, under sequential consistency.  An item
consists of `n` units.
-/

namespace QDaemon.Channel

open Function Common Transition

universe u v

/-- An item, unit by unit. -/
abbrev Item (n : Nat) (β : Type u) := Fin n → β

/-- `struct qd_channel`.  The flag `overflow` is `QD_CHAN_OVERFLOW`. -/
structure QdChannel (n : Nat) (β : Type u) where
  buffer : Nat → Item n β
  capacity : Nat
  mask : Nat
  head : Nat
  tail : Nat
  committed : Nat → Bool
  eventfd : Nat
  overflow : Bool
  closed : Bool

variable {n : Nat} {β : Type u} {Tid : Type v}

/-- The capacity that `qd_channel_create` computes for a request. -/
def roundedCapacity (capacity : BitVec 64) : Nat :=
  if capacity = 0 then 1024 else roundUpPow2 capacity.toNat

/-- The channel that `qd_channel_create` sets up; `memory` is what its buffer
happens to hold. -/
def fresh (capacity : Nat) (overflow : Bool) (memory : Nat → Item n β) : QdChannel n β where
  buffer := memory
  capacity := capacity
  mask := capacity - 1
  head := 0
  tail := 0
  committed _ := false
  eventfd := 0
  overflow := overflow
  closed := false

/-- `qd_channel_create`.  The size of the buffer is computed modulo `2 ^ 64`, and
no memory is returned for an empty one. -/
def channelCreate (capacity : BitVec 64) (overflow : Bool) (memory : Nat → Item n β) :
    Option (QdChannel n β) :=
  if n = 0 then none
  else if roundedCapacity capacity * n % 2 ^ 64 = 0 then none
  else some (fresh (roundedCapacity capacity) overflow memory)

variable {chan : QdChannel n β}
variable {pos i : Nat}

theorem channelCreate_eq_some {capacity : BitVec 64} {overflow : Bool} {memory : Nat → Item n β}
    (created : channelCreate capacity overflow memory = some chan) :
    roundedCapacity capacity ≠ 0 ∧ chan = fresh (roundedCapacity capacity) overflow memory := by
  rw [channelCreate] at created
  split at created
  · cases created
  split at created
  · cases created
  next allocated =>
    refine ⟨fun zero => ?_, (Option.some.inj created).symm⟩
    rw [zero, Nat.zero_mul] at allocated
    exact allocated rfl

namespace QdChannel

/-- The slot of a position. -/
def slot (chan : QdChannel n β) (pos : Nat) : Nat :=
  pos &&& chan.mask

/-- Copy one unit of an item into the slot of a position. -/
def writeUnit (chan : QdChannel n β) (pos : Nat) (k : Fin n) (value : β) : QdChannel n β :=
  { chan with
    buffer := update chan.buffer (chan.slot pos)
      (update (chan.buffer (chan.slot pos)) k value) }

@[simp]
theorem writeUnit_slot (chan : QdChannel n β) (pos i : Nat) (k : Fin n) (value : β) :
    (chan.writeUnit pos k value).slot i = chan.slot i := rfl

theorem writeUnit_buffer_self (chan : QdChannel n β) (pos : Nat) (k : Fin n) (value : β) :
    (chan.writeUnit pos k value).buffer (chan.slot pos) =
      update (chan.buffer (chan.slot pos)) k value :=
  update_self _ _ _

theorem writeUnit_buffer_ne (different : chan.slot i ≠ chan.slot pos) (k : Fin n) (value : β) :
    (chan.writeUnit pos k value).buffer (chan.slot i) = chan.buffer (chan.slot i) :=
  update_of_ne different _ _

/-- Store the commit flag of a position. -/
def setCommitted (chan : QdChannel n β) (pos : Nat) (flag : Bool) : QdChannel n β :=
  { chan with committed := update chan.committed (chan.slot pos) flag }

@[simp]
theorem setCommitted_slot (chan : QdChannel n β) (pos i : Nat) (flag : Bool) :
    (chan.setCommitted pos flag).slot i = chan.slot i := rfl

theorem setCommitted_self (chan : QdChannel n β) (pos : Nat) (flag : Bool) :
    (chan.setCommitted pos flag).committed (chan.slot pos) = flag :=
  update_self _ _ _

theorem setCommitted_ne (different : chan.slot i ≠ chan.slot pos) (flag : Bool) :
    (chan.setCommitted pos flag).committed (chan.slot i) = chan.committed (chan.slot i) :=
  update_of_ne different _ _

/-- A flag that has the stored value already keeps it. -/
theorem setCommitted_of_eq {flag : Bool} (already : chan.committed (chan.slot i) = flag) :
    (chan.setCommitted pos flag).committed (chan.slot i) = flag := by
  by_cases same : chan.slot i = chan.slot pos
  · rw [same, setCommitted_self]
  · rw [setCommitted_ne same, already]

/-- `signal_event`: a write to a non-blocking eventfd, lost when the counter is
at its limit. -/
def signalEvent (chan : QdChannel n β) : QdChannel n β :=
  { chan with eventfd := if chan.eventfd + 1 ≤ 2 ^ 64 - 2 then chan.eventfd + 1 else chan.eventfd }

end QdChannel

/-! ## Producers -/

/-- Where a producer stands in `qd_channel_try_send`.  The constructors are named
after the access that comes next; those that start with `locked` belong to the
overflow branch. -/
inductive ProducerPc (n : Nat) (β : Type u)
  | idle
  | sendTail (item : Item n β)
  | sendHead (item : Item n β) (tail : Nat)
  | sendCas (item : Item n β) (tail head : Nat)
  | write (item : Item n β) (tail head : Nat) (copied : Nat)
  | signal
  | lock (item : Item n β)
  | lockedTail (item : Item n β)
  | lockedHead (item : Item n β) (tail : Nat)
  | lockedClear (item : Item n β) (tail head : Nat)
  | lockedAdvance (item : Item n β) (tail head : Nat)
  | lockedWrite (item : Item n β) (tail head : Nat) (copied : Nat)
  | lockedPublish (item : Item n β) (tail head : Nat)
  | unlock (wasEmpty : Bool)
  deriving DecidableEq

/-- A producer's next access: the channel, the holder of its lock, the next
program counter and the item the step appends to the channel's order, if any.
`spurious` makes the weak compare-and-swap fail although the tail has the
expected value. -/
def producerStep [DecidableEq Tid] (thread : Tid) (spurious : Bool) (chan : QdChannel n β)
    (lock : Option Tid) : ProducerPc n β →
      Option (QdChannel n β × Option Tid × ProducerPc n β × List (Item n β))
  | .idle => none
  | .sendTail item => some (chan, lock, .sendHead item chan.tail, [])
  | .sendHead item tail =>
      let count := (tail + 2 ^ 64 - chan.head) % 2 ^ 64
      if chan.capacity ≤ count then
        if chan.overflow then some (chan, lock, .lock item, [])
        else some (chan, lock, .idle, [])
      else some (chan, lock, .sendCas item tail chan.head, [])
  | .sendCas item tail head =>
      if chan.tail = tail ∧ spurious = false then
        some ({ chan with tail := (tail + 1) % 2 ^ 64 }, lock, .write item tail head 0, [item])
      else some (chan, lock, .sendTail item, [])
  | .write item tail head copied =>
      if inside : copied < n then
        some (chan.writeUnit tail ⟨copied, inside⟩ (item ⟨copied, inside⟩), lock,
          .write item tail head (copied + 1), [])
      else some (chan.setCommitted tail true, lock, if tail = head then .signal else .idle, [])
  | .signal => some (chan.signalEvent, lock, .idle, [])
  | .lock item =>
      match lock with
      | none => some (chan, some thread, .lockedTail item, [])
      | some _ => none
  | .lockedTail item => some (chan, lock, .lockedHead item chan.tail, [])
  | .lockedHead item tail =>
      if chan.capacity ≤ (tail + 2 ^ 64 - chan.head) % 2 ^ 64 then
        some (chan, lock, .lockedClear item tail chan.head, [])
      else some (chan, lock, .lockedWrite item tail chan.head 0, [])
  | .lockedClear item tail head =>
      some (chan.setCommitted head false, lock, .lockedAdvance item tail head, [])
  | .lockedAdvance item tail head =>
      some ({ chan with head := (chan.head + 1) % 2 ^ 64 }, lock, .lockedWrite item tail head 0, [])
  | .lockedWrite item tail head copied =>
      if inside : copied < n then
        some (chan.writeUnit tail ⟨copied, inside⟩ (item ⟨copied, inside⟩), lock,
          .lockedWrite item tail head (copied + 1), [])
      else some (chan.setCommitted tail true, lock, .lockedPublish item tail head, [])
  | .lockedPublish item tail head =>
      some ({ chan with tail := (tail + 1) % 2 ^ 64 }, lock, .unlock (tail = head), [item])
  | .unlock wasEmpty => some (chan, none, if wasEmpty then .signal else .idle, [])

/-! ## The consumer -/

/-- The local variables of `qd_channel_try_recv_batch`: the head it read, how
many items it will read, the items read so far, and what the caller's memory
holds beyond them. -/
structure Batch (n : Nat) (β : Type u) where
  head : Nat
  toRead : Nat
  got : List (Item n β)
  memory : Item n β
  deriving DecidableEq

/-- Where the consumer stands in `qd_channel_try_recv` or
`qd_channel_try_recv_batch`.  Outside it keeps what the last call returned and
the items it delivered. -/
inductive ConsumerPc (n : Nat) (β : Type u)
  | idle (result : Int) (items : List (Item n β))
  | recvHead (memory : Item n β)
  | recvTail (memory : Item n β) (head : Nat)
  | recvSpin (memory : Item n β) (head : Nat)
  | recvCopy (memory : Item n β) (head : Nat) (copied : Nat)
  | recvPublish (item : Item n β) (head : Nat)
  | batchHead (max : Nat) (memory : Item n β)
  | batchTail (max : Nat) (memory : Item n β) (head : Nat)
  | batchSpin (batch : Batch n β) (spins : Nat)
  | batchCheck (batch : Batch n β)
  | batchCopy (batch : Batch n β) (memory : Item n β) (copied : Nat)
  | batchPublish (batch : Batch n β)
  deriving DecidableEq

/-- The end of the batch loop: the head is published once, if anything was
read. -/
def batchStop (batch : Batch n β) : ConsumerPc n β :=
  if batch.got.length = 0 then .idle 0 [] else .batchPublish batch

/-- The batch loop between two items: the next slot, or the end. -/
def batchNext (batch : Batch n β) : ConsumerPc n β :=
  if batch.got.length < batch.toRead then .batchSpin batch 0 else batchStop batch

/-- The consumer's next access: the channel, the next program counter and the
items it hands to its caller. -/
def consumerStep (chan : QdChannel n β) :
    ConsumerPc n β → Option (QdChannel n β × ConsumerPc n β × List (Item n β))
  | .idle _ _ => none
  | .recvHead memory => some (chan, .recvTail memory chan.head, [])
  | .recvTail memory head =>
      if chan.tail ≤ head then some (chan, .idle qdErrAgain [], [])
      else some (chan, .recvSpin memory head, [])
  | .recvSpin memory head =>
      if chan.committed (chan.slot head) then some (chan, .recvCopy memory head 0, [])
      else some (chan, .recvSpin memory head, [])
  | .recvCopy memory head copied =>
      if inside : copied < n then
        some (chan, .recvCopy (update memory ⟨copied, inside⟩
          (chan.buffer (chan.slot head) ⟨copied, inside⟩)) head (copied + 1), [])
      else some (chan.setCommitted head false, .recvPublish memory head, [])
  | .recvPublish item head =>
      some ({ chan with head := (head + 1) % 2 ^ 64 }, .idle qdOk [item], [item])
  | .batchHead max memory => some (chan, .batchTail max memory chan.head, [])
  | .batchTail max memory head =>
      if chan.tail ≤ head then some (chan, .idle 0 [], [])
      else
        let available := chan.tail - head
        let toRead := if available < max then available else max
        some (chan, batchNext ⟨head, toRead, [], memory⟩, [])
  | .batchSpin batch spins =>
      if chan.committed (chan.slot (batch.head + batch.got.length)) then
        some (chan, .batchCheck batch, [])
      else if 10000 < spins + 1 then some (chan, .batchCheck batch, [])
      else some (chan, .batchSpin batch (spins + 1), [])
  | .batchCheck batch =>
      if chan.committed (chan.slot (batch.head + batch.got.length)) then
        some (chan, .batchCopy batch batch.memory 0, [])
      else some (chan, batchStop batch, [])
  | .batchCopy batch memory copied =>
      if inside : copied < n then
        some (chan, .batchCopy batch (update memory ⟨copied, inside⟩
          (chan.buffer (chan.slot (batch.head + batch.got.length)) ⟨copied, inside⟩))
          (copied + 1), [])
      else
        some (chan.setCommitted (batch.head + batch.got.length) false,
          batchNext { batch with got := batch.got ++ [memory] }, [])
  | .batchPublish batch =>
      some ({ chan with head := (batch.head + batch.got.length) % 2 ^ 64 },
        .idle batch.got.length batch.got, batch.got)

/-! ## The system -/

/-- The channel, its threads, the items in the order of their reservation, and
the items handed to the consumer. -/
structure State (n : Nat) (β : Type u) (Tid : Type v) where
  chan : QdChannel n β
  lock : Option Tid
  producer : Tid → ProducerPc n β
  consumer : ConsumerPc n β
  sent : List (Item n β)
  received : List (Item n β)

/-- A channel with nobody inside. -/
def State.initial (chan : QdChannel n β) : State n β Tid :=
  ⟨chan, none, fun _ => .idle, .idle qdOk [], [], []⟩

/-- A producer or the consumer enters an operation or takes its next step.
`memory` is what the consumer's buffer holds before the call. -/
inductive Label (n : Nat) (β : Type u) (Tid : Type v)
  | trySend (thread : Tid) (item : Item n β)
  | producer (thread : Tid) (spurious : Bool)
  | tryRecv (memory : Item n β)
  | tryRecvBatch (max : Nat) (memory : Item n β)
  | consumer

variable [DecidableEq Tid]

/-- The step relation.  Entering an operation is its load of `closed`. -/
def step (state : State n β Tid) : Label n β Tid → Option (State n β Tid)
  | .trySend thread item =>
      match state.producer thread with
      | .idle =>
          if state.chan.closed then some state
          else some { state with
            producer := update state.producer thread (.sendTail item) }
      | _ => none
  | .producer thread spurious =>
      (producerStep thread spurious state.chan state.lock (state.producer thread)).map
        fun (chan, lock, pc, items) => { state with
          chan := chan
          lock := lock
          producer := update state.producer thread pc
          sent := state.sent ++ items }
  | .tryRecv memory =>
      match state.consumer with
      | .idle _ _ =>
          if state.chan.closed then some { state with consumer := .idle qdErrIo [] }
          else some { state with consumer := .recvHead memory }
      | _ => none
  | .tryRecvBatch max memory =>
      match state.consumer with
      | .idle _ _ =>
          if max = 0 then some { state with consumer := .idle qdErrInval [] }
          else if state.chan.closed then some { state with consumer := .idle qdErrIo [] }
          else some { state with consumer := .batchHead max memory }
      | _ => none
  | .consumer =>
      (consumerStep state.chan state.consumer).map fun (chan, pc, items) => { state with
        chan := chan
        consumer := pc
        received := state.received ++ items }

end QDaemon.Channel
