import Mathlib.Data.Fin.VecNotation
import QDaemon.Channel.Core
import QDaemon.Transition.Threads

/-!
# The channel is a lossless queue

The items are received in the order of their reservation.  The invariant says,
for every position between the head and the tail, who is responsible for it: the
consumer that has taken the item out of its slot, the producer that is still
writing it, or the slot itself, with its flag set and the whole item in it.
-/

namespace QDaemon.Channel

open Option List Function Bits Common Transition

universe u v

variable {n : Nat} {β : Type u} {Tid : Type v}

/-- The producer has reserved a position and not committed it yet. -/
def Writing (pc : ProducerPc n β) (i : Nat) : Prop :=
  match pc with
  | .write _ tail _ _ => tail = i
  | _ => False

/-- The consumer is copying the item of a position. -/
def Reading (pc : ConsumerPc n β) (i : Nat) : Prop :=
  match pc with
  | .recvCopy _ head _ => head = i
  | .batchCopy batch _ _ => batch.head + batch.got.length = i
  | _ => False

/-- The items the consumer has taken out of their slots and not handed over. -/
def taken : ConsumerPc n β → List (Item n β)
  | .recvPublish item _ => [item]
  | .batchSpin batch _ | .batchCheck batch | .batchCopy batch _ _ | .batchPublish batch =>
      batch.got
  | _ => []

/-- What a producer may rely on between two steps.  `fresh` is the first position
whose item is still in its slot. -/
def ProducerInv (chan : QdChannel n β) (sent : List (Item n β)) (fresh : Nat) :
    ProducerPc n β → Prop
  | .idle | .sendTail _ | .signal => True
  | .sendHead _ tail => tail < 2 ^ 64
  | .sendCas _ tail head => tail < 2 ^ 64 ∧ head ≤ chan.head ∧
      (tail + 2 ^ 64 - head) % 2 ^ 64 < chan.capacity
  | .write item tail _ copied => sent[tail]? = some item ∧ fresh ≤ tail ∧ tail < chan.tail ∧
      chan.committed (chan.slot tail) = false ∧
      ∀ k : Fin n, k.val < copied → chan.buffer (chan.slot tail) k = item k
  | _ => False

/-- The local variables of a batch agree with the channel. -/
def BatchInv (chan : QdChannel n β) (batch : Batch n β) : Prop :=
  batch.head = chan.head ∧ batch.head + batch.toRead ≤ chan.tail ∧
    batch.got.length ≤ batch.toRead

/-- What the consumer may rely on between two steps. -/
def ConsumerInv (chan : QdChannel n β) (sent : List (Item n β)) : ConsumerPc n β → Prop
  | .idle _ _ | .recvHead _ => True
  | .recvTail _ head => head = chan.head
  | .recvSpin _ head => head = chan.head ∧ head < chan.tail
  | .recvCopy memory head copied => (head = chan.head ∧ head < chan.tail) ∧
      chan.committed (chan.slot head) = true ∧
      ∃ item, sent[head]? = some item ∧ ∀ k : Fin n, k.val < copied → memory k = item k
  | .recvPublish _ head => head = chan.head ∧ head < chan.tail
  | .batchHead max _ => 0 < max
  | .batchTail max _ head => head = chan.head ∧ 0 < max
  | .batchSpin batch _ | .batchCheck batch =>
      BatchInv chan batch ∧ batch.got.length < batch.toRead
  | .batchCopy batch memory copied => (BatchInv chan batch ∧ batch.got.length < batch.toRead) ∧
      chan.committed (chan.slot (batch.head + batch.got.length)) = true ∧
      ∃ item, sent[batch.head + batch.got.length]? = some item ∧
        ∀ k : Fin n, k.val < copied → memory k = item k
  | .batchPublish batch => BatchInv chan batch ∧ batch.got ≠ []

/-- The channel invariant. -/
structure Inv (state : State n β Tid) : Prop where
  power : ∃ k, k ≤ 63 ∧ state.chan.capacity = 2 ^ k
  maskEq : state.chan.mask = state.chan.capacity - 1
  lossless : state.chan.overflow = false
  sentLt : state.sent.length < 2 ^ 64
  tailEq : state.chan.tail = state.sent.length
  freshLe : state.chan.head + (taken state.consumer).length ≤ state.chan.tail
  tailLe : state.chan.tail ≤ state.chan.head + state.chan.capacity
  receivedEq : state.received = state.sent.take state.chan.head
  takenPrefix : taken state.consumer <+: state.sent.drop state.chan.head
  stored : ∀ i, state.chan.head + (taken state.consumer).length ≤ i → i < state.chan.tail →
    (∃ thread, Writing (state.producer thread) i) ∨
      (state.chan.committed (state.chan.slot i) = true ∧
        state.sent[i]? = some (state.chan.buffer (state.chan.slot i)))
  cleared : ∀ i, state.chan.head ≤ i → i < state.chan.head + state.chan.capacity →
    i < state.chan.head + (taken state.consumer).length ∨ state.chan.tail ≤ i →
      state.chan.committed (state.chan.slot i) = false
  unique : ∀ first second i, Writing (state.producer first) i →
    Writing (state.producer second) i → first = second
  producers : ∀ thread, ProducerInv state.chan state.sent
    (state.chan.head + (taken state.consumer).length) (state.producer thread)
  consumerOk : ConsumerInv state.chan state.sent state.consumer

/-! ## Slots -/

section Slots

variable {state : State n β Tid}

section

variable (inv : Inv state)
variable {thread : Tid} {i : Nat}
include inv

theorem Inv.powerOfTwo : ∃ k, state.chan.capacity = 2 ^ k := by
  obtain ⟨k, -, equal⟩ := inv.power
  exact ⟨k, equal⟩

/-- Positions of one window have different slots. -/
theorem Inv.slot_ne {j : Nat} (less : i < j) (near : j < i + state.chan.capacity) :
    state.chan.slot i ≠ state.chan.slot j := by
  rw [QdChannel.slot, QdChannel.slot, inv.maskEq, land_pred_eq_mod inv.powerOfTwo,
    land_pred_eq_mod inv.powerOfTwo]
  exact mod_ne_of_lt less near

theorem Inv.slot_add_capacity (i : Nat) :
    state.chan.slot (i + state.chan.capacity) = state.chan.slot i := by
  rw [QdChannel.slot, QdChannel.slot, inv.maskEq, land_pred_eq_mod inv.powerOfTwo,
    land_pred_eq_mod inv.powerOfTwo, Nat.add_mod_right]

theorem Inv.slot_ne_of_ne {j : Nat} (different : i ≠ j) (iLow : state.chan.head ≤ i)
    (iHigh : i < state.chan.head + state.chan.capacity) (jLow : state.chan.head ≤ j)
    (jHigh : j < state.chan.head + state.chan.capacity) :
    state.chan.slot i ≠ state.chan.slot j := by
  rcases Nat.lt_or_gt_of_ne different with less | greater
  · exact inv.slot_ne less (by omega)
  · exact (inv.slot_ne greater (by omega)).symm

/-- Where a producer that is writing stands in the window. -/
theorem Inv.writing_facts (writing : Writing (state.producer thread) i) :
    state.chan.head + (taken state.consumer).length ≤ i ∧ i < state.chan.tail ∧
      state.chan.committed (state.chan.slot i) = false := by
  have facts := inv.producers thread
  cases pcEq : state.producer thread with
  | write item tail head copied =>
    rw [pcEq] at writing facts
    obtain rfl : tail = i := writing
    exact ⟨facts.2.1, facts.2.2.1, facts.2.2.2.1⟩
  | _ =>
    rw [pcEq] at writing
    cases writing

/-- A committed position holds its whole item. -/
theorem Inv.buffer_of_committed (low : state.chan.head + (taken state.consumer).length ≤ i)
    (high : i < state.chan.tail) (committed : state.chan.committed (state.chan.slot i) = true) :
    state.sent[i]? = some (state.chan.buffer (state.chan.slot i)) := by
  rcases inv.stored i low high with ⟨thread, writing⟩ | ⟨-, held⟩
  · have := (inv.writing_facts writing).2.2
    rw [committed] at this
    cases this
  · exact held

end

end Slots

variable {chan : QdChannel n β} {sent : List (Item n β)} {pc : ProducerPc n β}

/-- A producer is not disturbed by a step that keeps its slot and does not move
the counters back. -/
theorem ProducerInv.transfer {next : QdChannel n β} {nextSent : List (Item n β)}
    {fresh nextFresh : Nat} (old : ProducerInv chan sent fresh pc) (grown : sent <+: nextSent)
    (capacityEq : next.capacity = chan.capacity) (maskEq : next.mask = chan.mask)
    (headLe : chan.head ≤ next.head) (tailLe : chan.tail ≤ next.tail)
    (kept : ∀ i, Writing pc i → nextFresh ≤ i ∧ next.committed (chan.slot i) = false ∧
      next.buffer (chan.slot i) = chan.buffer (chan.slot i)) :
    ProducerInv next nextSent nextFresh pc := by
  obtain ⟨more, rfl⟩ := grown
  cases pc with
  | idle | sendTail item | signal => trivial
  | sendHead item tail => exact old
  | sendCas item tail head =>
    obtain ⟨small, le, room⟩ := old
    exact ⟨small, le.trans headLe, by rw [capacityEq]; exact room⟩
  | write item tail head copied =>
    obtain ⟨sentEq, -, below, -, written⟩ := old
    obtain ⟨low, flag, same⟩ := kept tail rfl
    have slotEq : next.slot tail = chan.slot tail := by
      rw [QdChannel.slot, QdChannel.slot, maskEq]
    refine ⟨?_, low, below.trans_le tailLe, by rw [slotEq]; exact flag, ?_⟩
    · rw [List.getElem?_append_left (List.getElem?_eq_some_iff.mp sentEq).choose]
      exact sentEq
    · intro k inside
      rw [slotEq, same]
      exact written k inside
  | _ => exact old.elim

/-- The consumer is not disturbed by a step that keeps the head and the flag it
relies on. -/
theorem ConsumerInv.transfer {next : QdChannel n β} {nextSent : List (Item n β)}
    {pc : ConsumerPc n β} (old : ConsumerInv chan sent pc) (grown : sent <+: nextSent)
    (maskEq : next.mask = chan.mask)
    (headEq : next.head = chan.head) (tailLe : chan.tail ≤ next.tail)
    (kept : ∀ i, Reading pc i → chan.committed (chan.slot i) = true →
      next.committed (chan.slot i) = true) : ConsumerInv next nextSent pc := by
  obtain ⟨more, rfl⟩ := grown
  have slotEq (i : Nat) : next.slot i = chan.slot i := by
    rw [QdChannel.slot, QdChannel.slot, maskEq]
  have still {i : Nat} {item : Item n β} (sentEq : sent[i]? = some item) :
      (sent ++ more)[i]? = some item := by
    rw [List.getElem?_append_left (List.getElem?_eq_some_iff.mp sentEq).choose]
    exact sentEq
  have batchOk {batch : Batch n β} (ok : BatchInv chan batch) : BatchInv next batch :=
    ⟨ok.1.trans headEq.symm, ok.2.1.trans tailLe, ok.2.2⟩
  cases pc with
  | idle result items | recvHead memory => trivial
  | recvTail memory head => exact Eq.trans old headEq.symm
  | recvSpin memory head | recvPublish item head =>
    exact ⟨old.1.trans headEq.symm, old.2.trans_le tailLe⟩
  | recvCopy memory head copied =>
    obtain ⟨⟨atHead, below⟩, flag, item, sentEq, read⟩ := old
    exact ⟨⟨atHead.trans headEq.symm, below.trans_le tailLe⟩,
      by rw [slotEq]; exact kept head rfl flag, item, still sentEq, read⟩
  | batchHead max memory => exact old
  | batchTail max memory head => exact ⟨old.1.trans headEq.symm, old.2⟩
  | batchSpin batch spins | batchCheck batch | batchPublish batch => exact ⟨batchOk old.1, old.2⟩
  | batchCopy batch memory copied =>
    obtain ⟨⟨ok, more⟩, flag, item, sentEq, read⟩ := old
    exact ⟨⟨batchOk ok, more⟩, by rw [slotEq]; exact kept _ rfl flag, item, still sentEq, read⟩

/-- Copying one more unit of the item in a slot. -/
theorem copied_succ {item memory : Item n β} {copied : Nat} (inside : copied < n)
    (read : ∀ k : Fin n, k.val < copied → memory k = item k) : ∀ k : Fin n, k.val < copied + 1 →
      update memory ⟨copied, inside⟩ (item ⟨copied, inside⟩) k = item k := by
  intro k below
  by_cases current : k = ⟨copied, inside⟩
  · subst current
    exact update_self _ _ _
  · rw [update_of_ne current]
    have : k.val ≠ copied := fun equal => current (Fin.ext equal)
    exact read k (by omega)

/-! ## Steps of a producer -/

section Producers

variable [DecidableEq Tid] {state : State n β Tid}

/-- A producer moves without holding a reservation. -/
theorem Inv.setProducer (inv : Inv state) (before : ∀ i, ¬ Writing (state.producer thread) i)
    (after : ∀ i, ¬ Writing pc i) (allowed : ProducerInv state.chan state.sent
      (state.chan.head + (taken state.consumer).length) pc) :
    Inv { state with producer := update state.producer thread pc } := by
  refine { inv with stored := ?_, unique := ?_, producers := ?_ }
  · intro i low high
    exact (inv.stored i low high).imp_left fun writing => exists_claim_update writing (before i)
  · exact claim_unique_update inv.unique fun other i mine _ => absurd mine (after i)
  · exact (forall_update_iff state.producer fun _ pc => ProducerInv _ _ _ pc).mpr
      ⟨allowed, fun other _ => inv.producers other⟩

variable {tail : Nat} {item : Item n β}

variable (inv : Inv state)
include inv

omit [DecidableEq Tid] in
/-- A snapshot of the head that shows room is of no harm when it is old. -/
theorem Inv.room_of_snapshot {head : Nat}
    (pcEq : state.producer thread = .sendCas item tail head) (tailIs : state.chan.tail = tail) :
    tail < state.chan.head + state.chan.capacity := by
  have facts := inv.producers thread
  rw [pcEq] at facts
  obtain ⟨-, headLe, room⟩ := facts
  have tailEq := inv.tailEq
  have sentLt := inv.sentLt
  omega

/-- Storing the next tail reserves a free slot. -/
theorem Inv.reserve (item : Item n β) (head : Nat)
    (notWriting : ∀ i, ¬ Writing (state.producer thread) i) (tailIs : state.chan.tail = tail)
    (free : tail < state.chan.head + state.chan.capacity) (bound : state.sent.length + 1 < 2 ^ 64) :
    Inv { state with
      chan := { state.chan with tail := (tail + 1) % 2 ^ 64 }
      producer := update state.producer thread (.write item tail head 0)
      sent := state.sent ++ [item] } := by
  have tailEq := inv.tailEq
  have freshLe := inv.freshLe
  rw [Nat.mod_eq_of_lt (by omega)]
  refine { inv with
    sentLt := ?_, tailEq := ?_, freshLe := ?_, tailLe := ?_, receivedEq := ?_, takenPrefix := ?_
    stored := ?_, cleared := ?_, unique := ?_, producers := ?_, consumerOk := ?_ }
  · simpa using bound
  · change tail + 1 = (state.sent ++ [item]).length
    rw [length_append, length_singleton]
    omega
  · change state.chan.head + (taken state.consumer).length ≤ tail + 1
    omega
  · change tail + 1 ≤ state.chan.head + state.chan.capacity
    omega
  · change state.received = (state.sent ++ [item]).take state.chan.head
    rw [take_append_of_le_length (by omega)]
    exact inv.receivedEq
  · change taken state.consumer <+: (state.sent ++ [item]).drop state.chan.head
    rw [drop_append_of_le_length (by omega)]
    exact inv.takenPrefix.trans (prefix_append _ _)
  · intro i low high
    change i < tail + 1 at high
    by_cases new : i = tail
    · subst new
      exact .inl ⟨thread, by simp [Writing]⟩
    · rcases inv.stored i low (by omega) with writing | ⟨flag, held⟩
      · exact .inl (exists_claim_update writing (notWriting i))
      · refine .inr ⟨flag, ?_⟩
        rw [List.getElem?_append_left (by omega)]
        exact held
  · intro i low high region
    change i < _ ∨ tail + 1 ≤ i at region
    exact inv.cleared i low high (region.imp_right (by omega))
  · refine claim_unique_update inv.unique ?_
    intro other i mine theirs
    obtain rfl : tail = i := mine
    have := (inv.writing_facts theirs).2.1
    omega
  · refine (forall_update_iff state.producer fun _ pc => ProducerInv _ _ _ pc).mpr ⟨?_, ?_⟩
    · refine ⟨?_, ?_, ?_, inv.cleared tail ?_ free (.inr tailIs.le), ?_⟩
      · rw [← tailIs, tailEq]
        simp
      · change state.chan.head + (taken state.consumer).length ≤ tail
        omega
      · change tail < tail + 1
        omega
      · omega
      · intro k inside
        omega
    · intro other _
      refine (inv.producers other).transfer (prefix_append _ _) rfl rfl le_rfl ?_ fun i writing => ?_
      · change state.chan.tail ≤ tail + 1
        omega
      · obtain ⟨low, -, flag⟩ := inv.writing_facts writing
        exact ⟨low, flag, rfl⟩
  · refine inv.consumerOk.transfer (prefix_append _ _) rfl rfl ?_ fun _ _ flag => flag
    change state.chan.tail ≤ tail + 1
    omega

omit [DecidableEq Tid] in
/-- Another writer's slot is not the one of this position. -/
theorem Inv.other_slot_ne {other : Tid} {j : Nat} (different : other ≠ thread)
    (mine : Writing (state.producer thread) i) (theirs : Writing (state.producer other) j) :
    state.chan.slot j ≠ state.chan.slot i := by
  have apart : j ≠ i := by
    rintro rfl
    exact different (inv.unique other thread j theirs mine)
  obtain ⟨iLow, iHigh, -⟩ := inv.writing_facts mine
  obtain ⟨jLow, jHigh, -⟩ := inv.writing_facts theirs
  have := inv.tailLe
  exact inv.slot_ne_of_ne apart (by omega) (by omega) (by omega) (by omega)

/-- A producer copies one unit into its slot. -/
theorem Inv.writeUnit {head copied : Nat}
    (pcEq : state.producer thread = .write item tail head copied) (inside : copied < n) :
    Inv { state with
      chan := state.chan.writeUnit tail ⟨copied, inside⟩ (item ⟨copied, inside⟩)
      producer := update state.producer thread (.write item tail head (copied + 1)) } := by
  have mine : Writing (state.producer thread) tail := by simp [pcEq, Writing]
  have facts := inv.producers thread
  rw [pcEq] at facts
  obtain ⟨sentEq, low, high, flag, written⟩ := facts
  refine { inv with stored := ?_, unique := ?_, producers := ?_, consumerOk := ?_ }
  · intro i iLow iHigh
    rcases inv.stored i iLow iHigh with writing | ⟨committed, held⟩
    · exact .inl (exists_claim_kept writing fun mine => by rwa [pcEq] at mine)
    · have elsewhere : state.chan.slot i ≠ state.chan.slot tail := by
        intro equal
        rw [equal, flag] at committed
        cases committed
      refine .inr ⟨committed, ?_⟩
      rw [QdChannel.writeUnit_slot, QdChannel.writeUnit_buffer_ne elsewhere]
      exact held
  · exact claim_unique_update inv.unique fun other i writes theirs =>
      inv.unique other thread i theirs (by rwa [pcEq])
  · refine (forall_update_iff state.producer fun _ pc => ProducerInv _ _ _ pc).mpr ⟨?_, ?_⟩
    · refine ⟨sentEq, low, high, flag, ?_⟩
      intro k below
      rw [QdChannel.writeUnit_slot, QdChannel.writeUnit_buffer_self]
      exact copied_succ inside written k below
    · intro other self
      refine (inv.producers other).transfer prefix_rfl rfl rfl le_rfl le_rfl fun i writing => ?_
      obtain ⟨iLow, -, iFlag⟩ := inv.writing_facts writing
      exact ⟨iLow, iFlag, QdChannel.writeUnit_buffer_ne (inv.other_slot_ne self mine writing) _ _⟩
  · exact inv.consumerOk.transfer prefix_rfl rfl rfl le_rfl fun _ _ flag => flag

/-- A producer that has copied its whole item sets the flag. -/
theorem Inv.commit {head copied : Nat}
    (pcEq : state.producer thread = .write item tail head copied) (whole : ¬ copied < n)
    (after : ∀ i, ¬ Writing pc i)
    (allowed : ∀ (chan : QdChannel n β) sent fresh, ProducerInv chan sent fresh pc) :
    Inv { state with
      chan := state.chan.setCommitted tail true
      producer := update state.producer thread pc } := by
  have mine : Writing (state.producer thread) tail := by simp [pcEq, Writing]
  have facts := inv.producers thread
  rw [pcEq] at facts
  obtain ⟨sentEq, low, high, -, written⟩ := facts
  have tailLe := inv.tailLe
  have bufferEq : state.chan.buffer (state.chan.slot tail) = item := by
    funext k
    exact written k (by omega)
  refine { inv with stored := ?_, cleared := ?_, unique := ?_, producers := ?_, consumerOk := ?_ }
  · intro i iLow iHigh
    by_cases current : i = tail
    · subst current
      refine .inr ⟨QdChannel.setCommitted_self _ _ _, ?_⟩
      rw [sentEq, ← bufferEq]
      rfl
    · rcases inv.stored i iLow iHigh with ⟨other, writing⟩ | ⟨flag, held⟩
      · have different : other ≠ thread := by
          rintro rfl
          rw [pcEq] at writing
          exact current (Eq.symm writing)
        exact .inl ⟨other, by simpa [different] using writing⟩
      · exact .inr ⟨QdChannel.setCommitted_of_eq flag, held⟩
  · intro i iLow iHigh region
    change i < state.chan.head + (taken state.consumer).length ∨ state.chan.tail ≤ i at region
    have apart : state.chan.slot i ≠ state.chan.slot tail :=
      inv.slot_ne_of_ne (by omega) iLow iHigh (by omega) (by omega)
    rw [QdChannel.setCommitted_slot, QdChannel.setCommitted_ne apart]
    exact inv.cleared i iLow iHigh region
  · exact claim_unique_update inv.unique fun other i mine _ => absurd mine (after i)
  · refine (forall_update_iff state.producer fun _ pc => ProducerInv _ _ _ pc).mpr ⟨allowed _ _ _, ?_⟩
    · intro other self
      refine (inv.producers other).transfer prefix_rfl rfl rfl le_rfl le_rfl fun i writing => ?_
      obtain ⟨iLow, -, iFlag⟩ := inv.writing_facts writing
      refine ⟨iLow, ?_, rfl⟩
      rw [QdChannel.setCommitted_ne (inv.other_slot_ne self mine writing)]
      exact iFlag
  · exact inv.consumerOk.transfer prefix_rfl rfl rfl le_rfl fun _ _ flag =>
      QdChannel.setCommitted_of_eq flag

omit [DecidableEq Tid] in
/-- The eventfd does not matter for the order of the items. -/
theorem Inv.setEventfd (counter : Nat) :
    Inv { state with chan := { state.chan with eventfd := counter } } :=
  { inv with
    producers := fun thread => (inv.producers thread).transfer prefix_rfl rfl rfl le_rfl
      le_rfl fun _ writing =>
        ⟨(inv.writing_facts writing).1, (inv.writing_facts writing).2.2, rfl⟩
    consumerOk := inv.consumerOk.transfer prefix_rfl rfl rfl le_rfl fun _ _ flag => flag }

/-- Every access of a producer keeps the invariant. -/
theorem Inv.producerStep {spurious : Bool} {lock : Option Tid} {items : List (Item n β)}
    (stepEq : producerStep thread spurious state.chan state.lock (state.producer thread) =
      some (chan, lock, pc, items)) (bound : (state.sent ++ items).length < 2 ^ 64) :
    Inv { state with
      chan := chan
      lock := lock
      producer := update state.producer thread pc
      sent := state.sent ++ items } := by
  have facts := inv.producers thread
  cases pcEq : state.producer thread with
      (rw [pcEq] at facts; simp only [Channel.producerStep, pcEq] at stepEq)
  | idle => cases stepEq
  | sendTail item =>
    cases stepEq
    have := inv.tailEq
    have := inv.sentLt
    rw [append_nil]
    exact inv.setProducer (by simp [pcEq, Writing]) (by simp [Writing])
      (show state.chan.tail < 2 ^ 64 by omega)
  | sendHead item tail =>
    simp only [inv.lossless] at stepEq
    split at stepEq <;> cases stepEq <;> rw [append_nil]
    · exact inv.setProducer (by simp [pcEq, Writing]) (by simp [Writing]) trivial
    next room =>
      exact inv.setProducer (by simp [pcEq, Writing]) (by simp [Writing])
        ⟨facts, le_rfl, Nat.lt_of_not_le room⟩
  | sendCas item tail head =>
    split at stepEq <;> cases stepEq
    next success =>
      exact inv.reserve item head (by simp [pcEq, Writing]) success.1
        (inv.room_of_snapshot pcEq success.1) (by simpa using bound)
    · rw [append_nil]
      exact inv.setProducer (by simp [pcEq, Writing]) (by simp [Writing]) trivial
  | write item tail head copied =>
    split at stepEq <;> cases stepEq <;> rw [append_nil]
    next inside => exact inv.writeUnit pcEq inside
    next whole =>
      split
      · exact inv.commit pcEq whole (by simp [Writing]) fun _ _ _ => trivial
      · exact inv.commit pcEq whole (by simp [Writing]) fun _ _ _ => trivial
  | signal =>
    cases stepEq
    rw [append_nil]
    have moved : Inv { state with producer := update state.producer thread .idle } :=
      inv.setProducer (by simp [pcEq, Writing]) (by simp [Writing]) trivial
    exact moved.setEventfd _
  | _ => exact facts.elim

end Producers

/-! ## Steps of the consumer -/

theorem consumerStep_words {next : QdChannel n β} {pc after : ConsumerPc n β}
    {items : List (Item n β)} (stepEq : consumerStep chan pc = some (next, after, items)) :
    next.tail = chan.tail ∧ next.capacity = chan.capacity ∧ next.closed = chan.closed := by
  cases pc with simp only [consumerStep] at stepEq
  | idle result items => cases stepEq
  | _ =>
    repeat' split at stepEq
    all_goals
      cases stepEq
      exact ⟨rfl, rfl, rfl⟩

section Consumer

variable {state : State n β Tid}

/-- The consumer moves without touching the channel. -/
theorem Inv.setConsumer (inv : Inv state) {old pc : ConsumerPc n β} (pcEq : state.consumer = old)
    (sameTaken : taken pc = taken old) (allowed : ConsumerInv state.chan state.sent pc) :
    Inv { state with consumer := pc } := by
  subst pcEq
  refine { inv with
    freshLe := ?_, takenPrefix := ?_, stored := ?_, cleared := ?_, producers := ?_
    consumerOk := allowed }
  · simpa [sameTaken] using inv.freshLe
  · simpa [sameTaken] using inv.takenPrefix
  · simpa [sameTaken] using inv.stored
  · simpa [sameTaken] using inv.cleared
  · simpa [sameTaken] using inv.producers

theorem prefix_snoc {α : Type u} {short long : List α} {last : α} (below : short <+: long)
    (next : long[short.length]? = some last) : short ++ [last] <+: long := by
  obtain ⟨rest, rfl⟩ := below
  cases rest with
  | nil => simp at next
  | cons first rest =>
    have : first = last := by simpa using next
    subst this
    exact ⟨rest, by simp⟩

variable {item : Item n β}

/-- The consumer clears the flag of the item it has copied. -/
theorem Inv.clear (inv : Inv state) {pc : ConsumerPc n β}
    (fresh : i = state.chan.head + (taken state.consumer).length) (below : i < state.chan.tail)
    (flag : state.chan.committed (state.chan.slot i) = true) (sentEq : state.sent[i]? = some item)
    (takenEq : taken pc = taken state.consumer ++ [item])
    (allowed : ConsumerInv (state.chan.setCommitted i false) state.sent pc) : Inv { state with
      chan := state.chan.setCommitted i false
      consumer := pc } := by
  have tailLe := inv.tailLe
  have length : (taken pc).length = (taken state.consumer).length + 1 := by simp [takenEq]
  refine { inv with
    freshLe := ?_, takenPrefix := ?_, stored := ?_, cleared := ?_, producers := ?_
    consumerOk := allowed }
  · change state.chan.head + (taken pc).length ≤ state.chan.tail
    omega
  · change taken pc <+: state.sent.drop state.chan.head
    rw [takenEq]
    refine prefix_snoc inv.takenPrefix ?_
    rw [List.getElem?_drop, ← fresh]
    exact sentEq
  · intro j low high
    change state.chan.head + (taken pc).length ≤ j at low
    change j < state.chan.tail at high
    have apart : state.chan.slot j ≠ state.chan.slot i :=
      inv.slot_ne_of_ne (by omega) (by omega) (by omega) (by omega) (by omega)
    rcases inv.stored j (by omega) high with writing | ⟨committed, held⟩
    · exact .inl writing
    · refine .inr ⟨?_, held⟩
      rw [QdChannel.setCommitted_slot, QdChannel.setCommitted_ne apart]
      exact committed
  · intro j low high region
    change j < state.chan.head + (taken pc).length ∨ state.chan.tail ≤ j at region
    by_cases current : j = i
    · subst current
      exact QdChannel.setCommitted_self _ _ _
    · exact QdChannel.setCommitted_of_eq (inv.cleared j low high (by omega))
  · intro thread
    refine (inv.producers thread).transfer prefix_rfl rfl rfl le_rfl le_rfl
      fun j writing => ?_
    obtain ⟨low, -, notYet⟩ := inv.writing_facts writing
    have apart : j ≠ i := by
      rintro rfl
      rw [flag] at notYet
      cases notYet
    refine ⟨?_, QdChannel.setCommitted_of_eq notYet, rfl⟩
    change state.chan.head + (taken pc).length ≤ j
    omega

/-- The consumer publishes the head past the items it has taken and hands them
over. -/
theorem Inv.publish (inv : Inv state) (result : Int) {head : Nat}
    (headIs : head = state.chan.head) : Inv { state with
      chan := { state.chan with head := (head + (taken state.consumer).length) % 2 ^ 64 }
      consumer := .idle result (taken state.consumer)
      received := state.received ++ taken state.consumer } := by
  subst headIs
  have freshLe := inv.freshLe
  have tailLe := inv.tailLe
  have tailEq := inv.tailEq
  have sentLt := inv.sentLt
  rw [Nat.mod_eq_of_lt (by omega)]
  refine { inv with
    freshLe := ?_
    tailLe := ?_
    receivedEq := ?_
    takenPrefix := nil_prefix
    cleared := ?_
    producers := ?_
    consumerOk := trivial }
  · exact freshLe
  · change state.chan.tail ≤ state.chan.head + (taken state.consumer).length + state.chan.capacity
    omega
  · change state.received ++ taken state.consumer =
      state.sent.take (state.chan.head + (taken state.consumer).length)
    rw [take_add, ← prefix_iff_eq_take.mp inv.takenPrefix, inv.receivedEq]
  · intro i low high region
    change state.chan.head + (taken state.consumer).length ≤ i at low
    change i < state.chan.head + (taken state.consumer).length + state.chan.capacity at high
    change i < state.chan.head + (taken state.consumer).length + 0 ∨ state.chan.tail ≤ i at region
    change state.chan.committed (state.chan.slot i) = false
    by_cases wrapped : i < state.chan.head + state.chan.capacity
    · exact inv.cleared i (by omega) wrapped (by omega)
    · -- the slot of a position one lap later is the one just taken
      obtain ⟨j, rfl⟩ := Nat.exists_eq_add_of_le' (show state.chan.capacity ≤ i by omega)
      rw [inv.slot_add_capacity]
      exact inv.cleared j (by omega) (by omega) (by omega)
  · intro thread
    refine (inv.producers thread).transfer prefix_rfl rfl rfl ?_ le_rfl fun j writing => ?_
    · change state.chan.head ≤ state.chan.head + (taken state.consumer).length
      omega
    · obtain ⟨low, -, notYet⟩ := inv.writing_facts writing
      exact ⟨low, notYet, rfl⟩

theorem taken_batchStop (batch : Batch n β) : taken (batchStop batch) = batch.got := by
  rw [batchStop]
  split
  next empty => exact (length_eq_zero_iff.mp empty).symm
  · rfl

theorem taken_batchNext (batch : Batch n β) : taken (batchNext batch) = batch.got := by
  rw [batchNext]
  split
  · rfl
  · exact taken_batchStop batch

theorem consumerInv_batchStop {batch : Batch n β} (ok : BatchInv chan batch) :
    ConsumerInv chan sent (batchStop batch) := by
  rw [batchStop]
  split
  · trivial
  next some => exact ⟨ok, fun nil => some (by rw [nil, length_nil])⟩

theorem consumerInv_batchNext {batch : Batch n β} (ok : BatchInv chan batch) :
    ConsumerInv chan sent (batchNext batch) := by
  rw [batchNext]
  split
  next more => exact ⟨ok, more⟩
  · exact consumerInv_batchStop ok

/-- The item of the first position in the slots, once its flag is set. -/
theorem Inv.fresh_item (inv : Inv state)
    (fresh : i = state.chan.head + (taken state.consumer).length) (below : i < state.chan.tail)
    (flag : state.chan.committed (state.chan.slot i) = true) (sentEq : state.sent[i]? = some item) :
    state.chan.buffer (state.chan.slot i) = item := by
  have held := inv.buffer_of_committed fresh.ge below flag
  rw [sentEq] at held
  exact (some.inj held).symm

/-- Every access of the consumer keeps the invariant. -/
theorem Inv.consumerStep (inv : Inv state) {pc : ConsumerPc n β} {items : List (Item n β)}
    (stepEq : consumerStep state.chan state.consumer = some (chan, pc, items)) : Inv { state with
      chan := chan
      consumer := pc
      received := state.received ++ items } := by
  have facts := inv.consumerOk
  cases pcEq : state.consumer with
      (rw [pcEq] at facts; simp only [Channel.consumerStep, pcEq] at stepEq)
  | idle result items => cases stepEq
  | recvHead memory =>
    cases stepEq
    rw [append_nil]
    exact inv.setConsumer pcEq rfl rfl
  | recvTail memory head =>
    split at stepEq <;> cases stepEq <;> rw [append_nil]
    · exact inv.setConsumer pcEq rfl trivial
    next nonempty =>
      exact inv.setConsumer pcEq rfl ⟨facts, Nat.lt_of_not_le nonempty⟩
  | recvSpin memory head =>
    split at stepEq <;> cases stepEq <;> rw [append_nil]
    next flag =>
      have held := inv.buffer_of_committed (by simp [pcEq, taken, facts.1]) facts.2 flag
      exact inv.setConsumer pcEq rfl ⟨facts, flag, _, held, by simp⟩
    · exact inv.setConsumer pcEq rfl facts
  | recvCopy memory head copied =>
    obtain ⟨⟨atHead, below⟩, flag, item, sentEq, read⟩ := facts
    have fresh : head = state.chan.head + (taken state.consumer).length := by
      simp [pcEq, taken, atHead]
    split at stepEq <;> cases stepEq <;> rw [append_nil]
    next inside =>
      rw [inv.fresh_item fresh below flag sentEq]
      exact inv.setConsumer pcEq rfl
        ⟨⟨atHead, below⟩, flag, item, sentEq, copied_succ inside read⟩
    next whole =>
      have memoryEq : memory = item := funext fun k => read k (by omega)
      subst memoryEq
      exact inv.clear fresh below flag sentEq (by simp [pcEq, taken]) ⟨atHead, below⟩
  | recvPublish item head =>
    cases stepEq
    have published := inv.publish qdOk facts.1
    simpa [pcEq, taken] using published
  | batchHead max memory =>
    cases stepEq
    rw [append_nil]
    exact inv.setConsumer pcEq rfl ⟨rfl, facts⟩
  | batchTail max memory head =>
    split at stepEq <;> cases stepEq <;> rw [append_nil]
    · exact inv.setConsumer pcEq rfl trivial
    next nonempty =>
      refine inv.setConsumer pcEq (taken_batchNext ..)
        (consumerInv_batchNext ⟨facts.1, ?_, Nat.zero_le _⟩)
      change head + (if state.chan.tail - head < max then state.chan.tail - head else max) ≤
        state.chan.tail
      split <;> omega
  | batchSpin batch spins =>
    split at stepEq
    · cases stepEq
      rw [append_nil]
      exact inv.setConsumer pcEq rfl facts
    · split at stepEq <;> cases stepEq <;>
        rw [append_nil] <;>
        exact inv.setConsumer pcEq rfl facts
  | batchCheck batch =>
    split at stepEq <;> cases stepEq <;> rw [append_nil]
    next flag =>
      obtain ⟨⟨atHead, fits, -⟩, more⟩ := facts
      have held := inv.buffer_of_committed
        (by simp [pcEq, taken, atHead]) (by omega) flag
      exact inv.setConsumer pcEq rfl
        ⟨⟨⟨atHead, fits, more.le⟩, more⟩, flag, _, held, by simp⟩
    · exact inv.setConsumer pcEq (taken_batchStop ..) (consumerInv_batchStop facts.1)
  | batchCopy batch memory copied =>
    obtain ⟨⟨ok, more⟩, flag, item, sentEq, read⟩ := facts
    obtain ⟨atHead, fits, -⟩ := ok
    have fresh : batch.head + batch.got.length =
        state.chan.head + (taken state.consumer).length := by
      simp [pcEq, taken, atHead]
    have below : batch.head + batch.got.length < state.chan.tail := by omega
    split at stepEq <;> cases stepEq <;> rw [append_nil]
    next inside =>
      rw [inv.fresh_item fresh below flag sentEq]
      exact inv.setConsumer pcEq rfl
        ⟨⟨⟨atHead, fits, more.le⟩, more⟩, flag, item, sentEq, copied_succ inside read⟩
    next whole =>
      have memoryEq : memory = item := funext fun k => read k (by omega)
      subst memoryEq
      refine inv.clear fresh below flag sentEq (by rw [taken_batchNext, pcEq]; rfl)
        (consumerInv_batchNext ⟨atHead, fits, ?_⟩)
      simpa using Nat.succ_le_of_lt more
  | batchPublish batch =>
    cases stepEq
    have published := inv.publish batch.got.length facts.1.1
    simpa [pcEq, taken] using published

end Consumer

/-! ## Runs -/

section Runs

variable [DecidableEq Tid]

/-- Only a reservation adds to the order of the items. -/
theorem step_sent_length {state next : State n β Tid} {label : Label n β Tid}
    (stepEq : step state label = some next) : state.sent.length ≤ next.sent.length := by
  cases label with simp only [step] at stepEq
  | trySend thread item | tryRecv memory =>
    split at stepEq
    · split at stepEq <;> cases stepEq <;> exact le_rfl
    · cases stepEq
  | producer thread spurious =>
    obtain ⟨⟨chan, lock, pc, items⟩, -, rfl⟩ := map_eq_some_iff.mp stepEq
    simp
  | tryRecvBatch max memory =>
    split at stepEq
    · split at stepEq
      · cases stepEq
        exact le_rfl
      · split at stepEq <;> cases stepEq <;> exact le_rfl
    · cases stepEq
  | consumer =>
    obtain ⟨⟨chan, pc, items⟩, -, rfl⟩ := map_eq_some_iff.mp stepEq
    exact le_rfl

theorem Inv.step {state next : State n β Tid} {label : Label n β Tid} (inv : Inv state)
    (bound : next.sent.length < 2 ^ 64) (stepEq : step state label = some next) : Inv next := by
  cases label with simp only [Channel.step] at stepEq
  | trySend thread item =>
    split at stepEq
    next pcEq =>
      split at stepEq <;> cases stepEq
      · exact inv
      · exact inv.setProducer (by simp [pcEq, Writing]) (by simp [Writing]) trivial
    · cases stepEq
  | producer thread spurious =>
    obtain ⟨⟨chan, lock, pc, items⟩, producerEq, rfl⟩ := map_eq_some_iff.mp stepEq
    exact inv.producerStep producerEq bound
  | tryRecv memory =>
    split at stepEq
    next pcEq =>
      split at stepEq <;> cases stepEq <;>
        exact inv.setConsumer pcEq rfl trivial
    · cases stepEq
  | tryRecvBatch max memory =>
    split at stepEq
    next pcEq =>
      split at stepEq
      · cases stepEq
        exact inv.setConsumer pcEq rfl trivial
      next positive =>
        split at stepEq <;> cases stepEq
        · exact inv.setConsumer pcEq rfl trivial
        · exact inv.setConsumer pcEq rfl (Nat.pos_of_ne_zero positive)
    · cases stepEq
  | consumer =>
    obtain ⟨⟨chan, pc, items⟩, consumerEq, rfl⟩ := map_eq_some_iff.mp stepEq
    exact inv.consumerStep consumerEq

variable {capacity : BitVec 64}

/-- Every capacity the constructor produces is a power of two. -/
theorem roundedCapacity_power (nonzero : roundedCapacity capacity ≠ 0) :
    ∃ k, k ≤ 63 ∧ roundedCapacity capacity = 2 ^ k := by
  rw [roundedCapacity] at nonzero ⊢
  split
  · exact ⟨10, by omega, rfl⟩
  next requested =>
    rw [if_neg requested] at nonzero
    have positive : 1 ≤ capacity.toNat := by
      rw [Nat.one_le_iff_ne_zero]
      exact fun zero => requested (BitVec.eq_of_toNat_eq zero)
    by_cases small : capacity.toNat ≤ 2 ^ 63
    · exact ⟨(capacity.toNat - 1).size, size_pred_le small, roundUpPow2_eq positive small⟩
    · exact absurd (roundUpPow2_eq_zero (by omega) capacity.isLt) nonzero

omit [DecidableEq Tid] in
theorem initial_inv {memory : Nat → Item n β} (nonzero : roundedCapacity capacity ≠ 0) :
    Inv (State.initial (fresh (roundedCapacity capacity) false memory) : State n β Tid) := by
  have power := roundedCapacity_power nonzero
  exact {
    power := power
    maskEq := rfl
    lossless := rfl
    sentLt := Nat.two_pow_pos 64
    tailEq := rfl
    freshLe := le_rfl
    tailLe := Nat.zero_le _
    receivedEq := rfl
    takenPrefix := nil_prefix
    stored := fun i _ high => absurd high (Nat.not_lt_zero i)
    cleared := fun _ _ _ _ => rfl
    unique := fun _ _ _ writing _ => absurd writing (by simp [State.initial, Writing])
    producers := fun _ => trivial
    consumerOk := trivial }

/-- A producer sends an item of two units through a channel of one slot, and the
consumer receives it in a batch. -/
def oneItem : List (Label 2 Nat Bool) :=
  [.trySend true ![5, 6], .producer true false, .producer true false, .tryRecvBatch 4 ![0, 0],
    .producer true false, .consumer, .consumer, .producer true false, .consumer,
    .producer true false, .producer true false, .consumer, .consumer, .consumer, .consumer,
    .consumer, .consumer]

end Runs

end QDaemon.Channel
