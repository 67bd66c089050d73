import QDaemon.Channel.Drain

/-!
# Waking the consumer of a channel

The consumer sleeps until the eventfd is readable and then drains the channel.
A producer signals only if the head it loaded before its reservation equals its
position, that is, if the channel looked empty to it.  When the consumer has
moved the head in between, the reservation fills an empty channel in silence.
-/

namespace QDaemon.Channel

open Option Function Common Transition

universe u v

/-- A channel whose consumer waits for the eventfd and drains. -/
structure Waiter (n : Nat) (β : Type u) (Tid : Type v) where
  channel : State n β Tid
  drain : DrainPc n β

variable {n : Nat} {β : Type u} {Tid : Type v}

/-- The consumer waits, and nobody is sending. -/
def Waiter.initial (chan : QdChannel n β) : Waiter n β Tid :=
  ⟨State.initial chan, .outside⟩

/-- A producer enters `qd_channel_try_send` or moves on, or the consumer does. -/
inductive WaiterLabel (n : Nat) (β : Type u) (Tid : Type v)
  | trySend (thread : Tid) (item : Item n β)
  | producer (thread : Tid) (spurious : Bool)
  | consumer (memory : Item n β)

/-- The consumer is asleep, or has loaded the tail of an empty channel as the
last thing before it falls asleep. -/
def Parked (state : Waiter n β Tid) : Prop :=
  match state.drain with
  | .outside => True
  | .sizeHead tail => tail = state.channel.chan.head
  | _ => False

instance (state : Waiter n β Tid) : Decidable (Parked state) := by
  unfold Parked
  split <;> infer_instance

variable {state : Waiter n β Tid}

theorem parked_iff : Parked state ↔
    state.drain = .outside ∨ state.drain = .sizeHead state.channel.chan.head := by
  cases drainEq : state.drain <;> simp [Parked, drainEq]

/-- The channel's producers are all outside, the consumer is asleep, and an item
is there that nobody has announced. -/
def LostWakeup (state : Waiter n β Tid) : Prop :=
  (∀ thread, state.channel.producer thread = .idle) ∧ state.drain = .outside ∧
    state.channel.chan.head ≠ state.channel.chan.tail ∧ state.channel.chan.eventfd = 0

instance [Fintype Tid] [DecidableEq β] (state : Waiter n β Tid) : Decidable (LostWakeup state) :=
  inferInstanceAs (Decidable (_ ∧ _ ∧ _ ∧ _))

variable [DecidableEq Tid]

/-- The step relation of `while (1)` wait for the eventfd and drain. -/
def waiterStep (state : Waiter n β Tid) : WaiterLabel n β Tid → Option (Waiter n β Tid)
  | .trySend thread item =>
      (step state.channel (.trySend thread item)).map fun next => { state with channel := next }
  | .producer thread spurious =>
      (step state.channel (.producer thread spurious)).map fun next =>
        { state with channel := next }
  | .consumer memory =>
      match state.drain with
      | .outside =>
          if state.channel.chan.eventfd = 0 then none
          else (startBatch memory state.channel).map fun (next, pc, _) => ⟨next, pc⟩
      | pc => (drainStep memory state.channel pc).map fun (next, pc, _) => ⟨next, pc⟩

/-- A reservation that fills an empty channel under a parked consumer is made
with the current head. -/
def SnapshotCurrent (state : Waiter n β Tid) : WaiterLabel n β Tid → Prop
  | .producer thread spurious =>
      match state.channel.producer thread with
      | .sendCas _ tail head => spurious = false → state.channel.chan.tail = tail →
          state.channel.chan.head = state.channel.chan.tail → Parked state → head = tail
      | _ => True
  | _ => True

instance (state : Waiter n β Tid) (label : WaiterLabel n β Tid) :
    Decidable (SnapshotCurrent state label) := by
  unfold SnapshotCurrent
  repeat' split
  all_goals infer_instance

/-- The producer will signal, or is about to. -/
def Announcing : ProducerPc n β → Prop
  | .signal => True
  | .write _ tail head _ => tail = head
  | _ => False

/-- A parked consumer has nothing to read, or will be woken. -/
structure WaiterInv (state : Waiter n β Tid) : Prop where
  channel : Inv state.channel
  capacity : state.channel.chan.capacity < 2 ^ 32
  sizeTail : ∀ tail, state.drain = .sizeHead tail →
    state.channel.chan.head ≤ tail ∧ tail ≤ state.channel.chan.tail
  announced : Parked state → state.channel.chan.head = state.channel.chan.tail ∨
    state.channel.chan.eventfd ≠ 0 ∨ ∃ thread, Announcing (state.channel.producer thread)

/-- The size is zero only if the channel is empty. -/
theorem channelSize_eq_zero {tail head : Nat} (low : head ≤ tail) (tailLt : tail < 2 ^ 64)
    (near : tail < head + 2 ^ 32) (zero : channelSize tail head = 0) : tail = head := by
  unfold channelSize at zero
  rw [wrappedSub_eq low tailLt, ← Int.dvd_iff_bmod_eq_zero, Int.natCast_dvd_natCast] at zero
  have gap := Nat.eq_zero_of_dvd_of_lt zero (Nat.sub_lt_left_of_lt_add low near)
  exact Nat.le_antisymm (Nat.le_of_sub_eq_zero gap) low

/-- The move of one producer: what it does to the words the consumer and its
announcement depend on. -/
theorem producerStep_announces {thread : Tid} {spurious : Bool} {state : State n β Tid}
    (inv : Inv state) {chan : QdChannel n β} {lock : Option Tid} {pc : ProducerPc n β}
    {items : List (Item n β)}
    (stepEq : producerStep thread spurious state.chan state.lock (state.producer thread) =
      some (chan, lock, pc, items)) :
    chan.head = state.chan.head ∧ chan.capacity = state.chan.capacity ∧
    (state.chan.eventfd ≠ 0 → chan.eventfd ≠ 0) ∧
    (Announcing (state.producer thread) → Announcing pc ∨ chan.eventfd ≠ 0) ∧
    (chan.tail = state.chan.tail ∨ ∃ item tail head,
      state.producer thread = .sendCas item tail head ∧ spurious = false ∧
        state.chan.tail = tail ∧ pc = .write item tail head 0) := by
  have facts := inv.producers thread
  cases pcEq : state.producer thread with
      (rw [pcEq] at facts; simp only [producerStep, pcEq] at stepEq)
  | idle => cases stepEq
  | sendTail item =>
    cases stepEq
    exact ⟨rfl, rfl, id, False.elim, .inl rfl⟩
  | sendHead item tail =>
    simp only [inv.lossless] at stepEq
    split at stepEq <;> cases stepEq <;>
      exact ⟨rfl, rfl, id, False.elim, .inl rfl⟩
  | sendCas item tail head =>
    split at stepEq <;> cases stepEq
    next success =>
      exact ⟨rfl, rfl, id, False.elim, .inr ⟨item, tail, head, rfl, success.2, success.1, rfl⟩⟩
    · exact ⟨rfl, rfl, id, False.elim, .inl rfl⟩
  | write item tail head copied =>
    split at stepEq <;> cases stepEq
    · exact ⟨rfl, rfl, id, .inl, .inl rfl⟩
    · refine ⟨rfl, rfl, id, fun looksEmpty => .inl ?_, .inl rfl⟩
      rw [if_pos (show tail = head from looksEmpty)]
      trivial
  | signal =>
    cases stepEq
    have raised : state.chan.signalEvent.eventfd ≠ 0 := by
      simp only [QdChannel.signalEvent]
      split <;> omega
    exact ⟨rfl, rfl, fun _ => raised, fun _ => .inr raised, .inl rfl⟩
  | _ => exact facts.elim

variable {next : State n β Tid}

/-- A producer's step keeps a parked consumer announced, if its reservation is
made with the current head. -/
theorem WaiterInv.producer (inv : WaiterInv state) {thread : Tid} {spurious : Bool}
    (current : SnapshotCurrent state (.producer thread spurious))
    (bound : next.sent.length < 2 ^ 64)
    (stepEq : step state.channel (.producer thread spurious) = some next) :
    WaiterInv { state with channel := next } := by
  have nextInv := inv.channel.step bound stepEq
  obtain ⟨⟨chan, lock, pc, items⟩, producerEq, rfl⟩ := map_eq_some_iff.mp stepEq
  obtain ⟨headEq, capacityEq, keeps, announces, reserves⟩ :=
    producerStep_announces inv.channel producerEq
  have tailLe : state.channel.chan.tail ≤ chan.tail := by
    rcases reserves with same | ⟨item, tail, head, -, -, tailIs, rfl⟩
    · exact same.ge
    · have written := nextInv.producers thread
      simp only [update_self] at written
      have := written.2.2.1
      omega
  refine ⟨nextInv, ?_, ?_, ?_⟩
  · change chan.capacity < 2 ^ 32
    rw [capacityEq]
    exact inv.capacity
  · intro tail drainEq
    obtain ⟨low, high⟩ := inv.sizeTail tail drainEq
    exact ⟨headEq ▸ low, high.trans tailLe⟩
  · intro parked
    have wasParked : Parked state := by
      rcases parked_iff.mp parked with outside | loaded
      · exact parked_iff.mpr (.inl outside)
      · refine parked_iff.mpr (.inr (loaded.trans ?_))
        rw [headEq]
    change chan.head = chan.tail ∨ chan.eventfd ≠ 0 ∨
      ∃ other, Announcing (update state.channel.producer thread pc other)
    have mine (announcing : Announcing pc) :
        ∃ other, Announcing (update state.channel.producer thread pc other) :=
      ⟨thread, by rwa [update_self]⟩
    rcases inv.announced wasParked with empty | raised | ⟨other, announcing⟩
    · rcases reserves with same | ⟨item, tail, head, pcEq, notSpurious, tailIs, rfl⟩
      · exact .inl (by rw [headEq, same, empty])
      · simp only [SnapshotCurrent, pcEq] at current
        have snapshot := current notSpurious tailIs empty wasParked
        exact .inr (.inr (mine snapshot.symm))
    · exact .inr (.inl (keeps raised))
    · by_cases self : other = thread
      · subst self
        rcases announces announcing with still | raised
        · exact .inr (.inr (mine still))
        · exact .inr (.inl raised)
      · exact .inr (.inr ⟨other, by rwa [update_of_ne self]⟩)

variable {item : Option (Item n β)} {memory : Item n β} {pc : DrainPc n β}

/-- The loop parks by loading the tail, and leaves when it saw an empty
channel. -/
theorem drainStep_parks {state : State n β Tid} {nextPc : DrainPc n β}
    (stepEq : drainStep memory state pc = some (next, nextPc, item)) :
    (∀ tail, nextPc = .sizeHead tail → next = state ∧ tail = state.chan.tail) ∧
    (nextPc = .outside → next = state ∧
      ∃ tail, pc = .sizeHead tail ∧ channelSize tail state.chan.head = 0) := by
  have busy {reached : State n β Tid} {other : DrainPc n β} {found : Option (Item n β)}
      (started : startBatch memory state = some (reached, other, found)) :
      other = .batch := (startBatch_spec started).1
  cases pc with simp only [drainStep] at stepEq
  | outside => cases stepEq
  | batch =>
    split at stepEq
    · split at stepEq <;> cases stepEq <;> simp
    · obtain ⟨reached, -, equal⟩ := map_eq_some_iff.mp stepEq
      cases equal
      simp
  | deliver items =>
    cases items with
    | nil => simp [busy stepEq]
    | cons first rest =>
      cases stepEq
      simp
  | ack =>
    split at stepEq <;> cases stepEq <;> simp
  | sizeTail =>
    cases stepEq
    simp
  | sizeHead tail =>
    split at stepEq
    next zero =>
      cases stepEq
      exact ⟨by simp, fun _ => ⟨rfl, tail, rfl, zero⟩⟩
    · simp [busy stepEq]

section

variable (inv : WaiterInv state)
include inv

/-- A step of the drain loop parks the consumer only on an empty channel. -/
theorem WaiterInv.drain
    (stepEq : drainStep memory state.channel state.drain = some (next, pc, item)) :
    WaiterInv ⟨next, pc⟩ := by
  have nextInv := inv.channel.drainStep stepEq
  have same := SameProducers.of_drainStep stepEq
  obtain ⟨loads, leaves⟩ := drainStep_parks stepEq
  have headLe : state.channel.chan.head ≤ state.channel.chan.tail :=
    (Nat.le_add_right _ _).trans inv.channel.freshLe
  refine ⟨nextInv, ?_, ?_, ?_⟩
  · change next.chan.capacity < 2 ^ 32
    rw [same.capacity]
    exact inv.capacity
  · intro tail pcEq
    obtain ⟨rfl, rfl⟩ := loads tail pcEq
    exact ⟨headLe, le_rfl⟩
  · intro parked
    rcases parked_iff.mp parked with outside | loaded
    · obtain ⟨rfl, tail, drainEq, zero⟩ := leaves outside
      obtain ⟨low, high⟩ := inv.sizeTail tail drainEq
      have tailLt := inv.channel.sentLt
      rw [← inv.channel.tailEq] at tailLt
      have tailLe := inv.channel.tailLe
      have capacity := inv.capacity
      have empty := channelSize_eq_zero low (by omega) (by omega) zero
      refine inv.announced (parked_iff.mpr (.inr ?_))
      rw [drainEq, empty]
    · obtain ⟨rfl, headEq⟩ := loads _ loaded
      exact .inl headEq

/-- Waking up starts the loop. -/
theorem WaiterInv.wake
    (stepEq : startBatch memory state.channel = some (next, pc, item)) : WaiterInv ⟨next, pc⟩ := by
  obtain ⟨rfl, -, started⟩ := startBatch_spec stepEq
  have same := (sameProducers_of_tryRecvBatch started).1
  refine ⟨inv.channel.step (by rw [same.sent]; exact inv.channel.sentLt) started, ?_, ?_, ?_⟩
  · change next.chan.capacity < 2 ^ 32
    rw [same.capacity]
    exact inv.capacity
  · intro tail pcEq
    simp at pcEq
  · exact fun parked => parked.elim

theorem WaiterInv.step {next : Waiter n β Tid} {label : WaiterLabel n β Tid}
    (bound : next.channel.sent.length < 2 ^ 64) (current : SnapshotCurrent state label)
    (stepEq : waiterStep state label = some next) : WaiterInv next := by
  cases label with
  | trySend thread item =>
    obtain ⟨reached, reachedEq, rfl⟩ := map_eq_some_iff.mp stepEq
    have nextInv := inv.channel.step bound reachedEq
    simp only [Channel.step] at reachedEq
    split at reachedEq
    next pcEq =>
      split at reachedEq <;> cases reachedEq
      · exact inv
      · refine ⟨nextInv, inv.capacity, inv.sizeTail, fun parked => ?_⟩
        rcases inv.announced parked with empty | raised | announcing
        · exact .inl empty
        · exact .inr (.inl raised)
        · refine .inr (.inr ?_)
          have silent : ¬ Announcing (state.channel.producer thread) := by
            simp [pcEq, Announcing]
          obtain ⟨other, holds⟩ := announcing
          have different : other ≠ thread := by
            rintro rfl
            exact silent holds
          exact ⟨other, by simpa [different] using holds⟩
    · cases reachedEq
  | producer thread spurious =>
    obtain ⟨reached, reachedEq, rfl⟩ := map_eq_some_iff.mp stepEq
    exact inv.producer current bound reachedEq
  | consumer memory =>
    simp only [waiterStep] at stepEq
    split at stepEq
    · split at stepEq
      · cases stepEq
      · obtain ⟨⟨reached, pc, item⟩, startEq, rfl⟩ := map_eq_some_iff.mp stepEq
        exact inv.wake startEq
    · obtain ⟨⟨reached, pc, item⟩, drainEq, rfl⟩ := map_eq_some_iff.mp stepEq
      exact inv.drain drainEq

end

theorem waiterStep_sent_length {next : Waiter n β Tid} {label : WaiterLabel n β Tid}
    (stepEq : waiterStep state label = some next) :
    state.channel.sent.length ≤ next.channel.sent.length := by
  cases label with
  | trySend thread item | producer thread spurious =>
    obtain ⟨reached, reachedEq, rfl⟩ := map_eq_some_iff.mp stepEq
    exact step_sent_length reachedEq
  | consumer memory =>
    simp only [waiterStep] at stepEq
    split at stepEq
    · split at stepEq
      · cases stepEq
      · obtain ⟨⟨reached, pc, item⟩, startEq, rfl⟩ := map_eq_some_iff.mp stepEq
        exact (SameProducers.of_startBatch startEq).sent ▸ le_rfl
    · obtain ⟨⟨reached, pc, item⟩, drainEq, rfl⟩ := map_eq_some_iff.mp stepEq
      exact (SameProducers.of_drainStep drainEq).sent ▸ le_rfl

/-- On the channel of a work queue, in every run that sends fewer than `2 ^ 64`
items and in which every reservation that fills the channel under a parked
consumer is made with the current head, a sleeping consumer with an item to read
and no producer at work has been signalled. -/
theorem not_lostWakeup {memory : Nat → Item n β} {chan : QdChannel n β}
    (created : channelCreate 4096 false memory = some chan) {target : Waiter n β Tid}
    (run : GuardedRun waiterStep SnapshotCurrent (Waiter.initial chan) target)
    (bound : target.channel.sent.length < 2 ^ 64) : ¬ LostWakeup target := by
  have initial : WaiterInv (Waiter.initial chan : Waiter n β Tid) := by
    obtain ⟨nonzero, rfl⟩ := channelCreate_eq_some created
    refine ⟨initial_inv nonzero, ?_, ?_, fun _ => .inl rfl⟩
    · change roundedCapacity 4096 < 2 ^ 32
      decide
    · intro tail drainEq
      cases drainEq
  have inv : WaiterInv target :=
    run.invariant_of_lt WaiterInv (fun state => state.channel.sent.length) (2 ^ 64) bound
      (fun _ _ _ => waiterStep_sent_length) initial
      (fun _ _ _ inv below current stepEq => inv.step below current stepEq)
  rintro ⟨idle, asleep, nonempty, silent⟩
  rcases inv.announced (parked_iff.mpr (.inl asleep)) with empty | raised | ⟨thread, announcing⟩
  · exact nonempty empty
  · exact raised silent
  · rw [idle thread] at announcing
    exact announcing

/-- One producer sends while the consumer sleeps. -/
def sendToSleeper : List (WaiterLabel 1 Nat Bool) :=
  [.trySend true ![7], .producer true false, .producer true false, .producer true false,
    .producer true false, .producer true false, .producer true false]

theorem not_lostWakeup_sendToSleeper :
    ∃ chan target, channelCreate 4096 false (fun _ => ![0]) = some chan ∧
      exec (guarded waiterStep SnapshotCurrent) (Waiter.initial chan) sendToSleeper = some target ∧
      target.channel.chan.tail = 1 ∧ target.channel.chan.eventfd = 1 ∧ ¬ LostWakeup target := by
  obtain ⟨chan, created⟩ : ∃ chan : QdChannel 1 Nat,
      channelCreate 4096 false (fun _ => ![0]) = some chan := ⟨_, rfl⟩
  obtain ⟨target, targetEq, tail, eventfd, sent⟩ := exec_meets (guarded waiterStep SnapshotCurrent)
    (Waiter.initial chan : Waiter 1 Nat Bool) sendToSleeper (fun state =>
      state.channel.chan.tail = 1 ∧ state.channel.chan.eventfd = 1 ∧
      state.channel.sent.length = 1) (by
      cases created
      decide)
  exact ⟨chan, target, created, targetEq, tail, eventfd,
    not_lostWakeup created (guardedRun_of_exec targetEq) (by rw [sent]; decide)⟩

/-- The second producer loads tail 1 and head 0.  The consumer receives the first
item, acknowledges, sees an empty channel and falls asleep.  The second producer
reserves position 1, which is not the head it loaded, and leaves without a
signal. -/
def staleHead : List (WaiterLabel 1 Nat Bool) :=
  [.trySend true ![7], .producer true false, .producer true false, .producer true false,
    .producer true false, .producer true false, .producer true false,
    .trySend false ![8], .producer false false, .producer false false] ++
  List.replicate 18 (.consumer ![0]) ++
  [.producer false false, .producer false false, .producer false false]

/-- A consumer can sleep on a channel that holds an item nobody announced. -/
theorem exists_lostWakeup_staleHead : ∃ chan, channelCreate 4096 false (fun _ => ![0]) = some chan ∧
      ∃ target : Waiter 1 Nat Bool, Reachable waiterStep (Waiter.initial chan) target ∧
        LostWakeup target := by
  obtain ⟨chan, created⟩ : ∃ chan : QdChannel 1 Nat,
      channelCreate 4096 false (fun _ => ![0]) = some chan := ⟨_, rfl⟩
  obtain ⟨target, targetEq, lost⟩ := exec_meets waiterStep (Waiter.initial chan : Waiter 1 Nat Bool)
      staleHead LostWakeup (by
        cases created
        decide)
  exact ⟨chan, created, target, reachable_of_exec targetEq, lost⟩

end QDaemon.Channel
