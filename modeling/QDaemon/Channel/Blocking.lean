import Mathlib.Data.Fin.VecNotation
import QDaemon.Channel.Core

/-!
# Blocking operations of a channel

`qd_channel_send` and `qd_channel_recv` try the lock-free operation, then try it
again under the lock, and wait on a condition variable as long as the channel is
full or empty.  The lock-free paths that make room or bring an item do not signal
the condition variables; only `qd_channel_close` does.
-/

namespace QDaemon.Channel

open Option Function Common Transition

universe u v w

/-- Where a thread stands in a blocking operation, named after what comes next.
`A` is what it was called with and `P` its place in the operation it tries. -/
inductive Blocking (A : Type u) (P : Type v)
  | fast (arg : A) (pc : P)
  | lock (arg : A)
  | check (arg : A)
  | enter (arg : A)
  | slow (arg : A) (pc : P)
  | wait (arg : A)
  | asleep (arg : A)
  | unlock
  deriving DecidableEq

/-- Where a thread stands. -/
inductive ThreadPc (n : Nat) (β : Type u)
  | outside
  | trySend (pc : ProducerPc n β)
  | tryRecv (pc : ConsumerPc n β)
  | send (pc : Blocking (Item n β) (ProducerPc n β))
  | recv (pc : Blocking (Item n β) (ConsumerPc n β))
  | closeLock
  | closeBroadcast
  | closeUnlock
  deriving DecidableEq

variable {n : Nat} {β : Type u} {Tid : Type v} {A : Type u} {P : Type w}

/-- What an access of a thread leaves: the channel, the holder of the lock, and the
thread's place or the result of its operation. -/
abbrev Outcome (n : Nat) (β : Type u) (Tid : Type v) (P : Type w) :=
  QdChannel n β × Option Tid × (P ⊕ Int)

variable [DecidableEq Tid]

/-- The next access of `qd_channel_try_send`, which is busy only if it finds the
channel full. -/
def trySendStep (thread : Tid) (spurious : Bool) (chan : QdChannel n β) (lock : Option Tid)
    (pc : ProducerPc n β) : Option (Outcome n β Tid (ProducerPc n β)) :=
  (producerStep thread spurious chan lock pc).map fun (chan, lock, next, _) =>
    match next, pc with
    | .idle, .sendHead _ _ => (chan, lock, .inr qdErrBusy)
    | .idle, _ => (chan, lock, .inr qdOk)
    | next, _ => (chan, lock, .inl next)

/-- The next access of `qd_channel_try_recv`. -/
def tryRecvStep (chan : QdChannel n β) (lock : Option Tid) (pc : ConsumerPc n β) :
    Option (Outcome n β Tid (ConsumerPc n β)) :=
  (consumerStep chan pc).map fun (chan, next, _) =>
    match next with
    | .idle result _ => (chan, lock, .inr result)
    | next => (chan, lock, .inl next)

/-- A blocking operation around a lock-free one: `start` enters the latter, `attempt`
is its next access, and `retry` the result for which the thread has to wait. -/
structure BlockingCall (n : Nat) (β : Type u) (Tid : Type v) (A : Type u) (P : Type w) where
  start : A → P
  attempt : QdChannel n β → Option Tid → P → Option (Outcome n β Tid P)
  retry : Int

/-- The next step of a blocking operation, which ends where no place is left. -/
def BlockingCall.step (call : BlockingCall n β Tid A P) (thread : Tid) (nonblock : Bool)
    (chan : QdChannel n β) (lock : Option Tid) :
    Blocking A P → Option (QdChannel n β × Option Tid × Option (Blocking A P))
  | .fast arg pc => (call.attempt chan lock pc).map fun (chan, lock, next) =>
      match next with
      | .inl pc => (chan, lock, some (.fast arg pc))
      | .inr result =>
          if result = call.retry ∧ nonblock = false then (chan, lock, some (.lock arg))
          else (chan, lock, none)
  | .lock arg =>
      match lock with
      | none => some (chan, some thread, some (.check arg))
      | some _ => none
  | .check arg =>
      if chan.closed then some (chan, lock, some .unlock) else some (chan, lock, some (.enter arg))
  | .enter arg =>
      if chan.closed then some (chan, lock, some .unlock)
      else some (chan, lock, some (.slow arg (call.start arg)))
  | .slow arg pc => (call.attempt chan lock pc).map fun (chan, lock, next) =>
      match next with
      | .inl pc => (chan, lock, some (.slow arg pc))
      | .inr result =>
          if result = call.retry then (chan, lock, some (.wait arg))
          else (chan, lock, some .unlock)
  | .wait arg => some (chan, none, some (.asleep arg))
  | .asleep _ => none
  | .unlock => some (chan, none, none)

/-- `qd_channel_send`. -/
def channelSend (thread : Tid) (spurious : Bool) :
    BlockingCall n β Tid (Item n β) (ProducerPc n β) where
  start := .sendTail
  attempt := trySendStep thread spurious
  retry := qdErrBusy

/-- `qd_channel_recv`. -/
def channelRecv : BlockingCall n β Tid (Item n β) (ConsumerPc n β) where
  start := .recvHead
  attempt := tryRecvStep
  retry := qdErrAgain

/-- A waiting thread is woken and takes the lock again. -/
def ThreadPc.wake : ThreadPc n β → ThreadPc n β
  | .send (.asleep item) => .send (.lock item)
  | .recv (.asleep memory) => .recv (.lock memory)
  | pc => pc

/-- The channel and its threads.  The flag `nonblock` is `QD_CHAN_NONBLOCK`. -/
structure Party (n : Nat) (β : Type u) (Tid : Type v) where
  chan : QdChannel n β
  nonblock : Bool
  lock : Option Tid
  pc : Tid → ThreadPc n β

/-- The calls of the interface. -/
inductive ChannelCall (n : Nat) (β : Type u)
  | trySend (item : Item n β)
  | tryRecv (memory : Item n β)
  | send (item : Item n β)
  | recv (memory : Item n β)
  | close

/-- A thread calls an operation, takes its next step, or is woken without a signal. -/
inductive PartyLabel (n : Nat) (β : Type u) (Tid : Type v)
  | call (thread : Tid) (call : ChannelCall n β)
  | step (thread : Tid) (spurious : Bool)
  | wake (thread : Tid)

/-- Where a call starts.  The sends and receives load `closed` first. -/
def startCall (chan : QdChannel n β) : ChannelCall n β → QdChannel n β × ThreadPc n β
  | .trySend item => (chan, if chan.closed then .outside else .trySend (.sendTail item))
  | .tryRecv memory => (chan, if chan.closed then .outside else .tryRecv (.recvHead memory))
  | .send item => (chan, if chan.closed then .outside else .send (.fast item (.sendTail item)))
  | .recv memory => (chan, if chan.closed then .outside else .recv (.fast memory (.recvHead memory)))
  | .close => ({ chan with closed := true }, .closeLock)

namespace Party

/-- A thread has moved. -/
def move (state : Party n β Tid) (thread : Tid) (chan : QdChannel n β) (lock : Option Tid)
    (pc : ThreadPc n β) : Party n β Tid :=
  { state with chan := chan, lock := lock, pc := update state.pc thread pc }

/-- The next step of a thread. -/
def threadStep (state : Party n β Tid) (thread : Tid) (spurious : Bool) : Option (Party n β Tid) :=
  match state.pc thread with
  | .outside => none
  | .trySend pc =>
      (trySendStep thread spurious state.chan state.lock pc).map fun (chan, lock, next) =>
        state.move thread chan lock (next.elim .trySend fun _ => .outside)
  | .tryRecv pc =>
      (tryRecvStep state.chan state.lock pc).map fun (chan, lock, next) =>
        state.move thread chan lock (next.elim .tryRecv fun _ => .outside)
  | .send pc =>
      ((channelSend thread spurious).step thread state.nonblock state.chan state.lock pc).map
        fun (chan, lock, next) => state.move thread chan lock (next.elim .outside .send)
  | .recv pc =>
      (channelRecv.step thread state.nonblock state.chan state.lock pc).map
        fun (chan, lock, next) => state.move thread chan lock (next.elim .outside .recv)
  | .closeLock =>
      match state.lock with
      | none => some (state.move thread state.chan (some thread) .closeBroadcast)
      | some _ => none
  | .closeBroadcast =>
      some { state with pc := update (fun other => (state.pc other).wake) thread .closeUnlock }
  | .closeUnlock => some (state.move thread state.chan none .outside)

/-- The step relation. -/
def step (state : Party n β Tid) : PartyLabel n β Tid → Option (Party n β Tid)
  | .call thread call =>
      match state.pc thread with
      | .outside =>
          let started := startCall state.chan call
          some (state.move thread started.1 state.lock started.2)
      | _ => none
  | .step thread spurious => state.threadStep thread spurious
  | .wake thread => some (state.move thread state.chan state.lock (state.pc thread).wake)

end Party

/-! ## Opportunities -/

/-- The channel has no room, as `qd_channel_try_send` computes it. -/
def Full (chan : QdChannel n β) : Prop :=
  chan.capacity ≤ (chan.tail + 2 ^ 64 - chan.head) % 2 ^ 64

/-- A committed item is present. -/
def HasItem (chan : QdChannel n β) : Prop :=
  ∃ pos, chan.head ≤ pos ∧ pos < chan.tail ∧ chan.committed (chan.slot pos) = true

instance (chan : QdChannel n β) : Decidable (Full chan) :=
  inferInstanceAs (Decidable (_ ≤ _))

/-- A thread waits for what is there, and nobody else is in the channel. -/
def Missed (state : Party n β Tid) : Prop :=
  ∃ thread, (∀ other, other ≠ thread → state.pc other = .outside) ∧
    ((∃ memory, state.pc thread = .recv (.asleep memory) ∧ HasItem state.chan) ∨
      ∃ item, state.pc thread = .send (.asleep item) ∧ ¬ Full state.chan)

/-- The thread is about to wait or waits: it has begun the loads of a try under the
lock that may fail. -/
def ThreadPc.Parked : ThreadPc n β → Prop
  | .send (.slow _ (.sendHead _ _)) | .send (.wait _) | .send (.asleep _) => True
  | .recv (.slow _ (.recvTail _ _)) | .recv (.wait _) | .recv (.asleep _) => True
  | _ => False

instance ThreadPc.decidableParked (pc : ThreadPc n β) : Decidable pc.Parked := by
  unfold ThreadPc.Parked
  split <;> infer_instance

/-- The next access of the producer stores the tail or the head. -/
def ProducerPc.Moves (chan : QdChannel n β) (spurious : Bool) : ProducerPc n β → Prop
  | .sendCas _ tail _ => chan.tail = tail ∧ spurious = false
  | .lockedAdvance _ _ _ | .lockedPublish _ _ _ => True
  | _ => False

/-- The next access of the consumer stores the head. -/
def ConsumerPc.Moves : ConsumerPc n β → Prop
  | .recvPublish _ _ | .batchPublish _ => True
  | _ => False

/-- The next access of a blocking operation is one of the operation that it tries
and stores the tail or the head. -/
def Blocking.Moves (moves : P → Prop) : Blocking A P → Prop
  | .fast _ pc | .slow _ pc => moves pc
  | _ => False

/-- The next access of the thread stores the tail or the head. -/
def ThreadPc.Moves (chan : QdChannel n β) (spurious : Bool) : ThreadPc n β → Prop
  | .trySend pc => pc.Moves chan spurious
  | .tryRecv pc => pc.Moves
  | .send pc => pc.Moves (ProducerPc.Moves chan spurious)
  | .recv pc => pc.Moves ConsumerPc.Moves
  | _ => False

instance (chan : QdChannel n β) (spurious : Bool) (pc : ProducerPc n β) :
    Decidable (pc.Moves chan spurious) := by
  unfold ProducerPc.Moves
  split <;> infer_instance

instance (pc : ConsumerPc n β) : Decidable pc.Moves := by
  unfold ConsumerPc.Moves
  split <;> infer_instance

instance (moves : P → Prop) [DecidablePred moves] (pc : Blocking A P) :
    Decidable (pc.Moves moves) := by
  unfold Blocking.Moves
  split <;> infer_instance

instance (chan : QdChannel n β) (spurious : Bool) (pc : ThreadPc n β) :
    Decidable (pc.Moves chan spurious) := by
  unfold ThreadPc.Moves
  split <;> infer_instance

/-- The tail and the head are stored only while no thread is about to wait or
waits. -/
def Undisturbed (state : Party n β Tid) : PartyLabel n β Tid → Prop
  | .step thread spurious =>
      (state.pc thread).Moves state.chan spurious → ∀ other, ¬ (state.pc other).Parked
  | _ => True

instance [Fintype Tid] (state : Party n β Tid) (label : PartyLabel n β Tid) :
    Decidable (Undisturbed state label) := by
  unfold Undisturbed
  split <;> infer_instance

/-! ## Accesses that leave the positions alone -/

/-- What the checks of the waiting threads depend on. -/
structure SamePositions (chan next : QdChannel n β) : Prop where
  head : next.head = chan.head
  tail : next.tail = chan.tail
  capacity : next.capacity = chan.capacity

theorem SamePositions.refl (chan : QdChannel n β) : SamePositions chan chan := ⟨rfl, rfl, rfl⟩

variable {chan next : QdChannel n β} {lock : Option Tid} {items : List (Item n β)}
variable {after : Option Tid} {thread : Tid} {spurious : Bool}

theorem samePositions_producerStep {pc nextPc : ProducerPc n β}
    (stepEq : producerStep thread spurious chan lock pc = some (next, after, nextPc, items))
    (still : ¬ pc.Moves chan spurious) : SamePositions chan next := by
  cases pc with
  | idle => cases stepEq
  | sendCas item tail head =>
    have failing : ¬ (chan.tail = tail ∧ spurious = false) := still
    rw [producerStep, if_neg failing] at stepEq
    cases stepEq
    exact .refl chan
  | lockedAdvance item tail head | lockedPublish item tail head => exact absurd trivial still
  | lock item =>
    cases lock <;> cases stepEq
    exact .refl chan
  | sendHead item tail =>
    simp only [producerStep] at stepEq
    split at stepEq
    · split at stepEq <;> cases stepEq <;> exact .refl chan
    · cases stepEq
      exact .refl chan
  | write item tail head copied | lockedHead item tail | lockedWrite item tail head copied =>
    rw [producerStep] at stepEq
    split at stepEq <;> cases stepEq <;> exact ⟨rfl, rfl, rfl⟩
  | sendTail item | signal | lockedTail item | lockedClear item tail head | unlock wasEmpty =>
    cases stepEq
    exact ⟨rfl, rfl, rfl⟩

variable {pc : ConsumerPc n β}

theorem samePositions_consumerStep {nextPc : ConsumerPc n β}
    (stepEq : consumerStep chan pc = some (next, nextPc, items)) (still : ¬ pc.Moves) :
    SamePositions chan next := by
  cases pc with
  | idle result items => cases stepEq
  | recvPublish item head | batchPublish batch => exact absurd trivial still
  | recvHead memory | batchHead max memory =>
    cases stepEq
    exact .refl chan
  | recvTail memory head | recvSpin memory head | recvCopy memory head copied
  | batchTail max memory head | batchCheck batch | batchCopy batch memory copied =>
    simp only [consumerStep] at stepEq
    split at stepEq <;> cases stepEq <;> exact ⟨rfl, rfl, rfl⟩
  | batchSpin batch spins =>
    simp only [consumerStep] at stepEq
    split at stepEq
    · cases stepEq
      exact .refl chan
    · split at stepEq <;> cases stepEq <;> exact .refl chan

/-- The outcome of a try comes from an access of the producer. -/
theorem trySendStep_eq {pc : ProducerPc n β} {result : ProducerPc n β ⊕ Int}
    (stepEq : trySendStep thread spurious chan lock pc = some (next, after, result)) :
    ∃ nextPc items, producerStep thread spurious chan lock pc = some (next, after, nextPc, items) ∧
      ((result = .inl nextPc) ∨ (nextPc = .idle ∧ ∃ code, result = .inr code ∧
        (code = qdErrBusy → ∃ item tail, pc = .sendHead item tail))) := by
  obtain ⟨⟨chan', lock', nextPc, items⟩, produced, outcome⟩ := map_eq_some_iff.mp stepEq
  have notBusy : qdOk ≠ qdErrBusy := by decide
  refine ⟨nextPc, items, ?_⟩
  simp only at outcome
  split at outcome <;> cases outcome
  · exact ⟨produced, .inr ⟨rfl, _, rfl, fun _ => ⟨_, _, rfl⟩⟩⟩
  · exact ⟨produced, .inr ⟨rfl, _, rfl, fun busy => absurd busy notBusy⟩⟩
  · exact ⟨produced, .inl rfl⟩

theorem samePositions_trySendStep {pc : ProducerPc n β} {result : ProducerPc n β ⊕ Int}
    (stepEq : trySendStep thread spurious chan lock pc = some (next, after, result))
    (still : ¬ pc.Moves chan spurious) : SamePositions chan next := by
  obtain ⟨reached, items, produced, -⟩ := trySendStep_eq stepEq
  exact samePositions_producerStep produced still

omit [DecidableEq Tid] in
theorem tryRecvStep_eq {result : ConsumerPc n β ⊕ Int}
    (stepEq : tryRecvStep chan lock pc = some (next, after, result)) :
    ∃ nextPc items, consumerStep chan pc = some (next, nextPc, items) ∧
      ((result = .inl nextPc) ∨ ∃ code got, nextPc = .idle code got ∧ result = .inr code) := by
  obtain ⟨⟨chan', nextPc, items⟩, consumed, outcome⟩ := map_eq_some_iff.mp stepEq
  refine ⟨nextPc, items, ?_⟩
  simp only at outcome
  split at outcome <;> cases outcome
  · exact ⟨consumed, .inr ⟨_, _, rfl, rfl⟩⟩
  · exact ⟨consumed, .inl rfl⟩

omit [DecidableEq Tid] in
theorem samePositions_tryRecvStep {result : ConsumerPc n β ⊕ Int}
    (stepEq : tryRecvStep chan lock pc = some (next, after, result)) (still : ¬ pc.Moves) :
    SamePositions chan next := by
  obtain ⟨reached, items, consumed, -⟩ := tryRecvStep_eq stepEq
  exact samePositions_consumerStep consumed still

omit [DecidableEq Tid] in
/-- The steps of a blocking operation around its tries touch no position. -/
theorem BlockingCall.samePositions {call : BlockingCall n β Tid A P} {moves : P → Prop} {nonblock : Bool}
    {pc : Blocking A P} {nextPc : Option (Blocking A P)}
    (attempts : ∀ {pc result}, call.attempt chan lock pc = some (next, after, result) →
      ¬ moves pc → SamePositions chan next)
    (stepEq : call.step thread nonblock chan lock pc = some (next, after, nextPc))
    (still : ¬ pc.Moves moves) : SamePositions chan next := by
  cases pc with
  | fast arg pc | slow arg pc =>
    obtain ⟨⟨reached, lock', result⟩, attempted, outcome⟩ := map_eq_some_iff.mp stepEq
    cases result with
    | inl pc =>
      cases outcome
      exact attempts attempted still
    | inr code =>
      simp only at outcome
      split at outcome <;> cases outcome <;> exact attempts attempted still
  | lock arg =>
    cases lock <;> cases stepEq
    exact .refl chan
  | check arg | enter arg =>
    simp only [BlockingCall.step] at stepEq
    split at stepEq <;> cases stepEq <;> exact .refl chan
  | wait arg | unlock =>
    cases stepEq
    exact .refl chan
  | asleep arg => cases stepEq

/-! ## What waiting threads rely on -/

/-- The tail that a send has loaded is current. -/
def SendLoaded (chan : QdChannel n β) : ProducerPc n β → Prop
  | .sendHead _ tail => tail = chan.tail
  | _ => True

/-- The head that a receive has loaded is current. -/
def RecvLoaded (chan : QdChannel n β) : ConsumerPc n β → Prop
  | .recvTail _ head => head = chan.head
  | _ => True

/-- The facts of a blocking operation: what its try under the lock has loaded, and
why it waits. -/
def Blocking.Facts (loaded : P → Prop) (blocked : Prop) : Blocking A P → Prop
  | .slow _ pc => loaded pc
  | .wait _ | .asleep _ => blocked
  | _ => True

/-- The facts of a thread. -/
def ThreadPc.Facts (chan : QdChannel n β) : ThreadPc n β → Prop
  | .send pc => pc.Facts (SendLoaded chan) (Full chan)
  | .recv pc => pc.Facts (RecvLoaded chan) (chan.tail ≤ chan.head)
  | _ => True

section

omit [DecidableEq Tid]

theorem ThreadPc.facts_of_not_parked {pc : ThreadPc n β} (still : ¬ pc.Parked)
    (chan : QdChannel n β) : pc.Facts chan := by
  unfold Parked at still
  unfold Facts Blocking.Facts SendLoaded RecvLoaded
  grind

theorem Blocking.Facts.imp {loaded after : P → Prop} {blocked still : Prop} {pc : Blocking A P}
    (facts : pc.Facts loaded blocked) (loads : ∀ pc, loaded pc → after pc)
    (blocks : blocked → still) : pc.Facts after still := by
  cases pc with
  | slow arg pc => exact loads pc facts
  | wait arg | asleep arg => exact blocks facts
  | _ => trivial

theorem ThreadPc.Facts.congr {pc : ThreadPc n β} (facts : pc.Facts chan)
    (same : SamePositions chan next) : pc.Facts next := by
  obtain ⟨head, tail, capacity⟩ := same
  cases pc with
  | send pc =>
    refine Blocking.Facts.imp facts ?_ ?_
    · intro pc loaded
      cases pc with
      | sendHead item loadedTail => exact Eq.trans loaded tail.symm
      | _ => trivial
    · intro full
      rwa [Full, head, tail, capacity]
  | recv pc =>
    refine Blocking.Facts.imp facts ?_ ?_
    · intro pc loaded
      cases pc with
      | recvTail memory loadedHead => exact Eq.trans loaded head.symm
      | _ => trivial
    · intro empty
      rwa [head, tail]
  | _ => trivial

theorem ThreadPc.wake_facts {pc : ThreadPc n β} (facts : pc.Facts chan) : pc.wake.Facts chan := by
  unfold wake
  split
  · trivial
  · trivial
  · exact facts

end

/-- The tries of a blocking operation under the lock keep what they have loaded, and
one that makes the thread wait has found a reason. -/
structure BlockingCall.Checks (call : BlockingCall n β Tid A P)
    (loaded : QdChannel n β → P → Prop) (blocked : QdChannel n β → Prop) : Prop where
  start : ∀ chan arg, loaded chan (call.start arg)
  goesOn : ∀ {chan next lock after pc nextPc}, loaded chan pc →
    call.attempt chan lock pc = some (next, after, .inl nextPc) → loaded next nextPc
  blocks : ∀ {chan next lock after pc}, loaded chan pc →
    call.attempt chan lock pc = some (next, after, .inr call.retry) → blocked next

omit [DecidableEq Tid] in
theorem BlockingCall.Checks.step {call : BlockingCall n β Tid A P}
    {loaded : QdChannel n β → P → Prop} {blocked : QdChannel n β → Prop}
    (checks : call.Checks loaded blocked) {nonblock : Bool} {pc nextPc : Blocking A P}
    (facts : pc.Facts (loaded chan) (blocked chan))
    (stepEq : call.step thread nonblock chan lock pc = some (next, after, some nextPc)) :
    nextPc.Facts (loaded next) (blocked next) := by
  cases pc with
  | fast arg pc =>
    obtain ⟨⟨reached, lock', result⟩, attempted, outcome⟩ := map_eq_some_iff.mp stepEq
    cases result with
    | inl pc =>
      cases outcome
      trivial
    | inr code =>
      simp only at outcome
      split at outcome <;> cases outcome
      trivial
  | lock arg =>
    cases lock <;> cases stepEq
    trivial
  | check arg =>
    simp only [BlockingCall.step] at stepEq
    split at stepEq <;> cases stepEq <;> trivial
  | enter arg =>
    simp only [BlockingCall.step] at stepEq
    split at stepEq <;> cases stepEq
    · trivial
    · exact checks.start _ arg
  | slow arg pc =>
    obtain ⟨⟨reached, lock', result⟩, attempted, outcome⟩ := map_eq_some_iff.mp stepEq
    cases result with
    | inl pc =>
      cases outcome
      exact checks.goesOn facts attempted
    | inr code =>
      simp only at outcome
      split at outcome <;> cases outcome
      next retry =>
        rw [retry] at attempted
        exact checks.blocks facts attempted
      · trivial
  | wait arg =>
    cases stepEq
    exact facts
  | asleep arg => cases stepEq
  | unlock => cases stepEq

/-- A tail that has just been loaded. -/
theorem producerStep_sendHead {pc : ProducerPc n β} {item : Item n β} {tail : Nat}
    (stepEq : producerStep thread spurious chan lock pc =
      some (next, after, .sendHead item tail, items)) : tail = next.tail := by
  cases pc with
  | sendTail other =>
    cases stepEq
    rfl
  | lock other => cases lock <;> cases stepEq
  | _ =>
    simp only [producerStep] at stepEq
    grind

/-- A head that has just been loaded. -/
theorem consumerStep_recvTail {memory : Item n β} {head : Nat}
    (stepEq : consumerStep chan pc = some (next, .recvTail memory head, items)) :
    head = next.head := by
  cases pc with
  | recvHead other =>
    cases stepEq
    rfl
  | _ =>
    simp only [consumerStep, batchNext, batchStop] at stepEq
    grind

/-- A receive that has to wait has found the channel empty. -/
theorem empty_of_consumerStep {got : List (Item n β)} (loaded : RecvLoaded chan pc)
    (stepEq : consumerStep chan pc = some (next, .idle qdErrAgain got, items)) :
    next.tail ≤ next.head := by
  cases pc with
  | recvTail memory head =>
    have current : head = chan.head := loaded
    rw [consumerStep, current] at stepEq
    split at stepEq <;> cases stepEq
    next empty => exact empty
  | _ =>
    simp only [consumerStep, batchNext, batchStop, qdErrAgain, qdOk] at stepEq
    grind

theorem channelSend_checks (thread : Tid) (spurious : Bool) :
    (channelSend thread spurious : BlockingCall n β Tid _ _).Checks SendLoaded Full where
  start _ _ := trivial
  goesOn := by
    intro chan next lock after pc nextPc loaded attempted
    obtain ⟨reached, items, produced, same | ⟨-, code, absurdity, -⟩⟩ := trySendStep_eq attempted
    · cases same
      cases nextPc with
      | sendHead item tail => exact producerStep_sendHead produced
      | _ => trivial
    · cases absurdity
  blocks := by
    intro chan next lock after pc loaded attempted
    obtain ⟨reached, items, produced, absurdity | ⟨rfl, code, same, busy⟩⟩ :=
      trySendStep_eq attempted
    · cases absurdity
    · obtain ⟨item, tail, rfl⟩ := busy (Sum.inr.inj same).symm
      have current : tail = chan.tail := loaded
      simp only [current, producerStep] at produced
      split at produced
      next full =>
        split at produced <;> cases produced
        exact full
      · cases produced

omit [DecidableEq Tid] in
theorem channelRecv_checks : (channelRecv : BlockingCall n β Tid _ _).Checks RecvLoaded
      fun chan => chan.tail ≤ chan.head where
  start _ _ := trivial
  goesOn := by
    intro chan next lock after pc nextPc loaded attempted
    obtain ⟨reached, items, consumed, same | ⟨code, got, -, absurdity⟩⟩ := tryRecvStep_eq attempted
    · cases same
      cases nextPc with
      | recvTail memory head => exact consumerStep_recvTail consumed
      | _ => trivial
    · cases absurdity
  blocks := by
    intro chan next lock after pc loaded attempted
    obtain ⟨reached, items, consumed, absurdity | ⟨code, got, rfl, same⟩⟩ := tryRecvStep_eq attempted
    · cases absurdity
    · rw [← Sum.inr.inj same] at consumed
      exact empty_of_consumerStep loaded consumed

/-! ## Whole runs -/

namespace Party

/-- The invariant: every thread's facts hold. -/
def Settled (state : Party n β Tid) : Prop :=
  ∀ thread, (state.pc thread).Facts state.chan

variable {state : Party n β Tid}

section

variable (settled : state.Settled)
include settled

/-- A thread moves on, and the positions stay or nobody depends on them. -/
theorem Settled.move {pc : ThreadPc n β} (facts : pc.Facts chan)
    {storing : Prop} (alone : storing → ∀ other, ¬ (state.pc other).Parked)
    (stays : ¬ storing → SamePositions state.chan chan) :
    (state.move thread chan lock pc).Settled := by
  refine (forall_update_iff _ fun _ => ThreadPc.Facts chan).mpr ⟨facts, fun other _ => ?_⟩
  by_cases stored : storing
  · exact ThreadPc.facts_of_not_parked (alone stored other) chan
  · exact (settled other).congr (stays stored)

theorem Settled.threadStep {next : Party n β Tid}
    (undisturbed : Undisturbed state (.step thread spurious))
    (stepEq : state.threadStep thread spurious = some next) : next.Settled := by
  have facts := settled thread
  have moves : (state.pc thread).Moves state.chan spurious → ∀ other, ¬ (state.pc other).Parked :=
    undisturbed
  rw [Party.threadStep] at stepEq
  split at stepEq
  · cases stepEq
  next pc pcEq =>
    rw [pcEq] at moves
    obtain ⟨⟨chan, lock, result⟩, attempted, rfl⟩ := map_eq_some_iff.mp stepEq
    exact settled.move (by cases result <;> trivial) moves (samePositions_trySendStep attempted)
  next pc pcEq =>
    rw [pcEq] at moves
    obtain ⟨⟨chan, lock, result⟩, attempted, rfl⟩ := map_eq_some_iff.mp stepEq
    exact settled.move (by cases result <;> trivial) moves (samePositions_tryRecvStep attempted)
  next pc pcEq =>
    rw [pcEq] at moves facts
    obtain ⟨⟨chan, lock, nextPc⟩, stepped, rfl⟩ := map_eq_some_iff.mp stepEq
    refine settled.move ?_ moves (BlockingCall.samePositions samePositions_trySendStep stepped)
    cases nextPc with
    | none => trivial
    | some nextPc => exact (channelSend_checks thread spurious).step facts stepped
  next pc pcEq =>
    rw [pcEq] at moves facts
    obtain ⟨⟨chan, lock, nextPc⟩, stepped, rfl⟩ := map_eq_some_iff.mp stepEq
    refine settled.move ?_ moves (BlockingCall.samePositions samePositions_tryRecvStep stepped)
    cases nextPc with
    | none => trivial
    | some nextPc => exact channelRecv_checks.step facts stepped
  · split at stepEq <;> cases stepEq
    exact settled.move trivial False.elim fun _ => .refl _
  · cases stepEq
    exact (forall_update_iff _ fun _ => ThreadPc.Facts state.chan).mpr
      ⟨trivial, fun other _ => ThreadPc.wake_facts (settled other)⟩
  · cases stepEq
    exact settled.move trivial False.elim fun _ => .refl _

theorem Settled.step {next : Party n β Tid} {label : PartyLabel n β Tid}
    (undisturbed : Undisturbed state label) (stepEq : state.step label = some next) :
    next.Settled := by
  cases label with
  | call thread call =>
    rw [Party.step] at stepEq
    split at stepEq <;> cases stepEq
    refine settled.move ?_ False.elim fun _ => ?_
    · cases call <;> simp only [startCall] <;> (try split) <;> trivial
    · cases call <;> exact ⟨rfl, rfl, rfl⟩
  | step thread spurious => exact settled.threadStep undisturbed stepEq
  | wake thread =>
    cases stepEq
    exact settled.move (ThreadPc.wake_facts (settled thread)) False.elim fun _ => .refl _

end

/-- A channel with nobody inside. -/
def initial (chan : QdChannel n β) (nonblock : Bool) : Party n β Tid :=
  ⟨chan, nonblock, none, fun _ => .outside⟩

end Party

/-- As long as nobody stores the head or the tail while a thread is about to wait or
waits, no thread waits for what is there. -/
theorem not_missed {chan : QdChannel n β} {nonblock : Bool} {state : Party n β Tid}
    (run : GuardedRun Party.step Undisturbed (Party.initial chan nonblock) state) :
    ¬ Missed state := by
  have settled : state.Settled := run.invariant Party.Settled (fun _ => trivial)
    fun _ _ _ settled undisturbed stepEq => settled.step undisturbed stepEq
  rintro ⟨thread, -, ⟨memory, asleep, pos, lower, upper, -⟩ | ⟨item, asleep, room⟩⟩
  · have empty := settled thread
    rw [asleep] at empty
    have ordered : state.chan.tail ≤ state.chan.head := empty
    omega
  · have full := settled thread
    rw [asleep] at full
    exact room full

/-- An item is sent and received while nobody waits, then the receiver waits. -/
def waitAfterItem : List (PartyLabel 1 Nat Bool) :=
  [.call true (.trySend ![7])] ++ List.replicate 6 (.step true false) ++
    [.call false (.recv ![0])] ++ List.replicate 6 (.step false false) ++
    [.call false (.recv ![0])] ++ List.replicate 8 (.step false false)

theorem not_missed_waitAfterItem : ∃ state, exec (guarded Party.step Undisturbed)
        (Party.initial (fresh 1 false fun _ => ![0]) false) waitAfterItem = some state ∧
      state.pc false = .recv (.asleep ![0]) ∧ state.chan.head = 1 ∧ ¬ Missed state := by
  apply exists_exec fun state => state.pc false = .recv (.asleep ![0]) ∧ state.chan.head = 1
  · decide +kernel
  · rintro state stateEq ⟨asleep, head⟩
    exact ⟨asleep, head, not_missed (guardedRun_of_exec stateEq)⟩

/-- The receiver finds the channel empty and waits; an item is sent to it. -/
def sendToWaiting : List (PartyLabel 1 Nat Bool) :=
  [.call false (.recv ![0])] ++ List.replicate 8 (.step false false) ++
    [.call true (.trySend ![7])] ++ List.replicate 6 (.step true false)

/-- The sender finds the channel full and waits; the item is received. -/
def receiveFromFull : List (PartyLabel 1 Nat Bool) :=
  [.call true (.trySend ![7])] ++ List.replicate 6 (.step true false) ++
    [.call true (.send ![8])] ++ List.replicate 8 (.step true false) ++
    [.call false (.tryRecv ![0])] ++ List.replicate 6 (.step false false)

/-- A receiver waits although an item is there, and a sender although there is
room. -/
theorem missed_unsignalled : (∃ state, Reachable Party.step
        (Party.initial (fresh 1 false fun _ => ![0]) false : Party 1 Nat Bool) state ∧
      state.pc false = .recv (.asleep ![0]) ∧ HasItem state.chan ∧ Missed state) ∧
    ∃ state, Reachable Party.step
        (Party.initial (fresh 1 false fun _ => ![0]) false : Party 1 Nat Bool) state ∧
      state.pc true = .send (.asleep ![8]) ∧ ¬ Full state.chan ∧ Missed state := by
  constructor
  · refine exists_reachable sendToWaiting
      (fun state => state.pc false = .recv (.asleep ![0]) ∧ state.pc true = .outside ∧
        state.chan.head = 0 ∧ state.chan.tail = 1 ∧
        state.chan.committed (state.chan.slot 0) = true) (by decide +kernel) ?_
    rintro state ⟨asleep, outside, head, tail, committed⟩
    have item : HasItem state.chan := ⟨0, by omega, by omega, committed⟩
    refine ⟨asleep, item, false, ?_, .inl ⟨_, asleep, item⟩⟩
    rintro (_ | _) different
    · exact absurd rfl different
    · exact outside
  · refine exists_reachable receiveFromFull
      (fun state => state.pc true = .send (.asleep ![8]) ∧ state.pc false = .outside ∧
        ¬ Full state.chan) (by decide +kernel) ?_
    rintro state ⟨asleep, outside, notFull⟩
    refine ⟨asleep, notFull, true, ?_, .inr ⟨_, asleep, notFull⟩⟩
    rintro (_ | _) different
    · exact outside
    · exact absurd rfl different

end QDaemon.Channel
