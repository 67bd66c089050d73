import QDaemon.Circular.Window
import QDaemon.Ipc.SharedRing.Core

/-!
# The shared-memory ring is a queue of bytes

The positions are the numbers of bytes accepted and consumed, modulo the size of
the ring.  Each side computes from its own position, which only it moves, and a
possibly old position of the other side; the free space and the available bytes
that it finds can only have grown since.
-/

namespace QDaemon.Ipc

open List Bits Bytes Circular Common Transition

variable {ring : ShmRing} {state next : RingState}
variable {writePos copied readPos : Nat}

/-! ## Positions -/

theorem ShmRing.mod_lt (ring : ShmRing) (position : Nat) :
    position % ring.dataSize < ring.dataSize :=
  Nat.mod_lt position ring.positive

theorem writeAvailable_eq {accepted consumed : Nat} (ordered : consumed ≤ accepted)
    (near : accepted < consumed + ring.dataSize) :
    writeAvailable ring (accepted % ring.dataSize) (consumed % ring.dataSize) =
      consumed + ring.dataSize - 1 - accepted := by
  have mapped := ring.mapped
  have readLt := ring.mod_lt consumed
  have distance := distance_eq ordered near
  rw [writeAvailable]
  split
  next behind =>
    rw [if_pos behind] at distance
    have used : wordSub (accepted % ring.dataSize) (consumed % ring.dataSize) =
        accepted - consumed := by
      rw [wordSub_eq behind (by omega), distance]
    have left : wordSub ring.dataSize (accepted - consumed) =
        ring.dataSize - (accepted - consumed) := wordSub_eq (by omega) (by omega)
    rw [used, wordSub_eq (by omega) (by omega)]
    omega
  next ahead =>
    rw [if_neg ahead] at distance
    have left : wordSub (consumed % ring.dataSize) (accepted % ring.dataSize) =
        consumed % ring.dataSize - accepted % ring.dataSize := wordSub_eq (by omega) (by omega)
    rw [wordSub_eq (by omega) (by omega)]
    omega

theorem readAvailable_eq {accepted consumed : Nat} (ordered : consumed ≤ accepted)
    (near : accepted < consumed + ring.dataSize) :
    readAvailable ring (accepted % ring.dataSize) (consumed % ring.dataSize) =
      accepted - consumed := by
  have mapped := ring.mapped
  have writeLt := ring.mod_lt accepted
  have readLt := ring.mod_lt consumed
  rw [distance_eq ordered near, readAvailable]
  split
  next behind => rw [wordSub_eq behind (by omega)]
  next ahead =>
    have left : wordSub ring.dataSize (consumed % ring.dataSize) =
        ring.dataSize - consumed % ring.dataSize := wordSub_eq readLt.le (by omega)
    rw [left, wordAdd_eq (by omega)]

variable {len : Nat}

/-- Both parts of a copy follow the ring. -/
theorem copyCell_eq {offset : Nat} (position : Nat) (inside : offset < len)
    (short : len < ring.dataSize) :
    copyCell ring (position % ring.dataSize) len offset = (position + offset) % ring.dataSize := by
  have mapped := ring.mapped
  have positionLt := ring.mod_lt position
  rw [copyCell, wordSub_eq positionLt.le (by omega), ← Nat.mod_add_mod]
  generalize position % ring.dataSize = cell at *
  split
  next whole => exact (Nat.mod_eq_of_lt (by omega)).symm
  · split
    next first => exact (Nat.mod_eq_of_lt (by omega)).symm
    next second =>
      rw [Nat.mod_eq_sub_mod (by omega), Nat.mod_eq_of_lt (by omega)]
      omega

theorem advance_eq (position : Nat) (short : len < ring.dataSize) :
    advance ring (position % ring.dataSize) len = (position + len) % ring.dataSize := by
  have mapped := ring.mapped
  have positionLt := ring.mod_lt position
  rw [advance, wordAdd_eq (by omega), Nat.mod_add_mod]

/-! ## The invariant -/

/-- What the writer relies on at each place. -/
def WriterFacts (ring : ShmRing) (state : RingState) : WriterPc → Prop
  | .loadRead _ _ writePos => writePos = state.writePos
  | .position src => state.accepted.length + src.length < state.consumed.length + ring.dataSize
  | .copy src writePos copied =>
      writePos = state.writePos ∧ copied ≤ src.length ∧
        state.accepted.length + src.length < state.consumed.length + ring.dataSize ∧
        Holds state.data ring.dataSize state.accepted.length (src.take copied)
  | _ => True

/-- What the reader relies on at each place.  The write position that it has loaded
may have been left behind by the writer. -/
def ReaderFacts (ring : ShmRing) (state : RingState) : ReaderPc → Prop
  | .loadRead _ _ writePos =>
      ∃ seen, writePos = seen % ring.dataSize ∧ state.consumed.length ≤ seen ∧
        seen ≤ state.accepted.length
  | .position len => state.consumed.length + len ≤ state.accepted.length
  | .copy len readPos dst =>
      readPos = state.readPos ∧ dst.length ≤ len ∧
        state.consumed.length + len ≤ state.accepted.length ∧
        state.consumed ++ dst <+: state.accepted
  | _ => True

/-- The invariant of the ring. -/
structure RingInv (ring : ShmRing) (state : RingState) : Prop where
  ordered : state.consumed <+: state.accepted
  room : state.accepted.length < state.consumed.length + ring.dataSize
  writePos : state.writePos = state.accepted.length % ring.dataSize
  readPos : state.readPos = state.consumed.length % ring.dataSize
  held : Holds state.data ring.dataSize state.consumed.length
    (state.accepted.drop state.consumed.length)
  writer : WriterFacts ring state state.writer
  reader : ReaderFacts ring state state.reader

theorem RingInv.initial (ring : ShmRing) (memory : Nat → Byte) :
    RingInv ring (RingState.initial memory) where
  ordered := nil_prefix
  room := lt_of_lt_of_eq ring.positive (Nat.zero_add _).symm
  writePos := (Nat.zero_mod _).symm
  readPos := (Nat.zero_mod _).symm
  held := holds_nil
  writer := trivial
  reader := trivial

theorem RingInv.length_le (inv : RingInv ring state) :
    state.consumed.length ≤ state.accepted.length :=
  inv.ordered.length_le

/-- The reader's steps keep what the writer relies on. -/
theorem WriterFacts.mono {pc : WriterPc} (facts : WriterFacts ring state pc)
    (data : next.data = state.data) (writePos : next.writePos = state.writePos)
    (accepted : next.accepted = state.accepted)
    (consumed : state.consumed.length ≤ next.consumed.length) : WriterFacts ring next pc := by
  cases pc with
  | loadRead src timeoutMs loaded =>
    have same : loaded = state.writePos := facts
    exact same.trans writePos.symm
  | position src =>
    have room : state.accepted.length + src.length < state.consumed.length + ring.dataSize := facts
    change next.accepted.length + src.length < next.consumed.length + ring.dataSize
    rw [accepted]
    omega
  | copy src loaded copied =>
    obtain ⟨same, inside, room, copiedHolds⟩ := facts
    refine ⟨same.trans writePos.symm, inside, ?_, ?_⟩
    · rw [accepted]
      omega
    · rwa [data, accepted]
  | _ => trivial

/-- The writer's steps keep what the reader relies on. -/
theorem ReaderFacts.mono {pc : ReaderPc} (facts : ReaderFacts ring state pc)
    (readPos : next.readPos = state.readPos) (consumed : next.consumed = state.consumed)
    (accepted : state.accepted <+: next.accepted) : ReaderFacts ring next pc := by
  have longer := accepted.length_le
  cases pc with
  | loadRead len timeoutMs loaded =>
    obtain ⟨seen, loadedEq, lower, upper⟩ := facts
    exact ⟨seen, loadedEq, by rwa [consumed], upper.trans longer⟩
  | position len =>
    have enough : state.consumed.length + len ≤ state.accepted.length := facts
    change next.consumed.length + len ≤ next.accepted.length
    rw [consumed]
    omega
  | copy len loaded dst =>
    obtain ⟨same, inside, enough, starts⟩ := facts
    refine ⟨same.trans readPos.symm, inside, ?_, ?_⟩
    · rw [consumed]
      omega
    · rw [consumed]
      exact starts.trans accepted
  | _ => trivial

/-- A step that only moves the writer's place. -/
theorem RingInv.moveWriter (inv : RingInv ring state) {pc : WriterPc}
    (facts : WriterFacts ring state pc) : RingInv ring { state with writer := pc } where
  ordered := inv.ordered
  room := inv.room
  writePos := inv.writePos
  readPos := inv.readPos
  held := inv.held
  writer := facts.mono rfl rfl rfl le_rfl
  reader := inv.reader.mono rfl rfl (prefix_refl _)

/-- A step that only moves the reader's place. -/
theorem RingInv.moveReader (inv : RingInv ring state) {pc : ReaderPc}
    (facts : ReaderFacts ring state pc) : RingInv ring { state with reader := pc } where
  ordered := inv.ordered
  room := inv.room
  writePos := inv.writePos
  readPos := inv.readPos
  held := inv.held
  writer := inv.writer.mono rfl rfl rfl le_rfl
  reader := facts.mono rfl rfl (prefix_refl _)

/-! ## The writer -/

variable {src : List Byte}

/-- A byte is copied behind the bytes that have not been consumed yet. -/
theorem RingInv.copyWriter (inv : RingInv ring state)
    (facts : WriterFacts ring state (.copy src writePos copied)) (inside : copied < src.length) :
    RingInv ring { state with
      data := Function.update state.data (copyCell ring writePos src.length copied) src[copied]
      writer := .copy src writePos (copied + 1) } := by
  obtain ⟨same, -, room, copiedHolds⟩ := facts
  have behind := inv.length_le
  have cell : copyCell ring writePos src.length copied =
      (state.accepted.length + copied) % ring.dataSize := by
    rw [same, inv.writePos]
    exact copyCell_eq _ inside (by omega)
  have length : (src.take copied).length = copied := length_take_of_le inside.le
  refine ⟨inv.ordered, inv.room, inv.writePos, inv.readPos, ?_, ⟨same, inside, room, ?_⟩,
    inv.reader.mono rfl rfl (prefix_refl _)⟩
  · rw [cell]
    apply inv.held.update
    intro offset offsetLt
    rw [length_drop] at offsetLt
    exact (mod_ne_of_lt (by omega) (by omega)).symm
  · have pushed := copiedHolds.push (by omega) src[copied]
    rw [length] at pushed
    rwa [cell, take_succ_eq_append_getElem inside]

/-- Storing the write position hands over the copied bytes. -/
theorem RingInv.publishWriter (inv : RingInv ring state)
    (facts : WriterFacts ring state (.copy src writePos copied)) (all : ¬ copied < src.length) :
    RingInv ring { state with
      writePos := advance ring writePos src.length
      writer := .idle (some qdOk)
      accepted := state.accepted ++ src } := by
  obtain ⟨same, inside, room, copiedHolds⟩ := facts
  have behind := inv.length_le
  have longer : state.accepted <+: state.accepted ++ src := prefix_append _ _
  refine ⟨inv.ordered.trans longer, ?_, ?_, inv.readPos, ?_, trivial,
    inv.reader.mono rfl rfl longer⟩
  · rwa [length_append]
  · rw [same, inv.writePos, length_append]
    exact advance_eq _ (by omega)
  · rw [drop_append_of_le_length behind, holds_append, length_drop, Nat.add_sub_cancel' behind]
    rw [take_of_length_le (Nat.not_lt.mp all)] at copiedHolds
    exact ⟨inv.held, copiedHolds⟩

variable {elapsed : Bool}

/-- What a step of the writer does. -/
theorem RingInv.writerStep_cases (inv : RingInv ring state)
    (stepEq : writerStep ring state elapsed = some next) :
    (∃ pc, WriterFacts ring state pc ∧ next = { state with writer := pc }) ∨
      ∃ src writePos copied, state.writer = .copy src writePos copied ∧
        ((∃ inside : copied < src.length, next =
            { state with
              data := Function.update state.data (copyCell ring writePos src.length copied)
                src[copied]
              writer := .copy src writePos (copied + 1) }) ∨
          (¬ copied < src.length ∧ next =
            { state with
              writePos := advance ring writePos src.length
              writer := .idle (some qdOk)
              accepted := state.accepted ++ src })) := by
  have facts := inv.writer
  rw [Ipc.writerStep] at stepEq
  split at stepEq
  · cases stepEq
  next src timeoutMs pc =>
    cases stepEq
    exact .inl ⟨.loadRead src timeoutMs state.writePos, rfl, rfl⟩
  next src timeoutMs writePos pc =>
    rw [pc] at facts
    have same : writePos = state.writePos := facts
    split at stepEq <;> cases stepEq
    next enough =>
      refine .inl ⟨.position src, ?_, rfl⟩
      rw [same, inv.writePos, inv.readPos, writeAvailable_eq inv.length_le inv.room] at enough
      have room := inv.room
      change state.accepted.length + src.length < state.consumed.length + ring.dataSize
      omega
    · exact .inl ⟨.wait src timeoutMs, trivial, rfl⟩
  next src timeoutMs pc =>
    split at stepEq <;> cases stepEq
    next result giveUp => exact .inl ⟨.idle (some result), trivial, rfl⟩
    · exact .inl ⟨.loadWrite src timeoutMs, trivial, rfl⟩
  next src pc =>
    cases stepEq
    rw [pc] at facts
    refine .inl ⟨.copy src state.writePos 0, ?_, rfl⟩
    exact ⟨rfl, Nat.zero_le _, facts, holds_nil⟩
  next src writePos copied pc =>
    split at stepEq <;> cases stepEq
    next inside => exact .inr ⟨src, writePos, copied, pc, .inl ⟨inside, rfl⟩⟩
    next all => exact .inr ⟨src, writePos, copied, pc, .inr ⟨all, rfl⟩⟩

theorem RingInv.writerStep (inv : RingInv ring state)
    (stepEq : writerStep ring state elapsed = some next) : RingInv ring next := by
  have facts := inv.writer
  rcases inv.writerStep_cases stepEq with
    ⟨pc, moved, rfl⟩ | ⟨src, writePos, copied, pc, ⟨inside, rfl⟩ | ⟨all, rfl⟩⟩
  · exact inv.moveWriter moved
  · rw [pc] at facts
    exact inv.copyWriter facts inside
  · rw [pc] at facts
    exact inv.publishWriter facts all

/-! ## The reader -/

variable {dst : List Byte}

section

variable (inv : RingInv ring state)
include inv

section

variable (facts : ReaderFacts ring state (.copy len readPos dst))
include facts

/-- The byte after the consumed and the copied ones is still in its cell. -/
theorem RingInv.readerFacts_copy (inside : dst.length < len) : ReaderFacts ring state
      (.copy len readPos (dst ++ [state.data (copyCell ring readPos len dst.length)])) := by
  obtain ⟨same, -, enough, rest, whole⟩ := facts
  have room := inv.room
  have lengths : state.consumed.length + dst.length + rest.length = state.accepted.length := by
    rw [← whole, length_append, length_append]
  cases rest with
  | nil =>
    rw [length_nil] at lengths
    omega
  | cons byte rest =>
    have held := inv.held
    rw [← whole, append_assoc, drop_left, holds_append] at held
    have stored := held.2 0 (Nat.succ_pos _)
    rw [Nat.add_zero] at stored
    have cell : copyCell ring readPos len dst.length =
        (state.consumed.length + dst.length) % ring.dataSize := by
      rw [same, inv.readPos]
      exact copyCell_eq _ inside (by omega)
    refine ⟨same, ?_, enough, rest, ?_⟩
    · rw [length_append]
      exact inside
    · rw [cell, stored, ← whole]
      simp

/-- Storing the read position gives the cells back. -/
theorem RingInv.publishReader (all : ¬ dst.length < len) : RingInv ring { state with
      readPos := advance ring readPos len
      reader := .idle (some qdOk)
      consumed := state.consumed ++ dst } := by
  obtain ⟨same, inside, enough, starts⟩ := facts
  have room := inv.room
  have length : (state.consumed ++ dst).length = state.consumed.length + len := by
    rw [length_append]
    omega
  refine ⟨starts, ?_, inv.writePos, ?_, ?_, inv.writer.mono rfl rfl rfl ?_, trivial⟩
  · change state.accepted.length < (state.consumed ++ dst).length + ring.dataSize
    omega
  · rw [same, inv.readPos, length]
    exact advance_eq _ (by omega)
  · have held := inv.held.drop len (by rw [length_drop]; omega)
    rw [drop_drop] at held
    rwa [length]
  · rw [length]
    omega

end

section

variable (stepEq : readerStep ring state elapsed = some next)
include stepEq

/-- What a step of the reader does. -/
theorem RingInv.readerStep_cases :
    (∃ pc, ReaderFacts ring state pc ∧ next = { state with reader := pc }) ∨
      ∃ len readPos dst, state.reader = .copy len readPos dst ∧ ¬ dst.length < len ∧
        next = { state with
          readPos := advance ring readPos len
          reader := .idle (some qdOk)
          consumed := state.consumed ++ dst } := by
  have facts := inv.reader
  rw [Ipc.readerStep] at stepEq
  split at stepEq
  · cases stepEq
  next len timeoutMs pc =>
    cases stepEq
    refine .inl ⟨.loadRead len timeoutMs state.writePos, ?_, rfl⟩
    exact ⟨state.accepted.length, inv.writePos, inv.length_le, le_rfl⟩
  next len timeoutMs writePos pc =>
    rw [pc] at facts
    obtain ⟨seen, loaded, lower, upper⟩ := facts
    split at stepEq <;> cases stepEq
    next enough =>
      refine .inl ⟨.position len, ?_, rfl⟩
      have room := inv.room
      rw [loaded, inv.readPos, readAvailable_eq lower (by omega)] at enough
      change state.consumed.length + len ≤ state.accepted.length
      omega
    · exact .inl ⟨.wait len timeoutMs, trivial, rfl⟩
  next len timeoutMs pc =>
    split at stepEq <;> cases stepEq
    next result giveUp => exact .inl ⟨.idle (some result), trivial, rfl⟩
    · exact .inl ⟨.loadWrite len timeoutMs, trivial, rfl⟩
  next len pc =>
    cases stepEq
    rw [pc] at facts
    refine .inl ⟨.copy len state.readPos [], ⟨rfl, Nat.zero_le _, facts, ?_⟩, rfl⟩
    rw [append_nil]
    exact inv.ordered
  next len readPos dst pc =>
    rw [pc] at facts
    split at stepEq <;> cases stepEq
    next inside => exact .inl ⟨_, inv.readerFacts_copy facts inside, rfl⟩
    next all => exact .inr ⟨len, readPos, dst, pc, all, rfl⟩

theorem RingInv.readerStep : RingInv ring next := by
  rcases inv.readerStep_cases stepEq with ⟨pc, moved, rfl⟩ | ⟨len, readPos, dst, pc, all, rfl⟩
  · exact inv.moveReader moved
  · have facts := inv.reader
    rw [pc] at facts
    exact inv.publishReader facts all

end

/-! ## Whole runs -/

theorem RingInv.step {label : RingLabel} (stepEq : ringStep ring state label = some next) :
    RingInv ring next := by
  cases label with
  | write src timeoutMs =>
    rw [ringStep] at stepEq
    split at stepEq
    · split at stepEq <;> cases stepEq <;> exact inv.moveWriter trivial
    · cases stepEq
  | read len timeoutMs =>
    rw [ringStep] at stepEq
    split at stepEq
    · split at stepEq <;> cases stepEq <;> exact inv.moveReader trivial
    · cases stepEq
  | writer elapsed => exact inv.writerStep stepEq
  | reader elapsed => exact inv.readerStep stepEq

end

theorem RingInv.of_reachable {memory : Nat → Byte}
    (run : Reachable (ringStep ring) (RingState.initial memory) state) : RingInv ring state :=
  run.invariant (RingInv ring) (RingInv.initial ring memory)
    fun _ _ _ inv _ stepEq => inv.step stepEq

/-- The bytes that the reader has copied out so far. -/
def RingState.bytesRead (state : RingState) : List Byte :=
  state.consumed ++
    match state.reader with
    | .copy _ _ dst => dst
    | _ => []

/-- The cell that the next step of the writer overwrites, if it copies a byte. -/
def RingState.target (ring : ShmRing) (state : RingState) : Option Nat :=
  match state.writer with
  | .copy src writePos copied =>
      if copied < src.length then some (copyCell ring writePos src.length copied) else none
  | _ => none

theorem RingInv.bytesRead_prefix (inv : RingInv ring state) :
    state.bytesRead <+: state.accepted := by
  have facts := inv.reader
  rw [RingState.bytesRead]
  split
  next pc =>
    rw [pc] at facts
    exact facts.2.2.2
  · rw [append_nil]
    exact inv.ordered

theorem RingInv.target_free (inv : RingInv ring state) {cell : Nat}
    (target : state.target ring = some cell) {position : Nat}
    (lower : state.consumed.length ≤ position) (upper : position < state.accepted.length) :
    cell ≠ position % ring.dataSize := by
  have facts := inv.writer
  rw [RingState.target] at target
  split at target
  next src writePos copied pc =>
    rw [pc] at facts
    obtain ⟨same, -, room, -⟩ := facts
    split at target
    next inside =>
      rw [← Option.some.inj target, same, inv.writePos, copyCell_eq _ inside (by omega)]
      exact (mod_ne_of_lt (by omega) (by omega)).symm
    · cases target
  · cases target

/-! ## The queue -/

/-- What a call does to the queue of bytes. -/
inductive FifoEvent
  | push (src : List Byte)
  | pop (dst : List Byte)

/-- A queue of at most `capacity` bytes. -/
def fifoStep (capacity : Nat) (queue : List Byte) : FifoEvent → Option (List Byte)
  | .push src => if queue.length + src.length ≤ capacity then some (queue ++ src) else none
  | .pop dst => if dst <+: queue then some (queue.drop dst.length) else none

def FifoEvent.pushed : FifoEvent → List Byte
  | .push src => src
  | .pop _ => []

def FifoEvent.popped : FifoEvent → List Byte
  | .push _ => []
  | .pop dst => dst

/-- The bytes in the ring. -/
def RingState.queue (state : RingState) : List Byte :=
  state.accepted.drop state.consumed.length

section

variable (inv : RingInv ring state)
include inv

theorem RingInv.push_event (pc : state.writer = .copy src writePos copied) :
    fifoStep (ring.dataSize - 1) state.queue (.push src) =
      some ((state.accepted ++ src).drop state.consumed.length) := by
  have facts := inv.writer
  rw [pc] at facts
  obtain ⟨-, -, room, -⟩ := facts
  have behind := inv.length_le
  rw [fifoStep, if_pos, RingState.queue, drop_append_of_le_length behind]
  rw [RingState.queue, length_drop]
  omega

theorem RingInv.pop_event (pc : state.reader = .copy len readPos dst) :
    fifoStep (ring.dataSize - 1) state.queue (.pop dst) =
      some (state.accepted.drop (state.consumed ++ dst).length) := by
  have facts := inv.reader
  rw [pc] at facts
  obtain ⟨-, -, -, rest, whole⟩ := facts
  rw [fifoStep, RingState.queue, if_pos, drop_drop, length_append]
  refine ⟨rest, ?_⟩
  rw [← whole, append_assoc, drop_left]

/-- Every step leaves the queue alone, or is one operation of it. -/
theorem RingInv.step_event {label : RingLabel} (stepEq : ringStep ring state label = some next) :
    (next.accepted = state.accepted ∧ next.consumed = state.consumed) ∨
      ∃ event, fifoStep (ring.dataSize - 1) state.queue event = some next.queue ∧
        next.accepted = state.accepted ++ event.pushed ∧
        next.consumed = state.consumed ++ event.popped := by
  cases label with
  | write src timeoutMs | read len timeoutMs =>
    rw [ringStep] at stepEq
    split at stepEq
    · split at stepEq <;> cases stepEq <;> exact .inl ⟨rfl, rfl⟩
    · cases stepEq
  | writer elapsed =>
    rcases inv.writerStep_cases stepEq with
      ⟨pc, -, rfl⟩ | ⟨src, writePos, copied, pc, ⟨inside, rfl⟩ | ⟨all, rfl⟩⟩
    · exact .inl ⟨rfl, rfl⟩
    · exact .inl ⟨rfl, rfl⟩
    · exact .inr ⟨.push src, inv.push_event pc, rfl, (append_nil _).symm⟩
  | reader elapsed =>
    rcases inv.readerStep_cases stepEq with ⟨pc, -, rfl⟩ | ⟨len, readPos, dst, pc, all, rfl⟩
    · exact .inl ⟨rfl, rfl⟩
    · exact .inr ⟨.pop dst, inv.pop_event pc, (append_nil _).symm, rfl⟩

end

/-- The operations of the queue that a state of the ring comes from. -/
def IsFifoRun (capacity : Nat) (state : RingState) (events : List FifoEvent) : Prop :=
  exec (fifoStep capacity) [] events = some state.queue ∧
    (events.map FifoEvent.pushed).flatten = state.accepted ∧
    (events.map FifoEvent.popped).flatten = state.consumed

/-- Every run of the ring carries out operations of the queue. -/
theorem exists_isFifoRun {memory : Nat → Byte}
    (run : Reachable (ringStep ring) (RingState.initial memory) state) :
    ∃ events, IsFifoRun (ring.dataSize - 1) state events := by
  induction run with
  | refl => exact ⟨[], rfl, rfl, rfl⟩
  | tail before _ stepEq ih =>
    obtain ⟨events, executed, pushed, popped⟩ := ih
    rcases (RingInv.of_reachable before).step_event stepEq with
      ⟨accepted, consumed⟩ | ⟨event, operation, accepted, consumed⟩
    · refine ⟨events, ?_, pushed.trans accepted.symm, popped.trans consumed.symm⟩
      rw [executed, RingState.queue, RingState.queue, accepted, consumed]
    · refine ⟨events ++ [event], ?_, ?_, ?_⟩
      · rw [exec_append, executed, Option.bind_some, exec_cons, operation]
        rfl
      · rw [map_append, flatten_append, pushed, accepted]
        simp
      · rw [map_append, flatten_append, popped, consumed]
        simp

/-- The ring is a queue of bytes.  What is read is what was accepted, in order; the
positions stay inside the ring; every byte that was accepted and not consumed is
in its cell, which the writer leaves alone; and whenever no call is in progress
the free cells and the used ones make up all but one. -/
theorem shmRing_fifo (ring : ShmRing) {memory : Nat → Byte} {state : RingState}
    (run : Reachable (ringStep ring) (RingState.initial memory) state) :
    (∃ events, IsFifoRun (ring.dataSize - 1) state events) ∧ state.bytesRead <+: state.accepted ∧
      state.writePos < ring.dataSize ∧ state.readPos < ring.dataSize ∧
      (state.Quiescent →
        readAvailable ring state.writePos state.readPos +
          writeAvailable ring state.writePos state.readPos = ring.dataSize - 1) ∧
      Holds state.data ring.dataSize state.consumed.length
        (state.accepted.drop state.consumed.length) ∧
      ∀ cell, state.target ring = some cell → ∀ position, state.consumed.length ≤ position →
        position < state.accepted.length → cell ≠ position % ring.dataSize := by
  have inv := RingInv.of_reachable run
  refine ⟨exists_isFifoRun run, inv.bytesRead_prefix, ?_, ?_, ?_, inv.held, ?_⟩
  · rw [inv.writePos]
    exact ring.mod_lt _
  · rw [inv.readPos]
    exact ring.mod_lt _
  · intro _
    have behind := inv.length_le
    have room := inv.room
    rw [inv.writePos, inv.readPos, readAvailable_eq behind room, writeAvailable_eq behind room]
    omega
  · intro cell target position lower upper
    exact inv.target_free target lower upper

/-- A ring of four bytes. -/
def fourBytes : ShmRing := ⟨4, by decide, by decide⟩

/-- Two bytes are written and read, then three, which wrap around; the reader starts
before the second write has stored its position and has to wait. -/
def wrappingWrite : List RingLabel :=
  [.write [1, 2] (-1)] ++ List.replicate 6 (.writer false) ++ [.read 2 0] ++
    List.replicate 6 (.reader false) ++ [.write [3, 4, 5] 0, .read 3 (-1)] ++
    List.replicate 6 (.writer false) ++ List.replicate 3 (.reader false) ++
    [.writer false] ++ List.replicate 7 (.reader false)

theorem shmRing_fifo_wrappingWrite :
    ∃ state, exec (ringStep fourBytes) (RingState.initial fun _ => 0) wrappingWrite = some state ∧
      state.Quiescent ∧ state.writePos = 1 ∧ state.bytesRead = [1, 2, 3, 4, 5] ∧
      readAvailable fourBytes state.writePos state.readPos +
        writeAvailable fourBytes state.writePos state.readPos = 3 := by
  refine exists_exec (fun state => state.writer = .idle (some qdOk) ∧
    state.reader = .idle (some qdOk) ∧ state.writePos = 1 ∧ state.bytesRead = [1, 2, 3, 4, 5])
    (by decide +kernel) ?_
  rintro state stateEq ⟨writer, reader, position, bytes⟩
  obtain ⟨-, -, -, -, total, -⟩ := shmRing_fifo fourBytes (reachable_of_exec stateEq)
  have quiescent : state.Quiescent := ⟨⟨_, writer⟩, _, reader⟩
  exact ⟨quiescent, position, bytes, total quiescent⟩

end QDaemon.Ipc
