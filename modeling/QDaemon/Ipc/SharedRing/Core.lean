import QDaemon.Bits.Word
import QDaemon.Bytes.LittleEndian
import QDaemon.Common
import QDaemon.Transition.Run

/-!
# The shared-memory ring

`qd_ipc_shm.c`: a ring of bytes in memory that two processes share, one of which
writes and the other reads.  The two positions are indices into the ring and one
byte always stays free.  Each load and store of a position and each copied byte is
a step of its own.
-/

namespace QDaemon.Ipc

open Bits Bytes Common Transition

/-- A mapped ring.  The object was given its size by `ftruncate`, whose length is
signed. -/
structure ShmRing where
  dataSize : Nat
  positive : 0 < dataSize
  mapped : dataSize < 2 ^ 63

/-- `sizeof(qd_shm_ring_header_t)`. -/
def shmRingHeaderSize : Nat := 40

/-- `qd_shm_ring_create`: the size of the ring for a requested one.  The object
cannot be mapped if its total size is zero or negative as a signed length. -/
def shmRingCreate (pageSize size : Nat) : Option Nat :=
  if size = 0 then none
  else
    let dataSize := wordAlign size pageSize
    let totalSize := wordAlign (wordAdd shmRingHeaderSize dataSize) pageSize
    if totalSize = 0 ∨ 2 ^ 63 ≤ totalSize then none else some dataSize

/-- A multiple of `2 ^ k` below `2 ^ 64` leaves room for another `2 ^ k`. -/
theorem align_add_le {k : Nat} (small : k < 64) {x : Nat} (bound : x < 2 ^ 64) :
    x / 2 ^ k * 2 ^ k + 2 ^ k ≤ 2 ^ 64 := by
  have power : 2 ^ 64 = 2 ^ (64 - k) * 2 ^ k := by
    rw [← Nat.pow_add, Nat.sub_add_cancel small.le]
  rw [power] at bound ⊢
  have quotient : x / 2 ^ k < 2 ^ (64 - k) := Nat.div_lt_of_lt_mul (by rwa [Nat.mul_comm])
  calc x / 2 ^ k * 2 ^ k + 2 ^ k = (x / 2 ^ k + 1) * 2 ^ k := (Nat.succ_mul _ _).symm
    _ ≤ 2 ^ (64 - k) * 2 ^ k := Nat.mul_le_mul_right _ quotient

/-- Every created ring is mapped: where the header, the ring and the rounding
overflow together, nothing is left to map. -/
theorem shmRingCreate_lt {k size dataSize : Nat} (header : shmRingHeaderSize < 2 ^ k)
    (small : k < 64) (created : shmRingCreate (2 ^ k) size = some dataSize) :
    dataSize < 2 ^ 63 := by
  rw [shmRingCreate] at created
  split at created
  · cases created
  simp only [wordAlign_two_pow small] at created
  split at created
  · cases created
  next fits =>
    obtain ⟨nonzero, signed⟩ := not_or.mp fits
    have aligned := align_add_le small (Nat.mod_lt (size + (2 ^ k - 1)) (Nat.two_pow_pos 64))
    rw [← wordAdd, Option.some.inj created] at aligned
    have total : wordAdd shmRingHeaderSize dataSize = shmRingHeaderSize + dataSize :=
      wordAdd_eq (by omega)
    rw [Option.some.inj created, total] at nonzero signed
    by_contra large
    by_cases overflow : shmRingHeaderSize + dataSize + (2 ^ k - 1) < 2 ^ 64
    · rw [wordAdd_eq overflow] at signed
      have whole := Nat.div_add_mod' (shmRingHeaderSize + dataSize + (2 ^ k - 1)) (2 ^ k)
      omega
    · have wrapped : wordAdd (shmRingHeaderSize + dataSize) (2 ^ k - 1) < 2 ^ k := by
        rw [wordAdd]
        omega
      rw [Nat.div_eq_of_lt wrapped, Nat.zero_mul] at nonzero
      exact nonzero rfl

theorem shmRingCreate_lt_page : shmRingCreate (2 ^ 12) 100 = some 4096 ∧ 4096 < 2 ^ 63 :=
  ⟨rfl, @shmRingCreate_lt 12 100 _ (by decide) (by decide) rfl⟩

variable (ring : ShmRing)

/-- `qd_shm_ring_write_available`, from the two positions it loads. -/
def writeAvailable (writePos readPos : Nat) : Nat :=
  if readPos ≤ writePos then wordSub (wordSub ring.dataSize (wordSub writePos readPos)) 1
  else wordSub (wordSub readPos writePos) 1

/-- `qd_shm_ring_read_available`, from the two positions it loads. -/
def readAvailable (writePos readPos : Nat) : Nat :=
  if readPos ≤ writePos then wordSub writePos readPos
  else wordAdd (wordSub ring.dataSize readPos) writePos

/-- The cell of byte `offset` of a copy of `len` bytes at `position`: one `memcpy`,
or two if the copy wraps around. -/
def copyCell (position len offset : Nat) : Nat :=
  let firstPart := wordSub ring.dataSize position
  if len ≤ firstPart then position + offset
  else if offset < firstPart then position + offset
  else offset - firstPart

/-- The position after a copy. -/
def advance (position len : Nat) : Nat :=
  wordAdd position len % ring.dataSize

/-- What a call that has to wait does: it gives up, or waits and tries again. -/
def waitResult (timeoutMs : Int) (elapsed : Bool) : Option Int :=
  if timeoutMs = 0 then some qdErrAgain
  else if 0 < timeoutMs ∧ elapsed = true then some qdErrTimeout
  else none

/-- Where the writer is in `qd_shm_ring_write_timeout`.  Outside, the result of the
last call is kept. -/
inductive WriterPc
  | idle (result : Option Int)
  | loadWrite (src : List Byte) (timeoutMs : Int)
  | loadRead (src : List Byte) (timeoutMs : Int) (writePos : Nat)
  | wait (src : List Byte) (timeoutMs : Int)
  | position (src : List Byte)
  | copy (src : List Byte) (writePos copied : Nat)
  deriving DecidableEq

/-- Where the reader is in `qd_shm_ring_read_timeout`. -/
inductive ReaderPc
  | idle (result : Option Int)
  | loadWrite (len : Nat) (timeoutMs : Int)
  | loadRead (len : Nat) (timeoutMs : Int) (writePos : Nat)
  | wait (len : Nat) (timeoutMs : Int)
  | position (len : Nat)
  | copy (len readPos : Nat) (dst : List Byte)
  deriving DecidableEq

/-- The ring and both sides.  `accepted` collects the bytes of the writes that have
stored their position, `consumed` those of the reads. -/
structure RingState where
  data : Nat → Byte
  writePos : Nat
  readPos : Nat
  writer : WriterPc
  reader : ReaderPc
  accepted : List Byte
  consumed : List Byte

/-- A created ring, over whatever its memory holds. -/
def RingState.initial (memory : Nat → Byte) : RingState :=
  ⟨memory, 0, 0, .idle none, .idle none, [], []⟩

/-- The next access of the writer. -/
def writerStep (state : RingState) (elapsed : Bool) : Option RingState :=
  match state.writer with
  | .idle _ => none
  | .loadWrite src timeoutMs =>
      some { state with writer := .loadRead src timeoutMs state.writePos }
  | .loadRead src timeoutMs writePos =>
      if src.length ≤ writeAvailable ring writePos state.readPos then
        some { state with writer := .position src }
      else some { state with writer := .wait src timeoutMs }
  | .wait src timeoutMs =>
      match waitResult timeoutMs elapsed with
      | some result => some { state with writer := .idle (some result) }
      | none => some { state with writer := .loadWrite src timeoutMs }
  | .position src => some { state with writer := .copy src state.writePos 0 }
  | .copy src writePos copied =>
      if inside : copied < src.length then
        some { state with
          data := Function.update state.data (copyCell ring writePos src.length copied) src[copied]
          writer := .copy src writePos (copied + 1) }
      else
        some { state with
          writePos := advance ring writePos src.length
          writer := .idle (some qdOk)
          accepted := state.accepted ++ src }

/-- The next access of the reader. -/
def readerStep (state : RingState) (elapsed : Bool) : Option RingState :=
  match state.reader with
  | .idle _ => none
  | .loadWrite len timeoutMs =>
      some { state with reader := .loadRead len timeoutMs state.writePos }
  | .loadRead len timeoutMs writePos =>
      if len ≤ readAvailable ring writePos state.readPos then
        some { state with reader := .position len }
      else some { state with reader := .wait len timeoutMs }
  | .wait len timeoutMs =>
      match waitResult timeoutMs elapsed with
      | some result => some { state with reader := .idle (some result) }
      | none => some { state with reader := .loadWrite len timeoutMs }
  | .position len => some { state with reader := .copy len state.readPos [] }
  | .copy len readPos dst =>
      if dst.length < len then
        some { state with
          reader := .copy len readPos (dst ++ [state.data (copyCell ring readPos len dst.length)]) }
      else
        some { state with
          readPos := advance ring readPos len
          reader := .idle (some qdOk)
          consumed := state.consumed ++ dst }

/-- A call, or the next access of a side.  `elapsed` is the outcome of the clock
comparison. -/
inductive RingLabel
  | write (src : List Byte) (timeoutMs : Int)
  | read (len : Nat) (timeoutMs : Int)
  | writer (elapsed : Bool)
  | reader (elapsed : Bool)

/-- One step of the ring.  A null pointer counts as an empty buffer. -/
def ringStep (state : RingState) : RingLabel → Option RingState
  | .write src timeoutMs =>
      match state.writer with
      | .idle _ =>
          if src = [] ∨ wordSub ring.dataSize 1 < src.length then
            some { state with writer := .idle (some qdErrInval) }
          else some { state with writer := .loadWrite src timeoutMs }
      | _ => none
  | .read len timeoutMs =>
      match state.reader with
      | .idle _ =>
          if len = 0 then some { state with reader := .idle (some qdErrInval) }
          else some { state with reader := .loadWrite len timeoutMs }
      | _ => none
  | .writer elapsed => writerStep ring state elapsed
  | .reader elapsed => readerStep ring state elapsed

/-- No call is in progress. -/
def RingState.Quiescent (state : RingState) : Prop :=
  (∃ result, state.writer = .idle result) ∧ ∃ result, state.reader = .idle result

end QDaemon.Ipc
