import QDaemon.Common
import QDaemon.Transition.Run

/-!
# The bounded MPMC ring of the thread pool

Each ring cell carries a sequence number that encodes the lap it is in.  A
producer may claim position `pos` when the cell's sequence equals `pos`, a
consumer when it equals `pos + 1`; the claim itself is a compare-and-swap on
the tail or the head.  The model takes one atomic access per step, so every
interleaving of the loads, stores and compare-and-swaps of any number of
threads is a list of labels.  All counters are 64-bit words.
-/

namespace QDaemon.ThreadPool

open Function Common Transition

universe u v

/-- `qd_mpmc_cell_t`. -/
structure MpmcCell (Task : Type u) where
  seq : Nat
  task : Option Task

/-- `struct qd_mpmc_ring`. -/
structure MpmcRing (Task : Type u) where
  cells : Nat → MpmcCell Task
  capacity : Nat
  mask : Nat
  head : Nat
  tail : Nat

namespace MpmcRing

variable {Task : Type u} {Tid : Type v}

/-- The cells, counters and mask `qd_mpmc_ring_init` stores for a capacity. -/
def fresh (capacity : Nat) : MpmcRing Task where
  cells i := ⟨i, none⟩
  capacity := capacity
  mask := capacity - 1
  head := 0
  tail := 0

/-- `qd_mpmc_ring_init`.  The size of the cell array is computed modulo
`2 ^ 64`, and `qd_calloc` returns no memory for an empty array. -/
def mpmcRingInit (capacity : Nat) : Option (MpmcRing Task) :=
  if capacity = 0 then none
  else if nextPow264 capacity * 16 % 2 ^ 64 = 0 then none
  else some (fresh (nextPow264 capacity))

variable (ring : MpmcRing Task)

/-- The cell of a position. -/
def cell (pos : Nat) : MpmcCell Task :=
  ring.cells (pos &&& ring.mask)

/-- Overwrite the cell of a position. -/
def setCell (pos : Nat) (value : MpmcCell Task) : MpmcRing Task :=
  { ring with cells := update ring.cells (pos &&& ring.mask) value }

@[simp]
theorem setCell_capacity (pos : Nat) (value : MpmcCell Task) :
    (ring.setCell pos value).capacity = ring.capacity := rfl

/-- Where a thread stands inside `qd_mpmc_ring_push` or `qd_mpmc_ring_pop`. -/
inductive Pc (Task : Type u)
  | idle
  | pushTail (task : Task)
  | pushSeq (task : Task) (pos : Nat)
  | pushCas (task : Task) (pos : Nat)
  | pushStore (task : Task) (pos : Nat)
  | pushPublish (pos : Nat)
  | popHead
  | popSeq (pos : Nat)
  | popCas (pos : Nat)
  | popRead (pos : Nat)
  | popPublish (pos : Nat) (task : Option Task)

/-- What an atomic step makes visible to the caller or to the order of
operations. -/
inductive Event (Task : Type u)
  | silent
  | reserved (task : Task)
  | pushOk
  | busy
  | claimed (pos : Nat)
  | popOk (pos : Nat) (task : Option Task)
  | again

/-- One atomic access of a thread.  `spurious` makes a weak compare-and-swap
fail although the word has the expected value. -/
def threadStep (spurious : Bool) (ring : MpmcRing Task) :
    Pc Task → MpmcRing Task × Pc Task × Event Task
  | .idle => (ring, .idle, .silent)
  | .pushTail task => (ring, .pushSeq task ring.tail, .silent)
  | .pushSeq task pos =>
      let dif := signedDiff (ring.cell pos).seq pos
      if dif = 0 then (ring, .pushCas task pos, .silent)
      else if dif < 0 then (ring, .idle, .busy)
      else (ring, .pushTail task, .silent)
  | .pushCas task pos =>
      if ring.tail = pos ∧ spurious = false then
        ({ ring with tail := (pos + 1) % 2 ^ 64 }, .pushStore task pos, .reserved task)
      else (ring, .pushSeq task ring.tail, .silent)
  | .pushStore task pos =>
      (ring.setCell pos ⟨(ring.cell pos).seq, some task⟩, .pushPublish pos, .silent)
  | .pushPublish pos =>
      (ring.setCell pos ⟨(pos + 1) % 2 ^ 64, (ring.cell pos).task⟩, .idle, .pushOk)
  | .popHead => (ring, .popSeq ring.head, .silent)
  | .popSeq pos =>
      let dif := signedDiff (ring.cell pos).seq ((pos + 1) % 2 ^ 64)
      if dif = 0 then (ring, .popCas pos, .silent)
      else if dif < 0 then (ring, .idle, .again)
      else (ring, .popHead, .silent)
  | .popCas pos =>
      if ring.head = pos ∧ spurious = false then
        ({ ring with head := (pos + 1) % 2 ^ 64 }, .popRead pos, .claimed pos)
      else (ring, .popSeq ring.head, .silent)
  | .popRead pos => (ring, .popPublish pos (ring.cell pos).task, .silent)
  | .popPublish pos task =>
      (ring.setCell pos ⟨(pos + ring.capacity) % 2 ^ 64, (ring.cell pos).task⟩,
        .idle, .popOk pos task)

/-- The ring, every thread's position, and the history of the two orders: the
pushed tasks in the order of their compare-and-swap on the tail, the positions
of the pops in the order of their compare-and-swap on the head, and what each
finished pop returned. -/
structure State (Task : Type u) (Tid : Type v) where
  ring : MpmcRing Task
  pc : Tid → Pc Task
  pushes : List Task
  claims : List Nat
  pops : List (Nat × Option Task)

namespace State

/-- All threads outside the ring. -/
def initial (capacity : Nat) : State Task Tid where
  ring := fresh capacity
  pc _ := .idle
  pushes := []
  claims := []
  pops := []

/-- Append what a step made visible to the history. -/
def record (state : State Task Tid) : Event Task → State Task Tid
  | .reserved task => { state with pushes := state.pushes ++ [task] }
  | .claimed pos => { state with claims := state.claims ++ [pos] }
  | .popOk pos task => { state with pops := state.pops ++ [(pos, task)] }
  | _ => state

end State

/-- A thread enters one of the two operations or takes its next atomic step. -/
inductive Label (Task : Type u) (Tid : Type v)
  | push (thread : Tid) (task : Task)
  | pop (thread : Tid)
  | run (thread : Tid) (spurious : Bool)

variable [DecidableEq Tid]

/-- The step relation of the ring under any number of threads. -/
def step (state : State Task Tid) : Label Task Tid → Option (State Task Tid)
  | .push thread task =>
      match state.pc thread with
      | .idle => some { state with pc := update state.pc thread (.pushTail task) }
      | _ => none
  | .pop thread =>
      match state.pc thread with
      | .idle => some { state with pc := update state.pc thread .popHead }
      | _ => none
  | .run thread spurious =>
      let (ring, pc, event) := threadStep spurious state.ring (state.pc thread)
      some (State.record { state with ring := ring, pc := update state.pc thread pc } event)

end MpmcRing

end QDaemon.ThreadPool
