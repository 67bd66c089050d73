import QDaemon.Common
import QDaemon.Transition.Run

/-!
# The work-stealing deque of the thread pool

One owner pushes and pops at the bottom, any number of thieves steal at the
top.  The model takes one load, store or compare-and-swap per step, under
sequential consistency.  Both indices are 64-bit words that may wrap.
-/

namespace QDaemon.ThreadPool

open Function Common Transition

universe u v

/-- `qd_wsdeque_t`. -/
structure WsDeque (Task : Type u) where
  buffer : Nat → Option Task
  capacity : Nat
  top : Nat
  bottom : Nat

namespace WsDeque

variable {Task : Type u} {Tid : Type v}

/-- `qd_wsdeque_init`: a zeroed buffer of the rounded capacity. -/
def wsdequeInit (capacity : Nat) : Option (WsDeque Task) :=
  if capacity = 0 then none
  else some ⟨fun _ => none, nextPow264 capacity, 0, 0⟩

/-- The buffer slot of an index. -/
def slot (deque : WsDeque Task) (index : Nat) : Option Task :=
  deque.buffer (index &&& (deque.capacity - 1))

/-- Where the owner stands inside `qd_wsdeque_push` or `qd_wsdeque_pop`.  The
constructors are named after the access that comes next. -/
inductive OwnerPc (Task : Type u)
  | idle
  | pushTop (task : Task) (bottom : Nat)
  | pushStore (task : Task) (bottom : Nat)
  | pushPublish (task : Task) (bottom : Nat)
  | popStore (bottom : Nat)
  | popTop (bottom : Nat)
  | popRead (bottom top : Nat)
  | popCas (bottom top : Nat) (task : Option Task)
  | popRestore (bottom : Nat) (result : Option Task)

/-- Where a thief stands inside `qd_wsdeque_steal`. -/
inductive ThiefPc (Task : Type u)
  | idle
  | stealBottom (top : Nat)
  | stealRead (top : Nat)
  | stealCas (top : Nat) (task : Option Task)

/-- The deque, the program counters, and the history of completed pushes and
of the tasks that pops and steals have returned. -/
structure State (Task : Type u) (Tid : Type v) where
  deque : WsDeque Task
  owner : OwnerPc Task
  thief : Tid → ThiefPc Task
  pushed : List Task
  returned : List Task

namespace State

/-- A deque with nobody inside it. -/
def initial (deque : WsDeque Task) : State Task Tid :=
  ⟨deque, .idle, fun _ => .idle, [], []⟩

/-- Record what an operation returned; `NULL` is no task. -/
def give (state : State Task Tid) (result : Option Task) : State Task Tid :=
  { state with returned := state.returned ++ result.toList }

end State

/-- The owner calls an operation or takes its next step, or a thief does. -/
inductive Label (Task : Type u) (Tid : Type v)
  | push (task : Task)
  | pop
  | owner
  | steal (thread : Tid)
  | thief (thread : Tid)

/-- The owner's next access. -/
def ownerStep (state : State Task Tid) : Option (State Task Tid) :=
  match state.owner with
  | .idle => none
  | .pushTop task bottom =>
      let size := (bottom + 2 ^ 64 - state.deque.top) % 2 ^ 64
      if state.deque.capacity - 1 ≤ size then some { state with owner := .idle }
      else some { state with owner := .pushStore task bottom }
  | .pushStore task bottom => some { state with
      deque := { state.deque with
        buffer := update state.deque.buffer
          (bottom &&& (state.deque.capacity - 1)) (some task) }
      owner := .pushPublish task bottom }
  | .pushPublish task bottom => some { state with
      deque := { state.deque with bottom := (bottom + 1) % 2 ^ 64 }
      owner := .idle
      pushed := state.pushed ++ [task] }
  | .popStore bottom => some { state with
      deque := { state.deque with bottom := bottom }
      owner := .popTop bottom }
  | .popTop bottom =>
      if state.deque.top ≤ bottom then
        some { state with owner := .popRead bottom state.deque.top }
      else some { state with owner := .popRestore bottom none }
  | .popRead bottom top =>
      if top = bottom then
        some { state with owner := .popCas bottom top (state.deque.slot bottom) }
      else some (State.give { state with owner := .idle } (state.deque.slot bottom))
  | .popCas bottom top task =>
      if state.deque.top = top then some { state with
        deque := { state.deque with top := (top + 1) % 2 ^ 64 }
        owner := .popRestore bottom task }
      else some { state with owner := .popRestore bottom none }
  | .popRestore bottom result => some (State.give { state with
      deque := { state.deque with bottom := (bottom + 1) % 2 ^ 64 }
      owner := .idle } result)

variable [DecidableEq Tid]

/-- A thief's next access. -/
def thiefStep (state : State Task Tid) (thread : Tid) : Option (State Task Tid) :=
  match state.thief thread with
  | .idle => none
  | .stealBottom top =>
      if state.deque.bottom ≤ top then
        some { state with thief := update state.thief thread .idle }
      else some { state with thief := update state.thief thread (.stealRead top) }
  | .stealRead top => some { state with
      thief := update state.thief thread (.stealCas top (state.deque.slot top)) }
  | .stealCas top task =>
      if state.deque.top = top then some (State.give { state with
        deque := { state.deque with top := (top + 1) % 2 ^ 64 }
        thief := update state.thief thread .idle } task)
      else some { state with thief := update state.thief thread .idle }

/-- The step relation.  Entering an operation is its first load. -/
def step (state : State Task Tid) : Label Task Tid → Option (State Task Tid)
  | .push task =>
      match state.owner with
      | .idle => some { state with owner := .pushTop task state.deque.bottom }
      | _ => none
  | .pop =>
      match state.owner with
      | .idle =>
          if state.deque.bottom = 0 then some state
          else some { state with owner := .popStore (state.deque.bottom - 1) }
      | _ => none
  | .owner => ownerStep state
  | .steal thread =>
      match state.thief thread with
      | .idle => some { state with
          thief := update state.thief thread (.stealBottom state.deque.top) }
      | _ => none
  | .thief thread => thiefStep state thread

/-- The bottom as it will stand when the owner's unfinished pop gives the
element back: the decremented word plus one. -/
def logicalBottom (state : State Task Tid) : Nat :=
  match state.owner with
  | .popTop _ | .popRead _ _ | .popCas _ _ _ | .popRestore _ _ =>
      (state.deque.bottom + 1) % 2 ^ 64
  | _ => state.deque.bottom

/-- The tasks in the deque, read from its buffer. -/
def contents (state : State Task Tid) : List Task :=
  (List.range ((logicalBottom state + 2 ^ 64 - state.deque.top) % 2 ^ 64)).filterMap
    fun k => state.deque.slot (state.deque.top + k)

/-- The task a pop that won the race for the last element is about to
return. -/
def hand (state : State Task Tid) : List Task :=
  match state.owner with
  | .popRestore _ result => result.toList
  | _ => []

end WsDeque

end QDaemon.ThreadPool
