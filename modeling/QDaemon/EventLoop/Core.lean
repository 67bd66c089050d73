import QDaemon.Linked.Doubly
import QDaemon.Transition.Run

/-!
# The event loop

`qd_event.c`: sources are registered with epoll under the address of their record.
One iteration of the loop takes a batch of events, each with such an address, and
calls the callbacks of the sources one after the other.  A callback may add, change and
delete sources; a deleted record is freed at once, and its memory can be allocated
again.

Reading a record that has been freed has no defined result: the loop is at fault and
makes no more steps.
-/

namespace QDaemon.EventLoop

open Function Linked Transition

universe u v w

/-! ## Event flags -/

/-- Translate flags bit by bit. -/
def translate (table : List (BitVec 32 × BitVec 32)) (flags : BitVec 32) : BitVec 32 :=
  table.foldl (fun result bits => if flags &&& bits.1 ≠ 0 then result ||| bits.2 else result) 0

/-- `QD_EVENT_READ`, `WRITE`, `ERROR`, `HANGUP` and `RDHUP` with their epoll flags. -/
def eventBits : List (BitVec 32 × BitVec 32) :=
  [(0x01, 0x001), (0x02, 0x004), (0x04, 0x008), (0x08, 0x010), (0x10, 0x2000)]

/-- `to_epoll_events`, with `QD_EVENT_EDGE` and `ONESHOT`. -/
def toEpollEvents : BitVec 32 → BitVec 32 :=
  translate (eventBits ++ [(0x20, 0x80000000), (0x40, 0x40000000)])

/-- `from_epoll_events`. -/
def fromEpollEvents : BitVec 32 → BitVec 32 :=
  translate (eventBits.map Prod.swap)

/-! ## The list of sources -/

section List

variable {N : Type u} [DecidableEq N]

/-- Put a new record in front. -/
def linkSource (lists : Doubly N) (source : N) : Option (Doubly N) := do
  let first := lists.first ()
  let lists ← lists.store first (.next source)
  let lists ← lists.setSuccessor (some source) first
  lists.store (some source) (.head ())

/-- Take a record out and free it. -/
def unlinkSource (lists : Doubly N) (source : N) : Option (Doubly N) :=
  (lists.bypass source).map fun lists => lists.free source

end List

/-! ## Calls -/

/-- `struct qd_event_source`, without its links. -/
structure Source (C : Type v) (A : Type w) where
  fd : Int
  events : BitVec 32
  activeEvents : BitVec 32
  callback : Option C
  arg : A
  registered : Bool
  enabled : Bool

/-- The list `sources` with its links, the other fields of the records, and what epoll has for each descriptor: the events and the address
that it has been given.  Each allocation of a record is numbered; the number of a
record that has been freed stays. -/
structure Loop (N : Type u) (C : Type v) (A : Type w) where
  lists : Doubly N
  source : N → Source C A
  numSources : BitVec 32
  interest : Int → Option (BitVec 32 × N)
  serial : N → Nat
  created : Nat

variable {N : Type u} {C : Type v} {A : Type w} [DecidableEq N]

namespace Loop

variable (loop : Loop N C A)

/-- Change the fields of a record. -/
def setSource (source : N) (change : Source C A → Source C A) : Loop N C A :=
  { loop with source := update loop.source source (change (loop.source source)) }

/-- `qd_event_add`.  The memory is what `calloc` returns; `accepted` is what epoll
answers if the descriptor is not registered. -/
def add (fd : Int) (events : BitVec 32) (callback : Option C) (arg : A)
    (memory : Option N) (accepted : Bool) : Option (Loop N C A × Option N) :=
  match memory with
  | none => some (loop, none)
  | some source =>
      if fd < 0 then some (loop, none)
      else if (loop.lists.node source).isSome then none
      else if (loop.interest fd).isSome ∨ accepted = false then some (loop, none)
      else (linkSource (loop.lists.setNode source ⟨none, none⟩) source).map fun lists =>
        ({ lists := lists
           source := update loop.source source
            ⟨fd, events, 0, callback, arg, true, true⟩
           numSources := loop.numSources + 1#32
           interest := update loop.interest fd (some (toEpollEvents events, source))
           serial := update loop.serial source loop.created
           created := loop.created + 1 }, some source)

/-- `epoll_ctl(EPOLL_CTL_MOD)` with the address of a record. -/
def modify (source : N) (events : BitVec 32) (accepted : Bool) : Loop N C A :=
  if (loop.interest (loop.source source).fd).isSome ∧ accepted = true then
    { loop with
      interest := update loop.interest (loop.source source).fd (some (events, source)) }
  else loop

/-- `qd_event_mod`. -/
def mod (source : N) (events : BitVec 32) (accepted : Bool) : Loop N C A :=
  (loop.setSource source fun fields => { fields with events := events }).modify source
    (toEpollEvents events) accepted

/-- `qd_event_enable`. -/
def enable (source : N) (accepted : Bool) : Loop N C A :=
  if (loop.source source).enabled then loop
  else (loop.setSource source fun fields => { fields with enabled := true }).modify source
    (toEpollEvents (loop.source source).events) accepted

/-- `qd_event_disable`. -/
def disable (source : N) (accepted : Bool) : Loop N C A :=
  if (loop.source source).enabled then
    (loop.setSource source fun fields => { fields with enabled := false }).modify source 0 accepted
  else loop

/-- `epoll_ctl(EPOLL_CTL_DEL)`, or the descriptor is closed. -/
def forget (fd : Int) : Loop N C A :=
  { loop with interest := update loop.interest fd none }

/-- `qd_event_del`. -/
def del (source : N) : Option (Loop N C A) :=
  let loop :=
    if (loop.source source).registered then
      (loop.forget (loop.source source).fd).setSource source fun fields =>
        { fields with registered := false }
    else loop
  (unlinkSource loop.lists source).map fun lists =>
    { loop with
      lists := lists
      numSources := loop.numSources - 1#32 }

/-- The traversal of `qd_event_del_fd`. -/
def findFd (fd : Int) (rounds : Nat) : Option (Option N) :=
  loop.lists.find (fun source => (loop.source source).fd = fd) rounds (loop.lists.first ())

end Loop

/-! ## The system -/

/-- What happens in an iteration, to the source with the given number: it is deleted,
its record is read by the loop, or its callback is called. -/
inductive Event
  | deleted (serial : Nat)
  | touched (serial : Nat)
  | invoked (serial : Nat)
  deriving DecidableEq

/-- Between iterations, before the next event of a batch, in a callback, or after an
access to a record that has been freed. -/
inductive Point (N : Type u)
  | idle
  | batch (rest : List (N × BitVec 32))
  | callback (rest : List (N × BitVec 32))
  | fault
  deriving DecidableEq

/-- The loop and the events since the latest batch, latest first. -/
structure State (N : Type u) (C : Type v) (A : Type w) where
  loop : Loop N C A
  point : Point N
  log : List Event

/-- A call, or the next part of `qd_event_loop_run_once`. -/
inductive Label (N : Type u) (C : Type v) (A : Type w)
  | add (fd : Int) (events : BitVec 32) (callback : Option C) (arg : A) (memory : Option N)
      (accepted : Bool)
  | mod (source : N) (events : BitVec 32) (accepted : Bool)
  | enable (source : N) (accepted : Bool)
  | disable (source : N) (accepted : Bool)
  | del (source : N)
  | delFd (fd : Int) (rounds : Nat)
  | close (fd : Int)
  | poll (ready : List (Int × BitVec 32))
  | dispatch
  | done

namespace State

/-- Calls are made between iterations and by callbacks. -/
def mayCall (state : State N C A) : Bool :=
  match state.point with
  | .idle => true
  | .callback _ => true
  | _ => false

/-- A call on a source that exists. -/
def onSource (state : State N C A) (source : N) (call : Loop N C A → Loop N C A) :
    Option (State N C A) :=
  if state.mayCall ∧ (state.loop.lists.node source).isSome then
    some { state with loop := call state.loop }
  else none

/-- `qd_event_del` on a source that exists. -/
def del (state : State N C A) (source : N) : Option (State N C A) :=
  if (state.loop.lists.node source).isSome then
    (state.loop.del source).map fun loop =>
      { state with
        loop := loop
        log := .deleted (state.loop.serial source) :: state.log }
  else none

/-- One round of the loop over the batch. -/
def dispatch (state : State N C A) (source : N) (revents : BitVec 32)
    (rest : List (N × BitVec 32)) : State N C A :=
  let serial := state.loop.serial source
  let state := { state with log := .touched serial :: state.log }
  if (state.loop.lists.node source).isNone then { state with point := .fault }
  else if (state.loop.source source).enabled = false then { state with point := .batch rest }
  else
    let state := { state with
      loop := state.loop.setSource source fun fields =>
        { fields with activeEvents := fromEpollEvents revents } }
    if (state.loop.source source).callback.isSome then
      { state with
        point := .callback rest
        log := .invoked serial :: state.log }
    else { state with point := .batch rest }

end State

/-- The batch for descriptors that are ready: the addresses that epoll has for them. -/
def pollBatch (loop : Loop N C A) : List (Int × BitVec 32) → Option (List (N × BitVec 32))
  | [] => some []
  | (fd, revents) :: ready =>
      (loop.interest fd).bind fun entry =>
        (pollBatch loop ready).map fun rest => (entry.2, revents) :: rest

/-- The step relation. -/
def step (state : State N C A) : Label N C A → Option (State N C A)
  | .add fd events callback arg memory accepted =>
      if state.mayCall then
        (state.loop.add fd events callback arg memory accepted).map fun result =>
          { state with loop := result.1 }
      else none
  | .mod source events accepted => state.onSource source fun loop => loop.mod source events accepted
  | .enable source accepted => state.onSource source fun loop => loop.enable source accepted
  | .disable source accepted => state.onSource source fun loop => loop.disable source accepted
  | .del source => if state.mayCall then state.del source else none
  | .delFd fd rounds =>
      if state.mayCall then
        (state.loop.findFd fd rounds).bind fun
          | none => some state
          | some source => state.del source
      else none
  | .close fd => if state.mayCall then some { state with loop := state.loop.forget fd } else none
  | .poll ready =>
      match state.point with
      | .idle => (pollBatch state.loop ready).map fun batch =>
          { state with
            point := .batch batch
            log := [] }
      | _ => none
  | .dispatch =>
      match state.point with
      | .batch [] => some { state with point := .idle }
      | .batch ((source, revents) :: rest) => some (state.dispatch source revents rest)
      | _ => none
  | .done =>
      match state.point with
      | .callback rest => some { state with point := .batch rest }
      | _ => none

/-- A loop without sources; `memory` is what records hold that have never been
allocated. -/
def State.initial (memory : N → Source C A) : State N C A where
  loop := {
    lists := ⟨fun _ => none, fun _ => none⟩
    source := memory
    numSources := 0
    interest := fun _ => none
    serial := fun _ => 0
    created := 0 }
  point := .idle
  log := []

end QDaemon.EventLoop
