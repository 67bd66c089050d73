import QDaemon.Linked.Doubly
import QDaemon.Transition.Run

/-!
# The epoll backend

`qd_backend_epoll.c`: operations are kept in a list of pending nodes, and epoll has one
registration for each descriptor, with the address of a node.  `qd_ep_wait` takes a
batch of events and performs the operations whose nodes they carry.

A node is allocated in memory that is not in use.  An access to a node that has been
freed has no result, and neither has a traversal that takes more than the given number
of rounds.
-/

namespace QDaemon.Aio.Epoll

open Function Linked Transition

universe u v

/-! ## Requests and nodes -/

/-- `qd_op_type_t`. -/
inductive Op
  | nop | read | write | poll | accept | connect | send | recv | close | timeout | cancel
  | channel
  deriving DecidableEq

/-- The kinds of which `qd_ep_submit` creates a pending operation. -/
def Op.queued : Op → Bool
  | .nop | .close | .cancel => false
  | _ => true

/-- `EPOLLIN`. -/
def epollIn : BitVec 32 := 0x1

/-- `EPOLLOUT`. -/
def epollOut : BitVec 32 := 0x4

/-- `EPOLLONESHOT`. -/
def epollOneshot : BitVec 32 := 0x40000000

/-- `qd_ep_op_to_events`. -/
def opToEvents : Op → BitVec 32
  | .read | .recv | .accept => epollIn
  | .write | .send | .connect => epollOut
  | .poll => epollIn ||| epollOut
  | .channel => epollIn
  | _ => 0

/-- `qd_aio_req_t`, without what is only handed to the system calls. -/
structure Req (U : Type v) where
  op : Op
  fd : Int
  userData : Option U

/-- `qd_completion_t`. -/
structure Completion (U : Type v) where
  userData : Option U
  result : Int
  flags : BitVec 32
  op : Op
  deriving DecidableEq

/-- `struct qd_ep_pending`, without its links. -/
structure Pending (U : Type v) where
  req : Req U
  registered : Bool
  isWatch : Bool
  watchUserData : Option U

/-- What epoll has for a descriptor.  A registration with `EPOLLONESHOT` is disarmed
when its event is delivered. -/
structure Registration (N : Type u) where
  events : BitVec 32
  node : N
  armed : Bool
  deriving DecidableEq

/-- `struct qd_ep_backend` and the registrations.  `operations` are those that have been
accepted and neither completed nor cancelled nor unwatched, in the order of their
acceptance; the code has no such field. -/
structure Backend (N : Type u) (U : Type v) where
  lists : Doubly N
  tail : Option N
  count : BitVec 32
  maxEvents : Int
  pending : N → Pending U
  interest : Int → Option (Registration N)
  operations : List N

/-- `QD_OK`, `QD_ERR_NOMEM`, `QD_ERR_NOENT` and `-errno`. -/
inductive Status
  | ok
  | nomem
  | noent
  | errno
  deriving DecidableEq

/-- What the system answers during a call: the memory that `qd_calloc` returns, the
descriptor of `timerfd_create`, whether epoll accepts a change that it need not
refuse; and the number of rounds for traversals. -/
structure Environment (N : Type u) where
  memory : Option N
  timer : Option Int
  accepted : Bool
  rounds : Nat

variable {N : Type u} {U : Type v} [DecidableEq N] (backend : Backend N U)

namespace Backend

/-- `qd_ep_init`; `memory` is what nodes hold that have never been allocated. -/
def init (queueDepth : Int) (memory : N → Pending U) : Backend N U where
  lists := ⟨fun _ => none, fun _ => none⟩
  tail := none
  count := 0
  maxEvents := if queueDepth > 0 then queueDepth else 256
  pending := memory
  interest := fun _ => none
  operations := []

/-! ## The list and the registrations -/

/-- `qd_ep_find_pending`. -/
def findPending (fd : Int) (rounds : Nat) : Option (Option N) :=
  backend.lists.find (fun node => (backend.pending node).req.fd = fd) rounds
    (backend.lists.first ())

/-- `qd_ep_remove_pending`. -/
def removePending (node : N) : Option (Backend N U) :=
  (backend.lists.node node).bind fun fields =>
    (backend.lists.bypass node).map fun lists =>
      { backend with
        lists := lists
        tail := if fields.next.isSome then backend.tail else fields.back
        count := backend.count - 1#32 }

/-- Remove a node and free it. -/
def discard (node : N) : Option (Backend N U) :=
  (backend.removePending node).map fun backend =>
    { backend with
      lists := backend.lists.free node
      operations := backend.operations.erase node }

/-- Allocate a node and add it to the list, with `prev` left `NULL`. -/
def append (backend : Backend N U) (node : N) (pending : Pending U) : Option (Backend N U) :=
  if (backend.lists.node node).isSome then none
  else (Doubly.append (backend.lists.setNode node ⟨none, none⟩) backend.tail node).map fun lists =>
    { backend with
      lists := lists
      tail := some node
      count := backend.count + 1#32
      pending := update backend.pending node pending }

/-- The node is registered and its operation accepted. -/
def accept (node : N) : Backend N U :=
  { backend with
    pending := update backend.pending node
      { backend.pending node with registered := true }
    operations := backend.operations ++ [node] }

/-- A registration is entered. -/
def enter (fd : Int) (events : BitVec 32) (node : N) : Backend N U :=
  { backend with interest := update backend.interest fd (some ⟨events, node, true⟩) }

/-- `epoll_ctl(EPOLL_CTL_DEL)`, or the descriptor is closed. -/
def forget (fd : Int) : Backend N U :=
  { backend with interest := update backend.interest fd none }

/-- `epoll_ctl(EPOLL_CTL_ADD)`, which fails with `EEXIST` if the descriptor has a
registration. -/
def ctlAdd (fd : Int) (events : BitVec 32) (node : N) (accepted : Bool) : Option (Backend N U) :=
  if (backend.interest fd).isNone ∧ accepted = true then some (backend.enter fd events node)
  else none

/-- `epoll_ctl(EPOLL_CTL_MOD)`, which fails if the descriptor has no registration. -/
def ctlMod (fd : Int) (events : BitVec 32) (node : N) (accepted : Bool) : Option (Backend N U) :=
  if (backend.interest fd).isSome ∧ accepted = true then some (backend.enter fd events node)
  else none

/-- Register a node with `EPOLL_CTL_MOD` or with `EPOLL_CTL_ADD`, which is tried again
as `EPOLL_CTL_MOD` if there is a registration. -/
def register (modify : Bool) (fd : Int) (events : BitVec 32) (node : N)
    (accepted : Bool) : Option (Backend N U) :=
  if modify = true ∨ (backend.interest fd).isSome then backend.ctlMod fd events node accepted
  else backend.ctlAdd fd events node accepted

/-- The operation is accepted if the registration was; otherwise its node is removed. -/
def conclude (node : N) (registered : Option (Backend N U)) : Option (Backend N U × Status) :=
  match registered with
  | some backend => some (backend.accept node, .ok)
  | none => (backend.discard node).map fun backend => (backend, .errno)

/-! ## Calls -/

/-- Whether another node for the descriptor is registered. -/
def registeredOther (node : N) (existing : Option N) : Bool :=
  existing.any fun other => other ≠ node ∧ (backend.pending other).registered

/-- The part of `qd_ep_submit` that creates a pending operation. -/
def enqueue (req : Req U) (env : Environment N) : Option (Backend N U × Status) :=
  match env.memory with
  | none => some (backend, .nomem)
  | some node =>
      (backend.append node ⟨req, false, false, none⟩).bind fun backend =>
        if opToEvents req.op = 0 then some (backend.accept node, .ok)
        else (backend.findPending req.fd env.rounds).bind fun existing =>
          backend.conclude node (backend.register (backend.registeredOther node existing) req.fd
            (opToEvents req.op ||| epollOneshot) node env.accepted)

/-- The registration of a node is deleted, and its descriptor closed if it is a timer's. -/
def release (pending : Pending U) (registered : Bool) : Backend N U :=
  let backend := if registered then backend.forget pending.req.fd else backend
  if pending.req.op = .timeout then backend.forget pending.req.fd else backend

variable [DecidableEq U]

/-- `QD_OP_CANCEL`. -/
def cancel (backend : Backend N U) (userData : Option U) (rounds : Nat) :
    Option (Backend N U × Status) :=
  (backend.lists.find (fun node => (backend.pending node).req.userData = userData) rounds
    (backend.lists.first ())).bind fun
    | none => some (backend, .noent)
    | some node =>
        ((backend.release (backend.pending node) (backend.pending node).registered).discard
          node).map fun backend => (backend, .ok)

/-- `qd_ep_submit`.  A new descriptor has no registration. -/
def submit (backend : Backend N U) (req : Req U) (env : Environment N) :
    Option (Backend N U × Status) :=
  match req.op with
  | .nop => some (backend, .ok)
  | .close => some (backend.forget req.fd, .ok)
  | .cancel => backend.cancel req.userData env.rounds
  | .timeout =>
      match env.timer with
      | none => some (backend, .errno)
      | some fd =>
          if (backend.interest fd).isSome then none else backend.enqueue { req with fd := fd } env
  | _ => backend.enqueue req env

/-- `qd_ep_watch_fd`. -/
def watchFd (fd : Int) (userData : Option U) (env : Environment N) :
    Option (Backend N U × Status) :=
  match env.memory with
  | none => some (backend, .nomem)
  | some node =>
      (backend.append node ⟨⟨.channel, fd, userData⟩, false, true, userData⟩).bind fun backend =>
        backend.conclude node (backend.ctlAdd fd epollIn node env.accepted)

/-- `qd_ep_unwatch_fd`. -/
def unwatchFd (fd : Int) (rounds : Nat) : Option (Backend N U × Status) :=
  (backend.lists.find (fun node => (backend.pending node).req.fd = fd ∧
    (backend.pending node).isWatch = true) rounds (backend.lists.first ())).bind fun
    | none => some (backend, .noent)
    | some node =>
        ((if (backend.pending node).registered then backend.forget fd else backend).discard
          node).map fun backend => (backend, .ok)

end Backend

/-! ## Completions -/

/-- `EAGAIN`. -/
def eagain : Int := 11

/-- `ENOTSUP`. -/
def enotsup : Int := 95

/-- `qd_ep_do_io`: the result, or `errno`.  `answer` is the result of the system call,
if there is one. -/
def doIo (op : Op) (answer : Except Int Int) : Except Int Int :=
  match op with
  | .read | .write | .accept | .connect | .send | .recv => answer
  | .poll | .channel => .ok 0
  | .timeout =>
      match answer with
      | .ok _ => .ok 0
      | .error errno => if errno = eagain then .ok 0 else .error errno
  | _ => .error enotsup

/-- The result of a completion. -/
def ioResult (op : Op) (answer : Except Int Int) : Int :=
  match doIo op answer with
  | .ok result => result
  | .error errno => -errno

namespace Backend

/-- The event of a descriptor is delivered. -/
def deliver (fd : Int) (registration : Registration N) : Backend N U :=
  { backend with
    interest := update backend.interest fd
      (some { registration with armed := registration.events &&& epollOneshot = 0 }) }

/-- `epoll_wait` for descriptors that are ready: the addresses that it returns. -/
def poll (backend : Backend N U) : List Int → Option (Backend N U × List N)
  | [] => some (backend, [])
  | fd :: ready =>
      (backend.interest fd).bind fun registration =>
        if registration.armed then
          ((backend.deliver fd registration).poll ready).map fun (backend, batch) =>
            (backend, registration.node :: batch)
        else none

/-- One round of the loop of `qd_ep_wait`. -/
def complete (node : N) (answer : Except Int Int) : Option (Backend N U × Completion U) :=
  if (backend.lists.node node).isNone then none
  else if (backend.pending node).isWatch then
    some (backend, ⟨(backend.pending node).watchUserData, 0, 0, .channel⟩)
  else
    ((backend.release (backend.pending node) true).discard node).map fun next =>
      (next, ⟨(backend.pending node).req.userData, ioResult (backend.pending node).req.op answer, 0,
        (backend.pending node).req.op⟩)

end Backend

/-! ## The system -/

/-- What a call returns. -/
inductive Result (U : Type v)
  | status (status : Status)
  | submitted (count : Nat)
  | completions (out : List (Completion U))
  deriving DecidableEq

/-- After a call, in the loop of `qd_ep_submit_batch`, or in the loop of `qd_ep_wait`. -/
inductive Point (N : Type u) (U : Type v)
  | idle (result : Result U)
  | submitting (rest : List (Req U)) (submitted : Nat)
  | waiting (rest : List N) (max : Int) (out : List (Completion U))

/-- The state of the system. -/
structure State (N : Type u) (U : Type v) where
  backend : Backend N U
  point : Point N U

/-- A call, or the next round of a loop. -/
inductive Label (N : Type u) (U : Type v)
  | submit (req : Req U) (env : Environment N)
  | submitBatch (reqs : List (Req U))
  | submitNext (env : Environment N)
  | watchFd (fd : Int) (userData : Option U) (env : Environment N)
  | unwatchFd (fd : Int) (rounds : Nat)
  | wait (max : Int) (ready : List Int)
  | complete (answer : Except Int Int)

/-- A call that returns a status. -/
def State.call (state : State N U) (call : Backend N U → Option (Backend N U × Status)) :
    Option (State N U) :=
  match state.point with
  | .idle _ => (call state.backend).map fun (backend, status) => ⟨backend, .idle (.status status)⟩
  | _ => none

variable [DecidableEq U]

/-- The step relation. -/
def step (state : State N U) : Label N U → Option (State N U)
  | .submit req env => state.call fun backend => backend.submit req env
  | .submitBatch reqs =>
      match state.point with
      | .idle _ => some ⟨state.backend, .submitting reqs 0⟩
      | _ => none
  | .submitNext env =>
      match state.point with
      | .submitting [] submitted => some ⟨state.backend, .idle (.submitted submitted)⟩
      | .submitting (req :: rest) submitted =>
          (state.backend.submit req env).map fun (backend, status) =>
            if status = .ok then ⟨backend, .submitting rest (submitted + 1)⟩
            else ⟨backend, .idle (.status status)⟩
      | _ => none
  | .watchFd fd userData env => state.call fun backend => backend.watchFd fd userData env
  | .unwatchFd fd rounds => state.call fun backend => backend.unwatchFd fd rounds
  | .wait max ready =>
      match state.point with
      | .idle _ =>
          if min max state.backend.maxEvents ≤ 0 then
            some ⟨state.backend, .idle (.status .errno)⟩
          else if ready.Nodup ∧ (ready.length : Int) ≤ min max state.backend.maxEvents then
            (state.backend.poll ready).map fun (backend, batch) => ⟨backend, .waiting batch max []⟩
          else none
      | _ => none
  | .complete answer =>
      match state.point with
      | .waiting [] _ out => some ⟨state.backend, .idle (.completions out)⟩
      | .waiting (node :: rest) max out =>
          if (out.length : Int) < max then
            (state.backend.complete node answer).map fun (backend, completion) =>
              ⟨backend, .waiting rest max (out ++ [completion])⟩
          else some ⟨state.backend, .idle (.completions out)⟩
      | _ => none

/-- A backend after `qd_ep_init`. -/
def State.initial (queueDepth : Int) (memory : N → Pending U) : State N U where
  backend := Backend.init queueDepth memory
  point := .idle (.status .ok)

end QDaemon.Aio.Epoll
