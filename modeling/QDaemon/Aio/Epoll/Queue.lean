import QDaemon.Aio.Epoll.Core

/-!
# The pending list as a queue

A node is appended with `prev` left `NULL`, so the links of the list lead from the
oldest operation to the latest one, but none leads back.  As long as only the oldest
operation is removed, that is enough for the list to hold all operations.
-/

namespace QDaemon.Aio.Epoll

open Option List Function Linked Linked.Doubly Transition

universe u v

variable {N : Type u} {U : Type v}

/-- The back pointer of a node that is reached from any place. -/
def unmarked : Place Unit N → Option N := fun _ => none

/-- The list holds the nodes, and no others are allocated. -/
structure Queue (backend : Backend N U) (nodes : List N) : Prop where
  chains : backend.lists.Chains unmarked fun _ => nodes
  tail : backend.tail = nodes.getLast?
  count : backend.count = BitVec.ofNat 32 nodes.length
  allocated : ∀ node, (backend.lists.backOf node).isSome ↔ node ∈ nodes

/-- The list holds the operations, and epoll has only addresses of their nodes. -/
structure Sound (backend : Backend N U) : Prop where
  queue : Queue backend backend.operations
  registered : ∀ node ∈ backend.operations, (backend.pending node).registered = true
  known : ∀ {fd registration}, backend.interest fd = some registration →
    registration.node ∈ backend.operations ∧ (backend.pending registration.node).req.fd = fd

variable {backend next : Backend N U} {nodes : List N} {node : N} {pending : Pending U}
variable {rounds : Nat} {fd : Int} {status : Status}

/-! ## The list -/

namespace Queue

section

variable (queue : Queue backend nodes)
include queue

theorem node_isSome : (backend.lists.node node).isSome ↔ node ∈ nodes := by
  rw [← queue.allocated, Lists.backOf, isSome_map]

/-- A traversal finds the first node of the list. -/
theorem find_yields (condition : N → Bool) :
    Yields (backend.lists.find condition rounds (backend.lists.first ())) (nodes.length < rounds)
      fun found => found = nodes.find? condition := by
  exact queue.chains.find_yields condition ()

end

variable [DecidableEq N]

/-- A node that is not allocated is appended. -/
theorem append (queue : Queue backend nodes) (fresh : node ∉ nodes) (pending : Pending U) :
    ∃ lists, backend.append node pending = some { backend with
        lists := lists
        tail := some node
        count := backend.count + 1#32
        pending := update backend.pending node pending } ∧
      Queue { backend with
        lists := lists
        tail := some node
        count := backend.count + 1#32
        pending := update backend.pending node pending } (nodes ++ [node]) := by
  have unused : backend.lists.node node = none := by
    simpa using mt queue.node_isSome.mp fresh
  have fieldsEq : (backend.lists.setNode node ⟨none, none⟩).node node =
      some ⟨none, unmarked (Lists.endPlace (.head ()) nodes)⟩ := by
    simp [Lists.setNode, unmarked]
  obtain ⟨lists, storeEq, chained, backs⟩ :=
    (queue.chains.setNode unused ⟨none, none⟩).addTail (fun _ => fresh) fieldsEq
  refine ⟨lists, ?_, chained, ?_, ?_, fun other => ?_⟩
  · rw [Backend.append, unused, Doubly.append, queue.tail, placeOf_getLast?,
      storeEq]
    rfl
  · rw [List.getLast?_concat]
  · simp only [queue.count, length_append, length_singleton, BitVec.ofNat_add]
  · rw [backs, mem_append, ← queue.allocated]
    by_cases same : other = node
    · simp [same, Lists.isSome_backOf_setNode]
    · rw [Lists.backOf_setNode_of_ne same]
      simp [same]

/-- The first node is removed and freed. -/
theorem discard {rest : List N} (queue : Queue backend (node :: rest)) :
    ∃ lists tail, backend.discard node = some { backend with
        lists := lists
        tail := tail
        count := backend.count - 1#32
        operations := backend.operations.erase node } ∧
      Queue { backend with
        lists := lists
        tail := tail
        count := backend.count - 1#32
        operations := backend.operations.erase node } rest := by
  have whole : backend.lists.Chains unmarked fun _ => [] ++ node :: rest := queue.chains
  obtain ⟨after, bypassEq, chained, allocated⟩ := bypass_at whole rfl
  have chain := queue.chains.chain ()
  obtain ⟨fields, fieldsEq⟩ := isSome_iff_exists.mp
    (queue.node_isSome.mpr (mem_cons_self))
  have nextEq : fields.next = rest.head? := by
    have behind : backend.lists.Chain unmarked (.next node) rest := ⟨chain.1.2.2, chain.2⟩
    have loaded := behind.load_eq
    rw [Lists.load, fieldsEq] at loaded
    exact some.inj loaded
  have backEq : fields.back = none := by
    have marked := chain.1.2.1
    rw [Lists.backOf, fieldsEq] at marked
    exact some.inj marked
  refine ⟨after.free node, if fields.next.isSome then backend.tail else fields.back, ?_, chained,
    ?_, ?_, fun other => ?_⟩
  · simp [Backend.discard, Backend.removePending, fieldsEq, bypassEq]
  · cases rest with
    | nil => simp [nextEq, backEq]
    | cons second rest => simp [nextEq, queue.tail]
  · simp only [queue.count, length_cons, BitVec.ofNat_add]
    exact BitVec.add_sub_cancel _ _
  · rw [allocated, queue.allocated, mem_cons]
    have gone : node ∉ rest := (nodup_cons.mp (queue.chains.nodup ())).1
    constructor
    · rintro ⟨different, same | old⟩
      · exact absurd same different
      · exact old
    · intro old
      exact ⟨fun same => gone (same ▸ old), .inr old⟩

end Queue

/-! ## Registrations -/

/-- The oldest operation has been removed. -/
structure Removed (backend next : Backend N U) (node : N) (rest : List N) : Prop where
  sound : Sound next
  operations : next.operations = rest
  pending : next.pending = backend.pending
  interest : next.interest = update backend.interest (backend.pending node).req.fd none

/-- A new operation has been accepted. -/
structure Accepted (backend next : Backend N U) (node : N) (pending : Pending U)
    (interest : Int → Option (Registration N)) [DecidableEq N] : Prop where
  sound : Sound next
  fresh : node ∉ backend.operations
  operations : next.operations = backend.operations ++ [node]
  pending : next.pending =
    update backend.pending node { pending with registered := true }
  interest : next.interest = interest

namespace Sound

theorem init (queueDepth : Int) (memory : N → Pending U) : Sound (Backend.init queueDepth memory) where
  queue := {
    chains := ⟨⟨fun _ => nodup_nil, by simp⟩, fun _ => ⟨trivial, rfl⟩⟩
    tail := rfl
    count := rfl
    allocated := by simp [Backend.init, Lists.backOf] }
  registered := by simp [Backend.init]
  known := by simp [Backend.init]

section

variable (sound : Sound backend)
include sound

theorem forget (fd : Int) : Sound (backend.forget fd) where
  queue := ⟨sound.queue.chains, sound.queue.tail, sound.queue.count, sound.queue.allocated⟩
  registered := sound.registered
  known := by
    intro other registration entered
    simp only [Backend.forget, update_apply] at entered
    split at entered
    · cases entered
    · exact sound.known entered

theorem enter (mem : node ∈ backend.operations) (events : BitVec 32) :
    Sound (backend.enter (backend.pending node).req.fd events node) where
  queue := ⟨sound.queue.chains, sound.queue.tail, sound.queue.count, sound.queue.allocated⟩
  registered := sound.registered
  known := by
    intro other registration entered
    simp only [Backend.enter, update_apply] at entered
    split at entered
    next same =>
      cases entered
      exact ⟨mem, same.symm⟩
    · exact sound.known entered

/-- A descriptor without an operation has no registration. -/
theorem interest_eq_none
    (unused : ∀ node ∈ backend.operations, (backend.pending node).req.fd ≠ fd) :
    backend.interest fd = none := by
  cases entered : backend.interest fd with
  | none => rfl
  | some registration =>
    obtain ⟨mem, fdEq⟩ := sound.known entered
    exact absurd fdEq (unused _ mem)

end

variable [DecidableEq N]

variable (sound : Sound backend)
include sound

/-- The oldest operation is removed, with the registration of its descriptor. -/
theorem remove {rest : List N} (first : backend.operations = node :: rest) :
    ∃ next, (backend.forget (backend.pending node).req.fd).discard node = some next ∧
      Removed backend next node rest := by
  have forgotten := sound.forget (backend.pending node).req.fd
  have queue : Queue (backend.forget (backend.pending node).req.fd) (node :: rest) :=
    first ▸ forgotten.queue
  obtain ⟨lists, tail, discardEq, shorter⟩ := queue.discard
  have erased : backend.operations.erase node = rest := by
    rw [first, erase_cons_head]
  refine ⟨_, discardEq, ⟨?_, ?_, ?_⟩, erased, rfl, rfl⟩
  · exact erased.symm ▸ shorter
  · intro other mem
    exact sound.registered other (mem_of_mem_erase mem)
  · intro fd registration entered
    obtain ⟨mem, fdEq⟩ := forgotten.known entered
    have different : registration.node ≠ node := by
      intro same
      simp only [Backend.forget] at entered fdEq
      rw [← fdEq, same] at entered
      exact absurd entered (by simp)
    exact ⟨(mem_erase_of_ne different).mpr mem, fdEq⟩

theorem append_yields (pending : Pending U) :
    Yields (backend.append node pending) (backend.lists.node node = none) fun _ => True where
  good _ := trivial
  returns unused := by
    have fresh : node ∉ backend.operations := by
      rw [← sound.queue.node_isSome, unused]
      simp
    obtain ⟨_, appended, -⟩ := sound.queue.append fresh pending
    rw [appended]
    rfl

variable (appendEq : backend.append node pending = some next)
include appendEq

theorem fresh_of_append : node ∉ backend.operations := by
  intro mem
  rw [Backend.append, if_pos (sound.queue.node_isSome.mpr mem)] at appendEq
  cases appendEq

/-- A node has been appended, and its operation can be accepted. -/
theorem append : Queue next (backend.operations ++ [node]) ∧ next.operations = backend.operations ∧
      next.pending = update backend.pending node pending ∧
      next.interest = backend.interest ∧
      Accepted backend (next.accept node) node pending backend.interest := by
  have fresh := sound.fresh_of_append appendEq
  obtain ⟨lists, appended, queue⟩ := sound.queue.append fresh pending
  cases appended.symm.trans appendEq
  refine ⟨queue, rfl, rfl, rfl, ⟨⟨queue.chains, queue.tail, queue.count, queue.allocated⟩,
    fun other mem => ?_, fun {fd registration} entered => ?_⟩, fresh, rfl, ?_, rfl⟩
  · simp only [Backend.accept, update_apply]
    split
    · rfl
    next different =>
      apply sound.registered
      simpa [Backend.accept, different] using mem
  · obtain ⟨mem, fdEq⟩ := sound.known entered
    have different : registration.node ≠ node := fun same => fresh (same ▸ mem)
    refine ⟨mem_append_left _ mem, ?_⟩
    simpa [Backend.accept, update_of_ne different] using fdEq
  · simp [Backend.accept]

end Sound

/-! ## Calls that create an operation -/

/-- Memory is allocated that is not in use, a new descriptor has no registration, and
traversals have enough rounds. -/
structure Environment.Lawful (env : Environment N) (backend : Backend N U) : Prop where
  memory : ∀ node ∈ env.memory, backend.lists.node node = none
  timer : ∀ fd ∈ env.timer, backend.interest fd = none
  rounds : backend.operations.length + 1 < env.rounds

variable [DecidableEq N]

/-- What epoll has after a node has been registered. -/
def entered (backend : Backend N U) (fd : Int) (events : BitVec 32) (node : N) :
    Int → Option (Registration N) :=
  update backend.interest fd (some ⟨events, node, true⟩)

/-- The events that a node is registered with. -/
def Pending.events (pending : Pending U) : BitVec 32 :=
  if pending.isWatch then epollIn else opToEvents pending.req.op ||| epollOneshot

/-- What epoll has after an operation has been accepted. -/
def accepting (backend : Backend N U) (pending : Pending U) (node : N) :
    Int → Option (Registration N) :=
  if opToEvents pending.req.op = 0 then backend.interest
  else entered backend pending.req.fd pending.events node

/-- The outcomes of a call that creates an operation. -/
inductive Enqueued (backend : Backend N U) (pending : Pending U) : Backend N U → Prop
  | refused : Enqueued backend pending backend
  | failed {next : Backend N U} (empty : backend.operations = []) (sound : Sound next)
      (still : next.operations = []) : Enqueued backend pending next
  | accepted {next : Backend N U} (node : N)
      (accepted : Accepted backend next node pending (accepting backend pending node)) :
      Enqueued backend pending next

theorem Accepted.enter (accepted : Accepted backend next node pending backend.interest)
    (events : BitVec 32) : Accepted backend (next.enter pending.req.fd events node) node pending
      (entered backend pending.req.fd events node) where
  sound := by
    have mem : node ∈ next.operations := by
      rw [accepted.operations]
      exact mem_append_right _ (mem_singleton_self node)
    have fdEq : (next.pending node).req.fd = pending.req.fd := by
      rw [accepted.pending, update_self]
    exact fdEq ▸ accepted.sound.enter mem events
  fresh := accepted.fresh
  operations := accepted.operations
  pending := accepted.pending
  interest := by
    rw [Backend.enter, accepted.interest]
    rfl

namespace Sound

variable {appended : Backend N U}

variable (sound : Sound backend)
include sound

/-- A new node is registered, or it is removed from a list without others. -/
theorem conclude_yields {accepted : Bool} {enabled : Prop}
    (secure : backend.operations = [] ∨ accepted = true) (events : opToEvents pending.req.op ≠ 0)
    (appendEq : backend.append node pending = some appended) : Yields (appended.conclude node
        (if accepted then some (appended.enter pending.req.fd pending.events node) else none))
      enabled fun (next, _) => Enqueued backend pending next := by
  obtain ⟨queue, operations, -, interest, acceptable⟩ := sound.append appendEq
  cases accepted with
  | true =>
    refine .pure (.accepted node ?_)
    rw [accepting, if_neg events]
    exact acceptable.enter pending.events
  | false =>
    have empty : backend.operations = [] := secure.resolve_right (by simp)
    rw [empty] at queue operations
    obtain ⟨lists, tail, discardEq, shorter⟩ := queue.discard
    have concluded : appended.conclude node none = _ := congrArg (Option.map _) discardEq
    rw [if_neg (by simp), concluded]
    refine .pure (.failed empty ⟨?_, ?_, ?_⟩ ?_)
    · simp only [operations] at shorter ⊢
      exact shorter
    · simp [operations]
    · intro fd registration old
      rw [interest] at old
      have mem := (sound.known old).1
      rw [empty] at mem
      exact absurd mem not_mem_nil
    · simp [operations]

/-- A descriptor of its own is added to the registrations. -/
theorem ctlAdd_eq (events : BitVec 32) (accepted : Bool)
    (unused : ∀ node ∈ backend.operations, (backend.pending node).req.fd ≠ fd)
    (appendEq : backend.append node pending = some appended) :
    appended.ctlAdd fd events node accepted =
      if accepted then some (appended.enter fd events node) else none := by
  obtain ⟨-, -, -, interest, -⟩ := sound.append appendEq
  simp [Backend.ctlAdd, interest, sound.interest_eq_none unused]

/-- A new node on a descriptor of its own is added to the registrations. -/
theorem register_eq {existing : Option N} (events : BitVec 32)
    (accepted : Bool) (unused : ∀ node ∈ backend.operations, (backend.pending node).req.fd ≠ fd)
    (fdEq : pending.req.fd = fd) (appendEq : backend.append node pending = some appended)
    (found : appended.findPending fd rounds = some existing) :
    appended.register (appended.registeredOther node existing) fd events node accepted =
      if accepted then some (appended.enter fd events node) else none := by
  have fresh := sound.fresh_of_append appendEq
  obtain ⟨queue, -, pendingEq, interest, -⟩ := sound.append appendEq
  have none : appended.interest fd = none := by
    rw [interest]
    exact sound.interest_eq_none unused
  have only : existing = some node := by
    rw [(queue.find_yields _).good found, List.find?_append, List.find?_eq_none.mpr]
    · simp [pendingEq, fdEq]
    · intro other mem
      have different : other ≠ node := fun same => fresh (same ▸ mem)
      simpa [pendingEq, update_of_ne different] using unused other mem
  rw [← sound.ctlAdd_eq events accepted unused appendEq]
  simp [Backend.register, Backend.registeredOther, only, none]

/-- `qd_ep_submit` for an operation on a descriptor of its own. -/
theorem enqueue_yields {req : Req U} {env : Environment N}
    (unused : ∀ node ∈ backend.operations, (backend.pending node).req.fd ≠ req.fd)
    (secure : backend.operations = [] ∨ env.accepted = true) :
    Yields (backend.enqueue req env) (env.Lawful backend) fun (next, _) =>
      Enqueued backend ⟨req, false, false, none⟩ next := by
  unfold Backend.enqueue
  split
  · exact .pure .refused
  next node memory =>
    refine ((sound.append_yields _).when fun lawful => lawful.memory node memory).bind ?_
    rintro appended appendEq -
    obtain ⟨queue, -, -, -, acceptable⟩ := sound.append appendEq
    split
    next without =>
      refine .pure (.accepted node ?_)
      rw [accepting, if_pos without]
      exact acceptable
    next events =>
      refine ((queue.find_yields _).when fun lawful => ?_).bind ?_
      · simpa using lawful.rounds
      · rintro existing found -
        rw [sound.register_eq _ _ unused rfl appendEq found]
        exact sound.conclude_yields secure events appendEq

/-- `qd_ep_watch_fd` for a descriptor of its own. -/
theorem watchFd_yields {userData : Option U} {env : Environment N}
    (unused : ∀ node ∈ backend.operations, (backend.pending node).req.fd ≠ fd)
    (secure : backend.operations = [] ∨ env.accepted = true) :
    Yields (backend.watchFd fd userData env) (env.Lawful backend) fun (next, _) =>
      Enqueued backend ⟨⟨.channel, fd, userData⟩, false, true, userData⟩ next := by
  unfold Backend.watchFd
  split
  · exact .pure .refused
  next node memory =>
    refine ((sound.append_yields _).when fun lawful => lawful.memory node memory).bind ?_
    rintro appended appendEq -
    rw [sound.ctlAdd_eq _ _ unused appendEq]
    have events : opToEvents .channel ≠ 0 := by decide
    exact sound.conclude_yields secure events appendEq

end Sound

/-! ## Calls that remove an operation -/

/-- The outcomes of a call that removes an operation. -/
inductive Dropped (backend : Backend N U) : Backend N U → Prop
  | missing : Dropped backend backend
  | removed {next : Backend N U} {node : N} {rest : List N}
      (first : backend.operations = node :: rest) (removed : Removed backend next node rest) :
      Dropped backend next

omit [DecidableEq N] in
theorem release_registered (backend : Backend N U) (pending : Pending U) :
    backend.release pending true = backend.forget pending.req.fd := by
  simp only [Backend.release, if_true]
  split
  · simp [Backend.forget]
  · rfl

omit [DecidableEq N] in
theorem exists_rest {nodes : List N} (first : nodes.head? = some node) :
    ∃ rest, nodes = node :: rest :=
  List.head?_eq_some_iff.mp first

namespace Sound

section

variable (sound : Sound backend)
include sound

/-- A call that removes the first operation with a property. -/
theorem drop {condition : N → Bool} {found : Option N}
    (oldest : ∀ node, backend.operations.find? condition = some node →
      backend.operations.head? = some node) (foundEq : found = backend.operations.find? condition) :
    found = none ∨ ∃ node rest next, found = some node ∧ condition node = true ∧
      backend.operations = node :: rest ∧
      (backend.forget (backend.pending node).req.fd).discard node = some next ∧
      Removed backend next node rest := by
  cases found with
  | none => exact .inl rfl
  | some node =>
    obtain ⟨rest, first⟩ := exists_rest (oldest node foundEq.symm)
    obtain ⟨next, discardEq, removed⟩ := sound.remove first
    exact .inr ⟨node, rest, next, rfl, List.find?_some foundEq.symm, first, discardEq, removed⟩

/-- `QD_OP_CANCEL` for the oldest operation. -/
theorem cancel_yields [DecidableEq U] {userData : Option U}
    (oldest : ∀ node, backend.operations.find? (fun node =>
      (backend.pending node).req.userData = userData) = some node →
        backend.operations.head? = some node) :
    Yields (backend.cancel userData rounds) (backend.operations.length < rounds)
      fun (next, _) => Dropped backend next := by
  refine (sound.queue.find_yields _).bind ?_
  rintro found - foundEq
  rcases sound.drop oldest foundEq with rfl | ⟨node, rest, after, rfl, -, first, discardEq, removed⟩
  · exact .pure .missing
  · have registered := sound.registered node (first ▸ mem_cons_self)
    simp only [registered, release_registered, discardEq]
    exact .pure (.removed first removed)

/-- `qd_ep_unwatch_fd` for the oldest operation. -/
theorem unwatchFd_yields (oldest : ∀ node, backend.operations.find? (fun node =>
      (backend.pending node).req.fd = fd ∧ (backend.pending node).isWatch = true) = some node →
        backend.operations.head? = some node) :
    Yields (backend.unwatchFd fd rounds) (backend.operations.length < rounds)
      fun (next, _) => Dropped backend next := by
  refine (sound.queue.find_yields _).bind ?_
  rintro found - foundEq
  rcases sound.drop oldest foundEq with
    rfl | ⟨node, rest, after, rfl, watched, first, discardEq, removed⟩
  · exact .pure .missing
  · have registered := sound.registered node (first ▸ mem_cons_self)
    obtain ⟨fdEq, -⟩ := of_decide_eq_true watched
    rw [fdEq] at discardEq
    simp only [registered, if_true, discardEq]
    exact .pure (.removed first removed)

end

variable (sound : Sound backend)
include sound

/-- A round of the loop of `qd_ep_wait` for a watched descriptor or the oldest
operation. -/
theorem complete_yields {answer : Except Int Int}
    (oldest : (backend.pending node).isWatch = true ∨ backend.operations.head? = some node) :
    Yields (backend.complete node answer) (node ∈ backend.operations) fun (next, _) =>
      (next = backend ∧ (backend.pending node).isWatch = true) ∨
        ∃ rest, backend.operations = node :: rest ∧ Removed backend next node rest := by
  unfold Backend.complete
  split
  next freed =>
    refine .stuck fun mem => ?_
    rw [← not_isSome, sound.queue.node_isSome.mpr mem] at freed
    cases freed
  split
  next watched => exact .pure (.inl ⟨rfl, watched⟩)
  next notWatched =>
    obtain ⟨rest, first⟩ := exists_rest (oldest.resolve_left notWatched)
    obtain ⟨after, discardEq, removed⟩ := sound.remove first
    rw [release_registered, discardEq]
    exact .pure (.inr ⟨rest, first, removed⟩)

/-! ## Batches -/

omit [DecidableEq N] in
theorem deliver {registration : Registration N} (found : backend.interest fd = some registration) :
    Sound (backend.deliver fd registration) where
  queue := ⟨sound.queue.chains, sound.queue.tail, sound.queue.count, sound.queue.allocated⟩
  registered := sound.registered
  known := by
    intro other entry entered
    simp only [Backend.deliver, update_apply] at entered
    split at entered
    next same =>
      cases entered
      have old := sound.known found
      rwa [← same] at old
    · exact sound.known entered

omit [DecidableEq N] in
/-- `epoll_wait` returns the nodes of operations on the descriptors that are ready. -/
theorem poll_yields {ready : List Int} : Yields (backend.poll ready)
      (ready.Nodup ∧ ∀ fd ∈ ready, ∃ registration, backend.interest fd = some registration ∧
        registration.armed = true)
      fun (next, batch) =>
        Sound next ∧ next.operations = backend.operations ∧ next.pending = backend.pending ∧
          (∀ node ∈ batch, node ∈ backend.operations) ∧
          batch.map (fun node => (backend.pending node).req.fd) = ready := by
  induction ready generalizing backend with
  | nil => exact .pure ⟨sound, rfl, rfl, by simp, rfl⟩
  | cons fd ready ih =>
    cases found : backend.interest fd with
    | none =>
      rw [Backend.poll, found]
      refine .stuck fun ⟨_, armed⟩ => ?_
      obtain ⟨_, entered, -⟩ := armed fd mem_cons_self
      exact absurd (found.symm.trans entered) (by simp)
    | some registration =>
      rw [Backend.poll, found, bind_some]
      split
      case isFalse disarmed =>
        refine .stuck fun ⟨_, armed⟩ => ?_
        obtain ⟨_, entered, isArmed⟩ := armed fd mem_cons_self
        cases found.symm.trans entered
        exact disarmed isArmed
      refine .map ((ih (sound.deliver found)).mono ?_ ?_)
      · rintro ⟨nodup, armed⟩
        obtain ⟨gone, rest⟩ := nodup_cons.mp nodup
        refine ⟨rest, fun other mem => ?_⟩
        have different : other ≠ fd := fun same => gone (same ▸ mem)
        simp only [Backend.deliver, update_of_ne different]
        exact armed other (mem_cons_of_mem fd mem)
      · rintro ⟨last, batch⟩ ⟨after, operations, pendingEq, mem, fds⟩
        obtain ⟨nodeMem, fdEq⟩ := sound.known found
        refine ⟨after, operations, pendingEq, ?_, ?_⟩
        · rintro node (_ | ⟨_, later⟩)
          · exact nodeMem
          · exact mem node later
        · rw [map_cons, fdEq, ← fds]
          rfl

end Sound

end QDaemon.Aio.Epoll
