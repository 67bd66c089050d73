import QDaemon.Aio.Epoll.Queue

/-!
# Runs of the epoll backend

What one step does, as long as the pending list is used as a queue, and that the list
then stays one.
-/

namespace QDaemon.Aio.Epoll

open Option List Linked Transition

universe u v

variable {N : Type u} {U : Type v}

/-! ## Careful steps -/

/-- The nodes whose events have been delivered and not yet been handled. -/
def State.batch (state : State N U) : List N :=
  match state.point with
  | .waiting rest _ _ => rest
  | _ => []

/-- The request that a step hands to `qd_ep_submit`. -/
def State.request (state : State N U) : Label N U → Option (Req U × Environment N)
  | .submit req env => some (req, env)
  | .submitNext env =>
      match state.point with
      | .submitting (req :: _) _ => some (req, env)
      | _ => none
  | _ => none

/-- The kind of the operation that a step creates, if it does. -/
def State.created (state : State N U) : Label N U → Option Op
  | .watchFd _ _ _ => some .channel
  | label => ((state.request label).map fun request => request.1.op).filter Op.queued

/-- No operation is on the descriptor. -/
def Unused (backend : Backend N U) (fd : Int) : Prop :=
  ∀ node ∈ backend.operations, (backend.pending node).req.fd ≠ fd

/-- The first operation with a property is the oldest one. -/
def Oldest (backend : Backend N U) (condition : N → Bool) : Prop :=
  ∀ node, backend.operations.find? condition = some node → backend.operations.head? = some node

/-- A new operation is on a descriptor of its own, and epoll does not refuse it while
there are others. -/
def Secure (backend : Backend N U) (fd : Int) (env : Environment N) : Prop :=
  Unused backend fd ∧ (backend.operations = [] ∨ env.accepted = true)

section

variable [DecidableEq U]

/-- A request that creates an operation as above, or cancels the oldest one. -/
def CarefulRequest (backend : Backend N U) (req : Req U) (env : Environment N) : Prop :=
  match req.op with
  | .nop | .close => True
  | .cancel => Oldest backend fun node => (backend.pending node).req.userData = req.userData
  | .timeout => ∀ fd ∈ env.timer, Secure backend fd env
  | _ => Secure backend req.fd env

/-- Operations are created as above, and only the oldest one is completed, cancelled or
unwatched. -/
def Careful (state : State N U) (label : Label N U) : Prop :=
  (∀ request ∈ state.request label, CarefulRequest state.backend request.1 request.2) ∧
    match label with
    | .watchFd fd _ env => Secure state.backend fd env
    | .unwatchFd fd _ => Oldest state.backend fun node =>
        (state.backend.pending node).req.fd = fd ∧ (state.backend.pending node).isWatch = true
    | .complete _ => ∀ node ∈ state.batch.head?, (state.backend.pending node).isWatch = true ∨
        state.backend.operations.head? = some node
    | _ => True

end

/-! ## The state between steps -/

/-- The loop of `qd_ep_wait` has room for the completions of the batch. -/
def State.Room (state : State N U) : Prop :=
  match state.point with
  | .waiting rest max out => (out.length + rest.length : Int) ≤ max
  | _ => True

/-- The list holds the operations, and the batch only has nodes of operations, each
once. -/
structure Inv (state : State N U) : Prop where
  sound : Sound state.backend
  room : state.Room
  delivered : ∀ node ∈ state.batch, node ∈ state.backend.operations
  nodup : state.batch.Nodup

/-- A call can be made, or a loop goes on, and the system behaves: descriptors that are
ready have registrations that are armed. -/
def Enabled (state : State N U) : Label N U → Prop
  | .submit _ env | .watchFd _ _ env =>
      (∃ result, state.point = .idle result) ∧ env.Lawful state.backend
  | .submitBatch _ => ∃ result, state.point = .idle result
  | .submitNext env =>
      (∃ rest submitted, state.point = .submitting rest submitted) ∧ env.Lawful state.backend
  | .unwatchFd _ rounds =>
      (∃ result, state.point = .idle result) ∧ state.backend.operations.length < rounds
  | .wait max ready =>
      (∃ result, state.point = .idle result) ∧ ready.Nodup ∧
        (ready.length : Int) ≤ min max state.backend.maxEvents ∧
        ∀ fd ∈ ready, ∃ registration, state.backend.interest fd = some registration ∧
          registration.armed = true
  | .complete _ => ∃ rest max out, state.point = .waiting rest max out

variable {backend : Backend N U} {req : Req U} {env : Environment N} {status : Status}
variable {state next : State N U} {label : Label N U}

theorem State.call_yields {call : Backend N U → Option (Backend N U × Status)} {enabled : Prop}
    {good : Backend N U × Status → Prop} {met : State N U → Prop}
    (yields : Yields (call state.backend) enabled good)
    (returns : ∀ backend status, good (backend, status) → state.batch = [] →
      met ⟨backend, .idle (.status status)⟩) :
    Yields (state.call call) ((∃ result, state.point = .idle result) ∧ enabled) met := by
  unfold State.call
  split
  next idle =>
    exact .map (yields.mono And.right fun _ good => returns _ _ good (by simp [State.batch, idle]))
  next busy => exact .stuck fun ⟨⟨result, idle⟩, _⟩ => busy result idle

theorem Dropped.sound {after : Backend N U} (sound : Sound backend)
    (dropped : Dropped backend after) : Sound after := by
  cases dropped with
  | missing => exact sound
  | removed _ removed => exact removed.sound

theorem Inv.initial (queueDepth : Int) (memory : N → Pending U) : Inv (State.initial queueDepth memory) :=
  ⟨Sound.init queueDepth memory, trivial, by simp [State.initial, State.batch], nodup_nil⟩

theorem Inv.of_batch_nil (sound : Sound next.backend) (room : next.Room) (after : next.batch = []) :
    Inv next where
  sound := sound
  room := room
  delivered := by simp [after]
  nodup := by simp [after]

/-! ## Steps -/

variable [DecidableEq N]

/-- What a step does to the backend and to the batch. -/
inductive Outcome (state : State N U) (label : Label N U) (next : State N U) : Prop
  | quiet (same : next.backend = state.backend) (before : state.batch = []) (after : next.batch = [])
  | closed (req : Req U) (env : Environment N) (request : state.request label = some (req, env))
      (close : req.op = .close) (forgot : next.backend = state.backend.forget req.fd)
      (before : state.batch = []) (after : next.batch = [])
  | enqueued (pending : Pending U) (unused : Unused state.backend pending.req.fd)
      (created : state.created label = some pending.req.op)
      (channel : pending.isWatch = true → pending.req.op = .channel)
      (enqueued : Enqueued state.backend pending next.backend)
      (before : state.batch = []) (after : next.batch = [])
  | dropped (dropped : Dropped state.backend next.backend)
      (before : state.batch = []) (after : next.batch = [])
  | polled (ready : List Int) (nodup : ready.Nodup)
      (polled : state.backend.poll ready = some (next.backend, next.batch))
      (before : state.batch = [])
  | watched (node : N) (same : next.backend = state.backend)
      (watch : (state.backend.pending node).isWatch = true)
      (before : state.batch = node :: next.batch)
  | completed (node : N) (rest : List N) (first : state.backend.operations = node :: rest)
      (removed : Removed state.backend next.backend node rest)
      (before : state.batch = node :: next.batch)

/-- The outcomes of `qd_ep_submit`. -/
inductive Submitted (backend : Backend N U) (req : Req U) (next : Backend N U) : Prop
  | quiet (same : next = backend)
  | closed (close : req.op = .close) (forgot : next = backend.forget req.fd)
  | enqueued (pending : Pending U) (unused : Unused backend pending.req.fd)
      (same : pending.req.op = req.op) (queued : req.op.queued = true)
      (plain : pending.isWatch = false)
      (enqueued : Enqueued backend pending next)
  | dropped (dropped : Dropped backend next)

theorem Submitted.outcome (submitted : Submitted state.backend req next.backend)
    (request : state.request label = some (req, env)) (before : state.batch = [])
    (after : next.batch = []) : Outcome state label next := by
  cases submitted with
  | quiet same => exact .quiet same before after
  | closed close forgot => exact .closed req env request close forgot before after
  | enqueued pending unused same queued plain enqueued =>
    refine .enqueued pending unused ?_ (by simp [plain]) enqueued before after
    have notWatch : state.created label =
        ((state.request label).map fun request => request.1.op).filter Op.queued := by
      cases label <;> first | rfl | cases request
    rw [notWatch, request, same]
    simpa using queued
  | dropped dropped => exact .dropped dropped before after

theorem Enqueued.sound {pending : Pending U} {after : Backend N U} (sound : Sound backend)
    (enqueued : Enqueued backend pending after) : Sound after := by
  cases enqueued with
  | refused => exact sound
  | failed _ sound _ => exact sound
  | accepted _ accepted => exact accepted.sound

theorem Inv.of_outcome (inv : Inv state) (room : next.Room) (outcome : Outcome state label next) :
    Inv next := by
  cases outcome with
  | quiet same _ after => exact of_batch_nil (same ▸ inv.sound) room after
  | closed req _ _ _ forgot _ after => exact of_batch_nil (forgot ▸ inv.sound.forget req.fd) room after
  | enqueued _ _ _ _ enqueued _ after => exact of_batch_nil (enqueued.sound inv.sound) room after
  | dropped dropped _ after => exact of_batch_nil (dropped.sound inv.sound) room after
  | polled ready nodup polled _ =>
    obtain ⟨sound, operations, -, mem, fds⟩ := inv.sound.poll_yields.good polled
    rw [← operations] at mem
    exact ⟨sound, room, mem, (fds ▸ nodup).of_map⟩
  | watched node same _ before =>
    have nodup := inv.nodup
    have delivered := inv.delivered
    rw [before] at nodup delivered
    exact ⟨same ▸ inv.sound, room, fun other mem =>
      same ▸ delivered other (mem_cons_of_mem node mem), nodup.of_cons⟩
  | completed node rest first removed before =>
    have nodup := inv.nodup
    have delivered := inv.delivered
    rw [before, first] at delivered
    rw [before] at nodup
    refine ⟨removed.sound, room, fun other mem => ?_, nodup.of_cons⟩
    rw [removed.operations]
    rcases mem_cons.mp (delivered other (mem_cons_of_mem node mem)) with rfl | old
    · exact absurd mem (nodup_cons.mp nodup).1
    · exact old

variable [DecidableEq U]

theorem Sound.submit_yields (sound : Sound backend) (careful : CarefulRequest backend req env) :
    Yields (backend.submit req env) (env.Lawful backend) fun (next, _) =>
      Submitted backend req next := by
  have create (queued : req.op.queued = true) (secure : Secure backend req.fd env) :
      Yields (backend.enqueue req env) (env.Lawful backend) fun (next, _) =>
        Submitted backend req next :=
    (sound.enqueue_yields secure.1 secure.2).mono id fun _ enqueued =>
      .enqueued _ secure.1 rfl queued rfl enqueued
  obtain ⟨op, fd, userData⟩ := req
  cases op with
  | nop => exact .pure (.quiet rfl)
  | close => exact .pure (.closed rfl rfl)
  | cancel =>
    exact (sound.cancel_yields careful).mono (fun lawful => Nat.lt_of_succ_lt lawful.rounds)
      fun _ => .dropped
  | timeout =>
    simp only [Backend.submit]
    split
    · exact .pure (.quiet rfl)
    next timer timerEq =>
      split
      next taken =>
        refine .stuck fun lawful => ?_
        rw [lawful.timer timer timerEq] at taken
        cases taken
      · obtain ⟨unused, accepted⟩ := careful timer timerEq
        exact (sound.enqueue_yields (by exact unused) accepted).mono id fun _ enqueued =>
          .enqueued _ unused rfl rfl rfl enqueued
  | read | write | poll | accept | connect | send | recv | channel => exact create rfl careful

namespace Inv

section

variable (inv : Inv state)
include inv

/-- The next round of `qd_ep_submit_batch`. -/
theorem submitNext_yields (careful : Careful state (.submitNext env)) :
    Yields (step state (.submitNext env)) (Enabled state (.submitNext env)) fun next =>
      Outcome state (.submitNext env) next ∧ next.Room := by
  rw [step]
  split
  next pointEq => exact .pure ⟨.quiet rfl (by simp [State.batch, pointEq]) rfl, trivial⟩
  next req rest submitted pointEq =>
    have before : state.batch = [] := by simp [State.batch, pointEq]
    have request : state.request (.submitNext env) = some (req, env) := by
      simp [State.request, pointEq]
    refine .map ((inv.sound.submit_yields (careful.1 _ request)).mono And.right ?_)
    rintro ⟨backend, status⟩ submitted
    dsimp only
    split
    · exact ⟨submitted.outcome request before rfl, trivial⟩
    · exact ⟨submitted.outcome request before rfl, trivial⟩
  next idle notEmpty =>
    refine .stuck fun ⟨⟨rest, submitted, pointEq⟩, _⟩ => ?_
    cases rest with
    | nil => exact idle submitted pointEq
    | cons req rest => exact notEmpty req rest submitted pointEq

/-- `epoll_wait`. -/
theorem wait_yields {max : Int} {ready : List Int} :
    Yields (step state (.wait max ready)) (Enabled state (.wait max ready)) fun next =>
      Outcome state (.wait max ready) next ∧ next.Room := by
  rw [step]
  split
  next idle =>
    have before : state.batch = [] := by simp [State.batch, idle]
    split
    · exact .pure ⟨.quiet rfl before rfl, trivial⟩
    split
    next few =>
      refine .map ⟨?_, fun enabled => inv.sound.poll_yields.returns ⟨few.1, enabled.2.2.2⟩⟩
      rintro ⟨backend, batch⟩ polled
      refine ⟨.polled ready few.1 polled before, ?_⟩
      obtain ⟨-, -, -, -, fds⟩ := inv.sound.poll_yields.good polled
      have length : batch.length = ready.length := by rw [← fds, length_map]
      simp only [State.Room, length_nil]
      omega
    next many => exact .stuck fun enabled => many ⟨enabled.2.1, enabled.2.2.1⟩
  next busy => exact .stuck fun ⟨⟨result, idle⟩, _⟩ => busy result idle

/-- The next round of `qd_ep_wait`. -/
theorem complete_yields {answer : Except Int Int} (careful : Careful state (.complete answer)) :
    Yields (step state (.complete answer)) (Enabled state (.complete answer)) fun next =>
      Outcome state (.complete answer) next ∧ next.Room := by
  have room := inv.room
  rw [step]
  split
  next pointEq => exact .pure ⟨.quiet rfl (by simp [State.batch, pointEq]) rfl, trivial⟩
  next node rest max out pointEq =>
    have before : state.batch = node :: rest := by simp [State.batch, pointEq]
    simp only [State.Room, pointEq, length_cons] at room
    rw [if_pos (by omega)]
    have oldest := careful.2 node (by rw [before]; rfl)
    have mem := inv.delivered node (by rw [before]; exact mem_cons_self)
    refine .map ((inv.sound.complete_yields oldest).mono (fun _ => mem) ?_)
    rintro ⟨backend, completion⟩ completed
    constructor
    · rcases completed with ⟨rfl, watch⟩ | ⟨tail, first, removed⟩
      · exact .watched node rfl watch before
      · exact .completed node tail first removed before
    · simp only [State.Room, length_append, length_singleton]
      omega
  next idle notEmpty =>
    refine .stuck fun ⟨rest, max, out, pointEq⟩ => ?_
    cases rest with
    | nil => exact idle max out pointEq
    | cons node rest => exact notEmpty node rest max out pointEq

/-- A careful step has one of the outcomes, and it returns: it does not access a node that
has been freed. -/
theorem step_yields (careful : Careful state label) :
    Yields (step state label) (Enabled state label) fun next =>
      Outcome state label next ∧ Inv next := by
  suffices stepped : Yields (step state label) (Enabled state label) fun next =>
      Outcome state label next ∧ next.Room from
    stepped.mono id fun _ ⟨outcome, room⟩ => ⟨outcome, inv.of_outcome room outcome⟩
  cases label with rw [step]
  | submit req env =>
    refine State.call_yields (inv.sound.submit_yields (careful.1 _ rfl)) ?_
    intro backend status submitted before
    exact ⟨submitted.outcome rfl before rfl, trivial⟩
  | submitBatch reqs =>
    split
    next idle => exact .pure ⟨.quiet rfl (by simp [State.batch, idle]) rfl, trivial⟩
    next busy => exact .stuck fun ⟨result, idle⟩ => busy result idle
  | submitNext env => exact inv.submitNext_yields careful
  | watchFd fd userData env =>
    obtain ⟨unused, accepted⟩ : Secure state.backend fd env := careful.2
    refine State.call_yields (inv.sound.watchFd_yields unused accepted) ?_
    intro backend status enqueued before
    exact ⟨.enqueued _ unused rfl (fun _ => rfl) enqueued before rfl, trivial⟩
  | unwatchFd fd rounds =>
    refine State.call_yields (inv.sound.unwatchFd_yields careful.2) ?_
    intro backend status dropped before
    exact ⟨.dropped dropped before rfl, trivial⟩
  | wait max ready => exact inv.wait_yields
  | complete answer => exact inv.complete_yields careful

end

end Inv

/-! ## A system of two nodes -/

/-- Nodes that have never been allocated. -/
def blank : Bool → Pending Nat := fun _ => ⟨⟨.nop, 0, none⟩, false, false, none⟩

/-- The system allocates the given node and accepts all registrations. -/
def giving (node : Bool) : Environment Bool := ⟨some node, some 9, true, 4⟩

end QDaemon.Aio.Epoll
