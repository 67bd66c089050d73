import QDaemon.Aio.Epoll.Runs

/-!
# The registrations of the epoll backend

Epoll has one registration for each descriptor.  An operation can only complete while
the registration of its descriptor carries its node and the events that it waits for.
-/

namespace QDaemon.Aio.Epoll

open Option List Function Linked Transition

universe u v

variable {N : Type u} {U : Type v}

/-- What the descriptor of an operation has to become ready for; the one of a timer
becomes readable when it expires. -/
def neededEvents : Op → BitVec 32
  | .read | .recv | .accept | .channel | .timeout => epollIn
  | .write | .send | .connect => epollOut
  | .poll => epollIn ||| epollOut
  | .nop | .close | .cancel => 0

/-- Every operation that is pending has the registration of its descriptor, with the
events that it needs; the registration is armed unless the event has been delivered
and is about to be handled. -/
def Attached (state : State N U) : Prop :=
  ∀ node ∈ state.backend.operations, ∃ registration,
    state.backend.interest (state.backend.pending node).req.fd = some registration ∧
    registration.node = node ∧
    registration.events &&& neededEvents (state.backend.pending node).req.op =
      neededEvents (state.backend.pending node).req.op ∧
    (registration.armed = true ∨ node ∈ state.batch)

/-- The list is used as a queue, each operation has a descriptor of its own, which is not
closed before the operation ends, and none is a timer. -/
def Dedicated [DecidableEq U] (state : State N U) (label : Label N U) : Prop :=
  Careful state label ∧ state.created label ≠ some .timeout ∧
    ∀ request ∈ state.request label, request.1.op = .close → Unused state.backend request.1.fd

section Decidable

variable [DecidableEq N] [DecidableEq U]

instance Unused.decidable (backend : Backend N U) (fd : Int) : Decidable (Unused backend fd) :=
  inferInstanceAs (Decidable (∀ node ∈ backend.operations, _))

instance Oldest.decidable (backend : Backend N U) (condition : N → Bool) :
    Decidable (Oldest backend condition) :=
  decidable_of_iff (∀ node ∈ backend.operations, backend.operations.find? condition = some node →
    backend.operations.head? = some node)
    ⟨fun all node found => all node (mem_of_find?_eq_some found) found,
      fun all node _ found => all node found⟩

instance Secure.decidable (backend : Backend N U) (fd : Int) (env : Environment N) :
    Decidable (Secure backend fd env) :=
  inferInstanceAs (Decidable (_ ∧ _))

instance CarefulRequest.decidable (backend : Backend N U) (req : Req U) (env : Environment N) :
    Decidable (CarefulRequest backend req env) := by
  unfold CarefulRequest
  split <;> infer_instance

instance Careful.decidable (state : State N U) (label : Label N U) :
    Decidable (Careful state label) := by
  unfold Careful
  cases label <;> infer_instance

instance Dedicated.decidable (state : State N U) (label : Label N U) :
    Decidable (Dedicated state label) :=
  inferInstanceAs (Decidable (_ ∧ _))

end Decidable

/-! ## One registration for each operation -/

variable {backend : Backend N U} {batch : List N} {node : N}

/-- The registration of an operation. -/
structure Holds (backend : Backend N U) (batch : List N) (node : N)
    (registration : Registration N) : Prop where
  found : backend.interest (backend.pending node).req.fd = some registration
  node_eq : registration.node = node
  events : registration.events = (backend.pending node).events
  needed : opToEvents (backend.pending node).req.op = neededEvents (backend.pending node).req.op
  channel : (backend.pending node).isWatch = true → (backend.pending node).req.op = .channel
  armed : registration.armed = true ∨
    ((backend.pending node).isWatch = false ∧ node ∈ batch)

/-- The registration stays if the descriptor's registration and the node do. -/
theorem Holds.congr {after : Backend N U} {later : List N} {registration : Registration N}
    (holds : Holds backend batch node registration)
    (fields : after.pending node = backend.pending node)
    (same : after.interest (backend.pending node).req.fd =
      backend.interest (backend.pending node).req.fd)
    (still : (backend.pending node).isWatch = false → node ∈ batch → node ∈ later) :
    Holds after later node registration where
  found := by
    rw [fields, same]
    exact holds.found
  node_eq := holds.node_eq
  events := fields ▸ holds.events
  needed := fields ▸ holds.needed
  channel := fields ▸ holds.channel
  armed := fields ▸ holds.armed.imp id fun ⟨watch, mem⟩ => ⟨watch, still watch mem⟩

/-- Every operation has its registration. -/
def Held (backend : Backend N U) (batch : List N) : Prop :=
  ∀ node ∈ backend.operations, ∃ registration, Holds backend batch node registration

namespace Held

section

variable (held : Held backend batch)
include held

/-- No two operations are on one descriptor. -/
theorem fd_injective {other : N} (mem : node ∈ backend.operations)
    (otherMem : other ∈ backend.operations)
    (same : (backend.pending other).req.fd = (backend.pending node).req.fd) : other = node := by
  obtain ⟨registration, holds⟩ := held node mem
  obtain ⟨otherRegistration, otherHolds⟩ := held other otherMem
  have found := otherHolds.found
  rw [same, holds.found] at found
  rw [← holds.node_eq, ← otherHolds.node_eq, some.inj found]

omit held in
/-- A registration has the events that its operation needs. -/
theorem attached {state : State N U} (held : Held state.backend state.batch) : Attached state := by
  intro node mem
  obtain ⟨registration, holds⟩ := held node mem
  refine ⟨registration, holds.found, holds.node_eq, ?_, holds.armed.imp id And.right⟩
  rw [holds.events, Pending.events, ← holds.needed]
  split
  next watch =>
    rw [holds.channel watch]
    decide
  · generalize (state.backend.pending node).req.op = op
    cases op <;> decide

theorem mono {later : List N}
    (still : ∀ node ∈ backend.operations, (backend.pending node).isWatch = false → node ∈ batch →
      node ∈ later) : Held backend later := by
  intro node mem
  obtain ⟨registration, holds⟩ := held node mem
  exact ⟨registration, holds.congr rfl rfl (still node mem)⟩

/-- A descriptor without an operation is closed. -/
theorem forget {fd : Int} (unused : Unused backend fd) : Held (backend.forget fd) batch := by
  intro node mem
  obtain ⟨registration, holds⟩ := held node mem
  refine ⟨registration, holds.congr rfl ?_ fun _ => id⟩
  simp [Backend.forget, update_of_ne (unused node mem)]

/-- The event of a descriptor is delivered. -/
theorem deliver {fd : Int} {registration : Registration N}
    (found : backend.interest fd = some registration) :
    Held (backend.deliver fd registration) (registration.node :: batch) := by
  intro node mem
  obtain ⟨old, holds⟩ := held node mem
  by_cases same : (backend.pending node).req.fd = fd
  · obtain rfl : old = registration := by
      have oldFound := holds.found
      rw [same, found] at oldFound
      exact (some.inj oldFound).symm
    refine ⟨{ old with armed := old.events &&& epollOneshot = 0 }, ?_, holds.node_eq, holds.events,
      holds.needed, holds.channel, ?_⟩
    · simp [Backend.deliver, same]
    · cases watch : (backend.pending node).isWatch with
      | true =>
        left
        rw [holds.events, Pending.events, if_pos watch]
        show decide (epollIn &&& epollOneshot = 0) = true
        decide
      | false => exact .inr ⟨watch, by rw [holds.node_eq]; exact mem_cons_self⟩
  · refine ⟨old, holds.congr rfl ?_ fun _ mem => mem_cons_of_mem _ mem⟩
    simp [Backend.deliver, update_of_ne same]

end

variable {next : Backend N U}

theorem poll {ready : List Int} {polled : List N} (held : Held backend batch)
    (pollEq : backend.poll ready = some (next, polled)) : Held next (polled ++ batch) := by
  induction ready generalizing backend batch polled with
  | nil =>
    cases pollEq
    exact held
  | cons fd ready ih =>
    obtain ⟨registration, found, pollEq⟩ := bind_eq_some_iff.mp pollEq
    split at pollEq
    case isFalse => cases pollEq
    obtain ⟨⟨last, rest⟩, restEq, eq⟩ := map_eq_some_iff.mp pollEq
    cases eq
    apply (ih (held.deliver found) restEq).mono
    simpa [or_left_comm] using mem

/-- The oldest operation is removed. -/
theorem remove {rest later : List N} (sound : Sound backend) (held : Held backend batch)
    (first : backend.operations = node :: rest) (removed : Removed backend next node rest)
    (still : ∀ other ∈ rest, other ∈ batch → other ∈ later) : Held next later := by
  intro other mem
  rw [removed.operations] at mem
  have otherMem : other ∈ backend.operations := by
    rw [first]
    exact mem_cons_of_mem node mem
  obtain ⟨registration, holds⟩ := held other otherMem
  have different : other ≠ node := by
    rintro rfl
    have nodup := sound.queue.chains.nodup ()
    rw [first] at nodup
    exact (nodup_cons.mp nodup).1 mem
  refine ⟨registration, holds.congr (by rw [removed.pending]) ?_ fun _ => still other mem⟩
  rw [removed.interest, update_of_ne]
  intro same
  exact different (held.fd_injective (by rw [first]; exact mem_cons_self) otherMem same)

variable [DecidableEq N]

/-- An operation is created that is not a timer. -/
theorem accept {pending : Pending U} (held : Held backend batch)
    (unused : Unused backend pending.req.fd)
    (needed : opToEvents pending.req.op = neededEvents pending.req.op)
    (events : opToEvents pending.req.op ≠ 0)
    (channel : pending.isWatch = true → pending.req.op = .channel)
    (accepted : Accepted backend next node pending (accepting backend pending node)) :
    Held next batch := by
  have interest := accepted.interest
  rw [accepting, if_neg events, entered] at interest
  intro other mem
  rw [accepted.operations, mem_append, mem_singleton] at mem
  rcases mem with old | rfl
  · obtain ⟨registration, holds⟩ := held other old
    have different : other ≠ node := fun same => accepted.fresh (same ▸ old)
    refine ⟨registration, holds.congr ?_ ?_ fun _ => id⟩
    · rw [accepted.pending, update_of_ne different]
    · rw [interest, update_of_ne (unused other old)]
  · have fields : next.pending other = { pending with registered := true } := by
      rw [accepted.pending, update_self]
    refine ⟨⟨pending.events, other, true⟩, ?_, rfl, ?_, ?_, ?_, .inl rfl⟩
    · rw [fields, interest, update_self]
    · rw [fields]
      rfl
    · rw [fields]
      exact needed
    · rw [fields]
      exact channel

end Held

/-! ## Runs -/

variable [DecidableEq N] {state next : State N U} {label : Label N U}

omit [DecidableEq N] in
theorem created_queued {op : Op} (created : state.created label = some op) : op.queued = true := by
  unfold State.created at created
  split at created
  · cases created
    rfl
  · exact (filter_eq_some_iff.mp created).2

/-- The kinds other than a timer are registered with the events that they need. -/
theorem opToEvents_of_queued {op : Op} (queued : op.queued = true) (other : op ≠ .timeout) :
    opToEvents op = neededEvents op ∧ opToEvents op ≠ 0 := by
  cases op <;> first | exact absurd rfl other | exact absurd queued (by decide) | decide

variable [DecidableEq U]

theorem Dedicated.held (inv : Inv state) (held : Held state.backend state.batch)
    (dedicated : Dedicated state label) (outcome : Outcome state label next) :
    Held next.backend next.batch := by
  obtain ⟨-, noTimer, close⟩ := dedicated
  cases outcome with rw [before] at held
  | quiet same before after =>
    rwa [same, after]
  | closed req env request isClose forgot before after =>
    rw [forgot, after]
    exact held.forget (close _ request isClose)
  | enqueued pending unused created channel enqueued before after =>
    rw [after]
    generalize next.backend = target at enqueued ⊢
    cases enqueued with
    | refused => exact held
    | failed _ _ still => simp [Held, still]
    | accepted node accepted =>
      obtain ⟨needed, events⟩ := opToEvents_of_queued (created_queued created) fun isTimer =>
        noTimer (isTimer ▸ created)
      exact held.accept unused needed events channel accepted
  | dropped dropped before after =>
    rw [after]
    generalize next.backend = target at dropped ⊢
    cases dropped with
    | missing => exact held
    | removed first removed => exact held.remove inv.sound first removed fun _ _ => id
  | polled ready nodup polled before =>
    simpa using held.poll polled
  | watched node same watch before =>
    rw [same]
    apply held.mono
    intro other _ notWatch mem
    rcases mem_cons.mp mem with rfl | later
    · exact absurd watch (by simp [notWatch])
    · exact later
  | completed node rest first removed before =>
    apply held.remove inv.sound first removed
    intro other restMem mem
    rcases mem_cons.mp mem with rfl | later
    · have nodup := inv.sound.queue.chains.nodup ()
      rw [first] at nodup
      exact absurd restMem (nodup_cons.mp nodup).1
    · exact later

/-- If all steps are of that kind, then every operation that is pending has its
registration, and the next such call returns. -/
theorem operations_attached {queueDepth : Int} {memory : N → Pending U} {target : State N U}
    (run : GuardedRun step Dedicated (State.initial queueDepth memory) target) : Attached target ∧
      ∀ label, Dedicated target label → Enabled target label → (step target label).isSome := by
  obtain ⟨inv, held⟩ : Inv target ∧ Held target.backend target.batch := by
    apply run.invariant (fun state => Inv state ∧ Held state.backend state.batch)
      ⟨Inv.initial queueDepth memory, by simp [Held, State.initial, Backend.init]⟩
    rintro state label next ⟨inv, held⟩ dedicated stepEq
    obtain ⟨outcome, after⟩ := (inv.step_yields dedicated.1).good stepEq
    exact ⟨after, dedicated.held inv held outcome⟩
  exact ⟨held.attached, fun label dedicated => (inv.step_yields dedicated.1).returns⟩

/-- A read and a watched descriptor, both ready; the watched one is handled first. -/
def readAndWatch : List (Label Bool Nat) :=
  [.submit ⟨.read, 3, some 1⟩ (giving false), .watchFd 4 (some 2) (giving true), .wait 8 [4, 3],
    .complete (.ok 0), .complete (.ok 5), .complete (.ok 0)]

theorem operations_attached_readAndWatch :
    ∃ state, exec (guarded step Dedicated) (State.initial 16 blank) readAndWatch = some state ∧
      state.backend.operations = [true] ∧
      state.backend.interest 4 = some ⟨epollIn, true, true⟩ ∧ Attached state ∧
      ∀ label, Dedicated state label → Enabled state label → (step state label).isSome := by
  apply exists_exec fun state => state.backend.operations = [true] ∧
    state.backend.interest 4 = some ⟨epollIn, true, true⟩
  · decide +kernel
  · rintro state stateEq ⟨operations, interest⟩
    exact ⟨operations, interest, operations_attached (guardedRun_of_exec stateEq)⟩

/-- A timer is never registered, and the registration of a read is replaced by the one of
a write on the same descriptor. -/
theorem not_attached_timer :
    (∃ state : State Bool Nat, Reachable step (State.initial 16 blank) state ∧
      state.backend.operations = [false] ∧ state.backend.interest 9 = none ∧ ¬ Attached state) ∧
    ∃ state : State Bool Nat, Reachable step (State.initial 16 blank) state ∧
      state.backend.operations = [false, true] ∧
      state.backend.interest 3 = some ⟨epollOut ||| epollOneshot, true, true⟩ ∧
      ¬ Attached state := by
  constructor
  · refine exists_reachable [.submit ⟨.timeout, 0, some 1⟩ (giving false)] (fun state =>
      state.backend.operations = [false] ∧ state.backend.interest 9 = none ∧
      (state.backend.pending false).req.fd = 9) (by decide +kernel) ?_
    rintro state ⟨operations, interest, fdEq⟩
    refine ⟨operations, interest, fun attached => ?_⟩
    obtain ⟨registration, found, -⟩ := attached false (by simp [operations])
    rw [fdEq, interest] at found
    cases found
  · refine exists_reachable [.submit ⟨.read, 3, some 1⟩ (giving false),
      .submit ⟨.write, 3, some 2⟩ (giving true)] (fun state =>
      state.backend.operations = [false, true] ∧
      state.backend.interest 3 = some ⟨epollOut ||| epollOneshot, true, true⟩ ∧
      (state.backend.pending false).req.fd = 3) (by decide +kernel) ?_
    rintro state ⟨operations, interest, fdEq⟩
    refine ⟨operations, interest, fun attached => ?_⟩
    obtain ⟨registration, found, nodeEq, -⟩ := attached false (by simp [operations])
    rw [fdEq, interest] at found
    cases found
    cases nodeEq

end QDaemon.Aio.Epoll
