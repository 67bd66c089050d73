import QDaemon.EventLoop.Core

/-!
# Deletion of sources during an iteration

The batch of an iteration keeps the addresses of records.  As long as no callback
deletes a source that is still to come in the batch, every record that the loop reads
is the one of a source that exists.
-/

namespace QDaemon.EventLoop

open Option List Function Linked Linked.Doubly Transition

universe u v w

/-! ## The list of sources -/

section List

variable {N : Type u} [DecidableEq N] {lists : Doubly N} {nodes : List N} {source : N}

variable (rep : lists.Chains prevMark fun _ => nodes)
include rep

/-- A new record in front of the list. -/
theorem linkSource_spec (unused : lists.node source = none) :
    ∃ after, linkSource (lists.setNode source ⟨none, none⟩) source = some after ∧
      after.Chains prevMark (fun _ => source :: nodes) ∧
      ∀ other, (after.backOf other).isSome ↔ other = source ∨ (lists.backOf other).isSome := by
  have allocated := rep.setNode unused ⟨none, none⟩
  have fresh : source ∉ nodes := rep.not_mem_of_node unused ()
  have firstOut : some source ≠ lists.first () := by
    intro first
    rw [rep.first_eq] at first
    exact fresh (mem_of_head? first.symm)
  generalize newEq : lists.setNode source ⟨none, none⟩ = new at allocated
  have firstEq : new.first () = lists.first () := by rw [← newEq]; rfl
  have newBack : new.backOf source = some none := by
    rw [← newEq, Lists.backOf, Lists.setNode]
    simp
  obtain ⟨first, firstStore, firstLoad, firstBack⟩ := Lists.store_spec
    (show (new.load (.next source)).isSome by rw [Lists.isSome_load_next, newBack]; rfl)
    (new.first ())
  obtain ⟨second, secondEq, secondLoad, secondBack⟩ := first.setSuccessor_spec
    (fun next mem => by rw [firstBack]; exact allocated.first_allocated () next mem) (some source)
  obtain ⟨third, thirdEq, thirdLoad, thirdBack⟩ := Lists.store_spec
    (rfl : (second.load (.head ())).isSome = true) (some source)
  have added : Lists.AddedHead prevMark new third source () := by
    constructor
    · intro other
      rw [thirdLoad, secondLoad, firstLoad]
    · intro other
      rw [thirdBack, secondBack, firstBack]
      by_cases same : other = source
      · rw [same, if_neg (firstEq ▸ firstOut), if_pos rfl, newBack]
        rfl
      · rw [if_neg same]
        rfl
  refine ⟨third, ?_, ?_, fun other => ?_⟩
  · simp [linkSource, firstStore, secondEq, thirdEq]
  · have chained := allocated.addHead (fun _ => fresh) added
    rwa [update_unit] at chained
  · rw [added.isSome_backOf (by rw [newBack]; rfl) (allocated.first_allocated ())]
    by_cases same : other = source
    · rw [same, newBack]
      simp
    · rw [← newEq, Lists.backOf_setNode_of_ne same]
      simp [same]

end List

/-! ## Registered sources -/

variable {N : Type u} {C : Type v} {A : Type w}

/-- The records that are allocated are those of the list, and epoll has only addresses
of such records. -/
structure Registered (loop : Loop N C A) (nodes : List N) : Prop where
  chains : loop.lists.Chains prevMark fun _ => nodes
  allocated : ∀ source, (loop.lists.backOf source).isSome ↔ source ∈ nodes
  known : ∀ {fd entry}, loop.interest fd = some entry →
    entry.2 ∈ nodes ∧ (loop.source entry.2).fd = fd
  registered : ∀ source ∈ nodes, (loop.source source).registered = true
  bounded : ∀ source ∈ nodes, loop.serial source < loop.created
  distinct : ∀ source ∈ nodes, ∀ other ∈ nodes, loop.serial source = loop.serial other →
    source = other

namespace Registered

variable {loop next : Loop N C A} {nodes : List N} {source : N}

section

variable (registered : Registered loop nodes)
include registered

theorem node_isSome : (loop.lists.node source).isSome ↔ source ∈ nodes := by
  rw [← registered.allocated, Lists.backOf, isSome_map]

theorem modify (mem : source ∈ nodes) (events : BitVec 32)
    (accepted : Bool) : Registered (loop.modify source events accepted) nodes := by
  unfold Loop.modify
  split
  · refine { registered with known := fun {fd entry} eq => ?_ }
    simp only [update_apply] at eq
    split at eq
    next same =>
      cases eq
      exact ⟨mem, same.symm⟩
    · exact registered.known eq
  · exact registered

theorem forget (fd : Int) : Registered (loop.forget fd) nodes := by
  refine { registered with known := fun {other entry} eq => ?_ }
  simp only [Loop.forget, update_apply] at eq
  split at eq
  · cases eq
  · exact registered.known eq

variable [DecidableEq N]

/-- Other fields of a record. -/
theorem setSource (source : N) {change : Source C A → Source C A}
    (same : ∀ fields, (change fields).fd = fields.fd ∧
      (change fields).registered = fields.registered) :
    Registered (loop.setSource source change) nodes := by
  have fields (other : N) : ((loop.setSource source change).source other).fd =
      (loop.source other).fd ∧ ((loop.setSource source change).source other).registered =
      (loop.source other).registered := by
    simp only [Loop.setSource, update_apply]
    split
    next isSource => exact isSource ▸ same _
    · exact ⟨rfl, rfl⟩
  exact { registered with
    known := fun eq => ⟨(registered.known eq).1, (fields _).1.trans (registered.known eq).2⟩
    registered := fun other mem => (fields other).2.trans (registered.registered other mem) }

/-- `qd_event_add` adds a source with a new number, or changes nothing. -/
theorem add {fd : Int} {events : BitVec 32}
    {callback : Option C} {arg : A} {memory result : Option N} {accepted : Bool}
    (added : loop.add fd events callback arg memory accepted = some (next, result)) :
    next = loop ∨ ∃ source, source ∉ nodes ∧ Registered next (source :: nodes) ∧
      next.serial = update loop.serial source loop.created ∧
      next.created = loop.created + 1 := by
  cases memory with
  | none =>
    simp only [Loop.add, some.injEq, Prod.mk.injEq] at added
    exact .inl added.1.symm
  | some source =>
    simp only [Loop.add] at added
    split at added
    · simp only [some.injEq, Prod.mk.injEq] at added
      exact .inl added.1.symm
    split at added
    · cases added
    next unused =>
      split at added
      · simp only [some.injEq, Prod.mk.injEq] at added
        exact .inl added.1.symm
      have free : loop.lists.node source = none := by simpa using unused
      have fresh : source ∉ nodes := fun mem => unused (registered.node_isSome.mpr mem)
      obtain ⟨lists, linkEq, chained, allocated⟩ := linkSource_spec registered.chains free
      rw [linkEq] at added
      cases added
      have different {other : N} (mem : other ∈ nodes) : other ≠ source := by
        rintro rfl
        exact fresh mem
      refine .inr ⟨source, fresh, ⟨chained, fun other => ?_, fun {fd entry} eq => ?_,
        fun other mem => ?_, fun other mem => ?_, fun other mem third thirdMem eq => ?_⟩, rfl, rfl⟩
      · rw [allocated, registered.allocated, mem_cons]
      · simp only [update_apply] at eq
        split at eq
        next same =>
          cases eq
          exact ⟨mem_cons_self, by simp [same]⟩
        · obtain ⟨mem, fdEq⟩ := registered.known eq
          refine ⟨mem_cons_of_mem _ mem, ?_⟩
          simpa [update_of_ne (different mem)] using fdEq
      · rcases mem_cons.mp mem with rfl | old
        · simp
        · simp only [update_of_ne (different old)]
          exact registered.registered other old
      · rcases mem_cons.mp mem with rfl | old
        · simp only [update_self]
          exact Nat.lt_succ_self _
        · simp only [update_of_ne (different old)]
          exact Nat.lt_succ_of_lt (registered.bounded other old)
      · rcases mem_cons.mp mem with rfl | old <;> rcases mem_cons.mp thirdMem with rfl | third
        · rfl
        · simp only [update_self, update_of_ne (different third)] at eq
          exact absurd eq.symm (Nat.ne_of_lt (registered.bounded _ third))
        · simp only [update_self, update_of_ne (different old)] at eq
          exact absurd eq (Nat.ne_of_lt (registered.bounded _ old))
        · simp only [update_of_ne (different old), update_of_ne (different third)] at eq
          exact registered.distinct other old _ third eq

end

/-- `qd_event_del` on a source that exists returns, and takes it out of the list and
the interest list. -/
theorem del [DecidableEq N] (registered : Registered loop nodes) (mem : source ∈ nodes) :
    ∃ next, loop.del source = some next ∧ Registered next (nodes.erase source) ∧
      next.serial = loop.serial ∧ next.created = loop.created := by
  obtain ⟨lists, bypassEq, chained, allocated⟩ := bypass_mem registered.chains mem
  have unlinkEq : unlinkSource loop.lists source = some (lists.free source) :=
    congrArg (Option.map _) bypassEq
  have old {other : N} (rest : other ∈ nodes.erase source) : other ∈ nodes ∧ other ≠ source :=
    ⟨mem_of_mem_erase rest, fun same =>
      (registered.chains.nodup ()).not_mem_erase (same ▸ rest)⟩
  simp only [Loop.del, if_pos (registered.registered source mem)]
  refine ⟨_, congrArg (Option.map _) unlinkEq, ⟨chained, fun other => ?_,
    fun {fd entry} eq => ?_, fun other rest => ?_, fun other rest => ?_,
    fun other rest third thirdRest => ?_⟩, rfl, rfl⟩
  · rw [allocated, registered.allocated, (registered.chains.nodup ()).mem_erase_iff]
  · simp only [Loop.setSource, Loop.forget, update_apply] at eq ⊢
    split at eq
    · cases eq
    next otherFd =>
      obtain ⟨entryMem, fdEq⟩ := registered.known eq
      have different : entry.2 ≠ source := fun same => otherFd (by rw [← fdEq, same])
      rw [if_neg different]
      exact ⟨(mem_erase_of_ne different).mpr entryMem, fdEq⟩
  · obtain ⟨otherMem, different⟩ := old rest
    simp only [Loop.setSource, update_of_ne different]
    exact registered.registered other otherMem
  · exact registered.bounded other (old rest).1
  · exact registered.distinct other (old rest).1 third (old thirdRest).1

end Registered

/-! ## Iterations -/

/-- The sources that are still to come in the batch. -/
def State.upcoming (state : State N C A) : List N :=
  match state.point with
  | .batch rest => rest.map Prod.fst
  | .callback rest => rest.map Prod.fst
  | _ => []

/-- In the current iteration, no record has been read and no callback has been called
of a source that had been deleted before. -/
def Immediate (log : List Event) : Prop :=
  ∀ serial past, .touched serial :: past <:+ log ∨ .invoked serial :: past <:+ log →
    .deleted serial ∉ past

/-- A deletion of a source that is not still to come in the batch. -/
def Spares (state : State N C A) : Label N C A → Prop
  | .del source => source ∉ state.upcoming
  | .delFd fd rounds => ∀ source, state.loop.findFd fd rounds = some (some source) →
      source ∉ state.upcoming
  | _ => True

instance Spares.decidable [DecidableEq N] (state : State N C A) (label : Label N C A) :
    Decidable (Spares state label) := by
  unfold Spares
  split
  · infer_instance
  next fd rounds =>
    cases state.loop.findFd fd rounds with
    | none => exact isTrue (by simp)
    | some found =>
        cases found with
        | none => exact isTrue (by simp)
        | some source => exact decidable_of_iff (source ∉ state.upcoming) (by simp)
  · infer_instance

theorem Immediate.cons {log : List Event} {event : Event} (immediate : Immediate log)
    (alive : ∀ serial, event = .touched serial ∨ event = .invoked serial →
      .deleted serial ∉ log) : Immediate (event :: log) := by
  intro serial past suffixes
  rcases suffixes with touched | invoked
  · rcases suffix_cons_iff.mp touched with same | earlier
    · obtain ⟨rfl, rfl⟩ := List.cons.inj same
      exact alive serial (.inl rfl)
    · exact immediate serial past (.inl earlier)
  · rcases suffix_cons_iff.mp invoked with same | earlier
    · obtain ⟨rfl, rfl⟩ := List.cons.inj same
      exact alive serial (.inr rfl)
    · exact immediate serial past (.inr earlier)

/-- The sources that are still to come exist, and no source that exists has been
deleted. -/
structure Inv (state : State N C A) (nodes : List N) : Prop where
  registered : Registered state.loop nodes
  upcoming : ∀ source ∈ state.upcoming, source ∈ nodes
  deleted : ∀ serial, .deleted serial ∈ state.log → serial < state.loop.created ∧
    ∀ source ∈ nodes, state.loop.serial source ≠ serial
  immediate : Immediate state.log
  sound : state.point ≠ .fault

section Steps

variable {state next : State N C A} {nodes : List N}

/-- A call that changes fields and registrations only. -/
theorem Inv.of_loop (inv : Inv state nodes) {loop : Loop N C A} (registered : Registered loop nodes)
    (serial : loop.serial = state.loop.serial) (created : loop.created = state.loop.created) :
    Inv { state with loop := loop } nodes where
  registered := registered
  upcoming := inv.upcoming
  deleted := by
    simp only [serial, created]
    exact inv.deleted
  immediate := inv.immediate
  sound := inv.sound

variable {source : N}

theorem onSource_eq {call : Loop N C A → Loop N C A}
    (stepEq : state.onSource source call = some next) :
    (state.loop.lists.node source).isSome ∧ next = { state with loop := call state.loop } := by
  unfold State.onSource at stepEq
  split at stepEq
  next may => exact ⟨may.2, (some.inj stepEq).symm⟩
  · cases stepEq

theorem pollBatch_mem (registered : Registered state.loop nodes) {ready : List (Int × BitVec 32)}
    {batch : List (N × BitVec 32)} (polled : pollBatch state.loop ready = some batch) :
    ∀ source ∈ batch.map Prod.fst, source ∈ nodes := by
  induction ready generalizing batch with
  | nil =>
    cases polled
    simp
  | cons descriptor ready ih =>
    obtain ⟨entry, entryEq, polled⟩ := bind_eq_some_iff.mp polled
    obtain ⟨rest, restEq, rfl⟩ := map_eq_some_iff.mp polled
    intro source mem
    rcases mem_cons.mp mem with rfl | later
    · exact (registered.known entryEq).1
    · exact ih restEq source later

variable (inv : Inv state nodes)
include inv

/-- The loop moves on, with nothing more to come than before. -/
theorem Inv.move {point : Point N} (sound : point ≠ .fault)
    (fewer : ({ state with point := point } : State N C A).upcoming = state.upcoming) :
    Inv { state with point := point } nodes where
  registered := inv.registered
  upcoming := by
    rw [fewer]
    exact inv.upcoming
  deleted := inv.deleted
  immediate := inv.immediate
  sound := sound

variable [DecidableEq N]

/-- A call that changes a field of a record and then its registration. -/
theorem Inv.setModify
    (exists_ : (state.loop.lists.node source).isSome) {change : Source C A → Source C A}
    (same : ∀ fields, (change fields).fd = fields.fd ∧
      (change fields).registered = fields.registered) (events : BitVec 32) (accepted : Bool) :
    Inv { state with loop := (state.loop.setSource source change).modify source events accepted }
      nodes := by
  have mem := inv.registered.node_isSome.mp exists_
  refine inv.of_loop ((inv.registered.setSource source same).modify mem events accepted) ?_ ?_
  · unfold Loop.modify
    split <;> rfl
  · unfold Loop.modify
    split <;> rfl

theorem Inv.add {fd : Int} {events : BitVec 32} {callback : Option C}
    {arg : A} {memory result : Option N} {accepted : Bool} {loop : Loop N C A}
    (added : state.loop.add fd events callback arg memory accepted = some (loop, result)) :
    ∃ nodes, Inv { state with loop := loop } nodes := by
  rcases inv.registered.add added with rfl | ⟨source, fresh, registered, serial, created⟩
  · exact ⟨nodes, inv⟩
  · refine ⟨source :: nodes, registered,
      fun other mem => mem_cons_of_mem _ (inv.upcoming other mem), fun number mem => ?_,
      inv.immediate, inv.sound⟩
    obtain ⟨bound, others⟩ := inv.deleted number mem
    simp only [serial, created]
    refine ⟨Nat.lt_succ_of_lt bound, fun other otherMem => ?_⟩
    rcases mem_cons.mp otherMem with rfl | old
    · rw [update_self]
      exact Nat.ne_of_gt bound
    · have different : other ≠ source := by
        rintro rfl
        exact fresh old
      rw [update_of_ne different]
      exact others other old

/-- Deleting a source that is not still to come. -/
theorem Inv.del (spared : source ∉ state.upcoming)
    (stepEq : state.del source = some next) : ∃ nodes, Inv next nodes := by
  unfold State.del at stepEq
  split at stepEq
  case isFalse => cases stepEq
  next exists_ =>
    have mem := inv.registered.node_isSome.mp exists_
    obtain ⟨loop, delEq, registered, serial, created⟩ := inv.registered.del mem
    rw [delEq] at stepEq
    cases stepEq
    have nodup := inv.registered.chains.nodup ()
    refine ⟨nodes.erase source, registered, fun other otherMem => ?_, fun number numberMem => ?_,
      inv.immediate.cons (by simp), inv.sound⟩
    · have different : other ≠ source := by
        rintro rfl
        exact spared otherMem
      exact (mem_erase_of_ne different).mpr (inv.upcoming other otherMem)
    · simp only [serial, created]
      rcases mem_cons.mp numberMem with now | before
      · cases now
        refine ⟨inv.registered.bounded source mem, fun other rest same => ?_⟩
        obtain ⟨different, otherMem⟩ := nodup.mem_erase_iff.mp rest
        exact different (inv.registered.distinct other otherMem source mem same)
      · obtain ⟨bound, others⟩ := inv.deleted number before
        exact ⟨bound, fun other rest => others other (mem_of_mem_erase rest)⟩

/-- The loop reads the record of a source that exists. -/
theorem Inv.dispatch {revents : BitVec 32} {rest : List (N × BitVec 32)}
    (pointEq : state.point = .batch ((source, revents) :: rest)) :
    Inv (state.dispatch source revents rest) nodes := by
  have upcomingEq : state.upcoming = source :: rest.map Prod.fst := by
    rw [State.upcoming, pointEq]
    rfl
  have mem : source ∈ nodes := inv.upcoming source (upcomingEq ▸ mem_cons_self)
  have later (other : N) (otherMem : other ∈ rest.map Prod.fst) : other ∈ nodes :=
    inv.upcoming other (upcomingEq ▸ mem_cons_of_mem source otherMem)
  have alive : .deleted (state.loop.serial source) ∉ state.log := fun gone =>
    (inv.deleted _ gone).2 source mem rfl
  have exists_ : (state.loop.lists.node source).isNone = false := by
    rw [← not_isSome, inv.registered.node_isSome.mpr mem]
    rfl
  have touched : Immediate (.touched (state.loop.serial source) :: state.log) := by
    apply inv.immediate.cons
    rintro serial (eq | eq) <;> cases eq
    exact alive
  have invoked : Immediate (.invoked (state.loop.serial source) ::
      .touched (state.loop.serial source) :: state.log) := by
    apply touched.cons
    simpa using alive
  have active : Registered (state.loop.setSource source fun fields =>
      { fields with activeEvents := fromEpollEvents revents }) nodes :=
    inv.registered.setSource source fun _ => ⟨rfl, rfl⟩
  unfold State.dispatch
  simp only [exists_, Bool.false_eq_true, if_false]
  split
  · exact ⟨inv.registered, later, by simpa using inv.deleted, touched, by simp⟩
  split
  · exact ⟨active, later, fun serial gone => inv.deleted serial (by simpa using gone), invoked,
      by simp⟩
  · exact ⟨active, later, fun serial gone => inv.deleted serial (by simpa using gone), touched,
      by simp⟩

/-- A step of which no deletion concerns a source that is still to come. -/
theorem Inv.step {label : Label N C A} (spares : Spares state label)
    (stepEq : EventLoop.step state label = some next) : ∃ nodes, Inv next nodes := by
  cases label with rw [EventLoop.step] at stepEq
  | add fd events callback arg memory accepted =>
    split at stepEq
    case isFalse => cases stepEq
    obtain ⟨result, added, rfl⟩ := map_eq_some_iff.mp stepEq
    exact inv.add added
  | mod source events accepted =>
    obtain ⟨exists_, rfl⟩ := onSource_eq stepEq
    exact ⟨nodes, inv.setModify exists_ (by simp) _ _⟩
  | enable source accepted =>
    obtain ⟨exists_, rfl⟩ := onSource_eq stepEq
    simp only [Loop.enable]
    split
    · exact ⟨nodes, inv⟩
    · exact ⟨nodes, inv.setModify exists_ (by simp) _ _⟩
  | disable source accepted =>
    obtain ⟨exists_, rfl⟩ := onSource_eq stepEq
    simp only [Loop.disable]
    split
    · exact ⟨nodes, inv.setModify exists_ (by simp) _ _⟩
    · exact ⟨nodes, inv⟩
  | del source =>
    split at stepEq
    · exact inv.del spares stepEq
    · cases stepEq
  | delFd fd rounds =>
    split at stepEq
    case isFalse => cases stepEq
    obtain ⟨found, foundEq, stepEq⟩ := bind_eq_some_iff.mp stepEq
    cases found with
    | none =>
      cases stepEq
      exact ⟨nodes, inv⟩
    | some source => exact inv.del (spares source foundEq) stepEq
  | close fd =>
    split at stepEq <;> cases stepEq
    exact ⟨nodes, inv.of_loop (inv.registered.forget fd) rfl rfl⟩
  | poll ready =>
    split at stepEq
    · obtain ⟨batch, polled, rfl⟩ := map_eq_some_iff.mp stepEq
      exact ⟨nodes, inv.registered, pollBatch_mem inv.registered polled, by simp,
        by simp [Immediate], by simp⟩
    · cases stepEq
  | dispatch =>
    split at stepEq <;> cases stepEq
    next pointEq => exact ⟨nodes, inv.move (by simp) (by simp [State.upcoming, pointEq])⟩
    next pointEq => exact ⟨nodes, inv.dispatch pointEq⟩
  | done =>
    split at stepEq <;> cases stepEq
    next pointEq => exact ⟨nodes, inv.move (by simp) (by simp [State.upcoming, pointEq])⟩

end Steps

theorem Inv.initial (memory : N → Source C A) : Inv (State.initial memory) [] where
  registered := {
    chains := ⟨⟨fun _ => nodup_nil, by simp⟩, fun _ => ⟨trivial, rfl⟩⟩
    allocated := by simp [State.initial, Lists.backOf]
    known := by simp [State.initial]
    registered := by simp
    bounded := by simp
    distinct := by simp }
  upcoming := by simp [State.upcoming, State.initial]
  deleted := by simp [State.initial]
  immediate := by simp [Immediate, State.initial]
  sound := by simp [State.initial]

/-- If no call deletes a source that is still to come in the batch, then the loop never
reads the record or calls the callback of a source that has been deleted in the same
iteration, and it never reads memory that has been freed. -/
theorem deletion_immediate [DecidableEq N] {memory : N → Source C A} {target : State N C A}
    (run : GuardedRun step Spares (State.initial memory) target) :
    Immediate target.log ∧ target.point ≠ .fault := by
  obtain ⟨nodes, inv⟩ : ∃ nodes, Inv target nodes := by
    apply run.invariant (fun state => ∃ nodes, Inv state nodes) ⟨[], Inv.initial memory⟩
    rintro state label next ⟨nodes, inv⟩ spares stepEq
    exact inv.step spares stepEq
  exact ⟨inv.immediate, inv.sound⟩

/-- Records that have never been allocated. -/
def blank : Bool → Source Unit Unit := fun _ => ⟨0, 0, 0, none, (), false, false⟩

/-- Two descriptors are ready for reading. -/
def bothReady : List (Label Bool Unit Unit) :=
  [.add 3 1 (some ()) () (some false) true, .add 4 1 (some ()) () (some true) true,
    .poll [(3, 1), (4, 1)], .dispatch]

/-- The first callback deletes its own source and adds another in its memory; the second
one deletes its own by its descriptor. -/
theorem deletion_immediate_deleteOwn :
    ∃ state, exec (guarded step Spares) (State.initial blank) (bothReady ++
        [.del false, .add 5 1 (some ()) () (some false) true, .done, .dispatch, .delFd 4 2,
          .done, .dispatch]) = some state ∧
      state.log = [.deleted 1, .invoked 1, .touched 1, .deleted 0, .invoked 0, .touched 0] ∧
      Immediate state.log ∧ state.point ≠ .fault := by
  apply exists_exec fun state => state.log =
    [.deleted 1, .invoked 1, .touched 1, .deleted 0, .invoked 0, .touched 0]
  · decide +kernel
  · exact fun state stateEq logged => ⟨logged, deletion_immediate (guardedRun_of_exec stateEq)⟩

/-- The callback of the first source deletes the second one, and the loop then reads
its record. -/
theorem not_immediate_deleteLater :
    ∃ state : State Bool Unit Unit, Reachable step (State.initial blank) state ∧
      state.log = [.touched 1, .deleted 1, .invoked 0, .touched 0] ∧ state.point = .fault ∧
      ¬ Immediate state.log := by
  refine exists_reachable (bothReady ++ [.del true, .done, .dispatch]) (fun state =>
    state.log = [.touched 1, .deleted 1, .invoked 0, .touched 0] ∧ state.point = .fault)
    (by decide +kernel) ?_
  rintro state ⟨logged, fault⟩
  refine ⟨logged, fault, fun immediate => ?_⟩
  apply immediate 1 [.deleted 1, .invoked 0, .touched 0] (.inl (logged ▸ suffix_rfl))
  simp

end QDaemon.EventLoop
