import QDaemon.Timer.Parts

/-!
# Well-formed wheels

A wheel is well formed if every slot is a list of exactly the timers whose fields
name it, and `expired` is an empty list.  Starting and stopping timers keep a
wheel well formed.  A tick does so as long as it only meets empty slots: otherwise
`qd_list_splice` leaves a head that still points at the entries it has lost.
-/

namespace QDaemon.Timer

open Linked Transition

universe u

variable {T : Type u}

/-- The slots hold the given timers, which are those whose fields name the slot. -/
structure WellFormed (wheel : Wheel T) (members : Nat → Nat → List T) : Prop where
  slots : ∀ {level slot}, level < 4 → slot < 256 →
    Ring wheel.links (.slot level slot) ((members level slot).map .timer)
  expired : Ring wheel.links .expired []
  stored : ∀ {level slot}, level < 4 → slot < 256 →
    ∀ timer, timer ∈ members level slot ↔ StoredAt (wheel.timers timer) level slot
  inSlot : ∀ timer, (wheel.timers timer).slot = -1 ∨
    ∃ level slot, level < 4 ∧ slot < 256 ∧ StoredAt (wheel.timers timer) level slot

variable [DecidableEq T]

/-- A step that does not meet timers in the slot that a tick leaves or cascades. -/
def Quiet (state : State T) : Label T → Prop
  | .advance _ => state.wheel.links.Empty (.slot 0 (state.wheel.tickSlot 0))
  | .cascade _ =>
      match state.phase with
      | .cascade _ level => level < 4 ∧ state.wheel.AtBoundary level →
          state.wheel.links.Empty (.slot level (state.wheel.tickSlot level))
      | _ => True
  | _ => True

instance (state : State T) (label : Label T) : Decidable (Quiet state label) := by
  rcases label with _ | _ <;> unfold Quiet <;> try infer_instance
  rcases state.phase with _ | _ <;> infer_instance

/-! ## Invariant -/

/-- A wheel at rest of which no head is stale. -/
structure Fresh (wheel : Wheel T) (content : Content T) : Prop extends Resting wheel content where
  slots : ∀ level slot, content (.slot level slot) ≠ none
  nothingExpired : content .expired = some []

variable {content : Content T} {wheel : Wheel T}

section

variable (fresh : Fresh wheel content)
include fresh

omit [DecidableEq T] in
theorem Fresh.of_sameHeads {changed : Wheel T} {next : Content T}
    (same : SameHeads content next) (resting : Resting changed next) : Fresh changed next :=
  { resting with
    slots := fun level slot unused => fresh.slots level slot ((same.slots level slot).mp unused)
    nothingExpired := by rw [same.others _ (by simp), fresh.nothingExpired] }

/-- Initialising a local head changes nothing. -/
theorem Fresh.init {stack : Node T} (isStack : stack = .tmp ∨ stack = .fired) :
    Fresh { wheel with links := wheel.links.init stack } content := by
  refine { fresh with represents := fresh.represents.init ?_ isStack }
  rcases isStack with rfl | rfl
  · exact fresh.tmp
  · exact fresh.fired

/-- Starting a timer finds the head of its slot in use. -/
theorem Fresh.startWith (periodic : Bool) (timer : T)
    (ms : BitVec 64) : ∃ content, Fresh (Wheel.startWith periodic wheel timer ms) content := by
  obtain ⟨next, resting, same⟩ := fresh.toResting.startWith periodic timer ms (fresh.slots _ _)
  exact ⟨next, fresh.of_sameHeads same resting⟩

omit fresh in
/-- A quiet step splices no list with entries. -/
theorem Fresh.step {state next : State T} {label : Label T} (fresh : Fresh state.wheel content)
    (quiet : Quiet state label) (stepEq : step state label = some next) :
    ∃ content, Fresh next.wheel content := by
  obtain ⟨wheel, phase⟩ := state
  have move := move_of_step stepEq
  generalize next.wheel = nextWheel, next.phase = nextPhase at move ⊢
  cases move with
  | start timer delayMs => exact fresh.startWith false timer delayMs
  | startPeriodic timer intervalMs => exact fresh.startWith true timer intervalMs
  | stop timer =>
    obtain ⟨next, resting, same⟩ := fresh.toResting.timerStop timer
    exact ⟨next, fresh.of_sameHeads same resting⟩
  | early | tick | cascaded => exact ⟨content, fresh⟩
  | advance behind left =>
    rw [leaveSlot_of_empty quiet] at left
    cases left
    exact ⟨content, { fresh with represents := fresh.represents }⟩
  | cascade levelLt boundary cascaded =>
    rw [cascadeTimers_of_empty (quiet ⟨levelLt, boundary⟩)] at cascaded
    cases cascaded
    exact ⟨content, fresh.init (.inl rfl)⟩
  | expire reached fired =>
    have empty := (fresh.represents.rings.ring fresh.nothingExpired).empty_iff.mpr rfl
    rw [fireExpired_of_empty empty] at fired
    cases fired
    exact ⟨content, fresh.init (.inr rfl)⟩

omit [DecidableEq T] in
theorem Fresh.wellFormed : ∃ members, WellFormed wheel members := by
  have rep := fresh.represents
  have exists_members (level slot : Nat) :
      ∃ members : List T, content (.slot level slot) = some (members.map .timer) := by
    obtain ⟨list, eq⟩ := Option.ne_none_iff_exists'.mp (fresh.slots level slot)
    obtain ⟨members, rfl⟩ := exists_map_timer (rep.entries eq)
    exact ⟨members, eq⟩
  choose members eq using exists_members
  refine ⟨members, fun {level slot} _ _ => rep.rings.ring (eq level slot),
    rep.rings.ring fresh.nothingExpired, fun {level slot} _ _ timer => ?_, fun timer => ?_⟩
  · rw [← rep.mem_slot (eq level slot) timer]
    simp
  · refine (rep.inSlot timer).imp_right ?_
    rintro ⟨level, slot, _, levelLt, slotLt, storedAt, -⟩
    exact ⟨level, slot, levelLt, slotLt, storedAt⟩

end

/-! ## Runs -/

/-- A wheel stays well formed as long as no tick meets timers in a slot that it
leaves or cascades. -/
theorem wellFormed_of_quiet {tickIntervalMs now : BitVec 64} {state : State T}
    (run : GuardedRun step Quiet (State.initial tickIntervalMs now) state) :
    ∃ members, WellFormed state.wheel members := by
  have inv : ∃ content, Fresh state.wheel content := by
    refine run.invariant (fun state => ∃ content, Fresh state.wheel content) ⟨initialContent, ?_⟩ ?_
    · exact { resting_timerWheelCreate tickIntervalMs now with
        slots := by simp [initialContent]
        nothingExpired := rfl }
    · rintro state label next ⟨content, fresh⟩ quiet stepEq
      exact fresh.step quiet stepEq
  obtain ⟨content, fresh⟩ := inv
  exact fresh.wellFormed

/-- A one-shot timer due at tick 600 and a periodic one that is stopped again, and
a tick to 257, which cascades an empty slot at tick 256. -/
def quietCascade : List (Label Bool) :=
  [.start true 600, .startPeriodic false 300, .stop false, .tick 257] ++
    (List.replicate 255 [.advance 0, .cascade 0]).flatten ++
    [.advance 0, .cascade 0, .cascade 0, .advance 0, .cascade 0, .expire 0]

theorem wellFormed_of_quiet_quietCascade :
    ∃ state, exec (guarded step Quiet) (State.initial 1 0) quietCascade = some state ∧
      state.phase = .outside ∧ state.wheel.currentTick = 257 ∧
      StoredAt (state.wheel.timers true) 1 2 ∧ ∃ members, WellFormed state.wheel members := by
  apply exists_exec fun state => state.phase = .outside ∧ state.wheel.currentTick = 257 ∧
    StoredAt (state.wheel.timers true) 1 2
  · decide +kernel
  · rintro state stateEq ⟨outside, tickEq, storedAt⟩
    exact ⟨outside, tickEq, storedAt, wellFormed_of_quiet (guardedRun_of_exec stateEq)⟩

/-- One timer due at tick 1, and a tick to 2. -/
def oneFiring : List (Label Unit) :=
  [.start () 1, .tick 2, .advance 1, .cascade 0, .advance 1, .cascade 0, .expire 1]

/-- After a timer has fired, the head `expired` still points at it. -/
theorem not_wellFormed_oneFiring :
    ∃ state : State Unit, Reachable step (State.initial 1 0) state ∧ state.phase = .outside ∧
      (state.wheel.timers ()).slot = -1 ∧ state.wheel.links.next .expired = .timer () ∧
      ¬ ∃ members, WellFormed state.wheel members := by
  refine exists_reachable oneFiring (fun state => state.phase = .outside ∧
    (state.wheel.timers ()).slot = -1 ∧ state.wheel.links.next .expired = .timer ()) (by decide) ?_
  rintro state ⟨outside, out, nextEq⟩
  refine ⟨outside, out, nextEq, ?_⟩
  rintro ⟨members, wellFormed⟩
  have selfLoop : state.wheel.links.next .expired = .expired := wellFormed.expired.segment.1
  rw [nextEq] at selfLoop
  cases selfLoop

end QDaemon.Timer
