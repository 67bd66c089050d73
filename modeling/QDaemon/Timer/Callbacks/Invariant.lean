import Mathlib.Data.Fintype.Basic
import QDaemon.Timer.Callbacks.Core

/-!
# Orderly runs with callbacks

In an orderly run no step uses a stale head, and no callback starts the timer that is
firing or one that is still in the local list of the final phase.  The lists of the
wheel then stay well formed, and each step changes the timers in one of a few ways.
-/

namespace QDaemon.Timer

open Option List Function Linked Transition

universe u

variable {T : Type u} [DecidableEq T]

/-! ## Condition -/

/-- A timer that starts now and expires after a number of ticks is placed into a slot
that is not stale. -/
def Wheel.Room (wheel : Wheel T) (ticks : Nat) : Prop :=
  wheel.currentTick + ticks < 2 ^ 64 ∧
    ¬ Stale wheel.links (.slot (calculateSlot wheel.currentTick (wheel.currentTick + ticks)).1
      (calculateSlot wheel.currentTick (wheel.currentTick + ticks)).2)

instance Wheel.Room.decidable (wheel : Wheel T) (ticks : Nat) : Decidable (wheel.Room ticks) :=
  inferInstanceAs (Decidable (_ ∧ _))

/-- A timer that is linked but in no slot: in the final phase of a tick it is in the
local list. -/
def Wheel.InBatch (wheel : Wheel T) (timer : T) : Prop :=
  (wheel.timers timer).slot < 0 ∧ ¬ wheel.links.Empty (.timer timer)

instance Wheel.InBatch.decidable (wheel : Wheel T) (timer : T) : Decidable (wheel.InBatch timer) :=
  inferInstanceAs (Decidable (_ ∧ _))

variable {wheel : Wheel T}
variable {due : List T}

omit [DecidableEq T] in
theorem Wheel.Room.startPlace {ms : BitVec 64} (room : wheel.Room (wheel.ticks ms)) :
    ¬ Stale wheel.links (.slot (wheel.startPlace ms).1 (wheel.startPlace ms).2) := by
  rw [Wheel.startPlace, Wheel.expiry, Nat.mod_eq_of_lt room.1]
  exact room.2

namespace Callbacks

/-- The timer whose callback is running. -/
def State.firing (state : State T) : Option T :=
  match state.point with
  | .callback timer => some timer
  | _ => none

/-- A start finds room, and a callback starts neither its own timer nor one of the
local list. -/
def MayStart (state : State T) (call : Call T) : Prop :=
  match call.starts state.wheel with
  | some (_, ms) => state.wheel.Room (state.wheel.ticks ms) ∧
      (state.firing.isSome → state.firing ≠ some call.timer ∧ ¬ state.wheel.InBatch call.timer)
  | none => True

/-- A periodic timer finds room when it is placed again. -/
def MayReturn (state : State T) : Prop :=
  ∀ timer ∈ state.firing, (state.wheel.timers timer).periodic = true →
    state.wheel.Room (state.wheel.timers timer).interval

/-- A step that uses no stale head, and starts no timer that has expired in the
current tick. -/
def Orderly (state : State T) : Label T → Prop
  | .call call => MayStart state call
  | .tick now =>
      state.wheel.targetTick now ≤ state.wheel.currentTick ∨ ¬ Stale state.wheel.links .expired
  | .cascade _ =>
      match state.point with
      | .phase (.cascade _ level) =>
          level < 4 ∧ state.wheel.AtBoundary level → state.wheel.Cascadable level
      | _ => True
  | .done => MayReturn state
  | _ => True

instance MayStart.decidable (state : State T) (call : Call T) : Decidable (MayStart state call) := by
  unfold MayStart
  split <;> infer_instance

instance MayReturn.decidable (state : State T) : Decidable (MayReturn state) := by
  unfold MayReturn
  cases state.firing with
  | none => exact isTrue (by simp)
  | some timer =>
      exact decidable_of_iff ((state.wheel.timers timer).periodic = true →
        state.wheel.Room (state.wheel.timers timer).interval) (by simp)

instance Orderly.decidable [Fintype T] (state : State T) (label : Label T) :
    Decidable (Orderly state label) := by
  unfold Orderly Wheel.Cascadable
  split
  case h_3 => split <;> infer_instance
  all_goals infer_instance

/-! ## Lists -/

/-- The lists between two parts of the final phase, or between two calls if there is no
local list. -/
structure Between (content : Content T) (batch : Option (List T)) : Prop where
  tmp : content .tmp = none
  fired : content .fired = batch.map (List.map .timer)
  expired : content .expired = none ∨ content .expired = some []

/-- What the lists are at each point; `due` are the timers that have expired and have
not been fired. -/
def Shape (state : State T) (content : Content T) (due : List T) : Prop :=
  match state.point with
  | .phase .outside =>
      Held state.wheel content none (fun _ => state.wheel.currentTick) due ∧
        Between content none ∧ due = []
  | .phase (.advance target) =>
      Held state.wheel content none (fun _ => state.wheel.currentTick) due ∧
        Ticking content due ∧ target < 2 ^ 64 ∧ ∀ timer, state.requested timer = none
  | .phase (.cascade target level) =>
      Held state.wheel content none (reachBelow level state.wheel.currentTick) due ∧
        Ticking content due ∧ target < 2 ^ 64 ∧ (∀ timer, state.requested timer = none) ∧
        0 < level ∧ 0 < state.wheel.currentTick
  | .batch =>
      Held state.wheel content none (fun _ => state.wheel.currentTick) due ∧
        Between content (some due)
  | .callback timer =>
      Held state.wheel content none (fun _ => state.wheel.currentTick) due ∧
        Between content (some due) ∧ (state.wheel.timers timer).slot = -1 ∧ timer ∉ due

variable {content : Content T} {batch : Option (List T)}

omit [DecidableEq T] in
theorem Between.of_sameHeads {next : Content T} (between : Between content batch)
    (same : SameHeads content next) : Between next batch :=
  ⟨by rw [same.others _ (by simp), between.tmp], by rw [same.others _ (by simp), between.fired],
    by rw [same.others _ (by simp)]; exact between.expired⟩

omit [DecidableEq T] in
/-- A timer of the local list is linked but in no slot. -/
theorem inBatch_of_mem {reach : Nat → Nat} {timer : T} (held : Held wheel content none reach due)
    (between : Between content (some due)) (mem : timer ∈ due) : wheel.InBatch timer := by
  constructor
  · rw [held.out timer mem]
    decide
  · exact (held.represents.rings.ring between.fired).not_empty_entry (mem_map_of_mem mem)

/-- A timer is in the list of a slot. -/
def InSlotList (wheel : Wheel T) (timer : T) : Prop :=
  ∃ level slot list, level < 4 ∧ slot < 256 ∧ Ring wheel.links (.slot level slot) list ∧
    .timer timer ∈ list

omit [DecidableEq T] in
theorem inSlotList_iff {reach : Nat → Nat} (held : Held wheel content none reach due) (timer : T) :
    InSlotList wheel timer ↔ (wheel.timers timer).slot ≠ -1 := by
  have rep := held.represents
  constructor
  · rintro ⟨level, slot, list, levelLt, slotLt, ring, mem⟩ out
    obtain ⟨entries, entriesEq⟩ := rep.exists_of_not_stale levelLt slotLt ring.not_stale
    rw [ring.unique (rep.rings.ring entriesEq)] at mem
    exact not_storedAt out level slot ((rep.mem_slot entriesEq timer).mp mem)
  · intro inSlot
    obtain ⟨level, slot, list, levelLt, slotLt, storedAt, eq⟩ :=
      (rep.inSlot timer).resolve_left inSlot
    exact ⟨level, slot, list, levelLt, slotLt, rep.rings.ring eq, (rep.mem_slot eq timer).mpr storedAt⟩

/-! ## Calls of callbacks -/

section Loop

variable {wheel : Wheel T} {content : Content T} {due left : List T} {timer : T}

/-- The timer is taken out of the local list. -/
theorem beginCallback_held
    (held : Held wheel content none (fun _ => wheel.currentTick) (timer :: left))
    (between : Between content (some (timer :: left))) :
    ∃ next, Held (wheel.beginCallback timer) next none (fun _ => wheel.currentTick) left ∧
      Between next (some left) := by
  have first : content .fired = some ([] ++ .timer timer :: left.map .timer) := between.fired
  have out := held.out timer mem_cons_self
  refine ⟨_, held.update (held.represents.delInit first out) (bottom_update held.bottom _ _) rfl rfl
    (fun storedAt => absurd storedAt (not_storedAt out _ _))
    (fun _ _ mem => mem_cons_of_mem timer mem) fun _ => out, ?_, update_self _ _ _, ?_⟩
  · rw [update_of_ne (by simp), between.tmp]
  · rw [update_of_ne (by simp)]
    exact between.expired

theorem endCallback_of_oneShot (oneShot : (wheel.timers timer).periodic = false) :
    wheel.endCallback timer = { wheel with
      numTimers := wheel.numTimers - 1#32
      timers := update wheel.timers timer { wheel.timers timer with state := .idle } } := by
  simp [Wheel.endCallback, Wheel.setTimer, oneShot]

/-- The fields of a periodic timer that is placed again now. -/
def againFields (wheel : Wheel T) (timer : T) : QdTimer :=
  let expires := (wheel.currentTick + (wheel.timers timer).interval) % 2 ^ 64
  { wheel.timers timer with
    expires := expires
    state := .scheduled
    slot := (calculateSlot wheel.currentTick expires).2
    wheelLevel := (calculateSlot wheel.currentTick expires).1 }

theorem endCallback_of_periodic (periodic : (wheel.timers timer).periodic = true) :
    (wheel.endCallback timer).timers = update wheel.timers timer (againFields wheel timer) ∧
      (wheel.endCallback timer).links = wheel.links.addTail (.timer timer)
        (.slot (calculateSlot wheel.currentTick (againFields wheel timer).expires).1
          (calculateSlot wheel.currentTick (againFields wheel timer).expires).2) ∧
      (wheel.endCallback timer).currentTick = wheel.currentTick ∧
      (wheel.endCallback timer).numTimers = wheel.numTimers := by
  simp [Wheel.endCallback, Wheel.setTimer, Wheel.addTimerInternal, periodic, againFields]

/-- The timer is placed again, or done. -/
theorem endCallback_held (held : Held wheel content none (fun _ => wheel.currentTick) due)
    (between : Between content (some due)) (out : (wheel.timers timer).slot = -1)
    (gone : timer ∉ due)
    (room : (wheel.timers timer).periodic = true → wheel.Room (wheel.timers timer).interval) :
    ∃ next, Held (wheel.endCallback timer) next none (fun _ => wheel.currentTick) due ∧
      (wheel.endCallback timer).currentTick = wheel.currentTick ∧ Between next (some due) := by
  cases periodic : (wheel.timers timer).periodic with
  | false =>
    rw [endCallback_of_oneShot periodic]
    refine ⟨content, held.update ?_ held.bottom rfl rfl
      (fun storedAt => absurd storedAt (not_storedAt out _ _)) (fun _ _ mem => mem)
      fun mem => absurd mem gone, rfl, between⟩
    refine held.represents.congr fun other => ?_
    by_cases different : other = timer
    · subst different
      simp
    · simp [different]
  | true =>
    obtain ⟨bounded, fresh⟩ := room periodic
    obtain ⟨timersEq, linksEq, tickEq, -⟩ := endCallback_of_periodic periodic
    have expiresEq : (againFields wheel timer).expires =
        wheel.currentTick + (wheel.timers timer).interval := Nat.mod_eq_of_lt bounded
    have atPlace : StoredAt (againFields wheel timer)
        (calculateSlot wheel.currentTick (againFields wheel timer).expires).1
        (calculateSlot wheel.currentTick (againFields wheel timer).expires).2 := ⟨rfl, rfl⟩
    have placed : Placed wheel.currentTick (fun _ => wheel.currentTick) none
        (againFields wheel timer).expires _ _ := placed_calculateSlot (by omega) (by omega)
    rw [← expiresEq] at fresh
    obtain ⟨levelLt, slotLt⟩ := calculateSlot_lt wheel.currentTick (againFields wheel timer).expires
    obtain ⟨list, listEq⟩ := held.represents.exists_of_not_stale levelLt slotLt fresh
    have outside := held.represents.outside_of_free out (not_mem_of_unused between.expired)
      fun list eq => by
      rw [between.fired] at eq
      rw [← some.inj eq]
      simpa using gone
    have stored := held.represents.store listEq outside levelLt slotLt atPlace
    rw [← timersEq, ← linksEq] at stored
    have same := sameHeads_update listEq (list ++ [.timer timer])
    refine ⟨_, held.update stored (bottom_update held.bottom _ _) tickEq timersEq ?_
      (fun _ _ mem => mem) fun mem => absurd mem gone, tickEq, between.of_sameHeads same⟩
    intro level slot storedAt
    obtain ⟨rfl, rfl⟩ := storedAt.unique atPlace
    exact placed

end Loop

/-! ## What a step does -/

/-- The changes that a step makes to the timers. -/
inductive Change (state : State T) (due : List T) : Label T → State T → List T → Prop
  | start {call : Call T} {periodic inCallback : Bool} {ms : BitVec 64}
      (starts : call.starts state.wheel = some (periodic, ms)) (notDue : call.timer ∉ due)
      (notFiring : state.firing ≠ some call.timer)
      (nonneg : (state.wheel.timers call.timer).slot ≠ -1 →
        0 ≤ (state.wheel.timers call.timer).slot) :
      Change state due (.call call) (state.call inCallback call) due
  | stop {call : Call T} {inCallback : Bool} (stops : call.starts state.wheel = none)
      (out : (state.wheel.stoppedFields call.timer).slot = -1)
      (inSlot : (state.wheel.timers call.timer).slot ≠ -1 →
        0 ≤ (state.wheel.timers call.timer).slot ∧ call.timer ∉ due ∧
          state.firing ≠ some call.timer) :
      Change state due (.call call) (state.call inCallback call) due
  | move {label : Label T} {next : State T} {left : List T}
      (moves : Moves state.wheel due next.wheel left) (logEq : next.log = state.log)
      (requestedEq : (∀ timer, next.requested timer = none) ∨
        next.requested = state.requested ∧ next.wheel.timers = state.wheel.timers)
      (nobody : state.firing = none) (still : next.firing = none) :
      Change state due label next left
  | invoke {timer : T} {left : List T} (dueEq : due = timer :: left) (gone : timer ∉ left)
      (out : (state.wheel.timers timer).slot = -1) (nobody : state.firing = none) :
      Change state due .next { state with
        wheel := state.wheel.beginCallback timer
        point := .callback timer
        log := .invoked timer :: state.log } left
  | done {timer : T} (firing : state.firing = some timer)
      (out : (state.wheel.timers timer).slot = -1) (gone : timer ∉ due) :
      Change state due .done { state with
        wheel := state.wheel.endCallback timer
        point := .batch } due

theorem call_clock (wheel : Wheel T) (call : Call T) :
    (call.run wheel).currentTick = wheel.currentTick := by
  cases starts : call.starts wheel with
  | none =>
    rw [Call.run_of_stops starts]
    exact timerStop_clock wheel call.timer
  | some start =>
    rw [Call.run_of_starts starts]
    exact startWith_clock start.1 wheel call.timer start.2

section Step

variable {state next : State T} {content : Content T} {due : List T}

/-- A call keeps the lists. -/
theorem call_held {call : Call T}
    (held : Held state.wheel content none (fun _ => state.wheel.currentTick) due)
    (between : Between content batch) (isDue : ∀ left ∈ batch, left = due)
    (out : ∀ timer ∈ state.firing, (state.wheel.timers timer).slot = -1) (may : MayStart state call)
    (free : (call.starts state.wheel).isSome → call.timer ∉ due ∧ state.firing ≠ some call.timer)
    (inCallback : Bool) :
    ∃ next, Held (call.run state.wheel) next none (fun _ => (call.run state.wheel).currentTick) due ∧
      Between next batch ∧ Change state due (.call call) (state.call inCallback call) due := by
  rw [call_clock]
  cases starts : call.starts state.wheel with
  | none =>
    rw [Call.run_of_stops starts]
    obtain ⟨next, stopped, same⟩ := held.timerStop call.timer
    exact ⟨next, stopped, between.of_sameHeads same,
      .stop starts (held.stoppedFields_slot call.timer) fun inSlot =>
        ⟨held.slot_nonneg inSlot, fun mem => inSlot (held.out _ mem),
          fun firing => inSlot (out _ firing)⟩⟩
  | some start =>
    obtain ⟨periodic, ms⟩ := start
    rw [Call.run_of_starts starts]
    rw [MayStart, starts] at may
    rw [starts] at free
    obtain ⟨notDue, notFiring⟩ := free rfl
    have notFired (list : List (Node T)) (eq : content .fired = some list) :
        .timer call.timer ∉ list := by
      rw [between.fired] at eq
      obtain ⟨left, leftEq, rfl⟩ := map_eq_some_iff.mp eq
      rw [isDue left leftEq]
      simpa using notDue
    obtain ⟨next, started, same⟩ := held.startWith periodic ms
      (not_mem_of_unused between.expired) notFired notDue may.1.1 may.1.startPlace
    exact ⟨next, started, between.of_sameHeads same, .start starts notDue notFiring held.slot_nonneg⟩

/-- The lists stay well formed, and the step makes one of the changes. -/
abbrev Kept (state : State T) (due : List T) (label : Label T) (next : State T) : Prop :=
  ∃ content left, Shape next content left ∧ Change state due label next left

section

variable (shape : Shape state content due)
include shape

theorem Shape.call {call : Call T} (may : MayStart state call)
    (stepEq : step state (.call call) = some next) : Kept state due (.call call) next := by
  obtain ⟨wheel, point, log, requested⟩ := state
  cases point with
  | batch => cases stepEq
  | phase phase =>
    cases phase with
    | advance | cascade => cases stepEq
    | outside =>
      cases stepEq
      obtain ⟨held, between, rfl⟩ := shape
      obtain ⟨changed, nextHeld, nextBetween, change⟩ := call_held held between (by simp)
        (by simp [State.firing]) may (fun _ => ⟨not_mem_nil, by simp [State.firing]⟩) false
      exact ⟨changed, [], ⟨nextHeld, nextBetween, rfl⟩, change⟩
  | callback firing =>
    cases stepEq
    obtain ⟨held, between, out, gone⟩ := shape
    have free (isStart : (call.starts wheel).isSome) :
        call.timer ∉ due ∧ some firing ≠ some call.timer := by
      obtain ⟨start, starts⟩ := isSome_iff_exists.mp isStart
      rw [MayStart, starts] at may
      obtain ⟨notFiring, notInBatch⟩ := may.2 rfl
      exact ⟨fun mem => notInBatch (inBatch_of_mem held between mem), notFiring⟩
    obtain ⟨changed, nextHeld, nextBetween, change⟩ := call_held held between
      (fun left eq => (some.inj eq).symm)
      (fun timer eq => some.inj eq ▸ out) may free true
    refine ⟨changed, due, ⟨nextHeld, nextBetween, ?_, gone⟩, change⟩
    -- the timer that is firing is in no slot, also if it has just been stopped
    change ((call.run wheel).timers firing).slot = -1
    cases starts : call.starts wheel with
    | none =>
      rw [Call.run_of_stops starts, timerStop_timers]
      by_cases same : firing = call.timer
      · rw [same, update_self]
        exact held.stoppedFields_slot _
      · rw [update_of_ne same]
        exact out
    | some start =>
      have different := (free (by rw [starts]; rfl)).2
      rw [Call.run_of_starts starts, startWith_timers,
        update_of_ne fun same => different (congrArg some same)]
      exact out

theorem Shape.tick {now : BitVec 64} (orderly : Orderly state (.tick now))
    (stepEq : step state (.tick now) = some next) : Kept state due (.tick now) next := by
  obtain ⟨wheel, point, log, requested⟩ := state
  cases point with
  | batch | callback => cases stepEq
  | phase phase =>
    obtain ⟨moved, movedEq, rfl⟩ := map_eq_some_iff.mp stepEq
    obtain ⟨nextWheel, nextPhase⟩ := moved
    cases move_of_step movedEq with
    | early reached =>
      exact ⟨content, due, shape, .move (.refl _ _) rfl (.inl fun _ => rfl) rfl rfl⟩
    | tick behind =>
      obtain ⟨held, between, rfl⟩ := shape
      have fresh : ¬ Stale wheel.links .expired := orderly.resolve_left (Nat.not_le.mpr behind)
      have expired : content .expired = some [] :=
        between.expired.resolve_left fun unused => fresh (held.represents.staleExpired unused)
      exact ⟨content, [], ⟨held, ⟨between.tmp, between.fired, expired⟩, targetTick_lt wheel _,
        fun _ => rfl⟩, .move (.refl _ _) rfl (.inl fun _ => rfl) rfl rfl⟩

theorem Shape.advance {rounds : Nat} (stepEq : step state (.advance rounds) = some next) :
    Kept state due (.advance rounds) next := by
  obtain ⟨wheel, point, log, requested⟩ := state
  cases point with
  | batch | callback => cases stepEq
  | phase phase =>
    obtain ⟨moved, movedEq, rfl⟩ := map_eq_some_iff.mp stepEq
    obtain ⟨nextWheel, nextPhase⟩ := moved
    cases move_of_step movedEq with
    | advance behind left =>
      obtain ⟨held, ticking, bounded, none_⟩ := shape
      obtain ⟨final, settles, tickEq, changed, rest, nextHeld, nextTicking, moves⟩ :=
        held.leaveSlot ticking (Nat.lt_of_le_of_lt (Nat.succ_le_of_lt behind) bounded)
      obtain rfl := settles.eq_of_some left
      exact ⟨changed, rest,
        ⟨nextHeld, nextTicking, bounded, none_, one_pos, tickEq.symm ▸ Nat.succ_pos _⟩,
        .move moves rfl (.inl none_) rfl rfl⟩

theorem Shape.cascade {rounds : Nat} (orderly : Orderly state (.cascade rounds))
    (stepEq : step state (.cascade rounds) = some next) :
    Kept state due (.cascade rounds) next := by
  obtain ⟨wheel, point, log, requested⟩ := state
  cases point with
  | batch | callback => cases stepEq
  | phase phase =>
    obtain ⟨moved, movedEq, rfl⟩ := map_eq_some_iff.mp stepEq
    obtain ⟨nextWheel, nextPhase⟩ := moved
    cases move_of_step movedEq with
    | cascade levelLt boundary cascaded =>
      obtain ⟨held, ticking, bounded, none_, levelPos, tickPos⟩ := shape
      obtain ⟨final, settles, tickEq, changed, nextHeld, nextTicking, moves⟩ :=
        held.cascadeTimers ticking levelPos levelLt tickPos (orderly ⟨levelLt, boundary⟩)
      obtain rfl := settles.eq_of_some cascaded
      exact ⟨changed, due,
        ⟨nextHeld, nextTicking, bounded, none_, Nat.succ_pos _, tickEq.symm ▸ tickPos⟩,
        .move moves rfl (.inl none_) rfl rfl⟩
    | cascaded rounds last =>
      obtain ⟨held, ticking, bounded, none_, levelPos, tickPos⟩ := shape
      exact ⟨content, due, ⟨held.cascaded levelPos tickPos last, ticking, bounded, none_⟩,
        .move (.refl _ _) rfl (.inl none_) rfl rfl⟩

theorem Shape.expire (stepEq : step state .expire = some next) : Kept state due .expire next := by
  obtain ⟨wheel, point, log, requested⟩ := state
  cases point with
  | batch | callback => cases stepEq
  | phase phase =>
    cases phase with
    | outside | cascade => cases stepEq
    | advance target =>
      simp only [step] at stepEq
      split at stepEq
      · cases stepEq
      cases stepEq
      obtain ⟨held, ticking, -⟩ := shape
      by_cases isEmpty : due = []
      · subst isEmpty
        have empty := (held.represents.rings.ring ticking.expired).empty_iff.mpr rfl
        rw [splice_of_empty empty (by simp)]
        refine ⟨_, [], ⟨{ held with
          represents := held.represents.beginEmpty ticking.fired
          bottom := bottom_update held.bottom _ _ }, ?_, update_self _ _ _, .inr ?_⟩,
          .move ⟨fun _ => rfl, fun _ => Iff.rfl, fun _ => id, rfl, rfl⟩ rfl (.inr ⟨rfl, rfl⟩) rfl rfl⟩
        · rw [update_of_ne (by simp), ticking.tmp]
        · rw [update_of_ne (by simp), ticking.expired]
          rfl
      · have spliced := held.represents.beginFire ticking.expired ticking.fired
          (by simpa using isEmpty)
        refine ⟨_, due, ⟨{ held with represents := spliced, bottom := fun slot slotLt => ?_ },
          ?_, update_self _ _ _, .inl ?_⟩,
          .move ⟨fun _ => rfl, fun _ => Iff.rfl, fun _ => id, rfl, rfl⟩ rfl (.inr ⟨rfl, rfl⟩) rfl rfl⟩
        · rw [update_of_ne (by simp)]
          exact held.bottom slot slotLt
        · rw [update_of_ne (by simp), update_of_ne (by simp), ticking.tmp]
        · rw [update_of_ne (by simp), update_self]

theorem Shape.takeFirst (stepEq : step state .next = some next) : Kept state due .next next := by
  obtain ⟨wheel, point, log, requested⟩ := state
  cases point with
  | phase | callback => cases stepEq
  | batch =>
    obtain ⟨held, between⟩ := shape
    have ring := held.represents.rings.ring between.fired
    simp only [step] at stepEq
    cases due with
    | nil =>
      rw [if_pos (ring.empty_iff.mpr rfl)] at stepEq
      cases stepEq
      refine ⟨_, [], ⟨⟨held.represents.endFire, fun slot slotLt => ?_, held.placed, held.out⟩,
        ⟨?_, update_self _ _ _, ?_⟩, rfl⟩,
        .move (.refl _ _) rfl (.inr ⟨rfl, rfl⟩) rfl rfl⟩
      · rw [update_of_ne (by simp)]
        exact held.bottom slot slotLt
      · rw [update_of_ne (by simp), between.tmp]
      · rw [update_of_ne (by simp)]
        exact between.expired
    | cons timer left =>
      rw [if_neg fun empty => absurd (ring.empty_iff.mp empty) (by simp), ring.next_head] at stepEq
      cases stepEq
      obtain ⟨changed, nextHeld, nextBetween⟩ := beginCallback_held held between
      have out := held.out timer mem_cons_self
      have gone : timer ∉ left := fun mem =>
        (nodup_cons.mp (nodup_cons.mp ring.distinct).2).1 (mem_map_of_mem mem)
      refine ⟨changed, left, ⟨nextHeld, nextBetween, ?_, gone⟩, .invoke rfl gone out rfl⟩
      simpa [Wheel.beginCallback, Wheel.setTimer, Wheel.unlink] using out

theorem Shape.done (may : MayReturn state) (stepEq : step state .done = some next) :
    Kept state due .done next := by
  obtain ⟨wheel, point, log, requested⟩ := state
  cases point with
  | phase | batch => cases stepEq
  | callback timer =>
    cases stepEq
    obtain ⟨held, between, out, gone⟩ := shape
    obtain ⟨changed, nextHeld, tickEq, nextBetween⟩ :=
      endCallback_held held between out gone (may timer rfl)
    rw [← tickEq] at nextHeld
    exact ⟨changed, due, ⟨nextHeld, nextBetween⟩, .done rfl out gone⟩

theorem Shape.step {label : Label T} (orderly : Orderly state label)
    (stepEq : step state label = some next) : Kept state due label next := by
  cases label with
  | call call => exact shape.call orderly stepEq
  | tick now => exact shape.tick orderly stepEq
  | advance rounds => exact shape.advance stepEq
  | cascade rounds => exact shape.cascade orderly stepEq
  | expire => exact shape.expire stepEq
  | next => exact shape.takeFirst stepEq
  | done => exact shape.done orderly stepEq

/-- A call on a timer outside of the local list. -/
theorem Shape.not_mem_due {call : Call T} (stepEq : Callbacks.step state (.call call) = some next)
    (apart : state.firing.isSome → ¬ state.wheel.InBatch call.timer) : call.timer ∉ due := by
  obtain ⟨wheel, point, log, requested⟩ := state
  cases point with
  | batch => cases stepEq
  | phase phase =>
    cases phase with
    | advance | cascade => cases stepEq
    | outside =>
      obtain ⟨-, -, rfl⟩ := shape
      exact not_mem_nil
  | callback firing =>
    obtain ⟨held, between, -, -⟩ := shape
    exact fun mem => apart rfl (inBatch_of_mem held between mem)

end

end Step

omit [DecidableEq T] in
theorem Shape.outside {state : State T} (shape : Shape state content due)
    (outside : state.point = .phase .outside) :
    Held state.wheel content none (fun _ => state.wheel.currentTick) [] ∧ due = [] := by
  rw [Shape, outside] at shape
  obtain ⟨held, -, rfl⟩ := shape
  exact ⟨held, rfl⟩

omit [DecidableEq T] in
theorem shape_initial (tickIntervalMs now : BitVec 64) :
    Shape (State.initial tickIntervalMs now : State T) initialContent [] :=
  ⟨held_timerWheelCreate tickIntervalMs now, ⟨rfl, rfl, .inr rfl⟩, rfl⟩

end Callbacks

end QDaemon.Timer
