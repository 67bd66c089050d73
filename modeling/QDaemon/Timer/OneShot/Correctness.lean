import Mathlib.Data.Fintype.Basic
import QDaemon.Timer.OneShot.Ticks

/-!
# One-shot timers fire once

A run of starts and ticks calls the callback of a timer once for each start, as
long as it uses no stale head: `expired` is stale after the first tick that fires
timers, and a slot is stale after its timers have been cascaded.
-/

namespace QDaemon.Timer

open Linked Transition

universe u

variable {T : Type u} [DecidableEq T]

/-- A start or a part of a tick that uses no stale head.  A timer is not started
beyond the largest tick. -/
def Clean (state : State T) : Label T → Prop
  | .start _ delayMs =>
      state.wheel.currentTick + state.wheel.ticks delayMs < 2 ^ 64 ∧
        ¬ Stale state.wheel.links
          (.slot (state.wheel.startPlace delayMs).1 (state.wheel.startPlace delayMs).2)
  | .startPeriodic _ _ => False
  | .stop _ => False
  | .tick now =>
      state.wheel.targetTick now ≤ state.wheel.currentTick ∨ ¬ Stale state.wheel.links .expired
  | .advance _ => True
  | .cascade _ =>
      match state.phase with
      | .cascade _ level => level < 4 ∧ state.wheel.AtBoundary level → state.wheel.Cascadable level
      | _ => True
  | .expire _ => True

instance [Fintype T] (state : State T) (label : Label T) : Decidable (Clean state label) := by
  unfold Clean Wheel.Cascadable
  split
  case h_6 => split <;> infer_instance
  all_goals infer_instance

/-! ## Invariant -/

/-- The invariant of a run. -/
def OneShot (state : State T) : Prop :=
  match state.phase with
  | .outside => ∃ content,
      Sound state.wheel content none (fun _ => state.wheel.currentTick) [] ∧
        Resting state.wheel content
  | .advance target => target < 2 ^ 64 ∧ ∃ content due,
      Sound state.wheel content none (fun _ => state.wheel.currentTick) due ∧ Ticking content due
  | .cascade target level =>
      target < 2 ^ 64 ∧ 0 < level ∧ 0 < state.wheel.currentTick ∧ ∃ content due,
        Sound state.wheel content none (reachBelow level state.wheel.currentTick) due ∧
        Ticking content due

theorem oneShot_initial (tickIntervalMs now : BitVec 64) :
    OneShot (State.initial tickIntervalMs now : State T) := by
  have resting := resting_timerWheelCreate (T := T) tickIntervalMs now
  refine ⟨initialContent, ?_, resting⟩
  exact {
    represents := resting.represents
    bottom := by simp [initialContent]
    placed := fun storedAt => absurd storedAt (not_storedAt rfl _ _)
    oneShot := fun _ => rfl
    out := by simp
    counted := fun timer => (counted_nil timer).congr (by
      simp [State.initial, timerWheelCreate, timerInit]) }

/-- The next part of a tick. -/
def part (state : State T) (rounds : Nat) : Label T :=
  match state.phase with
  | .advance target =>
      if state.wheel.currentTick < target then .advance rounds else .expire rounds
  | _ => .cascade rounds

/-- A bound on the parts that a tick still has. -/
def remaining (state : State T) : Nat :=
  match state.phase with
  | .outside => 0
  | .advance target => 5 * (target - state.wheel.currentTick) + 1
  | .cascade target level => 5 * (target - state.wheel.currentTick) + 2 + (4 - level)

variable {state : State T}

/-- A part of a tick ends, keeps the invariant and leaves fewer parts. -/
theorem OneShot.settles_part (oneShot : OneShot state) (inTick : state.phase ≠ .outside)
    (clean : Clean state (part state 0)) :
    ∃ next, Settles (fun rounds => step state (part state rounds)) next ∧ OneShot next ∧
      remaining next < remaining state := by
  obtain ⟨wheel, phase⟩ := state
  cases phase with
  | outside => exact absurd rfl inTick
  | advance target =>
    obtain ⟨bounded, content, due, sound, ticking⟩ := oneShot
    by_cases behind : wheel.currentTick < target
    · have nextLt : wheel.currentTick + 1 < 2 ^ 64 := by omega
      obtain ⟨final, settles, tickEq, content, left, held, ticking, moves⟩ :=
        sound.held.leaveSlot ticking nextLt
      refine ⟨⟨final, .cascade target 1⟩, ?_, ⟨bounded, one_pos, tickEq ▸ Nat.succ_pos _, content,
        left, sound.of_moves held moves, ticking⟩, ?_⟩
      · simp only [part, if_pos behind, step]
        exact settles.map _
      · simp only [remaining, tickEq]
        omega
    · obtain ⟨final, settles, tickEq, rest⟩ := sound.fireExpired ticking
      refine ⟨⟨final, .outside⟩, ?_, rest, Nat.succ_pos _⟩
      simp only [part, if_neg behind, step]
      exact settles.map _
  | cascade target level =>
    obtain ⟨bounded, levelPos, tickPos, content, due, sound, ticking⟩ := oneShot
    by_cases continues : level < 4 ∧ wheel.AtBoundary level
    · obtain ⟨final, settles, tickEq, finalContent, held, finalTicking, moves⟩ :=
        sound.held.cascadeTimers ticking levelPos continues.1 tickPos (clean continues)
      refine ⟨⟨final, .cascade target (level + 1)⟩, ?_,
        ⟨bounded, Nat.succ_pos level, tickEq ▸ tickPos, finalContent, due,
          sound.of_moves held moves, finalTicking⟩, ?_⟩
      · simp only [step, if_pos continues]
        exact settles.map _
      · simp only [remaining, tickEq]
        omega
    · have placed := sound.held.cascaded levelPos tickPos continues
      refine ⟨⟨wheel, .advance target⟩, .of_forall fun rounds => ?_,
        ⟨bounded, content, due, sound.of_moves placed (.refl wheel due), ticking⟩, ?_⟩
      · simp [part, step, if_neg continues]
      · simp only [remaining]
        omega

omit [DecidableEq T] in
theorem clean_part {rounds : Nat} (clean : Clean state (part state rounds)) :
    Clean state (part state 0) := by
  unfold part at clean ⊢
  split
  · split <;> trivial
  next notAdvance =>
    split at clean
    next target phaseEq => exact absurd phaseEq (notAdvance target)
    · exact clean

theorem OneShot.step {next : State T} {label : Label T} (oneShot : OneShot state)
    (clean : Clean state label) (stepEq : step state label = some next) : OneShot next := by
  obtain ⟨wheel, phase⟩ := state
  -- the parts of a tick
  have inTick (rounds : Nat) (isPart : label = part ⟨wheel, phase⟩ rounds)
      (notOutside : phase ≠ .outside) : OneShot next := by
    subst isPart
    obtain ⟨final, settles, finalOneShot, -⟩ := oneShot.settles_part notOutside (clean_part clean)
    rwa [settles.eq_of_some stepEq]
  obtain ⟨nextWheel, nextPhase⟩ := next
  cases move_of_step stepEq with
  | start timer delayMs =>
    obtain ⟨content, sound, resting⟩ := oneShot
    exact sound.timerStart resting timer delayMs clean.1 clean.2
  | startPeriodic timer intervalMs | stop timer => exact absurd clean id
  | early reached => exact oneShot
  | tick behind =>
    obtain ⟨content, sound, resting⟩ := oneShot
    have fresh : ¬ Stale wheel.links .expired := clean.resolve_left (Nat.not_le.mpr behind)
    have expired : content .expired = some [] :=
      resting.expired.resolve_left fun unused => fresh (resting.represents.staleExpired unused)
    exact ⟨targetTick_lt wheel _, content, [], sound, resting.tmp, resting.fired, expired⟩
  | advance behind left => exact inTick _ (if_pos behind).symm (by simp)
  | cascade | cascaded => exact inTick _ rfl (by simp)
  | expire reached fired => exact inTick _ (if_neg (Nat.not_lt.mpr reached)).symm (by simp)

/-- What the invariant says about the history. -/
theorem OneShot.counted (oneShot : OneShot state) (timer : T) :
    AtMostOnce timer state.wheel.history ∧
      (state.phase = .outside → .start timer ∈ state.wheel.history →
        (state.wheel.timers timer).expires < state.wheel.currentTick →
        firesSinceStart timer state.wheel.history = 1) := by
  obtain ⟨wheel, phase⟩ := state
  cases phase with
  | outside =>
    obtain ⟨content, sound, -⟩ := oneShot
    have counted := sound.counted timer
    refine ⟨counted.atMostOnce, fun _ started passed => counted.settled ?_ started⟩
    rintro (inSlot | mem)
    · obtain out | ⟨level, slot, -, -, -, storedAt, -⟩ := sound.represents.inSlot timer
      · exact inSlot out
      · exact absurd (sound.placed storedAt).due (Nat.not_le.mpr passed)
    · exact absurd mem List.not_mem_nil
  | advance target =>
    obtain ⟨-, content, due, sound, -⟩ := oneShot
    exact ⟨(sound.counted timer).atMostOnce, by simp⟩
  | cascade target level =>
    obtain ⟨-, -, -, content, due, sound, -⟩ := oneShot
    exact ⟨(sound.counted timer).atMostOnce, by simp⟩

/-! ## Runs -/

/-- In a run that uses no stale head, the callback of a timer is called at most
once for each start, and exactly once when the tick has passed the expiry and the
call has returned.  Every call of `qd_timer_wheel_tick` returns: each part of it
ends, and only finitely many are left. -/
theorem fires_once {tickIntervalMs now : BitVec 64} {state : State T}
    (run : GuardedRun step Clean (State.initial tickIntervalMs now) state) :
    (∀ timer, AtMostOnce timer state.wheel.history ∧
      (state.phase = .outside → .start timer ∈ state.wheel.history →
        (state.wheel.timers timer).expires < state.wheel.currentTick →
        firesSinceStart timer state.wheel.history = 1)) ∧
    (state.phase ≠ .outside → Clean state (part state 0) → ∃ enough next,
      remaining next < remaining state ∧
        ∀ rounds, enough ≤ rounds → step state (part state rounds) = some next) := by
  have oneShot : OneShot state :=
    run.invariant OneShot (oneShot_initial tickIntervalMs now)
      fun _ _ _ before clean stepEq => before.step clean stepEq
  refine ⟨oneShot.counted, fun inTick clean => ?_⟩
  obtain ⟨next, settles, -, fewer⟩ := oneShot.settles_part inTick clean
  obtain ⟨enough, runs⟩ := settles.exists_enough
  exact ⟨enough, next, fewer, runs⟩

/-- One timer due at tick 257, which is cascaded at tick 256, and a tick to 258. -/
def oneCascade : List (Label Unit) :=
  [.start () 257, .tick 258] ++ (List.replicate 255 [.advance 1, .cascade 1]).flatten ++
    [.advance 1, .cascade 1, .cascade 1, .advance 1, .cascade 1, .advance 1, .cascade 1, .expire 1]

theorem fires_once_oneCascade :
    ∃ state, exec (guarded step Clean) (State.initial 1 0) oneCascade = some state ∧
      state.phase = .outside ∧ state.wheel.currentTick = 258 ∧
      state.wheel.history = [.fire (), .start ()] ∧
      firesSinceStart () state.wheel.history = 1 := by
  refine exists_exec (fun state => state.phase = .outside ∧ state.wheel.currentTick = 258 ∧
    (state.wheel.timers ()).expires = 257 ∧ state.wheel.history = [.fire (), .start ()])
    (by decide +kernel) ?_
  rintro state stateEq ⟨outside, tickEq, expiresEq, historyEq⟩
  have once := (fires_once (guardedRun_of_exec stateEq)).1 ()
  refine ⟨outside, tickEq, historyEq, once.2 outside ?_ ?_⟩
  · rw [historyEq]
    simp
  · rw [expiresEq, tickEq]
    decide

/-- One timer due at tick 1, a tick to 2 and a tick to 3. -/
def twoFirings : List (Label Unit) :=
  [.start () 1, .tick 2, .advance 1, .cascade 0, .advance 1, .cascade 0, .expire 1, .tick 3,
    .advance 0, .cascade 0, .expire 1]

/-- The second tick finds the timer in the stale list `expired` and calls its
callback again. -/
theorem not_atMostOnce_twoFirings :
    ∃ state : State Unit, Reachable step (State.initial 1 0) state ∧ state.phase = .outside ∧
      state.wheel.history = [.fire (), .fire (), .start ()] ∧
      ¬ AtMostOnce () state.wheel.history := by
  refine exists_reachable twoFirings (fun state => state.phase = .outside ∧
    state.wheel.history = [.fire (), .fire (), .start ()]) (by decide) ?_
  rintro state ⟨outside, historyEq⟩
  refine ⟨outside, historyEq, fun atMostOnce => ?_⟩
  have bound := (atMostOnce _ (List.suffix_refl _)).1
  rw [historyEq] at bound
  exact absurd bound (by decide)

end QDaemon.Timer
