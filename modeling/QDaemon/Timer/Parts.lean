import QDaemon.Timer.Calls

/-!
# The inner loops of a tick

Each part of a tick empties one list.  If every round keeps an invariant that says
which timers are left, the loop ends after as many rounds as there are timers, in
a state that satisfies the invariant for no timers.
-/

namespace QDaemon.Timer

open Option Linked

universe u v

/-- A computation with a bound on its rounds has this result if the bound
suffices, and no result otherwise. -/
def Settles {α : Type v} (run : Nat → Option α) (final : α) : Prop :=
  ∃ enough, ∀ rounds, run rounds = if enough ≤ rounds then some final else none

namespace Settles

variable {α β : Type v} {run : Nat → Option α} {final : α}

section

variable (settles : Settles run final)
include settles

theorem eq_of_some {rounds : Nat} {result : α}
    (runEq : run rounds = some result) : result = final := by
  obtain ⟨enough, runs⟩ := settles
  rw [runs] at runEq
  split at runEq
  · exact (some.inj runEq).symm
  · cases runEq

theorem exists_enough : ∃ enough, ∀ rounds, enough ≤ rounds → run rounds = some final := by
  obtain ⟨enough, runs⟩ := settles
  exact ⟨enough, fun rounds suffices_ => by rw [runs, if_pos suffices_]⟩

theorem map (f : α → β) : Settles (fun rounds => (run rounds).map f) (f final) := by
  obtain ⟨enough, runs⟩ := settles
  refine ⟨enough, fun rounds => ?_⟩
  simp only [runs]
  split <;> rfl

end

theorem of_forall (runs : ∀ rounds, run rounds = some final) : Settles run final :=
  ⟨0, fun rounds => by rw [runs, if_pos (Nat.zero_le rounds)]⟩

end Settles

variable {T : Type u}

/-- A list of timer nodes is a list of timers. -/
theorem exists_map_timer {list : List (Node T)} (entries : ∀ node ∈ list, ∃ timer, node = .timer timer) :
    ∃ timers : List T, list = timers.map .timer := by
  induction list with
  | nil => exact ⟨[], rfl⟩
  | cons node list ih =>
    obtain ⟨timer, rfl⟩ := entries node List.mem_cons_self
    obtain ⟨timers, rfl⟩ := ih fun other mem => entries other (List.mem_cons_of_mem _ mem)
    exact ⟨timer :: timers, rfl⟩

variable [DecidableEq T] {body : Wheel T → T → Wheel T} {head : Node T} {wheel : Wheel T}

theorem whileFirst_of_empty (empty : wheel.links.Empty head) (rounds : Nat) :
    Wheel.whileFirst body head rounds wheel = some wheel := by
  cases rounds <;> exact if_pos empty

/-- The rule for the loop: the invariant names the timers that are left. -/
theorem settles_whileFirst (inv : List T → Wheel T → Prop)
    (ring : ∀ {left wheel}, inv left wheel → Ring wheel.links head (left.map .timer))
    (round : ∀ {timer left wheel}, inv (timer :: left) wheel → inv left (body wheel timer))
    {left : List T} (start : inv left wheel) : ∃ final, inv [] final ∧
      Settles (fun rounds => Wheel.whileFirst body head rounds wheel) final := by
  induction left generalizing wheel with
  | nil =>
    have empty : wheel.links.Empty head := (ring start).empty_iff.mpr rfl
    exact ⟨wheel, start, .of_forall (whileFirst_of_empty empty)⟩
  | cons timer left ih =>
    obtain ⟨final, finalInv, enough, runs⟩ := ih (round start)
    have filled : ¬ wheel.links.Empty head := fun empty =>
      absurd ((ring start).empty_iff.mp empty) (by simp)
    refine ⟨final, finalInv, enough + 1, fun rounds => ?_⟩
    cases rounds with
    | zero => exact if_neg filled
    | succ rounds =>
      simp only [Wheel.whileFirst, if_neg filled, (ring start).next_head, Nat.add_le_add_iff_right]
      exact runs rounds

/-! ## Nothing to move -/

theorem leaveSlot_of_empty (empty : wheel.links.Empty (.slot 0 (wheel.tickSlot 0))) (rounds : Nat) :
    wheel.leaveSlot rounds =
      some { wheel with currentTick := (wheel.currentTick + 1) % 2 ^ 64 } := by
  rw [Wheel.leaveSlot, whileFirst_of_empty empty]
  rfl

/-- Splicing an empty list into a local head. -/
theorem splice_of_empty {source stack : Node T} (empty : wheel.links.Empty source)
    (different : source ≠ stack) :
    (wheel.links.init stack).splice source stack = wheel.links.init stack := by
  refine if_pos ?_
  rw [Links.Empty, Links.init_next, Function.update_of_ne different]
  exact empty

theorem cascadeTimers_of_empty {level : Nat}
    (empty : wheel.links.Empty (.slot level (wheel.tickSlot level))) (rounds : Nat) :
    wheel.cascadeTimers rounds level = some { wheel with links := wheel.links.init .tmp } := by
  rw [Wheel.cascadeTimers, splice_of_empty empty (by simp)]
  exact whileFirst_of_empty ((ring_init wheel.links .tmp).empty_iff.mpr rfl) rounds

theorem fireExpired_of_empty (empty : wheel.links.Empty .expired) (rounds : Nat) :
    wheel.fireExpired rounds = some { wheel with links := wheel.links.init .fired } := by
  rw [Wheel.fireExpired, splice_of_empty empty (by simp)]
  exact whileFirst_of_empty ((ring_init wheel.links .fired).empty_iff.mpr rfl) rounds

/-! ## What a step does -/

/-- The effect of a step on the wheel and the phase. -/
inductive Move (wheel : Wheel T) : Phase → Label T → Wheel T → Phase → Prop
  | start (timer : T) (delayMs : BitVec 64) :
      Move wheel .outside (.start timer delayMs) (wheel.timerStart timer delayMs) .outside
  | startPeriodic (timer : T) (intervalMs : BitVec 64) :
      Move wheel .outside (.startPeriodic timer intervalMs)
        (wheel.timerStartPeriodic timer intervalMs) .outside
  | stop (timer : T) : Move wheel .outside (.stop timer) (wheel.timerStop timer) .outside
  | early {now : BitVec 64} (reached : wheel.targetTick now ≤ wheel.currentTick) :
      Move wheel .outside (.tick now) wheel .outside
  | tick {now : BitVec 64} (behind : wheel.currentTick < wheel.targetTick now) :
      Move wheel .outside (.tick now) wheel (.advance (wheel.targetTick now))
  | advance {target rounds : Nat} {next : Wheel T} (behind : wheel.currentTick < target)
      (left : wheel.leaveSlot rounds = some next) :
      Move wheel (.advance target) (.advance rounds) next (.cascade target 1)
  | cascade {target level rounds : Nat} {next : Wheel T} (levelLt : level < 4)
      (boundary : wheel.AtBoundary level) (cascaded : wheel.cascadeTimers rounds level = some next) :
      Move wheel (.cascade target level) (.cascade rounds) next (.cascade target (level + 1))
  | cascaded {target level : Nat} (rounds : Nat) (last : ¬ (level < 4 ∧ wheel.AtBoundary level)) :
      Move wheel (.cascade target level) (.cascade rounds) wheel (.advance target)
  | expire {target rounds : Nat} {next : Wheel T} (reached : target ≤ wheel.currentTick)
      (fired : wheel.fireExpired rounds = some next) :
      Move wheel (.advance target) (.expire rounds) next .outside

theorem move_of_step {state next : State T} {label : Label T}
    (stepEq : step state label = some next) :
    Move state.wheel state.phase label next.wheel next.phase := by
  obtain ⟨wheel, phase⟩ := state
  cases label <;> cases phase <;> simp only [step, reduceCtorEq] at stepEq
  case start.outside timer delayMs =>
    cases stepEq
    exact .start timer delayMs
  case startPeriodic.outside timer intervalMs =>
    cases stepEq
    exact .startPeriodic timer intervalMs
  case stop.outside timer =>
    cases stepEq
    exact .stop timer
  case tick.outside now =>
    split at stepEq <;> cases stepEq
    next reached => exact .early reached
    next behind => exact .tick (Nat.not_le.mp behind)
  case advance.advance rounds target =>
    split at stepEq
    next behind =>
      obtain ⟨left, leftEq, rfl⟩ := map_eq_some_iff.mp stepEq
      exact .advance behind leftEq
    · cases stepEq
  case cascade.cascade rounds target level =>
    split at stepEq
    next continues =>
      obtain ⟨moved, movedEq, rfl⟩ := map_eq_some_iff.mp stepEq
      exact .cascade continues.1 continues.2 movedEq
    next last =>
      cases stepEq
      exact .cascaded rounds last
  case expire.advance rounds target =>
    split at stepEq
    · cases stepEq
    next reached =>
      obtain ⟨fired, firedEq, rfl⟩ := map_eq_some_iff.mp stepEq
      exact .expire (Nat.not_lt.mp reached) firedEq

end QDaemon.Timer
