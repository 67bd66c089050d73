import Mathlib.Data.List.Basic

/-!
# Runs of labelled partial transitions

A system is a partial step on states, indexed by labels.  A label names the
thread that moves and the outcome the environment chose for it, so a list of
labels is one interleaving.  A guarded run records in addition that every step
met a condition in the state it was taken from; the unguarded case is ordinary
reachability.
-/

namespace QDaemon.Transition

open Option

universe u v

variable {σ : Type u} {ℓ : Type v}

/-- A labelled partial step. -/
abbrev Step (σ : Type u) (ℓ : Type v) := σ → ℓ → Option σ

/-- Execute a list of labels, failing at the first disabled one. -/
def exec (step : Step σ ℓ) : σ → List ℓ → Option σ
  | state, [] => some state
  | state, label :: labels =>
      (step state label).bind fun next => exec step next labels

@[simp]
theorem exec_nil (step : Step σ ℓ) (state : σ) : exec step state [] = some state := rfl

theorem exec_cons (step : Step σ ℓ) (state : σ) (label : ℓ) (labels : List ℓ) :
    exec step state (label :: labels) = (step state label).bind fun next => exec step next labels :=
  rfl

theorem exec_append (step : Step σ ℓ) (state : σ) (first second : List ℓ) :
    exec step state (first ++ second) =
      (exec step state first).bind fun middle => exec step middle second := by
  induction first generalizing state with
  | nil => rfl
  | cons label first ih =>
    rw [List.cons_append, exec_cons, exec_cons, bind_assoc]
    exact congrArg _ (funext ih)

/-- A finite run from `source`, every step of which meets `guard` in the state
it is taken from. -/
inductive GuardedRun (step : Step σ ℓ) (guard : σ → ℓ → Prop) (source : σ) : σ → Prop
  | refl : GuardedRun step guard source source
  | tail {state next : σ} {label : ℓ} :
      GuardedRun step guard source state → guard state label →
      step state label = some next → GuardedRun step guard source next

/-- Reachability is the run without a condition on its steps. -/
def Reachable (step : Step σ ℓ) (source target : σ) : Prop :=
  GuardedRun step (fun _ _ => True) source target

namespace GuardedRun

variable {step : Step σ ℓ} {guard : σ → ℓ → Prop} {source middle target : σ}

theorem trans (first : GuardedRun step guard source middle)
    (second : GuardedRun step guard middle target) : GuardedRun step guard source target := by
  induction second with
  | refl => exact first
  | tail _ met stepEq ih => exact ih.tail met stepEq

variable (run : GuardedRun step guard source target)
include run

/-- A property of the initial state that every guarded step preserves holds in
every state of a guarded run. -/
theorem invariant (inv : σ → Prop) (initial : inv source)
    (preserved : ∀ state label next, inv state → guard state label →
      step state label = some next → inv next) : inv target := by
  induction run with
  | refl => exact initial
  | tail _ met stepEq ih => exact preserved _ _ _ ih met stepEq

/-- The invariant rule for a property that is only preserved while a quantity
that never decreases stays below `bound`. -/
theorem invariant_of_lt (inv : σ → Prop)
    (measure : σ → Nat) (bound : Nat) (below : measure target < bound)
    (monotone : ∀ state label next, step state label = some next → measure state ≤ measure next)
    (initial : inv source) (preserved : ∀ state label next, inv state → measure next < bound →
      guard state label → step state label = some next → inv next) : inv target := by
  induction run with
  | refl => exact initial
  | tail _ met stepEq ih =>
    have stateBelow := Nat.lt_of_le_of_lt (monotone _ _ _ stepEq) below
    exact preserved _ _ _ (ih stateBelow) below met stepEq

end GuardedRun

/-- An executed list of labels is a run. -/
theorem reachable_of_exec {step : Step σ ℓ} {labels : List ℓ} {source target : σ}
    (executed : exec step source labels = some target) : Reachable step source target := by
  induction labels generalizing source with
  | nil =>
    cases executed
    exact GuardedRun.refl
  | cons label labels ih =>
    obtain ⟨next, stepEq, rest⟩ := bind_eq_some_iff.mp executed
    exact (GuardedRun.refl.tail trivial stepEq).trans (ih rest)

/-- Where a list of labels leads, found by evaluation. -/
theorem exec_meets (step : Step σ ℓ) (source : σ) (labels : List ℓ) (met : σ → Prop)
    [DecidablePred met] (evaluated : (exec step source labels).any (met ·) = true) :
    ∃ target, exec step source labels = some target ∧ met target := by
  obtain ⟨target, executed, holds⟩ := (any_eq_true _ _).mp evaluated
  exact ⟨target, executed, of_decide_eq_true holds⟩

section

variable {step : Step σ ℓ} {source : σ} {holds : σ → Prop}

theorem exists_exec {labels : List ℓ} (met : σ → Prop) [DecidablePred met]
    (evaluated : (exec step source labels).any (met ·) = true)
    (rest : ∀ target, exec step source labels = some target → met target → holds target) :
    ∃ target, exec step source labels = some target ∧ holds target := by
  obtain ⟨target, executed, meets⟩ := exec_meets step source labels met evaluated
  exact ⟨target, executed, rest target executed meets⟩

theorem exists_reachable (labels : List ℓ) (met : σ → Prop) [DecidablePred met]
    (evaluated : (exec step source labels).any (met ·) = true)
    (rest : ∀ target, met target → holds target) :
    ∃ target, Reachable step source target ∧ holds target := by
  obtain ⟨target, executed, meets⟩ := exec_meets step source labels met evaluated
  exact ⟨target, reachable_of_exec executed, rest target meets⟩

end

/-- The step that is disabled where a decidable condition fails. -/
def guarded (step : Step σ ℓ) (guard : σ → ℓ → Prop) [∀ state label, Decidable (guard state label)] :
    Step σ ℓ :=
  fun state label => if guard state label then step state label else none

/-- An executed list of labels whose steps all meet the condition is a guarded
run. -/
theorem guardedRun_of_exec {step : Step σ ℓ} {guard : σ → ℓ → Prop}
    [∀ state label, Decidable (guard state label)] {labels : List ℓ} {source target : σ}
    (executed : exec (guarded step guard) source labels = some target) :
    GuardedRun step guard source target := by
  induction labels generalizing source with
  | nil =>
    cases executed
    exact GuardedRun.refl
  | cons label labels ih =>
    obtain ⟨next, stepEq, rest⟩ := bind_eq_some_iff.mp executed
    rw [guarded] at stepEq
    split at stepEq
    next met => exact (GuardedRun.refl.tail met stepEq).trans (ih rest)
    · cases stepEq

end QDaemon.Transition
