import Mathlib.Logic.Basic

/-!
# Partial computations

A computation that cannot go on has no result.  A specification of it says both what its
results are and when there is one, so that each function is walked through once.
-/

namespace QDaemon.Transition

universe u v

variable {α : Type u} {β : Type v}

/-- Every result is good, and if the computation is enabled there is one. -/
structure Yields (computation : Option α) (enabled : Prop) (good : α → Prop) : Prop where
  good : ∀ {result}, computation = some result → good result
  returns : enabled → computation.isSome

namespace Yields

variable {computation : Option α} {enabled other : Prop} {good better : α → Prop}

theorem pure {result : α} (met : good result) : Yields (some result) enabled good :=
  ⟨fun computed => Option.some.inj computed ▸ met, fun _ => rfl⟩

theorem stuck (disabled : ¬enabled) : Yields none enabled good :=
  ⟨nofun, fun isEnabled => absurd isEnabled disabled⟩

theorem meets (yields : Yields computation enabled good) (isEnabled : enabled) :
    ∃ result, computation = some result ∧ good result := by
  obtain ⟨result, computed⟩ := Option.isSome_iff_exists.mp (yields.returns isEnabled)
  exact ⟨result, computed, yields.good computed⟩

theorem mono (yields : Yields computation other better) (enables : enabled → other)
    (implies : ∀ result, better result → good result) : Yields computation enabled good where
  good computed := implies _ (yields.good computed)
  returns isEnabled := yields.returns (enables isEnabled)

theorem when (yields : Yields computation other good) (enables : enabled → other) :
    Yields computation enabled good :=
  yields.mono enables fun _ met => met

variable {met : β → Prop}

theorem bind {next : α → Option β} (yields : Yields computation enabled good)
    (rest : ∀ result, computation = some result → good result →
      Yields (next result) enabled met) : Yields (computation.bind next) enabled met := by
  constructor
  · intro result computed
    obtain ⟨middle, middleEq, restEq⟩ := Option.bind_eq_some_iff.mp computed
    exact (rest middle middleEq (yields.good middleEq)).good restEq
  · intro isEnabled
    obtain ⟨middle, middleEq⟩ := Option.isSome_iff_exists.mp (yields.returns isEnabled)
    rw [middleEq]
    exact (rest middle middleEq (yields.good middleEq)).returns isEnabled

theorem map {next : α → β} (yields : Yields computation enabled fun result => met (next result)) :
    Yields (computation.map next) enabled met := by
  rw [Option.map_eq_bind]
  exact yields.bind fun _ _ => .pure

end Yields

end QDaemon.Transition
