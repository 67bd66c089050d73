import Mathlib.Algebra.BigOperators.Group.Finset.Piecewise
import Mathlib.Algebra.Order.BigOperators.Group.Finset
import Mathlib.Tactic.Abel

/-!
# Threads that claim positions

A concurrent system keeps the program counter of each thread in a function on
thread identifiers.  Many invariants say which position of a shared structure a
thread has claimed, as a relation between its program counter and an index.
The lemmas here move such claims across one thread's step.
-/

namespace QDaemon.Transition

open Function

universe u v w

variable {Tid : Type u} {Pc : Type v} {Index : Type w} [DecidableEq Tid]
variable {pcs : Tid → Pc} {thread : Tid} {pc : Pc} {claim : Pc → Index → Prop}
variable {index : Index}

/-- A claim is still there after a move that keeps the thread's own. -/
theorem exists_claim_kept (claimed : ∃ other, claim (pcs other) index)
    (kept : claim (pcs thread) index → claim pc index) :
    ∃ other, claim (update pcs thread pc other) index := by
  obtain ⟨other, holds⟩ := claimed
  by_cases same : other = thread
  · subst same
    exact ⟨other, by simpa using kept holds⟩
  · exact ⟨other, by rwa [update_of_ne same]⟩

/-- Another thread's claim is still there after this thread has moved. -/
theorem exists_claim_update (claimed : ∃ other, claim (pcs other) index)
    (mine : ¬ claim (pcs thread) index) : ∃ other, claim (update pcs thread pc other) index :=
  exists_claim_kept claimed fun holds => absurd holds mine

/-- A claim after this thread has moved is a claim of its new program counter
or was there before. -/
theorem claim_update {other : Tid} (holds : claim (update pcs thread pc other) index) :
    (other = thread ∧ claim pc index) ∨ (other ≠ thread ∧ claim (pcs other) index) := by
  by_cases same : other = thread
  · subst same
    rw [update_self] at holds
    exact .inl ⟨rfl, holds⟩
  · rw [update_of_ne same] at holds
    exact .inr ⟨same, holds⟩

/-- A move that keeps the thread's own claims keeps everyone's. -/
theorem claim_update_iff (kept : ∀ index, claim pc index ↔ claim (pcs thread) index)
    (other : Tid) (index : Index) :
    claim (update pcs thread pc other) index ↔ claim (pcs other) index := by
  by_cases same : other = thread
  · subst same
    rw [update_self, kept]
  · rw [update_of_ne same]

/-- Uniqueness of claims survives a move to a position nobody else claims. -/
theorem claim_unique_update
    (unique : ∀ first second index, claim (pcs first) index → claim (pcs second) index →
      first = second)
    (alone : ∀ other index, claim pc index → claim (pcs other) index → other = thread)
    (first second : Tid) (index : Index) (firstHolds : claim (update pcs thread pc first) index)
    (secondHolds : claim (update pcs thread pc second) index) : first = second := by
  rcases claim_update firstHolds with ⟨rfl, firstClaim⟩ | ⟨-, firstClaim⟩
  · rcases claim_update secondHolds with ⟨rfl, -⟩ | ⟨-, secondClaim⟩
    · rfl
    · exact (alone second index firstClaim secondClaim).symm
  · rcases claim_update secondHolds with ⟨rfl, secondClaim⟩ | ⟨-, secondClaim⟩
    · exact alone first index secondClaim firstClaim
    · exact unique first second index firstClaim secondClaim

/-! ## Sums over threads -/

section Sum

variable [Fintype Tid]

/-- If only one thread's value changes, the sum changes by that value alone. -/
theorem sum_eq_off {M : Type w} [AddCommMonoid M] (weight next : Tid → M) (thread : Tid)
    (others : ∀ other, other ≠ thread → next other = weight other) :
    (∑ other, next other) + weight thread = (∑ other, weight other) + next thread := by
  have rest : ∑ other ∈ Finset.univ.erase thread, next other =
      ∑ other ∈ Finset.univ.erase thread, weight other :=
    Finset.sum_congr rfl fun other mem => others other (Finset.ne_of_mem_erase mem)
  rw [← Finset.add_sum_erase _ next (Finset.mem_univ thread), rest,
    ← Finset.add_sum_erase _ weight (Finset.mem_univ thread)]
  abel

/-- One thread's move to another program counter changes the sum by that thread
alone. -/
theorem sum_update {M : Type w} [AddCommMonoid M] (weight : Pc → M) (pcs : Tid → Pc)
    (thread : Tid) (pc : Pc) :
    (∑ other, weight (update pcs thread pc other)) + weight (pcs thread) =
      (∑ other, weight (pcs other)) + weight pc := by
  have moved := sum_eq_off (fun other => weight (pcs other))
    (fun other => weight (update pcs thread pc other)) thread
    fun other different => by rw [update_of_ne different]
  rwa [update_self] at moved

variable (holds : Pc → Prop) [DecidablePred holds]

/-- How many threads stand at a program counter of the given kind. -/
def countPcs (pcs : Tid → Pc) : Nat :=
  ∑ thread, if holds (pcs thread) then 1 else 0

/-- One thread's step changes the count by that thread alone. -/
theorem countPcs_update (pcs : Tid → Pc) (thread : Tid) (pc : Pc) :
    countPcs holds (update pcs thread pc) + (if holds (pcs thread) then 1 else 0) =
      countPcs holds pcs + (if holds pc then 1 else 0) :=
  sum_update (fun pc => if holds pc then 1 else 0) pcs thread pc

omit [DecidableEq Tid] in
theorem countPcs_pos {pcs : Tid → Pc} {thread : Tid} (mine : holds (pcs thread)) :
    0 < countPcs holds pcs := by
  refine Finset.sum_pos' (fun _ _ => Nat.zero_le _) ⟨thread, Finset.mem_univ thread, ?_⟩
  rw [if_pos mine]
  exact Nat.one_pos

omit [DecidableEq Tid] in
theorem countPcs_le_card (pcs : Tid → Pc) : countPcs holds pcs ≤ Fintype.card Tid := by
  rw [countPcs, ← Finset.card_filter]
  exact Finset.card_le_univ _

end Sum

end QDaemon.Transition
