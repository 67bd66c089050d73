import QDaemon.Cint.Parsing.Programs

/-!
# Runs of different depth

The log of a run only grows.  A run that returns is the run of every greater depth, and the
log of one that does not is a beginning of theirs.
-/

namespace QDaemon.Cint

open Parse

variable {D : Type} [Double D] {α : Type}

omit [Double D] in
theorem record_log (event : Event) (p : Parser D) : p.log <+: (record event p).2.log :=
  List.prefix_append _ _

theorem advance_log (p : Parser D) : (advance p).2.log = p.log := by
  rw [advance]
  split <;> rfl

omit [Double D] in
theorem error_log (msg : String) (p : Parser D) : (error msg p).2.log = p.log := by
  simp only [error, Parse.modify]
  split <;> rfl

/-- A run only adds to the log. -/
theorem run_log (depth : Nat) (goal : Goal D) (p : Parser D) :
    p.log <+: (run depth goal p).2.log := by
  apply Program.run_related (R := fun p q => p.log <+: q.log)
  constructor
  · exact fun p => List.prefix_refl _
  · exact fun _ _ _ => List.IsPrefix.trans
  · exact fun event p _ => record_log event p
  · exact fun p => by rw [advance_log]
  · exact fun msg p => by rw [error_log]

/-- The second action does what the first does, or goes on where the first stops. -/
def Approx (x y : Parse D α) : Prop :=
  ∀ p, x p = y p ∨ (x p).1 = none ∧ (x p).2.log <+: (y p).2.log

omit [Double D] in
theorem Approx.refl (x : Parse D α) : Approx x x := fun _ => .inl rfl

omit [Double D] in
theorem Approx.trans {x y z : Parse D α} (first : Approx x y) (second : Approx y z) :
    Approx x z := by
  intro p
  rcases first p with same | ⟨stopped, grows⟩
  · rw [same]
    exact second p
  · rcases second p with same | ⟨_, further⟩
    · exact .inr ⟨stopped, same ▸ grows⟩
    · exact .inr ⟨stopped, grows.trans further⟩

theorem Program.approx {first second : Calls D} (calls : ∀ goal, Approx (first goal) (second goal))
    (grow : ∀ goal p, p.log <+: (second goal p).2.log) {x y : Parse D α}
    (program : Program (fun _ => True) first second x y) :
    Approx x y ∧ ∀ p, p.log <+: (y p).2.log := by
  induction program with
  | pure value => exact ⟨.refl _, fun p => List.prefix_refl _⟩
  | gets read => exact ⟨.refl _, fun p => List.prefix_refl _⟩
  | record legal => exact ⟨.refl _, record_log _⟩
  | advance => exact ⟨.refl _, fun p => by rw [advance_log]⟩
  | error msg => exact ⟨.refl _, fun p => by rw [error_log]⟩
  | call goal => exact ⟨calls goal, grow goal⟩
  | @bind _ _ x y f g _ _ ihx ihf =>
    have grows : ∀ p, p.log <+: ((y >>= g) p).2.log := by
      intro p
      have first := ihx.2 p
      rcases outcome : y p with ⟨value | value, next⟩
      · rw [bind_of_none outcome]
        rwa [outcome] at first
      · rw [bind_of_some outcome]
        rw [outcome] at first
        exact first.trans ((ihf value).2 next)
    refine ⟨fun p => ?_, grows⟩
    rcases ihx.1 p with same | ⟨stopped, before⟩
    · rcases outcome : x p with ⟨value | value, next⟩
      · rw [bind_of_none outcome, bind_of_none (same ▸ outcome)]
        exact .inl rfl
      · rw [bind_of_some outcome, bind_of_some (same ▸ outcome)]
        exact (ihf value).1 next
    · have outcome : x p = (none, (x p).2) := by rw [← stopped]
      rw [bind_of_none outcome]
      refine .inr ⟨rfl, ?_⟩
      rcases further : y p with ⟨value | value, next⟩
      · rw [bind_of_none further]
        rwa [further] at before
      · rw [bind_of_some further]
        rw [further] at before
        exact before.trans ((ihf value).2 next)

theorem run_approx_succ (depth : Nat) (goal : Goal D) :
    Approx (run depth goal) (run (depth + 1) goal) := by
  induction depth generalizing goal with
  | zero => exact fun p => .inr ⟨rfl, run_log 1 goal p⟩
  | succ depth ih =>
    exact (Program.approx ih (run_log (depth + 1)) (.anyGoal (fun _ => trivial) goal)).1

theorem run_approx {depth deeper : Nat} (le : depth ≤ deeper) (goal : Goal D) :
    Approx (run depth goal) (run deeper goal) := by
  induction le with
  | refl => exact .refl _
  | step _ ih => exact ih.trans (run_approx_succ _ goal)

/-- A run that returns is the run of every greater depth. -/
theorem run_of_le {depth deeper : Nat} (le : depth ≤ deeper) {goal : Goal D} {p next : Parser D}
    {tree : Ast D} (returned : run depth goal p = (some tree, next)) :
    run deeper goal p = (some tree, next) := by
  rcases run_approx le goal p with same | ⟨stopped, _⟩
  · rw [← same, returned]
  · rw [returned] at stopped
    cases stopped

/-- The log of any run begins that of every run that returns, or is the same. -/
theorem log_subset_of_returned {depth other : Nat} {goal : Goal D} {p next : Parser D}
    {tree : Ast D} (returned : run depth goal p = (some tree, next)) :
    (run other goal p).2.log ⊆ next.log := by
  rcases Nat.le_total depth other with le | le
  · rw [run_of_le le returned]
    exact List.Subset.refl _
  · rcases run_approx le goal p with same | ⟨_, begins⟩
    · rw [same, returned]
      exact List.Subset.refl _
    · rw [returned] at begins
      exact begins.subset

end QDaemon.Cint
