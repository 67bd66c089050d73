import QDaemon.Cint.Evaluation.CallByValue

/-!
# Invariants of sessions

The public functions add a few moves to those of the evaluator: a tree comes and goes, and the
value of a whole evaluation is printed, freed or handed out.  An invariant that does not mind
trees holds at the end of each call, which is always in the global scope.
-/

namespace QDaemon.Cint

open Text Transition Eval

variable {D : Type}

namespace Invariant

/-- The number of trees and the list of freed trees do not matter. -/
def IgnoresTrees (inv : Invariant D) : Prop :=
  ∀ hand s trees freedTrees, inv.holds hand s →
    inv.holds hand { s with trees := trees, freedTrees := freedTrees }

variable {inv : Invariant D} (ignores : inv.IgnoresTrees) {n : Nat} {hand : List (Value D)}
  {s : State D}
variable {label : Label} {may : Flow → Prop} {start : State D}

theorem keeps_takeError (good : inv.Kept may start n hand s) :
    inv.Keeps may start n (takeError : Eval D Int) s fun _ => hand := by
  apply keeps_gets_bind
  cases s.error with
  | none => exact keeps_pure good
  | some text =>
    exact keeps_modify_bind (keeps_pure
      (good.map rfl (inv.control s.flow none s.errorLine s.output good.holds)))

variable [Double D]

theorem keeps_useResult {value : Value D} (good : inv.Kept may start n [value] s) :
    inv.Keeps may start n (useResult value) s fun _ => [] := by
  have printed : inv.Keeps may start n (printResult value) s fun _ => [value] := by
    apply keeps_gets_bind
    split
    · exact keeps_pure good
    · apply keeps_bind (keeps_emit good)
      intro _ next good
      exact keeps_bind (keeps_valPrint good) fun _ next good => keeps_emit good
    · exact keeps_pure good
  exact keeps_bind printed fun _ next good => keeps_valFree good

include ignores

theorem keeps_withTree {α : Type} {depth : Nat} {ast : Ast D} {use : Value D → Eval D α}
    {after : α → List (Value D)} (isTree : inv.isTree s.trees) (obeys : ast.Obeys may)
    (good : inv.Kept may start n [] s) (used : ∀ value next, inv.Kept may start n [value] next →
      inv.Keeps may start n (use value) next after) :
    inv.Keeps may start n (withTree depth ast use) s after := by
  have counted : inv.Kept may start n [] { s with trees := s.trees + 1 } :=
    good.map rfl (ignores _ s (s.trees + 1) s.freedTrees good.holds)
  have rest : inv.Keeps may start n (evalAst depth s.trees ast >>= fun value => use value >>=
      fun result => freeTree s.trees >>= fun _ => pure result)
      { s with trees := s.trees + 1 } after := by
    apply keeps_bind (keeps_node (supplies_run .bogus depth) isTree obeys counted)
    intro value next good
    apply keeps_bind (used value next good)
    intro result next good
    exact good.map rfl (ignores _ next next.trees (next.freedTrees ++ [s.trees]) good.holds)
  exact rest

variable (isTree : ∀ ast : Ast D, label.parsed = .tree ast → inv.isTree s.trees ∧ ast.Obeys may)
include isTree

/-- Every call of a public function keeps the invariant and ends with the flows of its tree. -/
theorem keeps_perform (good : inv.Kept may start n [] s) :
    inv.Keeps may start n (perform label.depth label.input) s fun _ => [] := by
  obtain ⟨input, depth⟩ := label
  cases input with
  | eval code =>
    refine keeps_bind ?_ fun _ next good => keeps_pure good
    rw [cintEval]
    split
    · exact inv.stop nofun nofun good.holds
    · exact keeps_pure good
    next parsed =>
      obtain ⟨isTree, obeys⟩ := isTree _ parsed
      exact keeps_bind (keeps_withTree ignores isTree obeys good fun _ _ => keeps_useResult)
        fun _ next good => keeps_takeError good
  | evalString code =>
    refine keeps_bind ?_ fun value next good => keeps_hold good
    rw [cintEvalString]
    split
    · exact inv.stop nofun nofun good.holds
    · exact keeps_bind (keeps_evalError good) fun _ next good => keeps_pure good.void
    next parsed =>
      obtain ⟨isTree, obeys⟩ := isTree _ parsed
      exact keeps_withTree ignores isTree obeys good fun _ _ => keeps_pure
  | execFile bytes =>
    refine keeps_bind ?_ fun _ next good => keeps_pure good
    cases bytes with
    | none => exact keeps_pure good
    | some code =>
      rw [cintExecFile]
      split
      · exact inv.stop nofun nofun good.holds
      · exact keeps_pure good
      next parsed =>
        obtain ⟨isTree, obeys⟩ := isTree _ parsed
        exact keeps_bind (keeps_withTree ignores isTree obeys good
          fun value next good => keeps_pure good.drop) fun _ next good => keeps_takeError good

omit isTree in
theorem ends_perform (isTree : ∀ ast : Ast D, label.parsed = .tree ast → inv.isTree s.trees)
    (good : inv.Good 0 [] s) : inv.Ends 0 (perform label.depth label.input) s fun _ => [] :=
  ends_of_keeps (keeps_perform ignores fun ast parsed => ⟨isTree ast parsed, fun _ _ => trivial⟩)
    good

end Invariant

variable [Double D]

/-- A session goes on with the state in which the call ends. -/
theorem Session.step_eq_some {session next : Session D} (stepEq : session.step label = some next) :
    session.status = .done () ∧
      next = ⟨(perform label.depth label.input session.state).2,
        (perform label.depth label.input session.state).1⟩ := by
  rw [Session.step] at stepEq
  split at stepEq <;> cases stepEq
  next ready => exact ⟨ready, rfl⟩

/-- The events of a call. -/
def Session.events (session : Session D) (label : Label) : List EvalEvent :=
  (perform label.depth label.input session.state).2.log.drop session.state.log.length

/-- In the global scope the log of a call goes on behind that of the calls before it. -/
theorem Session.log_eq_append {session : Session D} (global : session.state.frames = []) :
    (perform label.depth label.input session.state).2.log =
      session.state.log ++ session.events label := by
  have started : (logGrows session.state.log : Invariant D).Good 0 [] session.state :=
    ⟨congrArg _ global, Nat.le_refl 0, LogFrom.refl _ _⟩
  obtain ⟨new, isNew, _⟩ := logFrom_of_ends (Nat.zero_le 1)
    (Invariant.ends_perform (fun _ _ _ _ kept => kept) (fun _ _ => trivial) started)
  rw [Session.events, isNew, List.drop_left]

end QDaemon.Cint
