import QDaemon.Cint.Evaluation.Sessions

/-!
# Control flow across evaluations

`return`, `break` and `continue` set a flag that blocks and loops look at.  A loop takes
`break` and `continue` back, a call of a function also `return` and its value, and nothing else
does.  So the flag at the end of an evaluation is the one at its start, or none, or the one of
a statement of the tree that is outside of all function bodies and, for `break` and
`continue`, outside of all loops.  The public functions do not clear the flag.
-/

namespace QDaemon.Cint

open Text Transition Eval

variable {D : Type}

/-- An evaluation that returns keeps within what is allowed. -/
def Stays {α : Type} (may : Flow → Prop) (action : Eval D α) : Prop :=
  ∀ ⦃s value t⦄, action s = (.done value, t) → Within may s t

section Evaluations

variable [Double D] {nested : Pointer}

namespace Stays

/-- The calls of a table end with the flows of their tasks. -/
def Served (calls : Eval.Calls D) : Prop :=
  ∀ task, Stays (fun flow => task.exits flow = true) (calls task)

/-- Every evaluation ends with the flows of its tree, however deep its calls may go. -/
theorem served_run (depth : Nat) : Served (Eval.run nested depth : Eval.Calls D) := by
  intro task s value last returned
  have keeps := Invariant.supplies_run nested depth task trivial (fun _ => id)
    (good_logGrows s).kept
  exact (keeps.kept returned).toWithin

end Stays

end Evaluations

/-! ## Sessions -/

section Sessions

variable [Double D]

/-- No `return` outside of a function, and no `break` or `continue` outside of a loop. -/
def Ast.calm (ast : Ast D) : Bool :=
  !ast.exits .normal && !ast.exits .returning && !ast.exits .breaking && !ast.exits .continuing

/-- The text of a call is parsed to such a tree, if to any. -/
def Label.calm (D : Type) [Double D] (label : Label) : Bool :=
  match (label.parsed : Parsed D) with
  | .tree ast => ast.calm
  | _ => true

omit [Double D] in
theorem Ast.exits_of_calm {ast : Ast D} (calm : ast.calm = true) (flow : Flow) :
    ast.exits flow = false := by
  simp only [Ast.calm, Bool.and_eq_true, Bool.not_eq_true'] at calm
  obtain ⟨⟨⟨normal, returning⟩, breaking⟩, continuing⟩ := calm
  cases flow with
  | normal => exact normal
  | returning => exact returning
  | breaking => exact breaking
  | continuing => exact continuing

theorem Label.calm_tree {label : Label} {ast : Ast D} (calm : label.calm D = true)
    (parsed : label.parsed = .tree ast) : ast.calm = true := by
  rw [Label.calm, parsed] at calm
  exact calm

/-- In every session whose texts have no `return` outside of a function and no `break` or
`continue` outside of a loop, each call leaves the flow normal and no stored result. -/
theorem flow_normal_between_calls (natives : List Native)
    (library : Nat → BitVec 64 → BitVec 64 → BitVec 64 → BitVec 64 → BitVec 64) (verbose : Bool)
    (session : Session D) (run : GuardedRun Session.step (fun _ label => label.calm D = true)
      (Session.initial natives library verbose) session) (returned : session.status = .done ()) :
    session.state.flow = .normal ∧ session.state.returnValue = .void := by
  have standing : session.state.standing = (0, .normal, .void) := by
    apply run.invariant (fun session => session.status = .done () →
      session.state.standing = (0, .normal, .void)) (fun _ => rfl) _ returned
    intro session label next before calm stepEq returned
    obtain ⟨ready, rfl⟩ := Session.step_eq_some stepEq
    obtain ⟨global, normal, void⟩ : session.state.frames.length = 0 ∧ _ ∧ _ := by
      simpa [State.standing] using before ready
    have good : (logGrows session.state.log).Good 0 [] session.state :=
      ⟨global, le_rfl, LogFrom.refl _ _⟩
    have obeys (ast : Ast D) (parsed : label.parsed = .tree ast) : ast.Obeys fun _ => False := by
      intro flow exits
      simp [Ast.exits_of_calm (Label.calm_tree calm parsed) flow] at exits
    have kept := (Invariant.keeps_perform (fun _ _ _ _ kept => kept)
      (fun ast parsed => ⟨trivial, obeys ast parsed⟩) good.kept).kept (Prod.ext returned rfl)
    have flow := kept.flow
    have result := kept.result
    rw [normal] at flow
    rw [void] at result
    simp_all [State.standing, kept.depth]
  simpa [State.standing] using congrArg Prod.snd standing

end Sessions

/-- The session with one call, `while (1) break;`. -/
theorem flow_normal_between_calls_loop : let label : Label := ⟨.eval "while (1) break;".toList, 60⟩
    let first : Session Int := Session.initial [] (fun _ _ _ _ _ => 0) false
    let result := perform label.depth label.input first.state
    label.calm Int = true ∧ result.1 = .done () ∧
      result.2.flow = .normal ∧ result.2.returnValue = .void := by
  intro label first result
  have calm : label.calm Int = true := by decide +kernel
  have returned : result.1 = .done () := by decide +kernel
  exact ⟨calm, returned, flow_normal_between_calls [] _ false ⟨result.2, result.1⟩
    (GuardedRun.tail .refl (show (fun (_ : Session Int) (label : Label) => label.calm Int = true)
      first label from calm) rfl) returned⟩

/-- `return 5;` leaves its flow behind, and the block that is evaluated next stops after its
first statement. -/
theorem return_stops_next_block :
    (exec Session.step (Session.initial [] (fun _ _ _ _ _ => 0) false : Session Int)
        [⟨.eval "return 5;".toList, 60⟩, ⟨.eval "\x7b print(1); print(2); \x7d".toList, 60⟩]).map
      (fun session => (session.status, session.state.flow, session.state.output)) =
    some (.done (), .returning, "1\n".toList) := by
  decide +kernel

end QDaemon.Cint
