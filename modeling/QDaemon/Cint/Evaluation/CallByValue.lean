import QDaemon.Cint.Evaluation.Invariants
import QDaemon.Cint.Session

/-!
# Calls of interpreted functions

C evaluates the arguments of a call once each, in the scope of the caller, and then runs the
body in a new scope with the parameters bound to the values.  `eval_call` enters the new scope
first: it evaluates every argument that it binds twice, and both times behind the scope of the
callee, where the local variables of the caller are out of sight.  The log tells the two apart,
since an argument comes with the number of scopes that are open when it is evaluated.
-/

namespace QDaemon.Cint

open Text Transition Eval
open Invariant (keeps_node keeps_bind keeps_bindParam keeps_runBody keeps_callFunction supplies_run)

variable {D : Type}

/-! ## Call by value -/

/-- The arguments, each evaluated once in the current scope. -/
def evalArguments (calls : Eval.Calls D) (who : Pointer) (tree : Nat) :
    Nat → List (Ast D) → Eval D (List (Value D))
  | _, [] => pure []
  | index, arg :: args => do
      let value ← evalArgument calls who tree index arg
      let values ← evalArguments calls who tree (index + 1) args
      pure (value :: values)

/-- The parameters are bound to the values. -/
def bindValues : List Param → List (Value D) → Eval D Unit
  | param :: params, value :: values => do
      bindParam param value
      bindValues params values
  | _, _ => pure ()

/-- A call of a function as C has it. -/
def callByValue (calls : Eval.Calls D) (who : Pointer) (tree : Nat) (args : List (Ast D))
    (callee : Nat) (params : List Param) (body : Ast D) : Eval D (Value D) := do
  let values ← evalArguments calls who tree 0 args
  enterScope
  bindValues params values
  runBody calls who callee body

/-- A name with arguments calls an interpreted function whose tree is there. -/
structure Interpreted (s : State D) (name : Chars) (args : List (Ast D)) (callee : Nat)
    (params : List Param) (body : Ast D) : Prop where
  notPrint : name ≠ "print".toList
  notPrintf : name = "printf".toList → args = []
  notNative : (s.natives.find? fun native => native.name = name) = none
  found : s.find name = some (.func callee params body)
  there : callee ∉ s.freedTrees

/-! ## Scopes in the log -/

/-- The log goes on, with no argument evaluated in fewer than `low` calls. -/
def LogFrom (base : List EvalEvent) (low : Nat) (log : List EvalEvent) : Prop :=
  ∃ new, log = base ++ new ∧ ∀ index depth, .argument index depth ∈ new → low ≤ depth

variable {base log : List EvalEvent} {low : Nat}
variable {s : State D}

theorem LogFrom.refl (base : List EvalEvent) (low : Nat) : LogFrom base low base :=
  ⟨[], by simp, nofun⟩

theorem LogFrom.append (from_ : LogFrom base low log) {event : EvalEvent}
    (high : ∀ index depth, event = .argument index depth → low ≤ depth) :
    LogFrom base low (log ++ [event]) := by
  obtain ⟨new, rfl, all⟩ := from_
  refine ⟨new ++ [event], List.append_assoc _ _ _, ?_⟩
  intro index depth member
  rcases List.mem_append.mp member with earlier | last
  · exact all index depth earlier
  · exact high index depth (List.mem_singleton.mp last).symm

@[simp]
theorem State.setCurrent_log (s : State D) (vars : List (Var D)) :
    (s.setCurrent vars).log = s.log := by
  rw [State.setCurrent]
  split <;> rfl

@[simp]
theorem State.assign_log (s : State D) (name : Chars) (value : Value D) :
    (s.assign name value).log = s.log := by
  rw [State.assign]
  split
  · exact s.setCurrent_log _
  · rfl

/-- Evaluations from a state on whose log is `base` in at least `low - 1` calls. -/
def logInvariant (base : List EvalEvent) (low floor : Nat) (below : low ≤ floor + 1) :
    Invariant D where
  floor := floor
  isTree _ := True
  holds _ s := LogFrom base low s.log
  stopped _ s := LogFrom base low s.log
  drop kept := kept
  scalar _ kept := kept
  string _ kept := kept
  readVar {value} _ _ _ _ kept := by
    cases value with
    | string id => exact kept.append nofun
    | _ => exact kept
  callee _ _ := trivial
  declare _ _ _ kept := kept.append nofun
  control _ _ _ _ kept := kept
  free kept _ := kept
  freed kept _ := kept
  stop _ _ kept := kept
  replace {value} _ _ _ _ _ kept := by
    rw [State.assign_log]
    cases value with
    | string id => exact kept.append nofun
    | _ => exact kept
  replaceFreed {value} _ _ _ _ _ kept := by
    cases value with
    | string id => exact kept.append nofun
    | _ => exact kept
  setNumber _ _ kept := by rwa [State.assign_log]
  define _ kept := by rwa [State.setCurrent_log]
  setPlace _ kept := by rwa [State.setCurrent_log]
  setReturn kept := kept
  takeReturn kept := kept
  enter kept := kept
  leave _ kept := kept
  hold kept := kept
  release kept := kept
  leaves kept := kept.append nofun
  nativeCall _ _ kept := kept.append nofun
  argument index inside kept := by
    apply kept.append
    rintro _ _ ⟨⟩
    exact Nat.le_trans below inside

section Log

variable {floor n : Nat} (below : low ≤ floor + 1) {α : Type} {action : Eval D α} {s : State D}

/-- However an evaluation ends, its log goes on. -/
theorem logFrom_of_ends {after : α → List (Value D)}
    (ends : (logInvariant base low floor below).Ends n action s after) :
    LogFrom base low (action s).2.log := by
  rw [Invariant.Ends] at ends
  rcases outcome : action s with ⟨value | _ | fault, last⟩
  · rw [outcome] at ends
    exact ends.holds
  · rw [outcome] at ends
    exact ends
  · rw [outcome] at ends
    exact ends

end Log

section Functions

variable [Double D]

/-- Evaluations from a state on whose log is `base`. -/
abbrev logGrows (base : List EvalEvent) : Invariant D :=
  logInvariant base 0 0 (Nat.zero_le 1)

omit [Double D] in
theorem good_logGrows (s : State D) : (logGrows s.log).Good s.frames.length [] s :=
  ⟨rfl, Nat.zero_le _, LogFrom.refl _ _⟩

theorem evalArguments_grows {depth n index tree : Nat} {nested who : Pointer} {start : State D}
    {args : List (Ast D)} (good : (logGrows base).Kept (fun _ => True) start n [] s) :
    (logGrows base).Keeps (fun _ => True) start n
      (evalArguments (Eval.run nested depth) who tree index args) s fun _ => [] := by
  induction args generalizing index s with
  | nil => exact good
  | cons arg args ih =>
    have noted : (logGrows base).Kept (fun _ => True) start n []
        (s.note (.argument index s.frames.length)) :=
      good.map rfl (good.holds.append fun _ depth _ => Nat.zero_le depth)
    have evaluated : (logGrows base).Keeps (fun _ => True) start n
        (evalArgument (Eval.run nested depth) who tree index arg) s ([·]) :=
      keeps_node (supplies_run nested depth) trivial (fun _ _ => trivial) noted
    apply keeps_bind evaluated
    intro value next good
    exact keeps_bind (ih good.drop) fun values next good => good

omit [Double D] in
theorem bindValues_grows {n : Nat} {params : List Param} {values : List (Value D)}
    {start : State D} (good : (logGrows base).Kept (fun _ => True) start n [] s) :
    (logGrows base).Keeps (fun _ => True) start n (bindValues params values) s fun _ => [] := by
  induction params generalizing values s with
  | nil => exact good
  | cons param params ih =>
    cases values with
    | nil => exact good
    | cons value values =>
      have inHand : (logGrows base).Kept (fun _ => True) start n [value] s :=
        good.map rfl good.holds
      apply keeps_bind (keeps_bindParam inHand)
      intro _ next good
      exact ih good

/-- Call by value evaluates the first argument in the scope of the caller. -/
theorem callByValue_logFrom (depth : Nat) (nested who : Pointer) (tree : Nat) (arg : Ast D)
    (args : List (Ast D)) (callee : Nat) (params : List Param) (body : Ast D) (s : State D) :
    LogFrom (s.log ++ [.argument 0 s.frames.length]) 0
      (callByValue (Eval.run nested depth) who tree (arg :: args) callee params body s).2.log := by
  set base := s.log ++ [.argument 0 s.frames.length]
  have noted : (logGrows base : Invariant D).Good s.frames.length []
      (s.note (.argument 0 s.frames.length)) := ⟨rfl, Nat.zero_le _, LogFrom.refl _ _⟩
  have supplies : (logGrows base : Invariant D).Supplies (Eval.run nested depth) :=
    supplies_run nested depth
  suffices keeps : (logGrows base).Keeps (fun _ => True) s s.frames.length
      (callByValue (Eval.run nested depth) who tree (arg :: args) callee params body) s ([·]) from
    logFrom_of_ends (Nat.zero_le 1) keeps.ends
  -- The first argument, the other arguments, and the call itself.
  have arguments : (logGrows base).Keeps (fun _ => True) (s.note (.argument 0 s.frames.length))
      s.frames.length (evalArguments (Eval.run nested depth) who tree 0 (arg :: args)) s
      fun _ => [] := by
    have first : (logGrows base).Keeps (fun _ => True) (s.note (.argument 0 s.frames.length))
        s.frames.length (evalArgument (Eval.run nested depth) who tree 0 arg) s ([·]) :=
      keeps_node supplies trivial (fun _ _ => trivial) noted.kept
    apply keeps_bind first
    intro value next good
    exact keeps_bind (evalArguments_grows good.drop) fun values next good => good
  apply keeps_bind arguments
  intro values next good
  have entered : (logGrows base).Kept (fun _ => True) (s.note (.argument 0 s.frames.length))
      (s.frames.length + 1) [] { next with frames := [] :: next.frames } :=
    ⟨⟨congrArg (· + 1) good.depth, Nat.zero_le _, good.holds⟩, good.flow, good.result⟩
  apply keeps_bind (bindValues_grows entered)
  intro _ next good
  exact keeps_runBody supplies trivial (Nat.zero_le _) good

/-- What `eval_call` does with the name of an interpreted function. -/
theorem evalCall_of_interpreted {calls : Eval.Calls D} {nested : Pointer} {tree : Nat}
    {pos namePos : Pos} {name : Chars} {args : List (Ast D)} {callee : Nat} {params : List Param}
    {body : Ast D} (interpreted : Interpreted s name args callee params body) :
    evalCall calls nested .live tree pos (.ident namePos name) args s =
      callFunction calls nested .live tree args callee params body s := by
  have isName : callName calls nested .live tree pos name args s =
      callFunction calls nested .live tree args callee params body s := by
    have accessed : access .live s = (.done (), s) := rfl
    have looked : gets (·.natives.find? fun native => native.name = name) s = (.done _, s) :=
      congrArg (Outcome.done ·, s) interpreted.notNative
    have found : gets (·.find name) s = (.done _, s) :=
      congrArg (Outcome.done ·, s) interpreted.found
    rw [callName, bind_of_done accessed, bind_of_done looked]
    exact bind_of_done found _
  rw [← isName]
  show (if name = "print".toList then _ else if name = "printf".toList then _ else _ :
    Eval D (Value D)) s = _
  rw [if_neg interpreted.notPrint]
  split_ifs with isPrintf
  · cases interpreted.notPrintf isPrintf
    rfl
  · rfl


end Functions

/-- A state in which `f` is a function with one parameter and an empty body. -/
def oneFunction : State Int :=
  { State.create fun _ _ _ _ _ => 0 with
    globals := [⟨['f'], .func 0 [⟨none, some ['a']⟩] (.block .none [])⟩], trees := 1 }

end QDaemon.Cint
