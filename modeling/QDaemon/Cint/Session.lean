import QDaemon.Cint.Evaluator
import QDaemon.Cint.Parsing.Termination
import QDaemon.Transition.Run

/-!
# Evaluations one after the other

The functions that parse a text, evaluate its tree and free it: `qd_cint_eval` and
`qd_cint_exec_file` of `qd_cint.c`, and `qd_cint_eval_string` of `qd_cint_eval.c`.  A session
is a sequence of such calls.  Each comes with the depth that parser and evaluator may use,
and the session ends with the first call that does not return.
-/

namespace QDaemon.Cint

open Text Transition Eval

variable {D : Type}

/-! ## Parsing -/

/-- What the parser makes of a text. -/
inductive Parsed (D : Type)
  | unfinished
  | failed (error : ParseError)
  | tree (ast : Ast D)

/-- `qd_cint_parser_init`, a parsing function and `qd_cint_parser_had_error`. -/
def parseText [Double D] (entry : Entry) (depth : Nat) (src : Chars) (length : Nat) : Parsed D :=
  match (Parser.init src length : Option (Parser D)) with
  | none => .unfinished
  | some p =>
      match entry.parse depth p with
      | (none, _) => .unfinished
      | (some ast, last) =>
          match last.error with
          | some error => .failed error
          | none => .tree ast

section Functions

variable [Double D]

/-! ## Trees -/

/-- A parsed tree on the heap. -/
def newTree : Eval D Nat := do
  let tree ← gets fun s => s.trees
  modify fun s => { s with trees := s.trees + 1 }
  pure tree

/-- `qd_cint_ast_free`. -/
def freeTree (tree : Nat) : Eval D Unit :=
  modify fun s => { s with freedTrees := s.freedTrees ++ [tree] }

/-- A tree is evaluated and freed behind the use of its value. -/
def withTree {α : Type} (depth : Nat) (ast : Ast D) (use : Value D → Eval D α) : Eval D α := do
  let tree ← newTree
  let value ← evalAst depth tree ast
  let result ← use value
  freeTree tree
  pure result

/-- `qd_cint_eval_error` and `qd_cint_eval_clear_error`. -/
def takeError : Eval D Int := do
  let error ← gets fun s => s.error
  match error with
  | some _ => do
      modify fun s => { s with error := none }
      pure (-1)
  | none => pure 0

/-! ## The three functions -/

/-- The value of an expression in the verbose mode. -/
def printResult (value : Value D) : Eval D Unit := do
  let verbose ← gets fun s => s.verbose
  match verbose, value with
  | true, .void => pure ()
  | true, value => do
      emit "= ".toList
      valPrint value
      emit "\n".toList
  | false, _ => pure ()

/-- The value of `qd_cint_eval` is printed and freed. -/
def useResult (value : Value D) : Eval D Unit := do
  printResult value
  valFree value

/-- `qd_cint_eval`. -/
def cintEval (depth : Nat) (code : Chars) : Eval D Int :=
  match parseText .statement depth code 0 with
  | .unfinished => exhausted
  | .failed _ => pure (-1)
  | .tree ast => do
      withTree depth ast useResult
      takeError

/-- `qd_cint_eval_string`. -/
def cintEvalString (depth : Nat) (code : Chars) : Eval D (Value D) :=
  match parseText .statement depth code 0 with
  | .unfinished => exhausted
  | .failed error => do
      evalError 1 error.text
      pure .void
  | .tree ast => withTree depth ast pure

/-- `qd_cint_exec_file`, for the bytes of the file if it can be read. -/
def cintExecFile (depth : Nat) : Option Chars → Eval D Int
  | none => pure (-1)
  | some code =>
      match parseText .program depth code code.length with
      | .unfinished => exhausted
      | .failed _ => pure (-1)
      | .tree ast => do
          withTree depth ast fun _ => pure ()
          takeError

/-! ## Sessions -/

/-- A call of one of the three functions. -/
inductive Input
  | eval (code : Chars)
  | evalString (code : Chars)
  | execFile (bytes : Option Chars)
  deriving DecidableEq, Repr

/-- What a call does.  The caller of `qd_cint_eval_string` keeps the result. -/
def perform (depth : Nat) : Input → Eval D Unit
  | .eval code => do
      let _ ← cintEval depth code
      pure ()
  | .evalString code => do
      let value ← cintEvalString depth code
      hold value
  | .execFile bytes => do
      let _ ← cintExecFile depth bytes
      pure ()

/-- The state of the evaluator and how the last call ended. -/
structure Session (D : Type) where
  state : State D
  status : Outcome Unit

/-- A new evaluator with native functions. -/
def Session.initial (natives : List Native)
    (library : Nat → BitVec 64 → BitVec 64 → BitVec 64 → BitVec 64 → BitVec 64)
    (verbose : Bool) : Session D :=
  ⟨{ State.create library with natives := natives, verbose := verbose }, .done ()⟩

/-- A call with the depth that it may use. -/
structure Label where
  input : Input
  depth : Nat
  deriving DecidableEq, Repr

/-- One call after another, as long as they return. -/
def Session.step (session : Session D) (label : Label) : Option (Session D) :=
  match session.status with
  | .done () =>
      let result := perform label.depth label.input session.state
      some ⟨result.2, result.1⟩
  | _ => none

/-- What the parser makes of the text of a call. -/
def Label.parsed (label : Label) : Parsed D :=
  match label.input with
  | .eval code => parseText .statement label.depth code 0
  | .evalString code => parseText .statement label.depth code 0
  | .execFile (some code) => parseText .program label.depth code code.length
  | .execFile none => .unfinished

end Functions

end QDaemon.Cint
