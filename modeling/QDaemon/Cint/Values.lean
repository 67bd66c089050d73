import QDaemon.Cint.Syntax

/-!
# Values and state of the evaluator

The types of `qd_cint_eval.h`.  Heap strings have numbers in the order of their allocation,
and so do the trees that are evaluated; a function value has the number of the tree that its
declaration is a node of.  What the C standard leaves undefined, and every use of memory
that is not there any more, ends the evaluation with a fault.

The log records what the statements about the evaluator need and the state does not keep:
when an argument is evaluated and in which scope, which native functions are called, which
strings are copied, where functions are declared, and which strings have owners at the end
of the evaluation of each node.
-/

namespace QDaemon.Cint

open Text

variable {D : Type}

/-! ## Values -/

/-- `qd_cint_val_type_t`. -/
inductive ValueType
  | void | int | float | string | char | ptr | func | native
  deriving DecidableEq, Repr

/-- `qd_cint_value_t`, without the types that no function makes.  A function value has the
parameters and the body of the declaration that it points to. -/
inductive Value (D : Type)
  | void
  | int (value : BitVec 64)
  | float (value : D)
  | string (id : Nat)
  | char (letter : Char)
  | func (tree : Nat) (params : List Param) (body : Ast D)

/-- The string that a value holds. -/
def Value.stringId : Value D → Option Nat
  | .string id => some id
  | _ => none

/-- The tree that a value points into. -/
def Value.treeId : Value D → Option Nat
  | .func tree _ _ => some tree
  | _ => none

/-- Values without pointers. -/
def Value.isScalar : Value D → Bool
  | .string _ => false
  | .func .. => false
  | _ => true

/-- `char` has a sign. -/
def charToInt (letter : Char) : BitVec 64 :=
  (BitVec.ofNat 8 letter.toNat).signExtend 64

/-- `qd_cint_val_to_int`.  A float may be out of range. -/
def Value.toInt [Double D] : Value D → Option (BitVec 64)
  | .int value => some value
  | .float value => (Double.toInt value).map (BitVec.ofInt 64)
  | .char letter => some (charToInt letter)
  | _ => some 0

/-- `qd_cint_val_to_float`. -/
def Value.toFloat [Double D] : Value D → D
  | .int value => Double.ofInt value.toInt
  | .float value => value
  | .char letter => Double.ofInt (charToInt letter).toInt
  | _ => Double.ofInt 0

/-! ## State -/

/-- `qd_cint_flow_t`. -/
inductive Flow
  | normal | returning | breaking | continuing
  deriving DecidableEq, Repr

/-- `qd_cint_var_t`. -/
structure Var (D : Type) where
  name : Chars
  value : Value D

/-- An entry of the registry of native functions. -/
structure Native where
  name : Chars
  fptr : Nat
  numArgs : Nat
  retType : ValueType
  deriving DecidableEq, Repr

/-- What an evaluation does that its state does not show. -/
inductive EvalEvent
  | argument (index depth : Nat)
  | nativeCall (name : Chars) (args : List (BitVec 64))
  | readsString (id : Nat)
  | assignsString (id : Nat)
  | declares (tree : Nat)
  | leaves (owned freed : List Nat)
  deriving DecidableEq, Repr

/-- `qd_cint_eval_t`, with the heap.  `frames` are the scopes of the functions that are being
called, the innermost first; the parent of each is the global scope.  `library` stands for the
native functions behind their pointers, and `temps` has the strings that local variables of
the evaluator hold while it evaluates another node. -/
structure State (D : Type) where
  globals : List (Var D)
  frames : List (List (Var D))
  returnValue : Value D
  flow : Flow
  error : Option Chars
  errorLine : Nat
  natives : List Native
  library : Nat → BitVec 64 → BitVec 64 → BitVec 64 → BitVec 64 → BitVec 64
  strings : List Chars
  freed : List Nat
  temps : List (Option Nat)
  trees : Nat
  freedTrees : List Nat
  output : Chars
  verbose : Bool
  log : List EvalEvent

/-- `qd_cint_eval_create`. -/
def State.create (library : Nat → BitVec 64 → BitVec 64 → BitVec 64 → BitVec 64 → BitVec 64) :
    State D :=
  { globals := []
    frames := []
    returnValue := .void
    flow := .normal
    error := none
    errorLine := 0
    natives := []
    library := library
    strings := []
    freed := []
    temps := []
    trees := 0
    freedTrees := []
    output := []
    verbose := false
    log := [] }

/-- The strings that variables hold. -/
def heldBy (vars : List (Var D)) : List Nat :=
  vars.filterMap fun var => var.value.stringId

/-- All strings that variables and the stored return value hold. -/
def State.held (s : State D) : List Nat :=
  s.frames.flatMap heldBy ++ heldBy s.globals ++ s.returnValue.stringId.toList

/-- The state with one more event. -/
def State.note (s : State D) (event : EvalEvent) : State D :=
  { s with log := s.log ++ [event] }

/-! ## Evaluations -/

/-- What ends an evaluation. -/
inductive Fault
  | arithmetic
  | nullPointer
  | badEvaluator
  | doubleFree
  | useAfterFree
  | freedTree
  | overflow
  deriving DecidableEq, Repr

/-- How an evaluation ends. -/
inductive Outcome (α : Type)
  | done (value : α)
  | exhausted
  | fault (fault : Fault)
  deriving DecidableEq, Repr

/-- An evaluation: its outcome and the state after it. -/
def Eval (D α : Type) : Type :=
  State D → Outcome α × State D

instance Eval.monad : Monad (Eval D) where
  pure value := fun s => (.done value, s)
  bind action next := fun s =>
    match action s with
    | (.done value, s) => next value s
    | (.exhausted, s) => (.exhausted, s)
    | (.fault fault, s) => (.fault fault, s)

namespace Eval

/-- The depth did not suffice. -/
def exhausted {α : Type} : Eval D α :=
  fun s => (.exhausted, s)

/-- The evaluation ends with a fault. -/
def fault {α : Type} (fault : Fault) : Eval D α :=
  fun s => (.fault fault, s)

/-- A part of the state. -/
def gets {α : Type} (read : State D → α) : Eval D α :=
  fun s => (.done (read s), s)

/-- Change the state. -/
def modify (change : State D → State D) : Eval D Unit :=
  fun s => (.done (), change s)

/-- Put an event down. -/
def record (event : EvalEvent) : Eval D Unit :=
  modify fun s => s.note event

/-- A value that may not be defined. -/
def check {α : Type} (otherwise : Fault) : Option α → Eval D α
  | some value => pure value
  | none => fault otherwise

end Eval

open Eval

/-! ## Strings -/

/-- `strdup`. -/
def strdup (text : Chars) : Eval D Nat := do
  let id ← gets fun s => s.strings.length
  modify fun s => { s with strings := s.strings ++ [text] }
  pure id

/-- The text of a string that has not been freed. -/
def readString (id : Nat) : Eval D Chars := do
  let freed ← gets fun s => s.freed
  if id ∈ freed then fault .useAfterFree else gets fun s => s.strings.getD id []

/-- `free` of a string. -/
def freeString (id : Nat) : Eval D Unit := do
  let freed ← gets fun s => s.freed
  if id ∈ freed then fault .doubleFree
  else modify fun s => { s with freed := s.freed ++ [id] }

/-- `qd_cint_val_free`. -/
def valFree : Value D → Eval D Unit
  | .string id => freeString id
  | _ => pure ()

/-! ## Conversions and output -/

/-- `qd_cint_val_to_int`. -/
def valToInt [Double D] (value : Value D) : Eval D (BitVec 64) :=
  Eval.check .arithmetic value.toInt

/-- `qd_cint_val_to_bool`. -/
def valToBool [Double D] : Value D → Eval D Bool
  | .int value => pure (value ≠ 0)
  | .float value => pure (!Double.eq value (Double.ofInt 0))
  | .char letter => pure (letter ≠ '\x00')
  | .string id => do
      let text ← readString id
      pure (text ≠ [])
  | _ => pure false

/-- `printf` to the standard output. -/
def emit (text : Chars) : Eval D Unit :=
  modify fun s => { s with output := s.output ++ text }

/-- `qd_cint_val_print`. -/
def valPrint [Double D] : Value D → Eval D Unit
  | .void => emit "void".toList
  | .int value => emit (toString value.toInt).toList
  | .float value => emit (Double.print value)
  | .string id => do
      let text ← readString id
      emit text
  | .char letter => emit [letter]
  | .func .. => emit ['?']

/-! ## Scopes -/

/-- The variables of the current scope. -/
def State.current (s : State D) : List (Var D) :=
  s.frames.headD s.globals

/-- The current scope with other variables. -/
def State.setCurrent (s : State D) (vars : List (Var D)) : State D :=
  match s.frames with
  | [] => { s with globals := vars }
  | _ :: frames => { s with frames := vars :: frames }

/-- `scope_find`, for the value of the variable. -/
def State.find (s : State D) (name : Chars) : Option (Value D) :=
  ((s.current ++ s.globals).find? fun var => var.name = name).map Var.value

/-- The first variable of the name with another value. -/
def setFirst (name : Chars) (value : Value D) : List (Var D) → List (Var D)
  | [] => []
  | var :: vars =>
      if var.name = name then { var with value := value } :: vars
      else var :: setFirst name value vars

/-- `scope_find` and `var->value = value`. -/
def State.assign (s : State D) (name : Chars) (value : Value D) : State D :=
  if s.current.any fun var => var.name = name then s.setCurrent (setFirst name value s.current)
  else { s with globals := setFirst name value s.globals }

/-- `scope_define`: the place of the variable, counted from the oldest one of its scope. -/
def scopeDefine (name : Chars) : Eval D Nat := do
  let place ← gets fun s => s.current.length
  modify fun s => s.setCurrent (⟨name, .void⟩ :: s.current)
  pure place

/-- The variables with another value at the place. -/
def setPlace (place : Nat) (value : Value D) (vars : List (Var D)) : List (Var D) :=
  vars.modify (vars.length - 1 - place) fun var => { var with value := value }

/-- `var->value = value` for the variable at the place. -/
def setVar (place : Nat) (value : Value D) : Eval D Unit :=
  modify fun s => s.setCurrent (setPlace place value s.current)

/-- The frees of `scope_destroy`. -/
def freeVars : List (Var D) → Eval D Unit
  | [] => pure ()
  | var :: vars => do
      valFree var.value
      freeVars vars

/-- `scope_create` for a call. -/
def enterScope : Eval D Unit :=
  modify fun s => { s with frames := [] :: s.frames }

/-- `scope_destroy` of the scope of a call, and the return to that of the caller. -/
def leaveScope : Eval D Unit := do
  let vars ← gets fun s => s.current
  -- Nothing looks a name up while the variables are freed.
  modify fun s => { s with frames := s.frames.tail }
  freeVars vars

/-- `eval_error`, with the text in an array of 256 bytes. -/
def evalError (line : Nat) (msg : Chars) : Eval D Unit :=
  modify fun s =>
    { s with
      error := some (("Runtime error at line ".toList ++ Nat.toDigits 10 line ++ ": ".toList ++
        msg).take 255)
      errorLine := line }

end QDaemon.Cint
