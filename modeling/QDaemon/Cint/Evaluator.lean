import QDaemon.Cint.Values

/-!
# The evaluator

`qd_cint_eval.c`: a function that walks over the tree.  As in the parser, the calls of
`eval_node` and the rounds of its loops go through a table, and `Eval.run` ties the knot up
to a given depth.

The evaluator passes a pointer to its state around.  In a call from within a function,
`eval_call` evaluates each argument a first time with a pointer that it computes from the
address of the caller's scope, which is not the address of an evaluator.
-/

namespace QDaemon.Cint

open Text

variable {D : Type}

/-! ## Operators -/

/-- A number that `int64_t` can hold. -/
def fitInt (number : Int) : Option (BitVec 64) :=
  if -2 ^ 63 ≤ number ∧ number < 2 ^ 63 then some (BitVec.ofInt 64 number) else none

/-- `l / r`. -/
def divInt (left right : BitVec 64) : Option (BitVec 64) :=
  if right = 0 then some 0 else fitInt (left.toInt.tdiv right.toInt)

/-- `l % r`, which is undefined where the quotient is. -/
def modInt (left right : BitVec 64) : Option (BitVec 64) :=
  if right = 0 then some 0
  else (fitInt (left.toInt.tdiv right.toInt)).bind fun _ => fitInt (left.toInt.tmod right.toInt)

/-- `l << r`. -/
def shiftLeft (left right : BitVec 64) : Option (BitVec 64) :=
  if right.toNat < 64 ∧ 0 ≤ left.toInt then fitInt (left.toInt * 2 ^ right.toNat) else none

/-- `l >> r`. -/
def shiftRight (left right : BitVec 64) : Option (BitVec 64) :=
  if right.toNat < 64 then some (left.sshiftRight right.toNat) else none

/-- A condition as a number. -/
def ofBool (truth : Bool) : Value D :=
  .int (if truth then 1 else 0)

/-- The operators of `eval_binop` on floats. -/
def floatBinop [Double D] (op : BinOp) (left right : D) : Value D :=
  match op with
  | .add => .float (Double.add left right)
  | .sub => .float (Double.sub left right)
  | .mul => .float (Double.mul left right)
  | .div => .float (Double.div left right)
  | .eq => ofBool (Double.eq left right)
  | .ne => ofBool (!Double.eq left right)
  | .lt => ofBool (Double.lt left right)
  | .gt => ofBool (Double.lt right left)
  | .le => ofBool (Double.le left right)
  | .ge => ofBool (Double.le right left)
  | _ => .void

/-- The operators of `eval_binop` on integers. -/
def intBinop (op : BinOp) (left right : BitVec 64) : Option (Value D) :=
  match op with
  | .add => (fitInt (left.toInt + right.toInt)).map .int
  | .sub => (fitInt (left.toInt - right.toInt)).map .int
  | .mul => (fitInt (left.toInt * right.toInt)).map .int
  | .div => (divInt left right).map .int
  | .mod => (modInt left right).map .int
  | .eq => some (ofBool (left = right))
  | .ne => some (ofBool (left ≠ right))
  | .lt => some (ofBool (left.toInt < right.toInt))
  | .gt => some (ofBool (right.toInt < left.toInt))
  | .le => some (ofBool (left.toInt ≤ right.toInt))
  | .ge => some (ofBool (right.toInt ≤ left.toInt))
  | .and => some (ofBool (left ≠ 0 ∧ right ≠ 0))
  | .or => some (ofBool (left ≠ 0 ∨ right ≠ 0))
  | .band => some (.int (left &&& right))
  | .bor => some (.int (left ||| right))
  | .bxor => some (.int (left ^^^ right))
  | .lshift => (shiftLeft left right).map .int
  | .rshift => (shiftRight left right).map .int
  | _ => some .void

/-- What `eval_binop` computes from the two operands. -/
def binop [Double D] (op : BinOp) (left right : Value D) : Option (Value D) :=
  match left, right with
  | .float l, right => some (floatBinop op l right.toFloat)
  | left, .float r => some (floatBinop op left.toFloat r)
  | left, right => do
      let l ← left.toInt
      let r ← right.toInt
      intBinop op l r

/-- `UOP_NEG`. -/
def negate [Double D] : Value D → Option (Value D)
  | .float value => some (.float (Double.neg value))
  | value => value.toInt.bind fun number => (fitInt (-number.toInt)).map .int

/-- `UOP_BNOT`. -/
def complement [Double D] (value : Value D) : Option (Value D) :=
  value.toInt.map fun number => .int (~~~number)

/-- The new value of a compound assignment. -/
def compound (op : BinOp) (old value : BitVec 64) : Option (BitVec 64) :=
  match op with
  | .addAssign => fitInt (old.toInt + value.toInt)
  | .subAssign => fitInt (old.toInt - value.toInt)
  | .mulAssign => fitInt (old.toInt * value.toInt)
  | .divAssign => divInt old value
  | _ => some value

namespace Eval

/-! ## Calls -/

/-- A pointer to an evaluator. -/
inductive Pointer
  | live
  | bogus
  deriving DecidableEq, Repr

/-- What the evaluator calls: a node of a tree, and a round of a loop. -/
inductive Task (D : Type)
  | node (who : Pointer) (tree : Nat) (ast : Ast D)
  | whileLoop (who : Pointer) (tree : Nat) (cond body : Ast D)
  | forLoop (who : Pointer) (tree : Nat) (cond incr body : Ast D)

/-- The tree that a task evaluates a part of. -/
def Task.tree : Task D → Nat
  | .node _ tree _ => tree
  | .whileLoop _ tree _ _ => tree
  | .forLoop _ tree _ _ _ => tree

/-- The functions that evaluations call. -/
def Calls (D : Type) : Type :=
  Task D → Eval D (Value D)

/-- An access to a field of the evaluator. -/
def access : Pointer → Eval D Unit
  | .live => pure ()
  | .bogus => fault .badEvaluator

/-- `e->flow = flow`. -/
def setFlow (flow : Flow) : Eval D Unit :=
  modify fun s => { s with flow := flow }

/-- A local variable holds a value while another node is evaluated. -/
def hold (value : Value D) : Eval D Unit :=
  modify fun s => { s with temps := value.stringId :: s.temps }

/-- The local variable ends. -/
def release : Eval D Unit :=
  modify fun s => { s with temps := s.temps.tail }

/-- An expression has the value of a variable. -/
def noteRead (value : Value D) : Eval D Unit :=
  match value with
  | .string id => record (.readsString id)
  | _ => pure ()

/-- A variable and an expression have the same value. -/
def noteAssign (value : Value D) : Eval D Unit :=
  match value with
  | .string id => record (.assignsString id)
  | _ => pure ()

section Functions

variable [Double D]

/-! ## Expressions -/

/-- `AST_IDENT`. -/
def evalIdent (who : Pointer) (pos : Pos) (name : Chars) : Eval D (Value D) := do
  access who
  let found ← gets fun s => s.find name
  match found with
  | some value => do
      noteRead value
      pure value
  | none => do
      evalError pos.line "Undefined variable".toList
      pure .void

variable (calls : Calls D)

/-- `eval_binop`. -/
def evalBinop (who : Pointer) (tree : Nat) (op : BinOp) (left right : Ast D) :
    Eval D (Value D) := do
  let l ← calls (.node who tree left)
  hold l
  let r ← calls (.node who tree right)
  release
  check .arithmetic (binop op l r)

/-- `++` and `--` on a variable. -/
def stepVar (name : Chars) (old : Value D) (delta : Int) (isPre : Bool) : Eval D (Value D) := do
  let before ← valToInt old
  let after ← check .arithmetic (fitInt (before.toInt + delta))
  modify fun s => s.assign name (.int after)
  pure (.int (if isPre then after else before))

/-- `++` and `--`, after the evaluation of the operand. -/
def evalStep (who : Pointer) (operand : Ast D) (value : Value D) (delta : Int) (isPre : Bool) :
    Eval D (Value D) :=
  match operand with
  | .null => fault .nullPointer
  | .ident _ name => do
      access who
      let found ← gets fun s => s.find name
      match found with
      | some old => stepVar name old delta isPre
      | none => pure value
  | _ => pure value

/-- `eval_unop`. -/
def evalUnop (who : Pointer) (tree : Nat) (op : UnOp) (operand : Ast D) : Eval D (Value D) := do
  let value ← calls (.node who tree operand)
  match op with
  | .neg => check .arithmetic (negate value)
  | .not => do
      let truth ← valToBool value
      pure (ofBool !truth)
  | .bnot => check .arithmetic (complement value)
  | .preInc => evalStep who operand value 1 true
  | .preDec => evalStep who operand value (-1) true
  | .postInc => evalStep who operand value 1 false
  | .postDec => evalStep who operand value (-1) false

/-- `val_free(&var->value)` and `var->value = val`. -/
def replaceVar (name : Chars) (old value : Value D) : Eval D (Value D) := do
  valFree old
  modify fun s => s.assign name value
  pure value

/-- An assignment to a variable that exists. -/
def assignVar (op : BinOp) (name : Chars) (old value : Value D) : Eval D (Value D) :=
  if op = .assign then do
    noteAssign value
    replaceVar name old value
  else do
    let before ← valToInt old
    let operand ← valToInt value
    let after ← check .arithmetic (compound op before operand)
    replaceVar name old (.int after)

/-- An assignment to something else. -/
def invalidTarget (who : Pointer) (pos : Pos) (value : Value D) : Eval D (Value D) := do
  access who
  evalError pos.line "Invalid assignment target".toList
  pure value

/-- `AST_ASSIGN`. -/
def evalAssign (who : Pointer) (tree : Nat) (pos : Pos) (op : BinOp)
    (target value : Ast D) : Eval D (Value D) := do
  let value ← calls (.node who tree value)
  match target with
  | .null => fault .nullPointer
  | .ident _ name => do
      access who
      let found ← gets fun s => s.find name
      match found with
      | some old => assignVar op name old value
      | none => invalidTarget who pos value
  | _ => invalidTarget who pos value

/-- `AST_TERNARY`. -/
def evalTernary (who : Pointer) (tree : Nat) (cond thenExpr elseExpr : Ast D) :
    Eval D (Value D) := do
  let value ← calls (.node who tree cond)
  let truth ← valToBool value
  if truth then calls (.node who tree thenExpr) else calls (.node who tree elseExpr)

/-! ## Function calls -/

/-- One argument of `print`. -/
def printArgument (who : Pointer) (tree : Nat) (arg : Ast D) : Eval D Unit := do
  let value ← calls (.node who tree arg)
  valPrint value
  valFree value

/-- The arguments of `print` from one on. -/
def printArguments (calls : Calls D) (who : Pointer) (tree : Nat) : Nat → List (Ast D) → Eval D Unit
  | _, [] => pure ()
  | index, arg :: args => do
      emit (if 0 < index then [' '] else [])
      printArgument calls who tree arg
      printArguments calls who tree (index + 1) args

/-- The function `print`. -/
def callPrint (who : Pointer) (tree : Nat) (args : List (Ast D)) : Eval D (Value D) := do
  printArguments calls who tree 0 args
  emit ['\n']
  pure .void

/-- What `printf` prints. -/
def printFormat : Value D → Eval D Unit
  | .string id => do
      let text ← readString id
      emit text
  | _ => pure ()

/-- The function `printf`. -/
def callPrintf (who : Pointer) (tree : Nat) (format : Ast D) : Eval D (Value D) := do
  let value ← calls (.node who tree format)
  printFormat value
  valFree value
  pure (.int 0)

/-- The arguments of a native function. -/
def nativeArguments (calls : Calls D) (who : Pointer) (tree : Nat) :
    List (Ast D) → Eval D (List (BitVec 64))
  | [] => pure []
  | arg :: args => do
      let value ← calls (.node who tree arg)
      let number ← valToInt value
      valFree value
      let numbers ← nativeArguments calls who tree args
      pure (number :: numbers)

/-- A call of a native function. -/
def callNative (who : Pointer) (tree : Nat) (native : Native)
    (args : List (Ast D)) : Eval D (Value D) := do
  let numbers ← nativeArguments calls who tree (args.take 16)
  let arg := fun index => numbers.getD index 0
  record (.nativeCall native.name [arg 0, arg 1, arg 2, arg 3])
  let result ← gets fun s => s.library native.fptr (arg 0) (arg 1) (arg 2) (arg 3)
  pure (if native.retType = .void then .void else .int result)

/-- `scope_define` for a parameter, and `pvar->value = arg_val`. -/
def bindParam (param : Param) (value : Value D) : Eval D Unit :=
  match param.name with
  | none => fault .nullPointer
  | some name => do
      let place ← scopeDefine name
      setVar place value

/-- An argument is evaluated in the current scope. -/
def evalArgument (who : Pointer) (tree index : Nat) (arg : Ast D) : Eval D (Value D) := do
  let depth ← gets fun s => s.frames.length
  record (.argument index depth)
  calls (.node who tree arg)

/-- The loop that binds arguments to parameters; `first` is the pointer of the first
evaluation. -/
def bindArguments (calls : Calls D) (first who : Pointer) (tree : Nat) :
    Nat → List Param → List (Ast D) → Eval D Unit
  | index, param :: params, arg :: args => do
      let _ ← evalArgument calls first tree index arg
      let value ← evalArgument calls who tree index arg
      bindParam param value
      bindArguments calls first who tree (index + 1) params args
  | _, _, _ => pure ()

/-- `result = e->return_value`, which becomes void. -/
def takeReturnValue : Eval D (Value D) := do
  let result ← gets fun s => s.returnValue
  modify fun s => { s with returnValue := .void }
  pure result

/-- The body of a function in its scope, and the end of the call. -/
def runBody (who : Pointer) (tree : Nat) (body : Ast D) : Eval D (Value D) := do
  setFlow .normal
  let _ ← calls (.node who tree body)
  let result ← takeReturnValue
  setFlow .normal
  leaveScope
  pure result

/-- A call of an interpreted function.  `nested` is the pointer of the first evaluations of
arguments in a call from within a function. -/
def callFunction (nested who : Pointer) (tree : Nat) (args : List (Ast D))
    (callee : Nat) (params : List Param) (body : Ast D) : Eval D (Value D) := do
  let freed ← gets fun s => s.freedTrees
  if callee ∈ freed then fault .freedTree
  else do
    let caller ← gets fun s => s.frames.length
    enterScope
    bindArguments calls (if caller = 0 then who else nested) who tree 0 params args
    runBody calls who callee body

/-- A call by name of a function that is not built in. -/
def callName (nested who : Pointer) (tree : Nat) (pos : Pos) (name : Chars)
    (args : List (Ast D)) : Eval D (Value D) := do
  access who
  let native ← gets fun s => s.natives.find? fun native => native.name = name
  match native with
  | some native => callNative calls who tree native args
  | none => do
      let found ← gets fun s => s.find name
      match found with
      | some (.func callee params body) => callFunction calls nested who tree args callee params body
      | _ => do
          evalError pos.line "Unknown function".toList
          pure .void

/-- `eval_call`. -/
def evalCall (nested who : Pointer) (tree : Nat) (pos : Pos) (func : Ast D)
    (args : List (Ast D)) : Eval D (Value D) :=
  match func with
  | .null => fault .nullPointer
  | .ident _ name =>
      if name = "print".toList then callPrint calls who tree args
      else if name = "printf".toList then
        match args with
        | [] => callName calls nested who tree pos name args
        | format :: _ => callPrintf calls who tree format
      else callName calls nested who tree pos name args
  | _ => do
      access who
      evalError pos.line "Function expression not supported".toList
      pure .void

/-! ## Statements -/

/-- `AST_BLOCK`. -/
def evalBlock (calls : Calls D) (who : Pointer) (tree : Nat) : List (Ast D) → Eval D (Value D)
  | [] => pure .void
  | stmt :: stmts => do
      let _ ← calls (.node who tree stmt)
      access who
      let flow ← gets fun s => s.flow
      if flow = .normal then evalBlock calls who tree stmts else pure .void

/-- A branch that may not be there. -/
def evalOptional (who : Pointer) (tree : Nat) : Ast D → Eval D (Value D)
  | .null => pure .void
  | ast => calls (.node who tree ast)

/-- The branch of `AST_IF` that is taken. -/
def evalBranch (who : Pointer) (tree : Nat) (thenBody elseBody : Ast D)
    (truth : Bool) : Eval D (Value D) :=
  if truth then calls (.node who tree thenBody) else evalOptional calls who tree elseBody

/-- `AST_IF`. -/
def evalIf (who : Pointer) (tree : Nat) (cond thenBody elseBody : Ast D) : Eval D (Value D) := do
  let value ← calls (.node who tree cond)
  let truth ← valToBool value
  let _ ← evalBranch calls who tree thenBody elseBody truth
  pure .void

/-- What a loop does after its body: `rest` is what follows in the same round and the next
rounds. -/
def afterBody (who : Pointer) (rest : Eval D (Value D)) : Eval D (Value D) := do
  access who
  let flow ← gets fun s => s.flow
  match flow with
  | .breaking => do
      setFlow .normal
      pure .void
  | .continuing => do
      setFlow .normal
      rest
  | .returning => pure .void
  | .normal => rest

/-- A round of `AST_WHILE`. -/
def evalWhile (who : Pointer) (tree : Nat) (cond body : Ast D) : Eval D (Value D) := do
  let value ← calls (.node who tree cond)
  let truth ← valToBool value
  if truth then do
    let _ ← calls (.node who tree body)
    afterBody who (calls (.whileLoop who tree cond body))
  else pure .void

/-- The condition of `AST_FOR`. -/
def forCond (who : Pointer) (tree : Nat) : Ast D → Eval D Bool
  | .null => pure true
  | cond => do
      let value ← calls (.node who tree cond)
      valToBool value

/-- What follows the body of `AST_FOR`. -/
def forNext (who : Pointer) (tree : Nat) (cond incr body : Ast D) : Eval D (Value D) := do
  let _ ← evalOptional calls who tree incr
  calls (.forLoop who tree cond incr body)

/-- A round of `AST_FOR`. -/
def evalFor (who : Pointer) (tree : Nat) (cond incr body : Ast D) : Eval D (Value D) := do
  let truth ← forCond calls who tree cond
  if truth then do
    let _ ← calls (.node who tree body)
    afterBody who (forNext calls who tree cond incr body)
  else pure .void

/-- The value of `AST_RETURN`. -/
def evalReturnValue (who : Pointer) (tree : Nat) : Ast D → Eval D Unit
  | .null => pure ()
  | ast => do
      let value ← calls (.node who tree ast)
      access who
      modify fun s => { s with returnValue := value }

/-- A node that changes the flow. -/
def evalJump (who : Pointer) (flow : Flow) : Eval D (Value D) := do
  access who
  setFlow flow
  pure .void

/-- `AST_RETURN`. -/
def evalReturn (who : Pointer) (tree : Nat) (value : Ast D) : Eval D (Value D) := do
  evalReturnValue calls who tree value
  evalJump who .returning

/-- `AST_VARDECL`. -/
def evalVarDecl (who : Pointer) (tree : Nat) (name : Chars) (init : Ast D) : Eval D (Value D) := do
  access who
  let place ← scopeDefine name
  match init with
  | .null => pure .void
  | init => do
      let value ← calls (.node who tree init)
      setVar place value
      pure .void

/-- `AST_FUNCDECL`. -/
def evalFuncDecl (who : Pointer) (tree : Nat) (name : Chars) (params : List Param)
    (body : Ast D) : Eval D (Value D) := do
  access who
  let place ← scopeDefine name
  record (.declares tree)
  setVar place (.func tree params body)
  pure .void

/-- The other types of nodes. -/
def unsupported (who : Pointer) (pos : Pos) : Eval D (Value D) := do
  access who
  evalError pos.line "Unsupported AST node".toList
  pure .void

/-! ## The evaluator -/

/-- The cases of `eval_node`. -/
def evalCases (nested : Pointer) (calls : Calls D) (who : Pointer) (tree : Nat) :
    Ast D → Eval D (Value D)
  | .null => pure .void
  | .int _ value => pure (.int value)
  | .float _ value => pure (.float value)
  | .string _ text => do
      let id ← strdup text
      pure (.string id)
  | .char _ letter => pure (.char letter)
  | .ident pos name => evalIdent who pos name
  | .binop _ op left right => evalBinop calls who tree op left right
  | .unop _ op operand => evalUnop calls who tree op operand
  | .call pos func args => evalCall calls nested who tree pos func args
  | .assign pos op target value => evalAssign calls who tree pos op target value
  | .ternary _ cond thenExpr elseExpr => evalTernary calls who tree cond thenExpr elseExpr
  | .block _ stmts => evalBlock calls who tree stmts
  | .ifStmt _ cond thenBody elseBody => evalIf calls who tree cond thenBody elseBody
  | .whileStmt _ cond body => calls (.whileLoop who tree cond body)
  | .forStmt _ init cond incr body => do
      let _ ← evalOptional calls who tree init
      calls (.forLoop who tree cond incr body)
  | .returnStmt _ value => evalReturn calls who tree value
  | .breakStmt _ => evalJump who .breaking
  | .continueStmt _ => evalJump who .continuing
  | .exprStmt _ expr => calls (.node who tree expr)
  | .varDecl _ _ name init => evalVarDecl calls who tree name init
  | .funcDecl _ _ name params body => evalFuncDecl who tree name params body
  | .index pos _ _ => unsupported who pos
  | .member pos _ _ => unsupported who pos
  | .ptrMember pos _ _ => unsupported who pos
  | .sizeOf pos _ => unsupported who pos
  | .addr pos _ => unsupported who pos
  | .deref pos _ => unsupported who pos

/-- The strings with an owner at the end of the evaluation of a node. -/
def owned (s : State D) (value : Value D) : List Nat :=
  s.held ++ s.temps.reduceOption ++ value.stringId.toList

/-- `eval_node`. -/
def evalNode (nested : Pointer) (calls : Calls D) (who : Pointer) (tree : Nat) (ast : Ast D) :
    Eval D (Value D) := do
  let value ← evalCases nested calls who tree ast
  let event ← gets fun s => EvalEvent.leaves (owned s value) s.freed
  record event
  pure value

/-- The evaluation that a task names. -/
def evalTask (nested : Pointer) (calls : Calls D) : Task D → Eval D (Value D)
  | .node who tree ast => evalNode nested calls who tree ast
  | .whileLoop who tree cond body => evalWhile calls who tree cond body
  | .forLoop who tree cond incr body => evalFor calls who tree cond incr body

/-- The evaluator with calls up to the given depth. -/
def run (nested : Pointer) : Nat → Calls D
  | 0 => fun _ => exhausted
  | depth + 1 => evalTask nested (run nested depth)

/-- `qd_cint_eval_ast` for the root of a tree. -/
def evalAst (depth tree : Nat) (ast : Ast D) : Eval D (Value D) :=
  run .bogus depth (.node .live tree ast)

end Functions

end Eval

end QDaemon.Cint
