import QDaemon.Text.Ctype

/-!
# Tokens and syntax trees of the C interpreter

The token types of `qd_cint_lexer.h` and the nodes of `qd_cint_ast.h` that the parser
makes.  A null pointer to a node is the tree `null`.
-/

namespace QDaemon.Cint

open Text

/-- What the interpreter needs of the type `double`, and of the C library for it. -/
class Double (D : Type) where
  strtod : Chars → D
  ofInt : Int → D
  toInt : D → Option Int
  neg : D → D
  add : D → D → D
  sub : D → D → D
  mul : D → D → D
  div : D → D → D
  eq : D → D → Bool
  lt : D → D → Bool
  le : D → D → Bool
  print : D → Chars

/-- Whole numbers in place of `double`, to run the interpreter on inputs without fractions. -/
instance Double.whole : Double Int where
  strtod text := Nat.ofDigitChars 10 (text.takeWhile Char.isDigit) 0
  ofInt number := number
  toInt number := if -2 ^ 63 ≤ number ∧ number < 2 ^ 63 then some number else none
  neg number := -number
  add := (· + ·)
  sub := (· - ·)
  mul := (· * ·)
  div := Int.tdiv
  eq left right := decide (left = right)
  lt left right := decide (left < right)
  le left right := decide (left ≤ right)
  print number := (toString number).toList

/-! ## Tokens -/

/-- `qd_cint_token_type_t`. -/
inductive Kind
  | eof | error
  | int | float | string | char
  | ident
  | ifKw | elseKw | whileKw | forKw | doKw | switchKw | caseKw | defaultKw | breakKw
  | continueKw | returnKw | gotoKw
  | voidKw | intKw | charKw | shortKw | longKw | floatKw | doubleKw | signedKw | unsignedKw
  | structKw | unionKw | enumKw | typedefKw | constKw | staticKw | externKw | sizeofKw
  | plus | minus | star | slash | percent
  | eq | ne | lt | gt | le | ge
  | and | or | not
  | band | bor | bxor | bnot | lshift | rshift
  | assign | plusEq | minusEq | starEq | slashEq | percentEq | bandEq | borEq | bxorEq
  | lshiftEq | rshiftEq
  | inc | dec
  | arrow | dot | question | colon
  | lparen | rparen | lbrace | rbrace | lbracket | rbracket | semicolon | comma
  deriving DecidableEq, Repr

/-- `qd_cint_token_is_type`. -/
def Kind.isType : Kind → Bool
  | .voidKw | .intKw | .charKw | .shortKw | .longKw | .floatKw | .doubleKw | .signedKw
  | .unsignedKw | .structKw | .unionKw | .enumKw | .typedefKw | .constKw | .staticKw
  | .externKw => true
  | _ => false

/-- `qd_cint_token_name`. -/
def Kind.name : Kind → Chars
  | .eof => "EOF".toList
  | .error => "ERROR".toList
  | .int => "INT".toList
  | .float => "FLOAT".toList
  | .string => "STRING".toList
  | .char => "CHAR".toList
  | .ident => "IDENT".toList
  | .ifKw => "if".toList
  | .elseKw => "else".toList
  | .whileKw => "while".toList
  | .forKw => "for".toList
  | .returnKw => "return".toList
  | .plus => "+".toList
  | .minus => "-".toList
  | .star => "*".toList
  | .slash => "/".toList
  | .eq => "==".toList
  | .assign => "=".toList
  | .lparen => "(".toList
  | .rparen => ")".toList
  | .lbrace => "\x7b".toList
  | .rbrace => "\x7d".toList
  | .semicolon => ";".toList
  | .comma => ",".toList
  | _ => "UNKNOWN".toList

/-- `qd_cint_token_val_t`.  `zero` is the union with all bytes zero. -/
inductive TokenValue (D : Type)
  | zero
  | int (value : BitVec 64)
  | float (value : D)
  | text (text : Chars)
  | char (char : Char)
  deriving DecidableEq

/-- A line and a column. -/
structure Pos where
  line : Nat
  col : Nat
  deriving DecidableEq, Repr

/-- `qd_cint_token_t`. -/
structure Token (D : Type) where
  kind : Kind
  value : TokenValue D
  pos : Pos
  deriving DecidableEq

/-! ## Trees -/

/-- `qd_cint_binop_t`. -/
inductive BinOp
  | add | sub | mul | div | mod
  | eq | ne | lt | gt | le | ge
  | and | or
  | band | bor | bxor | lshift | rshift
  | assign | addAssign | subAssign | mulAssign | divAssign
  deriving DecidableEq, Repr

/-- `qd_cint_unop_t`. -/
inductive UnOp
  | neg | not | bnot | preInc | preDec | postInc | postDec
  deriving DecidableEq, Repr

/-- `qd_cint_typespec_t`, with the fields that the parser sets. -/
structure TypeSpec where
  name : Chars
  pointerDepth : Nat
  isUnsigned : Bool
  deriving DecidableEq, Repr

/-- A node of type `AST_PARAM`. -/
structure Param where
  type : Option TypeSpec
  name : Option Chars
  deriving DecidableEq, Repr

/-- `qd_cint_ast_t`. -/
inductive Ast (D : Type)
  | null
  | int (pos : Pos) (value : BitVec 64)
  | float (pos : Pos) (value : D)
  | string (pos : Pos) (text : Chars)
  | char (pos : Pos) (char : Char)
  | ident (pos : Pos) (name : Chars)
  | binop (pos : Pos) (op : BinOp) (left right : Ast D)
  | unop (pos : Pos) (op : UnOp) (operand : Ast D)
  | assign (pos : Pos) (op : BinOp) (target value : Ast D)
  | call (pos : Pos) (func : Ast D) (args : List (Ast D))
  | index (pos : Pos) (array index : Ast D)
  | member (pos : Pos) (object : Ast D) (member : Chars)
  | ptrMember (pos : Pos) (object : Ast D) (member : Chars)
  | ternary (pos : Pos) (cond thenExpr elseExpr : Ast D)
  | sizeOf (pos : Pos) (type : Option TypeSpec)
  | addr (pos : Pos) (operand : Ast D)
  | deref (pos : Pos) (operand : Ast D)
  | block (pos : Pos) (stmts : List (Ast D))
  | ifStmt (pos : Pos) (cond thenBody elseBody : Ast D)
  | whileStmt (pos : Pos) (cond body : Ast D)
  | forStmt (pos : Pos) (init cond incr body : Ast D)
  | breakStmt (pos : Pos)
  | continueStmt (pos : Pos)
  | returnStmt (pos : Pos) (value : Ast D)
  | exprStmt (pos : Pos) (expr : Ast D)
  | varDecl (pos : Pos) (type : TypeSpec) (name : Chars) (init : Ast D)
  | funcDecl (pos : Pos) (type : TypeSpec) (name : Chars) (params : List Param) (body : Ast D)

variable {D : Type}

/-- The place that trees without line and column numbers have. -/
def Pos.none : Pos :=
  ⟨0, 0⟩

end QDaemon.Cint
