import QDaemon.Cint.Lexer

/-!
# The parser

`qd_cint_parser.c`, a recursive descent parser that goes on after an error.  Each parsing
function is written with the functions it calls as a parameter, and `run` ties the knot for
a given depth of calls: loops count as calls of themselves.  A run that is not deep enough
ends without a value.

The log records what the source does not check: which tokens the text is taken from and
freed of, which elements of its arrays are stored, how long a type name gets, and at which
tokens an iteration of the loop of a block starts.
-/

namespace QDaemon.Cint

open Text

variable {D : Type}

/-! ## State -/

/-- The arrays of fixed size. -/
inductive FixedArray
  | args
  | params
  | stmts
  deriving DecidableEq, Repr

/-- What a run does that the source does not check. -/
inductive Event
  | readText (kind : Kind) (pos : Pos)
  | freeText (kind : Kind) (pos : Pos)
  | store (array : FixedArray) (index : Nat)
  | typeName (length : Nat)
  | iteration (kind : Kind)
  deriving DecidableEq, Repr

/-- The message of the first error, with the token it was found at. -/
structure ParseError where
  msg : Chars
  pos : Pos
  got : Kind
  deriving DecidableEq, Repr

/-- `qd_cint_parser_t`, with the log. -/
structure Parser (D : Type) where
  lex : Lexer
  current : Token D
  prev : Token D
  error : Option ParseError
  log : List Event
  deriving DecidableEq

/-- A parsing action: a value, unless the depth did not suffice, and the state after it. -/
def Parse (D α : Type) : Type :=
  Parser D → Option α × Parser D

instance Parse.monad : Monad (Parse D) where
  pure value := fun p => (some value, p)
  bind action next := fun p =>
    match action p with
    | (some value, p) => next value p
    | (none, p) => (none, p)

namespace Parse

/-- The depth did not suffice. -/
def exhausted {α : Type} : Parse D α :=
  fun p => (none, p)

/-- A part of the state. -/
def gets {α : Type} (read : Parser D → α) : Parse D α :=
  fun p => (some (read p), p)

/-- Change the state. -/
def modify (change : Parser D → Parser D) : Parse D Unit :=
  fun p => (some (), change p)

/-- Put an event down. -/
def record (event : Event) : Parse D Unit :=
  modify fun p => { p with log := p.log ++ [event] }

end Parse

open Parse

/-! ## Token helpers -/

/-- `CURRENT(p).type`. -/
def currentKind : Parse D Kind :=
  gets fun p => p.current.kind

/-- `CHECK`. -/
def check (kind : Kind) : Parse D Bool :=
  gets fun p => decide (p.current.kind = kind)

/-- The place of the current token. -/
def here : Parse D Pos :=
  gets fun p => p.current.pos

/-- `advance`. -/
def advance [Double D] : Parse D Unit :=
  fun p =>
    match (p.lex.next : Option (Token D × Lexer)) with
    | some (token, lex) => (some (), { p with lex := lex, prev := p.current, current := token })
    | none => (none, p)

/-- `error`. -/
def error (msg : String) : Parse D Unit :=
  modify fun p =>
    match p.error with
    | some _ => p
    | none => { p with error := some ⟨msg.toList, p.current.pos, p.current.kind⟩ }

/-- `expect`. -/
def expect [Double D] (kind : Kind) (msg : String) : Parse D Unit := do
  if ← check kind then advance else error msg

/-- The text of a token; tokens of other kinds have none. -/
def Token.text (token : Token D) : Chars :=
  match token.value with
  | .text text => cString text
  | _ => []

/-- `strdup(PREV(p).val.s)`, with the text freed behind it. -/
def takeText : Parse D Chars := do
  let token ← gets fun p => p.prev
  record (.readText token.kind token.pos)
  record (.freeText token.kind token.pos)
  pure token.text

/-! ## Types -/

/-- The types that a keyword names. -/
def Kind.typeName : Kind → Option Chars
  | .voidKw => some "void".toList
  | .intKw => some "int".toList
  | .charKw => some "char".toList
  | .shortKw => some "short".toList
  | .longKw => some "long".toList
  | .floatKw => some "float".toList
  | .doubleKw => some "double".toList
  | _ => none

/-- The first word of a type name, if it says whether the type has a sign. -/
def parseSign [Double D] : Parse D Chars := do
  let kind ← currentKind
  if kind = .unsignedKw then do
    advance
    pure "unsigned ".toList
  else if kind = .signedKw then do
    advance
    pure "signed ".toList
  else pure []

/-- The base type behind it. -/
def parseBase [Double D] (sign : Chars) : Parse D (Option Chars) := do
  let token ← gets fun p => p.current
  match token.kind.typeName with
  | some name => do advance; pure (some name)
  | none =>
      if token.kind = .ident then do
        record (.readText token.kind token.pos)
        advance
        pure (some token.text)
      else if sign = "unsigned ".toList then pure (some "int".toList)
      else do error "Expected type name"; pure none

/-- `while (match(p, TOK_STAR)) ts->pointer_depth++;`.  Each round passes a character at
least, so there are as many rounds as the loop needs. -/
def parseStars [Double D] : Nat → Nat → Parse D Nat
  | 0, stars => pure stars
  | rounds + 1, stars => do
      if ← check .star then do advance; parseStars rounds (stars + 1) else pure stars

/-- The part of `parse_typespec` behind the first word. -/
def parseTypeRest [Double D] (sign : Chars) : Parse D (Option TypeSpec) := do
  match ← parseBase sign with
  | none => pure none
  | some base => do
      record (.typeName (sign ++ base).length)
      let rounds ← gets fun p => p.lex.rest.length + 2
      let stars ← parseStars rounds 0
      pure (some ⟨sign ++ base, stars, sign = "unsigned ".toList⟩)

/-- `parse_typespec`. -/
def parseTypespec [Double D] : Parse D (Option TypeSpec) := do
  let kind ← currentKind
  if kind.isType || kind = .ident then do
    let sign ← parseSign
    parseTypeRest sign
  else do
    error "Expected type"
    pure none

/-! ## Expressions -/

/-- The levels of the binary operators. -/
inductive Level
  | or | and | bitor | bitxor | bitand | equality | comparison | shift | term | factor
  deriving DecidableEq, Repr

/-- The parsing functions, and their loops with what they have collected. -/
inductive Goal (D : Type)
  | primary
  | postfixExpr
  | postfixLoop (expr : Ast D)
  | arguments (func : Ast D) (args : List (Ast D)) (pos : Pos)
  | unary
  | binary (level : Level)
  | binaryLoop (level : Level) (left : Ast D)
  | ternary
  | assignment
  | block
  | blockLoop (stmts : List (Ast D)) (pos : Pos)
  | statement
  | declaration
  | parameters (type : TypeSpec) (name : Chars) (params : List Param) (pos : Pos)
  | program (stmts : List (Ast D))

/-- The functions that a function calls. -/
abbrev Calls (D : Type) := Goal D → Parse D (Ast D)

/-- `parse_expression`. -/
def parseExpression (calls : Calls D) : Parse D (Ast D) :=
  calls .assignment

/-- The tokens that start a primary expression. -/
def Kind.startsPrimary : Kind → Bool
  | .int | .float | .string | .char | .ident | .lparen | .sizeofKw => true
  | _ => false

/-- The branches of `parse_primary` behind the token that they match. -/
def parsePrimaryRest [Double D] (calls : Calls D) (token : Token D) : Parse D (Ast D) :=
  match token.kind, token.value with
  | .int, .int value => pure (.int token.pos value)
  | .float, .float value => pure (.float token.pos value)
  | .string, _ => do
      let text ← takeText
      pure (.string token.pos text)
  | .char, .char char => pure (.char token.pos char)
  | .ident, _ => do
      let text ← takeText
      pure (.ident token.pos text)
  | .lparen, _ => do
      let expr ← parseExpression calls
      expect .rparen "Expected ')' after expression"
      pure expr
  | .sizeofKw, _ => do
      expect .lparen "Expected '(' after sizeof"
      let type ← parseTypespec
      expect .rparen "Expected ')' after sizeof"
      pure (.sizeOf token.pos type)
  | _, _ => pure .null

/-- `parse_primary`. -/
def parsePrimary [Double D] (calls : Calls D) : Parse D (Ast D) := do
  let token ← gets fun p => p.current
  if token.kind.startsPrimary then do
    advance
    parsePrimaryRest calls token
  else do
    error "Expected expression"
    pure .null

/-- `parse_postfix`. -/
def parsePostfix (calls : Calls D) : Parse D (Ast D) := do
  match ← calls .primary with
  | .null => pure .null
  | expr => calls (.postfixLoop expr)

/-- A member behind a dot or an arrow. -/
def parseMember [Double D] : Parse D Chars := do
  expect .ident "Expected member name"
  takeText

/-- The tokens that continue a postfix expression. -/
def Kind.continuesPostfix : Kind → Bool
  | .lparen | .lbracket | .dot | .arrow | .inc | .dec => true
  | _ => false

/-- The branches of the loop of `parse_postfix` behind the token that they match. -/
def parsePostfixRest [Double D] (calls : Calls D) (expr : Ast D) (pos : Pos) (kind : Kind) :
    Parse D (Ast D) :=
  match kind with
  | .lparen => do
      if ← check .rparen then do
        advance
        calls (.postfixLoop (.call pos expr []))
      else calls (.arguments expr [] pos)
  | .lbracket => do
      let index ← parseExpression calls
      expect .rbracket "Expected ']' after index"
      calls (.postfixLoop (.index pos expr index))
  | .dot => do
      let member ← parseMember
      calls (.postfixLoop (.member pos expr member))
  | .arrow => do
      let member ← parseMember
      calls (.postfixLoop (.ptrMember pos expr member))
  | .inc => calls (.postfixLoop (.unop pos .postInc expr))
  | .dec => calls (.postfixLoop (.unop pos .postDec expr))
  | _ => pure expr

/-- The loop of `parse_postfix`. -/
def parsePostfixLoop [Double D] (calls : Calls D) (expr : Ast D) : Parse D (Ast D) := do
  let pos ← here
  let kind ← currentKind
  if kind.continuesPostfix then do
    advance
    parsePostfixRest calls expr pos kind
  else pure expr

/-- The loop over the arguments of a call, and what follows it. -/
def parseArguments [Double D] (calls : Calls D) (func : Ast D) (args : List (Ast D)) (pos : Pos) :
    Parse D (Ast D) := do
  let arg ← calls .assignment
  record (.store .args args.length)
  if ← check .comma then do
    advance
    calls (.arguments func (args ++ [arg]) pos)
  else do
    expect .rparen "Expected ')' after arguments"
    calls (.postfixLoop (.call pos func (args ++ [arg])))

/-- The unary operators with the nodes they make. -/
def Kind.unary : Kind → Option (Pos → Ast D → Ast D)
  | .minus => some fun pos => .unop pos .neg
  | .not => some fun pos => .unop pos .not
  | .bnot => some fun pos => .unop pos .bnot
  | .inc => some fun pos => .unop pos .preInc
  | .dec => some fun pos => .unop pos .preDec
  | .star => some .deref
  | .band => some .addr
  | _ => none

/-- `parse_unary`. -/
def parseUnary [Double D] (calls : Calls D) : Parse D (Ast D) := do
  let pos ← here
  match (← currentKind).unary with
  | some make => do
      advance
      let operand ← calls .unary
      pure (make pos operand)
  | none => calls .postfixExpr

/-- The operators of a level. -/
def Level.operator : Level → Kind → Option BinOp
  | .factor, .star => some .mul
  | .factor, .slash => some .div
  | .factor, .percent => some .mod
  | .term, .plus => some .add
  | .term, .minus => some .sub
  | .shift, .lshift => some .lshift
  | .shift, .rshift => some .rshift
  | .comparison, .lt => some .lt
  | .comparison, .gt => some .gt
  | .comparison, .le => some .le
  | .comparison, .ge => some .ge
  | .equality, .eq => some .eq
  | .equality, .ne => some .ne
  | .bitand, .band => some .band
  | .bitxor, .bxor => some .bxor
  | .bitor, .bor => some .bor
  | .and, .and => some .and
  | .or, .or => some .or
  | _, _ => none

/-- The operands of a level. -/
def Level.operand : Level → Goal D
  | .factor => .unary
  | .term => .binary .factor
  | .shift => .binary .term
  | .comparison => .binary .shift
  | .equality => .binary .comparison
  | .bitand => .binary .equality
  | .bitxor => .binary .bitand
  | .bitor => .binary .bitxor
  | .and => .binary .bitor
  | .or => .binary .and

/-- The function of a level: an operand, and the loop behind it. -/
def parseBinary (level : Level) (calls : Calls D) : Parse D (Ast D) := do
  let left ← calls level.operand
  calls (.binaryLoop level left)

/-- The loop over the operators of a level. -/
def parseBinaryLoop [Double D] (level : Level) (calls : Calls D) (left : Ast D) :
    Parse D (Ast D) := do
  let pos ← here
  match level.operator (← currentKind) with
  | some op => do
      advance
      let right ← calls level.operand
      calls (.binaryLoop level (.binop pos op left right))
  | none => pure left

/-- `parse_factor`. -/
def parseFactor : Calls D → Parse D (Ast D) := parseBinary .factor

/-- `parse_term`. -/
def parseTerm : Calls D → Parse D (Ast D) := parseBinary .term

/-- `parse_shift`. -/
def parseShift : Calls D → Parse D (Ast D) := parseBinary .shift

/-- `parse_comparison`. -/
def parseComparison : Calls D → Parse D (Ast D) := parseBinary .comparison

/-- `parse_equality`. -/
def parseEquality : Calls D → Parse D (Ast D) := parseBinary .equality

/-- `parse_bitand`. -/
def parseBitand : Calls D → Parse D (Ast D) := parseBinary .bitand

/-- `parse_bitxor`. -/
def parseBitxor : Calls D → Parse D (Ast D) := parseBinary .bitxor

/-- `parse_bitor`. -/
def parseBitor : Calls D → Parse D (Ast D) := parseBinary .bitor

/-- `parse_and`. -/
def parseAnd : Calls D → Parse D (Ast D) := parseBinary .and

/-- `parse_or`. -/
def parseOr : Calls D → Parse D (Ast D) := parseBinary .or

/-- `parse_ternary`. -/
def parseTernary [Double D] (calls : Calls D) : Parse D (Ast D) := do
  let cond ← calls (.binary .or)
  if ← check .question then do
    let pos ← here
    advance
    let thenExpr ← parseExpression calls
    expect .colon "Expected ':' in ternary expression"
    let elseExpr ← calls .ternary
    pure (.ternary pos cond thenExpr elseExpr)
  else pure cond

/-- The assignment operators. -/
def Kind.assignOp : Kind → Option BinOp
  | .assign => some .assign
  | .plusEq => some .addAssign
  | .minusEq => some .subAssign
  | .starEq => some .mulAssign
  | .slashEq => some .divAssign
  | _ => none

/-- `parse_assignment`. -/
def parseAssignment [Double D] (calls : Calls D) : Parse D (Ast D) := do
  let left ← calls .ternary
  let pos ← here
  match (← currentKind).assignOp with
  | some op => do
      advance
      let right ← calls .assignment
      pure (.assign pos op left right)
  | none => pure left

/-! ## Statements -/

/-- `parse_block`. -/
def parseBlock [Double D] (calls : Calls D) : Parse D (Ast D) := do
  let pos ← here
  expect .lbrace "Expected '\x7b'"
  calls (.blockLoop [] pos)

/-- The loop of `parse_block`, and what follows it. -/
def parseBlockLoop [Double D] (calls : Calls D) (stmts : List (Ast D)) (pos : Pos) :
    Parse D (Ast D) := do
  let kind ← currentKind
  if kind = .rbrace || kind = .eof then do
    expect .rbrace "Expected '\x7d'"
    pure (.block pos stmts)
  else do
    record (.iteration kind)
    let stmt ← calls .statement
    record (.store .stmts stmts.length)
    calls (.blockLoop (stmts ++ [stmt]) pos)

/-- An expression, unless the given token comes. -/
def parseUnless (calls : Calls D) (kind : Kind) : Parse D (Ast D) := do
  if ← check kind then pure .null else parseExpression calls

/-- The condition of `if` and `while`. -/
def parseCondition [Double D] (calls : Calls D) (msg : String) : Parse D (Ast D) := do
  expect .lparen msg
  let cond ← parseExpression calls
  expect .rparen "Expected ')' after condition"
  pure cond

/-- The part of an `if` behind `else`. -/
def parseElse [Double D] (calls : Calls D) : Parse D (Ast D) := do
  if ← check .elseKw then do advance; calls .statement else pure .null

/-- The keywords that open a statement. -/
def Kind.opensStatement : Kind → Bool
  | .ifKw | .whileKw | .forKw | .returnKw | .breakKw | .continueKw => true
  | _ => false

/-- The branches of `parse_statement` behind the keyword that they match. -/
def parseStatementRest [Double D] (calls : Calls D) (pos : Pos) (kind : Kind) : Parse D (Ast D) :=
  match kind with
  | .ifKw => do
      let cond ← parseCondition calls "Expected '(' after 'if'"
      let thenBody ← calls .statement
      let elseBody ← parseElse calls
      pure (.ifStmt pos cond thenBody elseBody)
  | .whileKw => do
      let cond ← parseCondition calls "Expected '(' after 'while'"
      let body ← calls .statement
      pure (.whileStmt pos cond body)
  | .forKw => do
      expect .lparen "Expected '(' after 'for'"
      let init ← parseUnless calls .semicolon
      expect .semicolon "Expected ';' after for init"
      let cond ← parseUnless calls .semicolon
      expect .semicolon "Expected ';' after for condition"
      let incr ← parseUnless calls .rparen
      expect .rparen "Expected ')' after for clauses"
      let body ← calls .statement
      pure (.forStmt pos init cond incr body)
  | .returnKw => do
      let value ← parseUnless calls .semicolon
      expect .semicolon "Expected ';' after return"
      pure (.returnStmt pos value)
  | .breakKw => do
      expect .semicolon "Expected ';' after break"
      pure (.breakStmt pos)
  | .continueKw => do
      expect .semicolon "Expected ';' after continue"
      pure (.continueStmt pos)
  | _ => pure .null

/-- `parse_statement`. -/
def parseStatement [Double D] (calls : Calls D) : Parse D (Ast D) := do
  let pos ← here
  let kind ← currentKind
  if kind = .lbrace then calls .block
  else if kind.opensStatement then do
    advance
    parseStatementRest calls pos kind
  else if kind.isType then calls .declaration
  else do
    let expr ← parseExpression calls
    expect .semicolon "Expected ';' after expression"
    pure (.exprStmt pos expr)

/-! ## Declarations -/

/-- The initial value of a variable. -/
def parseInit [Double D] (calls : Calls D) : Parse D (Ast D) := do
  if ← check .assign then do advance; parseExpression calls else pure .null

/-- The end of a function declaration, behind its parameters. -/
def parseBody [Double D] (calls : Calls D) : Parse D (Ast D) := do
  expect .rparen "Expected ')' after parameters"
  if ← check .lbrace then calls .block
  else do
    expect .semicolon "Expected ';' or function body"
    pure .null

/-- The name of a parameter. -/
def parseParamName [Double D] : Parse D (Option Chars) := do
  let token ← gets fun p => p.current
  if token.kind = .ident then do
    record (.readText token.kind token.pos)
    advance
    pure (some token.text)
  else pure none

/-- The loop over the parameters of a function, and what follows it. -/
def parseParameters [Double D] (calls : Calls D) (type : TypeSpec) (name : Chars)
    (params : List Param) (pos : Pos) : Parse D (Ast D) := do
  let paramType ← parseTypespec
  let paramName ← parseParamName
  record (.store .params params.length)
  if ← check .comma then do
    advance
    calls (.parameters type name (params ++ [⟨paramType, paramName⟩]) pos)
  else do
    let body ← parseBody calls
    pure (.funcDecl pos type name (params ++ [⟨paramType, paramName⟩]) body)

/-- The rest of a function declaration, behind the opening parenthesis. -/
def parseFunction [Double D] (calls : Calls D) (type : TypeSpec) (name : Chars) (pos : Pos) :
    Parse D (Ast D) := do
  if ← check .rparen then do
    let body ← parseBody calls
    pure (.funcDecl pos type name [] body)
  else calls (.parameters type name [] pos)

/-- The part of `parse_declaration` behind the type. -/
def parseDeclarator [Double D] (calls : Calls D) (type : TypeSpec) (pos : Pos) :
    Parse D (Ast D) := do
  expect .ident "Expected identifier"
  let name ← takeText
  if ← check .lparen then do
    advance
    parseFunction calls type name pos
  else do
    let init ← parseInit calls
    expect .semicolon "Expected ';' after variable declaration"
    pure (.varDecl pos type name init)

/-- `parse_declaration`. -/
def parseDeclaration [Double D] (calls : Calls D) : Parse D (Ast D) := do
  let pos ← here
  match ← parseTypespec with
  | none => pure .null
  | some type => parseDeclarator calls type pos

/-- The loop of `qd_cint_parse_program`, and what follows it. -/
def parseProgramLoop [Double D] (calls : Calls D) (stmts : List (Ast D)) : Parse D (Ast D) := do
  let p ← gets id
  if p.error.isSome then pure .null
  else if p.current.kind = .eof then pure (.block ⟨1, 1⟩ stmts)
  else do
    let decl ← calls .declaration
    record (.store .stmts stmts.length)
    calls (.program (stmts ++ [decl]))

/-! ## The knot -/

/-- The function of each goal. -/
def parseGoal [Double D] (calls : Calls D) : Goal D → Parse D (Ast D)
  | .primary => parsePrimary calls
  | .postfixExpr => parsePostfix calls
  | .postfixLoop expr => parsePostfixLoop calls expr
  | .arguments func args pos => parseArguments calls func args pos
  | .unary => parseUnary calls
  | .binary .factor => parseFactor calls
  | .binary .term => parseTerm calls
  | .binary .shift => parseShift calls
  | .binary .comparison => parseComparison calls
  | .binary .equality => parseEquality calls
  | .binary .bitand => parseBitand calls
  | .binary .bitxor => parseBitxor calls
  | .binary .bitor => parseBitor calls
  | .binary .and => parseAnd calls
  | .binary .or => parseOr calls
  | .binaryLoop level left => parseBinaryLoop level calls left
  | .ternary => parseTernary calls
  | .assignment => parseAssignment calls
  | .block => parseBlock calls
  | .blockLoop stmts pos => parseBlockLoop calls stmts pos
  | .statement => parseStatement calls
  | .declaration => parseDeclaration calls
  | .parameters type name params pos => parseParameters calls type name params pos
  | .program stmts => parseProgramLoop calls stmts

/-- The parsing functions with calls up to the given depth. -/
def run [Double D] : Nat → Calls D
  | 0 => fun _ => exhausted
  | depth + 1 => parseGoal (run depth)

/-! ## Public functions -/

/-- `qd_cint_parser_init`. -/
def Parser.init [Double D] (src : Chars) (length : Nat) : Option (Parser D) :=
  (Lexer.init src length).next.map fun (token, lex) =>
    { lex := lex
      current := token
      prev := ⟨.eof, .zero, .none⟩
      error := none
      log := [] }

/-- `qd_cint_parse_program`. -/
def parseProgram [Double D] (depth : Nat) : Parse D (Ast D) :=
  run depth (.program [])

/-- `qd_cint_parse_statement`. -/
def parseStatementTop [Double D] (depth : Nat) : Parse D (Ast D) :=
  run depth .statement

/-- `qd_cint_parse_expression`. -/
def parseExpressionTop [Double D] (depth : Nat) : Parse D (Ast D) :=
  run depth .assignment

/-- The text of an error, in an array of 256 bytes. -/
def ParseError.text (error : ParseError) : Chars :=
  ("Line ".toList ++ Nat.toDigits 10 error.pos.line ++ [':'] ++
    Nat.toDigits 10 error.pos.col ++ [':', ' '] ++ error.msg ++ " (got ".toList ++
    error.got.name ++ [')']).take 255

end QDaemon.Cint
