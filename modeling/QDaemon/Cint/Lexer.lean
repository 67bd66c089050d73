import QDaemon.Cint.Syntax

/-!
# The lexer

`qd_cint_lexer.c`.  The state is the text from `pos` to `end` with the line and the column
of its start.  A zero byte and the end look alike to `peek`, and `advance` stays at both;
a zero byte in a block comment keeps its loop going for ever, where there is no next state.
-/

namespace QDaemon.Cint

open Text

/-- `qd_cint_lexer_t`. -/
structure Lexer where
  rest : Chars
  pos : Pos
  deriving DecidableEq

namespace Lexer

/-- `qd_cint_lexer_init`.  A length of zero stands for that of the string. -/
def init (src : Chars) (length : Nat) : Lexer :=
  ⟨if length = 0 then cString src else src.take length, ⟨1, 1⟩⟩

/-- `peek`. -/
def peek (lex : Lexer) : Char :=
  lex.rest.head?.getD '\x00'

/-- `peek_next`. -/
def peekNext (lex : Lexer) : Char :=
  lex.rest.tail.head?.getD '\x00'

/-- `advance`. -/
def advance (lex : Lexer) : Lexer :=
  match lex.rest with
  | [] => lex
  | char :: rest =>
      if char = '\x00' then lex
      else if char = '\n' then ⟨rest, ⟨lex.pos.line + 1, 1⟩⟩
      else ⟨rest, ⟨lex.pos.line, lex.pos.col + 1⟩⟩

/-- `advance` so many times. -/
def consume : Nat → Lexer → Lexer
  | 0, lex => lex
  | count + 1, lex => consume count lex.advance

/-- The characters that a loop `while (test(peek(lex))) advance(lex)` passes. -/
def run (test : Char → Bool) (lex : Lexer) : Chars :=
  lex.rest.takeWhile fun char => test char && char ≠ '\x00'

/-- Such a loop. -/
def skipWhile (test : Char → Bool) (lex : Lexer) : Lexer :=
  consume (lex.run test).length lex

/-- How many characters the loop of a block comment passes, unless it does not end. -/
def blockLength : Chars → Option Nat
  | [] => some 0
  | '*' :: '/' :: _ => some 2
  | char :: rest => if char = '\x00' then none else (blockLength rest).map (· + 1)

/-- `skip_whitespace`.  Each round passes a character at least. -/
def skipWhitespace : Nat → Lexer → Option Lexer
  | 0, _ => none
  | rounds + 1, lex =>
      if lex.rest = [] then some lex
      else if isspace lex.peek then skipWhitespace rounds lex.advance
      else if lex.peek = '/' ∧ lex.peekNext = '/' then
        skipWhitespace rounds (lex.skipWhile (· ≠ '\n'))
      else if lex.peek = '/' ∧ lex.peekNext = '*' then
        (blockLength (lex.rest.drop 2)).bind fun length =>
          skipWhitespace rounds (consume (2 + length) lex)
      else some lex

end Lexer

/-! ## Scanners -/

def quote : Char := '\x22'
def apostrophe : Char := '\x27'
def backslash : Char := '\x5c'

variable {D : Type}

/-- `make_token`. -/
def makeToken (lex : Lexer) (kind : Kind) (value : TokenValue D) : Token D :=
  ⟨kind, value, lex.pos⟩

def isHex (lex : Lexer) : Bool :=
  lex.peek = '0' && (lex.peekNext = 'x' || lex.peekNext = 'X')

/-- The fraction of a number. -/
def scanFraction (lex : Lexer) : Lexer :=
  if lex.peek = '.' then lex.advance.skipWhile Char.isDigit else lex

/-- The exponent of a number. -/
def scanExponent (lex : Lexer) : Lexer :=
  if lex.peek = 'e' ∨ lex.peek = 'E' then
    let lex := lex.advance
    let lex := if lex.peek = '+' ∨ lex.peek = '-' then lex.advance else lex
    lex.skipWhile Char.isDigit
  else lex

/-- `scan_number`. -/
def scanNumber [Double D] (lex : Lexer) : Token D × Lexer :=
  if isHex lex then
    let after := lex.advance.advance.skipWhile isxdigit
    (makeToken lex .int (.int (strtoll 16 (lex.advance.advance.run isxdigit))), after)
  else
    let whole := lex.skipWhile Char.isDigit
    let after := scanExponent (scanFraction whole)
    let text := lex.rest.take (lex.rest.length - after.rest.length)
    if whole.peek = '.' ∨ (scanFraction whole).peek = 'e' ∨ (scanFraction whole).peek = 'E' then
      (makeToken lex .float (.float (Double.strtod text)), after)
    else if text.head? = some '0' ∧ 1 < text.length then
      (makeToken lex .int (.int (strtoll 8 text)), after)
    else (makeToken lex .int (.int (strtoll 10 text)), after)

/-- The escapes that strings and characters share. -/
def unescape (char : Char) : Char :=
  match char with
  | 'n' => '\n'
  | 't' => '\t'
  | 'r' => '\r'
  | '0' => '\x00'
  | other => other

/-- The loop of `scan_string`, behind the opening quote: the characters and what is left at
the closing quote. -/
def scanStringLoop : Nat → Lexer → Chars × Lexer
  | 0, lex => ([], lex)
  | rounds + 1, lex =>
      if lex.peek = '\x00' ∨ lex.peek = quote then ([], lex)
      else
        let next := lex.advance
        let (char, next) :=
          if lex.peek = backslash then (unescape next.peek, next.advance) else (lex.peek, next)
        let (chars, last) := scanStringLoop rounds next
        (char :: chars, last)

/-- `scan_string`. -/
def scanString (lex : Lexer) : Token D × Lexer :=
  let (chars, last) := scanStringLoop lex.rest.length lex.advance
  (makeToken lex .string (.text chars), last.advance)

/-- `scan_char`. -/
def scanChar (lex : Lexer) : Token D × Lexer :=
  let first := lex.advance
  let (char, next) :=
    if first.peek = backslash then (unescape first.advance.peek, first.advance.advance)
    else (first.peek, first.advance)
  (makeToken lex .char (.char char), next.advance)

def isIdentStart (char : Char) : Bool :=
  char.isAlpha || char = '_'

def isIdentChar (char : Char) : Bool :=
  char.isAlphanum || char = '_'

/-- `keywords`. -/
def keywords : List (Chars × Kind) :=
  [("if".toList, .ifKw), ("else".toList, .elseKw), ("while".toList, .whileKw),
    ("for".toList, .forKw), ("do".toList, .doKw), ("switch".toList, .switchKw),
    ("case".toList, .caseKw), ("default".toList, .defaultKw), ("break".toList, .breakKw),
    ("continue".toList, .continueKw), ("return".toList, .returnKw), ("goto".toList, .gotoKw),
    ("void".toList, .voidKw), ("int".toList, .intKw), ("char".toList, .charKw),
    ("short".toList, .shortKw), ("long".toList, .longKw), ("float".toList, .floatKw),
    ("double".toList, .doubleKw), ("signed".toList, .signedKw), ("unsigned".toList, .unsignedKw),
    ("struct".toList, .structKw), ("union".toList, .unionKw), ("enum".toList, .enumKw),
    ("typedef".toList, .typedefKw), ("const".toList, .constKw), ("static".toList, .staticKw),
    ("extern".toList, .externKw), ("sizeof".toList, .sizeofKw)]

/-- `scan_ident`. -/
def scanIdent (lex : Lexer) : Token D × Lexer :=
  let name := lex.run isIdentChar
  let after := lex.skipWhile isIdentChar
  match keywords.lookup name with
  | some kind => (makeToken lex kind .zero, after)
  | none => (makeToken lex .ident (.text name), after)

/-- The first of the given characters that comes next makes its token, else the last kind. -/
def choose (lex : Lexer) (options : List (Char × Kind)) (otherwise : Kind) : Kind × Lexer :=
  match options.lookup lex.peek with
  | some kind => (kind, lex.advance)
  | none => (otherwise, lex)

/-- The `switch` of `qd_cint_lexer_next`, behind the first character. -/
def scanOperator (first : Char) (lex : Lexer) : Kind × Lexer :=
  match first with
  | '+' => choose lex [('+', .inc), ('=', .plusEq)] .plus
  | '-' => choose lex [('-', .dec), ('=', .minusEq), ('>', .arrow)] .minus
  | '*' => choose lex [('=', .starEq)] .star
  | '/' => choose lex [('=', .slashEq)] .slash
  | '%' => choose lex [('=', .percentEq)] .percent
  | '=' => choose lex [('=', .eq)] .assign
  | '!' => choose lex [('=', .ne)] .not
  | '<' =>
      if lex.peek = '<' then choose lex.advance [('=', .lshiftEq)] .lshift
      else choose lex [('=', .le)] .lt
  | '>' =>
      if lex.peek = '>' then choose lex.advance [('=', .rshiftEq)] .rshift
      else choose lex [('=', .ge)] .gt
  | '&' => choose lex [('&', .and), ('=', .bandEq)] .band
  | '|' => choose lex [('|', .or), ('=', .borEq)] .bor
  | '^' => choose lex [('=', .bxorEq)] .bxor
  | '~' => (.bnot, lex)
  | '?' => (.question, lex)
  | ':' => (.colon, lex)
  | '.' => (.dot, lex)
  | '(' => (.lparen, lex)
  | ')' => (.rparen, lex)
  | '{' => (.lbrace, lex)
  | '}' => (.rbrace, lex)
  | '[' => (.lbracket, lex)
  | ']' => (.rbracket, lex)
  | ';' => (.semicolon, lex)
  | ',' => (.comma, lex)
  | _ => (.error, lex)

/-- `qd_cint_lexer_next` behind the whitespace. -/
def scanToken [Double D] (lex : Lexer) : Token D × Lexer :=
  if lex.rest = [] then (makeToken lex .eof .zero, lex)
  else if lex.peek.isDigit then scanNumber lex
  else if lex.peek = quote then scanString lex
  else if lex.peek = apostrophe then scanChar lex
  else if isIdentStart lex.peek then scanIdent lex
  else
    let (kind, after) := scanOperator lex.peek lex.advance
    (makeToken lex kind .zero, after)

/-- `qd_cint_lexer_next`. -/
def Lexer.next [Double D] (lex : Lexer) : Option (Token D × Lexer) :=
  (skipWhitespace (lex.rest.length + 1) lex).map scanToken

end QDaemon.Cint
