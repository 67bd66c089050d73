import QDaemon.Cint.Parsing.Unclosed
import QDaemon.Cint.Session

/-!
# Calls from the shell

`qd_cint_call` of `qd_cli.c` writes the call of a native function as a text and hands it to
`qd_cint_eval`.  The text has no semicolon at its end, so that it is not a statement: every
call ends with a parse error, and no function is called.
-/

namespace QDaemon.Cint

open Option Text Eval

variable {D : Type}

/-! ## Registration -/

/-- The fields of `qd_cint_func_t` that calls read. -/
structure CintFunc where
  name : Chars
  numArgs : Nat
  deriving DecidableEq, Repr

/-- The part of `qd_cli_shell_t` for the interpreter. -/
structure Shell (D : Type) where
  funcs : List CintFunc
  eval : State D

/-- `qd_cint_eval_register_native`. -/
def State.registerNative (s : State D) (native : Native) : Int × State D :=
  if 256 ≤ s.natives.length then (-1, s) else (0, { s with natives := s.natives ++ [native] })

/-- `qd_cint_register`, which does not look at the status of the interpreter.  The type that
it is given for the result goes to its own table only. -/
def Shell.register (shell : Shell D) (name : Chars) (funcPtr numArgs : Nat) : Int × Shell D :=
  if 256 ≤ shell.funcs.length then (-1, shell)
  else
    (0, { funcs := shell.funcs ++ [⟨name, numArgs⟩]
          eval := (shell.eval.registerNative ⟨name, funcPtr, numArgs, .int⟩).2 })

/-! ## The text of a call -/

/-- `strcat` to `buf[1024]`, which has to hold the zero byte as well. -/
def strcat (buf text : Chars) : Option Chars :=
  if buf.length + text.length < 1024 then some (buf ++ text) else none

/-- `sizeof(buf) - strlen(buf) - 2`, of type `size_t`. -/
def spaceLeft (buf : Chars) : Nat :=
  (1024 + 2 ^ 64 - buf.length - 2) % 2 ^ 64

/-- The comma behind an argument, unless it is the last one. -/
def appendComma (buf : Chars) : List Chars → Option Chars
  | [] => some buf
  | _ :: _ => strcat buf ", ".toList

/-- The loop over the arguments. -/
def appendArgs : Chars → List Chars → Option Chars
  | buf, [] => some buf
  | buf, arg :: args => do
      let buf ← strcat buf (arg.take (spaceLeft buf))
      let buf ← appendComma buf args
      appendArgs buf args

/-- The text of the call, unless it overflows the buffer. -/
def callText (name : Chars) (argv : List Chars) : Option Chars := do
  let buf ← appendArgs ((name ++ ['(']).take 1023) argv
  strcat buf [')']

/-- `qd_cint_call`. -/
def cintCall [Double D] (depth : Nat) (funcs : List CintFunc) (name : Chars)
    (argv : List Chars) : Eval D Int :=
  match funcs.find? fun func => func.name = name with
  | none => do
      emit ("CINT: Function not found: ".toList ++ name ++ ['\n'])
      pure (-1)
  | some func =>
      if argv.length < func.numArgs then do
        emit ("CINT: Too few arguments for ".toList ++ name ++ " (expected ".toList ++
          Nat.toDigits 10 func.numArgs ++ ", got ".toList ++ Nat.toDigits 10 argv.length ++
          ")\n".toList)
        pure (-1)
      else
        match callText name argv with
        | none => fault .overflow
        | some text => cintEval depth text

/-! ## Calls never work -/

/-- An integer in decimal digits. -/
def IsDecimal (text : Chars) : Prop :=
  ∃ digits : Chars, digits ≠ [] ∧ (∀ digit ∈ digits, digit.isDigit = true) ∧
    (text = digits ∨ text = '-' :: digits)

/-- Its value. -/
def decimalValue : Chars → Int
  | '-' :: digits => -Nat.ofDigitChars 10 digits 0
  | digits => Nat.ofDigitChars 10 digits 0

/-- The call reports success, and it has called the function once, with the values of the
arguments (and zeros for the parameters that it does not have). -/
def Shell.CallWorks [Double D] (shell : Shell D) (depth : Nat) (name : Chars)
    (argv : List Chars) : Prop :=
  let result := cintCall depth shell.funcs name argv shell.eval
  result.1 = .done 0 ∧
    (result.2.log.drop shell.eval.log.length).filter (fun event => event matches .nativeCall ..) =
      [.nativeCall name
        ((argv.map fun arg => BitVec.ofInt 64 (decimalValue arg)) ++ List.replicate 4 0 |>.take 4)]

theorem Unclosed.append {first second : Chars} (left : Unclosed first) (right : Unclosed second) :
    Unclosed (first ++ second) :=
  ⟨fun member => (List.mem_append.mp member).elim left.1 right.1,
    fun member => (List.mem_append.mp member).elim left.2 right.2⟩

variable {text : Chars}

theorem IsDecimal.unclosed (decimal : IsDecimal text) : Unclosed text := by
  obtain ⟨digits, _, isDigits, isText⟩ := decimal
  have unclosed : Unclosed digits :=
    ⟨fun member => absurd (isDigits _ member) (by decide),
      fun member => absurd (isDigits _ member) (by decide)⟩
  rcases isText with rfl | rfl
  · exact unclosed
  · have minus : Unclosed ['-'] := ⟨by decide, by decide⟩
    exact minus.append unclosed

theorem strcat_unclosed {buf result : Chars} (left : Unclosed buf) (right : Unclosed text)
    (appended : strcat buf text = some result) : Unclosed result := by
  rw [strcat] at appended
  split_ifs at appended
  cases appended
  exact left.append right

variable {argv : List Chars}

theorem appendArgs_unclosed {buf result : Chars} (unclosed : Unclosed buf)
    (args : ∀ arg ∈ argv, Unclosed arg) (appended : appendArgs buf argv = some result) :
    Unclosed result := by
  induction argv generalizing buf with
  | nil =>
    cases appended
    exact unclosed
  | cons arg argv ih =>
    obtain ⟨first, isFirst, rest⟩ := bind_eq_some_iff.mp appended
    obtain ⟨second, isSecond, last⟩ := bind_eq_some_iff.mp rest
    have withArg : Unclosed first := strcat_unclosed unclosed
      ((args arg List.mem_cons_self).of_subset (List.take_subset _ _)) isFirst
    have withComma : Unclosed second := by
      cases argv with
      | nil =>
        cases isSecond
        exact withArg
      | cons next argv =>
        have comma : Unclosed ", ".toList := ⟨by decide, by decide⟩
        exact strcat_unclosed withArg comma isSecond
    exact ih withComma (fun arg member => args arg (List.mem_cons_of_mem _ member)) last

theorem callText_unclosed {name : Chars} (nameUnclosed : Unclosed name)
    (args : ∀ arg ∈ argv, Unclosed arg) (isText : callText name argv = some text) :
    Unclosed text := by
  obtain ⟨buf, isBuf, last⟩ := bind_eq_some_iff.mp isText
  have parenthesis : Unclosed ['('] := ⟨by decide, by decide⟩
  have start := (nameUnclosed.append parenthesis).of_subset (List.take_subset 1023 _)
  have close : Unclosed [')'] := ⟨by decide, by decide⟩
  exact strcat_unclosed (appendArgs_unclosed start args isBuf) close last

section Rejection

variable [Double D]

/-- The parser starts on a text without semicolon with a token that is none. -/
theorem init_unclosed (unclosed : Unclosed text) {p : Parser D}
    (started : Parser.init text 0 = some p) : p.Unclosed := by
  obtain ⟨again, isStart, clean, _⟩ := init_clean (D := D) text
  rw [started] at isStart
  cases isStart
  have lexUnclosed : Unclosed (Lexer.init text 0).rest :=
    unclosed.of_subset (List.takeWhile_subset _)
  obtain ⟨⟨token, after⟩, read, isParser⟩ := map_eq_some_iff.mp started
  obtain ⟨closes, rest⟩ := next_closes lexUnclosed read
  subst isParser
  exact ⟨clean, rest, closes⟩

/-- Such a text is not a statement. -/
theorem parseText_unclosed (depth : Nat) (unclosed : Unclosed text) (ast : Ast D) :
    parseText .statement depth text 0 ≠ .tree ast := by
  intro parsed
  rw [parseText] at parsed
  split at parsed
  · cases parsed
  · next p started =>
      split at parsed
      · cases parsed
      · next tree last returned =>
          have reported := run_fails depth .statement rfl (init_unclosed unclosed started) returned
          split at parsed
          · cases parsed
          · next noError =>
              rw [noError] at reported
              cases reported

theorem cintEval_unclosed (depth : Nat) (unclosed : Unclosed text) (s : State D) :
    (cintEval depth text s).1 ≠ .done 0 ∧ (cintEval depth text s).2.log = s.log := by
  rw [cintEval]
  cases parsed : (parseText .statement depth text 0 : Parsed D) with
  | unfinished => exact ⟨nofun, rfl⟩
  | failed error =>
    have failure : (Outcome.done (-1) : Outcome Int) ≠ .done 0 := by simp
    exact ⟨failure, rfl⟩
  | tree ast => exact absurd parsed (parseText_unclosed depth unclosed ast)

/-- No way through the function reports success or evaluates anything. -/
theorem cintCall_unclosed (depth : Nat) (funcs : List CintFunc) {name : Chars}
    (nameUnclosed : Unclosed name) (args : ∀ arg ∈ argv, Unclosed arg) (s : State D) :
    (cintCall depth funcs name argv s).1 ≠ .done 0 ∧
      (cintCall depth funcs name argv s).2.log = s.log := by
  have failure : (Outcome.done (-1) : Outcome Int) ≠ .done 0 := by simp
  rw [cintCall]
  cases funcs.find? (fun func => func.name = name) with
  | none => exact ⟨failure, rfl⟩
  | some func =>
    dsimp only
    split_ifs with few
    · exact ⟨failure, rfl⟩
    · cases isText : callText name argv with
      | none => exact ⟨nofun, rfl⟩
      | some text => exact cintEval_unclosed depth (callText_unclosed nameUnclosed args isText) s

/-- Whatever is registered and whatever has been evaluated before, no call with decimal
arguments works. -/
theorem callWorks_never (shell : Shell D) (depth : Nat) (name : Chars) (argv : List Chars)
    (nameUnclosed : Unclosed name) (decimals : ∀ arg ∈ argv, IsDecimal arg) :
    ¬ shell.CallWorks depth name argv := by
  intro works
  have rejected := cintCall_unclosed depth shell.funcs nameUnclosed
    (fun arg member => (decimals arg member).unclosed) shell.eval
  exact rejected.1 works.1

end Rejection

/-- A shell with a function `add` of two parameters. -/
def addShell : Shell Int :=
  (Shell.register ⟨[], State.create fun _ first second _ _ => first + second⟩ "add".toList 0 2).2

theorem callWorks_never_add : (Unclosed "add".toList ∧ ∀ arg ∈ [['1'], ['2']], IsDecimal arg) ∧
      ¬ addShell.CallWorks 60 "add".toList [['1'], ['2']] := by
  have name : Unclosed "add".toList := ⟨by decide, by decide⟩
  have decimals : ∀ arg ∈ [['1'], ['2']], IsDecimal arg := by
    intro arg member
    have digit : arg = ['1'] ∨ arg = ['2'] := by simpa using member
    rcases digit with rfl | rfl
    · exact ⟨['1'], by simp, by simp, .inl rfl⟩
    · exact ⟨['2'], by simp, by simp, .inl rfl⟩
  exact ⟨⟨name, decimals⟩, callWorks_never addShell 60 _ _ name decimals⟩

/-- The call `add 1 2` is the text `add(1, 2)`, which fails and calls nothing; with a semicolon
behind it the text calls the function with 1 and 2. -/
theorem call_without_semicolon : callText "add".toList [['1'], ['2']] = some "add(1, 2)".toList ∧
      (cintCall 60 addShell.funcs "add".toList [['1'], ['2']] addShell.eval).1 = .done (-1) ∧
      (cintCall 60 addShell.funcs "add".toList [['1'], ['2']] addShell.eval).2.log = [] ∧
      (cintEval 60 "add(1, 2);".toList addShell.eval).1 = .done 0 ∧
      (cintEval 60 "add(1, 2);".toList addShell.eval).2.log.filter
        (fun event => event matches .nativeCall ..) = [.nativeCall "add".toList [1, 2, 0, 0]] := by
  decide +kernel

end QDaemon.Cint
