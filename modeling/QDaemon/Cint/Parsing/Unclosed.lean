import QDaemon.Cint.Parsing.Progress

/-!
# Texts without a semicolon and a closing brace

Every statement ends with one of the two: a block with the brace, and the others with a
semicolon or with another statement.  In a text that has neither the parser finds no end of a
statement, and it does not return from `parse_statement` without an error.
-/

namespace QDaemon.Cint

open Text Parse Lexer

variable {D : Type}

/-! ## Tokens -/

/-- The text has no semicolon and no closing brace. -/
def Unclosed (text : Chars) : Prop :=
  ';' ∉ text ∧ '\x7d' ∉ text

/-- The tokens that end statements. -/
def Kind.closes : Kind → Bool
  | .semicolon | .rbrace => true
  | _ => false

theorem Unclosed.of_subset {text part : Chars} (unclosed : Unclosed text) (subset : part ⊆ text) :
    Unclosed part :=
  ⟨fun member => unclosed.1 (subset member), fun member => unclosed.2 (subset member)⟩


theorem scanOperator_closes {first : Char} (lex : Lexer) (notSemicolon : first ≠ ';')
    (notBrace : first ≠ '\x7d') : (scanOperator first lex).1.closes = false := by
  unfold scanOperator
  split <;> first
    | exact choose_meets _ (P := (·.closes = false)) (by decide) (by decide)
    | rfl
    | contradiction
    | (split_ifs
       · exact choose_meets _ (P := (·.closes = false)) (by decide) (by decide)
       · exact choose_meets _ (P := (·.closes = false)) (by decide) (by decide))

theorem peek_mem {lex : Lexer} (nonempty : lex.rest ≠ []) : lex.peek ∈ lex.rest := by
  obtain ⟨first, rest, isCons⟩ := List.exists_cons_of_ne_nil nonempty
  simp [Lexer.peek, isCons]

theorem scanToken_closes [Double D] {lex : Lexer} (unclosed : Unclosed lex.rest) :
    (scanToken lex : Token D × Lexer).1.kind.closes = false := by
  rw [scanToken]
  split_ifs with atEnd digit string char ident
  · rfl
  · rw [scanNumber]
    dsimp only
    split_ifs <;> rfl
  · rfl
  · rfl
  · rw [scanIdent]
    split
    next found => exact of_lookup (P := (·.closes = false)) (by decide) found
    · rfl
  · have member := peek_mem atEnd
    apply scanOperator_closes
    · rintro same
      exact unclosed.1 (same ▸ member)
    · rintro same
      exact unclosed.2 (same ▸ member)

theorem next_closes [Double D] {lex after : Lexer} {token : Token D}
    (unclosed : Unclosed lex.rest) (read : lex.next = some (token, after)) :
    token.kind.closes = false ∧ Unclosed after.rest := by
  obtain ⟨start, skipped, isToken⟩ := Option.map_eq_some_iff.mp read
  have closes := scanToken_closes (D := D)
    (unclosed.of_subset (skipWhitespace_onward skipped).suffix.subset)
  rw [isToken] at closes
  exact ⟨closes, unclosed.of_subset (next_onward read).1.suffix.subset⟩

/-! ## The parser -/

section Parser

variable [Double D] {p next : Parser D} {α β : Type}

/-- Neither the current token nor the text that is left ends a statement. -/
structure Parser.Unclosed (p : Parser D) : Prop where
  clean : p.Clean
  rest : Cint.Unclosed p.lex.rest
  current : p.current.kind.closes = false

/-- The text stays without an end, and an error stays. -/
structure Persists (p next : Parser D) : Prop where
  unclosed : p.Unclosed → next.Unclosed
  error : p.error.isSome = true → next.error.isSome = true

omit [Double D] in
theorem Persists.refl (p : Parser D) : Persists p p := ⟨id, id⟩

omit [Double D] in
theorem Persists.trans {q : Parser D} (first : Persists p q) (second : Persists q next) :
    Persists p next :=
  ⟨fun unclosed => second.unclosed (first.unclosed unclosed),
    fun error => second.error (first.error error)⟩

theorem advance_persists (p : Parser D) : Persists p (advance p).2 := by
  constructor
  · intro unclosed
    have forward := (advance_forward p unclosed.clean).1
    obtain ⟨token, after, read, _⟩ := next_clean (D := D) unclosed.clean.lex
    obtain ⟨closes, rest⟩ := next_closes unclosed.rest read
    rw [advance, read] at forward ⊢
    exact ⟨forward, rest, closes⟩
  · intro reported
    rw [advance]
    split
    · exact reported
    · exact reported

omit [Double D] in
theorem record_persists (event : Event) (p : Parser D) : Persists p (record event p).2 :=
  ⟨fun unclosed => ⟨(record_still event p).clean unclosed.clean, unclosed.rest, unclosed.current⟩,
    id⟩

omit [Double D] in
theorem error_persists (msg : String) (p : Parser D) : Persists p (error msg p).2 := by
  have still := error_still msg p
  refine ⟨fun unclosed => ?_, fun _ => error_isSome msg p⟩
  exact ⟨still.clean unclosed.clean, still.lex ▸ unclosed.rest, still.current ▸ unclosed.current⟩

theorem RunProgram.persists {depth : Nat} {x : Parse D α} (program : RunProgram depth x)
    {value : α} (returned : x p = (some value, next)) : Persists p next := by
  apply program.related _ returned
  constructor
  · exact .refl
  · exact fun _ _ _ => .trans
  · exact fun event p _ => record_persists event p
  · exact advance_persists
  · exact error_persists

/-- In a text without an end the action does not return without an error. -/
def Fails (x : Parse D α) : Prop :=
  ∀ ⦃p value next⦄, p.Unclosed → x p = (some value, next) → next.error.isSome = true

theorem Fails.expect {kind : Kind} (closes : kind.closes = true) (msg : String) :
    Fails (D := D) (expect kind msg) := by
  intro p value next unclosed returned
  rw [Cint.expect, check, gets_bind] at returned
  split_ifs at returned with found
  · have same : p.current.kind = kind := by simpa using found
    have notClosed := unclosed.current
    rw [same, closes] at notClosed
    cases notClosed
  · have reported := error_isSome msg p
    rwa [returned] at reported

/-- The first part fails. -/
theorem Fails.then (depth : Nat) {x : Parse D α} {rest : α → Parse D β} (fails : Fails x)
    (program : ∀ value, RunProgram depth (rest value)) : Fails (x >>= rest) := by
  intro p value next unclosed returned
  obtain ⟨first, middle, ended, continued⟩ := bind_eq_some returned
  exact (RunProgram.persists (program first) continued).error (fails unclosed ended)

/-- What follows the first part fails. -/
theorem Fails.after (depth : Nat) {x : Parse D α} {rest : α → Parse D β}
    (program : RunProgram depth x) (fails : ∀ value, Fails (rest value)) : Fails (x >>= rest) := by
  intro p value next unclosed returned
  obtain ⟨first, middle, ended, continued⟩ := bind_eq_some returned
  exact fails first ((RunProgram.persists program ended).unclosed unclosed) continued

/-! ## Statements -/

/-- The functions that parse statements and declarations, to their ends. -/
def Goal.needsEnd : Goal D → Bool
  | .block | .blockLoop .. | .statement | .declaration | .parameters .. => true
  | _ => false

variable {depth : Nat} (ih : ∀ goal : Goal D, goal.needsEnd = true → Fails (run depth goal))

include ih

theorem blockLoop_fails (stmts : List (Ast D)) (pos : Pos) :
    Fails (parseBlockLoop (run depth) stmts pos) := by
  apply Fails.after depth .currentKind
  intro kind
  split_ifs
  · exact .then depth (.expect rfl _) fun _ => .pure _
  · apply Fails.after depth (.record trivial)
    intro _
    exact .then depth (ih .statement rfl) fun _ => .bind (.record trivial) fun _ => .call _

theorem body_fails : Fails (D := D) (parseBody (run depth)) := by
  apply Fails.after depth (.expect _ _)
  intro _
  apply Fails.after depth (.check _)
  intro found
  cases found
  · exact .then depth (.expect rfl _) fun _ => .pure _
  · exact ih .block rfl

theorem parameters_fails (type : TypeSpec) (name : Chars) (params : List Param) (pos : Pos) :
    Fails (D := D) (parseParameters (run depth) type name params pos) := by
  apply Fails.after depth (.typespec anyEvent)
  intro paramType
  apply Fails.after depth (.paramName anyEvent)
  intro paramName
  apply Fails.after depth (.record trivial)
  intro _
  apply Fails.after depth (.check _)
  intro found
  cases found
  · exact .then depth (body_fails ih) fun _ => .pure _
  · exact .after depth .advance fun _ => ih (.parameters ..) rfl

theorem declarator_fails (type : TypeSpec) (pos : Pos) :
    Fails (D := D) (parseDeclarator (run depth) type pos) := by
  apply Fails.after depth (.expect _ _)
  intro _
  apply Fails.after depth (.takeText anyEvent)
  intro name
  apply Fails.after depth (.check _)
  intro found
  cases found
  · apply Fails.after depth .init
    intro init
    exact .then depth (.expect rfl _) fun _ => .pure _
  · apply Fails.after depth .advance
    intro _
    apply Fails.after depth (.check _)
    intro closed
    cases closed
    · exact ih (.parameters ..) rfl
    · exact .then depth (body_fails ih) fun _ => .pure _

theorem declaration_fails : Fails (D := D) (parseDeclaration (run depth)) := by
  apply Fails.after depth .here
  intro pos p value next unclosed returned
  obtain ⟨type, middle, typed, rest⟩ := bind_eq_some returned
  cases type with
  | none =>
    cases rest
    obtain ⟨-, -, -, -, reported⟩ := (typespec_runs unclosed.clean : Runs _ _ True _).1 typed
    exact reported rfl
  | some type =>
    have persists := RunProgram.persists (.typespec anyEvent : RunProgram depth _) typed
    exact declarator_fails ih type pos (persists.unclosed unclosed) rest

theorem statementRest_fails (pos : Pos) {kind : Kind} (opens : kind.opensStatement = true) :
    Fails (D := D) (parseStatementRest (run depth) pos kind) := by
  rw [parseStatementRest.eq_def]
  split
  · apply Fails.after depth (.condition _)
    intro cond
    exact .then depth (ih .statement rfl) fun _ => .bind .elsePart fun _ => .pure _
  · apply Fails.after depth (.condition _)
    intro cond
    exact .then depth (ih .statement rfl) fun _ => .pure _
  · apply Fails.after depth (.expect _ _)
    intro _
    apply Fails.after depth (.unlessKind _)
    intro init
    exact .then depth (.expect rfl _) fun _ => .bind (.unlessKind _) fun _ =>
      .bind (.expect _ _) fun _ => .bind (.unlessKind _) fun _ => .bind (.expect _ _) fun _ =>
      .bind (.call _) fun _ => .pure _
  · apply Fails.after depth (.unlessKind _)
    intro value
    exact .then depth (.expect rfl _) fun _ => .pure _
  · exact .then depth (.expect rfl _) fun _ => .pure _
  · exact .then depth (.expect rfl _) fun _ => .pure _
  · cases kind <;> simp_all [Kind.opensStatement]

theorem statement_fails : Fails (D := D) (parseStatement (run depth)) := by
  apply Fails.after depth .here
  intro pos
  apply Fails.after depth .currentKind
  intro kind
  split_ifs with isBlock opens isType
  · exact ih .block rfl
  · exact .after depth .advance fun _ => statementRest_fails ih pos opens
  · exact ih .declaration rfl
  · apply Fails.after depth (.call .assignment)
    intro expr
    exact .then depth (.expect rfl _) fun _ => .pure _

omit ih in
/-- In a text without semicolons and closing braces no statement is parsed without an error. -/
theorem run_fails (depth : Nat) (goal : Goal D) (needsEnd : goal.needsEnd = true) :
    Fails (run depth goal) := by
  induction depth generalizing goal with
  | zero =>
    intro p value next unclosed returned
    cases returned
  | succ depth ih =>
    cases goal with
    | block =>
      apply Fails.after depth .here
      intro pos
      exact .after depth (.expect _ _) fun _ => ih (.blockLoop ..) rfl
    | blockLoop stmts pos => exact blockLoop_fails ih stmts pos
    | statement => exact statement_fails ih
    | declaration => exact declaration_fails ih
    | parameters type name params pos => exact parameters_fails ih type name params pos
    | _ => cases needsEnd

end Parser

end QDaemon.Cint
