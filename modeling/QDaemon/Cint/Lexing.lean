import QDaemon.Cint.Lexer

/-!
# Progress of the lexer

On a text without zero bytes every call returns a token, leaves a suffix of the text, and
passes at least one character unless it is at the end.  A zero byte is never passed, so that
a text that has one is never read to its end.
-/

namespace QDaemon.Cint

open List Text

variable {D : Type}

namespace Lexer

/-- There is no zero byte in what is left. -/
def Clean (lex : Lexer) : Prop :=
  '\x00' ∉ lex.rest

/-- Some characters have been passed. -/
def Onward (lex after : Lexer) : Prop :=
  ∃ count, after = consume count lex

variable {lex : Lexer}

variable (clean : lex.Clean)
include clean

theorem Clean.of_suffix {after : Lexer} (suffix : after.rest <:+ lex.rest) : after.Clean :=
  fun zero => clean (suffix.subset zero)

/-! ## Passing characters -/

theorem advance_rest : lex.advance.rest = lex.rest.tail := by
  obtain ⟨rest, pos⟩ := lex
  cases rest with
  | nil => rfl
  | cons char rest =>
    have notZero : char ≠ '\x00' := by
      rintro rfl
      exact clean mem_cons_self
    rw [advance]
    dsimp only
    rw [if_neg notZero]
    split_ifs <;> rfl

section

omit clean

theorem Onward.refl (lex : Lexer) : Onward lex lex := ⟨0, rfl⟩

theorem onward_advance (lex : Lexer) : Onward lex lex.advance := ⟨1, rfl⟩

theorem onward_skipWhile (test : Char → Bool) (lex : Lexer) : Onward lex (lex.skipWhile test) :=
  ⟨_, rfl⟩

theorem Onward.trans {middle after : Lexer} (first : Onward lex middle)
    (second : Onward middle after) : Onward lex after := by
  obtain ⟨count, rfl⟩ := first
  obtain ⟨more, rfl⟩ := second
  refine ⟨count + more, ?_⟩
  induction count generalizing lex with
  | zero => rw [Nat.zero_add, consume]
  | succ count ih => rw [consume, ih, Nat.succ_add, consume]

/-- A character is passed, unless it is a zero byte. -/
theorem advance_cases (lex : Lexer) : lex.advance = lex ∨
    ∃ char rest, lex.rest = char :: rest ∧ char ≠ '\x00' ∧ lex.advance.rest = rest := by
  obtain ⟨rest, pos⟩ := lex
  cases rest with
  | nil => exact .inl rfl
  | cons char rest =>
    rw [advance]
    dsimp only
    split_ifs with zero
    · exact .inl rfl
    · exact .inr ⟨char, rest, rfl, zero, rfl⟩
    · exact .inr ⟨char, rest, rfl, zero, rfl⟩

theorem Onward.suffix {after : Lexer} (onward : Onward lex after) : after.rest <:+ lex.rest := by
  obtain ⟨count, rfl⟩ := onward
  induction count generalizing lex with
  | zero => exact suffix_refl _
  | succ count ih =>
    refine ih.trans ?_
    rcases advance_cases lex with same | ⟨char, rest, isCons, -, passed⟩
    · rw [same]
    · rw [passed, isCons]
      exact suffix_cons char rest

/-- A zero byte is not passed. -/
theorem Onward.not_clean {after : Lexer} (onward : Onward lex after) (zero : ¬ lex.Clean) :
    ¬ after.Clean := by
  obtain ⟨count, rfl⟩ := onward
  induction count generalizing lex with
  | zero => exact zero
  | succ count ih =>
    apply ih
    rcases advance_cases lex with same | ⟨char, rest, isCons, notZero, passed⟩
    · rwa [same]
    · rw [Clean, isCons, mem_cons, not_or] at zero
      rw [Clean, passed]
      exact fun clean => zero ⟨notZero.symm, clean⟩

end

theorem consume_rest (count : Nat) : (consume count lex).rest = lex.rest.drop count := by
  induction count generalizing lex with
  | zero => rfl
  | succ count ih =>
    rw [consume, ih (clean.of_suffix (onward_advance lex).suffix), advance_rest clean,
      ← drop_one, drop_drop, Nat.add_comm]

/-- One character is passed where there is one. -/
theorem advance_length (nonempty : lex.rest ≠ []) : lex.advance.rest.length < lex.rest.length := by
  rw [advance_rest clean, length_tail]
  have positive := length_pos_of_ne_nil nonempty
  omega

omit clean in
/-- A loop whose test holds at the first character passes it. -/
theorem skipWhile_passes {test : Char → Bool} (first : test lex.peek = true)
    (notZero : lex.peek ≠ '\x00') : Onward lex.advance (lex.skipWhile test) := by
  obtain ⟨rest, pos⟩ := lex
  cases rest with
  | nil => exact absurd rfl notZero
  | cons char rest =>
    rw [skipWhile, run]
    rw [takeWhile_cons_of_pos (by simpa using ⟨first, notZero⟩)]
    exact ⟨_, rfl⟩

/-! ## Whitespace -/

omit clean in
theorem blockLength_clean {text : Chars} (clean : '\x00' ∉ text) :
    ∃ length, blockLength text = some length := by
  fun_induction blockLength text with
  | case1 => exact ⟨0, rfl⟩
  | case2 => exact ⟨2, rfl⟩
  | case3 rest => exact absurd mem_cons_self clean
  | case4 char rest _ _ ih =>
    rw [mem_cons, not_or] at clean
    obtain ⟨length, passed⟩ := ih clean.2
    exact ⟨length + 1, by rw [passed]; rfl⟩

omit clean in
theorem skipWhitespace_onward {rounds : Nat} {after : Lexer}
    (skipped : skipWhitespace rounds lex = some after) : Onward lex after := by
  induction rounds generalizing lex with
  | zero => cases skipped
  | succ rounds ih =>
    rw [skipWhitespace] at skipped
    split_ifs at skipped
    · cases skipped
      exact .refl _
    · exact (onward_advance lex).trans (ih skipped)
    · exact (onward_skipWhile _ lex).trans (ih skipped)
    · obtain ⟨length, -, rest⟩ := Option.bind_eq_some_iff.mp skipped
      exact Onward.trans ⟨_, rfl⟩ (ih rest)
    · cases skipped
      exact .refl _

/-- With enough rounds the whitespace is skipped. -/
theorem skipWhitespace_clean {rounds : Nat} (enough : lex.rest.length < rounds) :
    ∃ after, skipWhitespace rounds lex = some after := by
  induction rounds generalizing lex with
  | zero => exact absurd enough (Nat.not_lt_zero _)
  | succ rounds ih =>
    -- Whatever is skipped in this round, the rest is skipped in the others.
    have goOn : ∀ next : Lexer, Onward lex next → next.rest.length < lex.rest.length →
        ∃ after, skipWhitespace rounds next = some after :=
      fun next onward shorter => ih (clean.of_suffix onward.suffix) (by omega)
    rw [skipWhitespace]
    split_ifs with atEnd space line block
    · exact ⟨lex, rfl⟩
    · exact goOn _ (onward_advance lex) (advance_length clean atEnd)
    · have passed : Onward lex.advance (lex.skipWhile (· ≠ '\n')) := by
        apply skipWhile_passes
        · rw [line.1]
          rfl
        · rw [line.1]
          decide
      exact goOn _ (onward_skipWhile _ lex)
        (passed.suffix.length_le.trans_lt (advance_length clean atEnd))
    · have inner : '\x00' ∉ lex.rest.drop 2 := fun zero => clean (mem_of_mem_drop zero)
      obtain ⟨length, passed⟩ := blockLength_clean inner
      rw [passed]
      apply goOn _ ⟨_, rfl⟩
      rw [consume_rest clean, length_drop]
      have positive := length_pos_of_ne_nil atEnd
      omega
    · exact ⟨lex, rfl⟩

end Lexer

open Lexer

/-! ## Tokens -/

theorem scanFraction_onward (lex : Lexer) : Onward lex (scanFraction lex) := by
  rw [scanFraction]
  split_ifs
  · exact (onward_advance lex).trans (onward_skipWhile _ _)
  · exact .refl lex

theorem scanExponent_onward (lex : Lexer) : Onward lex (scanExponent lex) := by
  rw [scanExponent]
  dsimp only
  split_ifs
  · exact ((onward_advance lex).trans (onward_advance _)).trans (onward_skipWhile _ _)
  · exact (onward_advance lex).trans (onward_skipWhile _ _)
  · exact .refl lex

theorem scanNumber_spec [Double D] {lex : Lexer} (digit : lex.peek.isDigit = true) :
    (scanNumber lex : Token D × Lexer).1.kind ≠ .eof ∧
      Onward lex.advance (scanNumber lex : Token D × Lexer).2 := by
  have notZero : lex.peek ≠ '\x00' := by
    rintro zero
    rw [zero] at digit
    cases digit
  have decimal := ((skipWhile_passes digit notZero).trans (scanFraction_onward _)).trans
    (scanExponent_onward _)
  rw [scanNumber]
  dsimp only
  split_ifs
  · exact ⟨by simp [makeToken], (onward_advance _).trans (onward_skipWhile _ _)⟩
  · exact ⟨by simp [makeToken], decimal⟩
  · exact ⟨by simp [makeToken], decimal⟩
  · exact ⟨by simp [makeToken], decimal⟩

theorem scanStringLoop_onward (rounds : Nat) (lex : Lexer) :
    Onward lex (scanStringLoop rounds lex).2 := by
  induction rounds generalizing lex with
  | zero => exact .refl lex
  | succ rounds ih =>
    rw [scanStringLoop]
    split_ifs
    · exact .refl lex
    · exact ((onward_advance lex).trans (onward_advance _)).trans (ih _)
    · exact (onward_advance lex).trans (ih _)

/-- What holds of every kind in a table holds of the one that is found. -/
theorem of_lookup {α : Type} [BEq α] [LawfulBEq α] {table : List (α × Kind)} {key : α}
    {kind : Kind} {P : Kind → Prop} (all : ∀ entry ∈ table, P entry.2)
    (found : table.lookup key = some kind) : P kind := by
  obtain ⟨before, after, whole, _⟩ := lookup_eq_some_iff.mp found
  exact all (key, kind) (by rw [whole]; simp)

theorem choose_onward (lex : Lexer) (options : List (Char × Kind)) (otherwise : Kind) :
    Onward lex (choose lex options otherwise).2 := by
  rw [choose]
  split
  · exact onward_advance lex
  · exact .refl lex

theorem choose_meets (lex : Lexer) {P : Kind → Prop} {options : List (Char × Kind)}
    {otherwise : Kind} (all : ∀ entry ∈ options, P entry.2) (last : P otherwise) :
    P (choose lex options otherwise).1 := by
  rw [choose]
  split
  next kind found => exact of_lookup all found
  · exact last

theorem scanOperator_spec (first : Char) (lex : Lexer) :
    (scanOperator first lex).1 ≠ .eof ∧ Onward lex (scanOperator first lex).2 := by
  have chosen (start : Lexer) (onward : Onward lex start) {options : List (Char × Kind)}
      {otherwise : Kind} (all : ∀ entry ∈ options, entry.2 ≠ .eof) (last : otherwise ≠ .eof) :
      (choose start options otherwise).1 ≠ .eof ∧ Onward lex (choose start options otherwise).2 :=
    ⟨choose_meets start (P := (· ≠ .eof)) all last, onward.trans (choose_onward _ _ _)⟩
  unfold scanOperator
  split <;> first
    | exact chosen lex (.refl lex) (by decide) (by decide)
    | exact ⟨nofun, .refl lex⟩
    | (split_ifs
       · exact chosen lex.advance (onward_advance lex) (by decide) (by decide)
       · exact chosen lex (.refl lex) (by decide) (by decide))

/-- Where there is a character, a token is made of it. -/
theorem scanToken_spec [Double D] {lex : Lexer} (nonempty : lex.rest ≠ []) :
    (scanToken lex : Token D × Lexer).1.kind ≠ .eof ∧
      Onward lex.advance (scanToken lex : Token D × Lexer).2 := by
  rw [scanToken, if_neg nonempty]
  split_ifs with digit string char ident
  · exact scanNumber_spec digit
  · exact ⟨by simp [scanString, makeToken], (scanStringLoop_onward _ _).trans (onward_advance _)⟩
  · rw [scanChar]
    split_ifs
    · exact ⟨by simp [makeToken],
        ((onward_advance _).trans (onward_advance _)).trans (onward_advance _)⟩
    · exact ⟨by simp [makeToken], (onward_advance _).trans (onward_advance _)⟩
  · have start : isIdentChar lex.peek = true := by
      rw [isIdentStart, Bool.or_eq_true] at ident
      rw [isIdentChar, Bool.or_eq_true, Char.isAlphanum, Bool.or_eq_true]
      exact ident.imp_left .inl
    have notZero : lex.peek ≠ '\x00' := by
      rintro zero
      rw [zero] at start
      cases start
    have passed := skipWhile_passes start notZero
    rw [scanIdent]
    split
    next kind found => exact ⟨of_lookup (P := (· ≠ .eof)) (by decide) found, passed⟩
    · exact ⟨by simp [makeToken], passed⟩
  · obtain ⟨notEof, onward⟩ := scanOperator_spec lex.peek lex.advance
    exact ⟨notEof, onward⟩

/-- A call that returns has passed some characters, and all of them at the end. -/
theorem next_onward [Double D] {lex after : Lexer} {token : Token D}
    (read : lex.next = some (token, after)) :
    Onward lex after ∧ (token.kind = .eof → after.rest = []) := by
  obtain ⟨start, skipped, scanned⟩ := Option.map_eq_some_iff.mp read
  have toStart := skipWhitespace_onward skipped
  by_cases atEnd : start.rest = []
  · rw [scanToken, if_pos atEnd] at scanned
    cases scanned
    exact ⟨toStart, fun _ => atEnd⟩
  · obtain ⟨notEof, onward⟩ := scanToken_spec (D := D) atEnd
    rw [scanned] at notEof onward
    exact ⟨(toStart.trans (onward_advance start)).trans onward, fun isEof => absurd isEof notEof⟩

/-- Every call returns, and before the end it passes a character at least. -/
theorem next_clean [Double D] {lex : Lexer} (clean : lex.Clean) :
    ∃ (token : Token D) (after : Lexer), lex.next = some (token, after) ∧
      (token.kind ≠ .eof → after.rest.length < lex.rest.length) := by
  obtain ⟨start, skipped⟩ := skipWhitespace_clean clean (Nat.lt_succ_self _)
  have suffix := (skipWhitespace_onward skipped).suffix
  refine ⟨(scanToken start).1, (scanToken start).2, by rw [Lexer.next, skipped]; rfl, ?_⟩
  intro notEof
  by_cases atEnd : start.rest = []
  · rw [scanToken, if_pos atEnd] at notEof
    exact absurd rfl notEof
  · have passed := (scanToken_spec (D := D) atEnd).2.suffix.length_le
    exact (passed.trans_lt (advance_length (clean.of_suffix suffix) atEnd)).trans_le
      suffix.length_le

/-! ## Repeated calls -/

/-- The lexer after so many calls, if they all return. -/
def Lexer.calls (D : Type) [Double D] : Nat → Lexer → Option Lexer
  | 0, lex => some lex
  | count + 1, lex =>
      (lex.next : Option (Token D × Lexer)).bind fun read => Lexer.calls D count read.2

/-- Each call returns and goes forward in the text, and after as many calls as the text has
characters the next one has returned the end at the latest. -/
structure Lexer.Progresses (D : Type) [Double D] (lex : Lexer) : Prop where
  returns : ∀ count before, lex.calls D count = some before →
    ∃ (token : Token D) (after : Lexer), before.next = some (token, after) ∧
      after.rest <:+ before.rest
  ends : ∃ count ≤ lex.rest.length, ∃ (before after : Lexer) (token : Token D),
    lex.calls D count = some before ∧ before.next = some (token, after) ∧ token.kind = .eof

section Calls

variable [Double D] {lex before : Lexer} {count : Nat}

theorem calls_onward (called : lex.calls D count = some before) : Onward lex before := by
  induction count generalizing lex with
  | zero =>
    cases called
    exact .refl _
  | succ count ih =>
    obtain ⟨⟨token, after⟩, read, rest⟩ := Option.bind_eq_some_iff.mp called
    exact (next_onward read).1.trans (ih rest)

theorem Lexer.Clean.progresses (clean : lex.Clean) : lex.Progresses D where
  returns count before called := by
    obtain ⟨token, after, read, -⟩ :=
      next_clean (D := D) (clean.of_suffix (calls_onward called).suffix)
    exact ⟨token, after, read, (next_onward read).1.suffix⟩
  ends := by
    -- Each call leaves fewer characters, so that the length of the text bounds the calls.
    induction shorter : lex.rest.length using Nat.strongRecOn generalizing lex with
    | ind length ih =>
      obtain ⟨token, after, read, passes⟩ := next_clean (D := D) clean
      by_cases isEof : token.kind = .eof
      · exact ⟨0, Nat.zero_le _, lex, after, token, rfl, read, isEof⟩
      · have less := shorter ▸ passes isEof
        obtain ⟨count, le, before, last, final, called, again⟩ :=
          ih _ less (clean.of_suffix (next_onward read).1.suffix) rfl
        refine ⟨count + 1, by omega, before, last, final, ?_, again⟩
        rw [Lexer.calls, read]
        exact called

theorem not_progresses (zero : ¬ lex.Clean) : ¬ lex.Progresses D := by
  intro progresses
  obtain ⟨count, -, before, after, token, called, read, isEof⟩ := progresses.ends
  obtain ⟨onward, atEnd⟩ := next_onward read
  have kept := ((calls_onward called).trans onward).not_clean zero
  rw [Lexer.Clean, atEnd isEof] at kept
  exact kept not_mem_nil

end Calls

/-- The lexer makes progress on exactly the buffers without a zero byte.  Where the length is
zero the text ends at the first one. -/
theorem progresses_iff [Double D] (src : Chars) (length : Nat) :
    (Lexer.init src length).Progresses D ↔ length = 0 ∨ '\x00' ∉ src.take length := by
  have isClean : (Lexer.init src length).Clean ↔ length = 0 ∨ '\x00' ∉ src.take length := by
    by_cases isZero : length = 0
    · simp [Lexer.Clean, Lexer.init, isZero, zero_not_mem_cString src]
    · simp [Lexer.Clean, Lexer.init, isZero]
  rw [← isClean]
  exact ⟨fun progresses => not_not.mp fun zero => not_progresses zero progresses,
    Lexer.Clean.progresses⟩

/-- A buffer of one zero byte is never read to its end. -/
theorem not_progresses_zero : ¬ (Lexer.init ['\x00'] 1).Progresses Int :=
  not_progresses fun clean => clean mem_cons_self

end QDaemon.Cint
