import QDaemon.Cint.Lexing
import QDaemon.Cint.Parsing.Depth

/-!
# Progress of the parser

On a text without zero bytes no parsing function moves backwards.  Which functions pass the
token they are called at depends on its kind only: at the other kinds they leave the parser
where it is.
-/

namespace QDaemon.Cint

open Text Parse

variable {D : Type} [Double D]

/-! ## What is left -/

/-- A bound for the tokens that are left, the current one included. -/
def Parser.left (p : Parser D) : Nat :=
  p.lex.rest.length + if p.current.kind = .eof then 0 else 1

/-- The text that is left has no zero byte, and there is none behind its end. -/
structure Parser.Clean (p : Parser D) : Prop where
  lex : p.lex.Clean
  atEnd : p.current.kind = .eof → p.lex.rest = []

/-- Nothing has been passed. -/
structure Still (p next : Parser D) : Prop where
  lex : next.lex = p.lex
  current : next.current = p.current

/-- The parser has not moved backwards. -/
def Forward (p next : Parser D) : Prop :=
  p.Clean → next.Clean ∧ next.left ≤ p.left

omit [Double D] in
theorem Still.refl (p : Parser D) : Still p p := ⟨rfl, rfl⟩

variable {p : Parser D}

omit [Double D] in
theorem Still.trans {q r : Parser D} (first : Still p q) (second : Still q r) : Still p r :=
  ⟨second.lex.trans first.lex, second.current.trans first.current⟩

variable {next : Parser D}

section

omit [Double D]

theorem Still.clean (still : Still p next) (clean : p.Clean) : next.Clean :=
  ⟨by rw [still.lex]; exact clean.lex, by rw [still.lex, still.current]; exact clean.atEnd⟩

theorem Still.left_eq (still : Still p next) : next.left = p.left := by
  rw [Parser.left, Parser.left, still.lex, still.current]

theorem Still.forward (still : Still p next) : Forward p next :=
  fun clean => ⟨still.clean clean, Nat.le_of_eq still.left_eq⟩

theorem record_still (event : Event) (p : Parser D) : Still p (record event p).2 := ⟨rfl, rfl⟩

theorem error_still (msg : String) (p : Parser D) : Still p (error msg p).2 := by
  simp only [error, Parse.modify]
  split
  · exact .refl p
  · exact ⟨rfl, rfl⟩

end

/-- The parser takes the next token; there is one less, unless it is at the end. -/
theorem advance_clean (clean : p.Clean) :
    ∃ next, advance p = (some (), next) ∧ next.Clean ∧ next.left ≤ p.left ∧
      (p.current.kind ≠ .eof → next.left < p.left) := by
  obtain ⟨token, after, read, shorter⟩ := next_clean (D := D) clean.lex
  obtain ⟨onward, atEnd⟩ := next_onward read
  refine ⟨{ p with lex := after, prev := p.current, current := token }, by rw [advance, read], ?_⟩
  have nextClean : Parser.Clean { p with lex := after, prev := p.current, current := token } :=
    ⟨clean.lex.of_suffix onward.suffix, atEnd⟩
  have le := onward.suffix.length_le
  by_cases start : p.current.kind = .eof
  · have last : token.kind = .eof := by
      by_contra other
      have less := shorter other
      rw [clean.atEnd start] at less
      exact absurd less (Nat.not_lt_zero _)
    refine ⟨nextClean, ?_, fun other => absurd start other⟩
    simp only [Parser.left, if_pos last, atEnd last]
    exact Nat.zero_le _
  · have less : after.rest.length + (if token.kind = .eof then 0 else 1) < p.left := by
      rw [Parser.left]
      split_ifs with last
      · omega
      · have passed := shorter last
        omega
    exact ⟨nextClean, Nat.le_of_lt less, fun _ => less⟩

theorem advance_forward (p : Parser D) : Forward p (advance p).2 := by
  intro clean
  obtain ⟨next, moved, nextClean, le, _⟩ := advance_clean clean
  rw [moved]
  exact ⟨nextClean, le⟩

variable {α : Type}

variable {depth : Nat}

/-! ## Where functions start -/

/-- The unary operators. -/
def Kind.isUnary : Kind → Bool
  | .minus | .not | .bnot | .inc | .dec | .star | .band => true
  | _ => false

variable (kind : Kind)

/-- The tokens that `parse_unary` passes. -/
def Kind.startsUnary : Bool :=
  kind.startsPrimary || kind.isUnary

/-- How tightly the operators of a level bind. -/
def Level.index : Level → Nat
  | .or => 0
  | .and => 1
  | .bitor => 2
  | .bitxor => 3
  | .bitand => 4
  | .equality => 5
  | .comparison => 6
  | .shift => 7
  | .term => 8
  | .factor => 9

/-- The levels by their index. -/
def Level.all : List Level :=
  [.or, .and, .bitor, .bitxor, .bitand, .equality, .comparison, .shift, .term, .factor]

/-- The tokens that the function of a level passes: those of a unary expression and the
operators of its own and of the tighter levels. -/
def Level.starts (level : Level) (kind : Kind) : Bool :=
  kind.startsUnary || (Level.all.drop level.index).any fun tighter => (tighter.operator kind).isSome

/-- The tokens that `parse_expression` passes. -/
def Kind.startsExpression : Bool :=
  Level.or.starts kind || kind = .question || kind.assignOp.isSome

/-- The words that say whether a type has a sign. -/
def Kind.isSign : Kind → Bool
  | .signedKw | .unsignedKw => true
  | _ => false

/-- The tokens that `parse_typespec` passes. -/
def Kind.startsType : Bool :=
  kind.typeName.isSome || kind.isSign || kind = .ident

/-- The tokens that `parse_statement` passes. -/
def Kind.startsStatement : Bool :=
  kind = .lbrace || kind.opensStatement ||
    if kind.isType then kind.startsType else kind.startsExpression || kind = .semicolon

/-! ## Passing a token or staying -/

/-- A call passes the token it is made at, or stays there. -/
structure Passes (starts : Bool) (p next : Parser D) : Prop where
  moved : starts = true → next.left < p.left
  still : starts = false → Still p next

section

omit [Double D]

theorem Still.passes (still : Still p next) : Passes false p next := ⟨nofun, fun _ => still⟩

theorem Passes.of_still {starts : Bool} (still : Still p next) (other : ¬starts = true) :
    Passes starts p next :=
  ⟨fun isStart => absurd isStart other, fun _ => still⟩

theorem Passes.of_moved {starts : Bool} (moved : next.left < p.left) (isStart : starts = true) :
    Passes starts p next :=
  ⟨fun _ => moved, fun other => absurd (isStart.symm.trans other) (by decide)⟩

theorem error_isSome (msg : String) (p : Parser D) : (error msg p).2.error.isSome = true := by
  simp only [error, Parse.modify]
  split
  next reported => simp [reported]
  · rfl

end

/-- A token that a test tells from the end. -/
theorem ne_eof {β : Type} {test : Kind → β} {kind : Kind} {value : β} (holds : test kind = value)
    (other : test .eof ≠ value) : kind ≠ .eof := by
  rintro rfl
  exact other holds

/-- Every event is allowed in a run. -/
theorem anyEvent (event : Event) (_ : event.Plain) : (fun _ => True : Event → Prop) event := trivial

omit [Double D] in
theorem Still.not_lt (still : Still p next) : ¬next.left < p.left := by
  rw [still.left_eq]
  exact Nat.lt_irrefl _

/-! ## Iterations that stay -/

/-- The tokens at which an iteration of the loop of a block passes nothing. -/
def Kind.spins : Kind → Bool
  | .error | .elseKw | .doKw | .switchKw | .caseKw | .defaultKw | .gotoKw => true
  | .structKw | .unionKw | .enumKw | .typedefKw | .constKw | .staticKw | .externKw => true
  | .percentEq | .bandEq | .borEq | .bxorEq | .lshiftEq | .rshiftEq => true
  | .arrow | .dot | .colon | .rparen | .lbracket | .rbracket | .comma => true
  | _ => false

/-- They are the tokens that `parse_statement` does not pass. -/
theorem startsStatement_eq {kind : Kind} (notBrace : kind ≠ .rbrace) (notEof : kind ≠ .eof) :
    kind.startsStatement = !kind.spins := by
  revert notBrace notEof
  cases kind <;> decide

/-- An iteration that passes a token, or another event. -/
def Event.Live : Event → Prop
  | .iteration kind => kind.spins = false
  | _ => True

instance Event.decidableLive : DecidablePred Event.Live
  | .iteration kind => inferInstanceAs (Decidable (kind.spins = false))
  | .readText .. | .freeText .. | .store .. | .typeName _ => isTrue trivial

/-- No iteration has stayed where it was. -/
def LiveLog (p : Parser D) : Prop :=
  ∀ event ∈ p.log, event.Live

theorem Event.Plain.live {event : Event} (plain : event.Plain) : event.Live := by
  cases event
  case iteration => cases plain
  all_goals trivial

variable {p : Parser D}

omit [Double D] in
theorem LiveLog.record (live : LiveLog p) {event : Event} (eventLive : event.Live) :
    LiveLog (record event p).2 := by
  intro found member
  rcases List.mem_append.mp member with earlier | last
  · exact live found earlier
  · rw [List.mem_singleton.mp last]
    exact eventLive

/-! ## Runs that return -/

/-- An action returns, unless an iteration stays where it was. -/
def Halts {α : Type} (x : Parse D α) (p : Parser D) : Prop :=
  LiveLog (x p).2 → ∃ value next, x p = (some value, next)

/-- What an action returns is good and not further back, and where the depth suffices the
action returns, unless an iteration stays where it was. -/
def Runs {α : Type} (x : Parse D α) (p : Parser D) (deep : Prop)
    (good : α → Parser D → Prop) : Prop :=
  (∀ {value next}, x p = (some value, next) → next.Clean ∧ next.left ≤ p.left ∧ good value next) ∧
    (deep → Halts x p)

section Runs

variable {α β : Type} {x : Parse D α} {p next : Parser D} {deep other : Prop}
  {good better : α → Parser D → Prop} {met : β → Parser D → Prop}

namespace Runs

omit [Double D]

theorem returned {value : α} (returned : x p = (some value, next)) (clean : next.Clean)
    (le : next.left ≤ p.left) (met : good value next) : Runs x p deep good := by
  refine ⟨fun again => ?_, fun _ _ => ⟨value, next, returned⟩⟩
  cases returned.symm.trans again
  exact ⟨clean, le, met⟩

theorem pure {value : α} (clean : p.Clean) (met : good value p) :
    Runs (pure value : Parse D α) p deep good :=
  .returned rfl clean le_rfl met

theorem mono (runs : Runs x p other better) (enough : deep → other)
    (implies : ∀ value next, next.left ≤ p.left → better value next → good value next) :
    Runs x p deep good := by
  refine ⟨fun returned => ?_, fun isDeep => runs.2 (enough isDeep)⟩
  obtain ⟨clean, le, met⟩ := runs.1 returned
  exact ⟨clean, le, implies _ _ le met⟩

theorem bind {f : α → Parse D β} (first : Runs x p deep good)
    (rest : ∀ value next, next.Clean → next.left ≤ p.left → good value next →
      Runs (f value) next deep met) : Runs (x >>= f) p deep met := by
  constructor
  · intro result last returned
    obtain ⟨value, next, firstEq, restEq⟩ := bind_eq_some returned
    obtain ⟨clean, le, middle⟩ := first.1 firstEq
    obtain ⟨lastClean, lastLe, done⟩ := (rest value next clean le middle).1 restEq
    exact ⟨lastClean, lastLe.trans le, done⟩
  · intro isDeep live
    rcases outcome : x p with ⟨value | value, next⟩
    · rw [bind_of_none outcome] at live
      obtain ⟨value, last, returned⟩ := first.2 isDeep (by rw [outcome]; exact live)
      rw [outcome] at returned
      cases returned
    · obtain ⟨clean, le, middle⟩ := first.1 outcome
      rw [bind_of_some outcome] at live ⊢
      exact (rest value next clean le middle).2 isDeep live

theorem gets_bind (read : Parser D → α) (rest : α → Parse D β) :
    Runs (gets read >>= rest) p deep met = Runs (rest (read p)) p deep met := rfl

theorem record_bind (event : Event) (rest : Unit → Parse D β) :
    Runs (record event >>= rest) p deep met = Runs (rest ()) (record event p).2 deep met := rfl

end Runs

/-- A program runs where its calls do. -/
theorem Program.runs {table : Calls D} {bound : Nat}
    (calls : ∀ goal p, p.Clean → p.left ≤ bound → Runs (table goal) p deep fun _ _ => True)
    {y : Parse D α} (program : Program (fun _ => True) table table x y) (clean : p.Clean)
    (le : p.left ≤ bound) : Runs x p deep fun _ _ => True := by
  induction program generalizing p with
  | pure value => exact .pure clean trivial
  | gets read => exact .returned rfl clean le_rfl trivial
  | @record event =>
    have still := record_still event p
    exact .returned rfl (still.clean clean) still.left_eq.le trivial
  | advance =>
    obtain ⟨next, moved, nextClean, nextLe, _⟩ := advance_clean clean
    exact .returned moved nextClean nextLe trivial
  | error msg =>
    have still := error_still msg p
    exact .returned rfl (still.clean clean) still.left_eq.le trivial
  | call goal => exact calls goal p clean le
  | bind _ _ ihx ihf =>
    exact (ihx clean le).bind fun value next nextClean nextLe _ => ihf value nextClean (nextLe.trans le)

/-- A program that calls nothing. -/
abbrev Callless (x : Parse D α) : Prop :=
  Program (fun _ => True) (fun _ => pure .null) (fun _ => pure .null) x x

theorem Callless.runs (program : Callless x) (clean : p.Clean) : Runs x p deep fun _ _ => True :=
  Program.runs (fun _ _ clean _ => .pure clean trivial) program clean le_rfl

theorem advance_runs (clean : p.Clean) (notEof : p.current.kind ≠ .eof) :
    Runs advance p deep fun _ next => next.left < p.left := by
  obtain ⟨next, moved, nextClean, le, less⟩ := advance_clean clean
  exact .returned moved nextClean le (less notEof)

omit [Double D] in
theorem error_runs {value : α} (msg : String) (clean : p.Clean) :
    Runs (error msg >>= fun _ => Pure.pure value) p deep fun result next =>
      result = value ∧ Still p next ∧ next.error.isSome = true := by
  have still := error_still msg p
  exact .returned rfl (still.clean clean) still.left_eq.le ⟨rfl, still, error_isSome msg p⟩

theorem expect_runs {kind : Kind} (msg : String) (clean : p.Clean) (notEof : kind ≠ .eof) :
    Runs (expect kind msg) p deep fun _ next => Passes (decide (p.current.kind = kind)) p next := by
  rw [expect, check, Runs.gets_bind]
  split_ifs with found
  · exact (advance_runs clean (of_decide_eq_true found ▸ notEof)).mono id fun _ _ _ moved =>
      .of_moved moved found
  · have still := error_still msg p
    exact .returned rfl (still.clean clean) still.left_eq.le (.of_still still found)

end Runs

/-! ## Types -/

section Types

variable {p : Parser D} {deep : Prop} (clean : p.Clean)
include clean

theorem sign_runs : Runs parseSign p deep fun sign next =>
    (next.left < p.left ∧ p.current.kind.isSign = true) ∨
      (sign = [] ∧ Still p next ∧ p.current.kind.isSign = false) := by
  rw [parseSign, currentKind, Runs.gets_bind]
  split_ifs with isUnsigned isSigned
  · refine (advance_runs clean (by simp [isUnsigned])).bind fun _ next nextClean _ moved => ?_
    exact .pure nextClean (.inl ⟨moved, by rw [isUnsigned]; rfl⟩)
  · refine (advance_runs clean (by simp [isSigned])).bind fun _ next nextClean _ moved => ?_
    exact .pure nextClean (.inl ⟨moved, by rw [isSigned]; rfl⟩)
  · refine .pure clean (.inr ⟨rfl, .refl p, ?_⟩)
    revert isUnsigned isSigned
    cases p.current.kind <;> simp [Kind.isSign]

/-- What becomes of a type behind its first word: its base is passed.  Without one an error is
reported, unless the type is unsigned. -/
structure Typed {α : Type} (sign : Chars) (p : Parser D) (base : Option α) (next : Parser D) :
    Prop where
  moved : p.current.kind.typeName.isSome ∨ p.current.kind = .ident → next.left < p.left
  still : ¬(p.current.kind.typeName.isSome ∨ p.current.kind = .ident) →
    sign ≠ "unsigned ".toList → Still p next
  reported : base = none → next.error.isSome = true
  isSome : base ≠ none → sign ≠ "unsigned ".toList → next.left < p.left

theorem base_runs (sign : Chars) : Runs (parseBase sign) p deep (Typed sign p) := by
  rw [parseBase, Runs.gets_bind]
  split
  next name named =>
    refine (advance_runs clean (ne_eof named (by rintro ⟨⟩))).bind fun _ next nextClean _ moved => ?_
    exact .pure nextClean ⟨fun _ => moved, fun other => absurd (.inl (by rw [named]; rfl)) other,
      by rintro ⟨⟩, fun _ _ => moved⟩
  next unnamed =>
    split_ifs with isIdent isUnsigned
    · have still := record_still (.readText p.current.kind p.current.pos) p
      rw [Runs.record_bind]
      refine (advance_runs (still.clean clean) (by rw [still.current, isIdent]; decide)).bind
        fun _ next nextClean _ moved => ?_
      exact .pure nextClean ⟨fun _ => moved, fun other => absurd (.inr isIdent) other,
        by rintro ⟨⟩, fun _ _ => moved⟩
    · exact .pure clean ⟨fun either => by simp [isIdent, unnamed] at either,
        fun _ other => absurd isUnsigned other, by rintro ⟨⟩, fun _ other => absurd isUnsigned other⟩
    · refine (error_runs _ clean).mono id ?_
      rintro _ next - ⟨rfl, still, reported⟩
      exact ⟨fun either => by simp [isIdent, unnamed] at either, fun _ _ => still,
        fun _ => reported, fun other => absurd rfl other⟩

theorem typeRest_runs (sign : Chars) : Runs (parseTypeRest sign) p deep (Typed sign p) := by
  refine (base_runs clean sign).bind ?_
  intro base next nextClean _ typed
  cases base with
  | none =>
    exact .pure nextClean ⟨typed.moved, typed.still, fun _ => typed.reported rfl,
      fun other => absurd rfl other⟩
  | some base =>
    have still := record_still (.typeName (sign ++ base).length) next
    rw [Runs.record_bind, Runs.gets_bind]
    refine (Callless.runs (.stars _ _) (still.clean nextClean)).bind ?_
    intro stars last lastClean lastLe _
    have le := lastLe.trans still.left_eq.le
    refine .pure lastClean ⟨fun either => le.trans_lt (typed.moved either), fun other notUnsigned => ?_,
      by rintro ⟨⟩, fun _ notUnsigned => le.trans_lt (typed.isSome (by simp) notUnsigned)⟩
    exact absurd (typed.isSome (by simp) notUnsigned) (typed.still other notUnsigned).not_lt

/-- The type is passed from its first token on.  Without a type an error has been
reported. -/
theorem typespec_runs : Runs parseTypespec p deep fun type next =>
    Passes p.current.kind.startsType p next ∧ (type ≠ none → next.left < p.left) ∧
      (type = none → next.error.isSome = true) := by
  rw [parseTypespec, currentKind, Runs.gets_bind]
  split_ifs with couldBe
  · refine (sign_runs clean).bind ?_
    rintro sign middle middleClean _ (⟨moved, isSign⟩ | ⟨rfl, still, notSign⟩)
    · refine (typeRest_runs middleClean sign).mono id fun type next le typed => ?_
      have further := le.trans_lt moved
      exact ⟨.of_moved further (by simp [Kind.startsType, isSign]), fun _ => further, typed.reported⟩
    · refine (typeRest_runs middleClean []).mono id fun type next _ typed => ?_
      have moved := typed.moved
      have stays := typed.still
      have isSome := typed.isSome
      rw [still.current] at moved stays
      rw [still.left_eq] at moved isSome
      refine ⟨⟨fun starts => moved ?_, fun other => still.trans (stays ?_ (by decide))⟩,
        fun some => isSome some (by decide), typed.reported⟩
      · simpa [Kind.startsType, notSign] using starts
      · simpa [Kind.startsType, notSign] using other
  · refine (error_runs _ clean).mono id ?_
    rintro _ next - ⟨rfl, still, reported⟩
    refine ⟨.of_still still ?_, fun some => absurd rfl some, fun _ => reported⟩
    revert couldBe
    cases p.current.kind <;> simp [Kind.startsType, Kind.typeName, Kind.isType, Kind.isSign]

end Types

/-! ## Calls -/

/-- The tokens that a call passes, for the functions that are called at any token. -/
def Goal.starts : Goal D → Kind → Bool
  | .primary, kind => kind.startsPrimary
  | .postfixExpr, kind => kind.startsPrimary
  | .postfixLoop _, kind => kind.continuesPostfix
  | .unary, kind => kind.startsUnary
  | .binary level, kind => level.starts kind
  | .binaryLoop level _, kind => (level.operator kind).isSome
  | .ternary, kind => Level.or.starts kind || kind = .question
  | .assignment, kind => kind.startsExpression
  | .declaration, kind => kind.startsType
  | .statement, kind => kind.startsStatement
  | _, _ => false

/-- Those functions. -/
def Goal.Anywhere : Goal D → Prop
  | .arguments .. | .block | .blockLoop .. | .parameters .. | .program _ => False
  | _ => True

section Sequences

variable {p q next : Parser D}

omit [Double D] in
/-- What passes its token stays ahead; what stays leaves the token to what follows. -/
theorem Passes.seq {first : Bool} (second : Kind → Bool) (passes : Passes first p q)
    (rest : Passes (second q.current.kind) q next) (le : next.left ≤ q.left) :
    Passes (first || second p.current.kind) p next := by
  cases first with
  | true => exact ⟨fun _ => le.trans_lt (passes.moved rfl), nofun⟩
  | false =>
    have still := passes.still rfl
    rw [still.current] at rest
    refine ⟨fun starts => ?_, fun other => still.trans (rest.still other)⟩
    rw [← still.left_eq]
    exact rest.moved starts

end Sequences

omit [Double D] in
theorem unary_isSome : (kind.unary : Option (Pos → Ast D → Ast D)).isSome = kind.isUnary := by
  cases kind <;> rfl

omit [Double D] in
theorem Level.starts_eq (level : Level) (kind : Kind) :
    level.starts kind = ((level.operand : Goal D).starts kind || (level.operator kind).isSome) := by
  have swap : ∀ a b c : Bool, (a || (b || c)) = ((a || c) || b) := by decide
  cases level
  case factor => simp [Level.starts, Level.operand, Goal.starts, Level.all, Level.index]
  all_goals exact swap _ _ _

/-- Calls to some depth pass their tokens or stay. -/
def PassesAt (depth : Nat) (goal : Goal D) : Prop :=
  ∀ ⦃p next : Parser D⦄ ⦃tree : Ast D⦄, p.Clean → run depth goal p = (some tree, next) →
    Passes (goal.starts p.current.kind) p next

end QDaemon.Cint
