import QDaemon.Cint.Parser

/-!
# Programs of parsing actions

Every parsing function is put together from a few actions and calls.  What holds for these
and passes from two actions to their sequence holds for all parsing functions; a program
with two tables of calls relates the runs of different depth.
-/

namespace QDaemon.Cint

open Text Parse

variable {D : Type} [Double D]

/-! ## Sequences -/

section Sequences

variable {α β : Type}
variable {p next : Parser D}

omit [Double D]

theorem gets_bind (read : Parser D → α) (rest : α → Parse D β) (p : Parser D) :
    (gets read >>= rest) p = rest (read p) p := rfl

theorem record_bind (event : Event) (rest : Unit → Parse D β) (p : Parser D) :
    (record event >>= rest) p = rest () (record event p).2 := rfl

variable {action : Parse D α}

theorem bind_of_some {value : α} (returned : action p = (some value, next)) (rest : α → Parse D β) :
    (action >>= rest) p = rest value next := by
  simp [bind, returned]

theorem bind_of_none (stopped : action p = (none, next)) (rest : α → Parse D β) :
    (action >>= rest) p = (none, next) := by
  simp [bind, stopped]

/-- A sequence that returns is two actions that return. -/
theorem bind_eq_some {rest : α → Parse D β} {last : Parser D} {result : β}
    (returned : (action >>= rest) p = (some result, last)) :
    ∃ value next, action p = (some value, next) ∧ rest value next = (some result, last) := by
  rcases outcome : action p with ⟨value | value, next⟩
  · rw [bind_of_none outcome] at returned
    cases returned
  · rw [bind_of_some outcome] at returned
    exact ⟨value, next, rfl, returned⟩

end Sequences

/-! ## Programs -/

/-- The same program with two tables of calls, whose own events are all allowed. -/
inductive Program (allowed : Event → Prop) (first second : Calls D) :
    {α : Type} → Parse D α → Parse D α → Prop
  | pure {α : Type} (value : α) : Program allowed first second (pure value) (pure value)
  | gets {α : Type} (read : Parser D → α) : Program allowed first second (gets read) (gets read)
  | record {event : Event} (legal : allowed event) :
      Program allowed first second (record event) (record event)
  | advance : Program allowed first second advance advance
  | error (msg : String) : Program allowed first second (error msg) (error msg)
  | call (goal : Goal D) : Program allowed first second (first goal) (second goal)
  | bind {α β : Type} {x y : Parse D α} {f g : α → Parse D β} :
      Program allowed first second x y → (∀ value, Program allowed first second (f value) (g value)) →
      Program allowed first second (x >>= f) (y >>= g)

/-- A parsing function with the two tables. -/
abbrev Uniform (allowed : Event → Prop) (first second : Calls D) {α : Type}
    (function : Calls D → Parse D α) : Prop :=
  Program allowed first second (function first) (function second)

/-- Events of parsing functions other than the loop of a block. -/
def Event.Plain : Event → Prop
  | .iteration _ => False
  | _ => True

namespace Program

variable {allowed : Event → Prop} {first second : Calls D}

theorem check (kind : Kind) : Program allowed first second (check kind) (check kind) := .gets _

theorem here : Program allowed first second here here := .gets _

theorem currentKind : Program allowed first second currentKind currentKind := .gets _

theorem expect (kind : Kind) (msg : String) :
    Program allowed first second (expect kind msg) (expect kind msg) := by
  apply bind (check kind)
  intro found
  cases found
  · exact .error msg
  · exact .advance

section Plain

variable (plain : ∀ event, Event.Plain event → allowed event)

include plain

theorem takeText : Program allowed first second takeText takeText :=
  bind (.gets _) fun _ => bind (.record (plain _ trivial)) fun _ =>
    bind (.record (plain _ trivial)) fun _ => .pure _

theorem member : Program allowed first second parseMember parseMember :=
  bind (expect _ _) fun _ => takeText plain

omit plain in
theorem sign : Program allowed first second parseSign parseSign := by
  apply bind currentKind
  intro kind
  split_ifs
  · exact bind .advance fun _ => .pure _
  · exact bind .advance fun _ => .pure _
  · exact .pure _

theorem base (sign : Chars) : Program allowed first second (parseBase sign) (parseBase sign) := by
  apply bind (.gets _)
  intro token
  split
  · exact bind .advance fun _ => .pure _
  · split_ifs
    · exact bind (.record (plain _ trivial)) fun _ => bind .advance fun _ => .pure _
    · exact .pure _
    · exact bind (.error _) fun _ => .pure _

omit plain in
theorem stars (rounds stars : Nat) :
    Program allowed first second (parseStars rounds stars) (parseStars rounds stars) := by
  induction rounds generalizing stars with
  | zero => exact .pure _
  | succ rounds ih =>
    apply bind (check .star)
    intro found
    cases found
    · exact .pure _
    · exact bind .advance fun _ => ih (stars + 1)

theorem typeRest (sign : Chars) :
    Program allowed first second (parseTypeRest sign) (parseTypeRest sign) := by
  apply bind (base plain sign)
  intro base
  cases base with
  | none => exact .pure _
  | some base =>
    exact bind (.record (plain _ trivial)) fun _ => bind (.gets _) fun _ =>
      bind (stars _ _) fun _ => .pure _

theorem typespec : Program allowed first second parseTypespec parseTypespec := by
  apply bind currentKind
  intro kind
  split_ifs
  · exact bind sign fun sign => typeRest plain sign
  · exact bind (.error _) fun _ => .pure _

/-! ## Expressions -/

theorem primaryRest (token : Token D) :
    Uniform allowed first second (parsePrimaryRest · token) := by
  unfold Uniform parsePrimaryRest
  split
  · exact .pure _
  · exact .pure _
  · exact bind (takeText plain) fun _ => .pure _
  · exact .pure _
  · exact bind (takeText plain) fun _ => .pure _
  · exact bind (.call _) fun _ => bind (expect _ _) fun _ => .pure _
  · exact bind (expect _ _) fun _ => bind (typespec plain) fun _ => bind (expect _ _) fun _ =>
      .pure _
  · exact .pure _

theorem primary : Uniform allowed first second parsePrimary := by
  apply bind (.gets _)
  intro token
  split_ifs
  · exact bind .advance fun _ => primaryRest plain token
  · exact bind (.error _) fun _ => .pure _

omit plain in
theorem postfixExpr : Uniform allowed first second parsePostfix := by
  apply bind (.call _)
  intro expr
  split
  · exact .pure _
  · exact .call _

theorem postfixRest (expr : Ast D) (pos : Pos) (kind : Kind) :
    Uniform allowed first second (parsePostfixRest · expr pos kind) := by
  rw [Uniform, parsePostfixRest.eq_def, parsePostfixRest.eq_def]
  split
  · apply bind (check _)
    intro found
    cases found
    · exact .call _
    · exact bind .advance fun _ => .call _
  · exact bind (.call _) fun _ => bind (expect _ _) fun _ => .call _
  · exact bind (member plain) fun _ => .call _
  · exact bind (member plain) fun _ => .call _
  · exact .call _
  · exact .call _
  · exact .pure _

theorem postfixLoop (expr : Ast D) : Uniform allowed first second (parsePostfixLoop · expr) := by
  apply bind here
  intro pos
  apply bind currentKind
  intro kind
  split_ifs
  · exact bind .advance fun _ => postfixRest plain expr pos kind
  · exact .pure _

theorem arguments (func : Ast D) (args : List (Ast D)) (pos : Pos) :
    Uniform allowed first second (parseArguments · func args pos) := by
  apply bind (.call _)
  intro arg
  apply bind (.record (plain (.store .args args.length) trivial))
  intro _
  apply bind (check _)
  intro found
  cases found
  · exact bind (expect _ _) fun _ => .call _
  · exact bind .advance fun _ => .call _

section

omit plain

theorem unary : Uniform allowed first second parseUnary := by
  apply bind here
  intro pos
  apply bind currentKind
  intro kind
  split
  · exact bind .advance fun _ => bind (.call _) fun _ => .pure _
  · exact .call _

theorem binary (level : Level) : Uniform allowed first second (parseBinary level) :=
  bind (.call _) fun _ => .call _

theorem binaryLoop (level : Level) (left : Ast D) :
    Uniform allowed first second (parseBinaryLoop level · left) := by
  apply bind here
  intro pos
  apply bind currentKind
  intro kind
  split
  · exact bind .advance fun _ => bind (.call _) fun _ => .call _
  · exact .pure _

theorem ternary : Uniform allowed first second parseTernary := by
  apply bind (.call _)
  intro cond
  apply bind (check _)
  intro found
  cases found
  · exact .pure _
  · exact bind here fun _ => bind .advance fun _ => bind (.call _) fun _ =>
      bind (expect _ _) fun _ => bind (.call _) fun _ => .pure _

theorem assignment : Uniform allowed first second parseAssignment := by
  apply bind (.call _)
  intro left
  apply bind here
  intro pos
  apply bind currentKind
  intro kind
  split
  · exact bind .advance fun _ => bind (.call _) fun _ => .pure _
  · exact .pure _

/-! ## Statements and declarations -/

theorem block : Uniform allowed first second parseBlock :=
  bind here fun _ => bind (expect _ _) fun _ => .call _

theorem unlessKind (kind : Kind) : Uniform allowed first second (parseUnless · kind) := by
  apply bind (check kind)
  intro found
  cases found
  · exact .call _
  · exact .pure _

theorem condition (msg : String) : Uniform allowed first second (parseCondition · msg) :=
  bind (expect _ _) fun _ => bind (.call _) fun _ => bind (expect _ _) fun _ => .pure _

theorem elsePart : Uniform allowed first second parseElse := by
  apply bind (check _)
  intro found
  cases found
  · exact .pure _
  · exact bind .advance fun _ => .call _

theorem statementRest (pos : Pos) (kind : Kind) :
    Uniform allowed first second (parseStatementRest · pos kind) := by
  rw [Uniform, parseStatementRest.eq_def, parseStatementRest.eq_def]
  split
  · exact bind (condition _) fun _ => bind (.call _) fun _ => bind elsePart fun _ => .pure _
  · exact bind (condition _) fun _ => bind (.call _) fun _ => .pure _
  · exact bind (expect _ _) fun _ => bind (unlessKind _) fun _ => bind (expect _ _) fun _ =>
      bind (unlessKind _) fun _ => bind (expect _ _) fun _ => bind (unlessKind _) fun _ =>
      bind (expect _ _) fun _ => bind (.call _) fun _ => .pure _
  · exact bind (unlessKind _) fun _ => bind (expect _ _) fun _ => .pure _
  · exact bind (expect _ _) fun _ => .pure _
  · exact bind (expect _ _) fun _ => .pure _
  · exact .pure _

theorem statement : Uniform allowed first second parseStatement := by
  apply bind here
  intro pos
  apply bind currentKind
  intro kind
  split_ifs
  · exact .call _
  · exact bind .advance fun _ => statementRest pos kind
  · exact .call _
  · exact bind (.call _) fun _ => bind (expect _ _) fun _ => .pure _

theorem init : Uniform allowed first second parseInit := by
  apply bind (check _)
  intro found
  cases found
  · exact .pure _
  · exact bind .advance fun _ => .call _

theorem body : Uniform allowed first second parseBody := by
  apply bind (expect _ _)
  intro _
  apply bind (check _)
  intro found
  cases found
  · exact bind (expect _ _) fun _ => .pure _
  · exact .call _

end

theorem paramName : Program allowed first second parseParamName parseParamName := by
  apply bind (.gets _)
  intro token
  split_ifs
  · exact bind (.record (plain _ trivial)) fun _ => bind .advance fun _ => .pure _
  · exact .pure _

theorem parameters (type : TypeSpec) (name : Chars) (params : List Param) (pos : Pos) :
    Uniform allowed first second (parseParameters · type name params pos) := by
  apply bind (typespec plain)
  intro paramType
  apply bind (paramName plain)
  intro paramName
  apply bind (.record (plain (.store .params params.length) trivial))
  intro _
  apply bind (check _)
  intro found
  cases found
  · exact bind body fun _ => .pure _
  · exact bind .advance fun _ => .call _

omit plain in
theorem function (type : TypeSpec) (name : Chars) (pos : Pos) :
    Uniform allowed first second (parseFunction · type name pos) := by
  apply bind (check _)
  intro found
  cases found
  · exact .call _
  · exact bind body fun _ => .pure _

theorem declarator (type : TypeSpec) (pos : Pos) :
    Uniform allowed first second (parseDeclarator · type pos) := by
  apply bind (expect _ _)
  intro _
  apply bind (takeText plain)
  intro name
  apply bind (check _)
  intro found
  cases found
  · exact bind init fun _ => bind (expect _ _) fun _ => .pure _
  · exact bind .advance fun _ => function _ _ _

theorem declaration : Uniform allowed first second parseDeclaration := by
  apply bind here
  intro pos
  apply bind (typespec plain)
  intro type
  cases type with
  | none => exact .pure _
  | some type => exact declarator plain type pos

theorem program (stmts : List (Ast D)) :
    Uniform allowed first second (parseProgramLoop · stmts) := by
  apply bind (.gets _)
  intro p
  split_ifs
  · exact .pure _
  · exact .pure _
  · exact bind (.call _) fun _ => bind (.record (plain _ trivial)) fun _ => .call _

/-- Every function but the loop of a block. -/
theorem goal {goal : Goal D} (notLoop : ∀ stmts pos, goal ≠ .blockLoop stmts pos) :
    Uniform allowed first second (parseGoal · goal) := by
  cases goal with
  | primary => exact primary plain
  | postfixExpr => exact postfixExpr
  | postfixLoop expr => exact postfixLoop plain expr
  | arguments func args pos => exact arguments plain func args pos
  | unary => exact unary
  | binary level => cases level <;> exact binary _
  | binaryLoop level left => exact binaryLoop level left
  | ternary => exact ternary
  | assignment => exact assignment
  | block => exact block
  | blockLoop stmts pos => exact absurd rfl (notLoop stmts pos)
  | statement => exact statement
  | declaration => exact declaration plain
  | parameters type name params pos => exact parameters plain type name params pos
  | program stmts => exact program plain stmts

end Plain

/-- The loop of a block, where an iteration is allowed. -/
theorem blockLoop (all : ∀ event, allowed event) (stmts : List (Ast D)) (pos : Pos) :
    Uniform allowed first second (parseBlockLoop · stmts pos) := by
  apply bind currentKind
  intro kind
  split_ifs
  · exact bind (expect _ _) fun _ => .pure _
  · exact bind (.record (all _)) fun _ => bind (.call _) fun _ => bind (.record (all _)) fun _ =>
      .call _

/-- Every function. -/
theorem anyGoal (all : ∀ event, allowed event) (goal : Goal D) :
    Uniform allowed first second (parseGoal · goal) := by
  by_cases isLoop : ∃ stmts pos, goal = .blockLoop stmts pos
  · obtain ⟨stmts, pos, rfl⟩ := isLoop
    exact blockLoop all stmts pos
  · apply Program.goal fun event _ => all event
    intro stmts pos same
    exact isLoop ⟨stmts, pos, same⟩

/-! ## Rules -/

/-- A relation between states that every action keeps, and a sequence if its parts do. -/
structure Kept (allowed : Event → Prop) (R : Parser D → Parser D → Prop) : Prop where
  refl : ∀ p, R p p
  trans : ∀ p q r, R p q → R q r → R p r
  records : ∀ event p, allowed event → R p (Parse.record event p).2
  advances : ∀ p, R p (Cint.advance p).2
  errors : ∀ msg p, R p (Cint.error msg p).2

variable {R : Parser D → Parser D → Prop} {α : Type} {x y : Parse D α}

/-- Such a relation holds between the states before and after a program. -/
theorem related (kept : Kept allowed R) (calls : ∀ goal p, R p (first goal p).2)
    (program : Program allowed first second x y) (p : Parser D) : R p (x p).2 := by
  induction program generalizing p with
  | pure value => exact kept.refl p
  | gets read => exact kept.refl p
  | record legal => exact kept.records _ p legal
  | advance => exact kept.advances p
  | error msg => exact kept.errors msg p
  | call goal => exact calls goal p
  | @bind _ _ x y f g _ _ ihx ihf =>
    rcases outcome : x p with ⟨value | value, next⟩
    · rw [bind_of_none outcome]
      have first := ihx p
      rwa [outcome] at first
    · rw [bind_of_some outcome]
      have first := ihx p
      rw [outcome] at first
      exact kept.trans _ _ _ first (ihf value next)

/-- The same for what holds only when an action returns. -/
theorem related_of_some (kept : Kept allowed R)
    (calls : ∀ goal p value next, first goal p = (some value, next) → R p next)
    (program : Program allowed first second x y) {value : α}
    (returned : x p = (some value, next)) : R p next := by
  induction program generalizing p next with
  | pure value =>
    cases returned
    exact kept.refl p
  | gets read =>
    cases returned
    exact kept.refl p
  | record legal =>
    cases returned
    exact kept.records _ p legal
  | advance =>
    have moved := kept.advances p
    rwa [returned] at moved
  | error msg =>
    cases returned
    exact kept.errors msg p
  | call goal => exact calls goal p _ next returned
  | bind _ _ ihx ihf =>
    obtain ⟨middle, between, firstReturned, restReturned⟩ := bind_eq_some returned
    exact kept.trans _ _ _ (ihx firstReturned) (ihf middle restReturned)

/-- The rule for runs of any depth. -/
theorem run_related (kept : Kept (fun _ => True) R) (depth : Nat) (goal : Goal D) (p : Parser D) :
    R p (run depth goal p).2 := by
  induction depth generalizing goal p with
  | zero => exact kept.refl p
  | succ depth ih =>
    have program : Uniform (fun _ => True) (run depth) (run depth) (parseGoal · goal) :=
      anyGoal (fun _ => trivial) goal
    exact program.related kept ih p

end Program

/-- A program of calls to some depth. -/
abbrev RunProgram (depth : Nat) {α : Type} (x : Parse D α) : Prop :=
  Program (fun _ => True) (run depth) (run depth) x x

/-- The rule for such programs. -/
theorem RunProgram.related {R : Parser D → Parser D → Prop}
    (kept : Program.Kept (fun _ => True) R) {depth : Nat} {α : Type} {x : Parse D α}
    (program : RunProgram depth x) {value : α} (returned : x p = (some value, next)) :
    R p next := by
  have related := Program.related kept (Program.run_related kept depth) program p
  rwa [returned] at related

end QDaemon.Cint
