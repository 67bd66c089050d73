import QDaemon.Cint.Parsing.Progress

/-!
# Termination of the parser

The loop of a block calls `parse_statement` until it sees a closing brace or the end.  At a
token that `parse_statement` does not pass, each iteration reports an error, stores a
statement and is back at the same token.  That is the only way in which the parser does not
come to an end: a run in which no iteration starts at such a token returns.
-/

namespace QDaemon.Cint

open Text Parse

variable {D : Type} [Double D]

variable {p next : Parser D}

/-! ## Depths that suffice -/

/-- How deep the calls of a function can be before it passes a token. -/
def Parser.rank (p : Parser D) : Goal D → Nat
  | .primary | .postfixLoop _ | .binaryLoop .. | .declaration => 0
  | .postfixExpr => 1
  | .unary => 2
  | .binary level => 12 - level.index
  | .ternary => 13
  | .assignment => 14
  | .arguments .. | .statement => 15
  | .blockLoop .. => 16
  | .parameters .. => 17
  | .block => if p.current.kind = .lbrace then 0 else 18
  | .program _ => if p.error.isSome then 0 else 1

/-- A depth that suffices for a call. -/
def Parser.weight (p : Parser D) (goal : Goal D) : Nat :=
  20 * p.left + p.rank goal

omit [Double D] in
theorem rank_lt (p : Parser D) (goal : Goal D) : p.rank goal < 20 := by
  cases goal
  case block | program =>
      rw [Parser.rank]
      split_ifs <;> omega
  all_goals simp only [Parser.rank]; omega

/-- Calls to the given depth return where it suffices. -/
def HaltsAt (D : Type) [Double D] (depth : Nat) : Prop :=
  ∀ (goal : Goal D) (p : Parser D), p.Clean → p.weight goal < depth → Halts (run depth goal) p

/-- What a call has done when it returns. -/
def Goal.Done : Goal D → Parser D → Ast D → Parser D → Prop
  | .primary, p, tree, next => Passes p.current.kind.startsPrimary p next ∧
      (p.current.kind.startsPrimary = false → tree = .null)
  | .declaration, p, _, next => Passes p.current.kind.startsType p next ∧
      (next.left < p.left ∨ next.error.isSome = true)
  | .block, p, _, next => p.current.kind = .lbrace → next.left < p.left
  | .blockLoop .., p, _, _ => p.current.kind.spins = false
  | .arguments .., _, _, _ | .parameters .., _, _, _ | .program _, _, _, _ => True
  | goal, p, _, next => Passes (goal.starts p.current.kind) p next

/-- Calls to the given depth do what they should. -/
def RunsAt (D : Type) [Double D] (depth : Nat) : Prop :=
  ∀ (goal : Goal D) (p : Parser D), p.Clean →
    Runs (run depth goal) p (p.weight goal < depth) (goal.Done p)

section Functions

variable {depth : Nat} {p q : Parser D} {goal caller : Goal D}

omit [Double D] in
theorem weight_lt (le : q.left ≤ p.left) (less : q.rank goal < p.rank caller) :
    q.weight goal < p.weight caller := by
  rw [Parser.weight, Parser.weight]
  omega

omit [Double D] in
theorem weight_lt_of_moved (moved : q.left < p.left) : q.weight goal < p.weight caller := by
  have rank := rank_lt q goal
  rw [Parser.weight, Parser.weight]
  omega

variable (ih : RunsAt D depth)

include ih

theorem RunsAt.call (goal : Goal D) (clean : q.Clean) (less : q.weight goal < p.weight caller) :
    Runs (run depth goal) q (p.weight caller ≤ depth) (goal.Done q) :=
  (ih goal q clean).mono less.trans_le fun _ _ _ done => done

/-- The depth suffices for everything that follows a token that has been passed. -/
theorem RunsAt.behind {α : Type} {rest : Parse D α} (program : RunProgram depth rest)
    (clean : q.Clean) (moved : q.left < p.left) :
    Runs rest q (p.weight caller ≤ depth) fun _ _ => True := by
  refine Program.runs ?_ program clean le_rfl
  intro goal r rClean le
  exact (ih.call goal rClean (weight_lt_of_moved (le.trans_lt moved))).mono id fun _ _ _ _ => trivial

theorem RunsAt.advance {α : Type} {rest : Parse D α} (program : RunProgram depth rest)
    (clean : q.Clean) (le : q.left ≤ p.left) (notEof : q.current.kind ≠ .eof) :
    Runs (Cint.advance >>= fun _ => rest) q (p.weight caller ≤ depth)
      fun _ next => next.left < q.left := by
  refine (advance_runs clean notEof).bind ?_
  intro _ next nextClean _ passed
  exact (ih.behind program nextClean (passed.trans_le le)).mono id fun _ _ lastLe _ =>
    lastLe.trans_lt passed

section

variable (clean : p.Clean)
include clean

theorem primary_runs : Runs (parsePrimary (run depth)) p (p.weight .primary ≤ depth)
    (Goal.primary.Done p) := by
  rw [parsePrimary, Runs.gets_bind]
  split_ifs with starts
  · refine (ih.advance (.primaryRest anyEvent p.current) clean le_rfl
      (ne_eof starts (by rintro ⟨⟩))).mono id fun _ _ _ moved => ⟨.of_moved moved starts, ?_⟩
    exact fun other => absurd (starts.symm.trans other) (by simp)
  · refine (error_runs _ clean).mono id ?_
    rintro _ next - ⟨rfl, still, -⟩
    exact ⟨.of_still still starts, fun _ => rfl⟩

theorem postfix_runs : Runs (parsePostfix (run depth)) p (p.weight .postfixExpr ≤ depth)
    (Goal.postfixExpr.Done p) := by
  refine Runs.bind (ih.call .primary clean (weight_lt le_rfl (by simp [Parser.rank]))) ?_
  rintro expr next nextClean le ⟨passes, null⟩
  split
  · exact .pure nextClean passes
  next isTree =>
    have starts : p.current.kind.startsPrimary = true := by
      by_contra other
      exact isTree (null (by simpa using other))
    refine (ih.call (.postfixLoop expr) nextClean (weight_lt le (by simp [Parser.rank]))).mono id ?_
    exact fun _ _ lastLe _ => .of_moved (lastLe.trans_lt (passes.moved starts)) starts

theorem postfixLoop_runs (expr : Ast D) : Runs (parsePostfixLoop (run depth) expr) p
    (p.weight (.postfixLoop expr) ≤ depth) ((Goal.postfixLoop expr).Done p) := by
  rw [parsePostfixLoop, here, Runs.gets_bind, currentKind, Runs.gets_bind]
  split_ifs with continues
  · exact (ih.advance (.postfixRest anyEvent expr _ _) clean le_rfl
      (ne_eof continues (by rintro ⟨⟩))).mono id fun _ _ _ moved => .of_moved moved continues
  · exact .pure clean (.of_still (.refl p) continues)

theorem arguments_runs (func : Ast D) (args : List (Ast D)) (pos : Pos) :
    Runs (parseArguments (run depth) func args pos) p (p.weight (.arguments func args pos) ≤ depth)
      fun _ _ => True := by
  refine Runs.bind (ih.call .assignment clean (weight_lt le_rfl (by simp [Parser.rank]))) ?_
  intro arg next nextClean le _
  have still := record_still (.store .args args.length) next
  have storedClean := still.clean nextClean
  have storedLe := still.left_eq.le.trans le
  rw [Runs.record_bind, check, Runs.gets_bind]
  split_ifs with comma
  · exact (ih.advance (.call _) storedClean storedLe
      (by rw [of_decide_eq_true comma]; decide)).mono id fun _ _ _ _ => trivial
  · refine Runs.bind (Callless.runs (.expect _ _) storedClean) ?_
    intro _ last lastClean lastLe _
    refine (ih.call _ lastClean ?_).mono id fun _ _ _ _ => trivial
    exact weight_lt (lastLe.trans storedLe) (by simp [Parser.rank])

theorem unary_runs : Runs (parseUnary (run depth)) p (p.weight .unary ≤ depth)
    (Goal.unary.Done p) := by
  rw [parseUnary, here, Runs.gets_bind, currentKind, Runs.gets_bind]
  have isSome := unary_isSome (D := D) p.current.kind
  cases operator : (p.current.kind.unary : Option (Pos → Ast D → Ast D)) with rw [operator] at isSome
  | some make =>
    refine (ih.advance (.bind (.call _) fun _ => .pure _) clean le_rfl
      (ne_eof operator (by rintro ⟨⟩))).mono id fun _ _ _ moved => .of_moved moved ?_
    rw [Goal.starts, Kind.startsUnary, ← isSome, Option.isSome_some, Bool.or_true]
  | none =>
    refine (ih.call .postfixExpr clean (weight_lt le_rfl (by simp [Parser.rank]))).mono id ?_
    intro _ _ _ passes
    change Passes p.current.kind.startsUnary p _
    rwa [Kind.startsUnary, ← isSome, Option.isSome_none, Bool.or_false]

theorem binary_runs (level : Level) : Runs (parseBinary level (run depth)) p
    (p.weight (.binary level) ≤ depth) ((Goal.binary level).Done p) := by
  have operandRank : p.rank (level.operand : Goal D) < p.rank (.binary level) := by
    cases level <;> simp [Parser.rank, Level.operand, Level.index]
  refine Runs.bind (ih.call level.operand clean (weight_lt le_rfl operandRank)) ?_
  intro left next nextClean le first
  refine (ih.call (.binaryLoop level left) nextClean (weight_lt le ?_)).mono id ?_
  · cases level <;> simp [Parser.rank, Level.index]
  · intro _ _ lastLe second
    have passes : Passes ((level.operand : Goal D).starts p.current.kind) p next := by
      cases level <;> exact first
    change Passes (level.starts p.current.kind) p _
    rw [Level.starts_eq (D := D)]
    exact passes.seq (fun kind => (level.operator kind).isSome) second lastLe

theorem binaryLoop_runs (level : Level) (left : Ast D) :
    Runs (parseBinaryLoop level (run depth) left) p (p.weight (.binaryLoop level left) ≤ depth)
      ((Goal.binaryLoop level left).Done p) := by
  rw [parseBinaryLoop, here, Runs.gets_bind, currentKind, Runs.gets_bind]
  cases operator : level.operator p.current.kind with
  | some op =>
    exact (ih.advance (.bind (.call _) fun _ => .call _) clean le_rfl (ne_eof operator
      (by cases level <;> rintro ⟨⟩))).mono id fun _ _ _ moved => .of_moved moved
        (by rw [Goal.starts, operator]; rfl)
  | none => exact .pure clean (.of_still (.refl p) (by simp [Goal.starts, operator]))

theorem ternary_runs : Runs (parseTernary (run depth)) p (p.weight .ternary ≤ depth)
    (Goal.ternary.Done p) := by
  refine Runs.bind (ih.call (.binary .or) clean (weight_lt le_rfl (by
    simp [Parser.rank, Level.index]))) ?_
  intro cond middle middleClean le first
  suffices second : Runs _ middle _ fun _ next =>
      Passes (decide (middle.current.kind = .question)) middle next from
    second.mono id fun _ _ lastLe passes =>
      first.seq (fun kind => decide (kind = .question)) passes lastLe
  rw [check, Runs.gets_bind]
  split_ifs with found
  · rw [here]
    exact (ih.advance (.bind (.call _) fun _ => .bind (.expect _ _) fun _ => .bind (.call _) fun _ =>
      .pure _) middleClean le (by rw [of_decide_eq_true found]; decide)).mono id
        fun _ _ _ moved => .of_moved moved found
  · exact .pure middleClean (.of_still (.refl middle) found)

theorem assignment_runs : Runs (parseAssignment (run depth)) p (p.weight .assignment ≤ depth)
    (Goal.assignment.Done p) := by
  refine Runs.bind (ih.call .ternary clean (weight_lt le_rfl (by simp [Parser.rank]))) ?_
  intro left middle middleClean le first
  suffices second : Runs _ middle _ fun _ next =>
      Passes middle.current.kind.assignOp.isSome middle next from
    second.mono id fun _ _ lastLe passes =>
      first.seq (fun kind => kind.assignOp.isSome) passes lastLe
  rw [here, Runs.gets_bind, currentKind, Runs.gets_bind]
  cases operator : middle.current.kind.assignOp with
  | some op =>
    exact (ih.advance (.bind (.call _) fun _ => .pure _) middleClean le
      (ne_eof operator (by rintro ⟨⟩))).mono id fun _ _ _ moved => .of_moved moved rfl
  | none => exact .pure middleClean (Still.refl middle).passes

/-! ### Statements -/

theorem block_runs : Runs (parseBlock (run depth)) p (p.weight .block ≤ depth)
    (Goal.block.Done p) := by
  rw [parseBlock, here, Runs.gets_bind]
  refine Runs.bind (expect_runs _ clean (by decide)) ?_
  intro _ next nextClean le passes
  by_cases opens : p.current.kind = .lbrace
  · have moved := passes.moved (by simpa using opens)
    exact (ih.call _ nextClean (weight_lt_of_moved moved)).mono id fun _ _ lastLe _ _ =>
      lastLe.trans_lt moved
  · exact (ih.call _ nextClean (weight_lt le (by simp [Parser.rank, opens]))).mono id
      fun _ _ _ _ isOpen => absurd isOpen opens

omit clean in
omit ih in
/-- What was in the log before a program is in the log behind it. -/
theorem LiveLog.before {α : Type} {x : Parse D α} (live : LiveLog (x p).2) (depth : Nat)
    (program : RunProgram depth x) : LiveLog p := by
  have grows := (Program.approx (fun _ => .refl _) (run_log depth) program).2 p
  exact fun event member => live event (grows.subset member)

theorem blockLoop_runs (stmts : List (Ast D)) (pos : Pos) :
    Runs (parseBlockLoop (run depth) stmts pos) p (p.weight (.blockLoop stmts pos) ≤ depth)
      ((Goal.blockLoop stmts pos).Done p) := by
  rw [parseBlockLoop, currentKind, Runs.gets_bind]
  split_ifs with ends
  · refine (Callless.runs (.bind (.expect _ _) fun _ => .pure _) clean).mono id fun _ _ _ _ => ?_
    rw [Bool.or_eq_true, decide_eq_true_eq, decide_eq_true_eq] at ends
    rcases ends with atEnd | atEnd <;> rw [Goal.Done, atEnd] <;> rfl
  · rw [Bool.or_eq_true, decide_eq_true_eq, decide_eq_true_eq, not_or] at ends
    have still := record_still (.iteration p.current.kind) p
    have storedClean := still.clean clean
    have idle := startsStatement_eq ends.1 ends.2
    rw [Runs.record_bind]
    cases spins : p.current.kind.spins with rw [spins] at idle
    | false =>
      refine Runs.bind (ih.call .statement storedClean
        (weight_lt still.left_eq.le (by simp [Parser.rank]))) ?_
      intro stmt next nextClean _ passes
      have stored := record_still (.store .stmts stmts.length) next
      have moved := passes.moved (by rw [still.current]; exact idle)
      rw [still.left_eq] at moved
      rw [Runs.record_bind]
      exact (ih.call _ (stored.clean nextClean)
        (weight_lt_of_moved (stored.left_eq.le.trans_lt moved))).mono id fun _ _ _ _ => spins
    | true =>
      refine ⟨fun returned => ?_, fun _ live => ?_⟩
      · -- The next iteration starts where this one did.
        obtain ⟨stmt, next, stmtEq, restEq⟩ := bind_eq_some returned
        obtain ⟨nextClean, -, passes⟩ := (ih .statement _ storedClean).1 stmtEq
        have stays := still.trans ((passes.still (by rw [still.current]; exact idle)).trans
          (record_still (.store .stmts stmts.length) next))
        rw [record_bind] at restEq
        obtain ⟨-, -, again⟩ := (ih (.blockLoop _ pos) _ (stays.clean clean)).1 restEq
        rw [Goal.Done, stays.current, spins] at again
        cases again
      · -- The iteration is in the log, so its token is one that the statement passes.
        have program : RunProgram depth (run depth .statement >>= fun stmt =>
            record (.store .stmts stmts.length) >>= fun _ =>
              run depth (.blockLoop (stmts ++ [stmt]) pos)) :=
          .bind (.call _) fun _ => .bind (.record trivial) fun _ => .call _
        have logged := live.before depth program (.iteration p.current.kind)
          (List.mem_append_right _ (List.mem_singleton_self _))
        exact absurd (spins.symm.trans logged) (by decide)

theorem statement_runs : Runs (parseStatement (run depth)) p (p.weight .statement ≤ depth)
    (Goal.statement.Done p) := by
  rw [parseStatement, here, Runs.gets_bind, currentKind, Runs.gets_bind]
  split_ifs with opensBlock opens isType
  · refine (ih.call .block clean (weight_lt le_rfl (by simp [Parser.rank, opensBlock]))).mono id ?_
    exact fun _ _ _ moved => .of_moved (moved opensBlock)
      (by simp [Goal.starts, Kind.startsStatement, opensBlock])
  · exact (ih.advance (.statementRest _ _) clean le_rfl (ne_eof opens (by rintro ⟨⟩))).mono id
      fun _ _ _ moved => .of_moved moved (by simp [Goal.starts, Kind.startsStatement, opens])
  · refine (ih.call .declaration clean (weight_lt le_rfl (by simp [Parser.rank]))).mono id ?_
    rintro _ _ _ ⟨passes, -⟩
    simpa [Goal.Done, Goal.starts, Kind.startsStatement, opensBlock, opens, isType] using passes
  · refine Runs.bind (ih.call .assignment clean (weight_lt le_rfl (by simp [Parser.rank]))) ?_
    intro expr middle middleClean _ first
    refine Runs.bind (expect_runs _ middleClean (by decide)) ?_
    intro _ last lastClean lastLe second
    have both := first.seq (fun kind => decide (kind = .semicolon)) second lastLe
    refine .pure lastClean ?_
    simpa [Goal.Done, Goal.starts, Kind.startsStatement, opensBlock, opens, isType] using both

/-! ### Declarations -/

theorem declaration_runs : Runs (parseDeclaration (run depth)) p (p.weight .declaration ≤ depth)
    (Goal.declaration.Done p) := by
  rw [parseDeclaration, here, Runs.gets_bind]
  refine Runs.bind (typespec_runs clean) ?_
  rintro type next nextClean _ ⟨passes, someMoved, noneError⟩
  cases type with
  | none => exact .pure nextClean ⟨passes, .inr (noneError rfl)⟩
  | some type =>
    have moved := someMoved (by simp)
    refine (ih.behind (.declarator anyEvent type _) nextClean moved).mono id fun _ _ lastLe _ => ?_
    have further := lastLe.trans_lt moved
    exact ⟨⟨fun _ => further, fun other => absurd moved (passes.still other).not_lt⟩, .inl further⟩

theorem body_runs (less : 1 < q.rank caller) (le : p.left ≤ q.left) :
    Runs (parseBody (run depth)) p (q.weight caller ≤ depth) fun _ _ => True := by
  refine Runs.bind (Callless.runs (.expect _ _) clean) ?_
  intro _ next nextClean nextLe _
  rw [check, Runs.gets_bind]
  split_ifs with opens
  · refine (ih.call .block nextClean (weight_lt (nextLe.trans le) ?_)).mono id fun _ _ _ _ => trivial
    rw [Parser.rank, if_pos (of_decide_eq_true opens)]
    omega
  · exact Callless.runs (.bind (.expect _ _) fun _ => .pure _) nextClean

theorem parameters_runs (type : TypeSpec) (name : Chars) (params : List Param) (pos : Pos) :
    Runs (parseParameters (run depth) type name params pos) p
      (p.weight (.parameters type name params pos) ≤ depth) fun _ _ => True := by
  refine Runs.bind (Callless.runs (.typespec anyEvent) clean) ?_
  intro paramType typed typedClean typedLe _
  refine Runs.bind (Callless.runs (.paramName anyEvent) typedClean) ?_
  intro paramName next nextClean nextLe _
  have still := record_still (.store .params params.length) next
  have storedClean := still.clean nextClean
  have le := still.left_eq.le.trans (nextLe.trans typedLe)
  rw [Runs.record_bind, check, Runs.gets_bind]
  split_ifs with comma
  · exact (ih.advance (.call _) storedClean le
      (by rw [of_decide_eq_true comma]; decide)).mono id fun _ _ _ _ => trivial
  · refine Runs.bind (body_runs ih storedClean (by simp [Parser.rank]) le) ?_
    exact fun _ _ lastClean _ _ => .pure lastClean trivial

theorem program_runs (stmts : List (Ast D)) : Runs (parseProgramLoop (run depth) stmts) p
    (p.weight (.program stmts) ≤ depth) fun _ _ => True := by
  rw [parseProgramLoop, Runs.gets_bind]
  split_ifs with failed ends
  · exact .pure clean trivial
  · exact .pure clean trivial
  · rw [id_eq] at failed
    refine Runs.bind (ih.call .declaration clean
      (weight_lt le_rfl (by simp [Parser.rank, failed]))) ?_
    rintro decl next nextClean le ⟨-, moved | reported⟩
    all_goals
      have still := record_still (.store .stmts stmts.length) next
      rw [Runs.record_bind]
      refine ih.call _ (still.clean nextClean) ?_
    · exact weight_lt_of_moved (still.left_eq.le.trans_lt moved)
    · refine weight_lt (still.left_eq.le.trans le) ?_
      have stays : (record (.store .stmts stmts.length) next).2.error = next.error := rfl
      rw [Parser.rank, Parser.rank, if_pos (by rw [stays]; exact reported), if_neg failed]
      exact Nat.zero_lt_one

end

end Functions

/-- At every depth the calls do what they should. -/
theorem run_runs (depth : Nat) : RunsAt D depth := by
  induction depth with
  | zero => exact fun _ _ _ => ⟨nofun, fun deep => absurd deep (Nat.not_lt_zero _)⟩
  | succ depth ih =>
    intro goal p clean
    suffices runs : Runs (parseGoal (run depth) goal) p (p.weight goal ≤ depth) (goal.Done p) from
      runs.mono Nat.le_of_lt_succ fun _ _ _ done => done
    cases goal with
    | primary => exact primary_runs ih clean
    | postfixExpr => exact postfix_runs ih clean
    | postfixLoop expr => exact postfixLoop_runs ih clean expr
    | arguments func args pos => exact arguments_runs ih clean func args pos
    | unary => exact unary_runs ih clean
    | binary level => cases level <;> exact binary_runs ih clean _
    | binaryLoop level left => exact binaryLoop_runs ih clean level left
    | ternary => exact ternary_runs ih clean
    | assignment => exact assignment_runs ih clean
    | block => exact block_runs ih clean
    | blockLoop stmts pos => exact blockLoop_runs ih clean stmts pos
    | statement => exact statement_runs ih clean
    | declaration => exact declaration_runs ih clean
    | parameters type name params pos => exact parameters_runs ih clean type name params pos
    | program stmts => exact program_runs ih clean stmts

/-- At every token but those that start it, a call stays where it is; at those it passes
the token. -/
theorem run_passes (depth : Nat) (goal : Goal D) (anywhere : goal.Anywhere) :
    PassesAt depth goal := by
  intro p next tree clean returned
  obtain ⟨-, -, done⟩ := (run_runs depth goal p clean).1 returned
  cases goal with
  | primary | declaration => exact done.1
  | arguments | block | blockLoop | parameters | program => cases anywhere
  | _ => exact done

theorem run_passes_statement : PassesAt 9 (.statement : Goal Int) := run_passes 9 _ trivial

/-- With enough depth every run returns, unless an iteration stays where it was. -/
theorem run_halts (depth : Nat) : HaltsAt D depth :=
  fun goal p clean => (run_runs depth goal p clean).2

/-! ## Runs that do not -/

/-- Once an iteration stays, the loop does not return. -/
theorem blockLoop_spins (depth : Nat) (clean : p.Clean) (spins : p.current.kind.spins = true)
    (stmts : List (Ast D)) (pos : Pos) : (run depth (.blockLoop stmts pos) p).1 = none := by
  rcases outcome : run depth (.blockLoop stmts pos) p with ⟨_ | tree, next⟩
  · rfl
  · obtain ⟨-, -, passing⟩ := (run_runs depth _ p clean).1 outcome
    exact absurd (spins.symm.trans passing) (by decide)

/-- Runs that return have no iteration that stays. -/
def KeepsLive (p next : Parser D) : Prop :=
  p.Clean → LiveLog p → next.Clean ∧ LiveLog next

variable {next : Parser D}

omit [Double D] in
theorem KeepsLive.of_log (forward : Forward p next) (same : next.log = p.log) :
    KeepsLive p next := by
  intro clean live
  refine ⟨(forward clean).1, ?_⟩
  rw [LiveLog, same]
  exact live

omit [Double D] in
theorem KeepsLive.trans {q r : Parser D} (first : KeepsLive p q) (second : KeepsLive q r) :
    KeepsLive p r := by
  intro clean live
  obtain ⟨middleClean, middleLive⟩ := first clean live
  exact second middleClean middleLive

omit [Double D] in
theorem record_keepsLive (event : Event) (live : event.Live) (p : Parser D) :
    KeepsLive p (record event p).2 :=
  fun clean before => ⟨(record_still event p).clean clean, before.record live⟩

theorem advance_keepsLive (p : Parser D) : KeepsLive p (advance p).2 :=
  .of_log (advance_forward p) (advance_log p)

omit [Double D] in
theorem error_keepsLive (msg : String) (p : Parser D) : KeepsLive p (error msg p).2 :=
  .of_log (error_still msg p).forward (error_log msg p)

theorem Program.keepsLive {table : Calls D}
    (calls : ∀ goal p tree next, table goal p = (some tree, next) → KeepsLive p next) {α : Type}
    {x : Parse D α} (program : Program Event.Live table table x x) {value : α}
    (returned : x p = (some value, next)) : KeepsLive p next := by
  refine Program.related_of_some (R := KeepsLive) ?_ calls program returned
  constructor
  · exact fun p clean live => ⟨clean, live⟩
  · exact fun _ _ _ => KeepsLive.trans
  · exact fun event p live => record_keepsLive event live p
  · exact advance_keepsLive
  · exact error_keepsLive

theorem run_keepsLive {depth : Nat} {goal : Goal D} {tree : Ast D}
    (returned : run depth goal p = (some tree, next)) : KeepsLive p next := by
  induction depth generalizing goal p next tree with
  | zero => cases returned
  | succ depth ih =>
    have calls : ∀ goal p tree next, run depth goal p = (some tree, next) → KeepsLive p next :=
      fun _ _ _ _ => ih
    by_cases isLoop : ∃ stmts pos, goal = .blockLoop stmts pos
    · obtain ⟨stmts, pos, rfl⟩ := isLoop
      intro clean live
      -- The loop has returned, so its first iteration did not stay.
      obtain ⟨-, -, passing⟩ := (run_runs (depth + 1) _ p clean).1 returned
      rw [run, parseGoal, parseBlockLoop, currentKind, gets_bind] at returned
      split_ifs at returned
      · refine Program.keepsLive calls ?_ returned clean live
        exact .bind (.expect _ _) fun _ => .pure _
      · rw [record_bind] at returned
        have first : KeepsLive p (record (.iteration p.current.kind) p).2 :=
          record_keepsLive (.iteration p.current.kind) passing p
        refine first.trans (Program.keepsLive calls ?_ returned) clean live
        exact .bind (.call _) fun _ => .bind (.record trivial) fun _ => .call _
    · have program : Program Event.Live (run depth) (run depth) (parseGoal (run depth) goal)
          (parseGoal (run depth) goal) := by
        apply Program.goal fun _ => Event.Plain.live
        intro stmts pos same
        exact isLoop ⟨stmts, pos, same⟩
      exact program.keepsLive calls returned

/-! ## The public functions -/

/-- The public parsing functions. -/
inductive Entry
  | program
  | statement
  | expression
  deriving DecidableEq, Repr

/-- What each of them does. -/
def Entry.parse (depth : Nat) : Entry → Parse D (Ast D)
  | .program => parseProgram depth
  | .statement => parseStatementTop depth
  | .expression => parseExpressionTop depth

theorem Entry.parse_eq_run (entry : Entry) :
    ∃ goal : Goal D, ∀ depth, entry.parse depth = run depth goal := by
  cases entry with
  | program => exact ⟨.program [], fun _ => rfl⟩
  | statement => exact ⟨.statement, fun _ => rfl⟩
  | expression => exact ⟨.assignment, fun _ => rfl⟩

/-- The parser starts with the first token of the string. -/
theorem init_clean (src : Chars) :
    ∃ p : Parser D, Parser.init src 0 = some p ∧ p.Clean ∧ p.log = [] := by
  have clean : (Lexer.init src 0).Clean := zero_not_mem_cString src
  obtain ⟨token, after, read, _⟩ := next_clean (D := D) clean
  obtain ⟨onward, atEnd⟩ := next_onward read
  exact ⟨_, by rw [Parser.init, read]; rfl, ⟨clean.of_suffix onward.suffix, atEnd⟩, rfl⟩

end QDaemon.Cint
