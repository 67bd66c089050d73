import QDaemon.Cint.Evaluator

/-!
# Invariants of the evaluator

What the evaluator does to its state is a handful of moves: a value is made, read from a
variable or taken out of the stored result; it is stored, freed or dropped; a scope is
entered or left; an event is put down.  A property of the state, together with the values
that the evaluator has in its hands, that every move keeps holds at the end of every
evaluation.  The scopes of calls are counted as well: an evaluation ends in the scope in which
it started.
-/

namespace QDaemon.Cint

open Option Text Eval

variable {D : Type}

/-! ## Statements that leave a tree -/

mutual

/-- The tree has a statement with this flow that no loop and no function in the tree takes
back. -/
def Ast.exits (flow : Flow) : Ast D → Bool
  | .binop _ _ left right => left.exits flow || right.exits flow
  | .unop _ _ operand => operand.exits flow
  | .assign _ _ _ value => value.exits flow
  | .call _ _ args => exitsAny flow args
  | .ternary _ cond thenExpr elseExpr =>
      cond.exits flow || thenExpr.exits flow || elseExpr.exits flow
  | .block _ stmts => exitsAny flow stmts
  | .ifStmt _ cond thenBody elseBody =>
      cond.exits flow || thenBody.exits flow || elseBody.exits flow
  | .whileStmt _ cond body => cond.exits flow || flow = .returning && body.exits flow
  | .forStmt _ init cond incr body =>
      init.exits flow || cond.exits flow || incr.exits flow ||
        flow = .returning && body.exits flow
  | .breakStmt _ => flow = .breaking
  | .continueStmt _ => flow = .continuing
  | .returnStmt _ value => flow = .returning || value.exits flow
  | .exprStmt _ expr => expr.exits flow
  | .varDecl _ _ _ init => init.exits flow
  | _ => false

/-- One of the trees has such a statement. -/
def Ast.exitsAny (flow : Flow) : List (Ast D) → Bool
  | [] => false
  | tree :: trees => tree.exits flow || exitsAny flow trees

end

/-- The flows with which a task can end. -/
def Eval.Task.exits (flow : Flow) : Eval.Task D → Bool
  | .node _ _ ast => ast.exits flow
  | .whileLoop _ _ cond body => cond.exits flow || flow = .returning && body.exits flow
  | .forLoop _ _ cond incr body =>
      cond.exits flow || incr.exits flow || flow = .returning && body.exits flow

/-- The flows with which a tree can end are allowed. -/
def Ast.Obeys (ast : Ast D) (may : Flow → Prop) : Prop :=
  ∀ flow, ast.exits flow = true → may flow

theorem Ast.obeys_of_any {trees : List (Ast D)} {may : Flow → Prop}
    (allowed : ∀ flow, exitsAny flow trees = true → may flow) : ∀ tree ∈ trees, tree.Obeys may := by
  induction trees with
  | nil => exact nofun
  | cons first trees ih =>
    simp only [exitsAny, Bool.or_eq_true, or_imp, forall_and] at allowed
    exact List.forall_mem_cons.mpr ⟨allowed.1, ih allowed.2⟩

/-- From one state to another flow and stored result are kept, cleared, or set as `may` allows. -/
structure Within (may : Flow → Prop) (s t : State D) : Prop where
  flow : t.flow = s.flow ∨ t.flow = .normal ∨ may t.flow
  result : t.returnValue = s.returnValue ∨ t.returnValue = .void ∨ may .returning

theorem Within.refl {may : Flow → Prop} (s : State D) : Within may s s := ⟨.inl rfl, .inl rfl⟩

theorem Within.mono {may less : Flow → Prop} {s t : State D} (within : Within less s t)
    (allowed : ∀ flow, less flow → may flow) : Within may s t :=
  ⟨within.flow.imp_right (Or.imp_right (allowed _)),
    within.result.imp_right (Or.imp_right (allowed _))⟩

/-! ## Moves -/

/-- A property of the values in the hands of the evaluator and of its state, for evaluations
that start in at least `floor` calls of functions, and what is known of the state in which an
evaluation stops without a value. -/
structure Invariant (D : Type) where
  floor : Nat
  isTree : Nat → Prop
  holds : List (Value D) → State D → Prop
  stopped : Option Fault → State D → Prop
  /-- A value is dropped. -/
  drop {value : Value D} {hand : List (Value D)} {s : State D} :
    holds (value :: hand) s → holds hand s
  /-- A number is made. -/
  scalar {value : Value D} {hand : List (Value D)} {s : State D} :
    value.isScalar = true → holds hand s → holds (value :: hand) s
  /-- A string is made. -/
  string {hand : List (Value D)} {s : State D} (text : Chars) : holds hand s →
    holds (.string s.strings.length :: hand) { s with strings := s.strings ++ [text] }
  /-- A variable is read. -/
  readVar {value : Value D} {hand : List (Value D)} {s : State D} {name : Chars} :
    s.find name = some value → holds hand s → holds (value :: hand) (noteRead value s).2
  /-- A function is found. -/
  callee {hand : List (Value D)} {s : State D} {name : Chars} {tree : Nat} {params : List Param}
    {body : Ast D} : s.find name = some (.func tree params body) → holds hand s → isTree tree
  /-- A function is made. -/
  declare {hand : List (Value D)} {s : State D} {tree : Nat} (params : List Param)
    (body : Ast D) : isTree tree → holds hand s →
    holds (.func tree params body :: hand) (s.note (.declares tree))
  /-- The flow, the error or the output changes. -/
  control {hand : List (Value D)} {s : State D} (flow : Flow) (error : Option Chars)
    (errorLine : Nat) (output : Chars) : holds hand s →
    holds hand { s with flow := flow, error := error, errorLine := errorLine, output := output }
  /-- A string is freed. -/
  free {hand : List (Value D)} {s : State D} {id : Nat} : holds (.string id :: hand) s →
    id ∉ s.freed → holds hand { s with freed := s.freed ++ [id] }
  /-- A string that has been freed is freed or read. -/
  freed {hand : List (Value D)} {s : State D} {id : Nat} {fault : Fault} :
    holds (.string id :: hand) s → id ∈ s.freed → stopped (some fault) s
  /-- The evaluation stops for another reason. -/
  stop {hand : List (Value D)} {s : State D} {fault : Option Fault} :
    fault ≠ some .doubleFree → fault ≠ some .useAfterFree → holds hand s → stopped fault s
  /-- The value of a variable is freed and replaced by one that stays in the hand. -/
  replace {value old : Value D} {s : State D} {name : Chars} :
    s.find name = some old → (∀ id, old.stringId = some id → id ∉ s.freed) → holds [value] s →
    holds [value] ({ (noteAssign value s).2 with
      freed := (noteAssign value s).2.freed ++ old.stringId.toList }.assign name value)
  /-- The value of a variable that is replaced has been freed. -/
  replaceFreed {value : Value D} {s : State D} {name : Chars} {id : Nat} :
    s.find name = some (.string id) → id ∈ s.freed → holds [value] s →
    stopped (some .doubleFree) (noteAssign value s).2
  /-- A variable becomes a number. -/
  setNumber {value : Value D} {hand : List (Value D)} {s : State D} (name : Chars) :
    value.isScalar = true → holds hand s → holds hand (s.assign name value)
  /-- A variable is declared. -/
  define {hand : List (Value D)} {s : State D} (name : Chars) :
    holds hand s → holds hand (s.setCurrent (⟨name, .void⟩ :: s.current))
  /-- A variable that has been declared gets its value. -/
  setPlace {value : Value D} {hand : List (Value D)} {s : State D} (place : Nat) :
    holds (value :: hand) s → holds hand (s.setCurrent (setPlace place value s.current))
  /-- The result of a function is stored. -/
  setReturn {value : Value D} {hand : List (Value D)} {s : State D} :
    holds (value :: hand) s → holds hand { s with returnValue := value }
  /-- The stored result is taken. -/
  takeReturn {hand : List (Value D)} {s : State D} : holds hand s →
    holds (s.returnValue :: hand) { s with returnValue := .void }
  /-- A function is entered. -/
  enter {hand : List (Value D)} {s : State D} :
    holds hand s → holds hand { s with frames := [] :: s.frames }
  /-- A function is left with its variables in the hand. -/
  leave {hand : List (Value D)} {s : State D} {vars : List (Var D)}
    {frames : List (List (Var D))} : s.frames = vars :: frames → holds hand s →
    holds (vars.map Var.value ++ hand) { s with frames := frames }
  /-- A value waits in a local variable. -/
  hold {value : Value D} {hand : List (Value D)} {s : State D} :
    holds (value :: hand) s → holds hand { s with temps := value.stringId :: s.temps }
  /-- The local variable ends. -/
  release {hand : List (Value D)} {s : State D} :
    holds hand s → holds hand { s with temps := s.temps.tail }
  /-- The evaluation of a node ends. -/
  leaves {value : Value D} {s : State D} :
    holds [value] s → holds [value] (s.note (.leaves (owned s value) s.freed))
  /-- A native function is called. -/
  nativeCall {hand : List (Value D)} {s : State D} (name : Chars) (args : List (BitVec 64)) :
    holds hand s → holds hand (s.note (.nativeCall name args))
  /-- An argument of a function is evaluated. -/
  argument {hand : List (Value D)} {s : State D} (index : Nat) : floor < s.frames.length →
    holds hand s → holds hand (s.note (.argument index s.frames.length))

/-! ## Sequences -/

section Sequences

variable {α β : Type} {action : Eval D α} {s next : State D}
variable {value : Value D} {op : BinOp}

theorem Eval.bind_apply (action : Eval D α) (rest : α → Eval D β) (s : State D) :
    (action >>= rest) s = match action s with
      | (.done value, s) => rest value s
      | (.exhausted, s) => (.exhausted, s)
      | (.fault fault, s) => (.fault fault, s) := rfl

theorem Eval.bind_of_done {value : α} (returned : action s = (.done value, next))
    (rest : α → Eval D β) : (action >>= rest) s = rest value next := by
  rw [bind_apply, returned]

theorem Eval.bind_of_exhausted (stopped : action s = (.exhausted, next)) (rest : α → Eval D β) :
    (action >>= rest) s = (.exhausted, next) := by
  rw [bind_apply, stopped]

theorem Eval.bind_of_fault {fault : Fault} (stopped : action s = (.fault fault, next))
    (rest : α → Eval D β) : (action >>= rest) s = (.fault fault, next) := by
  rw [bind_apply, stopped]

/-- A sequence that returns is two evaluations that return. -/
theorem Eval.bind_eq_done {rest : α → Eval D β} {result : β} {last : State D}
    (returned : (action >>= rest) s = (.done result, last)) :
    ∃ value next, action s = (.done value, next) ∧ rest value next = (.done result, last) := by
  rcases outcome : action s with ⟨value | _ | fault, next⟩
  · rw [bind_of_done outcome] at returned
    exact ⟨value, next, rfl, returned⟩
  · rw [bind_of_exhausted outcome] at returned
    cases returned
  · rw [bind_of_fault outcome] at returned
    cases returned

/-- A value is freed once. -/
theorem valFree_of_not_freed (notFreed : ∀ id, value.stringId = some id → id ∉ s.freed) :
    valFree value s = (.done (), { s with freed := s.freed ++ value.stringId.toList }) := by
  cases value with
  | string id =>
    show (if id ∈ s.freed then Eval.fault .doubleFree else _) s = _
    rw [if_neg (notFreed id rfl)]
    rfl
  | _ => simp [valFree, pure, Value.stringId]

theorem valFree_of_freed {id : Nat} (freed : id ∈ s.freed) :
    valFree (.string id) s = (.fault .doubleFree, s) := by
  show (if id ∈ s.freed then Eval.fault .doubleFree else _) s = _
  rw [if_pos freed]
  rfl

end Sequences

/-! ## Scopes -/

/-- Where an evaluation stands: the number of calls, the flow and the stored result. -/
def State.standing (s : State D) : Nat × Flow × Value D :=
  (s.frames.length, s.flow, s.returnValue)

theorem State.setCurrent_standing (s : State D) (vars : List (Var D)) :
    (s.setCurrent vars).standing = s.standing := by
  rw [State.setCurrent, State.standing, State.standing]
  split
  · rfl
  next some => simp [some]

theorem State.assign_standing (s : State D) (name : Chars) (value : Value D) :
    (s.assign name value).standing = s.standing := by
  rw [State.assign]
  split
  · exact s.setCurrent_standing _
  · rfl

namespace Invariant

variable (inv : Invariant D)

/-! ## Judgements -/

/-- The invariant in a state with a given number of calls. -/
structure Good (calls : Nat) (hand : List (Value D)) (s : State D) : Prop where
  depth : s.frames.length = calls
  above : inv.floor ≤ calls
  holds : inv.holds hand s

/-- An evaluation from a state ends with the invariant. -/
def Ends {α : Type} (calls : Nat) (action : Eval D α) (s : State D)
    (after : α → List (Value D)) : Prop :=
  match action s with
  | (.done value, last) => inv.Good calls (after value) last
  | (.exhausted, last) => inv.stopped none last
  | (.fault fault, last) => inv.stopped (some fault) last

/-- The invariant, and flow and stored result within what is allowed since `start`. -/
structure Kept (may : Flow → Prop) (start : State D) (calls : Nat) (hand : List (Value D))
    (s : State D) : Prop extends inv.Good calls hand s, Within may start s

/-- An evaluation from a state ends with the invariant and within what is allowed. -/
def Keeps {α : Type} (may : Flow → Prop) (start : State D) (calls : Nat) (action : Eval D α)
    (s : State D) (after : α → List (Value D)) : Prop :=
  match action s with
  | (.done value, last) => inv.Kept may start calls (after value) last
  | (.exhausted, last) => inv.stopped none last
  | (.fault fault, last) => inv.stopped (some fault) last

variable {inv} {α β : Type} {n : Nat} {hand : List (Value D)} {s : State D}
variable {may less : Flow → Prop} {start : State D}

theorem Good.kept (good : inv.Good n hand s) : inv.Kept may s n hand s := ⟨good, .refl s⟩

theorem Kept.mono (good : inv.Kept less start n hand s)
    (allowed : ∀ flow, less flow → may flow) : inv.Kept may start n hand s :=
  ⟨good.toGood, good.toWithin.mono allowed⟩

theorem Kept.map {t : State D} {hand' : List (Value D)} (good : inv.Kept may start n hand s)
    (same : t.standing = s.standing) (holds : inv.holds hand' t) :
    inv.Kept may start n hand' t := by
  simp only [State.standing, Prod.mk.injEq] at same
  obtain ⟨sameDepth, sameFlow, sameResult⟩ := same
  refine ⟨⟨sameDepth.trans good.depth, good.above, holds⟩, ?_, ?_⟩
  · rw [sameFlow]
    exact good.flow
  · rw [sameResult]
    exact good.result

theorem Kept.drop (good : inv.Kept may start n (value :: hand) s) : inv.Kept may start n hand s :=
  good.map rfl (inv.drop good.holds)

theorem Kept.scalar (good : inv.Kept may start n hand s) (isScalar : value.isScalar = true) :
    inv.Kept may start n (value :: hand) s :=
  good.map rfl (inv.scalar isScalar good.holds)

theorem Kept.void (good : inv.Kept may start n hand s) : inv.Kept may start n (.void :: hand) s :=
  good.scalar rfl

/-- The flow is cleared. -/
theorem Kept.clear (good : inv.Kept may start n hand s) :
    inv.Kept may start n hand { s with flow := .normal } :=
  ⟨⟨good.depth, good.above, inv.control .normal s.error s.errorLine s.output good.holds⟩,
    .inr (.inl rfl), good.result⟩

variable {after : α → List (Value D)}

theorem Ends.good {action : Eval D α} {value : α} {last : State D}
    (ends : inv.Ends n action s after) (returned : action s = (.done value, last)) :
    inv.Good n (after value) last := by
  rw [Ends, returned] at ends
  exact ends

theorem Keeps.kept {action : Eval D α} {value : α} {last : State D}
    (keeps : inv.Keeps may start n action s after) (returned : action s = (.done value, last)) :
    inv.Kept may start n (after value) last := by
  rw [Keeps, returned] at keeps
  exact keeps

theorem Keeps.ends {action : Eval D α} (keeps : inv.Keeps may start n action s after) :
    inv.Ends n action s after := by
  rw [Keeps] at keeps
  rw [Ends]
  rcases outcome : action s with ⟨value | _ | fault, last⟩ <;> rw [outcome] at keeps
  · exact keeps.toGood
  · exact keeps
  · exact keeps

/-- The flows do not matter. -/
theorem ends_of_keeps {action : Eval D α}
    (keeps : inv.Kept (fun _ => True) s n hand s → inv.Keeps (fun _ => True) s n action s after)
    (good : inv.Good n hand s) : inv.Ends n action s after :=
  (keeps good.kept).ends

theorem keeps_pure {value : α} (good : inv.Kept may start n (after value) s) :
    inv.Keeps may start n (pure value) s after :=
  good

theorem keeps_gets_bind {read : State D → α} {rest : α → Eval D β} {after : β → List (Value D)}
    (following : inv.Keeps may start n (rest (read s)) s after) :
    inv.Keeps may start n (gets read >>= rest) s after :=
  following

theorem keeps_modify_bind {change : State D → State D} {rest : Unit → Eval D β}
    {after : β → List (Value D)} (following : inv.Keeps may start n (rest ()) (change s) after) :
    inv.Keeps may start n (modify change >>= rest) s after :=
  following

theorem keeps_bind {begin : State D} {m : Nat} {action : Eval D α} {rest : α → Eval D β}
    {middle : α → List (Value D)} {after : β → List (Value D)}
    (first : inv.Keeps less begin m action s middle)
    (following : ∀ value next, inv.Kept less begin m (middle value) next →
      inv.Keeps may start n (rest value) next after) :
    inv.Keeps may start n (action >>= rest) s after := by
  rw [Keeps] at first ⊢
  rcases outcome : action s with ⟨value | _ | fault, next⟩ <;> rw [outcome] at first
  · rw [bind_of_done outcome]
    exact following value next first
  · rw [bind_of_exhausted outcome]
    exact first
  · rw [bind_of_fault outcome]
    exact first

/-- A fault other than one of memory. -/
theorem keeps_fault {fault : Fault} (holds : inv.holds hand s) (notFree : fault ≠ .doubleFree)
    (notUse : fault ≠ .useAfterFree) : inv.Keeps may start n (Eval.fault fault : Eval D α) s after :=
  inv.stop (fun same => notFree (some.inj same)) (fun same => notUse (some.inj same)) holds

variable {who : Pointer}

theorem keeps_access_bind (holds : inv.holds hand s) {rest : Unit → Eval D β}
    {after : β → List (Value D)} (following : inv.Keeps may start n (rest ()) s after) :
    inv.Keeps may start n (access who >>= rest) s after := by
  cases who with
  | live => exact following
  | bogus => exact keeps_fault holds nofun nofun

section

variable (good : inv.Kept may start n hand s)
include good

/-- A computed value that may not be defined. -/
theorem keeps_check {value : Option α}
    (defined : ∀ result, value = some result → inv.Kept may start n (after result) s) :
    inv.Keeps may start n (Eval.check .arithmetic value) s after := by
  cases value with
  | none => exact keeps_fault good.holds nofun nofun
  | some result => exact defined result rfl

/-! ## Values -/

omit good in
theorem keeps_valFree (good : inv.Kept may start n (value :: hand) s) :
    inv.Keeps may start n (valFree value) s fun _ => hand := by
  cases value with
  | string id =>
    apply keeps_gets_bind
    split_ifs with member
    · exact inv.freed good.holds member
    · exact good.map rfl (inv.free good.holds member)
  | _ => exact good.drop

omit good in
theorem keeps_readString {id : Nat} (good : inv.Kept may start n (.string id :: hand) s) :
    inv.Keeps may start n (readString id) s fun _ => .string id :: hand := by
  apply keeps_gets_bind
  split_ifs with member
  · exact inv.freed good.holds member
  · exact good

theorem keeps_emit {text : Chars} : inv.Keeps may start n (emit text) s fun _ => hand :=
  good.map rfl (inv.control s.flow s.error s.errorLine (s.output ++ text) good.holds)

theorem keeps_evalError {line : Nat} {msg : Chars} :
    inv.Keeps may start n (evalError line msg) s fun _ => hand :=
  good.map rfl (inv.control s.flow _ line s.output good.holds)

omit good in
theorem keeps_hold (good : inv.Kept may start n (value :: hand) s) :
    inv.Keeps may start n (Eval.hold value) s fun _ => hand :=
  good.map rfl (inv.hold good.holds)

theorem keeps_release : inv.Keeps may start n (Eval.release : Eval D Unit) s fun _ => hand :=
  good.map rfl (inv.release good.holds)

end

section Numbers

variable [Double D]

theorem keeps_valToInt (good : inv.Kept may start n hand s) :
    inv.Keeps may start n (valToInt value) s fun _ => hand :=
  keeps_check good fun _ _ => good

theorem keeps_valToBool (good : inv.Kept may start n (value :: hand) s) :
    inv.Keeps may start n (valToBool value) s fun _ => hand := by
  cases value with
  | string id => exact keeps_bind (keeps_readString good) fun text next good => good.drop
  | _ => exact good.drop

theorem keeps_valPrint (good : inv.Kept may start n (value :: hand) s) :
    inv.Keeps may start n (valPrint value) s fun _ => value :: hand := by
  cases value with
  | string id => exact keeps_bind (keeps_readString good) fun text next good => keeps_emit good
  | _ => exact keeps_emit good

theorem scalar_floatBinop (op : BinOp) (left right : D) :
    (floatBinop op left right).isScalar = true := by
  cases op <;> rfl

variable {result : Value D}

omit [Double D] in
theorem scalar_intBinop {left right : BitVec 64} (computed : intBinop op left right = some result) :
    result.isScalar = true := by
  have number {source : Option (BitVec 64)} (made : source.map .int = some result) :
      result.isScalar = true := by
    obtain ⟨value, _, rfl⟩ := map_eq_some_iff.mp made
    rfl
  cases op <;> first | exact number computed | (cases computed; rfl)

theorem scalar_binop {left right : Value D} (computed : binop op left right = some result) :
    result.isScalar = true := by
  rw [binop.eq_def] at computed
  split at computed
  · cases computed
    exact scalar_floatBinop _ _ _
  · cases computed
    exact scalar_floatBinop _ _ _
  · obtain ⟨l, _, rest⟩ := bind_eq_some_iff.mp computed
    obtain ⟨r, _, last⟩ := bind_eq_some_iff.mp rest
    exact scalar_intBinop last

theorem scalar_negate (computed : negate value = some result) : result.isScalar = true := by
  rw [negate.eq_def] at computed
  split at computed
  · cases computed
    rfl
  · obtain ⟨number, _, rest⟩ := bind_eq_some_iff.mp computed
    obtain ⟨fits, _, rfl⟩ := map_eq_some_iff.mp rest
    rfl

theorem scalar_complement (computed : complement value = some result) : result.isScalar = true := by
  obtain ⟨number, _, rfl⟩ := map_eq_some_iff.mp computed
  rfl

end Numbers

/-! ## Scopes -/

variable {name : Chars}

theorem keeps_scopeDefine (good : inv.Kept may start n hand s) :
    inv.Keeps may start n (scopeDefine name) s fun _ => hand :=
  good.map (s.setCurrent_standing _) (inv.define name good.holds)

theorem keeps_setVar {place : Nat} (good : inv.Kept may start n (value :: hand) s) :
    inv.Keeps may start n (setVar place value) s fun _ => hand :=
  good.map (s.setCurrent_standing _) (inv.setPlace place good.holds)

theorem keeps_freeVars {vars : List (Var D)}
    (good : inv.Kept may start n (vars.map Var.value ++ hand) s) :
    inv.Keeps may start n (freeVars vars) s fun _ => hand := by
  induction vars generalizing s with
  | nil => exact good
  | cons var vars ih => exact keeps_bind (keeps_valFree good) fun _ next good => ih good

theorem keeps_leaveScope (good : inv.Kept may start (n + 1) hand s) (above : inv.floor ≤ n) :
    inv.Keeps may start n leaveScope s fun _ => hand := by
  obtain ⟨vars, frames, isCons⟩ := List.exists_cons_of_length_eq_add_one good.depth
  have depth : frames.length = n := by simpa [isCons] using good.depth
  apply keeps_gets_bind
  apply keeps_modify_bind
  rw [State.current, isCons]
  exact keeps_freeVars ⟨⟨depth, above, inv.leave isCons good.holds⟩, good.flow, good.result⟩

/-! ## Functions of the evaluator -/

section Functions

/-- The calls of a table keep the invariant. -/
def Serves (inv : Invariant D) (calls : Eval.Calls D) : Prop :=
  ∀ ⦃n : Nat⦄ ⦃s : State D⦄ (task : Eval.Task D), inv.isTree task.tree → inv.Good n [] s →
    inv.Ends n (calls task) s ([·])

/-- The calls of a table keep the invariant and end with the flows of their tasks. -/
def Supplies (inv : Invariant D) (calls : Eval.Calls D) : Prop :=
  ∀ ⦃may : Flow → Prop⦄ ⦃start : State D⦄ ⦃n : Nat⦄ ⦃s : State D⦄ (task : Eval.Task D),
    inv.isTree task.tree → (∀ flow, task.exits flow = true → may flow) →
    inv.Kept may start n [] s → inv.Keeps may start n (calls task) s ([·])

variable {pos : Pos}

theorem keeps_noteRead (good : inv.Kept may start n hand s) (found : s.find name = some value) :
    inv.Keeps may start n (noteRead value) s fun _ => value :: hand := by
  have kept := inv.readVar found good.holds
  cases value <;> exact good.map rfl kept

theorem keeps_evalIdent (good : inv.Kept may start n [] s) :
    inv.Keeps may start n (evalIdent who pos name : Eval D (Value D)) s ([·]) := by
  apply keeps_access_bind good.holds
  apply keeps_gets_bind
  cases found : s.find name with
  | some value => exact keeps_bind (keeps_noteRead good found) fun _ next good => keeps_pure good
  | none => exact keeps_bind (keeps_evalError good) fun _ next good => keeps_pure good.void

/-- The value of a variable is freed and another one stored. -/
theorem keeps_replaceVar {old : Value D} (good : inv.Kept may start n [value] s)
    (found : s.find name = some old) :
    inv.Keeps may start n (noteAssign value >>= fun _ => replaceVar name old value) s
      ([·]) := by
  have noted : noteAssign value s = (.done (), (noteAssign value s).2) := by
    cases value <;> rfl
  have freedEq : (noteAssign value s).2.freed = s.freed := by cases value <;> rfl
  have same : (noteAssign value s).2.standing = s.standing := by cases value <;> rfl
  rw [Keeps, bind_of_done noted]
  by_cases freed : ∃ id, old = .string id ∧ id ∈ s.freed
  · obtain ⟨id, rfl, member⟩ := freed
    rw [replaceVar, bind_of_fault (valFree_of_freed (freedEq ▸ member))]
    exact inv.replaceFreed found member good.holds
  · have notFreed : ∀ id, old.stringId = some id → id ∉ s.freed := by
      intro id isString member
      cases old with
      | string other => exact freed ⟨other, rfl, by cases isString; exact member⟩
      | _ => cases isString
    rw [replaceVar, bind_of_done (valFree_of_not_freed (freedEq.symm ▸ notFreed))]
    exact good.map ((State.assign_standing _ _ _).trans same)
      (inv.replace found notFreed good.holds)

theorem keeps_invalidTarget (good : inv.Kept may start n [value] s) :
    inv.Keeps may start n (invalidTarget who pos value) s ([·]) := by
  apply keeps_access_bind good.holds
  exact keeps_bind (keeps_evalError good) fun _ next good => keeps_pure good

theorem keeps_bindParam {param : Param} (good : inv.Kept may start n [value] s) :
    inv.Keeps may start n (bindParam param value) s fun _ => [] := by
  rw [bindParam]
  split
  · exact keeps_fault good.holds nofun nofun
  · exact keeps_bind (keeps_scopeDefine good) fun place next good => keeps_setVar good

/-- A loop takes `break` and `continue` back, and leaves `return` to its surroundings. -/
theorem keeps_afterBody {rest : Eval D (Value D)} (good : inv.Kept less start n [] s)
    (allowed : less .returning → may .returning)
    (following : ∀ next, inv.Kept may start n [] next → inv.Keeps may start n rest next ([·])) :
    inv.Keeps may start n (afterBody who rest) s ([·]) := by
  have result := good.result.imp_right (Or.imp_right allowed)
  have cleared : inv.Kept may start n [] { s with flow := .normal } :=
    ⟨good.clear.toGood, .inr (.inl rfl), result⟩
  apply keeps_access_bind good.holds
  apply keeps_gets_bind
  cases isFlow : s.flow with
  | breaking => exact keeps_modify_bind (keeps_pure cleared.void)
  | continuing => exact keeps_modify_bind (following _ cleared)
  | returning =>
    have left : inv.Kept may start n [] s := by
      refine ⟨good.toGood, good.flow.imp_right (Or.imp_right fun left => ?_), result⟩
      rw [isFlow] at left ⊢
      exact allowed left
    exact keeps_pure left.void
  | normal => exact following s ⟨good.toGood, .inr (.inl isFlow), result⟩

section

variable (good : inv.Kept may start n [] s)
include good

theorem keeps_evalJump {flow : Flow} (allowed : may flow) :
    inv.Keeps may start n (evalJump who flow : Eval D (Value D)) s ([·]) := by
  have set : inv.Kept may start n [] { s with flow := flow } :=
    ⟨⟨good.depth, good.above, inv.control flow s.error s.errorLine s.output good.holds⟩,
      .inr (.inr allowed), good.result⟩
  exact keeps_access_bind good.holds (keeps_modify_bind (keeps_pure set.void))

theorem keeps_unsupported :
    inv.Keeps may start n (unsupported who pos : Eval D (Value D)) s ([·]) := by
  apply keeps_access_bind good.holds
  exact keeps_bind (keeps_evalError good) fun _ next good => keeps_pure good.void

end

section Numbers

variable [Double D]

theorem keeps_stepVar {old : Value D} {delta : Int} {isPre : Bool}
    (good : inv.Kept may start n [] s) :
    inv.Keeps may start n (stepVar name old delta isPre) s ([·]) := by
  apply keeps_bind (keeps_valToInt good)
  intro before next good
  apply keeps_bind (keeps_check good fun _ _ => good)
  intro after next good
  have kept : inv.holds [] (next.assign name (.int after)) := inv.setNumber name rfl good.holds
  exact keeps_pure ((good.map (next.assign_standing _ _) kept).scalar rfl)

theorem keeps_evalStep {operand : Ast D} {delta : Int} {isPre : Bool}
    (good : inv.Kept may start n [value] s) :
    inv.Keeps may start n (evalStep who operand value delta isPre) s ([·]) := by
  rw [evalStep.eq_def]
  split
  · exact keeps_fault good.holds nofun nofun
  · apply keeps_access_bind good.holds
    apply keeps_gets_bind
    split
    · exact keeps_stepVar good.drop
    · exact keeps_pure good
  · exact keeps_pure good

theorem keeps_assignVar {old : Value D} (good : inv.Kept may start n [value] s)
    (found : s.find name = some old) :
    inv.Keeps may start n (assignVar op name old value) s ([·]) := by
  rw [assignVar]
  split_ifs
  · exact keeps_replaceVar good found
  · -- The numbers are computed before the state changes.
    rw [valToInt, valToInt]
    cases old.toInt with
    | none => exact keeps_fault good.holds nofun nofun
    | some before =>
      cases value.toInt with
      | none => exact keeps_fault good.holds nofun nofun
      | some operand =>
        show inv.Keeps may start n (Eval.check .arithmetic (compound op before operand) >>=
          fun after => replaceVar name old (.int after)) s _
        cases compound op before operand with
        | none => exact keeps_fault good.holds nofun nofun
        | some after =>
          have number : inv.Kept may start n [.int after] s := good.drop.scalar rfl
          exact keeps_replaceVar number found

end Numbers

variable {calls : Eval.Calls D} (supplies : inv.Supplies calls) {who : Pointer} {tree : Nat}
  (isTree : inv.isTree tree)

variable {ast cond body : Ast D} {args : List (Ast D)} {params : List Param} {nested : Pointer}

include supplies isTree

theorem keeps_node (allowed : ast.Obeys may) (good : inv.Kept may start n [] s) :
    inv.Keeps may start n (calls (.node who tree ast)) s ([·]) :=
  supplies (.node who tree ast) isTree allowed good

/-- Whatever the body does, a call of a function clears the flow and the stored result. -/
theorem keeps_runBody {begin : State D} (above : inv.floor ≤ n)
    (good : inv.Kept less begin (n + 1) [] s) :
    inv.Keeps may start n (runBody calls who tree body) s ([·]) := by
  apply keeps_modify_bind
  apply keeps_bind (keeps_node supplies isTree (fun _ _ => trivial)
    (good.clear.mono fun _ _ => trivial))
  intro discarded next good
  have taken := inv.takeReturn (inv.drop good.holds)
  have cleared : inv.Kept may start (n + 1) [next.returnValue]
      { next with returnValue := .void, flow := .normal } :=
    ⟨⟨good.depth, good.above, inv.control .normal next.error next.errorLine next.output taken⟩,
      .inr (.inl rfl), .inr (.inl rfl)⟩
  have left : inv.Keeps may start n (leaveScope >>= fun _ => pure next.returnValue)
      { next with returnValue := .void, flow := .normal } ([·]) :=
    keeps_bind (keeps_leaveScope cleared above) fun _ next good => keeps_pure good
  exact left

omit supplies in
theorem keeps_evalFuncDecl (good : inv.Kept may start n [] s) :
    inv.Keeps may start n (evalFuncDecl who tree name params body) s ([·]) := by
  apply keeps_access_bind good.holds
  apply keeps_bind (keeps_scopeDefine good)
  intro place next good
  have declared : inv.Keeps may start n (record (.declares tree)) next
      fun _ => [.func tree params body] :=
    good.map rfl (inv.declare params body isTree good.holds)
  apply keeps_bind declared
  intro _ next good
  exact keeps_bind (keeps_setVar good) fun _ next good => keeps_pure good.void

variable (good : inv.Kept may start n [] s)
include good

/-- The body of a loop and what follows it. -/
theorem keeps_loopBody {rest : Eval D (Value D)}
    (allowed : body.exits .returning = true → may .returning)
    (following : ∀ next, inv.Kept may start n [] next → inv.Keeps may start n rest next ([·])) :
    inv.Keeps may start n (calls (.node who tree body) >>= fun _ => afterBody who rest) s
      ([·]) := by
  have obeys : body.Obeys fun flow => may flow ∨ body.exits flow = true := fun _ => .inr
  apply keeps_bind (keeps_node supplies isTree obeys (good.mono fun _ => .inl))
  intro value next good
  exact keeps_afterBody good.drop (fun left => left.elim id allowed) following

theorem keeps_evalArgument {index : Nat} (obeys : ast.Obeys may) (inside : inv.floor < n) :
    inv.Keeps may start n (evalArgument calls who tree index ast) s ([·]) := by
  apply keeps_gets_bind
  exact keeps_node supplies isTree obeys
    (good.map rfl (inv.argument index (good.depth ▸ inside) good.holds))

section Node

variable (obeys : ast.Obeys may)
include obeys

theorem keeps_callPrintf : inv.Keeps may start n (callPrintf calls who tree ast) s ([·]) := by
  apply keeps_bind (keeps_node supplies isTree obeys good)
  intro value next good
  have printed : inv.Keeps may start n (printFormat value) next fun _ => [value] := by
    cases value with
    | string id => exact keeps_bind (keeps_readString good) fun text next good => keeps_emit good
    | _ => exact good
  apply keeps_bind printed
  intro _ next good
  exact keeps_bind (keeps_valFree good) fun _ next good => keeps_pure (good.scalar rfl)

theorem keeps_evalOptional : inv.Keeps may start n (evalOptional calls who tree ast) s ([·]) := by
  rw [evalOptional.eq_def]
  split
  · exact keeps_pure good.void
  · exact keeps_node supplies isTree obeys good

theorem keeps_evalReturn (returns : may .returning) :
    inv.Keeps may start n (evalReturn calls who tree ast) s ([·]) := by
  have stored : inv.Keeps may start n (evalReturnValue calls who tree ast) s fun _ => [] := by
    rw [evalReturnValue.eq_def]
    split
    · exact keeps_pure good
    · apply keeps_bind (keeps_node supplies isTree obeys good)
      intro value next good
      apply keeps_access_bind good.holds
      exact ⟨⟨good.depth, good.above, inv.setReturn good.holds⟩, good.flow, .inr (.inr returns)⟩
  exact keeps_bind stored fun _ next good => keeps_evalJump good returns

theorem keeps_evalVarDecl :
    inv.Keeps may start n (evalVarDecl calls who tree name ast) s ([·]) := by
  apply keeps_access_bind good.holds
  apply keeps_bind (keeps_scopeDefine good)
  intro place next good
  split
  · exact keeps_pure good.void
  · apply keeps_bind (keeps_node supplies isTree obeys good)
    intro value next good
    exact keeps_bind (keeps_setVar good) fun _ next good => keeps_pure good.void

variable [Double D]

theorem keeps_evalAssign {target : Ast D} :
    inv.Keeps may start n (evalAssign calls who tree pos op target ast) s ([·]) := by
  apply keeps_bind (keeps_node supplies isTree obeys good)
  intro value next good
  split
  · exact keeps_fault good.holds nofun nofun
  · apply keeps_access_bind good.holds
    apply keeps_gets_bind
    split
    next found => exact keeps_assignVar good found
    · exact keeps_invalidTarget good
  · exact keeps_invalidTarget good

theorem keeps_evalUnop {op : UnOp} :
    inv.Keeps may start n (evalUnop calls who tree op ast) s ([·]) := by
  apply keeps_bind (keeps_node supplies isTree obeys good)
  intro value next good
  cases op with
  | neg => exact keeps_check good fun result computed => good.drop.scalar (scalar_negate computed)
  | not =>
    apply keeps_bind (keeps_valToBool good)
    intro truth next good
    exact keeps_pure (good.scalar rfl)
  | bnot =>
    exact keeps_check good fun result computed => good.drop.scalar (scalar_complement computed)
  | _ => exact keeps_evalStep good

/-- A condition and what depends on it. -/
theorem keeps_condition {rest : Bool → Eval D (Value D)}
    (following : ∀ truth next, inv.Kept may start n [] next →
      inv.Keeps may start n (rest truth) next ([·])) :
    inv.Keeps may start n (calls (.node who tree ast) >>= fun value => valToBool value >>= rest) s
      ([·]) := by
  apply keeps_bind (keeps_node supplies isTree obeys good)
  intro value next good
  exact keeps_bind (keeps_valToBool good) following

end Node

/-! ## Lists of nodes -/

section Nodes

variable (obeys : ∀ arg ∈ args, arg.Obeys may)
include obeys

theorem keeps_bindArguments {first : Pointer} {index : Nat} (inside : inv.floor < n) :
    inv.Keeps may start n (bindArguments calls first who tree index params args) s
      fun _ => [] := by
  induction params generalizing index args s with
  | nil => exact good
  | cons param params ih =>
    cases args with
    | nil => exact good
    | cons arg args =>
      obtain ⟨obeys, others⟩ := List.forall_mem_cons.mp obeys
      apply keeps_bind (keeps_evalArgument supplies isTree good obeys inside)
      intro discarded next good
      apply keeps_bind (keeps_evalArgument supplies isTree good.drop obeys inside)
      intro value next good
      exact keeps_bind (keeps_bindParam good) fun _ next good => ih good others

theorem keeps_callFunction {callee : Nat} (isCallee : inv.isTree callee) (final : Flow → Prop)
    (begin : State D) :
    inv.Keeps final begin n (callFunction calls nested who tree args callee params body) s
      ([·]) := by
  apply keeps_gets_bind
  split_ifs
  · exact keeps_fault good.holds nofun nofun
  · apply keeps_gets_bind
    have depth : ([] :: s.frames).length = n + 1 := congrArg (· + 1) good.depth
    have entered : inv.Kept may start (n + 1) [] { s with frames := [] :: s.frames } :=
      ⟨⟨depth, Nat.le_succ_of_le good.above, inv.enter good.holds⟩, good.flow, good.result⟩
    apply keeps_bind (keeps_bindArguments supplies isTree entered obeys
      (Nat.lt_succ_of_le good.above))
    intro _ next bound
    exact keeps_runBody supplies isCallee good.above bound

theorem keeps_evalBlock : inv.Keeps may start n (evalBlock calls who tree args) s ([·]) := by
  induction args generalizing s with
  | nil => exact good.void
  | cons stmt stmts ih =>
    obtain ⟨obeys, others⟩ := List.forall_mem_cons.mp obeys
    apply keeps_bind (keeps_node supplies isTree obeys good)
    intro value next good
    apply keeps_access_bind good.holds
    apply keeps_gets_bind
    split_ifs
    · exact ih good.drop others
    · exact keeps_pure good.drop.void

variable [Double D]

theorem keeps_printArguments {index : Nat} :
    inv.Keeps may start n (printArguments calls who tree index args) s fun _ => [] := by
  induction args generalizing index s with
  | nil => exact good
  | cons arg args ih =>
    obtain ⟨obeys, others⟩ := List.forall_mem_cons.mp obeys
    apply keeps_bind (keeps_emit good)
    intro _ next good
    have printed : inv.Keeps may start n (printArgument calls who tree arg) next fun _ => [] := by
      apply keeps_bind (keeps_node supplies isTree obeys good)
      intro value next good
      exact keeps_bind (keeps_valPrint good) fun _ next good => keeps_valFree good
    exact keeps_bind printed fun _ next good => ih good others

theorem keeps_callPrint : inv.Keeps may start n (callPrint calls who tree args) s ([·]) := by
  apply keeps_bind (keeps_printArguments supplies isTree good obeys)
  intro _ next good
  exact keeps_bind (keeps_emit good) fun _ next good => keeps_pure good.void

theorem keeps_nativeArguments :
    inv.Keeps may start n (nativeArguments calls who tree args) s fun _ => [] := by
  induction args generalizing s with
  | nil => exact good
  | cons arg args ih =>
    obtain ⟨obeys, others⟩ := List.forall_mem_cons.mp obeys
    apply keeps_bind (keeps_node supplies isTree obeys good)
    intro value next good
    apply keeps_bind (keeps_valToInt good)
    intro number next good
    apply keeps_bind (keeps_valFree good)
    intro _ next good
    exact keeps_bind (ih good others) fun numbers next good => good

theorem keeps_callNative {native : Native} :
    inv.Keeps may start n (callNative calls who tree native args) s ([·]) := by
  apply keeps_bind (keeps_nativeArguments supplies isTree good
    fun arg member => obeys arg (List.mem_of_mem_take member))
  intro numbers next good
  have noted (args : List (BitVec 64)) :
      inv.Keeps may start n (record (.nativeCall native.name args)) next fun _ => [] :=
    good.map rfl (inv.nativeCall native.name args good.holds)
  apply keeps_bind (noted _)
  intro _ next good
  split_ifs
  · exact good.void
  · exact good.scalar rfl

theorem keeps_callName :
    inv.Keeps may start n (callName calls nested who tree pos name args) s ([·]) := by
  apply keeps_access_bind good.holds
  apply keeps_gets_bind
  split
  · exact keeps_callNative supplies isTree good obeys
  · apply keeps_gets_bind
    split
    next found =>
      exact keeps_callFunction supplies isTree good obeys (inv.callee found good.holds) may start
    · exact keeps_bind (keeps_evalError good) fun _ next good => keeps_pure good.void

theorem keeps_evalCall {func : Ast D} :
    inv.Keeps may start n (evalCall calls nested who tree pos func args) s ([·]) := by
  rw [evalCall.eq_def]
  split
  · exact keeps_fault good.holds nofun nofun
  · split_ifs
    · exact keeps_callPrint supplies isTree good obeys
    · split
      · exact keeps_callName supplies isTree good obeys
      · exact keeps_callPrintf supplies isTree good (obeys _ List.mem_cons_self)
    · exact keeps_callName supplies isTree good obeys
  · apply keeps_access_bind good.holds
    exact keeps_bind (keeps_evalError good) fun _ next good => keeps_pure good.void

end Nodes

/-! ## Loops -/

variable [Double D]

theorem keeps_evalWhile
    (allowed : ∀ flow, (Task.whileLoop who tree cond body).exits flow = true → may flow) :
    inv.Keeps may start n (evalWhile calls who tree cond body) s ([·]) := by
  have obeys : cond.Obeys may := fun flow exits => allowed flow (by simp [Task.exits, exits])
  apply keeps_condition supplies isTree good obeys
  intro truth next good
  cases truth
  · exact keeps_pure good.void
  · apply keeps_loopBody supplies isTree good fun exits => allowed _ (by simp [Task.exits, exits])
    exact fun _ good => supplies (.whileLoop _ _ _ _) isTree allowed good

theorem keeps_evalFor {incr : Ast D}
    (allowed : ∀ flow, (Task.forLoop who tree cond incr body).exits flow = true → may flow) :
    inv.Keeps may start n (evalFor calls who tree cond incr body) s ([·]) := by
  have obeys : cond.Obeys may := fun flow exits => allowed flow (by simp [Task.exits, exits])
  have decided : inv.Keeps may start n (forCond calls who tree cond) s fun _ => [] := by
    rw [forCond.eq_def]
    split
    · exact keeps_pure good
    · exact keeps_bind (keeps_node supplies isTree obeys good) fun value next good =>
        keeps_valToBool good
  apply keeps_bind decided
  intro truth next good
  cases truth
  · exact keeps_pure good.void
  · apply keeps_loopBody supplies isTree good fun exits => allowed _ (by simp [Task.exits, exits])
    intro next good
    apply keeps_bind (keeps_evalOptional supplies isTree good
      fun flow exits => allowed flow (by simp [Task.exits, exits]))
    intro value next good
    exact supplies (.forLoop _ _ _ _ _) isTree allowed good.drop

/-! ## The evaluator -/

theorem keeps_evalCases (ast : Ast D) (obeys : ast.Obeys may) :
    inv.Keeps may start n (evalCases nested calls who tree ast) s ([·]) := by
  cases ast with
  | null => exact keeps_pure good.void
  | int pos value | float pos value | char pos letter => exact keeps_pure (good.scalar rfl)
  | string pos text => exact keeps_pure (good.map rfl (inv.string text good.holds))
  | ident pos name => exact keeps_evalIdent good
  | binop pos op left right =>
    simp only [Ast.Obeys, Ast.exits, Bool.or_eq_true, or_imp, forall_and] at obeys
    apply keeps_bind (keeps_node supplies isTree obeys.1 good)
    intro l next good
    apply keeps_bind (keeps_hold good)
    intro _ next good
    apply keeps_bind (keeps_node supplies isTree obeys.2 good)
    intro r next good
    apply keeps_bind (keeps_release good)
    intro _ next good
    exact keeps_check good fun result computed => good.drop.scalar (scalar_binop computed)
  | unop pos op operand =>
    have obeys : operand.Obeys may := obeys
    exact keeps_evalUnop supplies isTree good obeys
  | call pos func args => exact keeps_evalCall supplies isTree good (Ast.obeys_of_any obeys)
  | assign pos op target value =>
    have obeys : value.Obeys may := obeys
    exact keeps_evalAssign supplies isTree good obeys
  | ternary pos cond thenExpr elseExpr =>
    simp only [Ast.Obeys, Ast.exits, Bool.or_eq_true, or_imp, forall_and] at obeys
    apply keeps_condition supplies isTree good obeys.1.1
    intro truth next good
    cases truth
    · exact keeps_node supplies isTree obeys.2 good
    · exact keeps_node supplies isTree obeys.1.2 good
  | block pos stmts => exact keeps_evalBlock supplies isTree good (Ast.obeys_of_any obeys)
  | ifStmt pos cond thenBody elseBody =>
    simp only [Ast.Obeys, Ast.exits, Bool.or_eq_true, or_imp, forall_and] at obeys
    apply keeps_condition supplies isTree good obeys.1.1
    intro truth next good
    have branch : inv.Keeps may start n (evalBranch calls who tree thenBody elseBody truth) next
        ([·]) := by
      cases truth
      · exact keeps_evalOptional supplies isTree good obeys.2
      · exact keeps_node supplies isTree obeys.1.2 good
    exact keeps_bind branch fun _ next good => keeps_pure good.drop.void
  | whileStmt pos cond body => exact supplies (.whileLoop _ _ _ _) isTree obeys good
  | forStmt pos init cond incr body =>
    simp only [Ast.Obeys, Ast.exits, Bool.or_assoc] at obeys
    apply keeps_bind (keeps_evalOptional supplies isTree good
      fun flow exits => obeys flow (by simp [exits]))
    intro value next good
    apply supplies (.forLoop _ _ _ _ _) isTree _ good.drop
    intro flow exits
    simp only [Task.exits, Bool.or_assoc] at exits
    exact obeys flow (by simp [exits])
  | returnStmt pos value =>
    exact keeps_evalReturn supplies isTree good
      (fun flow exits => obeys flow (by simp [Ast.exits, exits])) (obeys _ rfl)
  | breakStmt pos | continueStmt pos => exact keeps_evalJump good (obeys _ rfl)
  | exprStmt pos expr => exact keeps_node supplies isTree obeys good
  | varDecl pos type name init => exact keeps_evalVarDecl supplies isTree good obeys
  | funcDecl pos type name params body => exact keeps_evalFuncDecl isTree good
  | _ => exact keeps_unsupported good

omit supplies isTree good in
/-- One more level of calls. -/
theorem supplies_evalTask (supplies : inv.Supplies calls) :
    inv.Supplies (evalTask nested calls) := by
  intro may start n s task isTree allowed good
  cases task with
  | node who tree ast =>
    apply keeps_bind (keeps_evalCases supplies isTree good ast allowed)
    intro value next good
    apply keeps_gets_bind
    exact keeps_modify_bind (keeps_pure (good.map rfl (inv.leaves good.holds)))
  | whileLoop who tree cond body => exact keeps_evalWhile supplies isTree good allowed
  | forLoop who tree cond incr body => exact keeps_evalFor supplies isTree good allowed

omit supplies isTree good in
/-- Every evaluation keeps the invariant and ends with the flows of its tree, however deep its
calls may go. -/
theorem supplies_run (nested : Pointer) (depth : Nat) :
    inv.Supplies (Eval.run nested depth : Eval.Calls D) := by
  induction depth with
  | zero => exact fun _ _ n s task _ _ good => inv.stop nofun nofun good.holds
  | succ depth ih => exact supplies_evalTask ih

omit supplies isTree good in
theorem serves_run (nested : Pointer) (depth : Nat) :
    inv.Serves (Eval.run nested depth : Eval.Calls D) :=
  fun _ _ task isTree => ends_of_keeps (supplies_run nested depth task isTree fun _ _ => trivial)

end Functions

end Invariant

end QDaemon.Cint
