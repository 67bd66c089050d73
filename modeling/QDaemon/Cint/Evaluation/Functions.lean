import QDaemon.Cint.Evaluation.Sessions

/-!
# Functions and their trees

A function value points into the tree that declares it, and each of the public functions frees
the whole tree that it has evaluated.  So no function outlives the call that declares it: at
the end of a call every function value in scope points into a freed tree.
-/

namespace QDaemon.Cint

open List Text Transition Eval
open Invariant (ends_of_keeps keeps_pure keeps_takeError keeps_useResult)

variable {D : Type}

/-! ## Stored values -/

/-- The values of all variables and the stored result. -/
def State.values (s : State D) : List (Value D) :=
  (s.frames.flatten ++ s.globals).map Var.value ++ [s.returnValue]

section Values

variable {s : State D} {value found : Value D} {name : Chars}

theorem State.current_subset : s.current ⊆ s.frames.flatten ++ s.globals := by
  rw [State.current]
  cases s.frames with
  | nil => simp
  | cons frame frames => simp

theorem State.mem_values_of_current {var : Var D} (member : var ∈ s.current) :
    var.value ∈ s.values :=
  mem_append_left _ (mem_map_of_mem (State.current_subset member))

theorem State.mem_values_of_global {var : Var D} (member : var ∈ s.globals) :
    var.value ∈ s.values :=
  mem_append_left _ (mem_map_of_mem (mem_append_right _ member))

theorem State.mem_values_of_find (isFound : s.find name = some value) : value ∈ s.values := by
  obtain ⟨var, isVar, rfl⟩ := Option.map_eq_some_iff.mp isFound
  rcases mem_append.mp (mem_of_find?_eq_some isVar) with current | global
  · exact State.mem_values_of_current current
  · exact State.mem_values_of_global global

variable {vars : List (Var D)}

theorem State.mem_values_setCurrent (member : found ∈ (s.setCurrent vars).values) :
    found ∈ vars.map Var.value ∨ found ∈ s.values := by
  rw [State.setCurrent] at member
  split at member
  next isNil =>
    simp only [State.values] at member ⊢
    grind
  next isCons =>
    simp only [State.values] at member ⊢
    grind

theorem mem_setFirst (member : found ∈ (setFirst name value vars).map Var.value) :
    found = value ∨ found ∈ vars.map Var.value := by
  induction vars with
  | nil => exact .inr member
  | cons var vars ih =>
    rw [setFirst] at member
    split_ifs at member
    · rcases mem_cons.mp member with isValue | later
      · exact .inl isValue
      · exact .inr (mem_cons_of_mem _ later)
    · rcases mem_cons.mp member with isFirst | later
      · exact .inr (mem_cons.mpr (.inl isFirst))
      · exact (ih later).imp_right (mem_cons_of_mem _)

theorem State.mem_values_assign (member : found ∈ (s.assign name value).values) :
    found = value ∨ found ∈ s.values := by
  rw [State.assign] at member
  split_ifs at member
  · rcases State.mem_values_setCurrent member with changed | kept
    · rcases mem_setFirst changed with isValue | old
      · exact .inl isValue
      · obtain ⟨var, isVar, rfl⟩ := mem_map.mp old
        exact .inr (State.mem_values_of_current isVar)
    · exact .inr kept
  · simp only [State.values, map_append, mem_append] at member ⊢
    rcases member with (frame | changed) | result
    · exact .inr (.inl (.inl frame))
    · exact (mem_setFirst changed).imp_right fun old => .inl (.inr old)
    · exact .inr (.inr result)

theorem mem_setPlace {place : Nat} (member : found ∈ (setPlace place value vars).map Var.value) :
    found = value ∨ found ∈ vars.map Var.value := by
  obtain ⟨var, isVar, rfl⟩ := mem_map.mp member
  obtain ⟨index, isIndex⟩ := mem_iff_getElem?.mp isVar
  rw [setPlace, List.getElem?_modify] at isIndex
  obtain ⟨old, isOld, rfl⟩ := Option.map_eq_some_iff.mp isIndex
  split_ifs
  · exact .inl rfl
  · exact .inr (mem_map_of_mem (mem_of_getElem? isOld))

end Values

/-! ## Declarations -/

/-- A function value points into one of the first trees, and its declaration is in the log. -/
def Declared (bound : Nat) (log : List EvalEvent) (value : Value D) : Prop :=
  ∀ tree, value.treeId = some tree → tree < bound ∧ .declares tree ∈ log

section Declared

variable {bound : Nat} {log : List EvalEvent} {value : Value D}

theorem Declared.of_treeId_eq_none (isNone : value.treeId = none) : Declared bound log value := by
  intro tree isSome
  rw [isNone] at isSome
  cases isSome

theorem Declared.of_isScalar (isScalar : value.isScalar = true) : Declared bound log value := by
  cases value with
  | func tree params body => cases isScalar
  | _ => exact .of_treeId_eq_none rfl

theorem Declared.append (declared : Declared bound log value) (event : EvalEvent) :
    Declared bound (log ++ [event]) value :=
  fun tree isTree => ⟨(declared tree isTree).1, mem_append_left _ (declared tree isTree).2⟩

/-- All stored values are declared. -/
def StoredDeclared (bound : Nat) (s : State D) : Prop :=
  ∀ value ∈ s.values, Declared bound s.log value

variable {s : State D}

section

variable (stored : StoredDeclared bound s)
include stored

theorem StoredDeclared.note (event : EvalEvent) : StoredDeclared bound (s.note event) :=
  fun value member => (stored value member).append event

theorem StoredDeclared.setCurrent {vars : List (Var D)}
    (declared : ∀ value ∈ vars.map Var.value, Declared bound s.log value) :
    StoredDeclared bound (s.setCurrent vars) := by
  intro value member
  rw [State.setCurrent_log]
  rcases State.mem_values_setCurrent member with current | kept
  · exact declared value current
  · exact stored value kept

theorem StoredDeclared.current (member : value ∈ s.current.map Var.value) :
    Declared bound s.log value := by
  obtain ⟨var, isVar, rfl⟩ := mem_map.mp member
  exact stored _ (State.mem_values_of_current isVar)

theorem StoredDeclared.assign (declared : Declared bound s.log value) (name : Chars) :
    StoredDeclared bound (s.assign name value) := by
  intro found member
  rw [State.assign_log]
  rcases State.mem_values_assign member with rfl | kept
  · exact declared
  · exact stored found kept

end

/-- Every function value, in a hand or stored, is declared. -/
def declaredInvariant (bound : Nat) : Invariant D where
  floor := 0
  isTree tree := tree < bound
  holds hand s := (∀ value ∈ hand, Declared bound s.log value) ∧ StoredDeclared bound s
  stopped _ s := StoredDeclared bound s
  drop kept := ⟨fun _ member => kept.1 _ (mem_cons_of_mem _ member), kept.2⟩
  scalar isScalar kept := ⟨forall_mem_cons.mpr ⟨.of_isScalar isScalar, kept.1⟩, kept.2⟩
  string text kept := ⟨forall_mem_cons.mpr ⟨.of_treeId_eq_none rfl, kept.1⟩, kept.2⟩
  readVar {value} _ _ _ found kept := by
    have declared := kept.2 value (State.mem_values_of_find found)
    cases value with
    | string id =>
        exact ⟨forall_mem_cons.mpr ⟨.of_treeId_eq_none rfl, fun _ member =>
          (kept.1 _ member).append _⟩, kept.2.note _⟩
    | _ => exact ⟨forall_mem_cons.mpr ⟨declared, kept.1⟩, kept.2⟩
  callee found kept := (kept.2 _ (State.mem_values_of_find found) _ rfl).1
  declare {hand s tree} params body isTree kept := by
    refine ⟨forall_mem_cons.mpr ⟨?_, fun _ member => (kept.1 _ member).append _⟩,
      kept.2.note _⟩
    rintro _ ⟨⟩
    exact ⟨isTree, mem_append_right _ (mem_singleton_self _)⟩
  control _ _ _ _ kept := kept
  free kept _ := ⟨fun _ member => kept.1 _ (mem_cons_of_mem _ member), kept.2⟩
  freed kept _ := kept.2
  stop _ _ kept := kept.2
  replace {value old s name} _ _ kept := by
    have declared := kept.1 value (mem_singleton_self _)
    rw [State.assign_log]
    cases value with
    | string id =>
        constructor
        · exact forall_mem_singleton.mpr (declared.append _)
        · apply StoredDeclared.assign
          · exact kept.2.note (.assignsString id)
          · exact declared.append _
    | _ =>
        constructor
        · exact kept.1
        · apply StoredDeclared.assign
          · exact kept.2
          · exact declared
  replaceFreed {value} _ _ _ _ _ kept := by
    cases value with
    | string id => exact kept.2.note _
    | _ => exact kept.2
  setNumber {value hand s} name isScalar kept := by
    rw [State.assign_log]
    exact ⟨kept.1, kept.2.assign (.of_isScalar isScalar) name⟩
  define {hand s} name kept := by
    rw [State.setCurrent_log]
    refine ⟨kept.1, kept.2.setCurrent ?_⟩
    exact forall_mem_cons.mpr ⟨.of_isScalar rfl, fun _ => kept.2.current⟩
  setPlace {value hand s} place kept := by
    rw [State.setCurrent_log]
    obtain ⟨declared, others⟩ := forall_mem_cons.mp kept.1
    refine ⟨others, kept.2.setCurrent ?_⟩
    intro found member
    rcases mem_setPlace member with rfl | old
    · exact declared
    · exact kept.2.current old
  setReturn {value hand s} kept := by
    obtain ⟨declared, others⟩ := forall_mem_cons.mp kept.1
    refine ⟨others, fun found member => ?_⟩
    rcases mem_append.mp member with var | result
    · exact kept.2 found (mem_append_left _ var)
    · rw [mem_singleton.mp result]
      exact declared
  takeReturn {hand s} kept := by
    have declared := kept.2 s.returnValue (mem_append_right _ (mem_singleton_self _))
    refine ⟨forall_mem_cons.mpr ⟨declared, kept.1⟩, fun found member => ?_⟩
    rcases mem_append.mp member with var | result
    · exact kept.2 found (mem_append_left _ var)
    · rw [mem_singleton.mp result]
      exact .of_isScalar rfl
  enter kept := kept
  leave {hand s vars frames} isCons kept := by
    have isCurrent : s.current = vars := by rw [State.current, isCons]; rfl
    refine ⟨forall_mem_append.mpr ⟨fun _ member => ?_, kept.1⟩, fun found member => ?_⟩
    · rw [← isCurrent] at member
      exact kept.2.current member
    · apply kept.2 found
      simp only [State.values, isCons, flatten_cons, map_append, mem_append] at member ⊢
      exact member.imp_left (Or.imp_left .inr)
  hold kept := ⟨fun _ member => kept.1 _ (mem_cons_of_mem _ member), kept.2⟩
  release kept := kept
  leaves kept := ⟨fun _ member => (kept.1 _ member).append _, kept.2.note _⟩
  nativeCall _ _ kept := ⟨fun _ member => (kept.1 _ member).append _, kept.2.note _⟩
  argument _ _ kept := ⟨fun _ member => (kept.1 _ member).append _, kept.2.note _⟩

end Declared

/-! ## Freed trees -/

/-- No other trees are made or freed. -/
structure SameTrees (first s : State D) : Prop where
  trees : s.trees = first.trees
  freedTrees : s.freedTrees = first.freedTrees

theorem SameTrees.setCurrent {first s : State D} (same : SameTrees first s) (vars : List (Var D)) :
    SameTrees first (s.setCurrent vars) := by
  rw [State.setCurrent]
  split
  · exact ⟨same.trees, same.freedTrees⟩
  · exact ⟨same.trees, same.freedTrees⟩

theorem SameTrees.assign {first s : State D} (same : SameTrees first s) (name : Chars)
    (value : Value D) : SameTrees first (s.assign name value) := by
  rw [State.assign]
  split_ifs
  · exact same.setCurrent _
  · exact ⟨same.trees, same.freedTrees⟩

/-- The evaluator neither makes nor frees trees. -/
def treesInvariant (first : State D) : Invariant D where
  floor := 0
  isTree _ := True
  holds _ s := SameTrees first s
  stopped _ _ := True
  drop same := same
  scalar _ same := same
  string _ same := ⟨same.trees, same.freedTrees⟩
  readVar {value} _ _ _ _ same := by cases value <;> exact ⟨same.trees, same.freedTrees⟩
  callee _ _ := trivial
  declare _ _ _ same := ⟨same.trees, same.freedTrees⟩
  control _ _ _ _ same := ⟨same.trees, same.freedTrees⟩
  free same _ := ⟨same.trees, same.freedTrees⟩
  freed _ _ := trivial
  stop _ _ _ := trivial
  replace {value} _ _ _ _ _ same := by
    apply SameTrees.assign
    cases value <;> exact ⟨same.trees, same.freedTrees⟩
  replaceFreed _ _ _ := trivial
  setNumber _ _ same := same.assign _ _
  define _ same := same.setCurrent _
  setPlace _ same := same.setCurrent _
  setReturn same := ⟨same.trees, same.freedTrees⟩
  takeReturn same := ⟨same.trees, same.freedTrees⟩
  enter same := ⟨same.trees, same.freedTrees⟩
  leave _ same := ⟨same.trees, same.freedTrees⟩
  hold same := ⟨same.trees, same.freedTrees⟩
  release same := ⟨same.trees, same.freedTrees⟩
  leaves same := ⟨same.trees, same.freedTrees⟩
  nativeCall _ _ same := ⟨same.trees, same.freedTrees⟩
  argument _ _ same := ⟨same.trees, same.freedTrees⟩

/-- Between calls the session is in the global scope, and all trees are freed. -/
structure State.Settled (s : State D) : Prop where
  global : s.frames = []
  freed : ∀ tree < s.trees, tree ∈ s.freedTrees

section Sessions

variable {s last : State D} {α : Type} {after : α → List (Value D)}

theorem State.Settled.good (settled : s.Settled) (hand : List (Value D)) :
    (treesInvariant s).Good 0 hand s :=
  ⟨congrArg _ settled.global, Nat.le_refl 0, ⟨rfl, rfl⟩⟩

variable [Double D]

/-- A tree that has been evaluated is freed. -/
theorem withTree_settled {depth : Nat} {ast : Ast D} {use : Value D → Eval D α} {result : α}
    (used : ∀ first value next, (treesInvariant first).Good 0 [value] next →
      (treesInvariant first).Ends 0 (use value) next after)
    (settled : s.Settled) (returned : withTree depth ast use s = (.done result, last)) :
    last.Settled ∧ last.trees = s.trees + 1 := by
  have counted : (treesInvariant { s with trees := s.trees + 1 }).Good 0 []
      { s with trees := s.trees + 1 } := ⟨congrArg _ settled.global, Nat.le_refl 0, ⟨rfl, rfl⟩⟩
  have evaluated := Invariant.serves_run .bogus depth (.node .live s.trees ast) trivial counted
  obtain ⟨value, middle, isValue, rest⟩ := bind_eq_done
    (show (evalAst depth s.trees ast >>= fun value => use value >>= fun result =>
      freeTree s.trees >>= fun _ => pure result) { s with trees := s.trees + 1 } = _ from returned)
  obtain ⟨_, end_, isUsed, freed⟩ := bind_eq_done rest
  have good := (used _ value middle (evaluated.good isValue)).good isUsed
  cases freed
  refine ⟨⟨length_eq_zero_iff.mp good.depth, fun tree below => ?_⟩, good.holds.trees⟩
  show tree ∈ end_.freedTrees ++ [s.trees]
  rw [good.holds.freedTrees]
  rcases Nat.lt_succ_iff_lt_or_eq.mp (good.holds.trees ▸ below) with old | isLast
  · exact mem_append_left _ (settled.freed tree old)
  · exact mem_append_right _ (mem_singleton.mpr isLast)

/-- A call of `withTree` with what the caller does behind it. -/
theorem withTree_bind_settled {β : Type} {depth : Nat} {ast : Ast D} {use : Value D → Eval D α}
    {rest : α → Eval D β} {result : β}
    (used : ∀ first value next, (treesInvariant first).Good 0 [value] next →
      (treesInvariant first).Ends 0 (use value) next after)
    (ends : ∀ value (next : State D), (treesInvariant next).Good 0 [] next →
      (treesInvariant next).Ends 0 (rest value) next fun _ => [])
    (settled : s.Settled) (returned : (withTree depth ast use >>= rest) s = (.done result, last)) :
    last.Settled ∧ last.trees = s.trees + 1 := by
  obtain ⟨value, freed, isFreed, continued⟩ := bind_eq_done returned
  obtain ⟨ready, count⟩ := withTree_settled used settled isFreed
  have good := (ends value freed (ready.good [])).good continued
  refine ⟨⟨length_eq_zero_iff.mp good.depth, ?_⟩, good.holds.trees.trans count⟩
  rw [good.holds.trees, good.holds.freedTrees]
  exact ready.freed

/-- After a call all trees are freed again, and what is parsed to a tree has made one more. -/
theorem perform_settled {label : Label} (settled : s.Settled)
    (returned : perform label.depth label.input s = (.done (), last)) :
    last.Settled ∧ s.trees ≤ last.trees ∧
      ∀ ast : Ast D, label.parsed = .tree ast → s.trees < last.trees := by
  obtain ⟨input, depth⟩ := label
  cases input with
  | eval code =>
    obtain ⟨result, middle, evaluated, rest⟩ := bind_eq_done returned
    cases rest
    rw [cintEval] at evaluated
    cases parsed : (parseText .statement depth code 0 : Parsed D) with rw [parsed] at evaluated
    | unfinished =>
      cases evaluated
    | failed error =>
      cases evaluated
      exact ⟨settled, le_rfl, fun ast isTree => by simp [Label.parsed, parsed] at isTree⟩
    | tree ast =>
      obtain ⟨ready, count⟩ := withTree_bind_settled
        (fun _ _ _ => ends_of_keeps keeps_useResult) (fun _ _ => ends_of_keeps keeps_takeError)
        settled evaluated
      exact ⟨ready, count.ge.trans' (Nat.le_succ _), fun _ _ => count.ge⟩
  | evalString code =>
    obtain ⟨value, middle, evaluated, rest⟩ := bind_eq_done returned
    rw [cintEvalString] at evaluated
    cases parsed : (parseText .statement depth code 0 : Parsed D) with rw [parsed] at evaluated
    | unfinished =>
      cases evaluated
    | failed error =>
      cases evaluated
      cases rest
      exact ⟨⟨settled.global, settled.freed⟩, le_rfl,
        fun ast isTree => by simp [Label.parsed, parsed] at isTree⟩
    | tree ast =>
      obtain ⟨ready, count⟩ := withTree_settled (fun _ _ _ => ends_of_keeps keeps_pure) settled
        evaluated
      cases rest
      exact ⟨⟨ready.global, ready.freed⟩, count.ge.trans' (Nat.le_succ _), fun _ _ => count.ge⟩
  | execFile bytes =>
    obtain ⟨result, middle, evaluated, rest⟩ := bind_eq_done returned
    cases rest
    cases bytes with
    | none =>
      cases evaluated
      exact ⟨settled, le_rfl, by simp [Label.parsed]⟩
    | some code =>
      rw [cintExecFile] at evaluated
      cases parsed : (parseText .program depth code code.length : Parsed D) with
          rw [parsed] at evaluated
      | unfinished =>
        cases evaluated
      | failed error =>
        cases evaluated
        exact ⟨settled, le_rfl, fun ast isTree => by simp [Label.parsed, parsed] at isTree⟩
      | tree ast =>
        have used (first : State D) (value : Value D) (next : State D) :
            (treesInvariant first).Good 0 [value] next →
              (treesInvariant first).Ends 0 (pure () : Eval D Unit) next fun _ => [] :=
          ends_of_keeps fun good => keeps_pure good.drop
        obtain ⟨ready, count⟩ := withTree_bind_settled used
          (fun _ _ => ends_of_keeps keeps_takeError) settled evaluated
        exact ⟨ready, count.ge.trans' (Nat.le_succ _), fun _ _ => count.ge⟩

/-- Every function value in scope points into a tree that has not been freed. -/
def State.FunctionsAlive (s : State D) : Prop :=
  ∀ var ∈ s.frames.flatten ++ s.globals, ∀ tree, var.value.treeId = some tree →
    tree ∉ s.freedTrees

/-- A call that evaluates no declaration of a function. -/
def Session.declaresNone (session : Session D) (label : Label) : Bool :=
  (session.events label).all fun event => !(event matches .declares _)

/-- What holds in every state of a session, and what between its calls. -/
structure Session.Inv (session : Session D) : Prop where
  stored : ∃ bound, StoredDeclared bound session.state
  settled : session.status = .done () → session.state.Settled
  below : session.status = .done () → StoredDeclared session.state.trees session.state

omit [Double D] in
theorem StoredDeclared.mono {bound higher : Nat} (stored : StoredDeclared bound s)
    (le : bound ≤ higher) : StoredDeclared higher s :=
  fun value member tree isTree =>
    ⟨Nat.lt_of_lt_of_le (stored value member tree isTree).1 le, (stored value member tree isTree).2⟩

theorem Session.Inv.step {session next : Session D} {label : Label} (inv : session.Inv)
    (stepEq : session.step label = some next) : next.Inv := by
  obtain ⟨ready, rfl⟩ := Session.step_eq_some stepEq
  have settled := inv.settled ready
  have ends (bound : Nat) (le : session.state.trees ≤ bound)
      (isTree : ∀ ast : Ast D, label.parsed = .tree ast → session.state.trees < bound) :
      (declaredInvariant bound).Ends 0 (perform label.depth label.input) session.state
        fun _ => [] :=
    Invariant.ends_perform (fun _ _ _ _ kept => kept) isTree
      ⟨congrArg _ settled.global, Nat.le_refl 0, by simp, (inv.below ready).mono le⟩
  have later := ends (session.state.trees + 1) (Nat.le_succ _) fun _ _ => Nat.lt_succ_self _
  rcases outcome : perform label.depth label.input session.state with ⟨value | _ | fault, last⟩
  · obtain ⟨lastSettled, le, isTree⟩ := perform_settled settled outcome
    have stored := ((ends last.trees le isTree).good outcome).holds.2
    exact ⟨⟨_, stored⟩, fun _ => lastSettled, fun _ => stored⟩
  · rw [Invariant.Ends, outcome] at later
    exact ⟨⟨_, later⟩, by simp, by simp⟩
  · rw [Invariant.Ends, outcome] at later
    exact ⟨⟨_, later⟩, by simp, by simp⟩

omit [Double D] in
theorem Session.inv_initial (natives : List Native)
    (library : Nat → BitVec 64 → BitVec 64 → BitVec 64 → BitVec 64 → BitVec 64)
    (verbose : Bool) : (Session.initial natives library verbose : Session D).Inv := by
  have stored : StoredDeclared 0 (Session.initial natives library verbose : Session D).state := by
    intro value member
    rw [mem_singleton.mp member]
    exact .of_isScalar rfl
  exact ⟨⟨0, stored⟩, fun _ => ⟨rfl, nofun⟩, fun _ => stored⟩

omit [Double D] in
/-- Without declarations in the log there are no function values. -/
theorem State.FunctionsAlive.of_log {bound : Nat} (stored : StoredDeclared bound s)
    (none : ∀ tree, .declares tree ∉ s.log) : s.FunctionsAlive := by
  intro var member tree isTree
  have isStored : var.value ∈ s.values := mem_append_left _ (mem_map_of_mem member)
  exact absurd (stored var.value isStored tree isTree).2 (none tree)

theorem Session.not_declares {session : Session D} {label : Label} (tree : Nat)
    (declaresNone : session.declaresNone label = true) : .declares tree ∉ session.events label := by
  intro member
  have not := all_eq_true.mp declaresNone _ member
  simp at not

/-- In every session whose calls evaluate no declaration of a function, the function values in
scope point into trees that are there.  And there are none: in every session, after a call
has returned, the trees of all function values in scope have been freed. -/
theorem functions_alive (natives : List Native)
    (library : Nat → BitVec 64 → BitVec 64 → BitVec 64 → BitVec 64 → BitVec 64)
    (verbose : Bool) (session : Session D) :
    (GuardedRun Session.step (fun session label => session.declaresNone label = true)
        (Session.initial natives library verbose) session → session.state.FunctionsAlive) ∧
      (Reachable Session.step (Session.initial natives library verbose) session →
        session.status = .done () →
        (session.state.FunctionsAlive ↔
          ∀ var ∈ session.state.globals, var.value.treeId = none)) := by
  constructor
  · intro run
    have kept : session.Inv ∧ ∀ tree, .declares tree ∉ session.state.log := by
      apply run.invariant fun session => session.Inv ∧ ∀ tree, .declares tree ∉ session.state.log
      · exact ⟨Session.inv_initial natives library verbose, nofun⟩
      · intro session label next kept guard stepEq
        obtain ⟨ready, isNext⟩ := Session.step_eq_some stepEq
        refine ⟨kept.1.step stepEq, fun tree => ?_⟩
        rw [isNext, Session.log_eq_append (kept.1.settled ready).global, mem_append, not_or]
        exact ⟨kept.2 tree, Session.not_declares tree guard⟩
    obtain ⟨bound, stored⟩ := kept.1.stored
    exact .of_log stored kept.2
  · intro run ready
    have inv := run.invariant Session.Inv (Session.inv_initial natives library verbose)
      fun session label next inv _ stepEq => inv.step stepEq
    have settled := inv.settled ready
    have scope : session.state.frames.flatten ++ session.state.globals = session.state.globals := by
      rw [settled.global, flatten_nil, nil_append]
    rw [State.FunctionsAlive, scope]
    constructor
    · intro alive var member
      cases isTree : var.value.treeId with
      | none => rfl
      | some tree =>
        have below := inv.below ready var.value (State.mem_values_of_global member) tree isTree
        exact absurd (settled.freed tree below.1) (alive var member tree isTree)
    · intro none var member tree isTree
      rw [none var member] at isTree
      cases isTree

end Sessions

/-- The session with one call, `int x;`. -/
theorem functions_alive_variable : let label : Label := ⟨.eval "int x;".toList, 60⟩
    let first : Session Int := Session.initial [] (fun _ _ _ _ _ => 0) false
    let result := perform label.depth label.input first.state
    first.declaresNone label = true ∧ result.1 = .done () ∧ result.2.FunctionsAlive := by
  intro label first result
  have declaresNone : first.declaresNone label = true := by decide +kernel
  have returned : result.1 = .done () := by decide +kernel
  refine ⟨declaresNone, returned,
    (functions_alive [] (fun _ _ _ _ _ => 0) false ⟨result.2, result.1⟩).1 ?_⟩
  exact GuardedRun.tail .refl (show (fun (session : Session Int) (label : Label) =>
    session.declaresNone label = true) first label from declaresNone) rfl

/-- A function is declared in one call, and called in the next. -/
theorem function_freed_before_call :
    (exec Session.step (Session.initial [] (fun _ _ _ _ _ => 0) false : Session Int)
        [⟨.eval "int f(int a) \x7b return a; \x7d".toList, 60⟩,
          ⟨.eval "f(1);".toList, 60⟩]).map (fun session => session.status) =
      some (.fault .freedTree) := by
  decide +kernel

end QDaemon.Cint
