import Mathlib.Data.List.Nodup
import Mathlib.Data.List.ReduceOption
import QDaemon.Cint.Evaluation.Sessions

/-!
# Ownership of strings

A value is copied as a structure, so that a copy of a string value shares the string.  Two
expressions make such copies: a variable whose value is a string, and an assignment of a
string, whose value is that of the variable now.  Every other move passes the string on.  While
no copy is made, each string has at most one owner: a variable, the stored result, a local
variable of the evaluator, the value that is being passed on, or the list of freed strings.
The proof counts the owners of a string.
-/

namespace QDaemon.Cint

open Option List Text Transition Eval

variable {D : Type}

/-! ## Counting owners -/

/-- Whether the value is the string. -/
def Value.tally (value : Value D) (id : Nat) : Nat :=
  if value.stringId = some id then 1 else 0

/-- How many of the values are the string. -/
def tallyHand (hand : List (Value D)) (id : Nat) : Nat :=
  (hand.map fun value => value.tally id).sum

/-- How many of the variables have the string. -/
def tallyVars (vars : List (Var D)) (id : Nat) : Nat :=
  tallyHand (vars.map Var.value) id

/-- How many variables in all scopes have the string. -/
def State.tallyScopes (s : State D) (id : Nat) : Nat :=
  tallyVars s.frames.flatten id + tallyVars s.globals id

/-- How many owners the string has, the freed strings counted. -/
def State.tally (s : State D) (id : Nat) : Nat :=
  s.tallyScopes id + s.returnValue.tally id + s.temps.count (some id) + s.freed.count id

section Tally

variable {value old : Value D} {hand : List (Value D)} {id : Nat} {s : State D} {name : Chars}

theorem Value.tally_eq_zero (notString : value.stringId = none) : value.tally id = 0 := by
  rw [Value.tally, notString]
  simp

@[simp]
theorem Value.tally_string_self : (.string id : Value D).tally id = 1 := if_pos rfl

@[simp]
theorem tallyHand_nil : tallyHand ([] : List (Value D)) id = 0 := rfl

@[simp]
theorem tallyHand_cons : tallyHand (value :: hand) id = value.tally id + tallyHand hand id := by
  rw [tallyHand, map_cons, sum_cons, tallyHand]

@[simp]
theorem tallyHand_append {others : List (Value D)} :
    tallyHand (hand ++ others) id = tallyHand hand id + tallyHand others id := by
  rw [tallyHand, map_append, sum_append, tallyHand, tallyHand]

variable {vars : List (Var D)}

@[simp]
theorem tallyVars_append {others : List (Var D)} :
    tallyVars (vars ++ others) id = tallyVars vars id + tallyVars others id := by
  rw [tallyVars, map_append, tallyHand_append, tallyVars, tallyVars]

@[simp]
theorem tallyVars_cons {var : Var D} :
    tallyVars (var :: vars) id = var.value.tally id + tallyVars vars id :=
  tallyHand_cons

@[simp]
theorem tallyVars_nil : tallyVars ([] : List (Var D)) id = 0 := rfl

/-- The scopes with other variables in the current one. -/
theorem State.tallyScopes_setCurrent (s : State D) (vars : List (Var D)) (id : Nat) :
    (s.setCurrent vars).tallyScopes id + tallyVars s.current id =
      s.tallyScopes id + tallyVars vars id := by
  rw [State.setCurrent, State.current]
  split
  next isNil =>
    simp [State.tallyScopes, isNil]
    omega
  next isCons =>
    simp [State.tallyScopes, isCons]
    omega

/-- The first variable of the name passes its value on. -/
theorem tallyVars_setFirst {var : Var D} (value : Value D) (id : Nat)
    (found : vars.find? (fun var => var.name = name) = some var) :
    tallyVars (setFirst name value vars) id + var.value.tally id =
      tallyVars vars id + value.tally id := by
  induction vars with
  | nil => cases found
  | cons first vars ih =>
    rw [setFirst]
    rw [List.find?_cons] at found
    split_ifs with same
    · rw [decide_eq_true same] at found
      cases found
      simp
      omega
    · rw [decide_eq_false same] at found
      have later := ih found
      simp
      omega

theorem setFirst_of_not_found (notFound : vars.find? (fun var => var.name = name) = none) :
    setFirst name value vars = vars := by
  induction vars with
  | nil => rfl
  | cons first vars ih =>
    rw [List.find?_cons] at notFound
    rw [setFirst]
    split_ifs with same
    · rw [decide_eq_true same] at notFound
      cases notFound
    · rw [decide_eq_false same] at notFound
      rw [ih notFound]

/-- A variable that is found passes its value on. -/
theorem State.tallyScopes_assign (value : Value D) (id : Nat) (found : s.find name = some old) :
    (s.assign name value).tallyScopes id + old.tally id = s.tallyScopes id + value.tally id := by
  obtain ⟨var, isVar, rfl⟩ := map_eq_some_iff.mp found
  rw [List.find?_append] at isVar
  rw [State.assign]
  cases inCurrent : s.current.find? (fun var => var.name = name) with
  | some first =>
    rw [inCurrent] at isVar
    cases isVar
    have isAny : (s.current.any fun var => var.name = name) = true :=
      any_eq_true.mpr ⟨var, mem_of_find?_eq_some inCurrent,
        by simpa using List.find?_some inCurrent⟩
    rw [if_pos isAny]
    have changed := s.tallyScopes_setCurrent (setFirst name value s.current) id
    have first := tallyVars_setFirst value id inCurrent
    omega
  | none =>
    rw [inCurrent] at isVar
    have isAny : ¬ (s.current.any fun var => var.name = name) = true := by
      intro any
      obtain ⟨var, member, same⟩ := any_eq_true.mp any
      exact List.find?_eq_none.mp inCurrent var member same
    rw [if_neg isAny]
    have first := tallyVars_setFirst value id (show _ = some var from isVar)
    simp only [State.tallyScopes]
    omega

/-- An assignment gives the value to at most one variable. -/
theorem State.tallyScopes_assign_le (s : State D) (name : Chars) (value : Value D) (id : Nat) :
    (s.assign name value).tallyScopes id ≤ s.tallyScopes id + value.tally id := by
  cases found : s.find name with
  | some old =>
    have passed := State.tallyScopes_assign value id found
    omega
  | none =>
    have notFound := map_eq_none_iff.mp found
    rw [List.find?_append, or_eq_none_iff] at notFound
    rw [State.assign, setFirst_of_not_found notFound.1, setFirst_of_not_found notFound.2]
    split_ifs
    · have same := s.tallyScopes_setCurrent s.current id
      omega
    · exact Nat.le_add_right _ _

/-- A variable that gets a value at its place loses its old one. -/
theorem tallyVars_setPlace_le (place : Nat) (value : Value D) (vars : List (Var D)) (id : Nat) :
    tallyVars (setPlace place value vars) id ≤ tallyVars vars id + value.tally id := by
  rw [setPlace]
  generalize vars.length - 1 - place = index
  induction vars generalizing index with
  | nil => simp
  | cons var vars ih =>
    cases index with
    | zero =>
      simp
      omega
    | succ index =>
      have later := ih index
      simp
      omega

theorem count_stringId (value : Value D) (id : Nat) :
    value.stringId.toList.count id = value.tally id := by
  rw [Value.tally]
  cases value.stringId with
  | none => rfl
  | some other => simp [count_singleton]

theorem count_heldBy (vars : List (Var D)) (id : Nat) :
    (heldBy vars).count id = tallyVars vars id := by
  induction vars with
  | nil => rfl
  | cons var vars ih =>
    have isCons : heldBy (var :: vars) = var.value.stringId.toList ++ heldBy vars := by
      rw [heldBy, filterMap_cons]
      cases var.value.stringId <;> rfl
    rw [isCons, count_append, count_stringId, ih, tallyVars_cons]

theorem count_reduceOption (temps : List (Option Nat)) (id : Nat) :
    temps.reduceOption.count id = temps.count (some id) := by
  induction temps with
  | nil => rfl
  | cons temp temps ih =>
    cases temp with
    | none => rw [reduceOption_cons_of_none, ih, count_cons_of_ne (by simp)]
    | some other => simp [count_cons, ih]

theorem count_held (s : State D) (id : Nat) :
    s.held.count id = s.tallyScopes id + s.returnValue.tally id := by
  have frames : s.frames.flatMap heldBy = heldBy s.frames.flatten := by
    rw [heldBy, filterMap_flatten]
    rfl
  rw [State.held, frames, count_append, count_append, count_heldBy, count_heldBy,
    count_stringId, State.tallyScopes]

/-- The owners at the end of the evaluation of a node. -/
theorem count_owned (s : State D) (value : Value D) (id : Nat) :
    (owned s value ++ s.freed).count id = s.tally id + value.tally id := by
  rw [owned, count_append, count_append, count_append, count_held,
    count_reduceOption, count_stringId, State.tally]
  omega

end Tally

/-! ## The invariant -/

/-- No expression has copied a string. -/
def NoCopies (log : List EvalEvent) : Prop :=
  ∀ id, .readsString id ∉ log ∧ .assignsString id ∉ log

/-- At the end of each evaluation of a node every string had one owner at most. -/
def MomentsOwned (log : List EvalEvent) : Prop :=
  ∀ owned freed, .leaves owned freed ∈ log → (owned ++ freed).Nodup

/-- Every string has one owner at most, and strings that have not been made have none. -/
def Owned (hand : List (Value D)) (s : State D) : Prop :=
  ∀ id, s.tally id + tallyHand hand id ≤ if id < s.strings.length then 1 else 0

section Owned

variable {log : List EvalEvent} {hand : List (Value D)} {s t : State D}

theorem NoCopies.of_append {event : EvalEvent} (none : NoCopies (log ++ [event])) : NoCopies log :=
  fun id => ⟨fun member => (none id).1 (mem_append_left _ member),
    fun member => (none id).2 (mem_append_left _ member)⟩

theorem not_noCopies_reads (log : List EvalEvent) (id : Nat) :
    ¬ NoCopies (log ++ [.readsString id]) :=
  fun none => (none id).1 (by simp)

theorem not_noCopies_assigns (log : List EvalEvent) (id : Nat) :
    ¬ NoCopies (log ++ [.assignsString id]) :=
  fun none => (none id).2 (by simp)

theorem MomentsOwned.append {event : EvalEvent} (moments : MomentsOwned log)
    (last : ∀ owned freed, event = .leaves owned freed → (owned ++ freed).Nodup) :
    MomentsOwned (log ++ [event]) := by
  intro owned freed member
  rcases mem_append.mp member with earlier | isLast
  · exact moments owned freed earlier
  · exact last owned freed (mem_singleton.mp isLast).symm

/-- Fewer owners of the same strings. -/
theorem Owned.of_le {hand' : List (Value D)} (owned : Owned hand s)
    (fewer : ∀ id, t.tally id + tallyHand hand' id ≤ s.tally id + tallyHand hand id)
    (same : t.strings = s.strings) : Owned hand' t := by
  intro id
  rw [same]
  exact (fewer id).trans (owned id)

theorem Owned.nodup {value : Value D} (isOwned : Owned [value] s) :
    (owned s value ++ s.freed).Nodup := by
  rw [nodup_iff_count_le_one]
  intro id
  have count := isOwned id
  rw [count_owned]
  rw [tallyHand_cons] at count
  split_ifs at count <;> omega

/-- A string in the hand has not been freed. -/
theorem Owned.not_freed {id : Nat} (owned : Owned (.string id :: hand) s) : id ∉ s.freed := by
  intro member
  have count := owned id
  have freed := count_pos_iff.mpr member
  rw [State.tally, tallyHand_cons, Value.tally_string_self] at count
  split_ifs at count <;> omega

@[simp]
theorem State.setCurrent_strings (s : State D) (vars : List (Var D)) :
    (s.setCurrent vars).strings = s.strings := by
  rw [State.setCurrent]
  split <;> rfl

@[simp]
theorem State.assign_strings (s : State D) (name : Chars) (value : Value D) :
    (s.assign name value).strings = s.strings := by
  rw [State.assign]
  split
  · exact s.setCurrent_strings _
  · rfl

/-- The owners other than variables stay when the variables of the current scope change. -/
theorem State.tally_setCurrent (s : State D) (vars : List (Var D)) (id : Nat) :
    (s.setCurrent vars).tally id + s.tallyScopes id =
      s.tally id + (s.setCurrent vars).tallyScopes id := by
  rw [State.setCurrent]
  split
  · simp only [State.tally]
    omega
  · simp only [State.tally]
    omega

theorem State.tally_assign (s : State D) (name : Chars) (value : Value D) (id : Nat) :
    (s.assign name value).tally id + s.tallyScopes id =
      s.tally id + (s.assign name value).tallyScopes id := by
  rw [State.assign]
  split
  · exact s.tally_setCurrent _ id
  · simp only [State.tally]
    omega

/-! ## Moves -/

variable {value old : Value D} {name : Chars}

theorem Owned.drop (owned : Owned (value :: hand) s) : Owned hand s := by
  refine owned.of_le (fun id => ?_) rfl
  rw [tallyHand_cons]
  omega

section

variable (owned : Owned hand s)
include owned

theorem Owned.cons (notString : value.stringId = none) : Owned (value :: hand) s := by
  refine owned.of_le (fun id => ?_) rfl
  rw [tallyHand_cons, Value.tally_eq_zero notString, Nat.zero_add]

theorem Owned.string (text : Chars) :
    Owned (.string s.strings.length :: hand) { s with strings := s.strings ++ [text] } := by
  intro id
  have count := owned id
  rw [tallyHand_cons]
  by_cases isNew : id = s.strings.length
  · subst isNew
    rw [if_neg (Nat.lt_irrefl _)] at count
    rw [Value.tally_string_self, if_pos (by simp)]
    simp only [State.tally, State.tallyScopes] at count ⊢
    omega
  · have notNew : (.string s.strings.length : Value D).tally id = 0 :=
      if_neg fun same => isNew (some.inj same).symm
    rw [notNew, Nat.zero_add]
    apply count.trans
    simp only [length_append]
    split_ifs <;> omega

omit owned in
theorem Owned.free {id : Nat} (owned : Owned (.string id :: hand) s) :
    Owned hand { s with freed := s.freed ++ [id] } := by
  refine owned.of_le (fun other => ?_) rfl
  rw [tallyHand_cons, ← count_stringId]
  simp only [State.tally, State.tallyScopes, count_append, Value.stringId, toList_some]
  omega

omit owned in
theorem Owned.setReturn (owned : Owned (value :: hand) s) :
    Owned hand { s with returnValue := value } := by
  refine owned.of_le (fun id => ?_) rfl
  simp only [State.tally, State.tallyScopes, tallyHand_cons]
  omega

theorem Owned.takeReturn : Owned (s.returnValue :: hand) { s with returnValue := .void } := by
  refine owned.of_le (fun id => ?_) rfl
  have void : (.void : Value D).tally id = 0 := Value.tally_eq_zero rfl
  simp only [State.tally, State.tallyScopes, tallyHand_cons]
  omega

theorem Owned.enter : Owned hand { s with frames := [] :: s.frames } := by
  refine owned.of_le (fun id => ?_) rfl
  simp [State.tally, State.tallyScopes, flatten_cons]

omit owned in
theorem Owned.leave {vars : List (Var D)} {frames : List (List (Var D))}
    (isCons : s.frames = vars :: frames) (owned : Owned hand s) :
    Owned (vars.map Var.value ++ hand) { s with frames := frames } := by
  refine owned.of_le (fun id => ?_) rfl
  have isHand : tallyHand (vars.map Var.value) id = tallyVars vars id := rfl
  simp only [State.tally, State.tallyScopes, isCons, flatten_cons, tallyVars_append,
    tallyHand_append]
  omega

omit owned in
theorem Owned.hold (owned : Owned (value :: hand) s) :
    Owned hand { s with temps := value.stringId :: s.temps } := by
  refine owned.of_le (fun id => ?_) rfl
  simp only [State.tally, State.tallyScopes, tallyHand_cons, count_cons, Value.tally, beq_iff_eq]
  omega

theorem Owned.release : Owned hand { s with temps := s.temps.tail } := by
  refine owned.of_le (fun id => ?_) rfl
  have fewer : s.temps.tail.count (some id) ≤ s.temps.count (some id) := (tail_sublist _).count_le _
  simp only [State.tally, State.tallyScopes]
  omega

theorem Owned.assign (name : Chars) (notString : value.stringId = none) :
    Owned hand (s.assign name value) := by
  apply owned.of_le _ (s.assign_strings name value)
  intro id
  have fewer := s.tallyScopes_assign_le name value id
  have others := s.tally_assign name value id
  rw [Value.tally_eq_zero notString] at fewer
  omega

/-- A variable passes its string on to the freed ones. -/
theorem Owned.replace (found : s.find name = some old) (notString : value.stringId = none) :
    Owned hand ({ s with freed := s.freed ++ old.stringId.toList }.assign name value) := by
  refine owned.of_le (fun id => ?_) (State.assign_strings _ name value)
  have passed : ({ s with freed := s.freed ++ old.stringId.toList }.assign name value).tallyScopes
      id + old.tally id = s.tallyScopes id + value.tally id :=
    State.tallyScopes_assign value id found
  have others := { s with freed := s.freed ++ old.stringId.toList }.tally_assign name value id
  rw [Value.tally_eq_zero notString] at passed
  have freed : { s with freed := s.freed ++ old.stringId.toList }.tally id =
      s.tally id + old.tally id := by
    rw [State.tally, State.tally, count_append, count_stringId]
    simp only [State.tallyScopes]
    omega
  have same : { s with freed := s.freed ++ old.stringId.toList }.tallyScopes id =
      s.tallyScopes id := rfl
  omega

theorem Owned.define (name : Chars) : Owned hand (s.setCurrent (⟨name, .void⟩ :: s.current)) := by
  apply owned.of_le _ (s.setCurrent_strings _)
  intro id
  have changed := s.tallyScopes_setCurrent (⟨name, .void⟩ :: s.current) id
  have others := s.tally_setCurrent (⟨name, .void⟩ :: s.current) id
  have void : (.void : Value D).tally id = 0 := Value.tally_eq_zero rfl
  rw [tallyVars_cons, void] at changed
  omega

omit owned in
theorem Owned.setPlace (owned : Owned (value :: hand) s) (place : Nat) :
    Owned hand (s.setCurrent (setPlace place value s.current)) := by
  apply owned.of_le _ (s.setCurrent_strings _)
  intro id
  have changed := s.tallyScopes_setCurrent (Cint.setPlace place value s.current) id
  have others := s.tally_setCurrent (Cint.setPlace place value s.current) id
  have fewer := tallyVars_setPlace_le place value s.current id
  rw [tallyHand_cons]
  omega

/-- The string of a variable has not been freed. -/
theorem Owned.not_freed_of_find {id : Nat}
    (found : s.find name = some (.string id)) : id ∉ s.freed := by
  intro member
  have count := owned id
  have freed := count_pos_iff.mpr member
  have passed := State.tallyScopes_assign .void id found
  rw [Value.tally_string_self, Value.tally_eq_zero rfl] at passed
  rw [State.tally] at count
  split_ifs at count <;> omega

end

/-- As long as no string is copied, every string has one owner at most. -/
def ownedInvariant : Invariant D where
  floor := 0
  isTree _ := True
  holds hand s := NoCopies s.log → Owned hand s ∧ MomentsOwned s.log
  stopped fault s := NoCopies s.log →
    MomentsOwned s.log ∧ fault ≠ some .doubleFree ∧ fault ≠ some .useAfterFree
  drop kept none := ⟨(kept none).1.drop, (kept none).2⟩
  scalar {value hand s} isScalar kept none := by
    refine ⟨(kept none).1.cons ?_, (kept none).2⟩
    cases value with
    | string id => cases isScalar
    | _ => rfl
  string text kept none := ⟨(kept none).1.string text, (kept none).2⟩
  readVar {value hand s name} found kept := by
    cases value with
    | string id => exact fun none => absurd none (not_noCopies_reads _ id)
    | _ => exact fun none => ⟨(kept none).1.cons rfl, (kept none).2⟩
  callee _ _ := trivial
  declare _ _ _ kept none :=
    ⟨Owned.cons (kept none.of_append).1 rfl, (kept none.of_append).2.append nofun⟩
  control _ _ _ _ kept := kept
  free kept _ none := ⟨(kept none).1.free, (kept none).2⟩
  freed kept member none := absurd member (kept none).1.not_freed
  stop notFree notUse kept none := ⟨(kept none).2, notFree, notUse⟩
  replace {value old s name} found _ kept := by
    rw [State.assign_log]
    cases value with
    | string id => exact fun none => absurd none (not_noCopies_assigns _ id)
    | _ => exact fun none => ⟨(kept none).1.replace found rfl, (kept none).2⟩
  replaceFreed {value s name id} found member kept := by
    cases value with
    | string id => exact fun none => absurd none (not_noCopies_assigns _ id)
    | _ => exact fun none => absurd member ((kept none).1.not_freed_of_find found)
  setNumber {value hand s} name isScalar kept := by
    rw [State.assign_log]
    refine fun none => ⟨(kept none).1.assign name ?_, (kept none).2⟩
    cases value with
    | string id => cases isScalar
    | _ => rfl
  define name kept := by
    rw [State.setCurrent_log]
    exact fun none => ⟨(kept none).1.define name, (kept none).2⟩
  setPlace place kept := by
    rw [State.setCurrent_log]
    exact fun none => ⟨(kept none).1.setPlace place, (kept none).2⟩
  setReturn kept none := ⟨(kept none).1.setReturn, (kept none).2⟩
  takeReturn kept none := ⟨(kept none).1.takeReturn, (kept none).2⟩
  enter kept none := ⟨(kept none).1.enter, (kept none).2⟩
  leave isCons kept none := ⟨(kept none).1.leave isCons, (kept none).2⟩
  hold kept none := ⟨(kept none).1.hold, (kept none).2⟩
  release kept none := ⟨(kept none).1.release, (kept none).2⟩
  leaves {value s} kept none := by
    have before := kept none.of_append
    refine ⟨before.1, before.2.append ?_⟩
    rintro _ _ ⟨⟩
    exact before.1.nodup
  nativeCall _ _ kept none := ⟨(kept none.of_append).1, (kept none.of_append).2.append nofun⟩
  argument _ _ kept none := ⟨(kept none.of_append).1, (kept none.of_append).2.append nofun⟩

end Owned

/-! ## Sessions -/

section Sessions

variable [Double D]

/-- A call in which no expression is a variable with a string as its value, or a plain
assignment of a string. -/
def Session.copiesNone (session : Session D) (label : Label) : Bool :=
  (session.events label).all fun event =>
    !(event matches .readsString _) && !(event matches .assignsString _)

/-- At the end of each evaluation of a node, and between the calls, no string has two owners or
has been freed twice, and none that has been freed has an owner; and no call has ended with
the second free or the use of a freed string. -/
structure Session.StringsOwned (session : Session D) : Prop where
  moments : MomentsOwned session.state.log
  between : session.status = .done () →
    (owned session.state .void ++ session.state.freed).Nodup
  notFreedTwice : session.status ≠ .fault .doubleFree
  notUsedAfter : session.status ≠ .fault .useAfterFree

/-- What holds in every state of a session without copies, and what between its calls. -/
structure Session.OwnedInv (session : Session D) : Prop where
  none : NoCopies session.state.log
  moments : MomentsOwned session.state.log
  global : session.status = .done () → session.state.frames = []
  owned : session.status = .done () → Owned [] session.state
  notFreedTwice : session.status ≠ .fault .doubleFree
  notUsedAfter : session.status ≠ .fault .useAfterFree

theorem Session.OwnedInv.step {session next : Session D} {label : Label}
    (inv : session.OwnedInv) (guard : session.copiesNone label = true)
    (stepEq : session.step label = some next) : next.OwnedInv := by
  obtain ⟨ready, rfl⟩ := Session.step_eq_some stepEq
  have global := inv.global ready
  have none : NoCopies (perform label.depth label.input session.state).2.log := by
    intro id
    rw [Session.log_eq_append global, mem_append, mem_append, not_or, not_or]
    refine ⟨⟨(inv.none id).1, fun member => ?_⟩, ⟨(inv.none id).2, fun member => ?_⟩⟩
    · simpa using all_eq_true.mp guard _ member
    · simpa using all_eq_true.mp guard _ member
  have ends : ownedInvariant.Ends 0 (perform label.depth label.input) session.state
      fun _ => [] :=
    Invariant.ends_perform (fun _ _ _ _ kept => kept) (fun _ _ => trivial)
      ⟨congrArg _ global, Nat.le_refl 0, fun _ => ⟨inv.owned ready, inv.moments⟩⟩
  rw [Invariant.Ends] at ends
  rcases outcome : perform label.depth label.input session.state with ⟨value | _ | fault, last⟩
  · rw [outcome] at ends none
    obtain ⟨owned, moments⟩ := ends.holds none
    exact ⟨none, moments, fun _ => length_eq_zero_iff.mp ends.depth, fun _ => owned, by simp,
      by simp⟩
  · rw [outcome] at ends none
    exact ⟨none, (ends none).1, by simp, by simp, by simp, by simp⟩
  · rw [outcome] at ends none
    obtain ⟨moments, notFree, notUse⟩ := ends none
    refine ⟨none, moments, by simp, by simp, ?_, ?_⟩
    · rintro ⟨⟩
      exact notFree rfl
    · rintro ⟨⟩
      exact notUse rfl

omit [Double D] in
theorem Session.ownedInv_initial (natives : List Native)
    (library : Nat → BitVec 64 → BitVec 64 → BitVec 64 → BitVec 64 → BitVec 64)
    (verbose : Bool) : (Session.initial natives library verbose : Session D).OwnedInv where
  none _ := ⟨nofun, nofun⟩
  moments _ _ := nofun
  global _ := rfl
  owned _ := fun id => by
    have void : (.void : Value D).tally id = 0 := Value.tally_eq_zero rfl
    simp [Session.initial, State.create, State.tally, State.tallyScopes, void]
  notFreedTwice := nofun
  notUsedAfter := nofun

/-- In every session without copies of strings each string has one owner at most, at all
times, and is freed once at most. -/
theorem strings_owned (natives : List Native)
    (library : Nat → BitVec 64 → BitVec 64 → BitVec 64 → BitVec 64 → BitVec 64)
    (verbose : Bool) (session : Session D)
    (run : GuardedRun Session.step (fun session label => session.copiesNone label = true)
      (Session.initial natives library verbose) session) : session.StringsOwned := by
  have inv := run.invariant Session.OwnedInv (Session.ownedInv_initial natives library verbose)
    fun session label next inv guard stepEq => inv.step guard stepEq
  exact ⟨inv.moments, fun ready => ((inv.owned ready).cons rfl).nodup, inv.notFreedTwice,
    inv.notUsedAfter⟩

end Sessions

/-- The session that declares a string and prints another one. -/
theorem strings_owned_print :
    let label : Label := ⟨.eval "\x7b char *s = \x22a\x22; print(\x22b\x22); \x7d".toList, 60⟩
    let first : Session Int := Session.initial [] (fun _ _ _ _ _ => 0) false
    let result := perform label.depth label.input first.state
    first.copiesNone label = true ∧ (Session.mk result.2 result.1).StringsOwned := by
  intro label first result
  have copiesNone : first.copiesNone label = true := by decide +kernel
  refine ⟨copiesNone, strings_owned [] (fun _ _ _ _ _ => 0) false ⟨result.2, result.1⟩ ?_⟩
  exact GuardedRun.tail .refl (show (fun (session : Session Int) (label : Label) =>
    session.copiesNone label = true) first label from copiesNone) rfl

/-- The expression `s` of a statement is freed with the string of the variable, and once more in
the next statement. -/
theorem string_freed_twice :
    (exec Session.step (Session.initial [] (fun _ _ _ _ _ => 0) false : Session Int)
        [⟨.eval "char *s = \x22a\x22;".toList, 60⟩, ⟨.eval "s;".toList, 60⟩]).map
      (fun session => (session.status, session.state.held, session.state.freed)) =
        some (.done (), [0], [0]) ∧
    (exec Session.step (Session.initial [] (fun _ _ _ _ _ => 0) false : Session Int)
        [⟨.eval "char *s = \x22a\x22;".toList, 60⟩, ⟨.eval "s;".toList, 60⟩,
          ⟨.eval "s;".toList, 60⟩]).map (fun session => session.status) =
        some (.fault .doubleFree) := by
  decide +kernel

end QDaemon.Cint
