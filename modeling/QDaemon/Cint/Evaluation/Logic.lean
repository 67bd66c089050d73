import QDaemon.Cint.Evaluation.CallByValue

/-!
# Logical operators

`a && b` evaluates `b` only where `a` is true, and `a || b` only where it is false; the result is
the truth of the operand that decides.  `eval_binop` evaluates both operands of every operator,
and it takes those of `&&` and `||` for integers: there a string is false, and with a float there
is no result.
-/

namespace QDaemon.Cint

open Eval

variable {D : Type}

/-- The operator that a left operand of the given truth decides. -/
def logicalOp : Bool → BinOp
  | false => .and
  | true => .or

/-- The values that make `eval_binop` compute with floats. -/
def Value.isFloat : Value D → Bool
  | .float _ => true
  | _ => false

/-- The right operand, while the left one is held. -/
def evalRight (calls : Eval.Calls D) (who : Pointer) (tree : Nat) (l : Value D) (right : Ast D) :
    Eval D (Value D) := do
  hold l
  let r ← calls (.node who tree right)
  release
  pure r

variable [Double D]

/-- The right operand is evaluated only where the left one does not decide, and the result is the
truth of the last operand, as `if` tests it. -/
def ShortCircuits (calls : Eval.Calls D) (who : Pointer) (tree : Nat) (deciding : Bool)
    (left right : Ast D) (s : State D) : Prop :=
  ∀ l next truth, calls (.node who tree left) s = (.done l, next) →
    valToBool l next = (.done truth, next) →
    if truth = deciding then
      evalBinop calls who tree (logicalOp deciding) left right s = (.done (ofBool deciding), next)
    else ∀ r last result, evalRight calls who tree l right next = (.done r, last) →
      valToBool r last = (.done result, last) →
      evalBinop calls who tree (logicalOp deciding) left right s = (.done (ofBool result), last)

/-- The operands as integers have the given truth, if the left one does not decide. -/
def Numeric (deciding : Bool) (l r : Value D) (result : Bool) : Prop :=
  (l.isFloat = false ∧ r.isFloat = false) ∧
    (result = true ↔ (deciding = false → l.toInt ≠ some 0) ∧ r.toInt ≠ some 0)

variable {calls : Eval.Calls D} {who nested : Pointer} {tree depth : Nat} {deciding : Bool}
variable {left right : Ast D} {l r : Value D} {s next last : State D}

theorem evalBinop_of_left {op : BinOp} (returned : calls (.node who tree left) s = (.done l, next)) :
    evalBinop calls who tree op left right s =
      (evalRight calls who tree l right >>= fun r => Eval.check .arithmetic (binop op l r)) next := by
  rw [evalBinop, bind_of_done returned]
  show (calls (.node who tree right) >>= _) _ = ((calls (.node who tree right) >>= _) >>= _) _
  simp only [bind_apply]
  split <;> rfl

/-- Every node that is evaluated is in the log. -/
theorem log_lt_of_returned {ast : Ast D} {value : Value D}
    (returned : Eval.run nested depth (.node who tree ast) s = (.done value, last)) :
    s.log.length < last.log.length := by
  cases depth with
  | zero => cases returned
  | succ depth =>
    obtain ⟨result, middle, evaluated, recorded⟩ := bind_eq_done returned
    obtain ⟨new, isNew, _⟩ := ((Invariant.keeps_evalCases (Invariant.supplies_run nested depth)
      trivial (good_logGrows s).kept ast fun _ => id).kept evaluated).holds
    cases recorded
    simp [State.note, isNew]

theorem evalRight_ne : evalRight (Eval.run nested depth) who tree l right s ≠ (.done r, s) := by
  intro same
  obtain ⟨value, last, evaluated, released⟩ := bind_eq_done
    (show (Eval.run nested depth (.node who tree right) >>= fun r => release >>= fun _ => pure r)
      { s with temps := l.stringId :: s.temps } = _ from same)
  have longer := log_lt_of_returned evaluated
  cases released
  exact absurd longer (Nat.lt_irrefl _)

omit [Double D] in
theorem check_eq_done {α : Type} {fault : Fault} {value : Option α} {result : α} :
    Eval.check fault value s = (.done result, last) ↔ value = some result ∧ s = last := by
  cases value with
  | none => exact ⟨nofun, nofun⟩
  | some value => simp [Eval.check, pure]

/-- A value that is neither true nor a float is zero as an integer. -/
theorem toInt_of_false (tested : valToBool l s = (.done false, s)) (notFloat : l.isFloat = false) :
    l.toInt = some 0 := by
  have isFalse := congrArg Prod.fst tested
  cases l with
  | int value => simpa [valToBool, pure, Value.toInt] using isFalse
  | char letter =>
    obtain rfl : letter = '\x00' := by simpa [valToBool, pure] using isFalse
    rfl
  | float value => cases notFloat
  | _ => rfl

theorem binop_logicalOp {result : Bool} (tested : valToBool l s = (.done (!deciding), s)) :
    binop (logicalOp deciding) l r = some (ofBool result) ↔ Numeric deciding l r result := by
  have isZero (isOr : deciding = true) (notFloat : l.isFloat = false) : l.toInt = some 0 :=
    toInt_of_false (isOr ▸ tested) notFloat
  cases deciding <;> cases l <;> cases r <;> cases result <;>
    simp_all [binop, logicalOp, intBinop, floatBinop, ofBool, Value.isFloat, Value.toInt, Numeric]

/-- `&&` and `||` short-circuit and test truth as `if` does if and only if, wherever the left
operand has a truth value, that value leaves the result to the right operand, whose truth is that
of the operands as integers. -/
theorem shortCircuits_iff (nested who : Pointer) (depth tree : Nat) (deciding : Bool)
    (left right : Ast D) (s : State D) :
    ShortCircuits (Eval.run nested depth) who tree deciding left right s ↔
      ∀ l next truth, Eval.run nested depth (.node who tree left) s = (.done l, next) →
        valToBool l next = (.done truth, next) → truth = !deciding ∧
          ∀ r last result, evalRight (Eval.run nested depth) who tree l right next =
            (.done r, last) → valToBool r last = (.done result, last) →
            Numeric deciding l r result := by
  refine forall₅_congr fun l next truth evaluated tested => ?_
  rw [evalBinop_of_left evaluated]
  by_cases decides : truth = deciding
  · rw [if_pos decides]
    refine iff_of_false (fun same => ?_) (by simp [decides])
    obtain ⟨r, last, right, checked⟩ := bind_eq_done same
    obtain ⟨_, rfl⟩ := check_eq_done.mp checked
    exact evalRight_ne right
  · obtain rfl : truth = !deciding := Bool.eq_not.mpr decides
    rw [if_neg decides, and_iff_right rfl]
    refine forall₅_congr fun r last result right _ => ?_
    rw [bind_of_done right, check_eq_done, and_iff_left rfl, binop_logicalOp tested]

/-- In `0 && (x = 1)` the assignment happens. -/
theorem and_evaluates_right : let last := (cintEval 60
      "\x7b int x = 0; 0 && (x = 1); \x7d".toList (State.create fun _ _ _ _ _ => 0 : State Int)).2
    (last.find ['x']).bind Value.toInt = some 1 := by
  decide +kernel

end QDaemon.Cint
