import QDaemon.Cint.Evaluator

/-!
# Integer arithmetic

The operators of the interpreter on integers are those of C on `int64_t`.  C leaves undefined
sums, differences and products that do not fit, the quotient of the least number by -1, and
shifts by amounts that are not below the width.  The evaluator tests for a divisor of zero only.
-/

namespace QDaemon.Cint

open Text

variable {D : Type} [Double D]

/-- The operators on integers.  A step and an assignment change the variable of the given name. -/
inductive Arithmetic
  | binary (op : BinOp)
  | negation
  | complement
  | step (name : Chars) (delta : Int) (isPre : Bool)
  | assignment (op : BinOp) (name : Chars)

namespace Arithmetic

/-- What the evaluator does for an operator once it has the operands. -/
def run (left right : BitVec 64) : Arithmetic → Eval D (Value D)
  | binary op => Eval.check .arithmetic (binop op (.int left) (.int right))
  | negation => Eval.check .arithmetic (negate (.int left))
  | complement => Eval.check .arithmetic (Cint.complement (.int left))
  | step name delta isPre => Eval.stepVar name (.int left) delta isPre
  | assignment op name => Eval.assignVar op name (.int left) (.int right)

/-- The range of `int64_t`. -/
def Fits (number : Int) : Prop :=
  -2 ^ 63 ≤ number ∧ number < 2 ^ 63

/-- C defines the operation on the operands. -/
def Defined (left right : BitVec 64) : Arithmetic → Prop
  | binary .add | assignment .addAssign _ => Fits (left.toInt + right.toInt)
  | binary .sub | assignment .subAssign _ => Fits (left.toInt - right.toInt)
  | binary .mul | assignment .mulAssign _ => Fits (left.toInt * right.toInt)
  | binary .div | binary .mod | assignment .divAssign _ => left ≠ .intMin 64 ∨ right ≠ -1
  | binary .lshift => (right.toNat < 64 ∧ 0 ≤ left.toInt) ∧ Fits (left.toInt * 2 ^ right.toNat)
  | binary .rshift => right.toNat < 64
  | negation => left ≠ .intMin 64
  | step _ delta _ => Fits (left.toInt + delta)
  | _ => True

variable {left right : BitVec 64} {s : State D}

theorem fits_toInt (number : BitVec 64) : Fits number.toInt :=
  ⟨number.le_toInt, BitVec.toInt_lt⟩

theorem fitInt_eq_none {number : Int} : fitInt number = none ↔ ¬Fits number := by
  simp [fitInt, Fits]

/-- Of all quotients only that of the least number by -1 does not fit. -/
theorem fits_tdiv : Fits (left.toInt.tdiv right.toInt) ↔ left ≠ .intMin 64 ∨ right ≠ -1 := by
  constructor
  · intro fits
    by_contra! exceptional
    rw [exceptional.1, exceptional.2] at fits
    exact absurd fits.2 (by decide)
  · intro other
    rw [← BitVec.toInt_sdiv_of_ne_or_ne left right other]
    exact fits_toInt _

theorem divInt_eq_none : divInt left right = none ↔ ¬(left ≠ .intMin 64 ∨ right ≠ -1) := by
  rw [divInt]
  split
  next zero => simp [zero]
  next => rw [fitInt_eq_none, fits_tdiv]

theorem modInt_eq_none : modInt left right = none ↔ ¬(left ≠ .intMin 64 ∨ right ≠ -1) := by
  rw [modInt]
  split
  next zero => simp [zero]
  next =>
    have fits := fits_toInt (left.srem right)
    rw [BitVec.toInt_srem] at fits
    rw [← fits_tdiv, ← fitInt_eq_none]
    cases fitInt (left.toInt.tdiv right.toInt) with
    | none => simp
    | some => simpa [fitInt_eq_none] using fits

omit [Double D] in
/-- The evaluation ends at an undefined operation. -/
theorem check_fault_iff {α : Type} {result : Option α} :
    (Eval.check .arithmetic result s).1 = .fault .arithmetic ↔ result = none := by
  cases result with
  | none => exact ⟨fun _ => rfl, fun _ => rfl⟩
  | some value => exact ⟨nofun, nofun⟩

theorem stepVar_fault_iff {name : Chars} {delta : Int} {isPre : Bool} :
    (Eval.stepVar name (.int left) delta isPre s).1 = .fault .arithmetic ↔
      fitInt (left.toInt + delta) = none := by
  cases computed : fitInt (left.toInt + delta) with
  | none => simp [Eval.stepVar, valToInt, Value.toInt, Eval.check, bind, pure, computed, Eval.fault]
  | some after =>
    simp [Eval.stepVar, valToInt, Value.toInt, Eval.check, bind, pure, computed, Eval.modify]

theorem assignVar_fault_iff {op : BinOp} {name : Chars} :
    (Eval.assignVar op name (.int left) (.int right) s).1 = .fault .arithmetic ↔
      compound op left right = none := by
  rw [Eval.assignVar]
  split
  next plain =>
    simp [plain, compound, Eval.noteAssign, Eval.replaceVar, valFree, bind, pure, Eval.modify]
  next =>
    cases computed : compound op left right with
    | none => simp [valToInt, Value.toInt, Eval.check, bind, pure, computed, Eval.fault]
    | some after =>
      simp [valToInt, Value.toInt, Eval.check, bind, pure, computed, Eval.replaceVar, valFree,
        Eval.modify]

/-- An operator does something undefined exactly on the operands for which C does not define it. -/
theorem run_defined_iff (operator : Arithmetic) (left right : BitVec 64) (s : State D) :
    (operator.run left right s).1 ≠ .fault .arithmetic ↔ operator.Defined left right := by
  rw [Ne, not_iff_comm, Iff.comm]
  rcases operator with op | _ | _ | ⟨name, delta, isPre⟩ | ⟨op, name⟩
  · rw [run, check_fault_iff]
    cases op
    all_goals simp [binop, Value.toInt, intBinop, Defined, fitInt_eq_none, divInt_eq_none,
      modInt_eq_none, shiftLeft, shiftRight]
  · rw [run, check_fault_iff]
    have quotient := @fits_tdiv left (-1)
    rw [show (-1 : BitVec 64).toInt = -1 from rfl, Int.tdiv_neg, Int.tdiv_one] at quotient
    simp [negate, Value.toInt, fitInt_eq_none, Defined, quotient]
  · rw [run, check_fault_iff]
    simp [Cint.complement, Value.toInt, Defined]
  · rw [run, stepVar_fault_iff, fitInt_eq_none, Defined]
  · rw [run, assignVar_fault_iff]
    cases op
    all_goals simp [compound, Defined, fitInt_eq_none, divInt_eq_none]

/-- The greatest number plus one. -/
theorem add_undefined : (run 0x7fffffffffffffff 1 (binary .add)
    (State.create fun _ _ _ _ _ => 0 : State Int)).1 = .fault .arithmetic := by
  rw [run, check_fault_iff]
  simp [binop, Value.toInt, intBinop, fitInt]

end Arithmetic

end QDaemon.Cint
