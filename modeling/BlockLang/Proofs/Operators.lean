import BlockLang.Proofs.Action
import BlockLang.Source.Operator

/-! The operators of the source language by their exact values. The machine computes with words
throughout, and comes to the same. -/

namespace BlockLang

def truth (p : Prop) [Decidable p] : Int := if p then 1 else 0

/-- The exact value of an operator, none for a division by zero. Quotients are rounded towards zero. -/
def Op.value (op : Op) (x y : Int) : Option Int :=
  match op with
  | add => some (x + y)
  | sub => some (x - y)
  | mul => some (x * y)
  | div => if y = 0 then none else some (x.tdiv y)
  | mod => if y = 0 then none else some (x.tmod y)
  | and => some (truth (x ≠ 0 ∧ y ≠ 0))
  | or => some (truth (x ≠ 0 ∨ y ≠ 0))
  | eq => some (truth (x = y))
  | ne => some (truth (x ≠ y))
  | lt => some (truth (x < y))
  | gt => some (truth (x > y))
  | le => some (truth (x ≤ y))
  | ge => some (truth (x ≥ y))

namespace Word

lemma ofInt_truth (p : Prop) [Decidable p] : Int64.ofInt (truth p) = ofBool (decide p) := by
  by_cases h : p
  · simp [truth, ofBool, h]
  · simp [truth, ofBool, h]

lemma toInt_eq_zero {x : Word} : x.toInt = 0 ↔ x = 0 := by
  rw [← Int64.toInt_inj, Int64.toInt_zero]

lemma add_eq_ofInt (x y : Word) : x + y = .ofInt (x.toInt + y.toInt) := by
  rw [Int64.ofInt_add, Int64.ofInt_toInt, Int64.ofInt_toInt]

lemma sub_eq_ofInt (x y : Word) : x - y = .ofInt (x.toInt - y.toInt) := by
  rw [Int64.ofInt_sub, Int64.ofInt_toInt, Int64.ofInt_toInt]

lemma mul_eq_ofInt (x y : Word) : x * y = .ofInt (x.toInt * y.toInt) := by
  rw [Int64.ofInt_mul, Int64.ofInt_toInt, Int64.ofInt_toInt]

lemma div_eq_ofInt (x y : Word) : x / y = .ofInt (x.toInt.tdiv y.toInt) := by
  rw [← Int64.toInt_inj, Int64.toInt_div, Int64.toInt_ofInt]

lemma mod_eq_ofInt (x y : Word) : x % y = .ofInt (x.toInt.tmod y.toInt) := by
  rw [← Int64.toInt_mod, Int64.ofInt_toInt]

end Word

/-- What the machine computes is the exact value, brought back to a word. -/
theorem Op.apply_eq_value (op : Op) (x y : Word) :
    op.apply x y = (op.value x.toInt y.toInt).map .ofInt := by
  cases op with
  | add => exact congrArg some (Word.add_eq_ofInt x y)
  | sub => exact congrArg some (Word.sub_eq_ofInt x y)
  | mul => exact congrArg some (Word.mul_eq_ofInt x y)
  | div =>
    by_cases hy : y = 0
    · simp [apply, value, hy]
    · simp [apply, value, hy, Word.toInt_eq_zero, Word.div_eq_ofInt x y]
  | mod =>
    by_cases hy : y = 0
    · simp [apply, value, hy]
    · simp [apply, value, hy, Word.toInt_eq_zero, Word.mod_eq_ofInt x y]
  | and => simp [apply, value, Word.ofInt_truth, Word.toInt_eq_zero, Bool.decide_and]
  | or => simp [apply, value, Word.ofInt_truth, Word.toInt_eq_zero, Bool.decide_or]
  | eq => simp [apply, value, Word.ofInt_truth, Int64.toInt_inj]
  | ne => simp [apply, value, Word.ofInt_truth, Int64.toInt_inj]
  | lt => simp [apply, value, Word.ofInt_truth, Int64.lt_iff_toInt_lt]
  | gt => simp [apply, value, Word.ofInt_truth, Int64.lt_iff_toInt_lt]
  | le => simp [apply, value, Word.ofInt_truth, Int64.le_iff_toInt_le]
  | ge => simp [apply, value, Word.ofInt_truth, Int64.le_iff_toInt_le]

namespace Source

def UnaryOp.value : UnaryOp → Int → Int
  | .plus, x => x
  | .negate, x => -x
  | .not, x => 1 - x

theorem UnaryOp.not_truth (p : Prop) [Decidable p] : UnaryOp.not.value (truth p) = truth ¬p := by
  by_cases h : p
  · simp [UnaryOp.value, truth, h]
  · simp [UnaryOp.value, truth, h]

variable {σ : Type}

def operate (op : Op) (x y : Word) : Action σ Word :=
  match op.value x.toInt y.toInt with
  | some v => pure (.ofInt v)
  | none => .fail .divisionByZero

theorem operate_eq_compute (op : Op) (x y : Word) :
    (operate op x y : Action σ Word) = .compute op x y := by
  rw [operate, Action.compute, Op.apply_eq_value]
  cases op.value x.toInt y.toInt <;> rfl

end Source

end BlockLang
