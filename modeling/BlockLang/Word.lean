namespace BlockLang

abbrev Word := Int64

def Word.ofBool (b : Bool) : Word := if b then 1 else 0

def wordSize : Int := 8

def wordBound : Int := 9223372036854775808

theorem wordBound_eq : wordBound = 9223372036854775808 := rfl

theorem Word.toInt_ofInt {a : Int} (h0 : 0 ≤ a) (h : a < wordBound) : (Int64.ofInt a).toInt = a := by
  rw [wordBound_eq] at h
  exact Int64.toInt_ofInt_of_le (by omega) h

inductive Op where
  | add
  | sub
  | mul
  | div
  | mod
  | and
  | or
  | eq
  | ne
  | lt
  | gt
  | le
  | ge
deriving DecidableEq

namespace Op

def all : List Op := [add, sub, mul, div, mod, and, or, eq, ne, lt, gt, le, ge]

theorem mem_all (op : Op) : op ∈ all := by
  cases op <;> decide

/-- The result of an operator, none for a division by zero. Quotients are rounded towards zero. -/
def apply (op : Op) (a b : Word) : Option Word :=
  match op with
  | add => some (a + b)
  | sub => some (a - b)
  | mul => some (a * b)
  | div => if b = 0 then none else some (a / b)
  | mod => if b = 0 then none else some (a % b)
  | and => some (.ofBool (a ≠ 0 && b ≠ 0))
  | or => some (.ofBool (a ≠ 0 || b ≠ 0))
  | eq => some (.ofBool (a = b))
  | ne => some (.ofBool (a ≠ b))
  | lt => some (.ofBool (a < b))
  | gt => some (.ofBool (b < a))
  | le => some (.ofBool (a ≤ b))
  | ge => some (.ofBool (b ≤ a))

end Op

end BlockLang
