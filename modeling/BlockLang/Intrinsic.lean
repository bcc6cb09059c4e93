import BlockLang.Label

namespace BlockLang

inductive Intrinsic where
  | printInt
  | printStr
  | printLog
  | randInt
  | seed
deriving DecidableEq

namespace Intrinsic

def all : List Intrinsic := [printInt, printStr, printLog, randInt, seed]

theorem mem_all (i : Intrinsic) : i ∈ all := by
  cases i <;> decide

def name : Intrinsic → String
  | printInt => "print_int"
  | printStr => "print_str"
  | printLog => "print_log"
  | randInt => "rand_int"
  | seed => "seed"

def arity : Intrinsic → Nat
  | randInt => 2
  | _ => 1

def label (i : Intrinsic) : Label := .named i.name

def ofName? (name : String) : Option Intrinsic := all.find? (·.name = name)

def ofLabel? : Label → Option Intrinsic
  | .named name => ofName? name
  | .anonymous _ => none

theorem ofLabel?_label (i : Intrinsic) : ofLabel? i.label = some i := by
  cases i <;> decide

end Intrinsic

end BlockLang
