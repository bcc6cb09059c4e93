import BlockLang.Word

namespace BlockLang.Source

inductive BinaryOp where
  | compute (op : Op)
  | assign
  | index
deriving DecidableEq

inductive BinaryOp.Family where
  | arithmetic
  | logical
  | comparison
  | assignment
  | index
deriving DecidableEq

namespace BinaryOp

def all : List BinaryOp := Op.all.map compute ++ [assign, index]

theorem mem_all (op : BinaryOp) : op ∈ all := by
  cases op <;> simp [all, Op.mem_all]

def symbol : BinaryOp → String
  | compute .add => "+"
  | compute .sub => "-"
  | compute .mul => "*"
  | compute .div => "/"
  | compute .mod => "%"
  | compute .and => "&"
  | compute .or => "|"
  | compute .eq => "=="
  | compute .ne => "!="
  | compute .lt => "<"
  | compute .gt => ">"
  | compute .le => "<="
  | compute .ge => ">="
  | assign => "="
  | index => "[]"

def ofSymbol? (symbol : String) : Option BinaryOp := all.find? (·.symbol = symbol)

def family : BinaryOp → Family
  | compute .add | compute .sub | compute .mul | compute .div | compute .mod => .arithmetic
  | compute .and | compute .or => .logical
  | compute .eq | compute .ne | compute .lt | compute .gt | compute .le | compute .ge => .comparison
  | assign => .assignment
  | index => .index

end BinaryOp

inductive UnaryOp where
  | plus
  | negate
  | not
deriving DecidableEq

namespace UnaryOp

def all : List UnaryOp := [plus, negate, not]

def symbol : UnaryOp → String
  | plus => "+"
  | negate => "-"
  | not => "!"

def ofSymbol? (symbol : String) : Option UnaryOp := all.find? (·.symbol = symbol)

end UnaryOp

end BlockLang.Source
