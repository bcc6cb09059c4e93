import BlockLang.Ident
import BlockLang.Source.Operator
import BlockLang.Source.Span
import BlockLang.Ty

namespace BlockLang.Source

structure Node where
  id : NodeId
  span : Span
deriving DecidableEq

inductive Atom where
  | integer
  | logical
  | string
deriving DecidableEq

inductive TypeExpr where
  | atom (node : Node) (kind : Atom)
  | array (node : Node) (size : UInt64) (element : TypeExpr)
  | name (node : Node) (name : String)

inductive Literal where
  | integer (value : Word)
  | logical (value : Bool)
  | string (value : String)
deriving DecidableEq

structure Param where
  node : Node
  name : String
  type : TypeExpr

mutual

inductive Expr where
  | literal (node : Node) (value : Literal)
  | name (node : Node) (name : String)
  | unary (node : Node) (op : UnaryOp) (operand : Expr)
  | binary (node : Node) (op : BinaryOp) (lhs rhs : Expr)
  | call (node : Node) (name : String) (args : List Expr)
  | block (node : Node) (body : List Expr)
  | ifThen (node : Node) (condition positive : Expr)
  | ifElse (node : Node) (condition positive negative : Expr)
  | whileLoop (node : Node) (condition body : Expr)
  | forLoop (node : Node) (counter low high step body : Expr)
  | whereDefs (node : Node) (body : Expr) (defsNode : Node) (defs : List Def)

inductive Def where
  | var (node : Node) (name : String) (type : TypeExpr)
  | func (node : Node) (name : String) (params : List Param) (result : TypeExpr) (body : Expr)
  | type (node : Node) (name : String) (type : TypeExpr)

end

def Expr.node : Expr → Node
  | literal node _ | name node _ | unary node _ _ | binary node _ _ _ | call node _ _
  | block node _ | ifThen node _ _ | ifElse node _ _ _ | whileLoop node _ _
  | forLoop node _ _ _ _ _ | whereDefs node _ _ _ => node

def Def.node : Def → Node
  | var node _ _ | func node _ _ _ _ | type node _ _ => node

def Def.name : Def → String
  | var _ name _ | func _ name _ _ _ | type _ name _ => name

structure Defs where
  node : Node
  definitions : List Def

structure Tables where
  types : NodeTable Ty := ∅
  bindings : NodeTable NodeId := ∅

structure Program where
  defs : Defs
  tables : Tables

end BlockLang.Source
