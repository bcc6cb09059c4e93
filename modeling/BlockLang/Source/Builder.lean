import BlockLang.Intrinsic
import BlockLang.Source.Syntax

/-! Building programs. Every node gets the next number and the position set last; types and bindings
are noted on the way. -/

namespace BlockLang.Source

structure Builder where
  nextId : Nat := 0
  span : Span := .point 1 1
  tables : Tables := {}

inductive BuildError where
  | unspellable (type : Ty)
  | noParam (position : OutOfRange)
deriving DecidableEq

def BuildError.message : BuildError → String
  | unspellable type =>
    "internal error: entered unreachable code: " ++ type.text ++ " can not be spelled out in source"
  | noParam position => position.message

abbrev Build := StateT Builder (Except BuildError)

structure Ref where
  id : NodeId
  name : String

def Def.ref (d : Def) : Ref := ⟨d.node.id, d.name⟩

def Param.ref (p : Param) : Ref := ⟨p.node.id, p.name⟩

structure Signature where
  node : Node
  name : String
  params : List Param
  resultType : TypeExpr
  result : Ty

def Signature.param (s : Signature) (i : Nat) : Except OutOfRange Param :=
  match s.params[i]? with
  | some p => .ok p
  | none => .error ⟨s.params.length, i⟩

namespace Builder

def moveTo (line column : Nat) : Build Unit :=
  modify fun b => { b with span := .point line column }

def node : Build Node := do
  let b ← get
  set { b with nextId := b.nextId + 1 }
  return ⟨.ofNat b.nextId, b.span⟩

def setType (id : NodeId) (type : Ty) : Build Unit :=
  modify fun b => { b with tables.types := b.tables.types.insert id type }

def setBinding (id target : NodeId) : Build Unit :=
  modify fun b => { b with tables.bindings := b.tables.bindings.insert id target }

def typeOf (id : NodeId) : Build Ty := do
  return (← get).tables.types.getD id .void

def typedNode (type : Ty) : Build Node := do
  let n ← node
  setType n.id type
  return n

def typeExpr : Ty → Build TypeExpr
  | .int => return .atom (← typedNode .int) .integer
  | .log => return .atom (← typedNode .log) .logical
  | .str => return .atom (← typedNode .str) .string
  | .array size element => do
    let n ← node
    let e ← typeExpr element
    setType n.id (.array size element)
    return .array n size e
  | .void => throw (.unspellable .void)
  | .function params result => throw (.unspellable (.function params result))

def int (value : Word) : Build Expr := do
  return .literal (← typedNode .int) (.integer value)

def log (value : Bool) : Build Expr := do
  return .literal (← typedNode .log) (.logical value)

def string (value : String) : Build Expr := do
  return .literal (← typedNode .str) (.string value)

def name (target : Ref) : Build Expr := do
  let n ← typedNode (← typeOf target.id)
  setBinding n.id target.id
  return .name n target.name

def binary (op : BinaryOp) (lhs rhs : Expr) : Build Expr := do
  let type ← match op.family with
    | .arithmetic => pure Ty.int
    | .logical | .comparison => pure Ty.log
    | .assignment => pure Ty.void
    | .index => do
      match ← typeOf lhs.node.id with
      | .array _ element => pure element
      | _ => pure Ty.void
  return .binary (← typedNode type) op lhs rhs

def compute (op : Op) (lhs rhs : Expr) : Build Expr := binary (.compute op) lhs rhs

def assign (lhs rhs : Expr) : Build Expr := binary .assign lhs rhs

def index (array position : Expr) : Build Expr := binary .index array position

def unary (op : UnaryOp) (operand : Expr) : Build Expr := do
  let type := match op with
    | .not => Ty.log
    | .plus | .negate => Ty.int
  return .unary (← typedNode type) op operand

def call (callee : Signature) (args : List Expr) : Build Expr := do
  let n ← typedNode callee.result
  setBinding n.id callee.node.id
  return .call n callee.name args

def callUnbound (name : String) (args : List Expr) : Build Expr := do
  let type := match Intrinsic.ofName? name with
    | some .randInt => Ty.int
    | _ => Ty.void
  return .call (← typedNode type) name args

def block (body : List Expr) : Build Expr := do
  let type ← match body.getLast? with
    | some e => typeOf e.node.id
    | none => pure Ty.void
  return .block (← typedNode type) body

def ifThen (condition positive : Expr) : Build Expr := do
  return .ifThen (← typedNode .void) condition positive

def ifElse (condition positive negative : Expr) : Build Expr := do
  return .ifElse (← typedNode .void) condition positive negative

def whileLoop (condition body : Expr) : Build Expr := do
  return .whileLoop (← typedNode .void) condition body

def forLoop (counter low high step body : Expr) : Build Expr := do
  return .forLoop (← typedNode .void) counter low high step body

def whereDefs (body : Expr) (defs : List Def) : Build Expr := do
  let type ← typeOf body.node.id
  let defsNode ← node
  return .whereDefs (← typedNode type) body defsNode defs

def var (name : String) (type : Ty) : Build Def := do
  let written ← typeExpr type
  return .var (← typedNode type) name written

def typeDef (name : String) (type : Ty) : Build Def := do
  let written ← typeExpr type
  return .type (← typedNode type) name written

def param (name : String) (type : Ty) : Build Param := do
  let written ← typeExpr type
  return ⟨← typedNode type, name, written⟩

def signature (name : String) (params : List Param) (result : Ty) : Build Signature := do
  let written ← typeExpr result
  let types ← params.mapM fun p => typeOf p.node.id
  return ⟨← typedNode (.function types result), name, params, written, result⟩

def func (s : Signature) (body : Expr) : Def :=
  .func s.node s.name s.params s.resultType body

def finish (definitions : List Def) : Build Program := do
  let n ← node
  return ⟨⟨n, definitions⟩, (← get).tables⟩

def run {α : Type} (build : Build α) : Except BuildError α := build.run' {}

end Builder

end BlockLang.Source
