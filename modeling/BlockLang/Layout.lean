import BlockLang.Frame
import BlockLang.Source.Syntax

namespace BlockLang

open Source

structure Layout where
  frames : NodeTable Frame := ∅
  accesses : NodeTable Access := ∅
  labels : LabelSupply := {}

namespace Layout

structure Error where
  node : NodeId
  span : Span
deriving DecidableEq

def Error.message (e : Error) : String :=
  "no resolved type for node " ++ e.node.describe ++ " at " ++ e.span.text

abbrev Build := StateT Layout (Except Error)

def typeOf (types : NodeTable Ty) (n : Node) : Build Ty :=
  match types[n.id]? with
  | some type => pure type
  | none => throw ⟨n.id, n.span⟩

def setFrame (id : NodeId) (f : Frame) : Build Unit :=
  modify fun l => { l with frames := l.frames.insert id f }

def setAccess (id : NodeId) (a : Access) : Build Unit :=
  modify fun l => { l with accesses := l.accesses.insert id a }

def freshLabel : Build Label :=
  modifyGet fun l => (l.labels.fresh.1, { l with labels := l.labels.fresh.2 })

variable (types : NodeTable Ty)

def addParams : List Param → Frame → Build Frame
  | [], f => pure f
  | p :: ps, f => do
    let size := (← typeOf types p.node).paramSize
    setAccess p.node.id (.param size f.nextParam f.level)
    addParams ps (f.addParam size)

mutual

def addExpr : Expr → Frame → Build Frame
  | .literal _ _, f | .name _ _, f => pure f
  | .unary _ _ e, f => addExpr e f
  | .binary _ _ l r, f => do addExpr r (← addExpr l f)
  | .call _ _ args, f => do
    let (f, size) ← addArgs args f wordSize
    return f.addCall size
  | .block _ body, f => addExprs body f
  | .ifThen _ c p, f => do addExpr p (← addExpr c f)
  | .ifElse _ c p n, f => do addExpr n (← addExpr p (← addExpr c f))
  | .whileLoop _ c b, f => do addExpr b (← addExpr c f)
  | .forLoop _ c l h s b, f => do
    addExpr b (← addExpr s (← addExpr h (← addExpr l (← addExpr c f))))
  | .whereDefs _ body _ defs, f => do addExpr body (← addDefs defs f)

def addExprs : List Expr → Frame → Build Frame
  | [], f => pure f
  | e :: es, f => do addExprs es (← addExpr e f)

def addArgs : List Expr → Frame → Int → Build (Frame × Int)
  | [], f, size => pure (f, size)
  | e :: es, f, size => do
    let f ← addExpr e f
    let type ← typeOf types e.node
    addArgs es f (size + type.paramSize)

def addDef : Def → Frame → Build Frame
  | .var n _ _, f => do
    let size := (← typeOf types n).size
    setAccess n.id (.stack size (f.nextLocal size) f.level)
    return f.addLocal size
  | .func n _ params _ body, f => do
    let label ← freshLabel
    let inner ← addParams types params { label, level := f.level + 1 }
    setFrame n.id (← addExpr body inner)
    return f
  | .type _ _ _, f => pure f

def addDefs : List Def → Frame → Build Frame
  | [], f => pure f
  | d :: ds, f => do addDefs ds (← addDef d f)

end

def addTop : Def → Build Unit
  | .var n name _ => do
    let size := (← typeOf types n).size
    setAccess n.id (.global size (.named name))
  | .func n name params _ body => do
    let inner ← addParams types params { label := .named name, level := 1 }
    setFrame n.id (← addExpr types body inner)
  | .type _ _ _ => pure ()

end Layout

def Source.Program.layout (p : Source.Program) : Except Layout.Error Layout := do
  let (_, layout) ← (p.defs.definitions.forM (Layout.addTop p.tables.types)).run {}
  return layout

end BlockLang
