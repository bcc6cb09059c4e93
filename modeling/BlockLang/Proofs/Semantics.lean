import BlockLang.Lowering
import BlockLang.Machine.Console
import BlockLang.Proofs.Nodes
import BlockLang.Proofs.Operators

namespace BlockLang.Source

/-- What a run can see and change: one cell for each variable, and the console. -/
structure World where
  cells : NodeId → Word
  console : Option Console

namespace World

def get (d : NodeId) : Action World Word := fun w => .done (w.cells d) w

def set (d : NodeId) (v : Word) : Action World Unit := fun w =>
  .done () { w with cells := fun i => if i = d then v else w.cells i }

def print (line : String) : Action World Unit := fun w =>
  match w.console with
  | none => .done () w
  | some c =>
    match c.write (line ++ "\n").toUTF8.data with
    | (none, c) => .done () { w with console := some c }
    | (some reason, c) => .fault (.output reason) { w with console := some c }

end World

def printed? (name : String) (values : List Word) : Option String :=
  match Intrinsic.ofName? name, values with
  | some .printInt, [w] => some (toString w.toInt)
  | some .printLog, [w] => some (if w ≠ 0 then "true" else "false")
  | _, _ => none

def World.call (f : String) (values : List Word) : Action World Word :=
  match printed? f values with
  | some line => do
    World.print line
    return 0
  | none => .stuck

def Tables.cell? (t : Tables) : Expr → Option NodeId
  | .name n _ => t.bindings[n.id]?
  | _ => none

mutual

/-- The value of an expression and its effects, from left to right. Loops are cut off after a number
of rounds. -/
@[simp] def Expr.denote (t : Tables) (rounds : Nat) : Expr → Action World Word
  | .literal _ (.integer v) => pure v
  | .literal _ (.logical b) => pure (.ofBool b)
  | .literal _ (.string _) => .stuck
  | .name n _ =>
    match t.bindings[n.id]? with
    | some d => World.get d
    | none => .stuck
  | .unary _ op e => do return .ofInt (op.value (← e.denote t rounds).toInt)
  | .binary _ (.compute op) l r => do
    let x ← l.denote t rounds
    let y ← r.denote t rounds
    operate op x y
  | .binary _ .assign l r =>
    match t.cell? l with
    | some d => do
      World.set d (← r.denote t rounds)
      return 0
    | none => .stuck
  | .binary _ .index _ _ => .stuck
  | .call _ f args => do World.call f (← Expr.denoteAll t rounds args)
  | .block _ body => Expr.denoteBlock t rounds body
  | .ifThen _ c p => do
    if ← Action.test (← c.denote t rounds) then
      let _ ← p.denote t rounds
    return 0
  | .ifElse _ c p q => do
    if ← Action.test (← c.denote t rounds) then
      let _ ← p.denote t rounds
    else
      let _ ← q.denote t rounds
    return 0
  | .whileLoop _ c b => do
    Action.loop (do Action.test (← c.denote t rounds)) (do let _ ← b.denote t rounds) rounds
    return 0
  | .forLoop _ c low high step b =>
    match t.cell? c with
    | some d => do
      World.set d (← low.denote t rounds)
      Action.loop
        (do
          let i ← World.get d
          return decide (i.toInt < (← high.denote t rounds).toInt))
        (do
          let _ ← b.denote t rounds
          let i ← World.get d
          World.set d (.ofInt (i.toInt + (← step.denote t rounds).toInt)))
        rounds
      return 0
    | none => .stuck
  | .whereDefs _ e _ _ => e.denote t rounds

@[simp] def Expr.denoteAll (t : Tables) (rounds : Nat) : List Expr → Action World (List Word)
  | [] => pure []
  | e :: es => do
    let w ← e.denote t rounds
    return w :: (← Expr.denoteAll t rounds es)

@[simp] def Expr.denoteBlock (t : Tables) (rounds : Nat) : List Expr → Action World Word
  | [] => pure 0
  | [e] => e.denote t rounds
  | e :: e' :: es => do
    let _ ← e.denote t rounds
    Expr.denoteBlock t rounds (e' :: es)

end

namespace Tables

def hasType (t : Tables) (n : Node) (type : Ty) : Bool := t.types[n.id]? = some type

def isScalar (t : Tables) (n : Node) : Bool := t.hasType n .int || t.hasType n .log

def isVariable (t : Tables) : Def → Bool
  | .var n _ _ => t.isScalar n
  | _ => false

def sameType (t : Tables) (n m : Node) : Bool := t.types[n.id]? = t.types[m.id]?

def suits (t : Tables) (n : Node) (type : Ty) : Bool := t.hasType n type || t.hasType n .void

def operates (t : Tables) (op : BinaryOp) (n l r : Node) : Bool :=
  match op.family with
  | .arithmetic => t.hasType n .int && t.suits l .int && t.suits r .int
  | .logical => t.hasType n .log && t.suits l .log && t.suits r .log
  | .comparison =>
    t.hasType n .log && (t.suits l .int && t.suits r .int || t.suits l .log && t.suits r .log)
  | .assignment => t.hasType n .void && t.isScalar l && (t.sameType l r || t.hasType r .void)
  | .index => false

def refers (t : Tables) (vars : List NodeId) (n : Node) : Bool :=
  match t.bindings[n.id]? with
  | some d => decide (d ∈ vars) && decide (t.types[n.id]? = t.types[d]?) && t.isScalar n
  | none => false

def prints (t : Tables) (f : String) : List Expr → Bool
  | [e] =>
    match Intrinsic.ofName? f with
    | some .printInt => t.suits e.node .int
    | some .printLog => t.suits e.node .log
    | _ => false
  | _ => false

end Tables

def UnaryOp.type : UnaryOp → Ty
  | .plus | .negate => .int
  | .not => .log

mutual

/-- The nodes have the types they ought to have, names refer to variables among `vars`, and nothing
is called but what prints. -/
def Expr.wellTyped (t : Tables) (vars : List NodeId) : Expr → Bool
  | .literal n (.integer _) => t.hasType n .int
  | .literal n (.logical _) => t.hasType n .log
  | .literal _ (.string _) => false
  | .name n _ => t.refers vars n
  | .unary n op e => e.wellTyped t vars && t.hasType n op.type && t.suits e.node op.type
  | .binary n op l r =>
    l.wellTyped t vars && r.wellTyped t vars && t.operates op n l.node r.node &&
      (op ≠ .assign || (t.cell? l).isSome)
  | .call n f args =>
    Expr.allWellTyped t vars args && (t.bindings[n.id]?).isNone && t.hasType n .void && t.prints f args
  | .block n body =>
    Expr.allWellTyped t vars body &&
      (match body.getLast? with
      | some e => t.sameType n e.node
      | none => t.hasType n .void)
  | .ifThen n c p =>
    c.wellTyped t vars && p.wellTyped t vars && t.hasType n .void && t.suits c.node .log
  | .ifElse n c p q =>
    c.wellTyped t vars && p.wellTyped t vars && q.wellTyped t vars && t.hasType n .void &&
      t.suits c.node .log
  | .whileLoop n c b =>
    c.wellTyped t vars && b.wellTyped t vars && t.hasType n .void && t.suits c.node .log
  | .forLoop n c low high step b =>
    c.wellTyped t vars && low.wellTyped t vars && high.wellTyped t vars && step.wellTyped t vars &&
      b.wellTyped t vars && t.hasType n .void && (t.cell? c).isSome && t.hasType c.node .int &&
      t.suits low.node .int && t.suits high.node .int && t.suits step.node .int
  | .whereDefs n e _ ds => ds.all t.isVariable && e.wellTyped t vars && t.sameType n e.node

def Expr.allWellTyped (t : Tables) (vars : List NodeId) : List Expr → Bool
  | [] => true
  | e :: es => e.wellTyped t vars && Expr.allWellTyped t vars es

end

def Tables.voids (t : Tables) (n : Node) : Nat := (t.hasType n .void).toNat

mutual

@[simp] def Expr.voidOperands (t : Tables) : Expr → Nat
  | .literal _ _ | .name _ _ => 0
  | .unary _ _ e => e.voidOperands t + t.voids e.node
  | .binary _ _ l r => l.voidOperands t + t.voids l.node + (r.voidOperands t + t.voids r.node)
  | .call _ _ args => Expr.voidArguments t args
  | .block _ body => Expr.voidOperandsAll t body
  | .ifThen _ c p => c.voidOperands t + p.voidOperands t
  | .ifElse _ c p q => c.voidOperands t + p.voidOperands t + q.voidOperands t
  | .whileLoop _ c b => c.voidOperands t + b.voidOperands t
  | .forLoop _ c low high step b =>
    c.voidOperands t + (low.voidOperands t + t.voids low.node) +
      (high.voidOperands t + t.voids high.node) + (step.voidOperands t + t.voids step.node) +
      b.voidOperands t
  | .whereDefs _ e _ _ => e.voidOperands t

@[simp] def Expr.voidArguments (t : Tables) : List Expr → Nat
  | [] => 0
  | e :: es => e.voidOperands t + t.voids e.node + Expr.voidArguments t es

@[simp] def Expr.voidOperandsAll (t : Tables) : List Expr → Nat
  | [] => 0
  | e :: es => e.voidOperands t + Expr.voidOperandsAll t es

end

def Program.evaluate (p : Program) (body : Expr) (console : Option Console) (rounds : Nat) :
    Ending World Word :=
  body.denote p.tables rounds ⟨fun _ => 0, console⟩

def Program.variables (p : Program) (body : Expr) : List NodeId :=
  Def.variablesAll false p.defs.definitions ++ body.variables false

/-- Global variables of the size of a word and one function `main` without parameters, which calls
nothing but what prints. -/
structure Program.Structured (p : Program) (main : Node) (result : TypeExpr) (body : Expr) :
    Prop where
  unique : p.ids.Nodup
  main_mem : .func main "main" [] result body ∈ p.defs.definitions
  globals : ∀ d ∈ p.defs.definitions,
    d = .func main "main" [] result body ∨ p.tables.isVariable d = true
  names : ∀ d ∈ p.defs.definitions, ∀ d' ∈ p.defs.definitions, p.tables.isVariable d = true →
    p.tables.isVariable d' = true → d.name = d'.name → d = d'
  registers : ∀ d ∈ p.defs.definitions, p.tables.isVariable d = true →
    Label.named d.name ≠ .framePointer ∧ Label.named d.name ≠ .stackPointer
  typed : body.wellTyped p.tables (p.variables body) = true
  -- Follows from `unique` if no operand is void. Temporaries are numbered with 32 bits.
  room : body.ids.length + body.voidOperands p.tables < 4294967296

end BlockLang.Source
