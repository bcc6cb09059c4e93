import BlockLang.Intrinsic
import BlockLang.Layout
import BlockLang.Code.Linear
import BlockLang.Code.Program

/-! Lowering of syntax trees to tree code. Control flow becomes labels and jumps, variables become
address computations through static links, and string literals become data. -/

namespace BlockLang

open Source Code

namespace Lowering

inductive Cause where
  | notAssignable
  | indexOutOfBounds (index : Word) (size : UInt64)
  | notAnArray
  | missingFrame (name : String)
  | missingAccess (name : String)
  | missingDefinition (name : String)
  | missingType (node : NodeId)
  | deeperThanUse (name : String) (defined used : Nat)
  | missingEntry (name : String)
deriving DecidableEq

def Cause.message : Cause → String
  | notAssignable => "left-hand side of an assignment is not a storage location"
  | indexOutOfBounds index size =>
    "index " ++ toString index.toInt ++ " is out of bounds for an array of size " ++
      toString size.toNat
  | notAnArray => "indexed expression is not an array"
  | missingFrame name => "no frame was computed for function `" ++ name ++ "`"
  | missingAccess name => "no access was computed for `" ++ name ++ "`"
  | missingDefinition name => "`" ++ name ++ "` is not bound to any definition"
  | missingType node => "node " ++ node.describe ++ " has no resolved type"
  | deeperThanUse name defined used =>
    "`" ++ name ++ "` is defined on static level " ++ toString defined ++
      ", deeper than the use on level " ++ toString used
  | missingEntry name => "entry function `" ++ name ++ "` is not defined at the top level"

structure Error where
  cause : Cause
  span : Span
deriving DecidableEq

def Error.message (e : Error) : String := e.cause.message ++ " at " ++ e.span.text

structure State where
  labels : LabelSupply
  nextTemp : Temp := .ofNat 0
  chunks : Array Chunk := #[]

abbrev Lower := StateT State (Except Error)

structure Scope where
  tables : Tables
  frames : NodeTable Frame
  accesses : NodeTable Access

def fail {α : Type} (span : Span) (cause : Cause) : Lower α := throw ⟨cause, span⟩

def require {α : Type} (span : Span) (cause : Cause) : Option α → Lower α
  | some a => pure a
  | none => fail span cause

def freshLabel : Lower Label :=
  modifyGet fun s => (s.labels.fresh.1, { s with labels := s.labels.fresh.2 })

def freshTemp : Lower Temp :=
  modifyGet fun s => (s.nextTemp, { s with nextTemp := s.nextTemp.next })

def emit (c : Chunk) : Lower Unit :=
  modify fun s => { s with chunks := s.chunks.push c }

def linearize (s : Stm) : Lower Stm :=
  modifyGet fun st =>
    let r := s.linearize st.nextTemp
    (r.1, { st with nextTemp := r.2 })

def typeOf (scope : Scope) (n : Node) : Lower Ty :=
  require n.span (.missingType n.id) scope.tables.types[n.id]?

def literal : Literal → Lower Exp
  | .integer value => pure (.const value)
  | .logical value => pure (.const (.ofBool value))
  | .string value => do
    let label ← freshLabel
    emit (.data (.global (value.utf8ByteSize + 1) label) value)
    return .name label

def enclosing (level target : Nat) (name : String) (span : Span) : Lower Exp :=
  if target ≤ level then pure (.staticLink (level - target))
  else fail span (.deeperThanUse name target level)

def address (level : Nat) (name : String) (span : Span) : Access → Lower Exp
  | .global _ label => pure (.name label)
  | .stack _ offset target | .param _ offset target => do
    return (← enclosing level target name span).offset offset

/-- An array stands for the address of its first element. A variable holds the array itself, a
parameter the address of the caller's array. -/
def variableValue (type : Ty) (address : Exp) : Access → Exp
  | .param _ _ _ => .mem address
  | .global _ _ | .stack _ _ _ => if type.isArray then address else .mem address

def variableName (scope : Scope) (level : Nat) (n : Node) (name : String) : Lower Exp := do
  let target ← require n.span (.missingDefinition name) scope.tables.bindings[n.id]?
  let access ← require n.span (.missingAccess name) scope.accesses[target]?
  let address ← address level name n.span access
  let type ← typeOf scope n
  return variableValue type address access

def unary : UnaryOp → Exp → Exp
  | .plus, e => e
  | .negate, e => .binop .sub (.const 0) e
  | .not, e => .binop .sub (.const 1) e

def badIndex (size : UInt64) : Expr → Option Word
  | .literal _ (.integer i) => if i < 0 ∨ size ≤ i.toUInt64 then some i else none
  | _ => none

def element (base index : Exp) (type : Ty) : Exp :=
  let address := .binop .add base (.binop .mul index (.const (.ofInt type.size)))
  if type.isArray then address else .mem address

def isStorage : Expr → Bool
  | .name _ _ => true
  | .binary _ op _ _ => op = .index
  | _ => false

def wordOffsets (size : Int) : List Int :=
  (List.range ((size + 7) / 8).toNat).map fun (i : Nat) => 8 * (i : Int)

def copyWords (dst src : Temp) (size : Int) : List Stm :=
  (wordOffsets size).map fun i =>
    .move (.mem (Exp.offset (.temp dst) i)) (.mem (Exp.offset (.temp src) i))

structure Callee where
  label : Label
  link : Exp
  -- Where the callee keeps the frame pointer of its caller, if it is not an intrinsic.
  oldFp : Option Int

/-- A function on level one has no static link; any other one is inside the function one level
further out. -/
def callee (scope : Scope) (level : Nat) (n : Node) (name : String) : Lower Callee :=
  match scope.tables.bindings[n.id]? with
  | some target => do
    let frame ← require n.span (.missingFrame name) scope.frames[target]?
    let link ← if frame.level = 1 then pure (.const 0)
      else enclosing level (frame.level - 1) name n.span
    return ⟨frame.label, link, some frame.oldFp⟩
  | none => do
    let intrinsic ← require n.span (.missingDefinition name) (Intrinsic.ofName? name)
    return ⟨intrinsic.label, .const 0, none⟩

def saveFp (oldFp : Int) : Stm :=
  .move (.mem (.binop .sub (.name .stackPointer) (.const (.ofInt oldFp)))) (.name .framePointer)

def Callee.call (c : Callee) (args : List (Temp × Exp)) : Exp :=
  .eseq
    (.seq (args.map (fun a => .move (.temp a.1) a.2) ++ c.oldFp.toList.map saveFp))
    (.call c.label (c.link :: args.map fun a => .temp a.1))

def block (init : List Stm) : Option Fragment → Fragment
  | none => .value Fragment.void
  | some (.value e) => .value (.eseq (.seq init) e)
  | some (.effect s) => .effect (.seq (init ++ [s]))

def ifThen (positive stop : Label) (condition : Exp) (body : Stm) : Stm :=
  .seq [.cjump condition positive stop, .label positive, body, .label stop]

def ifElse (positive negative stop : Label) (condition : Exp) (body other : Stm) : Stm :=
  .seq [.cjump condition positive negative, .label positive, body, .jump stop, .label negative,
    other, .label stop]

def whileLoop (start inside stop : Label) (condition : Exp) (body : Stm) : Stm :=
  .seq [.label start, .cjump condition inside stop, .label inside, body, .jump start, .label stop]

def forLoop (test inside stop : Label) (counter low high step : Exp) (body : Stm) : Stm :=
  .seq [.move counter low, .label test, .cjump (.binop .lt counter high) inside stop,
    .label inside, body, .move counter (.binop .add counter step), .jump test, .label stop]

def returning (value : Exp) : Stm := .move (.mem (.name .framePointer)) value

def valueOf (code : Lower Fragment) : Lower Exp := return (← code).toExp

def effectOf (code : Lower Fragment) : Lower Stm := return (← code).toStm

variable (scope : Scope)

mutual

def expr (level : Nat) : Expr → Lower Fragment
  | .literal _ v => return .value (← literal v)
  | .name n name => return .value (← variableName scope level n name)
  | .unary _ op e => return .value (unary op (← valueOf (expr level e)))
  | .binary _ (.compute op) l r => do
    let x ← valueOf (expr level l)
    let y ← valueOf (expr level r)
    return .value (.binop op x y)
  | .binary _ .index array index => do
    match ← typeOf scope array.node with
    | .array size type =>
      if let some i := badIndex size index then
        fail index.node.span (.indexOutOfBounds i size)
      let base ← valueOf (expr level array)
      let i ← valueOf (expr level index)
      return .value (element base i type)
    | _ => fail array.node.span .notAnArray
  | .binary n .assign l r => do
    let type ← typeOf scope l.node
    if type.isArray then
      if !isStorage l then fail n.span .notAssignable
      let dst ← freshTemp
      let src ← freshTemp
      let x ← valueOf (expr level l)
      let y ← valueOf (expr level r)
      return .effect (.seq
        (.move (.temp dst) x :: .move (.temp src) y :: copyWords dst src type.size))
    else
      let x ← valueOf (expr level l)
      if !x.isAssignable then fail n.span .notAssignable
      let y ← valueOf (expr level r)
      return .effect (.move x y)
  | .call n name args => do
    let callee ← callee scope level n name
    return .value (callee.call (← arguments level args))
  | .block _ es => do
    let (init, last) ← body level es
    return block init last
  | .ifThen _ c p => do
    let condition ← valueOf (expr level c)
    let positive ← freshLabel
    let stop ← freshLabel
    return .effect (ifThen positive stop condition (← effectOf (expr level p)))
  | .ifElse _ c p n => do
    let condition ← valueOf (expr level c)
    let positive ← freshLabel
    let negative ← freshLabel
    let stop ← freshLabel
    let first ← effectOf (expr level p)
    let second ← effectOf (expr level n)
    return .effect (ifElse positive negative stop condition first second)
  | .whileLoop _ c b => do
    let start ← freshLabel
    let inside ← freshLabel
    let stop ← freshLabel
    let condition ← valueOf (expr level c)
    return .effect (whileLoop start inside stop condition (← effectOf (expr level b)))
  | .forLoop _ c l h s b => do
    let test ← freshLabel
    let inside ← freshLabel
    let stop ← freshLabel
    let counter ← valueOf (expr level c)
    if !counter.isAssignable then fail c.node.span .notAssignable
    let low ← valueOf (expr level l)
    let high ← valueOf (expr level h)
    let step ← valueOf (expr level s)
    return .effect
      (forLoop test inside stop counter low high step (← effectOf (expr level b)))
  | .whereDefs _ e _ ds => do
    defs ds
    expr level e

def arguments (level : Nat) : List Expr → Lower (List (Temp × Exp))
  | [] => pure []
  | e :: es => do
    let x ← valueOf (expr level e)
    let t ← freshTemp
    return (t, x) :: (← arguments level es)

def body (level : Nat) : List Expr → Lower (List Stm × Option Fragment)
  | [] => pure ([], none)
  | [e] => return ([], some (← expr level e))
  | e :: e' :: es => do
    let s ← effectOf (expr level e)
    let (init, last) ← body level (e' :: es)
    return (s :: init, last)

/-- Lowers a definition. The code of a function comes after that of the functions inside it; local
variables live in their frames and need none. -/
def defn : Def → Lower Unit
  | .var n name _ => do
    match ← require n.span (.missingAccess name) scope.accesses[n.id]? with
    | .global size label => emit (.global (.global size label))
    | .stack _ _ _ | .param _ _ _ => pure ()
  | .func n name _ _ b => do
    let frame ← require n.span (.missingFrame name) scope.frames[n.id]?
    let result ← valueOf (expr frame.level b)
    emit (.code frame (← linearize (returning result)))
  | .type _ _ _ => pure ()

def defs : List Def → Lower Unit
  | [] => pure ()
  | d :: ds => do
    defn d
    defs ds

end

def entryDef? (definitions : List Def) (entry : String) : Option Def :=
  definitions.find? fun
    | .func _ name _ _ _ => name = entry
    | _ => false

end Lowering

def Source.Program.lower (p : Source.Program) (layout : Layout) (entry : String) :
    Except Lowering.Error Code.Program := do
  let some d := Lowering.entryDef? p.defs.definitions entry
    | throw ⟨.missingEntry entry, p.defs.node.span⟩
  let some frame := layout.frames[d.node.id]?
    | throw ⟨.missingFrame entry, d.node.span⟩
  let scope : Lowering.Scope := ⟨p.tables, layout.frames, layout.accesses⟩
  let (_, state) ← (Lowering.defs scope p.defs.definitions).run { labels := layout.labels }
  return ⟨state.chunks.toList, frame.label⟩

end BlockLang
