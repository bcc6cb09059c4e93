import BlockLang.Machine.Basic

/-! One step of the machine. The caller keeps its frame pointer in the frame of the function it
calls, and the result comes back in the place of the static link. -/

namespace BlockLang

open Code

inductive Destination where
  | temp (t : Temp)
  | memory (address : Int)
  | discard
deriving DecidableEq

structure Activation where
  routine : Routine
  pc : Nat := 0
  temps : Std.TreeMap Temp Word := ∅
  destination : Destination

inductive Step where
  | next (a : Activation)
  | call (routine : Routine) (args : List Word) (destination : Destination) (caller : Activation)
  | ret

namespace Activation

def label (a : Activation) : Label := a.routine.frame.label

def advance (a : Activation) : Activation := { a with pc := a.pc + 1 }

def eval (a : Activation) (m : Machine) : Exp → Except Fault Word
  | .const w => .ok w
  | .name label => m.nameValue label
  | .mem e => do m.memory.load (← a.eval m e).toInt
  | .temp t =>
    match a.temps[t]? with
    | some w => .ok w
    | none => .error (.uninitializedTemp t)
  | .binop op e f => do
    let x ← a.eval m e
    let y ← a.eval m f
    match op.apply x y with
    | some w => .ok w
    | none => .error .divisionByZero
  | .call _ _ | .eseq _ _ => .error (.notLinearized a.label)

def evalAll (a : Activation) (m : Machine) : List Exp → Except Fault (List Word)
  | [] => .ok []
  | e :: es => do
    let w ← a.eval m e
    return w :: (← a.evalAll m es)

def place (a : Activation) (m : Machine) : Exp → Except Fault Destination
  | .temp t => .ok (.temp t)
  | .mem e => do return .memory (← a.eval m e).toInt
  | _ => .error (.invalidDestination a.label)

def write (a : Activation) (w : Word) : Destination → Exec Activation
  | .temp t => pure { a with temps := a.temps.insert t w }
  | .memory address => do
    Machine.store address w
    return a
  | .discard => pure a

def goto (a : Activation) (label : Label) : Except Fault Activation :=
  match a.routine.targets[label]? with
  | some pc => .ok { a with pc }
  | none => .error (.unknownLabel label)

end Activation

/-- Carries out an intrinsic; the result is none if a random number has to be drawn again. -/
def Intrinsic.exec : Intrinsic → List Word → Exec (Option Word)
  | .printInt, [w] => do
    Machine.print (toString w.toInt)
    return some 0
  | .printStr, [w] => do
    let text ← Machine.read (·.memory.loadText w.toInt)
    Machine.print ("\"" ++ text ++ "\"")
    return some 0
  | .printLog, [w] => do
    Machine.print (if w ≠ 0 then "true" else "false")
    return some 0
  | .randInt, [min, max] => fun m =>
    if min < max then
      .ok (m.generator.pick min max) { m with generator := m.generator.next }
    else .error (.emptyRange min max) m
  | .seed, [w] => fun m => .ok (some 0) { m with generator := .ofSeed w.toUInt64 }
  | i, args => throw (.argumentCount i i.arity args.length)

namespace Activation

def call (a : Activation) (image : Image) (f : Label) (args : List Exp) (d : Destination) :
    Exec Step := do
  let values ← Machine.read (a.evalAll · args)
  match image.routines[f]?, Intrinsic.ofLabel? f with
  | some routine, _ => return .call routine values d a.advance
  | none, some i =>
    match ← i.exec values.tail with
    | some w => return .next (← a.advance.write w d)
    | none => return .next a
  | none, none => throw (.notAFunction f)

def step (a : Activation) (image : Image) : Exec Step :=
  match a.routine.code[a.pc]? with
  | none => pure .ret
  | some (.move dst src) => do
    let d ← Machine.read (a.place · dst)
    match src with
    | .call f args => a.call image f args d
    | _ => return .next (← a.advance.write (← Machine.read (a.eval · src)) d)
  | some (.exp (.call f args)) => a.call image f args .discard
  | some (.exp e) => do
    let _ ← Machine.read (a.eval · e)
    return .next a.advance
  | some (.jump l) => return .next (← Machine.read fun _ => a.goto l)
  | some (.cjump c l l') => do
    let w ← Machine.read (a.eval · c)
    if w = 1 then return .next (← Machine.read fun _ => a.goto l)
    else if w = 0 then return .next (← Machine.read fun _ => a.goto l')
    else throw (.invalidCondition w)
  | some (.label _) => pure (.next a.advance)
  | some (.seq _) => throw (.notLinearized a.label)

end Activation

namespace Routine

/-- Puts the arguments, the static link first, where the new frame begins, and moves the registers. -/
def enter (r : Routine) (args : List Word) (d : Destination) : Exec Activation := do
  Machine.storeAll (← get).sp args
  modify fun m => { m with fp := m.sp, sp := m.sp - r.frame.size }
  let m ← get
  if m.sp < m.memory.staticEnd then throw .stackOverflow
  return { routine := r, destination := d }

def leave (r : Routine) : Exec Word := do
  modify fun m => { m with sp := m.fp }
  let fp ← Machine.read fun m => m.memory.load (m.sp - r.frame.oldFp)
  modify fun m => { m with fp := fp.toInt }
  Machine.read fun m => m.memory.load m.sp

end Routine

end BlockLang
