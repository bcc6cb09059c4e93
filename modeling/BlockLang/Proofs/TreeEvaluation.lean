import BlockLang.Machine.Step
import BlockLang.Proofs.Action
import BlockLang.Proofs.Splitting

/-! Two ways to execute tree code without jumps: directly on the trees, from left to right, and
statement by statement after linearization. What a call does is left open. -/

namespace BlockLang

open Code

/-- What calls do. A call changes memory and what is printed; names keep what they stand for. -/
structure Calls where
  run : Label → List Word → Exec Word
  steady : ∀ {f : Label} {args : List Word} {m m' : Machine} {w : Word},
    run f args m = .ok w m' → ∀ l, m'.nameValue l = m.nameValue l

namespace Activation

def perform (calls : Calls) (a : Activation) : Stm → Exec Activation
  | .move dst (.call f args) => do
    let d ← Machine.read (a.place · dst)
    let values ← Machine.read (a.evalAll · args)
    a.write (← calls.run f values) d
  | .move dst src => do
    let d ← Machine.read (a.place · dst)
    a.write (← Machine.read (a.eval · src)) d
  | .exp (.call f args) => do
    let values ← Machine.read (a.evalAll · args)
    let _ ← calls.run f values
    return a
  | .exp e => do
    let _ ← Machine.read (a.eval · e)
    return a
  | _ => throw (.notLinearized a.label)

def performAll (calls : Calls) : Activation → List Stm → Exec Activation
  | a, [] => pure a
  | a, s :: ss => do (← a.perform calls s).advance.performAll calls ss

end Activation

abbrev TreeState := Activation × Machine

def Action.exec {α : Type} (x : Exec α) : Action TreeState α := fun s =>
  match x s.2 with
  | .ok a m => .done a (s.1, m)
  | .error e m => .fault e (s.1, m)

def Action.setTemp (t : Temp) (w : Word) : Action TreeState Unit := fun s =>
  .done () ({ s.1 with temps := s.1.temps.insert t w }, s.2)

namespace Code

mutual

/-- The value of an expression, its effects carried out from left to right. -/
def Exp.evaluate (calls : Calls) : Exp → Action TreeState Word
  | .const w => pure w
  | .name l => .exec (Machine.read (·.nameValue l))
  | .temp t => fun s => Action.exec (Machine.read (s.1.eval · (.temp t))) s
  | .mem a => do
    let address ← a.evaluate calls
    .exec (Machine.read (·.memory.load address.toInt))
  | .binop op a b => do
    let x ← a.evaluate calls
    let y ← b.evaluate calls
    .compute op x y
  | .call f args => do
    let values ← Exp.evaluateAll calls args
    .exec (calls.run f values)
  | .eseq s e => do
    s.evaluate calls
    e.evaluate calls

def Exp.evaluateAll (calls : Calls) : List Exp → Action TreeState (List Word)
  | [] => pure []
  | x :: xs => do
    let w ← x.evaluate calls
    return w :: (← Exp.evaluateAll calls xs)

def Exp.receive (calls : Calls) (source : Action TreeState Word) : Exp → Action TreeState Unit
  | .temp t => do .setTemp t (← source)
  | .mem a => do
    let address ← a.evaluate calls
    .exec (Machine.store address.toInt (← source))
  | .eseq s d => do
    s.evaluate calls
    d.receive calls source
  | .const _ | .name _ | .binop _ _ _ | .call _ _ => fun s =>
    .fault (.invalidDestination s.1.label) s

def Stm.evaluate (calls : Calls) : Stm → Action TreeState Unit
  | .move dst src => dst.receive calls (src.evaluate calls)
  | .exp e => do
    let _ ← e.evaluate calls
  | .seq ss => Stm.evaluateAll calls ss
  | .cjump _ _ _ | .jump _ | .label _ => fun s => .fault (.notLinearized s.1.label) s

def Stm.evaluateAll (calls : Calls) : List Stm → Action TreeState Unit
  | [] => pure ()
  | s :: ss => do
    s.evaluate calls
    Stm.evaluateAll calls ss

end

mutual

def Exp.isStraight : Exp → Bool
  | .const _ | .name _ | .temp _ => true
  | .mem a => a.isStraight
  | .binop _ a b => a.isStraight && b.isStraight
  | .call _ args => Exp.areStraight args
  | .eseq s e => s.isStraight && e.isStraight

def Exp.areStraight : List Exp → Bool
  | [] => true
  | x :: xs => x.isStraight && Exp.areStraight xs

def Exp.isPlace : Exp → Bool
  | .temp _ => true
  | .mem a => a.isStraight
  | .eseq s d => s.isStraight && d.isPlace
  | _ => false

def Stm.isStraight : Stm → Bool
  | .move dst src => dst.isPlace && src.isStraight
  | .exp e => e.isStraight
  | .seq ss => Stm.areStraight ss
  | .cjump _ _ _ | .jump _ | .label _ => false

def Stm.areStraight : List Stm → Bool
  | [] => true
  | s :: ss => s.isStraight && Stm.areStraight ss

end

mutual

def Exp.temps : Exp → List Temp
  | .const _ | .name _ => []
  | .temp t => [t]
  | .mem a => a.temps
  | .binop _ a b => a.temps ++ b.temps
  | .call _ args => Exp.tempsAll args
  | .eseq s e => s.temps ++ e.temps

def Exp.tempsAll : List Exp → List Temp
  | [] => []
  | x :: xs => x.temps ++ Exp.tempsAll xs

def Stm.temps : Stm → List Temp
  | .move dst src => dst.temps ++ src.temps
  | .exp e => e.temps
  | .seq ss => Stm.tempsAll ss
  | .cjump c _ _ => c.temps
  | .jump _ | .label _ => []

def Stm.tempsAll : List Stm → List Temp
  | [] => []
  | s :: ss => s.temps ++ Stm.tempsAll ss

end

mutual

def Exp.names : Exp → List Label
  | .const _ | .temp _ => []
  | .name l => [l]
  | .mem a => a.names
  | .binop _ a b => a.names ++ b.names
  | .call _ args => Exp.namesAll args
  | .eseq s e => s.names ++ e.names

def Exp.namesAll : List Exp → List Label
  | [] => []
  | x :: xs => x.names ++ Exp.namesAll xs

def Stm.names : Stm → List Label
  | .move dst src => dst.names ++ src.names
  | .exp e => e.names
  | .seq ss => Stm.namesAll ss
  | .cjump c _ _ => c.names
  | .jump _ | .label _ => []

def Stm.namesAll : List Stm → List Label
  | [] => []
  | s :: ss => s.names ++ Stm.namesAll ss

end

end Code

end BlockLang
