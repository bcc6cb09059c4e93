import BlockLang.Ident
import BlockLang.Label
import BlockLang.Word

namespace BlockLang.Code

mutual

inductive Exp where
  | const (value : Word)
  | name (label : Label)
  | mem (address : Exp)
  | temp (t : Temp)
  | binop (op : Op) (lhs rhs : Exp)
  -- The first argument is the static link.
  | call (label : Label) (args : List Exp)
  | eseq (effect : Stm) (value : Exp)

inductive Stm where
  | move (dst src : Exp)
  | exp (e : Exp)
  | seq (body : List Stm)
  | cjump (condition : Exp) (positive negative : Label)
  | jump (target : Label)
  | label (l : Label)

end

instance : Inhabited Exp := ⟨.const 0⟩

instance : Inhabited Stm := ⟨.seq []⟩

mutual

def Exp.beq : Exp → Exp → Bool
  | .const a, .const b => a == b
  | .name a, .name b => a == b
  | .mem a, .mem b => a.beq b
  | .temp a, .temp b => a == b
  | .binop o a b, .binop p c d => o == p && a.beq c && b.beq d
  | .call l as, .call m bs => l == m && Exp.beqs as bs
  | .eseq s a, .eseq t b => s.beq t && a.beq b
  | _, _ => false
termination_by structural e => e

def Exp.beqs : List Exp → List Exp → Bool
  | [], [] => true
  | a :: as, b :: bs => a.beq b && Exp.beqs as bs
  | _, _ => false
termination_by structural e => e

def Stm.beq : Stm → Stm → Bool
  | .move a b, .move c d => a.beq c && b.beq d
  | .exp a, .exp b => a.beq b
  | .seq ss, .seq ts => Stm.beqs ss ts
  | .cjump a l m, .cjump b l' m' => a.beq b && l == l' && m == m'
  | .jump l, .jump m => l == m
  | .label l, .label m => l == m
  | _, _ => false
termination_by structural e => e

def Stm.beqs : List Stm → List Stm → Bool
  | [], [] => true
  | s :: ss, t :: ts => s.beq t && Stm.beqs ss ts
  | _, _ => false
termination_by structural e => e

end

mutual

theorem Exp.beq_iff (a b : Exp) : a.beq b = true ↔ a = b := by
  cases a <;> cases b <;> simp [Exp.beq]
  case mem.mem a b => exact a.beq_iff b
  case binop.binop a b _ c d => simp [a.beq_iff c, b.beq_iff d, and_assoc]
  case call.call as _ bs => simp [Exp.beqs_iff as bs]
  case eseq.eseq s a t b => simp [s.beq_iff t, a.beq_iff b]

theorem Exp.beqs_iff (as bs : List Exp) : Exp.beqs as bs = true ↔ as = bs := by
  cases as <;> cases bs <;> simp [Exp.beqs]
  case cons.cons a as b bs => simp [a.beq_iff b, Exp.beqs_iff as bs]

theorem Stm.beq_iff (s t : Stm) : s.beq t = true ↔ s = t := by
  cases s <;> cases t <;> simp [Stm.beq]
  case move.move a b c d => simp [a.beq_iff c, b.beq_iff d]
  case exp.exp a b => exact a.beq_iff b
  case seq.seq ss ts => exact Stm.beqs_iff ss ts
  case cjump.cjump a _ _ b _ _ => simp [a.beq_iff b, and_assoc]

theorem Stm.beqs_iff (ss ts : List Stm) : Stm.beqs ss ts = true ↔ ss = ts := by
  cases ss <;> cases ts <;> simp [Stm.beqs]
  case cons.cons s ss t ts => simp [s.beq_iff t, Stm.beqs_iff ss ts]

end

instance : DecidableEq Exp := fun a b => decidable_of_iff _ (Exp.beq_iff a b)

instance : DecidableEq Stm := fun s t => decidable_of_iff _ (Stm.beq_iff s t)

namespace Exp

def offset (base : Exp) (n : Int) : Exp :=
  if n = 0 then base else .binop .add base (.const (.ofInt n))

def isConstant : Exp → Bool
  | const _ | name _ => true
  | _ => false

def isAssignable : Exp → Bool
  | mem _ | temp _ => true
  | _ => false

def isPure : Exp → Bool
  | const _ | name _ | temp _ => true
  | mem a => a.isPure
  | binop _ a b => a.isPure && b.isPure
  | call _ _ | eseq _ _ => false

def isCallOrPure : Exp → Bool
  | call _ args => args.all isPure
  | e => e.isPure

/-- The frame pointer of the function `n` static levels out: each static link is the word at its
frame pointer. -/
def staticLink : Nat → Exp
  | 0 => name .framePointer
  | n + 1 => mem (staticLink n)

end Exp

namespace Stm

def isLinear : Stm → Bool
  | move dst src => dst.isPure && src.isCallOrPure
  | exp e => e.isCallOrPure
  | cjump c _ _ => c.isPure
  | jump _ | label _ => true
  | seq _ => false

def statements : Stm → List Stm
  | seq body => body
  | s => [s]

end Stm

inductive Fragment where
  | value (e : Exp)
  | effect (s : Stm)
deriving DecidableEq

namespace Fragment

def void : Exp := .const 0

def toExp : Fragment → Exp
  | value e => e
  | effect s => .eseq s void

def toStm : Fragment → Stm
  | value e => .exp e
  | effect s => s

end Fragment

end BlockLang.Code
