import Std.Data.TreeMap

namespace BlockLang

/-- A place in code or memory. A named and an anonymous label are never equal, whatever they print as. -/
inductive Label where
  | named (name : String)
  | anonymous (number : Nat)
deriving DecidableEq

namespace Label

def order : Label → Label → Ordering
  | named a, named b => compare a b
  | named _, anonymous _ => .lt
  | anonymous _, named _ => .gt
  | anonymous a, anonymous b => compare a b

instance : Ord Label := ⟨order⟩

theorem order_swap (a b : Label) : order a b = (order b a).swap := by
  cases a <;> cases b <;> simp only [order, Ordering.swap]
  · exact Std.OrientedOrd.eq_swap
  · exact Std.OrientedOrd.eq_swap

theorem order_isLE_trans : ∀ {a b c : Label}, (order a b).isLE → (order b c).isLE → (order a c).isLE
  | named _, named _, named _, hab, hbc => by
    simp only [order] at hab hbc ⊢
    exact Std.TransOrd.isLE_trans hab hbc
  | named _, _, anonymous _, _, _ => rfl
  | anonymous _, anonymous _, anonymous _, hab, hbc => by
    simp only [order] at hab hbc ⊢
    exact Std.TransOrd.isLE_trans hab hbc

theorem eq_of_order_eq {a b : Label} (h : order a b = .eq) : a = b := by
  cases a <;> cases b <;> simp only [order, reduceCtorEq] at h
  · exact congrArg named (Std.LawfulEqOrd.eq_of_compare h)
  · exact congrArg anonymous (Std.LawfulEqOrd.eq_of_compare h)

instance : Std.TransOrd Label where
  eq_swap := order_swap _ _
  isLE_trans := order_isLE_trans

instance : Std.LawfulEqOrd Label where
  eq_of_compare := eq_of_order_eq

def text : Label → String
  | named name => name
  | anonymous number => "L" ++ toString number

def framePointer : Label := .named "\x7bFP\x7d"

def stackPointer : Label := .named "\x7bSP\x7d"

end Label

/-- Hands out anonymous labels by number. They do not run out, while temporaries are numbered with 32
bits only. -/
structure LabelSupply where
  used : Nat := 0
deriving DecidableEq

namespace LabelSupply

def fresh (s : LabelSupply) : Label × LabelSupply := (.anonymous s.used, ⟨s.used + 1⟩)

def take (s : LabelSupply) : Nat → List Label
  | 0 => []
  | n + 1 => s.fresh.1 :: s.fresh.2.take n

theorem take_eq_map (s : LabelSupply) (n : Nat) :
    s.take n = (List.range n).map fun i => .anonymous (s.used + i) := by
  induction n generalizing s with
  | zero => rfl
  | succ n ih =>
    simp [take, fresh, ih, List.range_succ_eq_map, Nat.add_assoc, Nat.add_comm 1]

end LabelSupply

end BlockLang
