import Std.Data.TreeMap

namespace BlockLang

inductive Role where
  | node
  | temp
deriving DecidableEq

/-- A 32-bit number; counting past the last one starts again at zero. -/
structure Ident (role : Role) where
  val : UInt32
deriving DecidableEq

abbrev NodeId := Ident .node

abbrev Temp := Ident .temp

namespace Ident

variable {role : Role}

def ofNat (n : Nat) : Ident role := ⟨n.toUInt32⟩

def toNat (i : Ident role) : Nat := i.val.toNat

def advance (i : Ident role) (n : Nat) : Ident role := ofNat (i.toNat + n)

def next (i : Ident role) : Ident role := i.advance 1

instance : Ord (Ident role) := ⟨fun a b => compare a.val b.val⟩

instance : Std.TransOrd (Ident role) :=
  inferInstanceAs (Std.TransCmp (compareOn Ident.val))

instance : Std.LawfulEqOrd (Ident role) where
  eq_of_compare {a b} h := by
    cases a
    cases b
    exact congrArg Ident.mk (Std.LawfulEqOrd.eq_of_compare h)

def describe (i : Ident role) : String :=
  (match role with
    | .node => "NodeId("
    | .temp => "TempId(") ++ toString i.toNat ++ ")"

theorem toNat_ofNat (n : Nat) : (ofNat n : Ident role).toNat = n % UInt32.size := by
  simp [ofNat, toNat]

theorem toNat_next (i : Ident role) : i.next.toNat = (i.toNat + 1) % UInt32.size :=
  toNat_ofNat _

end Ident

abbrev NodeTable (α : Type) := Std.TreeMap NodeId α

structure OutOfRange where
  size : Nat
  index : Nat
deriving DecidableEq

def OutOfRange.message (e : OutOfRange) : String :=
  "index out of bounds: the len is " ++ toString e.size ++ " but the index is " ++ toString e.index

structure Pool (role : Role) (α : Type) where
  entries : Array α := #[]

namespace Pool

variable {role : Role} {α : Type}

def size (p : Pool role α) : Nat := p.entries.size

def push (p : Pool role α) (a : α) : Pool role α × Ident role :=
  (⟨p.entries.push a⟩, .ofNat p.size)

def get (p : Pool role α) (i : Ident role) : Except OutOfRange α :=
  match p.entries[i.toNat]? with
  | some a => .ok a
  | none => .error ⟨p.size, i.toNat⟩

theorem get_push {p : Pool role α} (h : p.size < UInt32.size) (a : α) :
    (p.push a).1.get (p.push a).2 = .ok a := by
  have hs : p.entries.size % UInt32.size = p.entries.size := Nat.mod_eq_of_lt h
  simp [push, get, Ident.toNat_ofNat, size, hs]

end Pool

end BlockLang
