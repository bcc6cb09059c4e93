import BlockLang.Code.Basic

/-! Linear code. Every effect is pulled out of the expressions that hold it, and nested sequences
become one list. Operands are taken from right to left; one that stands left of an effect is kept in
a fresh temporary, unless it is the same everywhere. -/

namespace BlockLang.Code

structure Split (α : Type) where
  before : List Stm
  value : α
  next : Temp

namespace Split

def save (r : Split Exp) : Split Exp :=
  ⟨r.before ++ [.move (.temp r.next) r.value], .temp r.next, r.next.next⟩

def saveCall (r : Split Exp) : Split Exp :=
  match r.value with
  | .call _ _ => r.save
  | _ => r

theorem saveCall_of_isPure {r : Split Exp} (h : r.value.isPure = true) : r.saveCall = r := by
  unfold saveCall
  split
  · rename_i he
    simp [he, Exp.isPure] at h
  · rfl

def hold (r : Split Exp) (effects : Bool) : Split Exp :=
  if effects && !r.value.isConstant then r.save else r

def binop (op : Op) (l r : Split Exp) : Split Exp :=
  ⟨l.before ++ r.before, .binop op l.value r.value, l.next⟩

def call (f : Label) (args : Split (List Exp)) : Split Exp :=
  ⟨args.before, .call f args.value, args.next⟩

def cons (l : Split Exp) (r : Split (List Exp)) : Split (List Exp) :=
  ⟨l.before ++ r.before, l.value :: r.value, l.next⟩

end Split

structure Flat where
  code : List Stm
  next : Temp

namespace Flat

def append (a b : Flat) : Flat := ⟨a.code ++ b.code, b.next⟩

def ofSplit (r : Split Exp) (use : Exp → Stm) : Flat :=
  ⟨r.before ++ [use r.value], r.next⟩

def move (dst : Split Exp) (place : Exp → Exp) (src : Split Exp) : Flat :=
  ⟨dst.before ++ src.before ++ [.move (place dst.value) src.value], dst.next⟩

end Flat

def Exp.discard : Exp → List Stm
  | .const _ | .name _ | .temp _ => []
  | e => [.exp e]

mutual

/-- Splits an expression; a call at the root stays where it is. -/
def Exp.split : Exp → Temp → Split Exp
  | .const w, n => ⟨[], .const w, n⟩
  | .name l, n => ⟨[], .name l, n⟩
  | .temp t, n => ⟨[], .temp t, n⟩
  | .mem a, n =>
    let r := (a.split n).saveCall
    ⟨r.before, .mem r.value, r.next⟩
  | .binop op a b, n =>
    let r := (b.split n).saveCall
    .binop op ((a.split r.next).saveCall.hold !b.isPure) r
  | .call f args, n => .call f (Exp.splitAll args n)
  | .eseq s e, n =>
    let b := s.flat n
    let r := (e.split b.next).saveCall
    ⟨b.code ++ r.before, r.value, r.next⟩

def Exp.splitAll : List Exp → Temp → Split (List Exp)
  | [], n => ⟨[], [], n⟩
  | e :: es, n =>
    let r := Exp.splitAll es n
    .cons ((e.split r.next).saveCall.hold !es.all Exp.isPure) r

def Exp.assign (src : Temp → Split Exp) (effects : Bool) : Exp → Temp → Flat
  | .temp t, n => .ofSplit (src n) (.move (.temp t))
  | .mem a, n =>
    let r := (src n).saveCall
    .move ((a.split r.next).saveCall.hold effects) .mem r
  | .eseq s dst, n =>
    let b := s.flat n
    .append b (dst.assign src effects b.next)
  | .const w, n => .ofSplit (src n).saveCall (.move (.const w))
  | .name l, n => .ofSplit (src n).saveCall (.move (.name l))
  | .binop op a b, n =>
    let r := (src n).saveCall
    let q := (b.split r.next).saveCall
    .move ((Split.binop op ((a.split q.next).saveCall.hold !b.isPure) q).hold effects) id r
  | .call f args, n =>
    let r := (src n).saveCall
    .move ((Split.call f (Exp.splitAll args r.next)).save.hold effects) id r

def Stm.flat : Stm → Temp → Flat
  | .move dst src, n => dst.assign (fun m => src.split m) (!src.isPure) n
  | .exp e, n =>
    let r := e.split n
    ⟨r.before ++ r.value.discard, r.next⟩
  | .seq ss, n => Stm.flatAll ss n
  | .cjump c l m, n => .ofSplit (c.split n).saveCall (.cjump · l m)
  | .jump l, n => ⟨[.jump l], n⟩
  | .label l, n => ⟨[.label l], n⟩

def Stm.flatAll : List Stm → Temp → Flat
  | [], n => ⟨[], n⟩
  | s :: ss, n =>
    let b := s.flat n
    .append b (Stm.flatAll ss b.next)

end

theorem Exp.split_of_isPure : ∀ {e : Exp} (n : Temp), e.isPure = true → e.split n = ⟨[], e, n⟩
  | .const _, _, _ | .name _, _, _ | .temp _, _, _ => rfl
  | .mem a, n, h => by
    have ha : a.isPure = true := h
    rw [Exp.split, a.split_of_isPure n ha, Split.saveCall_of_isPure ha]
  | .binop op a b, n, h => by
    obtain ⟨ha, hb⟩ : a.isPure = true ∧ b.isPure = true := by simpa [Exp.isPure] using h
    have hr : (b.split n).saveCall = ⟨[], b, n⟩ := by
      rw [b.split_of_isPure n hb, Split.saveCall_of_isPure hb]
    have hl : (a.split n).saveCall = ⟨[], a, n⟩ := by
      rw [a.split_of_isPure n ha, Split.saveCall_of_isPure ha]
    simp [Exp.split, hr, hl, hb, Split.hold, Split.binop]

/-- One flat sequence with the same meaning, and the next temporary after it. -/
def Stm.linearize (s : Stm) (next : Temp) : Stm × Temp :=
  let r := s.flat next
  (.seq r.code, r.next)

end BlockLang.Code
