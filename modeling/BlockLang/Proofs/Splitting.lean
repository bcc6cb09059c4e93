import BlockLang.Code.Linear
import Mathlib.Tactic.Common

namespace BlockLang

namespace Ident

variable {role : Role}

@[simp] lemma advance_zero (i : Ident role) : i.advance 0 = i := by
  simp [advance, ofNat, toNat]

lemma toNat_lt (i : Ident role) : i.toNat < UInt32.size := i.val.toNat_lt

lemma toNat_advance (i : Ident role) (k : Nat) :
    (i.advance k).toNat = (i.toNat + k) % UInt32.size :=
  toNat_ofNat _

lemma toNat_advance_of_lt {i : Ident role} {k : Nat} (h : i.toNat + k < UInt32.size) :
    (i.advance k).toNat = i.toNat + k := by
  rw [toNat_advance, Nat.mod_eq_of_lt h]

lemma toNat_inj {i j : Ident role} : i.toNat = j.toNat ↔ i = j := by
  constructor
  · intro h
    cases i
    cases j
    exact congrArg Ident.mk (UInt32.toNat_inj.mp h)
  · intro h
    rw [h]

@[simp] lemma advance_advance (i : Ident role) (j k : Nat) :
    (i.advance j).advance k = i.advance (j + k) := by
  apply toNat_inj.mp
  simp only [toNat_advance, Nat.mod_add_mod, Nat.add_assoc]

lemma next_eq_advance (i : Ident role) : i.next = i.advance 1 := rfl

end Ident

namespace Code

def Exp.operand (x : Exp) (n : Temp) : Split Exp := (x.split n).saveCall

def Exp.isCall : Exp → Bool
  | .call _ _ => true
  | _ => false

namespace Split

lemma saveCall_of_not_isCall {r : Split Exp} (h : r.value.isCall = false) : r.saveCall = r := by
  unfold saveCall
  split
  · rename_i he
    simp [he, Exp.isCall] at h
  · rfl

lemma saveCall_of_isCall {r : Split Exp} (h : r.value.isCall = true) : r.saveCall = r.save := by
  unfold saveCall
  split
  · rfl
  · rename_i hn
    cases hv : r.value <;> simp_all [Exp.isCall]

lemma hold_of_isConstant {r : Split Exp} (effects : Bool) (h : r.value.isConstant = true) :
    r.hold effects = r := by
  simp [hold, h]

@[simp] lemma hold_false (r : Split Exp) : r.hold false = r := by
  simp [hold]

lemma hold_true {r : Split Exp} (h : r.value.isConstant = false) : r.hold true = r.save := by
  simp [hold, h]

@[elab_as_elim] lemma hold_cases {motive : Split Exp → Prop} (r : Split Exp) (effects : Bool)
    (save : motive r.save) (keep : motive r) : motive (r.hold effects) := by
  unfold hold
  split
  · exact save
  · exact keep

@[elab_as_elim] lemma saveCall_cases {motive : Split Exp → Prop} (r : Split Exp)
    (save : motive r.save) (keep : motive r) : motive r.saveCall := by
  unfold saveCall
  split
  · exact save
  · exact keep

end Split

namespace Exp

lemma not_isCall_of_isPure {x : Exp} (h : x.isPure = true) : x.isCall = false := by
  cases x <;> simp_all [isPure, isCall]

lemma isPure_of_isConstant {x : Exp} (h : x.isConstant = true) : x.isPure = true := by
  cases x <;> simp_all [isPure, isConstant]

lemma operand_of_isPure {x : Exp} (n : Temp) (h : x.isPure = true) : x.operand n = ⟨[], x, n⟩ := by
  rw [operand, split_of_isPure n h, Split.saveCall_of_isPure h]

end Exp

lemma Split.hold_value_isPure {r : Split Exp} (effects : Bool) (h : r.value.isPure = true) :
    (r.hold effects).value.isPure = true :=
  r.hold_cases effects rfl h

lemma Split.saveCall_value_isPure {r : Split Exp}
    (h : r.value.isPure = true ∨ r.value.isCall = true) : r.saveCall.value.isPure = true := by
  rcases h with h | h
  · rw [Split.saveCall_of_isPure h]
    exact h
  · rw [Split.saveCall_of_isCall h]
    rfl

lemma Exp.split_value_isPure_or_isCall (x : Exp) (n : Temp) :
    (x.split n).value.isPure = true ∨ (x.split n).value.isCall = true := by
  cases x with
  | const w => exact .inl rfl
  | name l => exact .inl rfl
  | temp t => exact .inl rfl
  | mem a =>
    left
    exact Split.saveCall_value_isPure (a.split_value_isPure_or_isCall n)
  | binop op a b =>
    left
    have hb := Split.saveCall_value_isPure (b.split_value_isPure_or_isCall n)
    have ha := Split.saveCall_value_isPure
      (a.split_value_isPure_or_isCall (b.split n).saveCall.next)
    simp [Exp.split, Split.binop, Exp.isPure, hb, Split.hold_value_isPure _ ha]
  | call f args => exact .inr rfl
  | eseq s e =>
    left
    exact Split.saveCall_value_isPure (e.split_value_isPure_or_isCall (s.flat n).next)

namespace Exp

@[simp] lemma operand_value_isPure (x : Exp) (n : Temp) : (x.operand n).value.isPure = true :=
  Split.saveCall_value_isPure (x.split_value_isPure_or_isCall n)

@[simp] lemma operand_const (w : Word) (n : Temp) : (const w).operand n = ⟨[], .const w, n⟩ := rfl

@[simp] lemma operand_name (l : Label) (n : Temp) : (name l).operand n = ⟨[], .name l, n⟩ := rfl

@[simp] lemma operand_temp (t n : Temp) : (temp t).operand n = ⟨[], .temp t, n⟩ := rfl

@[simp] lemma splitAll_nil (n : Temp) : splitAll [] n = ⟨[], [], n⟩ := rfl

lemma splitAll_cons (x : Exp) (xs : List Exp) (n : Temp) :
    splitAll (x :: xs) n =
      .cons ((x.operand (splitAll xs n).next).hold !xs.all isPure) (splitAll xs n) := rfl

lemma splitAll_singleton (x : Exp) (n : Temp) :
    splitAll [x] n = ⟨(x.operand n).before, [(x.operand n).value], (x.operand n).next⟩ := by
  simp [splitAll_cons, Split.cons]

lemma splitAll_of_isPure {xs : List Exp} (n : Temp) (h : xs.all isPure = true) :
    splitAll xs n = ⟨[], xs, n⟩ := by
  induction xs with
  | nil => rfl
  | cons x xs ih =>
    obtain ⟨hx, hxs⟩ : x.isPure = true ∧ xs.all isPure = true := by simpa using h
    rw [splitAll_cons, ih hxs, hxs, operand_of_isPure n hx]
    simp [Split.cons]

lemma splitAll_value_isPure (xs : List Exp) (n : Temp) :
    (splitAll xs n).value.all isPure = true := by
  induction xs with
  | nil => rfl
  | cons x xs ih =>
    rw [splitAll_cons]
    simp only [Split.cons, List.all_cons, Bool.and_eq_true]
    exact ⟨Split.hold_value_isPure _ (operand_value_isPure _ _), ih⟩

lemma operand_mem (a : Exp) (n : Temp) :
    (mem a).operand n =
      ⟨(a.operand n).before, .mem (a.operand n).value, (a.operand n).next⟩ := rfl

lemma splitAll_pair (a b : Exp) (n : Temp) :
    splitAll [a, b] n =
      ⟨((a.operand (b.operand n).next).hold !b.isPure).before ++ (b.operand n).before,
        [((a.operand (b.operand n).next).hold !b.isPure).value, (b.operand n).value],
        ((a.operand (b.operand n).next).hold !b.isPure).next⟩ := by
  rw [splitAll_cons, splitAll_singleton]
  simp [Split.cons]

lemma operand_binop (op : Op) (a b : Exp) (n : Temp) :
    (binop op a b).operand n =
      ⟨((a.operand (b.operand n).next).hold !b.isPure).before ++ (b.operand n).before,
        .binop op ((a.operand (b.operand n).next).hold !b.isPure).value (b.operand n).value,
        ((a.operand (b.operand n).next).hold !b.isPure).next⟩ := rfl

lemma operand_call (f : Label) (args : List Exp) (n : Temp) :
    (call f args).operand n =
      ⟨(splitAll args n).before ++
          [.move (.temp (splitAll args n).next) (.call f (splitAll args n).value)],
        .temp (splitAll args n).next, (splitAll args n).next.next⟩ := rfl

lemma operand_eseq (s : Stm) (e : Exp) (n : Temp) :
    (eseq s e).operand n =
      ⟨(s.flat n).code ++ (e.operand (s.flat n).next).before,
        (e.operand (s.flat n).next).value, (e.operand (s.flat n).next).next⟩ := by
  rw [operand]
  exact Split.saveCall_of_not_isCall (not_isCall_of_isPure (e.operand_value_isPure _))

lemma split_eq_operand {x : Exp} (n : Temp) (h : x.isCall = false) : x.split n = x.operand n := by
  cases x with
  | call f args => cases h
  | eseq s e => rw [operand_eseq]; rfl
  | _ => rfl

lemma operand_of_isCall {x : Exp} (n : Temp) (h : x.isCall = true) :
    x.operand n = (x.split n).save := by
  cases x with
  | call f args => rfl
  | _ => cases h

end Exp

namespace Stm

lemma flat_seq_nil (n : Temp) : (seq []).flat n = ⟨[], n⟩ := rfl

lemma flat_seq_cons (s : Stm) (ss : List Stm) (n : Temp) :
    (seq (s :: ss)).flat n =
      ⟨(s.flat n).code ++ ((seq ss).flat (s.flat n).next).code, ((seq ss).flat (s.flat n).next).next⟩ :=
  rfl

lemma flat_seq_append (ss : List Stm) (s : Stm) (n : Temp) :
    (seq (ss ++ [s])).flat n =
      ⟨((seq ss).flat n).code ++ (s.flat ((seq ss).flat n).next).code,
        (s.flat ((seq ss).flat n).next).next⟩ := by
  induction ss generalizing n with
  | nil => simp [flat_seq_cons, flat_seq_nil]
  | cons s' ss ih => simp [flat_seq_cons, ih]

lemma flat_move_temp_call (t : Temp) (f : Label) (args : List Exp) (n : Temp) :
    (move (.temp t) (.call f args)).flat n =
      ⟨(Exp.splitAll args n).before ++
          [.move (.temp t) (.call f (Exp.splitAll args n).value)], (Exp.splitAll args n).next⟩ := rfl

lemma flat_move_temp {x : Exp} (t n : Temp) (h : x.isCall = false) :
    (move (.temp t) x).flat n =
      ⟨(x.operand n).before ++ [.move (.temp t) (x.operand n).value], (x.operand n).next⟩ := by
  rw [← Exp.split_eq_operand n h]
  rfl

lemma flat_move_mem (a x : Exp) (n : Temp) :
    (move (.mem a) x).flat n =
      ⟨((a.operand (x.operand n).next).hold !x.isPure).before ++ (x.operand n).before ++
          [.move (.mem ((a.operand (x.operand n).next).hold !x.isPure).value) (x.operand n).value],
        ((a.operand (x.operand n).next).hold !x.isPure).next⟩ := rfl

lemma flat_move_eseq (s : Stm) (d x : Exp) (n : Temp) :
    (move (.eseq s d) x).flat n =
      ⟨(s.flat n).code ++ ((move d x).flat (s.flat n).next).code,
        ((move d x).flat (s.flat n).next).next⟩ := rfl

lemma flat_exp_call (f : Label) (args : List Exp) (n : Temp) :
    (exp (.call f args)).flat n =
      ⟨(Exp.splitAll args n).before ++ [.exp (.call f (Exp.splitAll args n).value)],
        (Exp.splitAll args n).next⟩ := rfl

lemma flat_exp {x : Exp} (n : Temp) (h : x.isCall = false) :
    (exp x).flat n =
      ⟨(x.operand n).before ++ (x.operand n).value.discard, (x.operand n).next⟩ := by
  rw [← Exp.split_eq_operand n h]
  rfl

lemma flat_label (l : Label) (n : Temp) : (label l).flat n = ⟨[.label l], n⟩ := rfl

lemma flat_jump (l : Label) (n : Temp) : (jump l).flat n = ⟨[.jump l], n⟩ := rfl

lemma flat_cjump (c : Exp) (l l' : Label) (n : Temp) :
    (cjump c l l').flat n =
      ⟨(c.operand n).before ++ [.cjump (c.operand n).value l l'], (c.operand n).next⟩ := rfl

end Stm

def Exp.isFixed : Exp → Bool
  | .const _ | .name _ => true
  | .eseq _ e => e.isFixed
  | _ => false

lemma Exp.operand_value_isConstant (x : Exp) (n : Temp) :
    (x.operand n).value.isConstant = x.isFixed := by
  cases x with
  | eseq s e =>
    rw [operand_eseq]
    exact e.operand_value_isConstant (s.flat n).next
  | _ => rfl

mutual

def Exp.rootSaves : Exp → Nat
  | .const _ | .name _ | .temp _ => 0
  | .mem a => a.rootSaves + a.isCall.toNat
  | .binop _ a b =>
    b.rootSaves + b.isCall.toNat +
      (a.rootSaves + a.isCall.toNat + (!b.isPure && !a.isFixed).toNat)
  | .call _ args => Exp.savesAll args
  | .eseq s e => s.saves + (e.rootSaves + e.isCall.toNat)

def Exp.savesAll : List Exp → Nat
  | [] => 0
  | x :: xs =>
    Exp.savesAll xs +
      (x.rootSaves + x.isCall.toNat + (!xs.all Exp.isPure && !x.isFixed).toNat)

def Exp.savesInto (root operand : Nat) (effects : Bool) : Exp → Nat
  | .temp _ => root
  | .const _ | .name _ => operand
  | .mem a => operand + (a.rootSaves + a.isCall.toNat + (effects && !a.isFixed).toNat)
  | .eseq s d => s.saves + d.savesInto root operand effects
  | .binop _ a b =>
    operand + (b.rootSaves + b.isCall.toNat) +
      (a.rootSaves + a.isCall.toNat + (!b.isPure && !a.isFixed).toNat) + effects.toNat
  | .call _ args => operand + Exp.savesAll args + 1 + effects.toNat

def Stm.saves : Stm → Nat
  | .move dst src =>
    dst.savesInto src.rootSaves (src.rootSaves + src.isCall.toNat) !src.isPure
  | .exp e => e.rootSaves
  | .seq ss => Stm.savesAll ss
  | .cjump c _ _ => c.rootSaves + c.isCall.toNat
  | .jump _ | .label _ => 0

def Stm.savesAll : List Stm → Nat
  | [] => 0
  | s :: ss => s.saves + Stm.savesAll ss

end

lemma Exp.rootSaves_of_isPure : ∀ {x : Exp}, x.isPure = true → x.rootSaves = 0
  | .const _, _ | .name _, _ | .temp _, _ => rfl
  | .mem a, h => by
    have ha : a.isPure = true := h
    simp [Exp.rootSaves, a.rootSaves_of_isPure ha, Exp.not_isCall_of_isPure ha]
  | .binop op a b, h => by
    obtain ⟨ha, hb⟩ : a.isPure = true ∧ b.isPure = true := by simpa [Exp.isPure] using h
    simp [Exp.rootSaves, a.rootSaves_of_isPure ha, b.rootSaves_of_isPure hb,
      Exp.not_isCall_of_isPure ha, Exp.not_isCall_of_isPure hb, hb]

lemma Exp.savesAll_of_isPure {xs : List Exp} (h : xs.all Exp.isPure = true) :
    Exp.savesAll xs = 0 := by
  induction xs with
  | nil => rfl
  | cons x xs ih =>
    obtain ⟨hx, hxs⟩ : x.isPure = true ∧ xs.all Exp.isPure = true := by simpa using h
    simp only [Exp.savesAll, ih hxs, Exp.rootSaves_of_isPure hx, Exp.not_isCall_of_isPure hx, hxs]
    rfl

def Exp.saves (x : Exp) : Nat := x.rootSaves + x.isCall.toNat

lemma Exp.saves_of_isPure {x : Exp} (h : x.isPure = true) : x.saves = 0 := by
  simp [Exp.saves, Exp.rootSaves_of_isPure h, Exp.not_isCall_of_isPure h]

lemma Exp.saves_mem (a : Exp) : (Exp.mem a).saves = a.saves := rfl

lemma Exp.saves_binop (op : Op) (a b : Exp) :
    (Exp.binop op a b).saves = b.saves + (a.saves + (!b.isPure && !a.isFixed).toNat) := rfl

lemma Exp.saves_call (f : Label) (xs : List Exp) : (Exp.call f xs).saves = Exp.savesAll xs + 1 := rfl

lemma Exp.saves_eseq (s : Stm) (x : Exp) : (Exp.eseq s x).saves = s.saves + x.saves := rfl

lemma Stm.saves_move_temp (t : Temp) {x : Exp} (h : x.isCall = false) :
    (Stm.move (.temp t) x).saves = x.saves := by
  rw [Exp.saves, h]
  rfl

lemma Stm.saves_move_mem (d x : Exp) :
    (Stm.move (.mem d) x).saves = x.saves + (d.saves + (!x.isPure && !d.isFixed).toNat) := rfl

lemma Stm.saves_exp {x : Exp} (h : x.isCall = false) : (Stm.exp x).saves = x.saves := by
  rw [Exp.saves, h]
  rfl

lemma Stm.saves_cjump (c : Exp) (l l' : Label) : (Stm.cjump c l l').saves = c.saves := rfl

lemma Stm.saves_seq_cons (s : Stm) (ss : List Stm) :
    (Stm.seq (s :: ss)).saves = s.saves + (Stm.seq ss).saves := rfl

@[simp] lemma Stm.saves_seq_nil : (Stm.seq []).saves = 0 := rfl

@[simp] lemma Stm.saves_label (l : Label) : (Stm.label l).saves = 0 := rfl

@[simp] lemma Stm.saves_jump (l : Label) : (Stm.jump l).saves = 0 := rfl

lemma Stm.saves_seq_append (ss : List Stm) (s : Stm) :
    (Stm.seq (ss ++ [s])).saves = (Stm.seq ss).saves + s.saves := by
  induction ss with
  | nil => simp [Stm.saves_seq_cons]
  | cons s' ss ih => rw [List.cons_append, Stm.saves_seq_cons, Stm.saves_seq_cons, ih, Nat.add_assoc]

lemma Exp.savesAll_cons (x : Exp) (xs : List Exp) :
    Exp.savesAll (x :: xs) =
      Exp.savesAll xs + (x.saves + (!xs.all Exp.isPure && !x.isFixed).toNat) := rfl

lemma Split.hold_next {r : Split Exp} {n : Temp} {k : Nat} {fixed : Bool} (effects : Bool)
    (hn : r.next = n.advance k) (hf : r.value.isConstant = fixed) :
    (r.hold effects).next = n.advance (k + (effects && !fixed).toNat) := by
  subst hf
  unfold Split.hold
  split
  · rename_i h
    simp [Split.save, Ident.next_eq_advance, hn, h]
  · rename_i h
    simp only [Bool.not_eq_true] at h
    simp [hn, h]

lemma Exp.operand_next_of_split {x : Exp} {n : Temp} (h : (x.split n).next = n.advance x.rootSaves) :
    (x.operand n).next = n.advance x.saves := by
  cases hc : x.isCall with
  | false =>
    rw [← Exp.split_eq_operand n hc, h]
    simp [Exp.saves, hc]
  | true =>
    rw [Exp.operand_of_isCall n hc]
    simp [Split.save, Ident.next_eq_advance, h, Exp.saves, hc]

mutual

lemma Exp.split_next (x : Exp) (n : Temp) : (x.split n).next = n.advance x.rootSaves := by
  cases x with
  | const w => simp [Exp.split, Exp.rootSaves]
  | name l => simp [Exp.split, Exp.rootSaves]
  | temp t => simp [Exp.split, Exp.rootSaves]
  | mem a => exact Exp.operand_next_of_split (a.split_next n)
  | binop op a b =>
    have hb := Exp.operand_next_of_split (b.split_next n)
    have ha := Exp.operand_next_of_split (a.split_next (b.operand n).next)
    have h := Split.hold_next (!b.isPure) ha (a.operand_value_isConstant _)
    exact h.trans (by rw [hb, Ident.advance_advance]; rfl)
  | call f args => exact Exp.splitAll_next args n
  | eseq s e =>
    have he := Exp.operand_next_of_split (e.split_next (s.flat n).next)
    exact he.trans (by rw [s.flat_next n, Ident.advance_advance]; rfl)

lemma Exp.splitAll_next (xs : List Exp) (n : Temp) :
    (Exp.splitAll xs n).next = n.advance (Exp.savesAll xs) := by
  cases xs with
  | nil => simp [Exp.savesAll]
  | cons x xs =>
    have hx := Exp.operand_next_of_split (x.split_next (Exp.splitAll xs n).next)
    have h := Split.hold_next (!xs.all Exp.isPure) hx (x.operand_value_isConstant _)
    exact h.trans (by rw [Exp.splitAll_next xs n, Ident.advance_advance]; rfl)

lemma Exp.assign_next (d x : Exp) (effects : Bool) (n : Temp)
    (hx : ∀ n, (x.split n).next = n.advance x.rootSaves) :
    (d.assign (fun m => x.split m) effects n).next =
      n.advance (d.savesInto x.rootSaves x.saves effects) := by
  have hw := Exp.operand_next_of_split (hx n)
  cases d with
  | temp t => exact hx n
  | const w => exact hw
  | name l => exact hw
  | mem a =>
    have ha := Exp.operand_next_of_split (a.split_next (x.operand n).next)
    have h := Split.hold_next effects ha (a.operand_value_isConstant _)
    exact h.trans (by rw [hw, Ident.advance_advance]; rfl)
  | eseq s d =>
    have hd := d.assign_next x effects (s.flat n).next hx
    exact hd.trans (by rw [s.flat_next n, Ident.advance_advance]; rfl)
  | binop op a b =>
    have hb := Exp.operand_next_of_split (b.split_next (x.operand n).next)
    have ha := Exp.operand_next_of_split (a.split_next (b.operand (x.operand n).next).next)
    have hl := Split.hold_next (!b.isPure) ha (a.operand_value_isConstant _)
    have h := Split.hold_next (r := .binop op
        ((a.operand (b.operand (x.operand n).next).next).hold !b.isPure)
        (b.operand (x.operand n).next)) effects hl rfl
    refine h.trans ?_
    rw [hb, hw, Ident.advance_advance, Ident.advance_advance]
    simp [Split.binop, Exp.isConstant, Exp.savesInto, Exp.saves, Nat.add_assoc]
  | call f args =>
    have ha := Exp.splitAll_next args (x.operand n).next
    have h := Split.hold_next (r := (Split.call f (Exp.splitAll args (x.operand n).next)).save)
      effects (Ident.next_eq_advance _) rfl
    refine h.trans ?_
    simp only [Split.call, ha]
    simp [Split.save, Exp.isConstant, Exp.savesInto, hw, Nat.add_assoc]

lemma Stm.flat_next (s : Stm) (n : Temp) : (s.flat n).next = n.advance s.saves := by
  cases s with
  | move d x => exact d.assign_next x _ n (fun m => x.split_next m)
  | exp e => exact e.split_next n
  | seq ss => exact Stm.flatAll_next ss n
  | cjump c l l' => exact Exp.operand_next_of_split (c.split_next n)
  | jump l => simp [Stm.saves, Stm.flat]
  | label l => simp [Stm.saves, Stm.flat]

lemma Stm.flatAll_next (ss : List Stm) (n : Temp) :
    (Stm.flatAll ss n).next = n.advance (Stm.savesAll ss) := by
  cases ss with
  | nil => simp [Stm.flatAll, Stm.savesAll]
  | cons s ss =>
    rw [Stm.savesAll, ← Ident.advance_advance, ← s.flat_next n]
    exact Stm.flatAll_next ss _

end

lemma Exp.operand_next (x : Exp) (n : Temp) : (x.operand n).next = n.advance x.saves :=
  Exp.operand_next_of_split (x.split_next n)

end Code

end BlockLang
