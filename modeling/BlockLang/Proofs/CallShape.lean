import BlockLang.Proofs.Temporaries

namespace BlockLang

open Source Code Lowering

namespace Code

section Shape

variable (C : Exp → Prop) (K : Int → Label → List Exp → Prop) (known : List Stm)

inductive Plain : Stm → Prop where
  | temp {t : Temp} {x : Exp} (h : x.isCall = false) : Plain (.move (.temp t) x)
  | cell {a x : Exp} (ha : C a) (h : x.isCall = false) : Plain (.move (.mem a) x)
  | held {t : Temp} {a x : Exp} (ha : C a) (ht : .move (.temp t) a ∈ known) (h : x.isCall = false) :
    Plain (.move (.mem (.temp t)) x)
  | intrinsic {t : Temp} {i : Intrinsic} {args : List Exp} :
    Plain (.move (.temp t) (.call i.label args))
  | exp {x : Exp} (h : x.isCall = false) : Plain (.exp x)
  | cjump {c : Exp} {l l' : Label} : Plain (.cjump c l l')
  | jump {l : Label} : Plain (.jump l)
  | label {l : Label} : Plain (.label l)

inductive Obeys : List Stm → Prop where
  | nil : Obeys []
  | plain {s : Stm} {code : List Stm} (h : Plain C known s) (hc : Obeys code) : Obeys (s :: code)
  | call {n : Int} {t : Temp} {f : Label} {args : List Exp} {code : List Stm} (h : K n f args)
    (hc : Obeys code) : Obeys (saveFp n :: .move (.temp t) (.call f args) :: code)

end Shape

variable {C : Exp → Prop} {K : Int → Label → List Exp → Prop} {known : List Stm}

lemma Obeys.append {code code' : List Stm} (h : Obeys C K known code) (h' : Obeys C K known code') :
    Obeys C K known (code ++ code') := by
  induction h with
  | nil => exact h'
  | plain h _ ih => exact .plain h ih
  | call h _ ih => exact .call h ih

lemma Obeys.at {code : List Stm} (h : Obeys C K known code) {i : Nat} {s : Stm}
    (hs : code[i]? = some s) :
    Plain C known s ∨
      (∃ n t f args, K n f args ∧ s = saveFp n ∧
        code[i + 1]? = some (.move (.temp t) (.call f args))) ∨
      ∃ j n t f args, i = j + 1 ∧ K n f args ∧ code[j]? = some (saveFp n) ∧
        s = .move (.temp t) (.call f args) := by
  induction h generalizing i with
  | nil => simp at hs
  | plain h _ ih =>
    cases i with
    | zero =>
      obtain rfl := Option.some.inj hs
      exact .inl h
    | succ i =>
      rcases ih (i := i) hs with h | ⟨n, t, f, args, hk, rfl, hnext⟩ |
        ⟨j, n, t, f, args, rfl, hk, hbefore, rfl⟩
      · exact .inl h
      · exact .inr (.inl ⟨n, t, f, args, hk, rfl, hnext⟩)
      · exact .inr (.inr ⟨j + 1, n, t, f, args, rfl, hk, hbefore, rfl⟩)
  | @call n t f args code hk _ ih =>
    match i with
    | 0 =>
      obtain rfl := Option.some.inj hs
      exact .inr (.inl ⟨n, t, f, args, hk, rfl, rfl⟩)
    | 1 =>
      obtain rfl := Option.some.inj hs
      exact .inr (.inr ⟨0, n, t, f, args, rfl, hk, rfl, rfl⟩)
    | i + 2 =>
      rcases ih (i := i) hs with h | ⟨n, t, f, args, hk, rfl, hnext⟩ |
        ⟨j, n, t, f, args, rfl, hk, hbefore, rfl⟩
      · exact .inl h
      · exact .inr (.inl ⟨n, t, f, args, hk, rfl, hnext⟩)
      · exact .inr (.inr ⟨j + 2, n, t, f, args, rfl, hk, hbefore, rfl⟩)

def Obeying (C : Exp → Prop) (K : Int → Label → List Exp → Prop) (code : List Stm) : Prop :=
  ∀ known, code ⊆ known → Obeys C K known code

lemma Stm.plain_of_isQuiet {s : Stm} (h : s.isQuiet = true) : Plain C known s := by
  cases s with
  | move d x =>
    cases d with
    | temp t => exact .temp (Bool.not_eq_true' _ ▸ h)
    | _ => cases h
  | exp x => exact .exp (Bool.not_eq_true' _ ▸ h)
  | seq ss => cases h
  | cjump c l l' => exact .cjump
  | jump l => exact .jump
  | label l => exact .label

lemma gathers_obeying : Gathers (Obeying C K) where
  nil _ _ := .nil
  append h h' known hk := by
    rw [List.append_subset] at hk
    exact (h known hk.1).append (h' known hk.2)
  quiet h _ _ := .plain (Stm.plain_of_isQuiet h) .nil

lemma obeying_move_cell {a x : Exp} (ha : C a) (hp : a.isPure = true) (hx : x.Yields (Obeying C K)) :
    (Stm.move (.mem a) x).Yields (Obeying C K) := by
  intro n known hk
  have hv := operand_not_isCall x n
  rw [Stm.flat_move_mem, Exp.operand_of_isPure _ hp] at hk ⊢
  cases he : (!x.isPure && !a.isConstant) with
  | true =>
    have hhold : (Split.mk [] a (x.operand n).next).hold (!x.isPure) =
        (Split.mk [] a (x.operand n).next).save := if_pos he
    rw [hhold] at hk ⊢
    simp only [Split.save, List.nil_append, List.append_subset] at hk
    obtain ⟨⟨ht, hk⟩, -⟩ := hk
    have hstore : Plain C known (.move (.mem (.temp (x.operand n).next)) (x.operand n).value) :=
      .held ha (ht (List.mem_singleton_self _)) hv
    exact .plain (.temp (Exp.not_isCall_of_isPure hp)) ((hx n known hk).append (.plain hstore .nil))
  | false =>
    have hhold : (Split.mk [] a (x.operand n).next).hold (!x.isPure) =
        Split.mk [] a (x.operand n).next := if_neg (by rw [he]; exact Bool.false_ne_true)
    rw [hhold] at hk ⊢
    simp only [List.nil_append, List.append_subset] at hk ⊢
    exact (hx n known hk.1).append (.plain (.cell ha hv) .nil)

end Code

namespace Lowering

structure Confined (scope : Scope) (level : Nat) (C : Exp → Prop) (K : Int → Label → List Exp → Prop)
    (is : List Item) : Prop where
  unindexed : Unindexed is
  scalar : ∀ e, .expr e ∈ is → ∀ type, scope.tables.types[e.node.id]? = some type →
    type.isArray = false
  name : ∀ n x, .expr (.name n x) ∈ is → ∀ ⦃st st' : State⦄ ⦃a : Exp⦄,
    (expr scope level (.name n x)).run st = .ok (.value (.mem a), st') → C a
  call : ∀ n f args, .expr (.call n f args) ∈ is → ∀ ⦃i : NodeId⦄ ⦃g : Frame⦄,
    scope.tables.bindings[n.id]? = some i → scope.frames[i]? = some g →
      ∀ ts : List Temp, ts.length = args.length → K g.oldFp g.label (linkOf level g :: ts.map .temp)

section Walk

variable {scope : Scope} {level : Nat} {C : Exp → Prop} {K : Int → Label → List Exp → Prop}

lemma Confined.cell {b e : Expr} (hb : Confined scope level C K b.items) (he : .expr e ∈ b.items)
    {st st' : State} {r : Fragment} (h : (expr scope level e).run st = .ok (r, st'))
    (ha : r.toExp.isAssignable = true) : ∃ a : Exp, C a ∧ a.isPure = true ∧ r.toExp = .mem a := by
  have hi := hb.unindexed.of_part he
  obtain ⟨a, hp, hr⟩ := expr_mem_of_isAssignable hi h ha
  obtain ⟨n, x, st₁, st₂, hm, hn⟩ := expr_name_of_isAssignable e hi h ha
  rw [hr] at hn
  exact ⟨a, hb.name n x (b.items_subset he hm) hn, hp, hr⟩

lemma Confined.code {b : Expr} (hb : Confined scope level C K b.items) {n : Node} {f : String}
    {args : List Expr} (hm : .expr (.call n f args) ∈ b.items) {c : Callee} {st st' : State}
    (h : (callee scope level n f).run st = .ok (c, st')) {ts : List Temp}
    (ht : ts.length = args.length) (t : Temp) : Obeying C K (c.code ts t) := by
  intro known _
  cases hbind : scope.tables.bindings[n.id]? with
  | some i =>
    obtain ⟨g, hg, -, rfl, -⟩ := (callee_bound_ok hbind).mp h
    exact .call (hb.call n f args hm hbind hg ts ht) .nil
  | none =>
    obtain ⟨i, -, rfl, -⟩ := (callee_free_ok hbind).mp h
    exact .plain .intrinsic .nil

lemma Confined.permits {b : Expr} (hb : Confined scope level C K b.items) :
    Permits scope level (Obeying C K) b.items where
  store e he st st' r h ha _ y _ hy := by
    obtain ⟨a, hcell, hpure, hr⟩ := hb.cell he h ha
    rw [hr]
    exact obeying_move_cell hcell hpure hy
  copy e he type ht harray := by
    cases harray.symm.trans (hb.scalar e he type ht)
  call n f args hm st st' c h ts ht t := hb.code hm h ht t

lemma expr_obeys (e : Expr) (he : Confined scope level C K e.items) {st st' : State} {r : Fragment}
    (h : (expr scope level e).run st = .ok (r, st')) : r.toExp.Yields (Obeying C K) :=
  gathers_obeying.toExp (expr_yields gathers_obeying e he.permits h)

lemma obeys_returning {x : Exp} (hx : x.Yields (Obeying C K)) (n : Temp) :
    ∃ init v, ((returning x).flat n).code = init ++ [.move (.mem (.name .framePointer)) v] ∧
      v.isCall = false ∧ Obeys C K ((returning x).flat n).code init := by
  refine ⟨_, _, flat_returning x n, operand_not_isCall x n, ?_⟩
  rw [flat_returning]
  exact hx n _ (List.subset_append_left ..)

end Walk

end Lowering

end BlockLang
