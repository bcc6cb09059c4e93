import BlockLang.Proofs.LoweringCases
import BlockLang.Proofs.Occurrences
import BlockLang.Proofs.Splitting

/-! Properties that the linear code of a function has because its parts have them. Two walks are made
here once: linearization puts the code of a tree together from that of its parts, and lowering makes
trees of few forms. What is left for a property are stores, copied arrays and calls. -/

namespace BlockLang

open Source Code

namespace Code

def Stm.isQuiet : Stm → Bool
  | .move (.temp _) x | .exp x => !x.isCall
  | .cjump _ _ _ | .jump _ | .label _ => true
  | .move _ _ | .seq _ => false

structure Gathers (Q : List Stm → Prop) : Prop where
  nil : Q []
  append : ∀ {code code' : List Stm}, Q code → Q code' → Q (code ++ code')
  quiet : ∀ {s : Stm}, s.isQuiet = true → Q [s]

def Exp.Yields (Q : List Stm → Prop) (x : Exp) : Prop := ∀ n, Q (x.operand n).before

def Stm.Yields (Q : List Stm → Prop) (s : Stm) : Prop := ∀ n, Q (s.flat n).code

def Fragment.Yields (Q : List Stm → Prop) : Fragment → Prop
  | .value x => x.Yields Q ∧ x.isCall = false
  | .effect s => s.Yields Q

lemma operand_not_isCall (x : Exp) (n : Temp) : (x.operand n).value.isCall = false :=
  Exp.not_isCall_of_isPure (x.operand_value_isPure n)

lemma Exp.isQuiet_move {x : Exp} (h : x.isCall = false) (t : Temp) :
    (Stm.move (.temp t) x).isQuiet = true := by
  rw [Stm.isQuiet, h]
  rfl

namespace Gathers

variable {Q : List Stm → Prop} {x y : Exp} {s : Stm} {ss : List Stm}

lemma snoc (hQ : Gathers Q) {code : List Stm} (h : Q code) (hs : s.isQuiet = true) : Q (code ++ [s]) :=
  hQ.append h (hQ.quiet hs)

lemma hold (hQ : Gathers Q) (h : x.Yields Q) (effects : Bool) (n : Temp) :
    Q ((x.operand n).hold effects).before :=
  (x.operand n).hold_cases effects (hQ.snoc (h n) (Exp.isQuiet_move (operand_not_isCall x n) _))
    (h n)

lemma of_isPure (hQ : Gathers Q) (h : x.isPure = true) : x.Yields Q := by
  intro n
  rw [Exp.operand_of_isPure n h]
  exact hQ.nil

lemma binop (hQ : Gathers Q) (hx : x.Yields Q) (hy : y.Yields Q) (op : Op) :
    (Exp.binop op x y).Yields Q := by
  intro n
  rw [Exp.operand_binop]
  exact hQ.append (hQ.hold hx _ _) (hy n)

lemma eseq (hQ : Gathers Q) (hs : s.Yields Q) (hx : x.Yields Q) : (Exp.eseq s x).Yields Q := by
  intro n
  rw [Exp.operand_eseq]
  exact hQ.append (hs n) (hx _)

lemma move_temp (hQ : Gathers Q) (hc : x.isCall = false) (hx : x.Yields Q) (t : Temp) :
    (Stm.move (.temp t) x).Yields Q := by
  intro n
  rw [Stm.flat_move_temp t n hc]
  exact hQ.snoc (hx n) (Exp.isQuiet_move (operand_not_isCall x n) t)

lemma exp (hQ : Gathers Q) (hc : x.isCall = false) (hx : x.Yields Q) : (Stm.exp x).Yields Q := by
  intro n
  rw [Stm.flat_exp n hc]
  refine hQ.append (hx n) ?_
  have hv := operand_not_isCall x n
  cases h : (x.operand n).value with
  | const w => exact hQ.nil
  | name l => exact hQ.nil
  | temp t => exact hQ.nil
  | _ =>
    rw [h] at hv
    exact hQ.quiet (by rw [Stm.isQuiet, hv]; rfl)

lemma cjump (hQ : Gathers Q) (hx : x.Yields Q) (l l' : Label) : (Stm.cjump x l l').Yields Q := by
  intro n
  rw [Stm.flat_cjump]
  exact hQ.snoc (hx n) rfl

lemma label (hQ : Gathers Q) (l : Label) : (Stm.label l).Yields Q := fun _ => hQ.quiet rfl

lemma jump (hQ : Gathers Q) (l : Label) : (Stm.jump l).Yields Q := fun _ => hQ.quiet rfl

lemma seq (hQ : Gathers Q) (h : ∀ s ∈ ss, s.Yields Q) : (Stm.seq ss).Yields Q := by
  induction ss with
  | nil => exact fun _ => hQ.nil
  | cons s ss ih =>
    rw [List.forall_mem_cons] at h
    intro n
    rw [Stm.flat_seq_cons]
    exact hQ.append (h.1 n) (ih h.2 _)

lemma toExp (hQ : Gathers Q) {r : Fragment} (h : r.Yields Q) : r.toExp.Yields Q := by
  cases r with
  | value x => exact h.1
  | effect s => exact hQ.eseq h (hQ.of_isPure rfl)

lemma toStm (hQ : Gathers Q) {r : Fragment} (h : r.Yields Q) : r.toStm.Yields Q := by
  cases r with
  | value x => exact hQ.exp h.2 h.1
  | effect s => exact h

end Gathers

lemma Fragment.Yields.not_isCall {Q : List Stm → Prop} {r : Fragment} (h : r.Yields Q) :
    r.toExp.isCall = false := by
  cases r with
  | value x => exact h.2
  | effect s => rfl

end Code

namespace Lowering

def Callee.code (c : Callee) (ts : List Temp) (t : Temp) : List Stm :=
  c.oldFp.toList.map saveFp ++ [.move (.temp t) (.call c.label (c.link :: ts.map .temp))]

structure Permits (scope : Scope) (level : Nat) (Q : List Stm → Prop) (is : List Item) : Prop where
  store : ∀ e, .expr e ∈ is → ∀ ⦃st st' : State⦄ ⦃r : Fragment⦄,
    (expr scope level e).run st = .ok (r, st') → r.toExp.isAssignable = true → r.toExp.Yields Q →
      ∀ y : Exp, y.isCall = false → y.Yields Q → (Stm.move r.toExp y).Yields Q
  copy : ∀ e, .expr e ∈ is → ∀ type, scope.tables.types[e.node.id]? = some type →
    type.isArray = true → ∀ dst src size, ∀ s ∈ copyWords dst src size, s.Yields Q
  call : ∀ n f args, .expr (.call n f args) ∈ is → ∀ ⦃st st' : State⦄ ⦃c : Callee⦄,
    (callee scope level n f).run st = .ok (c, st') →
      ∀ ts : List Temp, ts.length = args.length → ∀ t, Q (c.code ts t)

section Parts

variable {scope : Scope} {level : Nat} {Q : List Stm → Prop}

lemma Permits.mono {is js : List Item} (h : Permits scope level Q js) (hs : is ⊆ js) :
    Permits scope level Q is :=
  ⟨fun e he => h.store e (hs he), fun e he => h.copy e (hs he),
    fun n f args hm => h.call n f args (hs hm)⟩

lemma Permits.of_part {e x : Expr} (h : Permits scope level Q e.items) (hx : .expr x ∈ e.items) :
    Permits scope level Q x.items :=
  h.mono (e.items_subset hx)

lemma link_isPure {c : Callee} {n : Node} {f : String} {st st' : State}
    (h : (callee scope level n f).run st = .ok (c, st')) : c.link.isPure = true := by
  cases hb : scope.tables.bindings[n.id]? with
  | some target =>
    obtain ⟨frame, -, -, rfl, -⟩ := (callee_bound_ok hb).mp h
    simp only [linkOf]
    split
    · rfl
    · exact isPure_staticLink _
  | none =>
    obtain ⟨i, -, rfl, -⟩ := (callee_free_ok hb).mp h
    rfl

lemma flat_returning (x : Exp) (n : Temp) :
    ((returning x).flat n).code = (x.operand n).before ++ [returning (x.operand n).value] := by
  have hname : ∀ effects, ((Exp.name .framePointer).operand (x.operand n).next).hold effects =
      ⟨[], .name .framePointer, (x.operand n).next⟩ := by
    intro effects
    exact Split.hold_of_isConstant effects rfl
  rw [returning, Stm.flat_move_mem, hname]
  rfl

lemma flat_saveFp (n : Int) (t : Temp) : (saveFp n).flat t = ⟨[saveFp n], t⟩ := rfl

lemma yields_unary (hQ : Gathers Q) {x : Exp} (hx : x.Yields Q) (op : UnaryOp) :
    (unary op x).Yields Q := by
  cases op with
  | plus => exact hx
  | negate => exact hQ.binop (hQ.of_isPure rfl) hx .sub
  | not => exact hQ.binop (hQ.of_isPure rfl) hx .sub

lemma yields_element (hQ : Gathers Q) {x y : Exp} (hx : x.Yields Q) (hy : y.Yields Q) (type : Ty) :
    (element x y type).Yields Q := by
  have ha := hQ.binop hx (hQ.binop hy (hQ.of_isPure (x := .const (.ofInt type.size)) rfl) .mul) .add
  simp only [element]
  split
  · exact ha
  · exact ha

lemma yields_call (hQ : Gathers Q) {c : Callee} {xs : List (Temp × Exp)} (hl : c.link.isPure = true)
    (hx : ∀ a ∈ xs, (Stm.move (.temp a.1) a.2).Yields Q)
    (hc : ∀ t, Q (c.code (xs.map Prod.fst) t)) : (c.call xs).Yields Q := by
  intro n
  have hpure : (c.link :: xs.map fun a => .temp a.1).all Exp.isPure = true := by
    simp [hl, Exp.isPure]
  have hmoves : (Stm.seq (xs.map fun a => .move (.temp a.1) a.2)).Yields Q := by
    apply hQ.seq
    intro s hs
    obtain ⟨a, ha, rfl⟩ := List.mem_map.mp hs
    exact hx a ha
  rw [Callee.call, Exp.operand_eseq, Exp.operand_call, Exp.splitAll_of_isPure _ hpure]
  cases ho : c.oldFp with
  | none =>
    simp only [Callee.code, ho, List.map_map, Option.toList_none, List.map_nil, List.nil_append,
      Function.comp_def] at hc
    simp only [Option.toList_none, List.map_nil, List.append_nil, List.nil_append]
    exact hQ.append (hmoves n) (hc _)
  | some m =>
    simp only [Callee.code, ho, List.map_map, Option.toList_some, List.map_cons, List.map_nil,
      Function.comp_def] at hc
    simp only [Option.toList_some, List.map_cons, List.map_nil, Stm.flat_seq_append, flat_saveFp,
      List.nil_append, List.append_assoc]
    exact hQ.append (hmoves n) (hc _)

lemma yields_block (hQ : Gathers Q) {init : List Stm} {last : Option Fragment}
    (hi : ∀ s ∈ init, s.Yields Q) (hl : ∀ r, last = some r → r.Yields Q) :
    (block init last).Yields Q := by
  cases last with
  | none => exact ⟨hQ.of_isPure rfl, rfl⟩
  | some r =>
    have hr := hl r rfl
    cases r with
    | value x => exact ⟨hQ.eseq (hQ.seq hi) hr.1, rfl⟩
    | effect s =>
      apply hQ.seq
      rw [List.forall_mem_append, List.forall_mem_singleton]
      exact ⟨hi, hr⟩

variable {p q e : Label} {x : Exp} {s s' : Stm}

lemma yields_ifThen (hQ : Gathers Q) (hx : x.Yields Q) (hs : s.Yields Q) :
    (ifThen p e x s).Yields Q := by
  apply hQ.seq
  simp only [List.forall_mem_cons]
  exact ⟨hQ.cjump hx p e, hQ.label p, hs, hQ.label e, List.forall_mem_nil _⟩

lemma yields_ifElse (hQ : Gathers Q) (hx : x.Yields Q) (hs : s.Yields Q) (hs' : s'.Yields Q) :
    (ifElse p q e x s s').Yields Q := by
  apply hQ.seq
  simp only [List.forall_mem_cons]
  exact ⟨hQ.cjump hx p q, hQ.label p, hs, hQ.jump e, hQ.label q, hs', hQ.label e,
    List.forall_mem_nil _⟩

lemma yields_whileLoop (hQ : Gathers Q) (hx : x.Yields Q) (hs : s.Yields Q) :
    (whileLoop p q e x s).Yields Q := by
  apply hQ.seq
  simp only [List.forall_mem_cons]
  exact ⟨hQ.label p, hQ.cjump hx q e, hQ.label q, hs, hQ.jump p, hQ.label e, List.forall_mem_nil _⟩

lemma yields_forLoop (hQ : Gathers Q) {counter low high step : Exp} (hc : counter.Yields Q)
    (hm : ∀ y : Exp, y.isCall = false → y.Yields Q → (Stm.move counter y).Yields Q)
    (hlow : low.isCall = false) (hl : low.Yields Q) (hh : high.Yields Q) (ht : step.Yields Q)
    (hs : s.Yields Q) :
    (forLoop p q e counter low high step s).Yields Q := by
  apply hQ.seq
  simp only [List.forall_mem_cons]
  exact ⟨hm _ hlow hl, hQ.label p, hQ.cjump (hQ.binop hc hh .lt) q e, hQ.label q, hs,
    hm _ rfl (hQ.binop hc ht .add), hQ.jump p, hQ.label e, List.forall_mem_nil _⟩

end Parts

section Walk

variable {scope : Scope} {level : Nat} {Q : List Stm → Prop}

mutual

lemma expr_yields (hQ : Gathers Q) (e : Expr) (he : Permits scope level Q e.items) {st st' : State}
    {r : Fragment} (h : (expr scope level e).run st = .ok (r, st')) : r.Yields Q := by
  cases e with
  | literal n v =>
    cases v with
    | integer w =>
      obtain ⟨rfl, -⟩ := expr_integer_ok.mp h
      exact ⟨hQ.of_isPure rfl, rfl⟩
    | logical b =>
      obtain ⟨rfl, -⟩ := expr_logical_ok.mp h
      exact ⟨hQ.of_isPure rfl, rfl⟩
    | string text =>
      obtain ⟨rfl, -⟩ := expr_string_ok.mp h
      exact ⟨hQ.of_isPure rfl, rfl⟩
  | name n x =>
    obtain ⟨_, access, type, -, -, -, -, rfl, -⟩ := expr_name_ok.mp h
    have hp := isPure_variableValue type (isPure_addressOf level access) access
    exact ⟨hQ.of_isPure hp, Exp.not_isCall_of_isPure hp⟩
  | unary n op x =>
    obtain ⟨q, hx, rfl⟩ := expr_unary_ok.mp h
    have hs := expr_yields hQ x (he.of_part (by simp [Expr.items, Expr.mem_items])) hx
    refine ⟨yields_unary hQ (hQ.toExp hs) op, ?_⟩
    cases op with
    | plus => exact hs.not_isCall
    | negate => rfl
    | not => rfl
  | binary n op x y =>
    have hmem : .expr x ∈ (Expr.binary n op x y).items := by simp [Expr.items, Expr.mem_items]
    have hx' := he.of_part hmem
    have hy' := he.of_part (x := y) (by simp [Expr.items, Expr.mem_items])
    cases op with
    | compute op =>
      obtain ⟨_, _, _, hx, hy, rfl⟩ := expr_compute_ok.mp h
      have hs := hQ.toExp (expr_yields hQ x hx' hx)
      exact ⟨hQ.binop hs (hQ.toExp (expr_yields hQ y hy' hy)) op, rfl⟩
    | index =>
      obtain ⟨_, type, -, -, _, _, _, hx, hy, rfl⟩ := expr_index_ok.mp h
      have hs := hQ.toExp (expr_yields hQ x hx' hx)
      refine ⟨yields_element hQ hs (hQ.toExp (expr_yields hQ y hy' hy)) type, ?_⟩
      simp only [element]
      split
      · rfl
      · rfl
    | assign =>
      obtain ⟨type, ht, h⟩ := expr_assign_ok.mp h
      split at h
      · rename_i harray
        obtain ⟨-, _, _, _, hx, hy, rfl⟩ := h
        have hs := expr_yields hQ x hx' hx
        have hs' := expr_yields hQ y hy' hy
        apply hQ.seq
        simp only [List.forall_mem_cons]
        exact ⟨hQ.move_temp hs.not_isCall (hQ.toExp hs) _,
          hQ.move_temp hs'.not_isCall (hQ.toExp hs') _, he.copy x hmem type ht harray _ _ _⟩
      · obtain ⟨_, _, _, hx, ha, hy, rfl⟩ := h
        have hs := expr_yields hQ y hy' hy
        exact he.store x hmem hx ha (hQ.toExp (expr_yields hQ x hx' hx)) _ hs.not_isCall (hQ.toExp hs)
  | call n f args =>
    obtain ⟨c, _, xs, hc, hx, rfl⟩ := expr_call_ok.mp h
    obtain ⟨hxs, hlength⟩ := arguments_yields hQ args (he.mono (by simp [Expr.items])) hx
    refine ⟨yields_call hQ (link_isPure hc) hxs fun t => ?_, rfl⟩
    exact he.call n f args (Expr.mem_items _) hc _ (by rw [List.length_map, hlength]) t
  | block n es =>
    obtain ⟨_, _, hb, rfl⟩ := expr_block_ok.mp h
    obtain ⟨hi, hl⟩ := body_yields hQ es (he.mono (by simp [Expr.items])) hb
    exact yields_block hQ hi hl
  | ifThen n c p =>
    obtain ⟨_, _, _, hc, hp, rfl⟩ := expr_ifThen_ok.mp h
    have hs := expr_yields hQ c (he.of_part (by simp [Expr.items, Expr.mem_items])) hc
    have hs' := expr_yields hQ p (he.of_part (by simp [Expr.items, Expr.mem_items])) hp
    exact yields_ifThen hQ (hQ.toExp hs) (hQ.toStm hs')
  | ifElse n c p q =>
    obtain ⟨_, _, _, _, _, hc, hp, hq, rfl⟩ := expr_ifElse_ok.mp h
    have hs := expr_yields hQ c (he.of_part (by simp [Expr.items, Expr.mem_items])) hc
    have hs₁ := expr_yields hQ p (he.of_part (by simp [Expr.items, Expr.mem_items])) hp
    have hs₂ := expr_yields hQ q (he.of_part (by simp [Expr.items, Expr.mem_items])) hq
    exact yields_ifElse hQ (hQ.toExp hs) (hQ.toStm hs₁) (hQ.toStm hs₂)
  | whileLoop n c b =>
    obtain ⟨_, _, _, hc, hb, rfl⟩ := expr_whileLoop_ok.mp h
    have hs := expr_yields hQ c (he.of_part (by simp [Expr.items, Expr.mem_items])) hc
    have hs' := expr_yields hQ b (he.of_part (by simp [Expr.items, Expr.mem_items])) hb
    exact yields_whileLoop hQ (hQ.toExp hs) (hQ.toStm hs')
  | forLoop n c low high step b =>
    obtain ⟨_, _, _, _, _, _, _, _, _, hc, ha, hl, hh, ht, hb, rfl⟩ := expr_forLoop_ok.mp h
    have hmem : .expr c ∈ (Expr.forLoop n c low high step b).items := by
      simp [Expr.items, Expr.mem_items]
    have hs := hQ.toExp (expr_yields hQ c (he.of_part hmem) hc)
    have hs₁ := expr_yields hQ low (he.of_part (by simp [Expr.items, Expr.mem_items])) hl
    have hs₂ := expr_yields hQ high (he.of_part (by simp [Expr.items, Expr.mem_items])) hh
    have hs₃ := expr_yields hQ step (he.of_part (by simp [Expr.items, Expr.mem_items])) ht
    have hs₄ := expr_yields hQ b (he.of_part (by simp [Expr.items, Expr.mem_items])) hb
    exact yields_forLoop hQ hs (he.store c hmem hc ha hs) hs₁.not_isCall (hQ.toExp hs₁)
      (hQ.toExp hs₂) (hQ.toExp hs₃) (hQ.toStm hs₄)
  | whereDefs n x m ds =>
    obtain ⟨_, -, hx⟩ := expr_whereDefs_ok.mp h
    exact expr_yields hQ x (he.of_part (by simp [Expr.items, Expr.mem_items])) hx

lemma arguments_yields (hQ : Gathers Q) (es : List Expr)
    (he : Permits scope level Q (Expr.itemsAll es)) {st st' : State} {xs : List (Temp × Exp)}
    (h : (arguments scope level es).run st = .ok (xs, st')) :
    (∀ a ∈ xs, (Stm.move (.temp a.1) a.2).Yields Q) ∧ xs.length = es.length := by
  cases es with
  | nil =>
    obtain ⟨rfl, -⟩ := arguments_nil_ok.mp h
    exact ⟨List.forall_mem_nil _, rfl⟩
  | cons e es =>
    obtain ⟨q, st₁, _, hx, hes, rfl⟩ := arguments_cons_ok.mp h
    have hs := expr_yields hQ e (he.mono (List.subset_append_left ..)) hx
    obtain ⟨hxs, hlength⟩ := arguments_yields hQ es (he.mono (List.subset_append_right ..)) hes
    rw [List.forall_mem_cons, List.length_cons, List.length_cons, hlength]
    exact ⟨⟨hQ.move_temp hs.not_isCall (hQ.toExp hs) _, hxs⟩, rfl⟩

lemma body_yields (hQ : Gathers Q) (es : List Expr) (he : Permits scope level Q (Expr.itemsAll es))
    {st st' : State} {init : List Stm} {last : Option Fragment}
    (h : (body scope level es).run st = .ok ((init, last), st')) :
    (∀ s ∈ init, s.Yields Q) ∧ ∀ r, last = some r → r.Yields Q := by
  match es with
  | [] =>
    obtain ⟨rfl, rfl, rfl⟩ := body_nil_ok.mp h
    exact ⟨List.forall_mem_nil _, nofun⟩
  | [e] =>
    obtain ⟨r, hr, rfl, rfl⟩ := body_singleton_ok.mp h
    refine ⟨List.forall_mem_nil _, fun r' h' => ?_⟩
    obtain rfl := Option.some.inj h'
    exact expr_yields hQ e (he.mono (List.subset_append_left ..)) hr
  | e :: e' :: es =>
    obtain ⟨r, _, rest, hr, hes, rfl⟩ := body_cons_ok.mp h
    have hs := expr_yields hQ e (he.mono (List.subset_append_left ..)) hr
    obtain ⟨hi, hl⟩ := body_yields hQ (e' :: es) (he.mono (List.subset_append_right ..)) hes
    exact ⟨List.forall_mem_cons.mpr ⟨hQ.toStm hs, hi⟩, hl⟩

end

lemma expr_not_isCall (e : Expr) {st st' : State} {r : Fragment}
    (h : (expr scope level e).run st = .ok (r, st')) : r.toExp.isCall = false := by
  have hQ : Gathers fun _ => True := ⟨trivial, fun _ _ => trivial, fun _ => trivial⟩
  have he : Permits scope level (fun _ => True) e.items :=
    ⟨fun _ _ _ _ _ _ _ _ _ _ _ _ => trivial, fun _ _ _ _ _ _ _ _ _ _ _ => trivial,
      fun _ _ _ _ _ _ _ _ _ _ _ => trivial⟩
  exact (expr_yields hQ e he h).not_isCall

end Walk

end Lowering

end BlockLang
