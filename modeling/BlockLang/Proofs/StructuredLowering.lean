import BlockLang.Proofs.Placement

/-! Lowering a well-typed expression without calls of functions always succeeds, and its code does
what the expression means. It uses fewer temporaries than the expression has nodes. -/

namespace BlockLang

open Source Code

namespace Source.Tables

variable {t : Tables} {n n' : Node} {vars : List NodeId}

lemma hasType_iff {type : Ty} : t.hasType n type = true ↔ t.types[n.id]? = some type := by
  simp [hasType]

lemma isScalar_of_hasType {type : Ty} (h : t.hasType n type = true) (ht : type = .int ∨ type = .log) :
    t.isScalar n = true := by
  rcases ht with rfl | rfl <;> simp [isScalar, h]

lemma isScalar_of_void (h : t.hasType n .void = true) : t.isScalar n = false := by
  simp [isScalar, hasType, hasType_iff.mp h]

def isOperand (t : Tables) (n : Node) : Bool := t.isScalar n || t.hasType n .void

lemma isOperand_of_suits {type : Ty} (h : t.suits n type = true) (ht : type = .int ∨ type = .log) :
    t.isOperand n = true := by
  rw [suits, Bool.or_eq_true] at h
  rw [isOperand, Bool.or_eq_true]
  exact h.imp (isScalar_of_hasType · ht) id

lemma one_le_of_isOperand (h : t.isOperand n = true) : 1 ≤ (t.isScalar n).toNat + t.voids n := by
  rw [isOperand, Bool.or_eq_true] at h
  rcases h with h | h <;> simp [voids, h]

lemma isScalar_of_sameType (h : t.sameType n n' = true) : t.isScalar n = t.isScalar n' := by
  have he : t.types[n.id]? = t.types[n'.id]? := by simpa [sameType] using h
  simp [isScalar, hasType, he]

lemma type_of_isOperand (h : t.isOperand n = true) : ∃ type, t.types[n.id]? = some type := by
  simp only [isOperand, isScalar, Bool.or_eq_true, hasType_iff] at h
  rcases h with (h | h) | h <;> exact ⟨_, h⟩

lemma type_of_isScalar (h : t.isScalar n = true) :
    ∃ type, t.types[n.id]? = some type ∧ type.isArray = false := by
  simp only [isScalar, Bool.or_eq_true, hasType_iff] at h
  rcases h with h | h
  · exact ⟨_, h, rfl⟩
  · exact ⟨_, h, rfl⟩

lemma binding_of_refers (h : t.refers vars n = true) :
    ∃ d ∈ vars, t.bindings[n.id]? = some d ∧ t.isScalar n = true := by
  unfold refers at h
  cases hb : t.bindings[n.id]? with
  | none => simp [hb] at h
  | some d =>
    simp only [hb, Bool.and_eq_true, decide_eq_true_eq] at h
    exact ⟨d, h.1.1, rfl, h.2⟩

lemma name_of_cell? {e : Expr} {d : NodeId} (h : t.cell? e = some d) :
    ∃ n x, e = .name n x ∧ t.bindings[n.id]? = some d := by
  cases e with
  | name n x => exact ⟨n, x, rfl, h⟩
  | _ => cases h

end Source.Tables

namespace Lowering

section Realizes

variable {σ : Type} {S : Sim σ} {x : Exp} {s : Stm} {r : Fragment} {f : Action σ Word}
variable {p : Action σ Unit}

structure Realizes (S : Sim σ) (r : Fragment) (f : Action σ Word) : Prop where
  computes : S.Computes r.toExp f
  performs : S.Performs r.toStm (do let _ ← f)

lemma Realizes.value (hc : x.isCall = false) (h : S.Computes x f) : Realizes S (.value x) f :=
  ⟨h, .exp hc h⟩

lemma Realizes.effect (h : S.Performs s p) : Realizes S (.effect s) (do p; return 0) := by
  have hvoid : S.Computes Fragment.void (pure 0) := .of_isPure rfl fun _ _ _ _ hrel => ⟨hrel, rfl⟩
  refine ⟨.eseq h hvoid, ?_⟩
  change S.Performs s _
  simpa using h

lemma saves_toExp_effect (s : Stm) : (Fragment.effect s).toExp.saves = s.saves := by
  have hvoid : Fragment.void.saves = 0 := rfl
  rw [Fragment.toExp, Exp.saves_eseq, hvoid, Nat.add_zero]

lemma saves_toStm (h : r.toExp.isCall = false) : r.toStm.saves = r.toExp.saves := by
  cases r with
  | value x => exact Stm.saves_exp h
  | effect s => exact (saves_toExp_effect s).symm

end Realizes

structure Located (scope : Scope) (vars locals : List NodeId) : Prop where
  reach : ∀ d ∈ vars, ∃ access, scope.accesses[d]? = some access ∧ inReach 1 access = true
  inFrame : ∀ d ∈ locals, ∃ size offset level, scope.accesses[d]? = some (.stack size offset level)

/-- The lowering of an expression succeeds, takes `k` temporaries and gives code that does what the
expression means. -/
structure Lowered (scope : Scope) (vars : List NodeId) (e : Expr) (st : State) (r : Fragment)
    (st' : State) (k : Nat) : Prop where
  run : (expr scope 1 e).run st = .ok (r, st')
  chunks : st'.chunks = st.chunks
  nextTemp : st'.nextTemp = st.nextTemp.advance k
  notCall : r.toExp.isCall = false
  count : k + r.toExp.saves + (scope.tables.isScalar e.node).toNat ≤
    e.ids.length + e.voidOperands scope.tables
  realizes : ∀ (P : Placement scope vars) (routine : Routine) (resolved : routine.Resolved)
    (fuel bound : Nat), st.nextTemp.toNat + k ≤ bound →
      Realizes (P.sim routine resolved fuel bound) r (e.denote scope.tables fuel)

namespace Lowered

variable {scope : Scope} {vars : List NodeId} {st st₁ st₂ st₃ st' : State} {r r₁ r₂ r₃ : Fragment}
variable {e x y z : Expr} {n : Node} {k k₁ k₂ k₃ : Nat}

lemma nextTemp_le (h : Lowered scope vars e st r st' k) :
    st'.nextTemp.toNat ≤ st.nextTemp.toNat + k := by
  rw [h.nextTemp, Ident.toNat_advance]
  exact Nat.mod_le _ _

lemma nextTemp_trans (h : Lowered scope vars x st r st₁ k) (h' : Lowered scope vars y st₁ r₁ st' k₁) :
    st'.nextTemp = st.nextTemp.advance (k + k₁) := by
  rw [h'.nextTemp, h.nextTemp, Ident.advance_advance]

lemma count_operand (h : Lowered scope vars e st r st' k)
    (he : scope.tables.isOperand e.node = true) : k + r.toExp.saves + 1 ≤
      e.ids.length + (e.voidOperands scope.tables + scope.tables.voids e.node) := by
  have hc := h.count
  have hone := Tables.one_le_of_isOperand he
  omega

lemma saves_toStm_eq (h : Lowered scope vars e st r st' k) : r.toStm.saves = r.toExp.saves :=
  saves_toStm h.notCall

lemma saves_unary (op : UnaryOp) (x : Exp) : (unary op x).saves = x.saves := by
  have hconst : ∀ w, (Exp.const w).saves = 0 := fun _ => rfl
  have hfixed : ∀ w, (Exp.const w).isFixed = true := fun _ => rfl
  cases op <;> simp [Lowering.unary, Exp.saves_binop, hconst, hfixed]

lemma computes_unary {S : Sim World} {x : Exp} {f : Action World Word} (op : UnaryOp)
    (h : S.Computes x f) :
    S.Computes (Lowering.unary op x) (do return .ofInt (op.value (← f).toInt)) := by
  have hsub : ∀ w, S.Computes (.binop .sub (.const w) x) (do return w - (← f)) := by
    intro w
    have hw : S.Computes (.const w) (pure w) := .of_isPure rfl fun _ _ _ _ hrel => ⟨hrel, rfl⟩
    have hb := hw.compute .sub h
    rw [pure_bind] at hb
    exact hb
  cases op with
  | plus => simpa [Lowering.unary, UnaryOp.value] using h
  | negate => simpa [Lowering.unary, UnaryOp.value, Int64.ofInt_neg] using hsub 0
  | not => simpa [Lowering.unary, UnaryOp.value, Int64.ofInt_sub] using hsub 1

lemma notCall_unary {x : Exp} (op : UnaryOp) (h : x.isCall = false) :
    (Lowering.unary op x).isCall = false := by
  cases op with
  | plus => exact h
  | negate => rfl
  | not => rfl

lemma unary {op : UnaryOp} (h : Lowered scope vars e st r st' k)
    (he : scope.tables.isOperand e.node = true) :
    Lowered scope vars (.unary n op e) st (.value (Lowering.unary op r.toExp)) st' k where
  run := expr_unary_ok.mpr ⟨r, h.run, rfl⟩
  chunks := h.chunks
  nextTemp := h.nextTemp
  notCall := notCall_unary op h.notCall
  count := by
    have hc := h.count_operand he
    have hn := Bool.toNat_le (scope.tables.isScalar (Expr.unary n op e).node)
    simp only [Fragment.toExp, saves_unary, Expr.ids, Expr.voidOperands, List.length_cons]
    simp only [Fragment.toExp] at hc
    omega
  realizes P routine resolved fuel bound hb := by
    have hr := h.realizes P routine resolved fuel bound hb
    exact .value (notCall_unary op h.notCall) (computes_unary op hr.computes)

lemma compute {op : Op} (hx : Lowered scope vars x st r₁ st₁ k₁)
    (hy : Lowered scope vars y st₁ r₂ st' k₂) (hsx : scope.tables.isOperand x.node = true)
    (hsy : scope.tables.isOperand y.node = true) :
    Lowered scope vars (.binary n (.compute op) x y) st (.value (.binop op r₁.toExp r₂.toExp)) st'
      (k₁ + k₂) where
  run := expr_compute_ok.mpr ⟨r₁, st₁, r₂, hx.run, hy.run, rfl⟩
  chunks := hy.chunks.trans hx.chunks
  nextTemp := hx.nextTemp_trans hy
  notCall := rfl
  count := by
    have hcx := hx.count_operand hsx
    have hcy := hy.count_operand hsy
    have hn := Bool.toNat_le (scope.tables.isScalar (Expr.binary n (.compute op) x y).node)
    have hs := Bool.toNat_le (!r₂.toExp.isPure && !r₁.toExp.isFixed)
    have hsaves := Exp.saves_binop op r₁.toExp r₂.toExp
    simp only [Expr.ids, Expr.voidOperands, List.length_cons, List.length_append]
    change _ + (Exp.binop op r₁.toExp r₂.toExp).saves + _ ≤ _
    omega
  realizes P routine resolved fuel bound hb := by
    have hr := hx.realizes P routine resolved fuel bound (by omega)
    have hr' := hy.realizes P routine resolved fuel bound (by have := hx.nextTemp_le; omega)
    simp only [Expr.denote, operate_eq_compute]
    exact .value rfl (hr.computes.compute op hr'.computes)

lemma literal_integer (w : Word) :
    Lowered scope vars (.literal n (.integer w)) st (.value (.const w)) st 0 where
  run := expr_integer_ok.mpr ⟨rfl, rfl⟩
  chunks := rfl
  nextTemp := (Ident.advance_zero _).symm
  notCall := rfl
  count := by
    have hn := Bool.toNat_le (scope.tables.isScalar (Expr.literal n (.integer w)).node)
    have hs : (Fragment.value (.const w)).toExp.saves = 0 := rfl
    simp only [Expr.ids, List.length_cons, List.length_nil]
    omega
  realizes _ _ _ _ _ _ := .value rfl (.of_isPure rfl fun _ _ _ _ hrel => ⟨hrel, rfl⟩)

lemma literal_logical (b : Bool) :
    Lowered scope vars (.literal n (.logical b)) st (.value (.const (.ofBool b))) st 0 where
  run := expr_logical_ok.mpr ⟨rfl, rfl⟩
  chunks := rfl
  nextTemp := (Ident.advance_zero _).symm
  notCall := rfl
  count := by
    have hn := Bool.toNat_le (scope.tables.isScalar (Expr.literal n (.logical b)).node)
    have hs : (Fragment.value (.const (.ofBool b))).toExp.saves = 0 := rfl
    simp only [Expr.ids, List.length_cons, List.length_nil]
    omega
  realizes _ _ _ _ _ _ := .value rfl (.of_isPure rfl fun _ _ _ _ hrel => ⟨hrel, rfl⟩)

lemma saves_addressOf (level : Nat) (access : Access) : (addressOf level access).saves = 0 :=
  Exp.saves_of_isPure (isPure_addressOf level access)

lemma run_name {name : String} {d : NodeId} {access : Access}
    (hs : scope.tables.isScalar n = true) (hb : scope.tables.bindings[n.id]? = some d)
    (ha : scope.accesses[d]? = some access) (hr : inReach 1 access = true) :
    (expr scope 1 (.name n name)).run st = .ok (.value (.mem (addressOf 1 access)), st) := by
  obtain ⟨type, ht, harray⟩ := Tables.type_of_isScalar hs
  refine expr_name_ok.mpr ⟨d, access, type, hb, ha, hr, ht, ?_, rfl⟩
  rw [variableValue_of_not_isArray harray]

lemma name {x : String} {d : NodeId} {access : Access} (hs : scope.tables.isScalar n = true)
    (hd : d ∈ vars) (hb : scope.tables.bindings[n.id]? = some d)
    (ha : scope.accesses[d]? = some access) (hr : inReach 1 access = true) :
    Lowered scope vars (.name n x) st (.value (.mem (addressOf 1 access))) st 0 where
  run := run_name hs hb ha hr
  chunks := rfl
  nextTemp := (Ident.advance_zero _).symm
  notCall := rfl
  count := by
    have hn := Bool.toNat_le (scope.tables.isScalar (Expr.name n x).node)
    have hm := Exp.saves_mem (addressOf 1 access)
    rw [saves_addressOf] at hm
    simp only [Expr.ids, List.length_cons, List.length_nil, Fragment.toExp]
    omega
  realizes P routine resolved fuel bound _ := by
    refine .value rfl ?_
    simp only [Expr.denote, hb]
    exact Placement.computes_get hd ha

lemma saves_assign_le (access : Access) (y : Exp) :
    (Stm.move (.mem (addressOf 1 access)) y).saves ≤ y.saves + 1 := by
  have hs := Bool.toNat_le (!y.isPure && !(addressOf 1 access).isFixed)
  rw [Stm.saves_move_mem, saves_addressOf]
  omega

lemma assign {m : Node} {x : String} {d : NodeId} {access : Access}
    (hs : scope.tables.isScalar m = true) (hd : d ∈ vars)
    (hb : scope.tables.bindings[m.id]? = some d) (ha : scope.accesses[d]? = some access)
    (hr : inReach 1 access = true) (hy : Lowered scope vars y st r st' k)
    (hn : scope.tables.isScalar n = false) :
    Lowered scope vars (.binary n .assign (.name m x) y) st
      (.effect (.move (.mem (addressOf 1 access)) r.toExp)) st' k where
  run := by
    obtain ⟨type, ht, harray⟩ := Tables.type_of_isScalar hs
    refine expr_assign_ok.mpr ⟨type, ht, ?_⟩
    rw [harray, if_neg Bool.false_ne_true]
    exact ⟨_, st, r, run_name hs hb ha hr, rfl, hy.run, rfl⟩
  chunks := hy.chunks
  nextTemp := hy.nextTemp
  notCall := rfl
  count := by
    have hc := hy.count
    have hle := saves_assign_le access r.toExp
    have hn' : scope.tables.isScalar (Expr.binary n .assign (.name m x) y).node = false := hn
    rw [hn', Bool.toNat_false, saves_toExp_effect]
    simp only [Expr.ids, Expr.voidOperands, List.length_cons, List.length_append]
    omega
  realizes P routine resolved fuel bound hb' := by
    have h := hy.realizes P routine resolved fuel bound hb'
    simp only [Expr.denote, Tables.cell?, hb]
    have hp := Realizes.effect (Placement.performs_set hd ha h.computes)
    simpa using hp

lemma print {f : String} {i : Intrinsic} (he : Lowered scope vars e st r st₁ k)
    (hse : scope.tables.isOperand e.node = true) (hn : scope.tables.isScalar n = false)
    (hb : scope.tables.bindings[n.id]? = none) (hf : Intrinsic.ofName? f = some i)
    (hi : i = .printInt ∨ i = .printLog) :
    Lowered scope vars (.call n f [e]) st
      (.value (.eseq (.seq [.move (.temp st₁.nextTemp) r.toExp])
        (.call i.label [.const 0, .temp st₁.nextTemp])))
      { st₁ with nextTemp := st₁.nextTemp.next } (k + 1) where
  run := by
    have hargs : (arguments scope 1 [e]).run st =
        .ok ([(st₁.nextTemp, r.toExp)], { st₁ with nextTemp := st₁.nextTemp.next }) :=
      arguments_cons_ok.mpr ⟨r, st₁, [], he.run, arguments_nil_ok.mpr ⟨rfl, rfl⟩, rfl⟩
    exact expr_call_ok.mpr ⟨_, st, _, (callee_free_ok hb).mpr ⟨i, hf, rfl, rfl⟩, hargs, rfl⟩
  chunks := he.chunks
  nextTemp := by
    rw [Ident.next_eq_advance, he.nextTemp, Ident.advance_advance]
  notCall := rfl
  count := by
    have hc := he.count_operand hse
    have hargs : Exp.savesAll [.const 0, .temp st₁.nextTemp] = 0 := Exp.savesAll_of_isPure rfl
    have hmove := Stm.saves_move_temp st₁.nextTemp he.notCall
    have hn' : scope.tables.isScalar (Expr.call n f [e]).node = false := hn
    rw [hn', Bool.toNat_false, Fragment.toExp, Exp.saves_eseq, Stm.saves_seq_cons,
      Stm.saves_seq_nil, Exp.saves_call, hargs]
    simp only [Expr.ids, Expr.idsAll, Expr.voidOperands, Expr.voidArguments, List.length_cons,
      List.length_append, List.length_nil]
    omega
  realizes P routine resolved fuel bound hb' := by
    have h := he.realizes P routine resolved fuel bound (by omega)
    have ht : st₁.nextTemp.toNat < bound := by have := he.nextTemp_le; omega
    have hd : (Expr.call n f [e]).denote scope.tables fuel =
        e.denote scope.tables fuel >>= fun w => World.call f [w] := by
      simp [Expr.denote, Expr.denoteAll]
    rw [hd]
    exact .value rfl (.callOne ht he.notCall h.computes (fun _ _ _ _ hrel => hrel)
      fun a _ _ _ hrel => Placement.changes_call hrel hf hi a)

lemma denote_ifThen (t : Tables) (rounds : Nat) :
    (Expr.ifThen n x y).denote t rounds =
      (do if ← x.denote t rounds >>= Action.test then let _ ← y.denote t rounds) >>=
        fun _ => pure 0 := by
  simp only [Expr.denote, bind_assoc]
  refine bind_congr fun w => bind_congr fun b => ?_
  cases b <;> simp

lemma denote_ifElse (t : Tables) (rounds : Nat) :
    (Expr.ifElse n x y z).denote t rounds =
      (do
        if ← x.denote t rounds >>= Action.test then
          let _ ← y.denote t rounds
        else
          let _ ← z.denote t rounds) >>= fun _ => pure 0 := by
  simp only [Expr.denote, bind_assoc]
  refine bind_congr fun w => bind_congr fun b => ?_
  cases b <;> simp

lemma denote_whileLoop (t : Tables) (rounds : Nat) :
    (Expr.whileLoop n x y).denote t rounds =
      Action.loop (x.denote t rounds >>= Action.test) (do let _ ← y.denote t rounds) rounds >>=
        fun _ => pure 0 := by
  simp only [Expr.denote]

lemma test_ofBool {σ : Type} (b : Bool) : (Action.test (.ofBool b) : Action σ Bool) = pure b := by
  cases b <;> rfl

lemma denote_forLoop {low high step b : Expr} {d : NodeId} {t : Tables} (rounds : Nat)
    (hd : t.cell? x = some d) :
    (Expr.forLoop n x low high step b).denote t rounds =
      ((low.denote t rounds >>= World.set d) >>= fun _ =>
        Action.loop ((do operate .lt (← World.get d) (← high.denote t rounds)) >>= Action.test)
          ((do let _ ← b.denote t rounds) >>= fun _ =>
            (do operate .add (← World.get d) (← step.denote t rounds)) >>= World.set d)
          rounds) >>= fun _ => pure 0 := by
  have hlt : ∀ i j, (operate .lt i j : Action World Word) =
      pure (.ofBool (i.toInt < j.toInt)) := fun _ _ => congrArg pure (Word.ofInt_truth _)
  have hadd : ∀ i j, (operate .add i j : Action World Word) = pure (.ofInt (i.toInt + j.toInt)) :=
    fun _ _ => rfl
  simp [Expr.denote, hd, hlt, hadd, test_ofBool]

lemma ifThen (hx : Lowered scope vars x st r₁ st₁ k₁)
    (hy : Lowered scope vars y (st₁.skip 2) r₂ st' k₂) (hn : scope.tables.isScalar n = false) :
    Lowered scope vars (.ifThen n x y) st
      (.effect (Lowering.ifThen (.anonymous st₁.labels.used) (.anonymous (st₁.labels.used + 1))
        r₁.toExp r₂.toStm)) st' (k₁ + k₂) where
  run := expr_ifThen_ok.mpr ⟨r₁, st₁, r₂, hx.run, hy.run, rfl⟩
  chunks := hy.chunks.trans hx.chunks
  nextTemp := by
    rw [hy.nextTemp]
    change st₁.nextTemp.advance k₂ = _
    rw [hx.nextTemp, Ident.advance_advance]
  notCall := rfl
  count := by
    have hc := hx.count
    have hc' := hy.count
    have hn' : scope.tables.isScalar (Expr.ifThen n x y).node = false := hn
    have hs := hy.saves_toStm_eq
    rw [hn', Bool.toNat_false, saves_toExp_effect, Sim.saves_ifThen]
    simp only [Expr.ids, Expr.voidOperands, List.length_cons, List.length_append]
    omega
  realizes P routine resolved fuel bound hb := by
    have hle : (st₁.skip 2).nextTemp.toNat ≤ st.nextTemp.toNat + k₁ := hx.nextTemp_le
    have h₁ := hx.realizes P routine resolved fuel bound (by omega)
    have h₂ := hy.realizes P routine resolved fuel bound (by omega)
    rw [denote_ifThen]
    exact .effect (.ifThen h₁.computes h₂.performs)

lemma ifElse (hx : Lowered scope vars x st r₁ st₁ k₁)
    (hy : Lowered scope vars y (st₁.skip 3) r₂ st₂ k₂) (hz : Lowered scope vars z st₂ r₃ st' k₃)
    (hn : scope.tables.isScalar n = false) :
    Lowered scope vars (.ifElse n x y z) st
      (.effect (Lowering.ifElse (.anonymous st₁.labels.used) (.anonymous (st₁.labels.used + 1))
        (.anonymous (st₁.labels.used + 2)) r₁.toExp r₂.toStm r₃.toStm)) st' (k₁ + k₂ + k₃) where
  run := expr_ifElse_ok.mpr ⟨r₁, st₁, r₂, st₂, r₃, hx.run, hy.run, hz.run, rfl⟩
  chunks := hz.chunks.trans (hy.chunks.trans hx.chunks)
  nextTemp := by
    rw [hz.nextTemp, hy.nextTemp]
    change (st₁.nextTemp.advance k₂).advance k₃ = _
    rw [hx.nextTemp, Ident.advance_advance, Ident.advance_advance, Nat.add_assoc]
  notCall := rfl
  count := by
    have hc := hx.count
    have hc' := hy.count
    have hc'' := hz.count
    have hn' : scope.tables.isScalar (Expr.ifElse n x y z).node = false := hn
    have hs := hy.saves_toStm_eq
    have hs' := hz.saves_toStm_eq
    rw [hn', Bool.toNat_false, saves_toExp_effect, Sim.saves_ifElse]
    simp only [Expr.ids, Expr.voidOperands, List.length_cons, List.length_append]
    omega
  realizes P routine resolved fuel bound hb := by
    have hle : (st₁.skip 3).nextTemp.toNat ≤ st.nextTemp.toNat + k₁ := hx.nextTemp_le
    have hle' := hy.nextTemp_le
    have h₁ := hx.realizes P routine resolved fuel bound (by omega)
    have h₂ := hy.realizes P routine resolved fuel bound (by omega)
    have h₃ := hz.realizes P routine resolved fuel bound (by omega)
    rw [denote_ifElse]
    exact .effect (.ifElse h₁.computes h₂.performs h₃.performs)

lemma whileLoop (hx : Lowered scope vars x (st.skip 3) r₁ st₁ k₁)
    (hy : Lowered scope vars y st₁ r₂ st' k₂) (hn : scope.tables.isScalar n = false) :
    Lowered scope vars (.whileLoop n x y) st
      (.effect (Lowering.whileLoop (.anonymous st.labels.used) (.anonymous (st.labels.used + 1))
        (.anonymous (st.labels.used + 2)) r₁.toExp r₂.toStm)) st' (k₁ + k₂) where
  run := expr_whileLoop_ok.mpr ⟨r₁, st₁, r₂, hx.run, hy.run, rfl⟩
  chunks := hy.chunks.trans hx.chunks
  nextTemp := hx.nextTemp_trans hy
  notCall := rfl
  count := by
    have hc := hx.count
    have hc' := hy.count
    have hn' : scope.tables.isScalar (Expr.whileLoop n x y).node = false := hn
    have hs := hy.saves_toStm_eq
    rw [hn', Bool.toNat_false, saves_toExp_effect, Sim.saves_whileLoop]
    simp only [Expr.ids, Expr.voidOperands, List.length_cons, List.length_append]
    omega
  realizes P routine resolved fuel bound hb := by
    have hle : st₁.nextTemp.toNat ≤ st.nextTemp.toNat + k₁ := hx.nextTemp_le
    have h₁ := hx.realizes P routine resolved fuel bound (Nat.le_trans (Nat.le_add_right _ k₂)
      (by rw [Nat.add_assoc]; exact hb))
    have h₂ := hy.realizes P routine resolved fuel bound (by omega)
    rw [denote_whileLoop]
    exact .effect (.whileLoop h₁.computes h₂.performs)

section ForLoop

variable {low high step b : Expr} {m : Node} {name : String} {d : NodeId} {access : Access}
variable {r₄ : Fragment} {k₄ : Nat}

lemma saves_forLoop_le (test inside stop : Label) (access : Access) (low high step : Exp)
    (body : Stm) :
    (Lowering.forLoop test inside stop (.mem (addressOf 1 access)) low high step body).saves ≤
      low.saves + high.saves + step.saves + body.saves + 4 := by
  have hmove := saves_assign_le access low
  have hmove' := saves_assign_le access (.binop .add (.mem (addressOf 1 access)) step)
  have hmem : (Exp.mem (addressOf 1 access)).saves = 0 := by
    rw [Exp.saves_mem, saves_addressOf]
  have hlt := Exp.saves_binop .lt (.mem (addressOf 1 access)) high
  have hadd := Exp.saves_binop .add (.mem (addressOf 1 access)) step
  have hb := Bool.toNat_le (!high.isPure && !(Exp.mem (addressOf 1 access)).isFixed)
  have hb' := Bool.toNat_le (!step.isPure && !(Exp.mem (addressOf 1 access)).isFixed)
  simp only [Lowering.forLoop, Stm.saves_seq_cons, Stm.saves_cjump, Stm.saves_label, Stm.saves_jump,
    Stm.saves_seq_nil]
  omega

lemma forLoop (hsm : scope.tables.isScalar m = true) (hd : d ∈ vars)
    (hb : scope.tables.bindings[m.id]? = some d) (ha : scope.accesses[d]? = some access)
    (hr : inReach 1 access = true) (hl : Lowered scope vars low (st.skip 3) r₁ st₁ k₁)
    (hh : Lowered scope vars high st₁ r₂ st₂ k₂) (hs : Lowered scope vars step st₂ r₃ st₃ k₃)
    (hy : Lowered scope vars b st₃ r₄ st' k₄) (hsl : scope.tables.isOperand low.node = true)
    (hsh : scope.tables.isOperand high.node = true)
    (hss : scope.tables.isOperand step.node = true)
    (hn : scope.tables.isScalar n = false) :
    Lowered scope vars (.forLoop n (.name m name) low high step b) st
      (.effect (Lowering.forLoop (.anonymous st.labels.used) (.anonymous (st.labels.used + 1))
        (.anonymous (st.labels.used + 2)) (.mem (addressOf 1 access)) r₁.toExp r₂.toExp r₃.toExp
        r₄.toStm)) st' (k₁ + k₂ + k₃ + k₄) where
  run := expr_forLoop_ok.mpr ⟨_, st.skip 3, r₁, st₁, r₂, st₂, r₃, st₃, r₄, run_name hsm hb ha hr, rfl,
    hl.run, hh.run, hs.run, hy.run, rfl⟩
  chunks := hy.chunks.trans (hs.chunks.trans (hh.chunks.trans hl.chunks))
  nextTemp := by
    rw [hy.nextTemp, hs.nextTemp, hh.nextTemp, hl.nextTemp]
    simp only [Ident.advance_advance]
    rfl
  notCall := rfl
  count := by
    have hc₁ := hl.count_operand hsl
    have hc₂ := hh.count_operand hsh
    have hc₃ := hs.count_operand hss
    have hc₄ := hy.count
    have hs₄ := hy.saves_toStm_eq
    have hle := saves_forLoop_le (.anonymous st.labels.used) (.anonymous (st.labels.used + 1))
      (.anonymous (st.labels.used + 2)) access r₁.toExp r₂.toExp r₃.toExp r₄.toStm
    have hn' : scope.tables.isScalar (Expr.forLoop n (.name m name) low high step b).node = false :=
      hn
    rw [hn', Bool.toNat_false, saves_toExp_effect]
    simp only [Expr.ids, Expr.voidOperands, List.length_cons, List.length_append, List.length_nil]
    omega
  realizes P routine resolved fuel bound hbound := by
    have hle₁ : st₁.nextTemp.toNat ≤ st.nextTemp.toNat + k₁ := hl.nextTemp_le
    have hle₂ := hh.nextTemp_le
    have hle₃ := hs.nextTemp_le
    have h₁ := hl.realizes P routine resolved fuel bound
      (show st.nextTemp.toNat + k₁ ≤ bound by omega)
    have h₂ := hh.realizes P routine resolved fuel bound (by omega)
    have h₃ := hs.realizes P routine resolved fuel bound (by omega)
    have h₄ := hy.realizes P routine resolved fuel bound (by omega)
    have hget : (P.sim routine resolved fuel bound).Computes (.mem (addressOf 1 access))
        (World.get d) := Placement.computes_get hd ha
    rw [denote_forLoop fuel (show scope.tables.cell? (.name m name) = some d from hb)]
    simp only [operate_eq_compute]
    exact .effect (.forLoop (Placement.performs_set hd ha h₁.computes)
      (hget.compute .lt h₂.computes) h₄.performs
      (Placement.performs_set hd ha (hget.compute .add h₃.computes)))

end ForLoop

lemma block_empty (hn : scope.tables.isScalar n = false) :
    Lowered scope vars (.block n []) st (.value Fragment.void) st 0 where
  run := expr_block_ok.mpr ⟨[], none, body_nil_ok.mpr ⟨rfl, rfl, rfl⟩, rfl⟩
  chunks := rfl
  nextTemp := (Ident.advance_zero _).symm
  notCall := rfl
  count := by
    have hn' : scope.tables.isScalar (Expr.block n []).node = false := hn
    rw [hn']
    exact Nat.zero_le _
  realizes _ _ _ _ _ _ := .value rfl (.of_isPure rfl fun _ _ _ _ hrel => ⟨hrel, rfl⟩)

end Lowered

structure BodyLowered (scope : Scope) (vars : List NodeId) (es : List Expr) (st : State)
    (init : List Stm) (r : Fragment) (st' : State) (k : Nat) : Prop where
  run : (body scope 1 es).run st = .ok ((init, some r), st')
  chunks : st'.chunks = st.chunks
  nextTemp : st'.nextTemp = st.nextTemp.advance k
  notCall : r.toExp.isCall = false
  count : ∀ e, es.getLast? = some e → k + (Stm.seq init).saves + r.toExp.saves +
    (scope.tables.isScalar e.node).toNat ≤
      (Expr.idsAll es).length + Expr.voidOperandsAll scope.tables es
  realizes : ∀ (P : Placement scope vars) (routine : Routine) (resolved : routine.Resolved)
    (fuel bound : Nat), st.nextTemp.toNat + k ≤ bound → ∃ q g,
      (P.sim routine resolved fuel bound).Performs (.seq init) q ∧
      Realizes (P.sim routine resolved fuel bound) r g ∧
      Expr.denoteBlock scope.tables fuel es = (do q; g)

namespace BodyLowered

variable {scope : Scope} {vars : List NodeId} {st st₁ st' : State} {r r₁ : Fragment}
variable {e e' : Expr} {es : List Expr} {init : List Stm} {n : Node} {k k₁ : Nat}

lemma single (h : Lowered scope vars e st r st' k) : BodyLowered scope vars [e] st [] r st' k where
  run := body_singleton_ok.mpr ⟨r, h.run, rfl, rfl⟩
  chunks := h.chunks
  nextTemp := h.nextTemp
  notCall := h.notCall
  count := by
    rintro e' he
    obtain rfl : e = e' := by simpa using he
    have hc := h.count
    simp only [Expr.idsAll, Expr.voidOperandsAll, List.append_nil, Stm.saves_seq_nil]
    omega
  realizes P routine resolved fuel bound hb :=
    ⟨pure (), _, .seq_nil, h.realizes P routine resolved fuel bound hb, by
      simp [Expr.denoteBlock]⟩

lemma cons (h : Lowered scope vars e st r st₁ k)
    (hs : BodyLowered scope vars (e' :: es) st₁ init r₁ st' k₁) :
    BodyLowered scope vars (e :: e' :: es) st (r.toStm :: init) r₁ st' (k + k₁) where
  run := body_cons_ok.mpr ⟨r, st₁, init, h.run, hs.run, rfl⟩
  chunks := hs.chunks.trans h.chunks
  nextTemp := by rw [hs.nextTemp, h.nextTemp, Ident.advance_advance]
  notCall := hs.notCall
  count := by
    intro last hlast
    have hc := h.count
    have hc' := hs.count last (by simpa using hlast)
    have hstm := h.saves_toStm_eq
    rw [Expr.idsAll, Expr.voidOperandsAll, List.length_append, Stm.saves_seq_cons]
    omega
  realizes P routine resolved fuel bound hb := by
    have hle := h.nextTemp_le
    have hr := h.realizes P routine resolved fuel bound (by omega)
    obtain ⟨q, g, hq, hg, hd⟩ := hs.realizes P routine resolved fuel bound (by omega)
    refine ⟨_, g, hr.performs.seq_cons hq, hg, ?_⟩
    rw [Expr.denoteBlock, hd]
    simp

lemma saves_block (init : List Stm) (r : Fragment) :
    (block init (some r)).toExp.saves = (Stm.seq init).saves + r.toExp.saves := by
  cases r with
  | value x => exact Exp.saves_eseq _ _
  | effect s =>
    rw [block, saves_toExp_effect, saves_toExp_effect, Stm.saves_seq_append]

lemma realizes_block {σ : Type} {S : Sim σ} {q : Action σ Unit} {g : Action σ Word}
    (hq : S.Performs (.seq init) q) (hg : Realizes S r g) :
    Realizes S (block init (some r)) (do q; g) := by
  cases r with
  | value x => exact .value rfl (.eseq hq hg.computes)
  | effect s =>
    refine ⟨?_, ?_⟩
    · have h : S.Computes (.eseq (.seq init) (Fragment.effect s).toExp) (do q; g) :=
        .eseq hq hg.computes
      refine h.of_operand (fun n => ?_) ?_ ?_
      · simp [Lowering.block, Fragment.toExp, Exp.operand_eseq, Stm.flat_seq_append]
      · exact (saves_block init (.effect s)).trans (Exp.saves_eseq _ _).symm
      · rfl
    · have h : S.Performs (.seq (init ++ [s])) _ := hq.seq_append hg.performs
      change S.Performs (.seq (init ++ [s])) _
      simpa using h

lemma block (h : BodyLowered scope vars es st init r st' k) (he : es.getLast? = some e)
    (hn : scope.tables.sameType n e.node = true) :
    Lowered scope vars (.block n es) st (Lowering.block init (some r)) st' k where
  run := expr_block_ok.mpr ⟨init, some r, h.run, rfl⟩
  chunks := h.chunks
  nextTemp := h.nextTemp
  notCall := by cases r <;> rfl
  count := by
    have hc := h.count e he
    have hs : scope.tables.isScalar (Expr.block n es).node = scope.tables.isScalar e.node :=
      Tables.isScalar_of_sameType hn
    rw [hs, saves_block]
    simp only [Expr.ids, Expr.voidOperands, List.length_cons]
    omega
  realizes P routine resolved fuel bound hb := by
    obtain ⟨q, g, hq, hg, hd⟩ := h.realizes P routine resolved fuel bound hb
    rw [Expr.denote, hd]
    exact realizes_block hq hg

end BodyLowered

section Walk

variable {scope : Scope} {vars locals : List NodeId}

lemma Located.defs_run (L : Located scope vars locals) {ds : List Def}
    (hv : ds.all scope.tables.isVariable = true) (hl : Def.variablesAll false ds ⊆ locals)
    (st : State) : (defs scope ds).run st = .ok ((), st) := by
  induction ds with
  | nil => exact defs_nil_ok.mpr rfl
  | cons d ds ih =>
    obtain ⟨hd, hds⟩ : scope.tables.isVariable d = true ∧ ds.all scope.tables.isVariable = true := by
      simpa using hv
    rw [Def.variablesAll, List.append_subset] at hl
    cases d with
    | var n x type =>
      obtain ⟨size, offset, level, ha⟩ := L.inFrame n.id (hl.1 (List.mem_singleton_self _))
      exact defs_cons_ok.mpr ⟨st, defn_var_ok.mpr ⟨_, ha, rfl⟩, ih hds hl.2⟩
    | func n f ps type b => cases hd
    | type n x type => cases hd

lemma Lowered.whereDefs (L : Located scope vars locals) {e : Expr} {n d : Node} {ds : List Def}
    {st st' : State} {r : Fragment} {k : Nat} (h : Lowered scope vars e st r st' k)
    (hv : ds.all scope.tables.isVariable = true) (hl : Def.variablesAll false ds ⊆ locals)
    (hn : scope.tables.sameType n e.node = true) :
    Lowered scope vars (.whereDefs n e d ds) st r st' k where
  run := expr_whereDefs_ok.mpr ⟨st, L.defs_run hv hl st, h.run⟩
  chunks := h.chunks
  nextTemp := h.nextTemp
  notCall := h.notCall
  count := by
    have hc := h.count
    have hs : scope.tables.isScalar (Expr.whereDefs n e d ds).node = scope.tables.isScalar e.node :=
      Tables.isScalar_of_sameType hn
    rw [hs]
    simp only [Expr.ids, Expr.voidOperands, List.length_cons, List.length_append]
    omega
  realizes P routine resolved fuel bound hb := by
    rw [Expr.denote]
    exact h.realizes P routine resolved fuel bound hb

lemma isOperand_of_operates {t : Tables} {op : Op} {n l r : Node}
    (h : t.operates (.compute op) n l r = true) : t.isOperand l = true ∧ t.isOperand r = true := by
  have hint : ∀ {n}, t.suits n .int = true → t.isOperand n = true :=
    fun h => Tables.isOperand_of_suits h (.inl rfl)
  have hlog : ∀ {n}, t.suits n .log = true → t.isOperand n = true :=
    fun h => Tables.isOperand_of_suits h (.inr rfl)
  cases op <;> simp only [Tables.operates, BinaryOp.family, Bool.and_eq_true, Bool.or_eq_true] at h
  case and | or => exact ⟨hlog h.1.2, hlog h.2⟩
  case add | sub | mul | div | mod => exact ⟨hint h.1.2, hint h.2⟩
  all_goals
    rcases h.2 with h | h
    · exact ⟨hint h.1, hint h.2⟩
    · exact ⟨hlog h.1, hlog h.2⟩

lemma intrinsic_of_prints {t : Tables} {f : String} {args : List Expr}
    (h : t.prints f args = true) :
    ∃ e i, args = [e] ∧ t.isOperand e.node = true ∧ Intrinsic.ofName? f = some i ∧
      (i = .printInt ∨ i = .printLog) := by
  unfold Tables.prints at h
  split at h
  · rename_i e
    split at h
    · exact ⟨e, _, rfl, Tables.isOperand_of_suits h (.inl rfl), ‹_›, .inl rfl⟩
    · exact ⟨e, _, rfl, Tables.isOperand_of_suits h (.inr rfl), ‹_›, .inr rfl⟩
    · cases h
  · cases h

lemma exists_bodyLowered {e : Expr} {es : List Expr}
    (h : ∀ e' ∈ e :: es, ∀ st, ∃ r st' k, Lowered scope vars e' st r st' k) (st : State) :
    ∃ init r st' k, BodyLowered scope vars (e :: es) st init r st' k := by
  induction es generalizing e st with
  | nil =>
    obtain ⟨r, st', k, he⟩ := h e (List.mem_singleton_self e) st
    exact ⟨_, _, _, _, .single he⟩
  | cons e' es ih =>
    obtain ⟨r, st₁, k, he⟩ := h e List.mem_cons_self st
    obtain ⟨init, r', st', k', hs⟩ := ih (fun e'' he'' => h e'' (List.mem_cons_of_mem e he'')) st₁
    exact ⟨_, _, _, _, .cons he hs⟩

mutual

lemma Located.expr_lowered (L : Located scope vars locals) (e : Expr)
    (hw : e.wellTyped scope.tables vars = true) (hl : e.variables false ⊆ locals) (st : State) :
    ∃ r st' k, Lowered scope vars e st r st' k := by
  cases e with
  | literal n v =>
    cases v with
    | integer w => exact ⟨_, _, _, .literal_integer w⟩
    | logical b => exact ⟨_, _, _, .literal_logical b⟩
    | string text => cases hw
  | name n x =>
    obtain ⟨d, hd, hb, hs⟩ := Tables.binding_of_refers hw
    obtain ⟨access, ha, hr⟩ := L.reach d hd
    exact ⟨_, _, _, .name hs hd hb ha hr⟩
  | unary n op e =>
    simp only [Expr.wellTyped, Bool.and_eq_true] at hw
    obtain ⟨r, st', k, h⟩ := L.expr_lowered e hw.1.1 hl st
    have hs : scope.tables.isOperand e.node = true :=
      Tables.isOperand_of_suits hw.2 (by cases op <;> simp [UnaryOp.type])
    exact ⟨_, _, _, h.unary hs⟩
  | binary n op x y =>
    simp only [Expr.wellTyped, Bool.and_eq_true] at hw
    simp only [Expr.variables, List.append_subset] at hl
    obtain ⟨⟨⟨hwx, hwy⟩, hop⟩, hcell⟩ := hw
    cases op with
    | compute op =>
      obtain ⟨hsx, hsy⟩ := isOperand_of_operates hop
      obtain ⟨r₁, st₁, k₁, hx⟩ := L.expr_lowered x hwx hl.1 st
      obtain ⟨r₂, st₂, k₂, hy⟩ := L.expr_lowered y hwy hl.2 st₁
      exact ⟨_, _, _, hx.compute hy hsx hsy⟩
    | assign =>
      obtain ⟨d, hc⟩ := Option.isSome_iff_exists.mp (by simpa using hcell)
      obtain ⟨m, name, rfl, hb⟩ := Tables.name_of_cell? hc
      obtain ⟨d', hd, hb', -⟩ := Tables.binding_of_refers hwx
      obtain rfl : d' = d := Option.some.inj (hb'.symm.trans hb)
      obtain ⟨access, ha, hr⟩ := L.reach d' hd
      obtain ⟨r, st', k, hy⟩ := L.expr_lowered y hwy hl.2 st
      simp only [Tables.operates, BinaryOp.family, Bool.and_eq_true] at hop
      exact ⟨_, _, _, .assign hop.1.2 hd hb ha hr hy (Tables.isScalar_of_void hop.1.1)⟩
    | index => cases hop
  | call n f args =>
    simp only [Expr.wellTyped, Bool.and_eq_true] at hw
    obtain ⟨⟨⟨hargs, hb⟩, hn⟩, hp⟩ := hw
    have hall := L.all_lowered args hargs hl
    obtain ⟨e, i, rfl, hse, hf, hi⟩ := intrinsic_of_prints hp
    obtain ⟨r, st', k, h⟩ := hall e (List.mem_singleton_self e) st
    exact ⟨_, _, _, h.print hse (Tables.isScalar_of_void hn) (Option.isNone_iff_eq_none.mp hb) hf hi⟩
  | block n es =>
    simp only [Expr.wellTyped, Bool.and_eq_true] at hw
    have hall := L.all_lowered es hw.1 hl
    cases es with
    | nil => exact ⟨_, _, _, .block_empty (Tables.isScalar_of_void hw.2)⟩
    | cons e es =>
      obtain ⟨init, r, st', k, h⟩ := exists_bodyLowered hall st
      obtain ⟨last, hlast⟩ : ∃ last, (e :: es).getLast? = some last :=
        ⟨_, List.getLast?_eq_some_getLast (List.cons_ne_nil e es)⟩
      have hn := hw.2
      rw [hlast] at hn
      exact ⟨_, _, _, h.block hlast hn⟩
  | ifThen n c p =>
    simp only [Expr.wellTyped, Bool.and_eq_true] at hw
    simp only [Expr.variables, List.append_subset] at hl
    obtain ⟨r₁, st₁, k₁, hx⟩ := L.expr_lowered c hw.1.1.1 hl.1 st
    obtain ⟨r₂, st₂, k₂, hy⟩ := L.expr_lowered p hw.1.1.2 hl.2 (st₁.skip 2)
    exact ⟨_, _, _, hx.ifThen hy (Tables.isScalar_of_void hw.1.2)⟩
  | ifElse n c p q =>
    simp only [Expr.wellTyped, Bool.and_eq_true] at hw
    simp only [Expr.variables, List.append_subset] at hl
    obtain ⟨⟨⟨⟨hwc, hwp⟩, hwq⟩, hn⟩, -⟩ := hw
    obtain ⟨r₁, st₁, k₁, hx⟩ := L.expr_lowered c hwc hl.1 st
    obtain ⟨r₂, st₂, k₂, hy⟩ := L.expr_lowered p hwp hl.2.1 (st₁.skip 3)
    obtain ⟨r₃, st₃, k₃, hz⟩ := L.expr_lowered q hwq hl.2.2 st₂
    exact ⟨_, _, _, hx.ifElse hy hz (Tables.isScalar_of_void hn)⟩
  | whileLoop n c b =>
    simp only [Expr.wellTyped, Bool.and_eq_true] at hw
    simp only [Expr.variables, List.append_subset] at hl
    obtain ⟨r₁, st₁, k₁, hx⟩ := L.expr_lowered c hw.1.1.1 hl.1 (st.skip 3)
    obtain ⟨r₂, st₂, k₂, hy⟩ := L.expr_lowered b hw.1.1.2 hl.2 st₁
    exact ⟨_, _, _, Lowered.whileLoop hx hy (Tables.isScalar_of_void hw.1.2)⟩
  | forLoop n c low high step b =>
    simp only [Expr.wellTyped, Bool.and_eq_true] at hw
    simp only [Expr.variables, List.append_subset] at hl
    obtain ⟨⟨⟨⟨⟨⟨⟨⟨⟨⟨hwc, hwl⟩, hwh⟩, hws⟩, hwb⟩, hn⟩, hcell⟩, -⟩, hsl⟩, hsh⟩, hss⟩ := hw
    obtain ⟨d, hc⟩ := Option.isSome_iff_exists.mp hcell
    obtain ⟨m, name, rfl, hb⟩ := Tables.name_of_cell? hc
    obtain ⟨d', hd, hb', hsm⟩ := Tables.binding_of_refers hwc
    obtain rfl : d' = d := Option.some.inj (hb'.symm.trans hb)
    obtain ⟨access, ha, hr⟩ := L.reach d' hd
    obtain ⟨r₁, st₁, k₁, h₁⟩ := L.expr_lowered low hwl hl.2.1 (st.skip 3)
    obtain ⟨r₂, st₂, k₂, h₂⟩ := L.expr_lowered high hwh hl.2.2.1 st₁
    obtain ⟨r₃, st₃, k₃, h₃⟩ := L.expr_lowered step hws hl.2.2.2.1 st₂
    obtain ⟨r₄, st₄, k₄, h₄⟩ := L.expr_lowered b hwb hl.2.2.2.2 st₃
    have hint : ∀ {n}, scope.tables.suits n .int = true → scope.tables.isOperand n = true :=
      fun h => Tables.isOperand_of_suits h (.inl rfl)
    exact ⟨_, _, _, Lowered.forLoop hsm hd hb ha hr h₁ h₂ h₃ h₄ (hint hsl) (hint hsh) (hint hss)
      (Tables.isScalar_of_void hn)⟩
  | whereDefs n e d ds =>
    simp only [Expr.wellTyped, Bool.and_eq_true] at hw
    simp only [Expr.variables, List.append_subset] at hl
    obtain ⟨r, st', k, h⟩ := L.expr_lowered e hw.1.2 hl.2 st
    exact ⟨_, _, _, h.whereDefs L hw.1.1 hl.1 hw.2⟩

lemma Located.all_lowered (L : Located scope vars locals) (es : List Expr)
    (hw : Expr.allWellTyped scope.tables vars es = true)
    (hl : Expr.variablesAll false es ⊆ locals) :
    ∀ e ∈ es, ∀ st, ∃ r st' k, Lowered scope vars e st r st' k := by
  cases es with
  | nil => exact fun e he => nomatch he
  | cons e es =>
    rw [Expr.allWellTyped, Bool.and_eq_true] at hw
    rw [Expr.variablesAll, List.append_subset] at hl
    exact List.forall_mem_cons.mpr
      ⟨L.expr_lowered e hw.1 hl.1, L.all_lowered es hw.2 hl.2⟩

end

end Walk

end Lowering

end BlockLang
