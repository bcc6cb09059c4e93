import BlockLang.Proofs.Stateful

namespace BlockLang

open Source Code

namespace Lowering

lemma valueOf_ok {code : Lower Fragment} {x : Exp} {st st' : State} :
    (valueOf code).run st = .ok (x, st') ↔ ∃ r, code.run st = .ok (r, st') ∧ r.toExp = x := by
  simp only [valueOf, run_bind_ok, run_pure_ok]
  constructor
  · rintro ⟨r, st₁, h, rfl, rfl⟩
    exact ⟨r, h, rfl⟩
  · rintro ⟨r, h, rfl⟩
    exact ⟨r, st', h, rfl, rfl⟩

lemma effectOf_ok {code : Lower Fragment} {s : Stm} {st st' : State} :
    (effectOf code).run st = .ok (s, st') ↔ ∃ r, code.run st = .ok (r, st') ∧ r.toStm = s := by
  simp only [effectOf, run_bind_ok, run_pure_ok]
  constructor
  · rintro ⟨r, st₁, h, rfl, rfl⟩
    exact ⟨r, h, rfl⟩
  · rintro ⟨r, h, rfl⟩
    exact ⟨r, st', h, rfl, rfl⟩

lemma typeOf_ok {scope : Scope} {n : Node} {type : Ty} {st st' : State} :
    (typeOf scope n).run st = .ok (type, st') ↔ scope.tables.types[n.id]? = some type ∧ st' = st :=
  require_ok

lemma guard_ok {α : Type} {c : Bool} {span : Span} {cause : Cause} {k : Lower α} {st : State}
    {r : α × State} :
    (if (!c) = true then (do (fail span cause : Lower Unit); k) else k).run st = .ok r ↔
      c = true ∧ k.run st = .ok r := by
  cases c with
  | false =>
    simp only [Bool.not_false, if_true, run_bind_ok, fail_ok]
    simp
  | true => simp

def State.skip (st : State) (k : Nat) : State := { st with labels := ⟨st.labels.used + k⟩ }

variable {scope : Scope} {level : Nat} {st st' : State} {out : Fragment} {n : Node}

lemma expr_unary_ok {op : UnaryOp} {e : Expr} :
    (expr scope level (.unary n op e)).run st = .ok (out, st') ↔
      ∃ r, (expr scope level e).run st = .ok (r, st') ∧ out = .value (unary op r.toExp) := by
  simp only [expr, run_bind_ok, valueOf_ok, run_pure_ok]
  constructor
  · rintro ⟨x, st₁, ⟨r, h, rfl⟩, rfl, rfl⟩
    exact ⟨r, h, rfl⟩
  · rintro ⟨r, h, rfl⟩
    exact ⟨_, _, ⟨r, h, rfl⟩, rfl, rfl⟩

lemma expr_compute_ok {op : Op} {l r : Expr} :
    (expr scope level (.binary n (.compute op) l r)).run st = .ok (out, st') ↔
      ∃ x st₁ y, (expr scope level l).run st = .ok (x, st₁) ∧
        (expr scope level r).run st₁ = .ok (y, st') ∧ out = .value (.binop op x.toExp y.toExp) := by
  simp only [expr, run_bind_ok, valueOf_ok, run_pure_ok]
  constructor
  · rintro ⟨_, st₁, ⟨x, hx, rfl⟩, _, _, ⟨y, hy, rfl⟩, rfl, rfl⟩
    exact ⟨x, st₁, y, hx, hy, rfl⟩
  · rintro ⟨x, st₁, y, hx, hy, rfl⟩
    exact ⟨_, _, ⟨x, hx, rfl⟩, _, _, ⟨y, hy, rfl⟩, rfl, rfl⟩

lemma expr_assign_ok {l r : Expr} :
    (expr scope level (.binary n .assign l r)).run st = .ok (out, st') ↔
      ∃ type, scope.tables.types[l.node.id]? = some type ∧
        if type.isArray = true then
          isStorage l = true ∧ ∃ x st₁ y,
            (expr scope level l).run { st with nextTemp := st.nextTemp.next.next } = .ok (x, st₁) ∧
            (expr scope level r).run st₁ = .ok (y, st') ∧
            out = .effect (.seq (.move (.temp st.nextTemp) x.toExp ::
              .move (.temp st.nextTemp.next) y.toExp ::
                copyWords st.nextTemp st.nextTemp.next type.size))
        else
          ∃ x st₁ y, (expr scope level l).run st = .ok (x, st₁) ∧ x.toExp.isAssignable = true ∧
            (expr scope level r).run st₁ = .ok (y, st') ∧ out = .effect (.move x.toExp y.toExp) := by
  simp only [expr, run_bind_ok, typeOf_ok]
  constructor
  · rintro ⟨type, _, ⟨ht, rfl⟩, h⟩
    refine ⟨type, ht, ?_⟩
    split at h
    · rw [if_pos ‹_›]
      simp only [guard_ok, run_bind_ok, freshTemp_ok, valueOf_ok, run_pure_ok] at h
      obtain ⟨hs, _, _, ⟨rfl, rfl⟩, _, _, ⟨rfl, rfl⟩, _, st₁, ⟨x, hx, rfl⟩, _, _, ⟨y, hy, rfl⟩, rfl,
        rfl⟩ := h
      exact ⟨hs, x, st₁, y, hx, hy, rfl⟩
    · rw [if_neg ‹_›]
      simp only [run_bind_ok, guard_ok, valueOf_ok, run_pure_ok] at h
      obtain ⟨_, st₁, ⟨x, hx, rfl⟩, ha, _, _, ⟨y, hy, rfl⟩, rfl, rfl⟩ := h
      exact ⟨x, st₁, y, hx, ha, hy, rfl⟩
  · rintro ⟨type, ht, h⟩
    refine ⟨type, st, ⟨ht, rfl⟩, ?_⟩
    split at h
    · rw [if_pos ‹_›]
      obtain ⟨hs, x, st₁, y, hx, hy, rfl⟩ := h
      simp only [guard_ok, run_bind_ok, freshTemp_ok, valueOf_ok, run_pure_ok]
      exact ⟨hs, _, _, ⟨rfl, rfl⟩, _, _, ⟨rfl, rfl⟩, _, st₁, ⟨x, hx, rfl⟩, _, _, ⟨y, hy, rfl⟩, rfl,
        rfl⟩
    · rw [if_neg ‹_›]
      obtain ⟨x, st₁, y, hx, ha, hy, rfl⟩ := h
      simp only [run_bind_ok, guard_ok, valueOf_ok, run_pure_ok]
      exact ⟨_, st₁, ⟨x, hx, rfl⟩, ha, _, _, ⟨y, hy, rfl⟩, rfl, rfl⟩

lemma expr_index_ok {array index : Expr} :
    (expr scope level (.binary n .index array index)).run st = .ok (out, st') ↔
      ∃ size type, scope.tables.types[array.node.id]? = some (.array size type) ∧
        badIndex size index = none ∧ ∃ x st₁ y, (expr scope level array).run st = .ok (x, st₁) ∧
          (expr scope level index).run st₁ = .ok (y, st') ∧
          out = .value (element x.toExp y.toExp type) := by
  simp only [expr, run_bind_ok, typeOf_ok]
  constructor
  · rintro ⟨type, _, ⟨ht, rfl⟩, h⟩
    split at h
    · rename_i size type
      refine ⟨size, type, ht, ?_⟩
      split at h
      · simp only [run_bind_ok, fail_ok, false_and, exists_false] at h
      · rename_i hb
        simp only [run_bind_ok, valueOf_ok, run_pure_ok] at h
        obtain ⟨_, st₁, ⟨x, hx, rfl⟩, _, _, ⟨y, hy, rfl⟩, rfl, rfl⟩ := h
        exact ⟨Option.eq_none_iff_forall_ne_some.mpr hb, x, st₁, y, hx, hy, rfl⟩
    · exact (fail_ok.mp h).elim
  · rintro ⟨size, type, ht, hb, x, st₁, y, hx, hy, rfl⟩
    refine ⟨_, st, ⟨ht, rfl⟩, ?_⟩
    simp only [hb, run_bind_ok, valueOf_ok, run_pure_ok]
    exact ⟨_, st₁, ⟨x, hx, rfl⟩, _, _, ⟨y, hy, rfl⟩, rfl, rfl⟩

lemma expr_call_ok {f : String} {args : List Expr} :
    (expr scope level (.call n f args)).run st = .ok (out, st') ↔
      ∃ c st₁ xs, (callee scope level n f).run st = .ok (c, st₁) ∧
        (arguments scope level args).run st₁ = .ok (xs, st') ∧ out = .value (c.call xs) := by
  simp only [expr, run_bind_ok, run_pure_ok]
  constructor
  · rintro ⟨c, st₁, hc, xs, _, hx, rfl, rfl⟩
    exact ⟨c, st₁, xs, hc, hx, rfl⟩
  · rintro ⟨c, st₁, xs, hc, hx, rfl⟩
    exact ⟨c, st₁, hc, xs, _, hx, rfl, rfl⟩

lemma expr_block_ok {es : List Expr} :
    (expr scope level (.block n es)).run st = .ok (out, st') ↔
      ∃ init last, (body scope level es).run st = .ok ((init, last), st') ∧
        out = block init last := by
  simp only [expr, run_bind_ok, run_pure_ok, Prod.exists]
  constructor
  · rintro ⟨init, last, _, h, rfl, rfl⟩
    exact ⟨init, last, h, rfl⟩
  · rintro ⟨init, last, h, rfl⟩
    exact ⟨init, last, _, h, rfl, rfl⟩

lemma expr_whereDefs_ok {e : Expr} {d : Node} {ds : List Def} :
    (expr scope level (.whereDefs n e d ds)).run st = .ok (out, st') ↔
      ∃ st₁, (defs scope ds).run st = .ok ((), st₁) ∧
        (expr scope level e).run st₁ = .ok (out, st') := by
  simp only [expr, run_bind_ok]
  constructor
  · rintro ⟨_, st₁, hd, he⟩
    exact ⟨st₁, hd, he⟩
  · rintro ⟨st₁, hd, he⟩
    exact ⟨(), st₁, hd, he⟩

lemma expr_ifThen_ok {c p : Expr} :
    (expr scope level (.ifThen n c p)).run st = .ok (out, st') ↔
      ∃ x st₁ y, (expr scope level c).run st = .ok (x, st₁) ∧
        (expr scope level p).run (st₁.skip 2) = .ok (y, st') ∧
        out = .effect (ifThen (.anonymous st₁.labels.used) (.anonymous (st₁.labels.used + 1))
          x.toExp y.toStm) := by
  simp only [expr, run_bind_ok, valueOf_ok, effectOf_ok, freshLabel_ok, run_pure_ok]
  constructor
  · rintro ⟨_, st₁, ⟨x, hx, rfl⟩, _, _, ⟨rfl, rfl⟩, _, _, ⟨rfl, rfl⟩, _, _, ⟨y, hy, rfl⟩, rfl, rfl⟩
    exact ⟨x, st₁, y, hx, hy, rfl⟩
  · rintro ⟨x, st₁, y, hx, hy, rfl⟩
    exact ⟨_, st₁, ⟨x, hx, rfl⟩, _, _, ⟨rfl, rfl⟩, _, _, ⟨rfl, rfl⟩, _, _, ⟨y, hy, rfl⟩, rfl, rfl⟩

lemma expr_ifElse_ok {c p q : Expr} :
    (expr scope level (.ifElse n c p q)).run st = .ok (out, st') ↔
      ∃ x st₁ y st₂ z, (expr scope level c).run st = .ok (x, st₁) ∧
        (expr scope level p).run (st₁.skip 3) = .ok (y, st₂) ∧
        (expr scope level q).run st₂ = .ok (z, st') ∧
        out = .effect (ifElse (.anonymous st₁.labels.used) (.anonymous (st₁.labels.used + 1))
          (.anonymous (st₁.labels.used + 2)) x.toExp y.toStm z.toStm) := by
  simp only [expr, run_bind_ok, valueOf_ok, effectOf_ok, freshLabel_ok, run_pure_ok]
  constructor
  · rintro ⟨_, st₁, ⟨x, hx, rfl⟩, _, _, ⟨rfl, rfl⟩, _, _, ⟨rfl, rfl⟩, _, _, ⟨rfl, rfl⟩, _, st₂,
      ⟨y, hy, rfl⟩, _, _, ⟨z, hz, rfl⟩, rfl, rfl⟩
    exact ⟨x, st₁, y, st₂, z, hx, hy, hz, rfl⟩
  · rintro ⟨x, st₁, y, st₂, z, hx, hy, hz, rfl⟩
    exact ⟨_, st₁, ⟨x, hx, rfl⟩, _, _, ⟨rfl, rfl⟩, _, _, ⟨rfl, rfl⟩, _, _, ⟨rfl, rfl⟩, _, st₂,
      ⟨y, hy, rfl⟩, _, _, ⟨z, hz, rfl⟩, rfl, rfl⟩

lemma expr_whileLoop_ok {c b : Expr} :
    (expr scope level (.whileLoop n c b)).run st = .ok (out, st') ↔
      ∃ x st₁ y, (expr scope level c).run (st.skip 3) = .ok (x, st₁) ∧
        (expr scope level b).run st₁ = .ok (y, st') ∧
        out = .effect (whileLoop (.anonymous st.labels.used) (.anonymous (st.labels.used + 1))
          (.anonymous (st.labels.used + 2)) x.toExp y.toStm) := by
  simp only [expr, run_bind_ok, valueOf_ok, effectOf_ok, freshLabel_ok, run_pure_ok]
  constructor
  · rintro ⟨_, _, ⟨rfl, rfl⟩, _, _, ⟨rfl, rfl⟩, _, _, ⟨rfl, rfl⟩, _, st₁, ⟨x, hx, rfl⟩, _, _,
      ⟨y, hy, rfl⟩, rfl, rfl⟩
    exact ⟨x, st₁, y, hx, hy, rfl⟩
  · rintro ⟨x, st₁, y, hx, hy, rfl⟩
    exact ⟨_, _, ⟨rfl, rfl⟩, _, _, ⟨rfl, rfl⟩, _, _, ⟨rfl, rfl⟩, _, st₁, ⟨x, hx, rfl⟩, _, _,
      ⟨y, hy, rfl⟩, rfl, rfl⟩

lemma expr_forLoop_ok {c low high step b : Expr} :
    (expr scope level (.forLoop n c low high step b)).run st = .ok (out, st') ↔
      ∃ x st₁ y st₂ z st₃ v st₄ w, (expr scope level c).run (st.skip 3) = .ok (x, st₁) ∧
        x.toExp.isAssignable = true ∧ (expr scope level low).run st₁ = .ok (y, st₂) ∧
        (expr scope level high).run st₂ = .ok (z, st₃) ∧
        (expr scope level step).run st₃ = .ok (v, st₄) ∧
        (expr scope level b).run st₄ = .ok (w, st') ∧
        out = .effect (forLoop (.anonymous st.labels.used) (.anonymous (st.labels.used + 1))
          (.anonymous (st.labels.used + 2)) x.toExp y.toExp z.toExp v.toExp w.toStm) := by
  simp only [expr, run_bind_ok, valueOf_ok, effectOf_ok, freshLabel_ok, guard_ok, run_pure_ok]
  constructor
  · rintro ⟨_, _, ⟨rfl, rfl⟩, _, _, ⟨rfl, rfl⟩, _, _, ⟨rfl, rfl⟩, _, st₁, ⟨x, hx, rfl⟩, ha, _, st₂,
      ⟨y, hy, rfl⟩, _, st₃, ⟨z, hz, rfl⟩, _, st₄, ⟨v, hv, rfl⟩, _, _, ⟨w, hw, rfl⟩, rfl, rfl⟩
    exact ⟨x, st₁, y, st₂, z, st₃, v, st₄, w, hx, ha, hy, hz, hv, hw, rfl⟩
  · rintro ⟨x, st₁, y, st₂, z, st₃, v, st₄, w, hx, ha, hy, hz, hv, hw, rfl⟩
    exact ⟨_, _, ⟨rfl, rfl⟩, _, _, ⟨rfl, rfl⟩, _, _, ⟨rfl, rfl⟩, _, st₁, ⟨x, hx, rfl⟩, ha, _, st₂,
      ⟨y, hy, rfl⟩, _, st₃, ⟨z, hz, rfl⟩, _, st₄, ⟨v, hv, rfl⟩, _, _, ⟨w, hw, rfl⟩, rfl, rfl⟩

lemma expr_string_ok {text : String} :
    (expr scope level (.literal n (.string text))).run st = .ok (out, st') ↔
      out = .value (.name (.anonymous st.labels.used)) ∧
        st' = { st.skip 1 with
          chunks := st.chunks.push
            (.data (.global (text.utf8ByteSize + 1) (.anonymous st.labels.used)) text) } := by
  simp only [expr, literal, run_bind_ok, freshLabel_ok, emit_ok, run_pure_ok]
  constructor
  · rintro ⟨_, _, ⟨_, _, ⟨rfl, rfl⟩, _, _, rfl, rfl, rfl⟩, rfl, rfl⟩
    exact ⟨rfl, rfl⟩
  · rintro ⟨rfl, rfl⟩
    exact ⟨_, _, ⟨_, _, ⟨rfl, rfl⟩, (), _, rfl, rfl, rfl⟩, rfl, rfl⟩

def inReach (level : Nat) : Access → Bool
  | .global _ _ => true
  | .stack _ _ target | .param _ _ target => target ≤ level

def addressOf (level : Nat) : Access → Exp
  | .global _ label => .name label
  | .stack _ offset target | .param _ offset target =>
    (Exp.staticLink (level - target)).offset offset

lemma isPure_staticLink (k : Nat) : (Exp.staticLink k).isPure = true := by
  induction k with
  | zero => rfl
  | succ k ih => exact ih

lemma isPure_offset {x : Exp} (h : x.isPure = true) (n : Int) : (x.offset n).isPure = true := by
  unfold Exp.offset
  split
  · exact h
  · simp [Exp.isPure, h]

lemma isPure_addressOf (level : Nat) (access : Access) : (addressOf level access).isPure = true := by
  cases access with
  | global size label => rfl
  | stack size offset target => exact isPure_offset (isPure_staticLink _) _
  | param size offset target => exact isPure_offset (isPure_staticLink _) _

lemma isPure_variableValue (type : Ty) {x : Exp} (h : x.isPure = true) (access : Access) :
    (variableValue type x access).isPure = true := by
  cases access with
  | param size offset target => exact h
  | global size label =>
    simp only [variableValue]
    split
    · exact h
    · exact h
  | stack size offset target =>
    simp only [variableValue]
    split
    · exact h
    · exact h

lemma variableValue_of_not_isArray {type : Ty} (h : type.isArray = false) (x : Exp)
    (access : Access) : variableValue type x access = .mem x := by
  cases access <;> simp [variableValue, h]

lemma enclosing_ok {target : Nat} {f : String} {span : Span} {x : Exp} :
    (enclosing level target f span).run st = .ok (x, st') ↔
      target ≤ level ∧ x = .staticLink (level - target) ∧ st' = st := by
  unfold enclosing
  split
  · rename_i h
    simp only [run_pure_ok, h, true_and]
    tauto
  · rename_i h
    simp only [fail_ok, h, false_and]

lemma address_ok {f : String} {span : Span} {a : Access} {x : Exp} :
    (address level f span a).run st = .ok (x, st') ↔
      inReach level a = true ∧ x = addressOf level a ∧ st' = st := by
  cases a with
  | global size label =>
    simp only [address, run_pure_ok, inReach, addressOf, true_and]
    tauto
  | stack size offset target =>
    simp only [address, run_bind_ok, enclosing_ok, run_pure_ok, inReach, addressOf,
      decide_eq_true_eq]
    constructor
    · rintro ⟨_, _, ⟨h, rfl, rfl⟩, rfl, rfl⟩
      exact ⟨h, rfl, rfl⟩
    · rintro ⟨h, rfl, rfl⟩
      exact ⟨_, _, ⟨h, rfl, rfl⟩, rfl, rfl⟩
  | param size offset target =>
    simp only [address, run_bind_ok, enclosing_ok, run_pure_ok, inReach, addressOf,
      decide_eq_true_eq]
    constructor
    · rintro ⟨_, _, ⟨h, rfl, rfl⟩, rfl, rfl⟩
      exact ⟨h, rfl, rfl⟩
    · rintro ⟨h, rfl, rfl⟩
      exact ⟨_, _, ⟨h, rfl, rfl⟩, rfl, rfl⟩

lemma expr_name_ok {x : String} :
    (expr scope level (.name n x)).run st = .ok (out, st') ↔
      ∃ target access type, scope.tables.bindings[n.id]? = some target ∧
        scope.accesses[target]? = some access ∧ inReach level access = true ∧
        scope.tables.types[n.id]? = some type ∧
        out = .value (variableValue type (addressOf level access) access) ∧ st' = st := by
  simp only [expr, variableName, run_bind_ok, require_ok, address_ok, typeOf_ok, run_pure_ok]
  constructor
  · rintro ⟨_, _, ⟨target, _, ⟨hb, rfl⟩, access, _, ⟨ha, rfl⟩, _, _, ⟨hr, rfl, rfl⟩, type, _,
      ⟨ht, rfl⟩, rfl, rfl⟩, rfl, rfl⟩
    exact ⟨target, access, type, hb, ha, hr, ht, rfl, rfl⟩
  · rintro ⟨target, access, type, hb, ha, hr, ht, rfl, rfl⟩
    exact ⟨_, _, ⟨target, _, ⟨hb, rfl⟩, access, _, ⟨ha, rfl⟩, _, _, ⟨hr, rfl, rfl⟩, type, _,
      ⟨ht, rfl⟩, rfl, rfl⟩, rfl, rfl⟩

def linkOf (level : Nat) (f : Frame) : Exp :=
  if f.level = 1 then .const 0 else .staticLink (level - (f.level - 1))

lemma callee_bound_ok {f : String} {target : NodeId} {c : Callee}
    (h : scope.tables.bindings[n.id]? = some target) :
    (callee scope level n f).run st = .ok (c, st') ↔
      ∃ frame, scope.frames[target]? = some frame ∧ (frame.level ≠ 1 → frame.level - 1 ≤ level) ∧
        c = ⟨frame.label, linkOf level frame, some frame.oldFp⟩ ∧ st' = st := by
  simp only [callee, h, run_bind_ok, require_ok]
  constructor
  · rintro ⟨frame, _, ⟨hf, rfl⟩, hr⟩
    refine ⟨frame, hf, ?_⟩
    unfold linkOf
    split at hr
    · rename_i h1
      simp only [run_bind_ok, run_pure_ok] at hr
      obtain ⟨_, _, ⟨rfl, rfl⟩, rfl, rfl⟩ := hr
      simp [h1]
    · rename_i h1
      simp only [run_bind_ok, enclosing_ok, run_pure_ok] at hr
      obtain ⟨_, _, ⟨hle, rfl, rfl⟩, rfl, rfl⟩ := hr
      simp [h1, hle]
  · rintro ⟨frame, hf, hle, rfl, rfl⟩
    refine ⟨frame, _, ⟨hf, rfl⟩, ?_⟩
    unfold linkOf
    split
    · simp only [run_bind_ok, run_pure_ok]
      exact ⟨_, _, ⟨rfl, rfl⟩, rfl, rfl⟩
    · rename_i h1
      simp only [run_bind_ok, enclosing_ok, run_pure_ok]
      exact ⟨_, _, ⟨hle h1, rfl, rfl⟩, rfl, rfl⟩

lemma callee_free_ok {f : String} {c : Callee} (h : scope.tables.bindings[n.id]? = none) :
    (callee scope level n f).run st = .ok (c, st') ↔
      ∃ i, Intrinsic.ofName? f = some i ∧ c = ⟨i.label, .const 0, none⟩ ∧ st' = st := by
  simp only [callee, h, run_bind_ok, require_ok, run_pure_ok]
  constructor
  · rintro ⟨i, _, ⟨hi, rfl⟩, rfl, rfl⟩
    exact ⟨i, hi, rfl, rfl⟩
  · rintro ⟨i, hi, rfl, rfl⟩
    exact ⟨i, _, ⟨hi, rfl⟩, rfl, rfl⟩

lemma callee_state {f : String} {c : Callee}
    (h : (callee scope level n f).run st = .ok (c, st')) : st' = st := by
  cases hb : scope.tables.bindings[n.id]? with
  | some target =>
    obtain ⟨_, -, -, -, rfl⟩ := (callee_bound_ok hb).mp h
    rfl
  | none =>
    obtain ⟨_, -, -, rfl⟩ := (callee_free_ok hb).mp h
    rfl

lemma arguments_cons_ok {e : Expr} {es : List Expr} {xs : List (Temp × Exp)} :
    (arguments scope level (e :: es)).run st = .ok (xs, st') ↔
      ∃ x st₁ ys, (expr scope level e).run st = .ok (x, st₁) ∧
        (arguments scope level es).run { st₁ with nextTemp := st₁.nextTemp.next } = .ok (ys, st') ∧
        xs = (st₁.nextTemp, x.toExp) :: ys := by
  simp only [arguments, run_bind_ok, valueOf_ok, freshTemp_ok, run_pure_ok]
  constructor
  · rintro ⟨_, st₁, ⟨x, hx, rfl⟩, _, _, ⟨rfl, rfl⟩, ys, _, hy, rfl, rfl⟩
    exact ⟨x, st₁, ys, hx, hy, rfl⟩
  · rintro ⟨x, st₁, ys, hx, hy, rfl⟩
    exact ⟨_, st₁, ⟨x, hx, rfl⟩, _, _, ⟨rfl, rfl⟩, ys, _, hy, rfl, rfl⟩

variable {init : List Stm} {last : Option Fragment}

lemma body_singleton_ok {e : Expr} :
    (body scope level [e]).run st = .ok ((init, last), st') ↔
      ∃ r, (expr scope level e).run st = .ok (r, st') ∧ init = [] ∧ last = some r := by
  simp only [body, run_bind_ok, run_pure_ok, Prod.mk.injEq]
  constructor
  · rintro ⟨r, _, hr, ⟨rfl, rfl⟩, rfl⟩
    exact ⟨r, hr, rfl, rfl⟩
  · rintro ⟨r, hr, rfl, rfl⟩
    exact ⟨r, _, hr, ⟨rfl, rfl⟩, rfl⟩

lemma body_cons_ok {e e' : Expr} {es : List Expr} :
    (body scope level (e :: e' :: es)).run st = .ok ((init, last), st') ↔
      ∃ r st₁ rest, (expr scope level e).run st = .ok (r, st₁) ∧
        (body scope level (e' :: es)).run st₁ = .ok ((rest, last), st') ∧
        init = r.toStm :: rest := by
  simp only [body, run_bind_ok, effectOf_ok, run_pure_ok, Prod.exists, Prod.mk.injEq]
  constructor
  · rintro ⟨_, st₁, ⟨r, hr, rfl⟩, rest, _, _, hb, ⟨rfl, rfl⟩, rfl⟩
    exact ⟨r, st₁, rest, hr, hb, rfl⟩
  · rintro ⟨r, st₁, rest, hr, hb, rfl⟩
    exact ⟨_, st₁, ⟨r, hr, rfl⟩, rest, last, _, hb, ⟨rfl, rfl⟩, rfl⟩

lemma body_last {e : Expr} {es : List Expr}
    (h : (body scope level (e :: es)).run st = .ok ((init, last), st')) : ∃ r, last = some r := by
  induction es generalizing e st init with
  | nil =>
    obtain ⟨r, -, -, rfl⟩ := body_singleton_ok.mp h
    exact ⟨r, rfl⟩
  | cons e' es ih =>
    obtain ⟨_, _, _, -, h, -⟩ := body_cons_ok.mp h
    exact ih h

lemma defs_cons_ok {d : Def} {ds : List Def} {u : Unit} :
    (defs scope (d :: ds)).run st = .ok (u, st') ↔
      ∃ st₁, (defn scope d).run st = .ok ((), st₁) ∧ (defs scope ds).run st₁ = .ok (u, st') := by
  simp only [defs, run_bind_ok]
  constructor
  · rintro ⟨_, st₁, hd, hds⟩
    exact ⟨st₁, hd, hds⟩
  · rintro ⟨st₁, hd, hds⟩
    exact ⟨(), st₁, hd, hds⟩

lemma defs_append_ok {ds ds' : List Def} {u : Unit} :
    (defs scope (ds ++ ds')).run st = .ok (u, st') ↔
      ∃ st₁, (defs scope ds).run st = .ok ((), st₁) ∧ (defs scope ds').run st₁ = .ok (u, st') := by
  induction ds generalizing st with
  | nil => simp [defs_nil_ok]
  | cons d ds ih =>
    simp only [List.cons_append, defs_cons_ok, ih]
    constructor
    · rintro ⟨st₁, hd, st₂, hds, hds'⟩
      exact ⟨st₂, ⟨st₁, hd, hds⟩, hds'⟩
    · rintro ⟨st₂, ⟨st₁, hd, hds⟩, hds'⟩
      exact ⟨st₁, hd, st₂, hds, hds'⟩

lemma defn_var_ok {x : String} {t : TypeExpr} {u : Unit} :
    (defn scope (.var n x t)).run st = .ok (u, st') ↔
      ∃ access, scope.accesses[n.id]? = some access ∧
        st' = (match access with
          | .global size label => { st with chunks := st.chunks.push (.global (.global size label)) }
          | .stack _ _ _ | .param _ _ _ => st) := by
  simp only [defn, run_bind_ok, require_ok]
  constructor
  · rintro ⟨access, _, ⟨ha, rfl⟩, h⟩
    refine ⟨access, ha, ?_⟩
    cases access with
    | global size label => exact emit_ok.mp h
    | stack size offset target => exact (run_pure_ok.mp h).2.symm
    | param size offset target => exact (run_pure_ok.mp h).2.symm
  · rintro ⟨access, ha, rfl⟩
    refine ⟨access, st, ⟨ha, rfl⟩, ?_⟩
    cases access with
    | global size label => exact emit_ok.mpr rfl
    | stack size offset target => exact run_pure_ok.mpr ⟨rfl, rfl⟩
    | param size offset target => exact run_pure_ok.mpr ⟨rfl, rfl⟩

lemma defn_func_ok {f : String} {ps : List Param} {t : TypeExpr} {b : Expr} {u : Unit} :
    (defn scope (.func n f ps t b)).run st = .ok (u, st') ↔
      ∃ frame r st₁, scope.frames[n.id]? = some frame ∧
        (expr scope frame.level b).run st = .ok (r, st₁) ∧
        st' = { st₁ with
          nextTemp := ((returning r.toExp).linearize st₁.nextTemp).2
          chunks := st₁.chunks.push (.code frame ((returning r.toExp).linearize st₁.nextTemp).1) } := by
  simp only [defn, run_bind_ok, require_ok, valueOf_ok, linearize_ok, emit_ok]
  constructor
  · rintro ⟨frame, _, ⟨hf, rfl⟩, _, st₁, ⟨r, hr, rfl⟩, _, _, ⟨rfl, rfl⟩, rfl⟩
    exact ⟨frame, r, st₁, hf, hr, rfl⟩
  · rintro ⟨frame, r, st₁, hf, hr, rfl⟩
    exact ⟨frame, _, ⟨hf, rfl⟩, _, st₁, ⟨r, hr, rfl⟩, _, _, ⟨rfl, rfl⟩, rfl⟩

end Lowering

end BlockLang
