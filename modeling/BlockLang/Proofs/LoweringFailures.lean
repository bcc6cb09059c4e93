import BlockLang.Proofs.Compilation

/-! Why the lowering can fail. The walk over a program is made once: what the reasons are is decided
where a table is looked up. -/

namespace BlockLang

open Source Code Lowering

namespace Lowering

def FailsOnly (P : Error → Prop) {α : Type} (x : Lower α) : Prop :=
  ∀ st e, x.run st = .error e → P e

namespace FailsOnly

variable {P : Error → Prop} {α β : Type}

lemma pure (a : α) : FailsOnly P (Pure.pure a) := by
  intro st e h
  cases h

lemma bind {x : Lower α} {k : α → Lower β} (hx : FailsOnly P x) (hk : ∀ a, FailsOnly P (k a)) :
    FailsOnly P (x >>= k) := by
  intro st e h
  rw [StateT.run_bind] at h
  cases hr : x.run st with
  | error e' =>
    rw [hr] at h
    cases h
    exact hx st _ hr
  | ok r =>
    rw [hr] at h
    exact hk r.1 r.2 e h

lemma fail {span : Span} {cause : Cause} (h : P ⟨cause, span⟩) :
    FailsOnly P (Lowering.fail span cause : Lower α) := by
  intro st e he
  cases he
  exact h

lemma require_bind {span : Span} {cause : Cause} {o : Option α} {k : α → Lower β}
    (h : o = none → P ⟨cause, span⟩) (hk : ∀ a, o = some a → FailsOnly P (k a)) :
    FailsOnly P (Lowering.require span cause o >>= k) := by
  cases o with
  | none =>
    intro st e he
    cases he
    exact h rfl
  | some a =>
    rw [Lowering.require, pure_bind]
    exact hk a rfl

lemma of_ok {x : Lower α} (h : ∀ st, ∃ r, x.run st = .ok r) : FailsOnly P x := by
  intro st e he
  obtain ⟨r, hr⟩ := h st
  cases hr.symm.trans he

lemma freshLabel : FailsOnly P Lowering.freshLabel := by
  intro st e h
  cases h

lemma freshTemp : FailsOnly P Lowering.freshTemp := by
  intro st e h
  cases h

lemma emit (c : Chunk) : FailsOnly P (Lowering.emit c) := by
  intro st e h
  cases h

lemma linearize (s : Stm) : FailsOnly P (Lowering.linearize s) := by
  intro st e h
  cases h

lemma valueOf {x : Lower Fragment} (h : FailsOnly P x) : FailsOnly P (Lowering.valueOf x) :=
  h.bind fun _ => .pure _

lemma effectOf {x : Lower Fragment} (h : FailsOnly P x) : FailsOnly P (Lowering.effectOf x) :=
  h.bind fun _ => .pure _

lemma guard {c : Bool} {span : Span} {cause : Cause} {k : Lower α} (h : P ⟨cause, span⟩)
    (hk : FailsOnly P k) :
    FailsOnly P (if (!c) = true then (do (Lowering.fail span cause : Lower Unit); k) else k) := by
  split
  · exact (FailsOnly.fail h).bind fun _ => hk
  · exact hk

end FailsOnly

structure Covers (P : Error → Prop) (scope : Scope) (A : List NodeId → Nat → Prop)
    (os : List Occurrence) : Prop where
  notAssignable : ∀ span, P ⟨.notAssignable, span⟩
  outOfBounds : ∀ i size span, P ⟨.indexOutOfBounds i size, span⟩
  notAnArray : ∀ span, P ⟨.notAnArray, span⟩
  type : ∀ outer e, ⟨outer, .expr e⟩ ∈ os → FailsOnly P (typeOf scope e.node)
  name : ∀ outer n x, ⟨outer, .expr (.name n x)⟩ ∈ os → ∀ level, A outer level →
    FailsOnly P (expr scope level (.name n x))
  callee : ∀ outer n x args, ⟨outer, .expr (.call n x args)⟩ ∈ os → ∀ level, A outer level →
    FailsOnly P (callee scope level n x)
  access : ∀ outer n x t, ⟨outer, .defn (.var n x t)⟩ ∈ os → FailsOnly P (defn scope (.var n x t))
  frame : ∀ outer n x ps t b, ⟨outer, .defn (.func n x ps t b)⟩ ∈ os →
    scope.frames[n.id]? = none → P ⟨.missingFrame x, n.span⟩
  level : ∀ outer n x ps t b, ⟨outer, .defn (.func n x ps t b)⟩ ∈ os →
    ∀ frame, scope.frames[n.id]? = some frame → A (n.id :: outer) frame.level

section Walk

variable {P : Error → Prop} {scope : Scope} {A : List NodeId → Nat → Prop} {os : List Occurrence}

lemma literal_failsOnly (v : Literal) : FailsOnly P (literal v) := by
  cases v with
  | integer w => exact .pure _
  | logical b => exact .pure _
  | string text => exact FailsOnly.freshLabel.bind fun _ => (FailsOnly.emit _).bind fun _ => .pure _

mutual

lemma expr_failsOnly (h : Covers P scope A os) (e : Expr) {outer : List NodeId}
    (ho : ∀ o ∈ e.occurrences outer, o ∈ os) {level : Nat} (hA : A outer level) :
    FailsOnly P (expr scope level e) := by
  cases e with
  | literal n v => exact (literal_failsOnly v).bind fun _ => .pure _
  | name n x => exact h.name outer n x (ho _ (List.mem_singleton_self _)) level hA
  | unary n op x =>
    simp only [Expr.occurrences, List.forall_mem_append] at ho
    exact (expr_failsOnly h x ho.1 hA).valueOf.bind fun _ => .pure _
  | binary n op x y =>
    simp only [Expr.occurrences, List.forall_mem_append] at ho
    have hx := (expr_failsOnly h x ho.1.1 hA).valueOf
    have hy := (expr_failsOnly h y ho.1.2 hA).valueOf
    have htype := h.type outer x (ho.1.1 _ (x.mem_occurrences_self outer))
    cases op with
    | compute op => exact hx.bind fun _ => hy.bind fun _ => .pure _
    | index =>
      refine htype.bind fun type => ?_
      cases type with
      | array size type =>
        have hrest := hx.bind fun base => hy.bind fun i =>
          FailsOnly.pure (Fragment.value (element base i type))
        cases hi : badIndex size y with
        | none => simpa only [hi] using hrest
        | some i =>
          simp only [hi]
          exact (FailsOnly.fail (h.outOfBounds ..)).bind fun _ => hrest
      | _ => exact .fail (h.notAnArray _)
    | assign =>
      refine htype.bind fun type => ?_
      split
      · refine .guard (h.notAssignable _) ?_
        exact FailsOnly.freshTemp.bind fun _ => FailsOnly.freshTemp.bind fun _ =>
          hx.bind fun _ => hy.bind fun _ => .pure _
      · exact hx.bind fun _ => .guard (h.notAssignable _) (hy.bind fun _ => .pure _)
  | call n x args =>
    simp only [Expr.occurrences, List.forall_mem_append] at ho
    refine (h.callee outer n x args (ho.2 _ (List.mem_singleton_self _)) level hA).bind fun _ => ?_
    exact (arguments_failsOnly h args ho.1 hA).bind fun _ => .pure _
  | block n es =>
    simp only [Expr.occurrences, List.forall_mem_append] at ho
    exact (body_failsOnly h es ho.1 hA).bind fun _ => .pure _
  | ifThen n c a =>
    simp only [Expr.occurrences, List.forall_mem_append] at ho
    refine (expr_failsOnly h c ho.1.1 hA).valueOf.bind fun _ => ?_
    exact FailsOnly.freshLabel.bind fun _ => FailsOnly.freshLabel.bind fun _ =>
      (expr_failsOnly h a ho.1.2 hA).effectOf.bind fun _ => .pure _
  | ifElse n c a b =>
    simp only [Expr.occurrences, List.forall_mem_append] at ho
    refine (expr_failsOnly h c ho.1.1 hA).valueOf.bind fun _ => ?_
    exact FailsOnly.freshLabel.bind fun _ => FailsOnly.freshLabel.bind fun _ =>
      FailsOnly.freshLabel.bind fun _ =>
        (expr_failsOnly h a ho.1.2.1 hA).effectOf.bind fun _ =>
          (expr_failsOnly h b ho.1.2.2 hA).effectOf.bind fun _ => .pure _
  | whileLoop n c b =>
    simp only [Expr.occurrences, List.forall_mem_append] at ho
    exact FailsOnly.freshLabel.bind fun _ => FailsOnly.freshLabel.bind fun _ =>
      FailsOnly.freshLabel.bind fun _ =>
        (expr_failsOnly h c ho.1.1 hA).valueOf.bind fun _ =>
          (expr_failsOnly h b ho.1.2 hA).effectOf.bind fun _ => .pure _
  | forLoop n c low high step b =>
    simp only [Expr.occurrences, List.forall_mem_append] at ho
    obtain ⟨⟨hc, hlow, hhigh, hstep, hb⟩, -⟩ := ho
    refine FailsOnly.freshLabel.bind fun _ => FailsOnly.freshLabel.bind fun _ =>
      FailsOnly.freshLabel.bind fun _ => ?_
    refine (expr_failsOnly h c hc hA).valueOf.bind fun _ => .guard (h.notAssignable _) ?_
    exact (expr_failsOnly h low hlow hA).valueOf.bind fun _ =>
      (expr_failsOnly h high hhigh hA).valueOf.bind fun _ =>
        (expr_failsOnly h step hstep hA).valueOf.bind fun _ =>
          (expr_failsOnly h b hb hA).effectOf.bind fun _ => .pure _
  | whereDefs n x m ds =>
    simp only [Expr.occurrences, List.forall_mem_append] at ho
    exact (defs_failsOnly h ds ho.1.1).bind fun _ => expr_failsOnly h x ho.1.2 hA

lemma arguments_failsOnly (h : Covers P scope A os) (es : List Expr) {outer : List NodeId}
    (ho : ∀ o ∈ Expr.occurrencesAll outer es, o ∈ os) {level : Nat} (hA : A outer level) :
    FailsOnly P (arguments scope level es) := by
  cases es with
  | nil => exact .pure _
  | cons e es =>
    simp only [Expr.occurrencesAll, List.forall_mem_append] at ho
    refine (expr_failsOnly h e ho.1 hA).valueOf.bind fun _ => FailsOnly.freshTemp.bind fun _ => ?_
    exact (arguments_failsOnly h es ho.2 hA).bind fun _ => .pure _

lemma body_failsOnly (h : Covers P scope A os) (es : List Expr) {outer : List NodeId}
    (ho : ∀ o ∈ Expr.occurrencesAll outer es, o ∈ os) {level : Nat} (hA : A outer level) :
    FailsOnly P (body scope level es) := by
  match es with
  | [] => exact .pure _
  | [e] =>
    simp only [Expr.occurrencesAll, List.forall_mem_append] at ho
    exact (expr_failsOnly h e ho.1 hA).bind fun _ => .pure _
  | e :: e' :: es =>
    rw [Expr.occurrencesAll, List.forall_mem_append] at ho
    refine (expr_failsOnly h e ho.1 hA).effectOf.bind fun _ => ?_
    exact (body_failsOnly h (e' :: es) ho.2 hA).bind fun _ => .pure _

lemma defn_failsOnly (h : Covers P scope A os) (d : Def) {outer : List NodeId}
    (ho : ∀ o ∈ d.occurrences outer, o ∈ os) : FailsOnly P (defn scope d) := by
  cases d with
  | var n x t => exact h.access outer n x t (ho _ (List.mem_singleton_self _))
  | func n x ps t b =>
    simp only [Def.occurrences, List.forall_mem_append] at ho
    have hself := ho.2 _ (List.mem_singleton_self _)
    refine .require_bind (h.frame outer n x ps t b hself) fun frame hf => ?_
    have hb := expr_failsOnly h b ho.1 (h.level outer n x ps t b hself frame hf)
    exact hb.valueOf.bind fun _ => (FailsOnly.linearize _).bind fun _ => .emit _
  | type n x t => exact .pure _

lemma defs_failsOnly (h : Covers P scope A os) (ds : List Def) {outer : List NodeId}
    (ho : ∀ o ∈ Def.occurrencesAll outer ds, o ∈ os) : FailsOnly P (defs scope ds) := by
  cases ds with
  | nil => exact .pure _
  | cons d ds =>
    simp only [Def.occurrencesAll, List.forall_mem_append] at ho
    exact (defn_failsOnly h d ho.1).bind fun _ => defs_failsOnly h ds ho.2

end

end Walk

end Lowering

namespace Source.Program

variable {p : Program} {l : Layout} {entry : String} {P : Lowering.Error → Prop}

lemma lower_failsOnly (hdefs : FailsOnly P (Lowering.defs (p.scope l) p.defs.definitions))
    (hentry : entryDef? p.defs.definitions entry = none →
      P ⟨.missingEntry entry, p.defs.node.span⟩)
    (hframe : ∀ d, entryDef? p.defs.definitions entry = some d → l.frames[d.node.id]? = none →
      P ⟨.missingFrame entry, d.node.span⟩)
    {e : Lowering.Error} (he : p.lower l entry = .error e) : P e := by
  unfold lower at he
  cases hd : entryDef? p.defs.definitions entry with
  | none =>
    rw [hd] at he
    cases he
    exact hentry hd
  | some d =>
    cases hf : l.frames[d.node.id]? with
    | none =>
      simp only [hd, hf] at he
      cases he
      exact hframe d hd hf
    | some frame =>
      have hs : p.scope l = ⟨p.tables, l.frames, l.accesses⟩ := rfl
      simp only [hd, hf, ← hs] at he
      cases hr : (Lowering.defs (p.scope l) p.defs.definitions).run { labels := l.labels } with
      | error e' =>
        rw [hr] at he
        cases he
        exact hdefs _ _ hr
      | ok r =>
        rw [hr] at he
        cases he

lemma compile_error (hl : p.layout = .ok l) {e : CompileError} (hc : p.compile entry = .error e) :
    ∃ e', e = .lowering e' ∧ p.lower l entry = .error e' := by
  unfold compile compileWith at hc
  rw [hl] at hc
  cases hlow : p.lower l entry with
  | error e' =>
    simp only [Except.mapError, bind, Except.bind, hlow, Except.error.injEq] at hc
    exact ⟨e', hc.symm, rfl⟩
  | ok code => simp [Except.mapError, bind, Except.bind, hlow] at hc

end Source.Program

end BlockLang
