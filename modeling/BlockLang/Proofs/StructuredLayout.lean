import BlockLang.Proofs.LayoutTables
import BlockLang.Proofs.StructuredLowering

namespace BlockLang

open Source

namespace Source

variable {t : Tables} {vars : List NodeId}

def Tables.IsWord (t : Tables) (d : NodeId) : Prop :=
  t.types[d]? = some .int ∨ t.types[d]? = some .log

lemma Tables.isWord_of_isScalar {n : Node} (h : t.isScalar n = true) : t.IsWord n.id := by
  simp only [isScalar, Bool.or_eq_true, hasType_iff] at h
  exact h

lemma Tables.IsWord.size {d : NodeId} {type : Ty} (h : t.IsWord d) (ht : t.types[d]? = some type) :
    type.size = wordSize := by
  rcases h with h | h
  · obtain rfl := Option.some.inj (ht.symm.trans h)
    rfl
  · obtain rfl := Option.some.inj (ht.symm.trans h)
    rfl

lemma isWord_of_isVariable {ds : List Def} (hv : ds.all t.isVariable = true) (deep : Bool) :
    ∀ d ∈ Def.variablesAll deep ds, t.IsWord d := by
  induction ds with
  | nil => exact fun _ h => nomatch h
  | cons d ds ih =>
    obtain ⟨hd, hds⟩ : t.isVariable d = true ∧ ds.all t.isVariable = true := by simpa using hv
    rw [Def.variablesAll, List.forall_mem_append]
    refine ⟨?_, ih hds⟩
    cases d with
    | var n x type => simpa [Def.variables] using Tables.isWord_of_isScalar hd
    | func n f ps type b => cases hd
    | type n x type => cases hd

mutual

lemma Expr.isWord_of_wellTyped (e : Expr) (hw : e.wellTyped t vars = true) (deep : Bool) :
    ∀ d ∈ e.variables deep, t.IsWord d := by
  cases e with
  | literal n v => exact fun _ h => nomatch h
  | name n x => exact fun _ h => nomatch h
  | unary n op e =>
    simp only [Expr.wellTyped, Bool.and_eq_true] at hw
    exact e.isWord_of_wellTyped hw.1.1 deep
  | binary n op x y =>
    simp only [Expr.wellTyped, Bool.and_eq_true] at hw
    exact List.forall_mem_append.mpr
      ⟨x.isWord_of_wellTyped hw.1.1.1 deep, y.isWord_of_wellTyped hw.1.1.2 deep⟩
  | call n f args =>
    simp only [Expr.wellTyped, Bool.and_eq_true] at hw
    exact Expr.isWord_of_allWellTyped args hw.1.1.1 deep
  | block n es =>
    simp only [Expr.wellTyped, Bool.and_eq_true] at hw
    exact Expr.isWord_of_allWellTyped es hw.1 deep
  | ifThen n c p =>
    simp only [Expr.wellTyped, Bool.and_eq_true] at hw
    exact List.forall_mem_append.mpr
      ⟨c.isWord_of_wellTyped hw.1.1.1 deep, p.isWord_of_wellTyped hw.1.1.2 deep⟩
  | ifElse n c p q =>
    simp only [Expr.wellTyped, Bool.and_eq_true] at hw
    obtain ⟨⟨⟨⟨hc, hp⟩, hq⟩, -⟩, -⟩ := hw
    exact List.forall_mem_append.mpr ⟨c.isWord_of_wellTyped hc deep,
      List.forall_mem_append.mpr ⟨p.isWord_of_wellTyped hp deep, q.isWord_of_wellTyped hq deep⟩⟩
  | whileLoop n c b =>
    simp only [Expr.wellTyped, Bool.and_eq_true] at hw
    exact List.forall_mem_append.mpr
      ⟨c.isWord_of_wellTyped hw.1.1.1 deep, b.isWord_of_wellTyped hw.1.1.2 deep⟩
  | forLoop n c low high step b =>
    simp only [Expr.wellTyped, Bool.and_eq_true] at hw
    obtain ⟨⟨⟨⟨⟨⟨⟨⟨⟨⟨hc, hl⟩, hh⟩, hs⟩, hb⟩, -⟩, -⟩, -⟩, -⟩, -⟩, -⟩ := hw
    exact List.forall_mem_append.mpr ⟨c.isWord_of_wellTyped hc deep,
      List.forall_mem_append.mpr ⟨low.isWord_of_wellTyped hl deep,
        List.forall_mem_append.mpr ⟨high.isWord_of_wellTyped hh deep,
          List.forall_mem_append.mpr
            ⟨step.isWord_of_wellTyped hs deep, b.isWord_of_wellTyped hb deep⟩⟩⟩⟩
  | whereDefs n e d ds =>
    simp only [Expr.wellTyped, Bool.and_eq_true] at hw
    exact List.forall_mem_append.mpr
      ⟨isWord_of_isVariable hw.1.1 deep, e.isWord_of_wellTyped hw.1.2 deep⟩

lemma Expr.isWord_of_allWellTyped (es : List Expr) (hw : Expr.allWellTyped t vars es = true)
    (deep : Bool) : ∀ d ∈ Expr.variablesAll deep es, t.IsWord d := by
  cases es with
  | nil => exact fun _ h => nomatch h
  | cons e es =>
    rw [Expr.allWellTyped, Bool.and_eq_true] at hw
    exact List.forall_mem_append.mpr
      ⟨e.isWord_of_wellTyped hw.1 deep, Expr.isWord_of_allWellTyped es hw.2 deep⟩

end

end Source

namespace Layout

variable {t : Tables} {vars : List NodeId}

def Succeeds (walk : Frame → Build Frame) : Prop := ∀ f l, ∃ f' l', (walk f).run l = .ok (f', l')

lemma Succeeds.stay : Succeeds fun f => pure f := fun f l => ⟨f, l, rfl⟩

lemma Succeeds.seq {walk walk' : Frame → Build Frame} (h : Succeeds walk) (h' : Succeeds walk') :
    Succeeds fun f => walk f >>= walk' := by
  intro f l
  obtain ⟨f₁, l₁, h₁⟩ := h f l
  obtain ⟨f₂, l₂, h₂⟩ := h' f₁ l₁
  exact ⟨f₂, l₂, run_bind_ok.mpr ⟨f₁, l₁, h₁, h₂⟩⟩

lemma addDefs_succeeds {ds : List Def} (hv : ds.all t.isVariable = true) :
    Succeeds (addDefs t.types ds) := by
  induction ds with
  | nil => exact .stay
  | cons d ds ih =>
    obtain ⟨hd, hds⟩ : t.isVariable d = true ∧ ds.all t.isVariable = true := by simpa using hv
    have hd' : Succeeds (addDef t.types d) := by
      cases d with
      | var n x type =>
        intro f l
        obtain ⟨ty, ht, -⟩ := Tables.type_of_isScalar hd
        exact ⟨_, _, run_bind_ok.mpr ⟨ty, l, typeOf_ok.mpr ⟨ht, rfl⟩,
          run_bind_ok.mpr ⟨(), _, setAccess_ok.mpr rfl, rfl⟩⟩⟩
      | func n f ps type b => cases hd
      | type n x type => cases hd
    exact hd'.seq (ih hds)

lemma addCall_succeeds {n : Node} {f : String} {e : Expr} (he : Succeeds (addExpr t.types e))
    (hs : t.isOperand e.node = true) : Succeeds (addExpr t.types (.call n f [e])) := by
  intro fr l
  obtain ⟨f₁, l₁, h₁⟩ := he fr l
  obtain ⟨ty, ht⟩ := Tables.type_of_isOperand hs
  have hargs : (addArgs t.types [e] fr wordSize).run l = .ok ((f₁, wordSize + ty.paramSize), l₁) :=
    run_bind_ok.mpr ⟨f₁, l₁, h₁, run_bind_ok.mpr ⟨ty, l₁, typeOf_ok.mpr ⟨ht, rfl⟩, rfl⟩⟩
  exact ⟨_, _, run_bind_ok.mpr ⟨_, _, hargs, rfl⟩⟩

mutual

lemma addExpr_succeeds (e : Expr) (hw : e.wellTyped t vars = true) :
    Succeeds (addExpr t.types e) := by
  cases e with
  | literal n v => exact .stay
  | name n x => exact .stay
  | unary n op e =>
    simp only [Expr.wellTyped, Bool.and_eq_true] at hw
    exact addExpr_succeeds e hw.1.1
  | binary n op x y =>
    simp only [Expr.wellTyped, Bool.and_eq_true] at hw
    exact (addExpr_succeeds x hw.1.1.1).seq (addExpr_succeeds y hw.1.1.2)
  | call n f args =>
    simp only [Expr.wellTyped, Bool.and_eq_true] at hw
    have hall := forall_addExpr_succeeds args hw.1.1.1
    obtain ⟨e, i, rfl, hs, -⟩ := Lowering.intrinsic_of_prints hw.2
    exact addCall_succeeds (hall e (List.mem_singleton_self e)) hs
  | block n es =>
    simp only [Expr.wellTyped, Bool.and_eq_true] at hw
    have hall := forall_addExpr_succeeds es hw.1
    have hes : ∀ es : List Expr, (∀ e ∈ es, Succeeds (addExpr t.types e)) →
        Succeeds (addExprs t.types es) := by
      intro es h
      induction es with
      | nil => exact .stay
      | cons e es ih =>
        exact (h e List.mem_cons_self).seq (ih fun e' he => h e' (List.mem_cons_of_mem e he))
    exact hes es hall
  | ifThen n c p =>
    simp only [Expr.wellTyped, Bool.and_eq_true] at hw
    exact (addExpr_succeeds c hw.1.1.1).seq (addExpr_succeeds p hw.1.1.2)
  | ifElse n c p q =>
    simp only [Expr.wellTyped, Bool.and_eq_true] at hw
    obtain ⟨⟨⟨⟨hc, hp⟩, hq⟩, -⟩, -⟩ := hw
    exact (addExpr_succeeds c hc).seq ((addExpr_succeeds p hp).seq (addExpr_succeeds q hq))
  | whileLoop n c b =>
    simp only [Expr.wellTyped, Bool.and_eq_true] at hw
    exact (addExpr_succeeds c hw.1.1.1).seq (addExpr_succeeds b hw.1.1.2)
  | forLoop n c low high step b =>
    simp only [Expr.wellTyped, Bool.and_eq_true] at hw
    obtain ⟨⟨⟨⟨⟨⟨⟨⟨⟨⟨hc, hl⟩, hh⟩, hs⟩, hb⟩, -⟩, -⟩, -⟩, -⟩, -⟩, -⟩ := hw
    exact (addExpr_succeeds c hc).seq ((addExpr_succeeds low hl).seq
      ((addExpr_succeeds high hh).seq ((addExpr_succeeds step hs).seq (addExpr_succeeds b hb))))
  | whereDefs n e d ds =>
    simp only [Expr.wellTyped, Bool.and_eq_true] at hw
    exact (addDefs_succeeds hw.1.1).seq (addExpr_succeeds e hw.1.2)

lemma forall_addExpr_succeeds (es : List Expr) (hw : Expr.allWellTyped t vars es = true) :
    ∀ e ∈ es, Succeeds (addExpr t.types e) := by
  cases es with
  | nil => exact fun _ h => nomatch h
  | cons e es =>
    rw [Expr.allWellTyped, Bool.and_eq_true] at hw
    exact List.forall_mem_cons.mpr ⟨addExpr_succeeds e hw.1, forall_addExpr_succeeds es hw.2⟩

end

end Layout

namespace Source

namespace Program.Structured

variable {p : Program} {main : Node} {result : TypeExpr} {body : Expr}

lemma split (h : p.Structured main result body) :
    ∃ before after, p.defs.definitions = before ++ .func main "main" [] result body :: after ∧
      before.all p.tables.isVariable = true ∧ after.all p.tables.isVariable = true := by
  obtain ⟨before, after, hd⟩ := List.append_of_mem h.main_mem
  have hn := (List.nodup_cons.mp h.unique).2
  rw [hd, Def.idsAll_append, Def.idsAll] at hn
  obtain ⟨-, hn', hdis⟩ := List.nodup_append.mp hn
  have hmain : main.id ∈ (Def.func main "main" [] result body).ids := List.mem_cons_self
  have hvar : ∀ d ∈ before ++ after, p.tables.isVariable d = true := by
    intro d hm
    have hmem : d ∈ p.defs.definitions := by
      rw [hd]
      simp only [List.mem_append, List.mem_cons] at hm ⊢
      tauto
    refine (h.globals d hmem).resolve_left ?_
    rintro rfl
    rcases List.mem_append.mp hm with hm | hm
    · exact hdis _ ((Def.ids_sublist hm).subset hmain) _ (List.mem_append_left _ hmain) rfl
    · exact (List.nodup_append.mp hn').2.2 _ hmain _ ((Def.ids_sublist hm).subset hmain) rfl
  refine ⟨before, after, hd, List.all_eq_true.mpr fun d hm => ?_, List.all_eq_true.mpr fun d hm => ?_⟩
  · exact hvar d (List.mem_append_left _ hm)
  · exact hvar d (List.mem_append_right _ hm)

lemma isWord_body (h : p.Structured main result body) (deep : Bool) :
    ∀ d ∈ body.variables deep, p.tables.IsWord d :=
  body.isWord_of_wellTyped h.typed deep

lemma addTop_succeeds (h : p.Structured main result body) {d : Def} (hd : d ∈ p.defs.definitions)
    (l : Layout) : ∃ l', (Layout.addTop p.tables.types d).run l = .ok ((), l') := by
  rcases h.globals d hd with rfl | hv
  · obtain ⟨f, l', hb⟩ := Layout.addExpr_succeeds body h.typed { label := .named "main", level := 1 } l
    exact ⟨_, run_bind_ok.mpr ⟨_, l, rfl, run_bind_ok.mpr ⟨f, l', hb, Layout.setFrame_ok.mpr rfl⟩⟩⟩
  · cases d with
    | var n x type =>
      obtain ⟨ty, ht, -⟩ := Tables.type_of_isScalar hv
      exact ⟨_, run_bind_ok.mpr ⟨ty, l, Layout.typeOf_ok.mpr ⟨ht, rfl⟩, Layout.setAccess_ok.mpr rfl⟩⟩
    | func n f ps type b => cases hv
    | type n x type => cases hv

lemma layout_succeeds (h : p.Structured main result body) :
    ∃ layout, (p.defs.definitions.forM (Layout.addTop p.tables.types)).run {} = .ok ((), layout) := by
  have hall : ∀ (ds : List Def) (l : Layout), ds ⊆ p.defs.definitions →
      ∃ l', (ds.forM (Layout.addTop p.tables.types)).run l = .ok ((), l') := by
    intro ds
    induction ds with
    | nil => exact fun l _ => ⟨l, rfl⟩
    | cons d ds ih =>
      intro l hs
      obtain ⟨hd, hds⟩ := List.cons_subset.mp hs
      obtain ⟨l₁, h₁⟩ := h.addTop_succeeds hd l
      obtain ⟨l', h'⟩ := ih l₁ hds
      exact ⟨l', run_bind_ok.mpr ⟨(), l₁, h₁, h'⟩⟩
  exact hall _ {} (List.Subset.refl _)

structure MainLayout (p : Program) (main : Node) (body : Expr) (layout : Layout) (frame : Frame) :
    Prop where
  frame_eq : layout.frames[main.id]? = some frame
  label : frame.label = .named "main"
  level : frame.level = 1
  params : frame.params = wordSize
  locals_nonneg : 0 ≤ frame.locals
  outgoing_nonneg : 0 ≤ frame.outgoing
  globals : ∀ n x type, .var n x type ∈ p.defs.definitions →
    layout.accesses[n.id]? = some (.global wordSize (.named x))
  locals : ∀ d ∈ body.variables false, ∃ offset,
    layout.accesses[d]? = some (.stack wordSize offset 1) ∧
      wordSize ≤ -offset ∧ -offset ≤ frame.locals
  apart : ∀ d ∈ body.variables false, ∀ d' ∈ body.variables false, d ≠ d' → ∀ offset offset',
    layout.accesses[d]? = some (.stack wordSize offset 1) →
    layout.accesses[d']? = some (.stack wordSize offset' 1) → Clear offset offset'

lemma mainLayout (h : p.Structured main result body) :
    ∃ layout frame, p.layout = .ok layout ∧ MainLayout p main body layout frame := by
  obtain ⟨layout, hl⟩ := h.layout_succeeds
  have hn := (List.nodup_cons.mp h.unique).2
  have htop := fun d hd => Layout.forM_addTop (d := d) hn hl hd
  -- the walk over the body of main
  obtain ⟨l₁, l₂, hmain, hkept⟩ := htop _ h.main_mem
  simp only [Layout.addTop, run_bind_ok, Layout.setFrame_ok] at hmain
  obtain ⟨inner, _, hp, frame, l₃, hb, rfl⟩ := hmain
  obtain ⟨rfl, rfl⟩ := run_pure_ok.mp hp
  have hnb : body.ids.Nodup := by
    have hd := (Def.ids_sublist h.main_mem).nodup hn
    exact (List.nodup_append.mp (List.nodup_append.mp (List.nodup_cons.mp hd).2).2.1).2.1
  have hsized : Layout.Sized p.tables.types (body.variables true) := by
    intro d hd type ht
    rw [(h.isWord_body true d hd).size ht]
    decide
  have ha := Layout.addExpr_walks body hsized hnb hb
  have hids : ∀ d ∈ body.variables false, layout.accesses[d]? = l₃.accesses[d]? := by
    intro d hd
    refine (hkept d ?_).1
    exact List.mem_cons_of_mem _
      (List.mem_append_right _ (List.mem_append_right _ (body.variables_subset false hd)))
  refine ⟨layout, frame, ?_, ?_, ha.label, ha.level, ha.params, ha.locals_le, ha.outgoing_le,
    ?_, ?_, ?_⟩
  · rw [Program.layout, hl]
    rfl
  · rw [(hkept main.id List.mem_cons_self).2]
    simp
  · intro n x type hd
    obtain ⟨l, l', hv, hk⟩ := htop _ hd
    simp only [Layout.addTop, run_bind_ok, Layout.typeOf_ok, Layout.setAccess_ok] at hv
    obtain ⟨ty, _, ⟨ht, rfl⟩, rfl⟩ := hv
    have hw : p.tables.IsWord n.id := by
      rcases h.globals _ hd with he | hv
      · cases he
      · exact Tables.isWord_of_isScalar hv
    rw [(hk n.id List.mem_cons_self).1, hw.size ht]
    simp
  · intro d hd
    obtain ⟨type, offset, ht, hacc, hlo, hhi⟩ := ha.placed d hd
    have hsize := (h.isWord_body false d hd).size ht
    rw [hsize] at hacc hlo
    exact ⟨offset, (hids d hd).trans hacc, by simpa using hlo, hhi⟩
  · intro d hd d' hd' hne offset offset' he he'
    rw [hids d hd] at he
    rw [hids d' hd'] at he'
    exact ha.apart d hd d' hd' hne _ _ he he'

end Program.Structured

end Source

end BlockLang
