import BlockLang.Compile
import BlockLang.Proofs.FreshLabels
import BlockLang.Proofs.LinearCode
import BlockLang.Proofs.StructuredLayout

namespace BlockLang

open Source Code Lowering

namespace Source

variable {t : Tables} {vars : List NodeId}

mutual

lemma Expr.hasPlainCounters_of_wellTyped (e : Expr) (hw : e.wellTyped t vars = true) :
    e.hasPlainCounters = true := by
  cases e with
  | literal n v => rfl
  | name n x => rfl
  | unary n op e =>
    simp only [Expr.wellTyped, Bool.and_eq_true] at hw
    exact e.hasPlainCounters_of_wellTyped hw.1.1
  | binary n op x y =>
    simp only [Expr.wellTyped, Bool.and_eq_true] at hw
    simp only [Expr.hasPlainCounters, x.hasPlainCounters_of_wellTyped hw.1.1.1,
      y.hasPlainCounters_of_wellTyped hw.1.1.2, Bool.and_self]
  | call n f args =>
    simp only [Expr.wellTyped, Bool.and_eq_true] at hw
    exact Expr.havePlainCounters_of_wellTyped args hw.1.1.1
  | block n es =>
    simp only [Expr.wellTyped, Bool.and_eq_true] at hw
    exact Expr.havePlainCounters_of_wellTyped es hw.1
  | ifThen n c p =>
    simp only [Expr.wellTyped, Bool.and_eq_true] at hw
    simp only [Expr.hasPlainCounters, c.hasPlainCounters_of_wellTyped hw.1.1.1,
      p.hasPlainCounters_of_wellTyped hw.1.1.2, Bool.and_self]
  | ifElse n c p q =>
    simp only [Expr.wellTyped, Bool.and_eq_true] at hw
    obtain ⟨⟨⟨⟨hc, hp⟩, hq⟩, -⟩, -⟩ := hw
    simp only [Expr.hasPlainCounters, c.hasPlainCounters_of_wellTyped hc,
      p.hasPlainCounters_of_wellTyped hp, q.hasPlainCounters_of_wellTyped hq, Bool.and_self]
  | whileLoop n c b =>
    simp only [Expr.wellTyped, Bool.and_eq_true] at hw
    simp only [Expr.hasPlainCounters, c.hasPlainCounters_of_wellTyped hw.1.1.1,
      b.hasPlainCounters_of_wellTyped hw.1.1.2, Bool.and_self]
  | forLoop n c low high step b =>
    simp only [Expr.wellTyped, Bool.and_eq_true] at hw
    obtain ⟨⟨⟨⟨⟨⟨⟨⟨⟨⟨hc, hl⟩, hh⟩, hs⟩, hb⟩, -⟩, hcell⟩, -⟩, -⟩, -⟩, -⟩ := hw
    obtain ⟨d, hd⟩ := Option.isSome_iff_exists.mp hcell
    have hplain : c.isPlain = true := by
      obtain ⟨m, x, rfl, -⟩ := Tables.name_of_cell? hd
      rfl
    simp only [Expr.hasPlainCounters, hplain, c.hasPlainCounters_of_wellTyped hc,
      low.hasPlainCounters_of_wellTyped hl, high.hasPlainCounters_of_wellTyped hh,
      step.hasPlainCounters_of_wellTyped hs, b.hasPlainCounters_of_wellTyped hb, Bool.and_self]
  | whereDefs n e d ds =>
    simp only [Expr.wellTyped, Bool.and_eq_true] at hw
    have hds : Def.havePlainCounters ds = true := by
      have hv := hw.1.1
      clear hw
      induction ds with
      | nil => rfl
      | cons d ds ih =>
        obtain ⟨hd, hds⟩ : t.isVariable d = true ∧ ds.all t.isVariable = true := by simpa using hv
        have hp : d.hasPlainCounters = true := by
          cases d with
          | func n f ps type b => cases hd
          | _ => rfl
        simp only [Def.havePlainCounters, hp, ih hds, Bool.and_self]
    simp only [Expr.hasPlainCounters, e.hasPlainCounters_of_wellTyped hw.1.2, hds, Bool.and_self]

lemma Expr.havePlainCounters_of_wellTyped (es : List Expr)
    (hw : Expr.allWellTyped t vars es = true) : Expr.havePlainCounters es = true := by
  cases es with
  | nil => rfl
  | cons e es =>
    rw [Expr.allWellTyped, Bool.and_eq_true] at hw
    simp only [Expr.havePlainCounters, e.hasPlainCounters_of_wellTyped hw.1,
      Expr.havePlainCounters_of_wellTyped es hw.2, Bool.and_self]

end

end Source

def Layout.scope (layout : Layout) (t : Tables) : Scope := ⟨t, layout.frames, layout.accesses⟩

def globalChunk (x : String) : Chunk := .global (.global wordSize (.named x))

namespace Source

lemma Def.exists_var_of_mem {ds : List Def} {i : NodeId} (h : i ∈ Def.variablesAll false ds) :
    ∃ n x type, .var n x type ∈ ds ∧ n.id = i := by
  induction ds with
  | nil => cases h
  | cons d ds ih =>
    rcases List.mem_append.mp h with h | h
    · cases d with
      | var n x type => exact ⟨n, x, type, List.mem_cons_self, (List.mem_singleton.mp h).symm⟩
      | func n f ps type b => cases h
      | type n x type => cases h
    · obtain ⟨n, x, type, hm, hi⟩ := ih h
      exact ⟨n, x, type, List.mem_cons_of_mem d hm, hi⟩

namespace Program.Structured

variable {p : Program} {main : Node} {result : TypeExpr} {body : Expr}
variable {layout : Layout} {frame : Frame}

lemma MainLayout.located (L : MainLayout p main body layout frame) :
    Located (layout.scope p.tables) (p.variables body) (body.variables false) where
  reach d hd := by
    rcases List.mem_append.mp hd with hd | hd
    · obtain ⟨n, x, type, hm, rfl⟩ := Def.exists_var_of_mem hd
      exact ⟨_, L.globals n x type hm, rfl⟩
    · obtain ⟨offset, ha, -⟩ := L.locals d hd
      exact ⟨_, ha, rfl⟩
  inFrame d hd := by
    obtain ⟨offset, ha, -⟩ := L.locals d hd
    exact ⟨_, _, _, ha⟩

lemma MainLayout.defs_run (L : MainLayout p main body layout frame) {ds : List Def}
    (hs : ds ⊆ p.defs.definitions) (hv : ds.all p.tables.isVariable = true) (st : State) :
    (Lowering.defs (layout.scope p.tables) ds).run st =
      .ok ((), { st with
        chunks := st.chunks ++ (ds.map fun d => globalChunk d.name).toArray }) := by
  induction ds generalizing st with
  | nil => exact defs_nil_ok.mpr (by simp)
  | cons d ds ih =>
    obtain ⟨hd, hds⟩ := List.cons_subset.mp hs
    obtain ⟨hvd, hvds⟩ : p.tables.isVariable d = true ∧ ds.all p.tables.isVariable = true := by
      simpa using hv
    cases d with
    | var n x type =>
      have hvar : (defn (layout.scope p.tables) (.var n x type)).run st =
          .ok ((), { st with chunks := st.chunks.push (globalChunk x) }) :=
        defn_var_ok.mpr ⟨_, L.globals n x type hd, rfl⟩
      refine defs_cons_ok.mpr ⟨_, hvar, ?_⟩
      rw [ih hds hvds]
      simp [Def.name, globalChunk]
    | func n f ps type b => cases hvd
    | type n x type => cases hvd

structure MainCode (p : Program) (body : Expr) (layout : Layout) (frame : Frame) (r : Fragment)
    (st st' : State) (k : Nat) (before after : List Def) : Prop where
  lowered : Lowered (layout.scope p.tables) (p.variables body) body st r st' k
  nextTemp : st.nextTemp = .ofNat 0
  lower : p.lower layout "main" = .ok
    ⟨before.map (globalChunk ·.name) ++
      .code frame (.seq ((returning r.toExp).flat st'.nextTemp).code) ::
        after.map (globalChunk ·.name), .named "main"⟩

lemma MainLayout.mainCode (h : p.Structured main result body)
    (L : MainLayout p main body layout frame) {before after : List Def}
    (hd : p.defs.definitions = before ++ .func main "main" [] result body :: after)
    (hb : before.all p.tables.isVariable = true) (ha : after.all p.tables.isVariable = true) :
    ∃ r st st' k, MainCode p body layout frame r st st' k before after := by
  have hsub : before ⊆ p.defs.definitions ∧ after ⊆ p.defs.definitions := by
    rw [hd]
    exact ⟨List.subset_append_left _ _, List.subset_append_of_subset_right _
      (List.subset_cons_self _ _)⟩
  have hbefore := L.defs_run hsub.1 hb { labels := layout.labels }
  obtain ⟨r, st', k, hr⟩ := L.located.expr_lowered body h.typed (List.Subset.refl _)
    { labels := layout.labels, chunks := #[] ++ (before.map (globalChunk ·.name)).toArray }
  have hmain : (defn (layout.scope p.tables) (.func main "main" [] result body)).run _ = .ok ((), _) :=
    defn_func_ok.mpr ⟨frame, r, st', L.frame_eq, by rw [L.level]; exact hr.run, rfl⟩
  have hafter := L.defs_run hsub.2 ha
    { st' with
      nextTemp := ((returning r.toExp).linearize st'.nextTemp).2
      chunks := st'.chunks.push (.code frame ((returning r.toExp).linearize st'.nextTemp).1) }
  have hall := defs_append_ok.mpr ⟨_, hbefore, defs_cons_ok.mpr ⟨_, hmain, hafter⟩⟩
  rw [← hd] at hall
  have hnone : entryDef? before "main" = none := by
    refine List.find?_eq_none.mpr fun d hm => ?_
    have hv := List.all_eq_true.mp hb d hm
    cases d with
    | func n f ps type b => cases hv
    | _ => exact Bool.false_ne_true
  have hentry : entryDef? p.defs.definitions "main" = some (.func main "main" [] result body) := by
    unfold entryDef? at hnone ⊢
    rw [hd, List.find?_append, hnone]
    rfl
  refine ⟨r, _, st', k, hr, rfl, ?_⟩
  have hframe : layout.frames[(Def.func main "main" [] result body).node.id]? = some frame :=
    L.frame_eq
  unfold Program.lower
  simp only [hentry, hframe]
  rw [Layout.scope] at hall
  rw [hall, hr.chunks, L.label]
  simp [Stm.linearize, bind, Except.bind, pure, Except.pure]

end Program.Structured

end Source

end BlockLang
