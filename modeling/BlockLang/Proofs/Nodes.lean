import BlockLang.Source.Syntax
import Mathlib.Tactic.Common

namespace BlockLang.Source

def node (i : Nat) : Node := ⟨.ofNat i, .point 1 1⟩

def number (i : Nat) (w : Word) : Expr := .literal (node i) (.integer w)

def Atom.type : Atom → Ty
  | .integer => .int
  | .logical => .log
  | .string => .str

def TypeExpr.ids : TypeExpr → List NodeId
  | .atom n _ | .name n _ => [n.id]
  | .array n _ t => n.id :: t.ids

def Param.ids (p : Param) : List NodeId := p.node.id :: p.type.ids

mutual

@[simp] def Expr.ids : Expr → List NodeId
  | .literal n _ | .name n _ => [n.id]
  | .unary n _ e => n.id :: e.ids
  | .binary n _ l r => n.id :: (l.ids ++ r.ids)
  | .call n _ args => n.id :: Expr.idsAll args
  | .block n body => n.id :: Expr.idsAll body
  | .ifThen n c p => n.id :: (c.ids ++ p.ids)
  | .ifElse n c p q => n.id :: (c.ids ++ (p.ids ++ q.ids))
  | .whileLoop n c b => n.id :: (c.ids ++ b.ids)
  | .forLoop n c l h s b => n.id :: (c.ids ++ (l.ids ++ (h.ids ++ (s.ids ++ b.ids))))
  | .whereDefs n e d ds => n.id :: d.id :: (Def.idsAll ds ++ e.ids)

@[simp] def Expr.idsAll : List Expr → List NodeId
  | [] => []
  | e :: es => e.ids ++ Expr.idsAll es

@[simp] def Def.ids : Def → List NodeId
  | .var n _ t => n.id :: t.ids
  | .func n _ ps t b => n.id :: (ps.flatMap Param.ids ++ (t.ids ++ b.ids))
  | .type n _ t => n.id :: t.ids

@[simp] def Def.idsAll : List Def → List NodeId
  | [] => []
  | d :: ds => d.ids ++ Def.idsAll ds

end

def Program.ids (p : Program) : List NodeId := p.defs.node.id :: Def.idsAll p.defs.definitions

mutual

def Expr.variables (deep : Bool) : Expr → List NodeId
  | .literal _ _ | .name _ _ => []
  | .unary _ _ e => e.variables deep
  | .binary _ _ l r => l.variables deep ++ r.variables deep
  | .call _ _ args => Expr.variablesAll deep args
  | .block _ body => Expr.variablesAll deep body
  | .ifThen _ c p => c.variables deep ++ p.variables deep
  | .ifElse _ c p q => c.variables deep ++ (p.variables deep ++ q.variables deep)
  | .whileLoop _ c b => c.variables deep ++ b.variables deep
  | .forLoop _ c l h s b =>
    c.variables deep ++ (l.variables deep ++ (h.variables deep ++
      (s.variables deep ++ b.variables deep)))
  | .whereDefs _ e _ ds => Def.variablesAll deep ds ++ e.variables deep

def Expr.variablesAll (deep : Bool) : List Expr → List NodeId
  | [] => []
  | e :: es => e.variables deep ++ Expr.variablesAll deep es

def Def.variables (deep : Bool) : Def → List NodeId
  | .var n _ _ => [n.id]
  | .func _ _ _ _ b => if deep then b.variables deep else []
  | .type _ _ _ => []

def Def.variablesAll (deep : Bool) : List Def → List NodeId
  | [] => []
  | d :: ds => d.variables deep ++ Def.variablesAll deep ds

end

lemma append_mono {xs xs' ys ys' : List NodeId} (h : xs ⊆ xs') (h' : ys ⊆ ys') :
    xs ++ ys ⊆ xs' ++ ys' :=
  List.append_subset.mpr ⟨List.subset_append_of_subset_left _ h,
    List.subset_append_of_subset_right _ h'⟩

mutual

lemma Expr.variables_subset (deep : Bool) (e : Expr) : e.variables deep ⊆ e.ids := by
  cases e with
  | literal n v => exact List.nil_subset _
  | name n x => exact List.nil_subset _
  | unary n op e => exact List.subset_cons_of_subset _ (e.variables_subset deep)
  | binary n op l r =>
    exact List.subset_cons_of_subset _
      (append_mono (l.variables_subset deep) (r.variables_subset deep))
  | call n f args => exact List.subset_cons_of_subset _ (Expr.variablesAll_subset deep args)
  | block n body => exact List.subset_cons_of_subset _ (Expr.variablesAll_subset deep body)
  | ifThen n c p =>
    exact List.subset_cons_of_subset _
      (append_mono (c.variables_subset deep) (p.variables_subset deep))
  | ifElse n c p q =>
    exact List.subset_cons_of_subset _ (append_mono (c.variables_subset deep)
      (append_mono (p.variables_subset deep) (q.variables_subset deep)))
  | whileLoop n c b =>
    exact List.subset_cons_of_subset _
      (append_mono (c.variables_subset deep) (b.variables_subset deep))
  | forLoop n c l h s b =>
    exact List.subset_cons_of_subset _ (append_mono (c.variables_subset deep)
      (append_mono (l.variables_subset deep) (append_mono (h.variables_subset deep)
        (append_mono (s.variables_subset deep) (b.variables_subset deep)))))
  | whereDefs n e d ds =>
    exact List.subset_cons_of_subset _ (List.subset_cons_of_subset _
      (append_mono (Def.variablesAll_subset deep ds) (e.variables_subset deep)))

lemma Expr.variablesAll_subset (deep : Bool) (es : List Expr) :
    Expr.variablesAll deep es ⊆ Expr.idsAll es := by
  cases es with
  | nil => exact List.nil_subset _
  | cons e es => exact append_mono (e.variables_subset deep) (Expr.variablesAll_subset deep es)

lemma Def.variables_subset (deep : Bool) (d : Def) : d.variables deep ⊆ d.ids := by
  cases d with
  | var n x t => simp [Def.variables, Def.ids]
  | func n f ps t b =>
    cases deep with
    | true =>
      refine List.subset_cons_of_subset _ (List.subset_append_of_subset_right _ ?_)
      exact List.subset_append_of_subset_right _ (b.variables_subset true)
    | false => exact List.nil_subset _
  | type n x t => exact List.nil_subset _

lemma Def.variablesAll_subset (deep : Bool) (ds : List Def) :
    Def.variablesAll deep ds ⊆ Def.idsAll ds := by
  cases ds with
  | nil => exact List.nil_subset _
  | cons d ds => exact append_mono (d.variables_subset deep) (Def.variablesAll_subset deep ds)

end

lemma Def.idsAll_append (ds ds' : List Def) :
    Def.idsAll (ds ++ ds') = Def.idsAll ds ++ Def.idsAll ds' := by
  induction ds with
  | nil => rfl
  | cons d ds ih => simp [Def.idsAll, ih]

lemma Def.ids_sublist {d : Def} {ds : List Def} (h : d ∈ ds) : d.ids.Sublist (Def.idsAll ds) := by
  induction ds with
  | nil => cases h
  | cons d' ds ih =>
    rcases List.mem_cons.mp h with rfl | h
    · exact List.sublist_append_left _ _
    · exact (ih h).trans (List.sublist_append_right _ _)

mutual

def Expr.isPlain : Expr → Bool
  | .literal _ _ | .name _ _ => true
  | .unary _ _ e => e.isPlain
  | .binary _ _ l r => l.isPlain && r.isPlain
  | .call _ _ args => Expr.arePlain args
  | .block _ body => Expr.arePlain body
  | .ifThen _ _ _ | .ifElse _ _ _ _ | .whileLoop _ _ _ | .forLoop _ _ _ _ _ _ => false
  | .whereDefs _ e _ _ => e.isPlain

def Expr.arePlain : List Expr → Bool
  | [] => true
  | e :: es => e.isPlain && Expr.arePlain es

end

mutual

def Expr.hasPlainCounters : Expr → Bool
  | .literal _ _ | .name _ _ => true
  | .unary _ _ e => e.hasPlainCounters
  | .binary _ _ l r => l.hasPlainCounters && r.hasPlainCounters
  | .call _ _ args => Expr.havePlainCounters args
  | .block _ body => Expr.havePlainCounters body
  | .ifThen _ c p => c.hasPlainCounters && p.hasPlainCounters
  | .ifElse _ c p q => c.hasPlainCounters && p.hasPlainCounters && q.hasPlainCounters
  | .whileLoop _ c b => c.hasPlainCounters && b.hasPlainCounters
  | .forLoop _ c l h s b =>
    c.isPlain && c.hasPlainCounters && l.hasPlainCounters && h.hasPlainCounters &&
      s.hasPlainCounters && b.hasPlainCounters
  | .whereDefs _ e _ ds => e.hasPlainCounters && Def.havePlainCounters ds

def Expr.havePlainCounters : List Expr → Bool
  | [] => true
  | e :: es => e.hasPlainCounters && Expr.havePlainCounters es

def Def.hasPlainCounters : Def → Bool
  | .func _ _ _ _ b => b.hasPlainCounters
  | .var _ _ _ | .type _ _ _ => true

def Def.havePlainCounters : List Def → Bool
  | [] => true
  | d :: ds => d.hasPlainCounters && Def.havePlainCounters ds

end

end BlockLang.Source
