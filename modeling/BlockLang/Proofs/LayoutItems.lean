import BlockLang.Proofs.Occurrences
import BlockLang.Proofs.Stateful

namespace BlockLang

open Source

def Source.Expr.isCall : Expr → Bool
  | .call _ _ _ => true
  | _ => false

namespace Layout

def ArgsSize (types : NodeTable Ty) (args : List Expr) (size : Int) : Prop :=
  ∃ ts, args.mapM (fun e => types[e.node.id]?) = some ts ∧
    size = ts.foldr (fun t rest => t.paramSize + rest) 0

inductive LaysItem (types : NodeTable Ty) : Item → Frame → Layout → Frame → Layout → Prop where
  | defn {d : Def} {f f' : Frame} {l l' : Layout} (h : (addDef types d f).run l = .ok (f', l')) :
    LaysItem types (.defn d) f l f' l'
  | call {n : Node} {x : String} {args : List Expr} {size : Int} {f : Frame} {l : Layout}
    (h : ArgsSize types args size) :
    LaysItem types (.expr (.call n x args)) f l (f.addCall (wordSize + size)) l
  | expr {e : Expr} {f : Frame} {l : Layout} (h : e.isCall = false) :
    LaysItem types (.expr e) f l f l

inductive Lays (types : NodeTable Ty) : List Item → Frame → Layout → Frame → Layout → Prop where
  | nil {f : Frame} {l : Layout} : Lays types [] f l f l
  | cons {i : Item} {is : List Item} {f f₁ f' : Frame} {l l₁ l' : Layout}
    (h : LaysItem types i f l f₁ l₁) (hs : Lays types is f₁ l₁ f' l') : Lays types (i :: is) f l f' l'

variable {types : NodeTable Ty} {f f' : Frame} {l l' : Layout}

lemma lays_nil : Lays types [] f l f' l' ↔ f = f' ∧ l = l' := by
  constructor
  · rintro ⟨⟩
    exact ⟨rfl, rfl⟩
  · rintro ⟨rfl, rfl⟩
    exact .nil

lemma lays_append {is js : List Item} :
    Lays types (is ++ js) f l f' l' ↔
      ∃ f₁ l₁, Lays types is f l f₁ l₁ ∧ Lays types js f₁ l₁ f' l' := by
  induction is generalizing f l with
  | nil =>
    constructor
    · exact fun h => ⟨f, l, .nil, h⟩
    · rintro ⟨_, _, ⟨⟩, h⟩
      exact h
  | cons i is ih =>
    constructor
    · rintro (_ | ⟨hi, his⟩)
      obtain ⟨f₁, l₁, h, h'⟩ := ih.mp his
      exact ⟨f₁, l₁, .cons hi h, h'⟩
    · rintro ⟨f₁, l₁, (_ | ⟨hi, his⟩), h'⟩
      exact .cons hi (ih.mpr ⟨f₁, l₁, his, h'⟩)

lemma lays_expr {e : Expr} (he : e.isCall = false) :
    Lays types [.expr e] f l f' l' ↔ f' = f ∧ l' = l := by
  constructor
  · rintro (_ | ⟨h, (_ | _)⟩)
    cases h with
    | call h => cases he
    | expr h => exact ⟨rfl, rfl⟩
  · rintro ⟨rfl, rfl⟩
    exact .cons (.expr he) .nil

lemma lays_append_expr {is : List Item} {e : Expr} (he : e.isCall = false) :
    Lays types (is ++ [.expr e]) f l f' l' ↔ Lays types is f l f' l' := by
  simp only [lays_append, lays_expr he]
  constructor
  · rintro ⟨f₁, l₁, h, rfl, rfl⟩
    exact h
  · exact fun h => ⟨_, _, h, rfl, rfl⟩

lemma addDefs_ok {ds : List Def} :
    (addDefs types ds f).run l = .ok (f', l') ↔ Lays types (ds.map .defn) f l f' l' := by
  induction ds generalizing f l with
  | nil =>
    rw [addDefs, run_pure_ok, List.map_nil, lays_nil]
  | cons d ds ih =>
    simp only [addDefs, run_bind_ok, ih, List.map_cons]
    constructor
    · rintro ⟨f₁, l₁, hd, hds⟩
      exact .cons (.defn hd) hds
    · rintro (_ | ⟨⟨hd⟩, hds⟩)
      exact ⟨_, _, hd, hds⟩

lemma argsSize_nil {size : Int} : ArgsSize types [] size ↔ size = 0 := by
  simp [ArgsSize]

lemma argsSize_cons {e : Expr} {es : List Expr} {size : Int} :
    ArgsSize types (e :: es) size ↔
      ∃ t size', types[e.node.id]? = some t ∧ ArgsSize types es size' ∧
        size = t.paramSize + size' := by
  simp only [ArgsSize, List.mapM_cons, Option.bind_eq_bind, Option.pure_def,
    Option.bind_eq_some_iff, Option.some.injEq]
  constructor
  · rintro ⟨_, ⟨t, ht, ts, hts, rfl⟩, rfl⟩
    exact ⟨t, _, ht, ⟨ts, hts, rfl⟩, rfl⟩
  · rintro ⟨t, _, ht, ⟨ts, hts, rfl⟩, rfl⟩
    exact ⟨t :: ts, ⟨t, ht, ts, hts, rfl⟩, rfl⟩

lemma lays_call {n : Node} {x : String} {args : List Expr} :
    Lays types [.expr (.call n x args)] f l f' l' ↔
      ∃ size, ArgsSize types args size ∧ f' = f.addCall (wordSize + size) ∧ l' = l := by
  constructor
  · rintro (_ | ⟨h, (_ | _)⟩)
    cases h with
    | call h => exact ⟨_, h, rfl, rfl⟩
    | expr h => cases h
  · rintro ⟨size, h, rfl, rfl⟩
    exact .cons (.call h) .nil

mutual

lemma addExpr_ok (e : Expr) {f f' : Frame} {l l' : Layout} :
    (addExpr types e f).run l = .ok (f', l') ↔ Lays types e.items f l f' l' := by
  cases e with
  | literal n v =>
    rw [addExpr, run_pure_ok, Expr.items, lays_expr rfl]
    tauto
  | name n x =>
    rw [addExpr, run_pure_ok, Expr.items, lays_expr rfl]
    tauto
  | unary n op x => rw [addExpr, Expr.items, lays_append_expr rfl, addExpr_ok x]
  | binary n op x y =>
    rw [addExpr, Expr.items, lays_append_expr rfl]
    simp only [run_bind_ok, lays_append, addExpr_ok x, addExpr_ok y]
  | call n name args =>
    simp only [addExpr, Expr.items, run_bind_ok, run_pure_ok, lays_append, lays_call, Prod.exists,
      addArgs_ok args]
    constructor
    · rintro ⟨f₁, _, l₁, ⟨ha, size, hs, rfl⟩, rfl, rfl⟩
      exact ⟨f₁, _, ha, size, hs, rfl, rfl⟩
    · rintro ⟨f₁, l₁, ha, size, hs, rfl, rfl⟩
      exact ⟨f₁, _, _, ⟨ha, size, hs, rfl⟩, rfl, rfl⟩
  | block n body => rw [addExpr, Expr.items, lays_append_expr rfl, addExprs_ok body]
  | ifThen n c p =>
    rw [addExpr, Expr.items, lays_append_expr rfl]
    simp only [run_bind_ok, lays_append, addExpr_ok c, addExpr_ok p]
  | ifElse n c p q =>
    rw [addExpr, Expr.items, lays_append_expr rfl]
    simp only [run_bind_ok, lays_append, addExpr_ok c, addExpr_ok p, addExpr_ok q]
  | whileLoop n c b =>
    rw [addExpr, Expr.items, lays_append_expr rfl]
    simp only [run_bind_ok, lays_append, addExpr_ok c, addExpr_ok b]
  | forLoop n c low high step b =>
    rw [addExpr, Expr.items, lays_append_expr rfl]
    simp only [run_bind_ok, lays_append, addExpr_ok c, addExpr_ok low, addExpr_ok high,
      addExpr_ok step, addExpr_ok b]
  | whereDefs n x m ds =>
    rw [addExpr, Expr.items, lays_append_expr rfl]
    simp only [run_bind_ok, lays_append, addDefs_ok, addExpr_ok x]

lemma addExprs_ok (es : List Expr) {f f' : Frame} {l l' : Layout} :
    (addExprs types es f).run l = .ok (f', l') ↔ Lays types (Expr.itemsAll es) f l f' l' := by
  cases es with
  | nil => rw [addExprs, run_pure_ok, Expr.itemsAll, lays_nil]
  | cons e es =>
    simp only [addExprs, Expr.itemsAll, run_bind_ok, lays_append, addExpr_ok e, addExprs_ok es]

lemma addArgs_ok (es : List Expr) {f f' : Frame} {size size' : Int} {l l' : Layout} :
    (addArgs types es f size).run l = .ok ((f', size'), l') ↔
      Lays types (Expr.itemsAll es) f l f' l' ∧
        ∃ more, ArgsSize types es more ∧ size' = size + more := by
  cases es with
  | nil =>
    rw [addArgs, run_pure_ok, Expr.itemsAll, lays_nil]
    simp only [Prod.mk.injEq, argsSize_nil, exists_eq_left, Int.add_zero]
    tauto
  | cons e es =>
    simp only [addArgs, Expr.itemsAll, run_bind_ok, typeOf_ok, lays_append, argsSize_cons,
      addExpr_ok e, addArgs_ok es]
    constructor
    · rintro ⟨f₁, l₁, he, t, _, ⟨ht, rfl⟩, hes, more, hm, rfl⟩
      exact ⟨⟨f₁, _, he, hes⟩, _, ⟨t, more, ht, hm, rfl⟩, Int.add_assoc ..⟩
    · rintro ⟨⟨f₁, l₁, he, hes⟩, _, ⟨t, more, ht, hm, rfl⟩, rfl⟩
      exact ⟨f₁, l₁, he, t, l₁, ⟨ht, rfl⟩, hes, more, hm, (Int.add_assoc ..).symm⟩

end

end Layout

end BlockLang
