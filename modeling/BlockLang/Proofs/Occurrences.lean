import BlockLang.Proofs.Nodes
import Mathlib.Data.List.Nodup

namespace BlockLang.Source

inductive Item where
  | expr (e : Expr)
  | defn (d : Def)

mutual

def Expr.items : Expr → List Item
  | e@(.literal _ _) => [.expr e]
  | e@(.name _ _) => [.expr e]
  | e@(.unary _ _ x) => x.items ++ [.expr e]
  | e@(.binary _ _ l r) => l.items ++ r.items ++ [.expr e]
  | e@(.call _ _ args) => Expr.itemsAll args ++ [.expr e]
  | e@(.block _ body) => Expr.itemsAll body ++ [.expr e]
  | e@(.ifThen _ c p) => c.items ++ p.items ++ [.expr e]
  | e@(.ifElse _ c p q) => c.items ++ (p.items ++ q.items) ++ [.expr e]
  | e@(.whileLoop _ c b) => c.items ++ b.items ++ [.expr e]
  | e@(.forLoop _ c l h s b) =>
    c.items ++ (l.items ++ (h.items ++ (s.items ++ b.items))) ++ [.expr e]
  | e@(.whereDefs _ x _ ds) => ds.map .defn ++ x.items ++ [.expr e]

def Expr.itemsAll : List Expr → List Item
  | [] => []
  | e :: es => e.items ++ Expr.itemsAll es

end

def Def.items : Def → List Item
  | .func _ _ _ _ b => b.items
  | .var _ _ _ | .type _ _ _ => []

section Nested

variable {P : Def → Prop}

mutual

lemma Expr.forall_defn_mem (h : ∀ d : Def, (∀ d', .defn d' ∈ d.items → P d') → P d) (e : Expr) :
    ∀ d, .defn d ∈ e.items → P d := by
  intro d hd
  cases e with
  | literal n v => simp [Expr.items] at hd
  | name n x => simp [Expr.items] at hd
  | unary n op x =>
    simp only [Expr.items, List.mem_append, List.mem_singleton, reduceCtorEq, or_false] at hd
    exact x.forall_defn_mem h d hd
  | binary n op x y =>
    simp only [Expr.items, List.mem_append, List.mem_singleton, reduceCtorEq, or_false] at hd
    exact hd.elim (x.forall_defn_mem h d) (y.forall_defn_mem h d)
  | call n f args =>
    simp only [Expr.items, List.mem_append, List.mem_singleton, reduceCtorEq, or_false] at hd
    exact Expr.forall_defn_memAll h args d hd
  | block n body =>
    simp only [Expr.items, List.mem_append, List.mem_singleton, reduceCtorEq, or_false] at hd
    exact Expr.forall_defn_memAll h body d hd
  | ifThen n c p =>
    simp only [Expr.items, List.mem_append, List.mem_singleton, reduceCtorEq, or_false] at hd
    exact hd.elim (c.forall_defn_mem h d) (p.forall_defn_mem h d)
  | ifElse n c p q =>
    simp only [Expr.items, List.mem_append, List.mem_singleton, reduceCtorEq, or_false] at hd
    rcases hd with hd | hd | hd
    · exact c.forall_defn_mem h d hd
    · exact p.forall_defn_mem h d hd
    · exact q.forall_defn_mem h d hd
  | whileLoop n c b =>
    simp only [Expr.items, List.mem_append, List.mem_singleton, reduceCtorEq, or_false] at hd
    exact hd.elim (c.forall_defn_mem h d) (b.forall_defn_mem h d)
  | forLoop n c low high step b =>
    simp only [Expr.items, List.mem_append, List.mem_singleton, reduceCtorEq, or_false] at hd
    rcases hd with hd | hd | hd | hd | hd
    · exact c.forall_defn_mem h d hd
    · exact low.forall_defn_mem h d hd
    · exact high.forall_defn_mem h d hd
    · exact step.forall_defn_mem h d hd
    · exact b.forall_defn_mem h d hd
  | whereDefs n x m ds =>
    simp only [Expr.items, List.mem_append, List.mem_map, Item.defn.injEq, exists_eq_right,
      List.mem_singleton, reduceCtorEq, or_false] at hd
    exact hd.elim (Def.forall_mem h ds d) (x.forall_defn_mem h d)

lemma Expr.forall_defn_memAll (h : ∀ d : Def, (∀ d', .defn d' ∈ d.items → P d') → P d)
    (es : List Expr) : ∀ d, .defn d ∈ Expr.itemsAll es → P d := by
  intro d hd
  cases es with
  | nil => simp [Expr.itemsAll] at hd
  | cons e es =>
    rcases List.mem_append.mp hd with hd | hd
    · exact e.forall_defn_mem h d hd
    · exact Expr.forall_defn_memAll h es d hd

lemma Def.forall_mem (h : ∀ d : Def, (∀ d', .defn d' ∈ d.items → P d') → P d) (ds : List Def) :
    ∀ d ∈ ds, P d := by
  intro d hd
  cases ds with
  | nil => cases hd
  | cons d' ds =>
    rcases List.mem_cons.mp hd with he | hd
    · rw [he]
      exact Def.nested h d'
    · exact Def.forall_mem h ds d hd

theorem Def.nested (h : ∀ d : Def, (∀ d', .defn d' ∈ d.items → P d') → P d) (d : Def) : P d := by
  apply h
  cases d with
  | var n x t => exact fun _ h => nomatch h
  | func n f ps t b => exact b.forall_defn_mem h
  | type n x t => exact fun _ h => nomatch h

end

end Nested

lemma Expr.mem_items (e : Expr) : .expr e ∈ e.items := by
  cases e <;> simp [Expr.items]

lemma Expr.mem_itemsAll {es : List Expr} {e : Expr} (h : e ∈ es) : .expr e ∈ Expr.itemsAll es := by
  induction es with
  | nil => cases h
  | cons e' es ih =>
    rcases List.mem_cons.mp h with rfl | h
    · exact List.mem_append_left _ e.mem_items
    · exact List.mem_append_right _ (ih h)

mutual

lemma Expr.items_subset (e : Expr) {x : Expr} (h : .expr x ∈ e.items) : x.items ⊆ e.items := by
  intro i hi
  cases e with
  | literal n v =>
    cases List.mem_singleton.mp h
    exact hi
  | name n y =>
    cases List.mem_singleton.mp h
    exact hi
  | unary n op a =>
    simp only [Expr.items, List.mem_append, List.mem_singleton, Item.expr.injEq] at h
    rcases h with h | rfl
    · simp [Expr.items, a.items_subset h hi]
    · exact hi
  | binary n op a b =>
    simp only [Expr.items, List.mem_append, List.mem_singleton, Item.expr.injEq] at h
    rcases h with (h | h) | rfl
    · simp [Expr.items, a.items_subset h hi]
    · simp [Expr.items, b.items_subset h hi]
    · exact hi
  | call n f args =>
    simp only [Expr.items, List.mem_append, List.mem_singleton, Item.expr.injEq] at h
    rcases h with h | rfl
    · simp [Expr.items, Expr.items_subset_all args h hi]
    · exact hi
  | block n body =>
    simp only [Expr.items, List.mem_append, List.mem_singleton, Item.expr.injEq] at h
    rcases h with h | rfl
    · simp [Expr.items, Expr.items_subset_all body h hi]
    · exact hi
  | ifThen n c p =>
    simp only [Expr.items, List.mem_append, List.mem_singleton, Item.expr.injEq] at h
    rcases h with (h | h) | rfl
    · simp [Expr.items, c.items_subset h hi]
    · simp [Expr.items, p.items_subset h hi]
    · exact hi
  | ifElse n c p q =>
    simp only [Expr.items, List.mem_append, List.mem_singleton, Item.expr.injEq] at h
    rcases h with (h | h | h) | rfl
    · simp [Expr.items, c.items_subset h hi]
    · simp [Expr.items, p.items_subset h hi]
    · simp [Expr.items, q.items_subset h hi]
    · exact hi
  | whileLoop n c b =>
    simp only [Expr.items, List.mem_append, List.mem_singleton, Item.expr.injEq] at h
    rcases h with (h | h) | rfl
    · simp [Expr.items, c.items_subset h hi]
    · simp [Expr.items, b.items_subset h hi]
    · exact hi
  | forLoop n c low high step b =>
    simp only [Expr.items, List.mem_append, List.mem_singleton, Item.expr.injEq] at h
    rcases h with (h | h | h | h | h) | rfl
    · simp [Expr.items, c.items_subset h hi]
    · simp [Expr.items, low.items_subset h hi]
    · simp [Expr.items, high.items_subset h hi]
    · simp [Expr.items, step.items_subset h hi]
    · simp [Expr.items, b.items_subset h hi]
    · exact hi
  | whereDefs n a m ds =>
    simp only [Expr.items, List.mem_append, List.mem_map, reduceCtorEq, and_false, exists_false, false_or,
      List.mem_singleton, Item.expr.injEq] at h
    rcases h with h | rfl
    · simp [Expr.items, a.items_subset h hi]
    · exact hi

lemma Expr.items_subset_all (es : List Expr) {x : Expr} (h : .expr x ∈ Expr.itemsAll es) :
    x.items ⊆ Expr.itemsAll es := by
  intro i hi
  cases es with
  | nil => cases h
  | cons e es =>
    rcases List.mem_append.mp h with h | h
    · exact List.mem_append_left _ (e.items_subset h hi)
    · exact List.mem_append_right _ (Expr.items_subset_all es h hi)

end

/-- A part of a program, with the functions around it, the innermost one first. -/
structure Occurrence where
  outer : List NodeId
  item : Item

mutual

def Expr.occurrences (outer : List NodeId) : Expr → List Occurrence
  | e@(.literal _ _) => [⟨outer, .expr e⟩]
  | e@(.name _ _) => [⟨outer, .expr e⟩]
  | e@(.unary _ _ x) => x.occurrences outer ++ [⟨outer, .expr e⟩]
  | e@(.binary _ _ l r) => l.occurrences outer ++ r.occurrences outer ++ [⟨outer, .expr e⟩]
  | e@(.call _ _ args) => Expr.occurrencesAll outer args ++ [⟨outer, .expr e⟩]
  | e@(.block _ body) => Expr.occurrencesAll outer body ++ [⟨outer, .expr e⟩]
  | e@(.ifThen _ c p) => c.occurrences outer ++ p.occurrences outer ++ [⟨outer, .expr e⟩]
  | e@(.ifElse _ c p q) =>
    c.occurrences outer ++ (p.occurrences outer ++ q.occurrences outer) ++ [⟨outer, .expr e⟩]
  | e@(.whileLoop _ c b) => c.occurrences outer ++ b.occurrences outer ++ [⟨outer, .expr e⟩]
  | e@(.forLoop _ c l h s b) =>
    c.occurrences outer ++ (l.occurrences outer ++ (h.occurrences outer ++
      (s.occurrences outer ++ b.occurrences outer))) ++ [⟨outer, .expr e⟩]
  | e@(.whereDefs _ x _ ds) =>
    Def.occurrencesAll outer ds ++ x.occurrences outer ++ [⟨outer, .expr e⟩]

def Expr.occurrencesAll (outer : List NodeId) : List Expr → List Occurrence
  | [] => []
  | e :: es => e.occurrences outer ++ Expr.occurrencesAll outer es

def Def.occurrences (outer : List NodeId) : Def → List Occurrence
  | d@(.var _ _ _) => [⟨outer, .defn d⟩]
  | d@(.func n _ _ _ b) => b.occurrences (n.id :: outer) ++ [⟨outer, .defn d⟩]
  | d@(.type _ _ _) => [⟨outer, .defn d⟩]

def Def.occurrencesAll (outer : List NodeId) : List Def → List Occurrence
  | [] => []
  | d :: ds => d.occurrences outer ++ Def.occurrencesAll outer ds

end

def Item.function? : Item → Option NodeId
  | .defn (.func n _ _ _ _) => some n.id
  | .defn (.var _ _ _) | .defn (.type _ _ _) | .expr _ => none

def functionIds (os : List Occurrence) : List NodeId := os.filterMap fun o => o.item.function?

def Item.places : Item → List NodeId
  | .defn (.var n _ _) => [n.id]
  | .defn (.func _ _ ps _ _) => ps.map fun p => p.node.id
  | .defn (.type _ _ _) | .expr _ => []

def placeIds (os : List Occurrence) : List NodeId := os.flatMap fun o => o.item.places

def Program.occurrences (p : Program) : List Occurrence :=
  Def.occurrencesAll [] p.defs.definitions

def Item.occurrences (outer : List NodeId) : Item → List Occurrence
  | .expr e => [⟨outer, .expr e⟩]
  | .defn d => d.occurrences outer

lemma Def.occurrencesAll_eq (outer : List NodeId) (ds : List Def) :
    Def.occurrencesAll outer ds = ds.flatMap (Def.occurrences outer) := by
  induction ds with
  | nil => rfl
  | cons d ds ih => rw [Def.occurrencesAll, ih, List.flatMap_cons]

mutual

lemma Expr.occurrences_eq (outer : List NodeId) (e : Expr) :
    e.occurrences outer = e.items.flatMap (Item.occurrences outer) := by
  cases e with
  | literal n v => rfl
  | name n x => rfl
  | unary n op x => simp [Expr.occurrences, Expr.items, Item.occurrences, x.occurrences_eq]
  | binary n op x y =>
    simp [Expr.occurrences, Expr.items, Item.occurrences, x.occurrences_eq, y.occurrences_eq]
  | call n f args =>
    simp [Expr.occurrences, Expr.items, Item.occurrences, Expr.occurrencesAll_eq outer args]
  | block n body =>
    simp [Expr.occurrences, Expr.items, Item.occurrences, Expr.occurrencesAll_eq outer body]
  | ifThen n c p =>
    simp [Expr.occurrences, Expr.items, Item.occurrences, c.occurrences_eq, p.occurrences_eq]
  | ifElse n c p q =>
    simp [Expr.occurrences, Expr.items, Item.occurrences, c.occurrences_eq, p.occurrences_eq,
      q.occurrences_eq]
  | whileLoop n c b =>
    simp [Expr.occurrences, Expr.items, Item.occurrences, c.occurrences_eq, b.occurrences_eq]
  | forLoop n c low high step b =>
    simp [Expr.occurrences, Expr.items, Item.occurrences, c.occurrences_eq, low.occurrences_eq,
      high.occurrences_eq, step.occurrences_eq, b.occurrences_eq]
  | whereDefs n x m ds =>
    simp [Expr.occurrences, Expr.items, Item.occurrences, List.flatMap_map, x.occurrences_eq,
      Def.occurrencesAll_eq]

lemma Expr.occurrencesAll_eq (outer : List NodeId) (es : List Expr) :
    Expr.occurrencesAll outer es = (Expr.itemsAll es).flatMap (Item.occurrences outer) := by
  cases es with
  | nil => rfl
  | cons e es =>
    simp [Expr.occurrencesAll, Expr.itemsAll, e.occurrences_eq, Expr.occurrencesAll_eq outer es]

end

lemma Expr.mem_occurrences {e : Expr} {outer : List NodeId} {i : Item} (hi : i ∈ e.items)
    {o : Occurrence} (ho : o ∈ i.occurrences outer) : o ∈ e.occurrences outer := by
  rw [Expr.occurrences_eq]
  exact List.mem_flatMap.mpr ⟨i, hi, ho⟩

lemma Expr.mem_occurrences_self (e : Expr) (outer : List NodeId) :
    ⟨outer, .expr e⟩ ∈ e.occurrences outer :=
  Expr.mem_occurrences e.mem_items (List.mem_singleton_self _)

lemma mem_functionIds {os : List Occurrence} {i : NodeId} :
    i ∈ functionIds os ↔ ∃ outer n x ps t b,
      ⟨outer, .defn (.func n x ps t b)⟩ ∈ os ∧ n.id = i := by
  simp only [functionIds, List.mem_filterMap]
  constructor
  · rintro ⟨⟨outer, item⟩, ho, hi⟩
    cases item with
    | expr e => cases hi
    | defn d =>
      cases d with
      | var n x t => cases hi
      | func n x ps t b => exact ⟨outer, n, x, ps, t, b, ho, Option.some.inj hi⟩
      | type n x t => cases hi
  · rintro ⟨outer, n, x, ps, t, b, ho, rfl⟩
    exact ⟨_, ho, rfl⟩

lemma functionIds_mono {os os' : List Occurrence} (h : os ⊆ os') : functionIds os ⊆ functionIds os' := by
  intro i hi
  obtain ⟨o, ho, hi⟩ := List.mem_filterMap.mp hi
  exact List.mem_filterMap.mpr ⟨o, h ho, hi⟩

lemma placeIds_mono {os os' : List Occurrence} (h : os ⊆ os') : placeIds os ⊆ placeIds os' := by
  intro i hi
  obtain ⟨o, ho, hi⟩ := List.mem_flatMap.mp hi
  exact List.mem_flatMap.mpr ⟨o, h ho, hi⟩

lemma Def.outer_isSuffix (d : Def) : ∀ outer, ∀ o ∈ d.occurrences outer, outer <:+ o.outer := by
  induction d using Def.nested with
  | h d ih =>
  intro outer o ho
  cases d with
  | var n x t =>
    obtain rfl := List.mem_singleton.mp ho
    exact List.suffix_rfl
  | func n x ps t b =>
    rw [Def.occurrences, List.mem_append, List.mem_singleton, Expr.occurrences_eq,
      List.mem_flatMap] at ho
    rcases ho with ⟨i, hi, ho⟩ | rfl
    · refine (List.suffix_cons n.id outer).trans ?_
      cases i with
      | expr e =>
        obtain rfl := List.mem_singleton.mp ho
        exact List.suffix_rfl
      | defn d => exact ih d hi _ o ho
    · exact List.suffix_rfl
  | type n x t =>
    obtain rfl := List.mem_singleton.mp ho
    exact List.suffix_rfl

def Item.node : Item → Node
  | .expr e => e.node
  | .defn d => d.node

def Occurrence.id (o : Occurrence) : NodeId := o.item.node.id

def Item.ids : Item → List NodeId
  | .expr e => [e.node.id]
  | .defn d => d.ids

lemma Def.flatMap_ids (ds : List Def) : (ds.map .defn).flatMap Item.ids = Def.idsAll ds := by
  induction ds with
  | nil => rfl
  | cons d ds ih => simp_all [Item.ids]

mutual

lemma Expr.count_items_le (i : NodeId) (e : Expr) :
    (e.items.flatMap Item.ids).count i ≤ e.ids.count i := by
  cases e with
  | literal n v => exact Nat.le_refl _
  | name n x => exact Nat.le_refl _
  | unary n op x =>
    have hx := x.count_items_le i
    simp [Expr.items, Item.ids, Expr.node, List.count_cons]
    omega
  | binary n op x y =>
    have hx := x.count_items_le i
    have hy := y.count_items_le i
    simp [Expr.items, Item.ids, Expr.node, List.count_cons]
    omega
  | call n f args =>
    have ha := Expr.count_itemsAll_le i args
    simp [Expr.items, Item.ids, Expr.node, List.count_cons]
    omega
  | block n body =>
    have hb := Expr.count_itemsAll_le i body
    simp [Expr.items, Item.ids, Expr.node, List.count_cons]
    omega
  | ifThen n c p =>
    have hc := c.count_items_le i
    have hp := p.count_items_le i
    simp [Expr.items, Item.ids, Expr.node, List.count_cons]
    omega
  | ifElse n c p q =>
    have hc := c.count_items_le i
    have hp := p.count_items_le i
    have hq := q.count_items_le i
    simp [Expr.items, Item.ids, Expr.node, List.count_cons]
    omega
  | whileLoop n c b =>
    have hc := c.count_items_le i
    have hb := b.count_items_le i
    simp [Expr.items, Item.ids, Expr.node, List.count_cons]
    omega
  | forLoop n c low high step b =>
    have hc := c.count_items_le i
    have hl := low.count_items_le i
    have hh := high.count_items_le i
    have hs := step.count_items_le i
    have hb := b.count_items_le i
    simp [Expr.items, Item.ids, Expr.node, List.count_cons]
    omega
  | whereDefs n x m ds =>
    have hx := x.count_items_le i
    simp [Expr.items, Item.ids, Expr.node, List.count_cons, Def.flatMap_ids]
    omega

lemma Expr.count_itemsAll_le (i : NodeId) (es : List Expr) :
    ((Expr.itemsAll es).flatMap Item.ids).count i ≤ (Expr.idsAll es).count i := by
  cases es with
  | nil => exact Nat.le_refl _
  | cons e es =>
    have he := e.count_items_le i
    have hes := Expr.count_itemsAll_le i es
    simp [Expr.itemsAll]
    omega

end

lemma Expr.nodup_items {e : Expr} (h : e.ids.Nodup) : (e.items.flatMap Item.ids).Nodup := by
  rw [List.nodup_iff_count_le_one] at h ⊢
  exact fun i => Nat.le_trans (e.count_items_le i) (h i)

lemma Expr.mem_ids_of_item {e : Expr} {i : Item} (hi : i ∈ e.items) {j : NodeId} (hj : j ∈ i.ids) :
    j ∈ e.ids := by
  have h := e.count_items_le j
  have hm := List.count_pos_iff.mpr (List.mem_flatMap.mpr ⟨i, hi, hj⟩)
  exact List.count_pos_iff.mp (by omega)

lemma Expr.nodup_of_item {e : Expr} (h : e.ids.Nodup) {i : Item} (hi : i ∈ e.items) : i.ids.Nodup :=
  (List.nodup_flatMap.mp (Expr.nodup_items h)).1 i hi

def numbers (os : List Occurrence) : List NodeId := os.map Occurrence.id

lemma count_numbers_le {is : List Item} {outer : List NodeId} {i : NodeId}
    (h : ∀ d, .defn d ∈ is → (numbers (d.occurrences outer)).count i ≤ d.ids.count i) :
    (numbers (is.flatMap (Item.occurrences outer))).count i ≤ (is.flatMap Item.ids).count i := by
  induction is with
  | nil => exact Nat.le_refl _
  | cons x is ih =>
    have his := ih fun d hd => h d (List.mem_cons_of_mem _ hd)
    have hx : (numbers (x.occurrences outer)).count i ≤ x.ids.count i := by
      cases x with
      | expr e => exact Nat.le_refl _
      | defn d => exact h d (List.mem_cons_self ..)
    simp only [numbers, List.flatMap_cons, List.map_append, List.count_append] at hx his ⊢
    omega

lemma Def.count_numbers_le (i : NodeId) (d : Def) :
    ∀ outer, (numbers (d.occurrences outer)).count i ≤ d.ids.count i := by
  induction d using Def.nested with
  | h d ih =>
  intro outer
  cases d with
  | var n x t => simp [Def.occurrences, numbers, Occurrence.id, Item.node, Def.node, List.count_cons]
  | type n x t => simp [Def.occurrences, numbers, Occurrence.id, Item.node, Def.node, List.count_cons]
  | func n f ps t b =>
    have hb := Source.count_numbers_le fun d hd => ih d hd (n.id :: outer)
    have hi := b.count_items_le i
    rw [Def.items, ← Expr.occurrences_eq] at hb
    simp only [numbers] at hb
    have hd : Occurrence.id ⟨outer, .defn (.func n f ps t b)⟩ = n.id := rfl
    simp [Def.occurrences, numbers, hd, List.count_cons]
    omega

lemma Program.nodup_numbers {p : Program} (h : p.ids.Nodup) : (numbers p.occurrences).Nodup := by
  have hd := (List.nodup_cons.mp h).2
  rw [List.nodup_iff_count_le_one] at hd ⊢
  intro i
  refine Nat.le_trans ?_ (hd i)
  rw [Program.occurrences, Def.occurrencesAll_eq, ← Def.flatMap_ids]
  have hc : (numbers ((p.defs.definitions.map .defn).flatMap (Item.occurrences []))).count i ≤ _ :=
    count_numbers_le fun d _ => d.count_numbers_le i []
  rwa [List.flatMap_map] at hc

end BlockLang.Source
