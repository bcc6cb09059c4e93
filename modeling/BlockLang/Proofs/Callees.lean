import BlockLang.Proofs.Compilation
import BlockLang.Proofs.FreshLabels
import BlockLang.Proofs.Mentions

/-! Which functions compiled code calls: those that the calls of the source stand for. A function is
told from the others by its label. -/

namespace BlockLang

open Source Code Lowering

namespace Source

def Def.functionName? : Def → Option String
  | .func _ x _ _ _ => some x
  | .var _ _ _ | .type _ _ _ => none

def Program.functionNames (p : Program) : List String :=
  p.defs.definitions.filterMap Def.functionName?

structure Program.NamedApart (p : Program) : Prop where
  distinct : p.functionNames.Nodup
  apart : ∀ i : Intrinsic, i.name ∉ p.functionNames

instance (p : Program) : Decidable p.NamedApart :=
  decidable_of_iff (p.functionNames.Nodup ∧ ∀ i ∈ Intrinsic.all, i.name ∉ p.functionNames)
    ⟨fun h => ⟨h.1, fun i => h.2 i (Intrinsic.mem_all i)⟩, fun h => ⟨h.distinct, fun i _ => h.apart i⟩⟩

def Program.Calls (p : Program) (i j : NodeId) : Prop :=
  ∃ outer n x args, (⟨i :: outer, .expr (.call n x args)⟩ : Occurrence) ∈ p.occurrences ∧
    p.tables.bindings[n.id]? = some j

def Program.callPairs (p : Program) : List (NodeId × NodeId) :=
  p.occurrences.filterMap fun
    | ⟨i :: _, .expr (.call n _ _)⟩ => p.tables.bindings[n.id]?.map (i, ·)
    | _ => none

lemma Program.Calls.mem_callPairs {p : Program} {i j : NodeId} (h : p.Calls i j) :
    (i, j) ∈ p.callPairs := by
  obtain ⟨outer, n, x, args, ho, hb⟩ := h
  exact List.mem_filterMap.mpr ⟨_, ho, by simp [hb]⟩

lemma Def.mem_occurrences_body (d : Def) : ∀ (start : List NodeId) {outer : List NodeId} {n : Node}
    {x : String} {ps : List Param} {t : TypeExpr} {b : Expr} {o : Occurrence},
    ⟨outer, .defn (.func n x ps t b)⟩ ∈ d.occurrences start → o ∈ b.occurrences (n.id :: outer) →
      o ∈ d.occurrences start := by
  induction d using Def.nested with
  | h d ih =>
  intro start outer n x ps t b o ho hi
  cases d with
  | var n' y t' => cases List.mem_singleton.mp ho
  | type n' y t' => cases List.mem_singleton.mp ho
  | func n' y ps' t' b' =>
    rw [Def.occurrences, List.mem_append, List.mem_singleton] at ho ⊢
    left
    rcases ho with ho | ho
    · rw [Expr.occurrences_eq, List.mem_flatMap] at ho ⊢
      obtain ⟨item, hitem, ho⟩ := ho
      refine ⟨item, hitem, ?_⟩
      cases item with
      | expr e => cases List.mem_singleton.mp ho
      | defn d' => exact ih d' hitem (n'.id :: start) ho hi
    · cases ho
      exact hi

lemma Program.mem_occurrences_body {p : Program} {outer : List NodeId} {n : Node} {x : String}
    {ps : List Param} {t : TypeExpr} {b : Expr} {o : Occurrence}
    (ho : ⟨outer, .defn (.func n x ps t b)⟩ ∈ p.occurrences)
    (hi : o ∈ b.occurrences (n.id :: outer)) : o ∈ p.occurrences := by
  rw [Program.occurrences, Def.occurrencesAll_eq, List.mem_flatMap] at ho ⊢
  obtain ⟨d, hd, ho⟩ := ho
  exact ⟨d, hd, d.mem_occurrences_body [] ho hi⟩

lemma Program.mem_definitions {p : Program} {d : Def} (ho : ⟨[], .defn d⟩ ∈ p.occurrences) :
    d ∈ p.defs.definitions := by
  rw [Program.occurrences, Def.occurrencesAll_eq, List.mem_flatMap] at ho
  obtain ⟨top, htop, ho⟩ := ho
  cases top with
  | var n y t =>
    cases List.mem_singleton.mp ho
    exact htop
  | type n y t =>
    cases List.mem_singleton.mp ho
    exact htop
  | func n y ps t b =>
    rw [Def.occurrences, List.mem_append, List.mem_singleton] at ho
    rcases ho with ho | ho
    · rw [Expr.occurrences_eq, List.mem_flatMap] at ho
      obtain ⟨item, -, ho⟩ := ho
      cases item with
      | expr e => cases List.mem_singleton.mp ho
      | defn d' =>
        have hs := d'.outer_isSuffix [n.id] _ ho
        exact absurd (List.suffix_nil.mp hs) (List.cons_ne_nil _ _)
    · cases ho
      exact htop

end Source

namespace Layout

variable {p : Source.Program} {l : Layout} {outer : List NodeId} {n : Node} {x : String} {ps : List Param}
variable {t : TypeExpr} {b : Expr}

lemma layout_label (hl : p.layout = .ok l) (hn : p.ids.Nodup)
    (ho : ⟨outer, .defn (.func n x ps t b)⟩ ∈ p.occurrences) :
    ∃ f, l.frames[n.id]? = some f ∧ (outer = [] → f.label = .named x) ∧
      (outer ≠ [] → ∃ k, f.label = .anonymous k) := by
  obtain ⟨label, htop, hin, l₀, inner, l₁, f, l₂, hp, hb, hf, -, -⟩ := layout_func hl hn ho
  have hlabel : f.label = label := hb.frame.1.trans (addParams_frame hp).1
  refine ⟨f, hf, fun h => hlabel.trans (htop h), fun h => ?_⟩
  obtain ⟨k, hk⟩ := hin h
  exact ⟨k, hlabel.trans hk⟩

lemma label_inj (hl : p.layout = .ok l) (hn : p.ids.Nodup) (hp : p.functionNames.Nodup)
    {i j : NodeId} {f g : Frame} (hf : l.frames[i]? = some f) (hg : l.frames[j]? = some g)
    (he : f.label = g.label) : i = j := by
  obtain ⟨outer, n, x, ps, t, b, ho, rfl⟩ := mem_functionIds.mp (layout_frame hl hf)
  obtain ⟨outer', n', x', ps', t', b', ho', rfl⟩ := mem_functionIds.mp (layout_frame hl hg)
  obtain ⟨f', hf', htop, hin⟩ := layout_label hl hn ho
  obtain ⟨g', hg', htop', hin'⟩ := layout_label hl hn ho'
  obtain rfl := Option.some.inj (hf.symm.trans hf')
  obtain rfl := Option.some.inj (hg.symm.trans hg')
  by_cases h : outer = []
  · by_cases h' : outer' = []
    · obtain rfl := h
      obtain rfl := h'
      obtain rfl := Label.named.inj ((htop rfl).symm.trans (he.trans (htop' rfl)))
      have hd := eq_of_nodup_filterMap hp (Program.mem_definitions ho) (Program.mem_definitions ho')
        rfl rfl
      cases hd
      rfl
    · obtain ⟨k, hk⟩ := hin' h'
      cases (htop h).symm.trans (he.trans hk)
  · obtain ⟨k, hk⟩ := hin h
    exact (layout_labelled hl).inj _ _ f g k hf hg hk (he.symm.trans hk)

lemma label_ne_intrinsic (hl : p.layout = .ok l) (hn : p.ids.Nodup) (hp : p.NamedApart) {i : NodeId}
    {f : Frame} (hf : l.frames[i]? = some f) (intrinsic : Intrinsic) :
    f.label ≠ intrinsic.label := by
  obtain ⟨outer, n, x, ps, t, b, ho, rfl⟩ := mem_functionIds.mp (layout_frame hl hf)
  obtain ⟨f', hf', htop, hin⟩ := layout_label hl hn ho
  obtain rfl := Option.some.inj (hf.symm.trans hf')
  intro he
  by_cases h : outer = []
  · obtain rfl := h
    have hx : x = intrinsic.name := Label.named.inj ((htop rfl).symm.trans he)
    exact hp.apart intrinsic
      (List.mem_filterMap.mpr ⟨_, Program.mem_definitions ho, congrArg some hx⟩)
  · obtain ⟨k, hk⟩ := hin h
    cases hk.symm.trans he

end Layout

namespace Lowering

variable {scope : Scope} {level : Nat}

def CalledIn (scope : Scope) (level : Nat) (is : List Item) (l : Label) : Prop :=
  ∃ n x args c st st', .expr (.call n x args) ∈ is ∧
    (callee scope level n x).run st = .ok (c, st') ∧ c.label = l

lemma CalledIn.mono {is js : List Item} {l : Label} (h : CalledIn scope level is l) (hs : is ⊆ js) :
    CalledIn scope level js l := by
  obtain ⟨n, x, args, c, st, st', hm, rest⟩ := h
  exact ⟨n, x, args, c, st, st', hs hm, rest⟩

lemma CalledIn.of_part {e x : Expr} {l : Label} (h : CalledIn scope level x.items l)
    (hx : .expr x ∈ e.items) : CalledIn scope level e.items l :=
  h.mono (e.items_subset hx)

section Parts

variable {l : Label}

lemma callee_not_mem_staticLink (k : Nat) : .callee l ∉ (Exp.staticLink k).mentions := by
  induction k with
  | zero => simp [Exp.staticLink, Exp.mentions]
  | succ k ih => exact ih

lemma mem_mentions_offset {m : Mention} {x : Exp} {n : Int} :
    m ∈ (x.offset n).mentions ↔ m ∈ x.mentions := by
  unfold Exp.offset
  split
  · rfl
  · simp [Exp.mentions]

lemma callee_not_mem_addressOf (a : Access) : .callee l ∉ (addressOf level a).mentions := by
  cases a with
  | global size label => simp [addressOf, Exp.mentions]
  | stack size offset target =>
    simp [addressOf, mem_mentions_offset, callee_not_mem_staticLink]
  | param size offset target =>
    simp [addressOf, mem_mentions_offset, callee_not_mem_staticLink]

lemma mentions_variableValue (type : Ty) (x : Exp) (a : Access) :
    (variableValue type x a).mentions = x.mentions := by
  cases a with
  | param size offset target => rfl
  | global size label =>
    simp only [variableValue]
    split
    · rfl
    · rfl
  | stack size offset target =>
    simp only [variableValue]
    split
    · rfl
    · rfl

lemma mentions_unary (op : UnaryOp) (x : Exp) : (unary op x).mentions = x.mentions := by
  cases op <;> simp [unary, Exp.mentions]

lemma mentions_element (x y : Exp) (type : Ty) :
    (element x y type).mentions = x.mentions ++ y.mentions := by
  unfold element
  split <;> simp [Exp.mentions]

lemma mentions_copyWords (t t' : Temp) (size : Int) :
    Stm.mentionsAll (copyWords t t' size) = [] := by
  rw [List.eq_nil_iff_forall_not_mem]
  intro m hm
  obtain ⟨s, hs, hm⟩ := Stm.mem_mentionsAll.mp hm
  obtain ⟨i, -, rfl⟩ := List.mem_map.mp hs
  simp [Stm.mentions, Exp.mentions, mem_mentions_offset] at hm

lemma callee_not_mem_link {c : Callee} {n : Node} {f : String} {st st' : State}
    (h : (callee scope level n f).run st = .ok (c, st')) : .callee l ∉ c.link.mentions := by
  cases hb : scope.tables.bindings[n.id]? with
  | some target =>
    obtain ⟨frame, -, -, rfl, -⟩ := (callee_bound_ok hb).mp h
    simp only [linkOf]
    split
    · simp [Exp.mentions]
    · exact callee_not_mem_staticLink _
  | none =>
    obtain ⟨i, -, rfl, -⟩ := (callee_free_ok hb).mp h
    simp [Exp.mentions]

lemma callee_mem_call {c : Callee} {xs : List (Temp × Exp)} (hl : .callee l ∉ c.link.mentions)
    (h : .callee l ∈ (c.call xs).mentions) :
    l = c.label ∨ ∃ x ∈ xs, .callee l ∈ x.2.mentions := by
  have hsave : .callee l ∉ Stm.mentionsAll (c.oldFp.toList.map saveFp) := by
    intro hm
    obtain ⟨s, hs, hm⟩ := Stm.mem_mentionsAll.mp hm
    obtain ⟨n, -, rfl⟩ := List.mem_map.mp hs
    simp [saveFp, Stm.mentions, Exp.mentions] at hm
  have htemps : Exp.mentionsAll (xs.map fun x => .temp x.1) = [] := by
    clear h
    induction xs with
    | nil => rfl
    | cons x xs ih => simp [Exp.mentionsAll, Exp.mentions, ih]
  simp only [Callee.call, Exp.mentions, Stm.mentions, Stm.mentionsAll_append, Exp.mentionsAll, htemps,
    List.append_nil, List.mem_append, List.mem_cons, hsave, hl, or_false] at h
  rcases h with h | h
  · right
    obtain ⟨s, hs, hm⟩ := Stm.mem_mentionsAll.mp h
    obtain ⟨x, hx, rfl⟩ := List.mem_map.mp hs
    exact ⟨x, hx, by simpa [Stm.mentions, Exp.mentions] using hm⟩
  · left
    simpa using h

lemma mem_mentions_toStm {m : Mention} (r : Fragment) :
    m ∈ r.toStm.mentions ↔ m ∈ r.toExp.mentions := by
  cases r with
  | value x => rfl
  | effect s => simp [Fragment.toStm, Fragment.toExp, Fragment.void, Exp.mentions]

lemma mem_mentions_block {m : Mention} {init : List Stm} {last : Option Fragment}
    (h : m ∈ (block init last).toExp.mentions) :
    (∃ s ∈ init, m ∈ s.mentions) ∨ ∃ r ∈ last, m ∈ r.toExp.mentions := by
  cases last with
  | none => simp [block, Fragment.toExp, Fragment.void, Exp.mentions] at h
  | some r =>
    cases r with
    | value x =>
      rcases List.mem_append.mp h with h | h
      · exact .inl (Stm.mem_mentionsAll.mp h)
      · exact .inr ⟨_, rfl, h⟩
    | effect s =>
      have hs : m ∈ Stm.mentionsAll (init ++ [s]) := by
        simpa [block, Fragment.toExp, Fragment.void, Exp.mentions, Stm.mentions] using h
      obtain ⟨s', hs', hm⟩ := Stm.mem_mentionsAll.mp hs
      rcases List.mem_append.mp hs' with hs' | hs'
      · exact .inl ⟨s', hs', hm⟩
      · obtain rfl := List.mem_singleton.mp hs'
        exact .inr ⟨_, rfl, (mem_mentions_toStm (.effect s')).mp hm⟩

end Parts

mutual

lemma expr_callees (e : Expr) {level : Nat} {st st' : State} {r : Fragment} {l : Label}
    (h : (expr scope level e).run st = .ok (r, st')) (hm : .callee l ∈ r.toExp.mentions) :
    CalledIn scope level e.items l := by
  cases e with
  | literal n v =>
    cases v with
    | integer w =>
      obtain ⟨rfl, -⟩ := expr_integer_ok.mp h
      simp [Fragment.toExp, Exp.mentions] at hm
    | logical b =>
      obtain ⟨rfl, -⟩ := expr_logical_ok.mp h
      simp [Fragment.toExp, Exp.mentions] at hm
    | string text =>
      obtain ⟨rfl, -⟩ := expr_string_ok.mp h
      simp [Fragment.toExp, Exp.mentions] at hm
  | name n x =>
    obtain ⟨_, _, _, -, -, -, -, rfl, -⟩ := expr_name_ok.mp h
    rw [Fragment.toExp, mentions_variableValue] at hm
    exact (callee_not_mem_addressOf _ hm).elim
  | unary n op x =>
    obtain ⟨_, hx, rfl⟩ := expr_unary_ok.mp h
    rw [Fragment.toExp, mentions_unary] at hm
    exact (expr_callees x hx hm).of_part (by simp [Expr.items, Expr.mem_items])
  | binary n op x y =>
    cases op with
    | compute op =>
      obtain ⟨_, _, _, hx, hy, rfl⟩ := expr_compute_ok.mp h
      rcases List.mem_append.mp hm with hm | hm
      · exact (expr_callees x hx hm).of_part (by simp [Expr.items, Expr.mem_items])
      · exact (expr_callees y hy hm).of_part (by simp [Expr.items, Expr.mem_items])
    | index =>
      obtain ⟨_, _, -, -, _, _, _, hx, hy, rfl⟩ := expr_index_ok.mp h
      rw [Fragment.toExp, mentions_element] at hm
      rcases List.mem_append.mp hm with hm | hm
      · exact (expr_callees x hx hm).of_part (by simp [Expr.items, Expr.mem_items])
      · exact (expr_callees y hy hm).of_part (by simp [Expr.items, Expr.mem_items])
    | assign =>
      obtain ⟨type, -, h⟩ := expr_assign_ok.mp h
      split at h
      · obtain ⟨-, _, _, _, hx, hy, rfl⟩ := h
        simp only [Fragment.toExp, Fragment.void, Exp.mentions, Stm.mentions, Stm.mentionsAll,
          mentions_copyWords, List.append_nil, List.nil_append, List.mem_append] at hm
        rcases hm with hm | hm
        · exact (expr_callees x hx hm).of_part (by simp [Expr.items, Expr.mem_items])
        · exact (expr_callees y hy hm).of_part (by simp [Expr.items, Expr.mem_items])
      · obtain ⟨_, _, _, hx, -, hy, rfl⟩ := h
        simp only [Fragment.toExp, Fragment.void, Exp.mentions, Stm.mentions, List.append_nil,
          List.mem_append] at hm
        rcases hm with hm | hm
        · exact (expr_callees x hx hm).of_part (by simp [Expr.items, Expr.mem_items])
        · exact (expr_callees y hy hm).of_part (by simp [Expr.items, Expr.mem_items])
  | call n f args =>
    obtain ⟨c, st₁, xs, hc, hx, rfl⟩ := expr_call_ok.mp h
    rcases callee_mem_call (callee_not_mem_link hc) hm with rfl | ⟨x, hmem, hm⟩
    · exact ⟨n, f, args, c, st, st₁, Expr.mem_items _, hc, rfl⟩
    · exact (arguments_callees args hx hmem hm).mono (by simp [Expr.items])
  | block n es =>
    obtain ⟨_, _, hb, rfl⟩ := expr_block_ok.mp h
    exact (body_callees es hb (mem_mentions_block hm)).mono (by simp [Expr.items])
  | ifThen n c p =>
    obtain ⟨_, _, _, hc, hp, rfl⟩ := expr_ifThen_ok.mp h
    simp only [Fragment.toExp, Fragment.void, ifThen, Exp.mentions, Stm.mentions, Stm.mentionsAll,
      List.append_nil, List.nil_append, List.mem_append, mem_mentions_toStm] at hm
    rcases hm with hm | hm
    · exact (expr_callees c hc hm).of_part (by simp [Expr.items, Expr.mem_items])
    · exact (expr_callees p hp hm).of_part (by simp [Expr.items, Expr.mem_items])
  | ifElse n c p q =>
    obtain ⟨_, _, _, _, _, hc, hp, hq, rfl⟩ := expr_ifElse_ok.mp h
    simp only [Fragment.toExp, Fragment.void, ifElse, Exp.mentions, Stm.mentions, Stm.mentionsAll,
      List.append_nil, List.nil_append, List.mem_append, mem_mentions_toStm] at hm
    rcases hm with hm | hm | hm
    · exact (expr_callees c hc hm).of_part (by simp [Expr.items, Expr.mem_items])
    · exact (expr_callees p hp hm).of_part (by simp [Expr.items, Expr.mem_items])
    · exact (expr_callees q hq hm).of_part (by simp [Expr.items, Expr.mem_items])
  | whileLoop n c b =>
    obtain ⟨_, _, _, hc, hb, rfl⟩ := expr_whileLoop_ok.mp h
    simp only [Fragment.toExp, Fragment.void, whileLoop, Exp.mentions, Stm.mentions, Stm.mentionsAll,
      List.append_nil, List.nil_append, List.mem_append, mem_mentions_toStm] at hm
    rcases hm with hm | hm
    · exact (expr_callees c hc hm).of_part (by simp [Expr.items, Expr.mem_items])
    · exact (expr_callees b hb hm).of_part (by simp [Expr.items, Expr.mem_items])
  | forLoop n c low high step b =>
    obtain ⟨_, _, _, _, _, _, _, _, _, hc, -, hl, hh, ht, hb, rfl⟩ := expr_forLoop_ok.mp h
    simp only [Fragment.toExp, Fragment.void, forLoop, Exp.mentions, Stm.mentions, Stm.mentionsAll,
      List.append_nil, List.nil_append, List.mem_append, mem_mentions_toStm] at hm
    rcases hm with (hm | hm) | (hm | hm) | hm | hm | hm | hm
    · exact (expr_callees c hc hm).of_part (by simp [Expr.items, Expr.mem_items])
    · exact (expr_callees low hl hm).of_part (by simp [Expr.items, Expr.mem_items])
    · exact (expr_callees c hc hm).of_part (by simp [Expr.items, Expr.mem_items])
    · exact (expr_callees high hh hm).of_part (by simp [Expr.items, Expr.mem_items])
    · exact (expr_callees b hb hm).of_part (by simp [Expr.items, Expr.mem_items])
    · exact (expr_callees c hc hm).of_part (by simp [Expr.items, Expr.mem_items])
    · exact (expr_callees c hc hm).of_part (by simp [Expr.items, Expr.mem_items])
    · exact (expr_callees step ht hm).of_part (by simp [Expr.items, Expr.mem_items])
  | whereDefs n x m ds =>
    obtain ⟨_, -, hx⟩ := expr_whereDefs_ok.mp h
    exact (expr_callees x hx hm).of_part (by simp [Expr.items, Expr.mem_items])

lemma arguments_callees (es : List Expr) {level : Nat} {st st' : State} {xs : List (Temp × Exp)}
    {l : Label} (h : (arguments scope level es).run st = .ok (xs, st')) {x : Temp × Exp}
    (hx : x ∈ xs) (hm : .callee l ∈ x.2.mentions) :
    CalledIn scope level (Expr.itemsAll es) l := by
  cases es with
  | nil =>
    obtain ⟨rfl, -⟩ := arguments_nil_ok.mp h
    cases hx
  | cons e es =>
    obtain ⟨_, _, _, he, hes, rfl⟩ := arguments_cons_ok.mp h
    rcases List.mem_cons.mp hx with rfl | hx
    · exact (expr_callees e he hm).mono (List.subset_append_left ..)
    · exact (arguments_callees es hes hx hm).mono (List.subset_append_right ..)

lemma body_callees (es : List Expr) {level : Nat} {st st' : State} {init : List Stm}
    {last : Option Fragment} {l : Label}
    (h : (body scope level es).run st = .ok ((init, last), st'))
    (hm : (∃ s ∈ init, .callee l ∈ s.mentions) ∨ ∃ r ∈ last, .callee l ∈ r.toExp.mentions) :
    CalledIn scope level (Expr.itemsAll es) l := by
  match es with
  | [] =>
    obtain ⟨rfl, rfl, -⟩ := body_nil_ok.mp h
    rcases hm with ⟨s, hs, -⟩ | ⟨r, hr, -⟩
    · cases hs
    · cases hr
  | [e] =>
    obtain ⟨r, he, rfl, rfl⟩ := body_singleton_ok.mp h
    rcases hm with ⟨s, hs, -⟩ | ⟨q, hq, hm⟩
    · cases hs
    · obtain rfl := Option.some.inj hq
      exact (expr_callees e he hm).mono (List.subset_append_left ..)
  | e :: e' :: es =>
    obtain ⟨r, _, rest, he, hes, rfl⟩ := body_cons_ok.mp h
    rcases hm with ⟨s, hs, hm⟩ | hm
    · rcases List.mem_cons.mp hs with rfl | hs
      · exact (expr_callees e he ((mem_mentions_toStm r).mp hm)).mono (List.subset_append_left ..)
      · exact (body_callees (e' :: es) hes (.inl ⟨s, hs, hm⟩)).mono (List.subset_append_right ..)
    · exact (body_callees (e' :: es) hes (.inr hm)).mono (List.subset_append_right ..)

end

end Lowering

end BlockLang
