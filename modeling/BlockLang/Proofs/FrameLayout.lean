import BlockLang.Proofs.Compilation
import BlockLang.Source.Builder
import Mathlib.Algebra.Order.BigOperators.Group.List
import Mathlib.Algebra.Ring.Int.Defs

namespace BlockLang

open Source

namespace Source

def Item.locals : Item → List NodeId
  | .defn d => d.variables false
  | .expr _ => []

lemma Def.variablesAll_eq (deep : Bool) (ds : List Def) :
    Def.variablesAll deep ds = ds.flatMap (Def.variables deep) := by
  induction ds with
  | nil => rfl
  | cons d ds ih => rw [Def.variablesAll, ih, List.flatMap_cons]

mutual

lemma Expr.locals_items (e : Expr) : e.items.flatMap Item.locals = e.variables false := by
  cases e with
  | literal n v => rfl
  | name n x => rfl
  | unary n op x => simp [Expr.items, Expr.variables, Item.locals, x.locals_items]
  | binary n op x y =>
    simp [Expr.items, Expr.variables, Item.locals, x.locals_items, y.locals_items]
  | call n f args => simp [Expr.items, Expr.variables, Item.locals, Expr.locals_itemsAll args]
  | block n body => simp [Expr.items, Expr.variables, Item.locals, Expr.locals_itemsAll body]
  | ifThen n c p => simp [Expr.items, Expr.variables, Item.locals, c.locals_items, p.locals_items]
  | ifElse n c p q =>
    simp [Expr.items, Expr.variables, Item.locals, c.locals_items, p.locals_items, q.locals_items]
  | whileLoop n c b =>
    simp [Expr.items, Expr.variables, Item.locals, c.locals_items, b.locals_items]
  | forLoop n c low high step b =>
    simp [Expr.items, Expr.variables, Item.locals, c.locals_items, low.locals_items,
      high.locals_items, step.locals_items, b.locals_items]
  | whereDefs n x m ds =>
    simp [Expr.items, Expr.variables, Item.locals, List.flatMap_map, x.locals_items,
      Def.variablesAll_eq]

lemma Expr.locals_itemsAll (es : List Expr) :
    (Expr.itemsAll es).flatMap Item.locals = Expr.variablesAll false es := by
  cases es with
  | nil => rfl
  | cons e es =>
    simp [Expr.itemsAll, Expr.variablesAll, e.locals_items, Expr.locals_itemsAll es]

end

end Source

lemma Ty.paramSize_of_ne_void {t : Ty} (h : t ≠ .void) : t.paramSize = 8 := by
  cases t with
  | void => exact (h rfl).elim
  | _ => rfl

lemma Ty.paramSize_nonneg (t : Ty) : 0 ≤ t.paramSize := by
  by_cases h : t = .void
  · rw [h]
    exact Int.le_refl 0
  · rw [Ty.paramSize_of_ne_void h]
    decide

namespace Layout

variable {types : NodeTable Ty} {f f' : Frame} {l l' : Layout}

def TypesOf (types : NodeTable Ty) (ids : List NodeId) (ts : List Ty) : Prop :=
  List.Forall₂ (fun i t => types[i]? = some t) ids ts

lemma TypesOf.map_eq {ids : List NodeId} {ts : List Ty} (h : TypesOf types ids ts) {g : Ty → Int}
    {s : Int} (hs : ∀ i ∈ ids, ∀ t, types[i]? = some t → g t = s) :
    ts.map g = List.replicate ids.length s := by
  induction h with
  | nil => rfl
  | @cons i t ids ts hi _ ih =>
    rw [List.forall_mem_cons] at hs
    rw [List.map_cons, ih hs.2, hs.1 t hi, List.length_cons, List.replicate_succ]

def LocalsAt (l : Layout) (level : Nat) (start : Int) (vs : List NodeId) (sizes : List Int) : Prop :=
  ∀ (i : Nat) (v : NodeId) (s : Int), vs[i]? = some v → sizes[i]? = some s →
    l.accesses[v]? = some (.stack s (-(start + (sizes.take (i + 1)).sum)) level)

def ParamsAt (l : Layout) (level : Nat) (start : Int) (ps : List NodeId) (sizes : List Int) : Prop :=
  ∀ (k : Nat) (q : NodeId) (s : Int), ps[k]? = some q → sizes[k]? = some s →
    l.accesses[q]? = some (.param s (start + (sizes.take k).sum) level)

lemma Lays.locals {is : List Item} (h : Lays types is f l f' l') (hn : (is.flatMap Item.ids).Nodup) :
    ∃ ts, TypesOf types (is.flatMap Item.locals) ts ∧ f'.locals = f.locals + (ts.map Ty.size).sum ∧
      LocalsAt l' f.level f.locals (is.flatMap Item.locals) (ts.map Ty.size) := by
  induction h with
  | nil => exact ⟨[], .nil, by simp, fun i v s hv => by simp at hv⟩
  | @cons i is f f₁ f' l l₁ l' h hrest ih =>
    rw [List.flatMap_cons, List.nodup_append] at hn
    obtain ⟨-, hn', hdis⟩ := hn
    obtain ⟨ts, hts, hsum, hat⟩ := ih hn'
    have hlevel : f₁.level = f.level := (Lays.cons h .nil).frame.2.1
    rw [List.flatMap_cons]
    cases h with
    | call h => exact ⟨ts, hts, hsum, hat⟩
    | expr h => exact ⟨ts, hts, hsum, hat⟩
    | @defn d _ _ _ _ h =>
      cases d with
      | func n x ps t b =>
        obtain ⟨g, l₂, -, rfl, -⟩ := addDef_func_ok.mp h
        exact ⟨ts, hts, hsum, hat⟩
      | type n x t =>
        obtain ⟨rfl, -⟩ := run_pure_ok.mp h
        exact ⟨ts, hts, hsum, hat⟩
      | var n x t =>
        obtain ⟨type, ht, rfl, rfl⟩ := addDef_var_ok.mp h
        have hkept := (hrest.keeps fun d _ => addDef_keeps d).accesses n.id fun hmem =>
          hdis n.id (List.mem_cons_self ..) n.id hmem rfl
        simp only [Frame.addLocal] at hsum hat
        refine ⟨type :: ts, .cons ht hts, ?_, fun i v s hv hs => ?_⟩
        · rw [hsum, List.map_cons, List.sum_cons, Int.add_assoc]
        · cases i with
          | zero =>
            obtain rfl := Option.some.inj hv
            obtain rfl := Option.some.inj hs
            rw [hkept]
            simp [Frame.nextLocal]
          | succ i =>
            rw [hat i v s hv hs, List.map_cons, List.take_succ_cons, List.sum_cons, Int.add_assoc]

lemma addParams_params {ps : List Param} (h : (addParams types ps f).run l = .ok (f', l'))
    (hn : (ps.flatMap Param.ids).Nodup) :
    ∃ ts, TypesOf types (ps.map fun q => q.node.id) ts ∧
      f'.params = f.params + (ts.map Ty.paramSize).sum ∧
      f'.locals = f.locals ∧ f'.outgoing = f.outgoing ∧
      ParamsAt l' f.level f.params (ps.map fun q => q.node.id) (ts.map Ty.paramSize) := by
  induction ps generalizing f l with
  | nil =>
    obtain ⟨rfl, rfl⟩ := run_pure_ok.mp h
    exact ⟨[], .nil, by simp, rfl, rfl, fun k q s hq => by simp at hq⟩
  | cons q ps ih =>
    simp only [addParams, run_bind_ok, typeOf_ok, setAccess_ok] at h
    obtain ⟨type, _, ⟨ht, rfl⟩, _, _, rfl, h⟩ := h
    rw [List.flatMap_cons, List.nodup_append] at hn
    obtain ⟨-, hn', hdis⟩ := hn
    obtain ⟨ts, hts, hsum, hlocals, houtgoing, hat⟩ := ih h hn'
    have hkept := (addParams_kept h).2 q.node.id fun hm => hdis _ (List.mem_cons_self ..) _ hm rfl
    simp only [Frame.addParam] at hsum hlocals houtgoing hat
    refine ⟨type :: ts, .cons ht hts, ?_, hlocals, houtgoing, fun k v s hv hs => ?_⟩
    · rw [hsum, List.map_cons, List.sum_cons, Int.add_assoc]
    · cases k with
      | zero =>
        obtain rfl := Option.some.inj hv
        obtain rfl := Option.some.inj hs
        rw [hkept]
        simp [Frame.nextParam]
      | succ k =>
        rw [hat k v s hv hs, List.map_cons, List.take_succ_cons, List.sum_cons, Int.add_assoc]

lemma ArgsSize.eq_of_ne_void {args : List Expr} {size : Int} (h : ArgsSize types args size)
    (hv : ∀ e ∈ args, types[e.node.id]? ≠ some .void) : size = 8 * args.length := by
  induction args generalizing size with
  | nil => simpa using argsSize_nil.mp h
  | cons e es ih =>
    obtain ⟨t, rest, ht, hes, rfl⟩ := argsSize_cons.mp h
    rw [List.forall_mem_cons] at hv
    have hword := Ty.paramSize_of_ne_void fun he => hv.1 (he ▸ ht)
    rw [ih hes hv.2, hword, List.length_cons]
    push_cast
    omega

structure Outgoing (types : NodeTable Ty) (is : List Item) (start : Int) (f : Frame) : Prop where
  start_le : start ≤ f.outgoing
  room : ∀ n x args, .expr (.call n x args) ∈ is →
    ∃ size, ArgsSize types args size ∧ wordSize + size ≤ f.outgoing
  attained : f.outgoing = start ∨ ∃ n x args size, .expr (.call n x args) ∈ is ∧
    ArgsSize types args size ∧ f.outgoing = wordSize + size

lemma LaysItem.outgoing {i : Item} (h : LaysItem types i f l f' l') :
    Outgoing types [i] f.outgoing f' := by
  cases h with
  | @defn d _ _ _ _ h =>
    have hsame : f'.outgoing = f.outgoing := by
      cases d with
      | var n x t =>
        obtain ⟨type, -, rfl, -⟩ := addDef_var_ok.mp h
        rfl
      | func n x ps t b =>
        obtain ⟨g, l₂, -, rfl, -⟩ := addDef_func_ok.mp h
        rfl
      | type n x t =>
        obtain ⟨rfl, -⟩ := run_pure_ok.mp h
        rfl
    exact ⟨Int.le_of_eq hsame.symm, fun n x args hm => (by simp at hm), .inl hsame⟩
  | @call n x args size f l h =>
    have hmax : (f.addCall (wordSize + size)).outgoing = max f.outgoing (wordSize + size) := by
      simp only [Frame.addCall, Int.max_def]
    refine ⟨by omega, fun n' x' args' hm => ?_, ?_⟩
    · cases List.mem_singleton.mp hm
      exact ⟨size, h, by omega⟩
    · rcases Int.le_total (wordSize + size) f.outgoing with hle | hle
      · exact .inl (by omega)
      · exact .inr ⟨n, x, args, size, List.mem_singleton_self _, h, by omega⟩
  | @expr e f l he =>
    refine ⟨Int.le_refl _, fun n x args hm => ?_, .inl rfl⟩
    cases List.mem_singleton.mp hm
    cases he

lemma Lays.outgoing {is : List Item} (h : Lays types is f l f' l') :
    Outgoing types is f.outgoing f' := by
  induction h with
  | nil => exact ⟨Int.le_refl _, fun n x args hm => (by cases hm), .inl rfl⟩
  | @cons i is f f₁ f' l l₁ l' h _ ih =>
    have hi := h.outgoing
    have hle := ih.start_le
    refine ⟨Int.le_trans hi.start_le hle, fun n x args hm => ?_, ?_⟩
    · rcases List.mem_cons.mp hm with rfl | hm
      · obtain ⟨size, hs, hroom⟩ := hi.room n x args (List.mem_singleton_self _)
        exact ⟨size, hs, Int.le_trans hroom hle⟩
      · exact ih.room n x args hm
    · rcases ih.attained with he | ⟨n, x, args, size, hm, hs, he⟩
      · rcases hi.attained with he' | ⟨n, x, args, size, hm, hs, he'⟩
        · exact .inl (he.trans he')
        · exact .inr ⟨n, x, args, size, List.mem_cons.mpr (.inl (List.mem_singleton.mp hm)), hs,
            he.trans he'⟩
      · exact .inr ⟨n, x, args, size, List.mem_cons_of_mem _ hm, hs, he⟩

def Occupies (l : Layout) (v : NodeId) (x : Int) : Prop :=
  ∃ size offset level, (l.accesses[v]? = some (.stack size offset level) ∨
    l.accesses[v]? = some (.param size offset level)) ∧ offset ≤ x ∧ x < offset + size

section Sums

variable {sizes : List Int} {start x : Int}

lemma sum_take_le (h : ∀ s ∈ sizes, 0 ≤ s) {i j : Nat} (hij : i ≤ j) :
    (sizes.take i).sum ≤ (sizes.take j).sum :=
  (List.take_prefix_take_left hij).sublist.sum_le_sum fun s hs => h s (List.mem_of_mem_take hs)

lemma sum_take_succ {i : Nat} {s : Int} (hs : sizes[i]? = some s) :
    (sizes.take (i + 1)).sum = (sizes.take i).sum + s := by
  rw [List.take_add_one, hs, List.sum_append]
  simp

lemma sum_take_replicate {i n : Nat} (hi : i ≤ n) (s : Int) :
    ((List.replicate n s).take i).sum = i * s := by
  rw [List.take_replicate, Nat.min_eq_left hi, List.sum_replicate, Int.nsmul_eq_mul]

lemma exists_slot (start : Int) (hlow : -(start + sizes.sum) ≤ x) (hhigh : x < -start) :
    ∃ i s, sizes[i]? = some s ∧ -(start + (sizes.take (i + 1)).sum) ≤ x ∧
      x < -(start + (sizes.take (i + 1)).sum) + s := by
  induction sizes generalizing start with
  | nil =>
    rw [List.sum_nil] at hlow
    omega
  | cons s sizes ih =>
    rw [List.sum_cons] at hlow
    by_cases hs : -(start + s) ≤ x
    · refine ⟨0, s, rfl, ?_, ?_⟩
      · simpa using hs
      · simp only [Nat.zero_add, List.take_succ_cons, List.take_zero, List.sum_cons, List.sum_nil]
        omega
    · obtain ⟨i, s', hi, hlo, hhi⟩ := ih (start + s) (by omega) (by omega)
      refine ⟨i + 1, s', hi, ?_, ?_⟩
      · rw [List.take_succ_cons, List.sum_cons]
        omega
      · rw [List.take_succ_cons, List.sum_cons]
        omega

end Sums

/-- The frame of a function with given variables and parameters: both stand in order and without gaps,
the variables below the frame pointer and the parameters above the static link. -/
structure Arranges (types : NodeTable Ty) (l : Layout) (f : Frame) (vs ps : List NodeId)
    (vts pts : List Ty) : Prop where
  vars : TypesOf types vs vts
  params : TypesOf types ps pts
  locals_eq : f.locals = (vts.map Ty.size).sum
  params_eq : f.params = wordSize + (pts.map Ty.paramSize).sum
  localsAt : l.LocalsAt f.level 0 vs (vts.map Ty.size)
  paramsAt : l.ParamsAt f.level wordSize ps (pts.map Ty.paramSize)

namespace Arranges

variable {vs ps : List NodeId} {vts pts : List Ty}

lemma exists_size (h : Arranges types l f vs ps vts pts) {v : NodeId} (hv : v ∈ vs) :
    ∃ (i : Nat) (s : Int), vs[i]? = some v ∧ (vts.map Ty.size)[i]? = some s := by
  obtain ⟨i, hi⟩ := List.mem_iff_getElem?.mp hv
  have hlt := (List.getElem?_eq_some_iff.mp hi).1
  rw [h.vars.length_eq] at hlt
  exact ⟨i, vts[i].size, hi, by simp [hlt]⟩

lemma occupies_iff (h : Arranges types l f vs ps vts pts) {v : NodeId} {i : Nat} {s x : Int}
    (hv : vs[i]? = some v) (hs : (vts.map Ty.size)[i]? = some s) :
    l.Occupies v x ↔ -((vts.map Ty.size).take (i + 1)).sum ≤ x ∧
      x < -((vts.map Ty.size).take i).sum := by
  have hat := h.localsAt i v s hv hs
  rw [Int.zero_add] at hat
  rw [sum_take_succ hs] at hat ⊢
  constructor
  · rintro ⟨size, offset, level, ha | ha, hlo, hhi⟩
    · cases hat.symm.trans ha
      omega
    · cases hat.symm.trans ha
  · rintro ⟨hlo, hhi⟩
    exact ⟨s, _, f.level, .inl hat, hlo, by omega⟩

lemma occupied_iff (h : Arranges types l f vs ps vts pts) (h0 : ∀ t ∈ vts, 0 ≤ t.size) (x : Int) :
    -f.locals ≤ x ∧ x < 0 ↔ ∃ v ∈ vs, l.Occupies v x := by
  have hsizes : ∀ s ∈ vts.map Ty.size, 0 ≤ s := by simpa using h0
  constructor
  · rintro ⟨hlo, hhi⟩
    rw [h.locals_eq, ← Int.zero_add (List.sum _)] at hlo
    obtain ⟨i, s, hs, hlow, hhigh⟩ := exists_slot 0 hlo (by omega)
    have hi := (List.getElem?_eq_some_iff.mp hs).1
    rw [List.length_map, ← h.vars.length_eq] at hi
    refine ⟨vs[i], List.getElem_mem hi, (h.occupies_iff (List.getElem?_eq_getElem hi) hs).mpr ?_⟩
    rw [sum_take_succ hs] at hlow hhigh ⊢
    omega
  · rintro ⟨v, hv, ho⟩
    obtain ⟨i, s, hi, hs⟩ := h.exists_size hv
    obtain ⟨hlo, hhi⟩ := (h.occupies_iff hi hs).mp ho
    have hlast := sum_take_le hsizes (Nat.le_max_left (i + 1) (vts.map Ty.size).length)
    have hfirst := sum_take_le hsizes (Nat.zero_le i)
    rw [List.take_of_length_le (Nat.le_max_right _ _)] at hlast
    rw [List.take_zero, List.sum_nil] at hfirst
    rw [h.locals_eq]
    omega

lemma eq_of_occupies (h : Arranges types l f vs ps vts pts) (h0 : ∀ t ∈ vts, 0 ≤ t.size)
    {v v' : NodeId} (hv : v ∈ vs) (hv' : v' ∈ vs) {x : Int} (ho : l.Occupies v x)
    (ho' : l.Occupies v' x) : v = v' := by
  have hsizes : ∀ s ∈ vts.map Ty.size, 0 ≤ s := by simpa using h0
  obtain ⟨i, s, hi, hs⟩ := h.exists_size hv
  obtain ⟨j, s', hj, hs'⟩ := h.exists_size hv'
  have hx := (h.occupies_iff hi hs).mp ho
  have hx' := (h.occupies_iff hj hs').mp ho'
  rcases Nat.lt_trichotomy i j with hlt | rfl | hlt
  · have hle := sum_take_le hsizes (i := i + 1) hlt
    omega
  · exact Option.some.inj (hi.symm.trans hj)
  · have hle := sum_take_le hsizes (i := j + 1) hlt
    omega

lemma not_occupies (h : Arranges types l f vs ps vts pts) (h0 : ∀ t ∈ vts, 0 ≤ t.size) {x : Int}
    (hx : x < -f.locals) {v : NodeId} (hv : v ∈ vs ++ ps) : ¬l.Occupies v x := by
  intro ho
  rcases List.mem_append.mp hv with hv | hv
  · have hle := ((h.occupied_iff h0 x).mpr ⟨v, hv, ho⟩).1
    omega
  · have hlocals : 0 ≤ f.locals := by
      rw [h.locals_eq]
      exact List.sum_nonneg (by simpa using h0)
    obtain ⟨k, hk⟩ := List.mem_iff_getElem?.mp hv
    have hlt := (List.getElem?_eq_some_iff.mp hk).1
    rw [h.params.length_eq] at hlt
    have hat := h.paramsAt k v pts[k].paramSize hk (by simp [hlt])
    have hfirst : ((pts.map Ty.paramSize).take 0).sum ≤ ((pts.map Ty.paramSize).take k).sum :=
      sum_take_le (by simp [Ty.paramSize_nonneg]) (Nat.zero_le k)
    rw [List.take_zero, List.sum_nil] at hfirst
    have hword : wordSize = 8 := rfl
    obtain ⟨size, offset, level, ha | ha, hlo, -⟩ := ho
    · cases hat.symm.trans ha
    · cases hat.symm.trans ha
      omega

end Arranges

/-- The variables of a frame share no byte and cover all of `[-f.locals, 0)`. What is below (the saved
frame pointer and the arguments of calls) belongs to no variable and no parameter. -/
structure Tiled (l : Layout) (f : Frame) (vs ps : List NodeId) : Prop where
  covered : ∀ x, -f.locals ≤ x ∧ x < 0 ↔ ∃ v ∈ vs, l.Occupies v x
  apart : ∀ v ∈ vs, ∀ v' ∈ vs, ∀ x, l.Occupies v x → l.Occupies v' x → v = v'
  free : ∀ x, x < -f.locals → ∀ v ∈ vs ++ ps, ¬l.Occupies v x

/-- The layout of a program gives a frame to each function and a place to each variable and parameter,
and to nothing else. -/
structure Exact (p : Source.Program) (l : Layout) : Prop where
  frame : ∀ outer n x ps t b, (⟨outer, .defn (.func n x ps t b)⟩ : Occurrence) ∈ p.occurrences →
    ∃ f vts pts, l.frames[n.id]? = some f ∧ f.level = outer.length + 1 ∧
      Arranges p.tables.types l f (b.variables false) (ps.map fun q => q.node.id) vts pts ∧
      ((∀ t ∈ vts, 0 ≤ t.size) → Tiled l f (b.variables false) (ps.map fun q => q.node.id))
  frames : ∀ i, l.frames[i]?.isSome = true ↔ i ∈ functionIds p.occurrences
  accesses : ∀ i, l.accesses[i]?.isSome = true ↔ i ∈ placeIds p.occurrences
  globals : ∀ i, (∃ size label, l.accesses[i]? = some (.global size label)) ↔
    ∃ n x t, .var n x t ∈ p.defs.definitions ∧ n.id = i

section Program

variable {p : Source.Program} {outer : List NodeId} {n : Node} {x : String} {ps : List Param}
variable {t : TypeExpr} {b : Expr}

lemma layout_arranges (hl : p.layout = .ok l) (hn : p.ids.Nodup)
    (ho : ⟨outer, .defn (.func n x ps t b)⟩ ∈ p.occurrences) :
    ∃ f vts pts, l.frames[n.id]? = some f ∧ f.level = outer.length + 1 ∧
      Arranges p.tables.types l f (b.variables false) (ps.map fun q => q.node.id) vts pts ∧
      Outgoing p.tables.types b.items 0 f := by
  obtain ⟨hnd, -⟩ := layout_defn hl hn ho
  obtain ⟨label, -, -, l₀, inner, l₁, f, l₂, hp, hb, hf, ha, hk⟩ := layout_func hl hn ho
  obtain ⟨hnp, hnb⟩ := List.nodup_append.mp (List.nodup_cons.mp hnd).2
  have hnb : b.ids.Nodup := (List.nodup_append.mp hnb.1).2.1
  obtain ⟨pts, hpts, hparams, hlocals₀, houtgoing₀, hpat⟩ := addParams_params hp hnp
  obtain ⟨vts, hvts, hlocals, hlat⟩ := hb.locals (Expr.nodup_items hnb)
  obtain ⟨-, hlevel, hparams'⟩ := hb.frame
  have hlevel₀ := (addParams_frame hp).2.1
  simp only at hlocals₀ houtgoing₀ hlevel₀ hparams hpat
  rw [Expr.locals_items] at hvts hlat
  rw [hlocals₀] at hlocals hlat
  rw [Int.zero_add] at hlocals
  refine ⟨f, vts, pts, hf, hlevel.trans hlevel₀, ⟨hvts, hpts, hlocals, hparams'.trans hparams,
    fun i v s hv hs => ?_, fun k q s hq hs => ?_⟩, houtgoing₀ ▸ hb.outgoing⟩
  · have hmem := b.variables_subset false (List.mem_of_getElem? hv)
    rw [(hk v hmem).1, hlat i v s hv hs, hlevel]
  · obtain ⟨q', hq', rfl⟩ := List.mem_map.mp (List.mem_of_getElem? hq)
    have hmem : q'.node.id ∈ ps.flatMap Param.ids :=
      List.mem_flatMap.mpr ⟨q', hq', List.mem_cons_self ..⟩
    rw [ha _ hmem, hpat k _ s hq hs, hlevel, hlevel₀]

lemma layout_frames_iff (hl : p.layout = .ok l) (hn : p.ids.Nodup) (i : NodeId) :
    l.frames[i]?.isSome = true ↔ i ∈ functionIds p.occurrences := by
  rw [Option.isSome_iff_exists]
  constructor
  · rintro ⟨f, hf⟩
    exact layout_frame hl hf
  · intro hi
    obtain ⟨outer, n, x, ps, t, b, ho, rfl⟩ := mem_functionIds.mp hi
    obtain ⟨f, hf, -⟩ := layout_frame_level hl hn ho
    exact ⟨f, hf⟩

lemma layout_accesses_iff (hl : p.layout = .ok l) (hn : p.ids.Nodup) (i : NodeId) :
    l.accesses[i]?.isSome = true ↔ i ∈ placeIds p.occurrences := by
  rw [Option.isSome_iff_exists]
  constructor
  · rintro ⟨a, ha⟩
    exact layout_access hl ha
  · intro hi
    obtain ⟨⟨outer, item⟩, ho, hi⟩ := List.mem_flatMap.mp hi
    cases item with
    | expr e => cases hi
    | defn d =>
      cases d with
      | type n x t => cases hi
      | var n x t =>
        obtain rfl := List.mem_singleton.mp hi
        obtain ⟨type, -, htop, hin⟩ := layout_var hl hn ho
        by_cases h : outer = []
        · exact ⟨_, htop h⟩
        · obtain ⟨offset, ha⟩ := hin h
          exact ⟨_, ha⟩
      | func n x ps t b =>
        obtain ⟨q, hq, rfl⟩ := List.mem_map.mp hi
        obtain ⟨type, offset, -, ha⟩ := layout_param hl hn ho hq
        exact ⟨_, ha⟩

lemma layout_globals_iff (hl : p.layout = .ok l) (hn : p.ids.Nodup) (i : NodeId) :
    (∃ size label, l.accesses[i]? = some (.global size label)) ↔
      ∃ n x t, .var n x t ∈ p.defs.definitions ∧ n.id = i := by
  constructor
  · rintro ⟨size, label, ha⟩
    obtain ⟨n, x, t, -, hm, rfl, -⟩ := layout_global hl ha
    exact ⟨n, x, t, hm, rfl⟩
  · rintro ⟨n, x, t, hm, rfl⟩
    have ho : ⟨[], .defn (.var n x t)⟩ ∈ p.occurrences := by
      rw [Program.occurrences, Def.occurrencesAll_eq]
      exact List.mem_flatMap.mpr ⟨_, hm, List.mem_singleton_self _⟩
    obtain ⟨type, -, htop, -⟩ := layout_var hl hn ho
    exact ⟨_, _, htop rfl⟩

end Program

end Layout

theorem layout_is_exact {p : Source.Program} {l : Layout} (hn : p.ids.Nodup) (hl : p.layout = .ok l) :
    l.Exact p where
  frame outer n x ps t b ho := by
    obtain ⟨f, vts, pts, hf, hlevel, h, -⟩ := Layout.layout_arranges hl hn ho
    refine ⟨f, vts, pts, hf, hlevel, h, fun h0 => ⟨h.occupied_iff h0, ?_, ?_⟩⟩
    · exact fun v hv v' hv' x => h.eq_of_occupies h0 hv hv'
    · exact fun x hx v hv => h.not_occupies h0 hx hv
  frames := Layout.layout_frames_iff hl hn
  accesses := Layout.layout_accesses_iff hl hn
  globals := Layout.layout_globals_iff hl hn

/-! Variables of two functions, declared around and inside an expression.
```text
fun f(n: integer, s: string): integer =
  ((c[n] where (var c: arr[3] integer; fun g(k: integer): integer = (b where var b: integer))) + a)
    where var a: integer
var x: integer
```
-/

def interleaved : Build Source.Program := do
  let n ← Builder.param "n" .int
  let s ← Builder.param "s" .str
  let f ← Builder.signature "f" [n, s] .int
  let a ← Builder.var "a" .int
  let c ← Builder.var "c" (.array 3 .int)
  let g ← Builder.signature "g" [← Builder.param "k" .int] .int
  let b ← Builder.var "b" .int
  let inner ← Builder.whereDefs (← Builder.name b.ref) [b]
  let element ← Builder.index (← Builder.name c.ref) (← Builder.name n.ref)
  let left ← Builder.whereDefs element [c, Builder.func g inner]
  let sum ← Builder.compute .add left (← Builder.name a.ref)
  let body ← Builder.whereDefs sum [a]
  Builder.finish [Builder.func f body, ← Builder.var "x" .int]

theorem layout_is_exact_interleaved :
    ∃ p l, Builder.run interleaved = .ok p ∧ p.ids.Nodup ∧ p.layout = .ok l ∧ l.Exact p := by
  obtain ⟨p, hb, h⟩ : ∃ p, Builder.run interleaved = .ok p ∧
      (decide p.ids.Nodup && p.layout.toOption.any fun _ => true) = true :=
    exists_ok_of_any (by decide +kernel)
  obtain ⟨hn, h⟩ := Bool.and_eq_true_iff.mp h
  obtain ⟨l, hl, -⟩ := exists_ok_of_any h
  exact ⟨p, l, hb, of_decide_eq_true hn, hl, layout_is_exact (of_decide_eq_true hn) hl⟩

end BlockLang
