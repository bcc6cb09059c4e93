import BlockLang.Proofs.LoweringFailures
import BlockLang.Source.Sample

/-! The layout and the lowering agree on every program that is well scoped: no table lacks an entry
that the lowering asks for. -/

namespace BlockLang

open Source Code Lowering

namespace Source

def Occurrence.declares (o : Occurrence) (outer : List NodeId) (d : NodeId) : Bool :=
  match o.item with
  | .defn (.var n _ _) => n.id == d && o.outer.isSuffixOf outer
  | .defn (.func n _ ps _ _) =>
    ps.any (fun q => q.node.id == d) && (n.id :: o.outer).isSuffixOf outer
  | .defn (.type _ _ _) | .expr _ => false

def Occurrence.offers (o : Occurrence) (outer : List NodeId) (d : NodeId) : Bool :=
  match o.item with
  | .defn (.func n _ _ _ _) => n.id == d && o.outer.isSuffixOf outer
  | .defn (.var _ _ _) | .defn (.type _ _ _) | .expr _ => false

namespace Program

def knows (p : Program) (n : Node) : Bool := p.tables.types[n.id]?.isSome

def isTyped (p : Program) (o : Occurrence) : Bool :=
  p.knows o.item.node && match o.item with
    | .defn (.func _ _ ps _ _) => ps.all fun q => p.knows q.node
    | .defn (.var _ _ _) | .defn (.type _ _ _) | .expr _ => true

/-- A name stands for a variable that it can see, and a call for a function that it can see, if it
stands for anything. -/
def isScoped (p : Program) (o : Occurrence) : Bool :=
  match o.item with
  | .expr (.name n _) =>
    p.tables.bindings[n.id]?.any fun d => p.occurrences.any fun o' => o'.declares o.outer d
  | .expr (.call n _ _) =>
    p.tables.bindings[n.id]?.all fun d => p.occurrences.any fun o' => o'.offers o.outer d
  | .expr _ | .defn _ => true

structure WellScoped (p : Program) : Prop where
  unique : p.ids.Nodup
  typed : p.occurrences.all p.isTyped = true
  visible : p.occurrences.all p.isScoped = true

instance (p : Program) : Decidable p.WellScoped :=
  decidable_of_iff (p.ids.Nodup ∧ p.occurrences.all p.isTyped = true ∧
    p.occurrences.all p.isScoped = true)
    ⟨fun h => ⟨h.1, h.2.1, h.2.2⟩, fun h => ⟨h.unique, h.typed, h.visible⟩⟩

section Typed

variable {p : Program}

lemma type_of_mem (h : p.occurrences.all p.isTyped = true) {o : Occurrence}
    (ho : o ∈ p.occurrences) : ∃ type, p.tables.types[o.id]? = some type := by
  have ht := List.all_eq_true.mp h o ho
  simp only [isTyped, knows, Bool.and_eq_true] at ht
  exact Option.isSome_iff_exists.mp ht.1

lemma type_of_param (h : p.occurrences.all p.isTyped = true) {outer : List NodeId} {n : Node}
    {x : String} {ps : List Param} {t : TypeExpr} {b : Expr}
    (ho : ⟨outer, .defn (.func n x ps t b)⟩ ∈ p.occurrences) {q : Param} (hq : q ∈ ps) :
    ∃ type, p.tables.types[q.node.id]? = some type := by
  have ht := List.all_eq_true.mp h _ ho
  simp only [isTyped, Bool.and_eq_true, List.all_eq_true] at ht
  exact Option.isSome_iff_exists.mp (ht.2 q hq)

end Typed

namespace WellScoped

variable {p : Program} {outer : List NodeId} {n : Node} {x : String}

lemma access_of_name (h : p.WellScoped) {l : Layout} (hl : p.layout = .ok l)
    (ho : ⟨outer, .expr (.name n x)⟩ ∈ p.occurrences) :
    ∃ d access, p.tables.bindings[n.id]? = some d ∧ l.accesses[d]? = some access ∧
      inReach outer.length access = true := by
  have hs := List.all_eq_true.mp h.visible _ ho
  simp only [isScoped, Option.any_eq_true, List.any_eq_true] at hs
  obtain ⟨d, hd, ⟨outer', item⟩, ho', hdecl⟩ := hs
  cases item with
  | expr e => cases hdecl
  | defn d' =>
    cases d' with
    | type n' y t => cases hdecl
    | var n' y t =>
      simp only [Occurrence.declares, Bool.and_eq_true, beq_iff_eq,
        List.isSuffixOf_iff_suffix] at hdecl
      obtain ⟨rfl, hsuf⟩ := hdecl
      obtain ⟨type, -, hglobal, hlocal⟩ := Layout.layout_var hl h.unique ho'
      by_cases hne : outer' = []
      · exact ⟨_, _, hd, hglobal hne, rfl⟩
      · obtain ⟨offset, ha⟩ := hlocal hne
        exact ⟨_, _, hd, ha, decide_eq_true hsuf.length_le⟩
    | func n' y ps t b =>
      simp only [Occurrence.declares, Bool.and_eq_true, List.any_eq_true, beq_iff_eq,
        List.isSuffixOf_iff_suffix] at hdecl
      obtain ⟨⟨q, hq, rfl⟩, hsuf⟩ := hdecl
      obtain ⟨type, offset, -, ha⟩ := Layout.layout_param hl h.unique ho' hq
      exact ⟨_, _, hd, ha, decide_eq_true hsuf.length_le⟩

lemma frame_of_call (h : p.WellScoped) {l : Layout} (hl : p.layout = .ok l) {args : List Expr}
    (ho : ⟨outer, .expr (.call n x args)⟩ ∈ p.occurrences) {d : NodeId}
    (hd : p.tables.bindings[n.id]? = some d) :
    ∃ frame, l.frames[d]? = some frame ∧ frame.level - 1 ≤ outer.length := by
  have hs := List.all_eq_true.mp h.visible _ ho
  simp only [isScoped, hd, Option.all_some, List.any_eq_true] at hs
  obtain ⟨⟨outer', item⟩, ho', hoff⟩ := hs
  cases item with
  | expr e => cases hoff
  | defn d' =>
    cases d' with
    | type n' y t => cases hoff
    | var n' y t => cases hoff
    | func n' y ps t b =>
      simp only [Occurrence.offers, Bool.and_eq_true, beq_iff_eq,
        List.isSuffixOf_iff_suffix] at hoff
      obtain ⟨rfl, hsuf⟩ := hoff
      obtain ⟨frame, hf, hlevel⟩ := Layout.layout_frame_level hl h.unique ho'
      refine ⟨frame, hf, ?_⟩
      rw [hlevel]
      exact hsuf.length_le

end WellScoped

end Program

end Source

namespace Layout

variable {p : Source.Program}

lemma addParams_succeeds {types : NodeTable Ty} {ps : List Param}
    (h : ∀ q ∈ ps, ∃ type, types[q.node.id]? = some type) :
    ∀ f l, ∃ f' l', (addParams types ps f).run l = .ok (f', l') := by
  induction ps with
  | nil => exact fun f l => ⟨f, l, rfl⟩
  | cons q ps ih =>
    intro f l
    obtain ⟨type, ht⟩ := h q (List.mem_cons_self ..)
    obtain ⟨f', l', hr⟩ := ih (fun q hq => h q (List.mem_cons_of_mem _ hq)) (f.addParam type.paramSize)
      { l with accesses := l.accesses.insert q.node.id (.param type.paramSize f.nextParam f.level) }
    refine ⟨f', l', ?_⟩
    simp only [addParams, run_bind_ok, typeOf_ok, setAccess_ok]
    exact ⟨type, l, ⟨ht, rfl⟩, (), _, rfl, hr⟩

lemma argsSize_succeeds {types : NodeTable Ty} {args : List Expr}
    (h : ∀ e ∈ args, ∃ type, types[e.node.id]? = some type) : ∃ size, ArgsSize types args size := by
  induction args with
  | nil => exact ⟨0, argsSize_nil.mpr rfl⟩
  | cons e es ih =>
    obtain ⟨type, ht⟩ := h e (List.mem_cons_self ..)
    obtain ⟨size, hs⟩ := ih fun e he => h e (List.mem_cons_of_mem _ he)
    exact ⟨_, argsSize_cons.mpr ⟨type, size, ht, hs, rfl⟩⟩

lemma lays_succeeds {types : NodeTable Ty} {is : List Item}
    (h : ∀ i ∈ is, ∀ f l, ∃ f' l', LaysItem types i f l f' l') :
    ∀ f l, ∃ f' l', Lays types is f l f' l' := by
  induction is with
  | nil => exact fun f l => ⟨f, l, .nil⟩
  | cons i is ih =>
    intro f l
    obtain ⟨f₁, l₁, hi⟩ := h i (List.mem_cons_self ..) f l
    obtain ⟨f', l', his⟩ := ih (fun i hi => h i (List.mem_cons_of_mem _ hi)) f₁ l₁
    exact ⟨f', l', .cons hi his⟩

variable {outer : List NodeId} {n : Node} {x : String} {ps : List Param} {t : TypeExpr} {b : Expr}

lemma laysFunc_succeeds (h : p.occurrences.all p.isTyped = true)
    (ho : ∀ o ∈ (Def.func n x ps t b).occurrences outer, o ∈ p.occurrences)
    (hd : ∀ d, .defn d ∈ b.items → ∀ f l, ∃ f' l', (addDef p.tables.types d f).run l = .ok (f', l')) :
    ∀ f l, ∃ f' l', LaysFunc p.tables.types ps b f l f' l' := by
  intro f l
  have hself : ⟨outer, .defn (.func n x ps t b)⟩ ∈ p.occurrences :=
    ho _ (List.mem_append_right _ (List.mem_singleton_self _))
  obtain ⟨inner, l₁, hp⟩ := addParams_succeeds (fun q hq => Program.type_of_param h hself hq) f l
  have htyped : ∀ e, .expr e ∈ b.items → ∃ type, p.tables.types[e.node.id]? = some type := by
    intro e he
    have hm : ⟨n.id :: outer, .expr e⟩ ∈ b.occurrences (n.id :: outer) :=
      Expr.mem_occurrences he (List.mem_singleton_self _)
    exact Program.type_of_mem h (ho _ (List.mem_append_left _ hm))
  have hitems : ∀ i ∈ b.items, ∀ f l, ∃ f' l', LaysItem p.tables.types i f l f' l' := by
    intro i hi f l
    cases i with
    | defn d =>
      obtain ⟨f', l', hr⟩ := hd d hi f l
      exact ⟨f', l', .defn hr⟩
    | expr e =>
      cases hc : e.isCall with
      | false => exact ⟨f, l, .expr hc⟩
      | true =>
        cases e with
        | call n y args =>
          obtain ⟨size, hs⟩ := argsSize_succeeds fun e he => htyped e
            (b.items_subset hi (List.mem_append_left _ (Expr.mem_itemsAll he)))
          exact ⟨_, _, .call hs⟩
        | _ => cases hc
  obtain ⟨f', l', hb⟩ := lays_succeeds hitems inner l₁
  exact ⟨f', l', inner, l₁, hp, hb⟩

lemma addDef_succeeds (h : p.occurrences.all p.isTyped = true) (d : Def) : ∀ outer : List NodeId,
    (∀ o ∈ d.occurrences outer, o ∈ p.occurrences) →
    ∀ f l, ∃ f' l', (addDef p.tables.types d f).run l = .ok (f', l') := by
  induction d using Def.nested with
  | h d ih =>
  intro outer ho f l
  cases d with
  | var n x t =>
    obtain ⟨type, ht⟩ := Program.type_of_mem h (ho _ (List.mem_singleton_self _))
    exact ⟨_, _, addDef_var_ok.mpr ⟨type, ht, rfl, rfl⟩⟩
  | func n x ps t b =>
    have hin : ∀ d, .defn d ∈ b.items → ∀ o ∈ d.occurrences (n.id :: outer), o ∈ p.occurrences :=
      fun d hd o hm => ho o (List.mem_append_left _ (Expr.mem_occurrences hd hm))
    obtain ⟨g, l₂, hb⟩ := laysFunc_succeeds h ho (fun d hd => ih d hd _ (hin d hd))
      { label := .anonymous l.labels.used, level := f.level + 1 }
      { l with labels := ⟨l.labels.used + 1⟩ }
    exact ⟨_, _, addDef_func_ok.mpr ⟨g, l₂, hb, rfl, rfl⟩⟩
  | type n x t => exact ⟨f, l, rfl⟩

lemma addTop_succeeds (h : p.occurrences.all p.isTyped = true) {d : Def} (hd : d ∈ p.defs.definitions) (l : Layout) :
    ∃ l', (addTop p.tables.types d).run l = .ok ((), l') := by
  have ho : ∀ o ∈ d.occurrences [], o ∈ p.occurrences := by
    intro o hm
    rw [Program.occurrences, Def.occurrencesAll_eq]
    exact List.mem_flatMap.mpr ⟨d, hd, hm⟩
  cases d with
  | var n x t =>
    obtain ⟨type, ht⟩ := Program.type_of_mem h (ho _ (List.mem_singleton_self _))
    exact ⟨_, addTop_var_ok.mpr ⟨type, ht, rfl⟩⟩
  | func n x ps t b =>
    have hin : ∀ d, .defn d ∈ b.items → ∀ o ∈ d.occurrences [n.id], o ∈ p.occurrences :=
      fun d hd o hm => ho o (List.mem_append_left _ (Expr.mem_occurrences hd hm))
    obtain ⟨g, l₂, hb⟩ := laysFunc_succeeds h ho
      (fun d hd => addDef_succeeds h d _ (hin d hd)) { label := .named x, level := 1 } l
    exact ⟨_, addTop_func_ok.mpr ⟨g, l₂, hb, rfl⟩⟩
  | type n x t => exact ⟨l, rfl⟩

lemma forM_succeeds {types : NodeTable Ty} {ds : List Def}
    (h : ∀ d ∈ ds, ∀ l, ∃ l', (addTop types d).run l = .ok ((), l')) :
    ∀ l, ∃ l', (ds.forM (addTop types)).run l = .ok ((), l') := by
  induction ds with
  | nil => exact fun l => ⟨l, rfl⟩
  | cons d ds ih =>
    intro l
    obtain ⟨l₁, hr⟩ := h d (List.mem_cons_self ..) l
    obtain ⟨l', hr'⟩ := ih (fun d hm => h d (List.mem_cons_of_mem _ hm)) l₁
    exact ⟨l', run_bind_ok.mpr ⟨(), l₁, hr, hr'⟩⟩

lemma layout_of_typed (h : p.occurrences.all p.isTyped = true) : ∃ l, p.layout = .ok l := by
  obtain ⟨l, hl⟩ := forM_succeeds (fun d hd => addTop_succeeds h hd) {}
  exact ⟨l, layout_eq.mpr hl⟩

lemma layout_succeeds (h : p.WellScoped) : ∃ l, p.layout = .ok l := layout_of_typed h.typed

end Layout

namespace Lowering

/-- What can be wrong with a program that is well scoped. -/
def Cause.IsDue (p : Source.Program) (entry : String) : Cause → Prop
  | .notAssignable | .indexOutOfBounds _ _ | .notAnArray => True
  | .missingDefinition x => ∃ outer n args, ⟨outer, .expr (.call n x args)⟩ ∈ p.occurrences ∧
      p.tables.bindings[n.id]? = none ∧ Intrinsic.ofName? x = none
  | .missingEntry x => x = entry ∧ entryDef? p.defs.definitions entry = none
  | .missingFrame _ | .missingAccess _ | .missingType _ | .deeperThanUse _ _ _ => False

section Failures

variable {p : Source.Program} {l : Layout} {entry : String}

abbrev FailsDuly (p : Source.Program) (entry : String) {α : Type} (x : Lower α) : Prop :=
  FailsOnly (fun e => e.cause.IsDue p entry) x

lemma typeOf_failsDuly (h : p.WellScoped) {outer : List NodeId} {e : Expr}
    (ho : ⟨outer, .expr e⟩ ∈ p.occurrences) : FailsDuly p entry (typeOf (p.scope l) e.node) := by
  obtain ⟨type, ht⟩ := Program.type_of_mem h.typed ho
  exact .of_ok fun st => ⟨(type, st), typeOf_ok.mpr ⟨ht, rfl⟩⟩

lemma name_failsDuly (h : p.WellScoped) (hl : p.layout = .ok l) {outer : List NodeId}
    {n : Node} {x : String} (ho : ⟨outer, .expr (.name n x)⟩ ∈ p.occurrences) :
    FailsDuly p entry (expr (p.scope l) outer.length (.name n x)) := by
  obtain ⟨d, access, hb, ha, hr⟩ := h.access_of_name hl ho
  obtain ⟨type, ht⟩ := Program.type_of_mem h.typed ho
  exact .of_ok fun st => ⟨_, expr_name_ok.mpr ⟨d, access, type, hb, ha, hr, ht, rfl, rfl⟩⟩

lemma callee_failsDuly (h : p.WellScoped) (hl : p.layout = .ok l) {outer : List NodeId} {n : Node}
    {x : String} {args : List Expr} (ho : ⟨outer, .expr (.call n x args)⟩ ∈ p.occurrences) :
    FailsDuly p entry (callee (p.scope l) outer.length n x) := by
  cases hb : p.tables.bindings[n.id]? with
  | some d =>
    obtain ⟨frame, hf, hle⟩ := h.frame_of_call hl ho hb
    exact .of_ok fun st => ⟨_, (callee_bound_ok hb).mpr ⟨frame, hf, fun _ => hle, rfl, rfl⟩⟩
  | none =>
    have hs : (p.scope l).tables.bindings[n.id]? = none := hb
    unfold callee
    rw [hs]
    exact .require_bind (fun hi => ⟨outer, n, args, ho, hb, hi⟩) fun _ _ => .pure _

lemma defn_var_failsDuly (h : p.WellScoped) (hl : p.layout = .ok l) {outer : List NodeId} {n : Node}
    {x : String} {t : TypeExpr} (ho : ⟨outer, .defn (.var n x t)⟩ ∈ p.occurrences) :
    FailsDuly p entry (defn (p.scope l) (.var n x t)) := by
  obtain ⟨access, ha⟩ : ∃ access, l.accesses[n.id]? = some access := by
    obtain ⟨type, -, hglobal, hlocal⟩ := Layout.layout_var hl h.unique ho
    by_cases hne : outer = []
    · exact ⟨_, hglobal hne⟩
    · exact ⟨_, (hlocal hne).choose_spec⟩
  exact .of_ok fun st => ⟨((), _), defn_var_ok.mpr ⟨access, ha, rfl⟩⟩

lemma covers_due (h : p.WellScoped) (hl : p.layout = .ok l) :
    Covers (fun e => e.cause.IsDue p entry) (p.scope l) (fun outer level => level = outer.length)
      p.occurrences where
  notAssignable _ := trivial
  outOfBounds _ _ _ := trivial
  notAnArray _ := trivial
  type _ _ ho := typeOf_failsDuly h ho
  name _ _ _ ho level hA := by
    rw [hA]
    exact name_failsDuly h hl ho
  callee _ _ _ _ ho level hA := by
    rw [hA]
    exact callee_failsDuly h hl ho
  access _ _ _ _ ho := defn_var_failsDuly h hl ho
  frame _ _ _ _ _ _ ho hnone := by
    obtain ⟨frame, hf, -⟩ := Layout.layout_frame_level hl h.unique ho
    cases hnone.symm.trans hf
  level _ _ _ _ _ _ ho frame hf := by
    obtain ⟨frame', hf', hlevel⟩ := Layout.layout_frame_level hl h.unique ho
    obtain rfl := Option.some.inj (hf.symm.trans hf')
    exact hlevel

end Failures

end Lowering

namespace Source.Program

lemma entryDef_mem {p : Program} {entry : String} {d : Def}
    (h : entryDef? p.defs.definitions entry = some d) :
    ∃ n ps t b, d = .func n entry ps t b ∧ d ∈ p.defs.definitions ∧
      ⟨[], .defn d⟩ ∈ p.occurrences := by
  have hm := List.mem_of_find?_eq_some h
  have hs := List.find?_some h
  cases d with
  | var n x t => cases hs
  | type n x t => cases hs
  | func n x ps t b =>
    obtain rfl : x = entry := of_decide_eq_true hs
    refine ⟨n, ps, t, b, rfl, hm, ?_⟩
    rw [occurrences, Def.occurrencesAll_eq]
    exact List.mem_flatMap.mpr ⟨_, hm, List.mem_append_right _ (List.mem_singleton_self _)⟩

lemma lower_failsDuly {p : Program} (h : p.WellScoped) {l : Layout} (hl : p.layout = .ok l)
    {entry : String} {e : Lowering.Error} (he : p.lower l entry = .error e) :
    e.cause.IsDue p entry := by
  refine lower_failsOnly (defs_failsOnly (covers_due h hl) _ fun o ho => ho) (fun hd => ⟨rfl, hd⟩)
    (fun d hd hnone => ?_) he
  obtain ⟨n, ps, t, b, rfl, -, ho⟩ := entryDef_mem hd
  obtain ⟨frame, hf, -⟩ := Layout.layout_frame_level hl h.unique ho
  cases hnone.symm.trans hf

end Source.Program

/-- A program that is well scoped is always laid out. If it can not be lowered, then something is
assigned to that is no place, an array is indexed out of its bounds or not an array, a call that
stands for nothing is not one of an intrinsic, or the function to start with is missing. -/
theorem layout_and_lowering_agree {p : Source.Program} (h : p.WellScoped) {entry : String}
    {e : CompileError} (hc : p.compile entry = .error e) :
    ∃ cause span, e = .lowering ⟨cause, span⟩ ∧ cause.IsDue p entry := by
  obtain ⟨l, hl⟩ := Layout.layout_succeeds h
  unfold Source.Program.compile Source.Program.compileWith at hc
  rw [hl] at hc
  cases hlow : p.lower l entry with
  | error e' =>
    simp only [Except.mapError, bind, Except.bind, hlow, Except.error.injEq] at hc
    exact ⟨e'.cause, e'.span, hc.symm, Source.Program.lower_failsDuly h hl hlow⟩
  | ok code => simp [Except.mapError, bind, Except.bind, hlow] at hc

/-- A function inside another one uses its parameter, and calls what is not there.
```text
fun outer(n: integer): integer = inner() where
    fun inner(): integer = { log_int(n); n }
fun main(): integer = outer(1)
```
-/
def unknownCall : Build Source.Program := do
  let n ← Builder.param "n" .int
  let outer ← Builder.signature "outer" [n] .int
  let inner ← Builder.signature "inner" [] .int
  let innerBody ← Builder.block [
    ← Builder.callUnbound "log_int" [← Builder.name n.ref], ← Builder.name n.ref]
  let outerBody ← Builder.whereDefs (← Builder.call inner []) [Builder.func inner innerBody]
  let main ← Builder.signature "main" [] .int
  let mainBody ← Builder.call outer [← Builder.int 1]
  Builder.finish [Builder.func outer outerBody, Builder.func main mainBody]

theorem layout_and_lowering_agree_unknown :
    ∃ p span, Builder.run unknownCall = .ok p ∧
      p.compile "main" = .error (.lowering ⟨.missingDefinition "log_int", span⟩) ∧
      Cause.IsDue p "main" (.missingDefinition "log_int") := by
  obtain ⟨p, hb, hp⟩ : ∃ p, Builder.run unknownCall = .ok p ∧
      decide (p.WellScoped ∧ p.compile "main" =
        .error (.lowering ⟨.missingDefinition "log_int", .point 1 1⟩)) = true :=
    exists_ok_of_any (by decide +kernel)
  obtain ⟨hs, hc⟩ := of_decide_eq_true hp
  obtain ⟨cause, span, he, hdue⟩ := layout_and_lowering_agree hs hc
  obtain ⟨rfl, -⟩ := Lowering.Error.mk.inj (CompileError.lowering.inj he)
  exact ⟨p, .point 1 1, hb, hc, hdue⟩

end BlockLang
