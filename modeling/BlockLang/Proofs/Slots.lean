import BlockLang.Proofs.Nodes
import BlockLang.Proofs.Stateful

namespace BlockLang

open Source

namespace Layout

def Apart : Access → Access → Prop
  | .stack size offset _, .stack size' offset' _ =>
    offset + size ≤ offset' ∨ offset' + size' ≤ offset
  | _, _ => True

structure Adds (types : NodeTable Ty) (ids locals : List NodeId) (f f' : Frame) (l l' : Layout) :
    Prop where
  label : f'.label = f.label
  level : f'.level = f.level
  params : f'.params = f.params
  locals_le : f.locals ≤ f'.locals
  outgoing_le : f.outgoing ≤ f'.outgoing
  accesses_kept : ∀ i, i ∉ ids → l'.accesses[i]? = l.accesses[i]?
  frames_kept : ∀ i, i ∉ ids → l'.frames[i]? = l.frames[i]?
  placed : ∀ d ∈ locals, ∃ type offset, types[d]? = some type ∧
    l'.accesses[d]? = some (.stack type.size offset f.level) ∧
    f.locals + type.size ≤ -offset ∧ -offset ≤ f'.locals
  apart : ∀ d ∈ locals, ∀ d' ∈ locals, d ≠ d' → ∀ a a', l'.accesses[d]? = some a →
    l'.accesses[d']? = some a' → Apart a a'

namespace Adds

variable {types : NodeTable Ty} {ids ids' locals locals' : List NodeId} {f f' f'' : Frame}
variable {l l' l'' : Layout}

lemma refl (ids : List NodeId) (f : Frame) (l : Layout) : Adds types ids [] f f l l :=
  ⟨rfl, rfl, rfl, Int.le_refl _, Int.le_refl _, fun _ _ => rfl, fun _ _ => rfl,
    (fun _ h => nomatch h), (fun _ h => nomatch h)⟩

lemma mono (h : Adds types ids locals f f' l l') (hi : ids ⊆ ids') :
    Adds types ids' locals f f' l l' :=
  { h with
    accesses_kept := fun i hni => h.accesses_kept i fun hm => hni (hi hm)
    frames_kept := fun i hni => h.frames_kept i fun hm => hni (hi hm) }

lemma trans (h : Adds types ids locals f f' l l') (h' : Adds types ids' locals' f' f'' l' l'')
    (hd : ∀ d ∈ locals, d ∉ ids') : Adds types (ids ++ ids') (locals ++ locals') f f'' l l'' where
  label := h'.label.trans h.label
  level := h'.level.trans h.level
  params := h'.params.trans h.params
  locals_le := Int.le_trans h.locals_le h'.locals_le
  outgoing_le := Int.le_trans h.outgoing_le h'.outgoing_le
  accesses_kept i hi := by
    rw [List.mem_append, not_or] at hi
    rw [h'.accesses_kept i hi.2, h.accesses_kept i hi.1]
  frames_kept i hi := by
    rw [List.mem_append, not_or] at hi
    rw [h'.frames_kept i hi.2, h.frames_kept i hi.1]
  placed d hm := by
    rcases List.mem_append.mp hm with hm | hm
    · obtain ⟨type, offset, ht, ha, hlo, hhi⟩ := h.placed d hm
      exact ⟨type, offset, ht, by rw [h'.accesses_kept d (hd d hm), ha], hlo,
        Int.le_trans hhi h'.locals_le⟩
    · obtain ⟨type, offset, ht, ha, hlo, hhi⟩ := h'.placed d hm
      have hle := h.locals_le
      exact ⟨type, offset, ht, by rw [ha, h.level], by omega, hhi⟩
  apart := by
    -- slots of the first part lie above those of the second
    have hcross : ∀ d ∈ locals, ∀ d' ∈ locals', ∀ a a', l''.accesses[d]? = some a →
        l''.accesses[d']? = some a' → Apart a a' ∧ Apart a' a := by
      intro d hm d' hm' a a' ha ha'
      obtain ⟨type, offset, -, hacc, hlo, hhi⟩ := h.placed d hm
      obtain ⟨type', offset', -, hacc', hlo', hhi'⟩ := h'.placed d' hm'
      rw [h'.accesses_kept d (hd d hm), hacc] at ha
      rw [hacc'] at ha'
      obtain rfl := Option.some.inj ha
      obtain rfl := Option.some.inj ha'
      simp only [Apart]
      omega
    intro d hm d' hm' hne a a' ha ha'
    rcases List.mem_append.mp hm with hm | hm <;> rcases List.mem_append.mp hm' with hm' | hm'
    · rw [h'.accesses_kept d (hd d hm)] at ha
      rw [h'.accesses_kept d' (hd d' hm')] at ha'
      exact h.apart d hm d' hm' hne a a' ha ha'
    · exact (hcross d hm d' hm' a a' ha ha').1
    · exact (hcross d' hm' d hm a' a ha' ha).2
    · exact h'.apart d hm d' hm' hne a a' ha ha'

lemma seq (hn : (ids ++ ids').Nodup) (hl : locals ⊆ ids) (h : Adds types ids locals f f' l l')
    (h' : Adds types ids' locals' f' f'' l' l'') :
    Adds types (ids ++ ids') (locals ++ locals') f f'' l l'' :=
  h.trans h' fun d hm hm' => (List.nodup_append.mp hn).2.2 d (hl hm) d hm' rfl

end Adds

lemma addParams_kept {types : NodeTable Ty} {ps : List Param} {f f' : Frame} {l l' : Layout}
    (h : (addParams types ps f).run l = .ok (f', l')) :
    l'.frames = l.frames ∧
      ∀ i, i ∉ ps.flatMap Param.ids → l'.accesses[i]? = l.accesses[i]? := by
  induction ps generalizing f l with
  | nil =>
    obtain ⟨-, rfl⟩ := run_pure_ok.mp h
    exact ⟨rfl, fun _ _ => rfl⟩
  | cons p ps ih =>
    simp only [addParams, run_bind_ok, typeOf_ok, setAccess_ok] at h
    obtain ⟨type, _, ⟨-, rfl⟩, _, _, rfl, h⟩ := h
    obtain ⟨hf, ha⟩ := ih h
    refine ⟨hf, fun i hi => ?_⟩
    simp only [List.flatMap_cons, List.mem_append, not_or, Param.ids, List.mem_cons] at hi
    rw [ha i hi.2, Std.TreeMap.getElem?_insert]
    simp only [Std.LawfulEqOrd.compare_eq_iff_eq, ite_eq_right_iff]
    exact fun h => (hi.1.1 h.symm).elim

def Sized (types : NodeTable Ty) (locals : List NodeId) : Prop :=
  ∀ d ∈ locals, ∀ type, types[d]? = some type → 0 ≤ type.size

lemma sized_append {types : NodeTable Ty} {xs ys : List NodeId} :
    Sized types (xs ++ ys) ↔ Sized types xs ∧ Sized types ys := by
  simp only [Sized, List.forall_mem_append]

def Walks (types : NodeTable Ty) (walk : Frame → Build Frame) (ids locals : List NodeId) : Prop :=
  ∀ ⦃f f' : Frame⦄ ⦃l l' : Layout⦄, (walk f).run l = .ok (f', l') → Adds types ids locals f f' l l'

section Walk

variable {types : NodeTable Ty} {walk walk' : Frame → Build Frame}
variable {ids ids' locals locals' : List NodeId}

lemma Walks.stay (ids : List NodeId) : Walks types (fun f => pure f) ids [] := by
  intro f f' l l' h
  obtain ⟨rfl, rfl⟩ := run_pure_ok.mp h
  exact .refl _ _ _

lemma Walks.mono (h : Walks types walk ids locals) (hi : ids ⊆ ids') :
    Walks types walk ids' locals :=
  fun _ _ _ _ hr => (h hr).mono hi

lemma Walks.cons (h : Walks types walk ids locals) (n : Node) :
    Walks types walk (n.id :: ids) locals :=
  h.mono (List.subset_cons_self _ _)

lemma Walks.seq (hn : (ids ++ ids').Nodup) (hl : locals ⊆ ids) (h : Walks types walk ids locals)
    (h' : Walks types walk' ids' locals') :
    Walks types (fun f => walk f >>= walk') (ids ++ ids') (locals ++ locals') := by
  intro f f' l l' hr
  obtain ⟨f₁, l₁, hr, hr'⟩ := run_bind_ok.mp hr
  exact Adds.seq hn hl (h hr) (h' hr')

lemma addVar_walks {n : Node} (hs : Sized types [n.id]) (x : String) (t : TypeExpr)
    (hi : n.id ∈ ids) : Walks types (addDef types (.var n x t)) ids [n.id] := by
  intro f f' l l' h
  simp only [addDef, run_bind_ok, typeOf_ok, setAccess_ok, run_pure_ok] at h
  obtain ⟨type, _, ⟨ht, rfl⟩, _, _, rfl, rfl, rfl⟩ := h
  have h0 := hs n.id (List.mem_singleton_self _) type ht
  refine ⟨rfl, rfl, rfl, ?_, Int.le_refl _, fun i hni => ?_, fun _ _ => rfl, fun d hd => ?_, ?_⟩
  · simp only [Frame.addLocal]
    omega
  · have hne : n.id ≠ i := fun h => hni (h ▸ hi)
    simp [Std.TreeMap.getElem?_insert, hne]
  · obtain rfl := List.mem_singleton.mp hd
    refine ⟨type, f.nextLocal type.size, ht, by simp, ?_, ?_⟩
    · simp [Frame.nextLocal]
    · simp [Frame.nextLocal, Frame.addLocal]
  · intro d hd d' hd' hne
    exact (hne ((List.mem_singleton.mp hd).trans (List.mem_singleton.mp hd').symm)).elim

lemma addFunc_walks {n : Node} {x : String} {ps : List Param} {t : TypeExpr} {b : Expr}
    (hb : Walks types (addExpr types b) b.ids (b.variables false)) :
    Walks types (addDef types (.func n x ps t b)) (Def.func n x ps t b).ids [] := by
  intro f f' l l' h
  simp only [addDef, run_bind_ok, freshLabel_ok, setFrame_ok, run_pure_ok] at h
  obtain ⟨_, _, ⟨rfl, rfl⟩, inner, l₁, hp, g, l₂, hg, _, _, rfl, rfl, rfl⟩ := h
  obtain ⟨hpf, hpa⟩ := addParams_kept hp
  have hg := hb hg
  refine ⟨rfl, rfl, rfl, Int.le_refl _, Int.le_refl _, fun i hni => ?_, fun i hni => ?_,
    List.forall_mem_nil _, List.forall_mem_nil _⟩
  · simp only [Def.ids, List.mem_cons, List.mem_append, not_or] at hni
    rw [hg.accesses_kept i hni.2.2.2, hpa i hni.2.1]
  · simp only [Def.ids, List.mem_cons, List.mem_append, not_or] at hni
    have hne : n.id ≠ i := fun h => hni.1 h.symm
    rw [Std.TreeMap.getElem?_insert]
    simp [hne, hg.frames_kept i hni.2.2.2, hpf]

lemma addCall_walks {walk : Frame → Build (Frame × Int)}
    (h : ∀ ⦃f f' size l l'⦄, (walk f).run l = .ok ((f', size), l') → Adds types ids locals f f' l l') :
    Walks types (fun f => do
      let (f, size) ← walk f
      return f.addCall size) ids locals := by
  intro f f' l l' hr
  obtain ⟨⟨f₁, size⟩, l₁, hw, hr⟩ := run_bind_ok.mp hr
  obtain ⟨rfl, rfl⟩ := run_pure_ok.mp hr
  have hw := h hw
  refine { hw with outgoing_le := ?_ }
  have hle := hw.outgoing_le
  simp only [Frame.addCall]
  split <;> omega

mutual

lemma addExpr_walks (e : Expr) (hs : Sized types (e.variables true)) (hn : e.ids.Nodup) :
    Walks types (addExpr types e) e.ids (e.variables false) := by
  cases e with
  | literal n v => exact .stay _
  | name n x => exact .stay _
  | unary n op e => exact (addExpr_walks e hs (List.nodup_cons.mp hn).2).cons n
  | binary n op x y =>
    have hn := (List.nodup_cons.mp hn).2
    rw [Expr.variables, sized_append] at hs
    have hx := addExpr_walks x hs.1 (List.nodup_append.mp hn).1
    have hy := addExpr_walks y hs.2 (List.nodup_append.mp hn).2.1
    exact (Walks.seq hn (x.variables_subset false) hx hy).cons n
  | call n name args =>
    exact (addCall_walks fun _ _ _ _ _ h => addArgs_adds args hs (List.nodup_cons.mp hn).2 h).cons n
  | block n body => exact (addExprs_walks body hs (List.nodup_cons.mp hn).2).cons n
  | ifThen n c p =>
    have hn := (List.nodup_cons.mp hn).2
    rw [Expr.variables, sized_append] at hs
    have hc := addExpr_walks c hs.1 (List.nodup_append.mp hn).1
    have hp := addExpr_walks p hs.2 (List.nodup_append.mp hn).2.1
    exact (Walks.seq hn (c.variables_subset false) hc hp).cons n
  | ifElse n c p q =>
    have hn := (List.nodup_cons.mp hn).2
    have hn' := (List.nodup_append.mp hn).2.1
    simp only [Expr.variables, sized_append] at hs
    have hc := addExpr_walks c hs.1 (List.nodup_append.mp hn).1
    have hp := addExpr_walks p hs.2.1 (List.nodup_append.mp hn').1
    have hq := addExpr_walks q hs.2.2 (List.nodup_append.mp hn').2.1
    exact (Walks.seq hn (c.variables_subset false) hc
      (Walks.seq hn' (p.variables_subset false) hp hq)).cons n
  | whileLoop n c b =>
    have hn := (List.nodup_cons.mp hn).2
    rw [Expr.variables, sized_append] at hs
    have hc := addExpr_walks c hs.1 (List.nodup_append.mp hn).1
    have hb := addExpr_walks b hs.2 (List.nodup_append.mp hn).2.1
    exact (Walks.seq hn (c.variables_subset false) hc hb).cons n
  | forLoop n c low high step b =>
    have hn := (List.nodup_cons.mp hn).2
    have hn₁ := (List.nodup_append.mp hn).2.1
    have hn₂ := (List.nodup_append.mp hn₁).2.1
    have hn₃ := (List.nodup_append.mp hn₂).2.1
    simp only [Expr.variables, sized_append] at hs
    have hc := addExpr_walks c hs.1 (List.nodup_append.mp hn).1
    have hlow := addExpr_walks low hs.2.1 (List.nodup_append.mp hn₁).1
    have hhigh := addExpr_walks high hs.2.2.1 (List.nodup_append.mp hn₂).1
    have hstep := addExpr_walks step hs.2.2.2.1 (List.nodup_append.mp hn₃).1
    have hb := addExpr_walks b hs.2.2.2.2 (List.nodup_append.mp hn₃).2.1
    exact (Walks.seq hn (c.variables_subset false) hc
      (Walks.seq hn₁ (low.variables_subset false) hlow
        (Walks.seq hn₂ (high.variables_subset false) hhigh
          (Walks.seq hn₃ (step.variables_subset false) hstep hb)))).cons n
  | whereDefs n e d ds =>
    have hn := (List.nodup_cons.mp (List.nodup_cons.mp hn).2).2
    rw [Expr.variables, sized_append] at hs
    have hds := addDefs_walks ds hs.1 (List.nodup_append.mp hn).1
    have he := addExpr_walks e hs.2 (List.nodup_append.mp hn).2.1
    exact ((Walks.seq hn (Def.variablesAll_subset false ds) hds he).cons d).cons n

lemma addExprs_walks (es : List Expr) (hs : Sized types (Expr.variablesAll true es))
    (hn : (Expr.idsAll es).Nodup) :
    Walks types (addExprs types es) (Expr.idsAll es) (Expr.variablesAll false es) := by
  cases es with
  | nil => exact .stay _
  | cons e es =>
    rw [Expr.variablesAll, sized_append] at hs
    have he := addExpr_walks e hs.1 (List.nodup_append.mp hn).1
    have hes := addExprs_walks es hs.2 (List.nodup_append.mp hn).2.1
    exact Walks.seq hn (e.variables_subset false) he hes

lemma addArgs_adds (es : List Expr) (hs : Sized types (Expr.variablesAll true es))
    (hn : (Expr.idsAll es).Nodup) {f f' : Frame} {size size' : Int} {l l' : Layout}
    (h : (addArgs types es f size).run l = .ok ((f', size'), l')) :
    Adds types (Expr.idsAll es) (Expr.variablesAll false es) f f' l l' := by
  cases es with
  | nil =>
    obtain ⟨hp, rfl⟩ := run_pure_ok.mp h
    obtain ⟨rfl, -⟩ := Prod.mk.inj hp
    exact .refl _ _ _
  | cons e es =>
    simp only [addArgs, run_bind_ok, typeOf_ok] at h
    obtain ⟨f₁, l₁, hr, type, _, ⟨-, rfl⟩, h⟩ := h
    rw [Expr.variablesAll, sized_append] at hs
    have he := addExpr_walks e hs.1 (List.nodup_append.mp hn).1 hr
    have hes := addArgs_adds es hs.2 (List.nodup_append.mp hn).2.1 h
    exact Adds.seq hn (e.variables_subset false) he hes

lemma addDef_walks (d : Def) (hs : Sized types (d.variables true)) (hn : d.ids.Nodup) :
    Walks types (addDef types d) d.ids (d.variables false) := by
  cases d with
  | var n x t => exact addVar_walks hs x t (List.mem_cons_self ..)
  | func n x ps t b =>
    have hn := (List.nodup_append.mp (List.nodup_append.mp (List.nodup_cons.mp hn).2).2.1).2.1
    exact addFunc_walks (addExpr_walks b hs hn)
  | type n x t => exact .stay _

lemma addDefs_walks (ds : List Def) (hs : Sized types (Def.variablesAll true ds))
    (hn : (Def.idsAll ds).Nodup) :
    Walks types (addDefs types ds) (Def.idsAll ds) (Def.variablesAll false ds) := by
  cases ds with
  | nil => exact .stay _
  | cons d ds =>
    rw [Def.variablesAll, sized_append] at hs
    have hd := addDef_walks d hs.1 (List.nodup_append.mp hn).1
    have hds := addDefs_walks ds hs.2 (List.nodup_append.mp hn).2.1
    exact Walks.seq hn (d.variables_subset false) hd hds

end

end Walk

end Layout

end BlockLang
