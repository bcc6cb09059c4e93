import BlockLang.Proofs.LayoutItems
import BlockLang.Proofs.Slots

namespace BlockLang

open Source

namespace Layout

variable {types : NodeTable Ty} {f f' : Frame} {l l' l'' : Layout}

def LaysFunc (types : NodeTable Ty) (ps : List Param) (b : Expr) (start : Frame) (l : Layout)
    (f : Frame) (l' : Layout) : Prop :=
  ∃ inner l₁, (addParams types ps start).run l = .ok (inner, l₁) ∧ Lays types b.items inner l₁ f l'

lemma addDef_var_ok {n : Node} {x : String} {t : TypeExpr} :
    (addDef types (.var n x t) f).run l = .ok (f', l') ↔
      ∃ type, types[n.id]? = some type ∧ f' = f.addLocal type.size ∧
        l' = { l with
          accesses := l.accesses.insert n.id (.stack type.size (f.nextLocal type.size) f.level) } := by
  simp only [addDef, run_bind_ok, typeOf_ok, setAccess_ok, run_pure_ok]
  constructor
  · rintro ⟨type, _, ⟨ht, rfl⟩, _, _, rfl, rfl, rfl⟩
    exact ⟨type, ht, rfl, rfl⟩
  · rintro ⟨type, ht, rfl, rfl⟩
    exact ⟨type, l, ⟨ht, rfl⟩, (), _, rfl, rfl, rfl⟩

lemma addDef_func_ok {n : Node} {x : String} {ps : List Param} {t : TypeExpr} {b : Expr} :
    (addDef types (.func n x ps t b) f).run l = .ok (f', l') ↔
      ∃ g l₂, LaysFunc types ps b { label := .anonymous l.labels.used, level := f.level + 1 }
          { l with labels := ⟨l.labels.used + 1⟩ } g l₂ ∧
        f' = f ∧ l' = { l₂ with frames := l₂.frames.insert n.id g } := by
  simp only [addDef, run_bind_ok, freshLabel_ok, setFrame_ok, run_pure_ok, addExpr_ok]
  constructor
  · rintro ⟨_, _, ⟨rfl, rfl⟩, inner, l₁, hp, g, l₂, hg, _, _, rfl, rfl, rfl⟩
    exact ⟨g, l₂, ⟨inner, l₁, hp, hg⟩, rfl, rfl⟩
  · rintro ⟨g, l₂, ⟨inner, l₁, hp, hg⟩, rfl, rfl⟩
    exact ⟨_, _, ⟨rfl, rfl⟩, inner, l₁, hp, g, l₂, hg, (), _, rfl, rfl, rfl⟩

lemma addTop_var_ok {n : Node} {x : String} {t : TypeExpr} {u : Unit} :
    (addTop types (.var n x t)).run l = .ok (u, l') ↔
      ∃ type, types[n.id]? = some type ∧
        l' = { l with accesses := l.accesses.insert n.id (.global type.size (.named x)) } := by
  simp only [addTop, run_bind_ok, typeOf_ok, setAccess_ok]
  constructor
  · rintro ⟨type, _, ⟨ht, rfl⟩, rfl⟩
    exact ⟨type, ht, rfl⟩
  · rintro ⟨type, ht, rfl⟩
    exact ⟨type, l, ⟨ht, rfl⟩, rfl⟩

lemma addTop_func_ok {n : Node} {x : String} {ps : List Param} {t : TypeExpr} {b : Expr} {u : Unit} :
    (addTop types (.func n x ps t b)).run l = .ok (u, l') ↔
      ∃ g l₂, LaysFunc types ps b { label := .named x, level := 1 } l g l₂ ∧
        l' = { l₂ with frames := l₂.frames.insert n.id g } := by
  simp only [addTop, run_bind_ok, setFrame_ok, addExpr_ok]
  constructor
  · rintro ⟨inner, l₁, hp, g, l₂, hg, rfl⟩
    exact ⟨g, l₂, ⟨inner, l₁, hp, hg⟩, rfl⟩
  · rintro ⟨g, l₂, ⟨inner, l₁, hp, hg⟩, rfl⟩
    exact ⟨inner, l₁, hp, g, l₂, hg, rfl⟩

structure Keeps (ids : List NodeId) (l l' : Layout) : Prop where
  accesses : ∀ i, i ∉ ids → l'.accesses[i]? = l.accesses[i]?
  frames : ∀ i, i ∉ ids → l'.frames[i]? = l.frames[i]?

namespace Keeps

variable {ids ids' : List NodeId}

lemma refl (ids : List NodeId) (l : Layout) : Keeps ids l l := ⟨fun _ _ => rfl, fun _ _ => rfl⟩

lemma trans (h : Keeps ids l l') (h' : Keeps ids' l' l'') : Keeps (ids ++ ids') l l'' := by
  constructor
  · intro i hi
    rw [List.mem_append, not_or] at hi
    rw [h'.accesses i hi.2, h.accesses i hi.1]
  · intro i hi
    rw [List.mem_append, not_or] at hi
    rw [h'.frames i hi.2, h.frames i hi.1]

lemma mono (h : Keeps ids l l') (hi : ids ⊆ ids') : Keeps ids' l l' :=
  ⟨fun i hni => h.accesses i fun hm => hni (hi hm), fun i hni => h.frames i fun hm => hni (hi hm)⟩

lemma setFrame (i : NodeId) (f : Frame) (l : Layout) :
    Keeps [i] l { l with frames := l.frames.insert i f } := by
  refine ⟨fun _ _ => rfl, fun j hj => ?_⟩
  have hne : i ≠ j := fun h => hj (h ▸ List.mem_singleton_self _)
  simp [Std.TreeMap.getElem?_insert, hne]

lemma setAccess (i : NodeId) (a : Access) (l : Layout) :
    Keeps [i] l { l with accesses := l.accesses.insert i a } := by
  refine ⟨fun j hj => ?_, fun _ _ => rfl⟩
  have hne : i ≠ j := fun h => hj (h ▸ List.mem_singleton_self _)
  simp [Std.TreeMap.getElem?_insert, hne]

end Keeps

lemma Lays.keeps {is : List Item} (h : Lays types is f l f' l')
    (hd : ∀ d, .defn d ∈ is → ∀ ⦃f f' l l'⦄, (addDef types d f).run l = .ok (f', l') →
      Keeps d.ids l l') : Keeps (is.flatMap Item.ids) l l' := by
  induction h with
  | nil => exact .refl _ _
  | @cons i is f f₁ f' l l₁ l' h _ ih =>
    have hi : Keeps i.ids l l₁ := by
      cases h with
      | defn h => exact hd _ (List.mem_cons_self ..) h
      | call h => exact .refl _ _
      | expr h => exact .refl _ _
    exact hi.trans (ih fun d hm => hd d (List.mem_cons_of_mem _ hm))

lemma LaysFunc.keeps {ps : List Param} {b : Expr} (h : LaysFunc types ps b f l f' l')
    (hd : ∀ d, .defn d ∈ b.items → ∀ ⦃f f' l l'⦄, (addDef types d f).run l = .ok (f', l') →
      Keeps d.ids l l') : Keeps (ps.flatMap Param.ids ++ b.ids) l l' := by
  obtain ⟨inner, l₁, hp, hb⟩ := h
  obtain ⟨hf, ha⟩ := addParams_kept hp
  refine Keeps.trans ⟨ha, fun i _ => by rw [hf]⟩ ((hb.keeps hd).mono fun i hi => ?_)
  obtain ⟨j, hj, hi⟩ := List.mem_flatMap.mp hi
  exact Expr.mem_ids_of_item hj hi

lemma addDef_keeps (d : Def) : ∀ ⦃f f' l l'⦄, (addDef types d f).run l = .ok (f', l') →
    Keeps d.ids l l' := by
  induction d using Def.nested with
  | h d ih =>
  intro f f' l l' h
  cases d with
  | var n x t =>
    obtain ⟨type, -, -, rfl⟩ := addDef_var_ok.mp h
    exact (Keeps.setAccess ..).mono (by simp)
  | func n x ps t b =>
    obtain ⟨g, l₂, hb, -, rfl⟩ := addDef_func_ok.mp h
    have hb' := hb.keeps ih
    have hl : Keeps _ l l₂ := ⟨hb'.accesses, hb'.frames⟩
    refine (hl.trans (.setFrame n.id g l₂)).mono fun i hi => ?_
    simp only [List.mem_append, List.mem_singleton] at hi
    simp only [Def.ids, List.mem_cons, List.mem_append]
    tauto
  | type n x t =>
    obtain ⟨rfl, rfl⟩ := run_pure_ok.mp h
    exact .refl _ _

lemma Lays.frame {is : List Item} (h : Lays types is f l f' l') :
    f'.label = f.label ∧ f'.level = f.level ∧ f'.params = f.params := by
  induction h with
  | nil => exact ⟨rfl, rfl, rfl⟩
  | @cons i is f f₁ f' l l₁ l' h _ ih =>
    obtain ⟨hl, hv, hp⟩ := ih
    rw [hl, hv, hp]
    cases h with
    | @defn d f f' l l' h =>
      cases d with
      | var n x t =>
        obtain ⟨type, -, rfl, -⟩ := addDef_var_ok.mp h
        exact ⟨rfl, rfl, rfl⟩
      | func n x ps t b =>
        obtain ⟨g, l₂, -, rfl, -⟩ := addDef_func_ok.mp h
        exact ⟨rfl, rfl, rfl⟩
      | type n x t =>
        obtain ⟨rfl, -⟩ := run_pure_ok.mp h
        exact ⟨rfl, rfl, rfl⟩
    | call h => exact ⟨rfl, rfl, rfl⟩
    | expr h => exact ⟨rfl, rfl, rfl⟩

lemma addParams_frame {ps : List Param} (h : (addParams types ps f).run l = .ok (f', l')) :
    f'.label = f.label ∧ f'.level = f.level ∧ l'.labels = l.labels ∧ l'.frames = l.frames := by
  induction ps generalizing f l with
  | nil =>
    obtain ⟨rfl, rfl⟩ := run_pure_ok.mp h
    exact ⟨rfl, rfl, rfl, rfl⟩
  | cons p ps ih =>
    simp only [addParams, run_bind_ok, typeOf_ok, setAccess_ok] at h
    obtain ⟨type, _, ⟨-, rfl⟩, _, _, rfl, h⟩ := h
    obtain ⟨hl, hv, hl', hf⟩ := ih h
    exact ⟨hl, hv, hl', hf⟩

lemma LaysFunc.frame {ps : List Param} {b : Expr} (h : LaysFunc types ps b f l f' l') :
    f'.label = f.label ∧ f'.level = f.level := by
  obtain ⟨inner, l₁, hp, hb⟩ := h
  obtain ⟨hl, hv, -⟩ := hb.frame
  obtain ⟨hl', hv', -⟩ := addParams_frame hp
  exact ⟨hl.trans hl', hv.trans hv'⟩

def Kept (ids : List NodeId) (l l' : Layout) : Prop :=
  ∀ i ∈ ids, l'.accesses[i]? = l.accesses[i]? ∧ l'.frames[i]? = l.frames[i]?

lemma Keeps.kept {ids ids' : List NodeId} (h : Keeps ids l l') (hd : ∀ i ∈ ids', i ∉ ids) :
    Kept ids' l l' :=
  fun i hi => ⟨h.accesses i (hd i hi), h.frames i (hd i hi)⟩

lemma Kept.trans {ids : List NodeId} (h : Kept ids l l') (h' : Kept ids l' l'') :
    Kept ids l l'' :=
  fun i hi => ⟨(h' i hi).1.trans (h i hi).1, (h' i hi).2.trans (h i hi).2⟩

lemma Kept.mono {ids ids' : List NodeId} (h : Kept ids l l') (hi : ids' ⊆ ids) : Kept ids' l l' :=
  fun i him => h i (hi him)

def LaidOut (types : NodeTable Ty) (l : Layout) (level : Nat) (d : Def) : Prop :=
  ∃ f f' l₁ l₂, (addDef types d f).run l₁ = .ok (f', l₂) ∧ f.level = level ∧ Kept d.ids l₂ l

lemma Lays.laidOut {is : List Item} (h : Lays types is f l f' l')
    (hn : (is.flatMap Item.ids).Nodup) {d : Def} (hd : .defn d ∈ is) :
    LaidOut types l' f.level d := by
  induction h with
  | nil => cases hd
  | @cons i is f f₁ f' l l₁ l' h hs ih =>
    rw [List.flatMap_cons, List.nodup_append] at hn
    obtain ⟨-, hn', hdis⟩ := hn
    have hlevel : f₁.level = f.level := (Lays.cons h .nil).frame.2.1
    rcases List.mem_cons.mp hd with rfl | hd
    · cases h with
      | defn h =>
        refine ⟨f, f₁, l, l₁, h, rfl, (hs.keeps fun d _ => addDef_keeps d).kept fun j hj hj' => ?_⟩
        exact hdis j hj j hj' rfl
    · rw [← hlevel]
      exact ih hn' hd

def Covers (types : NodeTable Ty) (l : Layout) (start : Frame) (n : Node) (ps : List Param)
    (b : Expr) : Prop :=
  ∃ l₀ inner l₁ f l₂, (addParams types ps start).run l₀ = .ok (inner, l₁) ∧
    Lays types b.items inner l₁ f l₂ ∧ l.frames[n.id]? = some f ∧
    (∀ i ∈ ps.flatMap Param.ids, l.accesses[i]? = l₁.accesses[i]?) ∧ Kept b.ids l₂ l

lemma LaysFunc.covers {ps : List Param} {b : Expr} {n : Node} {x : String} {t : TypeExpr}
    (h : LaysFunc types ps b f l f' l') (hn : (Def.func n x ps t b).ids.Nodup)
    (hk : Kept (Def.func n x ps t b).ids { l' with frames := l'.frames.insert n.id f' } l'') :
    Covers types l'' f n ps b := by
  obtain ⟨inner, l₁, hp, hb⟩ := h
  simp only [Def.ids, List.nodup_cons, List.nodup_append, List.mem_append, not_or] at hn
  obtain ⟨⟨-, -, hnb⟩, -, ⟨-, hb', -⟩, hdis⟩ := hn
  refine ⟨l, inner, l₁, f', l', hp, hb, ?_, fun i hi => ?_, fun i hi => ?_⟩
  · rw [(hk n.id (List.mem_cons_self ..)).2]
    simp
  · have hmem : i ∈ (Def.func n x ps t b).ids := by simp [hi]
    have hkeep := (hb.keeps fun d _ => addDef_keeps d).accesses i fun hm => by
      obtain ⟨j, hj, hij⟩ := List.mem_flatMap.mp hm
      exact hdis i hi i (.inr (Expr.mem_ids_of_item hj hij)) rfl
    rw [(hk i hmem).1, hkeep]
  · have hmem : i ∈ (Def.func n x ps t b).ids := by simp [hi]
    have hne : n.id ≠ i := fun he => hnb (he ▸ hi)
    refine ⟨(hk i hmem).1, ?_⟩
    rw [(hk i hmem).2]
    simp [Std.TreeMap.getElem?_insert, hne]

lemma LaidOut.covers {level : Nat} {n : Node} {x : String} {ps : List Param} {t : TypeExpr} {b : Expr}
    (h : LaidOut types l level (.func n x ps t b)) (hn : (Def.func n x ps t b).ids.Nodup) :
    ∃ k, Covers types l { label := .anonymous k, level := level + 1 } n ps b := by
  obtain ⟨f, f', l₁, l₂, h, rfl, hk⟩ := h
  obtain ⟨g, l₃, hb, -, rfl⟩ := addDef_func_ok.mp h
  exact ⟨_, hb.covers hn hk⟩

lemma Covers.laidOut {n : Node} {ps : List Param} {b : Expr} (h : Covers types l f n ps b)
    (hn : b.ids.Nodup) {d : Def} (hd : .defn d ∈ b.items) : LaidOut types l f.level d := by
  obtain ⟨_, inner, l₁, f', l₂, hp, hb, -, -, hk⟩ := h
  obtain ⟨g, g', l₃, l₄, h, hlevel, hk'⟩ := hb.laidOut (Expr.nodup_items hn) hd
  rw [(addParams_frame hp).2.1] at hlevel
  exact ⟨g, g', l₃, l₄, h, hlevel, hk'.trans (hk.mono fun i hi => Expr.mem_ids_of_item hd hi)⟩

lemma LaidOut.occurrences (d : Def) : ∀ outer : List NodeId, LaidOut types l outer.length d →
    d.ids.Nodup → ∀ o ∈ d.occurrences outer, ∀ d', o.item = .defn d' →
      LaidOut types l o.outer.length d' ∧ d'.ids.Nodup := by
  induction d using Def.nested with
  | h d ih =>
  intro outer h hn o ho d' hd'
  cases d with
  | var n x t =>
    obtain rfl := List.mem_singleton.mp ho
    obtain rfl := Item.defn.inj hd'
    exact ⟨h, hn⟩
  | func n x ps t b =>
    rw [Def.occurrences, List.mem_append, List.mem_singleton, Expr.occurrences_eq,
      List.mem_flatMap] at ho
    rcases ho with ⟨i, hi, ho⟩ | rfl
    · cases i with
      | expr e =>
        obtain rfl := List.mem_singleton.mp ho
        cases hd'
      | defn d =>
        obtain ⟨k, hc⟩ := h.covers hn
        have hnb : b.ids.Nodup :=
          (List.nodup_append.mp (List.nodup_append.mp (List.nodup_cons.mp hn).2).2.1).2.1
        exact ih d hi (n.id :: outer) (hc.laidOut hnb hi) (Expr.nodup_of_item hnb hi) o ho d' hd'
    · obtain rfl := Item.defn.inj hd'
      exact ⟨h, hn⟩
  | type n x t =>
    obtain rfl := List.mem_singleton.mp ho
    obtain rfl := Item.defn.inj hd'
    exact ⟨h, hn⟩

lemma addTop_keeps {d : Def} {u : Unit} (h : (addTop types d).run l = .ok (u, l')) :
    Keeps d.ids l l' := by
  cases d with
  | var n x t =>
    obtain ⟨type, -, rfl⟩ := addTop_var_ok.mp h
    exact (Keeps.setAccess ..).mono (by simp)
  | func n x ps t b =>
    obtain ⟨g, l₂, hb, rfl⟩ := addTop_func_ok.mp h
    refine ((hb.keeps fun d _ => addDef_keeps d).trans (.setFrame n.id g l₂)).mono fun i hi => ?_
    simp only [List.mem_append, List.mem_singleton] at hi
    simp only [Def.ids, List.mem_cons, List.mem_append]
    tauto
  | type n x t =>
    obtain ⟨-, rfl⟩ := run_pure_ok.mp h
    exact .refl _ _

lemma forM_keeps {ds : List Def} {u : Unit} (h : (ds.forM (addTop types)).run l = .ok (u, l')) :
    Keeps (Def.idsAll ds) l l' := by
  induction ds generalizing l with
  | nil =>
    obtain ⟨-, rfl⟩ := run_pure_ok.mp h
    exact .refl _ _
  | cons d ds ih =>
    obtain ⟨_, l₁, hd, h⟩ := run_bind_ok.mp h
    exact (addTop_keeps hd).trans (ih h)

lemma forM_addTop {ds : List Def} (hn : (Def.idsAll ds).Nodup) {u : Unit}
    (h : (ds.forM (addTop types)).run l = .ok (u, l')) {d : Def} (hd : d ∈ ds) :
    ∃ l₁ l₂, (addTop types d).run l₁ = .ok ((), l₂) ∧ Kept d.ids l₂ l' := by
  induction ds generalizing l with
  | nil => cases hd
  | cons d' ds ih =>
    obtain ⟨_, l₁, h₁, h₂⟩ := run_bind_ok.mp h
    obtain ⟨-, hn', hdis⟩ := List.nodup_append.mp hn
    rcases List.mem_cons.mp hd with rfl | hd
    · have hk : Keeps (Def.idsAll ds) l₁ l' := forM_keeps h₂
      exact ⟨l, l₁, h₁, hk.kept fun i hi hi' => hdis i hi i hi' rfl⟩
    · exact ih hn' h₂ hd

structure Labelled (l : Layout) : Prop where
  used : ∀ (i : NodeId) (f : Frame) (k : Nat), l.frames[i]? = some f → f.label = .anonymous k →
    k < l.labels.used
  inj : ∀ (i j : NodeId) (f g : Frame) (k : Nat), l.frames[i]? = some f → l.frames[j]? = some g →
    f.label = .anonymous k → g.label = .anonymous k → i = j

structure Labels (l l' : Layout) : Prop where
  le : l.labels.used ≤ l'.labels.used
  old : ∀ (i : NodeId) (f : Frame) (k : Nat), l'.frames[i]? = some f → f.label = .anonymous k →
    k < l.labels.used → l.frames[i]? = some f
  labelled : l.Labelled → l'.Labelled

namespace Labels

lemma of_eq (hl : l'.labels = l.labels) (hf : l'.frames = l.frames) : Labels l l' := by
  refine ⟨hl ▸ Nat.le_refl _, fun i f k h _ _ => hf ▸ h, fun h => ⟨?_, ?_⟩⟩
  · rw [hl, hf]
    exact h.used
  · rw [hf]
    exact h.inj

lemma trans (h : Labels l l') (h' : Labels l' l'') : Labels l l'' where
  le := Nat.le_trans h.le h'.le
  old i f k hi hk hlt := h.old i f k (h'.old i f k hi hk (Nat.lt_of_lt_of_le hlt h.le)) hk hlt
  labelled hl := h'.labelled (h.labelled hl)

lemma setNamed {i : NodeId} {f : Frame} {x : String} (hf : f.label = .named x) :
    Labels l { l with frames := l.frames.insert i f } := by
  have hold : ∀ (j : NodeId) (g : Frame) (k : Nat), (l.frames.insert i f)[j]? = some g →
      g.label = .anonymous k → l.frames[j]? = some g := by
    intro j g k hj hk
    rw [Std.TreeMap.getElem?_insert] at hj
    split at hj
    · obtain rfl := Option.some.inj hj
      rw [hf] at hk
      cases hk
    · exact hj
  refine ⟨Nat.le_refl _, fun j g k hj hk _ => hold j g k hj hk, fun h => ⟨?_, ?_⟩⟩
  · exact fun j g k hj hk => h.used j g k (hold j g k hj hk) hk
  · exact fun i j f g k hi hj hk hk' => h.inj i j f g k (hold i f k hi hk) (hold j g k hj hk') hk hk'

lemma setFresh {i : NodeId} {f : Frame} (hf : f.label = .anonymous l.labels.used)
    (h : Labels { l with labels := ⟨l.labels.used + 1⟩ } l') :
    Labels l { l' with frames := l'.frames.insert i f } := by
  have hle : l.labels.used + 1 ≤ l'.labels.used := h.le
  have hold : ∀ (j : NodeId) (g : Frame) (k : Nat), (l'.frames.insert i f)[j]? = some g →
      g.label = .anonymous k → j = i ∧ k = l.labels.used ∨ l'.frames[j]? = some g := by
    intro j g k hj hk
    rw [Std.TreeMap.getElem?_insert] at hj
    split at hj
    · rename_i hij
      obtain rfl := Option.some.inj hj
      exact .inl ⟨(Std.LawfulEqOrd.eq_of_compare hij).symm, Label.anonymous.inj (hk.symm.trans hf)⟩
    · exact .inr hj
  refine ⟨Nat.le_of_succ_le hle, fun j g k hj hk hlt => ?_, fun hl => ?_⟩
  · rcases hold j g k hj hk with ⟨-, rfl⟩ | hj
    · omega
    · exact h.old j g k hj hk (Nat.lt_succ_of_lt hlt)
  · have hl₁ : Labelled { l with labels := ⟨l.labels.used + 1⟩ } :=
      ⟨fun j g k hj hk => Nat.lt_succ_of_lt (hl.used j g k hj hk), hl.inj⟩
    have hl' := h.labelled hl₁
    -- no frame has had the label of this function so far
    have hnew : ∀ (j : NodeId) (g : Frame), l'.frames[j]? = some g → g.label ≠ .anonymous l.labels.used := by
      intro j g hj hk
      have hlt := hl.used j g _ (h.old j g _ hj hk (Nat.lt_succ_self _)) hk
      omega
    constructor
    · intro j g k hj hk
      rcases hold j g k hj hk with ⟨-, rfl⟩ | hj
      · exact hle
      · exact hl'.used j g k hj hk
    · intro j j' g g' k hj hj' hk hk'
      rcases hold j g k hj hk with ⟨hji, hkl⟩ | hj
      · rcases hold j' g' k hj' hk' with ⟨hji', -⟩ | hj'
        · exact hji.trans hji'.symm
        · exact (hnew j' g' hj' (hkl ▸ hk')).elim
      · rcases hold j' g' k hj' hk' with ⟨-, hkl⟩ | hj'
        · exact (hnew j g hj (hkl ▸ hk)).elim
        · exact hl'.inj j j' g g' k hj hj' hk hk'

end Labels

lemma Lays.rel {R : Layout → Layout → Prop} (hr : ∀ l, R l l)
    (ht : ∀ {l l' l''}, R l l' → R l' l'' → R l l'') {is : List Item}
    (h : Lays types is f l f' l')
    (hd : ∀ d, .defn d ∈ is → ∀ ⦃f f' l l'⦄, (addDef types d f).run l = .ok (f', l') → R l l') :
    R l l' := by
  induction h with
  | nil => exact hr _
  | cons h _ ih =>
    refine ht ?_ (ih fun d hm => hd d (List.mem_cons_of_mem _ hm))
    cases h with
    | defn h => exact hd _ (List.mem_cons_self ..) h
    | call h => exact hr _
    | expr h => exact hr _

lemma LaysFunc.labels {ps : List Param} {b : Expr} (h : LaysFunc types ps b f l f' l')
    (hd : ∀ d, .defn d ∈ b.items → ∀ ⦃f f' l l'⦄, (addDef types d f).run l = .ok (f', l') →
      Labels l l') : Labels l l' := by
  obtain ⟨inner, l₁, hp, hb⟩ := h
  obtain ⟨-, -, hl, hf⟩ := addParams_frame hp
  exact (Labels.of_eq hl hf).trans (hb.rel (fun _ => .of_eq rfl rfl) .trans hd)

lemma addDef_labels (d : Def) : ∀ ⦃f f' l l'⦄, (addDef types d f).run l = .ok (f', l') →
    Labels l l' := by
  induction d using Def.nested with
  | h d ih =>
  intro f f' l l' h
  cases d with
  | var n x t =>
    obtain ⟨type, -, -, rfl⟩ := addDef_var_ok.mp h
    exact .of_eq rfl rfl
  | func n x ps t b =>
    obtain ⟨g, l₂, hb, -, rfl⟩ := addDef_func_ok.mp h
    exact .setFresh hb.frame.1 (hb.labels ih)
  | type n x t =>
    obtain ⟨-, rfl⟩ := run_pure_ok.mp h
    exact .of_eq rfl rfl

lemma addTop_labels {d : Def} {u : Unit} (h : (addTop types d).run l = .ok (u, l')) :
    Labels l l' := by
  cases d with
  | var n x t =>
    obtain ⟨type, -, rfl⟩ := addTop_var_ok.mp h
    exact .of_eq rfl rfl
  | func n x ps t b =>
    obtain ⟨g, l₂, hb, rfl⟩ := addTop_func_ok.mp h
    exact (hb.labels fun d _ => addDef_labels d).trans (.setNamed hb.frame.1)
  | type n x t =>
    obtain ⟨-, rfl⟩ := run_pure_ok.mp h
    exact .of_eq rfl rfl

lemma forM_rel {R : Layout → Layout → Prop} (hr : ∀ l, R l l)
    (ht : ∀ {l l' l''}, R l l' → R l' l'' → R l l'') {ds : List Def} {u : Unit}
    (h : (ds.forM (addTop types)).run l = .ok (u, l'))
    (hd : ∀ d ∈ ds, ∀ ⦃l l' u⦄, (addTop types d).run l = .ok (u, l') → R l l') : R l l' := by
  induction ds generalizing l with
  | nil =>
    obtain ⟨-, rfl⟩ := run_pure_ok.mp h
    exact hr _
  | cons d ds ih =>
    obtain ⟨_, l₁, h₁, h⟩ := run_bind_ok.mp h
    exact ht (hd d (List.mem_cons_self ..) h₁)
      (ih h fun d hm => hd d (List.mem_cons_of_mem _ hm))

lemma layout_eq {p : Source.Program} {l : Layout} :
    p.layout = .ok l ↔ (p.defs.definitions.forM (addTop p.tables.types)).run {} = .ok ((), l) := by
  unfold Source.Program.layout
  cases h : (p.defs.definitions.forM (addTop p.tables.types)).run {} with
  | error e => simp [bind, Except.bind]
  | ok r =>
    obtain ⟨u, l'⟩ := r
    simp [bind, Except.bind, pure, Except.pure]

lemma layout_labelled {p : Source.Program} {l : Layout} (h : p.layout = .ok l) : l.Labelled := by
  have hl : Labels {} l :=
    forM_rel (fun _ => .of_eq rfl rfl) .trans (layout_eq.mp h) fun d _ _ _ _ => addTop_labels
  refine hl.labelled ⟨?_, ?_⟩
  · intro i f k h
    simp at h
  · intro i j f g k h
    simp at h

def NoGlobal (l l' : Layout) : Prop :=
  ∀ (i : NodeId) (size : Int) (x : Label), l'.accesses[i]? = some (.global size x) →
    l.accesses[i]? = some (.global size x)

lemma NoGlobal.setAccess {i : NodeId} {a : Access} (ha : ∀ size x, a ≠ .global size x) :
    NoGlobal l { l with accesses := l.accesses.insert i a } := by
  intro j size x h
  rw [Std.TreeMap.getElem?_insert] at h
  split at h
  · exact (ha size x (Option.some.inj h)).elim
  · exact h

lemma addParams_noGlobal {ps : List Param} (h : (addParams types ps f).run l = .ok (f', l')) :
    NoGlobal l l' := by
  induction ps generalizing f l with
  | nil =>
    obtain ⟨-, rfl⟩ := run_pure_ok.mp h
    exact fun _ _ _ h => h
  | cons p ps ih =>
    simp only [addParams, run_bind_ok, typeOf_ok, setAccess_ok] at h
    obtain ⟨type, l₁, ⟨-, rfl⟩, _, l₂, rfl, h⟩ := h
    exact fun i size x hi => NoGlobal.setAccess (fun _ _ => Access.noConfusion) i size x (ih h i size x hi)

lemma LaysFunc.noGlobal {ps : List Param} {b : Expr} (h : LaysFunc types ps b f l f' l')
    (hd : ∀ d, .defn d ∈ b.items → ∀ ⦃f f' l l'⦄, (addDef types d f).run l = .ok (f', l') →
      NoGlobal l l') : NoGlobal l l' := by
  obtain ⟨inner, l₁, hp, hb⟩ := h
  have hb' : NoGlobal l₁ l' :=
    hb.rel (fun _ _ _ _ h => h) (fun h h' i size x hi => h i size x (h' i size x hi)) hd
  exact fun i size x hi => addParams_noGlobal hp i size x (hb' i size x hi)

lemma addDef_noGlobal (d : Def) : ∀ ⦃f f' l l'⦄, (addDef types d f).run l = .ok (f', l') →
    NoGlobal l l' := by
  induction d using Def.nested with
  | h d ih =>
  intro f f' l l' h
  cases d with
  | var n x t =>
    obtain ⟨type, -, -, rfl⟩ := addDef_var_ok.mp h
    exact .setAccess fun _ _ => Access.noConfusion
  | func n x ps t b =>
    obtain ⟨g, l₂, hb, -, rfl⟩ := addDef_func_ok.mp h
    exact hb.noGlobal ih
  | type n x t =>
    obtain ⟨-, rfl⟩ := run_pure_ok.mp h
    exact fun _ _ _ h => h

lemma layout_global {p : Source.Program} {l : Layout} (h : p.layout = .ok l) {i : NodeId} {size : Int}
    {label : Label} (ha : l.accesses[i]? = some (.global size label)) :
    ∃ n x t type, .var n x t ∈ p.defs.definitions ∧ n.id = i ∧ label = .named x ∧
      p.tables.types[n.id]? = some type ∧ size = type.size := by
  let Origin (i : NodeId) (size : Int) (label : Label) : Prop :=
    ∃ n x t type, .var n x t ∈ p.defs.definitions ∧ n.id = i ∧ label = .named x ∧
      p.tables.types[n.id]? = some type ∧ size = type.size
  let R (l l' : Layout) : Prop := ∀ (i : NodeId) (size : Int) (label : Label),
    l'.accesses[i]? = some (.global size label) →
      l.accesses[i]? = some (.global size label) ∨ Origin i size label
  have hR : R {} l := by
    refine forM_rel (fun _ _ _ _ h => .inl h) (fun h h' i size x hi => ?_) (layout_eq.mp h) ?_
    · exact (h' i size x hi).elim (h i size x) .inr
    · intro d hd l l' u h i size label hi
      cases d with
      | var n x t =>
        obtain ⟨type, ht, rfl⟩ := addTop_var_ok.mp h
        rw [Std.TreeMap.getElem?_insert] at hi
        split at hi
        · rename_i hn
          obtain ⟨rfl, rfl⟩ := Access.global.inj (Option.some.inj hi)
          exact .inr ⟨n, x, t, type, hd, Std.LawfulEqOrd.eq_of_compare hn, rfl, ht, rfl⟩
        · exact .inl hi
      | func n x ps t b =>
        obtain ⟨g, l₂, hb, rfl⟩ := addTop_func_ok.mp h
        exact .inl (hb.noGlobal (fun d _ => addDef_noGlobal d) i size label hi)
      | type n x t =>
        obtain ⟨-, rfl⟩ := run_pure_ok.mp h
        exact .inl hi
  rcases hR i size label ha with ha | ho
  · simp at ha
  · exact ho

structure EntriesIn (os : List Occurrence) (l l' : Layout) : Prop where
  frames : ∀ (i : NodeId) (f : Frame), l'.frames[i]? = some f →
    l.frames[i]? = some f ∨ i ∈ functionIds os
  accesses : ∀ (i : NodeId) (a : Access), l'.accesses[i]? = some a →
    l.accesses[i]? = some a ∨ i ∈ placeIds os

namespace EntriesIn

variable {os os' : List Occurrence}

lemma refl (os : List Occurrence) (l : Layout) : EntriesIn os l l :=
  ⟨fun _ _ h => .inl h, fun _ _ h => .inl h⟩

lemma trans (h : EntriesIn os l l') (h' : EntriesIn os l' l'') : EntriesIn os l l'' :=
  ⟨fun i f hi => (h'.frames i f hi).elim (h.frames i f) .inr,
    fun i a hi => (h'.accesses i a hi).elim (h.accesses i a) .inr⟩

lemma mono (h : EntriesIn os l l') (hs : os ⊆ os') : EntriesIn os' l l' :=
  ⟨fun i f hi => (h.frames i f hi).imp_right fun hm => functionIds_mono hs hm,
    fun i a hi => (h.accesses i a hi).imp_right fun hm => placeIds_mono hs hm⟩

lemma setFrame {n : NodeId} {f : Frame} (hn : n ∈ functionIds os) :
    EntriesIn os l { l with frames := l.frames.insert n f } := by
  refine ⟨fun i g hi => ?_, fun _ _ h => .inl h⟩
  rw [Std.TreeMap.getElem?_insert] at hi
  split at hi
  · rename_i he
    exact .inr (Std.LawfulEqOrd.eq_of_compare he ▸ hn)
  · exact .inl hi

lemma setAccess {n : NodeId} {a : Access} (hn : n ∈ placeIds os) :
    EntriesIn os l { l with accesses := l.accesses.insert n a } := by
  refine ⟨fun _ _ h => .inl h, fun i b hi => ?_⟩
  rw [Std.TreeMap.getElem?_insert] at hi
  split at hi
  · rename_i he
    exact .inr (Std.LawfulEqOrd.eq_of_compare he ▸ hn)
  · exact .inl hi

end EntriesIn

lemma addParams_entriesIn {ps : List Param} {os : List Occurrence}
    (hs : ∀ q ∈ ps, q.node.id ∈ placeIds os) (h : (addParams types ps f).run l = .ok (f', l')) :
    EntriesIn os l l' := by
  induction ps generalizing f l with
  | nil =>
    obtain ⟨-, rfl⟩ := run_pure_ok.mp h
    exact .refl _ _
  | cons q ps ih =>
    simp only [addParams, run_bind_ok, typeOf_ok, setAccess_ok] at h
    obtain ⟨type, _, ⟨-, rfl⟩, _, _, rfl, h⟩ := h
    rw [List.forall_mem_cons] at hs
    exact (EntriesIn.setAccess hs.1).trans (ih hs.2 h)

lemma LaysFunc.entriesIn {n : Node} {x : String} {ps : List Param} {t : TypeExpr} {b : Expr}
    {outer : List NodeId} {g : Frame} (h : LaysFunc types ps b f l f' l')
    (hd : ∀ d, .defn d ∈ b.items → ∀ ⦃f f' l l'⦄, (addDef types d f).run l = .ok (f', l') →
      EntriesIn (d.occurrences (n.id :: outer)) l l') :
    EntriesIn ((Def.func n x ps t b).occurrences outer) l
      { l' with frames := l'.frames.insert n.id g } := by
  have hself : ⟨outer, .defn (.func n x ps t b)⟩ ∈ (Def.func n x ps t b).occurrences outer :=
    List.mem_append_right _ (List.mem_singleton_self _)
  obtain ⟨inner, l₁, hp, hb⟩ := h
  have hparams : EntriesIn ((Def.func n x ps t b).occurrences outer) l l₁ :=
    addParams_entriesIn (fun q hq => List.mem_flatMap.mpr ⟨_, hself, List.mem_map_of_mem hq⟩) hp
  have hbody : EntriesIn ((Def.func n x ps t b).occurrences outer) l₁ l' := by
    refine hb.rel (.refl _) .trans fun d hm f f' l l' h => (hd d hm h).mono fun o ho => ?_
    exact List.mem_append_left _ (Expr.mem_occurrences hm ho)
  exact (hparams.trans hbody).trans (.setFrame (List.mem_filterMap.mpr ⟨_, hself, rfl⟩))

lemma addDef_entriesIn (d : Def) : ∀ (outer : List NodeId) ⦃f f' l l'⦄,
    (addDef types d f).run l = .ok (f', l') → EntriesIn (d.occurrences outer) l l' := by
  induction d using Def.nested with
  | h d ih =>
  intro outer f f' l l' h
  cases d with
  | var n x t =>
    obtain ⟨type, -, -, rfl⟩ := addDef_var_ok.mp h
    exact .setAccess (List.mem_singleton_self _)
  | func n x ps t b =>
    obtain ⟨g, l₂, hb, -, rfl⟩ := addDef_func_ok.mp h
    have hb' := hb.entriesIn (x := x) (t := t) (g := g) fun d hd => ih d hd (n.id :: outer)
    exact ⟨hb'.frames, hb'.accesses⟩
  | type n x t =>
    obtain ⟨-, rfl⟩ := run_pure_ok.mp h
    exact .refl _ _

lemma layout_entriesIn {p : Source.Program} {l : Layout} (h : p.layout = .ok l) :
    EntriesIn p.occurrences {} l := by
  refine forM_rel (.refl _) .trans (layout_eq.mp h) fun d hd l l' u h => ?_
  have hsub : d.occurrences [] ⊆ p.occurrences := by
    intro o ho
    rw [Program.occurrences, Def.occurrencesAll_eq]
    exact List.mem_flatMap.mpr ⟨d, hd, ho⟩
  refine EntriesIn.mono ?_ hsub
  cases d with
  | var n x t =>
    obtain ⟨type, -, rfl⟩ := addTop_var_ok.mp h
    exact .setAccess (List.mem_singleton_self _)
  | func n x ps t b =>
    obtain ⟨g, l₂, hb, rfl⟩ := addTop_func_ok.mp h
    exact hb.entriesIn fun d _ => addDef_entriesIn d [n.id]
  | type n x t =>
    obtain ⟨-, rfl⟩ := run_pure_ok.mp h
    exact .refl _ _

lemma layout_frame {p : Source.Program} {l : Layout} (h : p.layout = .ok l) {i : NodeId} {f : Frame}
    (hf : l.frames[i]? = some f) : i ∈ functionIds p.occurrences := by
  rcases (layout_entriesIn h).frames i f hf with hf | hi
  · simp at hf
  · exact hi

lemma layout_access {p : Source.Program} {l : Layout} (h : p.layout = .ok l) {i : NodeId}
    {a : Access} (ha : l.accesses[i]? = some a) : i ∈ placeIds p.occurrences := by
  rcases (layout_entriesIn h).accesses i a ha with ha | hi
  · simp at ha
  · exact hi

section Program

variable {p : Source.Program} {outer : List NodeId} {n : Node} {x : String} {ps : List Param}
variable {t : TypeExpr} {b : Expr}

lemma layout_defn (hl : p.layout = .ok l) (hn : p.ids.Nodup) {d : Def}
    (ho : ⟨outer, .defn d⟩ ∈ p.occurrences) :
    d.ids.Nodup ∧
      ((outer = [] ∧ ∃ l₁ l₂, (addTop p.tables.types d).run l₁ = .ok ((), l₂) ∧ Kept d.ids l₂ l) ∨
        (outer ≠ [] ∧ LaidOut p.tables.types l outer.length d)) := by
  have hn := (List.nodup_cons.mp hn).2
  rw [Program.occurrences, Def.occurrencesAll_eq, List.mem_flatMap] at ho
  obtain ⟨top, htop, ho⟩ := ho
  have hnt := (Def.ids_sublist htop).nodup hn
  obtain ⟨l₁, l₂, hrun, hk⟩ := forM_addTop hn (layout_eq.mp hl) htop
  cases top with
  | var n x t =>
    obtain ⟨rfl, rfl⟩ : outer = [] ∧ d = .var n x t := by simpa [Def.occurrences] using ho
    exact ⟨hnt, .inl ⟨rfl, l₁, l₂, hrun, hk⟩⟩
  | type n x t =>
    obtain ⟨rfl, rfl⟩ : outer = [] ∧ d = .type n x t := by simpa [Def.occurrences] using ho
    exact ⟨hnt, .inl ⟨rfl, l₁, l₂, hrun, hk⟩⟩
  | func n x ps t b =>
    rw [Def.occurrences, List.mem_append, Expr.occurrences_eq, List.mem_flatMap] at ho
    rcases ho with ⟨i, hi, ho⟩ | ho
    · cases i with
      | expr e => cases List.mem_singleton.mp ho
      | defn d' =>
        obtain ⟨g, l₃, hb, rfl⟩ := addTop_func_ok.mp hrun
        have hnb : b.ids.Nodup :=
          (List.nodup_append.mp (List.nodup_append.mp (List.nodup_cons.mp hnt).2).2.1).2.1
        have hd := (hb.covers hnt hk).laidOut hnb hi
        obtain ⟨hlaid, hnd⟩ :=
          LaidOut.occurrences d' [n.id] hd (Expr.nodup_of_item hnb hi) _ ho d rfl
        refine ⟨hnd, .inr ⟨?_, hlaid⟩⟩
        rintro rfl
        exact absurd (d'.outer_isSuffix [n.id] _ ho).length_le (by simp)
    · obtain ⟨rfl, rfl⟩ : outer = [] ∧ d = .func n x ps t b := by simpa using ho
      exact ⟨hnt, .inl ⟨rfl, l₁, l₂, hrun, hk⟩⟩

lemma layout_func (hl : p.layout = .ok l) (hn : p.ids.Nodup)
    (ho : ⟨outer, .defn (.func n x ps t b)⟩ ∈ p.occurrences) :
    ∃ label, (outer = [] → label = .named x) ∧ (outer ≠ [] → ∃ k, label = .anonymous k) ∧
      Covers p.tables.types l { label, level := outer.length + 1 } n ps b := by
  obtain ⟨hnd, ⟨rfl, l₁, l₂, hrun, hk⟩ | ⟨hne, hlaid⟩⟩ := layout_defn hl hn ho
  · obtain ⟨g, l₃, hb, rfl⟩ := addTop_func_ok.mp hrun
    exact ⟨.named x, fun _ => rfl, fun h => absurd rfl h, hb.covers hnd hk⟩
  · obtain ⟨k, hc⟩ := hlaid.covers hnd
    exact ⟨.anonymous k, fun h => absurd h hne, fun _ => ⟨k, rfl⟩, hc⟩

lemma layout_frame_level (hl : p.layout = .ok l) (hn : p.ids.Nodup)
    (ho : ⟨outer, .defn (.func n x ps t b)⟩ ∈ p.occurrences) :
    ∃ f, l.frames[n.id]? = some f ∧ f.level = outer.length + 1 := by
  obtain ⟨label, -, -, l₀, inner, l₁, f, l₂, hp, hb, hf, -, -⟩ := layout_func hl hn ho
  exact ⟨f, hf, hb.frame.2.1.trans (addParams_frame hp).2.1⟩

lemma layout_var (hl : p.layout = .ok l) (hn : p.ids.Nodup)
    (ho : ⟨outer, .defn (.var n x t)⟩ ∈ p.occurrences) :
    ∃ type, p.tables.types[n.id]? = some type ∧
      (outer = [] → l.accesses[n.id]? = some (.global type.size (.named x))) ∧
      (outer ≠ [] → ∃ offset, l.accesses[n.id]? = some (.stack type.size offset outer.length)) := by
  obtain ⟨hnd, ⟨rfl, l₁, l₂, hrun, hk⟩ | ⟨hne, hlaid⟩⟩ := layout_defn hl hn ho
  · obtain ⟨type, ht, rfl⟩ := addTop_var_ok.mp hrun
    refine ⟨type, ht, fun _ => ?_, fun h => absurd rfl h⟩
    rw [(hk n.id (List.mem_cons_self ..)).1]
    simp
  · obtain ⟨f, f', l₁, l₂, h, hlevel, hk⟩ := hlaid
    obtain ⟨type, ht, -, rfl⟩ := addDef_var_ok.mp h
    refine ⟨type, ht, fun h => absurd h hne, fun _ => ⟨f.nextLocal type.size, ?_⟩⟩
    rw [(hk n.id (List.mem_cons_self ..)).1, ← hlevel]
    simp

lemma addParams_access {q : Param} (hp : (addParams types ps f).run l = .ok (f', l'))
    (hn : (ps.flatMap Param.ids).Nodup) (hq : q ∈ ps) :
    ∃ type offset, types[q.node.id]? = some type ∧
      l'.accesses[q.node.id]? = some (.param type.paramSize offset f.level) := by
  induction ps generalizing f l with
  | nil => cases hq
  | cons q' ps ih =>
    simp only [addParams, run_bind_ok, typeOf_ok, setAccess_ok] at hp
    obtain ⟨type, l₁, ⟨ht, rfl⟩, _, l₂, rfl, hp⟩ := hp
    rw [List.flatMap_cons, List.nodup_append] at hn
    rcases List.mem_cons.mp hq with rfl | hq
    · have hkept := (addParams_kept hp).2 q.node.id fun hm =>
        hn.2.2 _ (List.mem_cons_self ..) _ hm rfl
      exact ⟨type, f.nextParam, ht, by rw [hkept]; simp⟩
    · obtain ⟨type', offset, ht', ha⟩ := ih hp hn.2.1 hq
      exact ⟨type', offset, ht', ha⟩

lemma layout_param (hl : p.layout = .ok l) (hn : p.ids.Nodup)
    (ho : ⟨outer, .defn (.func n x ps t b)⟩ ∈ p.occurrences) {q : Param} (hq : q ∈ ps) :
    ∃ type offset, p.tables.types[q.node.id]? = some type ∧
      l.accesses[q.node.id]? = some (.param type.paramSize offset (outer.length + 1)) := by
  obtain ⟨hnd, -⟩ := layout_defn hl hn ho
  obtain ⟨label, -, -, l₀, inner, l₁, f, l₂, hp, -, -, ha, -⟩ := layout_func hl hn ho
  have hnp : (ps.flatMap Param.ids).Nodup := (List.nodup_append.mp (List.nodup_cons.mp hnd).2).1
  obtain ⟨type, offset, ht, hacc⟩ := addParams_access hp hnp hq
  refine ⟨type, offset, ht, ?_⟩
  rw [ha q.node.id (List.mem_flatMap.mpr ⟨q, hq, List.mem_cons_self ..⟩), hacc]

end Program

end Layout

end BlockLang
