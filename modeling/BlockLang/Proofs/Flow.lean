import BlockLang.Proofs.Branching
import BlockLang.Proofs.ControlFlow
import Mathlib.Data.Set.Insert

/-! Which temporaries hold a value at each place of linear code. Code that comes from a tree keeps
what was known before it, and a jump knows at least as much as its label asks for. -/

namespace BlockLang.Code

structure Bindings where
  names : Set Label
  functions : Set Label

variable {B : Bindings} {K K' M Z : Set Temp}

def Exp.Ready (B : Bindings) (K : Set Temp) : Exp → Prop
  | .const _ => True
  | .name l => l ∈ B.names
  | .temp t => t ∈ K
  | .mem a => a.Ready B K
  | .binop _ a b => a.Ready B K ∧ b.Ready B K
  | .call _ _ | .eseq _ _ => False

def Exp.ReadySource (B : Bindings) (K : Set Temp) : Exp → Prop
  | .call f args => f ∈ B.functions ∧ ∀ x ∈ args, x.Ready B K
  | x => x.Ready B K

lemma Exp.Ready.mono : ∀ {x : Exp}, x.Ready B K → K ⊆ K' → x.Ready B K'
  | .const _, _, _ => trivial
  | .name _, h, _ => h
  | .temp _, h, hK => hK h
  | .mem a, h, hK => Exp.Ready.mono (x := a) h hK
  | .binop _ a b, h, hK => ⟨Exp.Ready.mono (x := a) h.1 hK, Exp.Ready.mono (x := b) h.2 hK⟩

lemma Exp.Ready.isPure : ∀ {x : Exp}, x.Ready B K → x.isPure = true
  | .const _, _ | .name _, _ | .temp _, _ => rfl
  | .mem a, h => Exp.Ready.isPure (x := a) h
  | .binop _ a b, h => by
    simp [Exp.isPure, Exp.Ready.isPure (x := a) h.1, Exp.Ready.isPure (x := b) h.2]

lemma Exp.readySource_of_not_isCall {x : Exp} (hx : x.isCall = false) :
    x.ReadySource B K ↔ x.Ready B K := by
  cases x with
  | call f args => cases hx
  | _ => exact Iff.rfl

lemma Exp.Ready.source {x : Exp} (h : x.Ready B K) : x.ReadySource B K :=
  (Exp.readySource_of_not_isCall (Exp.not_isCall_of_isPure h.isPure)).mpr h

def Stm.Ready (B : Bindings) (K : Set Temp) : Stm → Prop
  | .move (.temp _) src => src.ReadySource B K
  | .move (.mem a) src => a.Ready B K ∧ src.ReadySource B K
  | .exp e => e.ReadySource B K
  | .cjump c _ _ => c.Ready B K
  | .jump _ | .label _ => True
  | .move _ _ | .seq _ => False

/-- The temporaries with values when control goes on to the statement below, if it ever does. -/
def Stm.after (K : Set Temp) : Stm → Set Temp
  | .move (.temp t) _ => insert t K
  | .jump _ | .cjump _ _ _ => Set.univ
  | .move _ _ | .exp _ | .label _ | .seq _ => K

def Follows (B : Bindings) : Set Temp → List (Set Temp × Stm) → Set Temp → Prop
  | K, [], Z => Z ⊆ K
  | K, (k, s) :: c, Z => k ⊆ K ∧ s.Ready B k ∧ Follows B (s.after k) c Z

def Guarded (d c : List (Set Temp × Stm)) : Prop :=
  ∀ p ∈ c, ∀ l ∈ p.2.targets, ∃ k, (k, .label l) ∈ d ∧ k ⊆ p.1

section Annotated

variable {c d e : List (Set Temp × Stm)}

lemma Follows.mono (h : Follows B K c Z) (hK : K ⊆ K') : Follows B K' c Z := by
  cases c with
  | nil => exact fun t ht => hK (h ht)
  | cons p c => exact ⟨fun t ht => hK (h.1 ht), h.2⟩

lemma Follows.append (h : Follows B K c M) (h' : Follows B M d Z) : Follows B K (c ++ d) Z := by
  induction c generalizing K with
  | nil => exact h'.mono h
  | cons p c ih => exact ⟨h.1, h.2.1, ih h.2.2⟩

lemma guarded_nil : Guarded d [] := List.forall_mem_nil _

lemma guarded_cons {p : Set Temp × Stm} :
    Guarded d (p :: c) ↔
      (∀ l ∈ p.2.targets, ∃ k, (k, .label l) ∈ d ∧ k ⊆ p.1) ∧ Guarded d c :=
  List.forall_mem_cons

lemma guarded_append : Guarded d (c ++ e) ↔ Guarded d c ∧ Guarded d e :=
  List.forall_mem_append

lemma Guarded.mono (h : Guarded d c) (hd : d ⊆ e) : Guarded e c := by
  intro p hp l hl
  obtain ⟨k, hk, hle⟩ := h p hp l hl
  exact ⟨k, hd hk, hle⟩

lemma Follows.at {ps : List (Set Temp × Stm)} (h : Follows B K ps Z) {i : Nat} {k : Set Temp} {s : Stm}
    (hi : ps[i]? = some (k, s)) :
    s.Ready B k ∧ ∀ k' s', ps[i + 1]? = some (k', s') → k' ⊆ s.after k := by
  induction ps generalizing K i with
  | nil => simp at hi
  | cons p ps ih =>
    cases i with
    | zero =>
      obtain rfl : p = (k, s) := by simpa using hi
      refine ⟨h.2.1, fun k' s' hs => ?_⟩
      cases ps with
      | nil => simp at hs
      | cons q ps =>
        obtain rfl : q = (k', s') := by simpa using hs
        exact h.2.2.1
    | succ i => exact ih h.2.2 (by simpa using hi)

end Annotated

def Leads (B : Bindings) (K : Set Temp) (code : List Stm) (Z : Set Temp) : Prop :=
  ∃ c, c.map Prod.snd = code ∧ Follows B K c Z ∧ Guarded c c

namespace Leads

variable {code code' : List Stm}

lemma nil : Leads B K [] K := ⟨[], rfl, Set.Subset.rfl, guarded_nil⟩

lemma append (h : Leads B K code M) (h' : Leads B M code' Z) : Leads B K (code ++ code') Z := by
  obtain ⟨c, rfl, hf, hg⟩ := h
  obtain ⟨d, rfl, hf', hg'⟩ := h'
  exact ⟨c ++ d, List.map_append, hf.append hf', guarded_append.mpr
    ⟨hg.mono (List.subset_append_left c d), hg'.mono (List.subset_append_right c d)⟩⟩

lemma single {s : Stm} (h : s.Ready B K) (hs : s.targets = []) : Leads B K [s] (s.after K) := by
  refine ⟨[(K, s)], rfl, ⟨Set.Subset.rfl, h, Set.Subset.rfl⟩, guarded_cons.mpr ⟨?_, guarded_nil⟩⟩
  simp [hs]

lemma snoc {s : Stm} (h : Leads B K code Z) (hr : s.Ready B Z) (hs : s.targets = []) :
    Leads B K (code ++ [s]) (s.after Z) :=
  h.append (single hr hs)

/-! The labels around a condition, a branch or a loop ask only for what was known before. -/

section Control

variable {v : Exp} {p q e : Label} {Zc Zb Zo : Set Temp} {before body other : List Stm}

lemma guarded_cjump {d : List (Set Temp × Stm)} (hK : K ⊆ Zc) (hp : (K, .label p) ∈ d)
    (hq : (K, .label q) ∈ d) :
    ∀ l ∈ (Stm.cjump v p q).targets, ∃ k, (k, .label l) ∈ d ∧ k ⊆ Zc := by
  intro l hl
  rcases List.mem_cons.mp hl with rfl | hl
  · exact ⟨K, hp, hK⟩
  · obtain rfl := List.mem_singleton.mp hl
    exact ⟨K, hq, hK⟩

lemma guarded_jump {d : List (Set Temp × Stm)} (hK : K ⊆ Zb) (hp : (K, .label p) ∈ d) :
    ∀ l ∈ (Stm.jump p).targets, ∃ k, (k, .label l) ∈ d ∧ k ⊆ Zb := by
  intro l hl
  obtain rfl := List.mem_singleton.mp hl
  exact ⟨K, hp, hK⟩

lemma guarded_label {d : List (Set Temp × Stm)} :
    ∀ l ∈ (Stm.label p).targets, ∃ k, (k, .label l) ∈ d ∧ k ⊆ K :=
  List.forall_mem_nil _

lemma ifThen (hc : Leads B K before Zc) (hv : v.Ready B Zc) (hK : K ⊆ Zc) (hb : Leads B K body Zb)
    (hKb : K ⊆ Zb) :
    Leads B K ((before ++ [.cjump v p e]) ++ .label p :: (body ++ [.label e])) K := by
  obtain ⟨c, rfl, hf, hg⟩ := hc
  obtain ⟨d, rfl, hf', hg'⟩ := hb
  refine ⟨(c ++ [(Zc, .cjump v p e)]) ++ (K, .label p) :: (d ++ [(K, .label e)]), by simp, ?_, ?_⟩
  · have hjump : Follows B K (c ++ [(Zc, .cjump v p e)]) Set.univ :=
      hf.append ⟨Set.Subset.rfl, hv, Set.Subset.rfl⟩
    exact hjump.append ⟨Set.subset_univ _, trivial, hf'.append ⟨hKb, trivial, Set.Subset.rfl⟩⟩
  · simp only [guarded_append, guarded_cons]
    refine ⟨⟨hg.mono ?_, guarded_cjump hK ?_ ?_, guarded_nil⟩, guarded_label, hg'.mono ?_,
      guarded_label, guarded_nil⟩
    all_goals simp +contextual [List.subset_def]

lemma ifElse (hc : Leads B K before Zc) (hv : v.Ready B Zc) (hK : K ⊆ Zc) (hb : Leads B K body Zb)
    (hKb : K ⊆ Zb) (ho : Leads B K other Zo) (hKo : K ⊆ Zo) :
    Leads B K ((before ++ [.cjump v p q]) ++ .label p :: (body ++ .jump e :: .label q ::
      (other ++ [.label e]))) K := by
  obtain ⟨c, rfl, hf, hg⟩ := hc
  obtain ⟨d, rfl, hf', hg'⟩ := hb
  obtain ⟨o, rfl, hf'', hg''⟩ := ho
  refine ⟨(c ++ [(Zc, .cjump v p q)]) ++ (K, .label p) :: (d ++ (Zb, .jump e) :: (K, .label q) ::
    (o ++ [(K, .label e)])), by simp, ?_, ?_⟩
  · have hjump : Follows B K (c ++ [(Zc, .cjump v p q)]) Set.univ :=
      hf.append ⟨Set.Subset.rfl, hv, Set.Subset.rfl⟩
    exact hjump.append ⟨Set.subset_univ _, trivial, hf'.append ⟨Set.Subset.rfl, trivial,
      Set.subset_univ _, trivial, hf''.append ⟨hKo, trivial, Set.Subset.rfl⟩⟩⟩
  · simp only [guarded_append, guarded_cons]
    refine ⟨⟨hg.mono ?_, guarded_cjump hK ?_ ?_, guarded_nil⟩, guarded_label, hg'.mono ?_,
      guarded_jump hKb ?_, guarded_label, hg''.mono ?_, guarded_label, guarded_nil⟩
    all_goals simp +contextual [List.subset_def]

lemma whileLoop (hc : Leads B K before Zc) (hv : v.Ready B Zc) (hK : K ⊆ Zc)
    (hb : Leads B K body Zb) (hKb : K ⊆ Zb) :
    Leads B K (.label p :: ((before ++ [.cjump v q e]) ++ .label q ::
      (body ++ [.jump p, .label e]))) K := by
  obtain ⟨c, rfl, hf, hg⟩ := hc
  obtain ⟨d, rfl, hf', hg'⟩ := hb
  refine ⟨(K, .label p) :: ((c ++ [(Zc, .cjump v q e)]) ++ (K, .label q) ::
    (d ++ [(Zb, .jump p), (K, .label e)])), by simp, ⟨Set.Subset.rfl, trivial, ?_⟩, ?_⟩
  · have hjump : Follows B K (c ++ [(Zc, .cjump v q e)]) Set.univ :=
      hf.append ⟨Set.Subset.rfl, hv, Set.Subset.rfl⟩
    exact hjump.append ⟨Set.subset_univ _, trivial, hf'.append ⟨Set.Subset.rfl, trivial,
      Set.subset_univ _, trivial, Set.Subset.rfl⟩⟩
  · simp only [guarded_append, guarded_cons]
    refine ⟨guarded_label, ⟨hg.mono ?_, guarded_cjump hK ?_ ?_, guarded_nil⟩, guarded_label,
      hg'.mono ?_, guarded_jump hKb ?_, guarded_label, guarded_nil⟩
    all_goals simp +contextual [List.subset_def]

end Control

end Leads

/-- From any place where the temporaries in `D` have values, the code before the value can be
executed, and then the value can be computed. -/
def Exp.Safe (B : Bindings) (D : Set Temp) (x : Exp) : Prop :=
  ∀ (n : Temp) (K : Set Temp), D ⊆ K →
    ∃ Z, K ⊆ Z ∧ Leads B K (x.split n).before Z ∧ (x.split n).value.ReadySource B Z

def Exp.AllSafe (B : Bindings) (D : Set Temp) (xs : List Exp) : Prop :=
  ∀ (n : Temp) (K : Set Temp), D ⊆ K →
    ∃ Z, K ⊆ Z ∧ Leads B K (Exp.splitAll xs n).before Z ∧
      ∀ x ∈ (Exp.splitAll xs n).value, x.Ready B Z

def Stm.Safe (B : Bindings) (D : Set Temp) (s : Stm) (D' : Set Temp) : Prop :=
  ∀ (n : Temp) (K : Set Temp), D ⊆ K → ∃ Z, K ⊆ Z ∧ D' ⊆ Z ∧ Leads B K (s.flat n).code Z

def Split.Safe (B : Bindings) (K : Set Temp) (r : Split Exp) : Prop :=
  ∃ Z, K ⊆ Z ∧ Leads B K r.before Z ∧ r.value.Ready B Z

lemma Split.Safe.hold {r : Split Exp} (h : r.Safe B K) (effects : Bool) :
    (r.hold effects).Safe B K := by
  refine r.hold_cases effects ?_ h
  obtain ⟨Z, hZ, hl, hv⟩ := h
  refine ⟨insert r.next Z, hZ.trans (Set.subset_insert ..), hl.snoc hv.source rfl, ?_⟩
  exact Set.mem_insert ..

section Trees

variable {D D' D'' : Set Temp} {x y : Exp} {xs : List Exp} {s s' : Stm} {ss : List Stm}

namespace Exp

lemma Safe.operand (h : x.Safe B D) (n : Temp) (hD : D ⊆ K) : (x.operand n).Safe B K := by
  obtain ⟨Z, hZ, hl, hv⟩ := h n K hD
  cases hx : (x.split n).value.isCall with
  | false =>
    rw [Exp.operand, Split.saveCall_of_not_isCall hx]
    exact ⟨Z, hZ, hl, (readySource_of_not_isCall hx).mp hv⟩
  | true =>
    rw [Exp.operand, Split.saveCall_of_isCall hx]
    refine ⟨insert (x.split n).next Z, hZ.trans (Set.subset_insert ..), hl.snoc hv rfl, ?_⟩
    exact Set.mem_insert ..

lemma safe_of_operand (hx : x.isCall = false)
    (h : ∀ (n : Temp) (K : Set Temp), D ⊆ K → (x.operand n).Safe B K) : x.Safe B D := by
  intro n K hD
  obtain ⟨Z, hZ, hl, hv⟩ := h n K hD
  rw [split_eq_operand n hx]
  exact ⟨Z, hZ, hl, hv.source⟩

lemma Safe.mono (h : x.Safe B D) (hD : D ⊆ D') : x.Safe B D' :=
  fun n K hK => h n K (hD.trans hK)

lemma Ready.safe (h : x.Ready B D) : x.Safe B D := by
  intro n K hD
  rw [split_of_isPure n h.isPure]
  exact ⟨K, Set.Subset.rfl, .nil, (h.mono hD).source⟩

lemma allSafe_nil : AllSafe B D [] := fun _ K _ =>
  ⟨K, Set.Subset.rfl, .nil, List.forall_mem_nil _⟩

lemma AllSafe.cons (hx : x.Safe B D) (hxs : AllSafe B D xs) : AllSafe B D (x :: xs) := by
  intro n K hD
  rw [splitAll_cons]
  obtain ⟨M, hM, hl, hv⟩ := (hx.operand (splitAll xs n).next hD).hold !xs.all isPure
  obtain ⟨Z, hZ, hl', hv'⟩ := hxs n M (hD.trans hM)
  exact ⟨Z, hM.trans hZ, hl.append hl', List.forall_mem_cons.mpr ⟨hv.mono hZ, hv'⟩⟩

lemma allSafe_of_forall (h : ∀ x ∈ xs, x.Safe B D) : AllSafe B D xs := by
  induction xs with
  | nil => exact allSafe_nil
  | cons x xs ih =>
    rw [List.forall_mem_cons] at h
    exact .cons h.1 (ih h.2)

lemma Safe.mem (h : x.Safe B D) : (Exp.mem x).Safe B D :=
  safe_of_operand rfl fun n _ hD => h.operand n hD

lemma Safe.binop (hx : x.Safe B D) (hy : y.Safe B D) (op : Op) : (Exp.binop op x y).Safe B D := by
  refine safe_of_operand rfl fun n K hD => ?_
  rw [operand_binop]
  obtain ⟨M, hM, hl, hv⟩ := (hx.operand (y.operand n).next hD).hold !y.isPure
  obtain ⟨Z, hZ, hl', hv'⟩ := hy.operand n (hD.trans hM)
  exact ⟨Z, hM.trans hZ, hl.append hl', hv.mono hZ, hv'⟩

lemma AllSafe.call {f : Label} (hf : f ∈ B.functions) (h : AllSafe B D xs) :
    (Exp.call f xs).Safe B D := by
  intro n K hD
  obtain ⟨Z, hZ, hl, hv⟩ := h n K hD
  exact ⟨Z, hZ, hl, hf, hv⟩

lemma Safe.eseq (hs : s.Safe B D D') (hx : x.Safe B (D ∪ D')) : (Exp.eseq s x).Safe B D := by
  refine safe_of_operand rfl fun n K hD => ?_
  rw [operand_eseq]
  obtain ⟨M, hM, hD', hl⟩ := hs n K hD
  obtain ⟨Z, hZ, hl', hv⟩ := hx.operand (s.flat n).next (Set.union_subset (hD.trans hM) hD')
  exact ⟨Z, hM.trans hZ, hl.append hl', hv⟩

end Exp

namespace Stm

lemma safe_nil : (Stm.seq []).Safe B D ∅ := fun _ K _ =>
  ⟨K, Set.Subset.rfl, Set.empty_subset _, .nil⟩

lemma Safe.mono (h : s.Safe B D D') (hD : D ⊆ D'') : s.Safe B D'' D' :=
  fun n K hK => h n K (hD.trans hK)

lemma Safe.forget (h : s.Safe B D D') : s.Safe B D ∅ := by
  intro n K hD
  obtain ⟨Z, hZ, -, hl⟩ := h n K hD
  exact ⟨Z, hZ, Set.empty_subset _, hl⟩

lemma Safe.cons (h : s.Safe B D D') (hs : (Stm.seq ss).Safe B (D ∪ D') D'') :
    (Stm.seq (s :: ss)).Safe B D (D' ∪ D'') := by
  intro n K hD
  rw [flat_seq_cons]
  obtain ⟨M, hM, hD', hl⟩ := h n K hD
  obtain ⟨Z, hZ, hD'', hl'⟩ := hs (s.flat n).next M (Set.union_subset (hD.trans hM) hD')
  exact ⟨Z, hM.trans hZ, Set.union_subset (hD'.trans hZ) hD'', hl.append hl'⟩

lemma safe_seq (h : ∀ s ∈ ss, s.Safe B D ∅) : (Stm.seq ss).Safe B D ∅ := by
  induction ss with
  | nil => exact safe_nil
  | cons s ss ih =>
    rw [List.forall_mem_cons] at h
    exact (h.1.cons ((ih h.2).mono Set.subset_union_left)).forget

lemma safe_move_temp (h : x.Safe B D) (t : Temp) : (Stm.move (.temp t) x).Safe B D {t} := by
  intro n K hD
  obtain ⟨Z, hZ, hl, hv⟩ := h n K hD
  refine ⟨insert t Z, hZ.trans (Set.subset_insert ..), ?_, hl.snoc hv rfl⟩
  exact Set.singleton_subset_iff.mpr (Set.mem_insert ..)

lemma safe_move_mem (hx : (Exp.mem x).Safe B D) (hy : y.Safe B D) :
    (Stm.move (.mem x) y).Safe B D ∅ := by
  intro n K hD
  rw [flat_move_mem]
  obtain ⟨M, hM, hl, hv⟩ := Split.Safe.hold (r := x.operand (y.operand n).next)
    (hx.operand (y.operand n).next hD) !y.isPure
  obtain ⟨Z, hZ, hl', hv'⟩ := hy.operand n (hD.trans hM)
  exact ⟨Z, hM.trans hZ, Set.empty_subset _, (hl.append hl').snoc ⟨hv.mono hZ, hv'.source⟩ rfl⟩

lemma safe_assign (ha : x.isAssignable = true) (hx : x.Safe B D) (hy : y.Safe B D) :
    (Stm.move x y).Safe B D ∅ := by
  cases x with
  | mem a => exact safe_move_mem hx hy
  | temp t => exact (safe_move_temp hy t).forget
  | _ => cases ha

lemma safe_exp (h : x.Safe B D) : (Stm.exp x).Safe B D ∅ := by
  intro n K hD
  obtain ⟨Z, hZ, hl, hv⟩ := h n K hD
  refine ⟨Z, hZ, Set.empty_subset _, ?_⟩
  have hd : Leads B Z (x.split n).value.discard Z := by
    cases he : (x.split n).value with
    | const w => exact .nil
    | name l => exact .nil
    | temp t => exact .nil
    | mem a => exact .single (he ▸ hv) rfl
    | binop op a b => exact .single (he ▸ hv) rfl
    | call f args => exact .single (he ▸ hv) rfl
    | eseq t a => exact .single (he ▸ hv) rfl
  exact hl.append hd

section Control

variable {p q e : Label}

lemma safe_ifThen (hx : x.Safe B D) (hs : s.Safe B D D') :
    (Lowering.ifThen p e x s).Safe B D ∅ := by
  intro n K hD
  obtain ⟨Z, hZ, hl, hv⟩ := hx.operand n hD
  obtain ⟨Z', hZ', -, hl'⟩ := hs (x.operand n).next K hD
  rw [Sim.flat_ifThen]
  exact ⟨K, Set.Subset.rfl, Set.empty_subset _, .ifThen hl hv hZ hl' hZ'⟩

lemma safe_ifElse (hx : x.Safe B D) (hs : s.Safe B D D') (hs' : s'.Safe B D D'') :
    (Lowering.ifElse p q e x s s').Safe B D ∅ := by
  intro n K hD
  obtain ⟨Z, hZ, hl, hv⟩ := hx.operand n hD
  obtain ⟨Z', hZ', -, hl'⟩ := hs (x.operand n).next K hD
  obtain ⟨Z'', hZ'', -, hl''⟩ := hs' (s.flat (x.operand n).next).next K hD
  rw [Sim.flat_ifElse]
  exact ⟨K, Set.Subset.rfl, Set.empty_subset _, .ifElse hl hv hZ hl' hZ' hl'' hZ''⟩

lemma safe_whileLoop (hx : x.Safe B D) (hs : s.Safe B D D') :
    (Lowering.whileLoop p q e x s).Safe B D ∅ := by
  intro n K hD
  obtain ⟨Z, hZ, hl, hv⟩ := hx.operand n hD
  obtain ⟨Z', hZ', -, hl'⟩ := hs (x.operand n).next K hD
  rw [Sim.flat_whileLoop]
  exact ⟨K, Set.Subset.rfl, Set.empty_subset _, .whileLoop hl hv hZ hl' hZ'⟩

lemma flat_forLoop (counter low high step : Exp) (body : Stm) (n : Temp) :
    (Lowering.forLoop p q e counter low high step body).flat n =
      (Stm.seq [.move counter low, Lowering.whileLoop p q e (.binop .lt counter high)
        (.seq [body, .move counter (.binop .add counter step)])]).flat n := by
  simp [Lowering.forLoop, Lowering.whileLoop, flat_seq_cons, flat_seq_nil, flat_label, flat_jump]

lemma safe_forLoop {counter low high step : Exp} (ha : counter.isAssignable = true)
    (hc : counter.Safe B D) (hl : low.Safe B D) (hh : high.Safe B D) (ht : step.Safe B D)
    (hs : s.Safe B D D') : (Lowering.forLoop p q e counter low high step s).Safe B D ∅ := by
  have hstep := safe_assign ha hc (hc.binop ht .add)
  have hround : (Stm.seq [s, .move counter (.binop .add counter step)]).Safe B D ∅ := by
    apply safe_seq
    simp only [List.forall_mem_cons, List.not_mem_nil, false_implies, implies_true, and_true]
    exact ⟨hs.forget, hstep⟩
  have hloop : (Stm.seq [.move counter low, Lowering.whileLoop p q e (.binop .lt counter high)
      (.seq [s, .move counter (.binop .add counter step)])]).Safe B D ∅ := by
    apply safe_seq
    simp only [List.forall_mem_cons, List.not_mem_nil, false_implies, implies_true, and_true]
    exact ⟨safe_assign ha hc hl, safe_whileLoop (hc.binop hh .lt) hround⟩
  intro n K hD
  rw [flat_forLoop]
  exact hloop n K hD

end Control

end Stm

end Trees

end BlockLang.Code
