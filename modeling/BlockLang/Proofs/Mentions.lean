import BlockLang.Proofs.Splitting

namespace BlockLang.Code

inductive Mention where
  | name (l : Label)
  | callee (l : Label)
deriving DecidableEq

mutual

def Exp.mentions : Exp → List Mention
  | .const _ | .temp _ => []
  | .name l => [.name l]
  | .mem a => a.mentions
  | .binop _ a b => a.mentions ++ b.mentions
  | .call f args => .callee f :: Exp.mentionsAll args
  | .eseq s e => s.mentions ++ e.mentions

def Exp.mentionsAll : List Exp → List Mention
  | [] => []
  | x :: xs => x.mentions ++ Exp.mentionsAll xs

def Stm.mentions : Stm → List Mention
  | .move dst src => dst.mentions ++ src.mentions
  | .exp e => e.mentions
  | .seq ss => Stm.mentionsAll ss
  | .cjump c _ _ => c.mentions
  | .jump _ | .label _ => []

def Stm.mentionsAll : List Stm → List Mention
  | [] => []
  | s :: ss => s.mentions ++ Stm.mentionsAll ss

end

@[simp] lemma Stm.mentionsAll_append (ss ts : List Stm) :
    Stm.mentionsAll (ss ++ ts) = Stm.mentionsAll ss ++ Stm.mentionsAll ts := by
  induction ss with
  | nil => rfl
  | cons s ss ih => simp [Stm.mentionsAll, ih]

lemma Stm.mem_mentionsAll {ss : List Stm} {x : Mention} :
    x ∈ Stm.mentionsAll ss ↔ ∃ s ∈ ss, x ∈ s.mentions := by
  induction ss with
  | nil => simp [Stm.mentionsAll]
  | cons s ss ih => simp [Stm.mentionsAll, ih]

variable {known : List Mention}

lemma mentionsAll_discard {x : Exp} (h : x.mentions ⊆ known) :
    Stm.mentionsAll x.discard ⊆ known := by
  cases x <;> simp_all [Exp.discard, Stm.mentionsAll, Stm.mentions]

def Split.Within (known : List Mention) (r : Split Exp) : Prop :=
  Stm.mentionsAll r.before ⊆ known ∧ r.value.mentions ⊆ known

namespace Split

variable {r r' : Split Exp}

lemma Within.save (h : r.Within known) : r.save.Within known := by
  refine ⟨?_, List.nil_subset _⟩
  simp only [Split.save, Stm.mentionsAll_append, Stm.mentionsAll, Stm.mentions, Exp.mentions,
    List.nil_append, List.append_nil, List.append_subset]
  exact h

lemma Within.hold (h : r.Within known) (effects : Bool) : (r.hold effects).Within known :=
  r.hold_cases effects h.save h

lemma Within.saveCall (h : r.Within known) : r.saveCall.Within known :=
  r.saveCall_cases h.save h

lemma Within.binop (h : r.Within known) (h' : r'.Within known) (op : Op) :
    (Split.binop op r r').Within known := by
  simp only [Split.binop, Within, Stm.mentionsAll_append, Exp.mentions, List.append_subset]
  exact ⟨⟨h.1, h'.1⟩, h.2, h'.2⟩

end Split

mutual

lemma Exp.within_split (x : Exp) (n : Temp) (h : x.mentions ⊆ known) :
    (x.split n).Within known := by
  cases x with
  | const w => exact ⟨List.nil_subset _, h⟩
  | name l => exact ⟨List.nil_subset _, h⟩
  | temp t => exact ⟨List.nil_subset _, h⟩
  | mem a => exact (a.within_split n h).saveCall
  | binop op a b =>
    rw [Exp.mentions, List.append_subset] at h
    exact ((a.within_split _ h.1).saveCall.hold _).binop (b.within_split _ h.2).saveCall op
  | call f args =>
    rw [Exp.mentions, List.cons_subset] at h
    obtain ⟨hb, hv⟩ := Exp.within_splitAll args n h.2
    exact ⟨hb, List.cons_subset.mpr ⟨h.1, hv⟩⟩
  | eseq s e =>
    rw [Exp.mentions, List.append_subset] at h
    have he := (e.within_split (s.flat n).next h.2).saveCall
    refine ⟨?_, he.2⟩
    simp only [Exp.split, Stm.mentionsAll_append, List.append_subset]
    exact ⟨s.within_flat n h.1, he.1⟩

lemma Exp.within_splitAll (xs : List Exp) (n : Temp) (h : Exp.mentionsAll xs ⊆ known) :
    Stm.mentionsAll (Exp.splitAll xs n).before ⊆ known ∧
      Exp.mentionsAll (Exp.splitAll xs n).value ⊆ known := by
  cases xs with
  | nil => exact ⟨List.nil_subset _, List.nil_subset _⟩
  | cons x xs =>
    rw [Exp.mentionsAll, List.append_subset] at h
    have hx := (x.within_split (Exp.splitAll xs n).next h.1).saveCall.hold (!xs.all Exp.isPure)
    obtain ⟨hb, hv⟩ := Exp.within_splitAll xs n h.2
    simp only [Exp.splitAll, Split.cons, Stm.mentionsAll_append, Exp.mentionsAll,
      List.append_subset]
    exact ⟨⟨hx.1, hb⟩, hx.2, hv⟩

lemma Exp.within_assign (d : Exp) {src : Temp → Split Exp} (effects : Bool) (n : Temp)
    (hsrc : ∀ n, (src n).Within known) (h : d.mentions ⊆ known) :
    Stm.mentionsAll (d.assign src effects n).code ⊆ known := by
  -- whatever the destination, the code is what comes before it, the source and one move
  have hmove : ∀ {r r' : Split Exp} {place : Exp → Exp}, r.Within known → r'.Within known →
      (∀ x, (place x).mentions = x.mentions) →
      Stm.mentionsAll (Flat.move r place r').code ⊆ known := by
    intro r r' place hr hr' hp
    simp only [Flat.move, Stm.mentionsAll_append, Stm.mentionsAll, Stm.mentions, hp,
      List.append_nil, List.append_subset]
    exact ⟨⟨hr.1, hr'.1⟩, hr.2, hr'.2⟩
  have huse : ∀ {r : Split Exp}, r.Within known →
      Stm.mentionsAll (Flat.ofSplit r (.move d)).code ⊆ known := by
    intro r hr
    simp only [Flat.ofSplit, Stm.mentionsAll_append, Stm.mentionsAll, Stm.mentions,
      List.append_nil, List.append_subset]
    exact ⟨hr.1, h, hr.2⟩
  cases d with
  | temp t => exact huse (hsrc n)
  | const w => exact huse (hsrc n).saveCall
  | name l => exact huse (hsrc n).saveCall
  | mem a =>
    exact hmove ((a.within_split _ h).saveCall.hold _) (hsrc n).saveCall fun _ => rfl
  | eseq s d =>
    rw [Exp.mentions, List.append_subset] at h
    simp only [Exp.assign, Flat.append, Stm.mentionsAll_append, List.append_subset]
    exact ⟨s.within_flat n h.1, d.within_assign effects _ hsrc h.2⟩
  | binop op a b =>
    rw [Exp.mentions, List.append_subset] at h
    have hb := (b.within_split (src n).saveCall.next h.2).saveCall
    have ha := ((a.within_split (b.split (src n).saveCall.next).saveCall.next h.1).saveCall.hold
      (!b.isPure))
    exact hmove ((ha.binop hb op).hold _) (hsrc n).saveCall fun _ => rfl
  | call f args =>
    rw [Exp.mentions, List.cons_subset] at h
    obtain ⟨hb, hv⟩ := Exp.within_splitAll args (src n).saveCall.next h.2
    have hcall : (Split.call f (Exp.splitAll args (src n).saveCall.next)).Within known :=
      ⟨hb, List.cons_subset.mpr ⟨h.1, hv⟩⟩
    exact hmove (hcall.save.hold _) (hsrc n).saveCall fun _ => rfl

lemma Stm.within_flat (s : Stm) (n : Temp) (h : s.mentions ⊆ known) :
    Stm.mentionsAll (s.flat n).code ⊆ known := by
  cases s with
  | move d x =>
    rw [Stm.mentions, List.append_subset] at h
    exact d.within_assign _ n (fun m => x.within_split m h.2) h.1
  | exp e =>
    have he := e.within_split n h
    simp only [Stm.flat, Stm.mentionsAll_append, List.append_subset]
    exact ⟨he.1, mentionsAll_discard he.2⟩
  | seq ss => exact Stm.within_flatAll ss n h
  | cjump c l l' =>
    have hc := (c.within_split n h).saveCall
    simp only [Stm.flat, Flat.ofSplit, Stm.mentionsAll_append, Stm.mentionsAll, Stm.mentions,
      List.append_nil, List.append_subset]
    exact hc
  | jump l => exact List.nil_subset _
  | label l => exact List.nil_subset _

lemma Stm.within_flatAll (ss : List Stm) (n : Temp) (h : Stm.mentionsAll ss ⊆ known) :
    Stm.mentionsAll (Stm.flatAll ss n).code ⊆ known := by
  cases ss with
  | nil => exact List.nil_subset _
  | cons s ss =>
    rw [Stm.mentionsAll, List.append_subset] at h
    simp only [Stm.flatAll, Flat.append, Stm.mentionsAll_append, List.append_subset]
    exact ⟨s.within_flat n h.1, Stm.within_flatAll ss _ h.2⟩

end

end BlockLang.Code
