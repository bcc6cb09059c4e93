import BlockLang.Proofs.Splitting

namespace BlockLang.Code

lemma Exp.isCallOrPure_of_isPure {x : Exp} (h : x.isPure = true) : x.isCallOrPure = true := by
  cases x with
  | call f args => cases h
  | _ => exact h

def Exp.isAtom : Exp → Bool
  | .const _ | .name _ | .temp _ => true
  | _ => false

/-- The forms of a statement of linear code. A call is the whole source of a move to a temporary or
a whole expression; there is no call and no statement anywhere else. -/
inductive Stm.Canonical : Stm → Prop where
  | call (t : Temp) (f : Label) {args : List Exp} (h : args.all Exp.isPure = true) :
    Canonical (.move (.temp t) (.call f args))
  | move {d x : Exp} (hd : d.isPure = true) (hx : x.isPure = true) : Canonical (.move d x)
  | effect (f : Label) {args : List Exp} (h : args.all Exp.isPure = true) :
    Canonical (.exp (.call f args))
  | exp {x : Exp} (hx : x.isPure = true) (ha : x.isAtom = false) : Canonical (.exp x)
  | cjump {c : Exp} (hc : c.isPure = true) (l l' : Label) : Canonical (.cjump c l l')
  | jump (l : Label) : Canonical (.jump l)
  | label (l : Label) : Canonical (.label l)

lemma Stm.Canonical.isLinear {s : Stm} (h : s.Canonical) : s.isLinear = true := by
  cases h with
  | call t f h => exact h
  | move hd hx => simp [Stm.isLinear, hd, Exp.isCallOrPure_of_isPure hx]
  | effect f h => exact h
  | exp hx ha => exact Exp.isCallOrPure_of_isPure hx
  | cjump hc l l' => exact hc
  | jump l => rfl
  | label l => rfl

def Exp.endsAssignable : Exp → Bool
  | .eseq _ d => d.endsAssignable
  | d => d.isAssignable

mutual

def Exp.isDirected : Exp → Bool
  | .const _ | .name _ | .temp _ => true
  | .mem a => a.isDirected
  | .binop _ a b => a.isDirected && b.isDirected
  | .call _ args => Exp.areDirected args
  | .eseq s e => s.isDirected && e.isDirected

def Exp.areDirected : List Exp → Bool
  | [] => true
  | x :: xs => x.isDirected && Exp.areDirected xs

def Stm.isDirected : Stm → Bool
  | .move dst src => dst.endsAssignable && dst.isDirected && src.isDirected
  | .exp e => e.isDirected
  | .seq ss => Stm.areDirected ss
  | .cjump c _ _ => c.isDirected
  | .jump _ | .label _ => true

def Stm.areDirected : List Stm → Bool
  | [] => true
  | s :: ss => s.isDirected && Stm.areDirected ss

end

def Stm.Fits (directed : Prop) (s : Stm) : Prop :=
  s.Canonical ∧ (directed → ∀ d x, s = .move d x → d.isAssignable = true)

def Split.Linear (directed : Prop) (r : Split Exp) : Prop :=
  (∀ s ∈ r.before, s.Fits directed) ∧ r.value.isCallOrPure = true

def Split.Neat (directed : Prop) (r : Split Exp) : Prop :=
  (∀ s ∈ r.before, s.Fits directed) ∧ r.value.isPure = true

variable {directed : Prop}

lemma Stm.fits_move {d x : Exp} (hd : d.isPure = true) (hx : x.isPure = true)
    (ha : directed → d.isAssignable = true) : (Stm.move d x).Fits directed := by
  refine ⟨.move hd hx, fun h d' x' he => ?_⟩
  cases he
  exact ha h

lemma Stm.fits_move_temp (t : Temp) {x : Exp} (h : x.isCallOrPure = true) :
    (Stm.move (.temp t) x).Fits directed := by
  cases x with
  | call f args =>
    refine ⟨.call t f h, fun _ d' x' he => ?_⟩
    cases he
    rfl
  | _ => exact Stm.fits_move rfl h fun _ => rfl

lemma Stm.Canonical.fits {s : Stm} (h : s.Canonical) (hm : ∀ d x, s ≠ .move d x) :
    s.Fits directed :=
  ⟨h, fun _ d x he => (hm d x he).elim⟩

namespace Split

variable {r r' : Split Exp}

lemma Neat.linear (h : r.Neat directed) : r.Linear directed :=
  ⟨h.1, Exp.isCallOrPure_of_isPure h.2⟩

lemma Linear.save (h : r.Linear directed) : r.save.Neat directed := by
  refine ⟨?_, rfl⟩
  simp only [Split.save, List.forall_mem_append, List.forall_mem_singleton]
  exact ⟨h.1, Stm.fits_move_temp _ h.2⟩

lemma Neat.hold (h : r.Neat directed) (effects : Bool) : (r.hold effects).Neat directed :=
  r.hold_cases effects h.linear.save h

lemma Linear.saveCall (h : r.Linear directed) : r.saveCall.Neat directed := by
  cases hc : r.value.isCall with
  | true =>
    rw [Split.saveCall_of_isCall hc]
    exact h.save
  | false =>
    rw [Split.saveCall_of_not_isCall hc]
    refine ⟨h.1, ?_⟩
    have hv := h.2
    cases hr : r.value with
    | call f args =>
      rw [hr] at hc
      cases hc
    | _ =>
      rw [hr] at hv
      exact hv

lemma Neat.binop (h : r.Neat directed) (h' : r'.Neat directed) (op : Op) :
    (Split.binop op r r').Neat directed := by
  refine ⟨List.forall_mem_append.mpr ⟨h.1, h'.1⟩, ?_⟩
  simp only [Split.binop, Exp.isPure, h.2, h'.2, Bool.and_self]

end Split

lemma Exp.fits_discard {x : Exp} (h : x.isCallOrPure = true) :
    ∀ s ∈ x.discard, s.Fits directed := by
  cases x with
  | const w => exact List.forall_mem_nil _
  | name l => exact List.forall_mem_nil _
  | temp t => exact List.forall_mem_nil _
  | mem a => exact List.forall_mem_singleton.mpr (Stm.Canonical.fits (.exp h rfl) nofun)
  | binop op a b => exact List.forall_mem_singleton.mpr (Stm.Canonical.fits (.exp h rfl) nofun)
  | call f args => exact List.forall_mem_singleton.mpr (Stm.Canonical.fits (.effect f h) nofun)
  | eseq s e => cases h

namespace Flat

lemma fits_ofSplit {r : Split Exp} {use : Exp → Stm} (h : ∀ s ∈ r.before, s.Fits directed)
    (hu : (use r.value).Fits directed) : ∀ s ∈ (Flat.ofSplit r use).code, s.Fits directed :=
  List.forall_mem_append.mpr ⟨h, List.forall_mem_singleton.mpr hu⟩

lemma fits_move {dst src : Split Exp} {place : Exp → Exp} (hd : dst.Neat directed)
    (hs : src.Neat directed) (hp : (place dst.value).isPure = dst.value.isPure)
    (ha : directed → (place dst.value).isAssignable = true) :
    ∀ s ∈ (Flat.move dst place src).code, s.Fits directed := by
  simp only [Flat.move, List.forall_mem_append, List.forall_mem_singleton]
  exact ⟨⟨hd.1, hs.1⟩, Stm.fits_move (hp.trans hd.2) hs.2 ha⟩

end Flat

lemma imp_of_imp_and {p : Prop} {a b : Bool} (h : p → (a && b) = true) :
    (p → a = true) ∧ (p → b = true) :=
  ⟨fun hp => (Bool.and_eq_true_iff.mp (h hp)).1, fun hp => (Bool.and_eq_true_iff.mp (h hp)).2⟩

-- One induction for all trees: what is known of the destinations is only assumed under `directed`.
mutual

lemma Exp.linear_split (x : Exp) (n : Temp) (h : directed → x.isDirected = true) :
    (x.split n).Linear directed := by
  cases x with
  | const w => exact ⟨List.forall_mem_nil _, rfl⟩
  | name l => exact ⟨List.forall_mem_nil _, rfl⟩
  | temp t => exact ⟨List.forall_mem_nil _, rfl⟩
  | mem a => exact Split.Neat.linear (a.linear_split n h).saveCall
  | binop op a b =>
    obtain ⟨ha, hb⟩ := imp_of_imp_and h
    exact (((a.linear_split _ ha).saveCall.hold _).binop (b.linear_split n hb).saveCall op).linear
  | call f args => exact ⟨Exp.fits_splitAll args n h, Exp.splitAll_value_isPure args n⟩
  | eseq s e =>
    obtain ⟨hs, he⟩ := imp_of_imp_and h
    have hvalue := (e.linear_split (s.flat n).next he).saveCall
    exact ⟨List.forall_mem_append.mpr ⟨s.fits_flat n hs, hvalue.1⟩, hvalue.linear.2⟩

lemma Exp.fits_splitAll (xs : List Exp) (n : Temp) (h : directed → Exp.areDirected xs = true) :
    ∀ s ∈ (Exp.splitAll xs n).before, s.Fits directed := by
  cases xs with
  | nil => exact List.forall_mem_nil _
  | cons x xs =>
    obtain ⟨hx, hxs⟩ := imp_of_imp_and h
    have hfirst := (x.linear_split (Exp.splitAll xs n).next hx).saveCall.hold (!xs.all Exp.isPure)
    exact List.forall_mem_append.mpr ⟨hfirst.1, Exp.fits_splitAll xs n hxs⟩

lemma Exp.fits_assign (d : Exp) {src : Temp → Split Exp} (effects : Bool) (n : Temp)
    (hsrc : ∀ n, (src n).Linear directed) (ha : directed → d.endsAssignable = true)
    (h : directed → d.isDirected = true) :
    ∀ s ∈ (d.assign src effects n).code, s.Fits directed := by
  have hs := (hsrc n).saveCall
  cases d with
  | temp t => exact Flat.fits_ofSplit (hsrc n).1 (Stm.fits_move_temp t (hsrc n).2)
  | const w => exact Flat.fits_ofSplit hs.1 (Stm.fits_move rfl hs.2 ha)
  | name l => exact Flat.fits_ofSplit hs.1 (Stm.fits_move rfl hs.2 ha)
  | mem a =>
    exact Flat.fits_move ((a.linear_split _ h).saveCall.hold effects) hs rfl fun _ => rfl
  | eseq s d =>
    obtain ⟨hb, hd⟩ := imp_of_imp_and h
    exact List.forall_mem_append.mpr ⟨s.fits_flat n hb, d.fits_assign effects _ hsrc ha hd⟩
  | binop op a b =>
    obtain ⟨hl, hr⟩ := imp_of_imp_and h
    have hright := (b.linear_split (src n).saveCall.next hr).saveCall
    have hleft := (a.linear_split (b.split (src n).saveCall.next).saveCall.next hl).saveCall
    refine Flat.fits_move (((hleft.hold _).binop hright op).hold effects) hs rfl fun hd => ?_
    cases ha hd
  | call f args =>
    have hc : (Split.call f (Exp.splitAll args (src n).saveCall.next)).Linear directed :=
      ⟨Exp.fits_splitAll args _ h, Exp.splitAll_value_isPure args _⟩
    refine Flat.fits_move (hc.save.hold effects) hs rfl fun hd => ?_
    cases ha hd

lemma Stm.fits_flat (s : Stm) (n : Temp) (h : directed → s.isDirected = true) :
    ∀ t ∈ (s.flat n).code, t.Fits directed := by
  cases s with
  | move d x =>
    obtain ⟨hd, hx⟩ := imp_of_imp_and h
    obtain ⟨hends, hinside⟩ := imp_of_imp_and hd
    exact d.fits_assign _ n (fun m => x.linear_split m hx) hends hinside
  | exp e =>
    have he := e.linear_split n h
    exact List.forall_mem_append.mpr ⟨he.1, Exp.fits_discard he.2⟩
  | seq ss => exact Stm.fits_flatAll ss n h
  | cjump c l l' =>
    have hc := (c.linear_split n h).saveCall
    exact Flat.fits_ofSplit hc.1 (Stm.Canonical.fits (.cjump hc.2 l l') nofun)
  | jump l => exact List.forall_mem_singleton.mpr (Stm.Canonical.fits (.jump l) nofun)
  | label l => exact List.forall_mem_singleton.mpr (Stm.Canonical.fits (.label l) nofun)

lemma Stm.fits_flatAll (ss : List Stm) (n : Temp) (h : directed → Stm.areDirected ss = true) :
    ∀ t ∈ (Stm.flatAll ss n).code, t.Fits directed := by
  cases ss with
  | nil => exact List.forall_mem_nil _
  | cons s ss =>
    obtain ⟨hs, hss⟩ := imp_of_imp_and h
    exact List.forall_mem_append.mpr ⟨s.fits_flat n hs, Stm.fits_flatAll ss _ hss⟩

end

lemma Stm.canonical_flat (s : Stm) (n : Temp) : ∀ t ∈ (s.flat n).code, t.Canonical := by
  have h : ∀ t ∈ (s.flat n).code, t.Fits False := s.fits_flat n False.elim
  exact fun t ht => (h t ht).1

lemma Stm.linear_flat (s : Stm) (n : Temp) : (s.flat n).code.all Stm.isLinear = true :=
  List.all_eq_true.mpr fun t ht => (s.canonical_flat n t ht).isLinear

lemma Exp.assign_of_isPure {d x : Exp} (hd : d.isPure = true) (hx : x.isPure = true) (n : Temp) :
    d.assign (fun m => x.split m) false n = ⟨[.move d x], n⟩ := by
  have hpure : ∀ {y : Exp}, y.isPure = true → (y.split n).saveCall = ⟨[], y, n⟩ :=
    Exp.operand_of_isPure n
  cases d with
  | temp t => simp [Exp.assign, Flat.ofSplit, Exp.split_of_isPure n hx]
  | const w => simp [Exp.assign, Flat.ofSplit, hpure hx]
  | name l => simp [Exp.assign, Flat.ofSplit, hpure hx]
  | mem a =>
    have ha : a.isPure = true := hd
    simp [Exp.assign, Flat.move, hpure hx, hpure ha]
  | binop op a b =>
    obtain ⟨ha, hb⟩ := Bool.and_eq_true_iff.mp hd
    simp [Exp.assign, Flat.move, Split.binop, hpure hx, hpure ha, hpure hb, hb]
  | call f args => cases hd
  | eseq s d => cases hd

lemma Exp.discard_of_not_isAtom {x : Exp} (h : x.isAtom = false) : x.discard = [.exp x] := by
  cases x with
  | const w => cases h
  | name l => cases h
  | temp t => cases h
  | _ => rfl

namespace Stm

lemma Canonical.flat {s : Stm} (h : s.Canonical) (n : Temp) : s.flat n = ⟨[s], n⟩ := by
  cases h with
  | call t f h => rw [flat_move_temp_call, Exp.splitAll_of_isPure n h, List.nil_append]
  | move hd hx =>
    rw [Stm.flat, hx]
    exact Exp.assign_of_isPure hd hx n
  | effect f h => rw [flat_exp_call, Exp.splitAll_of_isPure n h, List.nil_append]
  | exp hx ha =>
    rw [flat_exp n (Exp.not_isCall_of_isPure hx), Exp.operand_of_isPure n hx, List.nil_append,
      Exp.discard_of_not_isAtom ha]
  | cjump hc l l' => rw [flat_cjump, Exp.operand_of_isPure n hc, List.nil_append]
  | jump l => rfl
  | label l => rfl

lemma flatAll_of_canonical {code : List Stm} (h : ∀ s ∈ code, s.Canonical) (n : Temp) :
    flatAll code n = ⟨code, n⟩ := by
  induction code with
  | nil => rfl
  | cons s code ih =>
    obtain ⟨hs, hcode⟩ := List.forall_mem_cons.mp h
    simp only [flatAll, hs.flat n, ih hcode, Flat.append, List.singleton_append]

/-- Linearization leaves exactly the sequences of canonical statements as they are. -/
lemma linearize_eq_self_iff {s : Stm} {n : Temp} :
    s.linearize n = (s, n) ↔ ∃ code, s = .seq code ∧ ∀ t ∈ code, t.Canonical := by
  constructor
  · intro h
    exact ⟨(s.flat n).code, (congrArg Prod.fst h).symm, s.canonical_flat n⟩
  · rintro ⟨code, rfl, h⟩
    rw [linearize, Stm.flat, flatAll_of_canonical h]

end Stm

/-- Linearization gives one sequence of linear statements of the canonical forms, and their moves go to
temporaries and to memory if those of the tree do. -/
theorem linearize_shape (s : Stm) (n : Temp) :
    ∃ code, (s.linearize n).1 = .seq code ∧ (∀ t ∈ code, t.isLinear = true ∧ t.Canonical) ∧
      (s.isDirected = true → ∀ d x, .move d x ∈ code → d.isAssignable = true) := by
  have h := s.fits_flat n (fun hs : s.isDirected = true => hs)
  exact ⟨(s.flat n).code, rfl, fun t ht => ⟨(h t ht).1.isLinear, (h t ht).1⟩,
    fun hs d x hm => (h _ hm).2 hs d x rfl⟩

def nestedCalls : Stm :=
  .move (.eseq (.exp (.call (.named "f") [])) (.mem (.call (.named "g") [.const 8])))
    (.binop .mul (.call (.named "g") [.mem (.temp (.ofNat 0))])
      (.eseq (.seq [.label (.anonymous 0), .exp (.const 0)]) (.call (.named "h") [])))

theorem linearize_shape_nested_calls :
    ∃ code, (nestedCalls.linearize (.ofNat 1)).1 = .seq code ∧ code.length = 8 ∧
      (∀ t ∈ code, t.isLinear = true ∧ t.Canonical) ∧ nestedCalls.isDirected = true ∧
      ∀ d x, .move d x ∈ code → d.isAssignable = true := by
  obtain ⟨code, hcode, hforms, hmoves⟩ := linearize_shape nestedCalls (.ofNat 1)
  have hdirected : nestedCalls.isDirected = true := by decide
  refine ⟨code, hcode, ?_, hforms, hdirected, hmoves hdirected⟩
  rw [← Stm.seq.inj hcode]
  decide

/-- Linear code is not linearized further, and no temporary is taken for it. -/
theorem linearize_idempotent (s : Stm) (n m : Temp) :
    (s.linearize n).1.linearize m = ((s.linearize n).1, m) :=
  Stm.linearize_eq_self_iff.mpr ⟨_, rfl, s.canonical_flat n⟩

-- A call that goes to memory is linear, but it takes a temporary.
example :
    let s : Stm := .move (.mem (.const 8)) (.call (.named "f") [])
    s.isLinear = true ∧ ((Stm.seq [s]).linearize (.ofNat 0)).2 = .ofNat 1 := by
  decide

end BlockLang.Code
