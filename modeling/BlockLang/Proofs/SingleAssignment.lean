import BlockLang.Proofs.TemporaryUses

/-! What linear code does with the temporaries that are taken for it. Each of them is set before it is
read, and it is read at most once. It is set again only where a move stores to a destination that had
to be computed itself. -/

namespace BlockLang.Code

/-- What is done with a temporary that is taken so many times: nothing if never, and if once, it is set
and then read at most once; under `kept` it may be set again instead. -/
def Life (kept : Prop) : Nat → List Use → Prop
  | 0, us => us = []
  | 1, us => us = [.set] ∨ us = [.set, .read] ∨ kept ∧ us = [.set, .set]
  | _ + 2, _ => True

namespace Life

variable {kept : Prop} {c c' : Nat} {us us' vs vs' : List Use}

lemma interleave (h : Life kept c (us ++ vs)) (h' : Life kept c' (us' ++ vs')) :
    Life kept (c + c') (us ++ us' ++ (vs ++ vs')) := by
  -- one of the two parts does nothing, unless the temporary is taken twice
  cases c with
  | zero =>
    obtain ⟨rfl, rfl⟩ := List.append_eq_nil_iff.mp h
    simpa using h'
  | succ c =>
    cases c' with
    | zero =>
      obtain ⟨rfl, rfl⟩ := List.append_eq_nil_iff.mp h'
      simpa using h
    | succ c' =>
      have hc : c + 1 + (c' + 1) = c + c' + 2 := by omega
      rw [hc]
      trivial

lemma append (h : Life kept c us) (h' : Life kept c' us') : Life kept (c + c') (us ++ us') := by
  have h₁ : Life kept c (us ++ []) := by rwa [List.append_nil]
  have h₂ : Life kept c' (us' ++ []) := by rwa [List.append_nil]
  simpa using h₁.interleave h₂

lemma of_concat_read (h : Life kept c (us ++ [.read])) : Life kept c us := by
  cases c with
  | zero => cases (List.append_eq_nil_iff.mp h).2
  | succ c =>
    cases c with
    | zero =>
      obtain h | h | ⟨-, h⟩ := h
      · have hlast := congrArg List.getLast? h
        simp at hlast
      · have hfirst : us ++ [.read] = [.set] ++ [.read] := h
        exact .inl (List.append_cancel_right hfirst)
      · have hlast := congrArg List.getLast? h
        simp at hlast
    | succ c => trivial

lemma settled (h : Life kept 1 us) : Settled us := by
  obtain rfl | rfl | ⟨-, rfl⟩ := h <;> simp [Settled]

lemma one_le_count_set (h : Life kept 1 us) : 1 ≤ us.count .set := by
  obtain rfl | rfl | ⟨-, rfl⟩ := h <;> decide

lemma count_set_eq_one (h : Life kept 1 us) (hk : ¬ kept) : us.count .set = 1 := by
  obtain rfl | rfl | ⟨hkept, -⟩ := h
  · rfl
  · rfl
  · exact absurd hkept hk

lemma count_read_le_one (h : Life kept 1 us) : us.count .read ≤ 1 := by
  obtain rfl | rfl | ⟨-, rfl⟩ := h <;> decide

lemma set_then (v : Use) (hv : v = .set → kept) (t u : Temp) :
    Life kept ([u].count t) (Use.set.each t [u] ++ v.each t [u]) := by
  by_cases h : t = u
  · subst h
    rw [List.count_singleton_self, Use.each_self, Use.each_self]
    cases v with
    | set => exact .inr (.inr ⟨hv rfl, rfl⟩)
    | read => exact .inr (.inl rfl)
  · have hne : t ∉ [u] := fun hm => h (List.mem_singleton.mp hm)
    rw [List.count_eq_zero_of_not_mem hne, Use.each_of_not_mem .set hne, Use.each_of_not_mem v hne]
    rfl

end Life

def Exp.isKept (effects : Bool) : Exp → Bool
  | .call _ _ => true
  | .binop _ _ _ => effects
  | .eseq _ d => d.isKept effects
  | .const _ | .name _ | .temp _ | .mem _ => false

mutual

def Exp.moves : Exp → List (Exp × Exp)
  | .const _ | .name _ | .temp _ => []
  | .mem a => a.moves
  | .binop _ a b => a.moves ++ b.moves
  | .call _ args => Exp.movesAll args
  | .eseq s e => s.moves ++ e.moves

def Exp.movesAll : List Exp → List (Exp × Exp)
  | [] => []
  | x :: xs => x.moves ++ Exp.movesAll xs

def Stm.moves : Stm → List (Exp × Exp)
  | .move dst src => (dst, src) :: (dst.moves ++ src.moves)
  | .exp e => e.moves
  | .seq ss => Stm.movesAll ss
  | .cjump c _ _ => c.moves
  | .jump _ | .label _ => []

def Stm.movesAll : List Stm → List (Exp × Exp)
  | [] => []
  | s :: ss => s.moves ++ Stm.movesAll ss

end

def Keeping (ms : List (Exp × Exp)) : Prop := ∃ m ∈ ms, m.1.isKept (!m.2.isPure) = true

@[simp] lemma not_keeping_nil : ¬ Keeping [] := by
  simp [Keeping]

lemma keeping_append {ms ms' : List (Exp × Exp)} :
    Keeping (ms ++ ms') ↔ Keeping ms ∨ Keeping ms' := by
  simp only [Keeping, List.mem_append, or_and_right, exists_or]

lemma keeping_move {d x : Exp} :
    Keeping (Stm.move d x).moves ↔
      d.isKept (!x.isPure) = true ∨ Keeping d.moves ∨ Keeping x.moves := by
  rw [Stm.moves, ← List.singleton_append, keeping_append, keeping_append]
  simp [Keeping]

def Spares (kept : Prop) (t : Temp) (ts : List Temp) (ms : List (Exp × Exp)) : Prop :=
  t ∉ ts ∧ (Keeping ms → kept)

lemma spares_append {kept : Prop} {t : Temp} {ts ts' : List Temp} {ms ms' : List (Exp × Exp)} :
    Spares kept t (ts ++ ts') (ms ++ ms') ↔ Spares kept t ts ms ∧ Spares kept t ts' ms' := by
  simp only [Spares, List.mem_append, not_or, keeping_append, or_imp]
  tauto

def Split.uses (t : Temp) (r : Split Exp) : List Use :=
  Code.uses t r.before ++ Use.read.each t r.value.temps

section Trees

variable {kept : Prop} {t n m : Temp} {j k c : Nat} {x : Exp}

lemma count_fresh_add (h : m = n.advance j) (k : Nat) (t : Temp) :
    (fresh n (j + k)).count t = (fresh n j).count t + (fresh m k).count t := by
  rw [fresh_add, List.count_append, h]

namespace Life

variable {us us' vs vs' : List Use}

lemma append_fresh (hm : m = n.advance j) (h : Life kept ((fresh n j).count t) us)
    (h' : Life kept ((fresh m k).count t) us') :
    Life kept ((fresh n (j + k)).count t) (us ++ us') := by
  rw [count_fresh_add hm]
  exact h.append h'

lemma interleave_fresh (hm : m = n.advance j) (h : Life kept ((fresh m k).count t) (us ++ vs))
    (h' : Life kept ((fresh n j).count t) (us' ++ vs')) :
    Life kept ((fresh n (j + k)).count t) (us ++ us' ++ (vs ++ vs')) := by
  -- the right operand takes its temporaries first, but its code comes last
  rw [count_fresh_add hm, Nat.add_comm]
  exact h.interleave h'

end Life

namespace Split

variable {r : Split Exp}

lemma life_save (hr : r.next = n.advance k) (h : Life kept ((fresh n k).count t) (r.uses t)) :
    Life kept ((fresh n (k + 1)).count t) (r.save.uses t) := by
  have hs := h.append (Life.set_then .read (fun he => Use.noConfusion he) t r.next)
  rw [count_fresh_add hr, fresh_one]
  simpa [Split.uses, Split.save, Stm.uses_move_temp, Exp.temps] using hs

lemma life_discard (h : Life kept c (r.uses t)) :
    Life kept c (Code.uses t (r.before ++ r.value.discard)) := by
  rw [Split.uses] at h
  rw [uses_append]
  cases hv : r.value with
  | const w => simpa [hv, Exp.temps, Exp.discard] using h
  | name l => simpa [hv, Exp.temps, Exp.discard] using h
  | temp u =>
    -- nothing is left of a temporary, which would only be read
    rw [hv] at h
    rw [Exp.discard, uses_nil, List.append_nil]
    by_cases hu : t = u
    · subst hu
      rw [Exp.temps, Use.each_self] at h
      exact h.of_concat_read
    · have hne : t ∉ [u] := fun hm => hu (List.mem_singleton.mp hm)
      rwa [Exp.temps, Use.each_of_not_mem .read hne, List.append_nil] at h
  | _ =>
    rw [hv] at h
    simpa [Exp.discard, Stm.uses, Stm.inputs, Stm.target?, Stm.temps] using h

end Split

namespace Exp

lemma life_operand (h : Life kept ((fresh n x.rootSaves).count t) ((x.split n).uses t)) :
    Life kept ((fresh n x.saves).count t) ((x.operand n).uses t) := by
  cases hc : x.isCall with
  | false =>
    rw [← split_eq_operand n hc, saves, hc]
    exact h
  | true =>
    rw [operand_of_isCall n hc, saves, hc]
    exact Split.life_save (x.split_next n) h

lemma life_hold (effects : Bool) (h : Life kept ((fresh n x.saves).count t) ((x.operand n).uses t)) :
    Life kept ((fresh n (x.saves + (effects && !x.isFixed).toNat)).count t)
      (((x.operand n).hold effects).uses t) := by
  rw [← x.operand_value_isConstant n]
  unfold Split.hold
  split
  · rename_i he
    rw [he]
    exact Split.life_save (x.operand_next n) h
  · rename_i he
    rw [Bool.not_eq_true] at he
    rw [he]
    exact h

lemma life_binop {a b : Exp} (op : Op)
    (ha : Life kept ((fresh (b.operand n).next a.saves).count t) ((a.operand (b.operand n).next).uses t))
    (hb : Life kept ((fresh n b.saves).count t) ((b.operand n).uses t)) :
    Life kept ((fresh n (binop op a b).saves).count t) (((binop op a b).operand n).uses t) := by
  have h := Life.interleave_fresh (b.operand_next n) (life_hold (!b.isPure) ha) hb
  rwa [← uses_append, ← Use.each_append] at h

lemma savesInto_binop (op : Op) (a b : Exp) (root operand : Nat) (effects : Bool) :
    (binop op a b).savesInto root operand effects =
      operand + ((binop op a b).saves + effects.toNat) := by
  rw [savesInto, saves_binop, saves, saves]
  omega

lemma savesInto_call (f : Label) (args : List Exp) (root operand : Nat) (effects : Bool) :
    (call f args).savesInto root operand effects =
      operand + ((call f args).saves + effects.toNat) := by
  rw [savesInto, saves_call]
  omega

end Exp

namespace Flat

variable {l r : Split Exp}

lemma life_ofSplit {use : Exp → Stm} (h : Life kept c (r.uses t))
    (hu : (use r.value).uses t = Use.read.each t r.value.temps) :
    Life kept c (uses t (Flat.ofSplit r use).code) := by
  rw [Flat.ofSplit, uses_append, uses_singleton, hu]
  exact h

lemma life_move {place : Exp → Exp} (hd : ∀ x, (Stm.move (place l.value) x).target? = none)
    (hp : (place l.value).temps = l.value.temps) (hm : m = n.advance j)
    (hl : Life kept ((fresh m k).count t) (l.uses t)) (hr : Life kept ((fresh n j).count t) (r.uses t)) :
    Life kept ((fresh n (j + k)).count t) (uses t (Flat.move l place r).code) := by
  rw [Flat.move, uses_append, uses_append, uses_singleton, Stm.uses_move hd, hp]
  exact hl.interleave_fresh hm hr

lemma life_move_save (hk : kept) (hm : m = n.advance j) (hn : l.next = m.advance k)
    (hl : Life kept ((fresh m k).count t) (l.uses t)) (hr : Life kept ((fresh n j).count t) (r.uses t)) :
    Life kept ((fresh n (j + (k + 1))).count t) (uses t (Flat.move l.save id r).code) := by
  -- the source comes between the two moves to the temporary of the destination
  have hr' : Life kept ((fresh n j).count t) (r.uses t ++ []) := by rwa [List.append_nil]
  have h := hl.append ((Life.set_then .set (fun _ => hk) t l.next).interleave hr')
  rw [count_fresh_add hm, count_fresh_add hn, fresh_one, Nat.add_comm, Nat.add_assoc]
  simpa [Flat.move, Split.save, Split.uses, Stm.uses_move_temp] using h

end Flat

-- The induction is on the tree. Each part takes temporaries of its own, so a temporary that is taken
-- once is used in one part only, and then a last time where its value is put into the whole.
mutual

lemma Exp.life_split (x : Exp) (n : Temp) (h : Spares kept t x.temps x.moves) :
    Life kept ((fresh n x.rootSaves).count t) ((x.split n).uses t) := by
  cases x with
  | const w => rfl
  | name l => rfl
  | temp u => exact Use.each_of_not_mem .read h.1
  | mem a => exact Exp.life_operand (a.life_split n h)
  | binop op a b =>
    obtain ⟨ha, hb⟩ := spares_append.mp h
    exact Exp.life_binop op (Exp.life_operand (a.life_split (b.operand n).next ha))
      (Exp.life_operand (b.life_split n hb))
  | call f args => exact Exp.life_splitAll args n h
  | eseq s e =>
    obtain ⟨hs, he⟩ := spares_append.mp h
    have hlife := (s.life_flat n hs).append_fresh (s.flat_next n)
      (Exp.life_operand (e.life_split (s.flat n).next he))
    rw [Split.uses, ← List.append_assoc, ← uses_append] at hlife
    exact hlife

lemma Exp.life_splitAll (xs : List Exp) (n : Temp)
    (h : Spares kept t (Exp.tempsAll xs) (Exp.movesAll xs)) :
    Life kept ((fresh n (Exp.savesAll xs)).count t)
      (uses t (Exp.splitAll xs n).before ++ Use.read.each t (Exp.tempsAll (Exp.splitAll xs n).value)) := by
  cases xs with
  | nil => rfl
  | cons x xs =>
    obtain ⟨hx, hxs⟩ := spares_append.mp h
    have hfirst := Exp.life_operand (x.life_split (Exp.splitAll xs n).next hx)
    have hlife := (Exp.life_hold (!xs.all Exp.isPure) hfirst).interleave_fresh (Exp.splitAll_next xs n)
      (Exp.life_splitAll xs n hxs)
    rw [← uses_append, ← Use.each_append] at hlife
    exact hlife

lemma Exp.life_assign (d x : Exp) (effects : Bool) (n : Temp)
    (hx : ∀ n, Life kept ((fresh n x.rootSaves).count t) ((x.split n).uses t))
    (h : Spares kept t d.temps d.moves) (hd : d.isKept effects = true → kept) :
    Life kept ((fresh n (d.savesInto x.rootSaves x.saves effects)).count t)
      (uses t (d.assign (fun m => x.split m) effects n).code) := by
  have hsrc := Exp.life_operand (hx n)
  have hm := x.operand_next n
  cases d with
  | temp u =>
    have hu : Use.set.each t [u] = [] := Use.each_of_not_mem .set h.1
    refine Flat.life_ofSplit (hx n) ?_
    rw [Stm.uses_move_temp, hu, List.append_nil]
  | const w => exact Flat.life_ofSplit hsrc (Stm.uses_move (fun _ => rfl) t _)
  | name l => exact Flat.life_ofSplit hsrc (Stm.uses_move (fun _ => rfl) t _)
  | mem a =>
    have ha := Exp.life_operand (a.life_split (x.operand n).next h)
    exact Flat.life_move (fun _ => rfl) rfl hm (Exp.life_hold effects ha) hsrc
  | eseq s d =>
    obtain ⟨hs, hd'⟩ := spares_append.mp h
    have hlife := (s.life_flat n hs).append_fresh (s.flat_next n)
      (d.life_assign x effects (s.flat n).next hx hd' hd)
    rw [← uses_append] at hlife
    exact hlife
  | binop op a b =>
    obtain ⟨ha, hb⟩ := spares_append.mp h
    have hdst := Exp.life_binop op
      (Exp.life_operand (a.life_split (b.operand (x.operand n).next).next ha))
      (Exp.life_operand (b.life_split (x.operand n).next hb))
    rw [Exp.savesInto_binop]
    cases effects with
    | false => exact Flat.life_move (fun _ => rfl) rfl hm hdst hsrc
    | true => exact Flat.life_move_save (hd rfl) hm ((Exp.binop op a b).operand_next _) hdst hsrc
  | call f args =>
    have hargs := Exp.life_splitAll args (x.operand n).next h
    rw [Exp.savesInto_call]
    cases effects with
    | false => exact Flat.life_move_save (hd rfl) hm (Exp.splitAll_next args _) hargs hsrc
    | true =>
      have hcall : Life kept _ (((Exp.call f args).operand (x.operand n).next).uses t) :=
        Exp.life_operand hargs
      exact Flat.life_move_save (hd rfl) hm ((Exp.call f args).operand_next _) hcall hsrc

lemma Stm.life_flat (s : Stm) (n : Temp) (h : Spares kept t s.temps s.moves) :
    Life kept ((fresh n s.saves).count t) (uses t (s.flat n).code) := by
  cases s with
  | move d x =>
    obtain ⟨hd, hx⟩ : Spares kept t d.temps d.moves ∧ Spares kept t x.temps x.moves :=
      spares_append.mp ⟨h.1, fun hk => h.2 (keeping_move.mpr (.inr (keeping_append.mp hk)))⟩
    exact d.life_assign x _ n (fun m => x.life_split m hx) hd fun hk => h.2 (keeping_move.mpr (.inl hk))
  | exp e => exact Split.life_discard (e.life_split n h)
  | seq ss => exact Stm.life_flatAll ss n h
  | cjump c l l' => exact Flat.life_ofSplit (Exp.life_operand (c.life_split n h)) (List.append_nil _)
  | jump l => rfl
  | label l => rfl

lemma Stm.life_flatAll (ss : List Stm) (n : Temp)
    (h : Spares kept t (Stm.tempsAll ss) (Stm.movesAll ss)) :
    Life kept ((fresh n (Stm.savesAll ss)).count t) (uses t (Stm.flatAll ss n).code) := by
  cases ss with
  | nil => rfl
  | cons s ss =>
    obtain ⟨hs, hss⟩ := spares_append.mp h
    have hlife := (s.life_flat n hs).append_fresh (s.flat_next n)
      (Stm.life_flatAll ss (s.flat n).next hss)
    rw [← uses_append] at hlife
    exact hlife

end

def Repeats (n : Temp) (k : Nat) (code : List Stm) : Prop :=
  ∃ t ∈ fresh n k, 2 ≤ (settings code).count t

namespace Repeats

variable {code code' : List Stm}

lemma of_sublist (h : Repeats n k code) (hs : code.Sublist code') : Repeats n k code' := by
  obtain ⟨t, ht, hc⟩ := h
  exact ⟨t, ht, Nat.le_trans hc ((hs.filterMap _).count_le t)⟩

lemma left (h : Repeats n j code) (hs : code.Sublist code') : Repeats n (j + k) code' := by
  obtain ⟨t, ht, hc⟩ := h.of_sublist hs
  exact ⟨t, fresh_add n j k ▸ List.mem_append_left _ ht, hc⟩

lemma right (hm : m = n.advance j) (h : Repeats m k code) (hs : code.Sublist code') :
    Repeats n (j + k) code' := by
  obtain ⟨t, ht, hc⟩ := h.of_sublist hs
  subst hm
  exact ⟨t, fresh_add n j k ▸ List.mem_append_right _ ht, hc⟩

end Repeats

lemma Split.before_sublist_saveCall (r : Split Exp) : r.before.Sublist r.saveCall.before :=
  r.saveCall_cases (List.sublist_append_left ..) (List.Sublist.refl _)

lemma Split.before_sublist_hold (r : Split Exp) (effects : Bool) :
    r.before.Sublist (r.hold effects).before :=
  r.hold_cases effects (List.sublist_append_left ..) (List.Sublist.refl _)

namespace Exp

lemma repeats_operand (h : Repeats n x.rootSaves (x.split n).before) :
    Repeats n x.saves (x.operand n).before :=
  h.left (x.split n).before_sublist_saveCall

lemma repeats_hold (effects : Bool) (h : Repeats n x.saves (x.operand n).before) :
    Repeats n (x.saves + (effects && !x.isFixed).toNat) ((x.operand n).hold effects).before :=
  h.left ((x.operand n).before_sublist_hold effects)

lemma repeats_binop {a b : Exp} (op : Op)
    (h : Repeats (b.operand n).next a.saves (a.operand (b.operand n).next).before ∨
      Repeats n b.saves (b.operand n).before) :
    Repeats n (binop op a b).saves ((binop op a b).operand n).before := by
  rw [saves_binop]
  rcases h with h | h
  · exact (repeats_hold _ h).right (b.operand_next n) (List.sublist_append_left ..)
  · exact h.left (List.sublist_append_right ..)

end Exp

namespace Flat

variable {l r : Split Exp}

lemma repeats_move_save (hm : m = n.advance j) (hn : l.next = m.advance k) :
    Repeats n (j + (k + 1)) (Flat.move l.save id r).code := by
  refine ⟨l.next, ?_, ?_⟩
  · rw [fresh_add, fresh_add, ← hm, ← hn]
    simp
  · simp only [Flat.move, Split.save, settings_append, id_eq, settings_temp, List.count_append,
      List.count_singleton_self]
    omega

lemma before_sublist_move (l r : Split Exp) (place : Exp → Exp) :
    l.before.Sublist (Flat.move l place r).code ∧ r.before.Sublist (Flat.move l place r).code :=
  ⟨(List.sublist_append_left ..).trans (List.sublist_append_left ..),
    (List.sublist_append_right ..).trans (List.sublist_append_left ..)⟩

end Flat

mutual

lemma Exp.repeats_split (x : Exp) (n : Temp) (h : Keeping x.moves) :
    Repeats n x.rootSaves (x.split n).before := by
  cases x with
  | const w => exact (not_keeping_nil h).elim
  | name l => exact (not_keeping_nil h).elim
  | temp u => exact (not_keeping_nil h).elim
  | mem a => exact Exp.repeats_operand (a.repeats_split n h)
  | binop op a b =>
    exact Exp.repeats_binop op ((keeping_append.mp h).imp
      (fun ha => Exp.repeats_operand (a.repeats_split _ ha))
      (fun hb => Exp.repeats_operand (b.repeats_split n hb)))
  | call f args => exact Exp.repeats_splitAll args n h
  | eseq s e =>
    rcases keeping_append.mp h with hs | he
    · exact (s.repeats_flat n hs).left (List.sublist_append_left ..)
    · exact (Exp.repeats_operand (e.repeats_split _ he)).right (s.flat_next n)
        (List.sublist_append_right ..)

lemma Exp.repeats_splitAll (xs : List Exp) (n : Temp) (h : Keeping (Exp.movesAll xs)) :
    Repeats n (Exp.savesAll xs) (Exp.splitAll xs n).before := by
  cases xs with
  | nil => exact (not_keeping_nil h).elim
  | cons x xs =>
    rcases keeping_append.mp h with hx | hxs
    · exact (Exp.repeats_hold _ (Exp.repeats_operand (x.repeats_split _ hx))).right
        (Exp.splitAll_next xs n) (List.sublist_append_left ..)
    · exact (Exp.repeats_splitAll xs n hxs).left (List.sublist_append_right ..)

lemma Exp.repeats_assign (d x : Exp) (effects : Bool) (n : Temp)
    (hx : Keeping x.moves → ∀ n, Repeats n x.rootSaves (x.split n).before)
    (h : d.isKept effects = true ∨ Keeping d.moves ∨ Keeping x.moves) :
    Repeats n (d.savesInto x.rootSaves x.saves effects)
      (d.assign (fun m => x.split m) effects n).code := by
  have hm := x.operand_next n
  cases d with
  | temp u =>
    have h : Keeping x.moves := by simpa [Exp.isKept, Exp.moves] using h
    exact (hx h n).of_sublist (List.sublist_append_left ..)
  | const w =>
    have h : Keeping x.moves := by simpa [Exp.isKept, Exp.moves] using h
    exact (Exp.repeats_operand (hx h n)).of_sublist (List.sublist_append_left ..)
  | name l =>
    have h : Keeping x.moves := by simpa [Exp.isKept, Exp.moves] using h
    exact (Exp.repeats_operand (hx h n)).of_sublist (List.sublist_append_left ..)
  | mem a =>
    obtain h | h | h := h
    · cases h
    · have ha := Exp.repeats_operand (a.repeats_split (x.operand n).next h)
      exact (Exp.repeats_hold effects ha).right hm (Flat.before_sublist_move _ _ _).1
    · exact (Exp.repeats_operand (hx h n)).left (Flat.before_sublist_move _ _ _).2
  | eseq s d =>
    have hd := fun h' => (d.repeats_assign x effects (s.flat n).next hx h').right (s.flat_next n)
      (List.sublist_append_right (s.flat n).code _)
    obtain h | h | h := h
    · exact hd (.inl h)
    · rcases keeping_append.mp h with hs | hd'
      · exact (s.repeats_flat n hs).left (List.sublist_append_left ..)
      · exact hd (.inr (.inl hd'))
    · exact hd (.inr (.inr h))
  | binop op a b =>
    rw [Exp.savesInto_binop]
    obtain h | h | h := h
    · obtain rfl : effects = true := h
      exact Flat.repeats_move_save hm ((Exp.binop op a b).operand_next _)
    · have hdst := Exp.repeats_binop op ((keeping_append.mp h).imp
        (fun ha => Exp.repeats_operand (a.repeats_split _ ha))
        (fun hb => Exp.repeats_operand (b.repeats_split (x.operand n).next hb)))
      exact (hdst.left (Split.before_sublist_hold _ effects)).right hm (Flat.before_sublist_move _ _ _).1
    · exact (Exp.repeats_operand (hx h n)).left (Flat.before_sublist_move _ _ _).2
  | call f args =>
    rw [Exp.savesInto_call]
    cases effects with
    | false => exact Flat.repeats_move_save hm (Exp.splitAll_next args _)
    | true => exact Flat.repeats_move_save hm ((Exp.call f args).operand_next _)

lemma Stm.repeats_flat (s : Stm) (n : Temp) (h : Keeping s.moves) :
    Repeats n s.saves (s.flat n).code := by
  cases s with
  | move d x => exact d.repeats_assign x _ n (fun hx m => x.repeats_split m hx) (keeping_move.mp h)
  | exp e => exact (e.repeats_split n h).of_sublist (List.sublist_append_left ..)
  | seq ss => exact Stm.repeats_flatAll ss n h
  | cjump c l l' =>
    exact (Exp.repeats_operand (c.repeats_split n h)).of_sublist (List.sublist_append_left ..)
  | jump l => exact (not_keeping_nil h).elim
  | label l => exact (not_keeping_nil h).elim

lemma Stm.repeats_flatAll (ss : List Stm) (n : Temp) (h : Keeping (Stm.movesAll ss)) :
    Repeats n (Stm.savesAll ss) (Stm.flatAll ss n).code := by
  cases ss with
  | nil => exact (not_keeping_nil h).elim
  | cons s ss =>
    rcases keeping_append.mp h with hs | hss
    · exact (s.repeats_flat n hs).left (List.sublist_append_left ..)
    · exact (Stm.repeats_flatAll ss _ hss).right (s.flat_next n) (List.sublist_append_right ..)

end

end Trees

namespace Stm

variable {s : Stm} {n t : Temp}

lemma mem_temps_or_fresh_of_flat (h : t ∈ Stm.tempsAll (s.flat n).code) :
    t ∈ s.temps ∨ t ∈ fresh n s.saves := by
  by_contra hno
  rw [not_or] at hno
  have hlife := s.life_flat n ⟨hno.1, id⟩
  rw [List.count_eq_zero_of_not_mem hno.2] at hlife
  exact not_mem_tempsAll_of_uses hlife h

lemma life_of_mem_fresh (hw : n.toNat + s.saves < UInt32.size) (ht : t ∉ s.temps)
    (hf : t ∈ fresh n s.saves) : Life (Keeping s.moves) 1 (Code.uses t (s.flat n).code) := by
  have hnodup := nodup_fresh n (Nat.le_of_lt (Nat.lt_of_le_of_lt (Nat.le_add_left ..) hw))
  have h := s.life_flat n ⟨ht, id⟩
  rwa [List.count_eq_one_of_mem hnodup hf] at h

end Stm

/-- The temporaries from `n` up to the next free one are those that linearization takes. Each of them
is set, is read at most once, and is read only after it is set. Exactly one statement sets each of them
if and only if no move stores to a temporary that keeps its destination. All other temporaries of linear
code are those of the tree. -/
theorem linearize_sets_fresh_once (s : Stm) (n : Temp) (ht : ∀ t ∈ s.temps, t.toNat < n.toNat)
    (hw : n.toNat + s.saves < UInt32.size) :
    let code := (s.linearize n).1.statements
    let next := (s.linearize n).2
    next.toNat = n.toNat + s.saves ∧
    (∀ t : Temp, n.toNat ≤ t.toNat → t.toNat < next.toNat →
      1 ≤ (settings code).count t ∧ (readings code).count t ≤ 1 ∧ ReadAfterSet t code) ∧
    ((∀ t : Temp, n.toNat ≤ t.toNat → t.toNat < next.toNat → (settings code).count t = 1) ↔
      ¬ Keeping s.moves) ∧
    ∀ t ∈ (s.linearize n).1.temps, t ∈ s.temps ∨ n.toNat ≤ t.toNat ∧ t.toNat < next.toNat := by
  intro code next
  have hnext : next.toNat = n.toNat + s.saves := by
    rw [← Ident.toNat_advance_of_lt hw, ← s.flat_next n]
    rfl
  have hfresh : ∀ t, t ∈ fresh n s.saves ↔ n.toNat ≤ t.toNat ∧ t.toNat < next.toNat := by
    intro t
    rw [hnext, mem_fresh hw]
  have hlife : ∀ t, t ∈ fresh n s.saves → Life (Keeping s.moves) 1 (uses t code) := by
    intro t hf
    have hnot : t ∉ s.temps := fun hm => Nat.not_le_of_lt (ht t hm) ((hfresh t).mp hf).1
    exact Stm.life_of_mem_fresh hw hnot hf
  refine ⟨hnext, fun t hle hlt => ?_, ⟨fun h hk => ?_, fun hk t hle hlt => ?_⟩, fun t hm => ?_⟩
  · have h := hlife t ((hfresh t).mpr ⟨hle, hlt⟩)
    rw [← count_set_uses, ← count_read_uses]
    exact ⟨h.one_le_count_set, h.count_read_le_one, readAfterSet_of_settled h.settled⟩
  · obtain ⟨t, hf, htwo⟩ := s.repeats_flat n hk
    have hone : (settings code).count t = 1 := h t ((hfresh t).mp hf).1 ((hfresh t).mp hf).2
    exact absurd htwo (hone ▸ Nat.not_succ_le_self 1)
  · rw [← count_set_uses]
    exact (hlife t ((hfresh t).mpr ⟨hle, hlt⟩)).count_set_eq_one hk
  · exact (Stm.mem_temps_or_fresh_of_flat hm).imp_right (hfresh t).mp

def keptArguments : Stm :=
  .exp (.call (.named "f")
    [.mem (.temp (.ofNat 0)), .call (.named "g") [.temp (.ofNat 0)], .call (.named "h") []])

theorem linearize_sets_fresh_once_arguments :
    let code := (keptArguments.linearize (.ofNat 1)).1.statements
    code.length = 5 ∧ (∀ t ∈ keptArguments.temps, t.toNat < 1) ∧ 1 + keptArguments.saves = 5 ∧
    ¬ Keeping keptArguments.moves ∧
    ∀ t : Temp, 1 ≤ t.toNat → t.toNat < 5 →
      (settings code).count t = 1 ∧ (readings code).count t ≤ 1 ∧ ReadAfterSet t code := by
  intro code
  have hkept : ¬ Keeping keptArguments.moves := not_keeping_nil
  have h := linearize_sets_fresh_once keptArguments (.ofNat 1) (by decide) (by decide)
  refine ⟨by decide, by decide, by decide, hkept, fun t hle hlt => ?_⟩
  obtain ⟨-, hread, hafter⟩ := h.2.1 t hle hlt
  exact ⟨h.2.2.1.mpr hkept t hle hlt, hread, hafter⟩

def storeToCall : Stm := .move (.call (.named "f") []) (.const 0)

theorem call_destination_set_twice :
    (∀ t ∈ storeToCall.temps, t.toNat < (.ofNat 0 : Temp).toNat) ∧
    (.ofNat 0 : Temp).toNat + storeToCall.saves < UInt32.size ∧
    (storeToCall.linearize (.ofNat 0)).2 = .ofNat 1 ∧
    (settings (storeToCall.linearize (.ofNat 0)).1.statements).count (.ofNat 0) = 2 := by
  decide

end BlockLang.Code
