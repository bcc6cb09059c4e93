import BlockLang.Proofs.TreeEvaluation
import Mathlib.Data.List.Nodup

namespace BlockLang.Code

def Stm.target? : Stm → Option Temp
  | .move (.temp t) _ => some t
  | _ => none

def settings (code : List Stm) : List Temp := code.filterMap Stm.target?

@[simp] lemma settings_nil : settings [] = [] := rfl

@[simp] lemma settings_append (c d : List Stm) : settings (c ++ d) = settings c ++ settings d := by
  simp [settings]

@[simp] lemma settings_temp (t : Temp) (x : Exp) : settings [.move (.temp t) x] = [t] := rfl

@[simp] lemma settings_mem (a x : Exp) : settings [.move (.mem a) x] = [] := rfl

@[simp] lemma settings_cjump (c : Exp) (l l' : Label) : settings [.cjump c l l'] = [] := rfl

@[simp] lemma settings_discard (x : Exp) : settings x.discard = [] := by
  cases x <;> rfl

def Stm.inputs : Stm → List Temp
  | .move (.temp _) x => x.temps
  | s => s.temps

def readings (code : List Stm) : List Temp := code.flatMap Stm.inputs

def fresh (n : Temp) (k : Nat) : List Temp := (List.range k).map n.advance

@[simp] lemma fresh_zero (n : Temp) : fresh n 0 = [] := rfl

@[simp] lemma fresh_one (n : Temp) : fresh n 1 = [n] := by
  simp [fresh, List.range_succ]

lemma fresh_add (n : Temp) (j k : Nat) : fresh n (j + k) = fresh n j ++ fresh (n.advance j) k := by
  simp [fresh, List.range_add]

lemma length_fresh (n : Temp) (k : Nat) : (fresh n k).length = k := by
  simp [fresh]

lemma nodup_fresh (n : Temp) {k : Nat} (h : k ≤ UInt32.size) : (fresh n k).Nodup := by
  refine List.Nodup.map_on (fun i hi j hj hij => ?_) List.nodup_range
  have hn := Ident.toNat_lt n
  have he := Ident.toNat_inj.mpr hij
  rw [Ident.toNat_advance, Ident.toNat_advance] at he
  rw [List.mem_range] at hi hj
  simp only [UInt32.size] at *
  omega

lemma mem_fresh {n t : Temp} {k : Nat} (h : n.toNat + k < UInt32.size) :
    t ∈ fresh n k ↔ n.toNat ≤ t.toNat ∧ t.toNat < n.toNat + k := by
  simp only [fresh, List.mem_map, List.mem_range]
  constructor
  · rintro ⟨i, hi, rfl⟩
    rw [Ident.toNat_advance_of_lt (by omega)]
    omega
  · rintro ⟨hle, hlt⟩
    refine ⟨t.toNat - n.toNat, by omega, Ident.toNat_inj.mp ?_⟩
    rw [Ident.toNat_advance_of_lt (by omega)]
    omega

inductive Use where
  | set
  | read
deriving DecidableEq

section Uses

variable {t : Temp} {s s' : Stm} {code : List Stm}

def Use.each (u : Use) (t : Temp) (ts : List Temp) : List Use := List.replicate (ts.count t) u

@[simp] lemma Use.each_nil (u : Use) (t : Temp) : u.each t [] = [] := rfl

@[simp] lemma Use.each_self (u : Use) (t : Temp) : u.each t [t] = [u] := by
  simp [Use.each]

@[simp] lemma Use.each_append (u : Use) (t : Temp) (ts us : List Temp) :
    u.each t (ts ++ us) = u.each t ts ++ u.each t us := by
  simp [Use.each]

lemma Use.each_of_not_mem {ts : List Temp} (u : Use) (h : t ∉ ts) : u.each t ts = [] := by
  simp [Use.each, List.count_eq_zero_of_not_mem h]

def Stm.uses (t : Temp) (s : Stm) : List Use :=
  Use.read.each t s.inputs ++ Use.set.each t s.target?.toList

def uses (t : Temp) (code : List Stm) : List Use := code.flatMap (Stm.uses t)

@[simp] lemma uses_nil (t : Temp) : uses t [] = [] := rfl

@[simp] lemma uses_append (t : Temp) (c d : List Stm) : uses t (c ++ d) = uses t c ++ uses t d := by
  simp [uses]

@[simp] lemma uses_cons (t : Temp) (s : Stm) (code : List Stm) :
    uses t (s :: code) = s.uses t ++ uses t code := rfl

@[simp] lemma uses_singleton (t : Temp) (s : Stm) : uses t [s] = s.uses t := by
  simp [uses]

lemma Stm.uses_move_temp (t u : Temp) (x : Exp) :
    (Stm.move (.temp u) x).uses t = Use.read.each t x.temps ++ Use.set.each t [u] := rfl

lemma Stm.uses_move {d : Exp} (h : ∀ x, (Stm.move d x).target? = none) (t : Temp) (x : Exp) :
    (Stm.move d x).uses t = Use.read.each t d.temps ++ Use.read.each t x.temps := by
  cases d with
  | temp u => cases h x
  | _ => simp [Stm.uses, Stm.inputs, Stm.target?, Stm.temps]

lemma count_set_uses (t : Temp) (code : List Stm) :
    (uses t code).count .set = (settings code).count t := by
  induction code with
  | nil => rfl
  | cons s code ih =>
    have hs : (s.uses t).count .set = (settings [s]).count t := by
      cases h : s.target? <;> simp [settings, Stm.uses, Use.each, List.count_replicate, h]
    rw [← List.singleton_append, settings_append, List.count_append, uses_append, List.count_append,
      ih, uses_singleton, hs]

lemma count_read_uses (t : Temp) (code : List Stm) :
    (uses t code).count .read = (readings code).count t := by
  induction code with
  | nil => rfl
  | cons s code ih =>
    have hs : (s.uses t).count .read = s.inputs.count t := by
      simp [Stm.uses, Use.each, List.count_replicate]
    rw [uses_cons, List.count_append, ih, hs, readings, readings, List.flatMap_cons, List.count_append]

lemma Stm.not_mem_temps_of_uses (h : s.uses t = []) : t ∉ s.temps := by
  obtain ⟨hread, hset⟩ := List.append_eq_nil_iff.mp h
  simp only [Use.each, List.replicate_eq_nil_iff, List.count_eq_zero] at hread hset
  cases s with
  | move d x =>
    cases d with
    | temp u => exact fun hm => (List.mem_append.mp hm).elim hset hread
    | _ => exact hread
  | _ => exact hread

lemma not_mem_tempsAll_of_uses (h : uses t code = []) : t ∉ Stm.tempsAll code := by
  induction code with
  | nil => exact List.not_mem_nil
  | cons s code ih =>
    obtain ⟨hs, hcode⟩ := List.append_eq_nil_iff.mp h
    rw [Stm.tempsAll, List.mem_append, not_or]
    exact ⟨Stm.not_mem_temps_of_uses hs, ih hcode⟩

def ReadAfterSet (t : Temp) (code : List Stm) : Prop :=
  ∀ ⦃i j : Nat⦄ ⦃s s' : Stm⦄, code[i]? = some s → code[j]? = some s' → s.target? = some t →
    t ∈ s'.inputs → i < j

def Settled (us : List Use) : Prop := us.Pairwise fun u v => u = .read → v = .read

lemma readAfterSet_of_settled (h : Settled (uses t code)) : ReadAfterSet t code := by
  intro i j s s' hi hj hs hr
  have hset : .set ∈ Use.set.each t s.target?.toList := by simp [hs]
  have hread : .read ∈ Use.read.each t s'.inputs :=
    List.mem_replicate.mpr ⟨Nat.ne_of_gt (List.count_pos_iff.mpr hr), rfl⟩
  induction code generalizing i j with
  | nil => simp at hi
  | cons r code ih =>
    obtain ⟨hfirst, hrest, hcross⟩ := List.pairwise_append.mp h
    cases i with
    | zero =>
      obtain rfl := Option.some.inj hi
      cases j with
      | zero =>
        -- a statement reads before it sets
        obtain rfl := Option.some.inj hj
        cases (List.pairwise_append.mp hfirst).2.2 _ hread _ hset rfl
      | succ j => exact Nat.succ_pos j
    | succ i =>
      cases j with
      | zero =>
        obtain rfl := Option.some.inj hj
        have hlater : .set ∈ uses t code :=
          List.mem_flatMap.mpr ⟨s, List.mem_of_getElem? hi, List.mem_append_right _ hset⟩
        cases hcross _ (List.mem_append_left _ hread) _ hlater rfl
      | succ j => exact Nat.succ_lt_succ (ih hrest hi hj)

end Uses

end BlockLang.Code
