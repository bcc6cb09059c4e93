import BlockLang.Proofs.Reseeding
import BlockLang.Proofs.ThreadRuns
import BlockLang.Proofs.WordArithmetic
import Mathlib.Algebra.Group.Nat.Defs
import Mathlib.Data.Nat.Find

/-! Random numbers stay in their range. A draw gives the high half of a word times the size of the
range; it is repeated while the low half is too large. -/

namespace BlockLang

open Code

namespace Generator

variable {g : Generator} {min max v : Word}

def skip (g : Generator) (n : Nat) : Generator := { g with drawn := g.drawn + n }

lemma skip_next (g : Generator) (n : Nat) : g.next.skip n = g.skip (n + 1) := by
  simp only [skip, next, Nat.add_assoc, Nat.add_comm 1]

lemma toNat_range (h : min < max) : ((max - min).toUInt64.toNat : Int) = max.toInt - min.toInt := by
  have hlt := Int64.lt_iff_toInt_lt.mp h
  have hmin := min.le_toInt
  have hmax := max.toInt_lt
  have hsub := Int64.toInt_sub max min
  rw [Int.bmod_def] at hsub
  rw [Word.toNat_toUInt64]
  omega

lemma shifted_lt {n : Nat} (hn : n < 18446744073709551616) (h0 : n ≠ 0) :
    n * 2 ^ (63 - n.log2) < 18446744073709551616 := by
  have hlog : n.log2 < 64 := (Nat.log2_lt h0).mpr hn
  calc n * 2 ^ (63 - n.log2)
      < 2 ^ (n.log2 + 1) * 2 ^ (63 - n.log2) :=
        Nat.mul_lt_mul_of_pos_right Nat.lt_log2_self (Nat.two_pow_pos _)
    _ = 2 ^ (n.log2 + 1 + (63 - n.log2)) := (Nat.pow_add ..).symm
    _ = 2 ^ 64 := congrArg _ (by omega)

lemma toNat_zone {range : UInt64} (h0 : range.toNat ≠ 0) :
    (zone range).toNat + 1 = range.toNat * 2 ^ (63 - range.toNat.log2) := by
  have hlog : range.toNat.log2 < 64 := (Nat.log2_lt h0).mpr range.toNat_lt
  have hlt := shifted_lt range.toNat_lt h0
  have hpos : 0 < range.toNat * 2 ^ (63 - range.toNat.log2) :=
    Nat.mul_pos (Nat.pos_of_ne_zero h0) (Nat.two_pow_pos _)
  have hone : UInt64.toNat 1 = 1 := rfl
  have hzeros : (63 - range.log2).toNat = 63 - range.toNat.log2 := by
    have hword : range.log2.toNat = range.toNat.log2 := rfl
    have hlast : UInt64.toNat 63 = 63 := rfl
    rw [UInt64.toNat_sub]
    omega
  -- only zeros are in front of the highest bit, so that none is lost
  have hshift : (range <<< (63 - range.log2)).toNat =
      range.toNat * 2 ^ (63 - range.toNat.log2) := by
    have hmod : (63 - range.toNat.log2) % 64 = 63 - range.toNat.log2 := by omega
    rw [UInt64.toNat_shiftLeft, hzeros, hmod, Nat.shiftLeft_eq]
    omega
  rw [zone, UInt64.toNat_sub, hshift]
  omega

def Accepts (g : Generator) (min max : Word) : Prop :=
  let n := (max.toInt - min.toInt).toNat
  g.current.toNat * n % 18446744073709551616 < n * 2 ^ (63 - n.log2)

lemma accepts_iff (h : min < max) : g.Accepts min max ↔
    (g.current.toNat * (max - min).toUInt64.toNat).toUInt64 ≤ zone (max - min).toUInt64 := by
  have hlt := Int64.lt_iff_toInt_lt.mp h
  have hrange := toNat_range h
  have hcount : (max.toInt - min.toInt).toNat = (max - min).toUInt64.toNat := by omega
  rw [Accepts, hcount, ← toNat_zone (by omega), UInt64.le_iff_toNat_le]
  exact Nat.lt_succ_iff

lemma pick_eq_none (h : min < max) : g.pick min max = none ↔ ¬g.Accepts min max := by
  rw [accepts_iff h, pick]
  simp only [ite_eq_right_iff, reduceCtorEq, imp_false]

lemma pick_eq_some (h : min < max) : g.pick min max = some v ↔ g.Accepts min max ∧
    v.toInt = min.toInt + g.current.toNat * (max.toInt - min.toInt) / 18446744073709551616 := by
  have hlt := Int64.lt_iff_toInt_lt.mp h
  have hmin := min.le_toInt
  have hmax := max.toInt_lt
  have hword := g.current.toNat_lt
  have hrange := toNat_range h
  rw [accepts_iff h, ← hrange, pick]
  generalize (max - min).toUInt64 = range at *
  have hbelow : g.current.toNat * range.toNat / 18446744073709551616 < range.toNat := by
    rw [Nat.div_lt_iff_lt_mul (by omega), Nat.mul_comm]
    exact Nat.mul_lt_mul_of_pos_left hword (by omega)
  have hhigh : ((g.current.toNat * range.toNat) >>> 64).toUInt64.toNat =
      g.current.toNat * range.toNat / 18446744073709551616 := by
    rw [Nat.shiftRight_eq_div_pow]
    exact Nat.mod_eq_of_lt (by omega)
  have hsum : (min + ((g.current.toNat * range.toNat) >>> 64).toUInt64.toInt64).toInt =
      min.toInt + (g.current.toNat * range.toNat / 18446744073709551616 : Nat) := by
    rw [Word.toInt64_eq_ofInt, hhigh, ← Int64.ofInt_toInt min, ← Int64.ofInt_add, Int64.ofInt_toInt]
    exact Int64.toInt_ofInt_of_le (by omega) (by omega)
  rw [Option.ite_none_right_eq_some, Option.some.injEq, ← Int64.toInt_inj, hsum, eq_comm]
  push_cast
  exact Iff.rfl

structure Draws (g : Generator) (min max : Word) (k : Nat) (v : Word) : Prop where
  rejected : ∀ j < k, ¬(g.skip j).Accepts min max
  accepted : (g.skip k).Accepts min max
  value : v.toInt =
    min.toInt + (g.skip k).current.toNat * (max.toInt - min.toInt) / 18446744073709551616

lemma draws_zero (h : min < max) : g.Draws min max 0 v ↔ g.pick min max = some v := by
  rw [pick_eq_some h]
  constructor
  · intro hd
    exact ⟨hd.accepted, hd.value⟩
  · rintro ⟨haccepted, hv⟩
    exact ⟨fun j hj => absurd hj (Nat.not_lt_zero j), haccepted, hv⟩

lemma draws_succ (h : min < max) {k : Nat} :
    g.Draws min max (k + 1) v ↔ g.pick min max = none ∧ g.next.Draws min max k v := by
  rw [pick_eq_none h]
  constructor
  · intro hd
    refine ⟨hd.rejected 0 (Nat.succ_pos k), ?_, ?_, ?_⟩
    · intro j hj
      rw [skip_next]
      exact hd.rejected (j + 1) (Nat.succ_lt_succ hj)
    · rw [skip_next]
      exact hd.accepted
    · rw [skip_next]
      exact hd.value
  · rintro ⟨hfirst, hrejected, haccepted, hv⟩
    rw [skip_next] at haccepted hv
    refine ⟨?_, haccepted, hv⟩
    intro j hj
    cases j with
    | zero => exact hfirst
    | succ j =>
      rw [← skip_next]
      exact hrejected j (Nat.lt_of_succ_lt_succ hj)

lemma exists_draws (h : min < max) :
    (∃ k v, g.Draws min max k v) ↔ ∃ k, (g.skip k).Accepts min max := by
  classical
  constructor
  · rintro ⟨k, v, hd⟩
    exact ⟨k, hd.accepted⟩
  · intro hex
    have haccepted := Nat.find_spec hex
    cases hp : (g.skip (Nat.find hex)).pick min max with
    | none => exact absurd haccepted ((pick_eq_none h).mp hp)
    | some v =>
      obtain ⟨-, hv⟩ := (pick_eq_some h).mp hp
      exact ⟨Nat.find hex, v, fun j => Nat.find_min hex, haccepted, hv⟩

lemma Draws.bounds {k : Nat} (hd : g.Draws min max k v) (h : min < max) : min ≤ v ∧ v < max := by
  have hlt := Int64.lt_iff_toInt_lt.mp h
  have hword := (g.skip k).current.toNat_lt
  have hnonneg : 0 ≤ (g.skip k).current.toNat * (max.toInt - min.toInt) / 18446744073709551616 :=
    Int.ediv_nonneg (Int.mul_nonneg (by omega) (by omega)) (by omega)
  have hbelow : (g.skip k).current.toNat * (max.toInt - min.toInt) / 18446744073709551616 <
      max.toInt - min.toInt := by
    apply Int.ediv_lt_of_lt_mul (by omega)
    rw [Int.mul_comm]
    exact Int.mul_lt_mul_of_pos_left (by omega) (by omega)
  rw [Int64.le_iff_toInt_le, Int64.lt_iff_toInt_lt, hd.value]
  omega

end Generator

namespace Intrinsic

variable {m m' : Machine} {min max v : Word}

/-- Repeats an intrinsic until it comes to a result. -/
inductive Returns (i : Intrinsic) (ws : List Word) : Machine → Word → Machine → Prop where
  | now {m m' : Machine} {v : Word} (h : i.exec ws m = .ok (some v) m') : Returns i ws m v m'
  | again {m m₁ m' : Machine} {v : Word} (h : i.exec ws m = .ok none m₁)
    (h' : Returns i ws m₁ v m') : Returns i ws m v m'

lemma exec_randInt (m : Machine) (h : min < max) : randInt.exec [min, max] m =
    .ok (m.generator.pick min max) (m.withGenerator m.generator.next) :=
  if_pos h

lemma exec_randInt_empty (m : Machine) (h : max ≤ min) :
    randInt.exec [min, max] m = .error (.emptyRange min max) m :=
  if_neg (Int64.not_lt.mpr h)

lemma returns_randInt (h : min < max) : randInt.Returns [min, max] m v m' ↔
    ∃ k, m.generator.Draws min max k v ∧ m' = m.withGenerator (m.generator.skip (k + 1)) := by
  constructor
  · intro hr
    induction hr with
    | now hx =>
      rw [exec_randInt _ h] at hx
      obtain ⟨hv, rfl⟩ := EStateM.Result.ok.inj hx
      exact ⟨0, (Generator.draws_zero h).mpr hv, rfl⟩
    | again hx _ ih =>
      rw [exec_randInt _ h] at hx
      obtain ⟨hnone, rfl⟩ := EStateM.Result.ok.inj hx
      obtain ⟨k, hk, rfl⟩ := ih
      refine ⟨k + 1, (Generator.draws_succ h).mpr ⟨hnone, hk⟩, ?_⟩
      exact congrArg _ (Generator.skip_next _ (k + 1))
  · rintro ⟨k, hk, rfl⟩
    induction k generalizing m with
    | zero =>
      apply Returns.now
      rw [exec_randInt m h, (Generator.draws_zero h).mp hk]
      rfl
    | succ k ih =>
      obtain ⟨hnone, hk⟩ := (Generator.draws_succ h).mp hk
      have hfirst := exec_randInt m h
      rw [hnone] at hfirst
      have hrest := Generator.skip_next m.generator (k + 1)
      exact .again hfirst (hrest ▸ ih hk)

end Intrinsic

namespace Activation

variable {image : Image} {a b : Activation} {callers : List Activation} {m m' : Machine}
variable {d : Destination} {min max v : Word}

structure AtRandInt (image : Image) (a : Activation) (m : Machine) (d : Destination)
    (min max : Word) : Prop where
  genuine : image.routines[Intrinsic.randInt.label]? = none
  call : ∃ args link, a.Invokes m Intrinsic.randInt.label args d ∧
    a.evalAll m args = .ok [link, min, max]

lemma AtRandInt.withGenerator (h : a.AtRandInt image m d min max) (g : Generator) :
    a.AtRandInt image (m.withGenerator g) d min max := by
  obtain ⟨hgenuine, args, link, hinvokes, hargs⟩ := h
  refine ⟨hgenuine, args, link, ?_, by rwa [evalAll_withGenerator]⟩
  rcases hinvokes with hexp | ⟨dst, hmove, hplace⟩
  · exact .inl hexp
  · exact .inr ⟨dst, hmove, by rwa [place_withGenerator]⟩

lemma Invokes.step {f : Label} {args : List Exp} (h : a.Invokes m f args d) :
    a.step image m = a.call image f args d m := by
  rcases h with ⟨hs, rfl⟩ | ⟨dst, hs, hd⟩
  · rw [Activation.step, hs]
  · have hread : Machine.read (fun m => a.place m dst) m = .ok d m := Machine.read_ok hd
    rw [Activation.step, hs]
    simp only [bind, EStateM.bind, hread]

def proceedWith (a : Activation) (d : Destination) : Option Word → Exec Step
  | none => pure (.next a)
  | some v => return .next (← a.advance.write v d)

namespace AtRandInt

lemma step_eq (h : a.AtRandInt image m d min max) :
    a.step image m = (Intrinsic.randInt.exec [min, max] >>= a.proceedWith d) m := by
  obtain ⟨hgenuine, args, link, hinvokes, hargs⟩ := h
  have hread : Machine.read (fun m => a.evalAll m args) m = .ok [link, min, max] m :=
    Machine.read_ok hargs
  rw [hinvokes.step, Activation.call]
  simp only [bind, EStateM.bind, hread, hgenuine, Intrinsic.ofLabel?_label, List.tail_cons]
  cases Intrinsic.randInt.exec [min, max] m with
  | ok r _ => cases r <;> rfl
  | error => rfl

lemma step_of_empty (h : a.AtRandInt image m d min max) (hle : max ≤ min) :
    a.step image m = .error (.emptyRange min max) m := by
  rw [h.step_eq]
  exact Exec.bind_error.mpr (.inl (Intrinsic.exec_randInt_empty m hle))

lemma step_of_none (h : a.AtRandInt image m d min max)
    (hx : Intrinsic.randInt.exec [min, max] m = .ok none m') : a.step image m = .ok (.next a) m' := by
  rw [h.step_eq]
  exact Exec.bind_ok.mpr ⟨none, m', hx, rfl⟩

lemma step_of_some (h : a.AtRandInt image m d min max) {m₁ : Machine}
    (hx : Intrinsic.randInt.exec [min, max] m = .ok (some v) m₁)
    (hw : a.advance.write v d m₁ = .ok b m') : a.step image m = .ok (.next b) m' := by
  rw [h.step_eq]
  refine Exec.bind_ok.mpr ⟨some v, m₁, hx, ?_⟩
  exact Exec.bind_ok.mpr ⟨b, m', hw, rfl⟩

lemma becomes_of_returns (h : a.AtRandInt image m d min max) (hlt : min < max) {m₁ : Machine}
    (hr : Intrinsic.randInt.Returns [min, max] m v m₁) (hw : a.advance.write v d m₁ = .ok b m') :
    Thread.Becomes image ⟨a, callers⟩ m ⟨b, callers⟩ m' := by
  induction hr with
  | now hx => exact Thread.becomes_of_step (h.step_of_some hx hw)
  | again hx _ ih =>
    have hat := hx
    rw [Intrinsic.exec_randInt _ hlt] at hat
    obtain ⟨-, rfl⟩ := EStateM.Result.ok.inj hat
    exact (Thread.becomes_of_step (h.step_of_none hx)).trans (ih (h.withGenerator _) hw)

lemma unfinished_or_returns (h : a.AtRandInt image m d min max) (hlt : min < max)
    (callers : List Activation) (n : Nat) :
    Thread.runFor image n ⟨a, callers⟩ m =
        (.unfinished ⟨a, callers⟩, m.withGenerator (m.generator.skip n)) ∨
      ∃ v m₁, Intrinsic.randInt.Returns [min, max] m v m₁ := by
  induction n generalizing m with
  | zero => exact .inl rfl
  | succ n ih =>
    have hx := Intrinsic.exec_randInt m hlt
    cases hp : m.generator.pick min max with
    | some v =>
      rw [hp] at hx
      exact .inr ⟨v, _, .now hx⟩
    | none =>
      rw [hp] at hx
      -- a rejected word changes nothing but the generator, so the thread is at the same call again
      rcases ih (h.withGenerator m.generator.next) with hrun | ⟨v, m₁, hr⟩
      · left
        have hadvance : (Thread.mk a callers).advance image m =
            .ok (.running ⟨a, callers⟩) (m.withGenerator m.generator.next) :=
          Exec.bind_ok.mpr ⟨_, _, h.step_of_none hx, rfl⟩
        rw [Thread.runFor_of_running hadvance, hrun]
        exact congrArg (fun g => (_, m.withGenerator g)) (m.generator.skip_next n)
      · exact .inr ⟨v, m₁, .again hx hr⟩

end AtRandInt

end Activation

/-- A call of `rand_int` faults on an empty range and changes nothing. Otherwise it draws words up to
the first one that is accepted, if there is one, and what it returns is not below `min` and is below
`max`. A thread that calls it stays where it is until then. -/
theorem rand_int_stays_in_range (m : Machine) (min max : Word) :
    (max ≤ min → Intrinsic.randInt.exec [min, max] m = .error (.emptyRange min max) m) ∧
    (min < max →
      (∃ r, Intrinsic.randInt.exec [min, max] m = .ok r (m.withGenerator m.generator.next)) ∧
      (∀ v m', Intrinsic.randInt.Returns [min, max] m v m' → min ≤ v ∧ v < max) ∧
      (∀ v m', Intrinsic.randInt.Returns [min, max] m v m' ↔
        ∃ k, m.generator.Draws min max k v ∧ m' = m.withGenerator (m.generator.skip (k + 1))) ∧
      ((∃ v m', Intrinsic.randInt.Returns [min, max] m v m') ↔
        ∃ k, (m.generator.skip k).Accepts min max)) ∧
    (∀ (image : Image) (a : Activation) (callers : List Activation) (d : Destination),
      a.AtRandInt image m d min max →
      (max ≤ min → ∀ fuel, Thread.runFor image (fuel + 1) ⟨a, callers⟩ m =
        (.fault (.emptyRange min max), m)) ∧
      (min < max →
        (∀ n, Thread.runFor image n ⟨a, callers⟩ m =
            (.unfinished ⟨a, callers⟩, m.withGenerator (m.generator.skip n)) ∨
          ∃ v m', Intrinsic.randInt.Returns [min, max] m v m') ∧
        ∀ v m₁ b m', Intrinsic.randInt.Returns [min, max] m v m₁ →
          a.advance.write v d m₁ = .ok b m' →
          Thread.Becomes image ⟨a, callers⟩ m ⟨b, callers⟩ m')) := by
  refine ⟨Intrinsic.exec_randInt_empty m, ?_, ?_⟩
  · intro h
    refine ⟨⟨_, Intrinsic.exec_randInt m h⟩, ?_, fun v m' => Intrinsic.returns_randInt h, ?_⟩
    · intro v m' hr
      obtain ⟨k, hk, -⟩ := (Intrinsic.returns_randInt h).mp hr
      exact hk.bounds h
    · rw [← Generator.exists_draws h]
      constructor
      · rintro ⟨v, m', hr⟩
        obtain ⟨k, hk, -⟩ := (Intrinsic.returns_randInt h).mp hr
        exact ⟨k, v, hk⟩
      · rintro ⟨k, v, hk⟩
        exact ⟨v, _, (Intrinsic.returns_randInt h).mpr ⟨k, hk, rfl⟩⟩
  · intro image a callers d hat
    constructor
    · intro h fuel
      have hadvance : (Thread.mk a callers).advance image m = .error (.emptyRange min max) m :=
        Exec.bind_error.mpr (.inl (hat.step_of_empty h))
      rw [Thread.runFor, hadvance]
    · intro h
      exact ⟨hat.unfinished_or_returns h callers,
        fun v m₁ b m' hr hw => hat.becomes_of_returns h hr hw⟩

namespace WideRange

def low : Word := -4611686018427387904

def high : Word := 4611686018427387905

def machine : Machine := ⟨.new 8, 0, 0, .ofSeed 6, none⟩

def image : Image := ⟨∅, .named "main"⟩

def roll (min max : Word) : Activation where
  routine :=
    { frame := { label := .named "main", level := 1 }
      code := #[.exp (.call Intrinsic.randInt.label [.const 0, .const min, .const max])]
      targets := ∅ }
  destination := .discard

lemma atRandInt (min max : Word) : (roll min max).AtRandInt image machine .discard min max := by
  refine ⟨Std.TreeMap.getElem?_emptyc, [.const 0, .const min, .const max], 0, ?_, rfl⟩
  exact .inl ⟨rfl, rfl⟩

lemma returns : Intrinsic.randInt.Returns [low, high] machine 1684142811752819919
    (machine.withGenerator machine.generator.next.next) := by
  have hlt : low < high := by decide
  have hnone : machine.generator.pick low high = none := by decide +kernel
  have hsome : machine.generator.next.pick low high = some 1684142811752819919 := by decide +kernel
  have hfirst := Intrinsic.exec_randInt machine hlt
  have hsecond := Intrinsic.exec_randInt (machine.withGenerator machine.generator.next) hlt
  rw [hnone] at hfirst
  exact .again hfirst (.now (hsecond.trans (congrArg (EStateM.Result.ok · _) hsome)))

end WideRange

open WideRange

theorem rand_int_stays_in_range_wide :
    (∃ v m, Intrinsic.randInt.Returns [low, high] machine v m ∧ low ≤ v ∧ v < high ∧
      Thread.Becomes image ⟨roll low high, []⟩ machine ⟨(roll low high).advance, []⟩ m) ∧
    Thread.runFor image 1 ⟨roll high low, []⟩ machine =
      (.fault (.emptyRange high low), machine) := by
  obtain ⟨-, hcall, hthread⟩ := rand_int_stays_in_range machine low high
  obtain ⟨-, -, hempty⟩ := rand_int_stays_in_range machine high low
  obtain ⟨-, hbounds, -⟩ := hcall (by decide)
  obtain ⟨hlow, hhigh⟩ := hbounds _ _ returns
  obtain ⟨-, hbecomes⟩ := (hthread image _ [] .discard (atRandInt low high)).2 (by decide)
  refine ⟨⟨_, _, returns, hlow, hhigh, hbecomes _ _ _ _ returns rfl⟩, ?_⟩
  exact (hempty image _ [] .discard (atRandInt high low)).1 (by decide) 0

end BlockLang
