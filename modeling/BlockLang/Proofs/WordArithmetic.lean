import BlockLang.Proofs.Words
import Mathlib.Algebra.Ring.Int.Defs

/-! Addresses as 64-bit words. The ends of regions are computed without and with a sign, and each
computation either gives the exact number or notices that it is not a word. -/

namespace BlockLang

namespace Word

variable {address start size last : Word} {n stop : UInt64}

lemma toInt64_eq_ofInt (n : UInt64) : n.toInt64 = .ofInt n.toNat := by
  have h := UInt64.toInt64_ofNat' (n := n.toNat)
  rwa [UInt64.ofNat_toNat] at h

lemma toInt_toInt64 (h : n.toNat < wordBound) : n.toInt64.toInt = n.toNat := by
  rw [toInt64_eq_ofInt]
  exact toInt_ofInt (Int.natCast_nonneg _) h

lemma toNat_toUInt64 (w : Word) : (w.toUInt64.toNat : Int) = w.toInt % 18446744073709551616 := by
  have h := congrArg Int64.toInt (toInt64_eq_ofInt w.toUInt64)
  have hlt := w.toUInt64.toNat_lt
  rw [Int64.toInt64_toUInt64, Int64.toInt_ofInt, Int.bmod_def, Int64.size] at h
  omega

lemma toInt_max_one (w : Word) : (max w 1).toInt = max w.toInt 1 := by
  have hle : w ≤ 1 ↔ w.toInt ≤ 1 := Int64.le_iff_toInt_le
  have hmax : max w 1 = if w ≤ 1 then 1 else w := rfl
  have hone : Int64.toInt 1 = 1 := rfl
  by_cases h : w ≤ 1
  · rw [hmax, if_pos h]
    rw [hle] at h
    omega
  · rw [hmax, if_neg h]
    rw [hle] at h
    omega

def spanEnd? (address : Word) (n : UInt64) : Option UInt64 :=
  if address < 0 ∨ address.toUInt64 + n < n then none else some (address.toUInt64 + n)

lemma spanEnd?_eq_some : spanEnd? address n = some stop ↔
    0 ≤ address.toInt ∧ (stop.toNat : Int) = address.toInt + n.toNat := by
  have hn := n.toNat_lt
  have hstop := stop.toNat_lt
  have hmax := address.toInt_lt
  have haddress := toNat_toUInt64 address
  have hneg : address < 0 ↔ address.toInt < 0 := Int64.lt_iff_toInt_lt
  have hsum := UInt64.toNat_add address.toUInt64 n
  -- a carry shows in a sum below the second number
  by_cases h : address < 0 ∨ address.toUInt64 + n < n
  · rw [spanEnd?, if_pos h]
    rw [hneg, UInt64.lt_iff_toNat_lt, hsum] at h
    simp only [reduceCtorEq, false_iff]
    omega
  · rw [spanEnd?, if_neg h, Option.some.injEq, ← UInt64.toNat_inj, hsum]
    rw [hneg, UInt64.lt_iff_toNat_lt, hsum] at h
    omega

def roundedUp (size : Word) : UInt64 :=
  let n := (max size 1).toUInt64
  (if n % 8 = 0 then n / 8 else n / 8 + 1) * 8

lemma toNat_roundedUp (size : Word) :
    (size.roundedUp.toNat : Int) = (max size.toInt 1 + 7) / 8 * 8 := by
  have hmax := size.toInt_lt
  have hn := toNat_toUInt64 (max size 1)
  rw [toInt_max_one] at hn
  have hzero : (max size 1).toUInt64 % 8 = 0 ↔ (max size 1).toUInt64.toNat % 8 = 0 := by
    rw [← UInt64.toNat_inj, UInt64.toNat_mod]
    rfl
  -- the largest word is rounded up to 2 ^ 63, which still has no carry
  have height : UInt64.toNat 8 = 8 := rfl
  have hone : UInt64.toNat 1 = 1 := rfl
  unfold roundedUp
  dsimp only
  by_cases h : (max size 1).toUInt64 % 8 = 0
  · rw [if_pos h, UInt64.toNat_mul, UInt64.toNat_div, height]
    rw [hzero] at h
    omega
  · rw [if_neg h, UInt64.toNat_mul, UInt64.toNat_add, UInt64.toNat_div, height, hone]
    rw [hzero] at h
    omega

def regionEnd? (start size : Word) : Option Word :=
  let bytes := size.roundedUp.toInt64
  if bytes < 0 ∨ start + bytes < start then none else some (start + bytes)

lemma regionEnd?_eq_some (h0 : 0 ≤ start.toInt) :
    regionEnd? start size = some last ↔ last.toInt = start.toInt + size.roundedUp.toNat := by
  have hstart := start.toInt_lt
  have hlast := last.toInt_lt
  have hsize := size.toInt_lt
  have hrounded := toNat_roundedUp size
  have hneg : size.roundedUp.toInt64 < 0 ↔ size.roundedUp.toInt64.toInt < 0 := Int64.lt_iff_toInt_lt
  have hbytes := Int64.toInt_ofInt (n := size.roundedUp.toNat)
  rw [← toInt64_eq_ofInt, Int.bmod_def, Int64.size] at hbytes
  have hsum := Int64.toInt_add start size.roundedUp.toInt64
  rw [Int.bmod_def] at hsum
  unfold regionEnd?
  dsimp only
  by_cases h : size.roundedUp.toInt64 < 0 ∨ start + size.roundedUp.toInt64 < start
  · rw [if_pos h]
    rw [hneg, Int64.lt_iff_toInt_lt, hsum] at h
    simp only [reduceCtorEq, false_iff]
    omega
  · rw [if_neg h, Option.some.injEq, ← Int64.toInt_inj, hsum]
    rw [hneg, Int64.lt_iff_toInt_lt, hsum] at h
    omega

end Word

namespace Memory

lemma holds_iff_spanEnd? {m : Memory} (hm : m.size < 18446744073709551616) {address : Word}
    {n : UInt64} :
    m.holds address.toInt n.toNat = true ↔
      ∃ stop, address.spanEnd? n = some stop ∧ (stop.toNat : Int) ≤ m.size := by
  rw [holds_iff]
  constructor
  · rintro ⟨h0, hle⟩
    have hstop := UInt64.toNat_ofNat' (n := (address.toInt + n.toNat).toNat)
    exact ⟨.ofNat (address.toInt + n.toNat).toNat, Word.spanEnd?_eq_some.mpr ⟨h0, by omega⟩, by omega⟩
  · rintro ⟨stop, hstop, hle⟩
    obtain ⟨h0, he⟩ := Word.spanEnd?_eq_some.mp hstop
    exact ⟨h0, by omega⟩

end Memory

end BlockLang
