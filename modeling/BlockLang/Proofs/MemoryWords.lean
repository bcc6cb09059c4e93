import BlockLang.Proofs.WordArithmetic
import Mathlib.Data.Nat.Digits.Defs
import Mathlib.Tactic.IntervalCases

/-! Words in byte memory. A word is stored as its eight bytes, the lowest one first, at any address that
leaves room for them. A word that overlaps it is put together from old and new bytes. -/

namespace BlockLang

namespace Word

def byte (w : Word) (k : Nat) : UInt8 := .ofInt (w.toInt / 256 ^ k)

def littleEndian (f : Nat → UInt8) : Word :=
  .ofNat (Nat.ofDigits 256 ((List.range 8).map fun k => (f k).toNat))

lemma toNat_byte (w : Word) (k : Nat) : ((w.byte k).toNat : Int) = w.toInt / 256 ^ k % 256 := by
  rw [byte, UInt8.ofInt, UInt8.toNat_ofNat']
  omega

lemma lowBytes_eq (n : Nat) (u : UInt64) :
    lowBytes n u = (List.range n).map fun k => .ofNat (u.toNat / 256 ^ k) := by
  induction n generalizing u with
  | zero => rfl
  | succ n ih =>
    have hlow : (u % 256).toUInt8 = .ofNat (u.toNat / 256 ^ 0) := by
      rw [← UInt8.toNat_inj]
      simp
    rw [lowBytes, ih, hlow, List.range_succ_eq_map, List.map_cons, List.map_map]
    congr 1
    apply List.map_congr_left
    intro k _
    rw [Function.comp_apply, UInt64.toNat_div, Nat.div_div_eq_div_mul, Nat.pow_succ']
    rfl

lemma toBytes_eq (w : Word) : w.toBytes = (List.range 8).map w.byte := by
  rw [toBytes, lowBytes_eq]
  apply List.map_congr_left
  intro k hk
  have hk := List.mem_range.mp hk
  have hw := toNat_toUInt64 w
  have hb := toNat_byte w k
  rw [← UInt8.toNat_inj, UInt8.toNat_ofNat']
  -- with and without the sign, the numbers differ by a multiple of the ninth place only
  interval_cases k <;> norm_num at hb ⊢ <;> omega

lemma toNat_foldr (bs : List UInt8) :
    (bs.foldr (fun (b : UInt8) (u : UInt64) => u * 256 + b.toUInt64) 0).toNat =
      Nat.ofDigits 256 (bs.map UInt8.toNat) % 18446744073709551616 := by
  induction bs with
  | nil => rfl
  | cons b bs ih =>
    have hbase : UInt64.toNat 256 = 256 := rfl
    rw [List.foldr_cons, UInt64.toNat_add, UInt64.toNat_mul, ih, hbase, UInt8.toNat_toUInt64,
      List.map_cons, Nat.ofDigits_cons]
    omega

lemma ofBytes_map_range (f : Nat → UInt8) : ofBytes ((List.range 8).map f) = littleEndian f := by
  rw [ofBytes, toInt64_eq_ofInt, toNat_foldr, List.map_map, littleEndian, ← Int64.ofInt_eq_ofNat,
    ← Int64.toInt_inj, Int64.toInt_ofInt, Int64.toInt_ofInt, Int.natCast_emod]
  exact Int.emod_bmod _ _

end Word

namespace Memory

variable {m m' : Memory} {a b : Int} {w u : Word}

lemma store_ok : m.store a w = .ok m' ↔ m.holds a 8 = true ∧ m' = m.write a w.toBytes := by
  rw [store]
  by_cases h : m.holds a 8 = true
  · simp [h, eq_comm]
  · simp [h]

lemma exists_store_ok : (∃ m', m.store a w = .ok m') ↔ 0 ≤ a ∧ a + 8 ≤ m.size := by
  simp only [store_ok, exists_and_left, exists_eq, and_true, holds_iff]
  rfl

lemma exists_load_ok : (∃ u, m.load a = .ok u) ↔ 0 ≤ a ∧ a + 8 ≤ m.size := by
  have hholds : m.holds a 8 = true ↔ 0 ≤ a ∧ a + 8 ≤ m.size := holds_iff
  rw [← hholds, load]
  by_cases h : m.holds a 8 = true
  · simp [h]
  · simp [h]

lemma getBytes_eq (bytes : Array UInt8) (start n : Nat) :
    getBytes bytes start n = (List.range n).map fun k => bytes.getD (start + k) 0 := by
  apply List.ext_getElem?
  intro k
  rw [getElem?_getBytes, List.getElem?_map]
  by_cases hk : k < n
  · rw [if_pos hk, List.getElem?_range hk]
    rfl
  · rw [if_neg hk, List.getElem?_eq_none (by simpa using hk)]
    rfl

lemma load_eq_littleEndian (h : m.holds a 8 = true) :
    m.load a = .ok (.littleEndian fun k => m.bytes.getD (a.toNat + k) 0) := by
  rw [load_of_holds h, getBytes_eq, Word.ofBytes_map_range]

lemma getElem?_write_toBytes (h : m.holds a 8 = true) (w : Word) (i : Nat) :
    (m.write a w.toBytes).bytes[i]? =
      if a ≤ i ∧ i < a + 8 then some (w.byte (i - a).toNat) else m.bytes[i]? := by
  obtain ⟨h0, hs⟩ := holds_iff.mp h
  by_cases hi : a ≤ i ∧ i < a + 8
  · have hsize : i < m.bytes.size := by
      rw [Memory.size] at hs
      omega
    have hlength := w.length_toBytes
    have hk : i - a.toNat = (i - a).toNat := by omega
    rw [write, getElem?_setBytes, if_pos (by omega), if_pos hi, Word.toBytes_eq, List.getElem?_map,
      hk, List.getElem?_range (by omega)]
    rfl
  · rw [if_neg hi]
    apply getElem?_write m h0
    rw [Word.length_toBytes]
    omega

lemma load_write_overlap (h : m.holds a 8 = true) (hb : m.holds b 8 = true) :
    (m.write a w.toBytes).load b = .ok (.littleEndian fun k =>
      if a ≤ b + k ∧ b + k < a + 8 then w.byte (b + k - a).toNat
      else m.bytes.getD (b + k).toNat 0) := by
  have hb0 := (holds_iff.mp hb).1
  have hnew : (fun k : Nat => (m.write a w.toBytes).bytes.getD (b.toNat + k) 0) = fun k : Nat =>
      if a ≤ b + k ∧ b + k < a + 8 then w.byte (b + k - a).toNat
      else m.bytes.getD (b + k).toNat 0 := by
    funext k
    have hk : (b + k).toNat = b.toNat + k := by omega
    have hint : ((b.toNat + k : Nat) : Int) = b + k := by omega
    rw [Array.getD_eq_getD_getElem?, getElem?_write_toBytes h, hint, hk, Array.getD_eq_getD_getElem?]
    split <;> rfl
  rw [load_eq_littleEndian (by rwa [holds_write]), hnew]

lemma setBytes_comm {bytes : Array UInt8} {s t : Nat} {xs ys : List UInt8}
    (h : s + xs.length ≤ t ∨ t + ys.length ≤ s) :
    setBytes (setBytes bytes s xs) t ys = setBytes (setBytes bytes t ys) s xs := by
  apply Array.ext_getElem?
  intro i
  simp only [getElem?_setBytes, size_setBytes]
  by_cases hs : s ≤ i ∧ i < s + xs.length ∧ i < bytes.size
  · rw [if_pos hs, if_pos hs, if_neg (by omega)]
  · rw [if_neg hs, if_neg hs]

lemma write_comm (ha : 0 ≤ a) (hb : 0 ≤ b) {xs ys : List UInt8}
    (h : a + xs.length ≤ b ∨ b + ys.length ≤ a) :
    (m.write a xs).write b ys = (m.write b ys).write a xs := by
  unfold write
  rw [setBytes_comm (by omega)]

lemma write_eq (m : Memory) (a : Int) (xs : List UInt8) :
    m.write a xs = { m with bytes := (m.write a xs).bytes } := rfl

def after (m : Memory) : Except Fault Memory → Memory
  | .ok m' => m'
  | .error _ => m

def stored (m : Memory) (a : Int) (w : Word) : Memory := m.after (m.store a w)

lemma stored_eq (m : Memory) (a : Int) (w : Word) :
    m.stored a w = if m.holds a 8 then m.write a w.toBytes else m := by
  unfold stored store
  by_cases h : m.holds a 8 = true
  · rw [if_pos h, if_pos h, after]
  · rw [if_neg h, if_neg h, after]

@[simp] lemma size_stored (m : Memory) (a : Int) (w : Word) : (m.stored a w).size = m.size := by
  rw [stored_eq]
  split
  · apply size_write
  · rfl

@[simp] lemma holds_stored (m : Memory) (a b : Int) (w : Word) (n : Nat) :
    (m.stored a w).holds b n = m.holds b n := by
  simp [holds]

lemma stored_comm (h : 8 ≤ (a - b).natAbs) :
    (m.stored a w).stored b u = (m.stored b u).stored a w := by
  rw [stored_eq, holds_stored, stored_eq (m.stored b u), holds_stored, stored_eq, stored_eq]
  -- if one of them fails it does nothing, in either order
  by_cases ha : m.holds a 8 = true
  · by_cases hb : m.holds b 8 = true
    · have ha0 := (holds_iff.mp ha).1
      have hb0 := (holds_iff.mp hb).1
      have hapart : a + w.toBytes.length ≤ b ∨ b + u.toBytes.length ≤ a := by
        rw [Word.length_toBytes, Word.length_toBytes]
        omega
      rw [if_pos ha, if_pos hb, if_pos hb, if_pos ha, write_comm ha0 hb0 hapart]
    · simp [hb]
  · simp [ha]

structure Stored (m : Memory) (a : Int) (w : Word) (m' : Memory) : Prop where
  same : m'.load a = .ok w
  bytes : ∀ k < 8, m'.bytes[a.toNat + k]? = some (w.byte k)
  outside : ∀ i : Nat, (i : Int) < a ∨ a + 8 ≤ i → m'.bytes[i]? = m.bytes[i]?
  apart : ∀ b : Int, 8 ≤ (a - b).natAbs → m'.load b = m.load b
  overlap : ∀ b : Int, 0 ≤ b → b + 8 ≤ m.size → m'.load b = .ok (.littleEndian fun k =>
    if a ≤ b + k ∧ b + k < a + 8 then w.byte (b + k - a).toNat else m.bytes.getD (b + k).toNat 0)
  rest : m' = { m with bytes := m'.bytes } ∧ m'.size = m.size

lemma stored_write (h : m.holds a 8 = true) : m.Stored a w (m.write a w.toBytes) := by
  obtain ⟨h0, hs⟩ := holds_iff.mp h
  refine ⟨load_write h, ?_, ?_, ?_, ?_, write_eq m a _, size_write m a _⟩
  · intro k hk
    have hat : ((a.toNat + k : Nat) - a).toNat = k := by omega
    rw [getElem?_write_toBytes h, if_pos (by omega), hat]
  · intro i hi
    rw [getElem?_write_toBytes h, if_neg (by omega)]
  · intro b hb
    apply load_write_of_clear h0
    unfold Clear
    omega
  · intro b hb0 hb
    exact load_write_overlap h (holds_iff.mpr ⟨hb0, hb⟩)

end Memory

/-- A word can be stored and loaded exactly where its eight bytes lie in memory, and the check of that
needs no number that is not a word. What is stored is loaded again, and all other bytes stay. Stores
that do not overlap can change places. -/
theorem memory_words_obey_laws (m : Memory) (a : Int) (w : Word) :
    ((∃ m', m.store a w = .ok m') ↔ 0 ≤ a ∧ a + 8 ≤ m.size) ∧
    ((∃ u, m.load a = .ok u) ↔ 0 ≤ a ∧ a + 8 ≤ m.size) ∧
    (¬(0 ≤ a ∧ a + 8 ≤ m.size) → m.store a w = .error (.addressOutOfBounds a) ∧
      m.load a = .error (.addressOutOfBounds a) ∧ m.stored a w = m) ∧
    (∀ m', m.store a w = .ok m' → m.Stored a w m') ∧
    (∀ (b : Int) (u : Word), 8 ≤ (a - b).natAbs →
      (m.stored a w).stored b u = (m.stored b u).stored a w ∧
      ((∃ m', (m.stored a w).store b u = .ok m') ↔ ∃ m', m.store b u = .ok m')) ∧
    (∀ address : Word, address.toInt = a → m.size < 18446744073709551616 →
      ((∃ stop, address.spanEnd? 8 = some stop ∧ (stop.toNat : Int) ≤ m.size) ↔
        0 ≤ a ∧ a + 8 ≤ m.size)) := by
  have hholds : m.holds a 8 = true ↔ 0 ≤ a ∧ a + 8 ≤ m.size := Memory.holds_iff
  refine ⟨Memory.exists_store_ok, Memory.exists_load_ok, ?_, ?_, ?_, ?_⟩
  · rw [← hholds]
    intro h
    refine ⟨if_neg h, if_neg h, ?_⟩
    rw [Memory.stored_eq, if_neg h]
  · intro m' hm'
    obtain ⟨h, rfl⟩ := Memory.store_ok.mp hm'
    exact Memory.stored_write h
  · intro b u hab
    refine ⟨Memory.stored_comm hab, ?_⟩
    rw [Memory.exists_store_ok, Memory.exists_store_ok, Memory.size_stored]
  · rintro address rfl hm
    rw [← hholds]
    exact (Memory.holds_iff_spanEnd? hm).symm

end BlockLang
