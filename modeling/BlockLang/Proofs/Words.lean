import BlockLang.Machine.Basic
import Mathlib.Tactic.Common

namespace BlockLang

def Clear (a b : Int) : Prop := a + 8 ≤ b ∨ b + 8 ≤ a

namespace Memory

variable {m : Memory} {a b : Int} {w : Word}

@[simp] lemma size_write (m : Memory) (a : Int) (bytes : List UInt8) :
    (m.write a bytes).size = m.size := by
  simp [Memory.size, Memory.write, size_setBytes]

@[simp] lemma labels_write (m : Memory) (a : Int) (bytes : List UInt8) :
    (m.write a bytes).labels = m.labels := rfl

@[simp] lemma staticEnd_write (m : Memory) (a : Int) (bytes : List UInt8) :
    (m.write a bytes).staticEnd = m.staticEnd := rfl

@[simp] lemma holds_write (m : Memory) (a b : Int) (bytes : List UInt8) (n : Nat) :
    (m.write a bytes).holds b n = m.holds b n := by
  simp [Memory.holds]

lemma getElem?_write (m : Memory) {a : Int} (ha : 0 ≤ a) (bytes : List UInt8) {i : Nat}
    (hi : (i : Int) < a ∨ a + bytes.length ≤ i) :
    (m.write a bytes).bytes[i]? = m.bytes[i]? := by
  rw [write, getElem?_setBytes, if_neg]
  omega

lemma holds_iff {n : Nat} : m.holds a n = true ↔ 0 ≤ a ∧ a + n ≤ m.size := by
  simp [Memory.holds]

lemma load_of_holds (h : m.holds a 8 = true) :
    m.load a = .ok (.ofBytes (getBytes m.bytes a.toNat 8)) := by
  simp [load, h]

lemma load_of_zero (h : m.holds a 8 = true) (hz : ∀ k < 8, m.bytes.getD (a.toNat + k) 0 = 0) :
    m.load a = .ok 0 := by
  have hbytes : getBytes m.bytes a.toNat 8 = List.replicate 8 0 := by
    apply List.ext_getElem?
    intro k
    rw [getElem?_getBytes, List.getElem?_replicate]
    split
    · next hk => rw [hz k hk]
    · rfl
  rw [load_of_holds h, hbytes]
  rfl

lemma load_write (h : m.holds a 8 = true) : (m.write a w.toBytes).load a = .ok w := by
  rw [load_of_holds (by rw [holds_write]; exact h)]
  obtain ⟨h0, hs⟩ := holds_iff.mp h
  have hb : a.toNat + w.toBytes.length ≤ m.bytes.size := by
    rw [Word.length_toBytes]
    simp only [Memory.size] at hs
    omega
  have hg := getBytes_setBytes m.bytes a.toNat w.toBytes hb
  rw [Word.length_toBytes] at hg
  rw [Memory.write, hg, Word.ofBytes_toBytes]

lemma load_write_of_clear (ha : 0 ≤ a) (h : Clear a b) :
    (m.write a w.toBytes).load b = m.load b := by
  cases hb : m.holds b 8 with
  | false => simp [load, hb]
  | true =>
    have h0 := (holds_iff.mp hb).1
    rw [load_of_holds hb, load_of_holds (by rw [holds_write]; exact hb)]
    have hg : getBytes (setBytes m.bytes a.toNat w.toBytes) b.toNat 8 =
        getBytes m.bytes b.toNat 8 := by
      apply List.ext_getElem?
      intro k
      rw [getElem?_getBytes, getElem?_getBytes]
      split
      · have hk : ¬(a.toNat ≤ b.toNat + k ∧ b.toNat + k < a.toNat + w.toBytes.length ∧
            b.toNat + k < m.bytes.size) := by
          rw [Word.length_toBytes]
          rcases h with h | h <;> omega
        rw [Array.getD_eq_getD_getElem?, getElem?_setBytes, if_neg hk, Array.getD_eq_getD_getElem?]
      · rfl
    rw [Memory.write, hg]

end Memory

namespace Machine

variable {m m' : Machine} {a b : Int} {w : Word}

lemma store_of_holds (h : m.memory.holds a 8 = true) :
    store a w m = .ok () { m with memory := m.memory.write a w.toBytes } := by
  rw [store_eq, if_pos h]

end Machine

end BlockLang
