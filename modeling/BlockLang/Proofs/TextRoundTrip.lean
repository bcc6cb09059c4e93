import BlockLang.Proofs.MemoryWords
import BlockLang.Proofs.StoredText

namespace BlockLang

namespace Memory

variable {m m' : Memory} {a : Int} {bs text : List UInt8}

def TextAt (m : Memory) (a : Int) (bs : List UInt8) : Prop :=
  0 ≤ a ∧ 0 ∉ bs ∧ bs ++ [0] <+: m.bytes.toList.drop a.toNat

lemma TextAt.loadText (h : m.TextAt a bs) : m.loadText a = .ok (Utf8.decode bs.toArray) := by
  obtain ⟨h0, hbs, rest, hdrop⟩ := h
  rw [← Int.toNat_of_nonneg h0]
  apply loadText_of_drop _ hbs
  · exact rest
  · rw [← hdrop, List.append_assoc]
    rfl

lemma exists_textAt (h0 : 0 ≤ a) {i : Nat} (hi : a ≤ i) (hz : m.bytes[i]? = some 0) :
    ∃ bs, m.TextAt a bs := by
  have hmem : 0 ∈ m.bytes.toList.drop a.toNat := by
    apply List.mem_of_getElem? (i := i - a.toNat)
    rw [List.getElem?_drop, Array.getElem?_toList, ← hz]
    congr 1
    omega
  obtain ⟨bs, rest, hdrop, hbs⟩ := List.eq_append_cons_of_mem hmem
  refine ⟨bs, h0, hbs, rest, ?_⟩
  rw [hdrop, List.append_assoc]
  rfl

lemma loadText_outside (h : ¬(0 ≤ a ∧ a ≤ m.size)) :
    m.loadText a = .error (.addressOutOfBounds a) := by
  rw [loadText, if_neg]
  rw [holds_iff]
  push_cast
  omega

lemma loadText_endless (h0 : 0 ≤ a) (ha : a ≤ m.size) (h : ∀ i : Nat, a ≤ i → m.bytes[i]? ≠ some 0) :
    m.loadText a = .error (.addressOutOfBounds m.size) := by
  have hholds : m.holds a 0 = true := holds_iff.mpr ⟨h0, by push_cast; omega⟩
  have hsize : m.bytes.size - (m.bytes.size - a.toNat) = a.toNat := by
    rw [Memory.size] at ha
    omega
  have hnone : findZero m.bytes (m.bytes.size - a.toNat) = none := by
    rw [findZero_eq (Nat.sub_le _ _), hsize, Option.map_eq_none_iff]
    apply findIdx?_zero
    intro hmem
    obtain ⟨k, hk⟩ := List.mem_iff_getElem?.mp hmem
    rw [List.getElem?_drop, Array.getElem?_toList] at hk
    exact h _ (by omega) hk
  rw [loadText, if_pos hholds, hnone]

lemma drop_write (h0 : 0 ≤ a) (h : a + bs.length ≤ m.size) :
    (m.write a bs).bytes.toList.drop a.toNat = bs ++ m.bytes.toList.drop (a.toNat + bs.length) := by
  rw [Memory.size] at h
  apply List.ext_getElem?
  intro k
  rw [List.getElem?_drop, Array.getElem?_toList, write, getElem?_setBytes, List.getElem?_append]
  by_cases hk : k < bs.length
  · rw [if_pos (by omega), if_pos hk, Nat.add_sub_cancel_left]
  · rw [if_neg (by omega), if_neg hk, List.getElem?_drop, Array.getElem?_toList]
    congr 1
    omega

lemma storeText_holds (m : Memory) (a : Int) (text : List UInt8) :
    m.holds a (text.length + 1) = true ↔ 0 ≤ a ∧ a + text.length + 1 ≤ m.size := by
  rw [holds_iff]
  push_cast
  rw [Int.add_assoc]

structure TextStored (m : Memory) (a : Int) (s : String) (m' : Memory) : Prop where
  loadText : m'.loadText a = .ok (String.ofList (s.toList.takeWhile (· ≠ '\x00')))
  whole : '\x00' ∉ s.toList → m'.loadText a = .ok s
  outside : ∀ i : Nat, (i : Int) < a ∨ a + s.utf8ByteSize < i → m'.bytes[i]? = m.bytes[i]?
  rest : m' = { m with bytes := m'.bytes } ∧ m'.size = m.size

lemma textStored_write (s : String) (h : m.holds a (s.utf8ByteSize + 1) = true) :
    m.TextStored a s (m.write a (s.toUTF8.data.toList ++ [0])) := by
  obtain ⟨h0, hs⟩ := holds_iff.mp h
  have hlength : (s.toUTF8.data.toList ++ [0]).length = s.utf8ByteSize + 1 := by
    rw [List.length_append]
    rfl
  have hload : (m.write a (s.toUTF8.data.toList ++ [0])).loadText a =
      .ok (String.ofList (s.toList.takeWhile (· ≠ '\x00'))) := by
    rw [← Int.toNat_of_nonneg h0]
    apply loadText_eq
    · rw [Int.toNat_of_nonneg h0, drop_write h0 (by rw [hlength]; exact hs), List.append_assoc]
      rfl
  refine ⟨hload, ?_, ?_, write_eq m a _, size_write m a _⟩
  · intro hnul
    have hall : s.toList.takeWhile (· ≠ '\x00') = s.toList := by
      rw [List.takeWhile_eq_self_iff]
      intro c hc
      exact decide_eq_true fun he => hnul (he ▸ hc)
    rw [hload, hall, String.ofList_toList]
  · intro i hi
    apply getElem?_write m h0
    rw [hlength]
    omega

structure ReadAsText (m : Memory) (a : Int) : Prop where
  outside : ¬(0 ≤ a ∧ a ≤ m.size) → m.loadText a = .error (.addressOutOfBounds a)
  endless : 0 ≤ a → a ≤ m.size → (∀ i : Nat, a ≤ i → m.bytes[i]? ≠ some 0) →
    m.loadText a = .error (.addressOutOfBounds m.size)
  ended : 0 ≤ a → ∀ i : Nat, a ≤ i → m.bytes[i]? = some 0 →
    ∃ bs, m.TextAt a bs ∧ m.loadText a = .ok (Utf8.decode bs.toArray)
  only : ∀ bs (m' : Memory) (a' : Int), m.TextAt a bs → m'.TextAt a' bs →
    m'.loadText a' = m.loadText a

lemma readAsText (m : Memory) (a : Int) : m.ReadAsText a := by
  refine ⟨loadText_outside, loadText_endless, ?_, ?_⟩
  · intro h0 i hi hz
    obtain ⟨bs, hbs⟩ := exists_textAt h0 hi hz
    exact ⟨bs, hbs, hbs.loadText⟩
  · intro bs m' a' h h'
    rw [h.loadText, h'.loadText]

end Memory

/-- A text can be stored exactly where its bytes and a zero lie in memory, and it is read back up to its
first NUL. Reading fails only outside of memory and where no zero follows. -/
theorem text_round_trip (m : Memory) (a : Int) (s : String) :
    ((∃ m', m.storeText a s.toUTF8.data.toList = .ok m') ↔ 0 ≤ a ∧ a + s.utf8ByteSize + 1 ≤ m.size) ∧
    (¬(0 ≤ a ∧ a + s.utf8ByteSize + 1 ≤ m.size) →
      m.storeText a s.toUTF8.data.toList = .error (.addressOutOfBounds a) ∧
      m.after (m.storeText a s.toUTF8.data.toList) = m) ∧
    (∀ m', m.storeText a s.toUTF8.data.toList = .ok m' → m.TextStored a s m') ∧
    (∀ address : Word, address.toInt = a → m.size < 18446744073709551616 →
      s.utf8ByteSize < wordBound →
      ((∃ stop, address.spanEnd? (.ofNat (s.utf8ByteSize + 1)) = some stop ∧
        (stop.toNat : Int) ≤ m.size) ↔ 0 ≤ a ∧ a + s.utf8ByteSize + 1 ≤ m.size)) ∧
    m.ReadAsText a := by
  have hholds : m.holds a (s.utf8ByteSize + 1) = true ↔ 0 ≤ a ∧ a + s.utf8ByteSize + 1 ≤ m.size :=
    m.storeText_holds a s.toUTF8.data.toList
  refine ⟨?_, ?_, ?_, ?_, m.readAsText a⟩
  · rw [← hholds]
    constructor
    · rintro ⟨m', hm'⟩
      exact (Memory.storeText_ok.mp hm').1
    · intro h
      exact ⟨_, Memory.storeText_ok.mpr ⟨h, rfl⟩⟩
  · rw [← hholds]
    intro h
    have herror : m.storeText a s.toUTF8.data.toList = .error (.addressOutOfBounds a) := if_neg h
    rw [herror]
    exact ⟨rfl, rfl⟩
  · intro m' hm'
    obtain ⟨h, rfl⟩ := Memory.storeText_ok.mp hm'
    exact Memory.textStored_write s h
  · rintro address rfl hm hs
    have hn : (UInt64.ofNat (s.utf8ByteSize + 1)).toNat = s.utf8ByteSize + 1 := by
      have hbound := wordBound_eq
      rw [UInt64.toNat_ofNat']
      omega
    rw [← hholds, ← Memory.holds_iff_spanEnd? hm, hn]

end BlockLang
