import BlockLang.Machine.Memory
import Mathlib.Data.List.TakeWhile
import Mathlib.Tactic.SplitIfs

/-! Reading back what was written as UTF-8. The decoder gives each encoded character as it was, and no
character but NUL has a zero among its bytes, so a text in memory ends where its first NUL was. -/

namespace BlockLang

namespace Utf8

variable {v k : Nat}

/-! First bytes. `v` is the code point. -/

lemma Pending.ofLead?_two (h : 128 ≤ v) (hv : v < 2048) :
    ofLead? (UInt8.ofNat (v / 64 % 32 + 192)) = some ⟨v / 64, 1, 0x80, 0xBF⟩ := by
  have hb : (UInt8.ofNat (v / 64 % 32 + 192)).toNat = v / 64 + 192 := by
    rw [UInt8.toNat_ofNat']
    omega
  simp only [ofLead?, UInt8.lt_iff_toNat_lt, hb, UInt8.reduceToNat]
  rw [if_neg (by omega), if_pos (by omega)]
  congr 2
  omega

lemma Pending.ofLead?_three (hv : v < 65536) :
    ofLead? (UInt8.ofNat (v / 4096 % 16 + 224)) =
      some ⟨v / 4096, 2, if v < 4096 then 0xA0 else 0x80, if v / 4096 = 13 then 0x9F else 0xBF⟩ := by
  have hb : (UInt8.ofNat (v / 4096 % 16 + 224)).toNat = v / 4096 + 224 := by
    rw [UInt8.toNat_ofNat']
    omega
  simp only [ofLead?, UInt8.lt_iff_toNat_lt, ← UInt8.toNat_inj, hb, UInt8.reduceToNat]
  rw [if_neg (by omega), if_neg (by omega), if_pos (by omega)]
  congr 2
  · omega
  · exact if_congr (by omega) rfl rfl
  · exact if_congr (by omega) rfl rfl

lemma Pending.ofLead?_four (hv : v < 1114112) :
    ofLead? (UInt8.ofNat (v / 262144 % 8 + 240)) =
      some ⟨v / 262144, 3, if v < 262144 then 0x90 else 0x80,
        if v / 262144 = 4 then 0x8F else 0xBF⟩ := by
  have hb : (UInt8.ofNat (v / 262144 % 8 + 240)).toNat = v / 262144 + 240 := by
    rw [UInt8.toNat_ofNat']
    omega
  simp only [ofLead?, UInt8.lt_iff_toNat_lt, ← UInt8.toNat_inj, hb, UInt8.reduceToNat]
  rw [if_neg (by omega), if_neg (by omega), if_neg (by omega), if_pos (by omega)]
  congr 2
  · omega
  · exact if_congr (by omega) rfl rfl
  · exact if_congr (by omega) rfl rfl

namespace Decoder

variable {out : String} {p : Pending}

lemma step_none (b : UInt8) : step ⟨out, none⟩ b = start ⟨out, none⟩ b := rfl

lemma start_lead {b : UInt8} (h : Pending.ofLead? b = some p) : start ⟨out, none⟩ b = ⟨out, some p⟩ := by
  have hb : ¬ b < 0x80 := by
    intro hlt
    have hlow : b < 0xC2 := by
      rw [UInt8.lt_iff_toNat_lt] at hlt ⊢
      exact hlt.trans (by decide)
    rw [Pending.ofLead?, if_pos hlow] at h
    cases h
  rw [start, if_neg hb, h]

lemma step_some (hk : k < 64) (hlo : p.low.toNat ≤ k + 128) (hhi : k + 128 ≤ p.high.toNat) :
    step ⟨out, some p⟩ (UInt8.ofNat (k + 128)) =
      if p.missing - 1 = 0 then ⟨out.push (Char.ofNat (p.value * 64 + k)), none⟩
      else ⟨out, some ⟨p.value * 64 + k, p.missing - 1, 0x80, 0xBF⟩⟩ := by
  have hb : (UInt8.ofNat (k + 128)).toNat = k + 128 := by
    rw [UInt8.toNat_ofNat']
    omega
  have hin : (p.low ≤ UInt8.ofNat (k + 128) && UInt8.ofNat (k + 128) ≤ p.high) = true := by
    simp only [Bool.and_eq_true, decide_eq_true_eq, UInt8.le_iff_toNat_le, hb]
    exact ⟨hlo, hhi⟩
  have hk : (k + 128) % 64 = k := by omega
  simp only [step, hin, if_true, Pending.extend, hb, hk, emit]

lemma step_last (hk : k < 64) (hm : p.missing = 1) (hlo : p.low.toNat ≤ k + 128)
    (hhi : k + 128 ≤ p.high.toNat) :
    step ⟨out, some p⟩ (UInt8.ofNat (k + 128)) =
      ⟨out.push (Char.ofNat (p.value * 64 + k)), none⟩ := by
  rw [step_some hk hlo hhi, if_pos (by omega)]

lemma step_more (hk : k < 64) (hm : 1 < p.missing) (hlo : p.low.toNat ≤ k + 128)
    (hhi : k + 128 ≤ p.high.toNat) :
    step ⟨out, some p⟩ (UInt8.ofNat (k + 128)) =
      ⟨out, some ⟨p.value * 64 + k, p.missing - 1, 0x80, 0xBF⟩⟩ := by
  rw [step_some hk hlo hhi, if_neg (by omega)]

lemma foldl_one (hv : v < 128) :
    [UInt8.ofNat v].foldl step ⟨out, none⟩ = ⟨out.push (Char.ofNat v), none⟩ := by
  have hb : (UInt8.ofNat v).toNat = v := by
    rw [UInt8.toNat_ofNat']
    omega
  have hlt : UInt8.ofNat v < 0x80 := by
    rw [UInt8.lt_iff_toNat_lt, hb]
    exact hv
  rw [List.foldl_cons, List.foldl_nil, step_none, start, if_pos hlt, hb]
  rfl

lemma foldl_two (h : 128 ≤ v) (hv : v < 2048) :
    [UInt8.ofNat (v / 64 % 32 + 192), UInt8.ofNat (v % 64 + 128)].foldl step ⟨out, none⟩ =
      ⟨out.push (Char.ofNat v), none⟩ := by
  have hvalue : v / 64 * 64 + v % 64 = v := by omega
  simp only [List.foldl_cons, List.foldl_nil, step_none, start_lead (Pending.ofLead?_two h hv)]
  rw [step_last (by omega) rfl (by simp) (by simp; omega), hvalue]

lemma foldl_three (h : 2048 ≤ v) (hv : v < 65536) (hs : v < 0xD800 ∨ 0xDFFF < v) :
    [UInt8.ofNat (v / 4096 % 16 + 224), UInt8.ofNat (v / 64 % 64 + 128),
      UInt8.ofNat (v % 64 + 128)].foldl step ⟨out, none⟩ = ⟨out.push (Char.ofNat v), none⟩ := by
  have hlo : (if v < 4096 then 0xA0 else 0x80 : UInt8).toNat ≤ v / 64 % 64 + 128 := by
    split_ifs
    · simp
      omega
    · simp
  have hhi : v / 64 % 64 + 128 ≤ (if v / 4096 = 13 then 0x9F else 0xBF : UInt8).toNat := by
    split_ifs <;> simp <;> omega
  have hvalue : (v / 4096 * 64 + v / 64 % 64) * 64 + v % 64 = v := by omega
  simp only [List.foldl_cons, List.foldl_nil, step_none, start_lead (Pending.ofLead?_three hv)]
  rw [step_more (by omega) (by simp) hlo hhi, step_last (by omega) rfl (by simp) (by simp; omega),
    hvalue]

lemma foldl_four (h : 65536 ≤ v) (hv : v < 0x110000) :
    [UInt8.ofNat (v / 262144 % 8 + 240), UInt8.ofNat (v / 4096 % 64 + 128),
      UInt8.ofNat (v / 64 % 64 + 128), UInt8.ofNat (v % 64 + 128)].foldl step ⟨out, none⟩ =
        ⟨out.push (Char.ofNat v), none⟩ := by
  have hlo : (if v < 262144 then 0x90 else 0x80 : UInt8).toNat ≤ v / 4096 % 64 + 128 := by
    split_ifs
    · simp
      omega
    · simp
  have hhi : v / 4096 % 64 + 128 ≤ (if v / 262144 = 4 then 0x8F else 0xBF : UInt8).toNat := by
    split_ifs <;> simp <;> omega
  have hvalue : ((v / 262144 * 64 + v / 4096 % 64) * 64 + v / 64 % 64) * 64 + v % 64 = v := by omega
  simp only [List.foldl_cons, List.foldl_nil, step_none, start_lead (Pending.ofLead?_four hv)]
  rw [step_more (by omega) (by simp) hlo hhi,
    step_more (by omega) (by simp) (by simp) (by simp; omega),
    step_last (by omega) rfl (by simp) (by simp; omega), hvalue]

lemma foldl_utf8EncodeChar (out : String) (c : Char) :
    (String.utf8EncodeChar c).foldl step ⟨out, none⟩ = ⟨out.push c, none⟩ := by
  have hc : Char.ofNat c.val.toNat = c := Char.ofNat_toNat c
  have hvalid : c.val.toNat < 0xD800 ∨ 0xDFFF < c.val.toNat ∧ c.val.toNat < 0x110000 := c.valid
  unfold String.utf8EncodeChar
  generalize c.val.toNat = v at hc hvalid
  dsimp only
  rw [← hc]
  split_ifs
  · exact foldl_one (by omega)
  · exact foldl_two (by omega) (by omega)
  · exact foldl_three (by omega) (by omega) (by omega)
  · exact foldl_four (by omega) (by omega)

lemma foldl_flatMap (out : String) (cs : List Char) :
    (cs.flatMap String.utf8EncodeChar).foldl step ⟨out, none⟩ = ⟨out ++ String.ofList cs, none⟩ := by
  induction cs generalizing out with
  | nil => simp
  | cons c cs ih =>
    rw [List.flatMap_cons, List.foldl_append, foldl_utf8EncodeChar, ih, String.ofList_cons,
      String.push_eq_append, String.append_assoc]

end Decoder

lemma decode_flatMap (cs : List Char) :
    decode (cs.flatMap String.utf8EncodeChar).toArray = String.ofList cs := by
  rw [decode, ← Array.foldl_toList, Decoder.foldl_flatMap, Decoder.finish]
  exact String.empty_append

lemma zero_mem_utf8EncodeChar {c : Char} : 0 ∈ String.utf8EncodeChar c ↔ c = '\x00' := by
  have hvalid : c.val.toNat < 0xD800 ∨ 0xDFFF < c.val.toNat ∧ c.val.toNat < 0x110000 := c.valid
  have hzero : c = '\x00' ↔ c.val.toNat = 0 := by
    rw [← Char.val_inj, ← UInt32.toNat_inj]
    rfl
  rw [hzero]
  unfold String.utf8EncodeChar
  generalize c.val.toNat = v at hvalid
  dsimp only
  split_ifs <;>
    simp only [List.mem_cons, List.not_mem_nil, or_false, ← UInt8.toNat_inj, UInt8.toNat_ofNat',
      UInt8.reduceToNat] <;> omega

lemma takeWhile_flatMap (cs : List Char) :
    (cs.flatMap String.utf8EncodeChar).takeWhile (· ≠ 0) =
      (cs.takeWhile (· ≠ '\x00')).flatMap String.utf8EncodeChar := by
  induction cs with
  | nil => rfl
  | cons c cs ih =>
    rw [List.flatMap_cons]
    by_cases hc : c = '\x00'
    · subst hc
      rfl
    · have hne : ∀ b ∈ String.utf8EncodeChar c, decide (b ≠ 0) = true := by
        intro b hb
        refine decide_eq_true fun h0 => hc (zero_mem_utf8EncodeChar.mp (h0 ▸ hb))
      rw [List.takeWhile_append_of_pos hne, ih, List.takeWhile_cons_of_pos (by simpa using hc),
        List.flatMap_cons]

lemma toList_toUTF8 (s : String) : s.toUTF8.data.toList = s.toList.flatMap String.utf8EncodeChar := by
  have h : (String.ofList s.toList).toUTF8.data.toList = s.toList.flatMap String.utf8EncodeChar := by
    rw [String.toUTF8_eq_toByteArray, String.toByteArray_ofList, List.utf8Encode,
      List.data_toByteArray]
  rwa [String.ofList_toList] at h

end Utf8

namespace Memory

variable {bytes : Array UInt8} {pre rest : List UInt8}

lemma storeText_ok {m m' : Memory} {a : Int} {text : List UInt8} :
    m.storeText a text = .ok m' ↔
      m.holds a (text.length + 1) = true ∧ m' = m.write a (text ++ [0]) := by
  unfold storeText
  by_cases h : m.holds a (text.length + 1) = true
  · simp [h, eq_comm]
  · simp [h]

lemma findZero_eq {n : Nat} (hn : n ≤ bytes.size) : findZero bytes n =
    ((bytes.toList.drop (bytes.size - n)).findIdx? (· = 0)).map (bytes.size - n + ·) := by
  induction n with
  | zero =>
    rw [List.drop_eq_nil_of_le (by simp)]
    rfl
  | succ n ih =>
    have hlt : bytes.size - (n + 1) < bytes.size := by omega
    have hnext : bytes.size - (n + 1) + 1 = bytes.size - n := by omega
    have hget : bytes.getD (bytes.size - (n + 1)) 0 = bytes[bytes.size - (n + 1)] := by
      simp [Array.getD, hlt]
    have hdrop : bytes.toList.drop (bytes.size - (n + 1)) =
        bytes[bytes.size - (n + 1)] :: bytes.toList.drop (bytes.size - n) := by
      rw [List.drop_eq_getElem_cons (by simpa using hlt), hnext, Array.getElem_toList]
    rw [findZero, hget, ih (by omega), hdrop, List.findIdx?_cons]
    by_cases hb : bytes[bytes.size - (n + 1)] = 0
    · simp [hb]
    · simp [hb, Function.comp_def, ← hnext, Nat.add_assoc, Nat.add_comm 1]

lemma findIdx?_zero {bs : List UInt8} (h : 0 ∉ bs) : bs.findIdx? (· = 0) = none := by
  rw [List.findIdx?_eq_none_iff]
  intro b hb
  exact decide_eq_false fun he => h (he ▸ hb)

lemma findZero_of_drop {n : Nat} (hn : n ≤ bytes.size)
    (h : bytes.toList.drop (bytes.size - n) = pre ++ 0 :: rest) (h0 : 0 ∉ pre) :
    findZero bytes n = some (bytes.size - n + pre.length) := by
  rw [findZero_eq hn, h, List.findIdx?_append, findIdx?_zero h0, List.findIdx?_cons]
  simp

lemma loadText_of_drop {m : Memory} {a : Nat} (h : m.bytes.toList.drop a = pre ++ 0 :: rest)
    (h0 : 0 ∉ pre) : m.loadText a = .ok (Utf8.decode pre.toArray) := by
  have hlt : a < m.bytes.size := by
    have hlen := congrArg List.length h
    simp at hlen
    omega
  have hholds : m.holds a 0 = true := by
    simp [holds, Memory.size]
    omega
  have hsize : m.bytes.size - (m.bytes.size - a) = a := by omega
  have hzero : findZero m.bytes (m.bytes.size - a) = some (a + pre.length) := by
    have hfind := findZero_of_drop (n := m.bytes.size - a) (Nat.sub_le _ _) (by rwa [hsize]) h0
    rwa [hsize] at hfind
  have htext : m.bytes.extract a (a + pre.length) = pre.toArray := by
    apply Array.toList_inj.mp
    rw [Array.toList_extract, List.extract_eq_take_drop, h]
    simp
  rw [loadText, if_pos hholds, Int.toNat_natCast, hzero]
  simp only [htext]

lemma exists_append_zero (bs rest : List UInt8) :
    ∃ rest', bs ++ 0 :: rest = bs.takeWhile (· ≠ 0) ++ 0 :: rest' := by
  induction bs with
  | nil => exact ⟨rest, rfl⟩
  | cons b bs ih =>
    by_cases hb : b = 0
    · subst hb
      exact ⟨bs ++ 0 :: rest, rfl⟩
    · obtain ⟨rest', h⟩ := ih
      exact ⟨rest', by simp [hb, h]⟩

lemma loadText_eq {m : Memory} {a : Nat} {s : String}
    (h : m.bytes.toList.drop a = s.toUTF8.data.toList ++ 0 :: rest) :
    m.loadText a = .ok (String.ofList (s.toList.takeWhile (· ≠ '\x00'))) := by
  obtain ⟨rest', hrest⟩ := exists_append_zero s.toUTF8.data.toList rest
  rw [hrest] at h
  have h0 : 0 ∉ s.toUTF8.data.toList.takeWhile (· ≠ 0) := by
    intro hm
    simpa using List.mem_takeWhile_imp hm
  rw [loadText_of_drop h h0, Utf8.toList_toUTF8, Utf8.takeWhile_flatMap, Utf8.decode_flatMap]

end Memory

end BlockLang
