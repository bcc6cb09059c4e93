import BlockLang.Proofs.Loading
import BlockLang.Proofs.StoredText
import BlockLang.Proofs.Words
import Mathlib.Data.List.Pairwise

/-! The static memory of a loaded program. Strings and globals get regions of whole words, one after the
other from the second word of memory on. Each string is in its region, with a zero at its end, and all
other bytes are zero. -/

namespace BlockLang

open Code

namespace Code.Chunk

variable {c : Chunk} {m m' : Memory} {size s a : Int} {l : Label}

def initial : Chunk → List UInt8
  | .data _ text => text.toUTF8.data.toList
  | .code _ _ | .global _ => []

def LiesAt (c : Chunk) (m : Memory) (size a : Int) : Prop :=
  ∃ l, c.static? = some (size, l) ∧ m.addressOf? l = some a

lemma not_liesAt (h : c.static? = none) : ¬ c.LiesAt m size a := by
  rintro ⟨l, hl, -⟩
  rw [h] at hl
  cases hl

lemma length_initial (access : Access) (text : String) :
    (initial (.data access text)).length = text.utf8ByteSize := rfl

lemma initial_lt (hc : c.static? = some (size, l))
    (hsize : ∀ access text, c = .data access text → access.size = text.utf8ByteSize + 1) :
    c.initial.length < max size 8 := by
  match c with
  | .data (.global size' l') text =>
    obtain ⟨rfl, rfl⟩ : size' = size ∧ l' = l := by simpa [static?] using hc
    have hsize' : size' = text.utf8ByteSize + 1 := hsize _ _ rfl
    rw [length_initial]
    omega
  | .global (.global size' l') =>
    have hlength : (initial (.global (.global size' l'))).length = 0 := rfl
    omega

lemma LiesAt.unique {size' a' : Int} (h : c.LiesAt m size a) (h' : c.LiesAt m size' a') :
    size = size' ∧ a = a' := by
  obtain ⟨l, hl, ha⟩ := h
  obtain ⟨l', hl', ha'⟩ := h'
  obtain ⟨rfl, rfl⟩ := Prod.mk.inj (Option.some.inj (hl.symm.trans hl'))
  exact ⟨rfl, Option.some.inj (ha.symm.trans ha')⟩

lemma liesAt_takes_self (hc : c.static? = some (size, l)) (ht : m.Takes size l m') :
    c.LiesAt m' s a ↔ s = size ∧ a = m.staticEnd := by
  have hnew : m'.addressOf? l = some m.staticEnd := by
    rw [Memory.addressOf?, ht.labels, Std.TreeMap.getElem?_insert_self]
  constructor
  · intro h
    exact h.unique ⟨l, hc, hnew⟩
  · rintro ⟨rfl, rfl⟩
    exact ⟨l, hc, hnew⟩

lemma liesAt_takes_of_ne (hc : ∀ size', c.static? ≠ some (size', l)) (ht : m.Takes size l m') :
    c.LiesAt m' s a ↔ c.LiesAt m s a := by
  have hother : ∀ l', c.static? = some (s, l') → m'.addressOf? l' = m.addressOf? l' := by
    intro l' hl'
    have hne : l ≠ l' := fun he => hc s (he ▸ hl')
    rw [Memory.addressOf?, ht.labels, Std.TreeMap.getElem?_insert, if_neg (by simpa using hne)]
    rfl
  constructor
  · rintro ⟨l', hl', ha⟩
    exact ⟨l', hl', hother l' hl' ▸ ha⟩
  · rintro ⟨l', hl', ha⟩
    exact ⟨l', hl', (hother l' hl').trans ha⟩

def Apart (m : Memory) (c c' : Chunk) : Prop :=
  ∀ size a size' a', c.LiesAt m size a → c'.LiesAt m size' a' →
    a + max size 8 ≤ a' ∨ a' + max size' 8 ≤ a

instance : Std.Symm (Apart m) :=
  ⟨fun _ _ h size a size' a' hc hc' => (h size' a' size a hc' hc).symm⟩

end Code.Chunk

namespace Image

open Chunk

variable {state state' : Std.TreeMap Label Routine × Memory} {chunks : List Chunk}

lemma loadChunk_bytes {c : Chunk} {size : Int} {l : Label} (hc : c.static? = some (size, l))
    (h : loadChunk state c = .ok state') (h0 : 0 ≤ state.2.staticEnd)
    (hz : ∀ i : Nat, state.2.staticEnd ≤ i → i < state.2.bytes.size → state.2.bytes[i]? = some 0)
    (i : Nat) :
    state'.2.bytes[i]? =
      if state.2.staticEnd ≤ i ∧ i < state.2.staticEnd + c.initial.length then
        c.initial[i - state.2.staticEnd.toNat]?
      else state.2.bytes[i]? := by
  match c with
  | .data (.global size' l') text =>
    obtain ⟨a, m, ha, hs, -⟩ := loadChunk_data_ok.mp h
    obtain ⟨-, rfl, rfl⟩ := Memory.allocate_ok.mp ha
    obtain ⟨hholds, hm⟩ := Memory.storeText_ok.mp hs
    obtain ⟨-, hend⟩ := Memory.holds_iff.mp hholds
    have htext : initial (.data (.global size' l') text) = text.toUTF8.data.toList := rfl
    rw [← htext] at hm hend
    generalize initial (.data (.global size' l') text) = bytes at *
    simp only [Memory.size] at hend
    rw [hm, Memory.write, Memory.getElem?_setBytes, List.length_append, List.length_singleton]
    dsimp only at *
    by_cases hin : state.2.staticEnd ≤ i ∧ i < state.2.staticEnd + bytes.length
    · rw [if_pos hin, if_pos (by omega), List.getElem?_append_left (by omega)]
    · rw [if_neg hin]
      split
      · next hzero =>
        have hi : i - state.2.staticEnd.toNat = bytes.length := by omega
        rw [hi, List.getElem?_append_right (Nat.le_refl _), Nat.sub_self,
          hz i (by omega) (by omega)]
        rfl
      · rfl
  | .global (.global size' l') =>
    obtain ⟨a, ha, -⟩ := loadChunk_global_ok.mp h
    obtain ⟨-, -, hm⟩ := Memory.allocate_ok.mp ha
    rw [hm, if_neg (by simp [initial])]

structure Placed (chunks : List Chunk) (m : Memory) : Prop where
  start : 8 ≤ m.staticEnd
  aligned : m.staticEnd % 8 = 0
  fits : m.staticEnd ≤ m.size ∨ (∀ c ∈ chunks, c.static? = none) ∧ m.staticEnd = 8
  address : ∀ c ∈ chunks, (∃ frame body, c = .code frame body) ∨ ∃ size a, c.LiesAt m size a
  region : ∀ c ∈ chunks, ∀ size a, c.LiesAt m size a →
    8 ≤ a ∧ a % 8 = 0 ∧ c.initial.length < max size 8 ∧ a + max size 8 ≤ m.staticEnd
  apart : chunks.Pairwise (Apart m)
  text : ∀ c ∈ chunks, ∀ size a, c.LiesAt m size a → ∀ k < c.initial.length,
    m.bytes[a.toNat + k]? = c.initial[k]?
  zero : ∀ i < m.bytes.size, (∀ c ∈ chunks, ∀ size a, c.LiesAt m size a →
    ¬ (a ≤ i ∧ i < a + c.initial.length)) → m.bytes[i]? = some 0

namespace Placed

variable {m : Memory}

lemma nil (n : Nat) : Placed [] (Memory.new n) := by
  refine ⟨Int.le_refl _, rfl, .inr ⟨by simp, rfl⟩, by simp, by simp, .nil, by simp,
    fun i hi _ => ?_⟩
  have hlt : i < n := by simpa [Memory.new] using hi
  simp [Memory.new, hlt]

lemma zero_above (h : Placed chunks m) {i : Nat} (hi : m.staticEnd ≤ i) (hs : i < m.bytes.size) :
    m.bytes[i]? = some 0 := by
  refine h.zero i hs fun c hc size a hl => ?_
  have hr := h.region c hc size a hl
  omega

lemma code (h : Placed chunks m) (frame : Frame) (body : Stm) :
    Placed (chunks ++ [.code frame body]) m := by
  have hno : ∀ size a, ¬ (Chunk.code frame body).LiesAt m size a := fun _ _ => not_liesAt rfl
  have hold : ∀ c ∈ chunks ++ [.code frame body], ∀ size a, c.LiesAt m size a → c ∈ chunks := by
    intro c hc size a hl
    rcases List.mem_append.mp hc with hc | hc
    · exact hc
    · exact (hno size a (List.mem_singleton.mp hc ▸ hl)).elim
  refine ⟨h.start, h.aligned, ?_,
    List.forall_mem_append.mpr ⟨h.address, List.forall_mem_singleton.mpr (.inl ⟨frame, body, rfl⟩)⟩,
    fun c hc size a hl => h.region c (hold c hc size a hl) size a hl, ?_,
    fun c hc size a hl => h.text c (hold c hc size a hl) size a hl,
    fun i hi hout => h.zero i hi fun c hc => hout c (List.mem_append_left _ hc)⟩
  · rcases h.fits with hfits | ⟨hnone, hend⟩
    · exact .inl hfits
    · exact .inr ⟨List.forall_mem_append.mpr ⟨hnone, List.forall_mem_singleton.mpr rfl⟩, hend⟩
  · refine List.pairwise_append.mpr ⟨h.apart, List.pairwise_singleton _ _, ?_⟩
    intro c _ c' hc' size a size' a' _ hl'
    exact (hno size' a' (List.mem_singleton.mp hc' ▸ hl')).elim

lemma snoc (h : Placed chunks state.2) {c : Chunk} {size : Int} {l : Label}
    (hc : c.static? = some (size, l)) (hlen : c.initial.length < max size 8)
    (hnew : ∀ c' ∈ chunks, ∀ size', c'.static? ≠ some (size', l))
    (hs : loadChunk state c = .ok state') : Placed (chunks ++ [c]) state'.2 := by
  have ht := (loadChunk_static hc hs).2
  have hself : ∀ {s a}, c.LiesAt state'.2 s a ↔ s = size ∧ a = state.2.staticEnd :=
    liesAt_takes_self hc ht
  have hother : ∀ {c'}, c' ∈ chunks → ∀ {s a}, c'.LiesAt state'.2 s a ↔ c'.LiesAt state.2 s a :=
    fun hc' => liesAt_takes_of_ne (hnew _ hc') ht
  have hstart := h.start
  have hgrow : state.2.staticEnd + max size 8 ≤ state'.2.staticEnd ∧ state'.2.staticEnd % 8 = 0 := by
    have haligned := h.aligned
    rw [ht.staticEnd, Memory.nextEnd]
    split <;> omega
  have hbytes := loadChunk_bytes hc hs (by omega) fun i => h.zero_above
  have hsize : state'.2.bytes.size = state.2.bytes.size := by
    have hsize := ht.size_eq
    simp only [Memory.size] at hsize
    omega
  refine ⟨by omega, hgrow.2, .inl ht.fits, ?_, ?_, ?_, ?_, fun i hi hout => ?_⟩
  · intro c' hc'
    rcases List.mem_append.mp hc' with hc' | hc'
    · rcases h.address c' hc' with hcode | ⟨s, a, hl⟩
      · exact .inl hcode
      · exact .inr ⟨s, a, (hother hc').mpr hl⟩
    · obtain rfl := List.mem_singleton.mp hc'
      exact .inr ⟨size, state.2.staticEnd, hself.mpr ⟨rfl, rfl⟩⟩
  · intro c' hc' s a hl
    rcases List.mem_append.mp hc' with hc' | hc'
    · have hregion := h.region c' hc' s a ((hother hc').mp hl)
      omega
    · obtain rfl := List.mem_singleton.mp hc'
      obtain ⟨rfl, rfl⟩ := hself.mp hl
      exact ⟨hstart, h.aligned, hlen, hgrow.1⟩
  · refine List.pairwise_append.mpr ⟨?_, List.pairwise_singleton _ _, ?_⟩
    · refine h.apart.imp_of_mem fun hc₁ hc₂ hapart size₁ a₁ size₂ a₂ hl₁ hl₂ => ?_
      exact hapart size₁ a₁ size₂ a₂ ((hother hc₁).mp hl₁) ((hother hc₂).mp hl₂)
    · -- the new region begins where all others have ended
      intro c₁ hc₁ c₂ hc₂ size₁ a₁ size₂ a₂ hl₁ hl₂
      obtain rfl := List.mem_singleton.mp hc₂
      obtain ⟨-, rfl⟩ := hself.mp hl₂
      exact .inl (h.region c₁ hc₁ size₁ a₁ ((hother hc₁).mp hl₁)).2.2.2
  · intro c' hc' s a hl k hk
    rw [hbytes]
    rcases List.mem_append.mp hc' with hc' | hc'
    · have hl := (hother hc').mp hl
      have hregion := h.region c' hc' s a hl
      rw [if_neg (by omega), h.text c' hc' s a hl k hk]
    · obtain rfl := List.mem_singleton.mp hc'
      obtain ⟨rfl, rfl⟩ := hself.mp hl
      rw [if_pos (by omega), Nat.add_sub_cancel_left]
  · have hnot := hout c (by simp) size state.2.staticEnd (hself.mpr ⟨rfl, rfl⟩)
    rw [hbytes, if_neg hnot]
    refine h.zero i (hsize ▸ hi) fun c' hc' s a hl => ?_
    exact hout c' (List.mem_append_left _ hc') s a ((hother hc').mpr hl)

lemma within (h : Placed chunks m) {c : Chunk} (hc : c ∈ chunks) {size a : Int}
    (hl : c.LiesAt m size a) : a + max size 8 ≤ m.size := by
  have hregion := h.region c hc size a hl
  rcases h.fits with hfits | ⟨hnone, -⟩
  · omega
  · exact (not_liesAt (hnone c hc) hl).elim

lemma zero_behind (h : Placed chunks m) {c : Chunk} (hc : c ∈ chunks) {size a : Int}
    (hl : c.LiesAt m size a) {i : Nat} (hlo : a + c.initial.length ≤ i) (hhi : i < a + max size 8) :
    m.bytes[i]? = some 0 := by
  have hregion := h.region c hc size a hl
  have hwithin := h.within hc hl
  simp only [Memory.size] at hwithin
  refine h.zero i (by omega) fun c' hc' size' a' hl' => ?_
  by_cases he : c = c'
  · subst he
    obtain ⟨rfl, rfl⟩ := hl.unique hl'
    omega
  · have hregion' := h.region c' hc' size' a' hl'
    have hapart := h.apart.forall hc hc' he size a size' a' hl hl'
    omega

lemma drop_eq (h : Placed chunks m) {c : Chunk} (hc : c ∈ chunks) {size a : Int}
    (hl : c.LiesAt m size a) : ∃ rest, m.bytes.toList.drop a.toNat = c.initial ++ 0 :: rest := by
  have hregion := h.region c hc size a hl
  refine ⟨m.bytes.toList.drop (a.toNat + c.initial.length + 1), List.ext_getElem? fun k => ?_⟩
  rw [List.getElem?_drop, Array.getElem?_toList]
  rcases Nat.lt_trichotomy k c.initial.length with hk | rfl | hk
  · rw [List.getElem?_append_left hk, h.text c hc size a hl k hk]
  · rw [List.getElem?_append_right (Nat.le_refl _), Nat.sub_self,
      h.zero_behind hc hl (by omega) (by omega)]
    rfl
  · obtain ⟨j, rfl⟩ := Nat.exists_eq_add_of_lt hk
    rw [List.getElem?_append_right (by omega), Nat.add_assoc c.initial.length, Nat.add_sub_cancel_left,
      List.getElem?_cons_succ, List.getElem?_drop, Array.getElem?_toList]
    congr 1
    omega

lemma loadText (h : Placed chunks m) {access : Access} {text : String}
    (hc : .data access text ∈ chunks) {size a : Int} (hl : (Chunk.data access text).LiesAt m size a) :
    m.loadText a = .ok (String.ofList (text.toList.takeWhile (· ≠ '\x00'))) := by
  have hregion := h.region _ hc size a hl
  obtain ⟨rest, hdrop⟩ := h.drop_eq hc hl
  rw [← Int.toNat_of_nonneg (show 0 ≤ a by omega)]
  exact Memory.loadText_eq hdrop

lemma zero_of_texts (h : Placed chunks m) {i : Nat} (hi : i < m.bytes.size)
    (hout : ∀ (access : Access) (text : String), .data access text ∈ chunks → ∀ size a,
      (Chunk.data access text).LiesAt m size a → ¬ (a ≤ i ∧ i < a + text.utf8ByteSize)) :
    m.bytes[i]? = some 0 := by
  refine h.zero i hi fun c hc size a hl => ?_
  match c with
  | .data access text => exact hout access text hc size a hl
  | .global access =>
    have hlength : (Chunk.global access).initial.length = 0 := rfl
    omega
  | .code frame body => exact (not_liesAt rfl hl).elim

lemma zero_global (h : Placed chunks m) {access : Access} (hc : .global access ∈ chunks) {size a : Int}
    (hl : (Chunk.global access).LiesAt m size a) {i : Nat} (hlo : a ≤ i) (hhi : i < a + max size 8) :
    m.bytes[i]? = some 0 := by
  have hlength : (Chunk.global access).initial.length = 0 := rfl
  exact h.zero_behind hc hl (by omega) hhi

lemma load_global (h : Placed chunks m) {access : Access} (hc : .global access ∈ chunks) {size a : Int}
    (hl : (Chunk.global access).LiesAt m size a) : m.load a = .ok 0 := by
  have hregion := h.region _ hc size a hl
  have hwithin := h.within hc hl
  refine Memory.load_of_zero (Memory.holds_iff.mpr (by omega)) fun k hk => ?_
  rw [Array.getD_eq_getD_getElem?, h.zero_global hc hl (by omega) (by omega)]
  rfl

end Placed

variable {code : Code.Program} {setup : Setup} {image : Image} {m : Machine}

lemma placed_of_load (hl : load code setup = .ok (image, m))
    (hlabels : ((code.chunks.filterMap Chunk.static?).map Prod.snd).Nodup)
    (hsizes : ∀ (access : Access) (text : String), .data access text ∈ code.chunks →
      access.size = text.utf8ByteSize + 1) :
    Placed code.chunks m.memory := by
  obtain ⟨memory, hf, -, rfl⟩ := load_ok.mp hl
  -- the labels are distinct in every part of the program that has been loaded
  refine foldlM_ok (d := [])
    (fun done state => ((done.filterMap Chunk.static?).map Prod.snd).Nodup → Placed done state.2)
    (fun done c state state' hc hplaced hstep hn => ?_) (fun _ => .nil setup.memorySize) hf hlabels
  rw [List.filterMap_append, List.map_append, List.nodup_append] at hn
  have hplaced := hplaced hn.1
  rcases isLoadable_cases (isLoadable_of_loadChunk hstep) with ⟨frame, body, rfl⟩ | ⟨size, l, hs⟩
  · obtain ⟨r, -, rfl⟩ := loadChunk_code_ok.mp hstep
    exact hplaced.code frame body
  · refine hplaced.snoc hs (initial_lt hs ?_) (fun c' hc' size' hs' => ?_) hstep
    · rintro access text rfl
      exact hsizes access text hc
    · refine hn.2.2 l ?_ l ?_ rfl
      · exact List.mem_map.mpr ⟨(size', l), List.mem_filterMap.mpr ⟨c', hc', hs'⟩, rfl⟩
      · exact List.mem_map.mpr ⟨(size, l), List.mem_filterMap.mpr ⟨c, by simp, hs⟩, rfl⟩

end Image

/-- The static memory of a program with given chunks. -/
structure StaticImage (chunks : List Chunk) (m : Memory) : Prop where
  address : ∀ c ∈ chunks, (∃ frame body, c = .code frame body) ∨ ∃ size a, c.LiesAt m size a
  inside : ∀ c ∈ chunks, ∀ size a, c.LiesAt m size a →
    8 ≤ a ∧ a % 8 = 0 ∧ a + max size 1 ≤ m.staticEnd
  disjoint : chunks.Pairwise fun c c' => ∀ size a size' a', c.LiesAt m size a → c'.LiesAt m size' a' →
    a + max size 1 ≤ a' ∨ a' + max size' 1 ≤ a
  -- Without any string or global, the static area is the first word, which may be past the end.
  fits : m.staticEnd ≤ m.size ∨ (∀ c ∈ chunks, c.static? = none) ∧ m.staticEnd = 8
  text : ∀ access text, .data access text ∈ chunks → ∀ size a,
    (Chunk.data access text).LiesAt m size a →
      m.loadText a = .ok (String.ofList (text.toList.takeWhile (· ≠ '\x00')))
  zero : ∀ i < m.bytes.size, (∀ access text, .data access text ∈ chunks → ∀ size a,
    (Chunk.data access text).LiesAt m size a → ¬ (a ≤ i ∧ i < a + text.utf8ByteSize)) →
      m.bytes[i]? = some 0
  global : ∀ access, .global access ∈ chunks → ∀ size a, (Chunk.global access).LiesAt m size a →
    m.load a = .ok 0 ∧ ∀ i : Nat, a ≤ i → i < a + max size 1 → m.bytes[i]? = some 0

/-- Loading a program makes its static image, if the labels of its strings and globals are distinct and
each string has room for its bytes and a zero. -/
theorem load_makes_static_image {code : Code.Program} {setup : Setup} {image : Image} {m : Machine}
    (hl : Image.load code setup = .ok (image, m))
    (hlabels : ((code.chunks.filterMap Chunk.static?).map Prod.snd).Nodup)
    (hsizes : ∀ (access : Access) (text : String), .data access text ∈ code.chunks →
      access.size = text.utf8ByteSize + 1) :
    m.memory.size = setup.memorySize ∧ StaticImage code.chunks m.memory := by
  have h := Image.placed_of_load hl hlabels hsizes
  refine ⟨(Image.static_of_load hl).size_eq, h.address, fun c hc size a hlies => ?_, ?_, h.fits,
    fun access text hc size a hlies => h.loadText hc hlies, fun i hi hout => h.zero_of_texts hi hout,
    fun access hc size a hlies => ⟨h.load_global hc hlies, fun i hlo hhi => ?_⟩⟩
  · have hregion := h.region c hc size a hlies
    omega
  · refine h.apart.imp fun hapart size a size' a' hc hc' => ?_
    have hregions := hapart size a size' a' hc hc'
    omega
  · exact h.zero_global hc hlies hlo (by omega)

def textsAndGlobal : Code.Program where
  chunks := [.data (.global 9 (.anonymous 0)) "žáby12", .global (.global 8 (.named "x")),
    .data (.global 7 (.anonymous 1)) "a\x00😀"]
  entry := .named "main"

theorem load_makes_static_image_texts_and_global :
    ∃ image m, Image.load textsAndGlobal ⟨64, .ofSeed 0, none⟩ = .ok (image, m) ∧
      m.memory.staticEnd = 40 ∧ m.memory.size = 64 ∧ StaticImage textsAndGlobal.chunks m.memory := by
  obtain ⟨⟨image, m⟩, hl, h⟩ : ∃ r, Image.load textsAndGlobal ⟨64, .ofSeed 0, none⟩ = .ok r ∧
      decide (r.2.memory.staticEnd = 40) = true :=
    exists_ok_of_any (by decide +kernel)
  have hsizes : ∀ (access : Access) (text : String), .data access text ∈ textsAndGlobal.chunks →
      access.size = text.utf8ByteSize + 1 := by
    intro access text hc
    simp only [textsAndGlobal, List.mem_cons, List.not_mem_nil, or_false, Chunk.data.injEq,
      reduceCtorEq, false_or] at hc
    rcases hc with ⟨rfl, rfl⟩ | ⟨rfl, rfl⟩ <;> decide +kernel
  obtain ⟨hsize, himage⟩ := load_makes_static_image hl (by decide +kernel) hsizes
  exact ⟨image, m, hl, of_decide_eq_true h, hsize, himage⟩

/-- Memory can be smaller than the word that is never handed out. -/
theorem static_end_past_memory :
    ∃ image m, Image.load ⟨[], .named "main"⟩ ⟨4, .ofSeed 0, none⟩ = .ok (image, m) ∧
      m.memory.size = 4 ∧ ¬ m.memory.staticEnd ≤ m.memory.size :=
  ⟨_, _, rfl, rfl, by decide⟩

end BlockLang
