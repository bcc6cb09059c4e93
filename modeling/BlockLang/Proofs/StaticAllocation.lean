import BlockLang.Proofs.MemoryWords
import Mathlib.Order.Bounds.Defs

/-! Static memory over any sequence of requests, granted or not. Regions are whole words that follow
each other from the second word of memory on. -/

namespace BlockLang

namespace Memory

inductive Request where
  | allocate (label : Label) (size : Int)
  | store (address : Int) (w : Word)
  | storeText (address : Int) (text : List UInt8)

def reserved (size : Int) : Int := (max size 1 + 7) / 8 * 8

lemma isLeast_reserved (size : Int) : IsLeast {n : Int | 8 ∣ n ∧ max size 1 ≤ n} (reserved size) := by
  refine ⟨⟨Int.dvd_mul_left _ _, ?_⟩, ?_⟩
  · rw [reserved]
    omega
  · rintro n ⟨⟨k, rfl⟩, hn⟩
    rw [reserved]
    omega

lemma eight_le_reserved (size : Int) : 8 ≤ reserved size := by
  rw [reserved]
  omega

lemma reserved_mod (size : Int) : reserved size % 8 = 0 := Int.mul_emod_left _ _

def granted (m : Memory) (label : Label) (size : Int) : Memory :=
  { m with
    labels := m.labels.insert label m.staticEnd
    staticEnd := m.staticEnd + reserved size }

lemma allocate_eq (m : Memory) (label : Label) (size : Int) : m.allocate label size =
    if m.staticEnd + reserved size ≤ m.size then .ok (m.staticEnd, m.granted label size)
    else .error (.addressOutOfBounds m.staticEnd) := by
  have hnext : m.nextEnd size = m.staticEnd + reserved size := by
    rw [nextEnd, reserved]
    split <;> omega
  rw [allocate, hnext]
  rfl

lemma addressOf?_granted (m : Memory) (label l : Label) (size : Int) :
    (m.granted label size).addressOf? l = if label = l then some m.staticEnd else m.addressOf? l := by
  rw [addressOf?, granted, Std.TreeMap.getElem?_insert]
  exact if_congr (by simp) rfl rfl

structure Grant where
  label : Label
  size : Int
  address : Int

def Grant.stop (g : Grant) : Int := g.address + reserved g.size

structure Ledger where
  memory : Memory
  grants : List Grant

namespace Ledger

def serve (s : Ledger) : Request → Ledger
  | .allocate label size =>
    match s.memory.allocate label size with
    | .ok (address, memory) => ⟨memory, ⟨label, size, address⟩ :: s.grants⟩
    | .error _ => s
  | .store address w => ⟨s.memory.after (s.memory.store address w), s.grants⟩
  | .storeText address text => ⟨s.memory.after (s.memory.storeText address text), s.grants⟩

def serveAll (size : Nat) (requests : List Request) : Ledger :=
  requests.foldl serve ⟨.new size, []⟩

structure Sound (size : Int) (s : Ledger) : Prop where
  size_eq : s.memory.size = size
  start : 8 ≤ s.memory.staticEnd
  aligned : s.memory.staticEnd % 8 = 0
  -- Only the word that is never handed out can lie past the end of memory.
  fits : s.memory.staticEnd ≤ max size 8
  region : ∀ g ∈ s.grants, 8 ≤ g.address ∧ g.address % 8 = 0 ∧ g.stop ≤ s.memory.staticEnd ∧
    g.stop ≤ size
  disjoint : s.grants.Pairwise fun g g' => g'.stop ≤ g.address
  lookup : ∀ l, s.memory.addressOf? l =
    (s.grants.find? fun g => g.label = l).map Grant.address

variable {s : Ledger} {size n : Int} {label : Label}

lemma sound_new (size : Nat) : Sound size ⟨.new size, []⟩ := by
  have hsize : (Memory.new size).size = size := by simp [Memory.new, Memory.size]
  refine ⟨hsize, Int.le_refl _, rfl, Int.le_max_right _ _, List.forall_mem_nil _, .nil, ?_⟩
  intro l
  exact Std.TreeMap.getElem?_emptyc

lemma Sound.grant (h : s.Sound size) (hfit : s.memory.staticEnd + reserved n ≤ size) :
    Sound size ⟨s.memory.granted label n, ⟨label, n, s.memory.staticEnd⟩ :: s.grants⟩ := by
  have hstart := h.start
  have haligned := h.aligned
  have hbytes := eight_le_reserved n
  have hmod := reserved_mod n
  have hend : 8 ≤ s.memory.staticEnd + reserved n ∧ (s.memory.staticEnd + reserved n) % 8 = 0 ∧
      s.memory.staticEnd + reserved n ≤ max size 8 := by omega
  refine ⟨h.size_eq, hend.1, hend.2.1, hend.2.2, ?_, ?_, ?_⟩
  · rw [List.forall_mem_cons]
    refine ⟨⟨hstart, haligned, Int.le_refl _, hfit⟩, ?_⟩
    intro g hg
    have hregion := h.region g hg
    have hstop : g.stop ≤ s.memory.staticEnd + reserved n := by omega
    exact ⟨hregion.1, hregion.2.1, hstop, hregion.2.2.2⟩
  · rw [List.pairwise_cons]
    exact ⟨fun g hg => (h.region g hg).2.2.1, h.disjoint⟩
  · intro l
    rw [addressOf?_granted, List.find?_cons]
    by_cases hl : label = l
    · simp [hl]
    · simp [hl, h.lookup]

lemma Sound.write (h : s.Sound size) (address : Int) (bytes : List UInt8) :
    Sound size ⟨s.memory.write address bytes, s.grants⟩ :=
  ⟨(size_write _ _ _).trans h.size_eq, h.start, h.aligned, h.fits, h.region, h.disjoint, h.lookup⟩

lemma Sound.serve (h : s.Sound size) (r : Request) : (s.serve r).Sound size := by
  cases r with
  | allocate label n =>
    rw [Ledger.serve, allocate_eq]
    by_cases hfit : s.memory.staticEnd + reserved n ≤ s.memory.size
    · rw [if_pos hfit]
      exact h.grant (h.size_eq ▸ hfit)
    · rw [if_neg hfit]
      exact h
  | store address w =>
    rw [Ledger.serve, Memory.store]
    split
    · exact h.write address _
    · exact h
  | storeText address text =>
    rw [Ledger.serve, Memory.storeText]
    split
    · exact h.write address _
    · exact h

lemma Sound.foldl_serve (h : s.Sound size) (requests : List Request) :
    (requests.foldl Ledger.serve s).Sound size := by
  induction requests generalizing s with
  | nil => exact h
  | cons r requests ih => exact ih (h.serve r)

lemma sound_serveAll (size : Nat) (requests : List Request) : (serveAll size requests).Sound size :=
  (sound_new size).foldl_serve requests

structure Answers (size : Int) (s : Ledger) (label : Label) (n : Int) : Prop where
  bytes : IsLeast {k : Int | 8 ∣ k ∧ max n 1 ≤ k} (reserved n)
  granted : s.memory.staticEnd + reserved n ≤ size → ∃ m,
    s.memory.allocate label n = .ok (s.memory.staticEnd, m) ∧
    s.serve (.allocate label n) = ⟨m, ⟨label, n, s.memory.staticEnd⟩ :: s.grants⟩ ∧
    m.staticEnd = s.memory.staticEnd + reserved n ∧ m.bytes = s.memory.bytes ∧
    ∀ l, m.addressOf? l = if label = l then some s.memory.staticEnd else s.memory.addressOf? l
  refused : size < s.memory.staticEnd + reserved n →
    s.memory.allocate label n = .error (.addressOutOfBounds s.memory.staticEnd) ∧
    s.serve (.allocate label n) = s

lemma Sound.answers (h : s.Sound size) (label : Label) (n : Int) : s.Answers size label n := by
  have hsize := h.size_eq
  refine ⟨isLeast_reserved n, ?_, ?_⟩
  · intro hfit
    have hok : s.memory.allocate label n = .ok (s.memory.staticEnd, s.memory.granted label n) := by
      rw [allocate_eq]
      exact if_pos (by omega)
    refine ⟨s.memory.granted label n, hok, ?_, rfl, rfl, fun l => addressOf?_granted s.memory label l n⟩
    rw [Ledger.serve, hok]
  · intro hlt
    have herror : s.memory.allocate label n = .error (.addressOutOfBounds s.memory.staticEnd) := by
      rw [allocate_eq]
      exact if_neg (by omega)
    refine ⟨herror, ?_⟩
    rw [Ledger.serve, herror]

/-- The end of the static area is a word, the bytes of a region are counted without wrapping, and the
checked sum of both tells whether there is room. -/
structure InWords (size : Int) (s : Ledger) (e : Word) : Prop where
  staticEnd : e.toInt = s.memory.staticEnd
  bytes : ∀ n : Word, (n.roundedUp.toNat : Int) = reserved n.toInt
  room : ∀ (label : Label) (n : Word), (∃ r, s.memory.allocate label n.toInt = .ok r) ↔
    ∃ last, e.regionEnd? n = some last ∧ last.toInt ≤ size

lemma Sound.inWords (h : s.Sound size) (hword : size < wordBound) :
    s.InWords size (.ofInt s.memory.staticEnd) := by
  have hbound := wordBound_eq
  have hsize := h.size_eq
  have hstart := h.start
  have hfits := h.fits
  have he : (Int64.ofInt s.memory.staticEnd).toInt = s.memory.staticEnd :=
    Word.toInt_ofInt (by omega) (by omega)
  refine ⟨he, Word.toNat_roundedUp, ?_⟩
  intro label n
  have hbytes : (n.roundedUp.toNat : Int) = reserved n.toInt := Word.toNat_roundedUp n
  have hsum : ∀ last, Word.regionEnd? (.ofInt s.memory.staticEnd) n = some last ↔
      last.toInt = s.memory.staticEnd + reserved n.toInt := by
    intro last
    rw [Word.regionEnd?_eq_some (by omega), he, hbytes]
  simp only [hsum, allocate_eq]
  by_cases hfit : s.memory.staticEnd + reserved n.toInt ≤ s.memory.size
  · have hlast : (Int64.ofInt (s.memory.staticEnd + reserved n.toInt)).toInt =
        s.memory.staticEnd + reserved n.toInt :=
      Word.toInt_ofInt (by omega) (by omega)
    simp only [if_pos hfit]
    exact ⟨fun _ => ⟨_, hlast, by omega⟩, fun _ => ⟨_, rfl⟩⟩
  · simp only [if_neg hfit]
    constructor
    · rintro ⟨r, hr⟩
      cases hr
    · rintro ⟨last, hlast, hle⟩
      omega

end Ledger

end Memory

/-- Whatever was asked of memory before, the regions that were granted do not overlap and each label has
the address of its latest one. The next request for static memory gets the next whole words, and fails
exactly if they are not there. If the size of memory is a word, no number that is not a word is needed
to find that out. -/
theorem static_allocation_keeps_invariant (size : Nat) (requests : List Memory.Request) :
    (Memory.Ledger.serveAll size requests).Sound size ∧
    (∀ label n, (Memory.Ledger.serveAll size requests).Answers size label n) ∧
    (size < wordBound → ∃ e, (Memory.Ledger.serveAll size requests).InWords size e) := by
  have h := Memory.Ledger.sound_serveAll size requests
  exact ⟨h, h.answers, fun hword => ⟨_, h.inWords (by omega)⟩⟩

example :
    (Memory.Ledger.serveAll 40 [.allocate (.named "a") (-5), .allocate (.named "b") 9223372036854775807,
      .store 8 (-1), .allocate (.named "a") 9, .allocate (.named "c") 8]).grants.map
        (fun g => (g.label, g.address)) =
      [(.named "c", 32), (.named "a", 16), (.named "a", 8)] := by
  decide +kernel

end BlockLang
