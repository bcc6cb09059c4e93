import BlockLang.Proofs.LexicalScope
import BlockLang.Proofs.Words

/-! Frames on the stack. The frame of a callee begins inside the outgoing area of its caller, so no two
frames share a word that holds a static link, a saved frame pointer or a variable. -/

namespace BlockLang

open Source

namespace Frame

def sp (top : Int) : List Frame → Int
  | [] => top
  | f :: fs => sp top fs - f.size

def fp (top : Int) (fs : List Frame) : Int := sp top fs.tail

def room : List Frame → Int
  | [] => wordSize
  | f :: _ => f.outgoing

structure Sized (f : Frame) : Prop where
  locals : 0 ≤ f.locals
  small : f.locals ≤ 8 * UInt32.size
  outgoing : 0 ≤ f.outgoing
  params : 8 ≤ f.params

lemma Sized.oldFp_bounds {f : Frame} (h : f.Sized) : 8 ≤ f.oldFp ∧ f.oldFp ≤ 8 * 4294967297 := by
  have hold : f.oldFp = f.locals + 8 := rfl
  have hsize : (UInt32.size : Int) = 4294967296 := rfl
  have hl := h.locals
  have hs := h.small
  omega

/-- Frames of which each begins inside the outgoing area of the next one. -/
inductive Stacked : List Frame → Prop where
  | nil : Stacked []
  | cons {f : Frame} {fs : List Frame} (hf : f.Sized) (hr : f.params ≤ room fs) (h : Stacked fs) :
    Stacked (f :: fs)

namespace Stacked

variable (top : Int) {f g : Frame} {fs gs hs : List Frame}

lemma of_suffix (h : Stacked fs) (hs : gs <:+ fs) : Stacked gs := by
  induction h with
  | nil =>
    rw [List.suffix_nil.mp hs]
    exact .nil
  | cons hf hr h ih =>
    rcases List.suffix_cons_iff.mp hs with rfl | hs
    · exact .cons hf hr h
    · exact ih hs

lemma sized (h : Stacked (f :: fs)) : f.Sized := by
  cases h
  assumption

lemma sp_le (h : Stacked fs) (hs : g :: gs <:+ fs) : sp top fs ≤ sp top gs - g.oldFp := by
  induction h with
  | nil => cases List.suffix_nil.mp hs
  | @cons f fs hf hr h ih =>
    have hsize : f.size = f.oldFp + f.outgoing := rfl
    have hold : f.oldFp = f.locals + 8 := rfl
    have ho := hf.outgoing
    have hl := hf.locals
    rw [sp]
    rcases List.suffix_cons_iff.mp hs with he | hs
    · obtain ⟨rfl, rfl⟩ := List.cons.inj he
      omega
    · have hle := ih hs
      omega

lemma sp_le_top (h : Stacked fs) : sp top fs ≤ top := by
  induction h with
  | nil => exact Int.le_refl _
  | @cons f fs hf hr h ih =>
    have hsize : f.size = f.locals + 8 + f.outgoing := rfl
    have ho := hf.outgoing
    have hl := hf.locals
    rw [sp]
    omega

lemma sp_bounds (h : Stacked fs) (hs : g :: gs <:+ fs) : sp top fs ≤ sp top gs ∧ sp top gs ≤ top := by
  have hle := h.sp_le top hs
  have hold : g.oldFp = g.locals + 8 := rfl
  have hl := (h.of_suffix hs).sized.locals
  have htop := ((h.of_suffix hs).of_suffix (List.suffix_cons g gs)).sp_le_top top
  omega

lemma params_le (h : Stacked (f :: fs)) (hs : g :: gs <:+ fs) :
    sp top fs + f.params ≤ sp top gs - g.oldFp := by
  cases h with
  | cons hf hr h =>
    cases fs with
    | nil => cases List.suffix_nil.mp hs
    | cons f' fs =>
      have hsize : f'.size = f'.oldFp + f'.outgoing := rfl
      have hroom : room (f' :: fs) = f'.outgoing := rfl
      have hold : f'.oldFp = f'.locals + 8 := rfl
      have hl := h.sized.locals
      rw [sp]
      rcases List.suffix_cons_iff.mp hs with he | hs
      · obtain ⟨rfl, rfl⟩ := List.cons.inj he
        omega
      · have hle := (h.of_suffix (List.suffix_cons f' fs)).sp_le top hs
        omega

lemma params_le_top (h : Stacked (f :: fs)) : sp top fs + f.params ≤ top + 8 := by
  cases h with
  | cons hf hr h =>
    cases fs with
    | nil =>
      have hroom : room [] = 8 := rfl
      rw [sp]
      omega
    | cons f' fs =>
      have hle := params_le top (.cons hf hr h) (List.suffix_rfl : f' :: fs <:+ f' :: fs)
      have htop := (h.of_suffix (List.suffix_cons f' fs)).sp_le_top top
      have hold : f'.oldFp = f'.locals + 8 := rfl
      have hl := h.sized.locals
      omega

lemma cell_bounds (h : Stacked fs) (hf : f :: gs <:+ fs) {offset : Int} (hc : f.HasCell offset) :
    sp top fs ≤ sp top gs + offset ∧ sp top gs + offset ≤ top := by
  have hold : f.oldFp = f.locals + 8 := rfl
  have hfl := (h.of_suffix hf).sized.locals
  have hle := h.sp_le top hf
  have htop := (h.of_suffix hf).params_le_top top
  have hp := (h.of_suffix hf).sized.params
  rcases hc with ⟨hlo, hhi⟩ | ⟨hlo, hhi⟩
  · constructor <;> omega
  · constructor <;> omega

variable {top}

lemma clear_of_ne (h : Stacked fs) (hf : f :: gs <:+ fs) (hg : g :: hs <:+ fs)
    (hne : f :: gs ≠ g :: hs) {offset : Int} (hlo : -f.oldFp ≤ offset) (hhi : offset + 8 ≤ f.params) :
    Clear (sp top gs + offset) (sp top hs) ∧ Clear (sp top gs + offset) (sp top hs - g.oldFp) := by
  have hold : ∀ f : Frame, f.oldFp = f.locals + 8 := fun _ => rfl
  have hgl := (h.of_suffix hg).sized.locals
  have hgp := (h.of_suffix hg).sized.params
  have hfl := (h.of_suffix hf).sized.locals
  have hgo := hold g
  have hfo := hold f
  rcases List.suffix_or_suffix_of_suffix hf hg with hs' | hs'
  · -- the word is further out
    have hin := (List.suffix_cons_iff.mp hs').resolve_left hne
    have hle := (h.of_suffix hg).params_le top hin
    exact ⟨.inr (by omega), .inr (by omega)⟩
  · have hin := (List.suffix_cons_iff.mp hs').resolve_left hne.symm
    have hle := (h.of_suffix hf).params_le top hin
    exact ⟨.inl (by omega), .inl (by omega)⟩

lemma clear_cell (h : Stacked fs) (hf : f :: gs <:+ fs) (hg : g :: hs <:+ fs) {offset : Int}
    (hc : f.HasCell offset) :
    Clear (sp top gs + offset) (sp top hs) ∧ Clear (sp top gs + offset) (sp top hs - g.oldFp) := by
  have hold : f.oldFp = f.locals + 8 := rfl
  have hfl := (h.of_suffix hf).sized.locals
  have hfp := (h.of_suffix hf).sized.params
  by_cases he : f :: gs = g :: hs
  · obtain ⟨rfl, rfl⟩ := List.cons.inj he
    rcases hc with ⟨hlo, hhi⟩ | ⟨hlo, hhi⟩
    · exact ⟨.inl (by omega), .inr (by omega)⟩
    · exact ⟨.inr (by omega), .inr (by omega)⟩
  · refine h.clear_of_ne hf hg he ?_ ?_
    · rcases hc with ⟨hlo, hhi⟩ | ⟨hlo, hhi⟩ <;> omega
    · rcases hc with ⟨hlo, hhi⟩ | ⟨hlo, hhi⟩ <;> omega

end Stacked

/-- A word that may be written: static memory below `low`, or a variable in a frame. -/
def Spot (low top : Int) (fs : List Frame) (a : Int) : Prop :=
  (8 ≤ a ∧ a + 8 ≤ low) ∨
    ∃ f gs offset, f :: gs <:+ fs ∧ f.HasCell offset ∧ a = sp top gs + offset

lemma Spot.clear {low top a : Int} {g : Frame} {fs hs : List Frame} (ha : Spot low top fs a)
    (h : Stacked fs) (hp : low ≤ sp top fs) (hg : g :: hs <:+ fs) :
    Clear a (sp top hs) ∧ Clear a (sp top hs - g.oldFp) := by
  rcases ha with ⟨-, hhi⟩ | ⟨f, gs, offset, hf, hc, rfl⟩
  · have hle := h.sp_le top hg
    have hold : g.oldFp = g.locals + 8 := rfl
    have hl := (h.of_suffix hg).sized.locals
    exact ⟨.inl (by omega), .inl (by omega)⟩
  · exact h.clear_cell hf hg hc

section Reaches

variable (At : Frame → List NodeId → Prop)

def Reaches (path : List NodeId) (fs gs : List Frame) : Prop :=
  (∃ g rest, gs = g :: rest ∧ At g path) ∧
    ∃ hs, fs = hs ++ gs ∧ ∀ h ∈ hs, ∃ i inner, At h (i :: inner) ∧ path <:+ inner

variable {At} {f g : Frame} {fs gs hs : List Frame} {i : NodeId} {path : List NodeId}

lemma Reaches.refl (h : At f path) : Reaches At path (f :: fs) (f :: fs) :=
  ⟨⟨f, fs, rfl, h⟩, [], rfl, nofun⟩

lemma Reaches.suffix (h : Reaches At path fs gs) : gs <:+ fs := by
  obtain ⟨-, hs, rfl, -⟩ := h
  exact List.suffix_append hs gs

lemma Reaches.outward (h : Reaches At (i :: path) fs (g :: gs)) (h' : Reaches At path gs hs) :
    Reaches At path fs hs := by
  obtain ⟨⟨g', rest, he, hat⟩, js, rfl, hjs⟩ := h
  obtain ⟨rfl, rfl⟩ := List.cons.inj he
  obtain ⟨hhead, ks, rfl, hks⟩ := h'
  refine ⟨hhead, js ++ g :: ks, by simp, fun f hf => ?_⟩
  rcases List.mem_append.mp hf with hf | hf
  · obtain ⟨j, inner, hat', hsuf⟩ := hjs f hf
    exact ⟨j, inner, hat', (List.suffix_cons i path).trans hsuf⟩
  · rcases List.mem_cons.mp hf with rfl | hf
    · exact ⟨i, path, hat, List.suffix_rfl⟩
    · exact hks f hf

end Reaches

end Frame

end BlockLang
