import BlockLang.Proofs.EvaluationOrder
import BlockLang.Proofs.Reach

namespace BlockLang

namespace Code

inductive Control where
  | label (l : Label)
  | jump (l : Label)
  | branch (l l' : Label)
deriving DecidableEq

def Stm.control? : Stm → Option Control
  | .label l => some (.label l)
  | .jump l => some (.jump l)
  | .cjump _ l l' => some (.branch l l')
  | .move _ _ | .exp _ | .seq _ => none

def Control.targets : Control → List Label
  | .label _ => []
  | .jump l => [l]
  | .branch l l' => [l, l']

lemma mem_targets_branch {l p q : Label} : l ∈ (Control.branch p q).targets ↔ l = p ∨ l = q := by
  simp [Control.targets]

def Stm.targets : Stm → List Label
  | .jump l => [l]
  | .cjump _ l l' => [l, l']
  | .move _ _ | .exp _ | .seq _ | .label _ => []

lemma Stm.control_of_mem_targets {s : Stm} {l : Label} (h : l ∈ s.targets) :
    ∃ c, s.control? = some c ∧ l ∈ c.targets := by
  cases s with
  | jump l' => exact ⟨_, rfl, h⟩
  | cjump c l' l'' => exact ⟨_, rfl, h⟩
  | move d x => cases h
  | exp x => cases h
  | seq ss => cases h
  | label l' => cases h

mutual

def Exp.controls : Exp → List Control
  | .const _ | .name _ | .temp _ => []
  | .mem a => a.controls
  | .binop _ a b => a.controls ++ b.controls
  | .call _ args => Exp.controlsAll args
  | .eseq s e => s.controls ++ e.controls

def Exp.controlsAll : List Exp → List Control
  | [] => []
  | x :: xs => x.controls ++ Exp.controlsAll xs

def Stm.controls : Stm → List Control
  | .move dst src => dst.controls ++ src.controls
  | .exp e => e.controls
  | .seq ss => Stm.controlsAll ss
  | .cjump c l l' => c.controls ++ [.branch l l']
  | .jump l => [.jump l]
  | .label l => [.label l]

def Stm.controlsAll : List Stm → List Control
  | [] => []
  | s :: ss => s.controls ++ Stm.controlsAll ss

end

def controlsOf (code : List Stm) : List Control := code.filterMap Stm.control?

@[simp] lemma controlsOf_nil : controlsOf [] = [] := rfl

@[simp] lemma controlsOf_append (c d : List Stm) :
    controlsOf (c ++ d) = controlsOf c ++ controlsOf d := by
  simp [controlsOf]

def Event.control? : Event → Option Control
  | .label l => some (.label l)
  | .jump l => some (.jump l)
  | .branch l l' => some (.branch l l')
  | .call _ _ => none

mutual

lemma Exp.controls_eq (x : Exp) : x.controls = x.events.filterMap Event.control? := by
  cases x with
  | const w => rfl
  | name l => rfl
  | temp t => rfl
  | mem a => exact a.controls_eq
  | binop op a b => simp [Exp.controls, Exp.events, a.controls_eq, b.controls_eq]
  | call f args => simp [Exp.controls, Exp.events, Exp.controlsAll_eq args, Event.control?]
  | eseq s e => simp [Exp.controls, Exp.events, s.controls_eq, e.controls_eq]

lemma Exp.controlsAll_eq (xs : List Exp) :
    Exp.controlsAll xs = (Exp.eventsAll xs).filterMap Event.control? := by
  cases xs with
  | nil => rfl
  | cons x xs => simp [Exp.controlsAll, Exp.eventsAll, x.controls_eq, Exp.controlsAll_eq xs]

lemma Stm.controls_eq (s : Stm) : s.controls = s.events.filterMap Event.control? := by
  cases s with
  | move d x => simp [Stm.controls, Stm.events, d.controls_eq, x.controls_eq]
  | exp e => exact e.controls_eq
  | seq ss => exact Stm.controlsAll_eq ss
  | cjump c l l' => simp [Stm.controls, Stm.events, c.controls_eq, Event.control?]
  | jump l => rfl
  | label l => rfl

lemma Stm.controlsAll_eq (ss : List Stm) :
    Stm.controlsAll ss = (Stm.eventsAll ss).filterMap Event.control? := by
  cases ss with
  | nil => rfl
  | cons s ss => simp [Stm.controlsAll, Stm.eventsAll, s.controls_eq, Stm.controlsAll_eq ss]

end

lemma Stm.control?_eq (s : Stm) : s.control? = s.event?.bind Event.control? := by
  cases s with
  | move d x => cases x <;> rfl
  | exp x => cases x <;> rfl
  | _ => rfl

lemma Stm.controlsOf_flat (s : Stm) (n : Temp) : controlsOf (s.flat n).code = s.controls := by
  rw [s.controls_eq, ← s.filterMap_event?_flat n, List.filterMap_filterMap, controlsOf,
    funext Stm.control?_eq]

def labelsOf (cs : List Control) : List Label :=
  cs.filterMap fun
    | .label l => some l
    | .jump _ | .branch _ _ => none

@[simp] lemma labelsOf_append (cs ds : List Control) :
    labelsOf (cs ++ ds) = labelsOf cs ++ labelsOf ds := by
  simp [labelsOf]

lemma mem_labelsOf {cs : List Control} {l : Label} : l ∈ labelsOf cs ↔ .label l ∈ cs := by
  simp only [labelsOf, List.mem_filterMap]
  constructor
  · rintro ⟨c, hc, h⟩
    cases c <;> simp_all
  · exact fun h => ⟨_, h, rfl⟩

lemma mem_controlsOf_label {code : List Stm} {l : Label} :
    .label l ∈ controlsOf code ↔ .label l ∈ code := by
  simp only [controlsOf, List.mem_filterMap]
  constructor
  · rintro ⟨s, hs, h⟩
    cases s <;> simp_all [Stm.control?]
  · exact fun h => ⟨_, h, rfl⟩

end Code

namespace Routine

open Code

def enterTarget (targets : Std.TreeMap Label Nat) (entry : Stm × Nat) : Std.TreeMap Label Nat :=
  match entry.1 with
  | .label l => targets.insert l entry.2
  | _ => targets

lemma targetsOf_eq (body : List Stm) : targetsOf body = body.zipIdx.foldl enterTarget ∅ := rfl

lemma getElem?_enterTarget_of_ne {targets : Std.TreeMap Label Nat} {s : Stm} {l : Label}
    (h : s ≠ .label l) (k : Nat) : (enterTarget targets (s, k))[l]? = targets[l]? := by
  cases s with
  | label l' =>
    have hl : l' ≠ l := fun e => h (e ▸ rfl)
    simp [enterTarget, Std.TreeMap.getElem?_insert, hl]
  | _ => rfl

lemma getElem?_foldl_of_not_mem {body : List Stm} {l : Label} (h : .label l ∉ body) (k : Nat)
    (targets : Std.TreeMap Label Nat) :
    ((body.zipIdx k).foldl enterTarget targets)[l]? = targets[l]? := by
  induction body generalizing k targets with
  | nil => rfl
  | cons s body ih =>
    obtain ⟨hs, hb⟩ : s ≠ .label l ∧ .label l ∉ body := by
      simpa [eq_comm] using h
    rw [List.zipIdx_cons, List.foldl_cons, ih hb, getElem?_enterTarget_of_ne hs]

lemma getElem?_foldl {body : List Stm} (hn : (labelsOf (controlsOf body)).Nodup) {p : Nat}
    {l : Label} (h : body[p]? = some (.label l)) (k : Nat) (targets : Std.TreeMap Label Nat) :
    ((body.zipIdx k).foldl enterTarget targets)[l]? = some (k + p) := by
  induction body generalizing k targets p with
  | nil => simp at h
  | cons s body ih =>
    have hc : controlsOf (s :: body) = controlsOf [s] ++ controlsOf body := by
      rw [← controlsOf_append]; rfl
    rw [hc, labelsOf_append, List.nodup_append] at hn
    rw [List.zipIdx_cons, List.foldl_cons]
    cases p with
    | zero =>
      obtain rfl : s = .label l := by simpa using h
      have hl : Stm.label l ∉ body := fun hm =>
        hn.2.2 l (by simp [controlsOf, labelsOf, Stm.control?]) l
          (mem_labelsOf.mpr (mem_controlsOf_label.mpr hm)) rfl
      rw [getElem?_foldl_of_not_mem hl]
      simp [enterTarget]
    | succ p =>
      rw [ih hn.2.1 (by simpa using h)]
      simp [Nat.add_comm, Nat.add_left_comm]

lemma resolved_of_nodup {f : Frame} {body : List Stm} (hn : (labelsOf (controlsOf body)).Nodup) :
    (Routine.mk f body.toArray (targetsOf body)).Resolved := by
  intro p l h
  have hb : body[p]? = some (.label l) := by simpa using h
  rw [targetsOf_eq]
  simpa using getElem?_foldl hn hb 0 ∅

lemma label_of_getElem?_foldl {body : List Stm} {l : Label} {pc k : Nat}
    {targets : Std.TreeMap Label Nat}
    (h : ((body.zipIdx k).foldl enterTarget targets)[l]? = some pc) :
    targets[l]? = some pc ∨ ∃ i, pc = k + i ∧ body[i]? = some (.label l) := by
  induction body generalizing k targets with
  | nil => exact .inl h
  | cons s body ih =>
    rw [List.zipIdx_cons, List.foldl_cons] at h
    rcases ih h with h | ⟨i, rfl, hi⟩
    · by_cases hs : s = .label l
      · obtain rfl := hs
        have hk : k = pc := by simpa [enterTarget] using h
        exact .inr ⟨0, hk.symm, rfl⟩
      · rw [getElem?_enterTarget_of_ne hs] at h
        exact .inl h
    · exact .inr ⟨i + 1, by omega, hi⟩

lemma label_of_targetsOf {body : List Stm} {l : Label} {pc : Nat}
    (h : (targetsOf body)[l]? = some pc) : body[pc]? = some (.label l) := by
  rcases label_of_getElem?_foldl h with h | ⟨i, rfl, hi⟩
  · simp at h
  · rwa [Nat.zero_add]

end Routine

end BlockLang
