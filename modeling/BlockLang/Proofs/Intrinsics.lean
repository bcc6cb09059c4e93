import BlockLang.Proofs.Reach

namespace BlockLang

namespace Exec

variable {α β : Type}

def after (x : Exec α) (m : Machine) : Machine :=
  match x m with
  | .ok _ m' | .error _ m' => m'

lemma after_ok {x : Exec α} {m m' : Machine} {a : α} (h : x m = .ok a m') : x.after m = m' := by
  simp [after, h]

lemma after_error {x : Exec α} {m m' : Machine} {e : Fault} (h : x m = .error e m') :
    x.after m = m' := by
  simp [after, h]

lemma after_bind {P : Machine → Machine → Prop} (htrans : ∀ {m m₁ m'}, P m m₁ → P m₁ m' → P m m')
    {x : Exec α} {f : α → Exec β} (hx : ∀ m, P m (x.after m)) (hf : ∀ a m, P m ((f a).after m))
    (m : Machine) : P m ((x >>= f).after m) := by
  have h := hx m
  cases hr : x m with
  | ok a m₁ =>
    have hb : (x >>= f) m = f a m₁ := by simp [bind, EStateM.bind, hr]
    rw [after_ok hr] at h
    unfold after
    rw [hb]
    exact htrans h (hf a m₁)
  | error e m₁ =>
    have hb : (x >>= f) m = .error e m₁ := by simp [bind, EStateM.bind, hr]
    rw [after_error hr] at h
    rw [after_error hb]
    exact h

lemma after_read (f : Machine → Except Fault α) (m : Machine) : (Machine.read f).after m = m := by
  cases h : f m with
  | ok a => exact after_ok (Machine.read_ok h)
  | error e => exact after_error (Machine.read_error h)

end Exec

namespace Machine

structure Same (m m' : Machine) : Prop where
  memory : m'.memory = m.memory
  fp : m'.fp = m.fp
  sp : m'.sp = m.sp

namespace Same

lemma refl {m : Machine} : m.Same m := ⟨rfl, rfl, rfl⟩

lemma trans {m m₁ m' : Machine} (h : m.Same m₁) (h' : m₁.Same m') : m.Same m' :=
  ⟨h'.memory.trans h.memory, h'.fp.trans h.fp, h'.sp.trans h.sp⟩

lemma nameValue {m m' : Machine} (h : m.Same m') (l : Label) : m'.nameValue l = m.nameValue l := by
  simp only [Machine.nameValue, h.memory, h.fp, h.sp]

end Same

lemma print_same (line : String) (m : Machine) : m.Same ((print line).after m) := by
  obtain ⟨memory, fp, sp, generator, console⟩ := m
  cases console with
  | none => exact ⟨rfl, rfl, rfl⟩
  | some c =>
    unfold Exec.after print
    dsimp only
    split
    · rename_i h
      split at h
      · obtain ⟨-, rfl⟩ := EStateM.Result.ok.inj h
        exact ⟨rfl, rfl, rfl⟩
      · exact nomatch h
    · rename_i h
      split at h
      · exact nomatch h
      · obtain ⟨-, rfl⟩ := EStateM.Result.error.inj h
        exact ⟨rfl, rfl, rfl⟩

end Machine

open Machine in
lemma Intrinsic.exec_same (i : Intrinsic) (args : List Word) (m : Machine) :
    m.Same ((i.exec args).after m) := by
  have hprint : ∀ (line : String) (m : Machine),
      m.Same ((do print line; return some 0 : Exec (Option Word)).after m) := fun line =>
    Exec.after_bind (P := Same) Same.trans (print_same line) fun _ _ => .refl
  have hdraw : ∀ g : Generator, m.Same { m with generator := g } := fun _ => ⟨rfl, rfl, rfl⟩
  fun_cases Intrinsic.exec i args with
  | case1 w => exact hprint _ m
  | case2 w =>
    refine Exec.after_bind (P := Same) Same.trans (fun m => ?_) (fun _ => hprint _) m
    rw [Exec.after_read]
    exact .refl
  | case3 w => exact hprint _ m
  | case4 min max =>
    unfold Exec.after
    dsimp only
    by_cases h : min < max
    · rw [if_pos h]
      exact hdraw _
    · rw [if_neg h]
      exact .refl
  | case5 w => exact hdraw _
  | case6 => exact .refl

def Intrinsic.call (l : Label) (ws : List Word) : Exec Word :=
  match Intrinsic.ofLabel? l with
  | some i => do
    match ← i.exec ws.tail with
    | some w => pure w
    | none => throw (.notAFunction l)
  | none => throw (.notAFunction l)

lemma Intrinsic.call_ok {l : Label} {ws : List Word} {m m' : Machine} {w : Word}
    (h : Intrinsic.call l ws m = .ok w m') :
    ∃ i, Intrinsic.ofLabel? l = some i ∧ i.exec ws.tail m = .ok (some w) m' := by
  unfold Intrinsic.call at h
  cases hi : Intrinsic.ofLabel? l with
  | none =>
    rw [hi] at h
    exact nomatch h
  | some i =>
    rw [hi] at h
    obtain ⟨r, m₁, hr, h⟩ := Exec.bind_ok.mp h
    cases r with
    | none => exact nomatch h
    | some w' =>
      obtain ⟨rfl, rfl⟩ := Exec.pure_ok.mp h
      exact ⟨i, rfl, hr⟩

lemma Intrinsic.call_label (i : Intrinsic) (ws : List Word) :
    Intrinsic.call i.label ws = (do
      match ← i.exec ws.tail with
      | some w => pure w
      | none => throw (.notAFunction i.label)) := by
  unfold Intrinsic.call
  rw [Intrinsic.ofLabel?_label]

lemma Intrinsic.call_print {i : Intrinsic} {ws : List Word} {line : String}
    (h : i.exec ws.tail = (do Machine.print line; return some 0)) :
    Intrinsic.call i.label ws = (do Machine.print line; return 0) := by
  rw [call_label, h, bind_assoc]
  refine bind_congr fun _ => ?_
  rw [pure_bind]

def intrinsicCalls : Calls where
  run := Intrinsic.call
  steady {_ args m _ _} h l := by
    obtain ⟨i, -, hi⟩ := Intrinsic.call_ok h
    have hs := i.exec_same args.tail m
    rw [Exec.after_ok hi] at hs
    exact hs.nameValue l

end BlockLang
