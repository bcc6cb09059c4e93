import BlockLang.Proofs.ControlFlow
import BlockLang.Proofs.ThreadSteps

namespace BlockLang

open Code

namespace Activation

def Invokes (a : Activation) (m : Machine) (f : Label) (args : List Exp) (d : Destination) : Prop :=
  (a.routine.code[a.pc]? = some (.exp (.call f args)) ∧ d = .discard) ∨
    ∃ dst, a.routine.code[a.pc]? = some (.move dst (.call f args)) ∧ a.place m dst = .ok d

inductive Steps (image : Image) (a : Activation) (m : Machine) : Step → Machine → Prop where
  | ret (h : a.routine.code[a.pc]? = none) : Steps image a m .ret m
  | move {dst src : Exp} {d : Destination} {w : Word} {b : Activation} {m' : Machine}
    (h : a.routine.code[a.pc]? = some (.move dst src)) (hc : src.isCall = false)
    (hd : a.place m dst = .ok d) (hv : a.eval m src = .ok w)
    (hw : a.advance.write w d m = .ok b m') : Steps image a m (.next b) m'
  | exp {x : Exp} (h : a.routine.code[a.pc]? = some (.exp x)) (hc : x.isCall = false) :
    Steps image a m (.next a.advance) m
  | goto {s : Stm} {l : Label} {b : Activation} (h : a.routine.code[a.pc]? = some s)
    (hl : l ∈ s.targets) (hg : a.goto l = .ok b) : Steps image a m (.next b) m
  | label {l : Label} (h : a.routine.code[a.pc]? = some (.label l)) :
    Steps image a m (.next a.advance) m
  | call {f : Label} {args : List Exp} {d : Destination} {ws : List Word} {r : Routine}
    (h : a.Invokes m f args d) (hv : a.evalAll m args = .ok ws) (hr : image.routines[f]? = some r) :
    Steps image a m (.call r ws d a.advance) m
  | intrinsic {f : Label} {args : List Exp} {d : Destination} {ws : List Word} {i : Intrinsic}
    {w : Word} {b : Activation} {m₁ m' : Machine} (h : a.Invokes m f args d)
    (hv : a.evalAll m args = .ok ws) (hi : Intrinsic.ofLabel? f = some i)
    (hx : i.exec ws.tail m = .ok (some w) m₁) (hw : a.advance.write w d m₁ = .ok b m') :
    Steps image a m (.next b) m'
  | redraw {f : Label} {args : List Exp} {d : Destination} {ws : List Word} {i : Intrinsic}
    {m' : Machine} (h : a.Invokes m f args d) (hi : Intrinsic.ofLabel? f = some i)
    (hx : i.exec ws.tail m = .ok none m') : Steps image a m (.next a) m'

variable {image : Image} {a : Activation} {m m' : Machine} {out : Step}

lemma call_cases {f : Label} {args : List Exp} {d : Destination} (hi : a.Invokes m f args d)
    (h : a.call image f args d m = .ok out m') : a.Steps image m out m' := by
  obtain ⟨ws, m₁, hread, h⟩ := Exec.bind_ok.mp h
  obtain ⟨hv, rfl⟩ := Machine.read_ok_iff.mp hread
  cases hr : image.routines[f]? with
  | some r =>
    rw [hr] at h
    obtain ⟨rfl, rfl⟩ := Exec.pure_ok.mp h
    exact .call hi hv hr
  | none =>
    rw [hr] at h
    cases hl : Intrinsic.ofLabel? f with
    | none =>
      rw [hl] at h
      cases h
    | some i =>
      rw [hl] at h
      obtain ⟨r, m₁, hx, h⟩ := Exec.bind_ok.mp h
      cases r with
      | none =>
        obtain ⟨rfl, rfl⟩ := Exec.pure_ok.mp h
        exact .redraw hi hl hx
      | some w =>
        obtain ⟨b, m₂, hw, h⟩ := Exec.bind_ok.mp h
        obtain ⟨rfl, rfl⟩ := Exec.pure_ok.mp h
        exact .intrinsic hi hv hl hx hw

lemma step_cases (h : a.step image m = .ok out m') : a.Steps image m out m' := by
  have hjump : ∀ {s : Stm} {l : Label} {m₁ : Machine}, a.routine.code[a.pc]? = some s →
      l ∈ s.targets → m₁ = m →
      (do return Step.next (← Machine.read fun _ => a.goto l) : Exec Step) m₁ = .ok out m' →
        a.Steps image m out m' := by
    intro s l m₁ hs hl hm h
    obtain ⟨b, m₂, hread, h⟩ := Exec.bind_ok.mp h
    obtain ⟨hg, rfl⟩ := Machine.read_ok_iff.mp hread
    obtain ⟨rfl, rfl⟩ := Exec.pure_ok.mp h
    subst hm
    exact .goto hs hl hg
  cases hs : a.routine.code[a.pc]? with
  | none =>
    rw [step_end hs] at h
    obtain ⟨rfl, rfl⟩ := Exec.pure_ok.mp h
    exact .ret hs
  | some s =>
    cases s with
    | move dst src =>
      cases hc : src.isCall with
      | false =>
        rw [step_move hs hc] at h
        obtain ⟨d, m₁, hread, h⟩ := Exec.bind_ok.mp h
        obtain ⟨hd, rfl⟩ := Machine.read_ok_iff.mp hread
        obtain ⟨w, m₁, hread, h⟩ := Exec.bind_ok.mp h
        obtain ⟨hv, rfl⟩ := Machine.read_ok_iff.mp hread
        obtain ⟨b, m₁, hw, h⟩ := Exec.bind_ok.mp h
        obtain ⟨rfl, rfl⟩ := Exec.pure_ok.mp h
        exact .move hs hc hd hv hw
      | true =>
        cases src with
        | call f args =>
          rw [step_move_call hs] at h
          obtain ⟨d, m₁, hread, h⟩ := Exec.bind_ok.mp h
          obtain ⟨hd, rfl⟩ := Machine.read_ok_iff.mp hread
          exact call_cases (.inr ⟨dst, hs, hd⟩) h
        | _ => cases hc
    | exp x =>
      cases hc : x.isCall with
      | false =>
        rw [step_exp hs hc] at h
        obtain ⟨w, m₁, hread, h⟩ := Exec.bind_ok.mp h
        obtain ⟨-, rfl⟩ := Machine.read_ok_iff.mp hread
        obtain ⟨rfl, rfl⟩ := Exec.pure_ok.mp h
        exact .exp hs hc
      | true =>
        cases x with
        | call f args =>
          rw [step_exp_call hs] at h
          exact call_cases (.inl ⟨hs, rfl⟩) h
        | _ => cases hc
    | jump l =>
      rw [step_jump hs] at h
      exact hjump hs (List.mem_singleton_self l) rfl h
    | cjump c l l' =>
      rw [step_cjump hs] at h
      obtain ⟨w, m₁, hread, h⟩ := Exec.bind_ok.mp h
      obtain ⟨-, rfl⟩ := Machine.read_ok_iff.mp hread
      split at h
      · exact hjump hs (List.mem_cons_self ..) rfl h
      · split at h
        · exact hjump hs (List.mem_cons_of_mem _ (List.mem_singleton_self l')) rfl h
        · cases h
    | label l =>
      rw [step_label hs] at h
      obtain ⟨rfl, rfl⟩ := Exec.pure_ok.mp h
      exact .label hs
    | seq ss =>
      rw [step_seq hs] at h
      cases h

lemma write_destination {b : Activation} {w : Word} {d : Destination}
    (h : a.write w d m = .ok b m') : b.destination = a.destination := by
  cases d with
  | temp t =>
    obtain ⟨rfl, -⟩ := Exec.pure_ok.mp h
    rfl
  | discard =>
    obtain ⟨rfl, -⟩ := Exec.pure_ok.mp h
    rfl
  | memory address =>
    obtain ⟨_, m₁, -, hb⟩ := Exec.bind_ok.mp h
    obtain ⟨rfl, -⟩ := Exec.pure_ok.mp hb
    rfl

end Activation

lemma Routine.enter_activation {r : Routine} {args : List Word} {d : Destination} {m m' : Machine}
    {a : Activation} (h : r.enter args d m = .ok a m') : a = { routine := r, destination := d } := by
  delta enter at h
  simp only [Exec.bind_ok] at h
  obtain ⟨_, _, -, _, _, -, _, _, -, _, _, -, h⟩ := h
  split at h
  · cases h
  · exact (Exec.pure_ok.mp h).1.symm

namespace Thread

inductive Moves (image : Image) (t : Thread) (m : Machine) : Thread → Machine → Prop where
  | step {a : Activation} {m' : Machine} (h : t.current.Steps image m (.next a) m') :
    Moves image t m { t with current := a } m'
  | enter {r : Routine} {args : List Word} {d : Destination} {caller : Activation}
    {m₁ m' : Machine} (h : t.current.Steps image m (.call r args d caller) m₁)
    (he : r.enter args d m₁ = .ok { routine := r, destination := d } m') :
    Moves image t m ⟨{ routine := r, destination := d }, caller :: t.callers⟩ m'
  | leave {w : Word} {caller a : Activation} {callers : List Activation} {m₁ m' : Machine}
    (h : t.current.routine.code[t.current.pc]? = none)
    (hl : t.current.routine.leave m = .ok w m₁) (hc : t.callers = caller :: callers)
    (hw : caller.write w t.current.destination m₁ = .ok a m') : Moves image t m ⟨a, callers⟩ m'

lemma moves_of_advance {image : Image} {t t' : Thread} {m m' : Machine}
    (h : t.advance image m = .ok (.running t') m') : t.Moves image m t' m' := by
  obtain ⟨out, m₁, hs, h⟩ := Exec.bind_ok.mp h
  have hsteps := Activation.step_cases hs
  cases out with
  | next a =>
    obtain ⟨ht, rfl⟩ := Exec.pure_ok.mp h
    cases ht
    exact .step hsteps
  | call r args d caller =>
    obtain ⟨a, m₂, he, h⟩ := Exec.bind_ok.mp h
    obtain ⟨ht, rfl⟩ := Exec.pure_ok.mp h
    cases ht
    obtain rfl := Routine.enter_activation he
    exact .enter hsteps he
  | ret =>
    cases hsteps with
    | ret hend =>
      obtain ⟨w, m₂, hl, h⟩ := Exec.bind_ok.mp h
      cases hc : t.callers with
      | nil =>
        rw [hc] at h
        cases h
      | cons caller callers =>
        rw [hc] at h
        obtain ⟨a, m₃, hw, h⟩ := Exec.bind_ok.mp h
        obtain ⟨ht, rfl⟩ := Exec.pure_ok.mp h
        cases ht
        exact .leave hend hl hc hw

end Thread

lemma Image.start_cases {image : Image} {t : Thread} {m m' : Machine}
    (h : image.start m = .ok t m') :
    ∃ r m₁, image.routines[image.entry]? = some r ∧ r.frame.params ≤ wordSize ∧
      Machine.store (m.sp - r.frame.oldFp) (.ofInt m.fp) m = .ok () m₁ ∧
      r.enter [0] .discard m₁ = .ok { routine := r, destination := .discard } m' ∧
      t = ⟨{ routine := r, destination := .discard }, []⟩ := by
  delta start at h
  cases hr : image.routines[image.entry]? with
  | none =>
    rw [hr] at h
    cases h
  | some r =>
    rw [hr] at h
    dsimp only at h
    split at h
    · cases h
    · rename_i hp
      obtain ⟨m₀, _, hget, h⟩ := Exec.bind_ok.mp h
      cases hget
      obtain ⟨_, m₁, hs, h⟩ := Exec.bind_ok.mp h
      obtain ⟨a, _, he, h⟩ := Exec.bind_ok.mp h
      obtain ⟨rfl, rfl⟩ := Exec.pure_ok.mp h
      obtain rfl := Routine.enter_activation he
      exact ⟨r, m₁, rfl, Int.not_lt.mp hp, hs, he, rfl⟩

lemma Intrinsic.eq_randInt_of_exec_none {i : Intrinsic} {ws : List Word} {m m' : Machine}
    (h : i.exec ws m = .ok none m') : i = .randInt := by
  revert h
  fun_cases Intrinsic.exec i ws with
  | case1 w =>
    intro h
    obtain ⟨u, m₁, -, h⟩ := Exec.bind_ok.mp h
    cases h
  | case2 w =>
    intro h
    obtain ⟨u, m₁, -, h⟩ := Exec.bind_ok.mp h
    obtain ⟨u, m₁, -, h⟩ := Exec.bind_ok.mp h
    cases h
  | case3 w =>
    intro h
    obtain ⟨u, m₁, -, h⟩ := Exec.bind_ok.mp h
    cases h
  | case4 min max => exact fun _ => rfl
  | case5 w =>
    intro h
    cases h
  | case6 =>
    intro h
    cases h

end BlockLang
