import BlockLang.Proofs.InternalFaults
import BlockLang.Proofs.StepCases

namespace BlockLang

open Code

lemma bind_eq_error {ε α β : Type} {x : Except ε α} {f : α → Except ε β} {e : ε} :
    x >>= f = .error e ↔ x = .error e ∨ ∃ a, x = .ok a ∧ f a = .error e := by
  cases x <;> simp [bind, Except.bind]

lemma foldlM_eq_error {ε α β : Type} {f : β → α → Except ε β} {xs : List α} {b : β} {e : ε} :
    xs.foldlM f b = .error e ↔
      ∃ before a after b', xs = before ++ a :: after ∧ before.foldlM f b = .ok b' ∧
        f b' a = .error e := by
  induction xs generalizing b with
  | nil => simp [pure, Except.pure]
  | cons x xs ih =>
    rw [List.foldlM_cons, bind_eq_error]
    constructor
    · rintro (h | ⟨b₁, h, hxs⟩)
      · exact ⟨[], x, xs, b, rfl, rfl, h⟩
      · obtain ⟨before, a, after, b', rfl, hb, ha⟩ := ih.mp hxs
        refine ⟨x :: before, a, after, b', rfl, ?_, ha⟩
        rw [List.foldlM_cons, h]
        exact hb
    · rintro ⟨before, a, after, b', hxs, hb, ha⟩
      cases before with
      | nil =>
        obtain ⟨rfl, rfl⟩ := List.cons.inj hxs
        obtain rfl := Except.ok.inj hb
        exact .inl ha
      | cons y before =>
        obtain ⟨rfl, rfl⟩ := List.cons.inj hxs
        cases hx : f b x with
        | error e' =>
          rw [List.foldlM_cons, hx] at hb
          cases hb
        | ok b₁ =>
          rw [List.foldlM_cons, hx] at hb
          exact .inr ⟨b₁, rfl, ih.mpr ⟨before, a, after, b', rfl, hb, ha⟩⟩

lemma Exec.Meets.external {α : Type} {x : Exec α} {Q : α → Prop} (h : ∀ B, Exec.Meets B x Q)
    {m m' : Machine} {e : Fault} (he : x m = .error e m') : e.isInternal = false := by
  have hm := h ⟨∅, ∅⟩ m fun l hl => hl.elim
  rw [he] at hm
  exact hm.2

lemma Machine.read_error_iff {α : Type} {f : Machine → Except Fault α} {m m' : Machine} {e : Fault} :
    read f m = .error e m' ↔ f m = .error e ∧ m = m' := by
  unfold read
  cases f m <;> simp

lemma Code.Exp.isPure_of_isCallOrPure {x : Exp} (hc : x.isCall = false)
    (h : x.isCallOrPure = true) : x.isPure = true := by
  cases x with
  | call f args => cases hc
  | _ => exact h

namespace Activation

variable {image : Image} {a : Activation} {m m' : Machine} {l : Label}

lemma eval_linear {x : Exp} (hx : x.isPure = true) : a.eval m x ≠ .error (.notLinearized l) := by
  intro h
  induction x using Exp.isPure.induct with
  | case1 w => cases h
  | case2 l' =>
    unfold eval Machine.nameValue at h
    split at h
    · cases h
    · split at h
      · cases h
      · split at h <;> cases h
  | case3 t =>
    unfold eval at h
    split at h <;> cases h
  | case4 x ih =>
    rcases bind_eq_error.mp h with h | ⟨w, -, h⟩
    · exact ih hx h
    · cases Machine.load_external h
  | case5 op x y ihx ihy =>
    obtain ⟨hx, hy⟩ : x.isPure = true ∧ y.isPure = true := by simpa [Exp.isPure] using hx
    rcases bind_eq_error.mp h with h | ⟨w, -, h⟩
    · exact ihx hx h
    rcases bind_eq_error.mp h with h | ⟨w', -, h⟩
    · exact ihy hy h
    · split at h <;> cases h
  | case6 f args => cases hx
  | case7 s x => cases hx

lemma evalAll_linear {xs : List Exp} (hx : xs.all Exp.isPure = true) :
    a.evalAll m xs ≠ .error (.notLinearized l) := by
  induction xs with
  | nil => exact fun h => nomatch h
  | cons x xs ih =>
    intro h
    obtain ⟨hx, hxs⟩ : x.isPure = true ∧ xs.all Exp.isPure = true := by simpa using hx
    rcases bind_eq_error.mp h with h | ⟨w, -, h⟩
    · exact eval_linear hx h
    rcases bind_eq_error.mp h with h | ⟨ws, -, h⟩
    · exact ih hxs h
    · cases h

lemma place_linear {x : Exp} (hx : x.isPure = true) : a.place m x ≠ .error (.notLinearized l) := by
  intro h
  cases x with
  | mem y =>
    rcases bind_eq_error.mp h with h | ⟨w, -, h⟩
    · exact eval_linear (x := y) hx h
    · cases h
  | _ => cases h

lemma write_linear {w : Word} {d : Destination} : a.write w d m ≠ .error (.notLinearized l) m' := by
  intro h
  cases Exec.Meets.external (fun B => write_meets (B := B) a w d) h

lemma goto_linear {l' : Label} : a.goto l' ≠ .error (.notLinearized l) := by
  intro h
  unfold goto at h
  split at h <;> cases h

lemma call_linear {f : Label} {args : List Exp} {d : Destination}
    (hargs : args.all Exp.isPure = true) :
    a.call image f args d m ≠ .error (.notLinearized l) m' := by
  intro h
  rcases Exec.bind_error.mp h with h | ⟨ws, m₁, -, h⟩
  · exact evalAll_linear hargs (Machine.read_error_iff.mp h).1
  cases hr : image.routines[f]? with
  | some r =>
    rw [hr] at h
    cases h
  | none =>
    rw [hr] at h
    cases hi : Intrinsic.ofLabel? f with
    | none =>
      rw [hi] at h
      cases h
    | some i =>
      rw [hi] at h
      rcases Exec.bind_error.mp h with h | ⟨out, m₂, -, h⟩
      · cases Exec.Meets.external (fun B => Intrinsic.exec_meets (B := B) i ws.tail) h
      cases out with
      | none => cases h
      | some w =>
        rcases Exec.bind_error.mp h with h | ⟨b, m₃, -, h⟩
        · exact write_linear h
        · cases h

lemma step_linear (hs : ∀ s, a.routine.code[a.pc]? = some s → s.isLinear = true) :
    a.step image m ≠ .error (.notLinearized l) m' := by
  have hread : ∀ {α : Type} {f : Machine → Except Fault α} {m₁ : Machine},
      f m₁ ≠ .error (.notLinearized l) → Machine.read f m₁ ≠ .error (.notLinearized l) m' :=
    fun hf h => hf (Machine.read_error_iff.mp h).1
  have hjump : ∀ {l' : Label} {m₁ : Machine},
      (do return Step.next (← Machine.read fun _ => a.goto l') : Exec Step) m₁ ≠
        .error (.notLinearized l) m' := by
    intro l' m₁ h
    rcases Exec.bind_error.mp h with h | ⟨b, m₂, -, h⟩
    · exact hread goto_linear h
    · cases h
  intro h
  cases hc : a.routine.code[a.pc]? with
  | none =>
    rw [step_end hc] at h
    cases h
  | some s =>
    have hs := hs s hc
    cases s with
    | move dst src =>
      obtain ⟨hdst, hsrc⟩ : dst.isPure = true ∧ src.isCallOrPure = true := by
        simpa [Stm.isLinear] using hs
      cases hx : src.isCall with
      | false =>
        rw [step_move hc hx] at h
        rcases Exec.bind_error.mp h with h | ⟨d, m₁, -, h⟩
        · exact hread (place_linear hdst) h
        rcases Exec.bind_error.mp h with h | ⟨w, m₂, -, h⟩
        · exact hread (eval_linear (Exp.isPure_of_isCallOrPure hx hsrc)) h
        rcases Exec.bind_error.mp h with h | ⟨b, m₃, -, h⟩
        · exact write_linear h
        · cases h
      | true =>
        cases src with
        | call f args =>
          rw [step_move_call hc] at h
          rcases Exec.bind_error.mp h with h | ⟨d, m₁, -, h⟩
          · exact hread (place_linear hdst) h
          · exact call_linear hsrc h
        | _ => cases hx
    | exp x =>
      cases hx : x.isCall with
      | false =>
        rw [step_exp hc hx] at h
        rcases Exec.bind_error.mp h with h | ⟨w, m₁, -, h⟩
        · exact hread (eval_linear (Exp.isPure_of_isCallOrPure hx hs)) h
        · cases h
      | true =>
        cases x with
        | call f args =>
          rw [step_exp_call hc] at h
          exact call_linear hs h
        | _ => cases hx
    | jump l' =>
      rw [step_jump hc] at h
      exact hjump h
    | cjump c l₁ l₂ =>
      rw [step_cjump hc] at h
      rcases Exec.bind_error.mp h with h | ⟨w, m₁, -, h⟩
      · exact hread (eval_linear hs) h
      · split at h
        · exact hjump h
        · split at h
          · exact hjump h
          · cases h
    | label l' =>
      rw [step_label hc] at h
      cases h
    | seq ss => cases hs

lemma Steps.routine {b : Activation} (h : a.Steps image m (.next b) m') : b.routine = a.routine := by
  cases h with
  | move _ _ _ _ hw => exact (write_keeps hw).1
  | exp => rfl
  | goto _ _ hg => exact goto_keeps hg
  | label => rfl
  | intrinsic _ _ _ _ hw => exact (write_keeps hw).1
  | redraw => rfl

end Activation

def Routine.Linear (r : Routine) : Prop := ∀ s ∈ r.code, s.isLinear = true

def Image.Linear (image : Image) : Prop :=
  ∀ (l : Label) (r : Routine), image.routines[l]? = some r → r.Linear

namespace Thread

def Linear (t : Thread) : Prop := ∀ a ∈ t.current :: t.callers, a.routine.Linear

variable {image : Image} {t t' : Thread} {m m' : Machine} {l : Label}

lemma Linear.moves (hi : image.Linear) (ht : t.Linear) (h : t.Moves image m t' m') : t'.Linear := by
  obtain ⟨hcurrent, hcallers⟩ := List.forall_mem_cons.mp ht
  cases h with
  | step h =>
    refine List.forall_mem_cons.mpr ⟨?_, hcallers⟩
    rw [h.routine]
    exact hcurrent
  | enter h =>
    cases h with
    | call _ _ hr =>
      exact List.forall_mem_cons.mpr
        ⟨hi _ _ hr, List.forall_mem_cons.mpr ⟨hcurrent, hcallers⟩⟩
  | leave _ _ hc hw =>
    rw [hc] at hcallers
    obtain ⟨hcaller, hcallers⟩ := List.forall_mem_cons.mp hcallers
    refine List.forall_mem_cons.mpr ⟨?_, hcallers⟩
    rw [(Activation.write_keeps hw).1]
    exact hcaller

lemma advance_linear (ht : t.Linear) : t.advance image m ≠ .error (.notLinearized l) m' := by
  have hcurrent := ht t.current (List.mem_cons_self ..)
  intro h
  rcases Exec.bind_error.mp h with h | ⟨out, m₁, -, h⟩
  · exact Activation.step_linear (fun s hs => hcurrent s (Array.mem_of_getElem? hs)) h
  cases out with
  | next a => cases h
  | call r args d caller =>
    rcases Exec.bind_error.mp h with h | ⟨a, m₂, -, h⟩
    · cases Exec.Meets.external (fun B => Routine.enter_meets (B := B) r args d) h
    · cases h
  | ret =>
    rcases Exec.bind_error.mp h with h | ⟨w, m₂, -, h⟩
    · cases Exec.Meets.external (fun B => Routine.leave_meets (B := B) t.current.routine) h
    cases hc : t.callers with
    | nil =>
      rw [hc] at h
      cases h
    | cons caller callers =>
      rw [hc] at h
      rcases Exec.bind_error.mp h with h | ⟨a, m₃, -, h⟩
      · exact Activation.write_linear h
      · cases h

lemma runFor_linear (hi : image.Linear) (ht : t.Linear) (fuel : Nat) :
    (t.runFor image fuel m).1 ≠ .fault (.notLinearized l) := by
  refine runFor_invariant (P := fun t _ => t.Linear) (Q := fun o _ => o ≠ .fault (.notLinearized l))
    (fun t m t' m' ht hr => ht.moves hi (moves_of_advance hr)) (fun t m w m' _ _ h => ?_)
    (fun t m e m' ht hr h => ?_) (fun t m _ h => ?_) fuel ht
  · cases h
  · obtain rfl := Outcome.fault.inj h
    exact advance_linear ht hr
  · cases h

end Thread

namespace Image

variable {image : Image} {m m' : Machine} {l : Label}

lemma start_linear : image.start m ≠ .error (.notLinearized l) m' := by
  intro h
  unfold start at h
  cases hr : image.routines[image.entry]? with
  | none =>
    rw [hr] at h
    cases h
  | some r =>
    rw [hr] at h
    dsimp only at h
    split at h
    · cases h
    · rcases Exec.bind_error.mp h with h | ⟨m₁, m₂, -, h⟩
      · cases h
      rcases Exec.bind_error.mp h with h | ⟨u, m₃, -, h⟩
      · cases Exec.Meets.external (fun B => Machine.store_meets (B := B) _ _) h
      rcases Exec.bind_error.mp h with h | ⟨a, m₄, -, h⟩
      · cases Exec.Meets.external (fun B => Routine.enter_meets (B := B) _ _ _) h
      · cases h

lemma run_linear (hi : image.Linear) (fuel : Nat) :
    (image.run fuel m).1 ≠ .fault (.notLinearized l) := by
  cases hs : image.start m with
  | ok t m' =>
    rw [run_of_start hs]
    obtain ⟨r, m₁, hr, -, -, -, rfl⟩ := start_cases hs
    apply Thread.runFor_linear hi
    exact List.forall_mem_singleton.mpr (hi _ _ hr)
  | error e m' =>
    rw [run_of_start_error hs]
    intro h
    obtain rfl := Outcome.fault.inj h
    exact start_linear hs

end Image

def Code.Chunk.isLinear : Chunk → Bool
  | .code _ body => body.statements.all Stm.isLinear
  | .data _ _ | .global _ => true

def Code.Program.FirstNonlinear (program : Code.Program) (before : List Chunk) (frame : Frame) : Prop :=
  ∃ body after, program.chunks = before ++ .code frame body :: after ∧
    (∃ s ∈ body.statements, s.isLinear = false) ∧ ∀ c ∈ before, c.isLinear = true

namespace Image

variable {program : Code.Program} {setup : Setup} {state state' : Std.TreeMap Label Routine × Memory}

lemma ofBody_error {frame : Frame} {body : Stm} {e : Fault} :
    Routine.ofBody frame body = .error e ↔
      (∃ s ∈ body.statements, s.isLinear = false) ∧ e = .notLinearized frame.label := by
  have hall : (∃ s ∈ body.statements, s.isLinear = false) ↔
      ¬body.statements.all Stm.isLinear = true := by simp
  unfold Routine.ofBody
  rw [hall]
  split
  · simp [*]
  · simp [*, eq_comm]

lemma linear_of_load {image : Image} {m : Machine} (h : load program setup = .ok (image, m)) :
    image.Linear := by
  intro l r hr s hs
  obtain ⟨frame, body, -, -, hb⟩ := (loaded_of_load h).origin l r hr
  unfold Routine.ofBody at hb
  split at hb
  · rename_i hall
    obtain rfl := Except.ok.inj hb
    exact List.all_eq_true.mp hall s (by simpa using hs)
  · cases hb

lemma isLinear_of_loadChunk {c : Chunk} (h : loadChunk state c = .ok state') : c.isLinear = true := by
  cases c with
  | code frame body => exact isLoadable_of_loadChunk h
  | data access text => rfl
  | global access => rfl

lemma loadChunk_error_cases {c : Chunk} {e : Fault} (h : loadChunk state c = .error e) :
    (∃ frame body, c = .code frame body ∧ (∃ s ∈ body.statements, s.isLinear = false) ∧
      e = .notLinearized frame.label) ∨
      c.isLinear = true ∧ ∃ address, e = .addressOutOfBounds address := by
  match c with
  | .code frame body =>
    rcases bind_eq_error.mp h with h | ⟨r, -, h⟩
    · obtain ⟨hs, rfl⟩ := ofBody_error.mp h
      exact .inl ⟨frame, body, rfl, hs, rfl⟩
    · cases h
  | .data (.global size l) text => exact .inr ⟨rfl, loadChunk_error rfl h⟩
  | .global (.global size l) => exact .inr ⟨rfl, loadChunk_error rfl h⟩
  | .data (.stack size offset level) text | .data (.param size offset level) text
  | .global (.stack size offset level) | .global (.param size offset level) =>
    exact .inr ⟨rfl, offset, (Except.error.inj h).symm⟩

lemma load_error_iff {e : Fault} :
    load program setup = .error e ↔
      program.chunks.foldlM loadChunk (∅, Memory.new setup.memorySize) = .error e := by
  unfold load
  rw [bind_eq_error]
  simp [pure, Except.pure]

lemma exists_load_iff :
    (∃ loaded, load program setup = .ok loaded) ↔
      ∃ state, program.chunks.foldlM loadChunk (∅, Memory.new setup.memorySize) = .ok state := by
  constructor
  · rintro ⟨⟨image, m⟩, h⟩
    obtain ⟨memory, hf, -⟩ := load_ok.mp h
    exact ⟨_, hf⟩
  · rintro ⟨⟨routines, memory⟩, h⟩
    exact ⟨(⟨routines, program.entry⟩, _), load_ok.mpr ⟨memory, h, rfl, rfl⟩⟩

lemma linear_of_foldlM {cs : List Chunk} (h : cs.foldlM loadChunk state = .ok state') :
    ∀ c ∈ cs, c.isLinear = true := by
  induction cs generalizing state with
  | nil => exact List.forall_mem_nil _
  | cons c cs ih =>
    rw [List.foldlM_cons] at h
    cases hc : loadChunk state c with
    | error e =>
      rw [hc] at h
      cases h
    | ok state₁ =>
      rw [hc] at h
      exact List.forall_mem_cons.mpr ⟨isLinear_of_loadChunk hc, ih h⟩

lemma load_nonlinear_iff {l : Label} :
    load program setup = .error (.notLinearized l) ↔
      ∃ before frame, program.FirstNonlinear before frame ∧ frame.label = l ∧
        ∃ loaded, load ⟨before, program.entry⟩ setup = .ok loaded := by
  simp only [load_error_iff, exists_load_iff, foldlM_eq_error]
  constructor
  · rintro ⟨before, c, after, state, hchunks, hbefore, hc⟩
    rcases loadChunk_error_cases hc with ⟨frame, body, rfl, hs, he⟩ | ⟨-, address, he⟩
    · obtain rfl := Fault.notLinearized.inj he
      exact ⟨before, frame, ⟨body, after, hchunks, hs, linear_of_foldlM hbefore⟩, rfl, state, hbefore⟩
    · cases he
  · rintro ⟨before, frame, ⟨body, after, hchunks, hs, -⟩, rfl, state, hbefore⟩
    refine ⟨before, .code frame body, after, state, hchunks, hbefore, ?_⟩
    exact bind_eq_error.mpr (.inl (ofBody_error.mpr ⟨hs, rfl⟩))

lemma load_error_before {before : List Chunk} {frame : Frame}
    (hf : program.FirstNonlinear before frame) {e : Fault}
    (h : load ⟨before, program.entry⟩ setup = .error e) :
    load program setup = .error e ∧ ∃ address, e = .addressOutOfBounds address := by
  obtain ⟨body, after, hchunks, -, hlinear⟩ := hf
  simp only [load_error_iff, foldlM_eq_error] at h ⊢
  obtain ⟨before₁, c, after₁, state, rfl, hbefore, hc⟩ := h
  refine ⟨⟨before₁, c, after₁ ++ .code frame body :: after, state, ?_, hbefore, hc⟩, ?_⟩
  · rw [hchunks, List.append_assoc, List.cons_append]
  · rcases loadChunk_error_cases hc with ⟨frame', body', rfl, ⟨s, hs, hn⟩, -⟩ | ⟨-, he⟩
    · have hbody := hlinear (.code frame' body') (by simp)
      rw [List.all_eq_true.mp hbody s hs] at hn
      cases hn
    · exact he

end Image

/-- No run of a program that has been loaded raises the fault of code that is not linear, however many
runs there were before and however they ended. On loading that fault is raised for the first function
with a statement that is not linear, unless a chunk before it finds no static memory. -/
theorem linearity_check_suffices (program : Code.Program) (setup : Setup) :
    (∀ image m₀ m, Image.load program setup = .ok (image, m₀) → image.Reruns m₀ m →
      ∀ fuel l, (image.run fuel m).1 ≠ .fault (.notLinearized l)) ∧
    (∀ l, Image.load program setup = .error (.notLinearized l) ↔
      ∃ before frame, program.FirstNonlinear before frame ∧ frame.label = l ∧
        ∃ loaded, Image.load ⟨before, program.entry⟩ setup = .ok loaded) ∧
    ∀ before frame e, program.FirstNonlinear before frame →
      Image.load ⟨before, program.entry⟩ setup = .error e →
      Image.load program setup = .error e ∧ ∃ address, e = .addressOutOfBounds address :=
  ⟨fun _ _ _ hl _ fuel _ => Image.run_linear (Image.linear_of_load hl) fuel,
    fun _ => Image.load_nonlinear_iff, fun _ _ _ hf h => Image.load_error_before hf h⟩

def strayJump : Code.Program where
  chunks := [.global (.global 8 (.named "x")),
    .code { label := .named "main", level := 1 } (.seq [
      .cjump (.mem (.name (.named "x"))) (.anonymous 0) (.anonymous 1), .label (.anonymous 1),
      .move (.mem (.name (.named "x"))) (.const 1), .jump (.anonymous 2)])]
  entry := .named "main"

def callInCall : Code.Program where
  chunks := strayJump.chunks ++
    [.code { label := .named "f", level := 1 } (.exp (.call (.named "f") [.call (.named "main") []]))]
  entry := .named "main"

def Outcome.isStray : Outcome → Bool
  | .fault (.unknownLabel _) => true
  | .fault _ | .value _ | .unfinished _ => false

theorem linearity_check_suffices_stray :
    (∃ image m₀ l, Image.load strayJump ⟨64, .ofSeed 0, none⟩ = .ok (image, m₀) ∧
      (image.run 9 m₀).1 = .fault (.unknownLabel l) ∧
      ∀ fuel l, (image.run fuel (image.run 9 m₀).2).1 ≠ .fault (.notLinearized l)) ∧
    Image.load callInCall ⟨64, .ofSeed 0, none⟩ = .error (.notLinearized (.named "f")) ∧
    Image.load callInCall ⟨8, .ofSeed 0, none⟩ = .error (.addressOutOfBounds 8) := by
  obtain ⟨⟨image, m₀⟩, hl, h⟩ := exists_ok_of_any (x := Image.load strayJump ⟨64, .ofSeed 0, none⟩)
    (f := fun state => (state.1.run 9 state.2).1.isStray) (by decide +kernel)
  have hfirst : callInCall.FirstNonlinear strayJump.chunks { label := .named "f", level := 1 } :=
    ⟨_, [], rfl, ⟨_, List.mem_singleton_self _, rfl⟩, by decide⟩
  refine ⟨?_, ?_, ?_⟩
  · cases ho : (image.run 9 m₀).1 with
    | fault e =>
      rw [ho] at h
      cases e with
      | unknownLabel l =>
        exact ⟨image, m₀, l, hl, ho, fun fuel =>
          (linearity_check_suffices strayJump _).1 image m₀ _ hl (.run .none 9) fuel⟩
      | _ => cases h
    | _ =>
      rw [ho] at h
      cases h
  · exact ((linearity_check_suffices callInCall _).2.1 _).mpr
      ⟨strayJump.chunks, _, hfirst, rfl, (image, m₀), hl⟩
  · exact ((linearity_check_suffices callInCall _).2.2 _ _ _ hfirst rfl).1

end BlockLang
