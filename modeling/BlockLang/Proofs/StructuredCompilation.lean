import BlockLang.Proofs.StructuredStart
import BlockLang.Proofs.Temporaries
import BlockLang.Proofs.TypeSoundness

namespace BlockLang

open Source Code Lowering

namespace Image

variable {image : Image} {m m' m'' : Machine} {o o' : Outcome} {fuel fuel' : Nat}

lemma run_eq_of_le (h : image.run fuel m = (o, m')) (ho : ∀ t, o ≠ .unfinished t)
    (h' : image.run fuel' m = (o', m'')) (hle : fuel ≤ fuel') : o' = o ∧ m'' = m' := by
  obtain ⟨n, rfl⟩ := Nat.exists_eq_add_of_le hle
  rw [run_add, h] at h'
  cases o with
  | unfinished t => exact (ho t rfl).elim
  | value | fault =>
    cases h'
    exact ⟨rfl, rfl⟩

lemma run_unique (h : image.run fuel m = (o, m')) (ho : ∀ t, o ≠ .unfinished t)
    (h' : image.run fuel' m = (o', m'')) (ho' : ∀ t, o' ≠ .unfinished t) : o' = o ∧ m'' = m' := by
  rcases Nat.le_total fuel fuel' with hle | hle
  · exact run_eq_of_le h ho h' hle
  · obtain ⟨rfl, rfl⟩ := run_eq_of_le h' ho' h hle
    exact ⟨rfl, rfl⟩

end Image

namespace Source.Program.Structured

variable {p : Program} {main : Node} {result : TypeExpr} {body : Expr}
variable {layout : Layout} {frame : Frame} {before after : List Def} {size : Nat}
variable {r : Fragment} {st st' : State} {k : Nat}

lemma MainCode.resolved (h : p.Structured main result body)
    (C : MainCode p body layout frame r st st' k before after) :
    (mainRoutine frame r st'.nextTemp).Resolved := by
  have hp := expr_places body (body.hasPlainCounters_of_wellTyped h.typed) C.lowered.run
  have hn : (labelsOf (returning r.toExp).controls).Nodup := hp.numbered.nodup
  rw [← Stm.controlsOf_flat _ st'.nextTemp] at hn
  exact Routine.resolved_of_nodup hn

lemma Fits.holds (F : Fits p main result body layout frame before after size)
    (generator : Generator) (console : Option Console) :
    F.placement.Holds ⟨fun _ => 0, console⟩
      ⟨startMemory frame (before ++ after) size, size - 8, size - 8 - frame.size, generator,
        console⟩ where
  fp := rfl
  labels := labels_startMemory _
  size := size_startMemory _
  console := rfl
  cells d hd := by
    change Memory.load _ (Int64.ofInt (cellAddress layout (before ++ after) size d)).toInt = _
    rw [F.toInt_cellAddress hd]
    exact F.load_startMemory hd

lemma MainCode.room (h : p.Structured main result body)
    (C : MainCode p body layout frame r st st' k before after) :
    st'.nextTemp.toNat = k ∧ k + r.toExp.saves < UInt32.size := by
  have hc := C.lowered.count
  have hr := h.room
  have hsize : UInt32.size = 4294967296 := rfl
  have hk : k + r.toExp.saves < UInt32.size := by
    change _ ≤ body.ids.length + body.voidOperands p.tables at hc
    omega
  refine ⟨?_, hk⟩
  have hzero : (Ident.ofNat 0 : Temp).toNat = 0 := rfl
  rw [C.lowered.nextTemp, C.nextTemp, Ident.toNat_advance_of_lt (by omega), hzero, Nat.zero_add]

lemma Fits.finish (F : Fits p main result body layout frame before after size) {image : Image}
    (hg : image.Genuine) {b : Activation} {m : Machine} {s : World} {v : Exp} {w : Word}
    (hf : b.routine.frame = frame) (hcode : b.routine.code[b.pc]? = some (returning v))
    (hend : b.routine.code[b.pc + 1]? = none) (hrel : F.placement.Holds s m)
    (hv : v.isPure = true) (he : b.eval m v = .ok w) :
    ∃ m', Thread.runFor image 2 ⟨b, []⟩ m = (.value w, m') ∧ m'.console = s.console := by
  obtain ⟨h0, h0', hs, hold⟩ := F.frame_size
  have hroom := F.room
  have hsmall := F.small
  have hfp : m.fp = size - 8 := hrel.fp
  have hsize : m.memory.size = size := hrel.size
  have hname : b.eval m (.name .framePointer) = .ok (.ofInt m.fp) := by
    simp [Activation.eval, Machine.nameValue]
  have htop : (Int64.ofInt m.fp).toInt = m.fp := Word.toInt_ofInt (by omega) (by omega)
  have hm : m.memory.holds m.fp 8 = true := Memory.holds_iff.mpr ⟨by omega, by omega⟩
  have hm' : m.memory.holds (m.fp - frame.oldFp) 8 = true :=
    Memory.holds_iff.mpr ⟨by omega, by omega⟩
  have hstore := Machine.store_of_holds (w := w) hm
  have hload := Memory.load_write (w := w) hm
  have hkept := Memory.holds_write m.memory m.fp (m.fp - frame.oldFp) w.toBytes 8
  rw [hm'] at hkept
  generalize m.memory.write m.fp w.toBytes = memory at *
  have hstep : Reach intrinsicCalls 1 b m b.advance { m with memory } :=
    .single hcode (Activation.exec_move_mem hv hname he (by rw [htop]; exact hstore))
  obtain ⟨fp, hleave⟩ := Routine.leave_ok (r := b.advance.routine) (m := { m with memory })
    (by change memory.holds (m.fp - b.routine.frame.oldFp) 8 = true; rw [hf]; exact hkept) hload
  refine ⟨{ m with memory, fp, sp := m.fp }, ?_, hrel.console⟩
  rw [Thread.runFor_of_reach hg hstep 1]
  exact Thread.runFor_of_leave hend hleave 0

lemma isProper_of_evaluate (h : p.Structured main result body) {console : Option Console}
    {rounds : Nat} {e : Fault} {s : World} (he : p.evaluate body console rounds = .fault e s) :
    IsProper console e := by
  have hsound : Sound p.tables console body.node (body.denote p.tables rounds) := body.sound h.typed
  have hs := hsound ⟨fun _ => 0, console⟩ ⟨fun _ _ => .inl rfl, fun _ hr => hr⟩
  change body.denote p.tables rounds ⟨fun _ => 0, console⟩ = _ at he
  rw [he] at hs
  exact hs

/-- The runs of the machine, one for each amount of fuel, end as an evaluation does. -/
def RunsAs (run : Nat → Outcome × Machine) (rounds : Nat) : Ending World Word → Prop
  | .done w s => ∃ fuel m, run fuel = (.value w, m) ∧ m.console = s.console
  | .fault e s => ∃ fuel m, run fuel = (.fault e, m) ∧ m.console = s.console
  | .unfinished => ∃ fuel t m, rounds ≤ fuel ∧ run fuel = (.unfinished t, m)

def mainThread (routine : Routine) : Thread := ⟨{ routine, destination := .discard }, []⟩

lemma Fits.thread_runsAs (F : Fits p main result body layout frame before after size)
    (C : MainCode p body layout frame r st st' k before after) {image : Image}
    (hg : image.Genuine) {m : Machine} {console : Option Console}
    (hm : F.placement.Holds ⟨fun _ => 0, console⟩ m) (rounds : Nat) :
    RunsAs (fun fuel => (mainThread (mainRoutine frame r st'.nextTemp)).runFor image fuel m) rounds
      (p.evaluate body console rounds) := by
  obtain ⟨hn, hk⟩ := C.room F.program
  have hat : (mainRoutine frame r st'.nextTemp).At 0 ((returning r.toExp).flat st'.nextTemp).code :=
    Routine.at_toArray _ _ [] _
  have hsize : (mainRoutine frame r st'.nextTemp).code.size =
      (r.toExp.operand st'.nextTemp).before.length + 1 := by
    simp [mainRoutine, flat_returning]
  rw [flat_returning, Routine.at_append, Nat.zero_add] at hat
  obtain ⟨hat, hlast, -⟩ := hat
  have hbound : st.nextTemp.toNat + k ≤ k := by
    rw [C.nextTemp]
    exact Nat.le_of_eq (Nat.zero_add k)
  have hc := (C.lowered.realizes F.placement _ (C.resolved F.program) rounds k hbound).computes
    st'.nextTemp { routine := mainRoutine frame r st'.nextTemp, destination := .discard } m
    ⟨fun _ => 0, console⟩ (Nat.le_of_eq hn.symm) (by rw [hn]; exact hk) rfl hat hm
  change Sim.Meets _ _ _ _ _ (p.evaluate body console rounds) at hc
  have hpure := r.toExp.operand_value_isPure st'.nextTemp
  cases hd : p.evaluate body console rounds with
  | done w s =>
    rw [hd] at hc
    obtain ⟨j, b, m', hr, ha, hrel, he, -⟩ := hc
    have hpc : b.pc = (r.toExp.operand st'.nextTemp).before.length := by
      rw [ha.pc, Nat.zero_add]
    have hr' : b.routine = mainRoutine frame r st'.nextTemp := ha.routine
    obtain ⟨m'', hrun, hconsole⟩ := F.finish hg (by rw [hr']; rfl) (by rw [hr', hpc]; exact hlast)
      (by rw [hr', hpc]; exact Array.getElem?_eq_none (Nat.le_of_eq hsize)) hrel hpure he
    exact ⟨j + 2, m'', (Thread.runFor_of_reach hg hr 2).trans hrun, hconsole⟩
  | fault e s =>
    have hproper : ∀ l, e ≠ .notAFunction l := by
      intro l he
      subst he
      rcases isProper_of_evaluate F.program hd with h | ⟨reason, h, -⟩ <;> cases h
    rw [hd] at hc
    rcases hc with ⟨j, b, m', m'', hr, hf, hconsole⟩ | ⟨j, b, m', hr, ha, hconsole, he, -⟩
    · exact ⟨j + 1, m'', (Thread.runFor_of_reach hg hr 1).trans
        (Thread.runFor_of_faults hg hf hproper 0), hconsole⟩
    · have hname : b.eval m' (.name .framePointer) = .ok (.ofInt m'.fp) := by
        simp [Activation.eval, Machine.nameValue]
      have hf : Faults intrinsicCalls b m' e m' := by
        refine ⟨returning (r.toExp.operand st'.nextTemp).value, ?_,
          Activation.exec_move_mem_value_error hpure hname he⟩
        rw [ha.routine, ha.pc, Nat.zero_add]
        exact hlast
      exact ⟨j + 1, m', (Thread.runFor_of_reach hg hr 1).trans
        (Thread.runFor_of_faults hg hf hproper 0), hconsole⟩
  | unfinished =>
    rw [hd] at hc
    obtain ⟨j, b, m', hle, hr⟩ := hc
    exact ⟨j, _, m', hle, Thread.runFor_of_reach hg hr 0⟩

lemma genuine_main (r : Routine) (entry : Label) :
    (Image.mk ((∅ : Std.TreeMap Label Routine).insert (.named "main") r) entry).Genuine := by
  intro i
  have hne : Label.named "main" ≠ i.label := by cases i <;> decide
  simp [hne]

lemma Fits.runsAs (F : Fits p main result body layout frame before after size)
    (C : MainCode p body layout frame r st st' k before after) (generator : Generator)
    (console : Option Console) (rounds : Nat) :
    RunsAs (fun fuel => Image.run ⟨(∅ : Std.TreeMap Label Routine).insert frame.label
          (mainRoutine frame r st'.nextTemp), .named "main"⟩ fuel
        ⟨loadedMemory size (before ++ after), size - 8, size - 8, generator, console⟩)
      rounds (p.evaluate body console rounds) := by
  have hroutine : (mainRoutine frame r st'.nextTemp).frame = frame := rfl
  have hstart := F.start hroutine generator console
  have hg : (Image.mk ((∅ : Std.TreeMap Label Routine).insert frame.label
      (mainRoutine frame r st'.nextTemp)) (.named "main")).Genuine := by
    rw [F.layout.label]
    exact genuine_main _ _
  have h := F.thread_runsAs C hg (F.holds generator console) rounds
  simp only [Image.run_of_start hstart]
  exact h

end Source.Program.Structured

lemma Source.Program.Structured.runs_iff {p : Program} {body : Expr} {console : Option Console}
    {image : Image} {m : Machine}
    (h : ∀ rounds, RunsAs (fun fuel => image.run fuel m) rounds (p.evaluate body console rounds)) :
    (∀ w c, (∃ rounds s, p.evaluate body console rounds = .done w s ∧ s.console = c) ↔
      ∃ fuel m', image.run fuel m = (.value w, m') ∧ m'.console = c) ∧
    ∀ e c, (∃ rounds s, p.evaluate body console rounds = .fault e s ∧ s.console = c) ↔
      ∃ fuel m', image.run fuel m = (.fault e, m') ∧ m'.console = c := by
  -- a run that ends in `fuel` steps tells how evaluation ends, as it is not unfinished for longer
  have hback : ∀ {fuel o m'}, image.run fuel m = (o, m') → (∀ t, o ≠ .unfinished t) →
      (∃ w s, p.evaluate body console (fuel + 1) = .done w s ∧ o = .value w ∧
        m'.console = s.console) ∨
      ∃ e s, p.evaluate body console (fuel + 1) = .fault e s ∧ o = .fault e ∧
        m'.console = s.console := by
    intro fuel o m' hr ho
    have hruns := h (fuel + 1)
    cases hd : p.evaluate body console (fuel + 1) with
    | done w s =>
      rw [hd] at hruns
      obtain ⟨fuel', m'', hr', hc⟩ := hruns
      obtain ⟨rfl, rfl⟩ := Image.run_unique hr' (fun _ h => nomatch h) hr ho
      exact .inl ⟨w, s, rfl, rfl, hc⟩
    | fault e s =>
      rw [hd] at hruns
      obtain ⟨fuel', m'', hr', hc⟩ := hruns
      obtain ⟨rfl, rfl⟩ := Image.run_unique hr' (fun _ h => nomatch h) hr ho
      exact .inr ⟨e, s, rfl, rfl, hc⟩
    | unfinished =>
      rw [hd] at hruns
      obtain ⟨fuel', t, m'', hle, hr'⟩ := hruns
      obtain ⟨rfl, -⟩ := Image.run_eq_of_le hr ho hr' (by omega)
      exact (ho t rfl).elim
  refine ⟨fun w c => ⟨?_, ?_⟩, fun e c => ⟨?_, ?_⟩⟩
  · rintro ⟨rounds, s, he, rfl⟩
    have hruns := h rounds
    rw [he] at hruns
    exact hruns
  · rintro ⟨fuel, m', hr, rfl⟩
    rcases hback hr (fun _ h => nomatch h) with ⟨w', s, he, hw, hc⟩ | ⟨_, _, _, hw, _⟩
    · obtain rfl := Outcome.value.inj hw
      exact ⟨_, s, he, hc.symm⟩
    · cases hw
  · rintro ⟨rounds, s, he, rfl⟩
    have hruns := h rounds
    rw [he] at hruns
    exact hruns
  · rintro ⟨fuel, m', hr, rfl⟩
    rcases hback hr (fun _ h => nomatch h) with ⟨_, _, _, hw, _⟩ | ⟨e', s, he, hw, hc⟩
    · cases hw
    · obtain rfl := Outcome.fault.inj hw
      exact ⟨_, s, he, hc.symm⟩

namespace Source.Program

def staticSize (p : Program) : Int :=
  wordSize * (1 + (p.defs.definitions.countP p.tables.isVariable : Int))

namespace Structured

variable {p : Program} {main : Node} {result : TypeExpr} {body : Expr}

lemma staticSize_eq {before after : List Def}
    (hd : p.defs.definitions = before ++ .func main "main" [] result body :: after)
    (hb : before.all p.tables.isVariable = true) (ha : after.all p.tables.isVariable = true) :
    p.staticSize = 8 * ((before ++ after).length + 1 : Int) := by
  have hmain : p.tables.isVariable (.func main "main" [] result body) = false := rfl
  have hbefore := List.countP_eq_length.mpr (List.all_eq_true.mp hb)
  have hafter := List.countP_eq_length.mpr (List.all_eq_true.mp ha)
  have hword : wordSize = 8 := rfl
  rw [staticSize, hd, List.countP_append, List.countP_cons, hbefore, hafter, hmain, hword,
    List.length_append]
  simp only [Bool.false_eq_true, if_false]
  omega

lemma compile_eq {layout : Layout} {code : Code.Program} (hl : p.layout = .ok layout)
    (hc : p.lower layout "main" = .ok code) : p.compile "main" = .ok code := by
  simp [Program.compile, Program.compileWith, hl, hc, Except.mapError, bind, Except.bind]

end Structured

end Source.Program

/-- Compiling a program of globals and one function `main` that calls nothing but what prints
succeeds. If memory is large enough for the static area and the frame of `main`, loading succeeds,
and the machine ends with a value or a fault if and only if direct evaluation does, with the same
text printed. -/
theorem compile_keeps_meaning {p : Source.Program} {main : Node} {result : TypeExpr} {body : Expr}
    (h : p.Structured main result body) :
    ∃ code layout frame, p.layout = .ok layout ∧ layout.frames[main.id]? = some frame ∧
      p.compile "main" = .ok code ∧
      ∀ setup : Setup, p.staticSize + frame.size + wordSize ≤ setup.memorySize →
        setup.memorySize < wordBound →
        ∃ image m, Image.load code setup = .ok (image, m) ∧
          (∀ w console,
            (∃ rounds s, p.evaluate body setup.console rounds = .done w s ∧
              s.console = console) ↔
            ∃ fuel m', image.run fuel m = (.value w, m') ∧ m'.console = console) ∧
          (∀ e console,
            (∃ rounds s, p.evaluate body setup.console rounds = .fault e s ∧
              s.console = console) ↔
            ∃ fuel m', image.run fuel m = (.fault e, m') ∧ m'.console = console) ∧
          ∀ fuel e m', image.run fuel m = (.fault e, m') →
            e = .divisionByZero ∨
              ∃ reason, e = .output reason ∧ Console.Refuses setup.console reason := by
  obtain ⟨before, after, hd, hb, ha⟩ := h.split
  obtain ⟨layout, frame, hl, L⟩ := h.mainLayout
  obtain ⟨r, st, st', k, C⟩ := L.mainCode h hd hb ha
  refine ⟨_, layout, frame, hl, L.frame_eq, Program.Structured.compile_eq hl C.lower, ?_⟩
  intro setup hroom hsmall
  rw [Program.Structured.staticSize_eq hd hb ha] at hroom
  have hword : wordSize = 8 := rfl
  have F : Program.Structured.Fits p main result body layout frame before after setup.memorySize :=
    ⟨h, L, hd, hb, ha, by omega, hsmall⟩
  obtain ⟨h0, h0', hs, -⟩ := F.frame_size
  obtain ⟨hvalue, hfault⟩ :=
    Program.Structured.runs_iff fun rounds => F.runsAs C setup.generator setup.console rounds
  refine ⟨_, _, C.load C.lower (by omega), hvalue, hfault, fun fuel e m' hr => ?_⟩
  obtain ⟨rounds, s, he, -⟩ := (hfault e m'.console).mpr ⟨fuel, m', hr, rfl⟩
  exact Program.Structured.isProper_of_evaluate h he

/-! Adds up numbers in a global, and then adds what a conditional leaves, which prints.
```text
var x: integer
fun main(): integer = { for i = 0, 3, 1: x = x + i; x + (if x < 4 then print_int(x)) } where
    var i: integer
```
-/

namespace Sum

def x (i : Nat) : Expr := .name (node i) "x"

def i (i : Nat) : Expr := .name (node i) "i"

def result : TypeExpr := .atom (node 4) .integer

def body : Expr :=
  .whereDefs (node 5)
    (.block (node 9) [
      .forLoop (node 10) (i 11) (number 12 0) (number 13 3) (number 14 1)
        (.binary (node 15) .assign (x 16) (.binary (node 17) (.compute .add) (x 18) (i 19))),
      .binary (node 20) (.compute .add) (x 21)
        (.ifThen (node 22) (.binary (node 23) (.compute .lt) (x 24) (number 25 4))
          (.call (node 26) "print_int" [x 27]))])
    (node 6) [.var (node 7) "i" (.atom (node 8) .integer)]

def each {α : Type} (a : α) (ids : List Nat) : List (NodeId × α) := ids.map fun i => (.ofNat i, a)

def types : NodeTable Ty :=
  .ofList (each Ty.int [1, 5, 7, 9, 11, 12, 13, 14, 16, 17, 18, 19, 20, 21, 24, 25, 27] ++
    each Ty.void [10, 15, 22, 26] ++ each Ty.log [23])

def bindings : NodeTable NodeId :=
  .ofList (each (.ofNat 1 : NodeId) [16, 18, 21, 24, 27] ++ each (.ofNat 7 : NodeId) [11, 19])

def program : Source.Program :=
  ⟨⟨node 0, [.var (node 1) "x" (.atom (node 2) .integer),
    .func (node 3) "main" [] result body]⟩, ⟨types, bindings⟩⟩

lemma structured : program.Structured (node 3) result body where
  unique := by decide
  main_mem := .tail _ (.head _)
  globals d hd := by
    rcases List.mem_cons.mp hd with rfl | hd
    · exact .inr (by decide +kernel)
    · exact .inl (List.mem_singleton.mp hd)
  names d hd d' hd' hv hv' _ := by
    rcases List.mem_cons.mp hd with rfl | hd
    · rcases List.mem_cons.mp hd' with rfl | hd'
      · rfl
      · obtain rfl := List.mem_singleton.mp hd'
        cases hv'
    · obtain rfl := List.mem_singleton.mp hd
      cases hv
  registers d hd hv := by
    rcases List.mem_cons.mp hd with rfl | hd
    · decide
    · obtain rfl := List.mem_singleton.mp hd
      cases hv
  typed := by decide +kernel
  room := by decide +kernel

end Sum

theorem compile_keeps_meaning_sum :
    (∃ code image m rounds s fuel m', Sum.program.compile "main" = .ok code ∧
      Image.load code { generator := .ofSeed 0, console := some (.limited 2) } = .ok (image, m) ∧
      Sum.program.evaluate Sum.body (some (.limited 2)) rounds = .done 3 s ∧
      image.run fuel m = (.value 3, m') ∧ m'.console = s.console ∧
      s.console.map (·.written) = some "3\n".toUTF8.data) ∧
    ∃ code image m fuel m', Sum.program.compile "main" = .ok code ∧
      Image.load code { generator := .ofSeed 0, console := some (.limited 1) } = .ok (image, m) ∧
      image.run fuel m = (.fault (.output Console.full), m') ∧
      m'.console.map (·.written) = some "3".toUTF8.data := by
  obtain ⟨code, layout, frame, hl, hf, hc, h⟩ := compile_keeps_meaning Sum.structured
  have hframe : (Sum.program.layout.toOption.bind (·.frames[(.ofNat 3 : NodeId)]?)).map Frame.size =
      some 32 := by decide +kernel
  have hsize : frame.size = 32 := by
    rw [hl] at hframe
    change (layout.frames[(node 3).id]?).map Frame.size = some 32 at hframe
    rw [hf] at hframe
    exact Option.some.inj hframe
  have hstatic : Sum.program.staticSize = 16 := by decide +kernel
  constructor
  · obtain ⟨image, m, hload, hvalue, -, -⟩ := h { generator := .ofSeed 0, console := some (.limited 2) }
      (by rw [hsize, hstatic]; decide) (by decide)
    obtain ⟨s, he, hs⟩ : ∃ s, Sum.program.evaluate Sum.body (some (.limited 2)) 4 = .done 3 s ∧
        s.console.map (·.written) = some "3\n".toUTF8.data := ⟨_, by rfl, by decide +kernel⟩
    obtain ⟨fuel, m', hrun, hconsole⟩ := (hvalue 3 s.console).mp ⟨4, s, he, rfl⟩
    exact ⟨code, image, m, 4, s, fuel, m', hc, hload, he, hrun, hconsole, hs⟩
  · obtain ⟨image, m, hload, -, hfault, -⟩ := h { generator := .ofSeed 0, console := some (.limited 1) }
      (by rw [hsize, hstatic]; decide) (by decide)
    obtain ⟨s, he, hs⟩ : ∃ s, Sum.program.evaluate Sum.body (some (.limited 1)) 4 =
        .fault (.output Console.full) s ∧ s.console.map (·.written) = some "3".toUTF8.data :=
      ⟨_, by rfl, by decide +kernel⟩
    obtain ⟨fuel, m', hrun, hconsole⟩ := (hfault _ s.console).mp ⟨4, s, he, rfl⟩
    exact ⟨code, image, m, fuel, m', hc, hload, hrun, hconsole ▸ hs⟩

end BlockLang
