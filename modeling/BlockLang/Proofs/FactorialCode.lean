import BlockLang.Compile
import BlockLang.Proofs.CallSequence
import BlockLang.Proofs.ConsoleText
import BlockLang.Proofs.ThreadRuns
import BlockLang.Source.Sample
import Mathlib.Data.List.Permutation
import Std.Internal.Do.WP.Lemmas

namespace BlockLang

open Source Code Lowering

namespace Factorial

def cell (offset : Int) : Exp := .mem ((Exp.name .framePointer).offset offset)

def temp (i : Nat) : Temp := .ofNat i

def callFact (t u : Temp) : Stm := .move (.temp t) (.call (.named "fact") [.const 0, .temp u])

def callCode (t u : Temp) : List Stm := [saveFp 16, callFact t u]

def code : List Stm := [
  .cjump (.binop .le (cell 8) (.const 1)) (.anonymous 0) (.anonymous 1),
  .label (.anonymous 0),
  .move (cell (-8)) (.const 1),
  .jump (.anonymous 2),
  .label (.anonymous 1),
  .move (.temp (temp 3)) ((Exp.name .framePointer).offset (-8)),
  .move (.temp (temp 2)) (cell 8),
  .move (.temp (temp 0)) (.binop .sub (cell 8) (.const 1)),
  saveFp 16,
  callFact (temp 1) (temp 0),
  .move (.mem (.temp (temp 3))) (.binop .mul (.temp (temp 2)) (.temp (temp 1))),
  .label (.anonymous 2),
  .move (cell 0) (cell (-8))]

def mainCode (input : Word) : List Stm := [
  .move (.temp (temp 4)) (.const input),
  saveFp 16,
  callFact (temp 7) (temp 4),
  .move (.temp (temp 5)) (.temp (temp 7)),
  .move (.temp (temp 8)) (.call (.named "print_int") [.const 0, .temp (temp 5)]),
  .move (.temp (temp 6)) (.const input),
  saveFp 16,
  callFact (temp 9) (temp 6),
  .move (cell 0) (.temp (temp 9))]

def frame : Frame := { label := .named "fact", level := 1, locals := 8, params := 16, outgoing := 16 }

def mainFrame : Frame := { label := .named "main", level := 1, outgoing := 16 }

def compiled (input : Word) : Code.Program :=
  ⟨[.code frame (.seq code), .code mainFrame (.seq (mainCode input))], .named "main"⟩

lemma compile_factorialProgram (input : Word) :
    ∃ p, Builder.run (Sample.factorialProgram input) = .ok p ∧
      p.compile Sample.entry = .ok (compiled input) := by
  -- The two library imports hold the equations that unfold the state monad here. The builder and the
  -- compiler are evaluated together, as comparing the tables by `rfl` takes too much memory.
  have h : ((Builder.run (Sample.factorialProgram input)).toOption.bind fun p =>
      (p.compile Sample.entry).toOption) = some (compiled input) := by cbv
  cases hp : Builder.run (Sample.factorialProgram input) with
  | error e =>
    rw [hp] at h
    cases h
  | ok p =>
    rw [hp] at h
    refine ⟨p, rfl, ?_⟩
    change (p.compile Sample.entry).toOption = some _ at h
    cases hc : p.compile Sample.entry with
    | error e =>
      rw [hc] at h
      cases h
    | ok c =>
      rw [hc] at h
      exact congrArg Except.ok (Option.some.inj h)

def routine : Routine := ⟨frame, code.toArray, Routine.targetsOf code⟩

lemma target_one : routine.targets[Label.anonymous 0]? = some 1 := by decide +kernel

lemma target_four : routine.targets[Label.anonymous 1]? = some 4 := by decide +kernel

lemma target_eleven : routine.targets[Label.anonymous 2]? = some 11 := by decide +kernel

def mainRoutine (input : Word) : Routine :=
  ⟨mainFrame, (mainCode input).toArray, Routine.targetsOf (mainCode input)⟩

def image (input : Word) : Image :=
  ⟨((∅ : Std.TreeMap Label Routine).insert (.named "fact") routine).insert (.named "main")
    (mainRoutine input), .named "main"⟩

def machine (setup : Setup) : Machine :=
  ⟨.new setup.memorySize, (setup.memorySize : Int) - 8, (setup.memorySize : Int) - 8,
    setup.generator, setup.console⟩

lemma load_compiled (input : Word) (setup : Setup) :
    Image.load (compiled input) setup = .ok (image input, machine setup) := by
  have hsize : (Memory.new setup.memorySize).size = setup.memorySize := by
    simp [Memory.new, Memory.size]
  rw [machine, ← hsize]
  rfl

lemma genuine_image (input : Word) : (image input).Genuine := by
  intro i
  have hfact : Label.named "fact" ≠ i.label := by cases i <;> decide
  have hmain : Label.named "main" ≠ i.label := by cases i <;> decide
  simp [image, hfact, hmain]

lemma routine_fact (input : Word) : (image input).routines[Label.named "fact"]? = some routine := by
  have h : ¬compare (Label.named "main") (.named "fact") = .eq := by decide
  rw [image, Std.TreeMap.getElem?_insert, if_neg h, Std.TreeMap.getElem?_insert_self]

lemma routine_main (input : Word) :
    (image input).routines[Label.named "main"]? = some (mainRoutine input) := by
  simp [image]

end Factorial

end BlockLang
