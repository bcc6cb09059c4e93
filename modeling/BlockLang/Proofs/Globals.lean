import BlockLang.Proofs.ControlFlow
import BlockLang.Proofs.Loading
import BlockLang.Proofs.StructuredCode
import BlockLang.Proofs.Words

/-! Loading a program whose only function is `main`: the globals get one word each, from the bottom
of memory on, and memory stays zero. -/

namespace BlockLang

open Code

namespace Memory

variable {m : Memory} {l : Label} {ls : List Label}

def reserve (m : Memory) (ls : List Label) : Memory :=
  ls.foldl (fun m l =>
    { m with labels := m.labels.insert l m.staticEnd, staticEnd := m.staticEnd + 8 }) m

lemma reserve_append (m : Memory) (ls ls' : List Label) :
    m.reserve (ls ++ ls') = (m.reserve ls).reserve ls' :=
  List.foldl_append

@[simp] lemma bytes_reserve (m : Memory) (ls : List Label) : (m.reserve ls).bytes = m.bytes := by
  induction ls generalizing m with
  | nil => rfl
  | cons l ls ih => exact ih _

@[simp] lemma size_reserve (m : Memory) (ls : List Label) : (m.reserve ls).size = m.size := by
  simp [Memory.size]

lemma staticEnd_reserve (m : Memory) (ls : List Label) :
    (m.reserve ls).staticEnd = m.staticEnd + 8 * ls.length := by
  induction ls generalizing m with
  | nil => simp [reserve]
  | cons l ls ih =>
    refine (ih _).trans ?_
    simp only [List.length_cons]
    omega

lemma labels_reserve_of_not_mem (h : l ∉ ls) : (m.reserve ls).labels[l]? = m.labels[l]? := by
  induction ls generalizing m with
  | nil => rfl
  | cons l' ls ih =>
    obtain ⟨hne, hls⟩ : l' ≠ l ∧ l ∉ ls := by simpa [eq_comm] using h
    refine (ih hls).trans ?_
    simp [Std.TreeMap.getElem?_insert, hne]

lemma labels_reserve (hn : ls.Nodup) {i : Nat} (h : ls[i]? = some l) :
    (m.reserve ls).labels[l]? = some (m.staticEnd + 8 * i) := by
  induction ls generalizing m i with
  | nil => simp at h
  | cons l' ls ih =>
    obtain ⟨hl, hn⟩ := List.nodup_cons.mp hn
    cases i with
    | zero =>
      obtain rfl : l' = l := by simpa using h
      refine (labels_reserve_of_not_mem hl).trans ?_
      simp
    | succ i =>
      refine (ih hn (by simpa using h)).trans ?_
      simp only [Option.some.injEq]
      omega

lemma load_new {size : Nat} {a : Int} (h : (Memory.new size).holds a 8 = true) :
    (Memory.new size).load a = .ok 0 := by
  refine load_of_zero h fun k _ => ?_
  rw [Memory.new, Array.getD_eq_getD_getElem?, Array.getElem?_replicate]
  split <;> rfl

lemma load_reserve (m : Memory) (ls : List Label) (a : Int) : (m.reserve ls).load a = m.load a := by
  simp [load, holds]

end Memory

namespace Image

lemma foldlM_globals (routines : Std.TreeMap Label Routine) (m : Memory) (ds : List Source.Def)
    (h : m.staticEnd + 8 * ds.length ≤ m.size) :
    (ds.map (globalChunk ·.name)).foldlM loadChunk (routines, m) =
      .ok (routines, m.reserve (ds.map (.named ·.name))) := by
  induction ds generalizing m with
  | nil => rfl
  | cons d ds ih =>
    rw [List.length_cons] at h
    have hnext : m.nextEnd wordSize = m.staticEnd + 8 := rfl
    have hfit : m.staticEnd + 8 ≤ m.size := by omega
    have halloc : loadChunk (routines, m) (globalChunk d.name) =
        .ok (routines, m.reserve [.named d.name]) := by
      simp [loadChunk, globalChunk, globalLabel, Memory.allocate, Access.size, hfit, hnext,
        Memory.reserve, bind, Except.bind, pure, Except.pure]
    have hrest : (m.reserve [.named d.name]).staticEnd + 8 * ds.length ≤
        (m.reserve [.named d.name]).size := by
      rw [Memory.staticEnd_reserve, Memory.size_reserve, List.length_singleton]
      omega
    rw [List.map_cons, List.foldlM_cons, halloc]
    exact (ih _ hrest).trans (by rw [← Memory.reserve_append]; rfl)

end Image

namespace Source.Program.Structured

open Lowering

variable {p : Program} {main : Node} {result : TypeExpr} {body : Expr}
variable {layout : Layout} {frame : Frame} {r : Fragment} {st st' : State} {k : Nat}
variable {before after : List Def}

def mainRoutine (frame : Frame) (r : Fragment) (n : Temp) : Routine :=
  ⟨frame, ((returning r.toExp).flat n).code.toArray,
    Routine.targetsOf ((returning r.toExp).flat n).code⟩

def loadedMemory (size : Nat) (globals : List Def) : Memory :=
  (Memory.new size).reserve (globals.map (.named ·.name))

lemma MainCode.load (C : MainCode p body layout frame r st st' k before after)
    {code : Code.Program} (hc : p.lower layout "main" = .ok code) {setup : Setup}
    (hroom : 8 * ((before ++ after).length + 1 : Int) ≤ setup.memorySize) :
    Image.load code setup = .ok
      (⟨(∅ : Std.TreeMap Label Routine).insert frame.label (mainRoutine frame r st'.nextTemp),
          .named "main"⟩,
        ⟨loadedMemory setup.memorySize (before ++ after), setup.memorySize - wordSize,
          setup.memorySize - wordSize, setup.generator, setup.console⟩) := by
  obtain rfl := Except.ok.inj (C.lower.symm.trans hc)
  have hsize : ∀ n, (Memory.new n).size = n := by
    intro n
    simp [Memory.size, Memory.new]
  have hstart : ∀ n, (Memory.new n).staticEnd = 8 := fun _ => rfl
  rw [List.length_append] at hroom
  have hbefore := Image.foldlM_globals ∅ (Memory.new setup.memorySize) before
    (by rw [hsize, hstart]; omega)
  have hafter := Image.foldlM_globals
    ((∅ : Std.TreeMap Label Routine).insert frame.label (mainRoutine frame r st'.nextTemp))
    ((Memory.new setup.memorySize).reserve (before.map (.named ·.name))) after
    (by rw [Memory.staticEnd_reserve, Memory.size_reserve, hsize, hstart, List.length_map]; omega)
  rw [← Memory.reserve_append, ← List.map_append] at hafter
  have hcode := Routine.ofBody_flat frame (returning r.toExp) st'.nextTemp
  have hmain : ∀ m, Image.loadChunk (∅, m)
      (.code frame (.seq ((returning r.toExp).flat st'.nextTemp).code)) =
        .ok ((∅ : Std.TreeMap Label Routine).insert frame.label
          (mainRoutine frame r st'.nextTemp), m) := by
    intro m
    simp [Image.loadChunk, hcode, mainRoutine, bind, Except.bind, pure, Except.pure]
  have hbytes : (loadedMemory setup.memorySize (before ++ after)).size = setup.memorySize := by
    rw [loadedMemory, Memory.size_reserve, hsize]
  have hfold : (before.map (globalChunk ·.name) ++
      .code frame (.seq ((returning r.toExp).flat st'.nextTemp).code) ::
        after.map (globalChunk ·.name)).foldlM Image.loadChunk (∅, Memory.new setup.memorySize) =
      .ok ((∅ : Std.TreeMap Label Routine).insert frame.label
        (mainRoutine frame r st'.nextTemp), loadedMemory setup.memorySize (before ++ after)) := by
    rw [List.foldlM_append, hbefore]
    change List.foldlM Image.loadChunk (∅, _) (_ :: _) = _
    rw [List.foldlM_cons, hmain]
    exact hafter
  unfold Image.load
  dsimp only
  rw [hfold]
  change Except.ok (_, Machine.mk _ ((loadedMemory _ _).size - wordSize)
    ((loadedMemory _ _).size - wordSize) _ _) = _
  rw [hbytes]

end Source.Program.Structured

end BlockLang
