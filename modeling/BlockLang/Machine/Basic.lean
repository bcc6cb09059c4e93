import BlockLang.Machine.Console
import BlockLang.Machine.Generator
import BlockLang.Machine.Memory
import BlockLang.Code.Program

namespace BlockLang

open Code

/-- The registers `fp` and `sp` are exact numbers; only the words in memory wrap around. -/
structure Machine where
  memory : Memory
  fp : Int
  sp : Int
  generator : Generator
  console : Option Console

/-- An action of the machine. A fault leaves the machine as it is at that moment. -/
abbrev Exec := EStateM Fault Machine

structure Routine where
  frame : Frame
  code : Array Stm
  targets : Std.TreeMap Label Nat

namespace Routine

def targetsOf (body : List Stm) : Std.TreeMap Label Nat :=
  body.zipIdx.foldl (fun targets entry =>
    match entry.1 with
    | .label l => targets.insert l entry.2
    | _ => targets) ∅

def ofBody (frame : Frame) (body : Stm) : Except Fault Routine :=
  if body.statements.all Stm.isLinear then
    .ok ⟨frame, body.statements.toArray, targetsOf body.statements⟩
  else .error (.notLinearized frame.label)

end Routine

structure Image where
  routines : Std.TreeMap Label Routine
  entry : Label

def defaultMemorySize : Nat := 64 * 1024

structure Setup where
  memorySize : Nat := defaultMemorySize
  generator : Generator
  console : Option Console

namespace Image

def globalLabel : Access → Except Fault Label
  | .global _ label => .ok label
  | .stack _ offset _ | .param _ offset _ => .error (.addressOutOfBounds offset)

def loadChunk (state : Std.TreeMap Label Routine × Memory) :
    Chunk → Except Fault (Std.TreeMap Label Routine × Memory)
  | .code frame body => do
    let routine ← Routine.ofBody frame body
    return (state.1.insert frame.label routine, state.2)
  | .data access literal => do
    let (address, memory) ← state.2.allocate (← globalLabel access) access.size
    return (state.1, ← memory.storeText address literal.toUTF8.data.toList)
  | .global access => do
    let (_, memory) ← state.2.allocate (← globalLabel access) access.size
    return (state.1, memory)

/-- Lays out static data in the order of the chunks. Of two functions with one label the later one
counts. Both registers start at the last word of memory. -/
def load (program : Program) (setup : Setup) : Except Fault (Image × Machine) := do
  let (routines, memory) ← program.chunks.foldlM loadChunk (∅, Memory.new setup.memorySize)
  let top := memory.size - wordSize
  return (⟨routines, program.entry⟩, ⟨memory, top, top, setup.generator, setup.console⟩)

end Image

namespace Machine

def store (address : Int) (w : Word) : Exec Unit := fun m =>
  match m.memory.store address w with
  | .ok memory => .ok () { m with memory }
  | .error e => .error e m

theorem store_eq (address : Int) (w : Word) (m : Machine) :
    store address w m =
      if m.memory.holds address 8 then
        .ok () { m with memory := m.memory.write address w.toBytes }
      else .error (.addressOutOfBounds address) m := by
  unfold store Memory.store
  by_cases h : m.memory.holds address 8 = true
  · rw [if_pos h, if_pos h]
  · rw [if_neg h, if_neg h]

def storeAll (address : Int) : List Word → Exec Unit
  | [] => pure ()
  | w :: ws => do
    store address w
    storeAll (address + wordSize) ws

def read {α : Type} (f : Machine → Except Fault α) : Exec α := fun m =>
  match f m with
  | .ok a => .ok a m
  | .error e => .error e m

def print (line : String) : Exec Unit := fun ⟨memory, fp, sp, generator, console⟩ =>
  match console with
  | none => .ok () ⟨memory, fp, sp, generator, none⟩
  | some c =>
    match c.write (line ++ "\n").toUTF8.data with
    | (none, c) => .ok () ⟨memory, fp, sp, generator, some c⟩
    | (some reason, c) => .error (.output reason) ⟨memory, fp, sp, generator, some c⟩

def nameValue (m : Machine) (label : Label) : Except Fault Word :=
  if label = .framePointer then .ok (.ofInt m.fp)
  else if label = .stackPointer then .ok (.ofInt m.sp)
  else match m.memory.addressOf? label with
    | some address => .ok (.ofInt address)
    | none => .error (.unknownLabel label)

end Machine

end BlockLang
