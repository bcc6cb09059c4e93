import BlockLang.Diagnostic
import BlockLang.Lowering

namespace BlockLang

inductive CompileError where
  | layout (e : Layout.Error)
  | lowering (e : Lowering.Error)
deriving DecidableEq

namespace CompileError

def message : CompileError → String
  | layout e => e.message
  | lowering e => e.message

def render (p : Palette) : CompileError → String
  | layout e => diagnostic p "error" e.message none
  | lowering e => diagnostic p "error" e.cause.message (some e.span)

end CompileError

namespace Source.Program

def compileWith (p frames : Source.Program) (entry : String) : Except CompileError Code.Program := do
  let layout ← frames.layout.mapError .layout
  (p.lower layout entry).mapError .lowering

def compile (p : Source.Program) (entry : String) : Except CompileError Code.Program :=
  p.compileWith p entry

end Source.Program

end BlockLang
