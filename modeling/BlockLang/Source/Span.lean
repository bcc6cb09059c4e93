namespace BlockLang

structure Position where
  line : Nat
  column : Nat
deriving DecidableEq

def Position.text (p : Position) : String :=
  toString p.line ++ ":" ++ toString p.column

structure Span where
  start : Position
  stop : Position
deriving DecidableEq

namespace Span

def point (line column : Nat) : Span := ⟨⟨line, column⟩, ⟨line, column⟩⟩

def text (s : Span) : String :=
  if s.start = s.stop then "[" ++ s.start.text ++ "]"
  else "[" ++ s.start.text ++ "-" ++ s.stop.text ++ "]"

end Span

end BlockLang
