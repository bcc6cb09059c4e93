import BlockLang.Source.Span
import BlockLang.Text.Ink

namespace BlockLang

def diagnostic (p : Palette) (severity message : String) (span : Option Span) : String :=
  p.paint .boldRed severity ++ ": " ++ message ++
    (match span with
      | some span => " (at " ++ span.text ++ ")"
      | none => "")

end BlockLang
