namespace BlockLang

inductive Ink where
  | red
  | green
  | yellow
  | blue
  | magenta
  | cyan
  | white
  | brightRed
  | boldRed
deriving DecidableEq

def Ink.code : Ink → String
  | red => "31"
  | green => "32"
  | yellow => "33"
  | blue => "34"
  | magenta => "35"
  | cyan => "36"
  | white => "37"
  | brightRed => "91"
  | boldRed => "1;31"

inductive Palette where
  | plain
  | ansi
deriving DecidableEq

namespace Palette

def reset : String := "\x1b[0m"

def paint : Palette → Ink → String → String
  | plain, _, text => text
  | ansi, ink, text =>
    let start := "\x1b[" ++ ink.code ++ "m"
    start ++ (reset ++ start).intercalate (text.splitOn reset) ++ reset

end Palette

end BlockLang
