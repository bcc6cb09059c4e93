import BlockLang.Command

namespace BlockLang

def usage : String :=
  "Usage: pinsc list\n" ++
  "       pinsc run <DEMO> [--memory-size <N>] [--seed <N>] [--dump-ir]\n" ++
  "       pinsc --version\n"

/-- More steps than a run can take in practice. -/
def patience : Nat := 4611686018427387904

end BlockLang

open BlockLang in
def main (args : List String) : IO UInt32 := do
  let stdout ← IO.getStdout
  let stderr ← IO.getStderr
  let palette := if ← stdout.isTty then Palette.ansi else Palette.plain
  let entropy := (← IO.getRandomBytes 8).foldl (fun n b => n * 256 + b.toUInt64) 0
  let command := Command.ofArgs? args
  match Command.report palette entropy patience command with
  | none => return 1
  | some report =>
    stdout.putStr report.stdout
    stderr.putStr (if command.isNone then usage else report.stderr)
    return report.code.toUInt32
