import BlockLang.Compile
import BlockLang.Machine.Run
import BlockLang.Source.Sample
import BlockLang.Code.Text

namespace BlockLang

open Source

structure RunOptions where
  sample : Sample
  memorySize : Nat := defaultMemorySize
  seed : Option UInt64 := none
  dump : Bool := false

inductive Command where
  | list
  | version
  | run (options : RunOptions)

structure Report where
  code : UInt8
  stdout : String := ""
  stderr : String := ""

namespace Command

def number? (text : String) : Option Nat :=
  let digits := match text.toList with
    | '+' :: digits => digits
    | digits => digits
  if digits ≠ [] ∧ digits.all Char.isDigit then
    let n := digits.foldl (fun n c => n * 10 + (c.toNat - '0'.toNat)) 0
    if n < UInt64.size then some n else none
  else none

inductive Arg where
  | sample (text : String)
  | memorySize (text : String)
  | seed (text : String)
  | dump

namespace Arg

def isValue (text : String) : Bool := text = "-" || text.toList.head? ≠ some '-'

def joined? (option text : String) : Option String :=
  let start := (option ++ "=").toList
  if start.isPrefixOf text.toList then some (String.ofList (text.toList.drop start.length)) else none

def ofText? (text : String) : Option Arg :=
  if text = "--dump-ir" then some .dump
  else if isValue text then some (.sample text)
  else (joined? "--memory-size" text).map .memorySize <|> (joined? "--seed" text).map .seed

def readAll : List String → Option (List Arg)
  | [] => some []
  | "--" :: rest => some (rest.map .sample)
  | "--memory-size" :: text :: rest =>
    if isValue text then (readAll rest).map (.memorySize text :: ·) else none
  | "--seed" :: text :: rest =>
    if isValue text then (readAll rest).map (.seed text :: ·) else none
  | text :: rest => do return (← ofText? text) :: (← readAll rest)

end Arg

structure Partial where
  sample : Option Sample := none
  memorySize : Option Nat := none
  seed : Option UInt64 := none
  dump : Bool := false

namespace Partial

def add (p : Partial) : Arg → Option Partial
  | .sample text =>
    if p.sample.isNone then (Sample.ofTitle? text).map ({ p with sample := some · }) else none
  | .memorySize text =>
    if p.memorySize.isNone then (number? text).map ({ p with memorySize := some · }) else none
  | .seed text =>
    if p.seed.isNone then (number? text).map ({ p with seed := some ·.toUInt64 }) else none
  | .dump => if p.dump then none else some { p with dump := true }

def finish (p : Partial) : Option RunOptions :=
  p.sample.map fun sample =>
    { sample, memorySize := p.memorySize.getD defaultMemorySize, seed := p.seed, dump := p.dump }

end Partial

def runOptions? (args : List String) : Option RunOptions := do
  let p ← (← Arg.readAll args).foldlM Partial.add {}
  p.finish

/-- Whether a text asks for the version; the short option counts as soon as its letter is read, so
the text may go on after it. -/
def asksVersion (text : String) : Bool :=
  text = "--version" || "-V".toList.isPrefixOf text.toList

def ofArgs? : List String → Option Command
  | ["list"] | ["list", "--"] => some .list
  | "run" :: args => (runOptions? args).map .run
  | text :: _ => if asksVersion text then some .version else none
  | [] => none

def pad (n : Nat) (text : String) : String :=
  text ++ String.ofList (List.replicate (n - text.length) ' ')

def listing (p : Palette) : String :=
  String.join (Sample.all.map fun s => p.paint .blue (pad 12 s.title) ++ " " ++ s.description ++ "\n")

def execute (p : Palette) (o : RunOptions) (generator : Generator) (fuel : Nat) : Option Report :=
  match Builder.run o.sample.build with
  | .error e => some { code := 1, stderr := e.message ++ "\n" }
  | .ok source =>
    match source.compile Sample.entry with
    | .error e => some { code := 1, stderr := e.render p ++ "\n" }
    | .ok program =>
      let dump := if o.dump then program.text p else ""
      match Image.load program ⟨o.memorySize, generator, some {}⟩ with
      | .error e => some { code := 1, stdout := dump, stderr := e.render p ++ "\n" }
      | .ok (image, machine) =>
        let (outcome, machine) := image.run fuel machine
        let written := (machine.console.map (Utf8.decode ·.written)).getD ""
        match outcome with
        | .value w =>
          some { code := 0, stdout := dump ++ written,
                 stderr := p.paint .green "result:" ++ " " ++ toString w.toInt ++ "\n" }
        | .fault e => some { code := 1, stdout := dump ++ written, stderr := e.render p ++ "\n" }
        | .unfinished _ => none

/-- Carries out a command; `entropy` seeds the random numbers if no seed is given. There is no
report if the fuel is used up. -/
def report (p : Palette) (entropy : UInt64) (fuel : Nat) : Option Command → Option Report
  | none => some { code := 2 }
  | some .list => some { code := 0, stdout := listing p }
  | some .version => some { code := 0, stdout := "pinsc 0.1.0\n" }
  | some (.run o) => execute p o (.ofSeed (o.seed.getD entropy)) fuel

end Command

end BlockLang
