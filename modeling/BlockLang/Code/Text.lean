import BlockLang.Text.Ink
import BlockLang.Text.Quoted
import BlockLang.Code.Program

namespace BlockLang.Code

def mnemonic : Op → String
  | .add => "ADD"
  | .sub => "SUB"
  | .mul => "MUL"
  | .div => "DIV"
  | .mod => "MOD"
  | .and => "AND"
  | .or => "OR"
  | .eq => "EQ"
  | .ne => "NEQ"
  | .lt => "LT"
  | .gt => "GT"
  | .le => "LEQ"
  | .ge => "GEQ"

def tempText (p : Palette) (t : Temp) : String :=
  p.paint .yellow ("T" ++ toString t.toNat)

def labelText (p : Palette) (l : Label) : String :=
  p.paint .blue l.text

mutual

def Exp.text (p : Palette) : Exp → String
  | .const w => p.paint .magenta (toString w.toInt)
  | .name l => labelText p l
  | .mem a => p.paint .cyan "MEM" ++ "[" ++ a.text p ++ "]"
  | .temp t => tempText p t
  | .binop op a b => p.paint .cyan (mnemonic op) ++ "(" ++ a.text p ++ ", " ++ b.text p ++ ")"
  | .call l args =>
    p.paint .cyan "CALL" ++ " " ++ labelText p l ++ "(" ++ ", ".intercalate (Exp.texts p args) ++ ")"
  | .eseq s e => p.paint .red "ESEQ" ++ "(" ++ s.text p ++ "; " ++ e.text p ++ ")"

def Exp.texts (p : Palette) : List Exp → List String
  | [] => []
  | e :: es => e.text p :: Exp.texts p es

def Stm.text (p : Palette) : Stm → String
  | .move dst src =>
    p.paint .cyan "MOVE" ++ " " ++ dst.text p ++ " " ++ p.paint .white "<-" ++ " " ++ src.text p
  | .exp e => p.paint .cyan "EXP" ++ " " ++ e.text p
  | .seq ss => p.paint .red "SEQ" ++ "\x7b" ++ "; ".intercalate (Stm.texts p ss) ++ "\x7d"
  | .cjump c l m =>
    p.paint .cyan "CJUMP" ++ " " ++ c.text p ++ " " ++ labelText p l ++ " " ++ labelText p m
  | .jump l => p.paint .cyan "JUMP" ++ " " ++ labelText p l
  | .label l => p.paint .brightRed (l.text ++ ":")

def Stm.texts (p : Palette) : List Stm → List String
  | [] => []
  | s :: ss => s.text p :: Stm.texts p ss

end

def signed (n : Int) : String :=
  if n < 0 then toString n else "+" ++ toString n

def accessText : Access → String
  | .global _ label => label.text
  | .stack _ offset _ | .param _ offset _ => "FP" ++ signed offset

def bytesText (p : Palette) (access : Access) : String :=
  p.paint .white ("[" ++ toString access.size ++ " bytes]")

def frameText (p : Palette) (f : Frame) : String :=
  p.paint .white ("[level " ++ toString f.level ++ ", locals " ++ toString f.locals ++ ", params " ++
    toString f.params ++ ", outgoing " ++ toString f.outgoing ++ ", size " ++ toString f.size ++ "]")

def Stm.line (p : Palette) (s : Stm) : String :=
  match s with
  | .label _ => "  " ++ s.text p ++ "\n"
  | _ => "    " ++ s.text p ++ "\n"

def Chunk.text (p : Palette) : Chunk → String
  | .code frame body =>
    p.paint .magenta "fn" ++ " " ++ labelText p frame.label ++ " " ++ frameText p frame ++ "\n" ++
      String.join (body.statements.map (·.line p))
  | .data access literal =>
    p.paint .magenta "data" ++ " " ++ p.paint .blue (accessText access) ++ " " ++
      bytesText p access ++ " " ++ p.paint .green (Text.quote literal) ++ "\n"
  | .global access =>
    p.paint .magenta "global" ++ " " ++ p.paint .blue (accessText access) ++ " " ++
      bytesText p access ++ "\n"

def Program.text (p : Palette) (program : Program) : String :=
  String.join (program.chunks.map (·.text p)) ++
    p.paint .magenta "entry" ++ " " ++ labelText p program.entry ++ "\n"

end BlockLang.Code
