import BlockLang.Frame
import BlockLang.Code.Basic

namespace BlockLang.Code

inductive Chunk where
  | code (frame : Frame) (body : Stm)
  | data (access : Access) (literal : String)
  | global (access : Access)
deriving DecidableEq

structure Program where
  chunks : List Chunk
  entry : Label
deriving DecidableEq

end BlockLang.Code
