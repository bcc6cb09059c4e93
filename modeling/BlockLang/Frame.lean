import BlockLang.Label
import BlockLang.Ty

/-! Activation frames and where variables live. The stack grows towards lower addresses: parameters
stand above the frame pointer, with the static link first, and below it stand the locals, the
caller's frame pointer and the arguments of calls. -/

namespace BlockLang

/-- Sizes are exact numbers that do not wrap around, and levels have no bound. -/
structure Frame where
  label : Label
  level : Nat
  locals : Int := 0
  params : Int := wordSize
  -- The largest argument area of a call made from this function.
  outgoing : Int := 0
deriving DecidableEq

namespace Frame

def oldFp (f : Frame) : Int := f.locals + wordSize

def size (f : Frame) : Int := f.locals + wordSize + f.outgoing

def nextParam (f : Frame) : Int := f.params

def addParam (f : Frame) (size : Int) : Frame := { f with params := f.params + size }

def nextLocal (f : Frame) (size : Int) : Int := -(f.locals + size)

def addLocal (f : Frame) (size : Int) : Frame := { f with locals := f.locals + size }

def addCall (f : Frame) (size : Int) : Frame :=
  { f with outgoing := if f.outgoing ≤ size then size else f.outgoing }

end Frame

/-- Offsets are from the frame pointer of the function on `level`. They do not wrap around, no more
than sizes do. -/
inductive Access where
  | global (size : Int) (label : Label)
  | stack (size offset : Int) (level : Nat)
  | param (size offset : Int) (level : Nat)
deriving DecidableEq

def Access.size : Access → Int
  | global size _ | stack size _ _ | param size _ _ => size

end BlockLang
