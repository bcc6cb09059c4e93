import BlockLang.Diagnostic
import BlockLang.Intrinsic
import BlockLang.Code.Basic

namespace BlockLang

inductive Fault where
  | divisionByZero
  | invalidCondition (value : Word)
  | argumentCount (intrinsic : Intrinsic) (expected found : Nat)
  | notAFunction (label : Label)
  | addressOutOfBounds (address : Int)
  | uninitializedTemp (t : Temp)
  | unknownLabel (label : Label)
  | notLinearized (label : Label)
  | stackOverflow
  | emptyRange (min max : Word)
  | entryParameters (label : Label)
  | invalidDestination (label : Label)
  | output (reason : String)
deriving DecidableEq

namespace Fault

def message : Fault → String
  | divisionByZero => "division by zero"
  | invalidCondition value =>
    "condition evaluated to " ++ toString value.toInt ++ ", expected 0 or 1"
  | argumentCount intrinsic expected found =>
    "`" ++ intrinsic.name ++ "` takes " ++ toString expected ++
      " argument(s) but was called with " ++ toString found
  | notAFunction label => "`" ++ label.text ++ "` is not a function"
  | addressOutOfBounds address => "address " ++ toString address ++ " is outside of memory"
  | uninitializedTemp t => "temporary " ++ t.describe ++ " was read before it was written"
  | unknownLabel label => "label `" ++ label.text ++ "` does not exist"
  | notLinearized label => "body of `" ++ label.text ++ "` is not linearized"
  | stackOverflow => "stack overflow"
  | emptyRange min max =>
    "rand_int called with an empty range [" ++ toString min.toInt ++ ", " ++ toString max.toInt ++ ")"
  | entryParameters label => "entry function `" ++ label.text ++ "` must not take parameters"
  | invalidDestination label => "`" ++ label.text ++ "` is not a valid assignment target"
  | output reason => "failed to write output: " ++ reason

def render (p : Palette) (e : Fault) : String :=
  diagnostic p "runtime error" e.message none

end Fault

end BlockLang
