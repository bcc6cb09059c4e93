import BlockLang.Word

namespace BlockLang

inductive Ty where
  | int
  | log
  | str
  | void
  | array (size : UInt64) (element : Ty)
  | function (params : List Ty) (result : Ty)

namespace Ty

mutual

def beq : Ty → Ty → Bool
  | int, int => true
  | log, log => true
  | str, str => true
  | void, void => true
  | array n a, array m b => n == m && beq a b
  | function ps r, function qs s => beqs ps qs && beq r s
  | _, _ => false
termination_by structural a => a

def beqs : List Ty → List Ty → Bool
  | [], [] => true
  | a :: as, b :: bs => beq a b && beqs as bs
  | _, _ => false
termination_by structural a => a

end

mutual

theorem beq_iff (a b : Ty) : beq a b = true ↔ a = b := by
  cases a <;> cases b <;> simp [beq]
  · rename_i a _ b
    simp [beq_iff a b]
  · rename_i ps r qs s
    simp [beqs_iff ps qs, beq_iff r s]

theorem beqs_iff (as bs : List Ty) : beqs as bs = true ↔ as = bs := by
  cases as <;> cases bs <;> simp [beqs]
  rename_i a as b bs
  simp [beq_iff a b, beqs_iff as bs]

end

instance : DecidableEq Ty := fun a b => decidable_of_iff _ (beq_iff a b)

mutual

def text : Ty → String
  | int => "integer"
  | log => "logical"
  | str => "string"
  | void => "void"
  | array n a => "arr[" ++ toString n.toNat ++ "] " ++ a.text
  | function ps r => "(" ++ ", ".intercalate (texts ps) ++ ") -> " ++ r.text

def texts : List Ty → List String
  | [] => []
  | a :: as => a.text :: texts as

end

/-- The bytes a value takes, as an exact number: it does not wrap around where it is no word. The length
of an array is read as a signed word. -/
def size : Ty → Int
  | int | log | str | function _ _ => wordSize
  | void => 0
  | array n a => n.toInt64.toInt * a.size

/-- The bytes a value takes as an argument: arrays are passed by address. -/
def paramSize : Ty → Int
  | array _ _ => wordSize
  | a => a.size

def isArray : Ty → Bool
  | array _ _ => true
  | _ => false

end Ty

end BlockLang
