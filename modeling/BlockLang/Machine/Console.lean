namespace BlockLang

/-- Where printed text goes. A writer may do with a write whatever it likes: given all writes so far,
the last one first, it takes some bytes of the last one and tells why no more, or takes all of it. -/
structure Console where
  written : Array UInt8 := #[]
  writes : List (Array UInt8) := []
  refusal : List (Array UInt8) → Option (Nat × String) := fun _ => none

namespace Console

def write (c : Console) (bytes : Array UInt8) : Option String × Console :=
  match c.refusal (bytes :: c.writes) with
  | none => (none, { c with written := c.written ++ bytes, writes := bytes :: c.writes })
  | some (taken, reason) => (some reason,
    { c with written := c.written ++ bytes.extract 0 taken, writes := bytes :: c.writes })

def full : String := "output is full"

def limited (limit : Nat) : Console where
  refusal
    | [] => none
    | bytes :: earlier =>
      let left := earlier.foldl (fun left bytes => left - bytes.size) limit
      if bytes.size ≤ left then none else some (left, full)

end Console

end BlockLang
