import BlockLang.Frame
import BlockLang.Machine.Fault
import BlockLang.Text.Utf8

/-! Byte memory. The static area grows up from the bottom, and no address below one word is ever
handed out, so a zero static link is never the address of a frame. -/

namespace BlockLang

namespace Word

def lowBytes : Nat → UInt64 → List UInt8
  | 0, _ => []
  | n + 1, u => (u % 256).toUInt8 :: lowBytes n (u / 256)

def toBytes (w : Word) : List UInt8 := lowBytes 8 w.toUInt64

def ofBytes (bytes : List UInt8) : Word :=
  UInt64.toInt64 (bytes.foldr (fun b u => u * 256 + b.toUInt64) 0)

theorem length_toBytes (w : Word) : w.toBytes.length = 8 := rfl

theorem ofBytes_toBytes (w : Word) : ofBytes w.toBytes = w := by
  have h : ∀ u : UInt64, (lowBytes 8 u).foldr (fun b u => u * 256 + b.toUInt64) 0 = u := by
    intro u
    apply UInt64.toNat_inj.mp
    have hu := u.toNat_lt
    simp [lowBytes, UInt64.toNat_div, UInt64.toNat_mod]
    omega
  simp [ofBytes, toBytes, h]

end Word

structure Memory where
  bytes : Array UInt8
  labels : Std.TreeMap Label Int := ∅
  staticEnd : Int := wordSize

namespace Memory

def setBytes (bytes : Array UInt8) (start : Nat) : List UInt8 → Array UInt8
  | [] => bytes
  | b :: bs => setBytes (bytes.setIfInBounds start b) (start + 1) bs

def getBytes (bytes : Array UInt8) (start : Nat) : Nat → List UInt8
  | 0 => []
  | n + 1 => bytes.getD start 0 :: getBytes bytes (start + 1) n

def findZero (bytes : Array UInt8) : Nat → Option Nat
  | 0 => none
  | n + 1 =>
    let i := bytes.size - (n + 1)
    if bytes.getD i 0 = 0 then some i else findZero bytes n

theorem size_setBytes (bytes : Array UInt8) (start : Nat) (bs : List UInt8) :
    (setBytes bytes start bs).size = bytes.size := by
  induction bs generalizing bytes start with
  | nil => rfl
  | cons b bs ih => simp [setBytes, ih]

theorem getElem?_setBytes (bytes : Array UInt8) (start : Nat) (bs : List UInt8) (i : Nat) :
    (setBytes bytes start bs)[i]? =
      if start ≤ i ∧ i < start + bs.length ∧ i < bytes.size then bs[i - start]? else bytes[i]? := by
  induction bs generalizing bytes start with
  | nil =>
    simp [setBytes]
    omega
  | cons b bs ih =>
    rw [setBytes, ih, Array.getElem?_setIfInBounds, Array.size_setIfInBounds]
    grind

theorem length_getBytes (bytes : Array UInt8) (start n : Nat) :
    (getBytes bytes start n).length = n := by
  induction n generalizing start with
  | zero => rfl
  | succ n ih => simp [getBytes, ih]

theorem getElem?_getBytes (bytes : Array UInt8) (start n k : Nat) :
    (getBytes bytes start n)[k]? = if k < n then some (bytes.getD (start + k) 0) else none := by
  induction n generalizing start k with
  | zero => simp [getBytes]
  | succ n ih =>
    cases k with
    | zero => simp [getBytes]
    | succ k => simp [getBytes, ih, Nat.add_comm, Nat.add_left_comm]

theorem getBytes_setBytes (bytes : Array UInt8) (start : Nat) (bs : List UInt8)
    (h : start + bs.length ≤ bytes.size) :
    getBytes (setBytes bytes start bs) start bs.length = bs := by
  apply List.ext_getElem?
  intro k
  rw [getElem?_getBytes, Array.getD_eq_getD_getElem?, getElem?_setBytes]
  grind

def new (size : Nat) : Memory := { bytes := .replicate size 0 }

def size (m : Memory) : Int := m.bytes.size

def holds (m : Memory) (address : Int) (n : Nat) : Bool :=
  0 ≤ address && address + n ≤ m.size

def write (m : Memory) (address : Int) (bytes : List UInt8) : Memory :=
  { m with bytes := setBytes m.bytes address.toNat bytes }

def load (m : Memory) (address : Int) : Except Fault Word :=
  if m.holds address 8 then .ok (.ofBytes (getBytes m.bytes address.toNat 8))
  else .error (.addressOutOfBounds address)

@[inline] def store (m : Memory) (address : Int) (w : Word) : Except Fault Memory :=
  if m.holds address 8 then .ok (m.write address w.toBytes)
  else .error (.addressOutOfBounds address)

def storeText (m : Memory) (address : Int) (text : List UInt8) : Except Fault Memory :=
  if m.holds address (text.length + 1) then .ok (m.write address (text ++ [0]))
  else .error (.addressOutOfBounds address)

def loadText (m : Memory) (address : Int) : Except Fault String :=
  if m.holds address 0 then
    match findZero m.bytes (m.bytes.size - address.toNat) with
    | some stop => .ok (Utf8.decode (m.bytes.extract address.toNat stop))
    | none => .error (.addressOutOfBounds m.size)
  else .error (.addressOutOfBounds address)

/-- The end of `size` bytes of static memory, if they come next: at least one whole word. -/
def nextEnd (m : Memory) (size : Int) : Int :=
  m.staticEnd + (if size ≤ 1 then 8 else (size + 7) / 8 * 8)

def allocate (m : Memory) (label : Label) (size : Int) : Except Fault (Int × Memory) :=
  if m.nextEnd size ≤ m.size then
    .ok (m.staticEnd,
      { m with labels := m.labels.insert label m.staticEnd, staticEnd := m.nextEnd size })
  else .error (.addressOutOfBounds m.staticEnd)

def addressOf? (m : Memory) (label : Label) : Option Int := m.labels[label]?

end Memory

end BlockLang
