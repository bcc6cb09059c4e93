/-! The ChaCha stream of pseudo-random words with twelve rounds. -/

namespace BlockLang.Keystream

structure Row where
  w0 : UInt32
  w1 : UInt32
  w2 : UInt32
  w3 : UInt32
deriving DecidableEq

def rotateLeft (w n : UInt32) : UInt32 := (w <<< n) ||| (w >>> (32 - n))

def rotateRight (w n : UInt32) : UInt32 := (w >>> n) ||| (w <<< (32 - n))

namespace Row

def map (r : Row) (f : UInt32 → UInt32) : Row := ⟨f r.w0, f r.w1, f r.w2, f r.w3⟩

def zip (f : UInt32 → UInt32 → UInt32) (r s : Row) : Row :=
  ⟨f r.w0 s.w0, f r.w1 s.w1, f r.w2 s.w2, f r.w3 s.w3⟩

def add : Row → Row → Row := zip (· + ·)

def xorRotate (n : UInt32) (r s : Row) : Row := (zip (· ^^^ ·) r s).map (rotateLeft · n)

def turn (r : Row) : Row := ⟨r.w1, r.w2, r.w3, r.w0⟩

def toList (r : Row) : List UInt32 := [r.w0, r.w1, r.w2, r.w3]

end Row

structure Block where
  a : Row
  b : Row
  c : Row
  d : Row
deriving DecidableEq

namespace Block

def mix (s : Block) : Block :=
  let a := s.a.add s.b
  let d := s.d.xorRotate 16 a
  let c := s.c.add d
  let b := s.b.xorRotate 12 c
  let a := a.add b
  let d := d.xorRotate 8 a
  let c := c.add d
  let b := b.xorRotate 7 c
  ⟨a, b, c, d⟩

def slant (s : Block) : Block := ⟨s.a, s.b.turn, s.c.turn.turn, s.d.turn.turn.turn⟩

def unslant (s : Block) : Block := ⟨s.a, s.b.turn.turn.turn, s.c.turn.turn, s.d.turn⟩

def doubleRound (s : Block) : Block := s.mix.slant.mix.unslant

def doubleRounds (s : Block) : Nat → Block
  | 0 => s
  | n + 1 => (s.doubleRounds n).doubleRound

def add (s t : Block) : Block := ⟨s.a.add t.a, s.b.add t.b, s.c.add t.c, s.d.add t.d⟩

def toList (s : Block) : List UInt32 := s.a.toList ++ s.b.toList ++ s.c.toList ++ s.d.toList

end Block

structure Key where
  first : Row
  second : Row
deriving DecidableEq

def input (key : Key) (counter : UInt64) : Block :=
  ⟨⟨0x61707865, 0x3320646e, 0x79622d32, 0x6b206574⟩, key.first, key.second,
    ⟨counter.toUInt32, (counter >>> 32).toUInt32, 0, 0⟩⟩

def block (key : Key) (counter : UInt64) : Block :=
  ((input key counter).doubleRounds 6).add (input key counter)

end BlockLang.Keystream
