import BlockLang.Machine.Keystream
import BlockLang.Word

namespace BlockLang

open Keystream

structure Generator where
  key : Key
  drawn : Nat := 0
deriving DecidableEq

namespace Generator

def seedStep (s : UInt64) : UInt64 := s * 6364136223846793005 + 11634580027462260723

def seedWord (s : UInt64) : UInt32 :=
  rotateRight (((s >>> 18) ^^^ s) >>> 27).toUInt32 (s >>> 59).toUInt32

def seedRow (s : UInt64) : Row × UInt64 :=
  let s0 := seedStep s
  let s1 := seedStep s0
  let s2 := seedStep s1
  let s3 := seedStep s2
  (⟨seedWord s0, seedWord s1, seedWord s2, seedWord s3⟩, s3)

def ofSeed (seed : UInt64) : Generator :=
  let first := seedRow seed
  { key := ⟨first.1, (seedRow first.2).1⟩ }

def current (g : Generator) : UInt64 :=
  let words := (block g.key (g.drawn / 8).toUInt64).toList
  let i := 2 * (g.drawn % 8)
  (words.getD (i + 1) 0).toUInt64 <<< 32 ||| (words.getD i 0).toUInt64

def next (g : Generator) : Generator := { g with drawn := g.drawn + 1 }

/-- Where low halves are cut off, so that each number of the range is equally likely. -/
def zone (range : UInt64) : UInt64 := (range <<< (63 - range.log2)) - 1

/-- A number from `min` up to but not including `max`, none if the draw has to be repeated: the high
half of the number drawn times the size of the range. -/
def pick (g : Generator) (min max : Word) : Option Word :=
  let range := (max - min).toUInt64
  let product := g.current.toNat * range.toNat
  if product.toUInt64 ≤ zone range then some (min + (product >>> 64).toUInt64.toInt64) else none

end Generator

end BlockLang
