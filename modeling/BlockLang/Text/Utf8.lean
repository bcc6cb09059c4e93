namespace BlockLang.Utf8

def replacement : Char := '\uFFFD'

structure Pending where
  value : Nat
  missing : Nat
  low : UInt8
  high : UInt8
deriving DecidableEq

/-- The longer characters that `b` can begin. The second byte's range leaves out overlong forms,
surrogates and numbers past the last code point. -/
def Pending.ofLead? (b : UInt8) : Option Pending :=
  if b < 0xC2 then none
  else if b < 0xE0 then some ⟨b.toNat % 32, 1, 0x80, 0xBF⟩
  else if b < 0xF0 then
    some ⟨b.toNat % 16, 2, if b = 0xE0 then 0xA0 else 0x80, if b = 0xED then 0x9F else 0xBF⟩
  else if b < 0xF5 then
    some ⟨b.toNat % 8, 3, if b = 0xF0 then 0x90 else 0x80, if b = 0xF4 then 0x8F else 0xBF⟩
  else none

def Pending.extend (p : Pending) (b : UInt8) : Pending :=
  ⟨p.value * 64 + b.toNat % 64, p.missing - 1, 0x80, 0xBF⟩

structure Decoder where
  out : String := ""
  pending : Option Pending := none

namespace Decoder

def emit (d : Decoder) (c : Char) : Decoder := ⟨d.out.push c, none⟩

def start (d : Decoder) (b : UInt8) : Decoder :=
  if b < 0x80 then d.emit (Char.ofNat b.toNat)
  else match Pending.ofLead? b with
    | some p => ⟨d.out, some p⟩
    | none => d.emit replacement

def step (d : Decoder) (b : UInt8) : Decoder :=
  match d.pending with
  | none => d.start b
  | some p =>
    if p.low ≤ b && b ≤ p.high then
      let q := p.extend b
      if q.missing = 0 then d.emit (Char.ofNat q.value) else ⟨d.out, some q⟩
    else (d.emit replacement).start b

def finish (d : Decoder) : String :=
  match d.pending with
  | none => d.out
  | some _ => d.out.push replacement

end Decoder

def decode (bytes : Array UInt8) : String :=
  (bytes.foldl Decoder.step {}).finish

end BlockLang.Utf8
