import BootCard.Bytes

/-!
Reading bytes as UTF-8. A decoder takes one byte at a time and gives up on a character at the first
byte that it cannot have there. That byte is then read afresh, so that exactly one mark is left for
every maximal piece of an ill-formed text.
-/

namespace BootCard

namespace Utf8

/--
A character that has begun: the bits read, the number of bytes still missing, and the range in which
the next byte has to lie.
-/
structure Begun where
  bits : Nat
  missing : Nat
  low : UInt8 := 0x80
  high : UInt8 := 0xbf

inductive Start where
  | whole (c : Char)
  | begun (p : Begun)
  | invalid

/--
Reads the first byte of a character. The second byte's range leaves out overlong forms, surrogates
and values that are too large.
-/
def start (b : UInt8) : Start :=
  if b < 0x80 then .whole (Char.ofNat b.toNat)
  else if b < 0xc2 then .invalid
  else if b < 0xe0 then .begun { bits := b.toNat % 32, missing := 1 }
  else if b = 0xe0 then .begun { bits := 0, missing := 2, low := 0xa0 }
  else if b = 0xed then .begun { bits := 13, missing := 2, high := 0x9f }
  else if b < 0xf0 then .begun { bits := b.toNat % 16, missing := 2 }
  else if b = 0xf0 then .begun { bits := 0, missing := 3, low := 0x90 }
  else if b < 0xf4 then .begun { bits := b.toNat % 8, missing := 3 }
  else if b = 0xf4 then .begun { bits := 4, missing := 3, high := 0x8f }
  else .invalid

/-- The characters read so far, the last one first, and the character that has begun, if any. -/
structure Decoder where
  read : List (Option Char) := []
  begun : Option Begun := none

namespace Decoder

def feedFirst (read : List (Option Char)) (b : UInt8) : Decoder :=
  match start b with
  | .whole c => { read := some c :: read }
  | .begun p => { read := read, begun := some p }
  | .invalid => { read := none :: read }

def feed (d : Decoder) (b : UInt8) : Decoder :=
  match d.begun with
  | none => feedFirst d.read b
  | some p =>
    if p.low ≤ b && b ≤ p.high then
      let bits := p.bits * 64 + b.toNat % 64
      if p.missing ≤ 1 then
        { read := some (Char.ofNat bits) :: d.read }
      else
        { read := d.read, begun := some { bits := bits, missing := p.missing - 1 } }
    else
      feedFirst (none :: d.read) b

def finish (d : Decoder) : List (Option Char) :=
  match d.begun with
  | none => d.read.reverse
  | some _ => (none :: d.read).reverse

end Decoder

/-- The characters of a text, with `none` for every maximal ill-formed piece. -/
def decode (bs : Bytes) : List (Option Char) :=
  (bs.foldl Decoder.feed {}).finish

def decode? (bs : Bytes) : Option String :=
  let cs := decode bs
  if cs.all Option.isSome then
    some (String.ofList (cs.filterMap id))
  else
    none

/-- The text of a byte string, with U+FFFD for every maximal ill-formed piece. -/
def decodeLossy (bs : Bytes) : String :=
  String.ofList ((decode bs).map (·.getD '\uFFFD'))

end Utf8

end BootCard
