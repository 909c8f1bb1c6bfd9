import BootCard.Bytes

/-!
Blank characters and the trimming of blanks at both ends. The ASCII blanks are space, tab, line
feed, form feed and carriage return (vertical tab is not among them). The Unicode blanks are the
characters with the property `White_Space`.
-/

namespace BootCard

def trimBoth (p : α → Bool) (xs : List α) : List α :=
  ((xs.dropWhile p).reverse.dropWhile p).reverse

def isAsciiBlank (b : UInt8) : Bool :=
  b == 0x20 || b == 0x09 || b == 0x0a || b == 0x0c || b == 0x0d

/-- Whether a character has the property `White_Space`. -/
def isBlank (c : Char) : Bool :=
  let n := c.toNat
  (0x09 ≤ n && n ≤ 0x0d) || n == 0x20 || n == 0x85 || n == 0xa0 || n == 0x1680 ||
    (0x2000 ≤ n && n ≤ 0x200a) || n == 0x2028 || n == 0x2029 || n == 0x202f || n == 0x205f ||
    n == 0x3000

def Bytes.trimAscii (bs : Bytes) : Bytes := trimBoth isAsciiBlank bs

def trimBlank (s : String) : String := String.ofList (trimBoth isBlank s.toList)

end BootCard
