/-!
Byte strings. File contents, names, arguments and program output are bytes that need not be text.
-/

namespace BootCard

abbrev Bytes := List UInt8

def utf8 (s : String) : Bytes := s.toList.flatMap String.utf8EncodeChar

namespace Bytes

abbrev slash : UInt8 := 0x2f

abbrev dot : UInt8 := 0x2e

abbrev colon : UInt8 := 0x3a

/--
The pieces of a byte string between the occurrences of a separator. There is always one more piece
than there are separators, so an empty string has one empty piece.
-/
def splitOn (sep : UInt8) : Bytes → List Bytes
  | [] => [[]]
  | b :: rest =>
    if b = sep then
      [] :: splitOn sep rest
    else
      match splitOn sep rest with
      | [] => [[b]]
      | piece :: pieces => (b :: piece) :: pieces

def joinWith (sep : Bytes) : List Bytes → Bytes
  | [] => []
  | [piece] => piece
  | piece :: pieces => piece ++ sep ++ joinWith sep pieces

theorem splitOn_ne_nil (sep : UInt8) (bs : Bytes) : splitOn sep bs ≠ [] := by
  cases bs with
  | nil => simp [splitOn]
  | cons b rest =>
    simp only [splitOn]
    split
    · simp
    · split <;> simp

theorem joinWith_splitOn (sep : UInt8) (bs : Bytes) : joinWith [sep] (splitOn sep bs) = bs := by
  induction bs with
  | nil => rfl
  | cons b rest ih =>
    have hne := splitOn_ne_nil sep rest
    simp only [splitOn]
    split
    next h =>
      cases hs : splitOn sep rest with
      | nil => exact absurd hs hne
      | cons piece pieces => simp [joinWith, ← hs, ih, h]
    next h =>
      cases hs : splitOn sep rest with
      | nil => exact absurd hs hne
      | cons piece pieces =>
        rw [hs] at ih
        cases pieces with
        | nil => simpa [joinWith] using ih
        | cons p ps => simpa [joinWith] using ih

def ofNat (n : Nat) : Bytes := utf8 (toString n)

def toHex (bs : Bytes) : String :=
  String.ofList (bs.flatMap fun b => [b.toNat / 16, b.toNat % 16].map Nat.digitChar)

end Bytes

end BootCard
