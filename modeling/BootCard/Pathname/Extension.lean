import BootCard.Pathname.Basic

/-!
Extensions of file names: what follows the last dot of the last name, unless the name starts with
that dot.
-/

namespace BootCard

namespace Bytes

def cutAtLastDot (bs : Bytes) : Option (Bytes × Bytes) :=
  let after := (bs.reverse.takeWhile (· != dot)).reverse
  match bs.reverse.dropWhile (· != dot) with
  | [] => none
  | _ :: before => some (before.reverse, after)

end Bytes

namespace Pathname

def cutName (name : Bytes) : Bytes × Option Bytes :=
  match Bytes.cutAtLastDot name with
  | none => (name, none)
  | some (stem, ext) => if stem = [] then (name, none) else (stem, some ext)

def extension? (p : Pathname) : Option Bytes :=
  p.fileName?.bind fun name => (cutName name).2

/--
The path up to the end of its stem, with a dot and an extension put after it. A path without a file
name stays as it is.
-/
def replaceAfterStem (p : Pathname) (ext : Bytes) : Pathname :=
  match p.lastNamed with
  | [] => p
  | name :: before =>
    if name = upPiece then
      p
    else
      ⟨p.head ++ Bytes.joinWith [Bytes.slash] (before.reverse ++ [(cutName name).1]) ++
        Bytes.dot :: ext⟩

/--
The path with another extension. As many bytes as the old extension has are first taken off the end
of the whole path: these are the extension itself unless blank pieces follow the file name.
-/
def withExtension (p : Pathname) (ext : Bytes) : Pathname :=
  let old := p.extension?.getD []
  replaceAfterStem ⟨p.bytes.take (p.bytes.length - old.length)⟩ ext

def append (p : Pathname) (bs : Bytes) : Pathname := ⟨p.bytes ++ bs⟩

end Pathname

end BootCard
