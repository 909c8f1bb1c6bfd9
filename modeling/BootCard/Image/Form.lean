import BootCard.Pathname.Extension

/-!
The forms of a kernel image. A build links an `.elf`, from which a flat `.bin` or `.img` is dumped.
The form of an image is told by the extension of its path.
-/

namespace BootCard

inductive ImageForm where
  | bin
  | elf
  | img
deriving DecidableEq, Repr

namespace ImageForm

def extension : ImageForm → String
  | .bin => "bin"
  | .elf => "elf"
  | .img => "img"

def ofExtension? (ext : Bytes) : Option ImageForm :=
  [.bin, .elf, .img].find? fun form => utf8 form.extension = ext

def of? (path : Pathname) : Option ImageForm := path.extension?.bind ofExtension?

def flat : List ImageForm := [.bin, .img]

end ImageForm

namespace Pathname

def inForm (path : Pathname) (form : ImageForm) : Pathname :=
  path.withExtension (utf8 form.extension)

end Pathname

end BootCard
