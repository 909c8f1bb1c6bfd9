import BootCard.Image.Form
import BootCard.World.Action

/-!
Locating the kernel image that the operator means: a file, or the directory that holds one. Whatever
form is named, a flat form of the same image is what is located.
-/

namespace BootCard

namespace Image

def defaultName : String := "kernel8.img"

/-- The image in a directory in the first form that is there, or else under its usual name. -/
def inDirectory (disk : FileSystem) (dir : Pathname) : Pathname :=
  let usual := dir / (defaultName : Pathname)
  let candidates := [usual, usual.inForm .bin, usual.inForm .elf]
  (candidates.find? disk.exists?).getD usual

def named (disk : FileSystem) (path : Pathname) : Pathname :=
  if disk.isDir path then inDirectory disk path else path

def flatForm? (disk : FileSystem) (image : Pathname) : Option Pathname :=
  (ImageForm.flat.map image.inForm).find? disk.exists?

def flatForm (disk : FileSystem) (image : Pathname) : Except Cause Pathname :=
  if !disk.exists? image then
    .error (.noImage image)
  else if (ImageForm.of? image).isNone then
    .error (.notAnImage image)
  else
    match flatForm? disk image with
    | some flat => .ok flat
    | none => .error (.noFlatImage image)

def absolute (path : Pathname) : Action Pathname := do
  if path.isAbsolute then
    pure path
  else
    let cwd ← Action.askDisk (·.currentDirectory)
    let cwd ← Action.during .findingCurrentDirectory (Action.ofExcept .io cwd)
    pure (cwd / path)

/-- Locates a flat form of the image that the operator names. -/
def locate (argument : Pathname) : Action Pathname := do
  let path ← absolute argument
  let found ← Action.askDisk fun disk => flatForm disk (named disk path)
  let flat ← Action.ofExcept id found
  Action.note .debug s!"kernel resolved to {flat.display}"
  pure flat

end Image

end BootCard
