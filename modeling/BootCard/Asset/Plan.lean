import BootCard.Image.Location

/-!
What goes onto the card: the firmware, the kernel image, its boot configuration and the programs, in
this order. An asset is a file and the path on the card that it is to have.
-/

namespace BootCard

structure Asset where
  source : Pathname
  dest : Pathname
deriving DecidableEq

def bootConfigName : String := "config.txt"

namespace Plan

def programsName : String := "programs"

def ofNames (dir destDir : Pathname) (names : List Name) : List Asset :=
  names.map fun name => ⟨dir / Pathname.mk name, destDir / Pathname.mk name⟩

/--
The entries of a directory as assets, in the order of their names. Directories are among them, and
there are none if there is no such directory.
-/
def ofDirectory (dir destDir : Pathname) : Action (List Asset) := do
  if !(← Action.askDisk (·.isDir dir)) then
    Action.note .warn s!"asset directory {dir.display} not found, skipping"
    pure []
  else
    let listed ← Action.askDisk (·.listDir .byName dir)
    let entries ← Action.during (.listingAssets dir) (Action.ofExcept (.listing dir) listed)
    pure (ofNames dir destDir (entries.map (·.1)))

def firmware (dir : Pathname) : Action (List Asset) := ofDirectory dir ""

def programs (dir : Pathname) : Action (List Asset) := ofDirectory dir programsName

def all (firmwareDir image config programsDir : Pathname) : Action (List Asset) := do
  let firmware ← firmware firmwareDir
  let programs ← programs programsDir
  pure (firmware ++ [⟨image, Image.defaultName⟩, ⟨config, bootConfigName⟩] ++ programs)

end Plan

end BootCard
