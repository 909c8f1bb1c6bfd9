import BootCard.Settings.Document

/-!
Finding the project and loading its settings. The environment may name the project and the file that
the card is remembered in.
-/

namespace BootCard

namespace Project

def rootVariable : String := "SDCARD_INSTALLER_ROOT"

def memoryVariable : String := "SDCARD_INSTALLER_CACHE"

def settingsName : String := "install-kernel.toml"

def isProject (disk : FileSystem) (dir : Pathname) : Bool :=
  disk.isDir (dir / (Settings.firmwarePath : Pathname))

/--
Finds the project: the one that the environment names, or else the nearest directory with firmware
from the current one upwards, or else the current directory.
-/
def find : Action Pathname := do
  match ← Action.ask (·.textValue? rootVariable) with
  | some root => pure ⟨root⟩
  | none =>
    let cwd ← Action.askDisk (·.currentDirectory)
    let cwd ← Action.during .findingCurrentDirectory (Action.ofExcept .io cwd)
    match ← Action.askDisk fun disk => cwd.ancestors.find? (isProject disk) with
    | some dir => pure dir
    | none =>
      let firmware := Settings.firmwarePath
      Action.note .debug
        s!"no ancestor of '{cwd.display}' contains {firmware}; using it as project root"
      pure cwd

def defaults (root : Pathname) : Action Settings :=
  Action.ask fun w => Settings.default root w.temporaryDirectory

def readText (file : Pathname) : Action String := do
  let data ← Action.onDisk (Session.ask (·.readFile file))
  match Utf8.decode? data with
  | some text => pure text
  | none => Action.fail (.io .notText)

def settingsOf (root : Pathname) : Action Settings := do
  let settings ← defaults root
  let file := root / (settingsName : Pathname)
  if !(← Action.askDisk (·.isFile file)) then
    pure settings
  else
    let text ← Action.during (.readingSettings file) (readText file)
    match Overrides.ofText? text with
    | none => Action.during (.parsingSettings file) (Action.fail .malformedSettings)
    | some overrides =>
      Action.note .debug s!"applying overrides from {file.display}"
      pure (settings.overrideWith root overrides)

def settings : Action Settings := do
  let root ← find
  let settings ← settingsOf root
  match ← Action.ask (·.textValue? memoryVariable) with
  | some file => pure { settings with memoryFile := ⟨file⟩ }
  | none => pure settings

end Project

end BootCard
