import BootCard.Card.VolumeManager

/-!
The settings of the installer: where a project keeps what goes onto the card, and how cards are
found and ejected. Each setting has a default that depends on the project, and may be overridden.
-/

namespace BootCard

structure Settings where
  firmware : Pathname
  programs : Pathname
  generator : Pathname
  memoryFile : Pathname
  volumes : Pathname
  listCommand : CommandLine
  ejectCommand : CommandLine
  pollInterval : Nat
deriving DecidableEq

structure Overrides where
  firmware : Option Bytes := none
  programs : Option Bytes := none
  generator : Option Bytes := none
  memoryFile : Option Bytes := none
  volumes : Option Bytes := none
  listCommand : Option CommandLine := none
  ejectCommand : Option CommandLine := none
  pollInterval : Option Nat := none
deriving DecidableEq

namespace Settings

def memoryFileName : String := ".sdcard-installer-target.txt"

def firmwarePath : String := "ext/firmware"

def default (project temporary : Pathname) : Settings where
  firmware := project / (firmwarePath : Pathname)
  programs := project / ("user/cache" : Pathname)
  generator := project / ("bin/gen-rpi3-config.py" : Pathname)
  memoryFile := temporary / (memoryFileName : Pathname)
  volumes := "/media"
  listCommand := [utf8 "ls"]
  ejectCommand := [utf8 "umount"]
  pollInterval := 1000

/-- Some settings with those of a project in place of them. Its paths start from the project. -/
def overrideWith (s : Settings) (project : Pathname) (o : Overrides) : Settings where
  firmware := (o.firmware.map fun path => project / Pathname.mk path).getD s.firmware
  programs := (o.programs.map fun path => project / Pathname.mk path).getD s.programs
  generator := (o.generator.map fun path => project / Pathname.mk path).getD s.generator
  memoryFile := (o.memoryFile.map fun path => project / Pathname.mk path).getD s.memoryFile
  volumes := (o.volumes.map Pathname.mk).getD s.volumes
  listCommand := o.listCommand.getD s.listCommand
  ejectCommand := o.ejectCommand.getD s.ejectCommand
  pollInterval := o.pollInterval.getD s.pollInterval

end Settings

end BootCard
