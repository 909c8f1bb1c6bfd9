import BootCard.World.Action

/-!
The programs that manage volumes: one lists what is mounted, the other ejects the card. Whatever
they do, nothing fails because of them.
-/

namespace BootCard

abbrev CommandLine := List Bytes

namespace VolumeManager

def list (command : CommandLine) (volumes : Pathname) : Action Unit := do
  match command with
  | [] => pure ()
  | program :: args =>
    match ← Action.run program (args ++ [volumes.bytes]) with
    | .ok _ => pure ()
    | .error e =>
      let name := Utf8.decodeLossy program
      Action.note .warn s!"could not list volumes with '{name}': {e.message}"

def eject (command : CommandLine) (card : Pathname) : Action (Option ExitStatus) := do
  match command with
  | [] =>
    Action.note .warn s!"no eject command configured; leaving {card.display} mounted"
    pure none
  | program :: args =>
    let name := Utf8.decodeLossy program
    if !(← Action.ask fun w => Program.isAvailable w.disk (w.value? "PATH") program) then
      Action.note .warn s!"eject program '{name}' not found in PATH"
    Action.printLine s!"[install] unmounting {card.display}"
    match ← Action.run program (args ++ [card.bytes]) with
    | .ok status =>
      if !status.isSuccess then
        Action.note .debug s!"'{name}' exited with {status.message}"
      pure (some status)
    | .error e =>
      Action.note .warn s!"could not run '{name}' for {card.display}: {e.message}"
      pure none

end VolumeManager

end BootCard
