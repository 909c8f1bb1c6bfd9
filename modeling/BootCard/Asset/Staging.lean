import BootCard.Asset.Plan
import BootCard.Digest.Reading

/-!
Staging assets on the card. A file that the card has already is left alone. A file that differs is
moved to its backup, of which there is one, and replaced.
-/

namespace BootCard

inductive Staged where
  | updated
  | upToDate
deriving DecidableEq, Repr

namespace Pathname

def backup (path : Pathname) : Pathname := path.append (utf8 "~")

end Pathname

namespace Staging

def digest? (path : Pathname) : Action (Option Digest) := do
  if !(← Action.askDisk (·.exists? path)) then
    pure none
  else
    let opened ← Action.during (.opening path) (Action.onDisk (Session.ask (·.openForReading path)))
    let data ← Action.during (.reading path) (Action.ofExcept .io opened.data)
    pure (some (Digest.ofReads (Digest.readsOf data)))

def digestText (digest : Option Digest) : String := (digest.map Digest.toHex).getD ""

/--
Moves a file to its backup, and removes the backup that was there. If the file cannot be moved, it
is copied and removed.
-/
def backUp (dest : Pathname) : Action Unit := do
  let backup := dest.backup
  if (← Action.askDisk (·.entryAt backup)).isOk then
    Action.during (.removingBackup backup) (Action.onDisk (Session.change (·.removeFile backup)))
  match ← Action.attempt (Session.change (·.rename dest backup)) with
  | .ok () => pure ()
  | .error _ =>
    Action.during (.copying dest backup) (Action.onDisk (Session.copyFile dest backup))
    Action.during (.removing dest) (Action.onDisk (Session.change (·.removeFile dest)))

def copy (source dest : Pathname) : Action Unit := do
  Action.during (.copying source dest) (Action.onDisk (Session.copyFile source dest))
  let found ← Action.during (.inspecting source) (Action.onDisk (Session.ask (·.find source)))
  let modified := match found with
    | .file _ f => f.modified
    | .dir _ => .now
  Action.during (.stamping dest) (Action.onDisk (Session.change (·.setModified dest modified)))

def stage (card : Pathname) (asset : Asset) : Action Staged := do
  if !(← Action.askDisk (·.isFile asset.source)) then
    Action.fail (.sourceNotRegular asset.source)
  if !(← Action.askDisk (·.isDir card)) then
    Action.fail (.rootNotDirectory card)
  let dest := card / asset.dest
  if let some dir := dest.parent? then
    Action.during (.makingDirectory dir) (Action.onDisk (Session.makeDirs dir))
  let there ← digest? dest
  let wanted ← digest? asset.source
  Action.note .debug
    s!"{asset.dest.display}: source {digestText wanted} dest {digestText there}"
  if there = wanted then
    Action.printLine s!"[sync] {dest.display} is up-to-date"
    pure .upToDate
  else
    if there.isSome then backUp dest
    Action.printLine s!"[sync] {dest.display} is updated"
    copy asset.source dest
    pure .updated

def stageAll (card : Pathname) (plan : List Asset) : Action (List (Asset × Staged)) :=
  plan.mapM fun asset => do
    let staged ← Action.during (.staging asset.source asset.dest) (stage card asset)
    pure (asset, staged)

end Staging

end BootCard
