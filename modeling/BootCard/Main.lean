import BootCard.Command
import BootCard.Disk.Layout

/-!
The command as a program. It is rehearsed on a snapshot of the disk: what it would print is printed
and its number is handed back, but nothing on the disk is changed. Only helper programs of the form
of `Script` take part in a rehearsal.
-/

namespace BootCard

namespace Rehearsal

def variableNames : List String := ["PATH", "TMPDIR", Project.rootVariable, Project.memoryVariable]

partial def addEntry (fs : FileSystem) (entry : IO.FS.DirEntry) : IO FileSystem := do
  let loc := Location.ofPath (entry.path.toString : Pathname)
  match ← entry.path.symlinkMetadata.toBaseIO with
  | .error _ => pure fs
  | .ok metadata =>
    match metadata.type with
    | .dir =>
      let fs := fs.lay (loc, .dir Mode.newDirectory)
      match ← entry.path.readDir.toBaseIO with
      | .error _ => pure (fs.lay (loc, .dir (Mode.ofNat 0)))
      | .ok entries => entries.foldlM addEntry fs
    | .symlink =>
      match ← (IO.FS.realPath entry.path).toBaseIO with
      | .error _ => pure fs
      | .ok target => pure (fs.lay (loc, .link (utf8 target.toString)))
    | _ =>
      let moment := Moment.at metadata.modified.sec
      match ← (IO.FS.readBinFile entry.path).toBaseIO with
      | .error _ => pure (fs.lay (loc, .file ⟨[], Mode.ofNat 0, moment⟩))
      | .ok data => pure (fs.lay (loc, .file ⟨data.toList, Mode.newDirectory, moment⟩))

def snapshot (cwd : String) (paths : List String) : IO FileSystem := do
  let entries := (cwd :: paths).map fun path => IO.FS.DirEntry.mk cwd path
  let fs ← entries.foldlM addEntry FileSystem.empty
  pure { fs with here := .at (Location.ofPath (cwd : Pathname)) }

def report (events : List Event) : IO Unit := do
  let stdout ← IO.getStdout
  stdout.write ⟨(Event.printedBytes events).toArray⟩
  stdout.flush
  for (level, text) in Event.notes events do
    if level = .warn then
      IO.eprintln s!"warning: {text}"

end Rehearsal

end BootCard

open BootCard in
/-- Rehearses the command. The operator is listened to only if there is a question. -/
def main (args : List String) : IO UInt32 := do
  let cwd := (← IO.currentDir).toString
  let environment ← Rehearsal.variableNames.filterMapM fun name => do
    pure ((← IO.getEnv name).map fun value => (name, utf8 value))
  let temporary := (environment.lookup "TMPDIR").map Utf8.decodeLossy
  let disk ← Rehearsal.snapshot cwd (temporary.getD "/tmp" :: args)
  let world : World :=
    { disk := disk, programs := Script.programs, environment := environment }
  let request := args.map utf8
  let (ending, after) := Command.runIn request world
  let (ending, after) ← if (Event.questions after.transcript).isEmpty then
      pure (ending, after)
    else do
      let line ← (← IO.getStdin).getLine
      pure (Command.runIn request { world with input := utf8 line })
  Rehearsal.report after.transcript
  match ending with
  | none =>
    IO.eprintln "error: waiting for a card that is not there"
    pure 1
  | some ending =>
    if let some failure := ending.failure then
      IO.eprintln s!"error: {failure.message}"
    pure (UInt32.ofNat ending.code)
