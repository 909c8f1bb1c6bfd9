import BootCard.Disk.Error
import BootCard.Pathname.Basic
import BootCard.World.ExitStatus

/-!
Failures: the cause of one, and the activities that it ended, the outermost first.
-/

namespace BootCard

inductive Activity where
  | findingCurrentDirectory
  | choosingCard
  | readingRemembered (file : Pathname)
  | writingRemembered (file : Pathname)
  | readingAnswer
  | listingAssets (dir : Pathname)
  | runningGenerator (generator : Pathname)
  | readingSettings (file : Pathname)
  | parsingSettings (file : Pathname)
  | staging (source dest : Pathname)
  | opening (file : Pathname)
  | reading (file : Pathname)
  | makingDirectory (dir : Pathname)
  | removingBackup (file : Pathname)
  | copying (source dest : Pathname)
  | removing (file : Pathname)
  | inspecting (file : Pathname)
  | stamping (file : Pathname)
deriving DecidableEq

namespace Activity

def message : Activity → String
  | .findingCurrentDirectory => "resolving current directory"
  | .choosingCard => "resolving sdcard directory"
  | .readingRemembered file => s!"reading cached target '{file.display}'"
  | .writingRemembered file => s!"writing cached target '{file.display}'"
  | .readingAnswer => "reading installation directory from stdin"
  | .listingAssets dir => s!"reading asset directory '{dir.display}'"
  | .runningGenerator generator => s!"running config generator '{generator.display}'"
  | .readingSettings file => s!"reading installer config '{file.display}'"
  | .parsingSettings file => s!"parsing installer config '{file.display}'"
  | .staging source dest => s!"staging {source.display} as {dest.display}"
  | .opening file => s!"Failed to open {file.display}"
  | .reading file => s!"Failed to read {file.display}"
  | .makingDirectory dir => s!"Failed to create directory: {dir.display}"
  | .removingBackup file => s!"Failed to remove old backup {file.display}"
  | .copying source dest => s!"Failed to copy {source.display} to {dest.display}"
  | .removing file => s!"Failed to remove {file.display}"
  | .inspecting file => s!"Failed to stat {file.display}"
  | .stamping file => s!"Failed to set timestamps on {file.display}"

end Activity

inductive Cause where
  | io (e : IoError)
  | listing (dir : Pathname) (e : IoError)
  | noImage (path : Pathname)
  | notAnImage (path : Pathname)
  | noFlatImage (path : Pathname)
  | generatorFailed (generator : Pathname) (status : ExitStatus)
  | nothingGenerated (generator config : Pathname)
  | noImageDirectory (image : Pathname)
  | noAnswer
  | sourceNotRegular (source : Pathname)
  | rootNotDirectory (root : Pathname)
  | cardNotDirectory (card : Pathname)
  | malformedSettings
  | misuse (usage : String)
  | other (reason : String)
deriving DecidableEq

namespace Cause

def words : Cause → List String
  | .io e => [e.message]
  | .listing dir e => [s!"IO error for operation on {dir.display}: {e.message}", e.message]
  | .noImage path => [s!"{path.display} doesn't exist"]
  | .notAnImage path =>
    [s!"unsupported kernel extension '{path.display}'; expected .bin, .elf or .img"]
  | .noFlatImage path =>
    [s!"no .bin or .img beside '{path.display}'; please dump the binary from the elf first"]
  | .generatorFailed generator status =>
    [s!"config generator '{generator.display}' failed with {status.message}"]
  | .nothingGenerated generator config =>
    [s!"config generator '{generator.display}' finished but {config.display} is still missing"]
  | .noImageDirectory image => [s!"kernel path has no parent directory: {image.display}"]
  | .noAnswer => ["no installation directory given"]
  | .sourceNotRegular source => [s!"asset source is not a regular file: {source.display}"]
  | .rootNotDirectory root => [s!"card root is not a directory: {root.display}"]
  | .cardNotDirectory card => [s!"card directory '{card.display}' is not a directory"]
  | .malformedSettings => []
  | .misuse usage => [usage]
  | .other reason => [reason]

end Cause

structure Failure where
  during : List Activity := []
  cause : Cause
deriving DecidableEq

namespace Failure

def message (f : Failure) : String :=
  ": ".intercalate (f.during.map Activity.message ++ f.cause.words)

def exitCode (f : Failure) : Nat :=
  match f.cause with
  | .generatorFailed _ status => status.code?.getD 1
  | _ => 1

end Failure

end BootCard
