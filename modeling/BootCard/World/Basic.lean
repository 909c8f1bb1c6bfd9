import BootCard.World.Failure
import BootCard.World.Script

/-!
The world that the installer works in: a file system, the programs that can be started, an
environment, what the operator types, a card that may be about to be mounted, and the transcript of
everything that has been printed, noted, asked and run.
-/

namespace BootCard

inductive Level where
  | debug
  | warn
deriving DecidableEq, Repr

inductive Event where
  | printed (text : Bytes)
  | noted (level : Level) (text : String)
  | asked (volumes : Pathname)
  | ran (program : Bytes) (args : List Bytes) (outcome : Except IoError ExitStatus)

/-- A directory that appears once a number of waiting dots have been printed. -/
structure Mount where
  path : Pathname
  dots : Nat

structure World where
  disk : FileSystem
  programs : Programs := Script.programs
  listing : ListingOrder := .byName
  environment : List (String × Bytes) := []
  input : Bytes := []
  mount : Option Mount := none
  remembered : Option Pathname := none
  transcript : List Event := []

namespace World

def value? (w : World) (name : String) : Option Bytes := w.environment.lookup name

def textValue? (w : World) (name : String) : Option Bytes :=
  (w.value? name).filter fun value => (Utf8.decode? value).isSome

def temporaryDirectory (w : World) : Pathname :=
  match w.value? "TMPDIR" with
  | some value => ⟨value⟩
  | none => "/tmp"

end World

namespace Event

def printedBytes (events : List Event) : Bytes :=
  events.flatMap fun
    | .printed text => text
    | _ => []

def notes (events : List Event) : List (Level × String) :=
  events.filterMap fun
    | .noted level text => some (level, text)
    | _ => none

def questions (events : List Event) : List Pathname :=
  events.filterMap fun
    | .asked volumes => some volumes
    | _ => none

end Event

end BootCard
