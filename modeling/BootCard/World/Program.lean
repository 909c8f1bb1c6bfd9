import BootCard.Disk.Query
import BootCard.World.ExitStatus

/-!
Finding and starting programs. A name without a slash is looked up in the directories of the search
path, and any other name is a path. What a program does once it has been started is its own affair:
each program file has a behaviour, of which no more is known than what every process keeps to.
-/

namespace BootCard

namespace Program

structure Outcome where
  disk : FileSystem
  /-- Where the files are that it has written or changed, or put where they are. -/
  written : List Location
  output : Bytes
  status : ExitStatus

/-- What a program does when it is run with arguments. -/
structure Behaviour where
  run : List Bytes → FileSystem → Outcome
  /-- A program ends by itself with a byte. -/
  lt_of_run : ∀ args disk n, (run args disk).status = .exited n → n < 256
  /-- A file that is there in the end was there before, unless the program has written it. -/
  written_or_same : ∀ args disk loc f, (run args disk).disk.node? loc = some (.file f) →
    loc ∈ (run args disk).written ∨ disk.node? loc = some (.file f)

end Program

/--
What comes of starting a file that may be run: it does what its program does, or it is refused
because it is none, or because its interpreter cannot be run.
-/
abbrev Programs := FileSystem → RegularFile → Except IoError Program.Behaviour

namespace Program

def defaultSearchPath : Bytes := utf8 "/bin:/usr/bin"

def pathIn (dir name : Bytes) : Pathname :=
  if dir = [] then ⟨name⟩ else ⟨dir ++ Bytes.slash :: name⟩

section Start

variable (programs : Programs) (disk : FileSystem)

def load (path : Pathname) : Except IoError Behaviour := do
  match ← disk.find path with
  | .dir _ => .error (.refused .accessDenied)
  | .file _ f => if f.mode.canEnter then programs disk f else .error (.refused .accessDenied)

/--
Loads a program from the first directory that has it. A refusal because of missing leave is kept for
the case that no directory has it, and a refusal that says more about the program than that it is
not there ends the search.
-/
def search (name : Bytes) : (denied : Bool) → (last : IoError) → List Bytes →
    Except IoError Behaviour
  | true, _, [] => .error (.refused .accessDenied)
  | false, last, [] => .error last
  | denied, _, dir :: dirs =>
    match load programs disk (pathIn dir name) with
    | .ok behaviour => .ok behaviour
    | .error (.refused .accessDenied) => search name true (.refused .accessDenied) dirs
    | .error (.refused .noEntry) => search name denied (.refused .noEntry) dirs
    | .error (.refused .notDirectory) => search name denied (.refused .notDirectory) dirs
    | .error e => .error e

def resolve (searchPath : Option Bytes) (name : Bytes) (args : List Bytes) :
    Except IoError Behaviour :=
  if name.contains 0 || args.any (·.contains 0) then
    .error .zeroInArgument
  else if name = [] then
    .error (.refused .noEntry)
  else if name.contains Bytes.slash then
    load programs disk ⟨name⟩
  else
    search programs disk name false (.refused .noEntry)
      (Bytes.splitOn Bytes.colon (searchPath.getD defaultSearchPath))

end Start

def isRunnable (disk : FileSystem) (path : Pathname) : Bool :=
  match disk.find path with
  | .ok (.file _ f) => f.mode.canEnter
  | _ => false

/--
Whether a program can be found. A name of several components is looked up from the current
directory, if there is one, and any other name in the search path.
-/
def isAvailable (disk : FileSystem) (searchPath : Option Bytes) (name : Bytes) : Bool :=
  let inSearchPath :=
    match searchPath with
    | none => false
    | some dirs => (Bytes.splitOn Bytes.colon dirs).any fun dir => isRunnable disk (⟨dir⟩ / ⟨name⟩)
  if (Pathname.mk name).depth > 1 then
    match disk.currentDirectory with
    | .ok cwd => isRunnable disk (cwd / ⟨name⟩)
    | .error _ => inSearchPath
  else
    inSearchPath

end Program

end BootCard
