import BootCard.Disk.Error
import BootCard.Disk.FileSystem
import BootCard.Pathname.Basic

/-!
Walking a path. A walk goes through the components one by one, needs leave to pass through every
directory on the way, and puts the text of a symbolic link in place of its name. It may follow forty
links. What happens at the last component depends on what the walk is for.
-/

namespace BootCard

inductive Component where
  | here
  | up
  | name (n : Name)
  /-- The slash at the end of a path, which asks for a directory. -/
  | close
deriving DecidableEq

def components (path : Bytes) : List Component :=
  let pieces := Bytes.splitOn Bytes.slash path
  let named := pieces.filter (· != [])
  let parts := named.map fun piece =>
    if piece = [Bytes.dot] then .here
    else if piece = Pathname.upPiece then .up
    else .name piece
  if pieces.getLast? = some [] ∧ named ≠ [] then parts ++ [.close] else parts

inductive Ending where
  | keep
  | follow
  /-- Follows a symbolic link, and may be about to make a file. -/
  | create
deriving DecidableEq

inductive Arrival where
  /-- At a directory that is not reached by a name in the end. -/
  | place (p : Place)
  /-- At a name in a directory, with the entry of that name, if there is one. -/
  | entry (dir : Location) (name : Name) (node? : Option Node) (closed : Bool)
deriving DecidableEq

def maxNameLength : Nat := 255

def pathLengthLimit : Nat := 4096

def maxLinks : Nat := 40

namespace FileSystem

def modeOf (fs : FileSystem) : Place → Except Errno Mode
  | .removed mode _ => .ok mode
  | .at loc =>
    match fs.node? loc with
    | some (.dir mode) => .ok mode
    | _ => .error .notDirectory

def enter (fs : FileSystem) (p : Place) : Except Errno Unit := do
  let mode ← fs.modeOf p
  if mode.canEnter then .ok () else .error .accessDenied

def lookup (fs : FileSystem) (p : Place) (name : Name) : Except Errno (Location × Option Node) :=
  match p with
  | .removed _ _ => .error .noEntry
  | .at dir =>
    if name.length > maxNameLength then
      .error .nameTooLong
    else
      .ok (dir, fs.node? (name :: dir))

def startOf (path : Bytes) (p : Place) : Place :=
  if path.head? = some Bytes.slash then .at [] else p

/-- Walks on from a directory, given what is done with the components that come from a link. -/
def walkWith (fs : FileSystem) (ending : Ending)
    (onLink : Place → List Component → Except Errno Arrival) :
    Place → List Component → Except Errno Arrival
  | p, [] => .ok (.place p)
  | p, .close :: rest => walkWith fs ending onLink p rest
  | p, .here :: rest => do
    fs.enter p
    walkWith fs ending onLink p rest
  | p, .up :: rest => do
    fs.enter p
    walkWith fs ending onLink p.parent rest
  | p, .name name :: rest => do
    fs.enter p
    let isLast := rest.all (· == .close)
    let closed := isLast && !rest.isEmpty
    if closed && ending == .create then
      .error .isDirectory
    else
      let (dir, node?) ← fs.lookup p name
      match node? with
      | none => if isLast then .ok (.entry dir name none closed) else .error .noEntry
      | some (.file f) =>
        if isLast then .ok (.entry dir name (some (.file f)) closed) else .error .notDirectory
      | some (.dir mode) =>
        if isLast then
          .ok (.entry dir name (some (.dir mode)) closed)
        else
          walkWith fs ending onLink (.at (name :: dir)) rest
      | some (.link target) =>
        if isLast && ending == .keep then
          .ok (.entry dir name (some (.link target)) closed)
        else
          onLink (startOf target (.at dir)) (components target ++ rest)

/-- Walks on from a directory, following a number of links at most. -/
def walkFrom (fs : FileSystem) (ending : Ending) : Nat → Place → List Component →
    Except Errno Arrival
  | 0 => fs.walkWith ending fun _ _ => .error .tooManyLinks
  | links + 1 => fs.walkWith ending (fs.walkFrom ending links)

def walk (fs : FileSystem) (ending : Ending) (path : Pathname) : Except IoError Arrival :=
  if path.bytes.contains 0 then
    .error .zeroInPath
  else if path.bytes = [] then
    .error (.refused .noEntry)
  else if path.bytes.length ≥ pathLengthLimit then
    .error (.refused .nameTooLong)
  else
    (fs.walkFrom ending maxLinks (startOf path.bytes fs.here) (components path.bytes)).mapError
      .refused

end FileSystem

end BootCard
