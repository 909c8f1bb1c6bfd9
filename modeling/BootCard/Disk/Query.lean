import BootCard.Disk.Walk

/-!
Asking a file system what is there, through symbolic links. No question changes anything.
-/

namespace BootCard

inductive Found where
  | dir (p : Place)
  | file (loc : Location) (f : RegularFile)
deriving DecidableEq

def Found.data : Found → Except IoError Bytes
  | .dir _ => .error (.refused .isDirectory)
  | .file _ f => .ok f.data

namespace FileSystem

def find (fs : FileSystem) (path : Pathname) : Except IoError Found := do
  match ← fs.walk .follow path with
  | .place p => .ok (.dir p)
  | .entry dir name (some (.dir _)) _ => .ok (.dir (.at (name :: dir)))
  | .entry dir name (some (.file f)) closed =>
    if closed then .error (.refused .notDirectory) else .ok (.file (name :: dir) f)
  | .entry _ _ (some (.link _)) _ => .error (.refused .tooManyLinks)
  | .entry _ _ none _ => .error (.refused .noEntry)

def exists? (fs : FileSystem) (path : Pathname) : Bool := (fs.find path).isOk

def isDir (fs : FileSystem) (path : Pathname) : Bool :=
  match fs.find path with
  | .ok (.dir _) => true
  | _ => false

def isFile (fs : FileSystem) (path : Pathname) : Bool :=
  match fs.find path with
  | .ok (.file _ _) => true
  | _ => false

/-- The entry at a path itself: a symbolic link is not followed. -/
def entryAt (fs : FileSystem) (path : Pathname) : Except IoError Node := do
  match ← fs.walk .keep path with
  | .place p => .dir <$> (fs.modeOf p).mapError .refused
  | .entry _ _ none _ => .error (.refused .noEntry)
  | .entry _ _ (some node) closed =>
    if closed && !node.isDir then .error (.refused .notDirectory) else .ok node

def openForReading (fs : FileSystem) (path : Pathname) : Except IoError Found := do
  let found ← fs.find path
  let mode ← match found with
    | .dir p => (fs.modeOf p).mapError .refused
    | .file _ f => .ok f.mode
  if mode.canRead then .ok found else .error (.refused .accessDenied)

def readFile (fs : FileSystem) (path : Pathname) : Except IoError Bytes := do
  (← fs.openForReading path).data

def entries (fs : FileSystem) (order : ListingOrder) (dir : Location) : List (Name × Node) :=
  (order.names fs dir).filterMap fun name => (fs.node? (name :: dir)).map (name, ·)

def listDir (fs : FileSystem) (order : ListingOrder) (path : Pathname) :
    Except IoError (List (Name × Node)) := do
  match ← fs.openForReading path with
  | .file _ _ => .error (.refused .notDirectory)
  | .dir (.removed _ _) => .ok []
  | .dir (.at loc) => .ok (fs.entries order loc)

def currentDirectory (fs : FileSystem) : Except IoError Pathname :=
  match fs.here with
  | .removed _ _ => .error (.refused .noEntry)
  | .at loc => .ok ⟨Bytes.slash :: Bytes.joinWith [Bytes.slash] loc.reverse⟩

end FileSystem

end BootCard
