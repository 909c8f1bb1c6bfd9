import BootCard.Disk.Query

/-!
Changing a file system. Each of these either makes its one change or is refused and makes none. An
entry is added to or removed from a directory only with leave to write in it.
-/

namespace BootCard

namespace FileSystem

def writable (fs : FileSystem) (dir : Location) : Except IoError Unit := do
  let mode ← (fs.modeOf (.at dir)).mapError .refused
  if mode.canWrite then .ok () else .error (.refused .accessDenied)

/--
Opens a file for writing, and makes it with a mode if it is not there. Gives the location of the
file, which a symbolic link may have led to.
-/
def openForWriting (fs : FileSystem) (path : Pathname) (mode : Mode) :
    Except IoError (Location × RegularFile) := do
  match ← fs.walk .create path with
  | .place _ => .error (.refused .isDirectory)
  | .entry dir name none _ =>
    fs.writable dir
    .ok (name :: dir, { data := [], mode := mode.masked, modified := .now })
  | .entry dir name (some (.file f)) _ =>
    if f.mode.canWrite then .ok (name :: dir, f) else .error (.refused .accessDenied)
  | .entry _ _ (some (.dir _)) _ => .error (.refused .isDirectory)
  | .entry _ _ (some (.link _)) _ => .error (.refused .tooManyLinks)

def store (fs : FileSystem) (loc : Location) (f : RegularFile) (data : Bytes) : FileSystem :=
  fs.put loc (.file { f with data := data, modified := .now })

def defaultMode : Mode := Mode.ofNat 0o666

def writeFile (fs : FileSystem) (path : Pathname) (data : Bytes) : Except IoError FileSystem := do
  let (loc, f) ← fs.openForWriting path defaultMode
  .ok (fs.store loc f data)

def makeDir (fs : FileSystem) (path : Pathname) : Except IoError FileSystem := do
  match ← fs.walk .keep path with
  | .place _ => .error (.refused .exists)
  | .entry _ _ (some _) _ => .error (.refused .exists)
  | .entry dir name none _ =>
    fs.writable dir
    .ok (fs.put (name :: dir) (.dir Mode.newDirectory))

def removeFile (fs : FileSystem) (path : Pathname) : Except IoError FileSystem := do
  match ← fs.walk .keep path with
  | .place _ => .error (.refused .isDirectory)
  | .entry _ _ none _ => .error (.refused .noEntry)
  | .entry dir name (some node) closed =>
    if closed then
      .error (.refused (if node.isDir then .isDirectory else .notDirectory))
    else
      fs.writable dir
      if node.isDir then .error (.refused .isDirectory) else .ok (fs.erase (name :: dir))

def removeDir (fs : FileSystem) (path : Pathname) : Except IoError FileSystem := do
  match ← fs.walk .keep path with
  | .place _ => .error (.refused .invalid)
  | .entry _ _ none _ => .error (.refused .noEntry)
  | .entry dir name (some (.dir mode)) _ =>
    fs.writable dir
    if fs.names (name :: dir) = [] then
      .ok (fs.eraseDir (name :: dir) mode)
    else
      .error (.refused .notEmpty)
  | .entry _ _ (some _) _ => .error (.refused .notDirectory)

/-- Gives a file or a link another name, which it takes away from a file or a link that has it. -/
def rename (fs : FileSystem) (path path' : Pathname) : Except IoError FileSystem := do
  match ← fs.walk .keep path, ← fs.walk .keep path' with
  | .place _, _ => .error (.refused .busy)
  | _, .place _ => .error (.refused .busy)
  | .entry _ _ none _, _ => .error (.refused .noEntry)
  | .entry dir name (some node) closed, .entry dir' name' node'? closed' =>
    if node.isDir then
      .error (.refused .isDirectory)
    else if closed || closed' then
      .error (.refused .notDirectory)
    else
      fs.writable dir
      fs.writable dir'
      match node'? with
      | some (.dir _) => .error (.refused .isDirectory)
      | _ =>
        if name' :: dir' = name :: dir then
          .ok fs
        else
          .ok ((fs.erase (name :: dir)).put (name' :: dir') node)

def setModified (fs : FileSystem) (path : Pathname) (moment : Moment) :
    Except IoError FileSystem := do
  match ← fs.openForReading path with
  | .dir _ => .ok fs
  | .file loc f => .ok (fs.put loc (.file { f with modified := moment }))

def changeDir (fs : FileSystem) (path : Pathname) : Except IoError FileSystem := do
  match ← fs.find path with
  | .file _ _ => .error (.refused .notDirectory)
  | .dir p =>
    (fs.enter p).mapError .refused
    .ok { fs with here := p }

end FileSystem

end BootCard
