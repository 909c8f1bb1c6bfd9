import BootCard.Disk.Change

/-!
Doing several things to a file system in a row. What has been done stays done when a later step is
refused.
-/

namespace BootCard

/-- A computation on a file system that may be refused half-way. -/
abbrev Session := ExceptT IoError (StateM FileSystem)

namespace Session

def ask (question : FileSystem → Except IoError α) : Session α :=
  fun fs => (question fs, fs)

def change (op : FileSystem → Except IoError FileSystem) : Session Unit :=
  fun fs =>
    match op fs with
    | .ok fs' => (.ok (), fs')
    | .error e => (.error e, fs)

/-- Goes on as another computation if one is refused. What the first has done stays done. -/
def orElse (x : Session α) (y : IoError → Session α) : Session α :=
  fun fs =>
    match x fs with
    | (.ok a, fs') => (.ok a, fs')
    | (.error e, fs') => y e fs'

def unlessMissing (e : IoError) : Session Unit :=
  if e = .refused .noEntry then pure () else throw e

def unlessDir (path : Pathname) (e : IoError) : Session Unit :=
  ask fun fs => if fs.isDir path then .ok () else .error e

def makeDirsFrom : List Pathname → Session Unit
  | [] => throw (.refused .noEntry)
  | path :: above =>
    if path.bytes = [] then
      pure ()
    else
      (change (·.makeDir path)).orElse fun e =>
        if e = .refused .noEntry then do
          makeDirsFrom above
          (change (·.makeDir path)).orElse (unlessDir path)
        else
          unlessDir path e

def makeDirs (path : Pathname) : Session Unit := makeDirsFrom path.ancestors

/--
Removes all entries of a directory that has been listed. A directory among them is listed, emptied
and removed. The depth is how many levels of directories there can be.
-/
def emptyDir (order : ListingOrder) : (depth : Nat) → (dir : Location) → Session Unit
  | 0, _ => throw (.refused .notEmpty)
  | depth + 1, dir => do
    let names ← ask fun fs => .ok (order.names fs dir)
    names.forM fun name => do
      ask fun fs => (fs.enter (.at dir)).mapError .refused
      match ← ask fun fs => .ok (fs.node? (name :: dir)) with
      | none => pure ()
      | some (.dir mode) =>
        if !mode.canRead then throw (.refused .accessDenied)
        emptyDir order depth (name :: dir)
        ask (·.writable dir)
        change fun fs => .ok (fs.eraseDir (name :: dir) mode)
      | some _ =>
        ask (·.writable dir)
        change fun fs => .ok (fs.erase (name :: dir))

/--
Removes a directory with all that is beneath it, or just a link. The first refusal ends it, so some
of what is beneath may be gone then. A path that went through a link beneath the directory leads
nowhere at the end, and then the directory is left empty.
-/
def removeTree (order : ListingOrder) (path : Pathname) : Session Unit := do
  match ← ask (·.entryAt path) with
  | .link _ => change (·.removeFile path)
  | .file _ => throw (.refused .notDirectory)
  | .dir _ =>
    match ← ask (·.openForReading path) with
    | .dir (.at dir) =>
      let entries ← ask fun fs => .ok fs.nodes.size
      emptyDir order entries dir
    | _ => pure ()
    (change (·.removeDir path)).orElse unlessMissing

/--
Copies the data and the mode of the regular file that one path leads to into a file at another path,
which is made or emptied before anything is read.
-/
def copyFile (source dest : Pathname) : Session Unit := do
  match ← ask (·.openForReading source) with
  | .dir _ => throw (.refused .invalid)
  | .file loc f =>
    let (loc', f') ← ask (·.openForWriting dest f.mode)
    change fun fs => .ok (fs.store loc' f' [])
    let data ← ask fun fs =>
      match fs.node? loc with
      | some (.file g) => .ok g.data
      | _ => .ok f.data
    change fun fs => .ok (fs.store loc' { f' with mode := f.mode } data)

end Session

end BootCard
