import BootCard.Disk.Query

/-!
Laying out a file system entry by entry, and telling two file systems apart.
-/

namespace BootCard

namespace Location

/-- The location that a path names if there are no links on the way. -/
def ofPath (path : Pathname) : Location :=
  (components path.bytes).foldl (fun loc c =>
    match c with
    | .name n => n :: loc
    | .up => loc.tail
    | .here => loc
    | .close => loc) []

def path (loc : Location) : Pathname :=
  ⟨Bytes.slash :: Bytes.joinWith [Bytes.slash] loc.reverse⟩

def isWithin (loc dir : Location) : Bool := dir.isSuffixOf loc

end Location

namespace FileSystem

def layDirs (fs : FileSystem) : Location → FileSystem
  | [] => fs
  | name :: dir =>
    let fs := fs.layDirs dir
    if (fs.node? (name :: dir)).isSome then fs
    else fs.put (name :: dir) (.dir Mode.newDirectory)

/-- The location that a location stands for when links to directories are followed. -/
def settle (fs : FileSystem) : Location → Location
  | [] => []
  | name :: dir =>
    let loc : Location := name :: fs.settle dir
    match fs.node? loc with
    | some (.link _) =>
      match fs.find loc.path with
      | .ok (.dir (.at target)) => target
      | _ => loc
    | _ => loc

def lay (fs : FileSystem) : Location × Node → FileSystem
  | (loc, .dir mode) =>
    let loc := fs.settle loc
    (fs.layDirs loc.tail).put loc (.dir mode)
  | ([], node) => fs.put [] node
  | (name :: dir, node) =>
    let dir := fs.settle dir
    (fs.layDirs dir).put (name :: dir) node

def locate? (fs : FileSystem) (path : Pathname) : Option Location :=
  match fs.walk .keep path with
  | .ok (.entry dir name (some _) _) => some (name :: dir)
  | .ok (.place (.at loc)) => some loc
  | _ => none

def clearAway (fs : FileSystem) (loc : Location) : FileSystem :=
  let within := fs.nodes.keys.filter (·.isWithin loc)
  let innermostFirst := within.mergeSort fun l l' => l'.length ≤ l.length
  innermostFirst.foldl (fun fs l =>
    match fs.node? l with
    | some (.dir mode) => fs.eraseDir l mode
    | _ => fs.erase l) fs

def withMode (fs : FileSystem) (path : Pathname) (mode : Mode) : FileSystem :=
  match fs.find path with
  | .ok (.file loc f) => fs.put loc (.file { f with mode := mode })
  | .ok (.dir (.at loc)) => fs.put loc (.dir mode)
  | _ => fs

def differences (fs fs' : FileSystem) (dir : Location) : List Location :=
  let added := fs'.nodes.keys.filter fun loc => (fs.node? loc).isNone
  (fs.nodes.keys ++ added).filter fun loc =>
    loc.isWithin dir && loc ≠ dir && fs.node? loc ≠ fs'.node? loc

end FileSystem

end BootCard
