import BootCard.Disk.Node
import Std.Data.ExtTreeMap

/-!
A file system: a finite map from locations to entries, and the directory that relative paths start
from. A location is the list of the names that lead to it, the innermost name first, so that what is
beneath a directory is what has the directory as a suffix.

Two file systems are equal when every location has the same entry in both (`FileSystem.ext_node?`),
and every change is described by what it does to `node?`.
-/

namespace BootCard

abbrev Name := Bytes

/-- Where an entry is: the names that lead to it from the root, the innermost one first. -/
abbrev Location := List Name

/--
A directory that a process is in. A directory that has been removed is still the place of those who
are in it, though it has no entries; what is left of it is its mode and the place it was in.
-/
inductive Place where
  | at (loc : Location)
  | removed (mode : Mode) (parent : Place)
deriving DecidableEq

namespace Place

def parent : Place → Place
  | .at loc => .at loc.tail
  | .removed _ p => p

def afterRemoval (loc : Location) (mode : Mode) : Place → Place
  | .at l => if l = loc then .removed mode (.at l.tail) else .at l
  | .removed m p => .removed m (p.afterRemoval loc mode)

end Place

instance : Std.TransCmp (compare : Location → Location → Ordering) := inferInstance

structure FileSystem where
  nodes : Std.ExtTreeMap Location Node
  here : Place

namespace FileSystem

def empty : FileSystem where
  nodes := (∅ : Std.ExtTreeMap Location Node).insert [] (.dir Mode.newDirectory)
  here := .at []

def node? (fs : FileSystem) (loc : Location) : Option Node := fs.nodes[loc]?

def put (fs : FileSystem) (loc : Location) (n : Node) : FileSystem :=
  { fs with nodes := fs.nodes.insert loc n }

def erase (fs : FileSystem) (loc : Location) : FileSystem :=
  { fs with nodes := fs.nodes.erase loc }

/-- The file system without the directory at a location, which those who are in it stay in. -/
def eraseDir (fs : FileSystem) (loc : Location) (mode : Mode) : FileSystem :=
  { nodes := fs.nodes.erase loc, here := fs.here.afterRemoval loc mode }

/-- The names of the entries of a directory, in the order of their bytes. -/
def names (fs : FileSystem) (dir : Location) : List Name :=
  fs.nodes.keys.filterMap fun
    | name :: parent => if parent = dir then some name else none
    | [] => none

theorem ext_node? {fs fs' : FileSystem} (h : ∀ loc, fs.node? loc = fs'.node? loc)
    (hhere : fs.here = fs'.here) : fs = fs' := by
  obtain ⟨nodes, here⟩ := fs
  obtain ⟨nodes', here'⟩ := fs'
  obtain rfl : here = here' := hhere
  obtain rfl : nodes = nodes' := Std.ExtTreeMap.ext_getElem? h
  rfl

theorem node?_put (fs : FileSystem) (loc l : Location) (n : Node) :
    (fs.put loc n).node? l = if l = loc then some n else fs.node? l := by
  simp only [put, node?, Std.ExtTreeMap.getElem?_insert, Std.LawfulEqCmp.compare_eq_iff_eq]
  simp only [eq_comm]

@[simp]
theorem node?_put_self (fs : FileSystem) (loc : Location) (n : Node) :
    (fs.put loc n).node? loc = some n := by
  simp [node?_put]

theorem node?_put_of_ne (fs : FileSystem) {loc l : Location} (n : Node) (h : l ≠ loc) :
    (fs.put loc n).node? l = fs.node? l := by
  simp [node?_put, h]

theorem node?_erase (fs : FileSystem) (loc l : Location) :
    (fs.erase loc).node? l = if l = loc then none else fs.node? l := by
  simp only [erase, node?, Std.ExtTreeMap.getElem?_erase, Std.LawfulEqCmp.compare_eq_iff_eq]
  simp only [eq_comm]

theorem node?_eraseDir (fs : FileSystem) (loc l : Location) (mode : Mode) :
    (fs.eraseDir loc mode).node? l = if l = loc then none else fs.node? l :=
  node?_erase fs loc l

theorem mem_names_iff (fs : FileSystem) (dir : Location) (name : Name) :
    name ∈ fs.names dir ↔ (fs.node? (name :: dir)).isSome := by
  simp only [names, List.mem_filterMap, node?]
  constructor
  · rintro ⟨loc, hloc, h⟩
    match loc, h with
    | n :: parent, h =>
      simp only [Option.ite_none_right_eq_some, Option.some.injEq] at h
      obtain ⟨rfl, rfl⟩ := h
      simpa using hloc
  · intro h
    exact ⟨name :: dir, by simpa using h, by simp⟩

end FileSystem

/-- The order in which directories are listed, which a file system is free to choose. -/
structure ListingOrder where
  names : FileSystem → Location → List Name
  perm : ∀ fs dir, (names fs dir).Perm (fs.names dir)

namespace ListingOrder

def byName : ListingOrder := ⟨FileSystem.names, fun _ _ => .refl _⟩

theorem mem_names_iff (order : ListingOrder) (fs : FileSystem) (dir : Location) (name : Name) :
    name ∈ order.names fs dir ↔ (fs.node? (name :: dir)).isSome := by
  rw [(order.perm fs dir).mem_iff, fs.mem_names_iff]

end ListingOrder

end BootCard
