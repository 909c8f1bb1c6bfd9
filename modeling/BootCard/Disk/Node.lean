import BootCard.Bytes

/-!
The entries of a file system: regular files, directories and symbolic links.
-/

namespace BootCard

structure Mode where
  bits : BitVec 9
deriving DecidableEq

namespace Mode

def ofNat (n : Nat) : Mode := ⟨BitVec.ofNat 9 n⟩

def canRead (m : Mode) : Bool := m.bits.getLsbD 8

def canWrite (m : Mode) : Bool := m.bits.getLsbD 7

def canEnter (m : Mode) : Bool := m.bits.getLsbD 6

def toOctal (m : Mode) : String := String.ofList (Nat.toDigits 8 m.bits.toNat)

def newFile : Mode := ofNat 0o644

def newDirectory : Mode := ofNat 0o755

/-- The bits that a new file does not get, whatever mode it is made with. -/
def withheld : Mode := ofNat 0o022

def masked (m : Mode) : Mode := ⟨m.bits &&& ~~~ withheld.bits⟩

end Mode

/-- When a file was last modified: at a known second, or since this run began. -/
inductive Moment where
  | at (seconds : Int)
  | now
deriving DecidableEq

structure RegularFile where
  data : Bytes
  mode : Mode
  modified : Moment
deriving DecidableEq

inductive Node where
  | file (f : RegularFile)
  | dir (mode : Mode)
  | link (target : Bytes)
deriving DecidableEq

namespace Node

def isDir : Node → Bool
  | .dir _ => true
  | _ => false

def isFile : Node → Bool
  | .file _ => true
  | _ => false

end Node

end BootCard
