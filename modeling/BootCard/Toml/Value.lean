/-!
TOML values and tables. A table knows how it came to be, because that decides which later parts of a
document may add to it.
-/

namespace BootCard

namespace Toml

inductive Origin where
  | header
  | implied
  | dotted
  | inline
deriving DecidableEq, Repr

/-- A value. Nothing is kept of fractions and of dates but that they are there. -/
inductive Value where
  | string (s : String)
  | integer (n : Int)
  | boolean (b : Bool)
  | fraction
  | date
  | array (elements : List Value)
  | table (origin : Origin) (entries : List (String × Value))
  | tables (each : List (List (String × Value)))

abbrev Table := List (String × Value)

namespace Table

def set (t : Table) (key : String) (v : Value) : Table :=
  if (t.lookup key).isSome then
    t.map fun entry => if entry.1 = key then (key, v) else entry
  else
    t ++ [(key, v)]

structure Opened where
  entries : Table
  close : Table → Value

/--
Opens the table that a key of a header leads through: a new one if there is none, and the last one
of several.
-/
def openForHeader : Option Value → Option Opened
  | none => some ⟨[], .table .implied⟩
  | some (.table .inline _) => none
  | some (.table origin entries) => some ⟨entries, .table origin⟩
  | some (.tables each) =>
    match each.reverse with
    | last :: before => some ⟨last, fun t => .tables (before.reverse ++ [t])⟩
    | [] => none
  | some _ => none

/-- Opens the table that a dotted key leads through. A table with a header is closed to it. -/
def openForKey : Option Value → Option Opened
  | none => some ⟨[], .table .dotted⟩
  | some (.table .header _) => none
  | some v => openForHeader (some v)

def openDotted : Option Value → Option Opened
  | none => some ⟨[], .table .dotted⟩
  | some (.table .dotted entries) => some ⟨entries, .table .dotted⟩
  | some _ => none

def alter (path : List (String × (Option Value → Option Opened))) (f : Table → Option Table)
    (t : Table) : Option Table :=
  match path with
  | [] => f t
  | (key, openTable) :: rest => do
    let sub ← openTable (t.lookup key)
    let entries ← alter rest f sub.entries
    some (t.set key (sub.close entries))

def headerPath (keys : List String) : List (String × (Option Value → Option Opened)) :=
  keys.map (·, openForHeader)

def keyPath : List String → List (String × (Option Value → Option Opened))
  | [] => []
  | [key] => [(key, openDotted)]
  | key :: keys => (key, openForKey) :: keyPath keys

def add (key : String) (v : Value) (t : Table) : Option Table :=
  if (t.lookup key).isSome then none else some (t ++ [(key, v)])

def addDotted (path : List String) (key : String) (v : Value) (t : Table) : Option Table :=
  t.alter (keyPath path) (add key v)

def startTable (key : String) (t : Table) : Option Table :=
  match t.lookup key with
  | none => some (t ++ [(key, .table .header [])])
  | some (.table .implied entries) => some (t.set key (.table .header entries))
  | some _ => none

def startTables (key : String) (t : Table) : Option Table :=
  match t.lookup key with
  | none => some (t ++ [(key, .tables [[]])])
  | some (.tables each) => some (t.set key (.tables (each ++ [[]])))
  | some _ => none

end Table

end Toml

end BootCard
