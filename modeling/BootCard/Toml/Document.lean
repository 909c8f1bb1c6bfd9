import BootCard.Toml.Lexer

/-!
TOML documents. A document is read line by line: a header says which table the lines after it add
to, and any other line adds a value under a key.
-/

namespace BootCard

namespace Toml

def value : (levels : Nat) → Reader Value
  | 0, s => scalar s
  | levels + 1, s =>
    match s with
    | '[' :: s => do
      let element : Reader Value := fun s => do
        let (_, s) ← arrayGap s
        let (v, s) ← value levels s
        let (_, s) ← arrayGap s
        some (v, s)
      let (elements, s) ← (element.separated (Reader.text [','])).optional s
      let (_, s) ← if elements.isSome then (Reader.text [',']).optional s else some (none, s)
      let (_, s) ← arrayGap s
      let (_, s) ← Reader.text [']'] s
      some (.array (elements.getD []), s)
    | '\x7b' :: s => do
      let entry : Reader (List String × Value) := fun s => do
        let (path, s) ← key s
        let (_, s) ← Reader.text ['='] s
        let (_, s) ← Reader.many isGap s
        let (v, s) ← value levels s
        let (_, s) ← Reader.many isGap s
        some ((path, v), s)
      let (entries, s) ← (entry.separated (Reader.text [','])).optional s
      let (_, s) ← Reader.many isGap s
      let (_, s) ← Reader.text ['\x7d'] s
      let t ← (entries.getD []).foldlM (fun (t : Table) (path, v) =>
        match path.reverse with
        | last :: before => t.addDotted before.reverse last v
        | [] => none) []
      some (.table .inline t, s)
    | s => scalar s

inductive Line where
  | tableHeader (path : List String)
  | tablesHeader (path : List String)
  | entry (path : List String) (v : Value)

def line : Reader Line := fun s =>
  match s with
  | '[' :: '[' :: s => do
    let (path, s) ← key s
    let (_, s) ← Reader.text [']', ']'] s
    let (_, s) ← lineRest s
    some (.tablesHeader path, s)
  | '[' :: s => do
    let (path, s) ← key s
    let (_, s) ← Reader.text [']'] s
    let (_, s) ← lineRest s
    some (.tableHeader path, s)
  | s => do
    let (path, s) ← key s
    let (_, s) ← Reader.text ['='] s
    let (_, s) ← Reader.many isGap s
    let (v, s) ← value (depthLimit - 1) s
    let (_, s) ← lineRest s
    some (.entry path v, s)

def lines : Nat → List Char → Option (List Line)
  | 0, s => if s.isEmpty then some [] else none
  | n + 1, s =>
    let s := s.dropWhile isGap
    match s with
    | [] => some []
    | c :: _ =>
      if c = '#' || c = '\n' || c = '\r' then do
        let (_, s) ← lineRest s
        lines n s
      else do
        let (l, s) ← line s
        (l :: ·) <$> lines n s

structure State where
  root : Table := []
  header : List String := []

def State.add (st : State) : Line → Option State
  | .tableHeader path => do
    match path.reverse with
    | last :: before =>
      let root ← st.root.alter (Table.headerPath before.reverse) (Table.startTable last)
      some ⟨root, path⟩
    | [] => none
  | .tablesHeader path => do
    match path.reverse with
    | last :: before =>
      let root ← st.root.alter (Table.headerPath before.reverse) (Table.startTables last)
      some ⟨root, path⟩
    | [] => none
  | .entry path v => do
    match path.reverse with
    | last :: before =>
      let root ← st.root.alter (Table.headerPath st.header) (Table.addDotted before.reverse last v)
      some { st with root := root }
    | [] => none

def parse? (text : String) : Option Table := do
  let cs := match text.toList with
    | '\uFEFF' :: cs => cs
    | cs => cs
  let ls ← lines (cs.length + 1) cs
  let st ← ls.foldlM State.add {}
  some st.root

end Toml

end BootCard
