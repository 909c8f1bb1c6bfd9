import BootCard.Settings.Basic
import BootCard.Toml.Document

/-!
Reading the settings of a project from a document. The document has one table, `install`, with a key
for each setting. The table may also be given as an array of the settings in their order. Anything
else in it, or a value of another kind, makes the document useless as a whole.
-/

namespace BootCard

namespace Overrides

open Toml

def text? : Value → Option Bytes
  | .string s => some (utf8 s)
  | _ => none

def texts? : Value → Option (List Bytes)
  | .array elements => elements.mapM text?
  | _ => none

def count? : Value → Option Nat
  | .integer n => if 0 ≤ n then some n.toNat else none
  | _ => none

structure Field where
  key : String
  read : Overrides → Value → Option Overrides

def fields : List Field := [
  ⟨"firmware_dir", fun o v => (text? v).map fun x => { o with firmware := some x }⟩,
  ⟨"programs_dir", fun o v => (text? v).map fun x => { o with programs := some x }⟩,
  ⟨"config_generator", fun o v => (text? v).map fun x => { o with generator := some x }⟩,
  ⟨"cache_file", fun o v => (text? v).map fun x => { o with memoryFile := some x }⟩,
  ⟨"volumes_root", fun o v => (text? v).map fun x => { o with volumes := some x }⟩,
  ⟨"list_volumes_command", fun o v => (texts? v).map fun x => { o with listCommand := some x }⟩,
  ⟨"eject_command", fun o v => (texts? v).map fun x => { o with ejectCommand := some x }⟩,
  ⟨"poll_interval_ms", fun o v => (count? v).map fun x => { o with pollInterval := some x }⟩]

def ofTable? (t : Table) : Option Overrides :=
  t.foldlM (fun o (key, v) => do
    let field ← fields.find? (·.key = key)
    field.read o v) {}

/-- The settings in an array, which has to have a value for each. More values do not count. -/
def ofArray? (elements : List Value) : Option Overrides :=
  if elements.length < fields.length then
    none
  else
    (fields.zip elements).foldlM (fun o (field, v) => field.read o v) {}

def ofSection? : Value → Option Overrides
  | .table _ entries => ofTable? entries
  | .array elements => ofArray? elements
  | .tables each => ofArray? (each.map (.table .header))
  | _ => none

def ofDocument? (document : Table) : Option Overrides :=
  document.foldlM (fun _ (key, v) => if key = "install" then ofSection? v else none) {}

def ofText? (text : String) : Option Overrides := (parse? text).bind ofDocument?

end Overrides

end BootCard
