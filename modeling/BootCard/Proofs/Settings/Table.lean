import BootCard.Settings.Document
import Mathlib.Data.List.Induction

/-!
This module contains what a table of settings sets: to each setting the value of its key and nothing
else. A table with another key, or with a value of another kind, sets nothing at all.
-/

namespace BootCard

inductive Setting where
  | firmware
  | programs
  | generator
  | memoryFile
  | volumes
  | listCommand
  | ejectCommand
  | pollInterval
deriving DecidableEq

namespace Setting

abbrev Given : Setting → Type
  | .firmware | .programs | .generator | .memoryFile | .volumes => Bytes
  | .listCommand | .ejectCommand => CommandLine
  | .pollInterval => Nat

def all : List Setting :=
  [.firmware, .programs, .generator, .memoryFile, .volumes, .listCommand, .ejectCommand,
    .pollInterval]

def key : Setting → String
  | .firmware => "firmware_dir"
  | .programs => "programs_dir"
  | .generator => "config_generator"
  | .memoryFile => "cache_file"
  | .volumes => "volumes_root"
  | .listCommand => "list_volumes_command"
  | .ejectCommand => "eject_command"
  | .pollInterval => "poll_interval_ms"

def read : (k : Setting) → Toml.Value → Option k.Given
  | .firmware | .programs | .generator | .memoryFile | .volumes => Overrides.text?
  | .listCommand | .ejectCommand => Overrides.texts?
  | .pollInterval => Overrides.count?

theorem key_injective {j k : Setting} (h : j.key = k.key) : j = k := by
  revert h
  cases j <;> cases k <;> decide

end Setting

namespace Overrides

variable {o o' : Overrides}

def get (o : Overrides) : (k : Setting) → Option k.Given
  | .firmware => o.firmware
  | .programs => o.programs
  | .generator => o.generator
  | .memoryFile => o.memoryFile
  | .volumes => o.volumes
  | .listCommand => o.listCommand
  | .ejectCommand => o.ejectCommand
  | .pollInterval => o.pollInterval

def set (o : Overrides) : (k : Setting) → k.Given → Overrides
  | .firmware, x => { o with firmware := some x }
  | .programs, x => { o with programs := some x }
  | .generator, x => { o with generator := some x }
  | .memoryFile, x => { o with memoryFile := some x }
  | .volumes, x => { o with volumes := some x }
  | .listCommand, x => { o with listCommand := some x }
  | .ejectCommand, x => { o with ejectCommand := some x }
  | .pollInterval, x => { o with pollInterval := some x }

theorem get_set_self (k : Setting) (x : k.Given) : (o.set k x).get k = some x := by
  cases k <;> rfl

theorem get_set_of_ne {j k : Setting} (x : k.Given) (h : j ≠ k) : (o.set k x).get j = o.get j := by
  revert h
  cases j <;> cases k <;> first | (intro _; rfl) | exact fun h => absurd rfl h

theorem ext_get (h : ∀ k, o.get k = o'.get k) : o = o' := by
  obtain ⟨⟩ := o
  obtain ⟨⟩ := o'
  simp only [Overrides.mk.injEq]
  exact ⟨h .firmware, h .programs, h .generator, h .memoryFile, h .volumes, h .listCommand,
    h .ejectCommand, h .pollInterval⟩

theorem get_empty (k : Setting) : ({} : Overrides).get k = none := by
  cases k <;> rfl

theorem fields_eq : fields = Setting.all.map fun k =>
    ⟨k.key, fun o v => (k.read v).map (o.set k)⟩ := rfl

theorem read_field_eq_some_iff {key : String} {v : Toml.Value} :
    (fields.find? (·.key = key)).bind (·.read o v) = some o' ↔
      ∃ k : Setting, k.key = key ∧ ∃ x, k.read v = some x ∧ o' = o.set k x := by
  rw [fields_eq, List.find?_map]
  constructor
  . intro h
    obtain ⟨field, hfield, hread⟩ := Option.bind_eq_some_iff.mp h
    obtain ⟨k, hk, rfl⟩ := Option.map_eq_some_iff.mp hfield
    obtain ⟨x, hx, rfl⟩ := Option.map_eq_some_iff.mp hread
    exact ⟨k, by simpa using List.find?_some hk, x, hx, rfl⟩
  . rintro ⟨k, rfl, x, hx, rfl⟩
    have hfind : Setting.all.find? (·.key = k.key) = some k := by
      cases k <;> rfl
    show ((Setting.all.find? (·.key = k.key)).map _).bind _ = _
    rw [hfind]
    simp [hx]

theorem ofTable?_concat {t : Toml.Table} {key : String} {v : Toml.Value} :
    ofTable? (t ++ [(key, v)]) = some o' ↔
      ∃ o, ofTable? t = some o ∧
        ∃ k : Setting, k.key = key ∧ ∃ x, k.read v = some x ∧ o' = o.set k x := by
  unfold ofTable?
  rw [List.foldlM_append, Option.bind_eq_bind, Option.bind_eq_some_iff]
  constructor
  . rintro ⟨o, ht, h⟩
    refine ⟨o, ht, read_field_eq_some_iff.mp ?_⟩
    simpa using h
  . rintro ⟨o, ht, h⟩
    refine ⟨o, ht, ?_⟩
    have := read_field_eq_some_iff.mpr h
    simpa using this

/-- Whether some overrides are those of a table: of several values for a key the last one counts. -/
structure AreOf (o : Overrides) (t : Toml.Table) : Prop where
  known : ∀ entry ∈ t, ∃ k : Setting, k.key = entry.1 ∧ (k.read entry.2).isSome = true
  get_eq : ∀ k, o.get k = (t.reverse.lookup k.key).bind k.read

theorem areOf_of_ofTable? {t : Toml.Table} (h : ofTable? t = some o) : o.AreOf t := by
  induction t using List.reverseRecOn generalizing o with
  | nil =>
    obtain rfl : {} = o := Option.some.inj h
    exact ⟨by simp, get_empty⟩
  | append_singleton t entry ih =>
    obtain ⟨key, v⟩ := entry
    obtain ⟨o, ht, k, rfl, x, hx, rfl⟩ := ofTable?_concat.mp h
    have hof := ih ht
    constructor
    . intro entry hentry
      rcases List.mem_append.mp hentry with hentry | hentry
      . exact hof.known entry hentry
      . obtain rfl := List.mem_singleton.mp hentry
        exact ⟨k, rfl, by rw [hx]; rfl⟩
    . intro j
      rw [List.reverse_append, List.reverse_singleton, List.singleton_append, List.lookup_cons]
      by_cases hj : j = k
      . subst hj
        rw [get_set_self, beq_self_eq_true]
        exact hx.symm
      . have hkey : j.key ≠ k.key := fun heq => hj (Setting.key_injective heq)
        rw [get_set_of_ne x hj, hof.get_eq, beq_false_of_ne hkey]

theorem exists_ofTable? {t : Toml.Table}
    (h : ∀ entry ∈ t, ∃ k : Setting, k.key = entry.1 ∧ (k.read entry.2).isSome = true) :
    ∃ o, ofTable? t = some o := by
  induction t using List.reverseRecOn with
  | nil => exact ⟨{}, rfl⟩
  | append_singleton t entry ih =>
    obtain ⟨o, ht⟩ := ih fun entry hentry => h entry (List.mem_append_left _ hentry)
    obtain ⟨k, hkey, hread⟩ := h entry (by simp)
    obtain ⟨x, hx⟩ := Option.isSome_iff_exists.mp hread
    exact ⟨o.set k x, ofTable?_concat.mpr ⟨o, ht, k, hkey, x, hx, rfl⟩⟩

theorem ofTable?_eq_some_iff {t : Toml.Table} : ofTable? t = some o ↔ o.AreOf t := by
  constructor
  . exact areOf_of_ofTable?
  . intro hof
    obtain ⟨o', ho'⟩ := exists_ofTable? hof.known
    have heq : o = o' := ext_get fun k => by
      rw [hof.get_eq, (areOf_of_ofTable? ho').get_eq]
    rw [heq, ho']

theorem ofText?_eq_some_iff {text : String} {origin : Toml.Origin} {t : Toml.Table}
    (h : Toml.parse? text = some [("install", .table origin t)]) :
    ofText? text = some o ↔ o.AreOf t := by
  have hdocument : ofDocument? [("install", .table origin t)] = ofTable? t := by
    simp [ofDocument?, ofSection?]
  unfold ofText?
  rw [h, Option.bind_some, hdocument]
  exact ofTable?_eq_some_iff

end Overrides

end BootCard
