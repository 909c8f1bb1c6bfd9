import BootCard.Proofs.Settings.Finding
import BootCard.Proofs.Settings.Table

/-!
This module contains which settings a project has. For each setting that is what the environment
says, or else what the project gives, or else the default, whatever is chosen for the others.
-/

namespace BootCard

variable {w w' : World} {root : Pathname} {o : Overrides}

namespace Setting

abbrev Value : Setting → Type
  | .firmware | .programs | .generator | .memoryFile | .volumes => Pathname
  | .listCommand | .ejectCommand => CommandLine
  | .pollInterval => Nat

def inProject (root : Pathname) : (k : Setting) → k.Given → k.Value
  | .firmware, path | .programs, path | .generator, path | .memoryFile, path =>
    if (Pathname.mk path).isAbsolute then ⟨path⟩ else root / Pathname.mk path
  | .volumes, path => ⟨path⟩
  | .listCommand, command | .ejectCommand, command => command
  | .pollInterval, milliseconds => milliseconds

def fromEnvironment (w : World) : (k : Setting) → Option k.Value
  | .memoryFile => (w.textValue? Project.memoryVariable).map Pathname.mk
  | _ => none

end Setting

namespace Settings

def get (s : Settings) : (k : Setting) → k.Value
  | .firmware => s.firmware
  | .programs => s.programs
  | .generator => s.generator
  | .memoryFile => s.memoryFile
  | .volumes => s.volumes
  | .listCommand => s.listCommand
  | .ejectCommand => s.ejectCommand
  | .pollInterval => s.pollInterval

theorem ext_get {s s' : Settings} (h : ∀ k, s.get k = s'.get k) : s = s' := by
  obtain ⟨⟩ := s
  obtain ⟨⟩ := s'
  simp only [Settings.mk.injEq]
  exact ⟨h .firmware, h .programs, h .generator, h .memoryFile, h .volumes, h .listCommand,
    h .ejectCommand, h .pollInterval⟩

theorem get_overrideWith (s : Settings) (k : Setting) :
    (s.overrideWith root o).get k = ((o.get k).map (k.inProject root)).getD (s.get k) := by
  have hjoin (path : Bytes) : root / Pathname.mk path = Setting.inProject root .firmware path := by
    show _ = if (Pathname.mk path).isAbsolute then _ else _
    split
    next habsolute => exact Pathname.join_of_isAbsolute habsolute
    next => rfl
  have hmap (given : Option Bytes) (otherwise : Pathname) :
      (given.map fun path => root / Pathname.mk path).getD otherwise =
        (given.map (Setting.inProject root .firmware)).getD otherwise := by
    rw [funext hjoin]
  have hsame {α : Type} (given : Option α) (otherwise : α) :
      given.getD otherwise = (given.map fun x => x).getD otherwise := by
    rw [Option.map_id']
  cases k with
  | firmware => exact hmap o.firmware s.firmware
  | programs => exact hmap o.programs s.programs
  | generator => exact hmap o.generator s.generator
  | memoryFile => exact hmap o.memoryFile s.memoryFile
  | volumes => rfl
  | listCommand => exact hsame o.listCommand s.listCommand
  | ejectCommand => exact hsame o.ejectCommand s.ejectCommand
  | pollInterval => exact hsame o.pollInterval s.pollInterval

theorem get_overrideWith_set (s : Settings) (k : Setting) (x : k.Given) :
    (s.overrideWith root (o.set k x)).get k = k.inProject root x ∧
      ∀ j, j ≠ k → (s.overrideWith root (o.set k x)).get j = (s.overrideWith root o).get j := by
  constructor
  . rw [get_overrideWith, Overrides.get_set_self]
    rfl
  . intro j hj
    rw [get_overrideWith, get_overrideWith, Overrides.get_set_of_ne x hj]

end Settings

/-- What a setting is: the most specific of what there is. -/
def Setting.chosen (w : World) (root : Pathname) (o : Overrides) (k : Setting) : k.Value :=
  ((k.fromEnvironment w).or ((o.get k).map (k.inProject root))).getD
    ((Settings.default root w.temporaryDirectory).get k)

namespace Project

def settingsFile (root : Pathname) : Pathname := root / (settingsName : Pathname)

/-- What a project gives for its settings, or else why this is not to be known. -/
inductive Gives (disk : FileSystem) (root : Pathname) : Except Failure Overrides → Prop where
  | nothing : disk.isFile (settingsFile root) = false → Gives disk root (.ok {})
  | overrides {data : Bytes} {text : String} {o : Overrides} :
    disk.isFile (settingsFile root) = true → disk.readFile (settingsFile root) = .ok data →
    Utf8.decode? data = some text → Overrides.ofText? text = some o → Gives disk root (.ok o)
  | unreadable {e : IoError} :
    disk.isFile (settingsFile root) = true → disk.readFile (settingsFile root) = .error e →
    Gives disk root (.error ⟨[.readingSettings (settingsFile root)], .io e⟩)
  | notText {data : Bytes} :
    disk.isFile (settingsFile root) = true → disk.readFile (settingsFile root) = .ok data →
    Utf8.decode? data = none →
    Gives disk root (.error ⟨[.readingSettings (settingsFile root)], .io .notText⟩)
  | malformed {data : Bytes} {text : String} :
    disk.isFile (settingsFile root) = true → disk.readFile (settingsFile root) = .ok data →
    Utf8.decode? data = some text → Overrides.ofText? text = none →
    Gives disk root (.error ⟨[.parsingSettings (settingsFile root)], .malformedSettings⟩)

theorem exists_gives (disk : FileSystem) (root : Pathname) : ∃ r, Gives disk root r := by
  cases hfile : disk.isFile (settingsFile root) with
  | false => exact ⟨_, .nothing hfile⟩
  | true =>
    cases hread : disk.readFile (settingsFile root) with
    | error e => exact ⟨_, .unreadable hfile hread⟩
    | ok data =>
      cases htext : Utf8.decode? data with
      | none => exact ⟨_, .notText hfile hread htext⟩
      | some text =>
        cases ho : Overrides.ofText? text with
        | none => exact ⟨_, .malformed hfile hread htext ho⟩
        | some o => exact ⟨_, .overrides hfile hread htext ho⟩

theorem start_readText {file : Pathname} : (readText file).start w =
    match w.disk.readFile file with
    | .error e => (.error (.failed { cause := .io e }), w)
    | .ok data =>
      match Utf8.decode? data with
      | some text => (.ok text, w)
      | none => (.error (.failed { cause := .io .notText }), w) := by
  unfold readText
  rw [Action.start_bind, Action.start_onDisk_ask]
  cases w.disk.readFile file with
  | error e => rfl
  | ok data =>
    show (match Utf8.decode? data with
      | some text => pure text
      | none => Action.fail (.io .notText) : Action String).start w = _
    dsimp only
    cases Utf8.decode? data with
    | none => rfl
    | some text => rfl

theorem start_settingsOf_of_isFile (hfile : w.disk.isFile (settingsFile root) = true) :
    (settingsOf root).start w = (do
      let text ← Action.during (.readingSettings (settingsFile root)) (readText (settingsFile root))
      match Overrides.ofText? text with
      | none =>
        Action.during (.parsingSettings (settingsFile root)) (Action.fail .malformedSettings)
      | some o =>
        Action.note .debug s!"applying overrides from {(settingsFile root).display}"
        pure ((Settings.default root w.temporaryDirectory).overrideWith root o) :
        Action Settings).start w := by
  unfold settingsOf defaults
  rw [Action.start_bind, Action.start_ask]
  dsimp only
  rw [Action.start_bind, Action.start_askDisk]
  dsimp only
  rw [show root / (settingsName : Pathname) = settingsFile root from rfl, hfile]
  rfl

theorem start_settingsOf {r : Except Failure Overrides} (h : Gives w.disk root r) :
    ∃ events, (settingsOf root).start w =
      ((r.map ((Settings.default root w.temporaryDirectory).overrideWith root)).mapError .failed,
        w.told events) := by
  have hread {data : Except IoError Bytes} (hfile : w.disk.isFile (settingsFile root) = true)
      (hdata : w.disk.readFile (settingsFile root) = data) := by
    have hstart := start_settingsOf_of_isFile hfile
    rw [Action.start_bind, Action.start_during, start_readText, hdata] at hstart
    exact hstart
  cases h with
  | nothing hfile =>
    refine ⟨[], ?_⟩
    unfold settingsOf defaults
    rw [World.told_nil, Action.start_bind, Action.start_ask]
    dsimp only
    rw [Action.start_bind, Action.start_askDisk]
    dsimp only
    rw [show root / (settingsName : Pathname) = settingsFile root from rfl, hfile]
    rfl
  | overrides hfile hdata htext ho =>
    refine ⟨[.noted .debug s!"applying overrides from {(settingsFile root).display}"], ?_⟩
    rw [hread hfile hdata]
    dsimp only
    rw [htext]
    dsimp only
    rw [ho]
    rfl
  | unreadable hfile hdata =>
    refine ⟨[], ?_⟩
    rw [World.told_nil, hread hfile hdata]
    rfl
  | notText hfile hdata htext =>
    refine ⟨[], ?_⟩
    rw [World.told_nil, hread hfile hdata]
    dsimp only
    rw [htext]
    rfl
  | malformed hfile hdata htext ho =>
    refine ⟨[], ?_⟩
    rw [World.told_nil, hread hfile hdata]
    dsimp only
    rw [htext]
    dsimp only
    rw [ho]
    rfl

def withEnvironment (w : World) (s : Settings) : Settings :=
  match w.textValue? memoryVariable with
  | some file => { s with memoryFile := ⟨file⟩ }
  | none => s

theorem get_withEnvironment (s : Settings) (k : Setting) :
    (withEnvironment w s).get k = (k.fromEnvironment w).getD (s.get k) := by
  unfold withEnvironment
  cases k with
  | memoryFile =>
    unfold Setting.fromEnvironment
    cases w.textValue? memoryVariable <;> rfl
  | firmware | programs | generator | volumes | listCommand | ejectCommand | pollInterval =>
    cases w.textValue? memoryVariable <;> rfl

theorem get_chosen (k : Setting) : (withEnvironment w
    ((Settings.default root w.temporaryDirectory).overrideWith root o)).get k =
      k.chosen w root o := by
  rw [get_withEnvironment, Settings.get_overrideWith, Setting.chosen, Option.getD_or]

theorem start_settings_of_error {stop : Stop} (hfind : (find.start w).1 = .error stop) :
    settings.start w = (.error stop, (find.start w).2) := by
  unfold settings
  exact Action.start_bind_of_error (Prod.ext hfind rfl)

theorem start_settings {r : Except Failure Overrides} (hfind : (find.start w).1 = .ok root)
    (h : Gives w.disk root r) :
    ∃ events, settings.start w =
      ((r.map fun o => withEnvironment w
        ((Settings.default root w.temporaryDirectory).overrideWith root o)).mapError .failed,
        w.told events) := by
  obtain ⟨found, hfound⟩ := start_find_snd (w := w)
  have hstart : find.start w = (.ok root, w.told found) := Prod.ext hfind hfound
  have hgives : Gives (w.told found).disk root r := h
  obtain ⟨given, hgiven⟩ := start_settingsOf hgives
  refine ⟨found ++ given, ?_⟩
  unfold settings
  rw [Action.start_bind_of_ok hstart, Action.start_bind, hgiven, World.told_told]
  cases r with
  | error f => rfl
  | ok o =>
    have htext : (w.told (found ++ given)).textValue? memoryVariable =
        w.textValue? memoryVariable := rfl
    show (Action.ask (·.textValue? memoryVariable) >>= _).start _ = _
    rw [Action.start_bind, Action.start_ask, htext]
    unfold withEnvironment
    cases w.textValue? memoryVariable with
    | some file => rfl
    | none => rfl

theorem start_settings_fst_eq_ok {s : Settings} : (settings.start w).1 = .ok s ↔
    ∃ root o, (find.start w).1 = .ok root ∧ Gives w.disk root (.ok o) ∧
      ∀ k, s.get k = k.chosen w root o := by
  constructor
  . intro hs
    cases hfind : (find.start w).1 with
    | error stop => simp [start_settings_of_error hfind] at hs
    | ok root =>
      obtain ⟨r, hgives⟩ := exists_gives w.disk root
      obtain ⟨events, hstart⟩ := start_settings hfind hgives
      rw [hstart] at hs
      cases r with
      | error f => simp [Except.map, Except.mapError] at hs
      | ok o =>
        obtain rfl := Except.ok.inj hs
        exact ⟨root, o, rfl, hgives, get_chosen⟩
  . rintro ⟨root, o, hfind, hgives, hget⟩
    obtain ⟨events, hstart⟩ := start_settings hfind hgives
    rw [hstart]
    exact congrArg Except.ok (Settings.ext_get fun k => by rw [get_chosen, hget])

theorem start_settings_fst_eq_error {stop : Stop} : (settings.start w).1 = .error stop ↔
    (find.start w).1 = .error stop ∨
      ∃ root f, (find.start w).1 = .ok root ∧ Gives w.disk root (.error f) ∧ stop = .failed f := by
  constructor
  . intro hs
    cases hfind : (find.start w).1 with
    | error stop' =>
      rw [start_settings_of_error hfind] at hs
      obtain rfl : stop' = stop := Except.error.inj hs
      exact .inl rfl
    | ok root =>
      obtain ⟨r, hgives⟩ := exists_gives w.disk root
      obtain ⟨events, hstart⟩ := start_settings hfind hgives
      rw [hstart] at hs
      cases r with
      | error f => exact .inr ⟨root, f, rfl, hgives, (Except.error.inj hs).symm⟩
      | ok o => simp [Except.map, Except.mapError] at hs
  . rintro (hfind | ⟨root, f, hfind, hgives, rfl⟩)
    . rw [start_settings_of_error hfind]
    . obtain ⟨events, hstart⟩ := start_settings hfind hgives
      rw [hstart]
      rfl

theorem start_settings_snd : ∃ events, (settings.start w).2 = w.told events := by
  cases hfind : (find.start w).1 with
  | error stop =>
    rw [start_settings_of_error hfind]
    exact start_find_snd
  | ok root =>
    obtain ⟨r, hgives⟩ := exists_gives w.disk root
    obtain ⟨events, hstart⟩ := start_settings hfind hgives
    exact ⟨events, by rw [hstart]⟩

/--
The settings are of the project that is found, and each of them is the most specific of what the
environment says, what the project gives and the default. They fail if no project is found or if the
file of the project is of no use. A key sets its own setting and no other, as long as all keys are
known and have values of their kinds.
-/
theorem settings_chosen (w : World) :
    (∀ s, (settings.start w).1 = .ok s ↔ ∃ root o, (find.start w).1 = .ok root ∧
      Gives w.disk root (.ok o) ∧ ∀ k, s.get k = k.chosen w root o) ∧
    (∀ stop, (settings.start w).1 = .error stop ↔ (find.start w).1 = .error stop ∨
      ∃ root f, (find.start w).1 = .ok root ∧ Gives w.disk root (.error f) ∧ stop = .failed f) ∧
    (∃ events, (settings.start w).2 = w.told events) ∧
    (∀ (s : Settings) root o k x, (s.overrideWith root (o.set k x)).get k = k.inProject root x ∧
      ∀ j, j ≠ k → (s.overrideWith root (o.set k x)).get j = (s.overrideWith root o).get j) ∧
    ∀ text origin t o, Toml.parse? text = some [("install", .table origin t)] →
      (Overrides.ofText? text = some o ↔ o.AreOf t) :=
  ⟨fun _ => start_settings_fst_eq_ok, fun _ => start_settings_fst_eq_error, start_settings_snd,
    fun s _ _ k x => s.get_overrideWith_set k x, fun _ _ _ _ => Overrides.ofText?_eq_some_iff⟩

def settingsWorld (text : String) : World where
  disk := FileSystem.empty.lay
    (Location.ofPath "/p/install-kernel.toml", .file ⟨utf8 text, Mode.newFile, .now⟩)
  environment := [(rootVariable, utf8 "/p"), (memoryVariable, [])]

def someSettings : String :=
  "[install]\nfirmware_dir = \"fw\"\ncache_file = \"/c\"\nlist_volumes_command = []\n"

def unknownSettings : String := "[install]\nfirmware = \"fw\"\n"

set_option maxRecDepth 100000 in
theorem settings_chosen_someSettings :
    (∃ s, (settings.start (settingsWorld someSettings)).1 = .ok s ∧ s.firmware = "/p/fw" ∧
      s.programs = "/p/user/cache" ∧ s.memoryFile = ⟨[]⟩ ∧ s.listCommand = [] ∧
      s.ejectCommand = [utf8 "umount"]) ∧
    (settings.start (settingsWorld unknownSettings)).1 =
      .error (.failed ⟨[.parsingSettings "/p/install-kernel.toml"], .malformedSettings⟩) := by
  have hfind (text : String) : (find.start (settingsWorld text)).1 = .ok "/p" := rfl
  have hfile (text : String) : (settingsWorld text).disk.isFile (settingsFile "/p") = true := rfl
  constructor
  . obtain ⟨hok, -, -, -, htable⟩ := settings_chosen (settingsWorld someSettings)
    have hparse : Toml.parse? someSettings = some [("install", .table .header [
        ("firmware_dir", .string "fw"), ("cache_file", .string "/c"),
        ("list_volumes_command", .array [])])] := rfl
    have hgiven : Overrides.ofText? someSettings = some {
        firmware := some (utf8 "fw"), memoryFile := some (utf8 "/c"), listCommand := some [] } := by
      refine (htable _ _ _ _ hparse).mpr ⟨?_, fun k => by cases k <;> rfl⟩
      simp only [List.forall_mem_cons]
      exact ⟨⟨.firmware, rfl, rfl⟩, ⟨.memoryFile, rfl, rfl⟩, ⟨.listCommand, rfl, rfl⟩, by simp⟩
    have hread : (settingsWorld someSettings).disk.readFile (settingsFile "/p") =
        .ok (utf8 someSettings) := by
      rfl
    have hgives := Gives.overrides (hfile _) hread (by decide +kernel) hgiven
    refine ⟨_, (hok _).mpr ⟨"/p", _, hfind _, hgives, get_chosen⟩, ?_, ?_, ?_, ?_, ?_⟩
    . decide +kernel
    . decide +kernel
    . rfl
    . rfl
    . rfl
  . obtain ⟨-, herror, -⟩ := settings_chosen (settingsWorld unknownSettings)
    have hread : (settingsWorld unknownSettings).disk.readFile (settingsFile "/p") =
        .ok (utf8 unknownSettings) := by
      rfl
    have hgives := Gives.malformed (hfile _) hread
      (show _ = some unknownSettings by decide +kernel) (by decide +kernel)
    exact (herror _).mpr (.inr ⟨"/p", _, hfind _, hgives, by decide +kernel⟩)

end Project

end BootCard
