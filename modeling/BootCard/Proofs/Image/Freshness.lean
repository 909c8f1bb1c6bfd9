import BootCard.Proofs.Image.Generating

/-!
This module contains who has written the configuration that an image is given. The generator has, or
it is a file that was there before.
-/

namespace BootCard

open FileSystem

namespace Program

variable {behaviour : Behaviour} {args : List Bytes} {fs : FileSystem} {path : Pathname}
variable {loc : Location} {f : RegularFile}

/-- Whether a path leads to a file that a program has written, once it has ended. -/
def Outcome.Authors (outcome : Outcome) (path : Pathname) : Prop :=
  ∃ loc f, outcome.disk.find path = .ok (.file loc f) ∧ loc ∈ outcome.written

theorem Outcome.Authors.isFile {outcome : Outcome} (h : outcome.Authors path) :
    outcome.disk.isFile path = true := by
  obtain ⟨loc, f, hfind, -⟩ := h
  exact isFile_eq_true.mpr ⟨loc, f, hfind⟩

theorem node?_of_not_authors (h : ¬ (behaviour.run args fs).Authors path)
    (hfind : (behaviour.run args fs).disk.find path = .ok (.file loc f)) :
    fs.node? loc = some (.file f) := by
  rcases behaviour.written_or_same args fs loc f (mem_visits_of_find hfind).2 with hwritten | hsame
  . exact absurd ⟨loc, f, hfind, hwritten⟩ h
  . exact hsame

end Program

namespace BootText

variable {w w' ran : World} {image config generator dir path : Pathname} {args : List Bytes}
variable {behaviour : Program.Behaviour} {result : Except Stop Pathname}

/-- Whether a generator can be started in a world, and its program comes to a success there. -/
structure EndsWell (w : World) (generator : Pathname) (args : List Bytes)
    (behaviour : Program.Behaviour) : Prop where
  resolves : Program.resolve w.programs w.disk (w.value? "PATH") generator.bytes args =
    .ok behaviour
  status : (behaviour.run args w.disk).status = .exited 0

theorem EndsWell.run (h : EndsWell w generator args behaviour) : ∃ ran,
    (Action.run generator.bytes args).start w = (.ok (.ok (.exited 0)), ran) ∧
      ran.disk = (behaviour.run args w.disk).disk := by
  rw [Action.start_run, h.resolves]
  dsimp only
  rw [h.status]
  exact ⟨_, rfl, rfl⟩

theorem exists_endsWell_of_run
    (h : (Action.run generator.bytes args).start w = (.ok (.ok (.exited 0)), ran)) :
    ∃ behaviour, EndsWell w generator args behaviour ∧
      ran.disk = (behaviour.run args w.disk).disk := by
  rw [Action.start_run] at h
  split at h
  next => simp at h
  next behaviour hresolve =>
    obtain ⟨hstatus, rfl⟩ := Prod.mk.inj h
    exact ⟨behaviour, ⟨hresolve, Except.ok.inj (Except.ok.inj hstatus)⟩, rfl⟩

theorem endsWell_announced : EndsWell (announced image config w) generator args behaviour ↔
    EndsWell w generator args behaviour :=
  ⟨fun h => ⟨h.resolves, h.status⟩, fun h => ⟨h.resolves, h.status⟩⟩

theorem obtain_of_endsWell (hbeside : beside? image = some config)
    (hprebuilt : isPrebuilt w.disk image config = false)
    (h : EndsWell w generator [(image.inForm .elf).bytes] behaviour) :
    let left := (behaviour.run [(image.inForm .elf).bytes] w.disk).disk
    ∃ w', w'.disk = left ∧ (obtain image generator).start w =
      (if left.isFile config then .ok config
        else .error (.failed { cause := .nothingGenerated generator config }), w') := by
  intro left
  have hannounced : EndsWell (announced image config w) generator _ behaviour :=
    endsWell_announced.mpr h
  obtain ⟨ran, hrun, hdisk : ran.disk = left⟩ := hannounced.run
  obtain ⟨result, hconclude, hresult⟩ := start_conclude config generator (.ok (.exited 0)) ran
  refine ⟨ran, hdisk, ?_⟩
  rw [start_obtain_of_not_prebuilt hbeside hprebuilt, Action.start_bind_of_ok hrun, hconclude]
  congr 1
  split
  next hfile => exact (hresult.ok_iff config).mpr ⟨rfl, rfl, by rwa [hdisk]⟩
  next hfile =>
    rw [Bool.not_eq_true, ← hdisk] at hfile
    exact hresult.missing_iff.mpr ⟨rfl, hfile⟩

theorem endsWell_of_obtain (hbeside : beside? image = some config)
    (hprebuilt : isPrebuilt w.disk image config = false)
    (h : (obtain image generator).start w = (.ok path, w')) :
    ∃ behaviour, EndsWell w generator [(image.inForm .elf).bytes] behaviour ∧
      (behaviour.run [(image.inForm .elf).bytes] w.disk).disk.isFile config = true := by
  obtain ⟨outcome, ran, hrun⟩ := Action.exists_run generator.bytes [(image.inForm .elf).bytes]
    (announced image config w)
  obtain ⟨result, hconclude, hresult⟩ := start_conclude config generator outcome ran
  rw [start_obtain_of_not_prebuilt hbeside hprebuilt, Action.start_bind_of_ok hrun, hconclude] at h
  obtain ⟨hok, -⟩ := Prod.mk.inj h
  obtain ⟨-, rfl, hfile⟩ := (hresult.ok_iff path).mp hok
  obtain ⟨behaviour, hends, hdisk⟩ := exists_endsWell_of_run hrun
  rw [hdisk] at hfile
  exact ⟨behaviour, endsWell_announced.mp hends, hfile⟩

theorem obtain_eq_ok_iff (hbeside : beside? image = some config)
    (hprebuilt : isPrebuilt w.disk image config = false)
    (hstart : (obtain image generator).start w = (result, w')) :
    result = .ok path ↔ path = config ∧
      ∃ behaviour, EndsWell w generator [(image.inForm .elf).bytes] behaviour ∧
        (behaviour.run [(image.inForm .elf).bytes] w.disk).disk.isFile config = true := by
  constructor
  . rintro rfl
    have hpath := obtain_eq_ok hstart
    rw [hbeside] at hpath
    exact ⟨(Option.some.inj hpath).symm, endsWell_of_obtain hbeside hprebuilt hstart⟩
  . rintro ⟨rfl, behaviour, hends, hfile⟩
    obtain ⟨_, -, hobtain⟩ := obtain_of_endsWell hbeside hprebuilt hends
    rw [hobtain, if_pos hfile] at hstart
    exact (Prod.mk.inj hstart).1.symm

theorem obtain_of_authors (hbeside : beside? image = some config)
    (hprebuilt : isPrebuilt w.disk image config = false)
    (hstart : (obtain image generator).start w = (result, w'))
    (hends : EndsWell w generator [(image.inForm .elf).bytes] behaviour)
    (h : (behaviour.run [(image.inForm .elf).bytes] w.disk).Authors config) :
    result = .ok config ∧ ∃ loc f, w'.disk.find config = .ok (.file loc f) ∧
      loc ∈ (behaviour.run [(image.inForm .elf).bytes] w.disk).written := by
  obtain ⟨_, hdisk, hobtain⟩ := obtain_of_endsWell hbeside hprebuilt hends
  rw [hobtain, if_pos h.isFile] at hstart
  obtain ⟨rfl, rfl⟩ := Prod.mk.inj hstart
  rw [hdisk]
  exact ⟨rfl, h⟩

theorem obtain_of_not_authors (hbeside : beside? image = some config)
    (hprebuilt : isPrebuilt w.disk image config = false)
    (hstart : (obtain image generator).start w = (result, w'))
    (hends : EndsWell w generator [(image.inForm .elf).bytes] behaviour)
    (h : ¬ (behaviour.run [(image.inForm .elf).bytes] w.disk).Authors config) :
    result = (if (behaviour.run [(image.inForm .elf).bytes] w.disk).disk.isFile config
      then .ok config else .error (.failed { cause := .nothingGenerated generator config })) ∧
      ∀ loc f, w'.disk.find config = .ok (.file loc f) → w.disk.node? loc = some (.file f) := by
  obtain ⟨_, hdisk, hobtain⟩ := obtain_of_endsWell hbeside hprebuilt hends
  rw [hobtain] at hstart
  obtain ⟨rfl, rfl⟩ := Prod.mk.inj hstart
  rw [hdisk]
  exact ⟨rfl, fun loc f => Program.node?_of_not_authors h⟩

/--
What is given for an image that is not a prebuilt one with a configuration is a file that its
generator leaves when it comes to a success, whatever that is for a program. The generator has
written the file, or else it is one that was there before.
-/
theorem obtain_vouches (hstart : (obtain image generator).start w = (result, w'))
    (hprebuilt : ∀ dir, image.parent? = some dir → image.extension? = some (utf8 "img") →
      w.disk.exists? (dir / (bootConfigName : Pathname)) = false) :
    let linked := (image.inForm .elf).bytes
    (∀ config, result = .ok config ↔
      ∃ dir behaviour, image.parent? = some dir ∧ config = dir / (bootConfigName : Pathname) ∧
        EndsWell w generator [linked] behaviour ∧
        (behaviour.run [linked] w.disk).disk.isFile config = true) ∧
    ∀ dir behaviour, image.parent? = some dir → EndsWell w generator [linked] behaviour →
      let config := dir / (bootConfigName : Pathname)
      let outcome := behaviour.run [linked] w.disk
      (outcome.Authors config →
        result = .ok config ∧
          ∃ loc f, w'.disk.find config = .ok (.file loc f) ∧ loc ∈ outcome.written) ∧
      (¬ outcome.Authors config →
        result = (if outcome.disk.isFile config then .ok config
          else .error (.failed { cause := .nothingGenerated generator config })) ∧
        ∀ loc f, w'.disk.find config = .ok (.file loc f) → w.disk.node? loc = some (.file f)) := by
  intro linked
  have hnot {dir : Pathname} (hparent : image.parent? = some dir) :
      isPrebuilt w.disk image (dir / (bootConfigName : Pathname)) = false := by
    rw [← Bool.not_eq_true, isPrebuilt_iff]
    rintro ⟨himg, hexists⟩
    simp [hprebuilt dir hparent himg] at hexists
  constructor
  . intro config
    constructor
    . rintro rfl
      have hconfig := obtain_eq_ok hstart
      unfold beside? at hconfig
      obtain ⟨dir, hparent, rfl⟩ := Option.map_eq_some_iff.mp hconfig
      obtain ⟨-, behaviour, hbehaviour⟩ :=
        (obtain_eq_ok_iff (beside?_of_parent? hparent) (hnot hparent) hstart).mp rfl
      exact ⟨dir, behaviour, hparent, rfl, hbehaviour⟩
    . rintro ⟨dir, behaviour, hparent, rfl, hbehaviour⟩
      exact (obtain_eq_ok_iff (beside?_of_parent? hparent) (hnot hparent) hstart).mpr
        ⟨rfl, behaviour, hbehaviour⟩
  . intro dir behaviour hparent hends config outcome
    have hbeside := beside?_of_parent? hparent
    exact ⟨obtain_of_authors hbeside (hnot hparent) hstart hends,
      obtain_of_not_authors hbeside (hnot hparent) hstart hends⟩

def generatorFile (script : Script) : RegularFile where
  data := script.render
  mode := Mode.ofNat 0o755
  modified := .at 0

def leftoverWorld (script : Script) : World where
  disk :=
    ([("/build/kernel8.bin", .file ⟨utf8 "flat", Mode.newFile, .at 0⟩),
      ("/build/config.txt", .file ⟨utf8 "stale", Mode.newFile, .at 0⟩),
      ("/generate", .file (generatorFile script))] : List (Pathname × Node)).foldl
      (fun fs (path, node) => fs.lay (Location.ofPath path, node)) .empty

theorem endsWell_leftoverWorld (script : Script)
    (hgenerator : ((leftoverWorld script).disk.find "/generate").toOption =
      some (.file (Location.ofPath "/generate") (generatorFile script)))
    (hshell : Script.interpreter? (generatorFile script).data = some Script.shell)
    (hstatus : (Script.interpret (generatorFile script) [utf8 "/build/kernel8.elf"]
      (leftoverWorld script).disk).status = .exited 0) :
    EndsWell (leftoverWorld script) "/generate" [utf8 "/build/kernel8.elf"]
      (Script.behaviour (generatorFile script)) := by
  have hmay : (generatorFile script).mode.canEnter = true :=
    show (Mode.ofNat 0o755).canEnter = true by decide
  have hresolve : Program.resolve Script.programs (leftoverWorld script).disk
      ((leftoverWorld script).value? "PATH") (utf8 "/generate") [utf8 "/build/kernel8.elf"] =
        Script.programs (leftoverWorld script).disk (generatorFile script) :=
    Program.resolve_of_find (by decide) (by decide) (except_toOption_eq_some.mp hgenerator) hmay
  exact ⟨hresolve.trans (Script.programs_of_shell hshell), hstatus⟩

set_option maxRecDepth 100000 in
theorem obtain_vouches_leftoverWorld :
    let w := leftoverWorld [.config (utf8 "fresh")]
    let generator := Script.behaviour (generatorFile [.config (utf8 "fresh")])
    ("/build/kernel8.bin" : Pathname).extension? ≠ some (utf8 "img") ∧
      ∃ w', (obtain "/build/kernel8.bin" "/generate").start w = (.ok "/build/config.txt", w') ∧
        ∃ loc f, w'.disk.find "/build/config.txt" = .ok (.file loc f) ∧
          loc ∈ (generator.run [utf8 "/build/kernel8.elf"] w.disk).written := by
  intro w generator
  let outcome := generator.run [utf8 "/build/kernel8.elf"] w.disk
  have hextension : ("/build/kernel8.bin" : Pathname).extension? ≠ some (utf8 "img") := by decide
  obtain ⟨⟨result, w'⟩, hstart⟩ : ∃ r,
      (obtain "/build/kernel8.bin" "/generate").start w = r := ⟨_, rfl⟩
  have h := obtain_vouches hstart fun _ _ himg => absurd himg hextension
  have hends : EndsWell w "/generate" [utf8 "/build/kernel8.elf"] generator :=
    endsWell_leftoverWorld _ (by decide +kernel) (by decide +kernel) (by decide +kernel)
  have hfind : (outcome.disk.find "/build/config.txt").toOption =
      some (.file (Location.ofPath "/build/config.txt")
        ⟨utf8 "fresh", Mode.newFile, .now⟩) := by
    decide +kernel
  have hwritten : Location.ofPath "/build/config.txt" ∈ outcome.written := by decide +kernel
  obtain ⟨rfl, hfresh⟩ := (h.2 "/build" generator (by decide) hends).1
    ⟨_, _, except_toOption_eq_some.mp hfind, hwritten⟩
  exact ⟨hextension, w', hstart, hfresh⟩

set_option maxRecDepth 100000 in
/-- A generator that does nothing at all makes what is left over pass for what it generates. -/
theorem obtain_passes_leftover :
    let w := leftoverWorld []
    let generator := Script.behaviour (generatorFile [])
    ("/build/kernel8.bin" : Pathname).extension? ≠ some (utf8 "img") ∧
      EndsWell w "/generate" [utf8 "/build/kernel8.elf"] generator ∧
      (generator.run [utf8 "/build/kernel8.elf"] w.disk).written = [] ∧
      ∃ w', (obtain "/build/kernel8.bin" "/generate").start w = (.ok "/build/config.txt", w') ∧
        ∃ loc, w.disk.find "/build/config.txt" =
            .ok (.file loc ⟨utf8 "stale", Mode.newFile, .at 0⟩) ∧
          w'.disk.find "/build/config.txt" =
            .ok (.file loc ⟨utf8 "stale", Mode.newFile, .at 0⟩) := by
  intro w generator
  have hends : EndsWell w "/generate" [utf8 "/build/kernel8.elf"] generator :=
    endsWell_leftoverWorld _ (by decide +kernel) (by decide +kernel) (by decide +kernel)
  have hstale : (w.disk.find "/build/config.txt").toOption =
      some (.file (Location.ofPath "/build/config.txt")
        ⟨utf8 "stale", Mode.newFile, .at 0⟩) := by
    decide +kernel
  have hleft : ((generator.run [utf8 "/build/kernel8.elf"] w.disk).disk.find
      "/build/config.txt").toOption = some (.file (Location.ofPath "/build/config.txt")
        ⟨utf8 "stale", Mode.newFile, .at 0⟩) := by
    decide +kernel
  rw [except_toOption_eq_some] at hstale hleft
  have hbeside : beside? "/build/kernel8.bin" = some "/build/config.txt" := by decide
  obtain ⟨w', hdisk, hobtain⟩ := obtain_of_endsWell hbeside (by decide +kernel) hends
  refine ⟨by decide, hends, by decide +kernel, w', ?_, _, hstale, by rw [hdisk]; exact hleft⟩
  rw [hobtain]
  exact congrArg (·, w') (if_pos (isFile_eq_true.mpr ⟨_, _, hleft⟩))

end BootText

end BootCard
