import BootCard.Disk.Layout
import BootCard.Image.BootText
import BootCard.Proofs.Image.Locating
import BootCard.Proofs.World.Direct

/-!
This module contains when a boot configuration is generated and what comes of that. A generator is
run once, and what it comes to and the disk that it leaves behind tell what comes of the whole.
-/

namespace BootCard

open FileSystem

namespace BootText

variable {P : Option Cause → Prop} {w w' : World} {image config generator dir : Pathname}
variable {outcome : Except IoError ExitStatus} {operator : Operator}
variable {own : World → World → Prop}

theorem beside?_of_parent? (hparent : image.parent? = some dir) :
    beside? image = some (dir / (bootConfigName : Pathname)) := by
  unfold beside?
  rw [hparent]
  rfl

theorem generate_disk : ((Action.run generator.bytes [(image.inForm .elf).bytes]).start w).2.disk =
    ((generate image config generator).start w).2.disk := by
  unfold generate
  dsimp only
  apply Action.run_disk
  . exact ⟨_, rfl, rfl, rfl, rfl, rfl⟩
  intro outcome w₂
  apply Action.frame_bind
  . rw [Action.start_during_snd, Action.start_ofExcept_snd]
  intro status w₃ _
  split
  . rfl
  apply Action.frame_bind
  . rfl
  intro there w₄ _
  split <;> rfl

theorem generate_congr {image' : Pathname} (h : image.inForm .elf = image'.inForm .elf) :
    generate image config generator = generate image' config generator := by
  unfold generate
  rw [h]

theorem start_obtain (hbeside : beside? image = some config) :
    (obtain image generator).start w =
      if isPrebuilt w.disk image config then
        (.ok config, { w with transcript :=
          w.transcript ++ [.noted .debug s!"reusing prepackaged {config.display}"] })
      else (do generate image config generator; pure config : Action Pathname).start w := by
  unfold obtain
  rw [hbeside]
  dsimp only
  rw [Action.start_bind, Action.start_askDisk]
  dsimp only
  split <;> rfl

theorem obtain_disk : ((obtain image generator).start w).2.disk = w.disk ∨
    (∃ config, beside? image = some config ∧ isPrebuilt w.disk image config = false) ∧
      ((obtain image generator).start w).2.disk =
        ((Action.run generator.bytes [(image.inForm .elf).bytes]).start w).2.disk := by
  cases hconfig : beside? image with
  | none =>
    unfold obtain
    rw [hconfig]
    exact .inl rfl
  | some config =>
    rw [start_obtain hconfig]
    split
    next => exact .inl rfl
    next hprebuilt =>
      refine .inr ⟨⟨config, rfl, by simpa using hprebuilt⟩, ?_⟩
      have hgenerate :
          ((Action.run generator.bytes [(image.inForm .elf).bytes]).start w).2.disk =
            ((generate image config generator).start w).2.disk := generate_disk
      rw [hgenerate]
      symm
      apply Action.frame_after
      intro _ w₁ _
      rfl

theorem obtain_eq_ok (h : (obtain image generator).start w = (.ok config, w')) :
    beside? image = some config := by
  unfold obtain at h
  split at h
  next => simp at h
  next config' heq =>
    simp only [Action.start_bind_eq_ok] at h
    obtain ⟨prebuilt, w₁, -, h⟩ := h
    split at h
    all_goals
      simp only [Action.start_bind_eq_ok, Action.start_pure, Prod.mk.injEq, Except.ok.injEq] at h
      obtain ⟨_, _, -, rfl, -⟩ := h
      exact heq

theorem isSteady_generate : (generate image config generator).IsSteady := by
  unfold generate
  refine .bind (.happen _) fun _ => .bind .run fun outcome =>
    .bind (.during _ (.ofExcept _ _)) fun status => ?_
  split
  . exact .fail _
  refine .bind (.askDisk _) fun there => ?_
  split
  . exact .fail _
  . exact .pure _

theorem isSteady_obtain : (obtain image generator).IsSteady := by
  unfold obtain
  split
  . exact .fail _
  refine .bind (.askDisk _) fun prebuilt => ?_
  split
  . exact .bind (.happen _) fun _ => .pure _
  . exact .bind isSteady_generate fun _ => .pure _

def call (image config generator : Pathname) : Action (Except IoError ExitStatus) := do
  Action.printLine
    s!"[config] generating {config.display} from {(image.inForm .elf).display}"
  Action.run generator.bytes [(image.inForm .elf).bytes]

def failure (generator : Pathname) : Except IoError ExitStatus → Failure
  | .error e => { during := [.runningGenerator generator], cause := .io e }
  | .ok status => { cause := .generatorFailed generator status }

def settle (config generator : Pathname) : Except IoError ExitStatus → Action Unit
  | .error e => Action.during (.runningGenerator generator) (Action.fail (.io e))
  | .ok status =>
    if status.isSuccess then
      Action.require (·.isFile config) (.nothingGenerated generator config)
    else
      Action.fail (.generatorFailed generator status)

theorem generate_eq : generate image config generator = (do
    let outcome ← call image config generator
    settle config generator outcome) := by
  unfold generate call
  simp only [bind_assoc]
  congr 1
  funext _
  congr 1
  funext outcome
  cases outcome with
  | error e => rfl
  | ok status =>
    have hended : Action.during (.runningGenerator generator)
        (Action.ofExcept .io (.ok status : Except IoError ExitStatus)) = pure status := rfl
    rw [hended, pure_bind]
    unfold settle
    dsimp only
    cases status.isSuccess <;> rfl

theorem settle_of_failure (h : outcome ≠ .ok (.exited 0)) :
    (settle config generator outcome).start w =
      (.error (.failed (failure generator outcome)), w) := by
  have hstatus (status : ExitStatus) (hne : status ≠ .exited 0) : status.isSuccess = false := by
    unfold ExitStatus.isSuccess
    split
    next => exact absurd rfl hne
    next => rfl
  unfold settle
  cases outcome with
  | error e => rfl
  | ok status =>
    dsimp only
    rw [hstatus status (by simpa using h)]
    rfl

theorem settle_eq_error {f : Failure}
    (h : (settle config generator outcome).start w = (.error (.failed f), w'))
    (hcause : f.cause.IsGenerators) : w' = w ∧ outcome ≠ .ok (.exited 0) := by
  have hdirect : (Action.require (·.isFile config)
      (.nothingGenerated generator config)).IsDirect (¬ ·.IsGenerators) :=
    .require (by simp [Cause.IsGenerators])
  unfold settle at h
  split at h
  next e =>
    obtain ⟨-, rfl⟩ := Prod.mk.inj h
    exact ⟨rfl, by simp⟩
  next status =>
    split at h
    next =>
      have hstops := hdirect.stopsFor (Q := fun c => ∀ cause ∈ c, ¬ cause.IsGenerators) (by simp)
      exact absurd hcause (hstops w (.failed f) (by rw [h]) _ rfl)
    next hstatus =>
      obtain ⟨-, rfl⟩ := Prod.mk.inj h
      refine ⟨rfl, fun heq => hstatus ?_⟩
      rw [Except.ok.inj heq]
      rfl

theorem stopsFor_call : (call image config generator).StopsFor P :=
  .bind (.happen _) fun _ => .run _ _

theorem obtain_of_call (hbeside : beside? image = some config)
    (hprebuilt : isPrebuilt w.disk image config = false)
    (hcall : (call image config generator).start w = (.ok outcome, w'))
    (hfailure : outcome ≠ .ok (.exited 0)) :
    (obtain image generator).start w = (.error (.failed (failure generator outcome)), w') := by
  rw [start_obtain hbeside, hprebuilt, generate_eq, if_neg (by simp)]
  rw [Action.start_bind_of_error]
  rw [Action.start_bind_of_ok hcall]
  exact settle_of_failure hfailure

theorem obtain_eq_error {f : Failure}
    (h : (obtain image generator).start w = (.error (.failed f), w'))
    (hcause : f.cause.IsGenerators) :
    ∃ config outcome, beside? image = some config ∧ isPrebuilt w.disk image config = false ∧
      (call image config generator).start w = (.ok outcome, w') ∧ outcome ≠ .ok (.exited 0) := by
  cases hbeside : beside? image with
  | none =>
    unfold obtain at h
    rw [hbeside] at h
    obtain ⟨hf, -⟩ := Prod.mk.inj h
    obtain rfl := Stop.failed.inj (Except.error.inj hf)
    simp [Cause.IsGenerators] at hcause
  | some config =>
    rw [start_obtain hbeside] at h
    cases hprebuilt : isPrebuilt w.disk image config with
    | true =>
      rw [hprebuilt, if_pos rfl] at h
      simp at h
    | false =>
      rw [hprebuilt, generate_eq, if_neg (by simp)] at h
      simp only [Action.start_bind_eq_error, Action.start_pure, Prod.mk.injEq, reduceCtorEq,
        false_and, and_false, exists_false, or_false] at h
      rcases h with hcall | ⟨outcome, w₁, hcall, hsettle⟩
      . have hstops : (call image config generator).StopsFor fun _ => False := stopsFor_call
        exact absurd (by rw [hcall]) (hstops w (.failed f))
      . obtain ⟨rfl, hfailure⟩ := settle_eq_error hsettle hcause
        exact ⟨config, outcome, rfl, hprebuilt, hcall, hfailure⟩

theorem callsAtMost_generate : (generate image config generator).CallsAtMost operator own
    [.program generator.bytes [(image.inForm .elf).bytes]] := by
  unfold generate
  dsimp only
  refine .before (.printLine _) fun _ => .after (.run _ _) fun outcome =>
    .before (.during _ (.of_same fun _ => Action.start_ofExcept_snd _ outcome)) fun status => ?_
  split
  . exact .fail _
  refine .before (.askDisk _) fun there => ?_
  split
  . exact .fail _
  . exact .pure _

theorem callsAtMost_obtain : (obtain image generator).CallsAtMost operator own
    [.program generator.bytes [(image.inForm .elf).bytes]] := by
  unfold obtain
  split
  . exact .fail _
  refine .before (.askDisk _) fun prebuilt => ?_
  split
  . exact .before (.note _ _) fun _ => .pure _
  . exact .after callsAtMost_generate fun _ => .pure _

/-- Goes on once a generator has come to an outcome, and gives the configuration if all is well. -/
def conclude (config generator : Pathname) (outcome : Except IoError ExitStatus) :
    Action Pathname := do
  settle config generator outcome
  pure config

def announced (image config : Pathname) (w : World) : World :=
  let text := s!"[config] generating {config.display} from {(image.inForm .elf).display}"
  { w with transcript := w.transcript ++ [.printed (utf8 (text ++ "\n"))] }

/-- Whether a result is the one for what a generator has come to and the disk that it has left. -/
structure IsResult (config generator : Pathname) (outcome : Except IoError ExitStatus)
    (disk : FileSystem) (result : Except Stop Pathname) : Prop where
  ok_iff : ∀ path, result = .ok path ↔
    path = config ∧ outcome = .ok (.exited 0) ∧ disk.isFile config = true
  failed_iff : ∀ status,
    result = .error (.failed { cause := .generatorFailed generator status }) ↔
      outcome = .ok status ∧ status ≠ .exited 0
  unstarted_iff : ∀ e,
    result = .error (.failed { during := [.runningGenerator generator], cause := .io e }) ↔
      outcome = .error e
  missing_iff : result = .error (.failed { cause := .nothingGenerated generator config }) ↔
    outcome = .ok (.exited 0) ∧ disk.isFile config = false

theorem isResult_failure (h : outcome ≠ .ok (.exited 0)) :
    IsResult config generator outcome w.disk (.error (.failed (failure generator outcome))) := by
  cases outcome with
  | error e => constructor <;> simp [failure]
  | ok status =>
    have hstatus : status ≠ .exited 0 := by simpa using h
    constructor
    . simp [hstatus]
    . intro status'
      simp only [failure, Except.error.injEq, Stop.failed.injEq, Failure.mk.injEq, true_and,
        Cause.generatorFailed.injEq, Except.ok.injEq]
      constructor
      . rintro rfl
        exact ⟨rfl, hstatus⟩
      . exact fun h => h.1
    . simp [failure]
    . simp [failure, hstatus]

theorem start_conclude (config generator : Pathname) (outcome : Except IoError ExitStatus)
    (w : World) : ∃ result, (conclude config generator outcome).start w = (result, w) ∧
      IsResult config generator outcome w.disk result := by
  by_cases h : outcome = .ok (.exited 0)
  . subst h
    have hsettle : (settle config generator (.ok (.exited 0))).start w = _ := Action.start_require
    unfold conclude
    rw [Action.start_bind, hsettle]
    cases hfile : w.disk.isFile config with
    | true => exact ⟨.ok config, rfl, by constructor <;> simp [hfile, eq_comm]⟩
    | false => exact ⟨_, rfl, by constructor <;> simp [hfile]⟩
  . exact ⟨_, Action.start_bind_of_error (settle_of_failure h), isResult_failure h⟩

theorem isPrebuilt_iff {disk : FileSystem} : isPrebuilt disk image config = true ↔
    image.extension? = some (utf8 "img") ∧ disk.exists? config = true := by
  unfold isPrebuilt
  rw [Bool.and_eq_true, beq_iff_eq, ImageForm.of?_eq_some]
  rfl

theorem start_obtain_of_not_prebuilt (hbeside : beside? image = some config)
    (hprebuilt : isPrebuilt w.disk image config = false) :
    (obtain image generator).start w = (do
      let outcome ← Action.run generator.bytes [(image.inForm .elf).bytes]
      conclude config generator outcome).start (announced image config w) := by
  rw [start_obtain hbeside, hprebuilt, if_neg (by simp), generate_eq]
  unfold call conclude
  simp only [bind_assoc]
  rfl

/--
A prebuilt image with a configuration beside it is taken as it is. For any other one the generator
is run once on the linked form, and nothing else is done. Whatever that comes to and whatever world
it leaves behind, these two tell what is given or what is wrong.
-/
theorem obtain_generates (hparent : image.parent? = some dir) (generator : Pathname) (w : World) :
    let config := dir / (bootConfigName : Pathname)
    let linked := (image.inForm .elf).bytes
    if image.extension? = some (utf8 "img") ∧ w.disk.exists? config = true then
      (obtain image generator).start w = (.ok config, { w with transcript :=
        w.transcript ++ [.noted .debug s!"reusing prepackaged {config.display}"] })
    else
      (∃ outcome ran,
        (Action.run generator.bytes [linked]).start (announced image config w) =
          (.ok outcome, ran) ∧
        ran.calls = w.calls ++ [.program generator.bytes [linked]] ∧
        (obtain image generator).start w = (conclude config generator outcome).start ran) ∧
      ∀ outcome ran, ∃ result, (conclude config generator outcome).start ran = (result, ran) ∧
        IsResult config generator outcome ran.disk result := by
  intro config linked
  have hbeside : beside? image = some config := beside?_of_parent? hparent
  split
  next hprebuilt => rw [start_obtain hbeside, if_pos (isPrebuilt_iff.mpr hprebuilt)]
  next hprebuilt =>
    rw [← isPrebuilt_iff, Bool.not_eq_true] at hprebuilt
    refine ⟨?_, start_conclude config generator⟩
    obtain ⟨outcome, ran, hrun⟩ :=
      Action.exists_run generator.bytes [linked] (announced image config w)
    have hcalls := Action.run_calls (w := announced image config w) generator.bytes [linked]
    rw [hrun, show (announced image config w).calls = w.calls from World.calls_tell rfl] at hcalls
    refine ⟨outcome, ran, hrun, hcalls, ?_⟩
    rw [start_obtain_of_not_prebuilt hbeside hprebuilt, Action.start_bind_of_ok hrun]

def failingWorld : World where
  disk :=
    let script : Script := [.config (utf8 "arm_64bit=1"), .exit 3]
    ([("/build/kernel8.bin", .file ⟨utf8 "flat", Mode.newFile, .at 0⟩),
      ("/generate", .file ⟨script.render, Mode.ofNat 0o755, .at 0⟩)] : List (Pathname × Node)).foldl
      (fun fs (path, node) => fs.lay (Location.ofPath path, node)) .empty

set_option maxRecDepth 100000 in
theorem obtain_generates_failingWorld :
    ("/build/kernel8.bin" : Pathname).parent? = some "/build" ∧
      ∃ ran, (obtain "/build/kernel8.bin" "/generate").start failingWorld =
          (.error (.failed { cause := .generatorFailed "/generate" (.exited 3) }), ran) ∧
        ran.calls = [.program (utf8 "/generate") [utf8 "/build/kernel8.elf"]] ∧
        ran.disk.isFile "/build/config.txt" = true := by
  have hparent : ("/build/kernel8.bin" : Pathname).parent? = some "/build" := by decide
  have h := obtain_generates hparent "/generate" failingWorld
  dsimp only at h
  rw [if_neg (by decide +kernel)] at h
  obtain ⟨⟨outcome, ran, hrun, hcalls, hobtain⟩, hconclude⟩ := h
  obtain ⟨result, hresult, hisResult⟩ := hconclude outcome ran
  let run := (Action.run (utf8 "/generate") [utf8 "/build/kernel8.elf"]).start
    (announced "/build/kernel8.bin" "/build/config.txt" failingWorld)
  have heq : run = (.ok outcome, ran) := hrun
  have hstatus : (run.1.toOption.bind Except.toOption) = some (.exited 3) := by decide +kernel
  have hfile : run.2.disk.isFile "/build/config.txt" = true := by decide +kernel
  rw [heq] at hstatus hfile
  have houtcome : outcome = .ok (.exited 3) := by
    cases outcome with
    | error e => simp [Except.toOption] at hstatus
    | ok status => rw [Option.some.inj hstatus]
  have hfailed := (hisResult.failed_iff (.exited 3)).mpr ⟨houtcome, by decide⟩
  exact ⟨hparent, ran, by rw [hobtain, hresult, hfailed], hcalls, hfile⟩

end BootText

end BootCard
