import BootCard.Command
import BootCard.Proofs.Deployment.Commands
import BootCard.Proofs.Deployment.Failing
import BootCard.Proofs.Text.Encoding

/-!
This module contains how the command ends. Its number is 0 if and only if everything has succeeded,
that of the generator if it is for this that the command fails, and 1 otherwise.
-/

namespace BootCard

variable {P : Option Cause → Prop} {w w' : World}

namespace Project

theorem stopsFor_settings (h : ∀ cause : Cause, ¬ cause.IsGenerators → P (some cause)) :
    settings.StopsFor P := by
  have hio (e : IoError) : P (some (.io e)) := h _ (Cause.not_isGenerators_io e)
  have hfind : find.StopsFor P := by
    unfold find
    refine .bind (.ask _) fun root => ?_
    cases root with
    | some root => exact .pure _
    | none =>
      refine .bind (.askDisk _) fun cwd => .bind (.during _ (.ofExcept hio cwd)) fun cwd =>
        .bind (.askDisk _) fun dir => ?_
      cases dir with
      | some dir => exact .pure dir
      | none => exact .bind (.happen _) fun _ => .pure cwd
  have hread (file : Pathname) : (readText file).StopsFor P := by
    unfold readText
    refine .bind (.onDisk hio _) fun data => ?_
    split
    . exact .pure _
    . exact .fail (hio _)
  have hsettings (root : Pathname) : (settingsOf root).StopsFor P := by
    unfold settingsOf
    refine .bind (.ask _) fun settings => .bind (.askDisk _) fun there => ?_
    split
    . exact .pure settings
    refine .bind (.during _ (hread _)) fun text => ?_
    split
    . exact .during _ (.fail (h _ (by simp [Cause.IsGenerators])))
    . exact .bind (.happen _) fun _ => .pure _
  unfold settings
  refine .bind hfind fun root => .bind (hsettings root) fun settings =>
    .bind (.ask _) fun file => ?_
  cases file with
  | some file => exact .pure _
  | none => exact .pure settings

end Project

namespace Report

theorem count_add_count (r : Report) : r.count .updated + r.count .upToDate = r.staged.length := by
  unfold count
  generalize r.staged = staged
  induction staged with
  | nil => rfl
  | cons head rest ih =>
    obtain ⟨asset, outcome⟩ := head
    cases outcome with
    | updated | upToDate =>
      simp only [List.countP_cons, List.length_cons, ← ih]
      simp
      omega

def summary (r : Report) : String :=
  s!"[install] {r.card.display}: {r.count .updated} updated, {r.count .upToDate} up-to-date"

end Report

namespace Command

variable {args : List String} {order : Order} {settings : Settings} {image : String}
variable {card : Option String}

/-! What the arguments ask for. -/

theorem any_asksForHelp :
    (args.map utf8).any asksForHelp = true ↔ "-h" ∈ args ∨ "--help" ∈ args := by
  rw [List.any_map, List.any_eq_true]
  simp only [Function.comp_apply, asksForHelp, Bool.or_eq_true, beq_iff_eq, utf8_inj]
  constructor
  . rintro ⟨arg, hmem, rfl | rfl⟩
    . exact .inl hmem
    . exact .inr hmem
  . rintro (hmem | hmem)
    . exact ⟨_, hmem, .inl rfl⟩
    . exact ⟨_, hmem, .inr rfl⟩

theorem any_isOption :
    (args.map utf8).any isOption = true ↔ ∃ arg ∈ args, arg.toList.head? = some '-' := by
  simp [isOption, head?_utf8]

theorem parse_of_help (h : "-h" ∈ args ∨ "--help" ∈ args) :
    parse (args.map utf8) = .ok .help := by
  unfold parse
  rw [if_pos (any_asksForHelp.mpr h)]

theorem parse_of_order (h : ∀ arg ∈ image :: card.toList, arg.toList.head? ≠ some '-') :
    parse ((image :: card.toList).map utf8) =
      .ok (.deploy ⟨.ofString image, card.map .ofString⟩) := by
  have hoption : ¬ ((image :: card.toList).map utf8).any isOption = true := by
    rw [any_isOption]
    rintro ⟨arg, harg, hdash⟩
    exact h arg harg hdash
  have hhelp : ¬ ((image :: card.toList).map utf8).any asksForHelp = true := by
    rw [any_asksForHelp]
    rintro (hmem | hmem)
    all_goals exact h _ hmem (by decide)
  unfold parse
  rw [if_neg hhelp, if_neg hoption]
  cases card <;> rfl

theorem parse_of_misuse (hshort : "-h" ∉ args) (hlong : "--help" ∉ args)
    (h : ¬ ((args.length = 1 ∨ args.length = 2) ∧ ∀ arg ∈ args, arg.toList.head? ≠ some '-')) :
    parse (args.map utf8) = .error { cause := .misuse usage } := by
  have hhelp : ¬ (args.map utf8).any asksForHelp = true := by
    rw [any_asksForHelp]
    tauto
  unfold parse
  rw [if_neg hhelp]
  split
  next => rfl
  next hoption =>
    rw [any_isOption] at hoption
    push Not at hoption
    match args with
    | [] | _ :: _ :: _ :: _ => rfl
    | [_] | [_, _] => exact absurd ⟨by simp, hoption⟩ h

/-! How the command ends. -/

def ending {α : Type} : Except Stop α → Option Result
  | .ok _ => some ⟨0, none⟩
  | .error (.failed f) => some ⟨f.exitCode, some f⟩
  | .error .waiting => none

theorem runIn_eq (args : List Bytes) (w : World) :
    runIn args w = (ending ((run args).start w).1, ((run args).start w).2) := by
  unfold runIn
  rcases (run args).start w with ⟨(f | _) | u, w'⟩ <;> rfl

def codeOf : Except IoError ExitStatus → Nat
  | .ok (.exited n) => n
  | .ok (.killed _) => 1
  | .error _ => 1

theorem exitCode_failure (generator : Pathname) (outcome : Except IoError ExitStatus) :
    (BootText.failure generator outcome).exitCode = codeOf outcome := by
  rcases outcome with e | n | signal <;> rfl

theorem exitCode_of_not_isGenerators {f : Failure} (h : ¬ f.cause.IsGenerators) :
    f.exitCode = 1 := by
  unfold Failure.exitCode
  split
  next generator status heq => exact absurd ⟨generator, status, heq⟩ h
  next => rfl

def carryOut (settings : Settings) (order : Order) : Action Report :=
  Deployment.carryOut settings (.file settings.memoryFile) (.atTerminal settings.listCommand) order

/-- Whether carrying out an order runs the generator, which comes to an outcome. -/
def Generates (settings : Settings) (order : Order) :
    World → Except IoError ExitStatus → World → Prop :=
  Deployment.Generates settings (.file settings.memoryFile) (.atTerminal settings.listCommand) order

theorem deploy_eq (order : Order) : deploy order = (do
    let settings ← Project.settings
    let report ← carryOut settings order
    Action.printLine report.summary) := rfl

/-- How the command ends with an order, and the world that it leaves. -/
inductive Ends (order : Order) (w : World) : Option Result → World → Prop where
  | unsettled {f : Failure} {w' : World} :
    Project.settings.start w = (.error (.failed f), w') →
    Ends order w (some ⟨1, some f⟩) w'
  | waiting {settings : Settings} {w₁ w' : World} :
    Project.settings.start w = (.ok settings, w₁) →
    (carryOut settings order).start w₁ = (.error .waiting, w') →
    Ends order w none w'
  | ungenerated {settings : Settings} {w₁ w' : World} {outcome : Except IoError ExitStatus}
    {f : Failure} :
    Project.settings.start w = (.ok settings, w₁) →
    (carryOut settings order).start w₁ = (.error (.failed f), w') →
    Generates settings order w₁ outcome w' → outcome ≠ .ok (.exited 0) →
    (∀ n, outcome = .ok (.exited n) → n < 256) →
    Ends order w (some ⟨codeOf outcome, some f⟩) w'
  | failed {settings : Settings} {w₁ w' : World} {f : Failure} :
    Project.settings.start w = (.ok settings, w₁) →
    (carryOut settings order).start w₁ = (.error (.failed f), w') →
    (∀ outcome w₂, Generates settings order w₁ outcome w₂ → outcome = .ok (.exited 0)) →
    Ends order w (some ⟨1, some f⟩) w'
  | succeeded {settings : Settings} {w₁ w' : World} {report : Report} :
    Project.settings.start w = (.ok settings, w₁) →
    (carryOut settings order).start w₁ = (.ok report, w') →
    (c : Deployment.Course settings (.file settings.memoryFile) (.atTerminal settings.listCommand)
      order w₁ report w') →
    report.count .updated + report.count .upToDate = c.plan.length →
    Ends order w (some ⟨0, none⟩)
      { w' with transcript := w'.transcript ++ [.printed (utf8 (report.summary ++ "\n"))] }

theorem deploy_ends (order : Order) (w : World) :
    Ends order w (ending ((deploy order).start w).1) ((deploy order).start w).2 := by
  rw [deploy_eq]
  rcases hsettings : Project.settings.start w with ⟨r, w₁⟩
  cases r with
  | error s =>
    rw [Action.start_bind_of_error hsettings]
    cases s with
    | failed f =>
      have hstops := Project.stopsFor_settings (P := fun c => ∀ cause ∈ c, ¬ cause.IsGenerators)
        (by simp) w (.failed f) (by rw [hsettings])
      have hcode : f.exitCode = 1 := exitCode_of_not_isGenerators (hstops _ rfl)
      unfold ending
      dsimp only
      rw [hcode]
      exact .unsettled hsettings
    | waiting =>
      have hstops := Project.stopsFor_settings (P := (· ≠ none)) (by simp) w .waiting
        (by rw [hsettings])
      exact absurd rfl hstops
  | ok settings =>
    rw [Action.start_bind_of_ok hsettings]
    rcases hcarry : (carryOut settings order).start w₁ with ⟨r, w'⟩
    match r with
    | .error .waiting =>
      rw [Action.start_bind_of_error hcarry]
      exact .waiting hsettings hcarry
    | .ok report =>
      obtain ⟨c⟩ := Deployment.carryOut_eq_ok.mp hcarry
      rw [Action.start_bind_of_ok hcarry]
      refine .succeeded hsettings hcarry c ?_
      rw [report.count_add_count, ← Staging.map_fst_of_stageAll c.stages, List.length_map]
    | .error (.failed f) =>
      rw [Action.start_bind_of_error hcarry]
      by_cases hgenerator : ∃ outcome w₂, Generates settings order w₁ outcome w₂ ∧
          outcome ≠ .ok (.exited 0)
      . obtain ⟨outcome, w₂, hgenerates, hfailure⟩ := hgenerator
        have hfailed := hgenerates.carryOut hfailure
        obtain ⟨hf, rfl⟩ := Prod.mk.inj (hcarry.symm.trans hfailed)
        obtain rfl := Stop.failed.inj (Except.error.inj hf)
        unfold ending
        dsimp only
        rw [exitCode_failure]
        refine .ungenerated hsettings hcarry hgenerates hfailure ?_
        rintro n rfl
        exact hgenerates.lt
      . push Not at hgenerator
        have hcode : f.exitCode = 1 := by
          apply exitCode_of_not_isGenerators
          intro hcause
          obtain ⟨outcome, hgenerates, hfailure⟩ :=
            Deployment.generates_of_carryOut hcarry hcause
          exact hfailure (hgenerator outcome w' hgenerates)
        unfold ending
        dsimp only
        rw [hcode]
        exact .failed hsettings hcarry hgenerator

theorem codeOf_ne_zero {outcome : Except IoError ExitStatus} (h : outcome ≠ .ok (.exited 0)) :
    codeOf outcome ≠ 0 := by
  match outcome with
  | .ok (.exited n) =>
    show n ≠ 0
    rintro rfl
    exact h rfl
  | .ok (.killed _) | .error _ => exact Nat.one_ne_zero

theorem Ends.eq_zero {result : Option Result} {failure : Option Failure}
    (h : Ends order w result w') (hzero : result = some ⟨0, failure⟩) :
    ∃ settings w₁ report w₂, Project.settings.start w = (.ok settings, w₁) ∧
      (carryOut settings order).start w₁ = (.ok report, w₂) := by
  cases h with
  | unsettled | waiting | failed => simp at hzero
  | ungenerated _ _ _ hfailure =>
    simp only [Option.some.injEq, Result.mk.injEq] at hzero
    exact absurd hzero.1 (codeOf_ne_zero hfailure)
  | succeeded hsettings hcarry => exact ⟨_, _, _, _, hsettings, hcarry⟩

/--
The command with any arguments in any world. If help is asked for it is given, and nothing else is
done. If the arguments are not one or two texts that do not start with a dash, nothing is done at
all. Otherwise the command ends in one of the ways above: with 0 if and only if the settings have
been loaded and the order has been carried out, and with the number of the generator if that has
not ended well. What comes of it is the same with any command to list the volumes that does the same
to the disk, and with any command to eject the card.
-/
theorem runIn_ends (args : List String) (w : World) :
    ("-h" ∈ args ∨ "--help" ∈ args → runIn (args.map utf8) w = (some ⟨0, none⟩,
      { w with transcript := w.transcript ++ [.printed (utf8 (usage ++ "\n"))] })) ∧
    ("-h" ∉ args → "--help" ∉ args →
      ¬ ((args.length = 1 ∨ args.length = 2) ∧ ∀ arg ∈ args, arg.toList.head? ≠ some '-') →
      runIn (args.map utf8) w = (some ⟨1, some { cause := .misuse usage }⟩, w)) ∧
    ∀ image card order, args = image :: Option.toList card →
      (∀ arg ∈ args, arg.toList.head? ≠ some '-') →
      order = ⟨.ofString image, card.map .ofString⟩ →
      Ends order w (runIn (args.map utf8) w).1 (runIn (args.map utf8) w).2 ∧
      ((∃ failure, (runIn (args.map utf8) w).1 = some ⟨0, failure⟩) ↔
        ∃ settings w₁ report w₂, Project.settings.start w = (.ok settings, w₁) ∧
          (carryOut settings order).start w₁ = (.ok report, w₂)) ∧
      ∀ settings w₁, Project.settings.start w = (.ok settings, w₁) →
        (∀ outcome w₂, Generates settings order w₁ outcome w₂ → outcome ≠ .ok (.exited 0) →
          ∃ failure, runIn (args.map utf8) w = (some ⟨codeOf outcome, some failure⟩, w₂)) ∧
        ∀ listing ejecting, ((VolumeManager.list listing settings.volumes).start w₁).2.disk =
            ((VolumeManager.list settings.listCommand settings.volumes).start w₁).2.disk →
          (runIn (args.map utf8) w).1 = ending ((carryOut { settings with
            listCommand := listing, ejectCommand := ejecting } order).start w₁).1 := by
  refine ⟨fun hhelp => ?_, fun hshort hlong h => ?_, ?_⟩
  . unfold runIn run
    rw [parse_of_help hhelp]
    rfl
  . unfold runIn run
    rw [parse_of_misuse hshort hlong h]
    rfl
  rintro image card order rfl hdash rfl
  have hrun : run ((image :: card.toList).map utf8) =
      deploy ⟨.ofString image, card.map .ofString⟩ := by
    unfold run
    rw [parse_of_order hdash]
  rw [runIn_eq, hrun]
  generalize (⟨.ofString image, card.map .ofString⟩ : Order) = order
  have hends := deploy_ends order w
  refine ⟨hends, ⟨fun ⟨_, hzero⟩ => hends.eq_zero hzero, ?_⟩, fun settings w₁ hsettings => ⟨?_, ?_⟩⟩
  . rintro ⟨settings, w₁, report, w₂, hsettings, hcarry⟩
    rw [deploy_eq, Action.start_bind_of_ok hsettings, Action.start_bind_of_ok hcarry]
    exact ⟨none, rfl⟩
  . intro outcome w₂ hgenerates hfailure
    have hcarry : (carryOut settings order).start w₁ = _ := hgenerates.carryOut hfailure
    rw [deploy_eq, Action.start_bind_of_ok hsettings, Action.start_bind_of_error hcarry,
      ← exitCode_failure settings.generator]
    exact ⟨_, rfl⟩
  . intro listing ejecting hdisk
    have hcommands : ((carryOut { settings with
        listCommand := listing, ejectCommand := ejecting } order).start w₁).1 =
          ((carryOut settings order).start w₁).1 := Deployment.carryOut_of_commands hdisk
    rw [hcommands, deploy_eq, Action.start_bind_of_ok hsettings, Action.start_bind]
    rcases (carryOut settings order).start w₁ with ⟨(f | _) | report, w₂⟩ <;> rfl

def brokenProject : World where
  environment := [(Project.rootVariable, utf8 "/project")]
  disk := [(Location.ofPath "/build/kernel.bin", Node.file ⟨utf8 "kernel", Mode.newFile, .at 1⟩),
    (Location.ofPath "/project/bin/gen-rpi3-config.py",
      Node.file ⟨utf8 "#!/bin/sh\nexit 3\n", Mode.ofNat 0o755, .at 2⟩),
    (Location.ofPath "/tmp", Node.dir Mode.newDirectory),
    (Location.ofPath "/card", Node.dir Mode.newDirectory)].foldl FileSystem.lay FileSystem.empty

def brokenOrder : Order := ⟨"/build/kernel.bin", some "/card"⟩

set_option maxRecDepth 100000 in
theorem runIn_ends_brokenProject :
    (∃ w, runIn (["--verbose", "-h"].map utf8) brokenProject = (some ⟨0, none⟩, w)) ∧
      runIn (["--verbose"].map utf8) brokenProject =
        (some ⟨1, some { cause := .misuse usage }⟩, brokenProject) ∧
      ∃ (settings : Settings) (failure : Failure) (w₁ w₂ : World),
        runIn (["/build/kernel.bin", "/card"].map utf8) brokenProject =
          (some ⟨3, some failure⟩, w₂) ∧
        some ⟨3, some failure⟩ = ending ((carryOut
          { settings with ejectCommand := [] } brokenOrder).start w₁).1 := by
  obtain ⟨hhelp, -, -⟩ := runIn_ends ["--verbose", "-h"] brokenProject
  obtain ⟨-, hmisuse, -⟩ := runIn_ends ["--verbose"] brokenProject
  obtain ⟨-, -, horder⟩ := runIn_ends ["/build/kernel.bin", "/card"] brokenProject
  obtain ⟨hends, -, hsettled⟩ := horder "/build/kernel.bin" (some "/card") brokenOrder rfl
    (by decide) rfl
  have hcode : (runIn (["/build/kernel.bin", "/card"].map utf8) brokenProject).1.map (·.code) =
      some 3 := by
    decide +kernel
  refine ⟨⟨_, hhelp (by decide)⟩, hmisuse (by decide) (by decide) (by decide), ?_⟩
  rcases hrun : runIn (["/build/kernel.bin", "/card"].map utf8) brokenProject with ⟨result, w⟩
  rw [hrun] at hends hcode hsettled
  clear hrun
  cases hends with
  | unsettled | waiting | failed | succeeded => simp at hcode
  | @ungenerated settings w₁ _ outcome f hsettings _ hgenerates hfailure =>
    obtain ⟨hgenerator, hcommands⟩ := hsettled settings w₁ hsettings
    obtain ⟨failure, hran⟩ := hgenerator outcome w hgenerates hfailure
    have hejected := hcommands settings.listCommand [] rfl
    have hthree : codeOf outcome = 3 := Option.some.inj hcode
    rw [hthree] at hran hejected
    obtain ⟨hsame, -⟩ := Prod.mk.inj hran
    rw [hthree, hsame]
    exact ⟨settings, failure, w₁, w, rfl, hsame ▸ hejected⟩

end Command

end BootCard
