import BootCard.Deployment
import BootCard.Proofs.Asset.Planning
import BootCard.Proofs.Asset.Staging
import BootCard.Proofs.Card.Accounting
import BootCard.Proofs.Card.Choosing
import BootCard.Proofs.Image.Generating

/-!
This module contains the course of a run: it chooses a card, clears it, plans what goes onto it,
stages that and ejects the card, and from one of these phases to the next there is a world.
-/

namespace BootCard

open FileSystem

namespace VolumeManager

variable {program : Bytes} {args : List Bytes} {card : Pathname} {w : World}

def announce (program : Bytes) (card : Pathname) : Action Unit := do
  if !(← Action.ask fun w => Program.isAvailable w.disk (w.value? "PATH") program) then
    Action.note .warn s!"eject program '{Utf8.decodeLossy program}' not found in PATH"
  Action.printLine s!"[install] unmounting {card.display}"

def conclude (program : Bytes) (card : Pathname) :
    Except IoError ExitStatus → Action (Option ExitStatus)
  | .ok status => do
    if !status.isSuccess then
      Action.note .debug s!"'{Utf8.decodeLossy program}' exited with {status.message}"
    pure (some status)
  | .error e => do
    Action.note .warn
      s!"could not run '{Utf8.decodeLossy program}' for {card.display}: {e.message}"
    pure none

theorem eject_cons : eject (program :: args) card = (announce program card >>= fun _ =>
    Action.run program (args ++ [card.bytes]) >>= conclude program card) := by
  unfold eject announce
  simp only [bind_assoc]
  congr 1
  funext available
  cases available <;> rfl

theorem eject_disk : ((Action.run program (args ++ [card.bytes])).start w).2.disk =
    ((eject (program :: args) card).start w).2.disk := by
  rw [eject_cons]
  apply Action.run_disk
  . unfold announce
    rw [Action.start_bind, Action.start_ask]
    dsimp only
    split <;> exact ⟨_, rfl, rfl, rfl, rfl, rfl⟩
  intro outcome w₁
  unfold conclude
  cases outcome with
  | ok status =>
    dsimp only
    split <;> rfl
  | error e => rfl

theorem isSteady_eject {command : CommandLine} : (eject command card).IsSteady := by
  cases command with
  | nil => exact .bind (.happen _) fun _ => .pure none
  | cons program args =>
    rw [eject_cons]
    refine .bind ?_ fun _ => .bind .run fun outcome => ?_
    . unfold announce
      refine .bind (.ask fun w₁ w₂ h => by rw [h.disk, h.value?_eq]) fun available => ?_
      split
      . exact .bind (.happen _) fun _ => .happen _
      . exact .happen _
    . unfold conclude
      split
      next =>
        split
        . exact .bind (.happen _) fun _ => .pure _
        . exact .pure _
      next => exact .bind (.happen _) fun _ => .pure none

end VolumeManager

namespace Deployment

variable {settings : Settings} {memory : CardMemory} {operator : Operator} {order : Order}
variable {w w' : World} {report : Report} {p : Place}

def choose (settings : Settings) (memory : CardMemory) (operator : Operator) (order : Order) :
    Action (Pathname × Pathname) := do
  let image ← Image.locate order.image
  Action.printLine s!"[install] kernel {image.display}"
  let card ← Action.during .choosingCard
    (Choice.choose settings.volumes memory operator order.card)
  pure (image, card)

def pick (settings : Settings) (memory : CardMemory) (operator : Operator) (order : Order) :
    Action (Pathname × Pathname) := do
  let image ← Image.locate order.image
  Action.printLine s!"[install] kernel {image.display}"
  let card ← Action.during .choosingCard
    (Choice.pick settings.volumes memory operator order.card)
  pure (image, card)

theorem choose_eq : choose settings memory operator order = (do
    let (image, card) ← pick settings memory operator order
    let _ ← Action.during .choosingCard (Waiting.untilDirectory card none)
    Action.during .choosingCard (memory.save card)
    pure (image, card)) := by
  have hpure (card : Pathname) :
      Action.during .choosingCard (pure card) = (pure card : Action Pathname) := rfl
  unfold choose pick
  rw [Choice.choose_eq]
  simp only [Action.during_bind, bind_assoc, pure_bind, hpure]

def plan (settings : Settings) (image : Pathname) : Action (List Asset) := do
  let config ← BootText.obtain image settings.generator
  Plan.all settings.firmware image config settings.programs

theorem fillCard_eq : fillCard settings memory operator order = (do
    let (image, card) ← choose settings memory operator order
    let cleared ← Clearing.clear card
    let plan ← plan settings image
    let staged ← Staging.stageAll card plan
    pure ⟨image, card, cleared, staged⟩) := by
  unfold fillCard choose plan
  simp only [bind_assoc, pure_bind]

theorem carryOut_of_locate {s : Stop}
    (h : (Image.locate order.image).start w = (.error s, w')) :
    (carryOut settings memory operator order).start w = (.error s, w') := by
  unfold carryOut fillCard
  exact Action.start_bind_of_error (Action.start_bind_of_error h)

/-- The worlds between the phases of a run that succeeds. -/
structure Course (settings : Settings) (memory : CardMemory) (operator : Operator) (order : Order)
    (w : World) (report : Report) (w' : World) where
  chosen : World
  cleared : World
  planned : World
  filled : World
  plan : List Asset
  ejected : Option ExitStatus
  chooses : (choose settings memory operator order).start w =
    (.ok (report.image, report.card), chosen)
  clears : (Clearing.clear report.card).start chosen = (.ok report.cleared, cleared)
  plans : (Deployment.plan settings report.image).start cleared = (.ok plan, planned)
  stages : (Staging.stageAll report.card plan).start planned = (.ok report.staged, filled)
  ejects : (VolumeManager.eject settings.ejectCommand report.card).start filled = (.ok ejected, w')

/-- The runs that succeed are those that have a course. -/
theorem carryOut_eq_ok : (carryOut settings memory operator order).start w = (.ok report, w') ↔
    Nonempty (Course settings memory operator order w report w') := by
  unfold carryOut
  rw [fillCard_eq]
  simp only [Action.start_bind_eq_ok, Action.start_pure, Prod.mk.injEq, Except.ok.injEq]
  constructor
  . rintro ⟨_, filled, ⟨⟨image, card⟩, chosen, hchoose, cleared?, cleared, hclear, plan, planned,
      hplan, staged, _, hstage, rfl, rfl⟩, ejected, _, heject, rfl, rfl⟩
    exact ⟨⟨chosen, cleared, planned, _, plan, ejected, hchoose, hclear, hplan, hstage, heject⟩⟩
  . rintro ⟨c⟩
    exact ⟨report, c.filled, ⟨(report.image, report.card), c.chosen, c.chooses, report.cleared,
      c.cleared, c.clears, c.plan, c.planned, c.plans, report.staged, c.filled, c.stages, rfl, rfl⟩,
      c.ejected, w', c.ejects, rfl, rfl⟩

theorem plan_eq_ok {image : Pathname} {plan : List Asset}
    (h : (Deployment.plan settings image).start w = (.ok plan, w')) :
    ∃ config firmware programs, BootText.beside? image = some config ∧
      w'.disk.IsListing settings.firmware firmware ∧
      w'.disk.IsListing settings.programs programs ∧
      plan = Plan.ofListings settings.firmware image config settings.programs firmware programs := by
  unfold Deployment.plan at h
  rw [Action.start_bind_eq_ok] at h
  obtain ⟨config, w₁, hobtain, hall⟩ := h
  obtain ⟨firmware, programs, hfirmware, hprograms, rfl, hdisk⟩ := Plan.all_eq_ok hall
  rw [hdisk]
  exact ⟨config, firmware, programs, BootText.obtain_eq_ok hobtain, hfirmware, hprograms, rfl⟩

theorem plan_ne_nil {image : Pathname} {plan : List Asset}
    (h : (Deployment.plan settings image).start w = (.ok plan, w')) : plan ≠ [] := by
  obtain ⟨config, firmware, programs, -, -, -, rfl⟩ := plan_eq_ok h
  simp [Plan.ofListings]

theorem isInner_of_plan {image : Pathname} {plan : List Asset} (hnames : w'.disk.ProperNames)
    (h : (Deployment.plan settings image).start w = (.ok plan, w')) :
    ∀ asset ∈ plan, asset.dest.IsInner := by
  obtain ⟨config, firmware, programs, -, hfirmware, hprograms, rfl⟩ := plan_eq_ok h
  exact fun _ => Plan.isInner_of_mem_ofListings (hfirmware.proper hnames) (hprograms.proper hnames)

theorem plan_disk {image : Pathname} : ((Deployment.plan settings image).start w).2.disk =
    ((BootText.obtain image settings.generator).start w).2.disk := by
  unfold Deployment.plan
  symm
  apply Action.frame_after
  intro config w₁ _
  exact Plan.all_disk

theorem isSteady_plan {image : Pathname} : (Deployment.plan settings image).IsSteady :=
  .bind BootText.isSteady_obtain fun _ => Plan.isDirect_all.isSteady

theorem exists_root_of_stageAll {card : Pathname} {plan : List Asset}
    {staged : List (Asset × Staged)} (hcard : w.disk.find card = .ok (.dir p)) (hne : plan ≠ [])
    (hinner : ∀ asset ∈ plan, asset.dest.IsInner)
    (h : (Staging.stageAll card plan).start w = (.ok staged, w')) : ∃ root, p = .at root := by
  cases p with
  | «at» root => exact ⟨root, rfl⟩
  | removed mode q =>
    have hremoved : w.disk.HasCard card (.removed mode q) :=
      ⟨hcard, fun _ _ hloc => by simp [Place.holds] at hloc⟩
    obtain ⟨_, -, -, -, -, hslots⟩ := Staging.stageAll_eq_ok hremoved
      (fun asset hasset => (hinner asset hasset).toIsDownward) (fun _ _ _ _ => rfl) h
    obtain ⟨asset, plan, hplan⟩ := List.exists_cons_of_ne_nil hne
    obtain ⟨root, dir, name, hroot, -⟩ := hslots asset (by simp [hplan])
    simp at hroot

/-- Whether a card that is still there is where it was, and nothing has got an odd name. -/
structure SparesCard (card : Pathname) (fs fs' : FileSystem) : Prop where
  leads : ∀ p, fs'.find card = .ok (.dir p) → fs.find card = .ok (.dir p)
  proper : fs.ProperNames → fs'.ProperNames

theorem SparesCard.of_written {card : Pathname} {fs fs' : FileSystem} (h : Written fs fs') :
    SparesCard card fs fs' :=
  ⟨fun _ hfind => h.find_eq_dir_iff.mp hfind, h.proper⟩

namespace Course

variable {c : Course settings memory operator order w report w'}

instance : Subsingleton (Course settings memory operator order w report w') where
  allEq c c₂ := by
    obtain ⟨chosen, cleared, planned, filled, plan, ejected, h₁, h₂, h₃, h₄, h₅⟩ := c
    obtain ⟨chosen', cleared', planned', filled', plan', ejected', h₁', h₂', h₃', h₄', h₅'⟩ := c₂
    obtain ⟨-, rfl⟩ := Prod.mk.inj (h₁.symm.trans h₁')
    obtain ⟨-, rfl⟩ := Prod.mk.inj (h₂.symm.trans h₂')
    obtain ⟨hplan, rfl⟩ := Prod.mk.inj (h₃.symm.trans h₃')
    obtain rfl := Except.ok.inj hplan
    obtain ⟨-, rfl⟩ := Prod.mk.inj (h₄.symm.trans h₄')
    obtain ⟨hejected, -⟩ := Prod.mk.inj (h₅.symm.trans h₅')
    obtain rfl := Except.ok.inj hejected
    rfl

theorem shrunk (hcard : c.chosen.disk.find report.card = .ok (.dir p))
    (hnames : c.chosen.disk.ProperNames) : Shrunk p c.chosen.disk c.cleared.disk := by
  obtain ⟨p', hp', hshrunk⟩ := Clearing.exists_shrunk_of_clear hnames c.clears
  obtain rfl := Found.dir.inj (Except.ok.inj (hcard.symm.trans hp'))
  exact hshrunk

theorem cleared_agrees (c : Course settings memory operator order w report w') :
    c.chosen.Agrees { c.cleared with disk := c.chosen.disk } := by
  have h : c.chosen.Agrees
      { ((Clearing.clear report.card).start c.chosen).2 with disk := c.chosen.disk } :=
    Clearing.isDirect_clear.agrees c.chosen
  rwa [c.clears] at h

theorem isInner (hnames : c.planned.disk.ProperNames) : ∀ asset ∈ c.plan, asset.dest.IsInner :=
  isInner_of_plan hnames c.plans

theorem exists_root (hcard : c.planned.disk.find report.card = .ok (.dir p))
    (hnames : c.planned.disk.ProperNames) : ∃ root, p = .at root :=
  exists_root_of_stageAll hcard (plan_ne_nil c.plans) (isInner hnames) c.stages

theorem leads_of_spares (hspared : SparesCard report.card c.cleared.disk c.planned.disk)
    (hcard : c.chosen.disk.find report.card = .ok (.dir p))
    (hnames : c.chosen.disk.ProperNames) :
    c.planned.disk.ProperNames ∧ c.planned.disk.find report.card = .ok (.dir p) ∧
      ∃ root l, p = .at root ∧ c.cleared.disk.reach report.card = .ok (.at root, l) := by
  have hshrunk := shrunk hcard hnames
  have hproper := hspared.proper (hshrunk.proper hnames)
  obtain ⟨q, hq⟩ := isDir_eq_true.mp (Staging.isDir_of_stageAll (plan_ne_nil c.plans) c.stages)
  obtain ⟨root, rfl⟩ := exists_root hq hproper
  obtain ⟨-, l, hreach⟩ := find_eq_dir.mp (hspared.leads _ hq)
  obtain ⟨q', hpast, hreach'⟩ := hshrunk.reach hreach
  obtain ⟨-, l', hl'⟩ := find_eq_dir.mp hcard
  obtain rfl : q' = p := by simp_all
  cases hpast with
  | kept => exact ⟨hproper, hq, root, l, rfl, hreach⟩

end Course

/-! Runs on worlds that are laid out. -/

def sampleSettings : Settings where
  firmware := "/firmware"
  programs := "/user"
  generator := "/generate"
  memoryFile := "/remembered"
  volumes := "/media"
  listCommand := []
  ejectCommand := []
  pollInterval := 1000

def silentOperator : Operator := ⟨fun _ => pure ""⟩

def sampleOrder : Order := ⟨"/build/kernel8.img", some "/card"⟩

def rememberedIn : CardMemory := .file "/remembered"

def sampleFile (text : String) : Node := .file ⟨utf8 text, Mode.newFile, .at 0⟩

def sampleWorld (entries : List (String × Node)) : World where
  disk := ([("/build/kernel8.img", sampleFile "kernel"), ("/build/config.txt", sampleFile "config"),
    ("/firmware/start.elf", sampleFile "firmware"), ("/user/hello", sampleFile "program")] ++
      entries).foldl (fun fs (path, node) => fs.lay (Location.ofPath ⟨utf8 path⟩, node)) .empty

section Sample

variable (memory : CardMemory) (order : Order) (w : World) (plan : List Asset)

def sampleChoice : Except Stop (Pathname × Pathname) × World :=
  (choose sampleSettings memory silentOperator order).start w

def sampleClearing : Except Stop Tally × World :=
  (Clearing.clear "/card").start (sampleChoice memory order w).2

def samplePlanning : Except Stop (List Asset) × World :=
  (Deployment.plan sampleSettings "/build/kernel8.img").start (sampleClearing memory order w).2

def sampleStaging : Except Stop (List (Asset × Staged)) × World :=
  (Staging.stageAll "/card" plan).start (samplePlanning memory order w).2

def sampleEjection : Except Stop (Option ExitStatus) × World :=
  (VolumeManager.eject [] "/card").start (sampleStaging memory order w plan).2

def sampleCourse (tally : Tally) (staged : List (Asset × Staged))
    (hchoice : (sampleChoice memory order w).1 = .ok ("/build/kernel8.img", "/card"))
    (hclearing : (sampleClearing memory order w).1 = .ok tally)
    (hplanning : (samplePlanning memory order w).1 = .ok plan)
    (hstaging : (sampleStaging memory order w plan).1 = .ok staged) :
    Course sampleSettings memory silentOperator order w
      ⟨"/build/kernel8.img", "/card", tally, staged⟩ (sampleEjection memory order w plan).2 where
  chosen := (sampleChoice memory order w).2
  cleared := (sampleClearing memory order w).2
  planned := (samplePlanning memory order w).2
  filled := (sampleStaging memory order w plan).2
  plan := plan
  ejected := none
  chooses := by
    show sampleChoice memory order w = _
    rw [← hchoice]
  clears := by
    show sampleClearing memory order w = _
    rw [← hclearing]
  plans := by
    show samplePlanning memory order w = _
    rw [← hplanning]
  stages := by
    show sampleStaging memory order w plan = _
    rw [← hstaging]
  ejects := rfl

end Sample

end Deployment

end BootCard
