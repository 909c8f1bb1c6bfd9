import BootCard.Proofs.Card.Choosing
import BootCard.Proofs.Deployment.Course
import BootCard.Proofs.Image.Locating

/-!
This module contains what becomes of the files that a run is to deploy. A run removes and replaces
nothing but what is beneath the card, so they are still there in the end, unless the card is a
directory that they are in, or a link that is left on it leads to them.
-/

namespace BootCard

open FileSystem

variable {settings : Settings} {memory : CardMemory} {operator : Operator} {order : Order}
variable {w w' : World} {path card image : Pathname} {p q : Place}
variable {loc : Location} {f : RegularFile}

theorem Place.Past.holds {lost : Location → Mode → Prop} (h : Past lost p q)
    (hloc : q.holds loc = true) : p.holds loc = true := by
  cases h with
  | kept => exact hloc
  | lost => simp [Place.holds] at hloc
  | removed => simp [Place.holds] at hloc

namespace Deployment

/--
Whether the file that a path leads to is still there and is reached as before, and a card that is
still there is where it was and has got no links.
-/
structure LeavesAlone (card path : Pathname) (fs fs' : FileSystem) : Prop where
  keeps : Keeps path fs fs'
  way {loc : Location} {f : RegularFile} : fs.find path = .ok (.file loc f) →
    fs'.visits path = fs.visits path
  spares : SparesCard card fs fs'
  no_links {p : Place} : fs'.find card = .ok (.dir p) → fs.NoLinks p → fs'.NoLinks p

theorem LeavesAlone.of_written {fs fs' : FileSystem} (h : Written fs fs')
    (hkeeps : Keeps path fs fs') : LeavesAlone card path fs fs' where
  keeps := hkeeps
  way _ := h.visits_eq
  spares := .of_written h
  no_links _ hlinks loc target hloc hlink :=
    hlinks loc target hloc ((h.node?_of_not_isFile rfl).mp hlink)

theorem LeavesAlone.refl (fs : FileSystem) : LeavesAlone card path fs fs :=
  .of_written (.refl fs) (refl_of _ fs)

/--
Whether the file that a path leads to is left alone by all that a run calls: the memory and the
operator, the generator and the program that ejects the card.
-/
structure IsLeftAlone (settings : Settings) (memory : CardMemory) (operator : Operator)
    (order : Order) (w : World) (path : Pathname) : Prop where
  picked : Keeps path w.disk ((pick settings memory operator order).start w).2.disk
  remembered {image card : Pathname} {picked waited : World} {ready : Bool} :
    (pick settings memory operator order).start w = (.ok (image, card), picked) →
    (Waiting.untilDirectory card none).start picked = (.ok ready, waited) →
    Keeps path waited.disk ((memory.save card).start waited).2.disk
  generated {image card config : Pathname} {chosen cleared : World} {tally : Tally} :
    (choose settings memory operator order).start w = (.ok (image, card), chosen) →
    (Clearing.clear card).start chosen = (.ok tally, cleared) →
    BootText.beside? image = some config →
    BootText.isPrebuilt cleared.disk image config = false →
    LeavesAlone card path cleared.disk
      ((Action.run settings.generator.bytes [(image.inForm .elf).bytes]).start cleared).2.disk
  ejected {report : Report} {filled : World} {program : Bytes} {args : List Bytes} :
    (fillCard settings memory operator order).start w = (.ok report, filled) →
    settings.ejectCommand = program :: args →
    Keeps path filled.disk ((Action.run program (args ++ [report.card.bytes])).start filled).2.disk

/--
Whether a path does not go through anything beneath a card, which has no links on it once it has
been cleared.
-/
structure IsApart (w : World) (card path : Pathname) : Prop where
  proper : w.disk.ProperNames
  way {p : Place} : w.disk.find card = .ok (.dir p) → ∀ loc ∈ w.disk.visits path, p.holds loc = false
  no_links {p : Place} {tally : Tally} {w' : World} : w.disk.find card = .ok (.dir p) →
    (Clearing.clear card).start w = (.ok tally, w') → w'.disk.NoLinks p

theorem choose_keeps (h : IsLeftAlone settings memory operator order w path) :
    Keeps path w.disk ((choose settings memory operator order).start w).2.disk := by
  rw [choose_eq]
  apply Action.frame_bind h.picked
  rintro ⟨image, card⟩ picked hpick
  apply Action.frame_bind
  . rw [Action.start_during_snd]
    exact Waiting.untilDirectory_keeps
  intro ready waited hwait
  rw [Action.start_during_eq_ok] at hwait
  apply Action.frame_bind
  . rw [Action.start_during_snd]
    exact h.remembered hpick hwait
  intro _ chosen _
  exact refl_of _ chosen.disk

theorem clear_keeps (h : IsApart w card path) (hfind : w.disk.find path = .ok (.file loc f)) :
    ((Clearing.clear card).start w).2.disk.visits path = w.disk.visits path ∧
      ((Clearing.clear card).start w).2.disk.find path = .ok (.file loc f) := by
  cases hdir : w.disk.isDir card with
  | true =>
    obtain ⟨p, hp⟩ := isDir_eq_true.mp hdir
    have hshrunk := Clearing.clear_shrinks h.proper (hadCard_of_find hp)
    have hsame : ∀ l ∈ w.disk.visits path,
        ((Clearing.clear card).start w).2.disk.node? l = w.disk.node? l ∧
          ∀ mode, ¬ w.disk.IsLost p l mode :=
      fun l hl => ⟨hshrunk.node?_of_not_holds (h.way hp l hl), fun _ hlost =>
        absurd hlost.1 (by simp [h.way hp l hl])⟩
    obtain ⟨hvisits, hto⟩ := find_of_visits hshrunk.here hsame
    exact ⟨hvisits, hto loc f hfind⟩
  | false =>
    rw [Clearing.clear_eq, Action.start_bind, Action.start_require, hdir]
    exact ⟨rfl, hfind⟩

theorem plan_leaves_alone
    (hrun : ∀ {config}, BootText.beside? image = some config →
      BootText.isPrebuilt w.disk image config = false →
      LeavesAlone card path w.disk
        ((Action.run settings.generator.bytes [(image.inForm .elf).bytes]).start w).2.disk) :
    LeavesAlone card path w.disk ((plan settings image).start w).2.disk := by
  have hdisk : ((BootText.obtain image settings.generator).start w).2.disk = w.disk ∨ _ :=
    BootText.obtain_disk
  rw [plan_disk]
  rcases hdisk with h | ⟨⟨config, hconfig, hbuilt⟩, h⟩
  . rw [h]
    exact .refl w.disk
  . rw [h]
    exact hrun hconfig hbuilt

theorem IsApart.planned {tally : Tally} {cleared planned : World} (h : IsApart w card path)
    (hfind : w.disk.find path = .ok (.file loc f))
    (hclear : (Clearing.clear card).start w = (.ok tally, cleared))
    (halone : LeavesAlone card path cleared.disk planned.disk)
    (hcard : planned.disk.find card = .ok (.dir q)) :
    planned.disk.ProperNames ∧ planned.disk.NoLinks q ∧
      ∀ l ∈ planned.disk.visits path, q.holds l = false := by
  have hcleared := clear_keeps h hfind
  rw [hclear] at hcleared
  obtain ⟨hvisits, hcleared⟩ := hcleared
  obtain ⟨p, hp, hshrunk⟩ := Clearing.exists_shrunk_of_clear h.proper hclear
  -- The card is what it was, or has been removed from where it was.
  have hholds (l : Location) (hl : q.holds l = true) : p.holds l = true := by
    obtain ⟨-, links, hreach⟩ := find_eq_dir.mp (halone.spares.leads _ hcard)
    obtain ⟨q', hpast, hreach'⟩ := hshrunk.reach hreach
    obtain ⟨-, links', hl'⟩ := find_eq_dir.mp hp
    obtain rfl : q' = p := by simp_all
    exact hpast.holds hl
  refine ⟨halone.spares.proper (hshrunk.proper h.proper), ?_, ?_⟩
  . exact halone.no_links hcard fun l target hl => h.no_links hp hclear l target (hholds l hl)
  . intro l hl
    rw [halone.way hcleared, hvisits] at hl
    rw [Bool.eq_false_iff]
    intro hq
    simpa [h.way hp l hl] using hholds l hq

theorem fillCard_keeps (hothers : IsLeftAlone settings memory operator order w path)
    (hapart : ∀ image card chosen,
      (choose settings memory operator order).start w = (.ok (image, card), chosen) →
      IsApart chosen card path) :
    Keeps path w.disk ((fillCard settings memory operator order).start w).2.disk := by
  intro loc f hfind
  rw [fillCard_eq]
  apply Action.keeps_bind (P := fun v => v.disk.find path = .ok (.file loc f))
  . exact choose_keeps hothers loc f hfind
  rintro ⟨image, card⟩ chosen hchoose hchosen
  have h := hapart image card chosen hchoose
  apply Action.keeps_bind (P := fun v => v.disk.find path = .ok (.file loc f))
  . exact (clear_keeps h hchosen).2
  intro tally cleared hclear hcleared
  have halone : LeavesAlone card path cleared.disk ((plan settings image).start cleared).2.disk :=
    plan_leaves_alone fun hconfig hbuilt => hothers.generated hchoose hclear hconfig hbuilt
  apply Action.keeps_bind (P := fun v => v.disk.find path = .ok (.file loc f))
  . exact halone.keeps loc f hcleared
  intro plan planned hplan hplanned
  rw [hplan] at halone
  apply Action.keeps_bind (P := fun v => v.disk.find path = .ok (.file loc f))
  . cases hdir : planned.disk.isDir card with
    | false =>
      rw [Staging.stageAll_of_not_isDir hdir]
      exact hplanned
    | true =>
      obtain ⟨q, hq⟩ := isDir_eq_true.mp hdir
      obtain ⟨hproper, hlinks, hway⟩ := h.planned hchosen hclear halone hq
      have hfilled := Staging.stageAll_fills (isInner_of_plan hproper hplan) ⟨hq, hlinks⟩
      exact ((hfilled.find_of_visits hway).2 loc f).mpr hplanned
  intro staged filled _ hfilled
  exact hfilled

/--
A run keeps every file that it does not reach through the card, the kernel, the firmware and the
programs among them. It does so whether it succeeds or not.
-/
theorem carryOut_keeps_sources (hothers : IsLeftAlone settings memory operator order w path)
    (hapart : ∀ image card chosen,
      (choose settings memory operator order).start w = (.ok (image, card), chosen) →
      IsApart chosen card path) :
    Keeps path w.disk ((carryOut settings memory operator order).start w).2.disk := by
  unfold carryOut
  apply Action.frame_bind (fillCard_keeps hothers hapart)
  intro report filled hfill
  apply Action.frame_bind
  . cases hcommand : settings.ejectCommand with
    | nil => exact refl_of _ filled.disk
    | cons program args =>
      rw [← VolumeManager.eject_disk]
      exact hothers.ejected hfill hcommand
  intro _ ejected _
  exact refl_of _ ejected.disk

/-! Runs for which nothing but the card matters. -/

theorem pick_keeps_of_named (h : order.card = some card) :
    Keeps path w.disk ((pick settings memory operator order).start w).2.disk := by
  unfold pick
  rw [h]
  apply Action.frame_bind
  . rw [← Image.locate_disk]
    exact refl_of _ w.disk
  intro image w₁ _
  exact refl_of _ w₁.disk

/-- Whether a run starts no generator, since there is a configuration or else no generator. -/
def isUngenerated (settings : Settings) (memory : CardMemory) (operator : Operator)
    (order : Order) (w : World) : Bool :=
  match (choose settings memory operator order).start w with
  | (.ok (image, card), chosen) =>
    let cleared := ((Clearing.clear card).start chosen).2
    (BootText.beside? image).all fun config =>
      BootText.isPrebuilt cleared.disk image config ||
        !(Program.resolve cleared.programs cleared.disk (cleared.value? "PATH") settings.generator.bytes
          [(image.inForm .elf).bytes]).isOk
  | (.error _, _) => true

theorem generated_leaves_alone {config : Pathname} {chosen cleared : World} {tally : Tally}
    (h : isUngenerated settings memory operator order w = true)
    (hchoose : (choose settings memory operator order).start w = (.ok (image, card), chosen))
    (hclear : (Clearing.clear card).start chosen = (.ok tally, cleared))
    (hconfig : BootText.beside? image = some config)
    (hbuilt : BootText.isPrebuilt cleared.disk image config = false) :
    LeavesAlone card path cleared.disk
      ((Action.run settings.generator.bytes [(image.inForm .elf).bytes]).start cleared).2.disk := by
  unfold isUngenerated at h
  rw [hchoose] at h
  dsimp only at h
  rw [hclear, hconfig] at h
  rw [Action.start_run]
  split
  next => exact .refl cleared.disk
  next behaviour hresolve =>
    simp [hbuilt, hresolve, Except.isOk, Except.toBool] at h

def linkedCard : World := sampleWorld [
  ("/card/kernel8.img", sampleFile "older"),
  ("/card/programs", .link (utf8 "/firmware"))]

def linkedPick : Except Stop (Pathname × Pathname) × World :=
  (pick sampleSettings rememberedIn silentOperator sampleOrder).start linkedCard

def linkedWait : Except Stop Bool × World :=
  (Waiting.untilDirectory "/card" none).start linkedPick.2

def linkedChoice : Except Stop (Pathname × Pathname) × World :=
  (choose sampleSettings rememberedIn silentOperator sampleOrder).start linkedCard

def linkedClearing : Except Stop Tally × World := (Clearing.clear "/card").start linkedChoice.2

set_option maxRecDepth 100000 in
theorem isLeftAlone_linkedCard : IsLeftAlone sampleSettings rememberedIn silentOperator sampleOrder
    linkedCard "/build/kernel8.img" where
  picked := pick_keeps_of_named rfl
  remembered hpick hwait := by
    have hpicked : linkedPick.1 = .ok ("/build/kernel8.img", "/card") := by decide +kernel
    have hnone : linkedWait.2.disk.find "/remembered" = .error (.refused .noEntry) := by
      decide +kernel
    unfold linkedWait at hnone
    unfold linkedPick at hpicked hnone
    rw [hpick] at hpicked hnone
    obtain ⟨rfl, rfl⟩ := Prod.mk.inj (Except.ok.inj hpicked)
    rw [hwait] at hnone
    apply CardMemory.save_file_keeps
    intro loc f g _
    rw [hnone]
    simp
  generated := generated_leaves_alone (by decide +kernel)
  ejected _ hcommand := by simp [sampleSettings] at hcommand

set_option maxRecDepth 100000 in
theorem carryOut_keeps_sources_linkedCard :
    ∃ loc f, linkedCard.disk.find "/build/kernel8.img" = .ok (.file loc f) ∧
      ((carryOut sampleSettings rememberedIn silentOperator sampleOrder).start
        linkedCard).2.disk.find "/build/kernel8.img" = .ok (.file loc f) := by
  have hfind : linkedCard.disk.find "/build/kernel8.img" =
      .ok (.file (Location.ofPath "/build/kernel8.img") ⟨utf8 "kernel", Mode.newFile, .at 0⟩) := by
    decide +kernel
  refine ⟨_, _, hfind, carryOut_keeps_sources isLeftAlone_linkedCard ?_ _ _ hfind⟩
  intro image card chosen hchoose
  have hchosen : linkedChoice.1 = .ok ("/build/kernel8.img", "/card") := by decide +kernel
  have htree : linkedChoice.2.disk.IsTree := by decide +kernel
  have hcard : linkedChoice.2.disk.find "/card" = .ok (.dir (.at (Location.ofPath "/card"))) := by
    decide +kernel
  have hway : ∀ loc ∈ linkedChoice.2.disk.visits "/build/kernel8.img",
      (Place.at (Location.ofPath "/card")).holds loc = false := by
    decide +kernel
  have hlinks : linkedClearing.2.disk.NoLinks (.at (Location.ofPath "/card")) := by decide +kernel
  unfold linkedClearing at hlinks
  unfold linkedChoice at hchosen htree hcard hway hlinks
  rw [hchoose] at hchosen htree hcard hway hlinks
  obtain ⟨rfl, rfl⟩ := Prod.mk.inj (Except.ok.inj hchosen)
  constructor
  . exact htree.proper
  . intro p hp
    obtain rfl := Found.dir.inj (Except.ok.inj (hcard.symm.trans hp))
    exact hway
  . intro p tally w' hp hclear
    obtain rfl := Found.dir.inj (Except.ok.inj (hcard.symm.trans hp))
    rw [hclear] at hlinks
    exact hlinks

/-! Runs that lose what they are to deploy. -/

def afterRun (memory : CardMemory) (order : Order) (w : World) : World :=
  ((carryOut sampleSettings memory silentOperator order).start w).2

/-- Whether a run loses the file that a path leads to, and nobody else is to blame for that. -/
def Loses (order : Order) (w : World) (path : Pathname) : Prop :=
  IsLeftAlone sampleSettings .inWorld silentOperator order w path ∧
    ¬ Keeps path w.disk (afterRun .inWorld order w).disk

theorem not_keeps {fs fs' : FileSystem} (hfile : fs.isFile path = true)
    (hother : fs'.find path ≠ fs.find path) : ¬ Keeps path fs fs' := by
  intro h
  obtain ⟨loc, f, hfind⟩ := isFile_eq_true.mp hfile
  exact hother ((h loc f hfind).trans hfind.symm)

theorem loses_of_named (hcard : order.card = some card)
    (hgenerated : isUngenerated sampleSettings .inWorld silentOperator order w = true)
    (hfile : w.disk.isFile path = true)
    (hother : (afterRun .inWorld order w).disk.find path ≠ w.disk.find path) :
    Loses order w path := by
  refine ⟨⟨pick_keeps_of_named hcard, ?_, generated_leaves_alone hgenerated, ?_⟩,
    not_keeps hfile hother⟩
  . intro _ card _ waited _ _ _
    exact refl_of _ waited.disk
  . intro _ _ _ _ _ hcommand
    simp [sampleSettings] at hcommand

def lockedCard : World := sampleWorld [
  ("/firmware/hello", sampleFile "firmware"),
  ("/card", .dir (Mode.ofNat 0o555)),
  ("/card/hello", sampleFile "firmware"),
  ("/card/start.elf", sampleFile "firmware"),
  ("/card/kernel8.img", sampleFile "kernel"),
  ("/card/config.txt", sampleFile "config"),
  ("/card/programs", .link (utf8 "/firmware"))]

def crossedCard : World := sampleWorld [("/card/old", .dir Mode.newDirectory)]

def crossingPath : Pathname := "/card/old/../../build/kernel8.img"

set_option maxRecDepth 100000 in
/--
A run loses the kernel if the card is where the kernel is, a file of the firmware if the card has a
link to it that cannot be removed, a path that goes through the card, and a file that the card is
remembered in.
-/
theorem carryOut_loses_sources :
    Loses ⟨"/build/kernel8.img", some "/build"⟩ (sampleWorld []) "/build/kernel8.img" ∧
      Loses sampleOrder lockedCard "/firmware/hello" ∧
      Loses ⟨crossingPath, some "/card"⟩ crossedCard crossingPath ∧
      ¬ Keeps "/build/kernel8.img" crossedCard.disk
        (afterRun (.file "/build/kernel8.img") sampleOrder crossedCard).disk := by
  refine ⟨?_, ?_, ?_, ?_⟩
  . exact loses_of_named rfl (by decide +kernel) (by decide +kernel) (by decide +kernel)
  . exact loses_of_named rfl (by decide +kernel) (by decide +kernel) (by decide +kernel)
  . exact loses_of_named rfl (by decide +kernel) (by decide +kernel) (by decide +kernel)
  . exact not_keeps (by decide +kernel) (by decide +kernel)

end Deployment

end BootCard
