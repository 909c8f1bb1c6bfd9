import BootCard.Proofs.Deployment.Course
import BootCard.Proofs.World.Overlooking

/-!
This module contains what is on a card that has been cleared without a failure and filled: what has
been delivered to an empty card, and nothing else. So it does not matter what was on it before.
-/

namespace BootCard

open FileSystem

namespace FileSystem

variable {fs fs' fs₁ fs₁' : FileSystem} {p : Place} {root loc : Location} {programs : List Name}
variable {files : CardFiles}

theorem DiffersIn.eq_of_isBare (h : DiffersIn p fs fs₁) (hs : Shrunk p fs fs')
    (hs₁ : Shrunk p fs₁ fs₁') (hbare : fs'.IsBare p) (hbare₁ : fs₁'.IsBare p) : fs₁' = fs' := by
  apply ext_node?
  . intro loc
    cases hloc : p.holds loc with
    | true => rw [hbare loc hloc, hbare₁ loc hloc]
    | false => rw [hs.node?_of_not_holds hloc, hs₁.node?_of_not_holds hloc, h.same loc hloc]
  . have hhere := hs.here.eq_of_isApart (fun _ _ hl => hl.1) h.apart
    have hhere₁ := hs₁.here.eq_of_isApart (fun _ _ hl => hl.1) (h.here ▸ h.apart)
    rw [hhere, hhere₁, h.here]

theorem contents_eq_empty {mode : Mode} (hbare : fs.IsBare (.at root))
    (hroot : fs.node? root = some (.dir mode)) : fs.contents (.at root) = CardFiles.empty := by
  funext rel
  rw [contents_at]
  unfold file? CardFiles.empty
  cases rel with
  | cons x rel => rw [hbare _ (Place.holds_append (by simp))]
  | nil => rw [List.nil_append, hroot]

theorem eq_of_holds_program {rel : Location} {name : Name} (hloc : (Place.at root).holds loc = true)
    (hrel : (Place.at loc).holds (rel ++ root) = true)
    (h : rel = [name] ∨ rel = [name, utf8 Plan.programsName]) :
    rel = [name, utf8 Plan.programsName] ∧ loc = utf8 Plan.programsName :: root := by
  obtain ⟨xs, hxs, rfl⟩ := Place.holds_at.mp hloc
  obtain ⟨ys, hys, heq⟩ := Place.holds_at.mp hrel
  rw [← List.append_assoc, List.append_cancel_right_eq] at heq
  obtain ⟨y, ys, rfl⟩ := List.exists_cons_of_ne_nil hys
  rcases h with rfl | rfl
  . simp [hxs] at heq
  . rw [List.cons_append, List.cons.injEq] at heq
    obtain ⟨rfl, rfl⟩ : ys = [] ∧ xs = [utf8 Plan.programsName] := by
      simpa [hxs] using List.singleton_eq_append_iff.mp heq.2
    exact ⟨rfl, rfl⟩

theorem dir_iff_of_stocked {dests : List Location} {mode : Mode}
    (h : Staging.Stocked (.at root) dests fs fs') (hbare : fs.IsBare (.at root))
    (hdests : ∀ rel ∈ dests, (∃ name, rel = [name]) ∨
      ∃ name ∈ programs, rel = [name, utf8 Plan.programsName])
    (hthere : programs ≠ [] → ∃ mode, fs'.node? (utf8 Plan.programsName :: root) = some (.dir mode))
    (hloc : (Place.at root).holds loc = true) : fs'.node? loc = some (.dir mode) ↔
      mode = Mode.newDirectory ∧ loc = utf8 Plan.programsName :: root ∧ programs ≠ [] := by
  constructor
  . intro hmode
    obtain ⟨rfl, rel, hrel, habove⟩ := h.eq_newDirectory (hbare loc hloc) hmode
    rcases hdests rel hrel with ⟨name, rfl⟩ | ⟨name, hmem, rfl⟩
    . obtain ⟨hrel, -⟩ := eq_of_holds_program hloc habove (.inl rfl)
      simp at hrel
    . obtain ⟨-, rfl⟩ := eq_of_holds_program hloc habove (.inr rfl)
      exact ⟨rfl, rfl, List.ne_nil_of_mem hmem⟩
  . rintro ⟨rfl, rfl, hne⟩
    obtain ⟨mode, hmode⟩ := hthere hne
    obtain ⟨rfl, -⟩ := h.eq_newDirectory (hbare _ hloc) hmode
    exact hmode

/-- Whether certain files are all that is on a card, beside a directory for its programs. -/
structure HasOnly (fs : FileSystem) (root : Location) (files : CardFiles)
    (programs : List Name) : Prop where
  files : fs.contents (.at root) = files
  no_links : fs.NoLinks (.at root)
  dir_iff : ∀ loc mode, (Place.at root).holds loc = true →
    (fs.node? loc = some (.dir mode) ↔
      mode = Mode.newDirectory ∧ loc = utf8 Plan.programsName :: root ∧ programs ≠ [])

end FileSystem

namespace Deployment

variable {settings : Settings} {memory : CardMemory} {operator : Operator} {order : Order}
variable {w w' : World} {report : Report} {p : Place}

namespace Course

variable {c : Course settings memory operator order w report w'}

/--
Whether a run leaves nothing over when it clears the card, which is a directory of a tree, and then
neither its sources nor the program that it runs have to do with what is on the card.
-/
structure IsClean (c : Course settings memory operator order w report w') (p : Place) : Prop where
  leads : c.chosen.disk.find report.card = .ok (.dir p)
  tree : c.chosen.disk.IsTree
  emptied : report.cleared.failed = []
  spared : SparesCard report.card c.cleared.disk c.planned.disk
  unwritten : ∀ loc, p.holds loc = true → c.planned.disk.node? loc = c.cleared.disk.node? loc
  apart : ∀ asset ∈ c.plan, ∀ loc ∈ c.planned.disk.visits asset.source, p.holds loc = false

namespace IsClean

theorem isBare (h : c.IsClean p) : ∃ root, p = .at root ∧ c.cleared.disk.IsBare p ∧
    c.planned.disk.IsBare p ∧ c.cleared.disk.find report.card = .ok (.dir p) := by
  obtain ⟨-, hfind, root, l, rfl, hreach⟩ := leads_of_spares h.spared h.leads h.tree.proper
  have hbare := Clearing.isBare_of_clear h.tree h.leads c.clears h.emptied hreach
  exact ⟨root, rfl, hbare, fun loc hloc => (h.unwritten loc hloc).trans (hbare loc hloc),
    h.spared.leads _ hfind⟩

theorem hasOnly (h : c.IsClean p) {config : Pathname} {firmware programs : List Name}
    (hfirmware : c.planned.disk.IsListing settings.firmware firmware)
    (hprograms : c.planned.disk.IsListing settings.programs programs)
    (hplan : c.plan = Plan.ofListings settings.firmware report.image config settings.programs
      firmware programs) :
    ∃ root parcels, p = .at root ∧ c.plan.mapM c.planned.disk.parcel? = some parcels ∧
      c.filled.disk.HasOnly root (CardFiles.empty.deliverAll parcels).1 programs ∧
      report.staged.map (·.1) = c.plan ∧
      report.staged.map (·.2) = (CardFiles.empty.deliverAll parcels).2 := by
  obtain ⟨root, rfl, -, hbare, -⟩ := h.isBare
  obtain ⟨hproper, hfind, -⟩ := leads_of_spares h.spared h.leads h.tree.proper
  have hcard : c.planned.disk.HasCard report.card (.at root) :=
    ⟨hfind, fun loc target hloc => by simp [hbare loc hloc]⟩
  obtain ⟨parcels, hparcels, hdeliver, hassets, hstocked, hslots⟩ := Staging.stageAll_eq_ok hcard
    (fun asset hasset => (isInner hproper asset hasset).toIsDownward) h.apart c.stages
  have hdests : ∀ rel ∈ c.plan.map fun asset => Location.ofPath asset.dest,
      (∃ name, rel = [name]) ∨ ∃ name ∈ programs, rel = [name, utf8 Plan.programsName] := by
    intro rel hrel
    obtain ⟨asset, hasset, rfl⟩ := List.mem_map.mp hrel
    rw [hplan] at hasset
    rcases Plan.names_of_mem_ofListings (hfirmware.proper hproper) (hprograms.proper hproper)
      hasset with ⟨name, hdest⟩ | ⟨name, hname, hdest⟩
    . exact .inl ⟨name, hdest.ofPath_eq⟩
    . exact .inr ⟨name, hname, hdest.ofPath_eq⟩
  have hempty : c.planned.disk.contents (.at root) = CardFiles.empty := by
    -- The root of the card is a directory, since the kernel has been put there.
    have hkernel : (⟨report.image, Image.defaultName⟩ : Asset) ∈ c.plan := by
      simp [hplan, Plan.ofListings]
    have hdest : Location.ofPath (Image.defaultName : Pathname) = [utf8 Image.defaultName] := by
      decide
    obtain ⟨mode, hmode⟩ := (hslots _ hkernel).exists_dir hdest
    rw [List.nil_append, hstocked.filled.node?_of_not_holds Place.not_holds_self] at hmode
    exact contents_eq_empty hbare hmode
  have hthere (hne : programs ≠ []) :
      ∃ mode, c.filled.disk.node? (utf8 Plan.programsName :: root) = some (.dir mode) := by
    obtain ⟨name, hname⟩ := List.exists_mem_of_ne_nil _ hne
    have hprogram : (⟨settings.programs / Pathname.mk name,
        (Plan.programsName : Pathname) / Pathname.mk name⟩ : Asset) ∈ c.plan := by
      rw [hplan]
      exact List.mem_append_right _ (List.mem_map_of_mem hname)
    exact (hslots _ hprogram).exists_dir
      (Pathname.Names.join (by decide) (hprograms.proper hproper name hname)).ofPath_eq
  rw [hempty] at hdeliver
  refine ⟨root, parcels, rfl, hparcels, ⟨by rw [hdeliver], ?_, ?_⟩, hassets, by rw [hdeliver]⟩
  . exact (hstocked.filled.hasCard hcard).no_links
  . intro loc mode hloc
    exact dir_iff_of_stocked hstocked hbare hdests hthere hloc

end IsClean

end Course

/--
Whether nothing has to do with what is beneath a directory until the card has been chosen. It is not
on the way to the image or to the card, whenever that is looked for, and it is left alone by what
remembers the card, by the operator and by what is about to be mounted.
-/
structure ChoosesBlindly (settings : Settings) (memory : CardMemory) (operator : Operator)
    (order : Order) (w : World) (p : Place) : Prop where
  located : ∀ path, Image.absolutePath w.disk order.image = .ok path →
    ∀ seen ∈ Image.lookedAt w.disk path, ∀ loc ∈ w.disk.visits seen, p.holds loc = false
  picked : ∀ events,
    (Choice.pick settings.volumes memory operator order.card).IsBlind p (w.told events)
  mounted {image card : Pathname} {picked : World} {mount : Mount} :
    (pick settings memory operator order).start w = (.ok (image, card), picked) →
    picked.disk.isDir card = false → picked.mount = some mount →
    (Session.makeDirs mount.path).IsBlind p picked.disk
  awaited {image card : Pathname} {picked : World} :
    (pick settings memory operator order).start w = (.ok (image, card), picked) →
    ∀ n, (∀ m < n, Waiting.Drift.mounting.sees card picked m = false) →
    ∀ loc ∈ (Waiting.Drift.mounting.atTest card picked n).disk.visits card, p.holds loc = false
  saved {image card : Pathname} {picked waited : World} {ready : Bool} :
    (pick settings memory operator order).start w = (.ok (image, card), picked) →
    (Waiting.untilDirectory card none).start picked = (.ok ready, waited) →
    (memory.save card).IsBlind p waited

theorem ChoosesBlindly.isBlind_pick (h : ChoosesBlindly settings memory operator order w p) :
    (pick settings memory operator order).IsBlind p w := by
  refine .bind (Image.isBlind_locate h.located) fun image w₁ hlocate => ?_
  rcases Image.locate_cases order.image w with ⟨s, hs⟩ | ⟨_, flat, -, hflat⟩
  . simp [hs] at hlocate
  obtain ⟨-, rfl⟩ := Prod.mk.inj (hflat.symm.trans hlocate)
  refine .bind (.happen _) fun _ w₂ hprint => ?_
  have hpick : (Choice.pick settings.volumes memory operator order.card).IsBlind p w₂ := by
    obtain ⟨-, rfl⟩ := Prod.mk.inj hprint
    show Action.IsBlind p _ ((w.told [_]).told [_])
    rw [World.told_told]
    exact h.picked _
  exact .bind (.during _ hpick) fun card _ _ => .pure _

theorem ChoosesBlindly.isBlind_choose (h : ChoosesBlindly settings memory operator order w p) :
    (choose settings memory operator order).IsBlind p w := by
  rw [choose_eq]
  refine .bind h.isBlind_pick fun r picked hpick => ?_
  have hwait : (Waiting.untilDirectory r.2 none).IsBlind p picked :=
    Waiting.isBlind_untilDirectory (fun hdir _ => h.mounted hpick hdir) (h.awaited hpick)
  refine .bind (.during _ hwait) fun ready waited hwaited => ?_
  rw [Action.start_during_eq_ok] at hwaited
  exact .bind (.during _ (h.saved hpick hwaited)) fun _ _ _ => .pure _

namespace Course

variable {c : Course settings memory operator order w report w'} {fs : FileSystem}

theorem IsClean.way (h : c.IsClean p) (hapart : p.isApart c.chosen.disk.here = true) :
    ∀ loc ∈ c.chosen.disk.visits report.card, p.holds loc = false := by
  obtain ⟨-, -, hbare, -, hfind⟩ := h.isBare
  have hshrunk := shrunk h.leads h.tree.proper
  have hhere := hshrunk.here.eq_of_isApart (fun _ _ hl => hl.1) hapart
  obtain ⟨-, l, hreach⟩ := find_eq_dir.mp hfind
  have hway : ∀ loc ∈ c.cleared.disk.visits report.card, p.holds loc = false := by
    intro loc hloc
    rw [Bool.eq_false_iff]
    intro hholds
    have hnone := hbare loc hholds
    unfold FileSystem.reach at hreach
    rw [← descend_components] at hreach
    rcases descend_passes hreach hloc with ⟨mode, hdir⟩ | ⟨name, dir, target, rfl, hlink, -⟩
    . simp [hnone] at hdir
    . simp [hnone] at hlink
  have hvisits : c.chosen.disk.visits report.card = c.cleared.disk.visits report.card := by
    have hkept : Place.Past (fun _ _ => False) c.cleared.disk.here c.chosen.disk.here := by
      rw [hhere]
      exact .refl _
    exact (visitsFrom_congr (startOf_past _ hkept) fun loc hloc =>
      ⟨(hshrunk.node?_of_not_holds (hway loc hloc)).symm, fun _ => id⟩).1
  rw [hvisits]
  exact hway

theorem IsClean.agrees_cleared {report₂ : Report} {w₂ w₂' : World} (h : c.IsClean p)
    (c₂ : Course settings memory operator order w₂ report₂ w₂')
    (hdiffers : c.chosen.disk.DiffersIn p c₂.chosen.disk)
    (hsame : fs.SameIn p c₂.chosen.disk)
    (hrest : c.chosen.Agrees { c₂.chosen with disk := c.chosen.disk })
    (hcard : report₂.card = report.card) (hfs : fs.IsTree)
    (hemptied : report₂.cleared.failed = []) : c.cleared.Agrees c₂.cleared := by
  obtain ⟨root, rfl, hbare, -⟩ := h.isBare
  obtain ⟨mode, hroot⟩ := Clearing.exists_dir_of_clear h.leads c.clears h.emptied
  have htree := hdiffers.isTree hsame hroot h.tree hfs
  have hway := h.way hdiffers.apart
  have hfind₂ : c₂.chosen.disk.find report₂.card = .ok (.dir (.at root)) := by
    rw [hcard, hdiffers.find_eq hway]
    exact h.leads
  have hshrunk₂ := shrunk hfind₂ htree.proper
  have hstill₂ : c₂.cleared.disk.find report₂.card = .ok (.dir (.at root)) := by
    apply hshrunk₂.find_dir hfind₂
    rw [hcard, hdiffers.visits_eq hway]
    exact hway
  obtain ⟨-, l, hreach₂⟩ := find_eq_dir.mp hstill₂
  have hbare₂ := Clearing.isBare_of_clear htree hfind₂ c₂.clears hemptied hreach₂
  have hsame := c.cleared_agrees
  have hsame₂ := c₂.cleared_agrees
  exact ⟨(hdiffers.eq_of_isBare (shrunk h.leads h.tree.proper) hshrunk₂ hbare hbare₂).symm,
    hsame.programs.symm.trans (hrest.programs.trans hsame₂.programs),
    hsame.listing.symm.trans (hrest.listing.trans hsame₂.listing),
    hsame.environment.symm.trans (hrest.environment.trans hsame₂.environment)⟩

theorem agrees_filled {report₂ : Report} {w₂ w₂' : World}
    (c : Course settings memory operator order w report w')
    (c₂ : Course settings memory operator order w₂ report₂ w₂')
    (himage : report₂.image = report.image) (hcard : report₂.card = report.card)
    (h : c.cleared.Agrees c₂.cleared) :
    report₂.staged = report.staged ∧ c.filled.Agrees c₂.filled ∧ w'.Agrees w₂' := by
  have hsteady : (Deployment.plan settings report.image).IsSteady := isSteady_plan
  obtain ⟨hplan, hplanned⟩ := hsteady h
  have hplans₂ := c₂.plans
  rw [himage] at hplans₂
  rw [c.plans, hplans₂] at hplan hplanned
  obtain hplan : c.plan = c₂.plan := Except.ok.inj hplan
  have hsteady : (Staging.stageAll report.card c.plan).IsSteady := Staging.isDirect_stageAll.isSteady
  obtain ⟨hstaged, hfilled⟩ := hsteady hplanned
  have hstages₂ := c₂.stages
  rw [hcard, ← hplan] at hstages₂
  rw [c.stages, hstages₂] at hstaged hfilled
  have hsteady : (VolumeManager.eject settings.ejectCommand report.card).IsSteady :=
    VolumeManager.isSteady_eject
  have hejected := (hsteady hfilled).2
  have hejects₂ := c₂.ejects
  rw [hcard] at hejects₂
  rw [c.ejects, hejects₂] at hejected
  exact ⟨(Except.ok.inj hstaged).symm, hfilled, hejected⟩

end Course

/--
A run that clears its card without a failure puts the firmware, the kernel, its configuration and
the programs on it as if it had been empty, and what was on it before does not matter.
-/
theorem carryOut_rebuilds_card
    (h : (carryOut settings memory operator order).start w = (.ok report, w')) :
    ∃ c : Course settings memory operator order w report w', ∀ p, c.IsClean p →
      (∃ root config firmware programs parcels, p = .at root ∧
        BootText.beside? report.image = some config ∧
        c.planned.disk.IsListing settings.firmware firmware ∧
        c.planned.disk.IsListing settings.programs programs ∧
        c.plan = Plan.ofListings settings.firmware report.image config settings.programs
          firmware programs ∧
        c.plan.mapM c.planned.disk.parcel? = some parcels ∧
        report.staged.map (·.1) = c.plan ∧
        report.staged.map (·.2) = (CardFiles.empty.deliverAll parcels).2 ∧
        c.filled.disk.HasOnly root (CardFiles.empty.deliverAll parcels).1 programs) ∧
      (ChoosesBlindly settings memory operator order w p → ∀ fs report₂ w₂',
        w.disk.DiffersIn p fs → fs.IsTree →
        (carryOut settings memory operator order).start { w with disk := fs } =
          (.ok report₂, w₂') → report₂.cleared.failed = [] →
        report₂ = { report with cleared := report₂.cleared } ∧ w₂'.disk = w'.disk ∧
          ∃ c₂ : Course settings memory operator order { w with disk := fs } report₂ w₂',
            c₂.filled.disk = c.filled.disk) := by
  obtain ⟨c⟩ := carryOut_eq_ok.mp h
  refine ⟨c, fun p hclean => ⟨?_, ?_⟩⟩
  . obtain ⟨config, firmware, programs, hconfig, hfirmware, hprograms, hplan⟩ := plan_eq_ok c.plans
    obtain ⟨root, parcels, rfl, hparcels, honly, hassets, houtcomes⟩ :=
      hclean.hasOnly hfirmware hprograms hplan
    exact ⟨root, config, firmware, programs, parcels, rfl, hconfig, hfirmware, hprograms, hplan,
      hparcels, hassets, houtcomes, honly⟩
  . intro hblind fs report₂ w₂' hfs htree₂ h₂ hemptied₂
    obtain ⟨c₂⟩ := carryOut_eq_ok.mp h₂
    obtain ⟨chosen₂, hdiffers, hsame, hchoose⟩ := hblind.isBlind_choose fs hfs
    rw [c.chooses, c₂.chooses] at hchoose
    rw [c.chooses] at hdiffers
    obtain ⟨hresult, hchosen⟩ := Prod.mk.inj hchoose
    obtain ⟨himage, hcard⟩ := Prod.mk.inj (Except.ok.inj hresult)
    have hagrees : c.cleared.Agrees c₂.cleared := by
      apply hclean.agrees_cleared c₂ _ _ _ hcard htree₂ hemptied₂
      . rw [hchosen]
        exact hdiffers
      . rw [hchosen]
        exact hsame
      . rw [hchosen]
        exact ⟨rfl, rfl, rfl, rfl⟩
    obtain ⟨hstaged, hfilled, hejected⟩ := c.agrees_filled c₂ himage hcard hagrees
    refine ⟨?_, hejected.disk.symm, c₂, hfilled.disk.symm⟩
    rw [← himage, ← hcard, ← hstaged]

/-! A card with all sorts of things on it, and the same card with nothing on it. -/

def messyCard : World := sampleWorld [
  ("/remembered", sampleFile "/card"),
  ("/card/kernel8.img~", sampleFile "older"),
  ("/card/old/file", sampleFile "stale"),
  ("/card/programs", .link (utf8 "/firmware"))]

def bareCard : World := sampleWorld [
  ("/remembered", sampleFile "/card"),
  ("/card", .dir Mode.newDirectory)]

def openOrder : Order := ⟨"/build/kernel8.img", none⟩

def samplePlan : List Asset := [
  ⟨"/firmware/start.elf", "start.elf"⟩,
  ⟨"/build/kernel8.img", "kernel8.img"⟩,
  ⟨"/build/config.txt", "config.txt"⟩,
  ⟨"/user/hello", "programs/hello"⟩]

set_option maxRecDepth 100000 in
def messyCourse := sampleCourse rememberedIn openOrder messyCard samplePlan ⟨3, []⟩
  (samplePlan.map (·, .updated)) (by decide +kernel) (by decide +kernel) (by decide +kernel)
  (by decide +kernel)

set_option maxRecDepth 100000 in
def bareCourse := sampleCourse rememberedIn openOrder bareCard samplePlan ⟨0, []⟩
  (samplePlan.map (·, .updated)) (by decide +kernel) (by decide +kernel) (by decide +kernel)
  (by decide +kernel)

set_option maxRecDepth 100000 in
theorem isClean_messyCourse : messyCourse.IsClean (.at (Location.ofPath "/card")) where
  leads := by decide +kernel
  tree := by decide +kernel
  emptied := rfl
  spared := by
    have hsame : messyCourse.cleared.disk.find "/card" = messyCourse.planned.disk.find "/card" := by
      decide +kernel
    have htree : messyCourse.planned.disk.IsTree := by decide +kernel
    exact ⟨fun _ hfind => hsame.trans hfind, fun _ => htree.proper⟩
  unwritten := forall_node?_eq_iff.mpr (by decide +kernel)
  apart := by decide +kernel

def messyPick : Except Stop (Pathname × Pathname) × World :=
  (pick sampleSettings rememberedIn silentOperator openOrder).start messyCard

theorem of_messyPick {image card : Pathname} {picked : World}
    (h : messyPick = (.ok (image, card), picked)) : card = "/card" ∧ picked = messyPick.2 := by
  have hpicked : messyPick.1 = .ok ("/build/kernel8.img", "/card") := by decide +kernel
  rw [h] at hpicked ⊢
  exact ⟨(Prod.mk.inj (Except.ok.inj hpicked)).2, rfl⟩

set_option maxRecDepth 100000 in
theorem choosesBlindly_messyCard : ChoosesBlindly sampleSettings rememberedIn silentOperator
    openOrder messyCard (.at (Location.ofPath "/card")) where
  located path hpath := by
    obtain rfl : openOrder.image = path := Except.ok.inj hpath
    decide +kernel
  picked events := by
    have hway : ∀ loc ∈ messyCard.disk.visits "/remembered",
        (Place.at (Location.ofPath "/card")).holds loc = false := by
      decide +kernel
    exact Choice.isBlind_pick (CardMemory.isBlind_load_file hway) fun _ _ => .pure ""
  mounted hpick hdir := by
    obtain ⟨rfl, rfl⟩ := of_messyPick hpick
    have hthere : messyPick.2.disk.isDir "/card" = true := by decide +kernel
    simp [hthere] at hdir
  awaited hpick n hn := by
    obtain ⟨rfl, rfl⟩ := of_messyPick hpick
    have hthere : Waiting.Drift.mounting.sees "/card" messyPick.2 0 = true := by decide +kernel
    cases n with
    | zero =>
      show ∀ loc ∈ messyPick.2.disk.visits "/card", _
      decide +kernel
    | succ n => simp [hn 0 (Nat.succ_pos n)] at hthere
  saved hpick hwaited := by
    obtain ⟨rfl, rfl⟩ := of_messyPick hpick
    have hthere : messyPick.2.disk.isDir "/card" = true := by decide +kernel
    rw [Waiting.untilDirectory_of_isDir hthere] at hwaited
    obtain ⟨-, rfl⟩ := Prod.mk.inj hwaited
    exact CardMemory.isBlind_save_file (by decide +kernel)

set_option maxRecDepth 100000 in
theorem differsIn_bareCard :
    DiffersIn (.at (Location.ofPath "/card")) messyCard.disk bareCard.disk where
  here := by decide +kernel
  apart := by decide +kernel
  same := forall_node?_eq_iff.mpr (by decide +kernel)

set_option maxRecDepth 100000 in
theorem carryOut_rebuilds_card_messyCard :
    (∃ root parcels programs, messyCourse.filled.disk.HasOnly root
      (CardFiles.empty.deliverAll parcels).1 programs) ∧
    bareCourse.filled.disk = messyCourse.filled.disk := by
  obtain ⟨c, hrebuilt⟩ := carryOut_rebuilds_card (carryOut_eq_ok.mpr ⟨messyCourse⟩)
  obtain rfl : c = messyCourse := Subsingleton.elim _ _
  obtain ⟨⟨root, _, _, programs, parcels, -, -, -, -, -, -, -, -, honly⟩, hsame⟩ :=
    hrebuilt _ isClean_messyCourse
  obtain ⟨-, -, c₂, hfilled⟩ := hsame choosesBlindly_messyCard bareCard.disk _ _
    differsIn_bareCard (by decide +kernel) (carryOut_eq_ok.mpr ⟨bareCourse⟩) rfl
  obtain rfl : c₂ = bareCourse := Subsingleton.elim _ _
  exact ⟨⟨root, parcels, programs, honly⟩, hfilled⟩

end Deployment

end BootCard
