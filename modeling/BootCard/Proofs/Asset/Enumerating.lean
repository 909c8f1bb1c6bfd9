import BootCard.Proofs.Asset.Planning

/-!
This module contains what a plan lists: all entries of two directories, whatever they are, and
nothing below them. There is no plan just when one of the two may not be read.
-/

namespace BootCard

open FileSystem

namespace Plan

variable {w w' : World} {dir destDir firmwareDir image config programsDir : Pathname}
variable {result : Except Stop (List Asset)} {firmware programs : List Name}

def unlisted (dir : Pathname) (e : IoError) : Stop :=
  .failed { during := [.listingAssets dir], cause := .listing dir e }

theorem start_ofDirectory (dir destDir : Pathname) (w : World) :
    (ofDirectory dir destDir).start w =
      if w.disk.isDir dir then
        match w.disk.listDir .byName dir with
        | .ok entries => (.ok (ofNames dir destDir (entries.map (·.1))), w)
        | .error e => (.error (unlisted dir e), w)
      else
        (.ok [], { w with transcript := w.transcript ++
          [.noted .warn s!"asset directory {dir.display} not found, skipping"] }) := by
  unfold ofDirectory
  rw [Action.start_bind, Action.start_askDisk]
  dsimp only
  cases w.disk.isDir dir with
  | false => rfl
  | true =>
    rw [if_neg (by simp), if_pos rfl, Action.start_bind, Action.start_askDisk]
    dsimp only
    cases w.disk.listDir .byName dir with
    | error e => rfl
    | ok entries => rfl

theorem ofDirectory_cases (dir destDir : Pathname) (w : World) :
    (∃ names w', (ofDirectory dir destDir).start w = (.ok (ofNames dir destDir names), w') ∧
      w'.disk = w.disk ∧ w.disk.IsListing dir names ∧ ¬ w.disk.IsSealed dir) ∨
    ∃ e, (ofDirectory dir destDir).start w = (.error (unlisted dir e), w) ∧
      w.disk.IsSealed dir := by
  rw [start_ofDirectory]
  split
  next hdir =>
    rcases listDir_cases .byName hdir with ⟨entries, hlisted, hopen⟩ | ⟨e, hlisted, hsealed⟩
    . rw [hlisted]
      exact .inl ⟨_, w, rfl, rfl, isListing_of_listDir hlisted, hopen⟩
    . rw [hlisted]
      exact .inr ⟨e, rfl, hsealed⟩
  next hdir =>
    rw [Bool.not_eq_true] at hdir
    exact .inl ⟨[], _, rfl, rfl, isListing_nil hdir, not_isSealed_of_not_isDir hdir⟩

theorem all_cases (firmwareDir image config programsDir : Pathname) (w : World) :
    (∃ firmware programs w', (all firmwareDir image config programsDir).start w =
        (.ok (ofListings firmwareDir image config programsDir firmware programs), w') ∧
      w.disk.IsListing firmwareDir firmware ∧ w.disk.IsListing programsDir programs ∧
      ¬ w.disk.IsSealed firmwareDir ∧ ¬ w.disk.IsSealed programsDir) ∨
    ∃ dir e w', (all firmwareDir image config programsDir).start w =
        (.error (unlisted dir e), w') ∧
      (dir = firmwareDir ∨ dir = programsDir) ∧ w.disk.IsSealed dir := by
  unfold all Plan.firmware Plan.programs
  rcases ofDirectory_cases firmwareDir "" w with
    ⟨firmware, w₁, hfirmware, hdisk, hlisted, hopen⟩ | ⟨e, hfirmware, hsealed⟩
  . rw [Action.start_bind_of_ok hfirmware]
    have hprograms := ofDirectory_cases programsDir programsName w₁
    rw [hdisk] at hprograms
    rcases hprograms with ⟨programs, w₂, hprograms, -, hlisted', hopen'⟩ | ⟨e, hprograms, hsealed⟩
    . rw [Action.start_bind_of_ok hprograms]
      exact .inl ⟨firmware, programs, w₂, rfl, hlisted, hlisted', hopen, hopen'⟩
    . rw [Action.start_bind_of_error hprograms]
      exact .inr ⟨programsDir, e, w₁, rfl, .inr rfl, hsealed⟩
  . rw [Action.start_bind_of_error hfirmware]
    exact .inr ⟨firmwareDir, e, w, rfl, .inl rfl, hsealed⟩

theorem ofListings_eq : ofListings firmwareDir image config programsDir firmware programs =
    firmware.map (fun name => ⟨firmwareDir / Pathname.mk name, Pathname.mk name⟩) ++
      [⟨image, "kernel8.img"⟩, ⟨config, "config.txt"⟩] ++
      programs.map fun name =>
        ⟨programsDir / Pathname.mk name, ("programs" : Pathname) / Pathname.mk name⟩ := by
  unfold ofListings ofNames
  simp only [Pathname.empty_join]
  rfl

/--
A plan lists each entry of the two directories once, in the order of the names, and all that it
lists goes below the card. It fails just when there is no leave to read one of them.
-/
theorem all_enumerates (hnames : w.disk.ProperNames)
    (hstart : (all firmwareDir image config programsDir).start w = (result, w')) :
    w'.disk = w.disk ∧
    (∀ plan, result = .ok plan → ∃ firmware programs : List Name,
      plan = firmware.map (fun name => ⟨firmwareDir / Pathname.mk name, Pathname.mk name⟩) ++
        [⟨image, "kernel8.img"⟩, ⟨config, "config.txt"⟩] ++
        programs.map (fun name =>
          ⟨programsDir / Pathname.mk name, ("programs" : Pathname) / Pathname.mk name⟩) ∧
      w.disk.IsListing firmwareDir firmware ∧ w.disk.IsListing programsDir programs ∧
      (w.disk.isDir firmwareDir = false → firmware = []) ∧
      (w.disk.isDir programsDir = false → programs = []) ∧
      ∀ asset ∈ plan, ∃ name below, (below = [] ∨ below = [utf8 "programs"]) ∧
        asset.dest.Names (name :: below) ∧ ∀ card : Pathname,
          (card / asset.dest).isAbsolute = card.isAbsolute ∧
          (card / asset.dest).parts = card.parts ++ (name :: below).reverse.map .name) ∧
    ((∃ stop, result = .error stop) ↔
      w.disk.IsSealed firmwareDir ∨ w.disk.IsSealed programsDir) ∧
    ∀ stop, result = .error stop → ∃ dir e, (dir = firmwareDir ∨ dir = programsDir) ∧
      w.disk.IsSealed dir ∧ stop = unlisted dir e := by
  have hdisk : w.disk = ((all firmwareDir image config programsDir).start w).2.disk := all_disk
  rw [hstart] at hdisk
  refine ⟨hdisk.symm, ?_⟩
  rcases all_cases firmwareDir image config programsDir w with
    ⟨firmware, programs, _, hall, hfirmware, hprograms, hopen, hopen'⟩ |
    ⟨dir, e, _, hall, hdir, hsealed⟩
  . rw [hall] at hstart
    obtain ⟨rfl, -⟩ := Prod.mk.inj hstart
    refine ⟨?_, by simp [hopen, hopen'], by simp⟩
    intro plan hplan
    obtain rfl := Except.ok.inj hplan
    refine ⟨firmware, programs, ofListings_eq, hfirmware, hprograms, hfirmware.nil_of_not_isDir,
      hprograms.nil_of_not_isDir, ?_⟩
    intro asset hasset
    rcases names_of_mem_ofListings (hfirmware.proper hnames) (hprograms.proper hnames) hasset with
      ⟨name, hdest⟩ | ⟨name, -, hdest⟩
    . exact ⟨name, [], .inl rfl, hdest, hdest.join_below⟩
    . exact ⟨name, [utf8 "programs"], .inr rfl, hdest, hdest.join_below⟩
  . rw [hall] at hstart
    obtain ⟨rfl, -⟩ := Prod.mk.inj hstart
    refine ⟨by simp, ?_, ?_⟩
    . refine iff_of_true ⟨_, rfl⟩ ?_
      rcases hdir with rfl | rfl
      . exact .inl hsealed
      . exact .inr hsealed
    . intro stop hstop
      exact ⟨dir, e, hdir, hsealed, (Except.error.inj hstop).symm⟩

def mixedFirmware : World where
  disk :=
    ([("/firmware/start.elf", .file ⟨utf8 "start", Mode.newFile, .at 0⟩),
      ("/firmware/overlays", .dir (Mode.ofNat 0)),
      ("/firmware/bootcode.bin", .link (utf8 "/nowhere"))] : List (Pathname × Node)).foldl
      (fun fs (path, node) => fs.lay (Location.ofPath path, node)) .empty

def mixedPlan : List Asset := [
  ⟨"/firmware/bootcode.bin", "bootcode.bin"⟩,
  ⟨"/firmware/overlays", "overlays"⟩,
  ⟨"/firmware/start.elf", "start.elf"⟩,
  ⟨"/build/kernel8.bin", "kernel8.img"⟩,
  ⟨"/build/config.txt", "config.txt"⟩]

set_option maxRecDepth 100000 in
theorem all_enumerates_mixedFirmware :
    mixedFirmware.disk.ProperNames ∧
      ∃ w', (all "/firmware" "/build/kernel8.bin" "/build/config.txt" "/programs").start
          mixedFirmware = (.ok mixedPlan, w') ∧
        w'.disk = mixedFirmware.disk ∧
        ¬ mixedFirmware.disk.IsSealed "/firmware" ∧
        ∀ asset ∈ mixedPlan, ∃ name below, asset.dest.Names (name :: below) := by
  have hnames : mixedFirmware.disk.ProperNames :=
    (show mixedFirmware.disk.IsTree by decide +kernel).proper
  have hplan : ((all "/firmware" "/build/kernel8.bin" "/build/config.txt" "/programs").start
      mixedFirmware).1.toOption = some mixedPlan := by
    decide +kernel
  obtain ⟨⟨result, w'⟩, hstart⟩ : ∃ r,
      (all "/firmware" "/build/kernel8.bin" "/build/config.txt" "/programs").start
        mixedFirmware = r := ⟨_, rfl⟩
  rw [hstart, except_toOption_eq_some] at hplan
  obtain rfl : result = .ok mixedPlan := hplan
  obtain ⟨hdisk, hlists, hfails, -⟩ := all_enumerates hnames hstart
  obtain ⟨_, _, -, -, -, -, -, hbelow⟩ := hlists mixedPlan rfl
  refine ⟨hnames, w', hstart, hdisk, fun hsealed => ?_, fun asset hasset => ?_⟩
  . obtain ⟨stop, hstop⟩ := hfails.mpr (.inl hsealed)
    simp at hstop
  . obtain ⟨name, below, -, hdest, -⟩ := hbelow asset hasset
    exact ⟨name, below, hdest⟩

end Plan

end BootCard
