import BootCard.Proofs.Asset.Survival
import BootCard.Proofs.Deployment.Course

/-!
This module contains when the files that a run stages are on the card in the end. The firmware may
have a file of its own under the name of the kernel or of the configuration, or one under the name
of a backup that is made of what was there before, and then one of the two is lost.
-/

namespace BootCard

open FileSystem

/-! Names on the card. -/

theorem compare_append_tilde (name : Name) : compare (name ++ utf8 "~") name = .gt := by
  induction name with
  | nil => decide
  | cons b name ih =>
    rw [List.cons_append, List.compare_eq_compareLex, List.compareLex_cons_cons,
      Std.compare_self]
    exact ih

theorem append_tilde_ne {name name' : Name} (h : name'.getLast? ≠ some 0x7e) :
    name ++ utf8 "~" ≠ name' := by
  rintro rfl
  exact h (by simp [show utf8 "~" = [0x7e] by decide])

theorem Name.not_before {name name' : Name} (h : compare name name' = .lt) :
    name' ≠ name ∧ name' ++ utf8 "~" ≠ name := by
  constructor
  . rintro rfl
    rw [Std.compare_self] at h
    simp at h
  . rintro rfl
    rw [compare_append_tilde] at h
    simp at h

namespace FileSystem

variable {fs fs' : FileSystem} {path card dest : Pathname} {p : Place} {asset : Asset}
variable {parcel : Parcel} {plan : List Asset} {parcels : List Parcel}

def digestAt (fs : FileSystem) (path : Pathname) : Option Digest :=
  match fs.find path with
  | .ok (.file _ f) => some (Digest.of f.data)
  | _ => none

theorem digestAt_congr (h : ∀ loc f,
    fs'.find path = .ok (.file loc f) ↔ fs.find path = .ok (.file loc f)) :
    fs'.digestAt path = fs.digestAt path := by
  have hiff (d : Digest) (fs : FileSystem) : fs.digestAt path = some d ↔
      ∃ loc f, fs.find path = .ok (.file loc f) ∧ Digest.of f.data = d := by
    unfold digestAt
    split
    next loc f heq => simp [heq]
    next hnot =>
      simp only [reduceCtorEq, false_iff]
      rintro ⟨loc, f, hfind, -⟩
      exact hnot loc f hfind
  apply Option.ext
  intro d
  rw [hiff, hiff]
  simp only [h]

theorem parcel?_eq_some (h : fs.parcel? asset = some parcel) :
    fs.digestAt asset.source = some parcel.digest ∧ parcel.dest = Location.ofPath asset.dest := by
  obtain ⟨loc, hfind, hdest⟩ := parcel?_eq_some_iff.mp h
  refine ⟨?_, hdest⟩
  unfold digestAt
  rw [hfind]
  rfl

theorem HasSlot.digestAt_eq (h : fs.HasSlot card p dest) (hcard : fs.HasCard card p)
    (hdest : dest.IsInner) :
    fs.digestAt (card / dest) = (fs.contents p).digest? (Location.ofPath dest) := by
  obtain ⟨root, dir, name, rfl, hslot⟩ := h
  have hwalk : fs.walk .follow (card / dest) =
      .ok (.entry dir name (fs.node? (name :: dir)) false) :=
    hslot.points.walk_eq fun target => hcard.no_links _ target (hslot.holds hdest)
  unfold digestAt find CardFiles.digest?
  rw [contents_at, ← hslot.location, hwalk]
  unfold file?
  cases fs.node? (name :: dir) with
  | none => rfl
  | some node => cases node <;> rfl

/--
Whether a file can go to a name on a card beside the firmware: firmware of that name has its digest,
and what has that name on the card is not to be moved to where other firmware is.
-/
structure Fits (fs : FileSystem) (p : Place) (dir : Pathname) (firmware : List Name) (name : Name)
    (source : Pathname) : Prop where
  no_clash : name ∈ firmware → fs.digestAt (dir / Pathname.mk name) = fs.digestAt source
  no_spill : name ∉ firmware → name ++ utf8 "~" ∈ firmware →
    ∀ f, fs.contents p [name] = some f → fs.digestAt source = some (Digest.of f.data) ∨
      fs.digestAt (dir / Pathname.mk (name ++ utf8 "~")) = some (Digest.of f.data)

section Plan

variable {parcelOf : Asset → Parcel} {dir : Pathname} {firmware names : List Name} {name : Name}
variable {b : Asset}

/-- Whether the parcels for the names in a directory go to these names, with what is there. -/
def Brings (fs : FileSystem) (parcelOf : Asset → Parcel) (dir destDir : Pathname)
    (names : List Name) (tail : Location) : Prop :=
  ∀ n ∈ names, (parcelOf ⟨dir / Pathname.mk n, destDir / Pathname.mk n⟩).dest = n :: tail ∧
    fs.digestAt (dir / Pathname.mk n) =
      some (parcelOf ⟨dir / Pathname.mk n, destDir / Pathname.mk n⟩).digest

theorem brings_ofNames {destDir : Pathname} {tail : Location}
    (hnames : ∀ n ∈ names, (destDir / Pathname.mk n).Names (n :: tail))
    (hparcel : ∀ a ∈ Plan.ofNames dir destDir names, fs.parcel? a = some (parcelOf a)) :
    fs.Brings parcelOf dir destDir names tail := by
  intro n hn
  obtain ⟨hdigest, hdest⟩ := parcel?_eq_some (hparcel _ (List.mem_map_of_mem hn))
  exact ⟨hdest.trans (hnames n hn).ofPath_eq, hdigest⟩

theorem Brings.pairwise_spares {destDir : Pathname} {tail : Location}
    (h : fs.Brings parcelOf dir destDir names tail)
    (hsorted : names.Pairwise fun n n' => compare n n' = .lt) :
    ((Plan.ofNames dir destDir names).map parcelOf).Pairwise fun a b => b.Spares a := by
  unfold Plan.ofNames
  rw [List.pairwise_map, List.pairwise_map]
  refine hsorted.imp_of_mem fun {n n'} hn hn' hlt => ?_
  obtain ⟨hne, hbackup⟩ := Name.not_before hlt
  constructor
  . rw [(h n hn).1, (h n' hn').1]
    simp [hne]
  . rw [(h n hn).1, (h n' hn').1]
    simp [Location.backup, hbackup]

theorem Brings.exists_dest {destDir : Pathname} {tail : Location}
    (h : fs.Brings parcelOf dir destDir names tail)
    (ha : parcel ∈ (Plan.ofNames dir destDir names).map parcelOf) :
    ∃ n ∈ names, parcel.dest = n :: tail ∧
      fs.digestAt (dir / Pathname.mk n) = some parcel.digest := by
  obtain ⟨_, hasset, rfl⟩ := List.mem_map.mp ha
  obtain ⟨n, hn, rfl⟩ := List.mem_map.mp hasset
  exact ⟨n, hn, h n hn⟩

theorem Brings.exists_parcel {destDir : Pathname} {tail : Location}
    (h : fs.Brings parcelOf dir destDir names tail) (hname : name ∈ names) :
    ∃ a ∈ (Plan.ofNames dir destDir names).map parcelOf, a.dest = name :: tail ∧
      fs.digestAt (dir / Pathname.mk name) = some a.digest :=
  ⟨_, List.mem_map_of_mem (List.mem_map_of_mem hname), h name hname⟩

theorem joins_iff_fits (hfirmware : fs.Brings parcelOf dir "" firmware [])
    (hb : fs.parcel? b = some (parcelOf b)) (hdest : Location.ofPath b.dest = [name]) :
    (fs.contents p).Joins ((Plan.ofNames dir "" firmware).map parcelOf) (parcelOf b) ↔
      fs.Fits p dir firmware name b.source := by
  obtain ⟨hdigest, hdest_b⟩ := parcel?_eq_some hb
  rw [hdest] at hdest_b
  have hname_iff : name ∉ firmware ↔
      ∀ a ∈ (Plan.ofNames dir "" firmware).map parcelOf, (parcelOf b).dest ≠ a.dest := by
    rw [hdest_b]
    constructor
    . intro hname a ha heq
      obtain ⟨n, hn, hdest_a, -⟩ := hfirmware.exists_dest ha
      obtain rfl : name = n := by simpa [hdest_a] using heq
      exact hname hn
    . intro hfresh hname
      obtain ⟨a, ha, hdest_a, -⟩ := hfirmware.exists_parcel hname
      exact hfresh a ha hdest_a.symm
  constructor
  . intro h
    constructor
    . intro hname
      obtain ⟨a, ha, hdest_a, hdigest_a⟩ := hfirmware.exists_parcel hname
      rw [hdigest_a, hdigest, h.no_clash a ha (hdest_b.trans hdest_a.symm)]
    . intro hname hbackup f hf
      obtain ⟨a, ha, hdest_a, hdigest_a⟩ := hfirmware.exists_parcel hbackup
      by_cases hsame : Digest.of f.data = (parcelOf b).digest
      . exact .inl (by rw [hdigest, hsame])
      . have hspills : (fs.contents p).Spills (parcelOf b) (Digest.of f.data) :=
          ⟨by simp [CardFiles.digest?, hdest_b, hf], hsame⟩
        have hbacked : (parcelOf b).dest.backup = a.dest := by
          rw [hdest_a, hdest_b]
          rfl
        rw [hdigest_a, h.no_spill (hname_iff.mp hname) _ hspills a ha hbacked]
        exact .inr rfl
  . intro h
    constructor
    . intro a ha heq
      obtain ⟨n, hn, hdest_a, hdigest_a⟩ := hfirmware.exists_dest ha
      obtain rfl : name = n := by simpa [hdest_a, hdest_b] using heq
      have hsame := h.no_clash hn
      rw [hdigest_a, hdigest] at hsame
      exact (Option.some.inj hsame).symm
    . rintro hfresh d ⟨hthere, hother⟩ a ha heq
      obtain ⟨n, hn, hdest_a, hdigest_a⟩ := hfirmware.exists_dest ha
      obtain rfl : name ++ utf8 "~" = n := by simpa [hdest_a, hdest_b, Location.backup] using heq
      rw [hdest_b] at hthere
      obtain ⟨f, hf, rfl⟩ := Option.map_eq_some_iff.mp hthere
      rcases h.no_spill (hname_iff.mpr hfresh) hn f hf with hsource | hbackup
      . rw [hdigest] at hsource
        exact absurd (Option.some.inj hsource).symm hother
      . rw [hdigest_a] at hbackup
        exact (Option.some.inj hbackup).symm

end Plan

end FileSystem

theorem has_ofListings_iff {fs : FileSystem} {p : Place} {parcelOf : Asset → Parcel}
    {dir image config programsDir : Pathname} {firmware programs : List Name}
    (hfirmware : fs.IsListing dir firmware) (hprograms : fs.IsListing programsDir programs)
    (hnames : fs.ProperNames)
    (hparcel : ∀ asset ∈ Plan.ofListings dir image config programsDir firmware programs,
      fs.parcel? asset = some (parcelOf asset)) :
    (∀ a ∈ (Plan.ofListings dir image config programsDir firmware programs).map parcelOf,
      ((fs.contents p).deliverAll
        ((Plan.ofListings dir image config programsDir firmware programs).map parcelOf)).1.Has a) ↔
      fs.Fits p dir firmware (utf8 Image.defaultName) image ∧
        fs.Fits p dir firmware (utf8 bootConfigName) config := by
  have hkernel := hparcel ⟨image, Image.defaultName⟩ (by simp [Plan.ofListings])
  have hconfig := hparcel ⟨config, bootConfigName⟩ (by simp [Plan.ofListings])
  have hbrings : fs.Brings parcelOf dir "" firmware [] := brings_ofNames
    (fun n hn => .empty_join (hfirmware.proper hnames n hn))
    fun asset hasset => hparcel asset (by simp [Plan.ofListings, hasset])
  have hbrings' : fs.Brings parcelOf programsDir Plan.programsName programs
      [utf8 Plan.programsName] := brings_ofNames
    (fun n hn => .join (by decide) (hprograms.proper hnames n hn))
    fun asset hasset => hparcel asset (by simp [Plan.ofListings, hasset])
  have hdest_kernel : (parcelOf ⟨image, Image.defaultName⟩).dest = [utf8 Image.defaultName] :=
    (parcel?_eq_some hkernel).2
  have hdest_config : (parcelOf ⟨config, bootConfigName⟩).dest = [utf8 bootConfigName] :=
    (parcel?_eq_some hconfig).2
  have hmap : (Plan.ofListings dir image config programsDir firmware programs).map parcelOf =
      (Plan.ofNames dir "" firmware).map parcelOf ++
        [parcelOf ⟨image, Image.defaultName⟩, parcelOf ⟨config, bootConfigName⟩] ++
          (Plan.ofNames programsDir Plan.programsName programs).map parcelOf := by
    simp [Plan.ofListings]
  have happart : ∀ b ∈ (Plan.ofNames programsDir Plan.programsName programs).map parcelOf,
      ∀ a ∈ (Plan.ofNames dir "" firmware).map parcelOf ++
        [parcelOf ⟨image, Image.defaultName⟩, parcelOf ⟨config, bootConfigName⟩], b.Spares a := by
    intro b hb a ha
    obtain ⟨n, -, hdest, -⟩ := hbrings'.exists_dest hb
    have htop : ∃ m, a.dest = [m] := by
      simp only [List.mem_append, List.mem_cons, List.not_mem_nil, or_false] at ha
      rcases ha with ha | rfl | rfl
      . obtain ⟨m, -, hm, -⟩ := hbrings.exists_dest ha
        exact ⟨m, hm⟩
      . exact ⟨_, hdest_kernel⟩
      . exact ⟨_, hdest_config⟩
    obtain ⟨m, hm⟩ := htop
    -- A program is in a directory, and so is its backup.
    constructor
    . simp [hdest, hm]
    . simp [hdest, hm, Location.backup]
  have hbackups : ∀ a ∈ (Plan.ofNames dir "" firmware).map parcelOf,
      a.dest.backup ≠ (parcelOf ⟨image, Image.defaultName⟩).dest ∧
        a.dest.backup ≠ (parcelOf ⟨config, bootConfigName⟩).dest := by
    intro a ha
    obtain ⟨n, -, hdest, -⟩ := hbrings.exists_dest ha
    rw [hdest, hdest_kernel, hdest_config]
    simp only [Location.backup, ne_eq, List.cons.injEq, and_true]
    exact ⟨append_tilde_ne (by decide), append_tilde_ne (by decide)⟩
  rw [hmap, CardFiles.has_all_iff (hbrings.pairwise_spares hfirmware.sorted)
    (hbrings'.pairwise_spares hprograms.sorted) happart hbackups]
  . exact and_congr (joins_iff_fits hbrings hkernel rfl) (joins_iff_fits hbrings hconfig rfl)
  all_goals
    simp only [Parcel.spares_iff, hdest_kernel, hdest_config]
    decide

namespace Deployment

variable {settings : Settings} {memory : CardMemory} {operator : Operator} {order : Order}
variable {w w' : World} {report : Report} {p : Place}

/--
The files that a run has staged are on the card in the end, with the digests of their sources, just
when the kernel and its configuration fit on it beside the firmware.
-/
theorem staged_digests_iff
    (h : (carryOut settings memory operator order).start w = (.ok report, w')) :
    ∃ c : Course settings memory operator order w report w', ∀ p,
      c.planned.disk.find report.card = .ok (.dir p) → c.planned.disk.ProperNames →
      c.planned.disk.NoLinks p →
      (∀ asset ∈ c.plan, ∀ loc ∈ c.planned.disk.visits asset.source, p.holds loc = false) →
      ∃ config firmware, BootText.beside? report.image = some config ∧
        c.planned.disk.IsListing settings.firmware firmware ∧
        ((∀ asset ∈ report.staged.map (·.1),
          ∃ d, c.filled.disk.digestAt (report.card / asset.dest) = some d ∧
            c.filled.disk.digestAt asset.source = some d) ↔
          c.planned.disk.Fits p settings.firmware firmware (utf8 Image.defaultName) report.image ∧
            c.planned.disk.Fits p settings.firmware firmware (utf8 bootConfigName) config) := by
  obtain ⟨c⟩ := carryOut_eq_ok.mp h
  refine ⟨c, fun p hcard hnames hlinks hsources => ?_⟩
  obtain ⟨config, firmware, programs, hconfig, hfirmware, hprograms, hplan⟩ := plan_eq_ok c.plans
  obtain ⟨root, rfl⟩ := Course.exists_root hcard hnames
  have hplanned : c.planned.disk.HasCard report.card (.at root) := ⟨hcard, hlinks⟩
  have hinner := Course.isInner hnames
  obtain ⟨parcels, hparcels, hdeliver, hassets, hstocked, hslots⟩ := Staging.stageAll_eq_ok hplanned
    (fun asset hasset => (hinner asset hasset).toIsDownward) hsources c.stages
  obtain ⟨parcelOf, rfl, hparcel⟩ := exists_eq_map_of_mapM hparcels
  have heach : ∀ asset ∈ c.plan,
      (∃ d, c.filled.disk.digestAt (report.card / asset.dest) = some d ∧
        c.filled.disk.digestAt asset.source = some d) ↔
        (c.filled.disk.contents (.at root)).Has (parcelOf asset) := by
    intro asset hasset
    obtain ⟨hdigest, hdest⟩ := parcel?_eq_some (hparcel asset hasset)
    rw [(hslots asset hasset).digestAt_eq (hstocked.filled.hasCard hplanned) (hinner asset hasset),
      digestAt_congr (hstocked.filled.find_of_visits (hsources asset hasset)).2, hdigest, ← hdest]
    unfold CardFiles.Has
    simp
  have hall : (∀ asset ∈ c.plan, ∃ d,
      c.filled.disk.digestAt (report.card / asset.dest) = some d ∧
        c.filled.disk.digestAt asset.source = some d) ↔
      ∀ a ∈ c.plan.map parcelOf,
        ((c.planned.disk.contents (.at root)).deliverAll (c.plan.map parcelOf)).1.Has a := by
    rw [List.forall_mem_map, hdeliver]
    exact forall₂_congr heach
  refine ⟨config, firmware, hconfig, hfirmware, ?_⟩
  rw [hassets, hall]
  rw [hplan] at hparcel ⊢
  exact has_ofListings_iff hfirmware hprograms hnames hparcel

/-! Firmware that has a kernel of its own. -/

def clashingFirmware : World := sampleWorld [
  ("/card", .dir Mode.newDirectory),
  ("/firmware/kernel8.img", sampleFile "recovery")]

def clashingPlan : List Asset := [
  ⟨"/firmware/kernel8.img", "kernel8.img"⟩,
  ⟨"/firmware/start.elf", "start.elf"⟩,
  ⟨"/build/kernel8.img", "kernel8.img"⟩,
  ⟨"/build/config.txt", "config.txt"⟩,
  ⟨"/user/hello", "programs/hello"⟩]

set_option maxRecDepth 100000 in
def clashingCourse := sampleCourse .inWorld sampleOrder clashingFirmware clashingPlan ⟨0, []⟩
  (clashingPlan.map (·, .updated)) (by decide +kernel) (by decide +kernel) (by decide +kernel)
  (by decide +kernel)

set_option maxRecDepth 100000 in
theorem staged_digests_iff_clashingFirmware :
    ¬ ∀ asset ∈ clashingPlan,
      ∃ d, clashingCourse.filled.disk.digestAt ("/card" / asset.dest) = some d ∧
        clashingCourse.filled.disk.digestAt asset.source = some d := by
  obtain ⟨c, hiff⟩ := staged_digests_iff (carryOut_eq_ok.mpr ⟨clashingCourse⟩)
  obtain rfl : c = clashingCourse := Subsingleton.elim _ _
  obtain ⟨config, firmware, -, hfirmware, hiff⟩ := hiff (.at (Location.ofPath "/card"))
    (by decide +kernel) (show clashingCourse.planned.disk.IsTree by decide +kernel).proper
    (by decide +kernel) (by decide +kernel)
  intro h
  have hmem : utf8 Image.defaultName ∈ firmware :=
    (hfirmware.mem_iff _).mpr ⟨Location.ofPath "/firmware", by decide +kernel⟩
  have hsame : clashingCourse.planned.disk.digestAt ("/firmware" / (Image.defaultName : Pathname)) =
      clashingCourse.planned.disk.digestAt "/build/kernel8.img" :=
    (hiff.mp h).1.no_clash hmem
  have hother : clashingCourse.planned.disk.digestAt ("/firmware" / (Image.defaultName : Pathname)) ≠
      clashingCourse.planned.disk.digestAt "/build/kernel8.img" := by
    decide +kernel
  exact hother hsame

set_option maxRecDepth 100000 in
theorem clashingFirmware_overwritten :
    ∃ report w', (carryOut sampleSettings .inWorld silentOperator sampleOrder).start
        clashingFirmware = (.ok report, w') ∧
      ⟨"/firmware/kernel8.img", "kernel8.img"⟩ ∈ report.staged.map (·.1) ∧
      w'.disk.digestAt "/card/kernel8.img" ≠ w'.disk.digestAt "/firmware/kernel8.img" := by
  have hstaged : ((carryOut sampleSettings .inWorld silentOperator sampleOrder).start
      clashingFirmware).1.toOption.map (·.staged.map (·.1)) = some clashingPlan := by
    decide +kernel
  have hdigest : ((carryOut sampleSettings .inWorld silentOperator sampleOrder).start
      clashingFirmware).2.disk.digestAt "/card/kernel8.img" ≠
        ((carryOut sampleSettings .inWorld silentOperator sampleOrder).start
          clashingFirmware).2.disk.digestAt "/firmware/kernel8.img" := by
    decide +kernel
  rcases hrun : (carryOut sampleSettings .inWorld silentOperator sampleOrder).start
    clashingFirmware with ⟨r, w'⟩
  rw [hrun] at hstaged hdigest
  cases r with
  | error stop => simp [Except.toOption] at hstaged
  | ok report =>
    have hassets : report.staged.map (·.1) = clashingPlan := Option.some.inj hstaged
    refine ⟨report, w', rfl, ?_, hdigest⟩
    rw [hassets]
    simp [clashingPlan]

end Deployment

end BootCard
