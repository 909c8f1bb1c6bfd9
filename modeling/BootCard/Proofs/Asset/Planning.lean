import BootCard.Asset.Plan
import BootCard.Proofs.Disk.Listing
import BootCard.Proofs.World.Direct

/-!
This module contains what a plan is: the firmware and the programs in the order of their names with
the kernel and its configuration between them, each with a path that leads to its name on the card.
-/

namespace BootCard

open FileSystem

/-- Whether a path consists of names only, those that lead to a location. -/
structure Pathname.Names (path : Pathname) (loc : Location) : Prop where
  relative : path.isAbsolute = false
  components_eq : components path.bytes = loc.reverse.map .name
  not_empty : path.bytes ≠ []

theorem Pathname.empty_join (path : Pathname) : (("" : Pathname) / path) = path := by
  show Pathname.join ⟨utf8 ""⟩ path = path
  unfold Pathname.join
  split <;> rfl

namespace Pathname.Names

variable {path : Pathname} {loc : Location} {name : Name}

theorem isInner (h : path.Names loc) : path.IsInner where
  relative := h.relative
  no_up := by simp [h.components_eq]
  not_empty := h.not_empty

theorem ofPath_eq (h : path.Names loc) : Location.ofPath path = loc := by
  have hnames : ∀ xs : List Name, Component.names (xs.map .name) = xs := by
    intro xs
    induction xs with
    | nil => rfl
    | cons x xs ih => simp [ih]
  rw [Location.ofPath_eq h.isInner.no_up, h.components_eq, hnames, List.reverse_reverse]

theorem of_isProper (h : name.IsProper) : (Pathname.mk name).Names [name] where
  relative := h.isInner.relative
  components_eq := h
  not_empty := h.isInner.not_empty

theorem parts_eq (h : path.Names loc) : path.parts = loc.reverse.map .name := by
  have hparts := Pathname.components_eq path
  rw [h.components_eq] at hparts
  split at hparts
  . have hclose : Component.close ∈ loc.reverse.map Component.name := by
      rw [hparts]
      simp
    simp at hclose
  . simpa using hparts.symm

theorem join {dir : Name} (hdir : dir.IsProper) (h : name.IsProper) :
    (Pathname.mk dir / Pathname.mk name).Names [name, dir] := by
  have hne := hdir.isInner.not_empty
  refine ⟨?_, ?_, ?_⟩
  . unfold isAbsolute
    rw [head?_join hne h.isInner.relative]
    exact hdir.isInner.relative
  . rw [components_join hne h.isInner.relative h.isInner.not_empty, (of_isProper hdir).parts_eq,
      show components (Pathname.mk name).bytes = _ from h]
    rfl
  . obtain ⟨front, hbytes, -⟩ := join_eq hne h.isInner.relative
    simp [hbytes]

theorem join_below (h : path.Names loc) (card : Pathname) :
    (card / path).isAbsolute = card.isAbsolute ∧
      (card / path).parts = card.parts ++ loc.reverse.map .name := by
  by_cases hempty : card.bytes = []
  . cases card
    cases hempty
    show (("" : Pathname) / path).isAbsolute = false ∧ (("" : Pathname) / path).parts = _
    rw [Pathname.empty_join]
    exact ⟨h.relative, h.parts_eq⟩
  . unfold isAbsolute
    rw [head?_join hempty h.relative, parts_join hempty h.relative, h.parts_eq]
    exact ⟨rfl, rfl⟩

end Pathname.Names

theorem Pathname.Names.empty_join {name : Name} (h : name.IsProper) :
    (("" : Pathname) / Pathname.mk name).Names [name] := by
  rw [Pathname.empty_join]
  exact .of_isProper h

namespace Plan

variable {w w' : World} {dir destDir image config programsDir : Pathname} {plan : List Asset}
variable {firmware programs : List Name}

theorem ofDirectory_eq_ok (h : (ofDirectory dir destDir).start w = (.ok plan, w')) :
    ∃ names, w.disk.IsListing dir names ∧ plan = ofNames dir destDir names ∧
      w'.disk = w.disk := by
  unfold ofDirectory at h
  rw [Action.start_bind_eq_ok] at h
  obtain ⟨there, _, hask, h⟩ := h
  obtain ⟨hthere, rfl⟩ := Prod.mk.inj hask
  obtain rfl := Except.ok.inj hthere
  split at h
  next hnot =>
    simp only [Action.start_bind_eq_ok, Action.start_note, Action.start_pure, Prod.mk.injEq,
      Except.ok.injEq] at h
    obtain ⟨_, _, ⟨-, rfl⟩, rfl, rfl⟩ := h
    exact ⟨[], isListing_nil (by simpa using hnot), rfl, rfl⟩
  next =>
    simp only [Action.start_bind_eq_ok, Action.start_askDisk, Action.start_during_eq_ok,
      Action.start_ofExcept_eq_ok, Action.start_pure, Prod.mk.injEq, Except.ok.injEq] at h
    obtain ⟨_, _, ⟨rfl, rfl⟩, entries, _, ⟨hlisted, rfl⟩, rfl, rfl⟩ := h
    exact ⟨_, isListing_of_listDir hlisted, rfl, rfl⟩

theorem ofDirectory_disk : w.disk = ((ofDirectory dir destDir).start w).2.disk := by
  unfold ofDirectory
  apply Action.frame_bind
  . rfl
  intro there w₁ _
  split
  . rfl
  apply Action.frame_bind
  . rfl
  intro listed w₂ _
  apply Action.frame_bind
  . rw [Action.start_during_snd, Action.start_ofExcept_snd]
  intro entries w₃ _
  rfl

theorem isDirect_ofDirectory : (ofDirectory dir destDir).IsDirect (¬ ·.IsGenerators) := by
  have hlisting (e : IoError) : ¬ (Cause.listing dir e).IsGenerators := by
    simp [Cause.IsGenerators]
  unfold ofDirectory
  refine .bind (.askDisk _) fun there => ?_
  split
  . exact .bind (.note _ _) fun _ => .pure _
  . exact .bind (.askDisk _) fun _ => .bind (.during _ (.ofExcept hlisting _)) fun _ => .pure _

def ofListings (dir image config programsDir : Pathname) (firmware programs : List Name) :
    List Asset :=
  ofNames dir "" firmware ++ [⟨image, Image.defaultName⟩, ⟨config, bootConfigName⟩] ++
    ofNames programsDir programsName programs

theorem all_eq_ok (h : (all dir image config programsDir).start w = (.ok plan, w')) :
    ∃ firmware programs, w.disk.IsListing dir firmware ∧ w.disk.IsListing programsDir programs ∧
      plan = ofListings dir image config programsDir firmware programs ∧ w'.disk = w.disk := by
  unfold all Plan.firmware Plan.programs at h
  simp only [Action.start_bind_eq_ok, Action.start_pure, Prod.mk.injEq, Except.ok.injEq] at h
  obtain ⟨_, w₁, hfirmware, _, w₂, hprograms, rfl, rfl⟩ := h
  obtain ⟨firmware, hlisted, rfl, hdisk⟩ := ofDirectory_eq_ok hfirmware
  obtain ⟨programs, hlisted', rfl, hdisk'⟩ := ofDirectory_eq_ok hprograms
  rw [hdisk] at hlisted' hdisk'
  exact ⟨firmware, programs, hlisted, hlisted', rfl, hdisk'⟩

theorem names_of_mem_ofListings {asset : Asset} (hfirmware : ∀ name ∈ firmware, name.IsProper)
    (hprograms : ∀ name ∈ programs, name.IsProper)
    (h : asset ∈ ofListings dir image config programsDir firmware programs) :
    (∃ name, asset.dest.Names [name]) ∨
      ∃ name ∈ programs, asset.dest.Names [name, utf8 programsName] := by
  unfold ofListings ofNames at h
  simp only [List.mem_append, List.mem_map, List.mem_cons, List.not_mem_nil, or_false] at h
  rcases h with (⟨name, hname, rfl⟩ | rfl | rfl) | ⟨name, hname, rfl⟩
  . exact .inl ⟨name, .empty_join (hfirmware name hname)⟩
  . exact .inl ⟨utf8 Image.defaultName, .of_isProper (by decide)⟩
  . exact .inl ⟨utf8 bootConfigName, .of_isProper (by decide)⟩
  . exact .inr ⟨name, hname, .join (by decide) (hprograms name hname)⟩

theorem isInner_of_mem_ofListings {asset : Asset} (hfirmware : ∀ name ∈ firmware, name.IsProper)
    (hprograms : ∀ name ∈ programs, name.IsProper)
    (h : asset ∈ ofListings dir image config programsDir firmware programs) :
    asset.dest.IsInner := by
  rcases names_of_mem_ofListings hfirmware hprograms h with ⟨name, hdest⟩ | ⟨name, -, hdest⟩
  . exact hdest.isInner
  . exact hdest.isInner

theorem all_disk : w.disk = ((all dir image config programsDir).start w).2.disk := by
  unfold all
  apply Action.frame_bind
  . exact ofDirectory_disk
  intro firmware w₁ _
  apply Action.frame_bind
  . exact ofDirectory_disk
  intro programs w₂ _
  rfl

theorem isDirect_all : (all dir image config programsDir).IsDirect (¬ ·.IsGenerators) :=
  .bind isDirect_ofDirectory fun _ => .bind isDirect_ofDirectory fun _ => .pure _

end Plan

end BootCard
