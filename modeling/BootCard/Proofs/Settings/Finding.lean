import BootCard.Proofs.Disk.Inside
import BootCard.Proofs.Pathname.Trunk
import BootCard.Settings.Project
import Mathlib.Data.List.Infix

/-!
This module contains which directory is found to be the project: the one that the environment names,
or else the nearest one with firmware from the current directory upwards, or else the current one.
-/

namespace BootCard

variable {w w' : World} {name : Name} {loc near : Location}

namespace Name

theorem IsProper.not_blank (h : name.IsProper) : Pathname.isBlankPiece name = false := by
  have hempty : name ≠ [] := h.isInner.not_empty
  have hdot : name ≠ [Bytes.dot] := by
    rintro rfl
    revert h
    decide
  simp [Pathname.isBlankPiece, hempty, hdot]

end Name

namespace Location

theorem path_endsWith (hname : name.IsProper) (hloc : ∀ name ∈ loc, name.IsProper) :
    (path (name :: loc)).EndsWith (Bytes.joinWith [Bytes.slash] (loc.reverse ++ [[]])) loc.reverse
      name where
  bytes := by
    unfold path
    rw [List.reverse_cons, Bytes.joinWith_append_last, List.nil_append]
  split := by
    refine Bytes.splitOn_joinWith (by simp) fun piece hpiece => ?_
    rcases List.mem_append.mp hpiece with hpiece | hpiece
    . exact (hloc piece (List.mem_reverse.mp hpiece)).slash_not_mem
    . simp_all
  clean := hname.slash_not_mem

theorem parent?_path (hname : name.IsProper) (hloc : ∀ name ∈ loc, name.IsProper) :
    (path (name :: loc)).parent? = some (path loc) := by
  rw [(path_endsWith hname hloc).parent?_eq hname.not_blank, List.reverse_reverse]
  have hkeeps : loc.dropWhile Pathname.isBlankPiece = loc := by
    cases loc with
    | nil => rfl
    | cons next loc =>
      exact List.dropWhile_cons_of_neg (by simp [(hloc next List.mem_cons_self).not_blank])
  rw [hkeeps]
  rfl

theorem ancestors_path (hloc : ∀ name ∈ loc, name.IsProper) :
    (path loc).ancestors = loc.tails.map path := by
  induction loc with
  | nil => exact Pathname.ancestors_of_parent?_eq_none (by decide)
  | cons name loc ih =>
    have hname := hloc name List.mem_cons_self
    have hrest (name : Name) (hmem : name ∈ loc) := hloc name (List.mem_cons_of_mem _ hmem)
    rw [Pathname.ancestors_of_parent?_eq_some (parent?_path hname hrest), ih hrest]
    rfl

end Location

namespace World

theorem textValue?_eq_some_iff {key : String} {value : Bytes} :
    w.textValue? key = some value ↔
      w.value? key = some value ∧ (Utf8.decode? value).isSome = true := by
  unfold textValue?
  rw [Option.filter_eq_some_iff]

theorem textValue?_eq_none_iff {key : String} : w.textValue? key = none ↔
    ∀ value, w.value? key = some value → Utf8.decode? value = none := by
  unfold textValue?
  rw [Option.filter_eq_none_iff]
  simp

end World

namespace Project

/-- Whether a directory is the nearest project from another one upwards. -/
structure IsNearest (disk : FileSystem) (loc near : Location) : Prop where
  isAbove : near <:+ loc
  isProject : isProject disk near.path = true
  none_nearer : ∀ dir, dir <:+ loc → near.length < dir.length →
    Project.isProject disk (Location.path dir) = false

theorem find?_tails_eq_some_iff {α : Type} {p : List α → Bool} {xs ys : List α} :
    xs.tails.find? p = some ys ↔
      ys <:+ xs ∧ p ys = true ∧ ∀ zs, zs <:+ xs → ys.length < zs.length → p zs = false := by
  induction xs with
  | nil =>
    rw [List.tails, List.find?_singleton]
    constructor
    . intro h
      obtain ⟨hp, rfl⟩ := Option.ite_some_none_eq_some.mp h
      exact ⟨List.suffix_refl _, hp, fun zs hzs hlt => absurd hzs.length_le hlt.not_ge⟩
    . rintro ⟨hsuffix, hp, -⟩
      obtain rfl := List.suffix_nil.mp hsuffix
      rw [if_pos hp]
  | cons x xs ih =>
    rw [List.tails_cons]
    cases hp : p (x :: xs) with
    | true =>
      rw [List.find?_cons_of_pos hp]
      constructor
      . rintro ⟨⟩
        exact ⟨List.suffix_refl _, hp, fun zs hzs hlt => absurd hzs.length_le hlt.not_ge⟩
      . rintro ⟨hsuffix, -, hnone⟩
        have hlength : (x :: xs).length ≤ ys.length := by
          refine Nat.not_lt.mp fun hlt => ?_
          simp [hnone _ (List.suffix_refl _) hlt] at hp
        rw [hsuffix.eq_of_length_le hlength]
    | false =>
      rw [List.find?_cons_of_neg (by simp [hp]), ih]
      constructor
      . rintro ⟨hsuffix, hpys, hnone⟩
        refine ⟨hsuffix.trans (List.suffix_cons x xs), hpys, fun zs hzs hlt => ?_⟩
        rcases List.suffix_cons_iff.mp hzs with rfl | hzs
        . exact hp
        . exact hnone zs hzs hlt
      . rintro ⟨hsuffix, hpys, hnone⟩
        rcases List.suffix_cons_iff.mp hsuffix with rfl | hsuffix
        . simp [hp] at hpys
        . exact ⟨hsuffix, hpys, fun zs hzs => hnone zs (hzs.trans (List.suffix_cons x xs))⟩

theorem find?_ancestors_eq_some_iff {disk : FileSystem} {dir : Pathname}
    (hloc : ∀ name ∈ loc, name.IsProper) :
    loc.path.ancestors.find? (isProject disk) = some dir ↔
      ∃ near, IsNearest disk loc near ∧ dir = near.path := by
  rw [Location.ancestors_path hloc, List.find?_map, Option.map_eq_some_iff]
  constructor
  . rintro ⟨near, hfind, rfl⟩
    obtain ⟨habove, hproject, hnone⟩ := find?_tails_eq_some_iff.mp hfind
    exact ⟨near, ⟨habove, hproject, hnone⟩, rfl⟩
  . rintro ⟨near, h, rfl⟩
    exact ⟨near, find?_tails_eq_some_iff.mpr ⟨h.isAbove, h.isProject, h.none_nearer⟩, rfl⟩

theorem find?_ancestors_eq_none_iff {disk : FileSystem} (hloc : ∀ name ∈ loc, name.IsProper) :
    loc.path.ancestors.find? (isProject disk) = none ↔
      ∀ dir, dir <:+ loc → isProject disk (Location.path dir) = false := by
  rw [Location.ancestors_path hloc, List.find?_map, Option.map_eq_none_iff, List.find?_eq_none]
  simp only [List.mem_tails, Function.comp_apply, Bool.not_eq_true]

/-- Whether the environment does not name the project. A value that is not text does not. -/
def IsUnnamed (w : World) : Prop :=
  ∀ root, w.value? rootVariable = some root → Utf8.decode? root = none

/-- What is found to be the project, or else why none is found. -/
inductive Finds (w : World) : Except Stop Pathname → Prop where
  | named {root : Bytes} : w.value? rootVariable = some root → (Utf8.decode? root).isSome →
    Finds w (.ok ⟨root⟩)
  | nearest {loc near : Location} : IsUnnamed w → w.disk.here = .at loc →
    IsNearest w.disk loc near → Finds w (.ok near.path)
  | here {loc : Location} : IsUnnamed w → w.disk.here = .at loc →
    (∀ dir, dir <:+ loc → isProject w.disk (Location.path dir) = false) → Finds w (.ok loc.path)
  | nowhere {mode : Mode} {parent : Place} : IsUnnamed w → w.disk.here = .removed mode parent →
    Finds w (.error (.failed ⟨[.findingCurrentDirectory], .io (.refused .noEntry)⟩))

def noProjectNote (cwd : Pathname) : Event :=
  let firmware := Settings.firmwarePath
  .noted .debug s!"no ancestor of '{cwd.display}' contains {firmware}; using it as project root"

theorem start_find : find.start w =
    match w.textValue? rootVariable with
    | some root => (.ok ⟨root⟩, w)
    | none =>
      match w.disk.here with
      | .removed _ _ => (.error (.failed ⟨[.findingCurrentDirectory], .io (.refused .noEntry)⟩), w)
      | .at loc =>
        match loc.path.ancestors.find? (isProject w.disk) with
        | some dir => (.ok dir, w)
        | none => (.ok loc.path, w.told [noProjectNote loc.path]) := by
  unfold find
  rw [Action.start_bind, Action.start_ask]
  dsimp only
  cases w.textValue? rootVariable with
  | some root => rfl
  | none =>
    dsimp only
    rw [Action.start_bind, Action.start_askDisk]
    unfold FileSystem.currentDirectory
    cases w.disk.here with
    | removed => rfl
    | «at» loc =>
      have hcwd : (Action.during .findingCurrentDirectory
          (Action.ofExcept .io (.ok loc.path))).start w = (.ok loc.path, w) := rfl
      refine (Action.start_bind_of_ok hcwd).trans ?_
      rw [Action.start_bind, Action.start_askDisk]
      dsimp only
      cases loc.path.ancestors.find? (isProject w.disk) with
      | some dir => rfl
      | none => rfl

theorem start_find_fst_of_finds {r : Except Stop Pathname}
    (hhere : ∀ loc, w.disk.here = .at loc → ∀ name ∈ loc, name.IsProper) (h : Finds w r) :
    (find.start w).1 = r := by
  rw [start_find]
  cases h with
  | named hvalue htext =>
    rw [World.textValue?_eq_some_iff.mpr ⟨hvalue, htext⟩]
  | nearest hunnamed hat hnearest =>
    have hfind := (find?_ancestors_eq_some_iff (hhere _ hat)).mpr ⟨_, hnearest, rfl⟩
    rw [World.textValue?_eq_none_iff.mpr hunnamed, hat]
    dsimp only
    rw [hfind]
  | here hunnamed hat hnone =>
    have hfind := (find?_ancestors_eq_none_iff (hhere _ hat)).mpr hnone
    rw [World.textValue?_eq_none_iff.mpr hunnamed, hat]
    dsimp only
    rw [hfind]
  | nowhere hunnamed hremoved =>
    rw [World.textValue?_eq_none_iff.mpr hunnamed, hremoved]

theorem exists_finds (hhere : ∀ loc, w.disk.here = .at loc → ∀ name ∈ loc, name.IsProper) :
    ∃ r, Finds w r := by
  cases hroot : w.textValue? rootVariable with
  | some root =>
    obtain ⟨hvalue, htext⟩ := World.textValue?_eq_some_iff.mp hroot
    exact ⟨_, .named hvalue htext⟩
  | none =>
    have hunnamed : IsUnnamed w := World.textValue?_eq_none_iff.mp hroot
    cases hplace : w.disk.here with
    | removed mode parent => exact ⟨_, .nowhere hunnamed hplace⟩
    | «at» loc =>
      have hloc := hhere loc hplace
      cases hfind : loc.path.ancestors.find? (isProject w.disk) with
      | some dir =>
        obtain ⟨near, hnearest, -⟩ := (find?_ancestors_eq_some_iff hloc).mp hfind
        exact ⟨_, .nearest hunnamed hplace hnearest⟩
      | none => exact ⟨_, .here hunnamed hplace ((find?_ancestors_eq_none_iff hloc).mp hfind)⟩

theorem start_find_snd : ∃ events, (find.start w).2 = w.told events := by
  rw [start_find]
  split
  . exact ⟨[], w.told_nil.symm⟩
  split
  . exact ⟨[], w.told_nil.symm⟩
  split
  . exact ⟨[], w.told_nil.symm⟩
  . exact ⟨_, rfl⟩

/--
The project that is found, or the failure to find one, is what `Finds` tells. Nothing but the
transcript is changed.
-/
theorem find_nearest (w : World)
    (hhere : ∀ loc, w.disk.here = .at loc → ∀ name ∈ loc, name.IsProper) :
    (∀ r, (find.start w).1 = r ↔ Finds w r) ∧ ∃ events, (find.start w).2 = w.told events := by
  refine ⟨fun r => ⟨?_, start_find_fst_of_finds hhere⟩, start_find_snd⟩
  rintro rfl
  obtain ⟨r, hfinds⟩ := exists_finds hhere
  rwa [start_find_fst_of_finds hhere hfinds]

def nestedProjects : FileSystem :=
  let disk := [
    (Location.ofPath "/a/ext/firmware", Node.dir Mode.newDirectory),
    (Location.ofPath "/a/b/ext/firmware", .link (utf8 "/a/ext/firmware")),
    (Location.ofPath "/a/b/c/ext/firmware", .file ⟨[], Mode.newFile, .now⟩)].foldl
      FileSystem.lay FileSystem.empty
  { disk with here := .at (Location.ofPath "/a/b/c") }

theorem find_nearest_nestedProjects :
    (find.start { disk := nestedProjects }).1 = .ok "/a/b" ∧
      (find.start { disk := nestedProjects, environment := [(rootVariable, utf8 "/x")] }).1 =
        .ok "/x" := by
  have hhere : ∀ loc, nestedProjects.here = .at loc → ∀ name ∈ loc, name.IsProper := by
    rintro loc ⟨⟩
    decide
  constructor
  . obtain ⟨hfinds, -⟩ := find_nearest { disk := nestedProjects } hhere
    have hfind : (Location.ofPath "/a/b/c").tails.find?
        (isProject nestedProjects <| Location.path ·) = some (Location.ofPath "/a/b") := by
      decide +kernel
    obtain ⟨habove, hproject, hnone⟩ := find?_tails_eq_some_iff.mp hfind
    have hpath : (Location.ofPath "/a/b").path = "/a/b" := by decide
    rw [← hpath]
    exact (hfinds _).mpr (.nearest (by rintro _ ⟨⟩) rfl ⟨habove, hproject, hnone⟩)
  . obtain ⟨hfinds, -⟩ :=
      find_nearest { disk := nestedProjects, environment := [(rootVariable, utf8 "/x")] } hhere
    exact (hfinds _).mpr (.named rfl (by decide))

end Project

end BootCard
