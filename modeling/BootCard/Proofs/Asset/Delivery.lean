import BootCard.Proofs.Disk.Growth

/-!
This module contains staging without a file system: what is on a card is a map from where a file is
to the file, and files are delivered to it one after another.
-/

namespace BootCard

/-- The regular files beneath a card, by the names that lead to them from there. -/
abbrev CardFiles := Location → Option RegularFile

structure Parcel where
  file : RegularFile
  dest : Location
deriving DecidableEq

namespace CardFiles

def empty : CardFiles := fun _ => none

def set (files : CardFiles) (loc : Location) (f : RegularFile) : CardFiles :=
  fun l => if l = loc then some f else files l

/-- Delivers a file unless one with its digest is there. Another one that is there is backed up. -/
def deliver (files : CardFiles) (parcel : Parcel) : CardFiles × Staged :=
  match files parcel.dest with
  | none => (files.set parcel.dest parcel.file, .updated)
  | some there =>
    if Digest.of there.data = Digest.of parcel.file.data then
      (files, .upToDate)
    else
      ((files.set parcel.dest.backup there).set parcel.dest parcel.file, .updated)

def deliverAll (files : CardFiles) : List Parcel → CardFiles × List Staged
  | [] => (files, [])
  | parcel :: parcels =>
    let delivered := files.deliver parcel
    let rest := deliverAll delivered.1 parcels
    (rest.1, delivered.2 :: rest.2)

variable {files : CardFiles} {parcel : Parcel}

theorem set_self (loc : Location) (f : RegularFile) : files.set loc f loc = some f := by
  simp [set]

theorem set_of_ne {loc l : Location} (f : RegularFile) (h : l ≠ loc) :
    files.set loc f l = files l := by
  simp [set, h]

theorem deliver_of_none (h : files parcel.dest = none) :
    files.deliver parcel = (files.set parcel.dest parcel.file, .updated) := by
  simp [deliver, h]

theorem deliver_of_same {g : RegularFile} (h : files parcel.dest = some g)
    (hsame : Digest.of g.data = Digest.of parcel.file.data) :
    files.deliver parcel = (files, .upToDate) := by
  simp [deliver, h, hsame]

theorem deliver_of_other {g : RegularFile} (h : files parcel.dest = some g)
    (hother : Digest.of g.data ≠ Digest.of parcel.file.data) :
    files.deliver parcel =
      ((files.set parcel.dest.backup g).set parcel.dest parcel.file, .updated) := by
  simp [deliver, h, hother]

end CardFiles

namespace FileSystem

def file? (fs : FileSystem) (loc : Location) : Option RegularFile :=
  match fs.node? loc with
  | some (.file f) => some f
  | _ => none

def contents (fs : FileSystem) (p : Place) : CardFiles := fun rel =>
  match p with
  | .at root => fs.file? (rel ++ root)
  | .removed _ _ => none

def parcel? (fs : FileSystem) (asset : Asset) : Option Parcel :=
  match fs.find asset.source with
  | .ok (.file _ f) => some ⟨f, Location.ofPath asset.dest⟩
  | _ => none

variable {fs fs' : FileSystem} {loc root : Location} {f : RegularFile}

theorem file?_eq_some : fs.file? loc = some f ↔ fs.node? loc = some (.file f) := by
  unfold file?
  split
  next h => simp [h]
  next h => simpa using fun heq => h f heq

theorem parcel?_eq_some_iff {asset : Asset} {parcel : Parcel} : fs.parcel? asset = some parcel ↔
    ∃ loc, fs.find asset.source = .ok (.file loc parcel.file) ∧
      parcel.dest = Location.ofPath asset.dest := by
  unfold parcel?
  split
  next loc f heq =>
    simp only [heq, Option.some.injEq, Except.ok.injEq, Found.file.injEq]
    constructor
    . rintro rfl
      exact ⟨loc, ⟨rfl, rfl⟩, rfl⟩
    . rintro ⟨_, ⟨-, rfl⟩, hdest⟩
      rw [← hdest]
  next hnot =>
    simp only [reduceCtorEq, false_iff]
    rintro ⟨loc, hfind, -⟩
    exact hnot _ _ hfind

theorem parcel?_congr {asset : Asset} (h : ∀ loc f,
    fs'.find asset.source = .ok (.file loc f) ↔ fs.find asset.source = .ok (.file loc f)) :
    fs'.parcel? asset = fs.parcel? asset := by
  apply Option.ext
  intro parcel
  rw [parcel?_eq_some_iff, parcel?_eq_some_iff]
  simp only [h]

theorem mapM_parcel?_congr {plan : List Asset}
    (h : ∀ asset ∈ plan, fs'.parcel? asset = fs.parcel? asset) :
    plan.mapM fs'.parcel? = plan.mapM fs.parcel? := by
  induction plan with
  | nil => rfl
  | cons asset plan ih =>
    rw [List.mapM_cons, List.mapM_cons, h asset (by simp), ih fun a ha => h a (by simp [ha])]

theorem exists_eq_map_of_mapM {plan : List Asset} {parcels : List Parcel}
    (h : plan.mapM fs.parcel? = some parcels) :
    ∃ parcelOf : Asset → Parcel, parcels = plan.map parcelOf ∧
      ∀ asset ∈ plan, fs.parcel? asset = some (parcelOf asset) := by
  refine ⟨fun asset => (fs.parcel? asset).getD ⟨⟨[], Mode.newFile, .now⟩, []⟩, ?_⟩
  induction plan generalizing parcels with
  | nil => exact ⟨(Option.some.inj h).symm, by simp⟩
  | cons asset plan ih =>
    rw [List.mapM_cons] at h
    obtain ⟨parcel, hparcel, h⟩ := Option.bind_eq_some_iff.mp h
    obtain ⟨rest, hrest, h⟩ := Option.bind_eq_some_iff.mp h
    obtain rfl := Option.some.inj h
    obtain ⟨hmap, hall⟩ := ih hrest
    refine ⟨?_, ?_⟩
    . rw [List.map_cons, ← hmap, hparcel]
      rfl
    . intro a ha
      rcases List.mem_cons.mp ha with rfl | ha
      . simp [hparcel]
      . exact hall a ha

theorem file?_congr (h : fs'.node? loc = fs.node? loc) : fs'.file? loc = fs.file? loc := by
  unfold file?
  rw [h]

theorem contents_at (rel : Location) : fs.contents (.at root) rel = fs.file? (rel ++ root) := rfl

theorem contents_put {rel : Location} :
    (fs.put (rel ++ root) (.file f)).contents (.at root) = (fs.contents (.at root)).set rel f := by
  funext l
  unfold CardFiles.set
  rw [contents_at, contents_at]
  unfold file?
  rw [node?_put]
  by_cases h : l = rel <;> simp [h]

theorem contents_replace {rel rel' : Location} {g : RegularFile} :
    (((fs.erase (rel ++ root)).put (rel' ++ root) (.file g)).put (rel ++ root) (.file f)).contents
      (.at root) = ((fs.contents (.at root)).set rel' g).set rel f := by
  rw [contents_put, contents_put]
  funext l
  unfold CardFiles.set
  rw [contents_at, contents_at]
  unfold file?
  rw [node?_erase]
  by_cases h : l = rel <;> simp [h]

theorem put_put {node node' : Node} : (fs.put loc node).put loc node' = fs.put loc node' := by
  apply ext_node?
  . intro l
    simp only [node?_put]
    split <;> rfl
  . rfl

theorem Grown.contents_eq {p : Place} {rel : Location} (h : Grown p rel fs fs') :
    fs'.contents p = fs.contents p := by
  funext l
  cases p with
  | removed => rfl
  | «at» root =>
    rw [contents_at, contents_at]
    rcases h.same (l ++ root) with heq | ⟨hnone, hdir, -⟩
    . exact file?_congr heq
    . unfold file?
      rw [hnone, hdir]

theorem HasSlot.find_eq {card dest : Pathname} {p : Place} {g : RegularFile}
    (h : fs.HasSlot card p dest) (hfile : fs.contents p (Location.ofPath dest) = some g) :
    ∃ loc, fs.find (card / dest) = .ok (.file loc g) := by
  obtain ⟨root, dir, name, rfl, hslot⟩ := h
  rw [contents_at, ← hslot.location, file?_eq_some] at hfile
  exact ⟨_, hslot.find_eq hfile⟩

end FileSystem

end BootCard
