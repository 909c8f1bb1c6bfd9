import BootCard.Image.Location
import BootCard.Proofs.Disk.Visits
import BootCard.Proofs.Pathname.Extension

/-!
This module contains what locating an image comes to. Nothing is changed by it, and what is located
is there and has the extension of a flat form, unless it is a directory.
-/

namespace BootCard

open FileSystem

variable {fs : FileSystem} {path image flat : Pathname} {w w' : World}

namespace ImageForm

variable {path : Pathname} {form : ImageForm} {ext : Bytes}

theorem ofExtension?_eq_some : ofExtension? ext = some form ↔ ext = utf8 form.extension := by
  unfold ofExtension?
  constructor
  . intro h
    simpa [eq_comm] using List.find?_some h
  . rintro rfl
    cases form <;> decide

theorem of?_eq_some : of? path = some form ↔ path.extension? = some (utf8 form.extension) := by
  unfold of?
  rw [Option.bind_eq_some_iff]
  simp only [ofExtension?_eq_some, exists_eq_right]

theorem of?_eq_none :
    of? path = none ↔ ∀ form : ImageForm, path.extension? ≠ some (utf8 form.extension) := by
  rw [Option.eq_none_iff_forall_ne_some]
  simp only [ne_eq, of?_eq_some]

theorem extension_clean (form : ImageForm) : Bytes.slash ∉ utf8 form.extension ∧
    Bytes.dot ∉ utf8 form.extension ∧ utf8 form.extension ≠ [] := by
  cases form <;> decide

end ImageForm

/-- Whether a path leads to a regular file and has the extension of a flat form. -/
structure FileSystem.IsFlatImage (fs : FileSystem) (path : Pathname) : Prop where
  isFile : fs.isFile path = true
  form : ImageForm.of? path = some .bin ∨ ImageForm.of? path = some .img

namespace Image

theorem of?_inForm {form : ImageForm} (hfile : fs.isFile (image.inForm form) = true) :
    ImageForm.of? (image.inForm form) = some form := by
  obtain ⟨loc, f, hfind⟩ := isFile_eq_true.mp hfile
  obtain ⟨name, hlast⟩ := exists_last_name hfind
  obtain ⟨hslash, hdot, -⟩ := form.extension_clean
  exact ImageForm.of?_eq_some.mpr (Pathname.extension?_withExtension hslash hdot hlast)

theorem flatForm_eq_ok_iff : flatForm fs image = .ok flat ↔
    fs.exists? image = true ∧ ImageForm.of? image ≠ none ∧ flatForm? fs image = some flat := by
  unfold flatForm
  split
  next hexists => simp_all
  next hexists =>
  split
  next hform => simp_all
  next hform =>
  cases flatForm? fs image <;> simp_all

theorem flatForm_eq_ok (h : flatForm fs image = .ok flat) :
    ∃ form ∈ ImageForm.flat, flat = image.inForm form ∧ fs.exists? flat = true := by
  obtain ⟨-, -, hfound⟩ := flatForm_eq_ok_iff.mp h
  unfold flatForm? at hfound
  obtain ⟨form, hform, rfl⟩ := List.mem_map.mp (List.mem_of_find?_eq_some hfound)
  exact ⟨form, hform, rfl, List.find?_some hfound⟩

theorem isFlatImage_iff (h : flatForm fs image = .ok flat) :
    fs.IsFlatImage flat ↔ fs.isDir flat = false := by
  obtain ⟨form, hform, rfl, hexists⟩ := flatForm_eq_ok h
  have hfile := isFile_eq_not_isDir hexists
  constructor
  . intro hflat
    simpa [hfile] using hflat.isFile
  . intro hdir
    rw [hdir] at hfile
    refine ⟨hfile, ?_⟩
    rw [of?_inForm hfile]
    simpa [ImageForm.flat] using hform

def absolutePath (fs : FileSystem) (argument : Pathname) : Except IoError Pathname :=
  if argument.isAbsolute then .ok argument else fs.currentDirectory.map (· / argument)

def told (flat : Pathname) (w : World) : World :=
  { w with transcript := w.transcript ++ [.noted .debug s!"kernel resolved to {flat.display}"] }

theorem start_absolute : (absolute path).start w =
    match absolutePath w.disk path with
    | .ok path => (.ok path, w)
    | .error e => (.error (.failed ⟨[.findingCurrentDirectory], .io e⟩), w) := by
  unfold absolute absolutePath
  split
  . rfl
  rw [Action.start_bind, Action.start_askDisk]
  dsimp only
  rw [Action.start_bind]
  cases w.disk.currentDirectory <;> rfl

theorem start_locate : (locate path).start w =
    match absolutePath w.disk path with
    | .error e => (.error (.failed ⟨[.findingCurrentDirectory], .io e⟩), w)
    | .ok path =>
      match flatForm w.disk (named w.disk path) with
      | .error cause => (.error (.failed { cause := cause }), w)
      | .ok flat => (.ok flat, told flat w) := by
  unfold locate
  rw [Action.start_bind, start_absolute]
  cases absolutePath w.disk path with
  | error e => rfl
  | ok path =>
    dsimp only
    rw [Action.start_bind, Action.start_askDisk]
    dsimp only
    rw [Action.start_bind]
    cases flatForm w.disk (named w.disk path) <;> rfl

theorem locate_cases (argument : Pathname) (w : World) :
    (∃ s, (locate argument).start w = (.error s, w)) ∨
      ∃ path flat, flatForm w.disk (named w.disk path) = .ok flat ∧
        (locate argument).start w = (.ok flat, told flat w) := by
  rw [start_locate]
  cases absolutePath w.disk argument with
  | error e => exact .inl ⟨_, rfl⟩
  | ok path =>
    dsimp only
    cases hflat : flatForm w.disk (named w.disk path) with
    | error cause => exact .inl ⟨_, rfl⟩
    | ok flat => exact .inr ⟨path, flat, hflat, rfl⟩

theorem locate_disk : w.disk = ((locate path).start w).2.disk := by
  rcases locate_cases path w with ⟨s, h⟩ | ⟨_, flat, -, h⟩
  . rw [h]
  . rw [h]
    rfl

end Image

end BootCard
