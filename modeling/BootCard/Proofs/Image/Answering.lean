import BootCard.Proofs.Disk.Pointing
import BootCard.Proofs.Image.Locating
import BootCard.Proofs.Pathname.Trunk

/-!
This module contains what is located for every argument: which image is meant by it, when there is
an answer, and which of its flat forms that is. An image whose name is a dot with an extension, like
`..bin`, has no flat form with a name, and the parent of its directory is what is located for it.
-/

namespace BootCard

open FileSystem

namespace Pathname

namespace Extended

variable {path : Pathname} {front stem ext : Bytes} {before : List Bytes}
variable (h : path.Extended front before stem ext)
include h

theorem inForm_eq (form : ImageForm) : path.inForm form =
    if stem = [Bytes.dot] then path.trunk else path.sibling (utf8 form.extension) :=
  h.withExtension_eq _

theorem inForm_extended (form : ImageForm) (hstem : stem ≠ [Bytes.dot]) :
    (path.inForm form).Extended front before stem (utf8 form.extension) := by
  obtain ⟨hslash, hdot, hne⟩ := form.extension_clean
  rw [h.inForm_eq, if_neg hstem]
  exact h.sibling_extended hslash hdot hne

end Extended

end Pathname

namespace FileSystem

variable {fs : FileSystem} {path : Pathname} {front stem ext : Bytes} {before : List Bytes}

theorem isDir_trunk (h : path.Extended front before stem ext) (hstem : stem = [Bytes.dot])
    (hexists : fs.exists? path = true) : fs.isDir path.trunk = true := by
  obtain ⟨found, hfind⟩ := exists?_eq_true.mp hexists
  unfold find at hfind
  rw [except_bind_eq_ok] at hfind
  obtain ⟨a, hwalk, -⟩ := hfind
  obtain ⟨dir, hpoints, -⟩ := exists_points h.components_eq hwalk
  obtain ⟨mid, l, hend, hmid⟩ := hpoints.descends
  obtain rfl := (List.append_inj' (h.components_eq.symm.trans hend) rfl).1
  have hsub : path.bytes = path.trunk.bytes ++ ext := h.bytes_eq_trunk
  have hwalkable : path.trunk.IsWalkable := by
    constructor
    . intro hzero
      exact hpoints.walkable.no_zero (by simp [hsub, hzero])
    . rw [h.trunk_bytes]
      simp
    . have := hpoints.walkable.length_lt
      rw [hsub, List.length_append] at this
      omega
  refine isDir_eq_true.mpr ⟨(Place.at dir).parent, find_eq_dir.mpr ⟨hwalkable, l, ?_⟩⟩
  have hstart : startOf path.trunk.bytes fs.here = startOf path.bytes fs.here := by
    rw [h.trunk_bytes, h.ends.bytes]
    rfl
  unfold reach
  rw [h.trunk_parts hstem, hstart, descend_append, hmid]
  show fs.descend l (.at dir) [.up] = _
  rw [descend_up, hpoints.enters]
  exact descend_nil

end FileSystem

namespace Image

variable {fs : FileSystem} {path image flat : Pathname} {w : World}
variable {front stem : Bytes} {before : List Bytes} {form : ImageForm}

def within (fs : FileSystem) (dir : Pathname) : Pathname :=
  if fs.exists? (dir / ("kernel8.img" : Pathname)) then dir / ("kernel8.img" : Pathname)
  else if fs.exists? (dir / ("kernel8.bin" : Pathname)) then dir / ("kernel8.bin" : Pathname)
  else if fs.exists? (dir / ("kernel8.elf" : Pathname)) then dir / ("kernel8.elf" : Pathname)
  else dir / ("kernel8.img" : Pathname)

def meant (fs : FileSystem) (path : Pathname) : Pathname :=
  if fs.isDir path then within fs path else path

/-- What is to be answered when the flat form of an image is asked for. -/
structure Answers (fs : FileSystem) (image : Pathname) (answer : Except Cause Pathname) :
    Prop where
  noImage_iff : answer = .error (.noImage image) ↔ fs.exists? image = false
  notAnImage_iff : answer = .error (.notAnImage image) ↔ fs.exists? image = true ∧
    ∀ form : ImageForm, image.extension? ≠ some (utf8 form.extension)
  noFlatImage_iff : answer = .error (.noFlatImage image) ↔ fs.exists? image = true ∧
    image.extension? = some (utf8 "elf") ∧ ¬ image.HasDotStem ∧
    fs.exists? (image.sibling (utf8 "bin")) = false ∧
    fs.exists? (image.sibling (utf8 "img")) = false
  cause_mem : ∀ cause, answer = .error cause →
    cause ∈ [.noImage image, .notAnImage image, .noFlatImage image]
  ok_iff : ∀ flat, answer = .ok flat ↔ fs.exists? image = true ∧
    (∃ form : ImageForm, image.extension? = some (utf8 form.extension)) ∧
    if image.HasDotStem then flat = image.trunk
    else if fs.exists? (image.sibling (utf8 "bin")) then flat = image.sibling (utf8 "bin")
    else fs.exists? (image.sibling (utf8 "img")) = true ∧ flat = image.sibling (utf8 "img")
  located : ∀ flat, answer = .ok flat → flat.isAbsolute = true ∧ fs.exists? flat = true ∧
    if image.HasDotStem then flat.extension? = none ∧ fs.isDir flat = true
    else flat.extension? = some (utf8 "bin") ∨
      flat.extension? = some (utf8 "img") ∧ fs.exists? (flat.sibling (utf8 "bin")) = false

theorem isAbsolute_of_absolutePath {argument : Pathname} (h : absolutePath fs argument = .ok path) :
    path.isAbsolute = true := by
  unfold absolutePath at h
  split at h
  next habsolute =>
    obtain rfl := Except.ok.inj h
    exact habsolute
  next =>
    unfold currentDirectory at h
    split at h
    next => simp [Except.map] at h
    next loc hhere =>
      obtain rfl := Except.ok.inj h
      exact Pathname.isAbsolute_join rfl

section Directory

variable {dir : Pathname}

def imageIn (dir : Pathname) (form : ImageForm) : Pathname :=
  dir / ("kernel8." : Pathname).append (utf8 form.extension)

theorem imageIn_extended (h : dir.isAbsolute = true) (form : ImageForm) :
    ∃ front before,
      (imageIn dir form).Extended front before (utf8 "kernel8") (utf8 form.extension) := by
  have hne : dir.bytes ≠ [] := by
    intro hnil
    simp [Pathname.isAbsolute, hnil] at h
  have hlast : (components (imageIn dir form).bytes).getLast? =
      some (.name (utf8 "kernel8" ++ Bytes.dot :: utf8 form.extension)) := by
    have hcomponents : components (("kernel8." : Pathname).append (utf8 form.extension)).bytes =
        [.name (utf8 "kernel8" ++ Bytes.dot :: utf8 form.extension)] := by
      cases form <;> decide
    unfold imageIn
    rw [Pathname.components_join hne (by cases form <;> decide) (by cases form <;> decide),
      hcomponents, List.getLast?_concat]
  obtain ⟨front, before, hends⟩ := Pathname.exists_endsWith (Pathname.isAbsolute_join h) hlast
  exact ⟨front, before, hends, by decide, form.extension_clean.2.1, form.extension_clean.2.2⟩

theorem inForm_imageIn (h : dir.isAbsolute = true) (form form' : ImageForm) :
    (imageIn dir form).inForm form' = imageIn dir form' := by
  obtain ⟨front, before, hextended⟩ := imageIn_extended h form
  have happend (form : ImageForm) : imageIn dir form =
      (dir / ("kernel8." : Pathname)).append (utf8 form.extension) :=
    (Pathname.append_join _ (by decide)).symm
  rw [hextended.inForm_eq, if_neg (by decide), happend form']
  unfold Pathname.sibling
  rw [hextended.trunk_eq_of_append (happend form)]

theorem inDirectory_eq (h : dir.isAbsolute = true) : inDirectory fs dir = within fs dir := by
  have hbin : (dir / (defaultName : Pathname)).inForm .bin = dir / ("kernel8.bin" : Pathname) :=
    inForm_imageIn h .img .bin
  have helf : (dir / (defaultName : Pathname)).inForm .elf = dir / ("kernel8.elf" : Pathname) :=
    inForm_imageIn h .img .elf
  unfold inDirectory within
  dsimp only
  rw [hbin, helf]
  show (List.find? _ [dir / ("kernel8.img" : Pathname), _, _]).getD
    (dir / ("kernel8.img" : Pathname)) = _
  rw [List.find?_cons, List.find?_cons, List.find?_cons]
  cases fs.exists? (dir / ("kernel8.img" : Pathname)) <;>
    cases fs.exists? (dir / ("kernel8.bin" : Pathname)) <;>
    cases fs.exists? (dir / ("kernel8.elf" : Pathname)) <;> rfl

theorem within_extended (h : dir.isAbsolute = true) :
    ∃ (form : ImageForm) (front : Bytes) (before : List Bytes),
      (within fs dir).Extended front before (utf8 "kernel8") (utf8 form.extension) := by
  unfold within
  split
  . exact ⟨.img, imageIn_extended h .img⟩
  split
  . exact ⟨.bin, imageIn_extended h .bin⟩
  split
  . exact ⟨.elf, imageIn_extended h .elf⟩
  . exact ⟨.img, imageIn_extended h .img⟩

end Directory

theorem named_eq (h : path.isAbsolute = true) : named fs path = meant fs path := by
  unfold named meant
  rw [inDirectory_eq h]

theorem extended_of_exists (habsolute : path.isAbsolute = true)
    (hexists : fs.exists? path = true) (hdir : fs.isDir path = false)
    (hform : ImageForm.of? path = some form) :
    ∃ front before stem, path.Extended front before stem (utf8 form.extension) := by
  have hfile := isFile_eq_not_isDir hexists
  rw [hdir, Bool.not_false, isFile_eq_true] at hfile
  obtain ⟨loc, f, hfind⟩ := hfile
  obtain ⟨name, hlast⟩ := exists_last_name hfind
  exact Pathname.exists_extended habsolute hlast (ImageForm.of?_eq_some.mp hform)
    form.extension_clean.2.2

theorem meant_extended (habsolute : path.isAbsolute = true)
    (hexists : fs.exists? (meant fs path) = true)
    (hform : ImageForm.of? (meant fs path) = some form) :
    ∃ front before stem, (meant fs path).Extended front before stem (utf8 form.extension) := by
  unfold meant at hexists hform ⊢
  split at hexists
  next hdir =>
    rw [if_pos hdir] at hform ⊢
    obtain ⟨form', front, before, hextended⟩ : ∃ (form' : ImageForm) (front : Bytes)
        (before : List Bytes), (within fs path).Extended front before (utf8 "kernel8")
          (utf8 form'.extension) := within_extended habsolute
    rw [ImageForm.of?_eq_some, hextended.extension?_eq, Option.some.injEq] at hform
    exact ⟨front, before, _, hform ▸ hextended⟩
  next hdir =>
    rw [if_neg hdir] at hform ⊢
    exact extended_of_exists habsolute hexists (by simpa using hdir) hform

theorem flatForm_eq (h : image.Extended front before stem (utf8 form.extension))
    (hexists : fs.exists? image = true) : flatForm fs image =
      if stem = [Bytes.dot] then .ok image.trunk
      else if fs.exists? (image.sibling (utf8 "bin")) then .ok (image.sibling (utf8 "bin"))
      else if fs.exists? (image.sibling (utf8 "img")) then .ok (image.sibling (utf8 "img"))
      else .error (.noFlatImage image) := by
  have hform : ImageForm.of? image = some form := ImageForm.of?_eq_some.mpr h.extension?_eq
  unfold flatForm flatForm?
  rw [hexists, hform]
  dsimp only [Bool.not_true, Option.isNone_some]
  rw [if_neg (by simp), if_neg (by simp)]
  unfold ImageForm.flat
  rw [List.map_cons, List.map_cons, List.map_nil, List.find?_cons, List.find?_cons, List.find?_nil,
    h.inForm_eq, h.inForm_eq]
  by_cases hstem : stem = [Bytes.dot]
  . have htrunk : fs.exists? image.trunk = true := exists?_of_isDir (isDir_trunk h hstem hexists)
    simp only [if_pos hstem, htrunk]
  . simp only [if_neg hstem]
    have hbin : utf8 ImageForm.bin.extension = utf8 "bin" := rfl
    have himg : utf8 ImageForm.img.extension = utf8 "img" := rfl
    rw [hbin, himg]
    cases fs.exists? (image.sibling (utf8 "bin")) <;>
      cases fs.exists? (image.sibling (utf8 "img")) <;> rfl

theorem sibling_located (h : image.Extended front before stem (utf8 form.extension))
    (form' : ImageForm) :
    (image.sibling (utf8 form'.extension)).isAbsolute = true ∧
      (image.sibling (utf8 form'.extension)).extension? = some (utf8 form'.extension) ∧
      ∀ ext, (image.sibling (utf8 form'.extension)).sibling ext = image.sibling ext := by
  obtain ⟨hslash, hdot, hne⟩ := form'.extension_clean
  have hextended := h.sibling_extended hslash hdot hne
  refine ⟨hextended.ends.isAbsolute_eq, hextended.extension?_eq, fun ext => ?_⟩
  have htrunk : (image.sibling (utf8 form'.extension)).trunk = image.trunk :=
    hextended.trunk_eq_of_append rfl
  show (image.sibling (utf8 form'.extension)).trunk.append ext = _
  rw [htrunk]
  rfl

theorem answers_of_dotStem (h : image.Extended front before stem (utf8 form.extension))
    (hexists : fs.exists? image = true) (hstem : stem = [Bytes.dot]) :
    Answers fs image (.ok image.trunk) := by
  have hsome : ∃ form : ImageForm, image.extension? = some (utf8 form.extension) :=
    ⟨form, h.extension?_eq⟩
  have hdot : image.HasDotStem := h.hasDotStem_iff.mpr hstem
  constructor
  . simp [hexists]
  . simpa [hexists] using hsome
  . simp [hdot]
  . simp
  . intro flat
    rw [if_pos hdot, Except.ok.injEq, eq_comm]
    simp only [hexists, hsome, true_and]
  . intro flat hflat
    obtain rfl := Except.ok.inj hflat
    have hisDir := isDir_trunk h hstem hexists
    rw [if_pos hdot]
    exact ⟨h.trunk_endsWith.isAbsolute_eq, exists?_of_isDir hisDir, h.trunk_extension? hstem,
      hisDir⟩

section Stem

variable (h : image.Extended front before stem (utf8 form.extension))
variable (hexists : fs.exists? image = true) (hstem : stem ≠ [Bytes.dot])
include h hexists hstem

theorem answers_of_bin (hbin : fs.exists? (image.sibling (utf8 "bin")) = true) :
    Answers fs image (.ok (image.sibling (utf8 "bin"))) := by
  have hsome : ∃ form : ImageForm, image.extension? = some (utf8 form.extension) :=
    ⟨form, h.extension?_eq⟩
  have hdot : ¬ image.HasDotStem := mt h.hasDotStem_iff.mp hstem
  obtain ⟨habsolute, hext, -⟩ := sibling_located h .bin
  constructor
  . simp [hexists]
  . simpa [hexists] using hsome
  . simp [hbin]
  . simp
  . intro flat
    rw [if_neg hdot, if_pos hbin, Except.ok.injEq, eq_comm]
    simp only [hexists, hsome, true_and]
  . intro flat hflat
    obtain rfl := Except.ok.inj hflat
    rw [if_neg hdot]
    exact ⟨habsolute, hbin, .inl hext⟩

theorem answers_of_img (hbin : fs.exists? (image.sibling (utf8 "bin")) = false)
    (himg : fs.exists? (image.sibling (utf8 "img")) = true) :
    Answers fs image (.ok (image.sibling (utf8 "img"))) := by
  have hsome : ∃ form : ImageForm, image.extension? = some (utf8 form.extension) :=
    ⟨form, h.extension?_eq⟩
  have hdot : ¬ image.HasDotStem := mt h.hasDotStem_iff.mp hstem
  obtain ⟨habsolute, hext, hsame⟩ := sibling_located h .img
  constructor
  . simp [hexists]
  . simpa [hexists] using hsome
  . simp [himg]
  . simp
  . intro flat
    rw [if_neg hdot, if_neg (by simp [hbin]), Except.ok.injEq, eq_comm]
    simp only [hexists, hsome, himg, true_and]
  . intro flat hflat
    obtain rfl := Except.ok.inj hflat
    have hnone : fs.exists? ((image.sibling (utf8 "img")).sibling (utf8 "bin")) = false := by
      rw [← hbin]
      exact congrArg _ (hsame _)
    rw [if_neg hdot]
    exact ⟨habsolute, himg, .inr ⟨hext, hnone⟩⟩

theorem answers_of_elf (hbin : fs.exists? (image.sibling (utf8 "bin")) = false)
    (himg : fs.exists? (image.sibling (utf8 "img")) = false) :
    Answers fs image (.error (.noFlatImage image)) := by
  have hsome : ∃ form : ImageForm, image.extension? = some (utf8 form.extension) :=
    ⟨form, h.extension?_eq⟩
  have hdot : ¬ image.HasDotStem := mt h.hasDotStem_iff.mp hstem
  have hself : fs.exists? (image.sibling (utf8 form.extension)) = true := by
    rwa [h.sibling_self]
  have helf : image.extension? = some (utf8 "elf") := by
    rw [h.extension?_eq]
    cases form with
    | bin => exact absurd hself (Bool.eq_false_iff.mp hbin)
    | elf => rfl
    | img => exact absurd hself (Bool.eq_false_iff.mp himg)
  constructor
  . simp [hexists]
  . simpa [hexists] using hsome
  . simp [hexists, helf, hdot, hbin, himg]
  . simp
  . intro flat
    simp [hdot, hbin, himg]
  . simp

theorem answers_of_stem : Answers fs image (flatForm fs image) := by
  rw [flatForm_eq h hexists, if_neg hstem]
  cases hbin : fs.exists? (image.sibling (utf8 "bin")) with
  | true =>
    rw [if_pos rfl]
    exact answers_of_bin h hexists hstem hbin
  | false =>
    rw [if_neg (by simp)]
    cases himg : fs.exists? (image.sibling (utf8 "img")) with
    | true =>
      rw [if_pos rfl]
      exact answers_of_img h hexists hstem hbin himg
    | false =>
      rw [if_neg (by simp)]
      exact answers_of_elf h hexists hstem hbin himg

end Stem

theorem answers_of_missing (hexists : fs.exists? image = false) :
    Answers fs image (.error (.noImage image)) := by
  constructor <;> simp [hexists]

theorem answers_of_foreign (hexists : fs.exists? image = true)
    (hforeign : ∀ form : ImageForm, image.extension? ≠ some (utf8 form.extension)) :
    Answers fs image (.error (.notAnImage image)) := by
  have hnone : ¬ ∃ form : ImageForm, image.extension? = some (utf8 form.extension) := by
    simpa using hforeign
  constructor
  . simp [hexists]
  . simpa [hexists] using hforeign
  . have helf : image.extension? ≠ some (utf8 "elf") := hforeign .elf
    simp [helf]
  . simp
  . intro flat
    simp only [reduceCtorEq, hnone, false_and, and_false]
  . simp

theorem flatForm_answers (habsolute : path.isAbsolute = true) :
    Answers fs (meant fs path) (flatForm fs (meant fs path)) := by
  cases hexists : fs.exists? (meant fs path) with
  | false =>
    unfold flatForm
    rw [hexists, if_pos (by simp)]
    exact answers_of_missing hexists
  | true =>
    cases hform : ImageForm.of? (meant fs path) with
    | none =>
      unfold flatForm
      rw [hexists, hform, if_neg (by simp), if_pos (by simp)]
      exact answers_of_foreign hexists (ImageForm.of?_eq_none.mp hform)
    | some form =>
      obtain ⟨front, before, stem, h⟩ := meant_extended habsolute hexists hform
      by_cases hstem : stem = [Bytes.dot]
      . rw [flatForm_eq h hexists, if_pos hstem]
        exact answers_of_dotStem h hexists hstem
      . exact answers_of_stem h hexists hstem

/--
Locating an image fails if the path of the current directory is needed and cannot be told. In all
other cases there is one image that is meant, and the answer is what there is to say about it. All
that happens is that what is located is told.
-/
theorem locate_answers (argument : Pathname) (w : World) :
    match absolutePath w.disk argument with
    | .error e =>
      (locate argument).start w = (.error (.failed ⟨[.findingCurrentDirectory], .io e⟩), w)
    | .ok path => path.isAbsolute = true ∧ ∃ answer, Answers w.disk (meant w.disk path) answer ∧
      (locate argument).start w =
        match answer with
        | .error cause => (.error (.failed { cause := cause }), w)
        | .ok flat => (.ok flat, told flat w) := by
  rw [start_locate]
  cases hpath : absolutePath w.disk argument with
  | error e => rfl
  | ok path =>
    have habsolute := isAbsolute_of_absolutePath hpath
    refine ⟨habsolute, flatForm w.disk (named w.disk path), ?_, rfl⟩
    rw [named_eq habsolute]
    exact flatForm_answers habsolute

def dottedBuild : FileSystem :=
  [(Location.ofPath "/build/..bin", Node.file ⟨utf8 "flat", Mode.newFile, .at 1⟩),
    (Location.ofPath "/build/..elf", Node.file ⟨utf8 "linked", Mode.newFile, .at 2⟩)].foldl
    FileSystem.lay FileSystem.empty

/-- What is located for a flat image may be a directory, which has no extension. -/
theorem locate_dottedBuild :
    dottedBuild.isFile "/build/..bin" = true ∧
      ("/build/..bin" : Pathname).extension? = some (utf8 "bin") ∧
      ((locate "/build/..bin").start { disk := dottedBuild }).1.toOption = some "/build/.." ∧
      ("/build/.." : Pathname).extension? = none ∧
      dottedBuild.isDir "/build/.." = true := by
  decide +kernel

end Image

end BootCard
