import BootCard.Proofs.Image.Answering
import BootCard.Proofs.Image.Generating

/-!
This module contains that it does not matter which form of an image the operator names: the same
flat form is located, the generator is run on the same linked form, and the configuration is looked
for in the same place.
-/

namespace BootCard

open FileSystem

namespace Pathname

variable {p q : Pathname} {front stem ext ext' : Bytes} {before : List Bytes} {form : ImageForm}

namespace Extended

theorem inForm_congr (hp : p.Extended front before stem ext)
    (hq : q.Extended front before stem ext') (form : ImageForm) : q.inForm form = p.inForm form := by
  have htrunk := hp.trunk_congr hq
  rw [hp.inForm_eq, hq.inForm_eq]
  unfold sibling
  rw [htrunk]

theorem inForm_inForm (h : p.Extended front before stem ext) (form form' : ImageForm) :
    (p.inForm form).inForm form' = p.inForm form' := by
  by_cases hstem : stem = [Bytes.dot]
  . have hends := h.trunk_endsWith
    have hup : stem ++ [Bytes.dot] = upPiece := by rw [hstem]; rfl
    rw [h.inForm_eq, h.inForm_eq, if_pos hstem, if_pos hstem]
    unfold inForm withExtension
    dsimp only
    rw [h.trunk_extension? hstem, Option.getD_none, List.length_nil, Nat.sub_zero, List.take_length]
    show p.trunk.replaceAfterStem _ = _
    rw [hends.replaceAfterStem_eq h.trunk_not_blank, if_pos hup]
  . exact h.inForm_congr (h.inForm_extended form hstem) form'

theorem parent?_inForm (h : p.Extended front before stem ext) (form : ImageForm) :
    (p.inForm form).parent? = p.parent? := by
  by_cases hstem : stem = [Bytes.dot]
  . rw [h.inForm_eq, if_pos hstem, h.trunk_endsWith.parent?_eq h.trunk_not_blank,
      h.ends.parent?_eq h.not_blank]
  . exact h.parent?_congr (h.inForm_extended form hstem)

end Extended

end Pathname

namespace Image

variable {fs : FileSystem} {p q k : Pathname} {w : World} {base front stem ext : Bytes}
variable {before : List Bytes} {form form' : ImageForm}

theorem exists_flatForm (h : p.Extended front before stem (utf8 form.extension))
    (hexists : fs.exists? p = true) (hflat : form ≠ .elf) : ∃ k, flatForm fs p = .ok k := by
  rw [flatForm_eq h hexists]
  split
  . exact ⟨_, rfl⟩
  split
  . exact ⟨_, rfl⟩
  split
  . exact ⟨_, rfl⟩
  next hbin himg =>
    have hself : fs.exists? (p.sibling (utf8 form.extension)) = true := by
      rwa [h.sibling_self]
    cases form with
    | bin => exact absurd hself hbin
    | elf => exact absurd rfl hflat
    | img => exact absurd hself himg

theorem flatForm_congr (hp : p.Extended front before stem (utf8 form.extension))
    (hq : q.Extended front before stem (utf8 form'.extension)) (hexists : fs.exists? q = true)
    (h : flatForm fs p = .ok k) : flatForm fs q = .ok k := by
  obtain ⟨-, -, hfound⟩ := flatForm_eq_ok_iff.mp h
  have hform : ImageForm.of? q = some form' := ImageForm.of?_eq_some.mpr hq.extension?_eq
  refine flatForm_eq_ok_iff.mpr ⟨hexists, by simp [hform], ?_⟩
  unfold flatForm? at hfound ⊢
  rw [show q.inForm = p.inForm from funext (hp.inForm_congr hq)]
  exact hfound

theorem start_locate_of_ok (habsolute : p.isAbsolute = true) (hdir : w.disk.isDir p = false)
    (h : flatForm w.disk p = .ok k) : (locate p).start w = (.ok k, told k w) := by
  rw [start_locate]
  unfold absolutePath
  rw [if_pos habsolute]
  dsimp only
  unfold named
  rw [if_neg (by simp [hdir]), h]

theorem trunk_bytes_of_eq (hp : p.bytes = base ++ ext) (h : p.Extended front before stem ext) :
    p.trunk.bytes = base := by
  have happend : p = (⟨base⟩ : Pathname).append ext := Pathname.eq_of_bytes hp
  rw [h.trunk_eq_of_append happend]

theorem extended_of_bytes (hp : p.bytes = base ++ utf8 form.extension)
    (hq : q.bytes = base ++ utf8 form'.extension)
    (h : p.Extended front before stem (utf8 form.extension)) :
    q.Extended front before stem (utf8 form'.extension) := by
  obtain ⟨hslash, hdot, hne⟩ := form'.extension_clean
  have hsibling : p.sibling (utf8 form'.extension) = q := by
    apply Pathname.eq_of_bytes
    show p.trunk.bytes ++ _ = _
    rw [hq, trunk_bytes_of_eq hp h]
  rw [← hsibling]
  exact h.sibling_extended hslash hdot hne

theorem bytes_inForm (hp : p.bytes = base ++ utf8 form.extension)
    (h : p.Extended front before stem (utf8 form.extension)) (form' : ImageForm) :
    (p.inForm form').bytes = if p.HasDotStem then base else base ++ utf8 form'.extension := by
  have htrunk := trunk_bytes_of_eq hp h
  rw [h.inForm_eq]
  by_cases hstem : stem = [Bytes.dot]
  . rw [if_pos hstem, if_pos (h.hasDotStem_iff.mpr hstem), htrunk]
  . rw [if_neg hstem, if_neg (mt h.hasDotStem_iff.mp hstem)]
    show p.trunk.bytes ++ _ = _
    rw [htrunk]

theorem located_form {flat : ImageForm} (hp : p.bytes = base ++ utf8 form.extension)
    (h : p.Extended front before stem (utf8 form.extension)) (hflat : flat ∈ ImageForm.flat) :
    if p.HasDotStem then (p.inForm flat).bytes = base ∧ (p.inForm flat).inForm .elf = p.inForm flat
    else (∃ flat' ∈ ImageForm.flat, (p.inForm flat).bytes = base ++ utf8 flat'.extension) ∧
      ((p.inForm flat).inForm .elf).bytes = base ++ utf8 "elf" ∧
      (form = .elf → (p.inForm flat).inForm .elf = p) := by
  have hbytes := bytes_inForm hp h
  rw [h.inForm_inForm]
  by_cases hdot : p.HasDotStem
  . have hsame : (p.inForm .elf).bytes = (p.inForm flat).bytes := by
      rw [hbytes, hbytes, if_pos hdot, if_pos hdot]
    rw [if_pos hdot]
    exact ⟨by rw [hbytes, if_pos hdot], Pathname.eq_of_bytes hsame⟩
  . have helf : (p.inForm .elf).bytes = base ++ utf8 "elf" := by
      rw [hbytes, if_neg hdot]
      rfl
    rw [if_neg hdot]
    refine ⟨⟨flat, hflat, by rw [hbytes, if_neg hdot]⟩, helf, ?_⟩
    rintro rfl
    exact Pathname.eq_of_bytes (helf.trans hp.symm)

theorem obtain_congr {image parent : Pathname} (hlinked : image.inForm .elf = k.inForm .elf)
    (hparent : image.parent? = some parent) :
    BootText.beside? image = some (parent / (bootConfigName : Pathname)) ∧
      ∀ generator w', BootText.isPrebuilt w'.disk image (parent / (bootConfigName : Pathname)) = false →
        (BootText.obtain image generator).start w' =
          (do
            BootText.generate k (parent / (bootConfigName : Pathname)) generator
            pure (parent / (bootConfigName : Pathname)) : Action Pathname).start w' := by
  have hbeside := BootText.beside?_of_parent? hparent
  refine ⟨hbeside, fun generator w' hprebuilt => ?_⟩
  rw [BootText.start_obtain hbeside, hprebuilt, if_neg (by simp), BootText.generate_congr hlinked]

/--
If there are two forms of an image and one of them is flat, the same flat form is located for both.
It has the same linked form as they have, and differs from them in nothing but the extension, unless
a dot stands before that. From each of the three the generator is run on the same linked form, and
the configuration is looked for in the same place.
-/
theorem locate_interchanges (hp : p.bytes = base ++ utf8 form.extension)
    (hq : q.bytes = base ++ utf8 form'.extension) (hform : ImageForm.of? p = some form)
    (habsolute : p.isAbsolute = true) (hpexists : w.disk.exists? p = true)
    (hqexists : w.disk.exists? q = true) (hpdir : w.disk.isDir p = false)
    (hqdir : w.disk.isDir q = false) (hflat : form ≠ .elf ∨ form' ≠ .elf) :
    ∃ k config, (locate p).start w = (.ok k, told k w) ∧ (locate q).start w = (.ok k, told k w) ∧
      (if p.HasDotStem then k.bytes = base ∧ k.inForm .elf = k
      else (∃ flat ∈ ImageForm.flat, k.bytes = base ++ utf8 flat.extension) ∧
        (k.inForm .elf).bytes = base ++ utf8 "elf" ∧ (form = .elf → k.inForm .elf = p)) ∧
      ∀ image ∈ [p, q, k], image.inForm .elf = k.inForm .elf ∧
        BootText.beside? image = some config ∧
        ∀ generator w', BootText.isPrebuilt w'.disk image config = false →
          (BootText.obtain image generator).start w' =
            (do BootText.generate k config generator; pure config : Action Pathname).start w' := by
  obtain ⟨front, before, stem, h⟩ := extended_of_exists habsolute hpexists hpdir hform
  have h' := extended_of_bytes hp hq h
  obtain ⟨k, hpk⟩ : ∃ k, flatForm w.disk p = .ok k := by
    rcases hflat with hflat | hflat
    . exact exists_flatForm h hpexists hflat
    . obtain ⟨k, hqk⟩ := exists_flatForm h' hqexists hflat
      exact ⟨k, flatForm_congr h' h hpexists hqk⟩
  have hqk := flatForm_congr h h' hqexists hpk
  obtain ⟨flat, hmem, rfl, -⟩ := flatForm_eq_ok hpk
  obtain ⟨parent, hparent⟩ : ∃ parent, p.parent? = some parent :=
    ⟨_, h.ends.parent?_eq h.not_blank⟩
  refine ⟨p.inForm flat, parent / (bootConfigName : Pathname),
    start_locate_of_ok habsolute hpdir hpk,
    start_locate_of_ok h'.ends.isAbsolute_eq hqdir hqk, located_form hp h hmem, ?_⟩
  -- All three are in one directory and have one linked form.
  have hlinked : (p.inForm flat).inForm .elf = p.inForm .elf := h.inForm_inForm flat .elf
  have hsame : ∀ image ∈ [p, q, p.inForm flat],
      image.inForm .elf = p.inForm .elf ∧ image.parent? = some parent := by
    intro image himage
    simp only [List.mem_cons, List.not_mem_nil, or_false] at himage
    rcases himage with rfl | rfl | rfl
    . exact ⟨rfl, hparent⟩
    . exact ⟨h.inForm_congr h' .elf, by rw [h.parent?_congr h', hparent]⟩
    . exact ⟨hlinked, by rw [h.parent?_inForm, hparent]⟩
  intro image himage
  obtain ⟨hinForm, hdir⟩ := hsame image himage
  have heq := hinForm.trans hlinked.symm
  exact ⟨heq, obtain_congr heq hdir⟩

def oddBase : Bytes := utf8 "/sd//build/.ker..n" ++ [0xff] ++ utf8 "."

def oddBuild : FileSystem :=
  [(Location.ofPath ⟨oddBase ++ utf8 "elf"⟩, Node.file ⟨utf8 "linked", Mode.newFile, .at 1⟩),
    (Location.ofPath ⟨oddBase ++ utf8 "img"⟩, Node.file ⟨utf8 "older", Mode.newFile, .at 2⟩),
    (Location.ofPath ⟨oddBase ++ utf8 "bin"⟩, Node.file ⟨utf8 "flat", Mode.newFile, .at 3⟩)].foldl
    FileSystem.lay FileSystem.empty

set_option maxRecDepth 100000 in
theorem locate_interchanges_oddBuild :
    (locate ⟨oddBase ++ utf8 "elf"⟩).start { disk := oddBuild } =
        (locate ⟨oddBase ++ utf8 "img"⟩).start { disk := oddBuild } ∧
      ((locate ⟨oddBase ++ utf8 "elf"⟩).start { disk := oddBuild }).1.toOption =
        some ⟨oddBase ++ utf8 "bin"⟩ ∧
      (⟨oddBase ++ utf8 "bin"⟩ : Pathname).inForm .elf = ⟨oddBase ++ utf8 "elf"⟩ := by
  let elf : Pathname := ⟨oddBase ++ utf8 ImageForm.elf.extension⟩
  let img : Pathname := ⟨oddBase ++ utf8 ImageForm.img.extension⟩
  have helf : elf.bytes = oddBase ++ utf8 ImageForm.elf.extension := rfl
  have himg : img.bytes = oddBase ++ utf8 ImageForm.img.extension := rfl
  obtain ⟨k, config, hlocate, hlocate', hk, -⟩ :=
    locate_interchanges (w := { disk := oddBuild }) helf himg (by decide +kernel)
      (by decide +kernel) (by decide +kernel) (by decide +kernel) (by decide +kernel)
      (by decide +kernel) (by decide)
  have hbin : ((locate elf).start { disk := oddBuild }).1.toOption =
      some ⟨oddBase ++ utf8 "bin"⟩ := by decide +kernel
  rw [if_neg (by decide +kernel)] at hk
  rw [hlocate] at hbin
  obtain rfl : k = ⟨oddBase ++ utf8 "bin"⟩ := Option.some.inj hbin
  exact ⟨hlocate.trans hlocate'.symm, by decide +kernel, hk.2.2 rfl⟩

/-- What is located for two images with a dot before the extension is neither, nor linked to them. -/
theorem locate_dottedBuild_forgets :
    dottedBuild.isFile "/build/..elf" = true ∧ dottedBuild.isFile "/build/..bin" = true ∧
      ((locate "/build/..elf").start { disk := dottedBuild }).1.toOption = some "/build/.." ∧
      ((locate "/build/..bin").start { disk := dottedBuild }).1.toOption = some "/build/.." ∧
      ("/build/.." : Pathname).inForm .elf ≠ "/build/..elf" ∧
      ("/build/..bin" : Pathname).inForm .elf ≠ "/build/..elf" := by
  decide +kernel

end Image

end BootCard
