import BootCard.Proofs.Pathname.Extension

/-!
This module contains what becomes of an absolute path when its extension is replaced. The bytes
before the extension stay, and so does the directory, except where a dot is all that stands before
the dot of the extension, as in `..bin`: without the extension that is `..`, which is no name, and no
other extension is put after it.
-/

namespace BootCard

namespace Pathname

variable {path path' : Pathname} {front last stem ext ext' name : Bytes} {before : List Bytes}

theorem eq_of_bytes (h : path.bytes = path'.bytes) : path = path' := by
  cases path
  cases path'
  exact congrArg mk h

def trunk (path : Pathname) : Pathname :=
  ⟨path.bytes.take (path.bytes.length - (path.extension?.getD []).length)⟩

/-- The path with other bytes in place of those of its extension. -/
def sibling (path : Pathname) (ext : Bytes) : Pathname := path.trunk.append ext

/-- Whether a dot is all that stands before the extension of a path and its dot. -/
def HasDotStem (path : Pathname) : Prop :=
  path.fileName?.map (fun name => (cutName name).1) = some [Bytes.dot]

instance : Decidable path.HasDotStem := inferInstanceAs (Decidable (_ = _))

theorem isAbsolute_join {q : Pathname} (h : path.isAbsolute = true) : (path / q).isAbsolute = true := by
  show (path.join q).isAbsolute = true
  unfold join
  split
  next hq => exact hq
  next =>
  obtain ⟨rest, hbytes⟩ : ∃ rest, path.bytes = Bytes.slash :: rest :=
    List.head?_eq_some_iff.mp (by simpa [isAbsolute] using h)
  split
  next hlast => simp [hbytes] at hlast
  next => split <;> simp [isAbsolute, hbytes]

structure EndsWith (path : Pathname) (front : Bytes) (before : List Bytes) (last : Bytes) :
    Prop where
  bytes : path.bytes = Bytes.slash :: (front ++ last)
  split : Bytes.splitOn Bytes.slash front = before ++ [[]]
  clean : Bytes.slash ∉ last

namespace EndsWith

theorem head_eq (h : path.EndsWith front before last) : path.head = [Bytes.slash] := by
  unfold head
  rw [h.bytes]
  exact if_pos rfl

theorem pieces_eq (h : path.EndsWith front before last) : path.pieces = before ++ [last] := by
  unfold pieces
  rw [h.head_eq, h.bytes]
  exact Bytes.splitOn_append_of_not_mem h.split h.clean

theorem joinWith_eq (h : path.EndsWith front before last) (hclean : Bytes.slash ∉ name) :
    Bytes.joinWith [Bytes.slash] (before ++ [name]) = front ++ name := by
  have hsplit := Bytes.splitOn_append_of_not_mem h.split hclean
  rw [List.nil_append] at hsplit
  rw [← hsplit, Bytes.joinWith_splitOn]

theorem lastNamed_eq (h : path.EndsWith front before last) (hblank : isBlankPiece last = false) :
    path.lastNamed = last :: before.reverse := by
  unfold lastNamed
  rw [h.pieces_eq, List.reverse_append, List.reverse_singleton, List.singleton_append,
    List.dropWhile_cons_of_neg (by simp [hblank])]

theorem fileName?_eq (h : path.EndsWith front before last) (hblank : isBlankPiece last = false) :
    path.fileName? = if last = upPiece then none else some last := by
  unfold fileName?
  rw [h.lastNamed_eq hblank]

theorem isAbsolute_eq (h : path.EndsWith front before last) : path.isAbsolute = true := by
  unfold isAbsolute
  rw [h.bytes]
  rfl

theorem components_eq (h : path.EndsWith front before last) (hne : last ≠ []) :
    components path.bytes = partsOf before ++ [Component.ofPiece last] := by
  have hsplit : Bytes.splitOn Bytes.slash path.bytes = [] :: before ++ [last] := by
    have hafter := Bytes.splitOn_append_of_not_mem h.split h.clean
    rw [h.bytes]
    show [] :: Bytes.splitOn Bytes.slash (front ++ last) = _
    rw [hafter]
    rfl
  have hparts : path.parts = partsOf before ++ [Component.ofPiece last] := by
    unfold parts
    rw [hsplit, List.cons_append, partsOf_cons_nil, partsOf_append, partsOf_cons hne]
    rfl
  have hopen : path.isClosed = false := by
    rw [Bool.eq_false_iff, ne_eq, isClosed_iff, hsplit, List.getLast?_concat]
    simp [hne]
  rw [Pathname.components_eq, hopen, hparts]
  simp

theorem parent?_eq (h : path.EndsWith front before last) (hblank : isBlankPiece last = false) :
    path.parent? = some ⟨Bytes.slash ::
      Bytes.joinWith [Bytes.slash] (before.reverse.dropWhile isBlankPiece).reverse⟩ := by
  unfold parent?
  rw [h.lastNamed_eq hblank, h.head_eq]
  rfl

theorem replaceAfterStem_eq (h : path.EndsWith front before last)
    (hblank : isBlankPiece last = false) : path.replaceAfterStem ext =
      if last = upPiece then path
      else ⟨Bytes.slash :: (front ++ (cutName last).1) ++ Bytes.dot :: ext⟩ := by
  have hne : last ≠ [] := by
    rintro rfl
    simp [isBlankPiece] at hblank
  have hclean : Bytes.slash ∉ (cutName last).1 := fun hmem => h.clean ((cutName_fst hne).2 _ hmem)
  unfold replaceAfterStem
  rw [h.lastNamed_eq hblank, h.head_eq]
  dsimp only
  rw [List.reverse_reverse, h.joinWith_eq hclean]
  rfl

end EndsWith

theorem exists_endsWith (habsolute : path.isAbsolute = true)
    (h : (components path.bytes).getLast? = some (.name name)) :
    ∃ front before, path.EndsWith front before name := by
  obtain ⟨rest, hbytes⟩ : ∃ rest, path.bytes = Bytes.slash :: rest :=
    List.head?_eq_some_iff.mp (by simpa [isAbsolute] using habsolute)
  have hhead : path.head = [Bytes.slash] := by
    unfold head
    rw [hbytes]
    exact if_pos rfl
  have hlast := pieces_getLast? h
  unfold pieces at hlast
  rw [hhead, hbytes] at hlast
  obtain ⟨before, hsplit⟩ := List.getLast?_eq_some_iff.mp hlast
  replace hsplit : Bytes.splitOn Bytes.slash rest = before ++ [name] := hsplit
  have hclean : Bytes.slash ∉ name := Bytes.not_mem_of_mem_splitOn (by rw [hsplit]; simp)
  obtain ⟨front, hfront⟩ := Bytes.joinWith_concat [Bytes.slash] before name
  have hrest : rest = front ++ name := by
    rw [← hfront, ← hsplit, Bytes.joinWith_splitOn]
  refine ⟨front, before, by rw [hbytes, hrest], ?_, hclean⟩
  -- What stands before the last piece ends with a slash, or the piece would be longer.
  have hdrop := List.dropLast_concat_getLast (Bytes.splitOn_ne_nil Bytes.slash front)
  have hlonger := Bytes.splitOn_append_of_not_mem hdrop.symm hclean
  rw [← hrest, hsplit] at hlonger
  obtain ⟨hbefore, hpiece⟩ := List.append_inj' hlonger rfl
  have hempty : (Bytes.splitOn Bytes.slash front).getLast (Bytes.splitOn_ne_nil _ _) = [] := by
    simpa using hpiece
  rw [← hdrop, ← hbefore, hempty]

theorem cutName_eq_some (h : cutName name = (stem, some ext)) :
    name = stem ++ Bytes.dot :: ext ∧ stem ≠ [] ∧ Bytes.dot ∉ ext := by
  unfold cutName at h
  split at h
  next => simp at h
  next stem' ext' hcut =>
  split at h
  next => simp at h
  next hne =>
  obtain ⟨rfl, rfl⟩ : stem' = stem ∧ ext' = ext := by simpa using h
  unfold Bytes.cutAtLastDot at hcut
  split at hcut
  next => simp at hcut
  next b before hdrop =>
  obtain ⟨rfl, rfl⟩ : before.reverse = stem' ∧ _ = ext' := by simpa using hcut
  have hb : b = Bytes.dot := by
    have := List.head?_dropWhile_not (· != Bytes.dot) name.reverse
    simpa [hdrop] using this
  refine ⟨?_, hne, ?_⟩
  . have hsplit := List.takeWhile_append_dropWhile (p := (· != Bytes.dot)) (l := name.reverse)
    rw [hdrop, hb] at hsplit
    simpa using (congrArg List.reverse hsplit).symm
  . intro hmem
    have := List.all_eq_true.mp List.all_takeWhile _ (List.mem_reverse.mp hmem)
    simp at this

/-- Whether an absolute path ends with a name that has an extension. -/
structure Extended (path : Pathname) (front : Bytes) (before : List Bytes) (stem ext : Bytes) :
    Prop where
  ends : path.EndsWith front before (stem ++ Bytes.dot :: ext)
  stem_ne : stem ≠ []
  no_dot : Bytes.dot ∉ ext
  ext_ne : ext ≠ []

theorem exists_extended (habsolute : path.isAbsolute = true)
    (h : (components path.bytes).getLast? = some (.name name)) (hext : path.extension? = some ext)
    (hne : ext ≠ []) : ∃ front before stem, path.Extended front before stem ext := by
  obtain ⟨front, before, hends⟩ := exists_endsWith habsolute h
  obtain ⟨_, -, hfile⟩ := exists_lastNamed h
  unfold extension? at hext
  rw [hfile, Option.bind_some] at hext
  have hcut : cutName name = ((cutName name).1, some ext) := Prod.ext rfl hext
  generalize (cutName name).1 = stem at hcut
  obtain ⟨rfl, hstem, hdot⟩ := cutName_eq_some hcut
  exact ⟨front, before, stem, hends, hstem, hdot, hne⟩

namespace Extended

variable (h : path.Extended front before stem ext)
include h

theorem clean : Bytes.slash ∉ stem ∧ Bytes.slash ∉ ext := by
  have := h.ends.clean
  simpa [not_or] using this

theorem not_blank : isBlankPiece (stem ++ Bytes.dot :: ext) = false := by
  unfold isBlankPiece
  have hstem := List.length_pos_iff.mpr h.stem_ne
  rw [Bool.or_eq_false_iff, beq_eq_false_iff_ne, beq_eq_false_iff_ne]
  constructor
  . simp
  . intro heq
    have := congrArg List.length heq
    simp at this
    omega

theorem ne_up : stem ++ Bytes.dot :: ext ≠ upPiece := by
  intro heq
  have hlength := congrArg List.length heq
  have hstem := List.length_pos_iff.mpr h.stem_ne
  have hext := List.length_pos_iff.mpr h.ext_ne
  simp at hlength
  omega

theorem fileName?_eq : path.fileName? = some (stem ++ Bytes.dot :: ext) := by
  rw [h.ends.fileName?_eq h.not_blank, if_neg h.ne_up]

theorem extension?_eq : path.extension? = some ext := by
  unfold extension?
  rw [h.fileName?_eq, Option.bind_some, cutName_append h.stem_ne h.no_dot]

theorem hasDotStem_iff : path.HasDotStem ↔ stem = [Bytes.dot] := by
  unfold HasDotStem
  rw [h.fileName?_eq, Option.map_some, cutName_append h.stem_ne h.no_dot, Option.some.injEq]

theorem trunk_bytes : path.trunk.bytes = Bytes.slash :: (front ++ (stem ++ [Bytes.dot])) := by
  unfold trunk
  rw [h.extension?_eq, Option.getD_some, h.ends.bytes]
  have hassoc : Bytes.slash :: (front ++ (stem ++ Bytes.dot :: ext)) =
      Bytes.slash :: (front ++ (stem ++ [Bytes.dot])) ++ ext := by
    simp
  rw [hassoc, List.length_append, Nat.add_sub_cancel, List.take_left]

theorem trunk_not_blank : isBlankPiece (stem ++ [Bytes.dot]) = false := by
  have hstem := h.stem_ne
  simp [isBlankPiece, hstem]

theorem trunk_endsWith : path.trunk.EndsWith front before (stem ++ [Bytes.dot]) where
  bytes := h.trunk_bytes
  split := h.ends.split
  clean := by
    have := h.clean.1
    simp [this]

theorem trunk_extension? (hstem : stem = [Bytes.dot]) : path.trunk.extension? = none := by
  unfold extension?
  rw [h.trunk_endsWith.fileName?_eq h.trunk_not_blank, hstem]
  rfl

theorem components_eq :
    components path.bytes = partsOf before ++ [.name (stem ++ Bytes.dot :: ext)] := by
  have hpiece : Component.ofPiece (stem ++ Bytes.dot :: ext) = .name (stem ++ Bytes.dot :: ext) := by
    have hblank := h.not_blank
    unfold isBlankPiece at hblank
    rw [Bool.or_eq_false_iff, beq_eq_false_iff_ne, beq_eq_false_iff_ne] at hblank
    unfold Component.ofPiece
    rw [if_neg hblank.2, if_neg h.ne_up]
  rw [h.ends.components_eq (by simp), hpiece]

theorem trunk_parts (hstem : stem = [Bytes.dot]) : path.trunk.parts = partsOf before ++ [.up] := by
  have hcomponents := h.trunk_endsWith.components_eq (by simp)
  have hopen : path.trunk.isClosed = false := by
    rw [Bool.eq_false_iff]
    intro hclosed
    have hlast := congrArg List.getLast? hcomponents
    rw [Pathname.components_eq, if_pos hclosed] at hlast
    simp [hstem, Component.ofPiece] at hlast
  rw [Pathname.components_eq, hopen] at hcomponents
  simpa [hstem, Component.ofPiece] using hcomponents

theorem bytes_eq_trunk : path.bytes = path.trunk.bytes ++ ext := by
  rw [h.trunk_bytes, h.ends.bytes]
  simp

theorem trunk_eq_of_append {q : Pathname} (heq : path = q.append ext) : path.trunk = q := by
  have hbytes : path.trunk.bytes ++ ext = q.bytes ++ ext := by
    rw [← h.bytes_eq_trunk, heq]
    rfl
  exact eq_of_bytes (List.append_cancel_right hbytes)

theorem sibling_self : path.sibling ext = path := by
  unfold sibling append
  rw [← h.bytes_eq_trunk]

theorem sibling_extended (hslash : Bytes.slash ∉ ext') (hdot : Bytes.dot ∉ ext') (hne : ext' ≠ []) :
    (path.sibling ext').Extended front before stem ext' where
  ends := by
    constructor
    . unfold sibling append
      rw [h.trunk_bytes]
      simp
    . exact h.ends.split
    . have := h.clean.1
      simp [this, hslash]
  stem_ne := h.stem_ne
  no_dot := hdot
  ext_ne := hne

theorem withExtension_eq (ext' : Bytes) :
    path.withExtension ext' = if stem = [Bytes.dot] then path.trunk else path.sibling ext' := by
  show path.trunk.replaceAfterStem ext' = _
  rw [h.trunk_endsWith.replaceAfterStem_eq h.trunk_not_blank]
  by_cases hstem : stem = [Bytes.dot]
  . rw [if_pos hstem, if_pos (by rw [hstem]; rfl)]
  . have hup : stem ++ [Bytes.dot] ≠ upPiece := by
      intro heq
      exact hstem (List.append_inj' heq rfl).1
    rw [if_neg hstem, if_neg hup, cutName_append h.stem_ne (by simp)]
    unfold sibling append
    rw [h.trunk_bytes]
    simp

theorem trunk_congr {q : Pathname} (hq : q.Extended front before stem ext') :
    q.trunk = path.trunk := by
  apply eq_of_bytes
  rw [h.trunk_bytes, hq.trunk_bytes]

theorem parent?_congr {q : Pathname} (hq : q.Extended front before stem ext') :
    q.parent? = path.parent? := by
  rw [h.ends.parent?_eq h.not_blank, hq.ends.parent?_eq hq.not_blank]

end Extended

end Pathname

end BootCard
