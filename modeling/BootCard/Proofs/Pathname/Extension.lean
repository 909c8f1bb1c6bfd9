import BootCard.Proofs.Pathname.Components

/-!
This module contains the last name of a path and its extension. A path that has been given another
extension has it, if its last component is a name at all.
-/

namespace BootCard

namespace Bytes

theorem joinWith_concat (sep : Bytes) (pieces : List Bytes) (last : Bytes) :
    ∃ front, joinWith sep (pieces ++ [last]) = front ++ last := by
  induction pieces with
  | nil => exact ⟨[], rfl⟩
  | cons piece pieces ih =>
    obtain ⟨front, hfront⟩ := ih
    refine ⟨piece ++ sep ++ front, ?_⟩
    rw [List.append_assoc, ← hfront]
    cases pieces <;> rfl

end Bytes

namespace Pathname

variable {path : Pathname} {name ext stem : Bytes}

theorem partsOf_getLast? {ps : List Bytes} (h : (partsOf ps).getLast? = some (.name name))
    (hlast : ps.getLast? ≠ some []) :
    ps.getLast? = some name ∧ isBlankPiece name = false ∧ name ≠ upPiece := by
  rcases List.eq_nil_or_concat ps with rfl | ⟨before, last, rfl⟩
  . simp at h
  rw [List.concat_eq_append] at h hlast ⊢
  have hne : last ≠ [] := by
    rintro rfl
    simp at hlast
  rw [partsOf_append, partsOf_cons hne, partsOf_nil, List.getLast?_concat, Option.some.injEq] at h
  obtain rfl := Component.ofPiece_eq_name h
  refine ⟨List.getLast?_concat, ?_, ?_⟩
  . unfold isBlankPiece
    rw [Bool.or_eq_false_iff, beq_eq_false_iff_ne, beq_eq_false_iff_ne]
    refine ⟨hne, ?_⟩
    rintro rfl
    simp [Component.ofPiece] at h
  . rintro rfl
    simp [Component.ofPiece] at h

theorem splitOn_getLast? (h : (components path.bytes).getLast? = some (.name name)) :
    (Bytes.splitOn Bytes.slash path.bytes).getLast? = some name ∧
      isBlankPiece name = false ∧ name ≠ upPiece := by
  rw [components_eq] at h
  have hopen : path.isClosed = false := by
    rw [Bool.eq_false_iff]
    intro hclosed
    simp [hclosed] at h
  rw [hopen] at h
  apply partsOf_getLast?
  . simpa [parts] using h
  . intro hlast
    have hne : path.parts ≠ [] := by
      intro hnil
      simp [hnil] at h
    rw [Bool.eq_false_iff, ne_eq, isClosed_iff] at hopen
    exact hopen ⟨hlast, hne⟩

theorem pieces_getLast? (h : (components path.bytes).getLast? = some (.name name)) :
    path.pieces.getLast? = some name := by
  obtain ⟨hlast, hblank, -⟩ := splitOn_getLast? h
  have hcons (piece rest : Bytes) : (piece :: Bytes.splitOn Bytes.slash rest).getLast? =
      (Bytes.splitOn Bytes.slash rest).getLast? := by
    rw [List.getLast?_cons, List.getLast?_eq_some_getLast (Bytes.splitOn_ne_nil _ rest)]
    rfl
  rcases path.head_cases with ⟨rest, hb, -, hp⟩ | ⟨hb, -, -⟩ | ⟨rest, hb, -, hp⟩ | ⟨-, -, hp⟩
  . rw [hp, ← hcons [] rest, ← hlast, hb]
    rfl
  . obtain rfl : [Bytes.dot] = name := by simpa [hb, Bytes.splitOn] using hlast
    simp [isBlankPiece] at hblank
  . have hsplit : Bytes.splitOn Bytes.slash path.bytes =
        [Bytes.dot] :: Bytes.splitOn Bytes.slash rest := by
      rw [hb]
      exact Bytes.splitOn_append_sep [Bytes.dot] rest
    rw [hp, hcons, ← hcons [Bytes.dot] rest, ← hsplit, hlast]
  . rw [hp, hlast]

theorem exists_lastNamed (h : (components path.bytes).getLast? = some (.name name)) :
    ∃ before, path.lastNamed = name :: before ∧ path.fileName? = some name := by
  obtain ⟨-, hblank, hup⟩ := splitOn_getLast? h
  obtain ⟨before, hpieces⟩ := List.getLast?_eq_some_iff.mp (pieces_getLast? h)
  have hnamed : path.lastNamed = name :: before.reverse := by
    unfold lastNamed
    rw [hpieces, List.reverse_append, List.reverse_singleton, List.singleton_append,
      List.dropWhile_cons_of_neg (by simp [hblank])]
  refine ⟨before.reverse, hnamed, ?_⟩
  unfold fileName?
  rw [hnamed]
  exact if_neg hup

theorem cutName_append (hstem : stem ≠ []) (hext : Bytes.dot ∉ ext) :
    cutName (stem ++ Bytes.dot :: ext) = (stem, some ext) := by
  have hne : ∀ b ∈ ext.reverse, (b != Bytes.dot) = true := by
    intro b hb
    rw [bne_iff_ne]
    rintro rfl
    exact hext (List.mem_reverse.mp hb)
  have hrev : (stem ++ Bytes.dot :: ext).reverse = ext.reverse ++ Bytes.dot :: stem.reverse := by
    simp
  unfold cutName Bytes.cutAtLastDot
  rw [hrev, List.takeWhile_append_of_pos hne, List.dropWhile_append_of_pos hne]
  simp [hstem]

theorem cutName_fst {name : Bytes} (hne : name ≠ []) :
    (cutName name).1 ≠ [] ∧ ∀ b ∈ (cutName name).1, b ∈ name := by
  unfold cutName
  split
  next => exact ⟨hne, fun b hb => hb⟩
  next stem rest hcut =>
    split
    next => exact ⟨hne, fun b hb => hb⟩
    next hstem =>
      refine ⟨hstem, fun b hb => ?_⟩
      unfold Bytes.cutAtLastDot at hcut
      split at hcut
      next => simp at hcut
      next before hdrop =>
        obtain ⟨rfl, -⟩ : before.reverse = stem ∧ _ := by simpa using hcut
        have hsuffix := List.dropWhile_suffix (l := name.reverse) (· != Bytes.dot)
        rw [hdrop] at hsuffix
        simpa using hsuffix.subset (List.mem_cons_of_mem _ (List.mem_reverse.mp hb))

theorem extension?_replaceAfterStem (hslash : Bytes.slash ∉ ext) (hdot : Bytes.dot ∉ ext)
    (h : (components (path.replaceAfterStem ext).bytes).getLast? = some (.name name)) :
    (path.replaceAfterStem ext).extension? = some ext := by
  obtain ⟨_, hnamed, hfile⟩ := exists_lastNamed h
  obtain ⟨hlast, -, hup⟩ := splitOn_getLast? h
  unfold extension?
  rw [hfile]
  show (cutName name).2 = some ext
  unfold replaceAfterStem at hnamed hlast
  split at hnamed
  next hnil => simp [hnil] at hnamed
  next n before hn =>
    split at hnamed
    next heq =>
      obtain ⟨rfl, -⟩ : n = name ∧ before = _ := by simpa [hn] using hnamed
      exact absurd heq hup
    next hne =>
      rw [hn] at hlast
      dsimp only at hlast
      rw [if_neg hne] at hlast
      obtain ⟨hblank, after, hpieces⟩ := pieces_eq_of_lastNamed hn
      have hnonempty : n ≠ [] := by
        rintro rfl
        simp [isBlankPiece] at hblank
      obtain ⟨hstem, hsub⟩ := cutName_fst hnonempty
      have hclean : Bytes.slash ∉ (cutName n).1 ++ Bytes.dot :: ext := by
        have hmem : n ∈ Bytes.splitOn Bytes.slash (path.bytes.drop path.head.length) := by
          show n ∈ path.pieces
          simp [hpieces]
        have hn := Bytes.not_mem_of_mem_splitOn hmem
        simpa [hslash] using fun hmem => hn (hsub _ hmem)
      obtain ⟨front, hfront⟩ := Bytes.joinWith_concat [Bytes.slash] before.reverse (cutName n).1
      rw [hfront, ← List.append_assoc, List.append_assoc] at hlast
      -- The new extension stands behind a stem, whatever stands before that in the same piece.
      have hsplit := (List.dropLast_concat_getLast
        (Bytes.splitOn_ne_nil Bytes.slash (path.head ++ front))).symm
      rw [Bytes.splitOn_append_of_not_mem hsplit hclean, List.getLast?_concat,
        Option.some.injEq] at hlast
      rw [← hlast, ← List.append_assoc, cutName_append (by simp [hstem]) hdot]

theorem extension?_withExtension (hslash : Bytes.slash ∉ ext) (hdot : Bytes.dot ∉ ext)
    (h : (components (path.withExtension ext).bytes).getLast? = some (.name name)) :
    (path.withExtension ext).extension? = some ext :=
  extension?_replaceAfterStem hslash hdot h

end Pathname

end BootCard
