import BootCard.Digest.Md5

/-!
The digest of a file that is read piece by piece into a buffer. However a text is cut into pieces,
the digest is that of the text (`ofReads_eq`).
-/

namespace BootCard

namespace Digest

def bufferSize : Nat := 64 * 1024

/-- The buffer after a read, which leaves what it does not overwrite. -/
def fill (buffer piece : Bytes) : Bytes := piece ++ buffer.drop piece.length

/-- Takes the pieces that are read, up to the first empty one, which marks the end of the file. -/
def absorbReads (h : Md5.Hasher) (buffer : Bytes) : List Bytes → Md5.Hasher
  | [] => h
  | piece :: reads =>
    if piece = [] then
      h
    else
      let buffer := fill buffer piece
      absorbReads (h.absorb (buffer.take piece.length)) buffer reads

def ofReads (reads : List Bytes) : Digest :=
  ofHasher (absorbReads {} (List.replicate bufferSize 0) reads)

def readsOf (data : Bytes) : List Bytes :=
  if _h : data = [] then
    [[]]
  else
    data.take bufferSize :: readsOf (data.drop bufferSize)
termination_by data.length
decreasing_by
  have := List.length_pos_iff.mpr _h
  simp only [List.length_drop, bufferSize]
  omega

theorem absorbReads_append_nil (h : Md5.Hasher) (buffer : Bytes) {pieces : List Bytes}
    (rest : List Bytes) (hp : ∀ piece ∈ pieces, piece ≠ []) :
    absorbReads h buffer (pieces ++ [] :: rest) = h.absorb pieces.flatten := by
  induction pieces generalizing h buffer with
  | nil => simp [absorbReads]
  | cons piece pieces ih =>
    have hne : piece ≠ [] := hp piece (by simp)
    simp only [List.cons_append, absorbReads, hne, if_false, fill, List.take_left,
      List.flatten_cons, Md5.Hasher.absorb_append]
    exact ih _ _ fun p hm => hp p (by simp [hm])

theorem ofReads_eq {pieces : List Bytes} (rest : List Bytes)
    (hp : ∀ piece ∈ pieces, piece ≠ []) : ofReads (pieces ++ [] :: rest) = of pieces.flatten := by
  rw [ofReads, absorbReads_append_nil _ _ _ hp, of]

theorem readsOf_eq (data : Bytes) :
    ∃ pieces, readsOf data = pieces ++ [[]] ∧ (∀ piece ∈ pieces, piece ≠ []) ∧
      pieces.flatten = data := by
  fun_induction readsOf data with
  | case1 => exact ⟨[], by simp⟩
  | case2 data hne ih =>
    obtain ⟨pieces, heq, hp, hflat⟩ := ih
    refine ⟨data.take bufferSize :: pieces, by simp [heq], ?_, by simp [hflat]⟩
    intro piece hm
    rcases List.mem_cons.mp hm with rfl | hm
    · cases data with
      | nil => exact absurd rfl hne
      | cons b rest => simp [bufferSize]
    · exact hp piece hm

end Digest

end BootCard
