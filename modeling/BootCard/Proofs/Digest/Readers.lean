import BootCard.Digest.Reading
import BootCard.Proofs.Digest.Blocks

/-!
This module contains what the loop that reads a file takes from its buffer. A reader may cut a text
into pieces of any sizes. The hasher is given just these pieces, one after another, and nothing that
an earlier piece has left behind in the buffer.
-/

namespace BootCard

namespace Digest

theorem take_fill (buffer piece : Bytes) : (fill buffer piece).take piece.length = piece :=
  List.take_left

theorem length_fill {buffer piece : Bytes} (h : piece.length ≤ buffer.length) :
    (fill buffer piece).length = buffer.length := by
  unfold fill
  rw [List.length_append, List.length_drop]
  omega

/-- What the hasher is given of the buffer, read by read, up to the first read that is empty. -/
def handed (buffer : Bytes) : List Bytes → List Bytes
  | [] => []
  | piece :: reads =>
    if piece = [] then
      []
    else
      let buffer := fill buffer piece
      buffer.take piece.length :: handed buffer reads

theorem absorbReads_eq_foldl (h : Md5.Hasher) (buffer : Bytes) (reads : List Bytes) :
    absorbReads h buffer reads = (handed buffer reads).foldl Md5.Hasher.absorb h := by
  induction reads generalizing h buffer with
  | nil => rfl
  | cons piece reads ih =>
    unfold absorbReads handed
    split
    . rfl
    . rw [List.foldl_cons]
      exact ih _ _

/--
Whether a text is cut into pieces that a reader may give one after another: none of them is empty,
and each of them fits into the buffer.
-/
inductive IsCut : Bytes → List Bytes → Prop where
  | nil : IsCut [] []
  | cons {piece left : Bytes} {pieces : List Bytes} : piece ≠ [] → piece.length ≤ bufferSize →
    IsCut left pieces → IsCut (piece ++ left) (piece :: pieces)

namespace IsCut

variable {data buffer : Bytes} {pieces : List Bytes}

theorem flatten_eq (h : IsCut data pieces) : pieces.flatten = data := by
  induction h with
  | nil => rfl
  | cons _ _ _ ih => rw [List.flatten_cons, ih]

theorem ne_nil (h : IsCut data pieces) : ∀ piece ∈ pieces, piece ≠ [] := by
  induction h with
  | nil => simp
  | cons hne _ _ ih => exact List.forall_mem_cons.mpr ⟨hne, ih⟩

theorem fits (h : IsCut data pieces) : ∀ piece ∈ pieces, piece.length ≤ bufferSize := by
  induction h with
  | nil => simp
  | cons _ hfits _ ih => exact List.forall_mem_cons.mpr ⟨hfits, ih⟩

theorem length_le (h : IsCut data pieces) : pieces.length ≤ data.length := by
  induction h with
  | nil => simp
  | cons hne _ _ ih =>
    have hpos := List.length_pos_iff.mpr hne
    rw [List.length_cons, List.length_append]
    omega

theorem length_foldl_fill (h : IsCut data pieces) (hbuffer : buffer.length = bufferSize) (n : Nat) :
    ((pieces.take n).foldl fill buffer).length = bufferSize := by
  induction h generalizing buffer n with
  | nil => simpa using hbuffer
  | cons _ hfits _ ih =>
    cases n with
    | zero => exact hbuffer
    | succ n =>
      rw [List.take_succ_cons, List.foldl_cons]
      apply ih
      rw [length_fill (hbuffer ▸ hfits), hbuffer]

theorem handed_eq (h : IsCut data pieces) (buffer : Bytes) (rest : List Bytes) :
    handed buffer (pieces ++ [] :: rest) = pieces := by
  induction h generalizing buffer with
  | nil => simp [handed]
  | cons hne _ _ ih =>
    rw [List.cons_append, handed, if_neg hne]
    dsimp only
    rw [take_fill, ih]

end IsCut

theorem isCut_iff {data : Bytes} {pieces : List Bytes} : IsCut data pieces ↔
    pieces.flatten = data ∧ ∀ piece ∈ pieces, piece ≠ [] ∧ piece.length ≤ bufferSize := by
  constructor
  . intro h
    exact ⟨h.flatten_eq, fun piece hmem => ⟨h.ne_nil piece hmem, h.fits piece hmem⟩⟩
  . rintro ⟨rfl, hpieces⟩
    induction pieces with
    | nil => exact .nil
    | cons piece pieces ih =>
      rw [List.forall_mem_cons] at hpieces
      exact .cons hpieces.1.1 hpieces.1.2 (ih hpieces.2)

def newBuffer : Bytes := List.replicate bufferSize 0

/--
Whether the loop that reads a text in some pieces goes through all of it. It is over after the empty
read, whatever could be read after that. By then it has given each piece to the hasher once, in
order and unchanged, and there has been room for each in the buffer.
-/
structure GoesThrough (data : Bytes) (pieces : List Bytes) : Prop where
  flatten_eq : pieces.flatten = data
  length_le : pieces.length ≤ data.length
  room : ∀ n, ((pieces.take n).foldl fill newBuffer).length = bufferSize
  handed_eq : ∀ rest, handed newBuffer (pieces ++ [] :: rest) = pieces
  hasher_eq : ∀ rest, absorbReads {} newBuffer (pieces ++ [] :: rest) =
    pieces.foldl Md5.Hasher.absorb {}
  digest_eq : ∀ rest, ofReads (pieces ++ [] :: rest) = ofBlocks data

theorem IsCut.goesThrough {data : Bytes} {pieces : List Bytes} (h : IsCut data pieces) :
    GoesThrough data pieces where
  flatten_eq := h.flatten_eq
  length_le := h.length_le
  room := h.length_foldl_fill List.length_replicate
  handed_eq := h.handed_eq newBuffer
  hasher_eq rest := by rw [absorbReads_eq_foldl, h.handed_eq]
  digest_eq rest := by rw [ofReads_eq rest h.ne_nil, h.flatten_eq, of_eq_ofBlocks]

/--
A reader of files, which gives a number of bytes at each read, or as many as are left if there are
fewer. It gives at least one byte while there are any, and never more than the buffer holds.
-/
structure Reader where
  size : (asked : Nat) → Nat
  size_pos : ∀ asked, 0 < size asked
  size_le : ∀ asked, size asked ≤ bufferSize

namespace Reader

def piecesFrom (r : Reader) (asked : Nat) (left : Bytes) : List Bytes :=
  if _h : left = [] then
    []
  else
    left.take (r.size asked) :: r.piecesFrom (asked + 1) (left.drop (r.size asked))
termination_by left.length
decreasing_by
  have := List.length_pos_iff.mpr _h
  have := r.size_pos asked
  simp only [List.length_drop]
  omega

def pieces (r : Reader) (data : Bytes) : List Bytes := r.piecesFrom 0 data

def reads (r : Reader) (data : Bytes) : List Bytes := r.pieces data ++ [[]]

theorem isCut_piecesFrom (r : Reader) (asked : Nat) (left : Bytes) :
    IsCut left (r.piecesFrom asked left) := by
  fun_induction r.piecesFrom asked left with
  | case1 asked => exact .nil
  | case2 asked left hne ih =>
    have hpiece : left.take (r.size asked) ≠ [] := by
      have hpos := r.size_pos asked
      simp only [ne_eq, List.take_eq_nil_iff, hne, or_false]
      omega
    have hfits : (left.take (r.size asked)).length ≤ bufferSize :=
      Nat.le_trans (List.length_take_le _ _) (r.size_le asked)
    have hcut := IsCut.cons hpiece hfits ih
    rwa [List.take_append_drop] at hcut

theorem isCut_pieces (r : Reader) (data : Bytes) : IsCut data (r.pieces data) :=
  r.isCut_piecesFrom 0 data

theorem piecesFrom_eq {r : Reader} {asked : Nat} {data : Bytes} {cut : List Bytes}
    (h : IsCut data cut)
    (hsize : ∀ n piece, cut[n]? = some piece → r.size (asked + n) = piece.length) :
    r.piecesFrom asked data = cut := by
  -- What comes after a piece is given from the next read on, so the number of reads is not fixed.
  induction h generalizing asked with
  | nil =>
    unfold piecesFrom
    rw [dif_pos rfl]
  | @cons piece left cut hne _ _ ih =>
    have hfirst : r.size asked = piece.length := hsize 0 piece rfl
    have hleft : piece ++ left ≠ [] := by simp [hne]
    have hrest : r.piecesFrom (asked + 1) left = cut := by
      apply ih
      intro n next hnext
      rw [Nat.add_assoc, Nat.add_comm 1]
      exact hsize (n + 1) next hnext
    unfold piecesFrom
    rw [dif_neg hleft, hfirst, List.take_left, List.drop_left, hrest]

def giving {data : Bytes} {cut : List Bytes} (h : IsCut data cut) : Reader where
  size n := (cut[n]?.map List.length).getD 1
  size_pos n := by
    cases hn : cut[n]? with
    | none => simp
    | some piece => exact List.length_pos_iff.mpr (h.ne_nil piece (List.mem_of_getElem? hn))
  size_le n := by
    cases hn : cut[n]? with
    | none => simp [bufferSize]
    | some piece => exact h.fits piece (List.mem_of_getElem? hn)

theorem exists_pieces_eq_iff {data : Bytes} {cut : List Bytes} :
    (∃ r : Reader, r.pieces data = cut) ↔ IsCut data cut := by
  constructor
  . rintro ⟨r, rfl⟩
    exact r.isCut_pieces data
  . intro h
    refine ⟨giving h, piecesFrom_eq h fun n piece hn => ?_⟩
    show (cut[0 + n]?.map List.length).getD 1 = _
    rw [Nat.zero_add, hn]
    rfl

end Reader

end Digest

end BootCard
