import BootCard.Digest.Md5
import Mathlib.Data.List.Basic

/-!
This module contains the MD5 digest of a text that is there as a whole: the text is padded, cut into
blocks, and the blocks are mixed in one after another. A hasher that is fed byte by byte comes to the
same digest.
-/

namespace BootCard

namespace Md5

def blocks (data : Bytes) : List Bytes :=
  (List.range (data.length / 64)).map fun i => (data.drop (64 * i)).take 64

def residue (data : Bytes) : Bytes := data.drop (64 * (data.length / 64))

/--
A text with its padding: a one bit, the zero bits that are missing from the last block, and the
number of bits of the text in eight bytes.
-/
def padded (data : Bytes) : Bytes :=
  let zeros := (64 + 55 - data.length % 64) % 64
  data ++ 0x80 :: (List.replicate zeros 0 ++ littleEndian 8 (8 * data.length))

variable {data xs ys : Bytes}

theorem length_residue (data : Bytes) : (residue data).length = data.length % 64 := by
  unfold residue
  rw [List.length_drop]
  omega

theorem map_blocks_append (n : Nat) (h : 64 * n ≤ xs.length) :
    ((List.range n).map fun i => ((xs ++ ys).drop (64 * i)).take 64) =
      (List.range n).map fun i => (xs.drop (64 * i)).take 64 := by
  apply List.map_congr_left
  intro i hi
  have hlt : i < n := List.mem_range.mp hi
  rw [List.drop_append_of_le_length (by omega), List.take_append_of_le_length]
  rw [List.length_drop]
  omega

theorem blocks_append_of_lt (h : (residue xs).length + ys.length < 64) :
    blocks (xs ++ ys) = blocks xs ∧ residue (xs ++ ys) = residue xs ++ ys := by
  rw [length_residue] at h
  have hcount : (xs ++ ys).length / 64 = xs.length / 64 := by
    rw [List.length_append]
    omega
  unfold blocks residue
  rw [hcount]
  exact ⟨map_blocks_append _ (by omega), List.drop_append_of_le_length (by omega)⟩

theorem blocks_append_of_eq (h : (residue xs).length + ys.length = 64) :
    blocks (xs ++ ys) = blocks xs ++ [residue xs ++ ys] ∧ residue (xs ++ ys) = [] := by
  have hfull : (residue xs ++ ys).length = 64 := by rw [List.length_append, h]
  rw [length_residue] at h
  have hcount : (xs ++ ys).length / 64 = xs.length / 64 + 1 := by
    rw [List.length_append]
    omega
  constructor
  . unfold blocks
    rw [hcount, List.range_succ, List.map_append, map_blocks_append _ (by omega), List.map_singleton,
      List.drop_append_of_le_length (by omega)]
    rw [← residue, List.take_of_length_le (by omega)]
  . rw [← List.length_eq_zero_iff, length_residue, List.length_append]
    omega

namespace Hasher

def having (data : Bytes) : Hasher where
  chain := (blocks data).foldl Chain.mix Chain.initial
  length := data.length
  pending := (residue data).reverse
  room := 64 - (residue data).length

theorem feed_having (data : Bytes) (b : UInt8) : (having data).feed b = having (data ++ [b]) := by
  have hlt : (residue data).length < 64 := by
    rw [length_residue]
    omega
  unfold feed
  split
  next hroom =>
    have hfull : (residue data).length + [b].length = 64 := by
      simp only [having, List.length_singleton] at hroom ⊢
      omega
    obtain ⟨hblocks, hresidue⟩ := blocks_append_of_eq hfull
    simp [having, hblocks, hresidue]
  next hroom =>
    have hmore : (residue data).length + [b].length < 64 := by
      simp only [having, List.length_singleton] at hroom ⊢
      omega
    obtain ⟨hblocks, hresidue⟩ := blocks_append_of_lt hmore
    simp [having, hblocks, hresidue, Nat.sub_sub]

theorem absorb_having (xs ys : Bytes) : (having xs).absorb ys = having (xs ++ ys) := by
  induction ys generalizing xs with
  | nil => simp
  | cons b ys ih =>
    calc (having xs).absorb (b :: ys)
      _ = ((having xs).feed b).absorb ys := rfl
      _ = (having (xs ++ [b])).absorb ys := by rw [feed_having]
      _ = having (xs ++ [b] ++ ys) := ih _
      _ = having (xs ++ b :: ys) := by rw [List.append_assoc, List.singleton_append]

theorem absorb_eq_having (data : Bytes) : ({} : Hasher).absorb data = having data :=
  absorb_having [] data

theorem absorb_padding (data : Bytes) :
    (having data).absorb (having data).padding = having (padded data) := by
  -- The hasher counts the zeros by the room that is left in its block, which the length tells too.
  have hzeros : (64 - (residue data).length + 64 - 9) % 64 = (64 + 55 - data.length % 64) % 64 := by
    rw [length_residue]
    omega
  rw [absorb_having]
  unfold padding padded
  simp only [having, hzeros]

end Hasher

end Md5

namespace Digest

/-- The digest of a text that is there as a whole. -/
def ofBlocks (data : Bytes) : Digest :=
  let s := (Md5.blocks (Md5.padded data)).foldl Md5.Chain.mix Md5.Chain.initial
  ⟨[s.a, s.b, s.c, s.d].flatMap fun word => Md5.littleEndian 4 word.toNat⟩

theorem of_eq_ofBlocks (data : Bytes) : of data = ofBlocks data := by
  unfold of ofHasher
  rw [Md5.Hasher.absorb_eq_having, Md5.Hasher.absorb_padding]
  rfl

end Digest

example : (Digest.ofBlocks (utf8 "abc")).bytes = [0x90, 0x01, 0x50, 0x98, 0x3c, 0xd2, 0x4f, 0xb0,
    0xd6, 0x96, 0x3f, 0x7d, 0x28, 0xe1, 0x7f, 0x72] := by
  decide +kernel

end BootCard
