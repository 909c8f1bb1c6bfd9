import BootCard.Bytes

/-!
The MD5 digest. A hasher takes its input one byte at a time and mixes a block in as soon as it is
full, so taking one text after another is the same as taking both at once (`absorb_append`).
-/

namespace BootCard

namespace Md5

structure Chain where
  a : UInt32
  b : UInt32
  c : UInt32
  d : UInt32
deriving DecidableEq

def Chain.initial : Chain := ⟨0x67452301, 0xefcdab89, 0x98badcfe, 0x10325476⟩

def rotations : List UInt32 :=
  [[7, 12, 17, 22], [5, 9, 14, 20], [4, 11, 16, 23], [6, 10, 15, 21]].flatMap
    fun round => round ++ round ++ round ++ round

/-- The constants of the 64 steps: the integer parts of `2 ^ 32 * |sin (i + 1)|`. -/
def sines : List UInt32 := [
  0xd76aa478, 0xe8c7b756, 0x242070db, 0xc1bdceee, 0xf57c0faf, 0x4787c62a, 0xa8304613, 0xfd469501,
  0x698098d8, 0x8b44f7af, 0xffff5bb1, 0x895cd7be, 0x6b901122, 0xfd987193, 0xa679438e, 0x49b40821,
  0xf61e2562, 0xc040b340, 0x265e5a51, 0xe9b6c7aa, 0xd62f105d, 0x02441453, 0xd8a1e681, 0xe7d3fbc8,
  0x21e1cde6, 0xc33707d6, 0xf4d50d87, 0x455a14ed, 0xa9e3e905, 0xfcefa3f8, 0x676f02d9, 0x8d2a4c8a,
  0xfffa3942, 0x8771f681, 0x6d9d6122, 0xfde5380c, 0xa4beea44, 0x4bdecfa9, 0xf6bb4b60, 0xbebfbc70,
  0x289b7ec6, 0xeaa127fa, 0xd4ef3085, 0x04881d05, 0xd9d4d039, 0xe6db99e5, 0x1fa27cf8, 0xc4ac5665,
  0xf4292244, 0x432aff97, 0xab9423a7, 0xfc93a039, 0x655b59c3, 0x8f0ccc92, 0xffeff47d, 0x85845dd1,
  0x6fa87e4f, 0xfe2ce6e0, 0xa3014314, 0x4e0811a1, 0xf7537e82, 0xbd3af235, 0x2ad7d2bb, 0xeb86d391]

def wordOrder : List Nat :=
  (List.range 16) ++ (List.range 16).map (fun i => (5 * i + 1) % 16) ++
    (List.range 16).map (fun i => (3 * i + 5) % 16) ++ (List.range 16).map (fun i => 7 * i % 16)

structure Step where
  index : Nat
  word : Nat
  sine : UInt32
  rotation : UInt32

def steps : List Step :=
  (List.range 64).zipWith (fun i (w, s, r) => ⟨i, w, s, r⟩)
    (wordOrder.zip (sines.zip rotations))

def rotateLeft (x n : UInt32) : UInt32 := (x <<< n) ||| (x >>> (32 - n))

def mixWords (index : Nat) (b c d : UInt32) : UInt32 :=
  if index < 16 then (b &&& c) ||| (~~~b &&& d)
  else if index < 32 then (d &&& b) ||| (~~~d &&& c)
  else if index < 48 then b ^^^ c ^^^ d
  else c ^^^ (b ||| ~~~d)

def Chain.step (words : Array UInt32) (s : Chain) (p : Step) : Chain :=
  let sum := s.a + mixWords p.index s.b s.c s.d + p.sine + words.getD p.word 0
  ⟨s.d, s.b + rotateLeft sum p.rotation, s.b, s.c⟩

def wordsOf : Bytes → List UInt32
  | b0 :: b1 :: b2 :: b3 :: rest =>
    (b0.toUInt32 ||| (b1.toUInt32 <<< 8) ||| (b2.toUInt32 <<< 16) ||| (b3.toUInt32 <<< 24)) ::
      wordsOf rest
  | _ => []

def Chain.mix (s : Chain) (block : Bytes) : Chain :=
  let t := steps.foldl (Chain.step (wordsOf block).toArray) s
  ⟨s.a + t.a, s.b + t.b, s.c + t.c, s.d + t.d⟩

def littleEndian : Nat → Nat → Bytes
  | 0, _ => []
  | n + 1, x => UInt8.ofNat (x % 256) :: littleEndian n (x / 256)

/-- A digest in progress: the bytes of the block that is not full yet, the last one first. -/
structure Hasher where
  chain : Chain := Chain.initial
  length : Nat := 0
  pending : Bytes := []
  room : Nat := 64
deriving DecidableEq

namespace Hasher

def feed (h : Hasher) (b : UInt8) : Hasher :=
  if h.room ≤ 1 then
    { chain := h.chain.mix (b :: h.pending).reverse, length := h.length + 1 }
  else
    { h with length := h.length + 1, pending := b :: h.pending, room := h.room - 1 }

def absorb (h : Hasher) (bs : Bytes) : Hasher := bs.foldl feed h

@[simp]
theorem absorb_nil (h : Hasher) : h.absorb [] = h := rfl

theorem absorb_append (h : Hasher) (xs ys : Bytes) :
    h.absorb (xs ++ ys) = (h.absorb xs).absorb ys := by
  simp [absorb]

/--
The padding that fills the last block: a one bit, zero bits, and the number of bits of the text in
eight bytes.
-/
def padding (h : Hasher) : Bytes :=
  let zeros := (h.room + 64 - 9) % 64
  0x80 :: (List.replicate zeros 0 ++ littleEndian 8 (8 * h.length))

end Hasher

end Md5

structure Digest where
  bytes : Bytes
deriving DecidableEq

namespace Digest

def ofHasher (h : Md5.Hasher) : Digest :=
  let s := (h.absorb h.padding).chain
  ⟨[s.a, s.b, s.c, s.d].flatMap fun word => Md5.littleEndian 4 word.toNat⟩

def of (bs : Bytes) : Digest := ofHasher (({} : Md5.Hasher).absorb bs)

def toHex (d : Digest) : String := Bytes.toHex d.bytes

end Digest

end BootCard
