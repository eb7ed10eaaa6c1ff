import Optical.Bytes

/-!
# MD5

The 128-bit digest that marks the state of an image. A message is padded with a one bit, zeros and
its length in bits to a multiple of 64 bytes, cut into blocks of sixteen 32-bit words, and each
block is mixed into four registers in 64 steps.
-/

namespace Optical
namespace Digest

/-- The four registers. -/
structure Registers where
  a : UInt32
  b : UInt32
  c : UInt32
  d : UInt32

namespace Md5

/-- The registers before the first block. -/
def start : Registers :=
  ⟨0x67452301, 0xefcdab89, 0x98badcfe, 0x10325476⟩

/-- The constant of each step, the first 32 bits of the sine of the step's number. -/
def sines : Array UInt32 := #[
  0xd76aa478, 0xe8c7b756, 0x242070db, 0xc1bdceee, 0xf57c0faf, 0x4787c62a,
  0xa8304613, 0xfd469501, 0x698098d8, 0x8b44f7af, 0xffff5bb1, 0x895cd7be,
  0x6b901122, 0xfd987193, 0xa679438e, 0x49b40821, 0xf61e2562, 0xc040b340,
  0x265e5a51, 0xe9b6c7aa, 0xd62f105d, 0x02441453, 0xd8a1e681, 0xe7d3fbc8,
  0x21e1cde6, 0xc33707d6, 0xf4d50d87, 0x455a14ed, 0xa9e3e905, 0xfcefa3f8,
  0x676f02d9, 0x8d2a4c8a, 0xfffa3942, 0x8771f681, 0x6d9d6122, 0xfde5380c,
  0xa4beea44, 0x4bdecfa9, 0xf6bb4b60, 0xbebfbc70, 0x289b7ec6, 0xeaa127fa,
  0xd4ef3085, 0x04881d05, 0xd9d4d039, 0xe6db99e5, 0x1fa27cf8, 0xc4ac5665,
  0xf4292244, 0x432aff97, 0xab9423a7, 0xfc93a039, 0x655b59c3, 0x8f0ccc92,
  0xffeff47d, 0x85845dd1, 0x6fa87e4f, 0xfe2ce6e0, 0xa3014314, 0x4e0811a1,
  0xf7537e82, 0xbd3af235, 0x2ad7d2bb, 0xeb86d391]

/-- The rotations of the four steps in each group, one row for each quarter of a block. -/
def rotations : Array UInt32 := #[
  7, 12, 17, 22,
  5, 9, 14, 20,
  4, 11, 16, 23,
  6, 10, 15, 21]

/-- The bits of a word moved up, those that leave at the top entering at the bottom. -/
def rotate (word amount : UInt32) : UInt32 :=
  (word <<< amount) ||| (word >>> (32 - amount))

/-- The mixture of three registers in one quarter of a block. -/
def mixture (quarter : Nat) (b c d : UInt32) : UInt32 :=
  match quarter with
  | 0 => (b &&& c) ||| (~~~b &&& d)
  | 1 => (d &&& b) ||| (~~~d &&& c)
  | 2 => b ^^^ c ^^^ d
  | _ => c ^^^ (b ||| ~~~d)

/-- The word of a block that a step takes. -/
def wordIndex (step : Nat) : Nat :=
  match step / 16 with
  | 0 => step
  | 1 => (5 * step + 1) % 16
  | 2 => (3 * step + 5) % 16
  | _ => (7 * step) % 16

/-- One step on the words of a message from a position. -/
def mixStep (words : Array UInt32) (position : Nat) (r : Registers) (step : Nat) : Registers :=
  let quarter := step / 16
  let sum := r.a + mixture quarter r.b r.c r.d + sines.getD step 0
    + words.getD (position + wordIndex step) 0
  ⟨r.d, r.b + rotate sum (rotations.getD (4 * quarter + step % 4) 0), r.b, r.c⟩

/-- The registers after the block that begins at a word. -/
def mixBlock (words : Array UInt32) (r : Registers) (block : Nat) : Registers :=
  let s := (List.range 64).foldl (mixStep words (16 * block)) r
  ⟨r.a + s.a, r.b + s.b, r.c + s.c, r.d + s.d⟩

/-- A message filled up to a multiple of 64 bytes. -/
def pad (message : Bytes) : Bytes :=
  let used := (message.length + 9) % 64
  let zeros := (64 - used) % 64
  message ++ 0x80 :: (List.replicate zeros 0 ++ Bytes.ofNatLE 8 (8 * message.length))

/-- The 32-bit words of a byte string. -/
def wordsOf : Bytes → List UInt32
  | b0 :: b1 :: b2 :: b3 :: rest =>
      UInt32.ofNat (b0.toNat + 256 * (b1.toNat + 256 * (b2.toNat + 256 * b3.toNat))) ::
        wordsOf rest
  | _ => []

/-- The sixteen bytes that the registers hold. -/
def finish (r : Registers) : Bytes :=
  [r.a, r.b, r.c, r.d].flatMap fun word => Bytes.ofNatLE 4 word.toNat

end Md5

open Md5 in
/-- The MD5 digest of a message. -/
def md5 (message : Bytes) : Bytes :=
  let words := (wordsOf (pad message)).toArray
  finish ((List.range (words.size / 16)).foldl (mixBlock words) start)

end Digest
end Optical
