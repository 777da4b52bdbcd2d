/-
**The MD5 message digest.**

The message is padded with a one bit and zeros to 56 bytes more than whole blocks of 64, and with its
length in bits. Each block is taken as 16 words, the lowest byte first, and changes four words in four
rounds of 16 operations.

* `F`, `G`, `H`, `I` — the functions of the rounds.
* `operation` — the operation on the first of four words, which then are rotated.
* `compress` — a block.
* `pad`, `digest` — the padded message, and its digest.
-/

import Nutcracker.Lib.Blocks
import Nutcracker.Lib.LittleEndian

namespace Nutcracker.Lib.Md5

/-- The four words. -/
structure Words where
  a : UInt32
  b : UInt32
  c : UInt32
  d : UInt32
  deriving DecidableEq

def F (x y z : UInt32) : UInt32 := (x &&& y) ||| (~~~x &&& z)

def G (x y z : UInt32) : UInt32 := (x &&& z) ||| (y &&& ~~~z)

def H (x y z : UInt32) : UInt32 := x ^^^ y ^^^ z

def I (x y z : UInt32) : UInt32 := y ^^^ (x ||| ~~~z)

/-- A rotation to the left. -/
def rotate (x s : UInt32) : UInt32 := (x <<< s) ||| (x >>> (32 - s))

/-- The integer part of `2 ^ 32 * |sin i|`, for `i` from 1 to 64. -/
def T : Array UInt32 :=
  #[0xd76aa478, 0xe8c7b756, 0x242070db, 0xc1bdceee, 0xf57c0faf, 0x4787c62a,
    0xa8304613, 0xfd469501, 0x698098d8, 0x8b44f7af, 0xffff5bb1, 0x895cd7be,
    0x6b901122, 0xfd987193, 0xa679438e, 0x49b40821, 0xf61e2562, 0xc040b340,
    0x265e5a51, 0xe9b6c7aa, 0xd62f105d, 0x02441453, 0xd8a1e681, 0xe7d3fbc8,
    0x21e1cde6, 0xc33707d6, 0xf4d50d87, 0x455a14ed, 0xa9e3e905, 0xfcefa3f8,
    0x676f02d9, 0x8d2a4c8a, 0xfffa3942, 0x8771f681, 0x6d9d6122, 0xfde5380c,
    0xa4beea44, 0x4bdecfa9, 0xf6bb4b60, 0xbebfbc70, 0x289b7ec6, 0xeaa127fa,
    0xd4ef3085, 0x04881d05, 0xd9d4d039, 0xe6db99e5, 0x1fa27cf8, 0xc4ac5665,
    0xf4292244, 0x432aff97, 0xab9423a7, 0xfc93a039, 0x655b59c3, 0x8f0ccc92,
    0xffeff47d, 0x85845dd1, 0x6fa87e4f, 0xfe2ce6e0, 0xa3014314, 0x4e0811a1,
    0xf7537e82, 0xbd3af235, 0x2ad7d2bb, 0xeb86d391]

/-- `[abcd k s i]`: the first word becomes `b + ((a + f(b, c, d) + X[k] + T[i]) <<< s)`. The words then
are rotated, and the next operation is on `d`. -/
def operation (f : UInt32 → UInt32 → UInt32 → UInt32) (X : Nat → UInt32) (w : Words)
    (o : Nat × UInt32 × Nat) : Words :=
  let (k, s, i) := o
  ⟨w.d, w.b + rotate (w.a + f w.b w.c w.d + X k + T.getD (i - 1) 0) s, w.b, w.c⟩

def round1 : List (Nat × UInt32 × Nat) :=
  [(0, 7, 1), (1, 12, 2), (2, 17, 3), (3, 22, 4),
    (4, 7, 5), (5, 12, 6), (6, 17, 7), (7, 22, 8),
    (8, 7, 9), (9, 12, 10), (10, 17, 11), (11, 22, 12),
    (12, 7, 13), (13, 12, 14), (14, 17, 15), (15, 22, 16)]

def round2 : List (Nat × UInt32 × Nat) :=
  [(1, 5, 17), (6, 9, 18), (11, 14, 19), (0, 20, 20),
    (5, 5, 21), (10, 9, 22), (15, 14, 23), (4, 20, 24),
    (9, 5, 25), (14, 9, 26), (3, 14, 27), (8, 20, 28),
    (13, 5, 29), (2, 9, 30), (7, 14, 31), (12, 20, 32)]

def round3 : List (Nat × UInt32 × Nat) :=
  [(5, 4, 33), (8, 11, 34), (11, 16, 35), (14, 23, 36),
    (1, 4, 37), (4, 11, 38), (7, 16, 39), (10, 23, 40),
    (13, 4, 41), (0, 11, 42), (3, 16, 43), (6, 23, 44),
    (9, 4, 45), (12, 11, 46), (15, 16, 47), (2, 23, 48)]

def round4 : List (Nat × UInt32 × Nat) :=
  [(0, 6, 49), (7, 10, 50), (14, 15, 51), (5, 21, 52),
    (12, 6, 53), (3, 10, 54), (10, 15, 55), (1, 21, 56),
    (8, 6, 57), (15, 10, 58), (6, 15, 59), (13, 21, 60),
    (4, 6, 61), (11, 10, 62), (2, 15, 63), (9, 21, 64)]

/-- The words of a block. -/
def blockWord (block : List UInt8) (k : Nat) : UInt32 := word ((block.drop (4 * k)).take 4)

/-- **A block.** -/
def compress (w : Words) (block : List UInt8) : Words :=
  let X := blockWord block
  let w₁ := round1.foldl (operation F X) w
  let w₂ := round2.foldl (operation G X) w₁
  let w₃ := round3.foldl (operation H X) w₂
  let w₄ := round4.foldl (operation I X) w₃
  ⟨w.a + w₄.a, w.b + w₄.b, w.c + w₄.c, w.d + w₄.d⟩

def init : Words := ⟨0x67452301, 0xefcdab89, 0x98badcfe, 0x10325476⟩

/-- The bytes of a number below `2 ^ (8 * n)`, the lowest first. -/
def bytesOf (n : Nat) (x : Nat) : List UInt8 :=
  (List.range n).map fun i => UInt8.ofNat (x / 256 ^ i)

/-- The zeros of the padding. -/
def zeros (length : Nat) : List UInt8 := List.replicate ((119 - length % 64) % 64) 0

/-- **The padded message.** -/
def pad (message : List UInt8) : List UInt8 :=
  message ++ [0x80] ++ zeros message.length ++ bytesOf 8 (8 * message.length)

/-- **The digest of a message.** -/
def digest (message : List UInt8) : List UInt8 :=
  let w := blocks 64 compress init (pad message)
  bytesOf 4 w.a.toNat ++ bytesOf 4 w.b.toNat ++ bytesOf 4 w.c.toNat ++ bytesOf 4 w.d.toNat

/-- `MD5 ("abc")`. -/
example : digest [97, 98, 99] =
    [0x90, 0x01, 0x50, 0x98, 0x3c, 0xd2, 0x4f, 0xb0, 0xd6, 0x96, 0x3f, 0x7d, 0x28, 0xe1, 0x7f, 0x72] := by
  decide +kernel

theorem length_bytesOf (n x : Nat) : (bytesOf n x).length = n := by
  rw [bytesOf, List.length_map, List.length_range]

theorem bytesOf_add (m n x : Nat) : bytesOf (m + n) x = bytesOf m x ++ bytesOf n (x / 256 ^ m) := by
  unfold bytesOf
  rw [List.range_add, List.map_append, List.map_map]
  congr 1
  refine List.map_congr_left fun i _ => ?_
  show UInt8.ofNat (x / 256 ^ (m + i)) = UInt8.ofNat (x / 256 ^ m / 256 ^ i)
  rw [Nat.div_div_eq_div_mul, pow_add]

/-- The digits above the bytes do not matter. -/
theorem bytesOf_mod (n x : Nat) : bytesOf n (x % 256 ^ n) = bytesOf n x := by
  refine List.map_congr_left fun i member => ?_
  have inside := List.mem_range.mp member
  obtain ⟨k, rfl⟩ := Nat.exists_eq_add_of_lt inside
  rw [show i + k + 1 = i + (k + 1) from rfl, pow_add, Nat.mod_mul_right_div_self,
    ← UInt8.toNat_inj, UInt8.toNat_ofNat', UInt8.toNat_ofNat', pow_succ]
  exact Nat.mod_mul_left_mod _ _ _

theorem ofBytes_bytesOf (n x : Nat) : ofBytes (bytesOf n x) = x % 256 ^ n := by
  induction n with
  | zero => exact (Nat.mod_one x).symm
  | succ n ih =>
      have last : ofBytes (bytesOf 1 (x / 256 ^ n)) = x / 256 ^ n % 256 := by
        simp [ofBytes, bytesOf, UInt8.toNat_ofNat']
      rw [bytesOf_add, ofBytes_append, ih, last, length_bytesOf]
      exact Nat.mod_pow_succ.symm

end Nutcracker.Lib.Md5
