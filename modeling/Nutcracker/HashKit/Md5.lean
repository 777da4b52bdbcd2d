/-
**`NcMd5` is MD5.**

`update` keeps the bytes that do not fill a block in `m_buffer`, and counts all bytes in a word of
29 bits and one of 32. `body` runs whole blocks, with `F` and `G` in a form of their own; `hfinal`
pads the message in the buffer, in one block or in two.

* `F_eq`, `G_eq`, `STEP_eq`, `bodyTurn_eq` — a turn of the loop in `body` is `Md5.compress`.
* `Absorbed` — **the words are those of the whole blocks, the buffer holds what is pending, and the
  counters hold the length**.
* `absorbed_update` — a part of any length; `absorbed_updates` — any parts.
* `hfinal_eq` — the two cases of the padding.
* `md5_chunks` — **`hfinal` gives the digest of the whole message, however it is cut into parts**.
-/

import Nutcracker.Lib.Md5
import Mathlib.Data.List.Basic

namespace Nutcracker

open Lib

namespace NcMd5

def F (x y z : UInt32) : UInt32 := z ^^^ (x &&& (y ^^^ z))

def G (x y z : UInt32) : UInt32 := y ^^^ (z &&& (x ^^^ y))

def H (x y z : UInt32) : UInt32 := x ^^^ y ^^^ z

def I (x y z : UInt32) : UInt32 := y ^^^ (x ||| ~~~z)

/-- `STEP(f, a, b, c, d, x, t, s)`, the new `a`. -/
def STEP (f : UInt32 → UInt32 → UInt32 → UInt32) (a b c d x t s : UInt32) : UInt32 :=
  let a := a + (f b c d + x + t)
  let a := (a <<< s) ||| ((a &&& 0xffffffff) >>> (32 - s))
  a + b

/-- `STEP(f, a, b, c, d, x, t, s)`. -/
def STEP_abcd (f : UInt32 → UInt32 → UInt32 → UInt32) (x t s : UInt32) (w : Md5.Words) : Md5.Words :=
  { w with a := STEP f w.a w.b w.c w.d x t s }

/-- `STEP(f, d, a, b, c, x, t, s)`. -/
def STEP_dabc (f : UInt32 → UInt32 → UInt32 → UInt32) (x t s : UInt32) (w : Md5.Words) : Md5.Words :=
  { w with d := STEP f w.d w.a w.b w.c x t s }

/-- `STEP(f, c, d, a, b, x, t, s)`. -/
def STEP_cdab (f : UInt32 → UInt32 → UInt32 → UInt32) (x t s : UInt32) (w : Md5.Words) : Md5.Words :=
  { w with c := STEP f w.c w.d w.a w.b x t s }

/-- `STEP(f, b, c, d, a, x, t, s)`. -/
def STEP_bcda (f : UInt32 → UInt32 → UInt32 → UInt32) (x t s : UInt32) (w : Md5.Words) : Md5.Words :=
  { w with b := STEP f w.b w.c w.d w.a x t s }

/-- `SET(n)`, a word in memory. `GET(n)` is the same. -/
def SET (ptr : List UInt8) (n : Nat) : UInt32 := word ((ptr.drop (n * 4)).take 4)

section Rounds

variable (ptr : List UInt8) (w : Md5.Words)

def round1 : Md5.Words :=
  w
    |> STEP_abcd F (SET ptr 0) 0xd76aa478 7
    |> STEP_dabc F (SET ptr 1) 0xe8c7b756 12
    |> STEP_cdab F (SET ptr 2) 0x242070db 17
    |> STEP_bcda F (SET ptr 3) 0xc1bdceee 22
    |> STEP_abcd F (SET ptr 4) 0xf57c0faf 7
    |> STEP_dabc F (SET ptr 5) 0x4787c62a 12
    |> STEP_cdab F (SET ptr 6) 0xa8304613 17
    |> STEP_bcda F (SET ptr 7) 0xfd469501 22
    |> STEP_abcd F (SET ptr 8) 0x698098d8 7
    |> STEP_dabc F (SET ptr 9) 0x8b44f7af 12
    |> STEP_cdab F (SET ptr 10) 0xffff5bb1 17
    |> STEP_bcda F (SET ptr 11) 0x895cd7be 22
    |> STEP_abcd F (SET ptr 12) 0x6b901122 7
    |> STEP_dabc F (SET ptr 13) 0xfd987193 12
    |> STEP_cdab F (SET ptr 14) 0xa679438e 17
    |> STEP_bcda F (SET ptr 15) 0x49b40821 22

def round2 : Md5.Words :=
  w
    |> STEP_abcd G (SET ptr 1) 0xf61e2562 5
    |> STEP_dabc G (SET ptr 6) 0xc040b340 9
    |> STEP_cdab G (SET ptr 11) 0x265e5a51 14
    |> STEP_bcda G (SET ptr 0) 0xe9b6c7aa 20
    |> STEP_abcd G (SET ptr 5) 0xd62f105d 5
    |> STEP_dabc G (SET ptr 10) 0x02441453 9
    |> STEP_cdab G (SET ptr 15) 0xd8a1e681 14
    |> STEP_bcda G (SET ptr 4) 0xe7d3fbc8 20
    |> STEP_abcd G (SET ptr 9) 0x21e1cde6 5
    |> STEP_dabc G (SET ptr 14) 0xc33707d6 9
    |> STEP_cdab G (SET ptr 3) 0xf4d50d87 14
    |> STEP_bcda G (SET ptr 8) 0x455a14ed 20
    |> STEP_abcd G (SET ptr 13) 0xa9e3e905 5
    |> STEP_dabc G (SET ptr 2) 0xfcefa3f8 9
    |> STEP_cdab G (SET ptr 7) 0x676f02d9 14
    |> STEP_bcda G (SET ptr 12) 0x8d2a4c8a 20

def round3 : Md5.Words :=
  w
    |> STEP_abcd H (SET ptr 5) 0xfffa3942 4
    |> STEP_dabc H (SET ptr 8) 0x8771f681 11
    |> STEP_cdab H (SET ptr 11) 0x6d9d6122 16
    |> STEP_bcda H (SET ptr 14) 0xfde5380c 23
    |> STEP_abcd H (SET ptr 1) 0xa4beea44 4
    |> STEP_dabc H (SET ptr 4) 0x4bdecfa9 11
    |> STEP_cdab H (SET ptr 7) 0xf6bb4b60 16
    |> STEP_bcda H (SET ptr 10) 0xbebfbc70 23
    |> STEP_abcd H (SET ptr 13) 0x289b7ec6 4
    |> STEP_dabc H (SET ptr 0) 0xeaa127fa 11
    |> STEP_cdab H (SET ptr 3) 0xd4ef3085 16
    |> STEP_bcda H (SET ptr 6) 0x04881d05 23
    |> STEP_abcd H (SET ptr 9) 0xd9d4d039 4
    |> STEP_dabc H (SET ptr 12) 0xe6db99e5 11
    |> STEP_cdab H (SET ptr 15) 0x1fa27cf8 16
    |> STEP_bcda H (SET ptr 2) 0xc4ac5665 23

def round4 : Md5.Words :=
  w
    |> STEP_abcd I (SET ptr 0) 0xf4292244 6
    |> STEP_dabc I (SET ptr 7) 0x432aff97 10
    |> STEP_cdab I (SET ptr 14) 0xab9423a7 15
    |> STEP_bcda I (SET ptr 5) 0xfc93a039 21
    |> STEP_abcd I (SET ptr 12) 0x655b59c3 6
    |> STEP_dabc I (SET ptr 3) 0x8f0ccc92 10
    |> STEP_cdab I (SET ptr 10) 0xffeff47d 15
    |> STEP_bcda I (SET ptr 1) 0x85845dd1 21
    |> STEP_abcd I (SET ptr 8) 0x6fa87e4f 6
    |> STEP_dabc I (SET ptr 15) 0xfe2ce6e0 10
    |> STEP_cdab I (SET ptr 6) 0xa3014314 15
    |> STEP_bcda I (SET ptr 13) 0x4e0811a1 21
    |> STEP_abcd I (SET ptr 4) 0xf7537e82 6
    |> STEP_dabc I (SET ptr 11) 0xbd3af235 10
    |> STEP_cdab I (SET ptr 2) 0x2ad7d2bb 15
    |> STEP_bcda I (SET ptr 9) 0xeb86d391 21

/-- A turn of the loop in `body`. -/
def bodyTurn : Md5.Words :=
  let saved := w
  let w := round4 ptr (round3 ptr (round2 ptr (round1 ptr w)))
  ⟨w.a + saved.a, w.b + saved.b, w.c + saved.c, w.d + saved.d⟩

end Rounds

/-- The loop of `body`, over `size` bytes at `ptr`. The callers pass whole blocks, one at least. -/
def bodyLoop (ptr : List UInt8) (size : Nat) (w : Md5.Words) : Md5.Words :=
  let w := bodyTurn ptr w
  if size - 64 = 0 then w else bodyLoop (ptr.drop 64) (size - 64) w
termination_by size

end NcMd5

/-- `NcMd5`. The words `m_a_`, `m_b_`, `m_c_`, `m_d_` are `abcd`. -/
structure NcMd5 where
  m_lo : UInt32
  m_hi : UInt32
  abcd : Md5.Words
  m_buffer : List UInt8

namespace NcMd5

/-- `NcMd5()`, with what is in the buffer. -/
def new (m_buffer : List UInt8) : NcMd5 where
  m_lo := 0
  m_hi := 0
  abcd := ⟨0x67452301, 0xefcdab89, 0x98badcfe, 0x10325476⟩
  m_buffer := m_buffer

/-- `body(data, size)`. -/
def body (data : List UInt8) (size : Nat) (m : NcMd5) : NcMd5 :=
  { m with abcd := bodyLoop data size m.abcd }

/-- `memcpy(&m_buffer_[used], data, size)`, of all the bytes of the list. -/
def store (used : Nat) (data : List UInt8) (m : NcMd5) : NcMd5 :=
  { m with m_buffer :=
      m.m_buffer.take used ++ data ++ m.m_buffer.drop (used + data.length) }

/-- The end of `update`, with no byte in the buffer. -/
def updateRest (data : List UInt8) (m : NcMd5) : NcMd5 :=
  let size := data.length
  if size ≥ 64 then
    let whole := size - size % 64
    (m.body data whole).store 0 (data.drop whole)
  else m.store 0 data

/-- The counters in `update`. -/
def count (size : UInt64) (m : NcMd5) : NcMd5 :=
  let saved_lo := m.m_lo
  let m_lo := ((saved_lo.toUInt64 + size) &&& 0x1fffffff).toUInt32
  let m_hi := if m_lo < saved_lo then m.m_hi + 1 else m.m_hi
  { m with m_lo := m_lo, m_hi := m_hi + (size >>> 29).toUInt32 }

/-- `update` after the counters, with `used` bytes in the buffer. -/
def feed (used : Nat) (data : List UInt8) (m : NcMd5) : NcMd5 :=
  if used = 0 then m.updateRest data
  else
    let free := 64 - used
    if data.length < free then m.store used data
    else
      let m := m.store used (data.take free)
      let m := m.body m.m_buffer 64
      m.updateRest (data.drop free)

/-- `update(data, size)`. -/
def update (m : NcMd5) (data : List UInt8) : NcMd5 :=
  let saved_lo := m.m_lo
  (m.count (UInt64.ofNat data.length)).feed (saved_lo &&& 0x3f).toNat data

/-- The bytes of a word, as `hfinal` stores them. -/
def bytes (x : UInt32) : List UInt8 :=
  [x.toUInt8, (x >>> 8).toUInt8, (x >>> 16).toUInt8, (x >>> 24).toUInt8]

/-- The padding in `hfinal`, up to the length. -/
def hpad (m : NcMd5) : NcMd5 :=
  let used := (m.m_lo &&& 0x3f).toNat
  let m := m.store used [0x80]
  let used := used + 1
  let free := 64 - used
  if free < 8 then
    let m := m.store used (List.replicate free 0)
    let m := m.body m.m_buffer 64
    let used := 0
    let free := 64
    m.store used (List.replicate (free - 8) 0)
  else m.store used (List.replicate (free - 8) 0)

/-- `hfinal(result)`, the result. -/
def hfinal (m : NcMd5) : List UInt8 :=
  let m := m.hpad
  let m_lo := m.m_lo <<< 3
  let m := m.store 56 (bytes m_lo ++ bytes m.m_hi)
  let m := m.body m.m_buffer 64
  bytes m.abcd.a ++ bytes m.abcd.b ++ bytes m.abcd.c ++ bytes m.abcd.d

/-- `signature(key, length, result)`. -/
def signature (m : NcMd5) (key : List UInt8) : List UInt8 := (m.update key).hfinal

end NcMd5

namespace NcHashUtil

/-- **`NcHashUtil::md5Hash`**, with what is in the buffer of the new `NcMd5`. -/
def md5Hash (m_buffer : List UInt8) (key : List UInt8) : UInt32 :=
  let results := (NcMd5.new m_buffer).signature key
  let byte (i : Nat) : UInt32 := (results.getD i 0).toUInt32
  ((byte 3 &&& 0xFF) <<< 24) ||| ((byte 2 &&& 0xFF) <<< 16) ||| ((byte 1 &&& 0xFF) <<< 8) |||
    (byte 0 &&& 0xFF)

end NcHashUtil

namespace NcMd5

/-! ### A block -/

theorem F_eq : F = Md5.F := by
  funext x y z
  refine UInt32.toBitVec_inj.mp (BitVec.eq_of_getLsbD_eq fun i inside => ?_)
  simp only [F, Md5.F, UInt32.toBitVec_xor, UInt32.toBitVec_and, UInt32.toBitVec_or,
    UInt32.toBitVec_not, BitVec.getLsbD_xor, BitVec.getLsbD_and, BitVec.getLsbD_or,
    BitVec.getLsbD_not, inside]
  cases x.toBitVec.getLsbD i <;> cases y.toBitVec.getLsbD i <;> cases z.toBitVec.getLsbD i <;> rfl

theorem G_eq : G = Md5.G := by
  funext x y z
  refine UInt32.toBitVec_inj.mp (BitVec.eq_of_getLsbD_eq fun i inside => ?_)
  simp only [G, Md5.G, UInt32.toBitVec_xor, UInt32.toBitVec_and, UInt32.toBitVec_or,
    UInt32.toBitVec_not, BitVec.getLsbD_xor, BitVec.getLsbD_and, BitVec.getLsbD_or,
    BitVec.getLsbD_not, inside]
  cases x.toBitVec.getLsbD i <;> cases y.toBitVec.getLsbD i <;> cases z.toBitVec.getLsbD i <;> rfl

theorem H_eq : H = Md5.H := rfl

theorem I_eq : I = Md5.I := rfl

/-- **A step** is an operation. -/
theorem STEP_eq (f : UInt32 → UInt32 → UInt32 → UInt32) (a b c d x t s : UInt32) :
    STEP f a b c d x t s = b + Md5.rotate (a + f b c d + x + t) s := by
  have mask (y : UInt32) : y &&& 0xffffffff = y := UInt32.and_neg_one
  unfold STEP Md5.rotate
  dsimp only
  rw [mask, UInt32.add_comm b, UInt32.add_assoc a, UInt32.add_assoc a]

/-- Four operations bring every word back to its place. -/
theorem foldl_operation (f : UInt32 → UInt32 → UInt32 → UInt32) (X : Nat → UInt32) (w : Md5.Words)
    (k₁ k₂ k₃ k₄ : Nat) (s₁ s₂ s₃ s₄ : UInt32) (i₁ i₂ i₃ i₄ : Nat)
    (rest : List (Nat × UInt32 × Nat)) :
    ((k₁, s₁, i₁) :: (k₂, s₂, i₂) :: (k₃, s₃, i₃) :: (k₄, s₄, i₄) :: rest).foldl
        (Md5.operation f X) w =
      rest.foldl (Md5.operation f X) (w
        |> STEP_abcd f (X k₁) (Md5.T.getD (i₁ - 1) 0) s₁
        |> STEP_dabc f (X k₂) (Md5.T.getD (i₂ - 1) 0) s₂
        |> STEP_cdab f (X k₃) (Md5.T.getD (i₃ - 1) 0) s₃
        |> STEP_bcda f (X k₄) (Md5.T.getD (i₄ - 1) 0) s₄) := by
  simp only [List.foldl_cons, Md5.operation, STEP_abcd, STEP_dabc, STEP_cdab, STEP_bcda, STEP_eq]

theorem round1_eq (ptr : List UInt8) (w : Md5.Words) :
    Md5.round1.foldl (Md5.operation Md5.F (SET ptr)) w = round1 ptr w := by
  unfold Md5.round1 round1
  rw [← F_eq, foldl_operation, foldl_operation, foldl_operation, foldl_operation]
  rfl

theorem round2_eq (ptr : List UInt8) (w : Md5.Words) :
    Md5.round2.foldl (Md5.operation Md5.G (SET ptr)) w = round2 ptr w := by
  unfold Md5.round2 round2
  rw [← G_eq, foldl_operation, foldl_operation, foldl_operation, foldl_operation]
  rfl

theorem round3_eq (ptr : List UInt8) (w : Md5.Words) :
    Md5.round3.foldl (Md5.operation Md5.H (SET ptr)) w = round3 ptr w := by
  unfold Md5.round3 round3
  rw [← H_eq, foldl_operation, foldl_operation, foldl_operation, foldl_operation]
  rfl

theorem round4_eq (ptr : List UInt8) (w : Md5.Words) :
    Md5.round4.foldl (Md5.operation Md5.I (SET ptr)) w = round4 ptr w := by
  unfold Md5.round4 round4
  rw [← I_eq, foldl_operation, foldl_operation, foldl_operation, foldl_operation]
  rfl

theorem blockWord_eq (block : List UInt8) : Md5.blockWord block = SET block := by
  funext k
  rw [Md5.blockWord, SET, Nat.mul_comm]

/-- A turn of the loop, on a block. -/
theorem compress_eq (w : Md5.Words) (block : List UInt8) :
    Md5.compress w block = bodyTurn block w := by
  unfold Md5.compress bodyTurn
  dsimp only
  rw [blockWord_eq, round1_eq, round2_eq, round3_eq, round4_eq, UInt32.add_comm w.a,
    UInt32.add_comm w.b, UInt32.add_comm w.c, UInt32.add_comm w.d]

/-- The sixteen words of a block are in its 64 bytes. -/
theorem SET_take (ptr : List UInt8) {n : Nat} (inside : n < 16) :
    SET (ptr.take 64) n = SET ptr n := by
  rw [SET, SET, List.drop_take, List.take_take, Nat.min_eq_left (by omega)]

/-- What follows the block does not matter. -/
theorem bodyTurn_take (ptr : List UInt8) (w : Md5.Words) :
    bodyTurn (ptr.take 64) w = bodyTurn ptr w := by
  have word (n : Nat) (inside : n < 16) := SET_take ptr inside
  simp only [bodyTurn, round1, round2, round3, round4, word 0, word 1, word 2, word 3, word 4, word 5,
    word 6, word 7, word 8, word 9, word 10, word 11, word 12, word 13, word 14, word 15,
    Nat.reduceLT]

/-- A turn of the loop, on the first block. -/
theorem bodyTurn_eq (ptr : List UInt8) (w : Md5.Words) :
    bodyTurn ptr w = Md5.compress w (ptr.take 64) := by
  rw [compress_eq, bodyTurn_take]

theorem bodyLoop_unfold (ptr : List UInt8) (size : Nat) (w : Md5.Words) :
    bodyLoop ptr size w =
      if size - 64 = 0 then bodyTurn ptr w
      else bodyLoop (ptr.drop 64) (size - 64) (bodyTurn ptr w) := by
  conv_lhs => unfold bodyLoop

/-- **The loop of `body`** takes the blocks one after the other. -/
theorem bodyLoop_eq (ptr : List UInt8) (k : Nat) (w : Md5.Words) :
    bodyLoop ptr (64 * (k + 1)) w = firstBlocks 64 Md5.compress (k + 1) w ptr := by
  induction k generalizing ptr w with
  | zero => rw [bodyLoop_unfold, if_pos (by omega), bodyTurn_eq, firstBlocks, firstBlocks]
  | succ k ih =>
      have left : 64 * (k + 1 + 1) - 64 = 64 * (k + 1) := by omega
      rw [bodyLoop_unfold, left, if_neg (by omega), ih, bodyTurn_eq]
      conv_rhs => rw [firstBlocks]

/-! ### The buffer -/

variable {m : NcMd5}

@[simp] theorem lo_body (data : List UInt8) (size : Nat) : (m.body data size).m_lo = m.m_lo := rfl

@[simp] theorem hi_body (data : List UInt8) (size : Nat) : (m.body data size).m_hi = m.m_hi := rfl

@[simp] theorem buffer_body (data : List UInt8) (size : Nat) :
    (m.body data size).m_buffer = m.m_buffer := rfl

@[simp] theorem lo_store (used : Nat) (data : List UInt8) : (m.store used data).m_lo = m.m_lo := rfl

@[simp] theorem hi_store (used : Nat) (data : List UInt8) : (m.store used data).m_hi = m.m_hi := rfl

@[simp] theorem abcd_store (used : Nat) (data : List UInt8) : (m.store used data).abcd = m.abcd := rfl

/-- `body` on one block. -/
theorem abcd_body {block : List UInt8} (whole : block.length = 64) :
    (m.body block 64).abcd = Md5.compress m.abcd block := by
  show bodyLoop block 64 m.abcd = _
  rw [bodyLoop_unfold, if_pos rfl, bodyTurn_eq, List.take_of_length_le (Nat.le_of_eq whole)]

theorem take_store {used : Nat} (data : List UInt8) (inside : used ≤ m.m_buffer.length) :
    (m.store used data).m_buffer.take (used + data.length) = m.m_buffer.take used ++ data := by
  have prefixLength : (m.m_buffer.take used ++ data).length = used + data.length := by
    rw [List.length_append, List.length_take, Nat.min_eq_left inside]
  show ((m.m_buffer.take used ++ data) ++ m.m_buffer.drop (used + data.length)).take _ = _
  rw [← prefixLength, List.take_left]

theorem length_store {used : Nat} {data : List UInt8}
    (inside : used + data.length ≤ m.m_buffer.length) :
    (m.store used data).m_buffer.length = m.m_buffer.length := by
  show ((m.m_buffer.take used ++ data) ++ m.m_buffer.drop (used + data.length)).length = _
  rw [List.length_append, List.length_append, List.length_take, List.length_drop]
  omega

/-- The end of `update` runs the whole blocks, and keeps what is left over. -/
theorem abcd_updateRest (data : List UInt8) :
    (m.updateRest data).abcd = blocks 64 Md5.compress m.abcd data := by
  unfold updateRest
  dsimp only
  split
  · rename_i long
    obtain ⟨k, count⟩ := Nat.exists_eq_succ_of_ne_zero (show data.length / 64 ≠ 0 by omega)
    have whole : data.length - data.length % 64 = 64 * (k + 1) := by omega
    show bodyLoop data (data.length - data.length % 64) m.abcd = _
    rw [whole, bodyLoop_eq, blocks, count]
  · rename_i short
    exact (blocks_of_length_lt m.abcd (Nat.lt_of_not_le short)).symm

theorem buffer_updateRest (data : List UInt8) :
    (m.updateRest data).m_buffer =
      pending 64 data ++ m.m_buffer.drop (pending 64 data).length := by
  unfold updateRest
  dsimp only
  split
  · have whole : data.length - data.length % 64 = data.length / 64 * 64 := by omega
    show (m.m_buffer.take 0 ++ data.drop _) ++ m.m_buffer.drop (0 + (data.drop _).length) = _
    rw [whole, List.take_zero, List.nil_append, Nat.zero_add]
    rfl
  · rename_i short
    rw [pending_of_length_lt (Nat.lt_of_not_le short)]
    show (m.m_buffer.take 0 ++ data) ++ m.m_buffer.drop (0 + data.length) = _
    rw [List.take_zero, List.nil_append, Nat.zero_add]

theorem lo_updateRest (data : List UInt8) : (m.updateRest data).m_lo = m.m_lo := by
  unfold updateRest
  dsimp only
  split <;> simp

theorem hi_updateRest (data : List UInt8) : (m.updateRest data).m_hi = m.m_hi := by
  unfold updateRest
  dsimp only
  split <;> simp

/-- **What the words and the buffer are** once the bytes `seen` are taken: the words go over the whole
blocks from `start`, and the rest is in the buffer. -/
structure Holds (start : Md5.Words) (seen : List UInt8) (m : NcMd5) : Prop where
  abcd : m.abcd = blocks 64 Md5.compress start seen
  room : m.m_buffer.length = 64
  buffer : m.m_buffer.take (seen.length % 64) = pending 64 seen

theorem holds_updateRest (room : m.m_buffer.length = 64) (data : List UInt8) :
    Holds m.abcd data (m.updateRest data) where
  abcd := abcd_updateRest data
  room := by
    have left : data.length % 64 < 64 := Nat.mod_lt _ (by decide)
    rw [buffer_updateRest, List.length_append, List.length_drop, length_pending, room]
    omega
  buffer := by
    rw [buffer_updateRest, ← length_pending, List.take_left]

/-- A block in the buffer is run, and the rest of the data follows. -/
theorem Holds.block {start : Md5.Words} {block rest : List UInt8} (whole : block.length = 64)
    (holds : Holds (Md5.compress start block) rest m) : Holds start (block ++ rest) m where
  abcd := by rw [holds.abcd, blocks_block_append (by decide) start rest whole]
  room := holds.room
  buffer := by
    rw [pending_append (by decide), pending_block whole, List.nil_append, ← holds.buffer,
      List.length_append, whole, Nat.add_mod_left]

/-- **The three ways through `update`.** -/
theorem holds_feed {used : Nat} (room : m.m_buffer.length = 64) (inside : used < 64)
    (data : List UInt8) : Holds m.abcd (m.m_buffer.take used ++ data) (m.feed used data) := by
  have before : (m.m_buffer.take used).length = used := by
    rw [List.length_take, room]
    omega
  unfold feed
  by_cases none : used = 0
  · rw [if_pos none, none, List.take_zero, List.nil_append]
    exact holds_updateRest room data
  · rw [if_neg none]
    dsimp only
    by_cases short : data.length < 64 - used
    · have less : (m.m_buffer.take used ++ data).length < 64 := by
        rw [List.length_append, before]
        omega
      rw [if_pos short]
      refine ⟨(blocks_of_length_lt _ less).symm, ?_, ?_⟩
      · rw [length_store (by omega), room]
      · rw [Nat.mod_eq_of_lt less, pending_of_length_lt less, List.length_append, before]
        exact take_store data (by omega)
    · have first : (data.take (64 - used)).length = 64 - used := by
        rw [List.length_take]
        omega
      have filled : (m.store used (data.take (64 - used))).m_buffer =
          m.m_buffer.take used ++ data.take (64 - used) := by
        have taken := take_store (m := m) (data.take (64 - used)) (show used ≤ _ by omega)
        rw [List.take_of_length_le] at taken
        · exact taken
        · rw [length_store (by omega), room]
          omega
      have whole : (m.m_buffer.take used ++ data.take (64 - used)).length = 64 := by
        rw [List.length_append, before, first]
        omega
      rw [if_neg short, ← List.take_append_drop (64 - used) data, ← List.append_assoc,
        List.take_append_drop]
      refine Holds.block whole ?_
      have rest := holds_updateRest (m := (m.store used (data.take (64 - used))).body
        (m.store used (data.take (64 - used))).m_buffer 64) (by rw [buffer_body, filled, whole])
        (data.drop (64 - used))
      rw [filled, abcd_body whole, abcd_store] at rest
      rw [filled]
      exact rest

theorem lo_feed (used : Nat) (data : List UInt8) : (m.feed used data).m_lo = m.m_lo := by
  unfold feed
  by_cases none : used = 0
  · rw [if_pos none, lo_updateRest]
  · rw [if_neg none]
    by_cases short : data.length < 64 - used
    · rw [if_pos short, lo_store]
    · rw [if_neg short, lo_updateRest, lo_body, lo_store]

theorem hi_feed (used : Nat) (data : List UInt8) : (m.feed used data).m_hi = m.m_hi := by
  unfold feed
  by_cases none : used = 0
  · rw [if_pos none, hi_updateRest]
  · rw [if_neg none]
    by_cases short : data.length < 64 - used
    · rw [if_pos short, hi_store]
    · rw [if_neg short, hi_updateRest, hi_body, hi_store]

/-! ### The parts of a message -/

/-- **What `NcMd5` is after the bytes of `message`.** -/
structure Absorbed (message : List UInt8) (m : NcMd5) : Prop where
  lo : m.m_lo.toNat = message.length % 2 ^ 29
  hi : m.m_hi.toNat = message.length / 2 ^ 29 % 2 ^ 32
  holds : Holds Md5.init message m

theorem absorbed_new {m_buffer : List UInt8} (room : m_buffer.length = 64) :
    Absorbed [] (new m_buffer) where
  lo := rfl
  hi := rfl
  holds := ⟨rfl, room, rfl⟩

variable {message data : List UInt8}

/-- The number of bytes in the buffer. -/
theorem Absorbed.used (absorbed : Absorbed message m) :
    (m.m_lo &&& 0x3f).toNat = message.length % 64 := by
  rw [UInt32.toNat_and, absorbed.lo]
  show message.length % 2 ^ 29 &&& (2 ^ 6 - 1) = _
  rw [Nat.and_two_pow_sub_one_eq_mod]
  omega

/-- The counter of 29 bits. -/
theorem lo_count (n : Nat) :
    (m.count (UInt64.ofNat n)).m_lo.toNat = (m.m_lo.toNat + n) % 2 ^ 29 := by
  show ((m.m_lo.toUInt64 + UInt64.ofNat n) &&& 0x1fffffff).toUInt32.toNat = _
  rw [UInt64.toNat_toUInt32, UInt64.toNat_and, UInt64.toNat_add, UInt32.toNat_toUInt64,
    UInt64.toNat_ofNat']
  show ((m.m_lo.toNat + n % 2 ^ 64) % 2 ^ 64 &&& (2 ^ 29 - 1)) % 2 ^ 32 = _
  rw [Nat.and_two_pow_sub_one_eq_mod]
  omega

/-- The counter of 32 bits, with the carry of the other. -/
theorem hi_count {n : Nat} (small : n < 2 ^ 64) :
    (m.count (UInt64.ofNat n)).m_hi.toNat =
      (m.m_hi.toNat + (if (m.m_lo.toNat + n) % 2 ^ 29 < m.m_lo.toNat then 1 else 0) + n / 2 ^ 29) %
        2 ^ 32 := by
  have carry : (m.count (UInt64.ofNat n)).m_lo < m.m_lo ↔
      (m.m_lo.toNat + n) % 2 ^ 29 < m.m_lo.toNat := by
    rw [UInt32.lt_iff_toNat_lt, lo_count]
  have rest : ((UInt64.ofNat n) >>> 29).toUInt32.toNat = n / 2 ^ 29 % 2 ^ 32 := by
    rw [UInt64.toNat_toUInt32, UInt64.toNat_shiftRight, UInt64.toNat_ofNat', Nat.mod_eq_of_lt small,
      Nat.shiftRight_eq_div_pow]
    rfl
  show ((if (m.count (UInt64.ofNat n)).m_lo < m.m_lo then m.m_hi + 1 else m.m_hi) +
    ((UInt64.ofNat n) >>> 29).toUInt32).toNat = _
  rw [UInt32.toNat_add, rest]
  by_cases carried : (m.m_lo.toNat + n) % 2 ^ 29 < m.m_lo.toNat
  · rw [if_pos (carry.mpr carried), if_pos carried, UInt32.toNat_add]
    show ((m.m_hi.toNat + 1) % 2 ^ 32 + _) % 2 ^ 32 = _
    omega
  · rw [if_neg (fun less => carried (carry.mp less)), if_neg carried]
    omega

/-- **A part of the message**, of any length. -/
theorem absorbed_update (absorbed : Absorbed message m) (small : data.length < 2 ^ 64) :
    Absorbed (message ++ data) (m.update data) := by
  have lo := absorbed.lo
  have hi := absorbed.hi
  refine ⟨?_, ?_, ?_⟩
  · show (feed _ data _).m_lo.toNat = _
    rw [lo_feed, lo_count, lo, List.length_append]
    omega
  · show (feed _ data _).m_hi.toNat = _
    rw [hi_feed, hi_count small, lo, hi, List.length_append]
    split <;> omega
  · have inside : message.length % 64 < 64 := Nat.mod_lt _ (by decide)
    have fed := holds_feed (m := m.count (UInt64.ofNat data.length)) absorbed.holds.room inside data
    have state : m.abcd = (m.count (UInt64.ofNat data.length)).abcd := rfl
    have stored : m.m_buffer = (m.count (UInt64.ofNat data.length)).m_buffer := rfl
    rw [← state, ← stored, absorbed.holds.buffer, absorbed.holds.abcd] at fed
    show Holds _ _ (feed (m.m_lo &&& 0x3f).toNat data _)
    rw [absorbed.used]
    refine ⟨?_, fed.room, ?_⟩
    · rw [fed.abcd, ← blocks_append (by decide)]
    · rw [pending_append (by decide), ← fed.buffer, List.length_append, List.length_append,
        length_pending, Nat.mod_add_mod]

/-- **A message in parts.** -/
theorem absorbed_updates (chunks : List (List UInt8)) (absorbed : Absorbed message m)
    (small : ∀ chunk ∈ chunks, chunk.length < 2 ^ 64) :
    Absorbed (message ++ chunks.flatten) (chunks.foldl update m) := by
  induction chunks generalizing message m with
  | nil =>
      rw [List.flatten_nil, List.append_nil]
      exact absorbed
  | cons chunk chunks ih =>
      obtain ⟨first, rest⟩ := List.forall_mem_cons.mp small
      rw [List.flatten_cons, ← List.append_assoc]
      exact ih (absorbed_update absorbed first) rest

/-! ### The end of the message -/

/-- The buffer begins with the bytes. -/
structure Filled (xs : List UInt8) (m : NcMd5) : Prop where
  room : m.m_buffer.length = 64
  first : m.m_buffer.take xs.length = xs

variable {xs : List UInt8}

theorem Filled.store (filled : Filled xs m) {used : Nat} (at_ : used = xs.length) (ys : List UInt8)
    (fits : xs.length + ys.length ≤ 64) : Filled (xs ++ ys) (m.store used ys) := by
  have room := filled.room
  subst at_
  refine ⟨?_, ?_⟩
  · rw [length_store (by omega), room]
  · rw [List.length_append, take_store ys (by omega), filled.first]

theorem Filled.whole (filled : Filled xs m) (all : xs.length = 64) : m.m_buffer = xs := by
  have first := filled.first
  rwa [all, ← filled.room, List.take_length] at first

/-- The block in the buffer is run. -/
theorem Filled.abcd_body (filled : Filled xs m) (all : xs.length = 64) :
    (m.body m.m_buffer 64).abcd = Md5.compress m.abcd xs := by
  rw [filled.whole all, NcMd5.abcd_body all]

theorem lo_hpad : m.hpad.m_lo = m.m_lo := by
  unfold hpad
  by_cases none : 64 - ((m.m_lo &&& 0x3f).toNat + 1) < 8
  · rw [if_pos none, lo_store, lo_body, lo_store, lo_store]
  · rw [if_neg none, lo_store, lo_store]

theorem hi_hpad : m.hpad.m_hi = m.m_hi := by
  unfold hpad
  by_cases none : 64 - ((m.m_lo &&& 0x3f).toNat + 1) < 8
  · rw [if_pos none, hi_store, hi_body, hi_store, hi_store]
  · rw [if_neg none, hi_store, hi_store]

/-- **The two cases of the padding**: the rest of the message and its padding are one block, or two
of which the first is run. -/
theorem hpad_spec (absorbed : Absorbed message m) :
    ∃ xs, xs.length = 56 ∧ Filled xs m.hpad ∧ ∀ ys : List UInt8, ys.length = 8 →
      blocks 64 Md5.compress m.abcd
          (pending 64 message ++ [0x80] ++ Md5.zeros message.length ++ ys) =
        Md5.compress m.hpad.abcd (xs ++ ys) := by
  have length : (pending 64 message).length = message.length % 64 := length_pending message
  have room := absorbed.holds.room
  have start : Filled (pending 64 message) m := ⟨room, by rw [length, absorbed.holds.buffer]⟩
  have inside : message.length % 64 < 64 := Nat.mod_lt _ (by decide)
  have marked : Filled (pending 64 message ++ [0x80]) (m.store (message.length % 64) [0x80]) := by
    refine start.store length.symm _ ?_
    rw [length, List.length_singleton]
    omega
  have used : (pending 64 message ++ [0x80]).length = message.length % 64 + 1 := by
    rw [List.length_append, length, List.length_singleton]
  unfold hpad
  rw [absorbed.used]
  by_cases two : 64 - (message.length % 64 + 1) < 8
  · rw [if_pos two]
    have filled := marked.store used.symm (List.replicate (64 - (message.length % 64 + 1)) 0)
      (by rw [used, List.length_replicate]; omega)
    have all : (pending 64 message ++ [0x80] ++
        List.replicate (64 - (message.length % 64 + 1)) 0).length = 64 := by
      rw [List.length_append, used, List.length_replicate]
      omega
    have split : Md5.zeros message.length =
        List.replicate (64 - (message.length % 64 + 1)) 0 ++ List.replicate (64 - 8) 0 := by
      rw [Md5.zeros, ← List.replicate_add]
      congr 1
      omega
    refine ⟨List.replicate (64 - 8) 0, List.length_replicate, ?_, fun ys eight => ?_⟩
    · have empty : Filled [] (((m.store (message.length % 64) [0x80]).store
          (message.length % 64 + 1) (List.replicate (64 - (message.length % 64 + 1)) 0)).body
          ((m.store (message.length % 64) [0x80]).store (message.length % 64 + 1)
            (List.replicate (64 - (message.length % 64 + 1)) 0)).m_buffer 64) :=
        ⟨filled.room, rfl⟩
      exact empty.store rfl _ (by decide)
    · rw [abcd_store, filled.abcd_body all, abcd_store, abcd_store, split, ← List.append_assoc,
        List.append_assoc _ (List.replicate (64 - 8) 0), blocks_block_append (by decide) _ _ all,
        blocks_block (by decide)]
      rw [List.length_append, List.length_replicate, eight]
  · rw [if_neg two]
    have filled := marked.store used.symm
      (List.replicate (64 - (message.length % 64 + 1) - 8) 0)
      (by rw [used, List.length_replicate]; omega)
    have fill : (pending 64 message ++ [0x80] ++
        List.replicate (64 - (message.length % 64 + 1) - 8) 0).length = 56 := by
      rw [List.length_append, used, List.length_replicate]
      omega
    have same : Md5.zeros message.length =
        List.replicate (64 - (message.length % 64 + 1) - 8) 0 := by
      rw [Md5.zeros]
      congr 1
      omega
    refine ⟨_, fill, filled, fun ys eight => ?_⟩
    rw [abcd_store, abcd_store, same, blocks_block (by decide)]
    rw [List.length_append, fill, eight]

/-! ### The digest -/

theorem bytes_eq (x : UInt32) : bytes x = Md5.bytesOf 4 x.toNat := by
  have byte (i : Nat) (inside : i < 4) : (x >>> UInt32.ofNat (8 * i)).toUInt8 =
      UInt8.ofNat (x.toNat / 256 ^ i) := by
    have amount : (UInt32.ofNat (8 * i)).toNat % 32 = 8 * i := by
      rw [UInt32.toNat_ofNat']
      omega
    rw [← UInt8.toNat_inj, UInt32.toNat_toUInt8, UInt32.toNat_shiftRight, amount,
      Nat.shiftRight_eq_div_pow, pow_mul, UInt8.toNat_ofNat']
    rfl
  have zero : x.toUInt8 = (x >>> UInt32.ofNat (8 * 0)).toUInt8 := by simp
  show [x.toUInt8, (x >>> UInt32.ofNat (8 * 1)).toUInt8, (x >>> UInt32.ofNat (8 * 2)).toUInt8,
    (x >>> UInt32.ofNat (8 * 3)).toUInt8] = _
  rw [zero, byte 0 (by decide), byte 1 (by decide), byte 2 (by decide), byte 3 (by decide)]
  rfl

/-- The length in bits, as the two counters have it. -/
theorem length_bytes (absorbed : Absorbed message m) (small : message.length < 2 ^ 61) :
    bytes (m.m_lo <<< 3) ++ bytes m.m_hi = Md5.bytesOf 8 (8 * message.length) := by
  have low : (m.m_lo <<< 3).toNat = 8 * message.length % 256 ^ 4 := by
    rw [UInt32.toNat_shiftLeft, absorbed.lo, Nat.shiftLeft_eq]
    show message.length % 2 ^ 29 * 2 ^ 3 % 2 ^ 32 = _
    omega
  have high : m.m_hi.toNat = 8 * message.length / 256 ^ 4 := by
    rw [absorbed.hi]
    omega
  rw [bytes_eq, bytes_eq, low, high, Md5.bytesOf_mod, ← Md5.bytesOf_add]

/-- **The digest of the bytes that were taken.** -/
theorem hfinal_eq (absorbed : Absorbed message m) (small : message.length < 2 ^ 61) :
    m.hfinal = Md5.digest message := by
  obtain ⟨xs, length, filled, last⟩ := hpad_spec absorbed
  have size := length_bytes absorbed small
  have eight : (Md5.bytesOf 8 (8 * message.length)).length = 8 := Md5.length_bytesOf 8 _
  have whole : (xs ++ Md5.bytesOf 8 (8 * message.length)).length = 64 := by
    rw [List.length_append, length, eight]
  have stored := filled.store length.symm (Md5.bytesOf 8 (8 * message.length))
    (Nat.le_of_eq (by rw [length, eight]))
  have words : blocks 64 Md5.compress Md5.init (Md5.pad message) =
      Md5.compress m.hpad.abcd (xs ++ Md5.bytesOf 8 (8 * message.length)) := by
    rw [← last _ eight, absorbed.holds.abcd, Md5.pad, List.append_assoc, List.append_assoc,
      blocks_append (by decide), ← List.append_assoc, ← List.append_assoc]
  have run := stored.abcd_body whole
  rw [abcd_store, ← words] at run
  unfold hfinal Md5.digest
  dsimp only
  rw [lo_hpad, hi_hpad, size, run, bytes_eq, bytes_eq, bytes_eq, bytes_eq]

/-- A byte of a word, in its place. -/
theorem getLsbD_byte (x : UInt32) {s : UInt32} {i : Nat} (place : s.toNat < 32) (inside : i < 32) :
    ((x >>> s).toUInt8.toUInt32 <<< s).toBitVec.getLsbD i =
      (decide (s.toNat ≤ i ∧ i < s.toNat + 8) && x.toBitVec.getLsbD i) := by
  have amount : (s.toBitVec % 32).toNat = s.toNat := by
    rw [BitVec.toNat_umod]
    exact Nat.mod_eq_of_lt place
  rw [UInt32.toBitVec_shiftLeft, UInt8.toBitVec_toUInt32, UInt32.toBitVec_toUInt8,
    UInt32.toBitVec_shiftRight, BitVec.shiftLeft_eq', BitVec.ushiftRight_eq', amount,
    BitVec.getLsbD_shiftLeft, BitVec.getLsbD_setWidth, BitVec.getLsbD_setWidth,
    BitVec.getLsbD_ushiftRight]
  by_cases low : s.toNat ≤ i
  · by_cases high : i < s.toNat + 8
    · simp [low, high, inside, show ¬ i < s.toNat by omega, show i - s.toNat < 8 by omega,
        show i - s.toNat < 32 by omega]
    · simp [low, high, inside, show ¬ i - s.toNat < 8 by omega]
  · simp [low, show i < s.toNat by omega]

/-- The four bytes of a word make the word. -/
theorem or_bytes (x : UInt32) :
    (x >>> 24).toUInt8.toUInt32 <<< 24 ||| (x >>> 16).toUInt8.toUInt32 <<< 16 |||
      (x >>> 8).toUInt8.toUInt32 <<< 8 ||| (x >>> 0).toUInt8.toUInt32 <<< 0 = x := by
  refine UInt32.toBitVec_inj.mp (BitVec.eq_of_getLsbD_eq fun i inside => ?_)
  rw [UInt32.toBitVec_or, UInt32.toBitVec_or, UInt32.toBitVec_or, BitVec.getLsbD_or,
    BitVec.getLsbD_or, BitVec.getLsbD_or, getLsbD_byte x (by decide) inside,
    getLsbD_byte x (by decide) inside, getLsbD_byte x (by decide) inside,
    getLsbD_byte x (by decide) inside, ← Bool.and_or_distrib_right, ← Bool.and_or_distrib_right,
    ← Bool.and_or_distrib_right, ← Bool.decide_or, ← Bool.decide_or, ← Bool.decide_or]
  simp only [UInt32.reduceToNat]
  rw [decide_eq_true (by omega), Bool.true_and]

theorem byte_and_ff (b : UInt8) : b.toUInt32 &&& 0xFF = b.toUInt32 := by
  rw [← UInt32.toNat_inj, UInt32.toNat_and, UInt8.toNat_toUInt32]
  show b.toNat &&& (2 ^ 8 - 1) = b.toNat
  rw [Nat.and_two_pow_sub_one_eq_mod]
  exact Nat.mod_eq_of_lt b.toNat_lt

/-- **`md5Hash` is the first four bytes of the digest**, the lowest first. -/
theorem md5Hash_eq {m_buffer key : List UInt8} (room : m_buffer.length = 64)
    (small : key.length < 2 ^ 61) :
    NcHashUtil.md5Hash m_buffer key = word ((Md5.digest key).take 4) := by
  have absorbed : Absorbed key ((new m_buffer).update key) :=
    absorbed_update (absorbed_new room) (small.trans (by decide))
  have digest := hfinal_eq absorbed small
  unfold NcHashUtil.md5Hash signature
  rw [digest]
  unfold Md5.digest
  generalize blocks 64 Md5.compress Md5.init (Md5.pad key) = w
  dsimp only
  rw [← bytes_eq, ← bytes_eq, ← bytes_eq, ← bytes_eq]
  have first : word ((bytes w.a ++ bytes w.b ++ bytes w.c ++ bytes w.d).take 4) = w.a := by
    show word (bytes w.a) = w.a
    have below : w.a.toNat < 256 ^ 4 := w.a.toNat_lt
    rw [bytes_eq, word, Md5.ofBytes_bytesOf, Nat.mod_eq_of_lt below, UInt32.ofNat_toNat]
  have joined := or_bytes w.a
  rw [first]
  rw [UInt32.shiftRight_zero, UInt32.shiftLeft_zero] at joined
  show (((w.a >>> 24).toUInt8.toUInt32 &&& 0xFF) <<< 24) |||
    (((w.a >>> 16).toUInt8.toUInt32 &&& 0xFF) <<< 16) |||
    (((w.a >>> 8).toUInt8.toUInt32 &&& 0xFF) <<< 8) ||| (w.a.toUInt8.toUInt32 &&& 0xFF) = w.a
  rw [byte_and_ff, byte_and_ff, byte_and_ff, byte_and_ff, joined]

/-- **However a message is cut into parts**, `hfinal` gives its digest, and `md5Hash` the first four
bytes of it. -/
theorem md5_chunks (m_buffer : List UInt8) (chunks : List (List UInt8))
    (room : m_buffer.length = 64) (small : chunks.flatten.length < 2 ^ 61) :
    (chunks.foldl update (new m_buffer)).hfinal = Md5.digest chunks.flatten ∧
      NcHashUtil.md5Hash m_buffer chunks.flatten = word ((Md5.digest chunks.flatten).take 4) := by
  have parts : ∀ chunk ∈ chunks, chunk.length < 2 ^ 64 := fun chunk member =>
    ((List.sublist_flatten_of_mem member).length_le.trans_lt small).trans (by decide)
  have absorbed := absorbed_updates chunks (absorbed_new room) parts
  exact ⟨hfinal_eq absorbed small, md5Hash_eq room small⟩

/-- A message in three parts, one of them empty. -/
theorem md5_chunks_abc :
    ([[97], [], [98, 99]].foldl update (new (List.replicate 64 7))).hfinal =
        Md5.digest [97, 98, 99] ∧
      NcHashUtil.md5Hash (List.replicate 64 7) [97, 98, 99] =
        word ((Md5.digest [97, 98, 99]).take 4) :=
  md5_chunks (List.replicate 64 7) [[97], [], [98, 99]] (by decide) (by decide)

end NcMd5

end Nutcracker
