/-
**The cyclic redundancy checks among the hash functions.**

`crc16Hash`, `crc32Hash` and `crc32aHash` take a byte of the key at a time, with a table of 256
entries; `crc32Hash` widens a plain `char` to 64 bits, and keeps the bits 16 to 30.

* `crc32`, `crc16` — the checks, bit by bit.
* `crc32tab_getD`, `crc16tab_getD` — the entries of the tables.
* `crc32_variants` — **`crc32aHash` is the CRC-32, and `crc32Hash` bits 16 to 30 of it**.
* `register16_eq` — `crc16Hash` keeps 16 bits more than the CRC-16: what was in its upper byte after
  the last byte but one, and after the one before.
* `crc16Hash_iff` — **so it is the CRC-16 exactly if both of these are zero**.
-/

import Nutcracker.Lib.Crc
import Nutcracker.Lib.PlainChar
import Mathlib.Algebra.Ring.Nat
import Mathlib.Data.List.Induction

namespace Nutcracker

open Lib

/-! ### The checks, bit by bit -/

/-- The bits of a byte, the lowest first. -/
def lsbFirst (b : UInt8) : List Bool := (List.range 8).map fun i => b.toBitVec.getLsbD i

/-- The bits of a byte, the highest first. -/
def msbFirst (b : UInt8) : List Bool := (List.range 8).map fun i => b.toBitVec.getMsbD i

/-- **CRC-32**: the reflected polynomial `0xEDB88320`, with ones at the start and added at the end. -/
def crc32 (message : List UInt8) : BitVec 32 :=
  Shift.down.crc 0xEDB88320 0xFFFFFFFF (message.flatMap lsbFirst) ^^^ 0xFFFFFFFF

/-- **CRC-16** with the polynomial `0x1021`, from zero. -/
def crc16 (message : List UInt8) : BitVec 16 :=
  Shift.up.crc 0x1021 0 (message.flatMap msbFirst)

namespace NcHashUtil

def crc16tab : Array UInt16 :=
  #[0x0000, 0x1021, 0x2042, 0x3063, 0x4084, 0x50a5, 0x60c6, 0x70e7,
    0x8108, 0x9129, 0xa14a, 0xb16b, 0xc18c, 0xd1ad, 0xe1ce, 0xf1ef,
    0x1231, 0x0210, 0x3273, 0x2252, 0x52b5, 0x4294, 0x72f7, 0x62d6,
    0x9339, 0x8318, 0xb37b, 0xa35a, 0xd3bd, 0xc39c, 0xf3ff, 0xe3de,
    0x2462, 0x3443, 0x0420, 0x1401, 0x64e6, 0x74c7, 0x44a4, 0x5485,
    0xa56a, 0xb54b, 0x8528, 0x9509, 0xe5ee, 0xf5cf, 0xc5ac, 0xd58d,
    0x3653, 0x2672, 0x1611, 0x0630, 0x76d7, 0x66f6, 0x5695, 0x46b4,
    0xb75b, 0xa77a, 0x9719, 0x8738, 0xf7df, 0xe7fe, 0xd79d, 0xc7bc,
    0x48c4, 0x58e5, 0x6886, 0x78a7, 0x0840, 0x1861, 0x2802, 0x3823,
    0xc9cc, 0xd9ed, 0xe98e, 0xf9af, 0x8948, 0x9969, 0xa90a, 0xb92b,
    0x5af5, 0x4ad4, 0x7ab7, 0x6a96, 0x1a71, 0x0a50, 0x3a33, 0x2a12,
    0xdbfd, 0xcbdc, 0xfbbf, 0xeb9e, 0x9b79, 0x8b58, 0xbb3b, 0xab1a,
    0x6ca6, 0x7c87, 0x4ce4, 0x5cc5, 0x2c22, 0x3c03, 0x0c60, 0x1c41,
    0xedae, 0xfd8f, 0xcdec, 0xddcd, 0xad2a, 0xbd0b, 0x8d68, 0x9d49,
    0x7e97, 0x6eb6, 0x5ed5, 0x4ef4, 0x3e13, 0x2e32, 0x1e51, 0x0e70,
    0xff9f, 0xefbe, 0xdfdd, 0xcffc, 0xbf1b, 0xaf3a, 0x9f59, 0x8f78,
    0x9188, 0x81a9, 0xb1ca, 0xa1eb, 0xd10c, 0xc12d, 0xf14e, 0xe16f,
    0x1080, 0x00a1, 0x30c2, 0x20e3, 0x5004, 0x4025, 0x7046, 0x6067,
    0x83b9, 0x9398, 0xa3fb, 0xb3da, 0xc33d, 0xd31c, 0xe37f, 0xf35e,
    0x02b1, 0x1290, 0x22f3, 0x32d2, 0x4235, 0x5214, 0x6277, 0x7256,
    0xb5ea, 0xa5cb, 0x95a8, 0x8589, 0xf56e, 0xe54f, 0xd52c, 0xc50d,
    0x34e2, 0x24c3, 0x14a0, 0x0481, 0x7466, 0x6447, 0x5424, 0x4405,
    0xa7db, 0xb7fa, 0x8799, 0x97b8, 0xe75f, 0xf77e, 0xc71d, 0xd73c,
    0x26d3, 0x36f2, 0x0691, 0x16b0, 0x6657, 0x7676, 0x4615, 0x5634,
    0xd94c, 0xc96d, 0xf90e, 0xe92f, 0x99c8, 0x89e9, 0xb98a, 0xa9ab,
    0x5844, 0x4865, 0x7806, 0x6827, 0x18c0, 0x08e1, 0x3882, 0x28a3,
    0xcb7d, 0xdb5c, 0xeb3f, 0xfb1e, 0x8bf9, 0x9bd8, 0xabbb, 0xbb9a,
    0x4a75, 0x5a54, 0x6a37, 0x7a16, 0x0af1, 0x1ad0, 0x2ab3, 0x3a92,
    0xfd2e, 0xed0f, 0xdd6c, 0xcd4d, 0xbdaa, 0xad8b, 0x9de8, 0x8dc9,
    0x7c26, 0x6c07, 0x5c64, 0x4c45, 0x3ca2, 0x2c83, 0x1ce0, 0x0cc1,
    0xef1f, 0xff3e, 0xcf5d, 0xdf7c, 0xaf9b, 0xbfba, 0x8fd9, 0x9ff8,
    0x6e17, 0x7e36, 0x4e55, 0x5e74, 0x2e93, 0x3eb2, 0x0ed1, 0x1ef0]

/-- The table of `crc32Hash`, and of `crc32aHash`. -/
def crc32tab : Array UInt32 :=
  #[0x00000000, 0x77073096, 0xee0e612c, 0x990951ba,
    0x076dc419, 0x706af48f, 0xe963a535, 0x9e6495a3,
    0x0edb8832, 0x79dcb8a4, 0xe0d5e91e, 0x97d2d988,
    0x09b64c2b, 0x7eb17cbd, 0xe7b82d07, 0x90bf1d91,
    0x1db71064, 0x6ab020f2, 0xf3b97148, 0x84be41de,
    0x1adad47d, 0x6ddde4eb, 0xf4d4b551, 0x83d385c7,
    0x136c9856, 0x646ba8c0, 0xfd62f97a, 0x8a65c9ec,
    0x14015c4f, 0x63066cd9, 0xfa0f3d63, 0x8d080df5,
    0x3b6e20c8, 0x4c69105e, 0xd56041e4, 0xa2677172,
    0x3c03e4d1, 0x4b04d447, 0xd20d85fd, 0xa50ab56b,
    0x35b5a8fa, 0x42b2986c, 0xdbbbc9d6, 0xacbcf940,
    0x32d86ce3, 0x45df5c75, 0xdcd60dcf, 0xabd13d59,
    0x26d930ac, 0x51de003a, 0xc8d75180, 0xbfd06116,
    0x21b4f4b5, 0x56b3c423, 0xcfba9599, 0xb8bda50f,
    0x2802b89e, 0x5f058808, 0xc60cd9b2, 0xb10be924,
    0x2f6f7c87, 0x58684c11, 0xc1611dab, 0xb6662d3d,
    0x76dc4190, 0x01db7106, 0x98d220bc, 0xefd5102a,
    0x71b18589, 0x06b6b51f, 0x9fbfe4a5, 0xe8b8d433,
    0x7807c9a2, 0x0f00f934, 0x9609a88e, 0xe10e9818,
    0x7f6a0dbb, 0x086d3d2d, 0x91646c97, 0xe6635c01,
    0x6b6b51f4, 0x1c6c6162, 0x856530d8, 0xf262004e,
    0x6c0695ed, 0x1b01a57b, 0x8208f4c1, 0xf50fc457,
    0x65b0d9c6, 0x12b7e950, 0x8bbeb8ea, 0xfcb9887c,
    0x62dd1ddf, 0x15da2d49, 0x8cd37cf3, 0xfbd44c65,
    0x4db26158, 0x3ab551ce, 0xa3bc0074, 0xd4bb30e2,
    0x4adfa541, 0x3dd895d7, 0xa4d1c46d, 0xd3d6f4fb,
    0x4369e96a, 0x346ed9fc, 0xad678846, 0xda60b8d0,
    0x44042d73, 0x33031de5, 0xaa0a4c5f, 0xdd0d7cc9,
    0x5005713c, 0x270241aa, 0xbe0b1010, 0xc90c2086,
    0x5768b525, 0x206f85b3, 0xb966d409, 0xce61e49f,
    0x5edef90e, 0x29d9c998, 0xb0d09822, 0xc7d7a8b4,
    0x59b33d17, 0x2eb40d81, 0xb7bd5c3b, 0xc0ba6cad,
    0xedb88320, 0x9abfb3b6, 0x03b6e20c, 0x74b1d29a,
    0xead54739, 0x9dd277af, 0x04db2615, 0x73dc1683,
    0xe3630b12, 0x94643b84, 0x0d6d6a3e, 0x7a6a5aa8,
    0xe40ecf0b, 0x9309ff9d, 0x0a00ae27, 0x7d079eb1,
    0xf00f9344, 0x8708a3d2, 0x1e01f268, 0x6906c2fe,
    0xf762575d, 0x806567cb, 0x196c3671, 0x6e6b06e7,
    0xfed41b76, 0x89d32be0, 0x10da7a5a, 0x67dd4acc,
    0xf9b9df6f, 0x8ebeeff9, 0x17b7be43, 0x60b08ed5,
    0xd6d6a3e8, 0xa1d1937e, 0x38d8c2c4, 0x4fdff252,
    0xd1bb67f1, 0xa6bc5767, 0x3fb506dd, 0x48b2364b,
    0xd80d2bda, 0xaf0a1b4c, 0x36034af6, 0x41047a60,
    0xdf60efc3, 0xa867df55, 0x316e8eef, 0x4669be79,
    0xcb61b38c, 0xbc66831a, 0x256fd2a0, 0x5268e236,
    0xcc0c7795, 0xbb0b4703, 0x220216b9, 0x5505262f,
    0xc5ba3bbe, 0xb2bd0b28, 0x2bb45a92, 0x5cb36a04,
    0xc2d7ffa7, 0xb5d0cf31, 0x2cd99e8b, 0x5bdeae1d,
    0x9b64c2b0, 0xec63f226, 0x756aa39c, 0x026d930a,
    0x9c0906a9, 0xeb0e363f, 0x72076785, 0x05005713,
    0x95bf4a82, 0xe2b87a14, 0x7bb12bae, 0x0cb61b38,
    0x92d28e9b, 0xe5d5be0d, 0x7cdcefb7, 0x0bdbdf21,
    0x86d3d2d4, 0xf1d4e242, 0x68ddb3f8, 0x1fda836e,
    0x81be16cd, 0xf6b9265b, 0x6fb077e1, 0x18b74777,
    0x88085ae6, 0xff0f6a70, 0x66063bca, 0x11010b5c,
    0x8f659eff, 0xf862ae69, 0x616bffd3, 0x166ccf45,
    0xa00ae278, 0xd70dd2ee, 0x4e048354, 0x3903b3c2,
    0xa7672661, 0xd06016f7, 0x4969474d, 0x3e6e77db,
    0xaed16a4a, 0xd9d65adc, 0x40df0b66, 0x37d83bf0,
    0xa9bcae53, 0xdebb9ec5, 0x47b2cf7f, 0x30b5ffe9,
    0xbdbdf21c, 0xcabac28a, 0x53b39330, 0x24b4a3a6,
    0xbad03605, 0xcdd70693, 0x54de5729, 0x23d967bf,
    0xb3667a2e, 0xc4614ab8, 0x5d681b02, 0x2a6f2b94,
    0xb40bbe37, 0xc30c8ea1, 0x5a05df1b, 0x2d02ef8d]

/-- A turn of the loop of `crc16Hash`. -/
def crc16Turn (char : PlainChar) (crc : UInt32) (key : UInt8) : UInt32 :=
  crc <<< 8 ^^^ (crc16tab.getD ((crc >>> 8 ^^^ char.toUInt32 key) &&& 0x00ff).toNat 0).toUInt32

/-- **`NcHashUtil::crc16Hash`.** -/
def crc16Hash (char : PlainChar) (key : List UInt8) : UInt32 := key.foldl (crc16Turn char) 0

/-- A turn of the loop of `crc32Hash`. -/
def crc32Turn (char : PlainChar) (crc : UInt32) (key : UInt8) : UInt32 :=
  crc >>> 8 ^^^ crc32tab.getD ((crc.toUInt64 ^^^ char.toUInt64 key) &&& 0xff).toNat 0

/-- **`NcHashUtil::crc32Hash`.** -/
def crc32Hash (char : PlainChar) (key : List UInt8) : UInt32 :=
  let crc := key.foldl (crc32Turn char) 0xffffffff
  (~~~crc) >>> 16 &&& 0x7fff

/-- A turn of the loop of `crc32aHash`. -/
def crc32aTurn (crc : UInt32) (p : UInt8) : UInt32 :=
  crc32tab.getD ((crc ^^^ p.toUInt32) &&& 0xFF).toNat 0 ^^^ crc >>> 8

/-- **`NcHashUtil::crc32aHash`.** -/
def crc32aHash (key : List UInt8) : UInt32 :=
  let crc := key.foldl crc32aTurn (~~~0)
  crc ^^^ ~~~0

/-! ### The tables -/

/-- The entries of a table that is listed in order. -/
theorem getD_of_toList {α : Type} {tab : Array α} {n : Nat} {entry : Nat → α}
    (entries : tab.toList = (List.range n).map entry) {i : Nat} (inside : i < n) (default : α) :
    tab.getD i default = entry i := by
  rw [Array.getD_eq_getD_getElem?, ← Array.getElem?_toList, entries, List.getElem?_map,
    List.getElem?_range inside]
  rfl

/-- **The table of the CRC-32** has the checks of the bytes from zero. -/
theorem crc32tab_getD (b : UInt8) :
    crc32tab.getD b.toNat 0 = ⟨Shift.down.crc 0xEDB88320 0 (lsbFirst b)⟩ := by
  have entries : crc32tab.toList = (List.range 256).map fun i =>
      (⟨Shift.down.crc 0xEDB88320 0 (lsbFirst (UInt8.ofNat i))⟩ : UInt32) := by decide +kernel
  rw [getD_of_toList entries b.toNat_lt, UInt8.ofNat_toNat]

/-- **The table of the CRC-16** has the checks of the bytes from zero. -/
theorem crc16tab_getD (b : UInt8) :
    crc16tab.getD b.toNat 0 = ⟨Shift.up.crc 0x1021 0 (msbFirst b)⟩ := by
  have entries : crc16tab.toList = (List.range 256).map fun i =>
      (⟨Shift.up.crc 0x1021 0 (msbFirst (UInt8.ofNat i))⟩ : UInt16) := by decide +kernel
  rw [getD_of_toList entries b.toNat_lt, UInt8.ofNat_toNat]

/-! ### A byte of the key -/

variable {char : PlainChar}

/-- The lowest eight bits of a word, as an index. -/
theorem index_eq (x : UInt32) : (x &&& 0xff).toNat = x.toUInt8.toNat := by
  rw [UInt32.toNat_and, UInt32.toNat_toUInt8]
  exact Nat.and_two_pow_sub_one_eq_mod x.toNat 8

theorem index64_eq (x : UInt64) : (x &&& 0xff).toNat = x.toUInt8.toNat := by
  rw [UInt64.toNat_and, UInt64.toNat_toUInt8]
  exact Nat.and_two_pow_sub_one_eq_mod x.toNat 8

/-- The bits of the byte, and those that leave the register. -/
theorem zipWith_lsbFirst (c : UInt32) (b : UInt8) :
    List.zipWith xor (lsbFirst b) (Shift.down.leaving 8 c.toBitVec) =
      lsbFirst (c.toUInt8 ^^^ b) := by
  rw [Shift.leaving_down, lsbFirst, lsbFirst, List.zipWith_map, List.zipWith_self]
  refine List.map_congr_left fun i member => ?_
  have inside := List.mem_range.mp member
  rw [UInt8.toBitVec_xor, BitVec.getLsbD_xor, UInt32.toBitVec_toUInt8, BitVec.getLsbD_setWidth,
    Bool.xor_comm]
  simp [inside]

/-- **A byte of the key from the table** is its eight bits. -/
theorem crc32aTurn_eq (c : UInt32) (b : UInt8) :
    crc32aTurn c b = ⟨Shift.down.crc 0xEDB88320 c.toBitVec (lsbFirst b)⟩ := by
  have index : (c ^^^ b.toUInt32).toUInt8 = c.toUInt8 ^^^ b := by simp
  have bits : Shift.down.crc 0xEDB88320 c.toBitVec (lsbFirst b) =
      c.toBitVec >>> 8 ^^^ Shift.down.crc 0xEDB88320 0 (lsbFirst (c.toUInt8 ^^^ b)) := by
    rw [Shift.crc_table, ← zipWith_lsbFirst, ← Shift.rest_down]
    rfl
  unfold crc32aTurn
  rw [index_eq, index, crc32tab_getD, bits, UInt32.xor_comm]
  rfl

/-- The other loop takes the same turns, from a `char` of either kind. -/
theorem crc32Turn_eq (c : UInt32) (b : UInt8) : crc32Turn char c b = crc32aTurn c b := by
  have index : (c.toUInt64 ^^^ char.toUInt64 b).toUInt8 = (c ^^^ b.toUInt32).toUInt8 := by simp
  unfold crc32Turn crc32aTurn
  rw [index64_eq, index_eq, index, UInt32.xor_comm]

/-- The loop over the key. -/
theorem foldl_crc32aTurn (c : UInt32) (key : List UInt8) :
    key.foldl crc32aTurn c = ⟨Shift.down.crc 0xEDB88320 c.toBitVec (key.flatMap lsbFirst)⟩ := by
  induction key generalizing c with
  | nil => rfl
  | cons b key ih =>
      rw [List.foldl_cons, ih, crc32aTurn_eq, List.flatMap_cons, Shift.crc_append]

theorem crc32aHash_toBitVec (key : List UInt8) : (crc32aHash key).toBitVec = crc32 key := by
  unfold crc32aHash crc32
  rw [foldl_crc32aTurn]
  rfl

theorem crc32Hash_eq_shift (key : List UInt8) :
    crc32Hash char key = crc32aHash key >>> 16 &&& 0x7fff := by
  have turns : crc32Turn char = crc32aTurn := by
    funext c b
    exact crc32Turn_eq c b
  have flip (crc : UInt32) : ~~~crc = crc ^^^ ~~~0 := by simp
  unfold crc32Hash crc32aHash
  rw [turns]
  dsimp only
  rw [flip]
  rfl

/-- **The two CRC-32 variants.** `crc32aHash` is the CRC-32 of the key, and `crc32Hash` is bits 16 to
30 of it, whether a plain `char` is signed or not. -/
theorem crc32_variants (char : PlainChar) (key : List UInt8) :
    (crc32aHash key).toBitVec = crc32 key ∧
      crc32Hash char key = crc32aHash key >>> 16 &&& 0x7fff :=
  ⟨crc32aHash_toBitVec key, crc32Hash_eq_shift key⟩

/-! ### The upper half of the register of `crc16Hash` -/

/-- The upper byte of a CRC-16. -/
def upper (c : BitVec 16) : BitVec 8 := c.extractLsb' 8 8

theorem upper_eq_zero_iff (c : BitVec 16) : upper c = 0 ↔ c.toNat < 256 := by
  rw [← BitVec.toNat_inj, upper, BitVec.extractLsb'_toNat]
  have bound := c.isLt
  simp only [Nat.shiftRight_eq_div_pow]
  show c.toNat / 2 ^ 8 % 2 ^ 8 = 0 ↔ _
  omega

theorem crc16_concat (key : List UInt8) (b : UInt8) :
    crc16 (key ++ [b]) = Shift.up.crc 0x1021 (crc16 key) (msbFirst b) := by
  unfold crc16
  rw [List.flatMap_append, Shift.crc_append, List.flatMap_singleton]

/-- The bits of the byte, and those that leave the register. -/
theorem zipWith_msbFirst (c : BitVec 16) (b : UInt8) :
    List.zipWith xor (msbFirst b) (Shift.up.leaving 8 c) = msbFirst (⟨upper c⟩ ^^^ b) := by
  rw [Shift.leaving_up, msbFirst, msbFirst, List.zipWith_map, List.zipWith_self]
  refine List.map_congr_left fun i member => ?_
  have inside := List.mem_range.mp member
  rw [UInt8.toBitVec_xor, BitVec.getMsbD_xor, Bool.xor_comm]
  congr 1
  have place : 8 + (7 - i) = 15 - i := by omega
  simp [upper, BitVec.getMsbD_eq_getLsbD, inside, place, show i < 16 by omega, show 7 - i < 8 by omega]

/-- A byte of the message at once. -/
theorem crc16_byte (c : BitVec 16) (b : UInt8) :
    Shift.up.crc 0x1021 c (msbFirst b) =
      c <<< 8 ^^^ Shift.up.crc 0x1021 0 (msbFirst (⟨upper c⟩ ^^^ b)) := by
  rw [Shift.crc_table, ← zipWith_msbFirst, ← Shift.rest_up]
  rfl

/-- The three parts of the register, one bit each. -/
theorem getLsbD_register (h₂ h₁ : BitVec 8) (c : BitVec 16) (i : Nat) :
    (h₂ ++ h₁ ++ c).getLsbD i = if i < 16 then c.getLsbD i
      else if i < 24 then h₁.getLsbD (i - 16) else h₂.getLsbD (i - 24) := by
  rw [BitVec.getLsbD_append, BitVec.getLsbD_append]
  split
  · rfl
  · by_cases inside : i < 24
    · rw [if_pos inside, if_pos (by omega)]
    · rw [if_neg inside, if_neg (by omega), Nat.sub_sub]

theorem getLsbD_upper (c : BitVec 16) (i : Nat) :
    (upper c).getLsbD i = (decide (i < 8) && c.getLsbD (8 + i)) := by
  rw [upper, BitVec.getLsbD_extractLsb']

/-- The byte of the register that is added to the byte of the key. -/
theorem upper_register (h₂ h₁ : BitVec 8) (c : BitVec 16) :
    ((⟨h₂ ++ h₁ ++ c⟩ : UInt32) >>> 8).toUInt8 = ⟨upper c⟩ := by
  refine UInt8.toBitVec_inj.mp (BitVec.eq_of_getLsbD_eq fun i inside => ?_)
  show (((h₂ ++ h₁ ++ c) >>> 8).setWidth 8).getLsbD i = (upper c).getLsbD i
  rw [BitVec.getLsbD_setWidth, BitVec.getLsbD_ushiftRight, getLsbD_register, getLsbD_upper,
    if_pos (by omega)]

/-- **The register shifted by a byte**, with an entry of the table added to its lower half. -/
theorem register_shift (h₂ h₁ : BitVec 8) (c entry : BitVec 16) :
    (h₂ ++ h₁ ++ c) <<< 8 ^^^ entry.setWidth 32 = h₁ ++ upper c ++ (c <<< 8 ^^^ entry) := by
  refine BitVec.eq_of_getLsbD_eq fun i inside => ?_
  rw [getLsbD_register, BitVec.getLsbD_xor, BitVec.getLsbD_shiftLeft, getLsbD_register,
    BitVec.getLsbD_setWidth, BitVec.getLsbD_xor, BitVec.getLsbD_shiftLeft, getLsbD_upper]
  by_cases low : i < 16
  · simp [low, inside, show i - 8 < 16 by omega]
  · have above : entry.getLsbD i = false := BitVec.getLsbD_of_ge _ _ (by omega)
    by_cases middle : i < 24
    · simp [low, middle, above, inside, show ¬ i < 8 by omega, show i - 8 < 16 by omega,
        show i - 16 < 8 by omega, show 8 + (i - 16) = i - 8 by omega]
    · simp [low, middle, above, inside, show ¬ i < 8 by omega, show ¬ i - 8 < 16 by omega,
        show i - 8 < 24 by omega, show i - 8 - 16 = i - 24 by omega]

/-- **A turn of the loop**, on the three parts of the register. -/
theorem crc16Turn_eq (h₂ h₁ : BitVec 8) (c : BitVec 16) (b : UInt8) :
    crc16Turn char ⟨h₂ ++ h₁ ++ c⟩ b =
      ⟨h₁ ++ upper c ++ Shift.up.crc 0x1021 c (msbFirst b)⟩ := by
  have index : ((⟨h₂ ++ h₁ ++ c⟩ : UInt32) >>> 8 ^^^ char.toUInt32 b).toUInt8 = ⟨upper c⟩ ^^^ b := by
    rw [UInt32.toUInt8_xor, PlainChar.toUInt8_toUInt32, upper_register]
  unfold crc16Turn
  rw [index_eq, index, crc16tab_getD, crc16_byte c, ← register_shift h₂]
  rfl

/-- **The register of `crc16Hash`**: the CRC-16 of the key, and above it what was in its upper byte
after all but one byte of the key, and after all but two. -/
theorem register16_eq (char : PlainChar) (key : List UInt8) :
    (crc16Hash char key).toBitVec =
      upper (crc16 key.dropLast.dropLast) ++ upper (crc16 key.dropLast) ++ crc16 key := by
  induction key using List.reverseRecOn with
  | nil => rfl
  | append_singleton key b ih =>
      have before : crc16Hash char key =
          ⟨upper (crc16 key.dropLast.dropLast) ++ upper (crc16 key.dropLast) ++ crc16 key⟩ :=
        UInt32.toBitVec_inj.mp ih
      have turn : crc16Hash char (key ++ [b]) = crc16Turn char (crc16Hash char key) b := by
        unfold crc16Hash
        rw [List.foldl_append]
        rfl
      rw [turn, before, crc16Turn_eq, List.dropLast_concat, crc16_concat]

/-- The two bytes above the CRC-16. -/
def carried (key : List UInt8) : BitVec 16 :=
  upper (crc16 key.dropLast.dropLast) ++ upper (crc16 key.dropLast)

theorem crc16Hash_toNat (key : List UInt8) :
    (crc16Hash char key).toNat = 2 ^ 16 * (carried key).toNat + (crc16 key).toNat := by
  rw [← UInt32.toNat_toBitVec, register16_eq, BitVec.toNat_append,
    ← Nat.shiftLeft_add_eq_or_of_lt (crc16 key).isLt, Nat.shiftLeft_eq, Nat.mul_comm]
  rfl

/-- The lower half of the value is the CRC-16. -/
theorem crc16Hash_low (key : List UInt8) :
    (crc16Hash char key).toNat % 2 ^ 16 = (crc16 key).toNat := by
  rw [crc16Hash_toNat, Nat.mul_add_mod, Nat.mod_eq_of_lt (crc16 key).isLt]

theorem carried_eq_zero_iff (key : List UInt8) :
    (carried key).toNat = 0 ↔
      (crc16 key.dropLast).toNat < 256 ∧ (crc16 key.dropLast.dropLast).toNat < 256 := by
  have parts : (carried key).toNat = 2 ^ 8 * (upper (crc16 key.dropLast.dropLast)).toNat +
      (upper (crc16 key.dropLast)).toNat := by
    rw [carried, BitVec.toNat_append, ← Nat.shiftLeft_add_eq_or_of_lt (BitVec.isLt _),
      Nat.shiftLeft_eq, Nat.mul_comm]
  rw [← upper_eq_zero_iff, ← upper_eq_zero_iff, ← BitVec.toNat_inj, ← BitVec.toNat_inj, parts]
  show _ ↔ _ = 0 ∧ _ = 0
  omega

/-- **`crc16Hash` returns the CRC-16 exactly if it was below 256 after all but one byte of the key, and
after all but two.** -/
theorem crc16Hash_iff (char : PlainChar) (key : List UInt8) :
    (crc16Hash char key).toNat = (crc16 key).toNat ↔
      (crc16 key.dropLast).toNat < 256 ∧ (crc16 key.dropLast.dropLast).toNat < 256 := by
  rw [← carried_eq_zero_iff, crc16Hash_toNat]
  omega

/-- **A key of two bytes with a value above `2 ^ 16`.** -/
theorem crc16Hash_ab :
    ¬ ((crc16Hash .signed [97, 98]).toNat = (crc16 [97, 98]).toNat) ∧
      2 ^ 16 ≤ (crc16Hash .signed [97, 98]).toNat := by
  decide +kernel

end NcHashUtil

end Nutcracker
