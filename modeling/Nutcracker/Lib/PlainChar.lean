/-
**Plain `char`.**

Whether a plain `char` is signed is up to the platform. A byte of `0x80` or above that is widened from
a signed one has its sign in every bit above the lowest eight.

* `toUInt32_signed` — a signed byte is the unsigned one with ones above it, or the byte itself below
  `0x80`.
* `toUInt8_toUInt32`, `toUInt8_toUInt64` — the lowest eight bits are the byte.
-/

import Mathlib.Data.List.Basic

namespace Nutcracker.Lib

/-- What a plain `char` is on a platform. -/
inductive PlainChar
  | signed
  | unsigned
  deriving DecidableEq

namespace PlainChar

/-- `(uint32_t)c`, of the plain `char` with the bits of the byte. -/
def toUInt32 : PlainChar → UInt8 → UInt32
  | signed, b => b.toInt8.toInt32.toUInt32
  | unsigned, b => b.toUInt32

/-- `(uint64_t)c`. -/
def toUInt64 : PlainChar → UInt8 → UInt64
  | signed, b => b.toInt8.toInt64.toUInt64
  | unsigned, b => b.toUInt64

end PlainChar

/-- A byte that is negative as a signed `char`. -/
def High (b : UInt8) : Prop := 0x80 ≤ b

instance (b : UInt8) : Decidable (High b) := UInt8.decLe 0x80 b

namespace PlainChar

/-- A fact about all bytes, one by one. -/
theorem forall_byte {P : UInt8 → Prop} (all : ∀ n : Nat, n < 256 → P (UInt8.ofNat n)) (b : UInt8) :
    P b := by
  have this := all b.toNat b.toNat_lt
  rwa [UInt8.ofNat_toNat] at this

theorem toUInt32_signed (b : UInt8) :
    signed.toUInt32 b = if High b then b.toUInt32 ^^^ 0xffffff00 else b.toUInt32 :=
  forall_byte (P := fun b => signed.toUInt32 b =
    if High b then b.toUInt32 ^^^ 0xffffff00 else b.toUInt32) (by decide +kernel) b

@[simp] theorem toUInt8_toUInt32 (char : PlainChar) (b : UInt8) :
    (char.toUInt32 b).toUInt8 = b := by
  cases char with
  | signed =>
      exact forall_byte (P := fun b => (signed.toUInt32 b).toUInt8 = b) (by decide +kernel) b
  | unsigned =>
      exact forall_byte (P := fun b => (unsigned.toUInt32 b).toUInt8 = b) (by decide +kernel) b

@[simp] theorem toUInt8_toUInt64 (char : PlainChar) (b : UInt8) :
    (char.toUInt64 b).toUInt8 = b := by
  cases char with
  | signed =>
      exact forall_byte (P := fun b => (signed.toUInt64 b).toUInt8 = b) (by decide +kernel) b
  | unsigned =>
      exact forall_byte (P := fun b => (unsigned.toUInt64 b).toUInt8 = b) (by decide +kernel) b

/-- The lowest 32 bits of a byte widened to 64 are the byte widened to 32. -/
@[simp] theorem toUInt32_toUInt64 (char : PlainChar) (b : UInt8) :
    (char.toUInt64 b).toUInt32 = char.toUInt32 b := by
  cases char with
  | signed =>
      exact forall_byte (P := fun b => (signed.toUInt64 b).toUInt32 = signed.toUInt32 b)
        (by decide +kernel) b
  | unsigned =>
      exact forall_byte (P := fun b => (unsigned.toUInt64 b).toUInt32 = unsigned.toUInt32 b)
        (by decide +kernel) b

end PlainChar

end Nutcracker.Lib
