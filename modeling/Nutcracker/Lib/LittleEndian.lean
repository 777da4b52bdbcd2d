/-
**Little-endian words.**

A word read from memory on a little-endian machine, as an unsigned 32-bit value. The bytes are the
digits of a number to the base 256, the first one the lowest.

* `word_append` — the bytes after others are shifted.
* `word_mask` — **masking a word is reading fewer bytes**.
-/

import Mathlib.Data.Nat.Digits.Defs

namespace Nutcracker.Lib

/-- The number with these bytes. -/
def ofBytes (bytes : List UInt8) : Nat := Nat.ofDigits 256 (bytes.map UInt8.toNat)

/-- **The word with these bytes**, with zeros after them. -/
def word (bytes : List UInt8) : UInt32 := UInt32.ofNat (ofBytes bytes)

theorem ofBytes_append (xs ys : List UInt8) :
    ofBytes (xs ++ ys) = ofBytes xs + 256 ^ xs.length * ofBytes ys := by
  unfold ofBytes
  rw [List.map_append, Nat.ofDigits_append, List.length_map]

theorem digits_lt (bytes : List UInt8) : ∀ x ∈ bytes.map UInt8.toNat, x < 256 := by
  intro x member
  obtain ⟨b, -, rfl⟩ := List.mem_map.mp member
  exact b.toNat_lt

/-- The lowest digits are the first bytes. -/
theorem ofBytes_mod (bytes : List UInt8) (n : Nat) :
    ofBytes bytes % 256 ^ n = ofBytes (bytes.take n) := by
  unfold ofBytes
  rw [Nat.ofDigits_mod_pow_eq_ofDigits_take n (by decide) _ (digits_lt bytes), List.map_take]

@[simp] theorem word_nil : word [] = 0 := rfl

@[simp] theorem word_singleton (b : UInt8) : word [b] = b.toUInt32 := by
  unfold word ofBytes
  rw [List.map_singleton, Nat.ofDigits_singleton]
  exact UInt32.toNat_inj.mp (by simp)

/-- The bytes after others are shifted. -/
theorem word_append (xs ys : List UInt8) (short : xs.length < 4) :
    word (xs ++ ys) = word xs + word ys <<< UInt32.ofNat (8 * xs.length) := by
  unfold word
  rw [ofBytes_append, UInt32.ofNat_add]
  congr 1
  have amount : (UInt32.ofNat (8 * xs.length)).toNat % 32 = 8 * xs.length := by
    rw [UInt32.toNat_ofNat']
    omega
  rw [← UInt32.toNat_inj, UInt32.toNat_shiftLeft, amount, UInt32.toNat_ofNat', UInt32.toNat_ofNat',
    Nat.shiftLeft_eq, Nat.mod_mul_mod, pow_mul, Nat.mul_comm]
  rfl

/-- **Masking a word is reading fewer bytes.** -/
theorem word_mask (bytes : List UInt8) (n : Nat) (short : n ≤ 4) :
    word bytes &&& UInt32.ofNat (256 ^ n - 1) = word (bytes.take n) := by
  have range : (UInt32.ofNat (256 ^ n - 1)).toNat = 2 ^ (8 * n) - 1 := by
    rw [UInt32.toNat_ofNat', pow_mul]
    refine Nat.mod_eq_of_lt ?_
    have bound : 256 ^ n ≤ 256 ^ 4 := Nat.pow_le_pow_right (by decide) short
    omega
  unfold word
  rw [← UInt32.toNat_inj, UInt32.toNat_and, range, Nat.and_two_pow_sub_one_eq_mod,
    UInt32.toNat_ofNat', UInt32.toNat_ofNat', ← ofBytes_mod]
  have divides : 256 ^ n ∣ 2 ^ 32 := pow_dvd_pow (2 ^ 8) short
  have small : ofBytes bytes % 256 ^ n < 2 ^ 32 :=
    (Nat.mod_lt _ (Nat.pow_pos (by decide))).trans_le (Nat.le_of_dvd (by decide) divides)
  rw [Nat.mod_eq_of_lt small, pow_mul]
  exact Nat.mod_mod_of_dvd _ divides

end Nutcracker.Lib
