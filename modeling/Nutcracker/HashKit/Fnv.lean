/-
**The four FNV hashes.**

A turn multiplies by a prime and adds a byte (FNV-1), or adds the byte first (FNV-1a). The code mixes
the widths: `fnv164aHash` multiplies by the prime truncated to 32 bits, and the two 32-bit hashes keep
64 bits and truncate them at the end.

* `fnv1`, `fnv1a` — the loops, over any values with a product and a sum.
* `map_fnv1`, `map_fnv1a` — **a map that keeps products and sums keeps the loops**, and to truncate is
  such a map.
* `fnv_widths` — **so the widths make no difference**.
-/

import Nutcracker.Lib.PlainChar

namespace Nutcracker

open Lib

/-! ### The loops -/

section Loops

variable {α β : Type} [Mul α] [XorOp α] [Mul β] [XorOp β]

/-- **FNV-1**: the prime, then the byte. -/
def fnv1 (prime : α) (init : α) (vals : List α) : α :=
  vals.foldl (fun hash val => hash * prime ^^^ val) init

/-- **FNV-1a**: the byte, then the prime. -/
def fnv1a (prime : α) (init : α) (vals : List α) : α :=
  vals.foldl (fun hash val => (hash ^^^ val) * prime) init

variable {f : α → β} (mul : ∀ a b, f (a * b) = f a * f b) (xor : ∀ a b, f (a ^^^ b) = f a ^^^ f b)

include mul xor

theorem map_fnv1 (prime init : α) (vals : List α) :
    f (fnv1 prime init vals) = fnv1 (f prime) (f init) (vals.map f) := by
  unfold fnv1
  induction vals generalizing init with
  | nil => rfl
  | cons val vals ih => rw [List.foldl_cons, ih, xor, mul, List.map_cons, List.foldl_cons]

theorem map_fnv1a (prime init : α) (vals : List α) :
    f (fnv1a prime init vals) = fnv1a (f prime) (f init) (vals.map f) := by
  unfold fnv1a
  induction vals generalizing init with
  | nil => rfl
  | cons val vals ih => rw [List.foldl_cons, ih, mul, xor, List.map_cons, List.foldl_cons]

end Loops

/-! ### The hashes -/

def FNV_64_INIT : UInt64 := 0xcbf29ce484222325

def FNV_64_PRIME : UInt64 := 0x100000001b3

def FNV_32_INIT : UInt32 := 2166136261

def FNV_32_PRIME : UInt32 := 16777619

namespace NcHashUtil

variable (char : PlainChar) (key : List UInt8)

/-- **`NcHashUtil::fnv164Hash`.** -/
def fnv164Hash : UInt32 :=
  (key.foldl (fun hash k => hash * FNV_64_PRIME ^^^ char.toUInt64 k) FNV_64_INIT).toUInt32

/-- **`NcHashUtil::fnv164aHash`.** -/
def fnv164aHash : UInt32 :=
  (key.foldl (fun hash k =>
    let val := char.toUInt32 k
    (hash ^^^ val.toUInt64) * FNV_64_PRIME.toUInt32.toUInt64) FNV_64_INIT).toUInt32

/-- **`NcHashUtil::fnv132Hash`.** -/
def fnv132Hash : UInt32 :=
  (key.foldl (fun hash k =>
    let val := char.toUInt32 k
    hash * FNV_32_PRIME.toUInt64 ^^^ val.toUInt64) FNV_32_INIT.toUInt64).toUInt32

/-- **`NcHashUtil::fnv132aHash`.** -/
def fnv132aHash : UInt32 :=
  (key.foldl (fun hash k =>
    let val := char.toUInt32 k
    (hash ^^^ val.toUInt64) * FNV_32_PRIME.toUInt64) FNV_32_INIT.toUInt64).toUInt32

/-! ### In 32 bits -/

variable {char key}

/-- To truncate keeps the loop of FNV-1. -/
theorem toUInt32_fnv1 (prime init : UInt64) (vals : List UInt64) :
    (fnv1 prime init vals).toUInt32 =
      fnv1 prime.toUInt32 init.toUInt32 (vals.map UInt64.toUInt32) :=
  map_fnv1 UInt64.toUInt32_mul UInt64.toUInt32_xor prime init vals

/-- To truncate keeps the loop of FNV-1a. -/
theorem toUInt32_fnv1a (prime init : UInt64) (vals : List UInt64) :
    (fnv1a prime init vals).toUInt32 =
      fnv1a prime.toUInt32 init.toUInt32 (vals.map UInt64.toUInt32) :=
  map_fnv1a UInt64.toUInt32_mul UInt64.toUInt32_xor prime init vals

theorem fnv164Hash_eq :
    fnv164Hash char key = fnv1 FNV_64_PRIME.toUInt32 FNV_64_INIT.toUInt32 (key.map char.toUInt32) := by
  have loop : fnv164Hash char key =
      (fnv1 FNV_64_PRIME FNV_64_INIT (key.map char.toUInt64)).toUInt32 := by
    rw [fnv164Hash, fnv1, List.foldl_map]
  have bytes : (key.map char.toUInt64).map UInt64.toUInt32 = key.map char.toUInt32 := by
    rw [List.map_map]
    exact List.map_congr_left fun k _ => char.toUInt32_toUInt64 k
  rw [loop, toUInt32_fnv1, bytes]

/-- The bytes widened to 32 bits, in 64. -/
theorem map_toUInt32 : (key.map fun k => (char.toUInt32 k).toUInt64).map UInt64.toUInt32 =
    key.map char.toUInt32 := by
  rw [List.map_map]
  exact List.map_congr_left fun k _ => UInt32.toUInt32_toUInt64 _

theorem fnv164aHash_eq :
    fnv164aHash char key =
      fnv1a FNV_64_PRIME.toUInt32 FNV_64_INIT.toUInt32 (key.map char.toUInt32) := by
  have loop : fnv164aHash char key = (fnv1a FNV_64_PRIME.toUInt32.toUInt64 FNV_64_INIT
      (key.map fun k => (char.toUInt32 k).toUInt64)).toUInt32 := by
    rw [fnv164aHash, fnv1a, List.foldl_map]
  rw [loop, toUInt32_fnv1a, map_toUInt32, UInt32.toUInt32_toUInt64]

theorem fnv132Hash_eq :
    fnv132Hash char key = fnv1 FNV_32_PRIME FNV_32_INIT (key.map char.toUInt32) := by
  have loop : fnv132Hash char key = (fnv1 FNV_32_PRIME.toUInt64 FNV_32_INIT.toUInt64
      (key.map fun k => (char.toUInt32 k).toUInt64)).toUInt32 := by
    rw [fnv132Hash, fnv1, List.foldl_map]
  rw [loop, toUInt32_fnv1, map_toUInt32, UInt32.toUInt32_toUInt64, UInt32.toUInt32_toUInt64]

theorem fnv132aHash_eq :
    fnv132aHash char key = fnv1a FNV_32_PRIME FNV_32_INIT (key.map char.toUInt32) := by
  have loop : fnv132aHash char key = (fnv1a FNV_32_PRIME.toUInt64 FNV_32_INIT.toUInt64
      (key.map fun k => (char.toUInt32 k).toUInt64)).toUInt32 := by
    rw [fnv132aHash, fnv1a, List.foldl_map]
  rw [loop, toUInt32_fnv1a, map_toUInt32, UInt32.toUInt32_toUInt64, UInt32.toUInt32_toUInt64]

/-- **The widths make no difference.** `fnv164aHash` is the loop with the whole prime, truncated at the
end, and the 32-bit hashes are the loops in 32 bits. -/
theorem fnv_widths (char : PlainChar) (key : List UInt8) :
    fnv164aHash char key = (fnv1a FNV_64_PRIME FNV_64_INIT
        (key.map fun k => (char.toUInt32 k).toUInt64)).toUInt32 ∧
      fnv132Hash char key = fnv1 FNV_32_PRIME FNV_32_INIT (key.map char.toUInt32) ∧
      fnv132aHash char key = fnv1a FNV_32_PRIME FNV_32_INIT (key.map char.toUInt32) := by
  refine ⟨?_, fnv132Hash_eq, fnv132aHash_eq⟩
  rw [toUInt32_fnv1a, map_toUInt32, fnv164aHash_eq]

end NcHashUtil

end Nutcracker
