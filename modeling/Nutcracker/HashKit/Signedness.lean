/-
**Which keys hash alike on every platform?**

A plain `char` of `0x80` or above is a negative number where `char` is signed. Six of the hash
functions widen one: the four FNV hashes and `one_at_a_timeHash` in their loops, and `hsiehHash` in
the case of three last bytes.

* `Drift`, `Apart` — what the two values of an FNV loop have to do with each other: the lowest byte,
  whether the number of high bytes is odd, and the sum of the two then, or else the difference.
* `fnv1_alike_iff`, `fnv1a_alike_iff` — **so the two values are equal exactly if the number of high
  bytes is even and the difference is zero**.
* `avalanche_ne` — the last lines of `hsiehHash` never make the two values equal again.
* `oneMix_injective`, `one_ne` — `one_at_a_timeHash` forgets nothing, so a single high byte makes a
  difference.
* `hash_alike` — **all twelve types**.
-/

import Nutcracker.HashKit.Kit
import Mathlib.Data.Nat.Prime.Basic
import Mathlib.Data.UInt
import Mathlib.Tactic.LinearCombination

namespace Nutcracker

open Lib

section Words

/-- The lowest byte of a word. -/
def low (x : UInt32) : UInt32 := x &&& 0xff

theorem low_toNat (x : UInt32) : (low x).toNat = x.toNat % 256 := by
  rw [low, UInt32.toNat_and]
  exact Nat.and_two_pow_sub_one_eq_mod x.toNat 8

theorem low_byte (b : UInt8) : low b.toUInt32 = b.toUInt32 := by
  rw [← UInt32.toNat_inj, low_toNat, UInt8.toNat_toUInt32]
  exact Nat.mod_eq_of_lt b.toNat_lt

/-- The lowest byte, and the rest. -/
theorem exists_low_add (x : UInt32) : ∃ u, x = low x + 256 * u := by
  have bound := x.toNat_lt
  refine ⟨x >>> 8, ?_⟩
  rw [← UInt32.toNat_inj, UInt32.toNat_add, low_toNat, UInt32.toNat_mul, UInt32.toNat_shiftRight,
    Nat.shiftRight_eq_div_pow]
  show x.toNat = (x.toNat % 256 + 256 * (x.toNat / 2 ^ 8) % 2 ^ 32) % 2 ^ 32
  omega

/-- The lowest byte of a product. -/
theorem low_mul (x p : UInt32) : low (x * p) = low (low x * p) := by
  rw [← UInt32.toNat_inj, low_toNat, low_toNat, UInt32.toNat_mul, UInt32.toNat_mul, low_toNat,
    Nat.mod_mod_of_dvd _ (by decide), Nat.mod_mod_of_dvd _ (by decide), Nat.mod_mul_mod]

theorem low_xor (x y : UInt32) : low (x ^^^ y) = low x ^^^ low y := by
  rw [← UInt32.toNat_inj, low_toNat, UInt32.toNat_xor, UInt32.toNat_xor, low_toNat, low_toNat]
  exact Nat.xor_mod_two_pow (n := 8)

/-- **A byte is added in the lowest byte.** -/
theorem xor_byte (x : UInt32) (b : UInt8) :
    x ^^^ b.toUInt32 = x - low x + (low x ^^^ b.toUInt32) := by
  have bound := x.toNat_lt
  have lowest := low_toNat x
  have least : low x ≤ x := by
    rw [UInt32.le_iff_toNat_le, lowest]
    exact Nat.mod_le _ _
  have small : (low x).toNat ^^^ b.toNat < 2 ^ 8 :=
    Nat.xor_lt_two_pow (by rw [lowest]; exact Nat.mod_lt _ (by decide)) b.toNat_lt
  have high : (x.toNat ^^^ b.toNat) / 2 ^ 8 = x.toNat / 2 ^ 8 := by
    rw [Nat.xor_div_two_pow, Nat.div_eq_of_lt b.toNat_lt, Nat.xor_zero]
  have last : (x.toNat ^^^ b.toNat) % 2 ^ 8 = (low x).toNat ^^^ b.toNat := by
    rw [Nat.xor_mod_two_pow, Nat.mod_eq_of_lt b.toNat_lt, lowest]
  rw [← UInt32.toNat_inj, UInt32.toNat_xor, UInt32.toNat_add, UInt32.toNat_sub_of_le _ _ least,
    UInt32.toNat_xor, UInt8.toNat_toUInt32]
  omega

open scoped UInt32.CommRing

/-- The bits above the lowest byte are turned. -/
theorem xor_upper (x : UInt32) : x ^^^ 0xffffff00 = 2 * low x - 256 - x := by
  have turned : ∀ b : UInt8, b.toUInt32 ^^^ 255 = 255 - b.toUInt32 :=
    PlainChar.forall_byte (by decide +kernel)
  have lowest : low x = x.toUInt8.toUInt32 := by
    rw [← UInt32.toNat_inj, low_toNat, UInt8.toNat_toUInt32, UInt32.toNat_toUInt8]
  have other : x ^^^ 255 = x - low x + (255 - low x) := by
    have byte := xor_byte x 255
    rw [show (255 : UInt8).toUInt32 = 255 from rfl] at byte
    rw [byte, lowest, turned]
  have ones : (0xffffff00 : UInt32) = ~~~255 := rfl
  have flip : ~~~(x ^^^ 255) = -1 - (x ^^^ 255) := by
    rw [UInt32.not_eq_neg_sub]
    ring
  rw [ones, UInt32.xor_not, flip, other]
  ring

end Words

/-! ### The FNV hashes -/

/-- What two values have to do with each other: the lowest byte of both, whether the number of high
bytes was odd, and then the sum of the two, or else the difference. -/
structure Drift where
  first : UInt32
  odd : Bool
  sum : UInt32

namespace Drift

/-- A byte is added, to the one as a signed `char`. -/
def add (d : Drift) (b : UInt8) : Drift :=
  let first := d.first ^^^ b.toUInt32
  let sum := if d.odd then d.sum + 2 * (first - d.first) else d.sum
  if High b then ⟨first, !d.odd, 2 * first - 256 - sum⟩ else ⟨first, d.odd, sum⟩

/-- Both are multiplied. -/
def scale (prime : UInt32) (d : Drift) : Drift := ⟨low (d.first * prime), d.odd, d.sum * prime⟩

/-- One value. -/
def start (init : UInt32) : Drift := ⟨low init, false, 0⟩

/-- The two are the same. -/
def None (d : Drift) : Prop := d.odd = false ∧ d.sum = 0

instance (d : Drift) : Decidable d.None := instDecidableAnd

end Drift

/-- The drift of a key in FNV-1. -/
def fnv1Drift (prime init : UInt32) (key : List UInt8) : Drift :=
  key.foldl (fun d b => (d.scale prime).add b) (.start init)

/-- The drift of a key in FNV-1a. -/
def fnv1aDrift (prime init : UInt32) (key : List UInt8) : Drift :=
  key.foldl (fun d b => (d.add b).scale prime) (.start init)

/-- **The signed value and the unsigned one have this drift.** -/
structure Apart (d : Drift) (signed unsigned : UInt32) : Prop where
  first : low signed = d.first
  second : low unsigned = d.first
  sum : (if d.odd then signed + unsigned else signed - unsigned) = d.sum
  parity : ∃ q, signed - unsigned = (if d.odd then 256 else 0) + 512 * q

section Apart

open scoped UInt32.CommRing

variable {d : Drift} {g h prime : UInt32}

theorem apart_start (init : UInt32) : Apart (.start init) init init where
  first := rfl
  second := rfl
  sum := sub_self init
  parity := ⟨0, by
    show init - init = 0 + 512 * 0
    ring⟩

/-- Both are multiplied by an odd number. -/
theorem Apart.scale (apart : Apart d g h) {k : UInt32} (odd : prime = 2 * k + 1) :
    Apart (d.scale prime) (g * prime) (h * prime) := by
  have sum := apart.sum
  obtain ⟨q, parity⟩ := apart.parity
  refine ⟨?_, ?_, ?_, ?_⟩
  · rw [low_mul, apart.first]
    rfl
  · rw [low_mul, apart.second]
    rfl
  · show (if d.odd then g * prime + h * prime else g * prime - h * prime) = d.sum * prime
    rw [← sum]
    split <;> ring
  · show ∃ q, g * prime - h * prime = (if d.odd then 256 else 0) + 512 * q
    cases isOdd : d.odd with
    | true =>
        rw [isOdd, if_pos rfl] at parity
        refine ⟨k + q * prime, ?_⟩
        rw [if_pos rfl]
        linear_combination prime * parity + 256 * odd
    | false =>
        rw [isOdd, if_neg Bool.false_ne_true] at parity
        refine ⟨q * prime, ?_⟩
        rw [if_neg Bool.false_ne_true]
        linear_combination prime * parity

/-- Both get the same byte. -/
theorem Apart.xor (apart : Apart d g h) (b : UInt8) :
    Apart ⟨d.first ^^^ b.toUInt32, d.odd,
        if d.odd then d.sum + 2 * ((d.first ^^^ b.toUInt32) - d.first) else d.sum⟩
      (g ^^^ b.toUInt32) (h ^^^ b.toUInt32) := by
  have sum := apart.sum
  obtain ⟨q, parity⟩ := apart.parity
  have signed : g ^^^ b.toUInt32 = g - d.first + (d.first ^^^ b.toUInt32) := by
    rw [xor_byte, apart.first]
  have unsigned : h ^^^ b.toUInt32 = h - d.first + (d.first ^^^ b.toUInt32) := by
    rw [xor_byte, apart.second]
  refine ⟨?_, ?_, ?_, q, ?_⟩
  · rw [low_xor, low_byte, apart.first]
  · rw [low_xor, low_byte, apart.second]
  · dsimp only
    rw [signed, unsigned, ← sum]
    split <;> ring
  · dsimp only
    rw [signed, unsigned, ← parity]
    ring

/-- The bits above the lowest byte of the one are turned. -/
theorem Apart.turn (apart : Apart d g h) :
    Apart ⟨d.first, !d.odd, 2 * d.first - 256 - d.sum⟩ (g ^^^ 0xffffff00) h := by
  have sum := apart.sum
  obtain ⟨q, parity⟩ := apart.parity
  have turned : g ^^^ 0xffffff00 = 2 * d.first - 256 - g := by
    rw [xor_upper, apart.first]
  obtain ⟨u, rest⟩ := exists_low_add h
  rw [apart.second] at rest
  refine ⟨?_, apart.second, ?_, -1 - q - u, ?_⟩
  · rw [low_xor, apart.first]
    exact UInt32.xor_zero
  · cases isOdd : d.odd with
    | true =>
        rw [isOdd, if_pos rfl] at sum
        show (g ^^^ 0xffffff00) - h = 2 * d.first - 256 - d.sum
        rw [turned]
        linear_combination -sum
    | false =>
        rw [isOdd, if_neg Bool.false_ne_true] at sum
        show (g ^^^ 0xffffff00) + h = 2 * d.first - 256 - d.sum
        rw [turned]
        linear_combination -sum
  · cases isOdd : d.odd with
    | true =>
        rw [isOdd, if_pos rfl] at parity
        show (g ^^^ 0xffffff00) - h = 0 + 512 * (-1 - q - u)
        rw [turned]
        linear_combination -parity - 2 * rest
    | false =>
        rw [isOdd, if_neg Bool.false_ne_true] at parity
        show (g ^^^ 0xffffff00) - h = 256 + 512 * (-1 - q - u)
        rw [turned]
        linear_combination -parity - 2 * rest

/-- **A byte is added**, to the one as a signed `char`. -/
theorem Apart.add (apart : Apart d g h) (b : UInt8) :
    Apart (d.add b) (g ^^^ PlainChar.signed.toUInt32 b) (h ^^^ PlainChar.unsigned.toUInt32 b) := by
  have plain := apart.xor b
  unfold Drift.add
  rw [PlainChar.toUInt32_signed]
  show Apart _ _ (h ^^^ b.toUInt32)
  dsimp only
  by_cases high : High b
  · rw [if_pos high, if_pos high, ← UInt32.xor_assoc]
    exact plain.turn
  · rw [if_neg high, if_neg high]
    exact plain

/-- **The two values are equal exactly if there is no drift.** -/
theorem Apart.eq_iff (apart : Apart d g h) : g = h ↔ d.None := by
  have sum := apart.sum
  obtain ⟨q, parity⟩ := apart.parity
  unfold Drift.None
  cases isOdd : d.odd with
  | true =>
      refine iff_of_false (fun same => ?_) (fun none => Bool.noConfusion none.1)
      rw [isOdd, if_pos rfl, same, sub_self] at parity
      have wrap : (4294967296 : UInt32) = 0 := by decide
      have zero : (2147483648 : UInt32) = 0 := by
        linear_combination (-8388608 : UInt32) * parity - q * wrap
      exact absurd zero (by decide)
  | false =>
      rw [isOdd, if_neg Bool.false_ne_true] at sum
      rw [← sum, sub_eq_zero]
      exact (and_iff_right rfl).symm

/-- The two runs of FNV-1. -/
theorem apart_fnv1 {k : UInt32} (odd : prime = 2 * k + 1) (apart : Apart d g h) (key : List UInt8) :
    Apart (key.foldl (fun d b => (d.scale prime).add b) d)
      (fnv1 prime g (key.map PlainChar.signed.toUInt32))
      (fnv1 prime h (key.map PlainChar.unsigned.toUInt32)) := by
  induction key generalizing d g h with
  | nil => exact apart
  | cons b key ih => exact ih ((apart.scale odd).add b)

/-- The two runs of FNV-1a. -/
theorem apart_fnv1a {k : UInt32} (odd : prime = 2 * k + 1) (apart : Apart d g h) (key : List UInt8) :
    Apart (key.foldl (fun d b => (d.add b).scale prime) d)
      (fnv1a prime g (key.map PlainChar.signed.toUInt32))
      (fnv1a prime h (key.map PlainChar.unsigned.toUInt32)) := by
  induction key generalizing d g h with
  | nil => exact apart
  | cons b key ih => exact ih ((apart.add b).scale odd)

/-- **FNV-1.** -/
theorem fnv1_alike_iff {k : UInt32} (odd : prime = 2 * k + 1) (init : UInt32) (key : List UInt8) :
    fnv1 prime init (key.map PlainChar.signed.toUInt32) =
        fnv1 prime init (key.map PlainChar.unsigned.toUInt32) ↔
      (fnv1Drift prime init key).None :=
  (apart_fnv1 odd (apart_start init) key).eq_iff

/-- **FNV-1a.** -/
theorem fnv1a_alike_iff {k : UInt32} (odd : prime = 2 * k + 1) (init : UInt32) (key : List UInt8) :
    fnv1a prime init (key.map PlainChar.signed.toUInt32) =
        fnv1a prime init (key.map PlainChar.unsigned.toUInt32) ↔
      (fnv1aDrift prime init key).None :=
  (apart_fnv1a odd (apart_start init) key).eq_iff

end Apart

/-! ### `hsiehHash` -/

/-- The lowest bit in which the two differ is bit `k`. -/
def FirstDiffer (k : Nat) (x y : UInt32) : Prop :=
  x.toNat % 2 ^ k = y.toNat % 2 ^ k ∧ x.toNat % 2 ^ (k + 1) ≠ y.toNat % 2 ^ (k + 1)

section Hsieh

variable {x y u v : UInt32}

theorem toNat_add_shift (x s : UInt32) :
    (x + x >>> s).toNat = (x.toNat + x.toNat / 2 ^ (s.toNat % 32)) % 2 ^ 32 := by
  rw [UInt32.toNat_add, UInt32.toNat_shiftRight, Nat.shiftRight_eq_div_pow]

theorem toNat_xor_shift (x s : UInt32) :
    (x ^^^ x <<< s).toNat = x.toNat ^^^ x.toNat * 2 ^ (s.toNat % 32) % 2 ^ 32 := by
  rw [UInt32.toNat_xor, UInt32.toNat_shiftLeft, Nat.shiftLeft_eq]

theorem xor_cancel {a b c : Nat} (same : a ^^^ c = b ^^^ c) : a = b := by
  have twice := congrArg (fun n => n ^^^ c) same
  simpa only [Nat.xor_assoc, Nat.xor_self, Nat.xor_zero] using twice

theorem xor_swap {a b c d : Nat} (same : a ^^^ b = c ^^^ d) : a ^^^ c = b ^^^ d := by
  refine xor_cancel (c := b ^^^ c) ?_
  rw [Nat.xor_comm b c, ← Nat.xor_assoc, Nat.xor_assoc a c c, Nat.xor_self, Nat.xor_zero, same,
    Nat.xor_comm c d, Nat.xor_comm c b, Nat.xor_comm b d, Nat.xor_assoc, ← Nat.xor_assoc b b c,
    Nat.xor_self, Nat.zero_xor]

/-- What is shifted in depends on the bits below. -/
theorem shifted_mod {a b k s : Nat} (same : a % 2 ^ k = b % 2 ^ k) (positive : 0 < s) :
    a * 2 ^ s % 2 ^ (k + 1) = b * 2 ^ s % 2 ^ (k + 1) := by
  have wide : a * 2 ^ s ≡ b * 2 ^ s [MOD 2 ^ k * 2 ^ s] := Nat.ModEq.mul_right' (2 ^ s) same
  refine wide.of_dvd ?_
  rw [← pow_add]
  exact pow_dvd_pow 2 (by omega)

/-- **A shift to the left keeps the lowest difference.** -/
theorem FirstDiffer.xor_shift {k : Nat} (differ : FirstDiffer k x y) (inside : k < 32) {s : UInt32}
    (positive : 0 < s.toNat % 32) : FirstDiffer k (x ^^^ x <<< s) (y ^^^ y <<< s) := by
  obtain ⟨below, here⟩ := differ
  have shifted := shifted_mod below positive
  have narrow (z : UInt32) (j : Nat) (le : j ≤ 32) : (z ^^^ z <<< s).toNat % 2 ^ j =
      z.toNat % 2 ^ j ^^^ z.toNat * 2 ^ (s.toNat % 32) % 2 ^ j := by
    rw [toNat_xor_shift, Nat.xor_mod_two_pow, Nat.mod_mod_of_dvd _ (pow_dvd_pow 2 le)]
  refine ⟨?_, ?_⟩
  · have lower : x.toNat * 2 ^ (s.toNat % 32) % 2 ^ k = y.toNat * 2 ^ (s.toNat % 32) % 2 ^ k := by
      rw [← Nat.mod_mod_of_dvd _ (pow_dvd_pow 2 (Nat.le_succ k)), shifted,
        Nat.mod_mod_of_dvd _ (pow_dvd_pow 2 (Nat.le_succ k))]
    rw [narrow x k inside.le, narrow y k inside.le, below, lower]
  · rw [narrow x (k + 1) inside, narrow y (k + 1) inside, shifted]
    exact fun same => here (xor_cancel same)

/-- **A shift to the left by 25 can be undone.** -/
theorem xor_shift25_injective (same : u ^^^ u <<< 25 = v ^^^ v <<< 25) : u = v := by
  have both := congrArg UInt32.toNat same
  rw [toNat_xor_shift, toNat_xor_shift] at both
  have low : u.toNat % 2 ^ 25 = v.toNat % 2 ^ 25 := by
    have narrow (a : Nat) : (a ^^^ a * 2 ^ 25 % 2 ^ 32) % 2 ^ 25 = a % 2 ^ 25 := by
      rw [Nat.xor_mod_two_pow, Nat.mod_mod_of_dvd _ (by decide), Nat.mul_mod_left, Nat.xor_zero]
    have reduced := congrArg (fun a => a % 2 ^ 25) both
    rwa [show (25 : UInt32).toNat % 32 = 25 from rfl, narrow, narrow] at reduced
  have shifted : u.toNat * 2 ^ 25 % 2 ^ 32 = v.toNat * 2 ^ 25 % 2 ^ 32 := by omega
  rw [show (25 : UInt32).toNat % 32 = 25 from rfl, shifted] at both
  exact UInt32.toNat_inj.mp (xor_cancel both)

/-- The upper bits of a sum with a shift by 17. -/
theorem upper_part {n : Nat} (bound : n < 2 ^ 32) :
    ∃ c, c ≤ 1 ∧ (n + n / 2 ^ 17) % 2 ^ 32 % 2 ^ 25 / 2 ^ 17 = (n / 2 ^ 17 + c) % 256 := by
  refine ⟨(n % 2 ^ 17 + n / 2 ^ 17) / 2 ^ 17, ?_, ?_⟩
  · omega
  · have whole := Nat.div_add_mod n (2 ^ 17)
    generalize n / 2 ^ 17 = a at *
    generalize n % 2 ^ 17 = b at *
    omega

/-- The lower bits. -/
theorem lower_part (n : Nat) :
    (n + n / 2 ^ 17) % 2 ^ 32 % 2 ^ 25 % 1024 = (n % 1024 + n / 2 ^ 17) % 1024 := by
  rw [Nat.mod_mod_of_dvd _ (by decide), Nat.mod_mod_of_dvd _ (by decide), Nat.mod_add_mod]

/-- **Two words that differ in higher bits only are not that far apart** after a shift by 17. -/
theorem not_apart {m n D : Nat} (mBound : m < 2 ^ 32) (nBound : n < 2 ^ 32)
    (low : m % 1024 = n % 1024) (far : D = 1032444 ∨ D = 1032445) :
    (m + m / 2 ^ 17) % 2 ^ 32 % 2 ^ 25 ≠ ((n + n / 2 ^ 17) % 2 ^ 32 % 2 ^ 25 + D) % 2 ^ 25 := by
  intro apart
  obtain ⟨c, cBound, mUpper⟩ := upper_part mBound
  obtain ⟨c', cBound', nUpper⟩ := upper_part nBound
  have mLower := lower_part m
  have nLower := lower_part n
  rw [← low] at nLower
  have small : (n + n / 2 ^ 17) % 2 ^ 32 % 2 ^ 25 < 2 ^ 25 := Nat.mod_lt _ (by decide)
  generalize (m + m / 2 ^ 17) % 2 ^ 32 % 2 ^ 25 = p at *
  generalize (n + n / 2 ^ 17) % 2 ^ 32 % 2 ^ 25 = q at *
  -- the bits from 17 on say 7 or 8, the lowest ten say 252 or 253
  have above : p / 2 ^ 17 = (q / 2 ^ 17 + 7) % 256 ∨ p / 2 ^ 17 = (q / 2 ^ 17 + 8) % 256 := by
    clear mLower nLower mUpper nUpper
    omega
  have below : p % 1024 = (q % 1024 + 252) % 1024 ∨ p % 1024 = (q % 1024 + 253) % 1024 := by
    clear mLower nLower mUpper nUpper above
    omega
  rw [mUpper, nUpper] at above
  rw [mLower, nLower] at below
  generalize m / 2 ^ 17 = a at *
  generalize n / 2 ^ 17 = b at *
  generalize m % 1024 = l at *
  clear mUpper nUpper mLower nLower apart mBound nBound
  omega

/-- A shift by 17 does not make two words of one parity equal. -/
theorem shift17_lt {m n : Nat} (mBound : m < 2 ^ 32) (less : n < m) (parity : m % 2 = n % 2) :
    (m + m / 2 ^ 17) % 2 ^ 32 ≠ (n + n / 2 ^ 17) % 2 ^ 32 := by
  intro same
  have order : n / 2 ^ 17 ≤ m / 2 ^ 17 := Nat.div_le_div_right less.le
  have high : m / 2 ^ 17 < 2 ^ 15 := by omega
  have wrapped : m + m / 2 ^ 17 = n + n / 2 ^ 17 + 2 ^ 32 := by
    generalize m / 2 ^ 17 = a at *
    generalize n / 2 ^ 17 = b at *
    omega
  -- so `m` is near the end and `n` near the start, and they are an odd number apart
  have top : m / 2 ^ 17 = 2 ^ 15 - 1 := by omega
  have bottom : n / 2 ^ 17 = 0 := by omega
  omega

/-- How far apart two words are that a shift by 6 makes equal. -/
theorem gap {m n : Nat} (mBound : m < 2 ^ 32) (nBound : n < 2 ^ 32) (less : n < m)
    (same : (m + m / 64) % 2 ^ 32 = (n + n / 64) % 2 ^ 32) :
    ∃ D, (D = 1032444 ∨ D = 1032445) ∧ m % 2 ^ 25 = (n % 2 ^ 25 + D) % 2 ^ 25 := by
  have wrapped : m + m / 64 = n + n / 64 + 2 ^ 32 := by
    have order : n / 64 ≤ m / 64 := Nat.div_le_div_right less.le
    have high : m / 64 < 2 ^ 26 := by omega
    generalize m / 64 = a at *
    generalize n / 64 = b at *
    omega
  refine ⟨m - n - 126 * 2 ^ 25, ?_, ?_⟩
  · omega
  · omega

/-- Only the shift by 25 reaches the upper bits. -/
theorem xor_shift25_low (u : UInt32) : (u ^^^ u <<< 25).toNat % 2 ^ 25 = u.toNat % 2 ^ 25 := by
  rw [toNat_xor_shift, Nat.xor_mod_two_pow]
  show u.toNat % 2 ^ 25 ^^^ u.toNat * 2 ^ 25 % 2 ^ 32 % 2 ^ 25 = _
  rw [Nat.mod_mod_of_dvd _ (by decide), Nat.mul_mod_left, Nat.xor_zero]

/-- The last four lines of `avalanche`. -/
def avalancheEnd (hash : UInt32) : UInt32 :=
  let hash := hash + hash >>> 17
  let hash := hash ^^^ hash <<< 25
  hash + hash >>> 6

theorem avalancheEnd_ne_of_lt (low : u.toNat % 1024 = v.toNat % 1024)
    (less : (let hash := v + v >>> 17; hash ^^^ hash <<< 25).toNat <
      (let hash := u + u >>> 17; hash ^^^ hash <<< 25).toNat) :
    avalancheEnd u ≠ avalancheEnd v := by
  intro same
  have both := congrArg UInt32.toNat same
  unfold avalancheEnd at both
  dsimp only at both less
  rw [toNat_add_shift, toNat_add_shift _ 6] at both
  obtain ⟨D, far, apart⟩ := gap (UInt32.toNat_lt _) (UInt32.toNat_lt _) less both
  rw [xor_shift25_low, xor_shift25_low, toNat_add_shift, toNat_add_shift] at apart
  exact not_apart u.toNat_lt v.toNat_lt low far apart

/-- **The last lines keep two words apart.** -/
theorem avalancheEnd_ne (differ : FirstDiffer 10 u v) : avalancheEnd u ≠ avalancheEnd v := by
  obtain ⟨low, here⟩ := differ
  have parity : u.toNat % 2 = v.toNat % 2 := by omega
  have first : u + u >>> 17 ≠ v + v >>> 17 := by
    intro same
    have both := congrArg UInt32.toNat same
    rw [toNat_add_shift, toNat_add_shift _ 17] at both
    rcases Nat.lt_trichotomy u.toNat v.toNat with less | equal | greater
    · exact shift17_lt v.toNat_lt less parity.symm both.symm
    · exact here (by rw [equal])
    · exact shift17_lt u.toNat_lt greater parity both
  have second : ∀ w z : UInt32, w = u + u >>> 17 → z = v + v >>> 17 →
      w ^^^ w <<< 25 ≠ z ^^^ z <<< 25 := by
    rintro w z rfl rfl same
    exact first (xor_shift25_injective same)
  rcases Nat.lt_or_gt_of_ne (fun same => second _ _ rfl rfl (UInt32.toNat_inj.mp same)) with
    less | greater
  · exact fun same => avalancheEnd_ne_of_lt low.symm less same.symm
  · exact avalancheEnd_ne_of_lt low greater

/-- **The last lines of `hsiehHash`** keep two words apart that first differ in bit 15. -/
theorem avalanche_ne (differ : FirstDiffer 15 u v) :
    NcHashUtil.avalanche u ≠ NcHashUtil.avalanche v := by
  have first := differ.xor_shift (by decide) (s := 3) (by decide)
  have second : FirstDiffer 10 ((u ^^^ u <<< 3) + (u ^^^ u <<< 3) >>> 5)
      ((v ^^^ v <<< 3) + (v ^^^ v <<< 3) >>> 5) := by
    obtain ⟨below, here⟩ := first
    generalize u ^^^ u <<< 3 = a at *
    generalize v ^^^ v <<< 3 = b at *
    unfold FirstDiffer
    rw [toNat_add_shift, toNat_add_shift _ 5, show (5 : UInt32).toNat % 32 = 5 from rfl]
    have aBound := a.toNat_lt
    have bBound := b.toNat_lt
    refine ⟨?_, ?_⟩
    · omega
    · omega
  exact avalancheEnd_ne (second.xor_shift (by decide) (s := 4) (by decide))

/-- The six upper bits are turned, and `hash += hash >> 11` follows. -/
theorem firstDiffer_turned (turned : y = x ^^^ 0xfc000000) :
    FirstDiffer 15 (y + y >>> 11) (x + x >>> 11) := by
  have complement : ∀ n : Nat, n < 64 → n ^^^ 63 = 63 - n := by decide
  have bound := x.toNat_lt
  have turnedBound := y.toNat_lt
  have low : y.toNat % 2 ^ 26 = x.toNat % 2 ^ 26 := by
    rw [turned, UInt32.toNat_xor, Nat.xor_mod_two_pow]
    exact Nat.xor_zero _
  have high : y.toNat / 2 ^ 26 = 63 - x.toNat / 2 ^ 26 := by
    rw [turned, UInt32.toNat_xor, Nat.xor_div_two_pow]
    exact complement _ (by omega)
  unfold FirstDiffer
  rw [toNat_add_shift, toNat_add_shift _ 11, show (11 : UInt32).toNat % 32 = 11 from rfl]
  refine ⟨?_, ?_⟩
  · omega
  · omega

theorem low_char {b : UInt8} (plain : ¬ High b) :
    PlainChar.signed.toUInt32 b = PlainChar.unsigned.toUInt32 b := by
  rw [PlainChar.toUInt32_signed, if_neg plain]
  rfl

/-- **The last bytes**, three of them with a high one at the end. -/
theorem hsiehEnd_high (key : List UInt8) (hash : UInt32) (high : High (key.getD 2 0)) :
    FirstDiffer 15 (NcHashUtil.hsiehEnd .signed 3 key hash)
      (NcHashUtil.hsiehEnd .unsigned 3 key hash) := by
  have shifted : (0xffffff00 : UInt32) <<< 18 = 0xfc000000 := by decide
  refine firstDiffer_turned ?_
  rw [PlainChar.toUInt32_signed, if_pos high, UInt32.shiftLeft_xor, shifted, ← UInt32.xor_assoc]
  rfl

/-- A plain `char` is widened in the case of three bytes only. -/
theorem hsiehEnd_plain {rem : Nat} (key : List UInt8) (hash : UInt32)
    (plain : rem = 3 → ¬ High (key.getD 2 0)) :
    NcHashUtil.hsiehEnd .signed rem key hash = NcHashUtil.hsiehEnd .unsigned rem key hash := by
  by_cases three : rem = 3
  · subst three
    simp only [NcHashUtil.hsiehEnd, low_char (plain rfl)]
  · unfold NcHashUtil.hsiehEnd
    split
    · exact absurd rfl three
    · rfl
    · rfl
    · rfl

/-- **`hsiehHash`.** -/
theorem hsieh_alike_iff (key : List UInt8) :
    NcHashUtil.hsiehHash .signed key = NcHashUtil.hsiehHash .unsigned key ↔
      (key.length % 4 = 3 → ¬ High (key.getD (key.length - 1) 0)) := by
  have last : key.length % 4 = 3 →
      (key.drop (4 * (key.length / 4))).getD 2 0 = key.getD (key.length - 1) 0 := by
    intro three
    rw [List.getD_eq_getElem?_getD, List.getElem?_drop, ← List.getD_eq_getElem?_getD]
    congr 1
    omega
  unfold NcHashUtil.hsiehHash
  by_cases empty : key.length = 0
  · rw [if_pos empty, if_pos empty]
    refine iff_of_true rfl fun three => ?_
    omega
  · rw [if_neg empty, if_neg empty]
    dsimp only
    constructor
    · intro same three high
      rw [← last three] at high
      rw [three] at same
      exact avalanche_ne (hsiehEnd_high _ _ high) same
    · intro plain
      rw [hsiehEnd_plain]
      intro three
      rw [last three]
      exact plain three

end Hsieh

/-! ### `one_at_a_timeHash` -/

section One

variable {x y : UInt32}

/-- `value += value << s` can be undone. -/
theorem add_shift_injective {s : UInt32} (positive : 0 < s.toNat % 32)
    (same : x + x <<< s = y + y <<< s) : x = y := by
  have product (z : UInt32) : (z + z <<< s).toNat = z.toNat * (1 + 2 ^ (s.toNat % 32)) % 2 ^ 32 := by
    rw [UInt32.toNat_add, UInt32.toNat_shiftLeft, Nat.shiftLeft_eq, Nat.add_mod_mod, Nat.mul_add,
      Nat.mul_one]
  have both := congrArg UInt32.toNat same
  rw [product, product] at both
  have coprime : Nat.gcd (2 ^ 32) (1 + 2 ^ (s.toNat % 32)) = 1 := by
    refine Nat.Coprime.pow_left 32 (Nat.coprime_two_left.mpr ?_)
    exact odd_one.add_even (Nat.even_pow.mpr ⟨even_two, positive.ne'⟩)
  have equal : x.toNat ≡ y.toNat [MOD 2 ^ 32] := Nat.ModEq.cancel_right_of_coprime coprime both
  rw [Nat.ModEq, Nat.mod_eq_of_lt x.toNat_lt, Nat.mod_eq_of_lt y.toNat_lt] at equal
  exact UInt32.toNat_inj.mp equal

/-- `value ^= value >> s` can be undone. -/
theorem xor_shiftRight_injective {s : UInt32} (positive : 0 < s.toNat % 32)
    (same : x ^^^ x >>> s = y ^^^ y >>> s) : x = y := by
  have both := congrArg UInt32.toNat same
  rw [UInt32.toNat_xor, UInt32.toNat_xor, UInt32.toNat_shiftRight, UInt32.toNat_shiftRight,
    Nat.shiftRight_eq_div_pow, Nat.shiftRight_eq_div_pow] at both
  -- the difference is its own shift, so it is zero
  have shifted : x.toNat ^^^ y.toNat = (x.toNat ^^^ y.toNat) / 2 ^ (s.toNat % 32) := by
    rw [Nat.xor_div_two_pow]
    exact xor_swap both
  have zero : x.toNat ^^^ y.toNat = 0 := by
    by_contra nonzero
    have less := Nat.div_lt_self (Nat.pos_of_ne_zero nonzero)
      (Nat.one_lt_two_pow positive.ne')
    omega
  refine UInt32.toNat_inj.mp (xor_cancel (c := y.toNat) ?_)
  rw [zero, Nat.xor_self]

/-- What a turn does after the byte is added. -/
def oneMix (value : UInt32) : UInt32 :=
  let value := value + value <<< 10
  value ^^^ value >>> 6

theorem oneTurn_eq (char : PlainChar) (value : UInt32) (b : UInt8) :
    NcHashUtil.oneTurn char value b = oneMix (value + char.toUInt32 b) := rfl

theorem oneMix_injective : Function.Injective oneMix := by
  intro x y same
  unfold oneMix at same
  dsimp only at same
  exact add_shift_injective (by decide) (xor_shiftRight_injective (by decide) same)

/-- **The last lines forget nothing.** -/
theorem oneEnd_injective : Function.Injective NcHashUtil.oneEnd := by
  intro x y same
  unfold NcHashUtil.oneEnd at same
  dsimp only at same
  exact add_shift_injective (by decide) (xor_shiftRight_injective (by decide)
    (add_shift_injective (by decide) same))

/-- Without a high byte the two runs are one. -/
theorem foldl_oneTurn_plain {key : List UInt8} (plain : ∀ b ∈ key, ¬ High b) (value : UInt32) :
    key.foldl (NcHashUtil.oneTurn .signed) value = key.foldl (NcHashUtil.oneTurn .unsigned) value := by
  induction key generalizing value with
  | nil => rw [List.foldl_nil, List.foldl_nil]
  | cons b key ih =>
      obtain ⟨first, rest⟩ := List.forall_mem_cons.mp plain
      rw [List.foldl_cons, List.foldl_cons, oneTurn_eq, oneTurn_eq, low_char first]
      exact ih rest _

/-- Without a high byte two values stay apart. -/
theorem foldl_oneTurn_ne {key : List UInt8} (plain : ∀ b ∈ key, ¬ High b) (ne : x ≠ y) :
    key.foldl (NcHashUtil.oneTurn .signed) x ≠ key.foldl (NcHashUtil.oneTurn .unsigned) y := by
  induction key generalizing x y with
  | nil => exact ne
  | cons b key ih =>
      obtain ⟨first, rest⟩ := List.forall_mem_cons.mp plain
      rw [List.foldl_cons, List.foldl_cons, oneTurn_eq, oneTurn_eq, low_char first]
      exact ih rest fun same => ne ((UInt32.add_left_inj _).mp (oneMix_injective same))

/-- **One high byte makes a difference.** -/
theorem one_ne {before after : List UInt8} {b : UInt8} (plainBefore : ∀ c ∈ before, ¬ High c)
    (high : High b) (plainAfter : ∀ c ∈ after, ¬ High c) :
    NcHashUtil.one_at_a_timeHash .signed (before ++ b :: after) ≠
      NcHashUtil.one_at_a_timeHash .unsigned (before ++ b :: after) := by
  have widened : PlainChar.signed.toUInt32 b ≠ PlainChar.unsigned.toUInt32 b := by
    rw [PlainChar.toUInt32_signed, if_pos high]
    intro same
    have zero : (0xffffff00 : UInt32) = 0 :=
      (UInt32.xor_right_inj b.toUInt32).mp (same.trans UInt32.xor_zero.symm)
    exact absurd zero (by decide)
  unfold NcHashUtil.one_at_a_timeHash
  intro same
  have loops := oneEnd_injective same
  rw [List.foldl_append, List.foldl_append, List.foldl_cons, List.foldl_cons,
    foldl_oneTurn_plain plainBefore, oneTurn_eq, oneTurn_eq] at loops
  exact foldl_oneTurn_ne plainAfter
    (fun equal => widened ((UInt32.add_right_inj _).mp (oneMix_injective equal))) loops

end One

/-! ### All types -/

/-- The keys for which a type does not depend on whether a plain `char` is signed. -/
def Indifferent (key : List UInt8) : Option HashType → Prop
  | some .fnv1_64 => (fnv1Drift FNV_64_PRIME.toUInt32 FNV_64_INIT.toUInt32 key).None
  | some .fnv1a_64 => (fnv1aDrift FNV_64_PRIME.toUInt32 FNV_64_INIT.toUInt32 key).None
  | some .fnv1_32 => (fnv1Drift FNV_32_PRIME FNV_32_INIT key).None
  | some .fnv1a_32 => (fnv1aDrift FNV_32_PRIME FNV_32_INIT key).None
  | some .hsieh => key.length % 4 = 3 → ¬ High (key.getD (key.length - 1) 0)
  | some .oneAtATime => ∀ b ∈ key, ¬ High b
  | _ => True

/-- The hash is the same on a platform with signed plain `char` and on one with unsigned ones. -/
def Alike (m_buffer : List UInt8) (type : Int) (byte : Int → UInt8) (key : Int)
    (key_length : Nat) : Prop :=
  NcHashKit.hash .signed m_buffer type byte key key_length =
    NcHashKit.hash .unsigned m_buffer type byte key key_length

/-- Exactly one byte of the key is high. -/
def OneHigh (key : List UInt8) : Prop :=
  ∃ before b after, key = before ++ b :: after ∧ (∀ c ∈ before, ¬ High c) ∧ High b ∧
    ∀ c ∈ after, ¬ High c

/-- A loop with no high byte does not drift. -/
theorem none_foldl {step : Drift → UInt8 → Drift} {key : List UInt8}
    (keep : ∀ d b, ¬ High b → d.None → (step d b).None) (plain : ∀ b ∈ key, ¬ High b) {d : Drift}
    (none : d.None) : (key.foldl step d).None := by
  induction key generalizing d with
  | nil => exact none
  | cons b key ih =>
      obtain ⟨first, rest⟩ := List.forall_mem_cons.mp plain
      exact ih rest (keep d b first none)

theorem Drift.None.add {d : Drift} (none : d.None) {b : UInt8} (plain : ¬ High b) :
    (d.add b).None := by
  obtain ⟨odd, sum⟩ := none
  unfold Drift.add
  dsimp only
  rw [if_neg plain, odd, if_neg Bool.false_ne_true]
  exact ⟨rfl, sum⟩

theorem Drift.None.scale {d : Drift} (none : d.None) (prime : UInt32) : (d.scale prime).None :=
  ⟨none.1, by
    show d.sum * prime = 0
    rw [none.2, UInt32.zero_mul]⟩

theorem none_start (init : UInt32) : (Drift.start init).None := ⟨rfl, rfl⟩

/-- **A key without high bytes hashes alike in every type.** -/
theorem indifferent_of_plain {key : List UInt8} (plain : ∀ b ∈ key, ¬ High b)
    (type : Option HashType) : Indifferent key type := by
  have one (prime init : UInt32) : (fnv1Drift prime init key).None :=
    none_foldl (fun _ _ first none => (none.scale prime).add first) plain (none_start init)
  have onea (prime init : UInt32) : (fnv1aDrift prime init key).None :=
    none_foldl (fun _ _ first none => (none.add first).scale prime) plain (none_start init)
  unfold Indifferent
  split
  · exact one _ _
  · exact onea _ _
  · exact one _ _
  · exact onea _ _
  · intro three
    have inside : key.length - 1 < key.length := by omega
    rw [List.getD_eq_getElem?_getD, List.getElem?_eq_getElem inside, Option.getD_some]
    exact plain _ (List.getElem_mem inside)
  · exact plain
  · trivial

section Types

variable (m_buffer : List UInt8) (type : Int) (byte : Int → UInt8) (key : Int) (key_length : Nat)

/-- **All types but `one_at_a_timeHash`.** -/
theorem alike_iff (notOne : HashType.ofNumber type ≠ some .oneAtATime) :
    Alike m_buffer type byte key key_length ↔
      Indifferent (bytesAt byte key key_length) (HashType.ofNumber type) := by
  have prime64 : FNV_64_PRIME.toUInt32 = 2 * 217 + 1 := by decide
  have prime32 : FNV_32_PRIME = 2 * 8388809 + 1 := by decide
  unfold Alike NcHashKit.hash
  generalize bytesAt byte key key_length = bytes
  cases number : HashType.ofNumber type with
  | none => exact iff_of_true rfl trivial
  | some t =>
      cases t with
      | oneAtATime => exact absurd number notOne
      | md5 => exact iff_of_true rfl trivial
      | crc16 =>
          refine iff_of_true (UInt32.toBitVec_inj.mp ?_) trivial
          rw [NcHashUtil.register16_eq, NcHashUtil.register16_eq]
      | crc32 =>
          refine iff_of_true ?_ trivial
          exact (NcHashUtil.crc32Hash_eq_shift bytes).trans
            (NcHashUtil.crc32Hash_eq_shift bytes).symm
      | crc32a => exact iff_of_true rfl trivial
      | fnv1_64 =>
          show NcHashUtil.fnv164Hash _ _ = NcHashUtil.fnv164Hash _ _ ↔ _
          rw [NcHashUtil.fnv164Hash_eq, NcHashUtil.fnv164Hash_eq]
          exact fnv1_alike_iff prime64 _ bytes
      | fnv1a_64 =>
          show NcHashUtil.fnv164aHash _ _ = NcHashUtil.fnv164aHash _ _ ↔ _
          rw [NcHashUtil.fnv164aHash_eq, NcHashUtil.fnv164aHash_eq]
          exact fnv1a_alike_iff prime64 _ bytes
      | fnv1_32 =>
          show NcHashUtil.fnv132Hash _ _ = NcHashUtil.fnv132Hash _ _ ↔ _
          rw [NcHashUtil.fnv132Hash_eq, NcHashUtil.fnv132Hash_eq]
          exact fnv1_alike_iff prime32 _ bytes
      | fnv1a_32 =>
          show NcHashUtil.fnv132aHash _ _ = NcHashUtil.fnv132aHash _ _ ↔ _
          rw [NcHashUtil.fnv132aHash_eq, NcHashUtil.fnv132aHash_eq]
          exact fnv1a_alike_iff prime32 _ bytes
      | hsieh => exact hsieh_alike_iff bytes
      | murmur => exact iff_of_true rfl trivial
      | jenkins => exact iff_of_true rfl trivial

theorem alike_one (isOne : HashType.ofNumber type = some .oneAtATime)
    (plain : ∀ b ∈ bytesAt byte key key_length, ¬ High b) :
    Alike m_buffer type byte key key_length := by
  unfold Alike NcHashKit.hash
  rw [isOne]
  exact congrArg NcHashUtil.oneEnd (foldl_oneTurn_plain plain 0)

/-- **Which keys hash alike on every platform.** An indifferent key does, whatever the type; but for
`one_at_a_timeHash` no other does, and there no key with one high byte does. -/
theorem hash_alike :
    (Indifferent (bytesAt byte key key_length) (HashType.ofNumber type) →
        Alike m_buffer type byte key key_length) ∧
      (HashType.ofNumber type ≠ some .oneAtATime → Alike m_buffer type byte key key_length →
        Indifferent (bytesAt byte key key_length) (HashType.ofNumber type)) ∧
      (HashType.ofNumber type = some .oneAtATime → OneHigh (bytesAt byte key key_length) →
        ¬ Alike m_buffer type byte key key_length) := by
  refine ⟨fun indifferent => ?_, fun notOne => (alike_iff _ _ _ _ _ notOne).mp, ?_⟩
  · by_cases isOne : HashType.ofNumber type = some .oneAtATime
    · rw [isOne] at indifferent
      exact alike_one _ _ _ _ _ isOne indifferent
    · exact (alike_iff _ _ _ _ _ isOne).mpr indifferent
  · rintro isOne ⟨before, b, after, bytes, plainBefore, high, plainAfter⟩ alike
    unfold Alike NcHashKit.hash at alike
    rw [isOne, bytes] at alike
    exact one_ne plainBefore high plainAfter alike

end Types

/-- Two high bytes that make up for each other in `fnv132Hash`: `9f 80`. -/
theorem hash_alike_two_high :
    Alike (List.replicate 64 0) 0x8 (fun i => if i = 0 then 0x9f else 0x80) 0 2 :=
  (hash_alike (List.replicate 64 0) 0x8 (fun i => if i = 0 then 0x9f else 0x80) 0 2).1
    (by
      show (fnv1Drift FNV_32_PRIME FNV_32_INIT [0x9f, 0x80]).None
      decide +kernel)

/-- **Keys that hash differently**: the byte `0x80`, and three of it for `hsiehHash`. -/
theorem hash_not_alike :
    ¬ Alike (List.replicate 64 0) 0x1 (fun _ => 0x80) 0 1 ∧
      ¬ Alike (List.replicate 64 0) 0x6 (fun _ => 0x80) 0 1 ∧
      ¬ Alike (List.replicate 64 0) 0x7 (fun _ => 0x80) 0 1 ∧
      ¬ Alike (List.replicate 64 0) 0x8 (fun _ => 0x80) 0 1 ∧
      ¬ Alike (List.replicate 64 0) 0x9 (fun _ => 0x80) 0 1 ∧
      ¬ Alike (List.replicate 64 0) 0xa (fun _ => 0x80) 0 3 := by
  unfold Alike
  decide +kernel

end Nutcracker
