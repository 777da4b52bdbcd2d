/-
**Keys that differ in one byte.**

Seven of the hash functions take the key byte by byte and lose nothing on the way: `one_at_a_timeHash`,
the four FNV loops in 32 bits, and the registers of the two CRCs that are returned whole. `murmurHash`
takes words, and loses nothing of a word. So two keys of one length that differ in one byte, such as
`user:1` and `user:2`, have different values.

* `fnv_permutive`, `one_permutive` — the steps are `Permutive`, for signed and unsigned plain `char`.
* `crc32_separates`, `crc16_separates` — from `Shift.Reversible`: the polynomials have the bit that a
  shift leaves empty.
* `murmur_separates` — for a byte of a word and for one of the last bytes.
* `hash_separates` — **`NcHashKit::hash` of the eight types tells such keys apart**.

`crc32Hash` returns 15 bits of the register, `hsiehHash` loses some of its value in each turn, and the
MD5 and Jenkins hashes return a part of their state.
-/

import Nutcracker.HashKit.Signedness
import Nutcracker.Lib.Permutive

namespace Nutcracker

open Lib NcHashUtil

/-! ### Loops over bytes -/

section Loops

/-- A product with an odd number can be undone. -/
theorem mul_odd_injective {x y m : UInt32} (odd : m.toNat % 2 = 1) (same : x * m = y * m) : x = y := by
  have both := congrArg UInt32.toNat same
  rw [UInt32.toNat_mul, UInt32.toNat_mul] at both
  have coprime : Nat.gcd (2 ^ 32) m.toNat = 1 :=
    Nat.Coprime.pow_left 32 (Nat.coprime_two_left.mpr (Nat.odd_iff.mpr odd))
  have equal : x.toNat ≡ y.toNat [MOD 2 ^ 32] := Nat.ModEq.cancel_right_of_coprime coprime both
  rw [Nat.ModEq, Nat.mod_eq_of_lt x.toNat_lt, Nat.mod_eq_of_lt y.toNat_lt] at equal
  exact UInt32.toNat_inj.mp equal

theorem char_injective (char : PlainChar) : Function.Injective char.toUInt32 := by
  intro a b same
  have bytes := congrArg UInt32.toUInt8 same
  rwa [PlainChar.toUInt8_toUInt32, PlainChar.toUInt8_toUInt32] at bytes

variable {prime : UInt32}

theorem fnv_permutive (odd : prime.toNat % 2 = 1) :
    Permutive (fun hash val : UInt32 => hash * prime ^^^ val) ∧
      Permutive fun hash val : UInt32 => (hash ^^^ val) * prime := by
  refine ⟨⟨fun same => ?_, fun same => ?_⟩, ⟨fun same => ?_, fun same => ?_⟩⟩
  · exact mul_odd_injective odd ((UInt32.xor_left_inj _).mp same)
  · exact (UInt32.xor_right_inj _).mp same
  · exact (UInt32.xor_left_inj _).mp (mul_odd_injective odd same)
  · exact (UInt32.xor_right_inj _).mp (mul_odd_injective odd same)

theorem one_permutive (char : PlainChar) : Permutive (oneTurn char) where
  state same := (UInt32.add_left_inj _).mp (oneMix_injective same)
  symbol same := char_injective char ((UInt32.add_right_inj _).mp (oneMix_injective same))

variable {a b : UInt8} (char : PlainChar) (before after : List UInt8)

theorem fnv1_separates (odd : prime.toNat % 2 = 1) (init : UInt32) (ne : a ≠ b) :
    fnv1 prime init ((before ++ a :: after).map char.toUInt32) ≠
      fnv1 prime init ((before ++ b :: after).map char.toUInt32) := by
  unfold fnv1
  rw [List.foldl_map, List.foldl_map]
  exact ((fnv_permutive odd).1.comp (char_injective char)).separates init before after ne

theorem fnv1a_separates (odd : prime.toNat % 2 = 1) (init : UInt32) (ne : a ≠ b) :
    fnv1a prime init ((before ++ a :: after).map char.toUInt32) ≠
      fnv1a prime init ((before ++ b :: after).map char.toUInt32) := by
  unfold fnv1a
  rw [List.foldl_map, List.foldl_map]
  exact ((fnv_permutive odd).2.comp (char_injective char)).separates init before after ne

theorem one_separates (ne : a ≠ b) :
    one_at_a_timeHash char (before ++ a :: after) ≠ one_at_a_timeHash char (before ++ b :: after) :=
  fun same => (one_permutive char).separates 0 before after ne (oneEnd_injective same)

end Loops

/-! ### The CRCs -/

section Crc

variable {a b : UInt8} (before after : List UInt8)

/-- **A register of at least eight bits tells two bytes apart**, and keeps them apart. -/
theorem crc_bytes {w : Nat} {shift : Shift w} {poly : BitVec w} {bits : UInt8 → List Bool}
    (reversible : shift.Reversible poly) (wide : 8 ≤ w) (size : ∀ b, (bits b).length = 8)
    (injective : Function.Injective bits) (c : BitVec w) (ne : a ≠ b) :
    shift.crc poly c ((before ++ a :: after).flatMap bits) ≠
      shift.crc poly c ((before ++ b :: after).flatMap bits) := by
  intro same
  rw [List.flatMap_append, List.flatMap_append, List.flatMap_cons, List.flatMap_cons,
    Shift.crc_append, Shift.crc_append, Shift.crc_append, Shift.crc_append] at same
  exact ne (injective (reversible.crc_separates _ ((size a).trans (size b).symm)
    ((size a).trans_le wide) (reversible.crc_injective _ same)))

theorem lsbFirst_injective : Function.Injective lsbFirst := by
  intro a b same
  refine UInt8.toBitVec_inj.mp (BitVec.eq_of_getLsbD_eq fun i inside => ?_)
  exact List.map_inj_left.mp same i (List.mem_range.mpr inside)

theorem msbFirst_injective : Function.Injective msbFirst := by
  intro a b same
  refine UInt8.toBitVec_inj.mp (BitVec.eq_of_getMsbD_eq fun i inside => ?_)
  exact List.map_inj_left.mp same i (List.mem_range.mpr inside)

theorem crc32_separates (ne : a ≠ b) :
    crc32aHash (before ++ a :: after) ≠ crc32aHash (before ++ b :: after) := by
  intro same
  have registers := congrArg UInt32.toBitVec same
  rw [crc32aHash_toBitVec, crc32aHash_toBitVec] at registers
  exact crc_bytes before after (Shift.reversible_down (by decide)) (by decide) (fun _ => rfl)
    lsbFirst_injective _ ne ((BitVec.xor_left_inj _).mp registers)

theorem crc16_separates (char : PlainChar) (ne : a ≠ b) :
    crc16Hash char (before ++ a :: after) ≠ crc16Hash char (before ++ b :: after) := by
  intro same
  have registers := congrArg (fun hash => hash.toNat % 2 ^ 16) same
  rw [crc16Hash_low, crc16Hash_low] at registers
  exact crc_bytes before after (Shift.reversible_up (by decide)) (by decide) (fun _ => rfl)
    msbFirst_injective _ ne (BitVec.toNat_inj.mp registers)

end Crc

/-! ### `murmurHash` -/

section Murmur

variable {a b : UInt8}

theorem murmurM_injective {x y : UInt32} (same : x * murmurM = y * murmurM) : x = y :=
  mul_odd_injective (by decide) same

/-- Four bytes at most are the digits of a word. -/
theorem word_injective {xs ys : List UInt8} (size : xs.length = ys.length) (short : xs.length ≤ 4)
    (same : word xs = word ys) : xs = ys := by
  have bound {zs : List UInt8} (short : zs.length ≤ 4) : ofBytes zs < 2 ^ 32 := by
    refine (Nat.ofDigits_lt_base_pow_length (by decide) (digits_lt zs)).trans_le ?_
    rw [List.length_map]
    exact Nat.pow_le_pow_right (by decide) short
  have numbers := congrArg UInt32.toNat same
  unfold word at numbers
  rw [UInt32.toNat_ofNat', UInt32.toNat_ofNat', Nat.mod_eq_of_lt (bound short),
    Nat.mod_eq_of_lt (bound (size ▸ short))] at numbers
  refine List.map_injective_iff.mpr (fun _ _ => UInt8.toNat_inj.mp) ?_
  exact Nat.ofDigits_inj_of_len_eq (by decide) (by rw [List.length_map, List.length_map, size])
    (digits_lt xs) (digits_lt ys) numbers

theorem murmurTurn_state (data : List UInt8) : Function.Injective fun h => murmurTurn h data := by
  intro x y same
  exact murmurM_injective ((UInt32.xor_left_inj _).mp same)

theorem murmurTurn_word (h : UInt32) (xs ys : List UInt8) (first : xs.length = 4)
    (second : ys.length = 4) (same : murmurTurn h xs = murmurTurn h ys) : xs = ys := by
  refine word_injective (first.trans second.symm) first.le ?_
  have mixed := (UInt32.xor_right_inj _).mp same
  exact murmurM_injective (xor_shiftRight_injective (by decide) (murmurM_injective mixed))

/-! The cases of the last bytes. -/

theorem murmurEnd_one (data : List UInt8) (h : UInt32) :
    murmurEnd data 1 h = (h ^^^ (data.getD 0 0).toUInt32) * murmurM := by
  rw [murmurEnd]

theorem murmurEnd_two (data : List UInt8) (h : UInt32) :
    murmurEnd data 2 h =
      (h ^^^ (data.getD 1 0).toUInt32 <<< 8 ^^^ (data.getD 0 0).toUInt32) * murmurM := by
  rw [murmurEnd, murmurEnd_one]

theorem murmurEnd_three (data : List UInt8) (h : UInt32) :
    murmurEnd data 3 h = (h ^^^ (data.getD 2 0).toUInt32 <<< 16 ^^^
      (data.getD 1 0).toUInt32 <<< 8 ^^^ (data.getD 0 0).toUInt32) * murmurM := by
  rw [murmurEnd, murmurEnd_two]

theorem murmurEnd_state (data : List UInt8) {n : Nat} (short : n < 4) :
    Function.Injective (murmurEnd data n) := by
  intro x y same
  match n, short with
  | 0, _ => simpa [murmurEnd] using same
  | 1, _ =>
      rw [murmurEnd_one, murmurEnd_one] at same
      exact (UInt32.xor_left_inj _).mp (murmurM_injective same)
  | 2, _ =>
      rw [murmurEnd_two, murmurEnd_two] at same
      exact (UInt32.xor_left_inj _).mp ((UInt32.xor_left_inj _).mp (murmurM_injective same))
  | 3, _ =>
      rw [murmurEnd_three, murmurEnd_three] at same
      exact (UInt32.xor_left_inj _).mp ((UInt32.xor_left_inj _).mp
        ((UInt32.xor_left_inj _).mp (murmurM_injective same)))

theorem shift_injective {s : UInt32} (small : s.toNat ≤ 16)
    (same : a.toUInt32 <<< s = b.toUInt32 <<< s) : a = b := by
  have bound (c : UInt8) : c.toNat * 2 ^ s.toNat < 2 ^ 32 := by
    have power : 2 ^ s.toNat ≤ 2 ^ 16 := Nat.pow_le_pow_right (by decide) small
    have := Nat.mul_le_mul (Nat.le_of_lt_succ c.toNat_lt) power
    omega
  have numbers := congrArg UInt32.toNat same
  rw [UInt32.toNat_shiftLeft, UInt32.toNat_shiftLeft, Nat.mod_eq_of_lt (by omega : s.toNat < 32),
    Nat.shiftLeft_eq, Nat.shiftLeft_eq, UInt8.toNat_toUInt32, UInt8.toNat_toUInt32,
    Nat.mod_eq_of_lt (bound a), Nat.mod_eq_of_lt (bound b)] at numbers
  exact UInt8.toNat_inj.mp (Nat.eq_of_mul_eq_mul_right (Nat.two_pow_pos _) numbers)

/-- **One of the last bytes** makes a difference. -/
theorem murmurEnd_separates (h : UInt32) (before after : List UInt8) (ne : a ≠ b)
    (short : (before ++ a :: after).length < 4) :
    murmurEnd (before ++ a :: after) (before ++ a :: after).length h ≠
      murmurEnd (before ++ b :: after) (before ++ a :: after).length h := by
  have first (g : UInt32) : (g ^^^ a.toUInt32) * murmurM ≠ (g ^^^ b.toUInt32) * murmurM :=
    fun same => ne (shift_injective (s := 0) (by decide) (by
      rw [UInt32.shiftLeft_zero, UInt32.shiftLeft_zero]
      exact (UInt32.xor_right_inj g).mp (murmurM_injective same)))
  have second (g k : UInt32) : (g ^^^ a.toUInt32 <<< 8 ^^^ k) * murmurM ≠
      (g ^^^ b.toUInt32 <<< 8 ^^^ k) * murmurM := fun same =>
    ne (shift_injective (by decide) ((UInt32.xor_right_inj g).mp
      ((UInt32.xor_left_inj k).mp (murmurM_injective same))))
  match before, after, short with
  | [], [], _ =>
      show murmurEnd [a] 1 h ≠ murmurEnd [b] 1 h
      rw [murmurEnd_one, murmurEnd_one]
      exact first h
  | [], [x], _ =>
      show murmurEnd [a, x] 2 h ≠ murmurEnd [b, x] 2 h
      rw [murmurEnd_two, murmurEnd_two]
      exact first _
  | [], [x, y], _ =>
      show murmurEnd [a, x, y] 3 h ≠ murmurEnd [b, x, y] 3 h
      rw [murmurEnd_three, murmurEnd_three]
      exact first _
  | [x], [], _ =>
      show murmurEnd [x, a] 2 h ≠ murmurEnd [x, b] 2 h
      rw [murmurEnd_two, murmurEnd_two]
      exact second h _
  | [x], [y], _ =>
      show murmurEnd [x, a, y] 3 h ≠ murmurEnd [x, b, y] 3 h
      rw [murmurEnd_three, murmurEnd_three]
      exact second _ _
  | [x, y], [], _ =>
      show murmurEnd [x, y, a] 3 h ≠ murmurEnd [x, y, b] 3 h
      rw [murmurEnd_three, murmurEnd_three]
      intro same
      exact ne (shift_injective (s := 16) (by decide) ((UInt32.xor_right_inj h).mp
        ((UInt32.xor_left_inj _).mp ((UInt32.xor_left_inj _).mp (murmurM_injective same)))))
  | [], _ :: _ :: _ :: _, short =>
      simp only [List.length_append, List.length_cons] at short
      omega
  | [_], _ :: _ :: _, short =>
      simp only [List.length_append, List.length_cons] at short
      omega
  | [_, _], _ :: _, short =>
      simp only [List.length_append, List.length_cons] at short
      omega
  | _ :: _ :: _ :: _, _, short =>
      simp only [List.length_append, List.length_cons] at short
      omega

/-- **One byte** makes a difference to `murmurHash`. -/
theorem murmur_separates (before after : List UInt8) (ne : a ≠ b) :
    murmurHash (before ++ a :: after) ≠ murmurHash (before ++ b :: after) := by
  have size (x : UInt8) : (before ++ x :: after).length = before.length + after.length + 1 := by
    rw [List.length_append, List.length_cons, Nat.add_assoc]
  unfold murmurHash
  dsimp only
  rw [size a, size b]
  generalize total : before.length + after.length + 1 = n
  generalize 0xdeadbeef * UInt32.ofNat n ^^^ UInt32.ofNat n = seed
  intro same
  have ends := xor_shiftRight_injective (s := 13) (by decide)
    (murmurM_injective (xor_shiftRight_injective (s := 15) (by decide) same))
  have block : ∀ s x y, x.length = 4 → y.length = 4 → murmurTurn s x = murmurTurn s y → x = y :=
    fun s x y first second => murmurTurn_word s x y first second
  by_cases inside : before.length < n / 4 * 4
  · -- The byte is in a whole word, and the last bytes are the same.
    have rest (x : UInt8) : (before ++ x :: after).drop (4 * (n / 4)) =
        after.drop (4 * (n / 4) - before.length - 1) := by
      obtain ⟨m, equal⟩ : ∃ m, 4 * (n / 4) = before.length + (m + 1) :=
        ⟨4 * (n / 4) - before.length - 1, by omega⟩
      rw [equal, List.drop_length_add_append, List.drop_succ_cons]
      congr 1
      omega
    rw [rest, rest] at ends
    refine Permutive.firstBlocks_separates murmurTurn_state block (n / 4) seed before after ne inside
      ?_ (murmurEnd_state _ (Nat.mod_lt n (by decide)) ends)
    rw [size, total]
    exact Nat.div_mul_le_self n 4
  · have outside : 4 * (n / 4) ≤ before.length := by omega
    have rest (x : UInt8) : (before ++ x :: after).drop (4 * (n / 4)) =
        before.drop (4 * (n / 4)) ++ x :: after := List.drop_append_of_le_length outside
    have words (x : UInt8) : firstBlocks 4 murmurTurn (n / 4) seed (before ++ x :: after) =
        firstBlocks 4 murmurTurn (n / 4) seed before :=
      firstBlocks_append _ _ _ (by omega)
    have last : (before.drop (4 * (n / 4)) ++ a :: after).length = n % 4 := by
      rw [List.length_append, List.length_drop, List.length_cons]
      omega
    rw [rest, rest, words, words, ← last] at ends
    exact murmurEnd_separates _ _ after ne (by rw [last]; exact Nat.mod_lt n (by decide)) ends

end Murmur

/-! ### `NcHashKit::hash` -/

/-- The types that tell apart keys that differ in one byte. -/
def HashType.Separating : HashType → Prop
  | oneAtATime | crc16 | crc32a | fnv1_64 | fnv1a_64 | fnv1_32 | fnv1a_32 | murmur => True
  | _ => False

/-- **Keys of one length that differ in one byte have different hashes**, for these types, wherever the
keys are in memory and whether a plain `char` is signed or not. -/
theorem hash_separates (char : PlainChar) (m_buffer : List UInt8) {type : Int} {hashType : HashType}
    (number : HashType.ofNumber type = some hashType) (separating : hashType.Separating)
    {byte byte' : Int → UInt8} {key key' : Int} {key_length : Nat} {before after : List UInt8}
    {a b : UInt8} (first : bytesAt byte key key_length = before ++ a :: after)
    (second : bytesAt byte' key' key_length = before ++ b :: after) (ne : a ≠ b) :
    NcHashKit.hash char m_buffer type byte key key_length ≠
      NcHashKit.hash char m_buffer type byte' key' key_length := by
  unfold NcHashKit.hash
  dsimp only
  rw [number, first, second]
  cases hashType with
  | oneAtATime => exact one_separates char before after ne
  | crc16 => exact crc16_separates before after char ne
  | crc32a => exact crc32_separates before after ne
  | fnv1_64 =>
      dsimp only
      rw [fnv164Hash_eq, fnv164Hash_eq]
      exact fnv1_separates char before after (by decide) _ ne
  | fnv1a_64 =>
      dsimp only
      rw [fnv164aHash_eq, fnv164aHash_eq]
      exact fnv1a_separates char before after (by decide) _ ne
  | fnv1_32 =>
      dsimp only
      rw [fnv132Hash_eq, fnv132Hash_eq]
      exact fnv1_separates char before after (by decide) _ ne
  | fnv1a_32 =>
      dsimp only
      rw [fnv132aHash_eq, fnv132aHash_eq]
      exact fnv1a_separates char before after (by decide) _ ne
  | murmur => exact murmur_separates before after ne
  | _ => exact separating.elim

/-- Two keys `a` and `b`, of one byte each. -/
theorem hash_separates_a_b : NcHashKit.hash .signed [] 0xb (fun _ => 97) 0 1 ≠
    NcHashKit.hash .signed [] 0xb (fun _ => 98) 0 1 :=
  hash_separates .signed [] (show HashType.ofNumber 0xb = some .murmur from rfl) trivial
    (show bytesAt (fun _ => 97) 0 1 = [] ++ 97 :: [] from rfl)
    (show bytesAt (fun _ => 98) 0 1 = [] ++ 98 :: [] from rfl) (by decide)

end Nutcracker
