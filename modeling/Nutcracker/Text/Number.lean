/-
**The numbers in a text.**

* `nc_atoi_eq` — the number in a part of a string is that of the part alone.
* `atoi_decimal` — **`_nc_atoi` of digits**: the number they write modulo `2 ^ 32`, as an `int`, and
  `-1` for a negative one; so it is the number itself if and only if that is below `2 ^ 31`
  (`atoi_decimal_iff`).
* `strtol8_stop`, `strtol8_octal` — `strtol` reads up to the end of a string, and no further than
  the digits.
-/

import Nutcracker.Text.Split
import Mathlib.Tactic.Ring

namespace Nutcracker

/-! ### The number in a part of a string -/

/-- `_nc_atoi` of a whole text. -/
def atoi (text : List UInt8) : Int := nc_atoi (fun i => text.getD i 0) 0 text.length

theorem atoiLoop_congr {byte byte' : Nat → UInt8} {line line' n : Nat} {value : Int}
    (same : ∀ i < n, byte (line + i) = byte' (line' + i)) :
    atoiLoop byte line n value = atoiLoop byte' line' n value := by
  induction n generalizing line line' value with
  | zero => rfl
  | succ n ih =>
      have first : byte line = byte' line' := same 0 (Nat.succ_pos n)
      have rest : ∀ i < n, byte (line + 1 + i) = byte' (line' + 1 + i) := by
        intro i inside
        have next := same (i + 1) (by omega)
        rw [Nat.add_assoc, Nat.add_comm 1 i, next, Nat.add_assoc line', Nat.add_comm 1 i]
      rw [atoiLoop, atoiLoop, first]
      split
      · rfl
      · exact ih rest

/-- **The number in a part of a string** is that of the part alone. -/
theorem nc_atoi_eq {byte : Nat → UInt8} {line : Nat} {text : List UInt8}
    (same : ∀ i < text.length, byte (line + i) = text.getD i 0) :
    nc_atoi byte line text.length = atoi text := by
  rw [atoi, nc_atoi, nc_atoi]
  split
  · rfl
  · exact atoiLoop_congr fun i inside => by rw [same i inside, Nat.zero_add]

theorem atoiLoop_le {byte : Nat → UInt8} {line n : Nat} {value : Int} (small : value < 2 ^ 31) :
    atoiLoop byte line n value < 2 ^ 31 := by
  induction n generalizing line value with
  | zero =>
      rw [atoiLoop]
      split
      · decide
      · exact small
  | succ n ih =>
      rw [atoiLoop]
      split
      · decide
      · refine ih ?_
        have bound := Int.bmod_lt (x := value * 10 + ((byte line).toNat - 48)) (m := 2 ^ 32)
          (by decide)
        simpa using bound

/-- The result is an `int`. -/
theorem atoi_lt (text : List UInt8) : atoi text < 2 ^ 31 := by
  rw [atoi, nc_atoi]
  split
  · decide
  · exact atoiLoop_le (by decide)

/-! ### Numerals -/

/-- The number that a text of digits writes. -/
def numeral (base : Nat) (text : List UInt8) : Nat :=
  text.foldl (fun value digit => value * base + (digit.toNat - 48)) 0

/-- A non-empty text of digits. -/
def IsNumeral (base : Nat) (text : List UInt8) : Prop :=
  text ≠ [] ∧ ∀ digit ∈ text, 48 ≤ digit.toNat ∧ digit.toNat < 48 + base

instance (base : Nat) (text : List UInt8) : Decidable (IsNumeral base text) :=
  @instDecidableAnd _ _ inferInstance (List.decidableBAll _ text)

/-- The same sum in integers, from any start. -/
theorem foldl_cast (base : Nat) {text : List UInt8} (digits : ∀ digit ∈ text, 48 ≤ digit.toNat)
    (start : Nat) :
    text.foldl (fun (value : Int) digit => value * base + (digit.toNat - 48)) start =
      (text.foldl (fun value digit => value * base + (digit.toNat - 48)) start : Nat) := by
  induction text generalizing start with
  | nil => rfl
  | cons d text ih =>
      obtain ⟨first, rest⟩ := List.forall_mem_cons.mp digits
      rw [List.foldl_cons, List.foldl_cons, ← ih rest]
      push_cast [Nat.cast_sub first]
      rfl

theorem numeral_cast {base : Nat} {text : List UInt8} (isNumeral : IsNumeral base text) :
    text.foldl (fun (value : Int) digit => value * base + (digit.toNat - 48)) 0 =
      (numeral base text : Int) := by
  have cast := foldl_cast base (fun digit member => (isNumeral.2 digit member).1) 0
  exact cast

/-- A step of the sum modulo `2 ^ 32` may take the remainder first. -/
theorem bmod_step (value digit : Int) :
    (value.bmod (2 ^ 32) * 10 + digit).bmod (2 ^ 32) = (value * 10 + digit).bmod (2 ^ 32) := by
  rw [← Int.bmod_add_bmod, Int.bmod_mul_bmod, Int.bmod_add_bmod]

/-- **The loop over digits** computes their sum modulo `2 ^ 32`. -/
theorem atoiLoop_numeral (before : List UInt8) {text : List UInt8} (value : Int)
    (digits : ∀ digit ∈ text, 48 ≤ digit.toNat ∧ digit.toNat < 48 + 10) :
    atoiLoop (fun i => (before ++ text).getD i 0) before.length text.length
        (value.bmod (2 ^ 32)) =
      let sum := (text.foldl (fun (value : Int) digit => value * 10 + (digit.toNat - 48))
        value).bmod (2 ^ 32)
      if sum < 0 then -1 else sum := by
  induction text generalizing before value with
  | nil => rfl
  | cons d text ih =>
      obtain ⟨⟨low, high⟩, rest⟩ := List.forall_mem_cons.mp digits
      have here : (before ++ d :: text).getD before.length 0 = d := by simp
      have isDigit : ¬ (d < 48 ∨ 57 < d) := by
        rw [UInt8.lt_iff_toNat_lt, UInt8.lt_iff_toNat_lt]
        simp only [UInt8.reduceToNat]
        omega
      have next := ih (before ++ [d]) (value * 10 + (d.toNat - 48)) rest
      rw [List.append_assoc, List.singleton_append, List.length_append, List.length_singleton]
        at next
      rw [List.length_cons, atoiLoop]
      simp only [here, if_neg isDigit, bmod_step, next, List.foldl_cons]
      rfl

/-- **`_nc_atoi` of a decimal numeral.** -/
theorem atoi_decimal {text : List UInt8} (isNumeral : IsNumeral 10 text) :
    atoi text = if (numeral 10 text : Int).bmod (2 ^ 32) < 0 then -1
      else (numeral 10 text : Int).bmod (2 ^ 32) := by
  have nonempty : text.length ≠ 0 := fun empty => isNumeral.1 (List.length_eq_zero_iff.mp empty)
  have loop := atoiLoop_numeral [] 0 isNumeral.2
  simp only [List.nil_append, List.length_nil, Int.zero_bmod] at loop
  rw [atoi, nc_atoi, if_neg nonempty, loop]
  simp only [show ((10 : Int)) = ((10 : Nat) : Int) from rfl, numeral_cast isNumeral]

/-- **The number is read as it is written if and only if it is an `int`.** -/
theorem atoi_decimal_iff {text : List UInt8} (isNumeral : IsNumeral 10 text) :
    atoi text = numeral 10 text ↔ numeral 10 text < 2 ^ 31 := by
  constructor
  · intro same
    have bound := atoi_lt text
    omega
  · intro small
    have exactly : (numeral 10 text : Int).bmod (2 ^ 32) = numeral 10 text :=
      Int.bmod_eq_of_le (by omega) (by omega)
    rw [atoi_decimal isNumeral, exactly, if_neg (by omega)]

/-! ### `strtol` in base 8 -/

section Strtol

variable {p : UInt8 → Bool} {rest : List UInt8}

/-- What follows does not matter if it begins with another byte. -/
theorem takeWhile_stop (stop : ∀ b ∈ rest.head?, p b = false) (text : List UInt8) :
    (text ++ rest).takeWhile p = text.takeWhile p := by
  have none : rest.takeWhile p = [] := by
    cases rest with
    | nil => rfl
    | cons b rest => simp [stop b rfl]
  rw [List.takeWhile_append, none, List.append_nil]
  split
  · rename_i same
    exact ((List.takeWhile_prefix p).eq_of_length same).symm
  · rfl

theorem dropWhile_stop (stop : ∀ b ∈ rest.head?, p b = false) (text : List UInt8) :
    (text ++ rest).dropWhile p = text.dropWhile p ++ rest := by
  have all : rest.dropWhile p = rest := by
    cases rest with
    | nil => rfl
    | cons b rest => simp [stop b rfl]
  rw [List.dropWhile_append, all]
  split
  · rename_i empty
    rw [List.isEmpty_iff.mp empty, List.nil_append]
  · rfl

/-- **`strtol` stops at the end of the string.** -/
theorem strtol8_stop (noConversion : Int) (text : List UInt8) (ends : rest.getD 0 0 = 0) :
    strtol8 noConversion (text ++ rest) = strtol8 noConversion text := by
  have first : ∀ b ∈ rest.head?, b = 0 := by
    intro b member
    cases rest with
    | nil => cases member
    | cons a rest =>
        obtain rfl : a = b := Option.some.inj member
        exact ends
  have notSpace : ∀ b ∈ rest.head?, isspace b = false := by
    intro b member
    rw [first b member]
    decide
  have notOctal : ∀ b ∈ rest.head?, isOctal b = false := by
    intro b member
    rw [first b member]
    decide
  have sign : ∀ (g : List UInt8) (c : UInt8), c ≠ 0 →
      ((g ++ rest).head? == some c) = (g.head? == some c) := by
    intro g c notZero
    cases g with
    | cons b g => rfl
    | nil =>
        rw [List.nil_append, List.head?_nil]
        cases start : rest.head? with
        | none => rfl
        | some b =>
            rw [first b (by rw [start]; rfl)]
            simp [Ne.symm notZero]
  have body : ∀ g : List UInt8,
      (if g.head? == some 45 || g.head? == some 43 then (g ++ rest).tail
        else g ++ rest).takeWhile isOctal =
      (if g.head? == some 45 || g.head? == some 43 then g.tail else g).takeWhile isOctal := by
    intro g
    split
    · rename_i signed
      cases g with
      | nil => simp at signed
      | cons b g => exact takeWhile_stop notOctal g
    · exact takeWhile_stop notOctal g
  simp only [strtol8, dropWhile_stop notSpace, sign _ 45 (by decide), sign _ 43 (by decide), body]

end Strtol

/-- **`strtol` of an octal numeral**, whatever other byte follows it. -/
theorem strtol8_octal (noConversion : Int) {text rest : List UInt8} (isNumeral : IsNumeral 8 text)
    (stop : ∀ b ∈ rest.head?, isOctal b = false) (small : numeral 8 text < 2 ^ 63) :
    strtol8 noConversion (text ++ rest) = ((numeral 8 text : Int), 0) := by
  have octal : ∀ b ∈ text, isOctal b = true := by
    intro b member
    obtain ⟨low, high⟩ := isNumeral.2 b member
    simp only [isOctal, Bool.and_eq_true, decide_eq_true_eq, UInt8.le_iff_toNat_le]
    simp only [UInt8.reduceToNat]
    omega
  have digits : (text ++ rest).takeWhile isOctal = text := by
    rw [takeWhile_stop stop, List.takeWhile_eq_self_iff]
    exact octal
  obtain ⟨b, more, isCons⟩ := List.exists_cons_of_ne_nil isNumeral.1
  obtain ⟨low, high⟩ := isNumeral.2 b (by rw [isCons]; exact List.mem_cons_self)
  have plain : ∀ c : UInt8, c.toNat < 48 → b ≠ c := by
    rintro c below rfl
    omega
  have noSpace : (text ++ rest).dropWhile isspace = text ++ rest := by
    have notSpace : isspace b = false := by
      have above : ∀ c : UInt8, c.toNat < 48 → ¬ b ≤ c := by
        intro c below
        rw [UInt8.le_iff_toNat_le]
        omega
      simp [isspace, plain 32 (by decide), above 13 (by decide)]
    rw [isCons, List.cons_append, List.dropWhile_cons, notSpace]
    rfl
  have head : (text ++ rest).head? = some b := by
    rw [isCons]
    rfl
  have value := numeral_cast isNumeral
  rw [Nat.cast_ofNat] at value
  have notSign : ∀ c : UInt8, c.toNat < 48 → ((some b : Option UInt8) == some c) = false := by
    intro c below
    simp [plain c below]
  simp only [strtol8, noSpace, head, notSign 45 (by decide), notSign 43 (by decide), Bool.or_false,
    Bool.false_eq_true, if_false, digits, isNumeral.1, value]
  rw [if_neg (by omega)]

end Nutcracker
