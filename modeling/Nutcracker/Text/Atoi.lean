/-
**When `_nc_atoi` returns the number that a text writes.**

The sum of the digits is taken modulo `2 ^ 32`, and its sign is looked at once, behind the loop. So a
number from `2 ^ 32` on may come back as a small one, any number of times round.

* `atoi_other` — `-1` for a text with another byte than a digit.
* `atoi_numeral` — the lowest 32 bits of the number, or `-1` if they are negative, for a numeral.
* `nc_atoi_iff` — **the result is the number if and only if the text does not wrap**, and no number
  outside some limits is taken for one inside, if and only if it does not wrap into them.
-/

import Nutcracker.Text.Number

namespace Nutcracker

/-- The `n` bytes from `line` on. -/
def textAt (byte : Nat → UInt8) (line n : Nat) : List UInt8 :=
  (List.range n).map fun i => byte (line + i)

/-- The number that a text writes if it is an `int`, and `-1` if it writes none or a greater one. -/
def numberOf (text : List UInt8) : Int :=
  if IsNumeral 10 text ∧ numeral 10 text ≤ 2147483647 then numeral 10 text else -1

/-- **The text writes a number above `INT_MAX` whose lowest 32 bits are not negative.** -/
def Wraps (text : List UInt8) : Prop :=
  IsNumeral 10 text ∧ 2147483647 < numeral 10 text ∧ numeral 10 text % 2 ^ 32 < 2 ^ 31

instance (text : List UInt8) : Decidable (Wraps text) := inferInstanceAs (Decidable (_ ∧ _ ∧ _))

theorem length_textAt (byte : Nat → UInt8) (line n : Nat) : (textAt byte line n).length = n := by
  unfold textAt
  rw [List.length_map, List.length_range]

/-- `_nc_atoi` of the bytes in memory. -/
theorem nc_atoi_textAt (byte : Nat → UInt8) (line n : Nat) :
    nc_atoi byte line n = atoi (textAt byte line n) := by
  have whole : (∀ i < (textAt byte line n).length, byte (line + i) = (textAt byte line n).getD i 0) →
      nc_atoi byte line (textAt byte line n).length = atoi (textAt byte line n) := nc_atoi_eq
  rw [length_textAt] at whole
  refine whole fun i inside => ?_
  unfold textAt
  rw [List.getD_eq_getElem?_getD, List.getElem?_map, List.getElem?_range inside]
  rfl

/-- A byte that is no digit ends the loop. -/
theorem atoiLoop_other {byte : Nat → UInt8} {line n i : Nat} {value : Int} (inside : i < n)
    (other : byte (line + i) < 48 ∨ 57 < byte (line + i)) : atoiLoop byte line n value = -1 := by
  induction n generalizing line i value with
  | zero => exact absurd inside (Nat.not_lt_zero i)
  | succ n ih =>
      rw [atoiLoop]
      split
      · rfl
      · rename_i digit
        cases i with
        | zero => exact absurd other digit
        | succ i =>
            refine ih (Nat.lt_of_succ_lt_succ inside) (i := i) ?_
            rwa [Nat.add_assoc, Nat.add_comm 1 i]

/-- **A text that is no numeral.** -/
theorem atoi_other {text : List UInt8} (none : ¬ IsNumeral 10 text) : atoi text = -1 := by
  unfold atoi nc_atoi
  by_cases empty : text.length = 0
  · rw [if_pos empty]
  · rw [if_neg empty]
    have other : ∃ b ∈ text, ¬ (48 ≤ b.toNat ∧ b.toNat < 48 + 10) := by
      by_contra digits
      refine none ⟨fun isNil => empty (isNil ▸ rfl), fun b member => ?_⟩
      by_contra notDigit
      exact digits ⟨b, member, notDigit⟩
    obtain ⟨b, member, notDigit⟩ := other
    obtain ⟨i, inside, here⟩ := List.getElem_of_mem member
    refine atoiLoop_other inside ?_
    rw [Nat.zero_add, List.getD_eq_getElem?_getD, List.getElem?_eq_getElem inside, Option.getD_some,
      here, UInt8.lt_iff_toNat_lt, UInt8.lt_iff_toNat_lt]
    simp only [UInt8.reduceToNat]
    omega

/-- **`_nc_atoi` of a numeral**: the lowest 32 bits, or `-1` if they are negative. -/
theorem atoi_numeral {text : List UInt8} (isNumeral : IsNumeral 10 text) :
    atoi text =
      if numeral 10 text % 2 ^ 32 < 2 ^ 31 then ((numeral 10 text % 2 ^ 32 : Nat) : Int) else -1 := by
  rw [atoi_decimal isNumeral, Int.bmod_def]
  generalize numeral 10 text = number
  by_cases small : number % 2 ^ 32 < 2 ^ 31
  · rw [if_pos small]
    split <;> omega
  · rw [if_neg small]
    split <;> omega

/-- **When the result is the number.** -/
theorem atoi_iff (text : List UInt8) : atoi text = numberOf text ↔ ¬ Wraps text := by
  unfold numberOf Wraps
  by_cases isNumeral : IsNumeral 10 text
  · rw [atoi_numeral isNumeral]
    simp only [isNumeral, true_and]
    generalize numeral 10 text = number
    split <;> split <;> omega
  · rw [atoi_other isNumeral, if_neg fun both => isNumeral both.1]
    exact iff_of_true rfl fun wraps => isNumeral wraps.1

/-- **When no number outside the limits is accepted.** -/
theorem accepted_iff (text : List UInt8) {low high : Int} (positive : 0 ≤ low)
    (int : high ≤ 2147483647) :
    (low ≤ atoi text ∧ atoi text ≤ high →
        IsNumeral 10 text ∧ low ≤ numeral 10 text ∧ numeral 10 text ≤ high) ↔
      ¬ (Wraps text ∧ low ≤ (numeral 10 text % 2 ^ 32 : Nat) ∧
        (numeral 10 text % 2 ^ 32 : Nat) ≤ high) := by
  unfold Wraps
  by_cases isNumeral : IsNumeral 10 text
  · rw [atoi_numeral isNumeral]
    simp only [isNumeral, true_and]
    generalize numeral 10 text = number
    split <;> omega
  · rw [atoi_other isNumeral]
    refine iff_of_true (fun accepted => ?_) fun wraps => isNumeral wraps.1.1
    omega

/-- **`_nc_atoi` of any bytes.** It returns the number if and only if they do not wrap; and for all
limits, no other number than one within them is accepted if and only if they do not wrap into the
limits. -/
theorem nc_atoi_iff (byte : Nat → UInt8) (line n : Nat) :
    (nc_atoi byte line n = numberOf (textAt byte line n) ↔ ¬ Wraps (textAt byte line n)) ∧
      ∀ low high : Int, 0 ≤ low → high ≤ 2147483647 →
        ((low ≤ nc_atoi byte line n ∧ nc_atoi byte line n ≤ high →
            IsNumeral 10 (textAt byte line n) ∧ low ≤ numeral 10 (textAt byte line n) ∧
              numeral 10 (textAt byte line n) ≤ high) ↔
          ¬ (Wraps (textAt byte line n) ∧ low ≤ (numeral 10 (textAt byte line n) % 2 ^ 32 : Nat) ∧
            (numeral 10 (textAt byte line n) % 2 ^ 32 : Nat) ≤ high)) := by
  rw [nc_atoi_textAt]
  exact ⟨atoi_iff _, fun low high positive int => accepted_iff _ positive int⟩

/-- `80` is a port, read as it is written. -/
theorem nc_atoi_iff_80 :
    nc_atoi (fun i => [56, 48].getD i 0) 0 2 =
        numberOf (textAt (fun i => [56, 48].getD i 0) 0 2) ∧
      (1 ≤ nc_atoi (fun i => [56, 48].getD i 0) 0 2 ∧
          nc_atoi (fun i => [56, 48].getD i 0) 0 2 ≤ 65535 →
        IsNumeral 10 (textAt (fun i => [56, 48].getD i 0) 0 2) ∧
          (1 : Int) ≤ numeral 10 (textAt (fun i => [56, 48].getD i 0) 0 2) ∧
            (numeral 10 (textAt (fun i => [56, 48].getD i 0) 0 2) : Int) ≤ 65535) := by
  obtain ⟨number, accepted⟩ := nc_atoi_iff (fun i => [56, 48].getD i 0) 0 2
  have notWraps : ¬ Wraps (textAt (fun i => [56, 48].getD i 0) 0 2) := by decide +kernel
  refine ⟨number.mpr notWraps, (accepted 1 65535 (by decide) (by decide)).mpr ?_⟩
  exact fun wraps => notWraps wraps.1

/-- **`4294967376` is read as 80**, a port. -/
theorem atoi_4294967376 :
    nc_atoi (fun i => [52, 50, 57, 52, 57, 54, 55, 51, 55, 54].getD i 0) 0 10 = 80 ∧
      numberOf (textAt (fun i => [52, 50, 57, 52, 57, 54, 55, 51, 55, 54].getD i 0) 0 10) = -1 := by
  decide +kernel

end Nutcracker
