/-
**Steps that lose nothing.**

A step takes a state and a symbol. It is `Permutive` if the new state and either of the two determine
the other one. A run of such steps keeps two states apart, and so it tells apart two words of one length
that differ in one place.

* `Permutive.foldl_injective` — a run forgets nothing of the state it starts from.
* `Permutive.separates` — **two words that differ in one symbol end in different states**.
* `Permutive.firstBlocks_separates` — the same for a run over blocks of symbols.
* `Shift.Reversible`, `Shift.crc_injective` — the registers of cyclic redundancy checks are such runs,
  over words of as many bits as the register has.
-/

import Mathlib.Data.List.GetD
import Nutcracker.Lib.Blocks
import Nutcracker.Lib.Crc

namespace Nutcracker.Lib

variable {σ α β : Type}

/-- **The new state and the symbol determine the state**, and the new state and the state the symbol. -/
structure Permutive (f : σ → α → σ) : Prop where
  state : ∀ {s t a}, f s a = f t a → s = t
  symbol : ∀ {s a b}, f s a = f s b → a = b

namespace Permutive

variable {f : σ → α → σ}

/-- Symbols that are read through an injection. -/
theorem comp (permutive : Permutive f) {g : β → α} (injective : Function.Injective g) :
    Permutive fun s b => f s (g b) where
  state same := permutive.state same
  symbol same := injective (permutive.symbol same)

theorem foldl_injective (permutive : Permutive f) (word : List α) {s t : σ}
    (same : word.foldl f s = word.foldl f t) : s = t := by
  induction word generalizing s t with
  | nil => exact same
  | cons a word ih => exact permutive.state (ih same)

/-- **One symbol makes a difference.** -/
theorem separates (permutive : Permutive f) (s : σ) (before after : List α) {a b : α} (ne : a ≠ b) :
    (before ++ a :: after).foldl f s ≠ (before ++ b :: after).foldl f s := by
  intro same
  rw [List.foldl_append, List.foldl_append, List.foldl_cons, List.foldl_cons] at same
  exact ne (permutive.symbol (permutive.foldl_injective after same))

/-! ### Blocks -/

variable {n : Nat} {g : σ → List α → σ}

/-- A run over blocks forgets nothing of the state. -/
theorem firstBlocks_injective (state : ∀ block, Function.Injective fun s => g s block) (k : Nat)
    {s t : σ} (word : List α) (same : firstBlocks n g k s word = firstBlocks n g k t word) :
    s = t := by
  induction k generalizing s t word with
  | zero => exact same
  | succ k ih => exact state _ (ih _ same)

/-- **One symbol of the blocks makes a difference.** A block of `n` symbols and the new state determine
the state, and for a state the new state determines the block. -/
theorem firstBlocks_separates (state : ∀ block, Function.Injective fun s => g s block)
    (block : ∀ s x y, x.length = n → y.length = n → g s x = g s y → x = y) (k : Nat) (s : σ)
    (before after : List α) {a b : α} (ne : a ≠ b) (inside : before.length < k * n)
    (whole : k * n ≤ (before ++ a :: after).length) :
    firstBlocks n g k s (before ++ a :: after) ≠ firstBlocks n g k s (before ++ b :: after) := by
  induction k generalizing s before with
  | zero =>
      rw [Nat.zero_mul] at inside
      exact absurd inside (Nat.not_lt_zero _)
  | succ k ih =>
      rw [Nat.succ_mul] at inside whole
      rw [List.length_append, List.length_cons] at whole
      rw [firstBlocks, firstBlocks]
      by_cases first : before.length < n
      · -- The symbol is in the first block, and the other blocks are the same.
        obtain ⟨m, rfl⟩ : ∃ m, n = before.length + (m + 1) := ⟨n - before.length - 1, by omega⟩
        have rest (x : α) : (before ++ x :: after).drop (before.length + (m + 1)) = after.drop m := by
          rw [List.drop_length_add_append, List.drop_succ_cons]
        have start (x : α) : (before ++ x :: after).take (before.length + (m + 1)) =
            before ++ x :: after.take m := by
          rw [List.take_length_add_append, List.take_succ_cons]
        have size (x : α) : (before ++ x :: after.take m).length = before.length + (m + 1) := by
          rw [List.length_append, List.length_cons, List.length_take]
          omega
        rw [rest, rest, start, start]
        intro same
        have blocks := block s _ _ (size a) (size b) (firstBlocks_injective state k _ same)
        exact ne (List.cons.inj (List.append_cancel_left blocks)).1
      · have enough : n ≤ before.length := Nat.le_of_not_lt first
        have rest (x : α) : (before ++ x :: after).drop n = before.drop n ++ x :: after :=
          List.drop_append_of_le_length enough
        have start (x : α) : (before ++ x :: after).take n = before.take n :=
          List.take_append_of_le_length enough
        rw [rest, rest, start, start]
        refine ih _ (before.drop n) ?_ ?_
        · rw [List.length_drop]
          omega
        · rw [List.length_append, List.length_drop, List.length_cons]
          omega

end Permutive

/-! ### Cyclic redundancy checks -/

namespace Shift

variable {w : Nat} {shift : Shift w} {poly : BitVec w}

/-- **A register whose shifts can be undone**: the polynomial has the bit that a shift leaves empty. -/
structure Reversible (shift : Shift w) (poly : BitVec w) : Prop where
  bit : ∀ c, shift.crcBit poly c false = 0 → c = 0
  empties : ∀ c, shift.rest^[w] c = 0
  fills : ∀ bits : List Bool, bits.length = w → ∃ c, shift.leaving w c = bits

theorem reversible_down (top : poly.getMsbD 0 = true) : Reversible down poly where
  bit c zero := by
    unfold crcBit at zero
    rw [Bool.xor_false] at zero
    have shifted : c >>> 1 = if c.getLsbD 0 then poly else 0 := BitVec.xor_eq_zero_iff.mp zero
    cases lowest : c.getLsbD 0 with
    | true =>
        -- The highest bit of the polynomial is not that of a register shifted down.
        rw [lowest, if_pos rfl] at shifted
        rw [← shifted, BitVec.getMsbD_ushiftRight] at top
        simp at top
    | false =>
        rw [lowest, if_neg Bool.false_ne_true] at shifted
        refine BitVec.eq_of_getLsbD_eq fun i _ => ?_
        rw [BitVec.ofNat_eq_ofNat, BitVec.getLsbD_zero]
        cases i with
        | zero => exact lowest
        | succ i =>
            have bit := congrArg (fun d => BitVec.getLsbD d i) shifted
            rwa [BitVec.getLsbD_ushiftRight, BitVec.ofNat_eq_ofNat, BitVec.getLsbD_zero,
              Nat.add_comm] at bit
  empties c := by
    rw [rest_down]
    exact BitVec.ushiftRight_eq_zero (Nat.le_refl w)
  fills bits size := by
    subst size
    refine ⟨BitVec.ofBoolListLE bits, ?_⟩
    rw [leaving_down]
    refine List.ext_getElem (by rw [List.length_map, List.length_range]) fun i _ inside => ?_
    rw [List.getElem_map, List.getElem_range, BitVec.getLsbD_ofBoolListLE,
      List.getD_eq_getElem _ _ inside]

theorem reversible_up (bottom : poly.getLsbD 0 = true) : Reversible up poly where
  bit c zero := by
    unfold crcBit at zero
    rw [Bool.xor_false] at zero
    have shifted : c <<< 1 = if c.getMsbD 0 then poly else 0 := BitVec.xor_eq_zero_iff.mp zero
    cases highest : c.getMsbD 0 with
    | true =>
        rw [highest, if_pos rfl] at shifted
        rw [← shifted, BitVec.getLsbD_shiftLeft] at bottom
        simp at bottom
    | false =>
        rw [highest, if_neg Bool.false_ne_true] at shifted
        refine BitVec.eq_of_getMsbD_eq fun i _ => ?_
        rw [BitVec.ofNat_eq_ofNat, BitVec.getMsbD_zero]
        cases i with
        | zero => exact highest
        | succ i =>
            have bit := congrArg (fun d => BitVec.getMsbD d i) shifted
            rwa [BitVec.getMsbD_shiftLeft, BitVec.ofNat_eq_ofNat, BitVec.getMsbD_zero] at bit
  empties c := by
    rw [rest_up]
    exact BitVec.shiftLeft_eq_zero (Nat.le_refl w)
  fills bits size := by
    subst size
    refine ⟨BitVec.ofBoolListBE bits, ?_⟩
    rw [leaving_up]
    refine List.ext_getElem (by rw [List.length_map, List.length_range]) fun i _ inside => ?_
    rw [List.getElem_map, List.getElem_range, BitVec.getMsbD_ofBoolListBE,
      List.getD_eq_getElem _ _ inside]

namespace Reversible

theorem crcBit_injective (reversible : Reversible shift poly) (bit : Bool) {c d : BitVec w}
    (same : shift.crcBit poly c bit = shift.crcBit poly d bit) : c = d := by
  have difference : shift.crcBit poly (c ^^^ d) (bit ^^ bit) =
      shift.crcBit poly c bit ^^^ shift.crcBit poly d bit := crcBit_xor c d bit bit
  rw [same, BitVec.xor_self, Bool.xor_self] at difference
  exact BitVec.xor_eq_zero_iff.mp (reversible.bit _ difference)

/-- **The bits determine the register that they started from.** -/
theorem crc_injective (reversible : Reversible shift poly) (bits : List Bool) {c d : BitVec w}
    (same : shift.crc poly c bits = shift.crc poly d bits) : c = d := by
  induction bits generalizing c d with
  | nil => exact same
  | cons bit bits ih => exact reversible.crcBit_injective bit (ih same)

/-- Zeros leave an empty register empty. -/
theorem crc_zeros (n : Nat) : shift.crc poly 0 (List.replicate n false) = 0 := by
  have bit : shift.crcBit poly 0 false = 0 := by
    have twice : shift.crcBit poly (0 ^^^ 0) (false ^^ false) =
        shift.crcBit poly 0 false ^^^ shift.crcBit poly 0 false := crcBit_xor 0 0 false false
    rwa [BitVec.xor_self, BitVec.xor_self, Bool.xor_self] at twice
  induction n with
  | zero => rfl
  | succ n ih =>
      show shift.crc poly (shift.crcBit poly 0 false) (List.replicate n false) = 0
      rw [bit, ih]

/-- Only zeros leave an empty register empty, as far as it has bits. -/
theorem eq_zeros (reversible : Reversible shift poly) {bits : List Bool}
    (size : bits.length = w) (zero : shift.crc poly 0 bits = 0) : bits = List.replicate w false := by
  -- A register that is fed its own bits is empty in the end; so it is if it is fed zeros instead.
  obtain ⟨c, rfl⟩ := reversible.fills bits size
  have both : (List.replicate w false).length = (shift.leaving w c).length := by
    rw [List.length_replicate, length_leaving]
  have same : List.zipWith xor (List.replicate w false) (shift.leaving w c) = shift.leaving w c := by
    refine List.ext_getElem (by rw [List.length_zipWith, ← both, Nat.min_self, both]) fun i _ _ => ?_
    rw [List.getElem_zipWith, List.getElem_replicate, Bool.false_xor]
  have linear : shift.crc poly (c ^^^ 0) (List.zipWith xor _ _) = _ := crc_xor c 0 both
  rw [same, zero, BitVec.ofNat_eq_ofNat, BitVec.xor_zero, BitVec.xor_zero, crc_leaving,
    reversible.empties] at linear
  have empty : c = 0 := reversible.crc_injective _ (linear.symm.trans (crc_zeros w).symm)
  have bits (n : Nat) : shift.leaving n 0 = List.replicate n false := by
    have out : shift.out 0 = false := by
      have twice := shift.out_xor 0 0
      rwa [BitVec.xor_self, Bool.xor_self] at twice
    have rest : shift.rest 0 = 0 := by
      have twice := shift.rest_xor 0 0
      rwa [BitVec.xor_self, BitVec.xor_self] at twice
    induction n with
    | zero => rfl
    | succ n ih => rw [leaving, out, rest, ih, List.replicate_succ]
  rw [empty, bits]

/-- **The register determines the bits**, if there are no more of them than it has. -/
theorem crc_separates (reversible : Reversible shift poly) (c : BitVec w) {xs ys : List Bool}
    (size : xs.length = ys.length) (short : xs.length ≤ w)
    (same : shift.crc poly c xs = shift.crc poly c ys) : xs = ys := by
  have difference : shift.crc poly (c ^^^ c) (List.zipWith xor xs ys) = _ := crc_xor c c size
  rw [same, BitVec.xor_self, BitVec.xor_self] at difference
  have zip : (List.zipWith xor xs ys).length = xs.length := by
    rw [List.length_zipWith, ← size, Nat.min_self]
  -- Zeros in front fill the register.
  have padded : List.replicate (w - xs.length) false ++ List.zipWith xor xs ys =
      List.replicate w false := by
    refine reversible.eq_zeros ?_ ?_
    · rw [List.length_append, List.length_replicate, zip]
      omega
    · rw [crc_append, crc_zeros]
      exact difference
  have zeros : ∀ bit ∈ List.zipWith xor xs ys, bit = false := fun bit member =>
    List.eq_of_mem_replicate (padded ▸ List.mem_append_right _ member)
  refine List.ext_getElem size fun i inside inside' => ?_
  have bit := zeros _ (List.getElem_mem (by rw [zip]; exact inside))
  rw [List.getElem_zipWith] at bit
  exact bne_eq_false_iff_eq.mp bit

end Reversible

end Shift

end Nutcracker.Lib
