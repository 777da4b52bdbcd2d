/-
**Cyclic redundancy checks, bit by bit and with a table.**

A register shifts one place for each bit of the message. If the bit that leaves it and the bit of the
message differ, the polynomial is added. A `Shift` is the direction: `down` for a register whose
lowest bit leaves first (the reflected form), `up` for one whose highest bit does.

* `crc_xor` — the register is linear in its start and in the message, taken together.
* `crc_leaving` — **a register that is fed the bits that leave it only shifts**.
* `crc_table` — so some bits of the message at once are a shift, and an entry of a table: that of the
  bits of the message plus those that leave.
* `leaving_down`, `leaving_up` — the bits that leave.
-/

import Mathlib.Data.List.Basic
import Mathlib.Logic.Function.Iterate

namespace Nutcracker.Lib

/-- A direction in which a register of `w` bits shifts: the bit that leaves, and the rest. -/
structure Shift (w : Nat) where
  out : BitVec w → Bool
  rest : BitVec w → BitVec w
  out_xor : ∀ a b, out (a ^^^ b) = (out a ^^ out b)
  rest_xor : ∀ a b, rest (a ^^^ b) = rest a ^^^ rest b

namespace Shift

variable {w : Nat}

/-- The lowest bit leaves. -/
def down : Shift w where
  out c := c.getLsbD 0
  rest c := c >>> 1
  out_xor _ _ := BitVec.getLsbD_xor
  rest_xor a b := BitVec.ushiftRight_xor_distrib a b 1

/-- The highest bit leaves. -/
def up : Shift w where
  out c := c.getMsbD 0
  rest c := c <<< 1
  out_xor _ _ := BitVec.getMsbD_xor
  rest_xor a b := BitVec.shiftLeft_xor_distrib a b 1

variable (shift : Shift w) (poly : BitVec w)

/-- One bit of the message. -/
def crcBit (c : BitVec w) (bit : Bool) : BitVec w :=
  shift.rest c ^^^ if shift.out c ^^ bit then poly else 0

/-- **The check of the bits**, from the register on. -/
def crc (c : BitVec w) (bits : List Bool) : BitVec w := bits.foldl (shift.crcBit poly) c

/-- The bits that leave the register in so many places. -/
def leaving : Nat → BitVec w → List Bool
  | 0, _ => []
  | n + 1, c => shift.out c :: leaving n (shift.rest c)

variable {shift poly}

theorem length_leaving (n : Nat) (c : BitVec w) : (shift.leaving n c).length = n := by
  induction n generalizing c with
  | zero => rfl
  | succ n ih => rw [leaving, List.length_cons, ih]

theorem crcBit_xor (c d : BitVec w) (x y : Bool) :
    shift.crcBit poly (c ^^^ d) (x ^^ y) = shift.crcBit poly c x ^^^ shift.crcBit poly d y := by
  have taps : (if shift.out c ^^ shift.out d ^^ (x ^^ y) then poly else 0) =
      (if shift.out c ^^ x then poly else 0) ^^^ if shift.out d ^^ y then poly else 0 := by
    cases shift.out c <;> cases shift.out d <;> cases x <;> cases y <;> simp
  unfold crcBit
  rw [shift.out_xor, shift.rest_xor, taps, BitVec.xor_assoc, BitVec.xor_assoc]
  congr 1
  rw [← BitVec.xor_assoc, ← BitVec.xor_assoc]
  congr 1
  exact BitVec.xor_comm _ _

/-- **The register is linear.** -/
theorem crc_xor (c d : BitVec w) {xs ys : List Bool} (same : xs.length = ys.length) :
    shift.crc poly (c ^^^ d) (List.zipWith xor xs ys) =
      shift.crc poly c xs ^^^ shift.crc poly d ys := by
  induction xs generalizing c d ys with
  | nil =>
      obtain rfl : ys = [] := List.length_eq_zero_iff.mp same.symm
      rfl
  | cons x xs ih =>
      cases ys with
      | nil => cases same
      | cons y ys =>
          show shift.crc poly (shift.crcBit poly (c ^^^ d) (x ^^ y)) (List.zipWith xor xs ys) = _
          rw [crcBit_xor, ih _ _ (Nat.succ.inj same)]
          rfl

/-- **A register that is fed the bits that leave it only shifts.** -/
theorem crc_leaving (n : Nat) (c : BitVec w) :
    shift.crc poly c (shift.leaving n c) = shift.rest^[n] c := by
  induction n generalizing c with
  | zero => rfl
  | succ n ih =>
      have bit : shift.crcBit poly c (shift.out c) = shift.rest c := by
        simp [crcBit]
      show shift.crc poly (shift.crcBit poly c (shift.out c)) (shift.leaving n (shift.rest c)) = _
      rw [bit, ih]
      rfl

/-- Adding bits twice changes nothing. -/
theorem zipWith_xor_twice {xs ys : List Bool} (same : xs.length = ys.length) :
    List.zipWith xor ys (List.zipWith xor xs ys) = xs := by
  induction xs generalizing ys with
  | nil =>
      obtain rfl : ys = [] := List.length_eq_zero_iff.mp same.symm
      rfl
  | cons x xs ih =>
      cases ys with
      | nil => cases same
      | cons y ys =>
          rw [List.zipWith_cons_cons, List.zipWith_cons_cons, ih (Nat.succ.inj same)]
          cases x <;> cases y <;> rfl

/-- **Some bits at once**: a shift, and the entry of a table. -/
theorem crc_table (c : BitVec w) (bits : List Bool) :
    shift.crc poly c bits = shift.rest^[bits.length] c ^^^
      shift.crc poly 0 (List.zipWith xor bits (shift.leaving bits.length c)) := by
  have same : bits.length = (shift.leaving bits.length c).length := (length_leaving _ c).symm
  have both : (shift.leaving bits.length c).length =
      (List.zipWith xor bits (shift.leaving bits.length c)).length := by
    rw [List.length_zipWith, ← same, Nat.min_self]
  have leave : shift.rest^[bits.length] c = shift.crc poly c (shift.leaving bits.length c) :=
    (crc_leaving bits.length c).symm
  rw [leave, ← crc_xor c 0 both, zipWith_xor_twice same]
  congr 1
  exact (BitVec.xor_zero).symm

theorem crc_append (c : BitVec w) (xs ys : List Bool) :
    shift.crc poly c (xs ++ ys) = shift.crc poly (shift.crc poly c xs) ys := List.foldl_append

/-! ### The bits that leave -/

theorem rest_down (n : Nat) (c : BitVec w) : down.rest^[n] c = c >>> n := by
  induction n generalizing c with
  | zero => exact (BitVec.ushiftRight_zero c).symm
  | succ n ih =>
      rw [Function.iterate_succ_apply, ih, Nat.add_comm]
      exact (BitVec.shiftRight_add c 1 n).symm

theorem rest_up (n : Nat) (c : BitVec w) : up.rest^[n] c = c <<< n := by
  induction n generalizing c with
  | zero => exact (BitVec.shiftLeft_zero c).symm
  | succ n ih =>
      rw [Function.iterate_succ_apply, ih, Nat.add_comm]
      exact (BitVec.shiftLeft_add c 1 n).symm

theorem leaving_down (n : Nat) (c : BitVec w) :
    down.leaving n c = (List.range n).map fun i => c.getLsbD i := by
  induction n generalizing c with
  | zero => rfl
  | succ n ih =>
      rw [List.range_succ_eq_map, List.map_cons, List.map_map, leaving, ih]
      congr 1
      refine List.map_congr_left fun i _ => ?_
      show (c >>> 1).getLsbD i = c.getLsbD (i + 1)
      rw [BitVec.getLsbD_ushiftRight, Nat.add_comm]

theorem leaving_up (n : Nat) (c : BitVec w) :
    up.leaving n c = (List.range n).map fun i => c.getMsbD i := by
  induction n generalizing c with
  | zero => rfl
  | succ n ih =>
      rw [List.range_succ_eq_map, List.map_cons, List.map_map, leaving, ih]
      congr 1
      refine List.map_congr_left fun i _ => ?_
      show (c <<< 1).getMsbD i = c.getMsbD (i + 1)
      rw [BitVec.getMsbD_shiftLeft]

end Shift

end Nutcracker.Lib
