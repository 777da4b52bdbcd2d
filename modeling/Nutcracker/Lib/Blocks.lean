/-
**A list taken in blocks of one length.**

`blocks` folds a function over the whole blocks of a list, and `pending` is what is left over. A
program that gets its input in parts keeps the two.

* `blocks_append`, `pending_append` — **what a part adds depends on what is pending only**.
* `pending_of_length_lt`, `blocks_of_length_lt` — less than a block.
* `blocks_block` — a block.
-/

import Mathlib.Data.List.Basic

namespace Nutcracker.Lib

variable {α σ : Type}

/-- The first so many blocks of `n` values. -/
def firstBlocks (n : Nat) (f : σ → List α → σ) : Nat → σ → List α → σ
  | 0, s, _ => s
  | k + 1, s, xs => firstBlocks n f k (f s (xs.take n)) (xs.drop n)

/-- **The whole blocks of a list.** -/
def blocks (n : Nat) (f : σ → List α → σ) (s : σ) (xs : List α) : σ :=
  firstBlocks n f (xs.length / n) s xs

/-- What is left over. -/
def pending (n : Nat) (xs : List α) : List α := xs.drop (xs.length / n * n)

variable {n : Nat} {f : σ → List α → σ}

theorem length_pending (xs : List α) : (pending n xs).length = xs.length % n := by
  rw [pending, List.length_drop, ← Nat.mod_eq_sub_div_mul]

theorem firstBlocks_add (j k : Nat) (s : σ) (xs : List α) :
    firstBlocks n f (j + k) s xs = firstBlocks n f k (firstBlocks n f j s xs) (xs.drop (j * n)) := by
  induction j generalizing s xs with
  | zero => rw [Nat.zero_add, Nat.zero_mul, List.drop_zero, firstBlocks]
  | succ j ih =>
      rw [Nat.succ_add, firstBlocks, ih, firstBlocks, List.drop_drop, Nat.succ_mul, Nat.add_comm n]

/-- What follows the blocks does not matter. -/
theorem firstBlocks_append (k : Nat) (s : σ) {xs : List α} (ys : List α)
    (inside : k * n ≤ xs.length) : firstBlocks n f k s (xs ++ ys) = firstBlocks n f k s xs := by
  induction k generalizing s xs with
  | zero => rfl
  | succ k ih =>
      rw [Nat.succ_mul] at inside
      have first : n ≤ xs.length := Nat.le_trans (Nat.le_add_left n (k * n)) inside
      have rest : k * n ≤ (xs.drop n).length := by
        rw [List.length_drop]
        omega
      rw [firstBlocks, firstBlocks, List.take_append_of_le_length first,
        List.drop_append_of_le_length first, ih _ rest]

/-- The number of blocks after a part. -/
theorem div_append (positive : 0 < n) (xs ys : List α) :
    (xs ++ ys).length / n = xs.length / n + (pending n xs ++ ys).length / n := by
  have whole := Nat.div_add_mod xs.length n
  rw [List.length_append, List.length_append, length_pending, ← Nat.mul_add_div positive,
    ← Nat.add_assoc, whole]

theorem drop_append (xs ys : List α) :
    (xs ++ ys).drop (xs.length / n * n) = pending n xs ++ ys :=
  List.drop_append_of_le_length (Nat.div_mul_le_self xs.length n)

/-- **The blocks after a part.** -/
theorem blocks_append (positive : 0 < n) (s : σ) (xs ys : List α) :
    blocks n f s (xs ++ ys) = blocks n f (blocks n f s xs) (pending n xs ++ ys) := by
  unfold blocks
  rw [div_append positive, firstBlocks_add, drop_append,
    firstBlocks_append _ _ _ (Nat.div_mul_le_self xs.length n)]

/-- **What is left over after a part.** -/
theorem pending_append (positive : 0 < n) (xs ys : List α) :
    pending n (xs ++ ys) = pending n (pending n xs ++ ys) := by
  rw [pending, div_append positive, Nat.add_mul, ← List.drop_drop, drop_append]
  rfl

theorem blocks_of_length_lt (s : σ) {xs : List α} (short : xs.length < n) : blocks n f s xs = s := by
  rw [blocks, Nat.div_eq_of_lt short]
  rfl

theorem pending_of_length_lt {xs : List α} (short : xs.length < n) : pending n xs = xs := by
  rw [pending, Nat.div_eq_of_lt short, Nat.zero_mul, List.drop_zero]

theorem blocks_block (positive : 0 < n) (s : σ) {xs : List α} (whole : xs.length = n) :
    blocks n f s xs = f s xs := by
  rw [blocks, whole, Nat.div_self positive, firstBlocks, firstBlocks,
    List.take_of_length_le (Nat.le_of_eq whole)]

theorem pending_block {xs : List α} (whole : xs.length = n) :
    pending n xs = [] := by
  rw [← List.length_eq_zero_iff, length_pending, whole, Nat.mod_self]

/-- A block, and the rest. -/
theorem blocks_block_append (positive : 0 < n) (s : σ) {xs : List α} (ys : List α)
    (whole : xs.length = n) : blocks n f s (xs ++ ys) = blocks n f (f s xs) ys := by
  rw [blocks_append positive, blocks_block positive s whole, pending_block whole,
    List.nil_append]

end Nutcracker.Lib
