/-
**`jenkinsHash` reads its key in three ways.**

A key at a multiple of four is read in 32-bit words, at another even address in 16-bit words, and else
byte by byte; the last block is masked, or read in the parts that are there. The machine is
little-endian, and a 16-bit word or a byte is widened to 32 bits where it is read.

* `lookup3` — the hash of a list of bytes, in blocks of twelve.
* `turn32_eq`, `turn16_eq`, `turn8_eq` — a turn of each loop adds the words of twelve bytes.
* `tail32_eq`, `tail16_eq`, `tail8_eq` — **each `switch` adds the words of the bytes that are left**.
* `jenkinsHash_eq` — so each of the three is `lookup3` of the key.
* `jenkinsHash_congr` — **the value depends on the bytes of the key only**.
-/

import Nutcracker.HashKit.HashTag
import Nutcracker.Lib.LittleEndian
import Mathlib.Tactic.IntervalCases

namespace Nutcracker

open Lib

/-- The internal state of `jenkinsHash`. -/
structure JenkinsState where
  a : UInt32
  b : UInt32
  c : UInt32
  deriving DecidableEq

def JENKINS_INITVAL : UInt32 := 13

namespace NcHashUtil

def rot (x k : UInt32) : UInt32 := (x <<< k) ||| (x >>> (32 - k))

/-- `mix(a,b,c)`. -/
def mix : JenkinsState → JenkinsState
  | ⟨a, b, c⟩ =>
      let a := (a - c) ^^^ rot c 4
      let c := c + b
      let b := (b - a) ^^^ rot a 6
      let a := a + c
      let c := (c - b) ^^^ rot b 8
      let b := b + a
      let a := (a - c) ^^^ rot c 16
      let c := c + b
      let b := (b - a) ^^^ rot a 19
      let a := a + c
      let c := (c - b) ^^^ rot b 4
      let b := b + a
      ⟨a, b, c⟩

/-- `final(a,b,c)`. -/
def final : JenkinsState → JenkinsState
  | ⟨a, b, c⟩ =>
      let c := (c ^^^ b) - rot b 14
      let a := (a ^^^ c) - rot c 11
      let b := (b ^^^ a) - rot a 25
      let c := (c ^^^ b) - rot b 16
      let a := (a ^^^ c) - rot c 4
      let b := (b ^^^ a) - rot a 14
      let c := (c ^^^ b) - rot b 24
      ⟨a, b, c⟩

section Reads

variable (byte : Int → UInt8)

/-- `*(const uint32_t *)p`. -/
def read32 (p : Int) : UInt32 := word (bytesAt byte p 4)

/-- `*(const uint16_t *)p`. -/
def read16 (p : Int) : UInt32 := word (bytesAt byte p 2)

/-- `*(const uint8_t *)p`. -/
def read8 (p : Int) : UInt32 := (byte p).toUInt32

/-! ### The three loops -/

/-- A turn of the loop over 32-bit words, without `mix`. -/
def turn32 (k : Int) (s : JenkinsState) : JenkinsState :=
  ⟨s.a + read32 byte k, s.b + read32 byte (k + 4), s.c + read32 byte (k + 8)⟩

/-- A turn of the loop over 16-bit words. -/
def turn16 (k : Int) (s : JenkinsState) : JenkinsState :=
  ⟨s.a + (read16 byte k + read16 byte (k + 2) <<< 16),
    s.b + (read16 byte (k + 4) + read16 byte (k + 6) <<< 16),
    s.c + (read16 byte (k + 8) + read16 byte (k + 10) <<< 16)⟩

/-- A turn of the loop over bytes. -/
def turn8 (k : Int) (s : JenkinsState) : JenkinsState :=
  ⟨s.a + read8 byte k + read8 byte (k + 1) <<< 8 + read8 byte (k + 2) <<< 16 +
      read8 byte (k + 3) <<< 24,
    s.b + read8 byte (k + 4) + read8 byte (k + 5) <<< 8 + read8 byte (k + 6) <<< 16 +
      read8 byte (k + 7) <<< 24,
    s.c + read8 byte (k + 8) + read8 byte (k + 9) <<< 8 + read8 byte (k + 10) <<< 16 +
      read8 byte (k + 11) <<< 24⟩

/-- `while (key_length > 12)`, with its turn. It leaves the position and the length. -/
def blocks (turn : Int → JenkinsState → JenkinsState) (k : Int) (key_length : Nat)
    (s : JenkinsState) : Int × Nat × JenkinsState :=
  if 12 < key_length then blocks turn (k + 12) (key_length - 12) (mix (turn k s))
  else (k, key_length, s)
termination_by key_length

/-! ### The last block -/

/-- The `switch` after the loop over 32-bit words. -/
def tail32 (k : Int) : Nat → JenkinsState → JenkinsState
  | 12, s => ⟨s.a + read32 byte k, s.b + read32 byte (k + 4), s.c + read32 byte (k + 8)⟩
  | 11, s => ⟨s.a + read32 byte k, s.b + read32 byte (k + 4), s.c + (read32 byte (k + 8) &&& 0xffffff)⟩
  | 10, s => ⟨s.a + read32 byte k, s.b + read32 byte (k + 4), s.c + (read32 byte (k + 8) &&& 0xffff)⟩
  | 9, s => ⟨s.a + read32 byte k, s.b + read32 byte (k + 4), s.c + (read32 byte (k + 8) &&& 0xff)⟩
  | 8, s => ⟨s.a + read32 byte k, s.b + read32 byte (k + 4), s.c⟩
  | 7, s => ⟨s.a + read32 byte k, s.b + (read32 byte (k + 4) &&& 0xffffff), s.c⟩
  | 6, s => ⟨s.a + read32 byte k, s.b + (read32 byte (k + 4) &&& 0xffff), s.c⟩
  | 5, s => ⟨s.a + read32 byte k, s.b + (read32 byte (k + 4) &&& 0xff), s.c⟩
  | 4, s => ⟨s.a + read32 byte k, s.b, s.c⟩
  | 3, s => ⟨s.a + (read32 byte k &&& 0xffffff), s.b, s.c⟩
  | 2, s => ⟨s.a + (read32 byte k &&& 0xffff), s.b, s.c⟩
  | 1, s => ⟨s.a + (read32 byte k &&& 0xff), s.b, s.c⟩
  | _, s => s

/-- The `switch` after the loop over 16-bit words. The odd cases fall through. -/
def tail16 (k : Int) : Nat → JenkinsState → JenkinsState
  | 12, s =>
      ⟨s.a + (read16 byte k + read16 byte (k + 2) <<< 16),
        s.b + (read16 byte (k + 4) + read16 byte (k + 6) <<< 16),
        s.c + (read16 byte (k + 8) + read16 byte (k + 10) <<< 16)⟩
  | 11, s => tail16 k 10 ⟨s.a, s.b, s.c + read8 byte (k + 10) <<< 16⟩
  | 10, s =>
      ⟨s.a + (read16 byte k + read16 byte (k + 2) <<< 16),
        s.b + (read16 byte (k + 4) + read16 byte (k + 6) <<< 16), s.c + read16 byte (k + 8)⟩
  | 9, s => tail16 k 8 ⟨s.a, s.b, s.c + read8 byte (k + 8)⟩
  | 8, s =>
      ⟨s.a + (read16 byte k + read16 byte (k + 2) <<< 16),
        s.b + (read16 byte (k + 4) + read16 byte (k + 6) <<< 16), s.c⟩
  | 7, s => tail16 k 6 ⟨s.a, s.b + read8 byte (k + 6) <<< 16, s.c⟩
  | 6, s => ⟨s.a + (read16 byte k + read16 byte (k + 2) <<< 16), s.b + read16 byte (k + 4), s.c⟩
  | 5, s => tail16 k 4 ⟨s.a, s.b + read8 byte (k + 4), s.c⟩
  | 4, s => ⟨s.a + (read16 byte k + read16 byte (k + 2) <<< 16), s.b, s.c⟩
  | 3, s => tail16 k 2 ⟨s.a + read8 byte (k + 2) <<< 16, s.b, s.c⟩
  | 2, s => ⟨s.a + read16 byte k, s.b, s.c⟩
  | 1, s => ⟨s.a + read8 byte k, s.b, s.c⟩
  | _, s => s

/-- The `switch` after the loop over bytes. All cases fall through. -/
def tail8 (k : Int) : Nat → JenkinsState → JenkinsState
  | 12, s => tail8 k 11 ⟨s.a, s.b, s.c + read8 byte (k + 11) <<< 24⟩
  | 11, s => tail8 k 10 ⟨s.a, s.b, s.c + read8 byte (k + 10) <<< 16⟩
  | 10, s => tail8 k 9 ⟨s.a, s.b, s.c + read8 byte (k + 9) <<< 8⟩
  | 9, s => tail8 k 8 ⟨s.a, s.b, s.c + read8 byte (k + 8)⟩
  | 8, s => tail8 k 7 ⟨s.a, s.b + read8 byte (k + 7) <<< 24, s.c⟩
  | 7, s => tail8 k 6 ⟨s.a, s.b + read8 byte (k + 6) <<< 16, s.c⟩
  | 6, s => tail8 k 5 ⟨s.a, s.b + read8 byte (k + 5) <<< 8, s.c⟩
  | 5, s => tail8 k 4 ⟨s.a, s.b + read8 byte (k + 4), s.c⟩
  | 4, s => tail8 k 3 ⟨s.a + read8 byte (k + 3) <<< 24, s.b, s.c⟩
  | 3, s => tail8 k 2 ⟨s.a + read8 byte (k + 2) <<< 16, s.b, s.c⟩
  | 2, s => tail8 k 1 ⟨s.a + read8 byte (k + 1) <<< 8, s.b, s.c⟩
  | 1, s => ⟨s.a + read8 byte k, s.b, s.c⟩
  | _, s => s

/-- One of the three ways: its loop, its `switch`, and `final`. With no byte left the `switch`
returns `c` at once. -/
def hashBy (turn : Int → JenkinsState → JenkinsState)
    (tail : Int → Nat → JenkinsState → JenkinsState) (key : Int) (key_length : Nat)
    (s : JenkinsState) : UInt32 :=
  let (k, key_length, s) := blocks turn key key_length s
  if key_length = 0 then s.c else (final (tail k key_length s)).c

/-- **`NcHashUtil::jenkinsHash`.** -/
def jenkinsHash (key : Int) (key_length : Nat) : UInt32 :=
  let a := 0xdeadbeef + UInt32.ofNat key_length + JENKINS_INITVAL
  if key % 4 = 0 then hashBy (turn32 byte) (tail32 byte) key key_length ⟨a, a, a⟩
  else if key % 2 = 0 then hashBy (turn16 byte) (tail16 byte) key key_length ⟨a, a, a⟩
  else hashBy (turn8 byte) (tail8 byte) key key_length ⟨a, a, a⟩

end Reads

/-! ### The hash of a list of bytes -/

/-- The words of the first twelve bytes are added to the state. -/
def absorb (s : JenkinsState) (bytes : List UInt8) : JenkinsState :=
  ⟨s.a + word (bytes.take 4), s.b + word ((bytes.drop 4).take 4), s.c + word ((bytes.drop 8).take 4)⟩

/-- **The hash of the bytes from a state on.** -/
def lookup3 (s : JenkinsState) (bytes : List UInt8) : UInt32 :=
  if 12 < bytes.length then lookup3 (mix (absorb s bytes)) (bytes.drop 12)
  else if bytes = [] then s.c else (final (absorb s bytes)).c
termination_by bytes.length
decreasing_by
  rw [List.length_drop]
  omega

variable {byte byte' : Int → UInt8}

theorem length_bytesAt (p : Int) (n : Nat) : (bytesAt byte p n).length = n := by
  unfold bytesAt
  rw [List.length_map, List.length_range]

theorem bytesAt_add (p : Int) (m n : Nat) :
    bytesAt byte p (m + n) = bytesAt byte p m ++ bytesAt byte (p + m) n := by
  unfold bytesAt
  rw [List.range_add, List.map_append, List.map_map]
  congr 1
  refine List.map_congr_left fun i _ => ?_
  show byte (p + ((m + i : Nat) : Int)) = byte (p + m + i)
  rw [Nat.cast_add, Int.add_assoc]

theorem bytesAt_one (p : Int) : bytesAt byte p 1 = [byte p] := by
  unfold bytesAt
  simp

theorem take_bytesAt (p : Int) (m n : Nat) : (bytesAt byte p n).take m = bytesAt byte p (min m n) := by
  rcases Nat.le_total m n with le | le
  · obtain ⟨rest, rfl⟩ := Nat.exists_eq_add_of_le le
    rw [bytesAt_add, List.take_left' (length_bytesAt p m), Nat.min_eq_left le]
  · rw [Nat.min_eq_right le, List.take_of_length_le]
    rw [length_bytesAt]
    exact le

theorem drop_bytesAt (p : Int) (m n : Nat) :
    (bytesAt byte p n).drop m = bytesAt byte (p + m) (n - m) := by
  rcases Nat.le_total m n with le | le
  · obtain ⟨rest, rfl⟩ := Nat.exists_eq_add_of_le le
    rw [bytesAt_add, List.drop_left' (length_bytesAt p m), Nat.add_sub_cancel_left]
  · rw [Nat.sub_eq_zero_of_le le, List.drop_eq_nil_of_le]
    · rfl
    · rw [length_bytesAt]
      exact le

/-- The words of a block in memory. -/
theorem absorb_bytesAt (s : JenkinsState) (k : Int) (n : Nat) :
    absorb s (bytesAt byte k n) = ⟨s.a + word (bytesAt byte k (min 4 n)),
      s.b + word (bytesAt byte (k + 4) (min 4 (n - 4))),
      s.c + word (bytesAt byte (k + 8) (min 4 (n - 8)))⟩ := by
  unfold absorb
  rw [drop_bytesAt, drop_bytesAt, take_bytesAt, take_bytesAt, take_bytesAt]
  rfl

/-! ### Words from smaller reads -/

theorem mask_read32 (p : Int) (n : Nat) (short : n ≤ 4) :
    read32 byte p &&& UInt32.ofNat (256 ^ n - 1) = word (bytesAt byte p n) := by
  unfold read32
  rw [word_mask _ n short, take_bytesAt, Nat.min_eq_left short]

/-- One byte more. -/
theorem word_bytesAt_succ (p : Int) (n : Nat) (short : n < 4) :
    word (bytesAt byte p (n + 1)) =
      word (bytesAt byte p n) + read8 byte (p + n) <<< UInt32.ofNat (8 * n) := by
  rw [bytesAt_add, word_append _ _ (by rw [length_bytesAt]; exact short), length_bytesAt, bytesAt_one,
    word_singleton]
  rfl

/-- Two halves of a word. -/
theorem word_pair {p q : Int} (next : q = p + 2) :
    word (bytesAt byte p 2) + word (bytesAt byte q 2) <<< 16 = word (bytesAt byte p 4) := by
  rw [next]
  show _ = word (bytesAt byte p (2 + 2))
  rw [bytesAt_add, word_append _ _ (by rw [length_bytesAt]; decide), length_bytesAt]
  rfl

theorem word_one (p : Int) : word (bytesAt byte p 1) = read8 byte p := by
  rw [bytesAt_one, word_singleton]
  rfl

theorem word_two (p : Int) :
    word (bytesAt byte p 2) = read8 byte p + read8 byte (p + 1) <<< 8 := by
  rw [← word_one, word_bytesAt_succ p 1 (by decide)]
  rfl

theorem word_three (p : Int) : word (bytesAt byte p 3) =
    read8 byte p + read8 byte (p + 1) <<< 8 + read8 byte (p + 2) <<< 16 := by
  rw [← word_two, word_bytesAt_succ p 2 (by decide)]
  rfl

theorem word_four (p : Int) : word (bytesAt byte p 4) =
    read8 byte p + read8 byte (p + 1) <<< 8 + read8 byte (p + 2) <<< 16 +
      read8 byte (p + 3) <<< 24 := by
  rw [← word_three, word_bytesAt_succ p 3 (by decide)]
  rfl

/-! ### The turns and the last blocks -/

theorem turn32_eq (k : Int) (s : JenkinsState) :
    turn32 byte k s = absorb s (bytesAt byte k 12) := by
  rw [absorb_bytesAt]
  rfl

theorem turn16_eq (k : Int) (s : JenkinsState) :
    turn16 byte k s = absorb s (bytesAt byte k 12) := by
  rw [absorb_bytesAt]
  simp (disch := omega) [turn16, read16, word_pair]

theorem turn8_eq (k : Int) (s : JenkinsState) : turn8 byte k s = absorb s (bytesAt byte k 12) := by
  rw [absorb_bytesAt]
  simp [turn8, word_four, UInt32.add_assoc, Int.add_assoc]

/-- **The masked reads.** -/
theorem tail32_eq (k : Int) (s : JenkinsState) {n : Nat} (le : n ≤ 12) :
    tail32 byte k n s = absorb s (bytesAt byte k n) := by
  have one (p : Int) : read32 byte p &&& 0xff = word (bytesAt byte p 1) :=
    mask_read32 p 1 (by decide)
  have two (p : Int) : read32 byte p &&& 0xffff = word (bytesAt byte p 2) :=
    mask_read32 p 2 (by decide)
  have three (p : Int) : read32 byte p &&& 0xffffff = word (bytesAt byte p 3) :=
    mask_read32 p 3 (by decide)
  have four (p : Int) : read32 byte p = word (bytesAt byte p 4) := rfl
  have zero (p : Int) : word (bytesAt byte p 0) = 0 := rfl
  rw [absorb_bytesAt]
  interval_cases n <;> simp only [tail32, one, two, three] <;> simp [four, zero]

/-- A word of three bytes, read from the end. -/
theorem word_three_back {p q : Int} (x : UInt32) (next : q = p + 2) :
    x + read8 byte q <<< 16 + word (bytesAt byte p 2) = x + word (bytesAt byte p 3) := by
  rw [UInt32.add_assoc, UInt32.add_comm (_ <<< _), next, word_bytesAt_succ p 2 (by decide)]
  rfl

/-- **The reads of two bytes and of one.** -/
theorem tail16_eq (k : Int) (s : JenkinsState) {n : Nat} (le : n ≤ 12) :
    tail16 byte k n s = absorb s (bytesAt byte k n) := by
  have zero (p : Int) : word (bytesAt byte p 0) = 0 := rfl
  rw [absorb_bytesAt]
  interval_cases n <;>
    simp (disch := omega) [tail16, read16, word_pair, word_three_back, zero, word_one]

/-- **The reads of one byte**, from the last to the first. -/
theorem tail8_eq (k : Int) (s : JenkinsState) {n : Nat} (le : n ≤ 12) :
    tail8 byte k n s = absorb s (bytesAt byte k n) := by
  have zero (p : Int) : word (bytesAt byte p 0) = 0 := rfl
  have left_comm (x y z : UInt32) : x + (y + z) = y + (x + z) := by
    rw [← UInt32.add_assoc, UInt32.add_comm x, UInt32.add_assoc]
  rw [absorb_bytesAt]
  interval_cases n <;>
    simp [tail8, zero, word_one, word_two, word_three, word_four, Int.add_assoc, UInt32.add_assoc,
      UInt32.add_comm, left_comm]

/-! ### The hash of a key -/

/-- One of the three ways: its turns and its last block add the words of the key. -/
theorem hashBy_eq {turn : Int → JenkinsState → JenkinsState}
    {tail : Int → Nat → JenkinsState → JenkinsState}
    (turns : ∀ k s, turn k s = absorb s (bytesAt byte k 12))
    (tails : ∀ k s n, n ≤ 12 → tail k n s = absorb s (bytesAt byte k n)) (key : Int) (n : Nat)
    (s : JenkinsState) : hashBy turn tail key n s = lookup3 s (bytesAt byte key n) := by
  induction n using Nat.strong_induction_on generalizing key s with
  | _ n ih =>
      unfold hashBy blocks lookup3
      rw [length_bytesAt]
      by_cases long : 12 < n
      · have rest := ih (n - 12) (by omega) (key + 12) (mix (turn key s))
        have block : absorb s (bytesAt byte key 12) = absorb s (bytesAt byte key n) := by
          rw [absorb_bytesAt, absorb_bytesAt]
          simp [show 4 ≤ n - 4 by omega, show 4 ≤ n - 8 by omega, show 4 ≤ n by omega]
        rw [if_pos long, if_pos long, drop_bytesAt, ← block, ← turns]
        exact rest
      · have short := Nat.le_of_not_lt long
        rw [if_neg long, if_neg long]
        dsimp only
        by_cases nothing : n = 0
        · rw [if_pos nothing, nothing]
          rfl
        · have some : bytesAt byte key n ≠ [] := by
            rw [← List.length_pos_iff, length_bytesAt]
            omega
          rw [if_neg nothing, if_neg some, tails key s n short]

/-- **`jenkinsHash` is the hash of the key's bytes**, at every address. -/
theorem jenkinsHash_eq (key : Int) (key_length : Nat) :
    jenkinsHash byte key key_length =
      let a := 0xdeadbeef + UInt32.ofNat key_length + JENKINS_INITVAL
      lookup3 ⟨a, a, a⟩ (bytesAt byte key key_length) := by
  unfold jenkinsHash
  dsimp only
  split
  · exact hashBy_eq turn32_eq (fun k s n => tail32_eq k s) key key_length _
  · split
    · exact hashBy_eq turn16_eq (fun k s n => tail16_eq k s) key key_length _
    · exact hashBy_eq turn8_eq (fun k s n => tail8_eq k s) key key_length _

/-- **The value depends on the bytes of the key only**, wherever it is and whatever is after it. -/
theorem jenkinsHash_congr (key key' : Int) (key_length : Nat)
    (same : ∀ i : Nat, i < key_length → byte (key + i) = byte' (key' + i)) :
    jenkinsHash byte key key_length = jenkinsHash byte' key' key_length := by
  have bytes : bytesAt byte key key_length = bytesAt byte' key' key_length :=
    List.map_congr_left fun i member => same i (List.mem_range.mp member)
  rw [jenkinsHash_eq, jenkinsHash_eq, bytes]

/-- A key of three bytes at the addresses 0, 2 and 5, with other bytes after it. -/
theorem jenkinsHash_three :
    jenkinsHash (fun i => ([1, 2, 3, 4] : List UInt8).getD i.toNat 0) 0 3 =
        jenkinsHash (fun i => ([9, 9, 1, 2, 3, 7] : List UInt8).getD i.toNat 0) 2 3 ∧
      jenkinsHash (fun i => ([9, 9, 1, 2, 3, 7] : List UInt8).getD i.toNat 0) 2 3 =
        jenkinsHash (fun i => ([0, 0, 0, 0, 0, 1, 2, 3] : List UInt8).getD i.toNat 0) 5 3 :=
  ⟨jenkinsHash_congr 0 2 3 (by decide), jenkinsHash_congr 2 5 3 (by decide)⟩

end NcHashUtil

end Nutcracker
