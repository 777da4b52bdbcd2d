/-
**A log line.**

`_log` puts a line together in a buffer of `LOG_MAX_LEN` bytes: a bracket, the time, the place in the
source and the message, each formatted into the space that the ones before have left, and a newline.
`LogBuf` is the length of the line, with the lengths and the sizes passed so far; what the C library
reports for the texts is a parameter.

* `vscnprintf_lt` — `_vscnprintf` reports less than the size it is given.
* `Room.put`, `room_putAll` — so each text leaves a byte, whatever its length is.
* `fileTemp_eq` — what is copied to `filetemp`. Of a name without a slash the first byte is left out.
* `log_line` — **the line stays in its buffer**.
-/

import Mathlib.Data.List.DropRight
import Mathlib.Algebra.Order.Ring.Int
import Mathlib.Algebra.Order.Ring.Nat

namespace Nutcracker

def LOG_MAX_LEN : Int := 2046

/-- A number as an `int`. -/
def toInt (n : Int) : Int := n.bmod (2 ^ 32)

/-- A number as a `size_t`. -/
def toSize (n : Int) : Nat := (n % 2 ^ 64).toNat

/-- `_vscnprintf`, where `n` is what `vsnprintf` returns: the length of the whole text, or a negative
value. -/
def vscnprintf (size : Nat) (n : Int) : Int :=
  if n ≤ 0 then 0
  else if n < toInt size then n
  else toInt (toSize (size - 1))

/-- `_scnprintf`. -/
def scnprintf (size : Nat) (n : Int) : Int := vscnprintf size n

/-- A text that is put into the line: what the C library reports for it, the time by the size given. -/
inductive Piece
  | strftime (report : Nat → Nat)
  | formatted (n : Int)

/-- The length that is added to the line. -/
def Piece.length (size : Nat) : Piece → Int
  | strftime report => toInt (report size)
  | formatted n => scnprintf size n

/-- `strftime` reports less than the size, or `0`. -/
def Piece.Documented : Piece → Prop
  | strftime report => ∀ size, report size < size ∨ report size = 0
  | formatted _ => True

/-- The line in `buf`: its length, the lengths so far, and the sizes passed. -/
structure LogBuf where
  len : Int
  lens : List Int
  sizes : List Int

namespace LogBuf

/-- A line of one byte or of none. -/
def start (len : Int) : LogBuf := ⟨len, [len], []⟩

/-- `len += nc_scnprintf(buf + len, size - len, ..)`. -/
def put (b : LogBuf) (piece : Piece) : LogBuf :=
  let size := LOG_MAX_LEN - b.len
  let len := b.len + piece.length (toSize size)
  ⟨len, b.lens ++ [len], b.sizes ++ [size]⟩

/-- Where the newline is stored. -/
def newline (b : LogBuf) : Int := b.len

/-- The number of bytes written to the file. -/
def written (b : LogBuf) : Int := b.len + 1

/-- **The line leaves a byte for the newline**, has done so from the start, and so each size passed was
positive. -/
structure Room (b : LogBuf) : Prop where
  low : 0 ≤ b.len
  high : b.len ≤ LOG_MAX_LEN - 1
  lens : ∀ len ∈ b.lens, len ≤ LOG_MAX_LEN - 1
  sizes : ∀ size ∈ b.sizes, 0 < size

end LogBuf

/-! ### The lengths -/

theorem toInt_eq {n : Int} (low : 0 ≤ n) (high : n < 2 ^ 31) : toInt n = n :=
  Int.bmod_eq_of_le (by omega) (by omega)

theorem toSize_eq {n : Int} (low : 0 ≤ n) (high : n < 2 ^ 31) : (toSize n : Int) = n := by
  unfold toSize
  rw [Int.emod_eq_of_lt low (by omega), Int.toNat_of_nonneg low]

/-- **`_vscnprintf` reports less than the size**, and no negative value. -/
theorem vscnprintf_lt {size : Nat} (positive : 0 < size) (small : size < 2 ^ 31) (n : Int) :
    0 ≤ vscnprintf size n ∧ vscnprintf size n < size := by
  have whole : toInt size = size := toInt_eq (by omega) (by omega)
  have less : (toSize ((size : Int) - 1) : Int) = size - 1 := toSize_eq (by omega) (by omega)
  unfold vscnprintf
  rw [less, whole, toInt_eq (by omega) (by omega)]
  split
  · omega
  · split <;> omega

theorem Piece.length_lt {piece : Piece} (documented : piece.Documented) {size : Nat}
    (positive : 0 < size) (small : size < 2 ^ 31) :
    0 ≤ piece.length size ∧ piece.length size < size := by
  cases piece with
  | strftime report =>
      have below : report size < size := by
        rcases documented size with less | none
        · exact less
        · rwa [none]
      show 0 ≤ toInt (report size) ∧ toInt (report size) < size
      rw [toInt_eq (by omega) (by omega)]
      omega
  | formatted n => exact vscnprintf_lt positive small n

namespace LogBuf

variable {b : LogBuf}

/-- **One text.** -/
theorem Room.put (room : b.Room) {piece : Piece} (documented : piece.Documented) :
    (b.put piece).Room := by
  obtain ⟨low, high, lens, sizes⟩ := room
  have positive : 0 < LOG_MAX_LEN - b.len := by omega
  have small : LOG_MAX_LEN - b.len < 2 ^ 31 := by
    unfold LOG_MAX_LEN
    omega
  have size := toSize_eq (Int.le_of_lt positive) small
  have added : 0 ≤ piece.length (toSize (LOG_MAX_LEN - b.len)) ∧
      piece.length (toSize (LOG_MAX_LEN - b.len)) < toSize (LOG_MAX_LEN - b.len) :=
    piece.length_lt documented (by omega) (by omega)
  obtain ⟨above, below⟩ := added
  have next : b.len + piece.length (toSize (LOG_MAX_LEN - b.len)) ≤ LOG_MAX_LEN - 1 := by omega
  refine ⟨Int.add_nonneg low above, next, fun len member => ?_, fun size member => ?_⟩
  · rcases List.mem_append.mp member with old | new
    · exact lens len old
    · rw [List.mem_singleton.mp new]
      exact next
  · rcases List.mem_append.mp member with old | new
    · exact sizes size old
    · rw [List.mem_singleton.mp new]
      exact positive

/-- All the texts of a line. -/
def putAll (pieces : List Piece) (b : LogBuf) : LogBuf := pieces.foldl put b

theorem room_putAll {pieces : List Piece} (room : b.Room)
    (documented : ∀ piece ∈ pieces, piece.Documented) : (b.putAll pieces).Room := by
  induction pieces generalizing b with
  | nil => exact room
  | cons piece pieces ih =>
      obtain ⟨first, rest⟩ := List.forall_mem_cons.mp documented
      exact ih (room.put first) rest

theorem room_start {len : Int} (low : 0 ≤ len) (high : len ≤ LOG_MAX_LEN - 1) :
    (start len).Room := by
  refine ⟨low, high, fun other member => ?_, nofun⟩
  rw [List.mem_singleton.mp member]
  exact high

end LogBuf

/-! ### The name of the file -/

/-- `'/'`. -/
def slash : UInt8 := 47

/-- The loop of `stringLastOf`. -/
def lastOfLoop (c : UInt8) : List UInt8 → Int → Int → Int
  | [], _, last => last
  | s :: rest, i, last =>
      lastOfLoop c rest (toInt (i + 1)) (if s = c ∧ i ≥ last then i else last)

/-- `stringLastOf`, of the bytes before the zero. -/
def stringLastOf (s : List UInt8) (c : UInt8) : Int := if s = [] then -1 else lastOfLoop c s 0 0

/-- `strncpy`: the bytes written to the destination. -/
def strncpy (src : List UInt8) (n : Nat) : List UInt8 :=
  src.take n ++ List.replicate (n - src.length) 0

/-- `filetemp_len`. -/
def fileTempLen (file : List UInt8) : Int := stringLastOf file slash + 1

/-- What `_log` copies to `filetemp`. -/
def fileTemp (file : List UInt8) : List UInt8 :=
  strncpy (file.drop (fileTempLen file).toNat) (toSize (file.length - fileTempLen file + 1))

/-- `sizeof(filetemp)`. -/
def FILETEMP_SIZE : Nat := 256

/-- The last component of a path. -/
def lastComponent (file : List UInt8) : List UInt8 := file.rtakeWhile fun b => b != slash

section Name

variable {c : UInt8} {s file : List UInt8} {i last : Int}

theorem lastOfLoop_none (none : c ∉ s) (i last : Int) : lastOfLoop c s i last = last := by
  induction s generalizing i last with
  | nil => rfl
  | cons b s ih =>
      obtain ⟨ne, rest⟩ := List.ne_and_not_mem_of_not_mem_cons none
      rw [lastOfLoop, if_neg fun both => ne both.1.symm]
      exact ih rest _ _

/-- **The last position of the byte**, as long as the positions are `int`s. -/
theorem lastOfLoop_split {dir comp : List UInt8} (none : c ∉ comp) (low : 0 ≤ last)
    (order : last ≤ i) (small : i + dir.length + 1 < 2 ^ 31) :
    lastOfLoop c (dir ++ c :: comp) i last = i + dir.length := by
  induction dir generalizing i last with
  | nil =>
      rw [List.nil_append, lastOfLoop, if_pos ⟨rfl, order⟩, lastOfLoop_none none]
      exact (Int.add_zero i).symm
  | cons b dir ih =>
      rw [List.length_cons] at small
      have next : toInt (i + 1) = i + 1 := toInt_eq (by omega) (by omega)
      rw [List.cons_append, lastOfLoop, next, List.length_cons]
      split
      · rw [ih (by omega) (by omega) (by omega)]
        omega
      · rw [ih low (by omega) (by omega)]
        omega

/-- Either there is a slash, and a last one, or there is none. -/
theorem lastComponent_split (file : List UInt8) :
    (∃ dir, file = dir ++ slash :: lastComponent file ∧ slash ∉ lastComponent file) ∨
      slash ∉ file ∧ lastComponent file = file := by
  by_cases member : slash ∈ file
  · obtain ⟨after, before, reversed, none⟩ :=
      List.eq_append_cons_of_mem (List.mem_reverse.mpr member)
    have whole : file = before.reverse ++ slash :: after.reverse := by
      rw [← List.reverse_reverse file, reversed, List.reverse_append, List.reverse_cons,
        List.append_assoc]
      rfl
    have comp : lastComponent file = after.reverse := by
      unfold lastComponent List.rtakeWhile
      rw [reversed, List.takeWhile_append_of_pos]
      · simp
      · intro b inside
        have ne : b ≠ slash := fun same => none (same ▸ inside)
        simpa using ne
    refine Or.inl ⟨before.reverse, by rw [comp]; exact whole, ?_⟩
    rw [comp, List.mem_reverse]
    exact none
  · refine Or.inr ⟨member, ?_⟩
    unfold lastComponent
    rw [List.rtakeWhile_eq_self_iff]
    intro b inside
    have ne : b ≠ slash := fun same => member (same ▸ inside)
    simpa using ne

theorem strncpy_whole (src : List UInt8) : strncpy src (src.length + 1) = src ++ [0] := by
  unfold strncpy
  rw [List.take_of_length_le (Nat.le_succ _), Nat.add_sub_cancel_left]
  rfl

/-- **What is copied**: the last component, of a name without a slash all but its first byte, and the
zero. -/
theorem fileTemp_eq (small : file.length < 2 ^ 31) :
    fileTemp file = (if slash ∈ file then lastComponent file else file.tail) ++ [0] := by
  rcases lastComponent_split file with ⟨dir, whole, none⟩ | ⟨none, -⟩
  · have length : file.length = dir.length + (lastComponent file).length + 1 := by
      conv_lhs => rw [whole]
      rw [List.length_append, List.length_cons]
      omega
    have member : slash ∈ file := by
      rw [whole]
      exact List.mem_append_right _ List.mem_cons_self
    have len : fileTempLen file = dir.length + 1 := by
      have nonempty : file ≠ [] := List.ne_nil_of_mem member
      have found : lastOfLoop slash (dir ++ slash :: lastComponent file) 0 0 = 0 + dir.length :=
        lastOfLoop_split none (Int.le_refl 0) (Int.le_refl 0) (by omega)
      rw [← whole] at found
      rw [fileTempLen, stringLastOf, if_neg nonempty, found]
      omega
    have rest : file.drop (fileTempLen file).toNat = lastComponent file := by
      rw [len, show ((dir.length : Int) + 1).toNat = dir.length + 1 by omega]
      conv_lhs => rw [whole]
      rw [← List.drop_drop, List.drop_left]
      rfl
    have count : toSize (file.length - fileTempLen file + 1) = (lastComponent file).length + 1 := by
      have size := toSize_eq (n := file.length - fileTempLen file + 1) (by omega) (by omega)
      omega
    rw [fileTemp, rest, count, if_pos member]
    exact strncpy_whole _
  · rw [if_neg none]
    cases file with
    | nil => rfl
    | cons b rest =>
        have len : fileTempLen (b :: rest) = 1 := by
          rw [fileTempLen, stringLastOf, if_neg (List.cons_ne_nil b rest), lastOfLoop_none none]
          rfl
        rw [List.length_cons] at small
        have count : toSize ((b :: rest).length - fileTempLen (b :: rest) + 1) = rest.length + 1 := by
          have size := toSize_eq (n := (b :: rest).length - fileTempLen (b :: rest) + 1)
            (by rw [len, List.length_cons]; omega) (by rw [len, List.length_cons]; omega)
          rw [len, List.length_cons] at size ⊢
          omega
        rw [fileTemp, count, len]
        exact strncpy_whole rest

/-- **`filetemp` is large enough** for a last component of 255 bytes, and ends in a zero. -/
theorem fileTemp_fits (small : file.length < 2 ^ 31) (short : (lastComponent file).length ≤ 255) :
    (fileTemp file).length ≤ FILETEMP_SIZE ∧ 0 ∈ fileTemp file := by
  rw [fileTemp_eq small]
  refine ⟨?_, List.mem_append_right _ (List.mem_singleton_self 0)⟩
  rw [List.length_append, List.length_singleton]
  unfold FILETEMP_SIZE
  split
  · omega
  · rename_i none
    have whole : lastComponent file = file := by
      rcases lastComponent_split file with ⟨dir, whole, -⟩ | ⟨-, whole⟩
      · refine absurd ?_ none
        rw [whole]
        exact List.mem_append_right _ List.mem_cons_self
      · exact whole
    rw [whole] at short
    rw [List.length_tail]
    omega

end Name

/-! ### The two functions -/

/-- `NcLogger`. -/
structure NcLogger where
  m_fd : Int
  m_nerror : Int

/-- What the C library reports for the texts: `strftime` by the size, `vsnprintf` for the milliseconds,
for the place by the name and the line, and for the message. -/
structure Reports where
  strftime : Nat → Nat
  millis : Int
  place : List UInt8 → Int → Int
  message : Int

namespace NcLogger

/-- The line of `_log` before the newline. -/
def line (reports : Reports) (file : List UInt8) (line : Int) : LogBuf :=
  (LogBuf.start 1).putAll
    [.strftime reports.strftime, .formatted reports.millis,
      .formatted (reports.place (fileTemp file) line), .formatted reports.message]

/-- The line of `_loga` before the newline. -/
def linea (message : Int) : LogBuf := (LogBuf.start 0).putAll [.formatted message]

/-- The newline is stored and the line is written; `write` returns a negative value on an error. -/
def store (logger : NcLogger) (write : Int → Int) (buf : LogBuf) : NcLogger × Option LogBuf :=
  (if write buf.written < 0 then { logger with m_nerror := logger.m_nerror + 1 } else logger,
    some buf)

/-- `_log`, with the line if there is one, and whether it aborts. -/
def log (reports : Reports) (write : Int → Int) (file : List UInt8) (line_ panic : Int)
    (logger : NcLogger) : (NcLogger × Option LogBuf) × Bool :=
  if logger.m_fd < 0 then ((logger, none), false)
  else (logger.store write (line reports file line_), panic ≠ 0)

/-- `_loga`. -/
def loga (message : Int) (write : Int → Int) (logger : NcLogger) : NcLogger × Option LogBuf :=
  if logger.m_fd < 0 then (logger, none) else logger.store write (linea message)

end NcLogger

/-- **The line stays in its buffer**: it never reaches the last byte before the newline, each size
passed is positive, the newline is stored inside and no more than the buffer is written. -/
structure LogBuf.Kept (b : LogBuf) : Prop where
  lens : ∀ len ∈ b.lens, len ≤ LOG_MAX_LEN - 1
  sizes : ∀ size ∈ b.sizes, 0 < size
  newline : 0 ≤ b.newline ∧ b.newline < LOG_MAX_LEN
  written : b.written ≤ LOG_MAX_LEN

theorem LogBuf.Room.kept {b : LogBuf} (room : b.Room) : b.Kept where
  lens := room.lens
  sizes := room.sizes
  newline := ⟨room.low, Int.lt_of_le_sub_one room.high⟩
  written := Int.add_le_of_le_sub_right room.high

/-- **Every log line stays in its buffer**, whatever lengths the C library reports. The name of the file
is copied inside `filetemp` if its positions are `int`s. -/
theorem log_line (logger : NcLogger) (reports : Reports) (write : Int → Int) (file : List UInt8)
    (line panic : Int)
    (documented : ∀ size, reports.strftime size < size ∨ reports.strftime size = 0)
    (short : (lastComponent file).length ≤ 255) :
    (∀ b ∈ (logger.log reports write file line panic).1.2, b.Kept) ∧
      (∀ b ∈ (logger.loga reports.message write).2, b.Kept) ∧
      (file.length < 2 ^ 31 → (fileTemp file).length ≤ FILETEMP_SIZE ∧ 0 ∈ fileTemp file) := by
  refine ⟨fun b member => ?_, fun b member => ?_, fun small => fileTemp_fits small short⟩
  · unfold NcLogger.log NcLogger.store at member
    split at member
    · cases member
    · rw [← Option.some.inj member]
      refine (LogBuf.room_putAll (LogBuf.room_start (by decide) (by decide)) ?_).kept
      simp only [List.forall_mem_cons]
      exact ⟨documented, trivial, trivial, trivial, nofun⟩
  · unfold NcLogger.loga NcLogger.store at member
    split at member
    · cases member
    · rw [← Option.some.inj member]
      refine (LogBuf.room_putAll (LogBuf.room_start (by decide) (by decide)) ?_).kept
      simp only [List.forall_mem_cons]
      exact ⟨trivial, nofun⟩

/-- A message of 5000 bytes, at a time that takes 20. -/
def longMessage : Reports where
  strftime size := if 20 < size then 20 else 0
  millis := 3
  place name _ := name.length + 8
  message := 5000

/-- The line of this message in the file `src/nc.cpp`. -/
theorem log_line_longMessage :
    (∀ b ∈ ((⟨2, 0⟩ : NcLogger).log longMessage (fun n => n)
        [115, 114, 99, 47, 110, 99, 46, 99, 112, 112] 10 0).1.2, b.Kept) ∧
      (∀ b ∈ ((⟨2, 0⟩ : NcLogger).loga longMessage.message fun n => n).2, b.Kept) ∧
      ([115, 114, 99, 47, 110, 99, 46, 99, 112, 112].length < 2 ^ 31 →
        (fileTemp [115, 114, 99, 47, 110, 99, 46, 99, 112, 112]).length ≤ FILETEMP_SIZE ∧
          0 ∈ fileTemp [115, 114, 99, 47, 110, 99, 46, 99, 112, 112]) := by
  refine log_line ⟨2, 0⟩ longMessage (fun n => n) _ 10 0 (fun size => ?_) (by decide)
  show (if 20 < size then 20 else 0) < size ∨ (if 20 < size then 20 else 0) = 0
  split
  · rename_i room
    exact Or.inl room
  · exact Or.inr rfl

end Nutcracker
