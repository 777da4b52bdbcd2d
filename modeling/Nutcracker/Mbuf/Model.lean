/-
**`NcMbuf`: a chunk of bytes with a read marker and a write marker.**

The markers `m_pos`, `m_last`, `m_start`, `m_end` are offsets into the chunk's data. `content` is the
bytes from the read marker to the write marker, `Valid` the order of the markers, and the lemmas say
what each operation does to the content.

* `content_copy` — writing appends.
* `content_setPos`, `content_setComplete` — sending drops from the front.
* `content_cut`, `content_split` — `split` keeps the bytes before the cut and moves the rest to the
  new buffer.
* `content_reset` — **`reset` makes the whole chunk the content**: it sets the write marker to the
  end.
-/

import Mathlib.Algebra.Group.Nat.Defs
import Mathlib.Data.List.Basic

namespace Nutcracker

def MBUF_MIN_SIZE : Nat := 512

def MBUF_MAX_SIZE : Nat := 16777216

/-- `sizeof(NcMbuf)`. -/
def MBUF_HSIZE : Nat := 56

/-- A value of `ncMbufChunkSize()`: what `--mbuf-size` accepts. -/
abbrev ChunkSize := { n : Nat // MBUF_MIN_SIZE ≤ n ∧ n ≤ MBUF_MAX_SIZE }

/-- `NcMbuf`. -/
structure NcMbuf where
  m_data : Nat → UInt8
  m_start : Nat
  m_end : Nat
  m_pos : Nat
  m_last : Nat
  m_chunk_size : Nat

/-- The memory `data` with `bytes` copied to the offset `at_`. -/
def memcpy (data : Nat → UInt8) (at_ : Nat) (bytes : List UInt8) : Nat → UInt8 := fun i =>
  if at_ ≤ i then (bytes[i - at_]?).getD (data i) else data i

namespace NcMbuf

/-- `NcMbuf()`, with what `nc_alloc` left in the chunk. -/
def new (chunk : ChunkSize) (data : Nat → UInt8) : NcMbuf where
  m_data := data
  m_start := 0
  m_end := chunk - MBUF_HSIZE
  m_pos := 0
  m_last := 0
  m_chunk_size := chunk

def rewind (b : NcMbuf) : NcMbuf := { b with m_pos := b.m_start, m_last := b.m_end }

def reset (b : NcMbuf) : NcMbuf := b.rewind

def empty (b : NcMbuf) : Bool := b.m_pos == b.m_last

def full (b : NcMbuf) : Bool := b.m_last == b.m_end

def setPos (n : Nat) (b : NcMbuf) : NcMbuf := { b with m_pos := b.m_pos + n }

def setLast (n : Nat) (b : NcMbuf) : NcMbuf := { b with m_last := b.m_last + n }

def setComplete (b : NcMbuf) : NcMbuf := { b with m_pos := b.m_last }

/-- `(uint32_t)(to_ - from_)` of two markers: past the end of the chunk it wraps. -/
def distance (from_ to_ : Nat) : Nat := (to_ + (2 ^ 32 - from_ % 2 ^ 32)) % 2 ^ 32

def length (b : NcMbuf) : Nat := distance b.m_pos b.m_last

def size (b : NcMbuf) : Nat := distance b.m_last b.m_end

def dataSize (b : NcMbuf) : Nat := b.m_chunk_size - MBUF_HSIZE

def copy (bytes : List UInt8) (b : NcMbuf) : NcMbuf :=
  { b with m_data := memcpy b.m_data b.m_last bytes, m_last := b.m_last + bytes.length }

/-- The bytes between two offsets. -/
def bytes (b : NcMbuf) (from_ to_ : Nat) : List UInt8 :=
  (List.range (to_ - from_)).map fun i => b.m_data (from_ + i)

/-- The unread bytes. -/
def content (b : NcMbuf) : List UInt8 := b.bytes b.m_pos b.m_last

/-- What `split(pos)` does to the buffer itself. -/
def cut (pos : Nat) (b : NcMbuf) : NcMbuf := { b with m_last := pos }

/-- `split(pos)`, with what `nc_alloc` left in the new chunk: the buffer and the new one. -/
def split (chunk : ChunkSize) (data : Nat → UInt8) (pos : Nat) (b : NcMbuf) : NcMbuf × NcMbuf :=
  (b.cut pos, (new chunk data).copy (b.bytes pos b.m_last))

/-- **The order of the markers.** -/
structure Valid (b : NcMbuf) : Prop where
  start : b.m_start ≤ b.m_pos
  pos : b.m_pos ≤ b.m_last
  last : b.m_last ≤ b.m_end
  data : b.m_end = b.m_start + b.dataSize
  least : MBUF_MIN_SIZE ≤ b.m_chunk_size
  greatest : b.m_chunk_size ≤ MBUF_MAX_SIZE

variable {b : NcMbuf}

/-! ### The markers -/

theorem distance_eq {from_ to_ : Nat} (ordered : from_ ≤ to_) (near : to_ - from_ < 2 ^ 32) :
    distance from_ to_ = to_ - from_ := by
  unfold distance
  omega

/-- One byte written past the end: the room is `UINT32_MAX`. -/
example : distance 457 456 = 4294967295 := by decide

theorem empty_iff : b.empty = true ↔ b.m_pos = b.m_last := beq_iff_eq

theorem full_iff : b.full = true ↔ b.m_last = b.m_end := beq_iff_eq

theorem Valid.dataSize_pos (valid : b.Valid) : 0 < b.dataSize := by
  have least := valid.least
  unfold dataSize MBUF_HSIZE
  unfold MBUF_MIN_SIZE at least
  omega

/-- The markers are less than a chunk apart. -/
theorem Valid.span_lt (valid : b.Valid) : b.m_end - b.m_start < MBUF_MAX_SIZE := by
  have data := valid.data
  have least := valid.least
  have greatest := valid.greatest
  unfold dataSize MBUF_HSIZE at data
  unfold MBUF_MIN_SIZE at least
  omega

theorem Valid.length_eq (valid : b.Valid) : b.length = b.m_last - b.m_pos := by
  have start := valid.start
  have last := valid.last
  have span := valid.span_lt
  unfold MBUF_MAX_SIZE at span
  exact distance_eq valid.pos (by omega)

theorem Valid.size_eq (valid : b.Valid) : b.size = b.m_end - b.m_last := by
  have start := valid.start
  have pos := valid.pos
  have span := valid.span_lt
  unfold MBUF_MAX_SIZE at span
  exact distance_eq valid.last (by omega)

theorem Valid.size_eq_zero (valid : b.Valid) : b.size = 0 ↔ b.full = true := by
  have last := valid.last
  rw [full_iff, valid.size_eq]
  omega

theorem Valid.length_lt (valid : b.Valid) : b.length < MBUF_MAX_SIZE := by
  have start := valid.start
  have last := valid.last
  have span := valid.span_lt
  rw [valid.length_eq]
  omega

theorem Valid.length_eq_zero (valid : b.Valid) : b.length = 0 ↔ b.empty = true := by
  have pos := valid.pos
  rw [empty_iff, valid.length_eq]
  omega

theorem valid_new (chunk : ChunkSize) (data : Nat → UInt8) : (new chunk data).Valid where
  start := Nat.le_refl _
  pos := Nat.le_refl _
  last := Nat.zero_le _
  data := (Nat.zero_add _).symm
  least := chunk.2.1
  greatest := chunk.2.2

theorem size_new (chunk : ChunkSize) (data : Nat → UInt8) :
    (new chunk data).size = (new chunk data).dataSize :=
  (valid_new chunk data).size_eq

theorem Valid.reset (valid : b.Valid) : b.reset.Valid :=
  { valid with
    start := Nat.le_refl _
    pos := Nat.le_trans valid.start (Nat.le_trans valid.pos valid.last)
    last := Nat.le_refl _ }

theorem Valid.setPos (valid : b.Valid) {n : Nat} (fits : n ≤ b.length) : (b.setPos n).Valid :=
  { valid with
    start := Nat.le_add_right_of_le valid.start
    pos := by
      have pos := valid.pos
      show b.m_pos + n ≤ b.m_last
      rw [valid.length_eq] at fits
      omega }

theorem Valid.setComplete (valid : b.Valid) : b.setComplete.Valid :=
  { valid with
    start := Nat.le_trans valid.start valid.pos
    pos := Nat.le_refl _ }

theorem Valid.copy (valid : b.Valid) {bytes : List UInt8} (fits : bytes.length ≤ b.size) :
    (b.copy bytes).Valid :=
  { valid with
    pos := Nat.le_add_right_of_le valid.pos
    last := by
      have last := valid.last
      show b.m_last + bytes.length ≤ b.m_end
      rw [valid.size_eq] at fits
      omega }

theorem Valid.cut (valid : b.Valid) {pos : Nat} (low : b.m_pos ≤ pos) (high : pos ≤ b.m_last) :
    (b.cut pos).Valid :=
  { valid with
    pos := low
    last := Nat.le_trans high valid.last }

/-! ### The content -/

theorem length_bytes (from_ to_ : Nat) : (b.bytes from_ to_).length = to_ - from_ := by
  unfold bytes
  rw [List.length_map, List.length_range]

theorem getElem_bytes {from_ to_ i : Nat} (inside : i < (b.bytes from_ to_).length) :
    (b.bytes from_ to_)[i] = b.m_data (from_ + i) := by
  simp only [bytes, List.getElem_map, List.getElem_range]

theorem Valid.length_content (valid : b.Valid) : b.content.length = b.length :=
  (length_bytes _ _).trans valid.length_eq.symm

theorem bytes_append {x y z : Nat} (first : x ≤ y) (second : y ≤ z) :
    b.bytes x y ++ b.bytes y z = b.bytes x z := by
  have whole : z - x = (y - x) + (z - y) := by omega
  unfold bytes
  rw [whole, List.range_add, List.map_append, List.map_map]
  congr 1
  refine List.map_congr_left fun i _ => ?_
  show b.m_data (y + i) = b.m_data (x + (y - x + i))
  rw [← Nat.add_assoc, Nat.add_sub_cancel' first]

theorem Valid.content_eq_nil (valid : b.Valid) : b.content = [] ↔ b.empty = true := by
  rw [← valid.length_eq_zero, ← valid.length_content, List.length_eq_zero_iff]

theorem content_new (chunk : ChunkSize) (data : Nat → UInt8) : (new chunk data).content = [] := rfl

/-- **`reset` makes the whole chunk the content.** -/
theorem content_reset : b.reset.content = b.bytes b.m_start b.m_end := rfl

theorem content_setComplete : b.setComplete.content = [] := by
  unfold content bytes setComplete
  rw [Nat.sub_self]
  rfl

theorem bytes_drop {x y z : Nat} (first : x ≤ y) (second : y ≤ z) :
    (b.bytes x z).drop (y - x) = b.bytes y z := by
  rw [← bytes_append first second, ← length_bytes (b := b) x y, List.drop_left]

theorem bytes_take {x y z : Nat} (first : x ≤ y) (second : y ≤ z) :
    (b.bytes x z).take (y - x) = b.bytes x y := by
  rw [← bytes_append first second, ← length_bytes (b := b) x y, List.take_left]

/-- A partial send drops the bytes sent. -/
theorem Valid.content_setPos (valid : b.Valid) {n : Nat} (fits : n ≤ b.length) :
    (b.setPos n).content = b.content.drop n := by
  have pos := valid.pos
  have high : b.m_pos + n ≤ b.m_last := by
    rw [valid.length_eq] at fits
    omega
  have dropped := bytes_drop (b := b) (Nat.le_add_right b.m_pos n) high
  rw [Nat.add_sub_cancel_left] at dropped
  exact dropped.symm

/-- **Writing appends.** -/
theorem Valid.content_copy (valid : b.Valid) (bytes : List UInt8) :
    (b.copy bytes).content = b.content ++ bytes := by
  have whole := bytes_append (b := b.copy bytes) valid.pos (Nat.le_add_right b.m_last bytes.length)
  show (b.copy bytes).bytes b.m_pos (b.m_last + bytes.length) = _
  rw [← whole]
  congr 1
  · -- below the write marker nothing is written
    refine List.map_congr_left fun i member => ?_
    have below := List.mem_range.mp member
    have outside : ¬ b.m_last ≤ b.m_pos + i := by omega
    exact if_neg outside
  · refine List.ext_getElem (by rw [length_bytes, Nat.add_sub_cancel_left]) fun i _ inside => ?_
    rw [getElem_bytes]
    show memcpy b.m_data b.m_last bytes (b.m_last + i) = bytes[i]
    unfold memcpy
    rw [if_pos (Nat.le_add_right _ _), Nat.add_sub_cancel_left, List.getElem?_eq_getElem inside,
      Option.getD_some]

theorem content_cut {pos : Nat} (low : b.m_pos ≤ pos) (high : pos ≤ b.m_last) :
    (b.cut pos).content = b.content.take (pos - b.m_pos) :=
  (bytes_take low high).symm

/-- **`split` moves the bytes after the cut to the new buffer.** -/
theorem content_split {pos : Nat} (chunk : ChunkSize) (data : Nat → UInt8) (low : b.m_pos ≤ pos)
    (high : pos ≤ b.m_last) :
    (b.split chunk data pos).1.content ++ (b.split chunk data pos).2.content = b.content := by
  show (b.cut pos).content ++ ((new chunk data).copy (b.bytes pos b.m_last)).content = b.content
  rw [(valid_new chunk data).content_copy, content_new, List.nil_append]
  exact bytes_append low high

end NcMbuf

end Nutcracker
