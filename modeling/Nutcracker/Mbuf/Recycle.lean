/-
**`mbuf_pool`: what a recycled buffer contains.**

Every buffer carries, for the proofs only, the bytes written into it since it was handed out
(`got`). In every history of the pool a recycled buffer is *full*: `reset` puts its write marker at
the end.

* `Recycled` — what lies in the free list: buffers whose markers span the whole chunk.
* `fresh_alloc_iff` — a buffer handed out is empty exactly if the free list was.
* `recvSize_eq_zero_iff` — `recvChain` reads zero bytes exactly if it takes a recycled buffer.
* `buffers_of_runs` — the three properties in every history, and **no stale byte in histories whose
  allocations find the free list empty**.
* `recycled_buffer_full` — a history that hands out a full buffer.
-/

import Nutcracker.Mbuf.Model
import Nutcracker.Pool.ObjectPool

namespace Nutcracker

open Lib

namespace NcMbuf

/-- `recv(mbuf->getLast(), ..)` delivers the bytes, then `setLast` moves the marker. -/
def recvInto (bytes : List UInt8) (b : NcMbuf) : NcMbuf :=
  NcMbuf.setLast bytes.length { b with m_data := memcpy b.m_data b.m_last bytes }

end NcMbuf

/-- What is done to a buffer between `alloc` and `free`; `cut` is `split` on the buffer itself, and
the new buffer of `split` gets its bytes by `copy`. -/
inductive MbufOp
  | recv (bytes : List UInt8)
  | copy (bytes : List UInt8)
  | setPos (n : Nat)
  | setComplete
  | cut (pos : Nat)

namespace MbufOp

def apply : MbufOp → NcMbuf → NcMbuf
  | recv bytes => NcMbuf.recvInto bytes
  | copy bytes => NcMbuf.copy bytes
  | setPos n => NcMbuf.setPos n
  | setComplete => NcMbuf.setComplete
  | cut pos => NcMbuf.cut pos

/-- The bytes the operation writes. -/
def written : MbufOp → List UInt8
  | recv bytes => bytes
  | copy bytes => bytes
  | _ => []

/-- `read` delivers at most `size()` bytes, a copy fits, a partial send sends at most what is there,
and a cut lies between the markers. -/
def Fits (b : NcMbuf) : MbufOp → Prop
  | recv bytes => bytes.length ≤ b.size
  | copy bytes => bytes.length ≤ b.size
  | setPos n => n ≤ b.length
  | setComplete => True
  | cut pos => b.m_pos ≤ pos ∧ pos ≤ b.m_last

variable {b : NcMbuf} {op : MbufOp}

theorem valid_apply (valid : b.Valid) (fits : op.Fits b) : (op.apply b).Valid := by
  cases op with
  | recv bytes => exact valid.copy fits
  | copy bytes => exact valid.copy fits
  | setPos n => exact valid.setPos fits
  | setComplete => exact valid.setComplete
  | cut pos => exact valid.cut fits.1 fits.2

/-- **The content holds nothing but old content and bytes just written.** -/
theorem content_apply (valid : b.Valid) (fits : op.Fits b) :
    (op.apply b).content.Sublist (b.content ++ op.written) := by
  cases op with
  | recv bytes =>
      show (b.copy bytes).content.Sublist _
      rw [valid.content_copy]
      exact List.Sublist.refl _
  | copy bytes =>
      show (b.copy bytes).content.Sublist _
      rw [valid.content_copy]
      exact List.Sublist.refl _
  | setPos n =>
      show (b.setPos n).content.Sublist _
      rw [valid.content_setPos fits]
      exact (List.drop_sublist n _).trans (List.sublist_append_left _ _)
  | setComplete =>
      show b.setComplete.content.Sublist _
      rw [NcMbuf.content_setComplete]
      exact List.nil_sublist _
  | cut pos =>
      show (b.cut pos).content.Sublist _
      rw [NcMbuf.content_cut fits.1 fits.2]
      exact (List.take_sublist _ _).trans (List.sublist_append_left _ _)

end MbufOp

/-- A buffer with the bytes written into it since it was handed out. -/
structure TracedMbuf extends NcMbuf where
  got : List UInt8

namespace TracedMbuf

/-- What `new NcMbuf()` constructs. -/
def new (chunk : ChunkSize) (data : Nat → UInt8) : TracedMbuf := ⟨.new chunk data, []⟩

/-- `NcMbuf::reset()`; the trace starts again. -/
def reset (b : TracedMbuf) : TracedMbuf := ⟨b.toNcMbuf.reset, []⟩

def Use (a b : TracedMbuf) : Prop :=
  ∃ op : MbufOp, op.Fits a.toNcMbuf ∧ b = ⟨op.apply a.toNcMbuf, a.got ++ op.written⟩

/-- Every byte of the content was written since the buffer was handed out. -/
def NoStale (b : TracedMbuf) : Prop := b.content.Sublist b.got

/-- **What `free` leaves**: the markers span the whole chunk. -/
structure Recycled (b : TracedMbuf) : Prop where
  valid : b.Valid
  pos : b.m_pos = b.m_start
  last : b.m_last = b.m_end
  got : b.got = []

variable {a b : TracedMbuf}

theorem Use.valid (use : Use a b) (valid : a.Valid) : b.Valid := by
  obtain ⟨op, fits, rfl⟩ := use
  exact MbufOp.valid_apply valid fits

theorem Use.noStale (use : Use a b) (valid : a.Valid) (holds : a.NoStale) : b.NoStale := by
  obtain ⟨op, fits, rfl⟩ := use
  exact (MbufOp.content_apply valid fits).trans (holds.append (List.Sublist.refl _))

theorem recycled_reset (valid : b.Valid) : b.reset.Recycled := ⟨valid.reset, rfl, rfl, rfl⟩

/-- A recycled buffer has no room, and its content is all the bytes of its last use. -/
theorem Recycled.full (recycled : b.Recycled) : b.full = true := NcMbuf.full_iff.mpr recycled.last

theorem Recycled.length_content (recycled : b.Recycled) : b.content.length = b.dataSize := by
  rw [recycled.valid.length_content, recycled.valid.length_eq, recycled.pos, recycled.last,
    recycled.valid.data, Nat.add_sub_cancel_left]

theorem Recycled.stale (recycled : b.Recycled) : ¬ b.NoStale := by
  intro holds
  have none : b.content = [] := by
    rw [NoStale, recycled.got] at holds
    exact List.sublist_nil.mp holds
  have some := recycled.valid.dataSize_pos
  rw [← recycled.length_content, none] at some
  exact Nat.lt_irrefl 0 some

end TracedMbuf

/-- A buffer that nothing was written to, with room for all its data. -/
structure NcMbuf.Fresh (b : NcMbuf) : Prop where
  pos : b.m_pos = b.m_start
  last : b.m_last = b.m_start
  empty : b.empty = true
  full : b.full = false
  size : b.size = b.dataSize
  room : 0 < b.dataSize

/-- **The histories of `mbuf_pool`.** -/
def mbufSystem (chunk : ChunkSize) (data : Nat → UInt8) :
    System (NcObjectPool TracedMbuf) (PoolOp TracedMbuf) :=
  poolSystem (.new chunk data) .reset TracedMbuf.Use

/-- Every buffer is handed out for the first time. -/
def FirstUse (p : NcObjectPool TracedMbuf) (op : PoolOp TracedMbuf) : Prop :=
  op = .alloc → p.m_queue = []

namespace NcObjectPool

/-! ### `recvChain`'s buffer -/

/-- The head of `recvChain`: the last buffer of the message, or one from the pool if there is none
or it is full. Returns the pool, the message's buffers and the buffer to read into. -/
def recvBuffer (object : TracedMbuf) (mbuf_queue : List Addr) (p : NcObjectPool TracedMbuf) :
    NcObjectPool TracedMbuf × List Addr × Addr :=
  let fromPool :=
    let (p, mbuf) := p.alloc object
    (p, mbuf_queue ++ [mbuf], mbuf)
  match mbuf_queue.getLast? with
  | none => fromPool
  | some mbuf => if (p.mem mbuf).full then fromPool else (p, mbuf_queue, mbuf)

/-- The size `recvChain` passes to `recv`. -/
def recvSize (object : TracedMbuf) (mbuf_queue : List Addr) (p : NcObjectPool TracedMbuf) : Nat :=
  let (p, _, mbuf) := p.recvBuffer object mbuf_queue
  (p.mem mbuf).size

/-- `mbuf == NULL || mbuf->full()`, of the last buffer of a message. -/
def NeedsBuffer (mbuf_queue : List Addr) (p : NcObjectPool TracedMbuf) : Prop :=
  ∀ mbuf ∈ mbuf_queue.getLast?, (p.mem mbuf).full = true

variable {chunk : ChunkSize} {data : Nat → UInt8} {p : NcObjectPool TracedMbuf}

/-- Every history keeps the markers in order and the free list full of recycled buffers. -/
theorem sorted_mbufs (reached : (mbufSystem chunk data).Reach p) :
    Sorted (fun b => b.Valid) TracedMbuf.Recycled p :=
  sorted_of_reach (P := fun b => b.Valid) (NcMbuf.valid_new chunk data)
    (fun _ _ valid use => use.valid valid) (fun _ valid => TracedMbuf.recycled_reset valid)
    (fun _ recycled => recycled.valid) reached

/-- The buffer handed out: a new one, or one that was freed. -/
theorem alloc_mbuf (chunk : ChunkSize) (data : Nat → UInt8)
    (sorted : Sorted (fun b => b.Valid) TracedMbuf.Recycled p) :
    (p.m_queue = [] ∧ (p.alloc (.new chunk data)).1.mem (p.alloc (.new chunk data)).2 =
      .new chunk data) ∨
    (p.m_queue ≠ [] ∧ ((p.alloc (.new chunk data)).1.mem (p.alloc (.new chunk data)).2).Recycled) := by
  rw [mem_alloc]
  cases queue : p.m_queue with
  | nil => exact Or.inl ⟨rfl, rfl⟩
  | cons o rest =>
      refine Or.inr ⟨List.cons_ne_nil _ _, sorted.queued o ?_⟩
      rw [queue]
      exact List.mem_cons_self

theorem fresh_new (chunk : ChunkSize) (data : Nat → UInt8) : (NcMbuf.new chunk data).Fresh := by
  have room := (NcMbuf.valid_new chunk data).dataSize_pos
  refine ⟨rfl, rfl, rfl, ?_, NcMbuf.size_new chunk data, room⟩
  rw [← Bool.not_eq_true, NcMbuf.full_iff]
  exact Nat.ne_of_lt room

/-- **A buffer handed out is empty exactly if the free list was.** -/
theorem fresh_alloc_iff (sorted : Sorted (fun b => b.Valid) TracedMbuf.Recycled p) :
    ((p.alloc (.new chunk data)).1.mem (p.alloc (.new chunk data)).2).Fresh ↔ p.m_queue = [] := by
  rcases alloc_mbuf chunk data sorted with ⟨queue, isNew⟩ | ⟨queue, recycled⟩
  · rw [isNew]
    exact iff_of_true (fresh_new chunk data) queue
  · refine iff_of_false (fun fresh => ?_) queue
    have full := fresh.full
    rw [recycled.full] at full
    cases full

theorem noStale_alloc_iff (sorted : Sorted (fun b => b.Valid) TracedMbuf.Recycled p) :
    ((p.alloc (.new chunk data)).1.mem (p.alloc (.new chunk data)).2).NoStale ↔ p.m_queue = [] := by
  rcases alloc_mbuf chunk data sorted with ⟨queue, isNew⟩ | ⟨queue, recycled⟩
  · rw [isNew]
    exact iff_of_true (List.nil_sublist _) queue
  · exact iff_of_false recycled.stale queue

/-- **`recvChain` reads zero bytes exactly if it takes a recycled buffer.** -/
theorem recvSize_eq_zero_iff (sorted : Sorted (fun b => b.Valid) TracedMbuf.Recycled p)
    {mbuf_queue : List Addr} (inUse : ∀ mbuf ∈ mbuf_queue, p.InUse mbuf) :
    p.recvSize (.new chunk data) mbuf_queue = 0 ↔ p.NeedsBuffer mbuf_queue ∧ p.m_queue ≠ [] := by
  have fromPool : ((p.alloc (.new chunk data)).1.mem (p.alloc (.new chunk data)).2).size = 0 ↔
      p.m_queue ≠ [] := by
    rcases alloc_mbuf chunk data sorted with ⟨queue, isNew⟩ | ⟨queue, recycled⟩
    · have room := (NcMbuf.valid_new chunk data).dataSize_pos
      rw [isNew]
      show (NcMbuf.new chunk data).size = 0 ↔ _
      rw [NcMbuf.size_new]
      exact iff_of_false (Nat.ne_of_gt room) (fun ne => ne queue)
    · exact iff_of_true (recycled.valid.size_eq_zero.mpr recycled.full) queue
  unfold recvSize recvBuffer NeedsBuffer
  cases back : mbuf_queue.getLast? with
  | none =>
      rw [show _ = 0 ↔ _ from fromPool]
      exact ⟨fun queue => ⟨nofun, queue⟩, And.right⟩
  | some mbuf =>
      have valid := sorted.inUse mbuf (inUse mbuf (List.mem_of_getLast? back))
      by_cases full : (p.mem mbuf).full = true
      · simp only [if_pos full]
        rw [fromPool]
        refine ⟨fun queue => ⟨fun other same => ?_, queue⟩, And.right⟩
        cases same
        exact full
      · simp only [if_neg full]
        rw [valid.size_eq_zero]
        exact iff_of_false full fun needs => full (needs.1 mbuf rfl)

/-! ### Histories -/

/-- **`mbuf_pool` in every history**: when a buffer handed out is empty, when `recvChain` reads
nothing, and when the buffer handed out holds bytes of an earlier message. In a history that uses
every buffer once no content ever holds a stale byte. -/
theorem buffers_of_runs (chunk : ChunkSize) (data : Nat → UInt8) (p : NcObjectPool TracedMbuf)
    (reached : (mbufSystem chunk data).Reach p) :
    (((p.alloc (.new chunk data)).1.mem (p.alloc (.new chunk data)).2).Fresh ↔ p.m_queue = []) ∧
    (((p.alloc (.new chunk data)).1.mem (p.alloc (.new chunk data)).2).NoStale ↔ p.m_queue = []) ∧
    (∀ mbuf_queue : List Addr, (∀ mbuf ∈ mbuf_queue, p.InUse mbuf) →
      (p.recvSize (.new chunk data) mbuf_queue = 0 ↔
        p.NeedsBuffer mbuf_queue ∧ p.m_queue ≠ [])) ∧
    (((mbufSystem chunk data).guarded FirstUse).Reach p →
      ∀ o, p.InUse o → (p.mem o).NoStale) := by
  have sorted := sorted_mbufs reached
  refine ⟨fresh_alloc_iff sorted, noStale_alloc_iff sorted,
    fun queue inUse => recvSize_eq_zero_iff sorted inUse, fun guarded o used => ?_⟩
  have all : Sorted (fun b => b.Valid ∧ b.NoStale) (fun _ => True) p := by
    refine sorted_of_guarded (P := fun b => b.Valid ∧ b.NoStale) (Q := fun _ => True) ?_ ?_
      (fun _ _ => trivial) guarded
    · exact ⟨NcMbuf.valid_new chunk data, List.nil_sublist _⟩
    · exact fun a b holds use => ⟨use.valid holds.1, use.noStale holds.1 holds.2⟩
  exact (all.inUse o used).2

/-! ### A run on one buffer -/

/-- The default chunk, and zeros from `nc_alloc`. -/
def chunk16 : ChunkSize := ⟨16384, by decide⟩

def zeros : Nat → UInt8 := fun _ => 0

/-- The pool at the start. -/
def noBuffers : NcObjectPool TracedMbuf := default (fun _ => .new chunk16 zeros) none

/-- The first buffer, with two bytes received. -/
def filled : TracedMbuf := ⟨(MbufOp.recv [71, 69]).apply (.new chunk16 zeros), [71, 69]⟩

/-- The pool after the first buffer is taken, filled and given back. -/
def usedOnce : NcObjectPool TracedMbuf :=
  ((noBuffers.alloc (.new chunk16 zeros)).1.put 0 fun _ => filled).free .reset (some 0)

theorem usedOnce_reached : (mbufSystem chunk16 zeros).Reach usedOnce := by
  have start : (mbufSystem chunk16 zeros).Reach noBuffers := .start ⟨_, _, rfl⟩
  have take : (mbufSystem chunk16 zeros).step noBuffers .alloc
      (noBuffers.alloc (.new chunk16 zeros)).1 := rfl
  have fill : (mbufSystem chunk16 zeros).step (noBuffers.alloc (.new chunk16 zeros)).1
      (.use 0 filled) ((noBuffers.alloc (.new chunk16 zeros)).1.put 0 fun _ => filled) :=
    ⟨by decide, ⟨.recv [71, 69], by unfold MbufOp.Fits; decide +kernel, rfl⟩, rfl⟩
  have back : (mbufSystem chunk16 zeros).step
      ((noBuffers.alloc (.new chunk16 zeros)).1.put 0 fun _ => filled) (.free 0) usedOnce :=
    ⟨by decide, rfl⟩
  exact ((start.next take).next fill).next back

/-- The second allocation hands out the buffer of the first. -/
theorem buffers_of_usedOnce :
    ¬ ((usedOnce.alloc (.new chunk16 zeros)).1.mem (usedOnce.alloc (.new chunk16 zeros)).2).Fresh ∧
      usedOnce.recvSize (.new chunk16 zeros) [] = 0 := by
  obtain ⟨fresh, -, reads, -⟩ := buffers_of_runs chunk16 zeros usedOnce usedOnce_reached
  have queued : usedOnce.m_queue ≠ [] := by decide
  exact ⟨fun isFresh => queued (fresh.mp isFresh), (reads [] nofun).mpr ⟨nofun, queued⟩⟩

/-- **A history that hands out a full buffer**: the bytes of its first use are its content, and
`recv` is called with size zero. -/
theorem recycled_buffer_full : ∃ p, (mbufSystem chunk16 zeros).Reach p ∧
    ((p.alloc (.new chunk16 zeros)).1.mem (p.alloc (.new chunk16 zeros)).2).full = true ∧
    [71, 69] <+: ((p.alloc (.new chunk16 zeros)).1.mem (p.alloc (.new chunk16 zeros)).2).content ∧
    p.recvSize (.new chunk16 zeros) [] = 0 := by
  refine ⟨usedOnce, usedOnce_reached, by decide +kernel, ?_, by decide +kernel⟩
  have whole := NcMbuf.bytes_append (b := (usedOnce.mem 0).toNcMbuf) (x := 0) (y := 2) (z := 16328)
    (by decide) (by decide)
  exact ⟨_, whole⟩

end NcObjectPool

end Nutcracker
