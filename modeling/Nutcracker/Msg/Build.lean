/-
**Building a message from bytes and formats.**

`append`, `preAppend` and `prependFormat` put bytes into a buffer of `mbuf_pool` and the buffer into
the queue of the message. The first two push it at the back. `ensureMbuf` takes a new buffer when the
one at the front has room, and pushes the one at the front again when it has none; a buffer from the
free list of the pool is full. `prependFormat` never returns: inside `NcMbuf` the macro `nc_vsnprintf`
calls the member `vsnprintf`, not the libc function, and so the member calls itself.

* `NcMbuf.vsnprintf_none` — the format, with any depth of calls.
* `Building` — a message with the pool of its context, and the three calls on it.
* `pool_sorted` — what every history of the pool gives.
* `Sound` — the buffers in use are in order, those of the free list are full, and the message holds
  buffers in use.
* `shows_attach_iff` — what a buffer from the pool must be like for the bytes to come out right.
* `BuildCall.shows_iff` — a single call.
* `build_iff` — **every sequence of calls**: the message is right after each of them, if and only if
  each of them meets its condition (`BuildCall.Meets`).
-/

import Nutcracker.Conn.SendChain
import Nutcracker.Mbuf.Recycle

namespace Nutcracker

namespace NcMbuf

/-- `vsnprintf(fmt, ...)`, with at most `fuel` calls under way. The unqualified `vsnprintf` of the macro
`nc_vsnprintf` is this member again, and its format is the memory behind `m_last_`. -/
def vsnprintf : Nat → (fmt : Nat → UInt8) → NcMbuf → Option (NcMbuf × Int)
  | 0, _, _ => none
  | fuel + 1, _, b => do
      let (b, n) ← vsnprintf fuel (fun i => b.m_data (b.m_last + i)) b
      return (if n > 0 then b.setLast n.toNat else b, n)

/-- `vsnprintf(fmt, args)`. Its `nc_vsnprintf` has four arguments too, so it calls the member above. -/
def vsnprintfArgs (fuel : Nat) (_fmt : Nat → UInt8) (b : NcMbuf) : Option (NcMbuf × Int) := do
  let (b, n) ← vsnprintf fuel (fun i => b.m_data (b.m_last + i)) b
  return (if n > 0 then b.setLast n.toNat else b, n)

/-- **A buffer of the free list**: the markers span the whole chunk. -/
structure Spent (b : NcMbuf) : Prop where
  valid : b.Valid
  pos : b.m_pos = b.m_start
  last : b.m_last = b.m_end

variable {b : NcMbuf}

theorem spent_reset (valid : b.Valid) : b.reset.Spent := ⟨valid.reset, rfl, rfl⟩

theorem Spent.content_ne_nil (spent : b.Spent) : b.content ≠ [] := by
  intro none
  have bytes := spent.valid.dataSize_pos
  rw [spent.valid.content_eq_nil, empty_iff, spent.pos, spent.last, spent.valid.data] at none
  omega

/-- **A format never returns**, however deep the calls may go. -/
theorem vsnprintf_none (fuel : Nat) (fmt : Nat → UInt8) (b : NcMbuf) : b.vsnprintf fuel fmt = none := by
  induction fuel generalizing fmt with
  | zero => rfl
  | succ fuel ih =>
      unfold vsnprintf
      rw [ih]
      rfl

theorem vsnprintfArgs_none (fuel : Nat) (fmt : Nat → UInt8) (b : NcMbuf) :
    b.vsnprintfArgs fuel fmt = none := by
  unfold vsnprintfArgs
  rw [vsnprintf_none]
  rfl

/-- What is done to a buffer in use. -/
def Use (a b : NcMbuf) : Prop := ∃ op : MbufOp, op.Fits a ∧ b = op.apply a

end NcMbuf

/-- **The pool in every history**: the buffers in use are in order, and those of the free list are
full. -/
theorem pool_sorted {chunk : ChunkSize} {data : Nat → UInt8} {p : NcObjectPool NcMbuf}
    (reached : (poolSystem (NcMbuf.new chunk data) NcMbuf.reset NcMbuf.Use).Reach p) :
    p.Sorted NcMbuf.Valid NcMbuf.Spent := by
  refine NcObjectPool.sorted_of_reach (NcMbuf.valid_new chunk data) (fun a b valid use => ?_)
    (fun a => NcMbuf.spent_reset) (fun a spent => spent.valid) reached
  obtain ⟨op, fits, rfl⟩ := use
  exact MbufOp.valid_apply valid fits

/-- A message that is built: the `mbuf_pool` of its context, and its own fields. -/
structure Building where
  mbuf_pool : NcObjectPool NcMbuf
  m_mbuf_queue : List Addr
  m_mlen : UInt32

namespace Building

/-- `m_mbuf_queue_.push(buf)`. -/
def push (buf : Addr) (s : Building) : Building :=
  { s with m_mbuf_queue := s.m_mbuf_queue ++ [buf] }

/-- A write to a buffer. -/
def write (buf : Addr) (f : NcMbuf → NcMbuf) (s : Building) : Building :=
  { s with mbuf_pool := s.mbuf_pool.put buf f }

/-- `m_mlen_ += (uint32_t)n`. -/
def count (n : Nat) (s : Building) : Building := { s with m_mlen := s.m_mlen + UInt32.ofNat n }

variable (chunk : ChunkSize) (heap : Addr → Nat → UInt8)

/-- `(ctx->mbuf_pool).alloc<NcMbuf>()`, with what `nc_alloc` leaves in a new chunk. -/
def alloc (s : Building) : Building × Addr :=
  let (mbuf_pool, buf) := s.mbuf_pool.alloc (NcMbuf.new chunk (heap s.mbuf_pool.made))
  ({ s with mbuf_pool := mbuf_pool }, buf)

/-- `ensureMbuf`. The front of an empty queue is `NULL`. -/
def ensureMbuf (len : Nat) (s : Building) : Building × Addr :=
  let (s, buf) :=
    match s.m_mbuf_queue with
    | [] => s.alloc chunk heap
    | buf :: _ => if (s.mbuf_pool.mem buf).size ≥ len then s.alloc chunk heap else (s, buf)
  (s.push buf, buf)

def append (bytes : List UInt8) (s : Building) : Building × Int :=
  let (s, buf) := s.ensureMbuf chunk heap bytes.length
  ((s.write buf (NcMbuf.copy bytes)).count bytes.length, NC_OK)

def preAppend (bytes : List UInt8) (s : Building) : Building × Int :=
  let (s, buf) := s.alloc chunk heap
  let s := s.write buf (NcMbuf.copy bytes)
  ((s.push buf).count bytes.length, NC_OK)

/-- `prependFormat`, with at most `fuel` calls under way; the result of `vsnprintf` is a `uint32_t`. -/
def prependFormat (fuel : Nat) (fmt : Nat → UInt8) (s : Building) : Option (Building × Int) := do
  let (s, buf) := s.alloc chunk heap
  let (b, n) ← (s.mbuf_pool.mem buf).vsnprintfArgs fuel fmt
  let s := s.write buf fun _ => b
  let n := (n % 2 ^ 32).toNat
  if n = 0 then return (s, NC_ERROR)
  else return ((s.push buf).count n, NC_OK)

/-! ### What a message holds -/

/-- The bytes of the queue. -/
def content (s : Building) : List UInt8 :=
  s.m_mbuf_queue.flatMap fun buf => (s.mbuf_pool.mem buf).content

/-- The lengths of the buffers. -/
def lengths (s : Building) : Nat :=
  (s.m_mbuf_queue.map fun buf => (s.mbuf_pool.mem buf).length).sum

/-- **The message holds `x`.** -/
structure Shows (x : List UInt8) (s : Building) : Prop where
  content : s.content = x
  counted : s.m_mlen.toNat = x.length
  summed : s.lengths = s.m_mlen.toNat
  distinct : s.m_mbuf_queue.Nodup

/-- The pool as in every history, and buffers in use in the queue. -/
structure Sound (s : Building) : Prop where
  pool : s.mbuf_pool.Sorted NcMbuf.Valid NcMbuf.Spent
  queue : ∀ buf ∈ s.m_mbuf_queue, s.mbuf_pool.InUse buf

variable {s : Building} {x : List UInt8}

theorem Sound.lengths_eq (sound : s.Sound) : s.lengths = s.content.length := by
  rw [lengths, content, List.length_flatMap]
  refine congrArg List.sum (List.map_congr_left fun buf member => ?_)
  exact (sound.pool.inUse buf (sound.queue buf member)).length_content.symm

theorem toNat_count {a : Nat} (counted : s.m_mlen.toNat = a) (n : Nat) :
    (s.count n).m_mlen.toNat = a + n ↔ a + n < 2 ^ 32 := by
  have below := (s.count n).m_mlen.toNat_lt
  have sum : (s.count n).m_mlen.toNat = (a + n) % 2 ^ 32 := by
    show (s.m_mlen + UInt32.ofNat n).toNat = _
    rw [UInt32.toNat_add, UInt32.toNat_ofNat', counted, Nat.add_mod_mod]
  constructor
  · intro same
    rwa [same] at below
  · intro fits
    rw [sum, Nat.mod_eq_of_lt fits]

/-! ### A buffer from the pool -/

/-- A buffer from the pool is filled. -/
def filled (bytes : List UInt8) (s : Building) : Building :=
  (s.alloc chunk heap).1.write (s.alloc chunk heap).2 (NcMbuf.copy bytes)

/-- **What the calls have in common**: the buffer is queued and its bytes are counted. -/
def attach (bytes : List UInt8) (s : Building) : Building :=
  ((s.filled chunk heap bytes).push (s.alloc chunk heap).2).count bytes.length

/-- The buffer that the pool hands out. -/
def taken (s : Building) : NcMbuf := (s.alloc chunk heap).1.mbuf_pool.mem (s.alloc chunk heap).2

theorem taken_empty (empty : s.mbuf_pool.m_queue = []) :
    s.taken chunk heap = NcMbuf.new chunk (heap s.mbuf_pool.made) := by
  refine (NcObjectPool.mem_alloc (NcMbuf.new chunk (heap s.mbuf_pool.made)) s.mbuf_pool).trans ?_
  rw [empty]

theorem Sound.taken_spent (sound : s.Sound) (some : s.mbuf_pool.m_queue ≠ []) :
    (s.taken chunk heap).Spent := by
  have handed := NcObjectPool.mem_alloc (NcMbuf.new chunk (heap s.mbuf_pool.made)) s.mbuf_pool
  cases queue : s.mbuf_pool.m_queue with
  | nil => exact absurd queue some
  | cons buf rest =>
      rw [queue] at handed
      have same : s.taken chunk heap = s.mbuf_pool.mem buf := handed
      rw [same]
      exact sound.pool.queued buf (queue ▸ List.mem_cons_self)

theorem Sound.taken_valid (sound : s.Sound) : (s.taken chunk heap).Valid := by
  by_cases empty : s.mbuf_pool.m_queue = []
  · rw [taken_empty chunk heap empty]
    exact NcMbuf.valid_new chunk _
  · exact (sound.taken_spent chunk heap empty).valid

theorem mem_filled_taken (bytes : List UInt8) :
    (s.filled chunk heap bytes).mbuf_pool.mem (s.alloc chunk heap).2 =
      (s.taken chunk heap).copy bytes :=
  NcObjectPool.mem_put_self _ _ (NcMbuf.copy bytes)

/-- The buffers of messages are as before. -/
theorem mem_filled (bytes : List UInt8) {buf : Addr} (used : s.mbuf_pool.InUse buf) :
    (s.filled chunk heap bytes).mbuf_pool.mem buf = s.mbuf_pool.mem buf := by
  obtain ⟨-, other⟩ := used.alloc (NcMbuf.new chunk (heap s.mbuf_pool.made))
  exact (NcObjectPool.mem_put_of_ne _ (NcMbuf.copy bytes) other).trans
    (NcObjectPool.mem_alloc_of_ne _ _ other)

/-- **The buffer comes last.** -/
theorem Sound.content_attach (sound : s.Sound) (bytes : List UInt8) :
    (s.attach chunk heap bytes).content =
      s.content ++ ((s.taken chunk heap).content ++ bytes) := by
  have before : (s.m_mbuf_queue.flatMap fun buf => ((s.filled chunk heap bytes).mbuf_pool.mem
      buf).content) = s.content := by
    refine List.flatMap_congr fun buf member => ?_
    rw [mem_filled chunk heap bytes (sound.queue buf member)]
  show ((s.m_mbuf_queue ++ [(s.alloc chunk heap).2]).flatMap fun buf =>
    ((s.filled chunk heap bytes).mbuf_pool.mem buf).content) = _
  rw [List.flatMap_append, before, List.flatMap_singleton, mem_filled_taken,
    (sound.taken_valid chunk heap).content_copy]

theorem Sound.nodup_attach (sound : s.Sound) (bytes : List UInt8)
    (distinct : s.m_mbuf_queue.Nodup) : (s.attach chunk heap bytes).m_mbuf_queue.Nodup := by
  show (s.m_mbuf_queue ++ [(s.alloc chunk heap).2]).Nodup
  rw [List.nodup_append]
  refine ⟨distinct, List.nodup_singleton _, fun buf member other single => ?_⟩
  rw [List.mem_singleton.mp single]
  exact ((sound.queue buf member).alloc (NcMbuf.new chunk (heap s.mbuf_pool.made))).2

theorem Sound.alloc (sound : s.Sound) : (s.alloc chunk heap).1.Sound where
  pool := sound.pool.alloc (NcMbuf.valid_new chunk _) fun buf first =>
    (sound.pool.queued buf (List.mem_of_mem_head? first)).valid
  queue buf member := ((sound.queue buf member).alloc _).1

theorem Sound.attach (sound : s.Sound) {bytes : List UInt8}
    (valid : ((s.taken chunk heap).copy bytes).Valid) : (s.attach chunk heap bytes).Sound where
  pool := (sound.alloc chunk heap).pool.put (sound.pool.inUse_alloc _) valid
  queue buf member := by
    rcases List.mem_append.mp member with old | single
    · exact (sound.alloc chunk heap).queue buf old
    · rw [List.mem_singleton.mp single]
      exact sound.pool.inUse_alloc _

/-- **When a buffer from the pool makes the content `want`**: it is a new one, and the bytes written
to it belong behind the bytes that are there. -/
theorem shows_attach_iff {bytes want : List UInt8} (sound : s.Sound) (shows : s.Shows x)
    (size : want.length = x.length + bytes.length) (fits : bytes.length ≤ chunk - MBUF_HSIZE) :
    (s.attach chunk heap bytes).Shows want ↔
      s.mbuf_pool.m_queue = [] ∧ x ++ bytes = want ∧ x.length + bytes.length < 2 ^ 32 := by
  have content := sound.content_attach chunk heap bytes
  rw [shows.content] at content
  constructor
  · intro holds
    have whole : want = x ++ ((s.taken chunk heap).content ++ bytes) :=
      holds.content.symm.trans content
    have none : (s.taken chunk heap).content = [] := by
      have both := congrArg List.length whole
      rw [List.length_append, List.length_append, size] at both
      exact List.length_eq_zero_iff.mp (by omega)
    have empty : s.mbuf_pool.m_queue = [] := by
      by_contra some
      exact (sound.taken_spent chunk heap some).content_ne_nil none
    rw [none, List.nil_append] at whole
    refine ⟨empty, whole.symm, ?_⟩
    exact (toNat_count shows.counted bytes.length).mp (holds.counted.trans size)
  · rintro ⟨empty, same, below⟩
    have isNew := taken_empty chunk heap empty
    have valid : ((s.taken chunk heap).copy bytes).Valid := by
      rw [isNew]
      exact (NcMbuf.valid_new chunk _).copy (by rw [NcMbuf.size_new]; exact fits)
    rw [isNew, NcMbuf.content_new, List.nil_append, same] at content
    have counted : (s.attach chunk heap bytes).m_mlen.toNat = want.length :=
      ((toNat_count shows.counted bytes.length).mpr below).trans size.symm
    refine ⟨content, counted, ?_, sound.nodup_attach chunk heap bytes shows.distinct⟩
    rw [(sound.attach chunk heap valid).lengths_eq, content, counted]

/-! ### The three calls -/

/-- The buffer at the front, if there is one, has room for `n` bytes. -/
def FrontHasRoom (n : Nat) (s : Building) : Prop :=
  ∀ buf ∈ s.m_mbuf_queue.head?, n ≤ (s.mbuf_pool.mem buf).size

theorem append_room {bytes : List UInt8} (room : s.FrontHasRoom bytes.length) :
    (s.append chunk heap bytes).1 = s.attach chunk heap bytes := by
  obtain ⟨mbuf_pool, queue, m_mlen⟩ := s
  cases queue with
  | nil => rfl
  | cons buf rest =>
      have enough : (mbuf_pool.mem buf).size ≥ bytes.length := room buf rfl
      simp only [append, ensureMbuf, if_pos enough]
      rfl

/-- Without room, the buffer at the front is pushed once more. -/
theorem append_full {bytes : List UInt8} {buf : Addr} {rest : List Addr}
    (queue : s.m_mbuf_queue = buf :: rest) (full : ¬ bytes.length ≤ (s.mbuf_pool.mem buf).size) :
    (s.append chunk heap bytes).1.m_mbuf_queue = buf :: rest ++ [buf] := by
  obtain ⟨mbuf_pool, m_mbuf_queue, m_mlen⟩ := s
  subst queue
  have short : ¬ (mbuf_pool.mem buf).size ≥ bytes.length := full
  simp only [append, ensureMbuf, if_neg short]
  rfl

theorem prependFormat_none (fuel : Nat) (fmt : Nat → UInt8) :
    s.prependFormat chunk heap fuel fmt = none := by
  unfold prependFormat
  dsimp only
  rw [NcMbuf.vsnprintfArgs_none]
  rfl

end Building

/-- A call that puts bytes into a message. The format of `prependFormat` expands to `text`. -/
inductive BuildCall
  | append (bytes : List UInt8)
  | preAppend (bytes : List UInt8)
  | prependFormat (fmt : Nat → UInt8) (text : List UInt8)

namespace BuildCall

open Building

/-- The bytes that are to be put in. -/
def bytes : BuildCall → List UInt8
  | append bytes => bytes
  | preAppend bytes => bytes
  | prependFormat _ text => text

/-- What a message that holds `x` is to hold after the call. -/
def want (x : List UInt8) : BuildCall → List UInt8
  | append bytes => x ++ bytes
  | preAppend bytes => bytes ++ x
  | prependFormat _ text => text ++ x

variable (chunk : ChunkSize) (heap : Addr → Nat → UInt8)

/-- The call, where it returns. An `append` returns `NC_OK`, as the pool always has a buffer. -/
def run (fuel : Nat) (s : Building) : BuildCall → Option (Building × Int)
  | append bytes => some (s.append chunk heap bytes)
  | preAppend bytes => some (s.preAppend chunk heap bytes)
  | prependFormat fmt _ => s.prependFormat chunk heap fuel fmt

/-- **What a call needs**: no buffer in the free list, a counter that does not wrap, for `append` a
front with room, and for `preAppend` bytes that may as well stand at the end. No `prependFormat`
has what it needs. -/
def Meets (s : Building) : BuildCall → Prop
  | append bytes =>
      s.mbuf_pool.m_queue = [] ∧ s.FrontHasRoom bytes.length ∧
        s.content.length + bytes.length < 2 ^ 32
  | preAppend bytes =>
      s.mbuf_pool.m_queue = [] ∧ s.content ++ bytes = bytes ++ s.content ∧
        s.content.length + bytes.length < 2 ^ 32
  | prependFormat _ _ => False

variable {s s' : Building} {x : List UInt8} {call : BuildCall} {fuel : Nat} {status : Int}

/-- **No `prependFormat` returns.** -/
theorem run_prependFormat (fmt : Nat → UInt8) (text : List UInt8) :
    (prependFormat fmt text).run chunk heap fuel s = none :=
  prependFormat_none chunk heap fuel fmt

theorem length_want (x : List UInt8) (call : BuildCall) :
    (call.want x).length = x.length + call.bytes.length := by
  cases call with
  | append bytes => exact List.length_append
  | preAppend bytes => exact List.length_append.trans (Nat.add_comm _ _)
  | prependFormat fmt text => exact List.length_append.trans (Nat.add_comm _ _)

/-- **A single call that returns**, on a message that holds `x`. -/
theorem shows_iff (sound : s.Sound) (shows : s.Shows x)
    (fits : call.bytes.length ≤ chunk - MBUF_HSIZE)
    (returns : call.run chunk heap fuel s = some (s', status)) :
    s'.Shows (call.want x) ↔ call.Meets s := by
  have size := length_want x call
  cases call with
  | append bytes =>
      have after : (s.append chunk heap bytes).1 = s' := congrArg Prod.fst (Option.some.inj returns)
      unfold Meets
      rw [shows.content, ← after]
      by_cases room : s.FrontHasRoom bytes.length
      · rw [append_room chunk heap room]
        refine (shows_attach_iff chunk heap sound shows size fits).trans ?_
        exact and_congr_right fun _ => and_congr_left fun _ => iff_of_true rfl room
      · refine iff_of_false (fun holds => ?_) fun meets => room meets.2.1
        simp only [FrontHasRoom, not_forall] at room
        obtain ⟨buf, front, full⟩ := room
        obtain ⟨rest, queue⟩ := List.head?_eq_some_iff.mp front
        have distinct := holds.distinct
        rw [append_full chunk heap queue full] at distinct
        simp at distinct
  | preAppend bytes =>
      have after : s.attach chunk heap bytes = s' := congrArg Prod.fst (Option.some.inj returns)
      unfold Meets
      rw [shows.content, ← after]
      exact shows_attach_iff chunk heap sound shows size fits
  | prependFormat fmt text =>
      rw [run_prependFormat] at returns
      cases returns

/-- A call that meets its condition returns, with the same state whatever the depth of the calls, and
keeps the pool and the queue in order. -/
theorem run_of_meets (sound : s.Sound) (fits : call.bytes.length ≤ chunk - MBUF_HSIZE)
    (meets : call.Meets s) :
    ∃ s', s'.Sound ∧ ∀ fuel, call.run chunk heap fuel s = some (s', NC_OK) := by
  have written : ∀ {bytes : List UInt8}, bytes.length ≤ chunk - MBUF_HSIZE →
      s.mbuf_pool.m_queue = [] → (s.attach chunk heap bytes).Sound := by
    intro bytes fits empty
    refine sound.attach chunk heap ?_
    rw [taken_empty chunk heap empty]
    exact (NcMbuf.valid_new chunk _).copy (by rw [NcMbuf.size_new]; exact fits)
  cases call with
  | append bytes =>
      obtain ⟨empty, room, -⟩ := meets
      exact ⟨_, written fits empty, fun _ => congrArg some
        (Prod.ext (append_room chunk heap room) rfl)⟩
  | preAppend bytes => exact ⟨_, written fits meets.1, fun _ => rfl⟩
  | prependFormat fmt text => exact meets.elim

end BuildCall

/-! ### Sequences of calls -/

namespace Building

open BuildCall

variable (chunk : ChunkSize) (heap : Addr → Nat → UInt8)

/-- The calls one after the other, where each of them returns. -/
def runAll (fuel : Nat) : List BuildCall → Building → Option Building
  | [], s => some s
  | call :: calls, s => do
      let (s, _) ← call.run chunk heap fuel s
      runAll fuel calls s

/-- What a message that holds `x` is to hold after the calls. -/
def wanted (calls : List BuildCall) (x : List UInt8) : List UInt8 := calls.foldl BuildCall.want x

/-- **A message that holds `x` is right after each of the calls**: they return, and it holds what it is
to hold then. -/
def Right (calls : List BuildCall) (s : Building) (x : List UInt8) : Prop :=
  ∀ before, before <+: calls →
    ∃ fuel s', runAll chunk heap fuel before s = some s' ∧ s'.Shows (wanted before x)

/-- Each call meets its condition in the state before it. -/
def Careful : List BuildCall → Building → Prop
  | [], _ => True
  | call :: calls, s =>
      call.Meets s ∧ ∀ fuel s' status, call.run chunk heap fuel s = some (s', status) →
        Careful calls s'

variable {chunk : ChunkSize} {heap : Addr → Nat → UInt8} {s s' : Building} {call : BuildCall}

theorem runAll_cons {fuel : Nat} {status : Int}
    (returns : call.run chunk heap fuel s = some (s', status)) (calls : List BuildCall) :
    runAll chunk heap fuel (call :: calls) s = runAll chunk heap fuel calls s' := by
  show (call.run chunk heap fuel s >>= _) = _
  rw [returns]
  rfl

/-- **Building messages**: each of the calls returns and the message holds what it is to hold after it,
if and only if each of them meets its condition. -/
theorem build_iff {s : Building} {x : List UInt8} (sound : s.Sound) (shows : s.Shows x)
    (calls : List BuildCall) (fits : ∀ call ∈ calls, call.bytes.length ≤ chunk - MBUF_HSIZE) :
    Right chunk heap calls s x ↔ Careful chunk heap calls s := by
  induction calls generalizing s x with
  | nil =>
      refine iff_of_true (fun before none => ?_) trivial
      rw [List.prefix_nil.mp none]
      exact ⟨0, s, rfl, shows⟩
  | cons call calls ih =>
      obtain ⟨fitsFirst, fitsRest⟩ := List.forall_mem_cons.mp fits
      constructor
      · intro holds
        -- the first call returns, and the message is right after it
        obtain ⟨fuel, first, runs, right⟩ :=
          holds [call] ((List.cons_prefix_cons).mpr ⟨rfl, List.nil_prefix⟩)
        obtain ⟨⟨after, status⟩, returns, same⟩ := Option.bind_eq_some_iff.mp runs
        obtain rfl : after = first := Option.some.inj same
        have meets := (shows_iff chunk heap sound shows fitsFirst returns).mp right
        obtain ⟨next, nextSound, always⟩ := run_of_meets chunk heap sound fitsFirst meets
        obtain ⟨rfl, -⟩ := Prod.mk.inj (Option.some.inj ((always fuel).symm.trans returns))
        refine ⟨meets, fun fuel' s' status' returns' => ?_⟩
        obtain ⟨rfl, -⟩ := Prod.mk.inj (Option.some.inj ((always fuel').symm.trans returns'))
        refine (ih nextSound right fitsRest).mp fun before prior => ?_
        obtain ⟨depth, s', later, shows'⟩ :=
          holds (call :: before) ((List.cons_prefix_cons).mpr ⟨rfl, prior⟩)
        rw [runAll_cons (always depth)] at later
        exact ⟨depth, s', later, shows'⟩
      · rintro ⟨meets, rest⟩ before prior
        obtain ⟨next, nextSound, always⟩ := run_of_meets chunk heap sound fitsFirst meets
        have first := (shows_iff chunk heap sound shows fitsFirst (always 0)).mpr meets
        cases before with
        | nil => exact ⟨0, s, rfl, shows⟩
        | cons made before =>
            obtain ⟨rfl, later⟩ := List.cons_prefix_cons.mp prior
            have careful := rest 0 next NC_OK (always 0)
            obtain ⟨fuel, s', runs, right⟩ := (ih nextSound first fitsRest).mpr careful before later
            exact ⟨fuel, s', (runAll_cons (always fuel) before).trans runs, right⟩

/-! ### A new message -/

/-- The smallest chunk, of which 456 bytes are data. -/
def smallest : ChunkSize := ⟨MBUF_MIN_SIZE, Nat.le_refl _, Nat.le_of_ble_eq_true rfl⟩

/-- A new message in a context whose pool has made no buffer. -/
def fresh : Building := ⟨.default (fun _ => NcMbuf.new smallest fun _ => 0) none, [], 0⟩

theorem sound_fresh : fresh.Sound := ⟨.default _ _, nofun⟩

theorem shows_fresh : fresh.Shows [] := ⟨rfl, rfl, rfl, List.nodup_nil⟩

/-- Two calls of `append` whose bytes are in order, as the first buffer has room. -/
theorem build_iff_fresh :
    Right smallest (fun _ _ => 0) [.append [65], .append [66]] fresh [] ↔
      Careful smallest (fun _ _ => 0) [.append [65], .append [66]] fresh :=
  build_iff sound_fresh shows_fresh _ (by decide)

/-- **The bytes of `preAppend` come last**, a full front is queued twice, and no `prependFormat`
returns. -/
theorem preAppend_comes_last :
    ¬ Right smallest (fun _ _ => 0) [.append [66], .preAppend [65]] fresh [] ∧
    ¬ Right smallest (fun _ _ => 0) [.append (List.replicate 456 65), .append [66]] fresh [] ∧
    ∀ fmt text, ¬ Right smallest (fun _ _ => 0) [.prependFormat fmt text] fresh [] := by
  refine ⟨fun right => ?_, fun right => ?_, fun fmt text right => ?_⟩
  · obtain ⟨fuel, s, runs, shows⟩ := right _ (List.prefix_refl _)
    have content : s.content = [66, 65] := by
      rw [← Option.some.inj runs]
      decide
    rw [shows.content] at content
    exact absurd content (by decide)
  · obtain ⟨fuel, s, runs, shows⟩ := right _ (List.prefix_refl _)
    have queue : s.m_mbuf_queue = [0, 0] := by
      rw [← Option.some.inj runs]
      decide +kernel
    have distinct := shows.distinct
    rw [queue] at distinct
    exact absurd distinct (by decide)
  · obtain ⟨fuel, s, runs, -⟩ := right _ (List.prefix_refl _)
    obtain ⟨after, returns, -⟩ := Option.bind_eq_some_iff.mp runs
    rw [run_prependFormat] at returns
    cases returns

end Building

end Nutcracker
