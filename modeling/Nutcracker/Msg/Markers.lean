/-
**The markers of a buffer.**

`NcMbuf` moves its markers without a check. `MarkerOp` is what is done to a buffer, `Allowed` what the
callers see to (a read delivers at most `size()` bytes, a partial send is shorter than `length()`, a
split lies between the markers), and `Fits` what they do not: that a copy has room. A format does not
return, so there is no buffer after it.

* `ordered_iff` — one operation.
* `ordered_split` — the new buffer of a split always has room.
* `markers_iff` — **a sequence of operations**: the markers are in order after each of them, if and
  only if each copy fits.
* `sound_run_iff` — which calls of `append`, `preAppend` and `prependFormat` see to that.
-/

import Nutcracker.Msg.Build

namespace Nutcracker

namespace NcMbuf

/-- **`start <= pos <= last <= end`.** -/
structure Ordered (b : NcMbuf) : Prop where
  start : b.m_start ≤ b.m_pos
  pos : b.m_pos ≤ b.m_last
  last : b.m_last ≤ b.m_end

variable {b : NcMbuf}

theorem Valid.ordered (valid : b.Valid) : b.Ordered := ⟨valid.start, valid.pos, valid.last⟩

theorem Valid.of_ordered {a : NcMbuf} (valid : a.Valid) (ordered : b.Ordered)
    (ends : b.m_start = a.m_start ∧ b.m_end = a.m_end)
    (chunk : b.m_chunk_size = a.m_chunk_size) : b.Valid where
  start := ordered.start
  pos := ordered.pos
  last := ordered.last
  data := by
    rw [ends.1, ends.2, valid.data]
    unfold dataSize
    rw [chunk]
  least := chunk ▸ valid.least
  greatest := chunk ▸ valid.greatest

/-- Moving the write marker on. -/
theorem ordered_setLast_iff (valid : b.Valid) (n : Nat) :
    (b.setLast n).Ordered ↔ n ≤ b.size := by
  have last := valid.last
  rw [valid.size_eq]
  constructor
  · intro after
    have inside : b.m_last + n ≤ b.m_end := after.last
    omega
  · intro fits
    refine ⟨valid.start, Nat.le_add_right_of_le valid.pos, ?_⟩
    show b.m_last + n ≤ b.m_end
    omega

/-- The order does not depend on the bytes. -/
theorem ordered_data {data : Nat → UInt8} : Ordered { b with m_data := data } ↔ b.Ordered :=
  ⟨fun ordered => ⟨ordered.start, ordered.pos, ordered.last⟩,
    fun ordered => ⟨ordered.start, ordered.pos, ordered.last⟩⟩

end NcMbuf

/-- What is done to a buffer. -/
inductive MarkerOp
  | copy (bytes : List UInt8)
  | setLast (n : Nat)
  | setPos (n : Nat)
  | setComplete
  | vsnprintf (fmt : Nat → UInt8)
  | split (pos : Nat)
  | reset

namespace MarkerOp

/-- The buffer after the operation, where it returns. -/
def apply (fuel : Nat) (b : NcMbuf) : MarkerOp → Option NcMbuf
  | copy bytes => some (b.copy bytes)
  | setLast n => some (b.setLast n)
  | setPos n => some (b.setPos n)
  | setComplete => some b.setComplete
  | vsnprintf fmt => (b.vsnprintfArgs fuel fmt).map Prod.fst
  | split pos => some (b.cut pos)
  | reset => some b.reset

/-- The operation returns and makes `b` into `b'`. -/
def Makes (op : MarkerOp) (b b' : NcMbuf) : Prop := ∃ fuel, op.apply fuel b = some b'

/-- **What the callers see to**: `recvChain` reads at most `size()` bytes, `sendChain` moves the read
marker for a partial send only, and the parser stops between the markers. -/
def Allowed (b : NcMbuf) : MarkerOp → Prop
  | setLast n => n ≤ b.size
  | setPos n => n < b.length
  | split pos => b.m_pos ≤ pos ∧ pos ≤ b.m_last
  | _ => True

/-- **What nobody checks**: a copy has room. -/
def Fits (b : NcMbuf) : MarkerOp → Prop
  | copy bytes => bytes.length ≤ b.size
  | _ => True

/-- The markers are in order after the operation, for a split those of the new buffer too. -/
def Keeps (chunk : ChunkSize) (b : NcMbuf) (op : MarkerOp) : Prop :=
  (∀ b', op.Makes b b' → b'.Ordered) ∧
    ∀ pos, op = split pos → ∀ data, (b.split chunk data pos).2.Ordered

/-- The callers do what they see to, as long as the markers are in order. -/
def Legal : List MarkerOp → NcMbuf → Prop
  | [], _ => True
  | op :: ops, b => op.Allowed b ∧ ∀ b', op.Makes b b' → b'.Ordered → Legal ops b'

/-- The markers are in order after each operation. -/
def AllKeep (chunk : ChunkSize) : List MarkerOp → NcMbuf → Prop
  | [], _ => True
  | op :: ops, b => op.Keeps chunk b ∧ ∀ b', op.Makes b b' → AllKeep chunk ops b'

/-- Each copy has room in the buffer as it is then. -/
def AllFit : List MarkerOp → NcMbuf → Prop
  | [], _ => True
  | op :: ops, b => op.Fits b ∧ ∀ b', op.Makes b b' → AllFit ops b'

variable {b b' : NcMbuf} {op : MarkerOp}

/-- **There is no buffer after a format.** -/
theorem not_makes_vsnprintf (fmt : Nat → UInt8) : ¬ (vsnprintf fmt).Makes b b' := by
  rintro ⟨fuel, returns⟩
  have never : (vsnprintf fmt).apply fuel b = none := by
    show (b.vsnprintfArgs fuel fmt).map Prod.fst = none
    rw [NcMbuf.vsnprintfArgs_none]
    rfl
  rw [never] at returns
  cases returns

/-- Every other operation returns, always with the same buffer. -/
theorem makes_cases (op : MarkerOp) (b : NcMbuf) :
    (∃ fmt, op = vsnprintf fmt) ∨ ∃ b', ∀ fuel, op.apply fuel b = some b' := by
  cases op with
  | vsnprintf fmt => exact Or.inl ⟨fmt, rfl⟩
  | _ => exact Or.inr ⟨_, fun _ => rfl⟩

/-- The ends of the buffer stay where they are. -/
theorem Makes.ends (makes : op.Makes b b') :
    (b'.m_start = b.m_start ∧ b'.m_end = b.m_end) ∧ b'.m_chunk_size = b.m_chunk_size := by
  cases op with
  | vsnprintf fmt => exact absurd makes (not_makes_vsnprintf fmt)
  | _ =>
      obtain ⟨fuel, returns⟩ := makes
      rw [← Option.some.inj returns]
      exact ⟨⟨rfl, rfl⟩, rfl⟩

/-- **One operation.** -/
theorem Makes.ordered_iff (makes : op.Makes b b') (valid : b.Valid) (allowed : op.Allowed b) :
    b'.Ordered ↔ op.Fits b := by
  obtain ⟨fuel, returns⟩ := makes
  cases op with
  | copy bytes =>
      rw [← Option.some.inj returns]
      exact NcMbuf.ordered_data.trans (NcMbuf.ordered_setLast_iff valid bytes.length)
  | setLast n =>
      rw [← Option.some.inj returns]
      exact iff_of_true ((NcMbuf.ordered_setLast_iff valid n).mpr allowed) trivial
  | setPos n =>
      rw [← Option.some.inj returns]
      exact iff_of_true (valid.setPos (Nat.le_of_lt allowed)).ordered trivial
  | setComplete =>
      rw [← Option.some.inj returns]
      exact iff_of_true valid.setComplete.ordered trivial
  | vsnprintf fmt => exact absurd ⟨fuel, returns⟩ (not_makes_vsnprintf fmt)
  | split pos =>
      rw [← Option.some.inj returns]
      exact iff_of_true (valid.cut allowed.1 allowed.2).ordered trivial
  | reset =>
      rw [← Option.some.inj returns]
      exact iff_of_true valid.reset.ordered trivial

/-- **The new buffer of a split has room** for what is moved to it: it is as large as the old one. -/
theorem ordered_split {chunk : ChunkSize} (valid : b.Valid) (same : b.m_chunk_size = chunk) {pos : Nat}
    (low : b.m_pos ≤ pos) (data : Nat → UInt8) : (b.split chunk data pos).2.Ordered := by
  have start := valid.start
  have last := valid.last
  have ends := valid.data
  unfold NcMbuf.dataSize at ends
  rw [same] at ends
  refine ((NcMbuf.valid_new chunk data).copy ?_).ordered
  rw [NcMbuf.length_bytes, NcMbuf.size_new]
  show b.m_last - pos ≤ chunk - MBUF_HSIZE
  omega

theorem keeps_iff {chunk : ChunkSize} (valid : b.Valid) (same : b.m_chunk_size = chunk)
    (allowed : op.Allowed b) : op.Keeps chunk b ↔ op.Fits b := by
  refine (and_iff_left ?_).trans ?_
  · rintro pos rfl data
    exact ordered_split valid same allowed.1 data
  · rcases makes_cases op b with ⟨fmt, rfl⟩ | ⟨b', returns⟩
    · exact iff_of_true (fun b' makes => absurd makes (not_makes_vsnprintf fmt)) trivial
    · have makes : op.Makes b b' := ⟨0, returns 0⟩
      refine ⟨fun keeps => (makes.ordered_iff valid allowed).mp (keeps b' makes), ?_⟩
      exact fun fits other made => (made.ordered_iff valid allowed).mpr fits

/-- A sequence of operations on a buffer in order. -/
theorem allKeep_iff {chunk : ChunkSize} {ops : List MarkerOp} (valid : b.Valid)
    (same : b.m_chunk_size = chunk) (legal : Legal ops b) : AllKeep chunk ops b ↔ AllFit ops b := by
  induction ops generalizing b with
  | nil => exact Iff.rfl
  | cons op ops ih =>
      obtain ⟨allowed, later⟩ := legal
      unfold AllKeep AllFit
      rw [keeps_iff valid same allowed]
      refine and_congr_right fun fits => forall₂_congr fun b' makes => ?_
      have ordered := (makes.ordered_iff valid allowed).mpr fits
      obtain ⟨ends, chunkSame⟩ := makes.ends
      exact ih (valid.of_ordered ordered ends chunkSame) (chunkSame.trans same)
        (later b' makes ordered)

/-- **The markers of every buffer, in every sequence of operations**: they are in order after each of
them, if and only if each copy fits. -/
theorem markers_iff (chunk : ChunkSize) (data : Nat → UInt8) (ops : List MarkerOp)
    (legal : Legal ops (NcMbuf.new chunk data)) :
    AllKeep chunk ops (NcMbuf.new chunk data) ↔ AllFit ops (NcMbuf.new chunk data) :=
  allKeep_iff (NcMbuf.valid_new chunk data) rfl legal

/-- A read and a partial send. -/
theorem markers_iff_recv_send :
    AllKeep Building.smallest [.setLast 3, .setPos 2] (NcMbuf.new Building.smallest fun _ => 0) ↔
      AllFit [.setLast 3, .setPos 2] (NcMbuf.new Building.smallest fun _ => 0) := by
  refine markers_iff Building.smallest (fun _ => 0) _
    ⟨?_, fun b makes _ => ⟨?_, fun _ _ _ => trivial⟩⟩
  · show 3 ≤ (NcMbuf.new Building.smallest fun _ => 0).size
    decide +kernel
  · obtain ⟨fuel, returns⟩ := makes
    rw [← Option.some.inj returns]
    show 2 < ((NcMbuf.new Building.smallest fun _ => 0).setLast 3).length
    decide +kernel

end MarkerOp

/-! ### The calls that put bytes into a message -/

namespace BuildCall

open Building

variable (chunk : ChunkSize) (heap : Addr → Nat → UInt8)

/-- **What a call needs for the markers**: room in the buffer it writes to. An `append` whose front
has none takes no other, and a `prependFormat` writes nothing. -/
def HasRoom (s : Building) : BuildCall → Prop
  | append bytes => s.FrontHasRoom bytes.length ∧ bytes.length ≤ (s.taken chunk heap).size
  | preAppend bytes => bytes.length ≤ (s.taken chunk heap).size
  | prependFormat _ _ => True

variable {s s' : Building} {call : BuildCall} {fuel : Nat} {status : Int}

/-- The size of the buffer that is taken: none if it comes from the free list. -/
theorem size_taken (sound : s.Sound) :
    (s.taken chunk heap).size =
      if s.mbuf_pool.m_queue = [] then chunk - MBUF_HSIZE else 0 := by
  by_cases empty : s.mbuf_pool.m_queue = []
  · rw [if_pos empty, taken_empty chunk heap empty, NcMbuf.size_new]
    rfl
  · have spent := sound.taken_spent chunk heap empty
    rw [if_neg empty, spent.valid.size_eq_zero]
    exact NcMbuf.full_iff.mpr spent.last

theorem sound_attach_iff (sound : s.Sound) (bytes : List UInt8) :
    (s.attach chunk heap bytes).Sound ↔ ((s.taken chunk heap).copy bytes).Valid := by
  refine ⟨fun after => ?_, fun valid => sound.attach chunk heap valid⟩
  have taken := after.pool.inUse (s.alloc chunk heap).2 (sound.pool.inUse_alloc _)
  have written := mem_filled_taken chunk heap (s := s) bytes
  rw [← written]
  exact taken

theorem valid_copy_iff {b : NcMbuf} (valid : b.Valid) (bytes : List UInt8) :
    (b.copy bytes).Valid ↔ bytes.length ≤ b.size := by
  have makes : (MarkerOp.copy bytes).Makes b (b.copy bytes) := ⟨0, rfl⟩
  have one : (b.copy bytes).Ordered ↔ bytes.length ≤ b.size := makes.ordered_iff valid trivial
  exact ⟨fun after => one.mp after.ordered, valid.copy⟩

/-- Without room the bytes are copied to the front all the same. -/
theorem not_sound_append_full (sound : s.Sound) {bytes : List UInt8} {buf : Addr} {rest : List Addr}
    (queue : s.m_mbuf_queue = buf :: rest) (full : ¬ bytes.length ≤ (s.mbuf_pool.mem buf).size) :
    ¬ (s.append chunk heap bytes).1.Sound := by
  have used := sound.queue buf (by rw [queue]; exact List.mem_cons_self)
  have valid := sound.pool.inUse buf used
  obtain ⟨mbuf_pool, m_mbuf_queue, m_mlen⟩ := s
  subst queue
  have short : ¬ (mbuf_pool.mem buf).size ≥ bytes.length := full
  intro after
  have written : (Building.append chunk heap bytes ⟨mbuf_pool, buf :: rest, m_mlen⟩).1.mbuf_pool.mem buf =
      (mbuf_pool.mem buf).copy bytes := by
    simp only [Building.append, ensureMbuf, if_neg short]
    exact NcObjectPool.mem_put_self _ _ _
  have still :
      (Building.append chunk heap bytes ⟨mbuf_pool, buf :: rest, m_mlen⟩).1.mbuf_pool.InUse buf := by
    refine after.queue buf ?_
    rw [append_full chunk heap rfl full]
    exact List.mem_append_left _ List.mem_cons_self
  have inOrder := after.pool.inUse buf still
  rw [written, valid_copy_iff valid] at inOrder
  exact full inOrder

/-- **A single call that returns.** -/
theorem sound_call_iff (sound : s.Sound) (returns : call.run chunk heap fuel s = some (s', status)) :
    s'.Sound ↔ call.HasRoom chunk heap s := by
  have valid := sound.taken_valid chunk heap
  cases call with
  | append bytes =>
      have after : (s.append chunk heap bytes).1 = s' := congrArg Prod.fst (Option.some.inj returns)
      unfold HasRoom
      rw [← after]
      by_cases room : s.FrontHasRoom bytes.length
      · rw [append_room chunk heap room, sound_attach_iff chunk heap sound, valid_copy_iff valid]
        exact (and_iff_right room).symm
      · refine iff_of_false ?_ fun holds => room holds.1
        simp only [FrontHasRoom, not_forall] at room
        obtain ⟨buf, front, full⟩ := room
        obtain ⟨rest, queue⟩ := List.head?_eq_some_iff.mp front
        exact not_sound_append_full chunk heap sound queue full
  | preAppend bytes =>
      have after : s.attach chunk heap bytes = s' := congrArg Prod.fst (Option.some.inj returns)
      rw [← after]
      exact (sound_attach_iff chunk heap sound bytes).trans (valid_copy_iff valid bytes)
  | prependFormat fmt text =>
      rw [run_prependFormat] at returns
      cases returns

/-- Each call has room in the state before it. -/
def AllRoom : List BuildCall → Building → Prop
  | [], _ => True
  | call :: calls, s =>
      call.HasRoom chunk heap s ∧ ∀ fuel s' status, call.run chunk heap fuel s = some (s', status) →
        AllRoom calls s'

/-- A call that does not return, or always returns the same. -/
theorem run_cases (s : Building) (call : BuildCall) :
    (∃ fmt text, call = prependFormat fmt text) ∨
      ∃ result, ∀ fuel, call.run chunk heap fuel s = some result := by
  cases call with
  | append bytes => exact Or.inr ⟨_, fun _ => rfl⟩
  | preAppend bytes => exact Or.inr ⟨_, fun _ => rfl⟩
  | prependFormat fmt text => exact Or.inl ⟨fmt, text, rfl⟩

/-- **Every sequence of calls**: the buffers in use are in order after each call that returns, if and
only if each of them has room. -/
theorem sound_run_iff (sound : s.Sound) (calls : List BuildCall) :
    (∀ before, before <+: calls → ∀ fuel s', runAll chunk heap fuel before s = some s' → s'.Sound) ↔
      AllRoom chunk heap calls s := by
  induction calls generalizing s with
  | nil =>
      refine iff_of_true (fun before none fuel s' runs => ?_) trivial
      rw [List.prefix_nil.mp none] at runs
      rw [← Option.some.inj runs]
      exact sound
  | cons call calls ih =>
      constructor
      · intro holds
        have first : ∀ {fuel s' status}, call.run chunk heap fuel s = some (s', status) → s'.Sound :=
          fun {fuel s' status} returns =>
            holds [call] ((List.cons_prefix_cons).mpr ⟨rfl, List.nil_prefix⟩) fuel s'
              (runAll_cons returns [])
        refine ⟨?_, fun fuel s' status returns => (ih (first returns)).mp fun before prior depth t runs =>
          ?_⟩
        · rcases run_cases chunk heap s call with ⟨fmt, text, rfl⟩ | ⟨result, always⟩
          · exact trivial
          · exact (sound_call_iff chunk heap sound (always 0)).mp (first (always 0))
        · refine holds (call :: before) ((List.cons_prefix_cons).mpr ⟨rfl, prior⟩) depth t ?_
          rcases run_cases chunk heap s call with ⟨fmt, text, rfl⟩ | ⟨result, always⟩
          · rw [run_prependFormat] at returns
            cases returns
          · obtain rfl : result = (s', status) := Option.some.inj ((always fuel).symm.trans returns)
            exact (runAll_cons (always depth) before).trans runs
      · rintro ⟨room, later⟩ before prior fuel t runs
        cases before with
        | nil =>
            rw [← Option.some.inj runs]
            exact sound
        | cons made before =>
            obtain ⟨rfl, rest⟩ := List.cons_prefix_cons.mp prior
            obtain ⟨⟨s', status⟩, returns, runs⟩ := Option.bind_eq_some_iff.mp runs
            have next := (sound_call_iff chunk heap sound returns).mpr room
            exact (ih next).mpr (later fuel s' status returns) before rest fuel t runs

end BuildCall

namespace Building

/-- **One byte more than the chunk holds**: the markers are out of order after the second `append`, and
the room of the buffer is `UINT32_MAX`. -/
theorem append_overruns :
    (MarkerOp.Legal [.copy (List.replicate 456 65), .copy [66]] (NcMbuf.new smallest fun _ => 0) ∧
      ¬ MarkerOp.AllKeep smallest [.copy (List.replicate 456 65), .copy [66]]
        (NcMbuf.new smallest fun _ => 0)) ∧
    ∃ s, runAll smallest (fun _ _ => 0) 0 [.append (List.replicate 456 65), .append [66]] fresh =
      some s ∧ ¬ (s.mbuf_pool.mem 0).Ordered ∧ (s.mbuf_pool.mem 0).size = 4294967295 := by
  have after : ∃ s, runAll smallest (fun _ _ => 0) 0 [.append (List.replicate 456 65), .append [66]]
      fresh = some s ∧ (s.mbuf_pool.mem 0).m_last = 457 ∧ (s.mbuf_pool.mem 0).m_end = 456 ∧
        (s.mbuf_pool.mem 0).size = 4294967295 :=
    ⟨_, rfl, by decide +kernel, by decide +kernel, by decide +kernel⟩
  obtain ⟨s, runs, last, ends, size⟩ := after
  have out : ¬ (((NcMbuf.new smallest fun _ => 0).copy (List.replicate 456 65)).copy
      [66]).Ordered := fun ordered => absurd ordered.last (by decide +kernel)
  refine ⟨⟨⟨trivial, fun _ _ _ => ⟨trivial, fun _ _ _ => trivial⟩⟩, fun keeps => ?_⟩,
    s, runs, fun ordered => ?_, size⟩
  · obtain ⟨-, later⟩ := keeps
    obtain ⟨⟨second, -⟩, -⟩ := later _ ⟨0, rfl⟩
    exact out (second _ ⟨0, rfl⟩)
  · have inside := ordered.last
    rw [last, ends] at inside
    exact absurd inside (by decide)

end Building

end Nutcracker
