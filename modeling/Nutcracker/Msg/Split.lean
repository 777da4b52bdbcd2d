/-
**Receiving into a message, and splitting it.**

`recvChain` reads into the last buffer of the message, or into one from the pool, and sets the
length of the message to the number of bytes read. `parseDone` cuts the last buffer at the position
of the parser and gives the bytes behind it to a message from the pool, which gets a buffer and a
length, and no owner.

* `Parsing` — a message with the position of the parser.
* `readOnto` — the read of `recvChain`; `received_readOnto` finds it in the model of the proxy.
* `Divides` — the message keeps the one part of the stream, and `recvDone` gets the other.
* `readOnto_iff`, `parseDone_iff`, `repairDone_holds` — what each of the three needs.
* `conserve_iff` — **the stream is conserved**: always by `repairDone`, by a read onto an empty
  message, and by `parseDone` if there is nothing to split off or the message has no owner.
-/

import Nutcracker.Msg.Build
import Nutcracker.Proxy.Turns

namespace Nutcracker

open Proxy

namespace NcMbuf

/-- A buffer as `mbuf_pool` hands it out: a new one, or one that was freed. -/
def FromPool (mbuf : NcMbuf) : Prop :=
  (∃ (chunk : ChunkSize) (data : Nat → UInt8), mbuf = new chunk data) ∨ mbuf.Spent

/-- A buffer from the pool that has room is empty. -/
theorem FromPool.blank {mbuf : NcMbuf} (handed : mbuf.FromPool) (room : 0 < mbuf.size) :
    mbuf.Valid ∧ mbuf.content = [] := by
  rcases handed with ⟨chunk, data, rfl⟩ | spent
  · exact ⟨valid_new chunk data, content_new chunk data⟩
  · have none := spent.valid.size_eq_zero.mpr (full_iff.mpr spent.last)
    exact absurd room (Nat.not_lt.mpr (Nat.le_of_eq none))

end NcMbuf

namespace NcMsg

/-- A message as `msg_pool` hands it out. -/
def FromPool (msg : NcMsg) : Prop := msg = new ∨ ∃ old : NcMsg, msg = old.freeMbuf.reset

theorem FromPool.blank {msg : NcMsg} (handed : msg.FromPool) :
    msg.data = none ∧ msg.m_mbuf_queue = [] := by
  rcases handed with rfl | ⟨old, rfl⟩
  · exact ⟨rfl, rfl⟩
  · exact ⟨rfl, rfl⟩

/-- The bytes of the message. -/
def content (msg : NcMsg) : List UInt8 := msg.m_mbuf_queue.flatMap NcMbuf.content

/-- The message holds `x`, and its length says so. -/
structure Holds (x : List UInt8) (msg : NcMsg) : Prop where
  content : msg.content = x
  counted : msg.m_mlen = x.length

end NcMsg

/-- A message that is received: `pos` is an offset in its last buffer. -/
structure Parsing extends NcMsg where
  pos : Nat

namespace Parsing

/-- **The read of `recvChain`**, up to `setLength`. `fresh` is what the pool would hand out. -/
def readOnto (fresh : NcMbuf) (bytes : List UInt8) (msg : Parsing) : Parsing :=
  let tail := tailMbuf fresh msg.m_mbuf_queue
  { msg with
    m_mbuf_queue := tail.1 ++ [tail.2.copy bytes]
    m_mlen := bytes.length
    pos :=
      match msg.m_mbuf_queue.getLast? with
      | none => fresh.m_pos
      | some mbuf => if mbuf.full then fresh.m_pos else msg.pos }

/-- `parseDone`, with the message that `msg_pool` hands out: what `recvDone` is called with. Without
a buffer there is no call. -/
def parseDone (chunk : ChunkSize) (data : Nat → UInt8) (nmsg : NcMsg) (msg : Parsing) :
    Option (Parsing × Option Parsing) :=
  match msg.m_mbuf_queue.getLast? with
  | none => none
  | some mbuf =>
      if msg.pos = mbuf.m_last then some (msg, none)
      else
        let (mbuf, nbuf) := mbuf.split chunk data msg.pos
        let nmsg : Parsing :=
          { nmsg with
            m_mbuf_queue := nmsg.m_mbuf_queue ++ [nbuf]
            m_mlen := nbuf.length
            pos := nbuf.m_pos }
        let msg :=
          { msg with
            m_mbuf_queue := msg.m_mbuf_queue.dropLast ++ [mbuf]
            m_mlen := (msg.m_mlen + 2 ^ 32 - nmsg.m_mlen) % 2 ^ 32 }
        some (msg, some nmsg)

/-- `repairDone`. Without a buffer it fails. -/
def repairDone (chunk : ChunkSize) (data : Nat → UInt8) (msg : Parsing) : Option Parsing :=
  match msg.m_mbuf_queue.getLast? with
  | none => none
  | some mbuf =>
      let (mbuf, nbuf) := mbuf.split chunk data msg.pos
      some { msg with
        m_mbuf_queue := msg.m_mbuf_queue.dropLast ++ [mbuf] ++ [nbuf]
        pos := nbuf.m_pos }

/-- **What `recvDone` is to be called with**: a message that holds `before`, and one that holds
`after` if that is something, both with the owner of the message that was split. -/
def Divides (msg : Parsing) (before after : List UInt8) : Option (Parsing × Option Parsing) → Prop
  | none => False
  | some (left, none) => after = [] ∧ left.Holds before ∧ left.data = msg.data
  | some (left, some right) =>
      after ≠ [] ∧ left.Holds before ∧ right.Holds after ∧
        left.data = msg.data ∧ right.data = msg.data

variable {msg : Parsing} {x : List UInt8}

/-! ### The read -/

/-- The read is the one of `recvChain` in the proxy. -/
theorem received_readOnto (r : Receiver) (fresh : NcMbuf) (bytes : List UInt8) (m : Addr)
    (p : Proxy) (pos : Nat) :
    received r (tailMbuf fresh (p.msg m).m_mbuf_queue).1 (tailMbuf fresh (p.msg m).m_mbuf_queue).2
        bytes m p =
      let parsed := parse r m <| p.putMsg m fun msg =>
        (readOnto fresh bytes ⟨msg, pos⟩).toNcMsg
      if parsed.2 = NC_OK then ((r.recvNext false parsed.1).1, NC_OK) else parsed := rfl

/-- **The bytes go behind those that are there**: a buffer that was freed has no room for any. -/
theorem content_readOnto (valid : ∀ mbuf ∈ msg.m_mbuf_queue, mbuf.Valid) {fresh : NcMbuf}
    (handed : fresh.FromPool) {bytes : List UInt8} (some : bytes ≠ [])
    (fits : bytes.length ≤ (tailMbuf fresh msg.m_mbuf_queue).2.size) :
    (msg.readOnto fresh bytes).content = msg.content ++ bytes := by
  have positive := List.length_pos_iff.mpr some
  show ((tailMbuf fresh msg.m_mbuf_queue).1 ++
    [(tailMbuf fresh msg.m_mbuf_queue).2.copy bytes]).flatMap NcMbuf.content = _
  rw [List.flatMap_append, List.flatMap_singleton]
  unfold tailMbuf at fits ⊢
  cases last : msg.m_mbuf_queue.getLast? with
  | none =>
      rw [last] at fits
      obtain ⟨validFresh, empty⟩ := handed.blank (Nat.lt_of_lt_of_le positive fits)
      rw [NcMsg.content, List.getLast?_eq_none_iff.mp last, validFresh.content_copy, empty]
      rfl
  | some mbuf =>
      rw [last] at fits
      dsimp only at fits ⊢
      by_cases full : mbuf.full = true
      · rw [if_pos full] at fits ⊢
        obtain ⟨validFresh, empty⟩ := handed.blank (Nat.lt_of_lt_of_le positive fits)
        rw [validFresh.content_copy, empty, List.nil_append]
        rfl
      · rw [if_neg full]
        have split := List.dropLast_append_getLast? mbuf last
        rw [(valid mbuf (List.mem_of_getLast? last)).content_copy, ← List.append_assoc,
          NcMsg.content]
        conv_rhs => rw [← split, List.flatMap_append, List.flatMap_singleton]

/-- **A read is counted right exactly if the message was empty.** -/
theorem readOnto_iff (holds : msg.Holds x) (valid : ∀ mbuf ∈ msg.m_mbuf_queue, mbuf.Valid)
    {fresh : NcMbuf} (handed : fresh.FromPool) {bytes : List UInt8} (some : bytes ≠ [])
    (fits : bytes.length ≤ (tailMbuf fresh msg.m_mbuf_queue).2.size) :
    ((msg.readOnto fresh bytes).content = x ++ bytes ∧
        (msg.readOnto fresh bytes).m_mlen = msg.m_mlen + bytes.length) ↔ x = [] := by
  have content := content_readOnto valid handed some fits
  rw [holds.content] at content
  have counted : (msg.readOnto fresh bytes).m_mlen = bytes.length := rfl
  rw [counted, holds.counted, ← List.length_eq_zero_iff]
  constructor
  · rintro ⟨-, grows⟩
    omega
  · intro none
    exact ⟨content, by omega⟩

/-! ### The cut -/

variable {before : List NcMbuf} {mbuf : NcMbuf}

/-- The bytes before the position, and those from it on. -/
theorem content_at (queue : msg.m_mbuf_queue = before ++ [mbuf]) (low : mbuf.m_pos ≤ msg.pos)
    (high : msg.pos ≤ mbuf.m_last) :
    msg.content = before.flatMap NcMbuf.content ++ mbuf.bytes mbuf.m_pos msg.pos ++
      mbuf.bytes msg.pos mbuf.m_last := by
  rw [List.append_assoc, NcMbuf.bytes_append low high, NcMsg.content, queue, List.flatMap_append,
    List.flatMap_singleton]
  rfl

theorem getLast?_queue (queue : msg.m_mbuf_queue = before ++ [mbuf]) :
    msg.m_mbuf_queue.getLast? = some mbuf ∧ msg.m_mbuf_queue.dropLast = before := by
  rw [queue]
  exact ⟨List.getLast?_concat, List.dropLast_concat⟩

/-- The two parts, by their lengths. -/
theorem parts_at (queue : msg.m_mbuf_queue = before ++ [mbuf]) (low : mbuf.m_pos ≤ msg.pos)
    (high : msg.pos ≤ mbuf.m_last) :
    msg.content.take (msg.content.length - (mbuf.m_last - msg.pos)) =
        before.flatMap NcMbuf.content ++ mbuf.bytes mbuf.m_pos msg.pos ∧
      msg.content.drop (msg.content.length - (mbuf.m_last - msg.pos)) =
        mbuf.bytes msg.pos mbuf.m_last := by
  have cut : msg.content.length - (mbuf.m_last - msg.pos) =
      (before.flatMap NcMbuf.content ++ mbuf.bytes mbuf.m_pos msg.pos).length := by
    rw [content_at queue low high, List.length_append, NcMbuf.length_bytes msg.pos mbuf.m_last,
      Nat.add_sub_cancel]
  rw [cut, content_at queue low high]
  exact ⟨List.take_left, List.drop_left⟩

/-- The bytes of the buffer that `split` makes. -/
theorem content_nbuf (chunk : ChunkSize) (data : Nat → UInt8) (pos : Nat) :
    (mbuf.split chunk data pos).2.content = mbuf.bytes pos mbuf.m_last := by
  show ((NcMbuf.new chunk data).copy (mbuf.bytes pos mbuf.m_last)).content = _
  rw [(NcMbuf.valid_new chunk data).content_copy, NcMbuf.content_new, List.nil_append]

/-- The length of the buffer that `split` makes. -/
theorem length_nbuf (chunk : ChunkSize) (data : Nat → UInt8) {pos : Nat}
    (near : mbuf.m_last - pos < 2 ^ 32) :
    (mbuf.split chunk data pos).2.length = mbuf.m_last - pos := by
  have last : (mbuf.split chunk data pos).2.m_last = mbuf.m_last - pos :=
    (Nat.zero_add _).trans (NcMbuf.length_bytes pos mbuf.m_last)
  unfold NcMbuf.length
  rw [last]
  exact NcMbuf.distance_eq (Nat.zero_le _) near

/-- `m_mlen_ -= ..` without a wrap. -/
theorem sub_small {a b : Nat} (small : a < 2 ^ 32) (less : b ≤ a) :
    (a + 2 ^ 32 - b) % 2 ^ 32 = a - b := by
  rw [Nat.sub_add_comm less, Nat.add_mod_right]
  exact Nat.mod_eq_of_lt (Nat.lt_of_le_of_lt (Nat.sub_le a b) small)

section ParseDone

variable (chunk : ChunkSize) (data : Nat → UInt8) (nmsg : NcMsg)

/-- `parseDone` at the end of the last buffer. -/
theorem parseDone_end (queue : msg.m_mbuf_queue = before ++ [mbuf]) (done : msg.pos = mbuf.m_last) :
    msg.parseDone chunk data nmsg = some (msg, none) := by
  unfold parseDone
  rw [(getLast?_queue queue).1]
  exact if_pos done

/-- The message after `parseDone` has cut it. -/
def head (before : List NcMbuf) (mbuf : NcMbuf) (msg : Parsing) : Parsing :=
  { msg with
    m_mbuf_queue := before ++ [mbuf.cut msg.pos]
    m_mlen := (msg.m_mlen + 2 ^ 32 - (mbuf.m_last - msg.pos)) % 2 ^ 32 }

/-- The owner stays. -/
theorem data_head (before : List NcMbuf) (mbuf : NcMbuf) (msg : Parsing) :
    (msg.head before mbuf).data = msg.data := by
  -- taken apart, so that the owners are compared, and not the messages with their lengths
  obtain ⟨⟨data, m_peer, m_mlen, m_err, m_error, m_quit, m_noreply, m_noforward, m_done, m_swallow,
    m_mbuf_queue⟩, pos⟩ := msg
  exact Eq.refl data

/-- The message that `parseDone` makes. -/
def rest (nmsg : NcMsg) (nbuf : NcMbuf) : Parsing :=
  { nmsg with
    m_mbuf_queue := nmsg.m_mbuf_queue ++ [nbuf]
    m_mlen := nbuf.length
    pos := nbuf.m_pos }

/-- The new message has the owner that `msg_pool` left it. -/
theorem data_rest (nmsg : NcMsg) (nbuf : NcMbuf) : (rest nmsg nbuf).data = nmsg.data := by
  obtain ⟨data, m_peer, m_mlen, m_err, m_error, m_quit, m_noreply, m_noforward, m_done, m_swallow,
    m_mbuf_queue⟩ := nmsg
  exact Eq.refl data

theorem parseDone_inside (queue : msg.m_mbuf_queue = before ++ [mbuf])
    (more : msg.pos ≠ mbuf.m_last) (near : mbuf.m_last - msg.pos < 2 ^ 32) :
    msg.parseDone chunk data nmsg =
      some (msg.head before mbuf, some (rest nmsg (mbuf.split chunk data msg.pos).2)) := by
  obtain ⟨last, others⟩ := getLast?_queue queue
  have length := length_nbuf chunk data near
  unfold parseDone
  rw [last]
  dsimp only
  rw [if_neg more, others, length]
  unfold head rest
  rw [length]
  rfl

theorem holds_head (holds : msg.Holds x) (small : msg.m_mlen < 2 ^ 32)
    (queue : msg.m_mbuf_queue = before ++ [mbuf]) (low : mbuf.m_pos ≤ msg.pos)
    (high : msg.pos ≤ mbuf.m_last) :
    (msg.head before mbuf).Holds
      (before.flatMap NcMbuf.content ++ mbuf.bytes mbuf.m_pos msg.pos) where
  content := by
    show (before ++ [mbuf.cut msg.pos]).flatMap NcMbuf.content = _
    rw [List.flatMap_append, List.flatMap_singleton]
    rfl
  counted := by
    have whole := congrArg List.length (content_at queue low high)
    rw [holds.content, ← holds.counted, List.length_append, NcMbuf.length_bytes msg.pos] at whole
    have less : mbuf.m_last - msg.pos ≤ msg.m_mlen := by
      rw [whole]
      exact Nat.le_add_left _ _
    simp only [head]
    rw [sub_small small less, whole, Nat.add_sub_cancel]

theorem holds_rest {nmsg : NcMsg} (handed : nmsg.FromPool) {pos : Nat}
    (near : mbuf.m_last - pos < 2 ^ 32) :
    (rest nmsg (mbuf.split chunk data pos).2).Holds (mbuf.bytes pos mbuf.m_last) where
  content := by
    show (nmsg.m_mbuf_queue ++ [(mbuf.split chunk data pos).2]).flatMap NcMbuf.content = _
    rw [handed.blank.2, List.nil_append, List.flatMap_singleton, content_nbuf]
  counted := by
    show (mbuf.split chunk data pos).2.length = _
    rw [length_nbuf chunk data near, NcMbuf.length_bytes]

end ParseDone

/-- **`parseDone` divides the message right exactly if** the position is the end, or the message has
no owner that the other would have to inherit. -/
theorem parseDone_iff (holds : msg.Holds x) (small : msg.m_mlen < 2 ^ 32)
    (queue : msg.m_mbuf_queue = before ++ [mbuf]) (low : mbuf.m_pos ≤ msg.pos)
    (high : msg.pos ≤ mbuf.m_last) (chunk : ChunkSize) (data : Nat → UInt8) {nmsg : NcMsg}
    (handed : nmsg.FromPool) :
    msg.Divides (x.take (x.length - (mbuf.m_last - msg.pos)))
        (x.drop (x.length - (mbuf.m_last - msg.pos))) (msg.parseDone chunk data nmsg) ↔
      msg.pos = mbuf.m_last ∨ msg.data = none := by
  obtain ⟨front, behind⟩ := parts_at queue low high
  rw [holds.content] at front behind
  rw [front, behind]
  by_cases done : msg.pos = mbuf.m_last
  · have nothing : mbuf.bytes msg.pos mbuf.m_last = [] := by
      rw [← List.length_eq_zero_iff, NcMbuf.length_bytes, done, Nat.sub_self]
    have all := content_at queue low high
    rw [nothing, List.append_nil, holds.content] at all
    rw [parseDone_end chunk data nmsg queue done]
    exact iff_of_true ⟨nothing, all ▸ holds, rfl⟩ (Or.inl done)
  · have something : mbuf.bytes msg.pos mbuf.m_last ≠ [] := by
      rw [← List.length_pos_iff, NcMbuf.length_bytes]
      omega
    have near : mbuf.m_last - msg.pos < 2 ^ 32 := by
      have whole := congrArg List.length (content_at queue low high)
      rw [holds.content, ← holds.counted, List.length_append, NcMbuf.length_bytes msg.pos] at whole
      omega
    rw [parseDone_inside chunk data nmsg queue done near, or_iff_right done]
    have owner : (rest nmsg (mbuf.split chunk data msg.pos).2).data = none :=
      (data_rest nmsg _).trans handed.blank.1
    constructor
    · rintro ⟨-, -, -, -, inherited⟩
      exact inherited.symm.trans owner
    · intro nobody
      exact ⟨something, holds_head holds small queue low high, holds_rest chunk data handed near,
        data_head before mbuf msg, owner.trans nobody.symm⟩

/-- **`repairDone` conserves the stream.** -/
theorem repairDone_holds (queue : msg.m_mbuf_queue = before ++ [mbuf]) (low : mbuf.m_pos ≤ msg.pos)
    (high : msg.pos ≤ mbuf.m_last) (chunk : ChunkSize) (data : Nat → UInt8) :
    ∃ after, msg.repairDone chunk data = some after ∧ after.content = msg.content ∧
      after.m_mlen = msg.m_mlen := by
  obtain ⟨last, others⟩ := getLast?_queue queue
  refine ⟨{ msg with
    m_mbuf_queue := before ++ [(mbuf.split chunk data msg.pos).1] ++
      [(mbuf.split chunk data msg.pos).2]
    pos := (mbuf.split chunk data msg.pos).2.m_pos }, ?_, ?_, rfl⟩
  · unfold repairDone
    rw [last]
    dsimp only
    rw [others]
  · show (before ++ [(mbuf.split chunk data msg.pos).1] ++
      [(mbuf.split chunk data msg.pos).2]).flatMap NcMbuf.content = msg.m_mbuf_queue.flatMap _
    rw [queue, List.flatMap_append, List.flatMap_append, List.flatMap_append,
      List.flatMap_singleton, List.flatMap_singleton, List.flatMap_singleton, List.append_assoc,
      NcMbuf.content_split chunk data low high]

/-- **Receiving and splitting.** -/
theorem conserve_iff (holds : msg.Holds x) (small : msg.m_mlen < 2 ^ 32)
    (valid : ∀ mbuf ∈ msg.m_mbuf_queue, mbuf.Valid) :
    (∀ (fresh : NcMbuf) (bytes : List UInt8), fresh.FromPool → bytes ≠ [] →
      bytes.length ≤ (tailMbuf fresh msg.m_mbuf_queue).2.size →
        ((msg.readOnto fresh bytes).content = x ++ bytes ∧
          (msg.readOnto fresh bytes).m_mlen = msg.m_mlen + bytes.length ↔ x = [])) ∧
    ∀ (before : List NcMbuf) (mbuf : NcMbuf), msg.m_mbuf_queue = before ++ [mbuf] →
      mbuf.m_pos ≤ msg.pos → msg.pos ≤ mbuf.m_last → ∀ (chunk : ChunkSize) (data : Nat → UInt8),
        (∀ nmsg : NcMsg, nmsg.FromPool →
          (msg.Divides (x.take (x.length - (mbuf.m_last - msg.pos)))
              (x.drop (x.length - (mbuf.m_last - msg.pos))) (msg.parseDone chunk data nmsg) ↔
            msg.pos = mbuf.m_last ∨ msg.data = none)) ∧
        ∃ after, msg.repairDone chunk data = some after ∧ after.content = x ∧
          after.m_mlen = msg.m_mlen := by
  refine ⟨fun fresh bytes handed some fits => readOnto_iff holds valid handed some fits, ?_⟩
  intro before mbuf queue low high chunk data
  refine ⟨fun nmsg handed => parseDone_iff holds small queue low high chunk data handed, ?_⟩
  obtain ⟨after, repaired, content, counted⟩ := repairDone_holds queue low high chunk data
  exact ⟨after, repaired, content.trans holds.content, counted⟩

/-! ### A request of two bytes -/

/-- A new buffer of the smallest size. -/
def newMbuf : NcMbuf := NcMbuf.new Building.smallest fun _ => 0

theorem valid_newMbuf : newMbuf.Valid := NcMbuf.valid_new _ _

/-- A request of the client at 1, in one buffer, with the parser at `pos`. -/
def request (bytes : List UInt8) (pos : Nat) : Parsing where
  toNcMsg :=
    { NcMsg.new with data := some 1, m_mlen := bytes.length, m_mbuf_queue := [newMbuf.copy bytes] }
  pos := pos

theorem holds_request (bytes : List UInt8) (pos : Nat) : (request bytes pos).Holds bytes where
  content := by
    show [newMbuf.copy bytes].flatMap NcMbuf.content = bytes
    rw [List.flatMap_singleton, valid_newMbuf.content_copy]
    rfl
  counted := rfl

theorem valid_request {bytes : List UInt8} (fits : bytes.length ≤ 456) (pos : Nat) :
    ∀ mbuf ∈ (request bytes pos).m_mbuf_queue, mbuf.Valid := by
  intro mbuf member
  rw [List.mem_singleton.mp member]
  exact valid_newMbuf.copy fits

/-- The request `A`, before it is read on, and split before and after its byte. -/
theorem conserve_request :
    (((request [65] 0).readOnto newMbuf [66]).content = [65] ++ [66] ∧
        ((request [65] 0).readOnto newMbuf [66]).m_mlen = 1 + 1 ↔ [65] = ([] : List UInt8)) ∧
      ((request [65] 0).Divides [] [65]
          ((request [65] 0).parseDone Building.smallest (fun _ => 0) NcMsg.new) ↔
        (0 : Nat) = 1 ∨ (some 1 : Ptr) = none) := by
  obtain ⟨reads, splits⟩ := conserve_iff (holds_request [65] 0) (by decide)
    (valid_request (by decide) 0)
  have first := reads newMbuf [66] (Or.inl ⟨_, _, rfl⟩) (by decide) (by decide)
  have second := (splits [] (newMbuf.copy [65]) rfl (by decide) (by decide) Building.smallest
    fun _ => 0).1 NcMsg.new (Or.inl rfl)
  exact ⟨first, second⟩

/-- **The second read of a request counts itself alone**, and the rest of a request loses its
client. -/
theorem read_twice :
    ((request [65] 0).readOnto newMbuf [66]).content = [65, 66] ∧
      ((request [65] 0).readOnto newMbuf [66]).m_mlen = 1 ∧
      ¬ (request [65, 66] 1).Divides [65] [66]
        ((request [65, 66] 1).parseDone Building.smallest (fun _ => 0) NcMsg.new) := by
  refine ⟨by decide, rfl, fun divides => ?_⟩
  have inherited : (none : Ptr) = some 1 := divides.2.2.2.2
  cases inherited

end Parsing

end Nutcracker
