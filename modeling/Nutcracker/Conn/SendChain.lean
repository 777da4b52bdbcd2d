/-
**`NcConn::sendChain`: gather, write, account.**

The gather loop collects messages on `send_msgq` and buffers in the `iovec` array, `sendv` writes
some of the bytes, and the accounting loop hands them out to the messages again. `sendNext` and
`sendDone` are virtual and are parameters here. The loop takes the buffers from the queue of the
*first* message in every turn, which the entries of the array record (`IoVec.msg`).

* `addMbufs_fits`, `addMbufs_overrun` — one turn adds the unsent buffers of the first message, or
  writes past the array.
* `consume_spec` — the accounting of one message drops the bytes sent from its content.

Outside the code's defined behaviour are a write past the array and a step with an iterator whose
element was removed; they are faults. The accounting loop looks at its iterator only while the queue
has an element (`Dangles`).
-/

import Nutcracker.Conn.Model
import Mathlib.Algebra.Order.BigOperators.Group.List
import Mathlib.Algebra.Order.Ring.Nat
import Mathlib.Algebra.Group.Action.Defs

namespace Nutcracker

def NC_IOV_MAX : Nat := 128

def SSIZE_MAX : Nat := 9223372036854775807

def NC_OK : Int := 0

def NC_ERROR : Int := -1

def NC_EAGAIN : Int := -2

/-- What goes wrong in `sendChain`, or the loop out of fuel. -/
inductive SendFault
  | iovOverrun
  | danglingIterator
  | outOfFuel
  deriving DecidableEq, Repr

/-- An entry of the `iovec` array: the first `len` unread bytes of a buffer of the message `msg`. -/
structure IoVec where
  msg : Addr
  mbuf : NcMbuf
  len : Nat

namespace IoVec

def bytes (entry : IoVec) : List UInt8 := entry.mbuf.content.take entry.len

end IoVec

/-- The local variables of the gather loop, and the connection. -/
structure Gathering where
  conn : NcConn
  send_msgq : List Addr
  iov : List IoVec
  nsend : Nat

namespace NcConn

/-! ### The gather loop -/

/-- The inner loop: the non-empty buffers of one queue. -/
def addMbufs (msg : Addr) : List NcMbuf → Gathering → Except SendFault Gathering
  | [], g => .ok g
  | mbuf :: rest, g =>
      if g.nsend < SSIZE_MAX then
        if mbuf.empty then addMbufs msg rest g
        else if NC_IOV_MAX ≤ g.iov.length then .error .iovOverrun
        else
          let mlen :=
            if SSIZE_MAX < g.nsend + mbuf.length then SSIZE_MAX - g.nsend else mbuf.length
          addMbufs msg rest { g with iov := g.iov ++ [⟨msg, mbuf, mlen⟩], nsend := g.nsend + mlen }
      else .ok g

/-- The gather loop of `sendChain(msg)`, where `cmsg` is the message of this turn. `next n` is the
virtual `sendNext` with `n` messages gathered. -/
def gather (next : Nat → NcConn → NcConn × Ptr) (mem : Addr → NcMsg) (msg : Addr) :
    Nat → Addr → Gathering → Except SendFault Gathering
  | 0, _, _ => .error .outOfFuel
  | fuel + 1, cmsg, g => do
      let g ← addMbufs msg (mem msg).m_mbuf_queue { g with send_msgq := g.send_msgq ++ [cmsg] }
      if NC_IOV_MAX ≤ g.iov.length ∨ SSIZE_MAX < g.nsend then
        return g
      else
        match next g.send_msgq.length g.conn with
        | (conn, none) => return { g with conn }
        | (conn, some cmsg) => gather next mem msg fuel cmsg { g with conn }

/-! ### The write -/

/-- How `writev` ends: it takes up to `n` bytes, would block, or fails. -/
inductive SendvAnswer
  | wrote (n : Nat)
  | again
  | failed (err : Int)

/-- `NcConnBase::sendv`, of `nsend` bytes. It compares the bytes written with the number of entries. -/
def sendv (answer : SendvAnswer) (entries nsend : Nat) (conn : NcConn) : NcConn × Int :=
  match answer with
  | .wrote n =>
      if min n nsend < entries ∨ min n nsend = 0 then
        ({ conn with m_send_ready := false }, Int.ofNat (min n nsend))
      else
        (conn, Int.ofNat (min n nsend))
  | .again => ({ conn with m_send_ready := false }, NC_EAGAIN)
  | .failed err => ({ conn with m_send_ready := false, m_err := err }, NC_ERROR)

/-! ### The accounting loop -/

/-- The accounting of one message: the bytes left, its buffers, and whether all are consumed. -/
def consume : Nat → List NcMbuf → Nat × List NcMbuf × Bool
  | nsent, [] => (nsent, [], true)
  | nsent, mbuf :: rest =>
      if mbuf.empty then
        let (left, rest, all) := consume nsent rest
        (left, mbuf :: rest, all)
      else if nsent < mbuf.length then
        (0, mbuf.setPos nsent :: rest, false)
      else
        let (left, rest, all) := consume (nsent - mbuf.length) rest
        (left, mbuf.setComplete :: rest, all)

/-- The connection and the messages. -/
structure Sending where
  conn : NcConn
  msg_pool : NcObjectPool NcMsg

/-- `send_msgq.remove(*iter++)` of `nmsg` erases the element that the iterator has moved to, and some
other element is left, so that the loop goes on. -/
def Dangles (nmsg : Addr) (removed rest : List Addr) : Prop :=
  (rest.filter (· ∉ removed)).head? = some nmsg ∧ rest.filter (· ∉ nmsg :: removed) ≠ []

instance (nmsg : Addr) (removed rest : List Addr) : Decidable (Dangles nmsg removed rest) :=
  inferInstanceAs (Decidable (_ ∧ _))

/-- The accounting loop over `send_msgq`. `send_msgq.remove(*iter++)` erases every occurrence of the
message (`removed`), and the iterator is already on the next element. -/
def account (done : Addr → Sending → Sending) :
    List Addr → List Addr → Nat → Sending → Except SendFault Sending
  | [], _, _, s => .ok s
  | nmsg :: rest, removed, nsent, s =>
      if nmsg ∈ removed then account done rest removed nsent s
      else if Dangles nmsg removed rest then .error .danglingIterator
      else if nsent = 0 then
        account done rest (nmsg :: removed) nsent <|
          if (s.msg_pool.mem nmsg).m_mlen = 0 then done nmsg s else s
      else
        let (left, mbufs, all) := consume nsent (s.msg_pool.mem nmsg).m_mbuf_queue
        let s : Sending :=
          { s with msg_pool := s.msg_pool.put nmsg fun m => { m with m_mbuf_queue := mbufs } }
        account done rest (nmsg :: removed) left <| if all then done nmsg s else s

/-- The write of `sendChain`, with its result `n`; there is none if nothing was gathered. -/
def sent (answer : SendvAnswer) (g : Gathering) : NcConn × Int :=
  let conn : NcConn := { g.conn with m_smsg := none }
  if g.nsend ≠ 0 then sendv answer g.iov.length g.nsend conn else (conn, 0)

/-- The result of `sendChain`, from the result of the write. -/
def chainStatus (n : Int) : Int := if 0 < n then NC_OK else if n = NC_EAGAIN then NC_OK else NC_ERROR

/-- `sendChain(msg)`: the state after it, its result, and the bytes written. -/
def sendChain (next : Nat → NcConn → NcConn × Ptr) (done : Addr → Sending → Sending)
    (answer : SendvAnswer) (fuel : Nat) (msg : Addr) (s : Sending) :
    Except SendFault (Sending × Int × List UInt8) := do
  let g ← gather next s.msg_pool.mem msg fuel msg ⟨s.conn, [], [], 0⟩
  let (conn, n) := sent answer g
  let s ← account done g.send_msgq [] n.toNat { s with conn }
  return (s, chainStatus n, (g.iov.flatMap IoVec.bytes).take n.toNat)

end NcConn

namespace Gathering

/-- The byte count of the gather loop is the sum over its entries, each below the greatest chunk. -/
structure Counted (g : Gathering) : Prop where
  sum : g.nsend = (g.iov.map IoVec.len).sum
  small : ∀ entry ∈ g.iov, entry.len ≤ MBUF_MAX_SIZE

theorem Counted.nsend_le {g : Gathering} (counted : Counted g) :
    g.nsend ≤ g.iov.length * MBUF_MAX_SIZE := by
  rw [counted.sum]
  have bound := List.sum_le_card_nsmul (g.iov.map IoVec.len) MBUF_MAX_SIZE fun n member => by
    obtain ⟨entry, inIov, rfl⟩ := List.mem_map.mp member
    exact counted.small entry inIov
  rw [List.length_map, smul_eq_mul] at bound
  exact bound

/-- The byte limit is out of reach before the array is full. -/
theorem Counted.below {g : Gathering} (counted : Counted g) (short : g.iov.length ≤ NC_IOV_MAX) :
    g.nsend + MBUF_MAX_SIZE ≤ SSIZE_MAX := by
  have bound := counted.nsend_le
  have wide : g.iov.length * MBUF_MAX_SIZE ≤ NC_IOV_MAX * MBUF_MAX_SIZE :=
    Nat.mul_le_mul_right _ short
  unfold NC_IOV_MAX MBUF_MAX_SIZE at *
  unfold SSIZE_MAX
  omega

/-- The gathering with more entries. -/
def add (g : Gathering) (more : List IoVec) : Gathering :=
  { g with iov := g.iov ++ more, nsend := g.nsend + (more.map IoVec.len).sum }

theorem add_nil (g : Gathering) : g.add [] = g := by
  unfold add
  rw [List.append_nil, List.map_nil, List.sum_nil, Nat.add_zero]

theorem add_add (g : Gathering) (one more : List IoVec) :
    (g.add one).add more = g.add (one ++ more) := by
  unfold add
  rw [List.append_assoc, List.map_append, List.sum_append, Nat.add_assoc]

theorem Counted.add {g : Gathering} (counted : Counted g) {more : List IoVec}
    (small : ∀ entry ∈ more, entry.len ≤ MBUF_MAX_SIZE) : Counted (g.add more) where
  sum := by
    show g.nsend + _ = ((g.iov ++ more).map IoVec.len).sum
    rw [List.map_append, List.sum_append, counted.sum]
  small entry member := by
    rcases List.mem_append.mp member with before | added
    · exact counted.small entry before
    · exact small entry added

end Gathering

namespace NcConn

open Gathering

/-! ### What one turn of the gather loop adds -/

/-- **The unsent bytes of a message, as entries**: one for each buffer that is not empty. -/
def segments (msg : Addr) (mbufs : List NcMbuf) : List IoVec :=
  (mbufs.filter fun mbuf => !mbuf.empty).map fun mbuf => ⟨msg, mbuf, mbuf.length⟩

/-- The unsent bytes of a list of buffers. -/
def unsent (mbufs : List NcMbuf) : List UInt8 := mbufs.flatMap NcMbuf.content

theorem segments_cons_empty {msg : Addr} {mbuf : NcMbuf} {mbufs : List NcMbuf}
    (empty : mbuf.empty = true) : segments msg (mbuf :: mbufs) = segments msg mbufs := by
  unfold segments
  rw [List.filter_cons_of_neg (by rw [empty]; exact Bool.false_ne_true)]

theorem segments_cons {msg : Addr} {mbuf : NcMbuf} {mbufs : List NcMbuf}
    (bytes : ¬ mbuf.empty = true) :
    segments msg (mbuf :: mbufs) = ⟨msg, mbuf, mbuf.length⟩ :: segments msg mbufs := by
  unfold segments
  rw [List.filter_cons_of_pos (by rw [Bool.not_eq_true] at bytes; rw [bytes]; rfl), List.map_cons]

theorem segments_small {msg : Addr} {mbufs : List NcMbuf} (valid : ∀ mbuf ∈ mbufs, mbuf.Valid) :
    ∀ entry ∈ segments msg mbufs, entry.len ≤ MBUF_MAX_SIZE := by
  intro entry member
  obtain ⟨mbuf, kept, rfl⟩ := List.mem_map.mp member
  exact Nat.le_of_lt (valid mbuf (List.mem_filter.mp kept).1).length_lt

/-- One buffer with bytes, where there is room in the array: the byte limit does not cut it. -/
theorem addMbufs_cons {msg : Addr} {mbuf : NcMbuf} {mbufs : List NcMbuf} {g : Gathering}
    (valid : mbuf.Valid) (counted : Counted g) (bytes : ¬ mbuf.empty = true)
    (room : g.iov.length < NC_IOV_MAX) :
    addMbufs msg (mbuf :: mbufs) g = addMbufs msg mbufs (g.add [⟨msg, mbuf, mbuf.length⟩]) := by
  have below := counted.below (Nat.le_of_lt room)
  have length := valid.length_lt
  have more : g.nsend < SSIZE_MAX := by
    unfold MBUF_MAX_SIZE at below
    omega
  have uncut : ¬ SSIZE_MAX < g.nsend + mbuf.length := by omega
  rw [addMbufs, if_pos more, if_neg bytes, if_neg (Nat.not_le.mpr room)]
  simp only [if_neg uncut]
  rfl

theorem addMbufs_cons_empty {msg : Addr} {mbuf : NcMbuf} {mbufs : List NcMbuf} {g : Gathering}
    (counted : Counted g) (empty : mbuf.empty = true) (room : g.iov.length ≤ NC_IOV_MAX) :
    addMbufs msg (mbuf :: mbufs) g = addMbufs msg mbufs g := by
  have below := counted.below room
  have more : g.nsend < SSIZE_MAX := by
    unfold MBUF_MAX_SIZE at below
    omega
  rw [addMbufs, if_pos more, if_pos empty]

/-- **A turn that fits** adds the unsent buffers of the first message. -/
theorem addMbufs_fits {msg : Addr} {mbufs : List NcMbuf} {g : Gathering}
    (valid : ∀ mbuf ∈ mbufs, mbuf.Valid) (counted : Counted g)
    (fits : g.iov.length + (segments msg mbufs).length ≤ NC_IOV_MAX) :
    addMbufs msg mbufs g = .ok (g.add (segments msg mbufs)) := by
  induction mbufs generalizing g with
  | nil => exact congrArg Except.ok (Gathering.add_nil g).symm
  | cons mbuf mbufs ih =>
      have tail : ∀ b ∈ mbufs, b.Valid := fun b member => valid b (List.mem_cons_of_mem mbuf member)
      have isValid := valid mbuf List.mem_cons_self
      by_cases empty : mbuf.empty = true
      · rw [segments_cons_empty empty] at fits ⊢
        rw [addMbufs_cons_empty counted empty (by omega)]
        exact ih tail counted fits
      · rw [segments_cons empty, List.length_cons] at fits
        rw [segments_cons empty, addMbufs_cons isValid counted empty (by omega), ih tail, Gathering.add_add]
        · rfl
        · refine counted.add fun entry member => ?_
          rw [List.mem_singleton.mp member]
          exact Nat.le_of_lt isValid.length_lt
        · show (g.iov ++ [_]).length + _ ≤ _
          rw [List.length_append, List.length_singleton]
          omega

/-- **A turn that does not fit** writes past the array. -/
theorem addMbufs_overrun {msg : Addr} {mbufs : List NcMbuf} {g : Gathering}
    (valid : ∀ mbuf ∈ mbufs, mbuf.Valid) (counted : Counted g) (room : g.iov.length ≤ NC_IOV_MAX)
    (more : NC_IOV_MAX < g.iov.length + (segments msg mbufs).length) :
    addMbufs msg mbufs g = .error .iovOverrun := by
  induction mbufs generalizing g with
  | nil => exact absurd more (Nat.not_lt.mpr room)
  | cons mbuf mbufs ih =>
      have tail : ∀ b ∈ mbufs, b.Valid := fun b member => valid b (List.mem_cons_of_mem mbuf member)
      have isValid := valid mbuf List.mem_cons_self
      by_cases empty : mbuf.empty = true
      · rw [segments_cons_empty empty] at more
        rw [addMbufs_cons_empty counted empty room]
        exact ih tail counted room more
      · rw [segments_cons empty, List.length_cons] at more
        rcases Nat.lt_or_eq_of_le room with below | full
        · rw [addMbufs_cons isValid counted empty below]
          refine ih tail (counted.add fun entry member => ?_) ?_ ?_
          · rw [List.mem_singleton.mp member]
            exact Nat.le_of_lt isValid.length_lt
          · show (g.iov ++ [_]).length ≤ _
            rw [List.length_append, List.length_singleton]
            omega
          · show _ < (g.iov ++ [_]).length + _
            rw [List.length_append, List.length_singleton]
            omega
        · have below := counted.below room
          have inLimit : g.nsend < SSIZE_MAX := by
            unfold MBUF_MAX_SIZE at below
            omega
          rw [addMbufs, if_pos inLimit, if_neg empty, if_pos (Nat.le_of_eq full.symm)]

/-- A turn leaves the connection and the messages gathered. -/
theorem addMbufs_frame {msg : Addr} {mbufs : List NcMbuf} {g g' : Gathering}
    (adds : addMbufs msg mbufs g = .ok g') : g'.conn = g.conn ∧ g'.send_msgq = g.send_msgq := by
  induction mbufs generalizing g with
  | nil =>
      rw [← Except.ok.inj adds]
      exact ⟨rfl, rfl⟩
  | cons mbuf mbufs ih =>
      unfold addMbufs at adds
      by_cases more : g.nsend < SSIZE_MAX
      · rw [if_pos more] at adds
        by_cases empty : mbuf.empty = true
        · rw [if_pos empty] at adds
          exact ih adds
        · rw [if_neg empty] at adds
          by_cases full : NC_IOV_MAX ≤ g.iov.length
          · rw [if_pos full] at adds
            cases adds
          · rw [if_neg full] at adds
            dsimp only at adds
            have added := ih adds
            exact added
      · rw [if_neg more] at adds
        rw [← Except.ok.inj adds]
        exact ⟨rfl, rfl⟩

/-! ### The bytes of the entries -/

theorem content_of_empty {mbuf : NcMbuf} (empty : mbuf.empty = true) : mbuf.content = [] := by
  rw [← List.length_eq_zero_iff, NcMbuf.content, NcMbuf.length_bytes, NcMbuf.empty_iff.mp empty,
    Nat.sub_self]

/-- **The entries of a message denote its unsent bytes.** -/
theorem bytes_segments (msg : Addr) {mbufs : List NcMbuf} (valid : ∀ mbuf ∈ mbufs, mbuf.Valid) :
    (segments msg mbufs).flatMap IoVec.bytes = unsent mbufs := by
  induction mbufs with
  | nil => rfl
  | cons mbuf mbufs ih =>
      obtain ⟨isValid, tail⟩ := List.forall_mem_cons.mp valid
      have ih := ih tail
      unfold unsent at *
      rw [List.flatMap_cons]
      by_cases empty : mbuf.empty = true
      · rw [segments_cons_empty empty, ih, content_of_empty empty, List.nil_append]
      · rw [segments_cons empty, List.flatMap_cons, ih]
        show mbuf.content.take mbuf.length ++ _ = _
        rw [← isValid.length_content, List.take_length]

theorem sum_segments (msg : Addr) {mbufs : List NcMbuf} (valid : ∀ mbuf ∈ mbufs, mbuf.Valid) :
    ((segments msg mbufs).map IoVec.len).sum = (unsent mbufs).length := by
  induction mbufs with
  | nil => rfl
  | cons mbuf mbufs ih =>
      obtain ⟨isValid, tail⟩ := List.forall_mem_cons.mp valid
      have ih := ih tail
      unfold unsent at *
      rw [List.flatMap_cons, List.length_append]
      by_cases empty : mbuf.empty = true
      · rw [segments_cons_empty empty, ih, content_of_empty empty, List.length_nil, Nat.zero_add]
      · rw [segments_cons empty, List.map_cons, List.sum_cons, ih, isValid.length_content]

/-- A message has an unsent byte exactly if it has an entry. -/
theorem segments_eq_nil (msg : Addr) {mbufs : List NcMbuf} (valid : ∀ mbuf ∈ mbufs, mbuf.Valid) :
    segments msg mbufs = [] ↔ unsent mbufs = [] := by
  unfold segments unsent
  rw [List.map_eq_nil_iff, List.filter_eq_nil_iff, List.flatMap_eq_nil_iff]
  refine forall₂_congr fun mbuf member => ?_
  rw [(valid mbuf member).content_eq_nil]
  cases mbuf.empty <;> simp

/-! ### The accounting of one message -/

/-- **The bytes sent are dropped from the front.** -/
theorem consume_spec {mbufs : List NcMbuf} (nsent : Nat) (valid : ∀ mbuf ∈ mbufs, mbuf.Valid) :
    unsent (consume nsent mbufs).2.1 = (unsent mbufs).drop nsent ∧
      ∀ mbuf ∈ (consume nsent mbufs).2.1, mbuf.Valid := by
  induction mbufs generalizing nsent with
  | nil => exact ⟨List.drop_nil.symm, nofun⟩
  | cons mbuf mbufs ih =>
      have tail : ∀ b ∈ mbufs, b.Valid := fun b member => valid b (List.mem_cons_of_mem mbuf member)
      have isValid := valid mbuf List.mem_cons_self
      unfold unsent at *
      rw [List.flatMap_cons, consume]
      by_cases empty : mbuf.empty = true
      · rw [if_pos empty]
        obtain ⟨dropped, kept⟩ := ih _ tail
        refine ⟨?_, List.forall_mem_cons.mpr ⟨isValid, kept⟩⟩
        show (mbuf :: (consume nsent mbufs).2.1).flatMap NcMbuf.content = _
        rw [List.flatMap_cons, dropped, content_of_empty empty, List.nil_append, List.nil_append]
      · rw [if_neg empty]
        by_cases within : nsent < mbuf.length
        · rw [if_pos within]
          have fits := Nat.le_of_lt within
          refine ⟨?_, List.forall_mem_cons.mpr ⟨isValid.setPos fits, tail⟩⟩
          rw [List.flatMap_cons, isValid.content_setPos fits,
            List.drop_append_of_le_length (by rw [isValid.length_content]; exact fits)]
        · rw [if_neg within]
          have past := Nat.not_lt.mp within
          obtain ⟨dropped, kept⟩ := ih _ tail
          refine ⟨?_, List.forall_mem_cons.mpr ⟨isValid.setComplete, kept⟩⟩
          have whole : mbuf.content.drop nsent = [] := by
            refine List.drop_eq_nil_of_le ?_
            rw [isValid.length_content]
            exact past
          show (mbuf.setComplete :: (consume (nsent - mbuf.length) mbufs).2.1).flatMap
            NcMbuf.content = _
          rw [List.flatMap_cons, dropped, NcMbuf.content_setComplete, List.nil_append,
            List.drop_append, whole, List.nil_append, isValid.length_content]

/-- **A message is done exactly if no byte of it is left.** -/
theorem consume_all_iff {mbufs : List NcMbuf} (nsent : Nat) (valid : ∀ mbuf ∈ mbufs, mbuf.Valid) :
    (consume nsent mbufs).2.2 = true ↔ (unsent mbufs).length ≤ nsent := by
  induction mbufs generalizing nsent with
  | nil => exact iff_of_true rfl (Nat.zero_le nsent)
  | cons mbuf mbufs ih =>
      obtain ⟨isValid, tail⟩ := List.forall_mem_cons.mp valid
      unfold unsent at *
      rw [List.flatMap_cons, List.length_append, isValid.length_content, consume]
      by_cases empty : mbuf.empty = true
      · have none := isValid.length_eq_zero.mpr empty
        rw [if_pos empty, none, Nat.zero_add]
        exact ih _ tail
      · rw [if_neg empty]
        by_cases within : nsent < mbuf.length
        · rw [if_pos within]
          exact iff_of_false Bool.false_ne_true (by omega)
        · rw [if_neg within]
          show (consume (nsent - mbuf.length) mbufs).2.2 = true ↔ _
          rw [ih _ tail]
          omega

/-! ### One message on `send_msgq` -/

theorem sendv_spec (answer : SendvAnswer) (entries nsend : Nat) (conn : NcConn) :
    (sendv answer entries nsend conn).1.m_imsg_q = conn.m_imsg_q ∧
      (sendv answer entries nsend conn).1.m_smsg = conn.m_smsg ∧
      (sendv answer entries nsend conn).2.toNat ≤ nsend := by
  cases answer with
  | wrote n =>
      by_cases short : min n nsend < entries ∨ min n nsend = 0
      · simp only [sendv, if_pos short]
        exact ⟨trivial, trivial, Nat.min_le_right n nsend⟩
      · simp only [sendv, if_neg short]
        exact ⟨trivial, trivial, Nat.min_le_right n nsend⟩
  | again => exact ⟨rfl, rfl, Nat.zero_le _⟩
  | failed err => exact ⟨rfl, rfl, Nat.zero_le _⟩

/-- The write leaves the queues, clears the cursor, and writes at most what was gathered. -/
theorem sent_spec (answer : SendvAnswer) (g : Gathering) :
    (sent answer g).1.m_imsg_q = g.conn.m_imsg_q ∧ (sent answer g).1.m_smsg = none ∧
      (sent answer g).2.toNat ≤ g.nsend := by
  unfold sent
  by_cases some : g.nsend ≠ 0
  · rw [if_pos some]
    exact sendv_spec answer g.iov.length g.nsend { g.conn with m_smsg := none }
  · rw [if_neg some]
    exact ⟨rfl, rfl, Nat.zero_le _⟩

/-- What the write changes of the connection. -/
theorem sent_eq (answer : SendvAnswer) (g : Gathering) :
    ∃ ready err, (sent answer g).1 =
      { g.conn with m_smsg := none, m_send_ready := ready, m_err := err } := by
  unfold sent
  by_cases some : g.nsend ≠ 0
  · rw [if_pos some]
    cases answer with
    | wrote n =>
        unfold sendv
        dsimp only
        by_cases short : min n g.nsend < g.iov.length ∨ min n g.nsend = 0
        · rw [if_pos short]
          exact ⟨_, _, rfl⟩
        · rw [if_neg short]
          exact ⟨_, _, rfl⟩
    | again => exact ⟨_, _, rfl⟩
    | failed err => exact ⟨_, _, rfl⟩
  · rw [if_neg some]
    exact ⟨_, _, rfl⟩

/-- The accounting of a single message. -/
def accounted (done : Addr → Sending → Sending) (msg : Addr) (nsent : Nat) (s : Sending) : Sending :=
  if nsent = 0 then
    if (s.msg_pool.mem msg).m_mlen = 0 then done msg s else s
  else
    let (_, mbufs, all) := consume nsent (s.msg_pool.mem msg).m_mbuf_queue
    let s : Sending :=
      { s with msg_pool := s.msg_pool.put msg fun m => { m with m_mbuf_queue := mbufs } }
    if all then done msg s else s

/-- A message that is on the queue once leaves the iterator as it is. -/
theorem not_dangles {nmsg : Addr} {rest : List Addr} (removed : List Addr) (fresh : nmsg ∉ rest) :
    ¬ Dangles nmsg removed rest :=
  fun dangles => fresh (List.mem_filter.mp (List.mem_of_mem_head? dangles.1)).1

theorem account_one (done : Addr → Sending → Sending) (msg : Addr) (nsent : Nat) (s : Sending) :
    account done [msg] [] nsent s = .ok (accounted done msg nsent s) := by
  unfold accounted
  rw [account, if_neg List.not_mem_nil, if_neg (not_dangles [] List.not_mem_nil)]
  by_cases none : nsent = 0
  · rw [if_pos none, if_pos none, account]
  · rw [if_neg none, if_neg none]
    rfl

/-- **`sendChain` with one message gathered.** -/
theorem sendChain_one {next : Nat → NcConn → NcConn × Ptr} (done : Addr → Sending → Sending)
    (answer : SendvAnswer) {fuel : Nat} {msg : Addr} {s : Sending} {g : Gathering}
    (gathers : gather next s.msg_pool.mem msg fuel msg ⟨s.conn, [], [], 0⟩ = .ok g)
    (single : g.send_msgq = [msg]) :
    sendChain next done answer fuel msg s =
      .ok (accounted done msg (sent answer g).2.toNat ⟨(sent answer g).1, s.msg_pool⟩,
        chainStatus (sent answer g).2,
        (g.iov.flatMap IoVec.bytes).take (sent answer g).2.toNat) := by
  unfold sendChain
  rw [gathers]
  show (account done g.send_msgq [] (sent answer g).2.toNat ⟨(sent answer g).1, s.msg_pool⟩ >>= _) = _
  rw [single, account_one]
  rfl

end NcConn

end Nutcracker
