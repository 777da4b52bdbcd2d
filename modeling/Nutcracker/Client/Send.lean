/-
**`NcClientConn::sendNext` and `sendDone`.**

The head of `m_omsg_q` is the oldest request, and its `m_peer` the response to send; the cursor
`m_smsg` holds the response while it is sent. Hence the gather loop of `sendChain`, which calls
`sendNext` again, gets `NULL` and gathers one response.

* `sendNext_answered` — without a cursor, the response of the oldest request.
* `sendNext_sending` — with a cursor, `NULL`.
* `sendChain_sending` — **so `sendChain` sends this one response**.

`front()` of an empty queue is `NULL`, as the code expects.
-/

import Nutcracker.Conn.SendChain

namespace Nutcracker

namespace NcClientConn

open NcConn

/-- `NcClientConn::sendNext`, where `delOutput` is the error number of a failed `delOutput`. -/
def sendNext (delOutput : Option Int) (mem : Addr → NcMsg) (conn : NcConn) : NcConn × Ptr :=
  match conn.m_omsg_q with
  | [] =>
      let conn := if conn.m_eof then { conn with m_done := true } else conn
      match delOutput with
      | some err => ({ conn with m_err := err }, none)
      | none => (conn, none)
  | pmsg :: _ =>
      if conn.m_smsg ≠ none then ({ conn with m_smsg := none }, none)
      else ({ conn with m_smsg := (mem pmsg).m_peer }, (mem pmsg).m_peer)

/-- `sendNext` as the gather loop calls it. -/
def nextOf (delOutput : Option Int) (mem : Addr → NcMsg) : Nat → NcConn → NcConn × Ptr :=
  fun _ conn => sendNext delOutput mem conn

/-- `NcClientConn::sendDone`: the request leaves the queue, and both messages are freed. A response
without a request is a `NULL` dereference in the source, and nothing here. -/
def sendDone (msg : Addr) (s : Sending) : Sending :=
  match (s.msg_pool.mem msg).m_peer with
  | none => s
  | some pmsg =>
      ⟨{ s.conn with m_omsg_q := NcQueue.remove pmsg s.conn.m_omsg_q },
        freeMsg s.conn.m_owner pmsg true s.msg_pool⟩

variable {delOutput : Option Int} {mem : Addr → NcMsg} {conn : NcConn} {pmsg : Addr}
  {rest : List Addr}

/-- Without a cursor: the response of the oldest request. -/
theorem sendNext_answered (queue : conn.m_omsg_q = pmsg :: rest) (start : conn.m_smsg = none) :
    sendNext delOutput mem conn =
      ({ conn with m_smsg := (mem pmsg).m_peer }, (mem pmsg).m_peer) := by
  have idle : ¬ conn.m_smsg ≠ none := fun sending => sending start
  unfold sendNext
  rw [queue]
  exact if_neg idle

/-- **With a cursor: `NULL`.** -/
theorem sendNext_sending (queue : conn.m_omsg_q = pmsg :: rest) (sending : conn.m_smsg ≠ none) :
    sendNext delOutput mem conn = ({ conn with m_smsg := none }, none) := by
  unfold sendNext
  rw [queue]
  exact if_pos sending

/-- With a response to send there is a request at the head of the queue, and a cursor. -/
theorem sendNext_some {conn' : NcConn} {rsp : Addr}
    (next : sendNext delOutput mem conn = (conn', some rsp)) :
    ∃ pmsg rest, conn.m_omsg_q = pmsg :: rest ∧ conn.m_smsg = none ∧
      (mem pmsg).m_peer = some rsp ∧ conn' = { conn with m_smsg := some rsp } := by
  unfold sendNext at next
  cases queue : conn.m_omsg_q with
  | nil =>
      rw [queue] at next
      cases delOutput <;> cases next
  | cons pmsg rest =>
      rw [queue] at next
      dsimp only at next
      by_cases sending : conn.m_smsg ≠ none
      · rw [if_pos sending] at next
        cases next
      · rw [if_neg sending] at next
        have peer : (mem pmsg).m_peer = some rsp := congrArg Prod.snd next
        refine ⟨pmsg, rest, rfl, not_not.mp sending, peer, ?_⟩
        have cursor := congrArg Prod.fst next
        dsimp only at cursor
        rw [← cursor, peer, ← queue]

/-- The gather loop gathers one message, and changes nothing but the cursor. -/
theorem gather_sending {rsp : Addr} {g : Gathering} (queue : conn.m_omsg_q = pmsg :: rest)
    (sending : conn.m_smsg ≠ none)
    (gathers : gather (nextOf delOutput mem) mem rsp 2 rsp ⟨conn, [], [], 0⟩ = .ok g) :
    g.send_msgq = [rsp] ∧ ∃ smsg, g.conn = { conn with m_smsg := smsg } := by
  unfold gather at gathers
  cases adds : addMbufs rsp (mem rsp).m_mbuf_queue ⟨conn, [rsp], [], 0⟩ with
  | error fault =>
      rw [List.nil_append, adds] at gathers
      cases gathers
  | ok turn =>
      have frame := addMbufs_frame adds
      rw [List.nil_append, adds] at gathers
      change (if _ then _ else _) = _ at gathers
      by_cases full : NC_IOV_MAX ≤ turn.iov.length ∨ SSIZE_MAX < turn.nsend
      · rw [if_pos full] at gathers
        rw [← Except.ok.inj gathers]
        exact ⟨frame.2, conn.m_smsg, frame.1⟩
      · have again : nextOf delOutput mem turn.send_msgq.length turn.conn =
            ({ conn with m_smsg := none }, none) := by
          rw [frame.1]
          exact sendNext_sending queue sending
        rw [if_neg full, again] at gathers
        rw [← Except.ok.inj gathers]
        exact ⟨frame.2, none, rfl⟩

/-- **`sendChain` sends one response**: it is the accounting of that response alone. -/
theorem sendChain_sending {answer : SendvAnswer} {rsp : Addr} {msg_pool : NcObjectPool NcMsg}
    {result : Sending × Int × List UInt8} (queue : conn.m_omsg_q = pmsg :: rest)
    (sending : conn.m_smsg ≠ none)
    (chain : sendChain (nextOf delOutput msg_pool.mem) sendDone answer 2 rsp ⟨conn, msg_pool⟩ =
      .ok result) :
    ∃ nsent ready err, result.1 =
      accounted sendDone rsp nsent
        ⟨{ conn with m_smsg := none, m_send_ready := ready, m_err := err }, msg_pool⟩ := by
  cases gathers : gather (nextOf delOutput msg_pool.mem) msg_pool.mem rsp 2 rsp ⟨conn, [], [], 0⟩ with
  | error fault =>
      unfold sendChain at chain
      rw [gathers] at chain
      cases chain
  | ok g =>
      obtain ⟨single, smsg, same⟩ := gather_sending queue sending gathers
      obtain ⟨ready, err, sent'⟩ := sent_eq answer g
      rw [sendChain_one (s := ⟨conn, msg_pool⟩) sendDone answer gathers single] at chain
      refine ⟨(sent answer g).2.toNat, ready, err, ?_⟩
      rw [← Except.ok.inj chain, sent', same]

end NcClientConn

end Nutcracker
