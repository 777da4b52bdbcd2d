/-
**Messages and connections, as data.**

`NcMsg` and `NcConn` with the fields that receiving, forwarding and sending read, what `new`
constructs, and the `reset()` of each class. A pool is typed by a base class, and `reset()` is not
virtual: `msg_pool` runs `NcMsgBase::reset()`, and `c_pool` runs `NcConnBase::reset()`, which leaves
the fields of `NcConn` as they are.

A message owns its buffers, so its queue holds them by value. A flag the source declares `unsigned`
and sets to 0 or 1 is a `Bool`. The identifiers, timestamps and byte counts that only the log lines
read are left out.

* `freeMsg` — `NcConn::freeMsg`, on the pool of messages.
* `remove_untracked` — the removal from the timeout tree that `freeMsg` makes first changes nothing:
  no message is ever inserted there.
-/

import Nutcracker.Mbuf.Model
import Nutcracker.Pool.ObjectPool

namespace Nutcracker

/-- `NcMsg`. The field `data` of its tree node is the client connection a request came from. -/
structure NcMsg where
  data : Ptr
  m_peer : Ptr
  m_mlen : Nat
  m_err : Int
  m_error : Bool
  m_quit : Bool
  m_noreply : Bool
  m_noforward : Bool
  m_done : Bool
  m_swallow : Bool
  m_mbuf_queue : List NcMbuf

namespace NcMsg

/-- `new NcMsg()`. -/
def new : NcMsg where
  data := none
  m_peer := none
  m_mlen := 0
  m_err := 0
  m_error := false
  m_quit := false
  m_noreply := false
  m_noforward := false
  m_done := false
  m_swallow := false
  m_mbuf_queue := []

/-- `NcMsgBase::reset()`. -/
def reset (msg : NcMsg) : NcMsg :=
  { msg with data := none, m_peer := none, m_mlen := 0, m_err := 0 }

/-- `freeMbuf`. -/
def freeMbuf (msg : NcMsg) : NcMsg := { msg with m_mbuf_queue := [] }

def setData (conn : Ptr) (msg : NcMsg) : NcMsg := { msg with data := conn }

def setLength (len : Nat) (msg : NcMsg) : NcMsg := { msg with m_mlen := len }

def empty (msg : NcMsg) : Bool := msg.m_mlen == 0

end NcMsg

/-- `NcQueue::remove`: every occurrence goes. -/
def NcQueue.remove (v : Addr) (q : List Addr) : List Addr := q.filter fun x => x != v

theorem NcQueue.mem_remove {v x : Addr} {q : List Addr} : x ∈ remove v q ↔ x ∈ q ∧ x ≠ v := by
  unfold remove
  rw [List.mem_filter, bne_iff_ne]

theorem NcQueue.remove_of_not_mem {v : Addr} {q : List Addr} (fresh : v ∉ q) : remove v q = q := by
  unfold remove
  rw [List.filter_eq_self]
  intro x member
  rw [bne_iff_ne]
  exact fun same => fresh (same ▸ member)

theorem NcQueue.remove_head {v : Addr} {q : List Addr} (fresh : v ∉ q) : remove v (v :: q) = q := by
  have others := remove_of_not_mem fresh
  unfold remove at *
  rw [List.filter_cons_of_neg (by rw [bne_self_eq_false]; exact Bool.false_ne_true), others]

theorem NcQueue.nodup_remove {v : Addr} {q : List Addr} (distinct : q.Nodup) :
    (remove v q).Nodup := distinct.filter _

/-- Removing a member that occurs once shortens the queue by one. -/
theorem NcQueue.length_remove {v : Addr} {q : List Addr} (distinct : q.Nodup) (member : v ∈ q) :
    (remove v q).length = q.length - 1 := by
  unfold remove
  rw [← distinct.erase_eq_filter, List.length_erase_of_mem member]

/-- `NcConn`, a client or a server connection. -/
structure NcConn where
  m_sd : Int
  m_err : Int
  m_recv_ready : Bool
  m_send_ready : Bool
  m_eof : Bool
  m_done : Bool
  m_owner : Ptr
  m_connecting : Bool
  m_connected : Bool
  m_imsg_q : List Addr
  m_omsg_q : List Addr
  m_rmsg : Ptr
  m_smsg : Ptr
  deriving DecidableEq

namespace NcConn

/-- `NcConnBase::reset()`. -/
def baseReset (conn : NcConn) : NcConn :=
  { conn with
    m_sd := -1, m_err := 0, m_recv_ready := false, m_send_ready := false, m_eof := false,
    m_done := false }

/-- `NcConn::reset()`. -/
def reset (conn : NcConn) : NcConn :=
  { conn.baseReset with
    m_owner := none, m_connecting := false, m_connected := false, m_rmsg := none, m_smsg := none,
    m_imsg_q := [], m_omsg_q := [] }

/-- Zeroed storage. -/
def zeroed : NcConn where
  m_sd := 0
  m_err := 0
  m_recv_ready := false
  m_send_ready := false
  m_eof := false
  m_done := false
  m_owner := none
  m_connecting := false
  m_connected := false
  m_imsg_q := []
  m_omsg_q := []
  m_rmsg := none
  m_smsg := none

/-- `new NcClientConn()`, `new NcServerConn()`: the constructor of `NcConn` calls its `reset()`. -/
def new : NcConn := zeroed.reset

/-! ### Freeing a message -/

/-- Give a message's buffers back and queue the message itself. -/
def release (msg : Addr) (msg_pool : NcObjectPool NcMsg) : NcObjectPool NcMsg :=
  (msg_pool.put msg NcMsg.freeMbuf).free NcMsg.reset (some msg)

/-- `freeMsg(msg, force)` on a connection with the given owner: with `force` the peer goes too. The
message's removal from the timeout tree is `remove_untracked`. -/
def freeMsg (m_owner : Ptr) (msg : Addr) (force : Bool) (msg_pool : NcObjectPool NcMsg) :
    NcObjectPool NcMsg :=
  if m_owner = none then msg_pool
  else
    match force, (msg_pool.mem msg).m_peer with
    | true, some pmsg =>
        release msg <| release pmsg <|
          (msg_pool.put msg fun m => { m with m_peer := none }).put pmsg
            fun m => { m with m_peer := none }
    | _, _ => release msg msg_pool

theorem mem_release {msg x : Addr} {msg_pool : NcObjectPool NcMsg} (other : x ≠ msg) :
    (release msg msg_pool).mem x = msg_pool.mem x := by
  show Function.update (Function.update msg_pool.mem msg _) msg _ x = _
  rw [Function.update_of_ne other, Function.update_of_ne other]

/-- Freeing a message without a peer touches no other message. -/
theorem mem_freeMsg {m_owner : Ptr} {msg x : Addr} {force : Bool} {msg_pool : NcObjectPool NcMsg}
    (alone : (msg_pool.mem msg).m_peer = none) (other : x ≠ msg) :
    (freeMsg m_owner msg force msg_pool).mem x = msg_pool.mem x := by
  unfold freeMsg
  rw [alone]
  split
  · rfl
  · cases force with
    | false => exact mem_release other
    | true => exact mem_release other

/-- A message without a peer, freed or not, still has none. -/
theorem peer_freeMsg {m_owner : Ptr} {msg : Addr} {force : Bool} {msg_pool : NcObjectPool NcMsg}
    (alone : (msg_pool.mem msg).m_peer = none) :
    ((freeMsg m_owner msg force msg_pool).mem msg).m_peer = none := by
  have freed : ((release msg msg_pool).mem msg).m_peer = none := by
    show (((msg_pool.put msg NcMsg.freeMbuf).put msg NcMsg.reset).mem msg).m_peer = none
    rw [NcObjectPool.mem_put_self]
    rfl
  unfold freeMsg
  rw [alone]
  split
  · exact alone
  · cases force with
    | false => exact freed
    | true => exact freed

/-- **A node that was never inserted is not removed**: its links are `NULL`, and so is the sentinel
of the timeout tree. -/
theorem remove_untracked (mem : Addr → RbNode) (fuel : Nat) (msg : Addr) (conn : Ptr)
    (reset : mem msg = { RbNode.reset with data := conn }) :
    (NcRbTree.default mem).remove fuel (some msg) = .ok (NcRbTree.default mem) := by
  have links : (NcRbTree.default mem).mem msg = { RbNode.reset with data := conn } := reset
  have substitute : (NcRbTree.default mem).substitute fuel (some msg) = .ok (some msg, none) := by
    unfold NcRbTree.substitute NcRbTree.child
    rw [NcRbTree.load_some, links]
    rfl
  have parent : (NcRbTree.default mem).parent (some msg) = .ok none := by
    unfold NcRbTree.parent
    rw [NcRbTree.load_some, links]
    rfl
  have notRoot : (some msg : Ptr) ≠ (NcRbTree.default mem).m_root := nofun
  unfold NcRbTree.remove
  rw [if_neg (Option.some_ne_none msg), substitute, NcRbTree.ok_bind]
  simp only [reduceCtorEq, if_false, if_neg notRoot, parent, NcRbTree.ok_bind, if_true,
    NcRbTree.pure_ok]

end NcConn

end Nutcracker
