/-
**`msg_pool` and `c_pool`: recycled messages and connections.**

The forwarding code reads nine fields of a message and eight of a connection (`NcMsg.Agrees`,
`NcConn.Agrees`). The `reset()` that the pools run covers some of them only; an object agrees with a
new one after it exactly if the others hold their first values when it is freed (`NcMsg.Clean`,
`NcConn.Clean`).

* `NcMsg.agrees_reset`, `NcConn.agrees_reset` — what `reset()` leaves over.
* `recycling_of_runs` — **in every history, recycling equals construction exactly on clean objects**,
  and two runs that free clean objects only cannot tell them apart.
* `recycled_differs` — histories that hand out a message already done and a connection with the
  requests of another client.
-/

import Nutcracker.Conn.Model
import Nutcracker.Pool.Recycle

namespace Nutcracker

open Lib

namespace NcMsg

/-- The fields of a message that the forwarding code reads. -/
structure Agrees (a b : NcMsg) : Prop where
  done : a.m_done = b.m_done
  error : a.m_error = b.m_error
  noreply : a.m_noreply = b.m_noreply
  quit : a.m_quit = b.m_quit
  noforward : a.m_noforward = b.m_noforward
  swallow : a.m_swallow = b.m_swallow
  mlen : a.m_mlen = b.m_mlen
  peer : a.m_peer = b.m_peer
  mbufs : a.m_mbuf_queue = b.m_mbuf_queue

/-- The fields that `NcMsgBase::reset()` leaves as they are hold their first values. -/
structure Clean (a : NcMsg) : Prop where
  done : a.m_done = false
  error : a.m_error = false
  noreply : a.m_noreply = false
  quit : a.m_quit = false
  noforward : a.m_noforward = false
  swallow : a.m_swallow = false
  mbufs : a.m_mbuf_queue = []

/-- **What the reset of a message covers.** -/
theorem agrees_reset (a : NcMsg) : Agrees a.reset new ↔ a.Clean := by
  constructor
  · rintro ⟨done, error, noreply, quit, noforward, swallow, -, -, mbufs⟩
    exact ⟨done, error, noreply, quit, noforward, swallow, mbufs⟩
  · rintro ⟨done, error, noreply, quit, noforward, swallow, mbufs⟩
    exact ⟨done, error, noreply, quit, noforward, swallow, rfl, rfl, mbufs⟩

theorem Agrees.refl (a : NcMsg) : Agrees a a := ⟨rfl, rfl, rfl, rfl, rfl, rfl, rfl, rfl, rfl⟩

end NcMsg

namespace NcConn

/-- The fields of a connection that the forwarding code reads. -/
structure Agrees (a b : NcConn) : Prop where
  owner : a.m_owner = b.m_owner
  rmsg : a.m_rmsg = b.m_rmsg
  smsg : a.m_smsg = b.m_smsg
  imsg_q : a.m_imsg_q = b.m_imsg_q
  omsg_q : a.m_omsg_q = b.m_omsg_q
  eof : a.m_eof = b.m_eof
  done : a.m_done = b.m_done
  err : a.m_err = b.m_err

/-- The fields that `NcConnBase::reset()` leaves as they are hold their first values. -/
structure Clean (a : NcConn) : Prop where
  owner : a.m_owner = none
  rmsg : a.m_rmsg = none
  smsg : a.m_smsg = none
  imsg_q : a.m_imsg_q = []
  omsg_q : a.m_omsg_q = []

/-- **What the reset of a connection covers.** -/
theorem agrees_reset (a : NcConn) : Agrees a.baseReset new ↔ a.Clean := by
  constructor
  · rintro ⟨owner, rmsg, smsg, imsg_q, omsg_q, -, -, -⟩
    exact ⟨owner, rmsg, smsg, imsg_q, omsg_q⟩
  · rintro ⟨owner, rmsg, smsg, imsg_q, omsg_q⟩
    exact ⟨owner, rmsg, smsg, imsg_q, omsg_q, rfl, rfl, rfl⟩

theorem Agrees.refl (a : NcConn) : Agrees a a := ⟨rfl, rfl, rfl, rfl, rfl, rfl, rfl, rfl⟩

end NcConn

/-- The histories of `msg_pool`. -/
def msgPoolSystem : System (NcObjectPool (Traced NcMsg)) (PoolOp (Traced NcMsg)) :=
  poolSystem (.new .new) (.reset NcMsg.reset) Traced.Use

/-- The histories of `c_pool`. -/
def connPoolSystem : System (NcObjectPool (Traced NcConn)) (PoolOp (Traced NcConn)) :=
  poolSystem (.new .new) (.reset NcConn.baseReset) Traced.Use

/-- **Messages and connections in every history of their pools**: one history of each pool, and two
runs side by side on each. -/
theorem recycling_of_runs (messages : NcObjectPool (Traced NcMsg)) (conns : NcObjectPool (Traced NcConn))
    (messageRuns : NcObjectPool NcMsg × NcObjectPool NcMsg)
    (connRuns : NcObjectPool NcConn × NcObjectPool NcConn) :
    (msgPoolSystem.Reach messages → ∀ o rest, messages.m_queue = o :: rest →
      (NcMsg.Agrees ((messages.alloc (.new .new)).1.mem (messages.alloc (.new .new)).2).object .new ↔
        (messages.mem o).freed.Clean)) ∧
    (connPoolSystem.Reach conns → ∀ o rest, conns.m_queue = o :: rest →
      (NcConn.Agrees ((conns.alloc (.new .new)).1.mem (conns.alloc (.new .new)).2).object .new ↔
        (conns.mem o).freed.Clean)) ∧
    (((twinSystem NcMsg.new NcMsg.reset NcMsg.Agrees).guarded (FreesClean NcMsg.Clean)).Reach
      messageRuns → Twins NcMsg.new NcMsg.Agrees messageRuns) ∧
    (((twinSystem NcConn.new NcConn.baseReset NcConn.Agrees).guarded (FreesClean NcConn.Clean)).Reach
      connRuns → Twins NcConn.new NcConn.Agrees connRuns) := by
  refine ⟨fun reached o rest queue => ?_, fun reached o rest queue => ?_, fun reached => ?_,
    fun reached => ?_⟩
  · exact Traced.recycled_iff NcMsg.agrees_reset reached queue
  · exact Traced.recycled_iff NcConn.agrees_reset reached queue
  · exact .of_guarded (.refl _) NcMsg.agrees_reset reached
  · exact .of_guarded (.refl _) NcConn.agrees_reset reached

/-! ### An answered request and a closed client -/

/-- A request that was answered: `responseForward` has set `m_done_`. -/
def answeredRequest : Traced NcMsg := ⟨{ NcMsg.new with m_mlen := 4, m_done := true }, .new⟩

/-- A client connection as `close` frees it, with a request still in its queue. -/
def closedClient : Traced NcConn := ⟨{ NcConn.new with m_omsg_q := [0] }, .new⟩

/-- A pool whose first object was taken, used up to the value given and freed. -/
def usedAndFreed {α : Type} (object : α) (reset : α → α) (value : Traced α) :
    NcObjectPool (Traced α) :=
  (((NcObjectPool.default (fun _ => .new object) none).alloc (.new object)).1.put 0
    fun _ => value).free (.reset reset) (some 0)

theorem usedAndFreed_reached {α : Type} (object : α) (reset : α → α) (value : α) :
    (poolSystem (.new object) (.reset reset) Traced.Use).Reach
      (usedAndFreed object reset ⟨value, object⟩) := by
  let start : NcObjectPool (Traced α) := .default (fun _ => .new object) none
  have begins : (poolSystem (.new object) (.reset reset) Traced.Use).Reach start := .start ⟨_, _, rfl⟩
  have used : (start.alloc (.new object)).1.InUse 0 := ⟨Nat.zero_lt_one, List.not_mem_nil⟩
  have take : (poolSystem (.new object) (.reset reset) Traced.Use).step start .alloc
      (start.alloc (.new object)).1 := rfl
  have use : (poolSystem (.new object) (.reset reset) Traced.Use).step (start.alloc (.new object)).1
      (.use 0 ⟨value, object⟩) ((start.alloc (.new object)).1.put 0 fun _ => ⟨value, object⟩) := by
    have isNew : (start.alloc (.new object)).1.mem 0 = .new object := NcObjectPool.mem_alloc _ start
    refine ⟨used, ?_, rfl⟩
    rw [isNew]
    rfl
  have back : (poolSystem (.new object) (.reset reset) Traced.Use).step
      ((start.alloc (.new object)).1.put 0 fun _ => ⟨value, object⟩) (.free 0)
      (usedAndFreed object reset ⟨value, object⟩) := ⟨used, rfl⟩
  exact ((begins.next take).next use).next back

/-- A clean message, taken, received into and freed, is as good as a new one; an answered request is
not. -/
theorem recycling_of_two :
    NcMsg.Agrees (((usedAndFreed NcMsg.new NcMsg.reset ⟨{ NcMsg.new with m_mlen := 4 }, .new⟩).alloc
      (.new .new)).1.mem 0).object .new ∧
    ¬ NcMsg.Agrees (((usedAndFreed NcMsg.new NcMsg.reset answeredRequest).alloc
      (.new .new)).1.mem 0).object .new := by
  let blank : NcObjectPool NcMsg × NcObjectPool NcMsg := (.default (fun _ => .new) none, .default
    (fun _ => .new) none)
  let blankConns : NcObjectPool NcConn × NcObjectPool NcConn := (.default (fun _ => .new) none,
    .default (fun _ => .new) none)
  obtain ⟨clean, -⟩ := recycling_of_runs
    (usedAndFreed NcMsg.new NcMsg.reset ⟨{ NcMsg.new with m_mlen := 4 }, .new⟩)
    (usedAndFreed NcConn.new NcConn.baseReset closedClient) blank blankConns
  obtain ⟨done, -⟩ := recycling_of_runs (usedAndFreed NcMsg.new NcMsg.reset answeredRequest)
    (usedAndFreed NcConn.new NcConn.baseReset closedClient) blank blankConns
  refine ⟨(clean (usedAndFreed_reached _ _ _) 0 [] rfl).mpr ?_, fun agrees => ?_⟩
  · exact ⟨rfl, rfl, rfl, rfl, rfl, rfl, rfl⟩
  · have isClean := (done (usedAndFreed_reached _ _ _) 0 [] rfl).mp agrees
    have isDone : true = false := isClean.done
    cases isDone

/-- **Histories that hand out used objects**: a message that is done before it is received, and a
connection with a request of the client before. -/
theorem recycled_differs :
    (∃ p, msgPoolSystem.Reach p ∧
      ((p.alloc (.new .new)).1.mem (p.alloc (.new .new)).2).object.m_done = true ∧
      NcMsg.new.m_done = false) ∧
    (∃ p, connPoolSystem.Reach p ∧
      ((p.alloc (.new .new)).1.mem (p.alloc (.new .new)).2).object.m_omsg_q = [0] ∧
      NcConn.new.m_omsg_q = []) :=
  ⟨⟨usedAndFreed .new .reset answeredRequest, usedAndFreed_reached _ _ _, rfl, rfl⟩,
    ⟨usedAndFreed .new .baseReset closedClient, usedAndFreed_reached _ _ _, rfl, rfl⟩⟩

end Nutcracker
