/-
**What receiving does to its own connection.**

Apart from the read itself, a turn of `recvMsg` sets the current message of its connection, changes the
queue of the requests that wait, and sets flags. `Mends` is a preorder on connections that allows these
changes.

* `Mends.clientRecvNext`, `Mends.clientRecvDone` — the functions of a client connection keep such a
  preorder.
* `Mends.serverRecvNext`, `Mends.serverRecvDone` — so do those of a server connection.
-/

import Nutcracker.Proxy.Looks

namespace Nutcracker

/-- **The changes of a connection that a preorder allows.** -/
structure NcConn.Mends (K : NcConn → NcConn → Prop) : Prop where
  refl : ∀ conn, K conn conn
  trans : ∀ {a b d}, K a b → K b d → K a d
  rmsg : ∀ conn rmsg, K conn { conn with m_rmsg := rmsg }
  omsg_q : ∀ conn queue, K conn { conn with m_omsg_q := queue }
  err : ∀ conn err, K conn { conn with m_err := err }
  done : ∀ conn, K conn { conn with m_done := true }
  quit : ∀ conn, K conn { conn with m_eof := true, m_recv_ready := false }

namespace Proxy

theorem client_pick (choice : Choice) (p : Proxy) (c : Addr) :
    (choice.pick p).1.client c = p.client c :=
  congrArg (fun pool => pool.mem c) (pick_frame choice p).2.1

theorem client_requestForwardError (sys : ForwardAnswers) (c m d : Addr) (p : Proxy) :
    (p.requestForwardError sys c m).client d = p.client d := by
  unfold requestForwardError
  dsimp only
  split
  · rfl
  · cases sys.client <;> rfl

end Proxy

namespace NcConn.Mends

open Proxy

variable {K : NcConn → NcConn → Prop} {p : Proxy}

/-! ### Clients -/

theorem putClient (c : Addr) {f : NcConn → NcConn} (allowed : ∀ conn, K conn (f conn)) (p : Proxy) :
    K (p.client c) ((p.putClient c f).client c) := by
  rw [client_putClient]
  exact allowed (p.client c)

section Client

variable (mends : Mends K) (c : Addr)

include mends

theorem client_dropIncomplete (p : Proxy) :
    K (p.client c) ((p.dropIncomplete (Proxy.putClient c) (p.client c) true).client c) := by
  unfold dropIncomplete
  cases (p.client c).m_rmsg with
  | none => exact mends.refl _
  | some m => exact putClient c (fun conn => mends.rmsg conn none) p

/-- **`recvNext` of a client.** -/
theorem clientRecvNext (alloc : Bool) (p : Proxy) :
    K (p.client c) ((p.clientRecvNext c alloc).1.client c) := by
  have dropped := mends.client_dropIncomplete c p
  unfold Proxy.clientRecvNext
  split
  · dsimp only
    split
    · exact dropped
    · exact mends.trans dropped (putClient c mends.done _)
  · cases (p.client c).m_rmsg with
    | some m => exact mends.refl _
    | none =>
        cases alloc with
        | false => exact mends.refl _
        | true =>
            simp only [if_true, client_putMsg]
            exact putClient c (fun conn => mends.rmsg conn _) p.allocMsg.1

theorem requestFilter (m : Addr) (p : Proxy) :
    K (p.client c) ((p.requestFilter c m).1.client c) := by
  unfold Proxy.requestFilter
  split
  · exact mends.refl _
  · split
    · exact putClient c mends.quit p
    · exact mends.refl _

theorem requestForward (choice : Choice) (sys : ForwardAnswers) (m : Addr) (p : Proxy) :
    K (p.client c) ((p.requestForward choice.pick sys c m).client c) := by
  unfold Proxy.requestForward
  dsimp only
  have queued : K (p.client c) ((if (p.msg m).m_noreply then p
      else p.putClient c fun conn => { conn with m_omsg_q := conn.m_omsg_q ++ [m] }).client c) := by
    split
    · exact mends.refl _
    · exact putClient c (fun conn => mends.omsg_q conn _) p
  generalize (if (p.msg m).m_noreply then p
    else p.putClient c fun conn => { conn with m_omsg_q := conn.m_omsg_q ++ [m] }) = q at queued
  refine mends.trans queued ?_
  rw [← client_pick choice q c]
  cases (choice.pick q).2 with
  | none =>
      rw [client_requestForwardError]
      exact mends.refl _
  | some s =>
      dsimp only
      split
      · cases sys.server with
        | none => exact mends.refl _
        | some err =>
            rw [client_putServer, client_requestForwardError]
            exact mends.refl _
      · exact mends.refl _

/-- **`recvDone` of a client.** -/
theorem clientRecvDone (choice : Choice) (sys : ForwardAnswers) (m : Addr) (p : Proxy) :
    K (p.client c) ((p.clientRecvDone choice.pick sys c m).client c) := by
  unfold Proxy.clientRecvDone
  have unset := putClient c (fun conn => mends.rmsg conn none) p
  generalize p.putClient c (fun conn => { conn with m_rmsg := none }) = q at unset
  refine mends.trans unset (mends.trans (mends.requestFilter c m q) ?_)
  dsimp only
  split
  · exact mends.refl _
  · rw [← client_did (.read c m) (q.requestFilter c m).1 c]
    generalize (q.requestFilter c m).1.did (.read c m) = q
    split
    · have replied : K (q.client c) ((q.requestMakeReply c m).client c) := by
        unfold requestMakeReply
        exact putClient c (fun conn => mends.omsg_q conn _) _
      refine mends.trans replied ?_
      cases sys.client with
      | none => exact mends.refl _
      | some err => exact putClient c (fun conn => mends.err conn err) _
    · exact mends.requestForward c choice sys m q

end Client

/-! ### Servers -/

theorem putServer (s : Addr) {f : NcConn → NcConn} (allowed : ∀ conn, K conn (f conn)) (p : Proxy) :
    K (p.server s) ((p.putServer s f).server s) := by
  rw [server_putServer]
  exact allowed (p.server s)

section Server

variable (mends : Mends K) (s : Addr)

include mends

theorem server_dropIncomplete (p : Proxy) :
    K (p.server s) ((p.dropIncomplete (Proxy.putServer s) (p.server s) false).server s) := by
  unfold dropIncomplete
  cases (p.server s).m_rmsg with
  | none => exact mends.refl _
  | some m => exact putServer s (fun conn => mends.rmsg conn none) p

/-- **`recvNext` of a server connection.** -/
theorem serverRecvNext (alloc : Bool) (p : Proxy) :
    K (p.server s) ((p.serverRecvNext s alloc).1.server s) := by
  unfold Proxy.serverRecvNext
  split
  · exact mends.trans (mends.server_dropIncomplete s p) (putServer s mends.done _)
  · cases (p.server s).m_rmsg with
    | some m => exact mends.refl _
    | none =>
        cases alloc with
        | false => exact mends.refl _
        | true => exact putServer s (fun conn => mends.rmsg conn _) p.allocMsg.1

theorem responseForward (sys : ForwardAnswers) (m : Addr) (p : Proxy) :
    K (p.server s) ((p.responseForward sys s m).server s) := by
  cases queue : (p.server s).m_omsg_q with
  | nil =>
      unfold Proxy.responseForward
      dsimp only
      rw [server_did, queue]
      exact mends.refl _
  | cons pmsg rest =>
      have linked : K (p.server s) ((p.link s m pmsg).server s) := by
        unfold link
        rw [server_did, server_putMsg, server_putMsg]
        exact putServer s (fun conn => mends.omsg_q conn _)
          (p.did (.looked .responseForward false))
      rw [responseForward_eq sys queue]
      cases (p.msg pmsg).data with
      | none => exact linked
      | some c =>
          have woken : ((p.link s m pmsg).wake sys c).server s = (p.link s m pmsg).server s := by
            unfold wake
            dsimp only
            split
            · rfl
            · cases sys.client <;> rfl
          dsimp only
          rw [woken]
          exact linked

/-- **`recvDone` of a server connection.** -/
theorem serverRecvDone (sys : ForwardAnswers) (m : Addr) (p : Proxy) :
    K (p.server s) ((p.serverRecvDone sys s m).server s) := by
  unfold Proxy.serverRecvDone
  have unset := putServer s (fun conn => mends.rmsg conn none) p
  generalize p.putServer s (fun conn => { conn with m_rmsg := none }) = q at unset
  have filtered : (q.responseFilter s m).1.server s = q.server s := by
    unfold responseFilter
    dsimp only
    split
    · rfl
    · split
      · rfl
      · rfl
  dsimp only
  split
  · rw [filtered]
    exact unset
  · have forwarded := mends.responseForward s sys m (q.responseFilter s m).1
    rw [filtered] at forwarded
    exact mends.trans unset forwarded

end Server

end NcConn.Mends

end Nutcracker
