/-
**Responses that nobody waits for.**

`NcClientConn::close` marks a request that is not done with `m_swallow`, and nothing reads that mark:
`responseFilter` and `responseForward` link the response as any other, to a request whose client
connection may serve another client by now. For a response without any request `responseFilter` frees
it, and then sets the flags of the message in place of those of the connection.

* `swallow_ignored` — **a swallowed response is linked, and nothing goes back to `msg_pool`**.
* `stray_marked` — **a stray response leaves the connection as it is, and marks the freed message**.
* `stray_turn` — so `callback` does not close the connection.
-/

import Nutcracker.Proxy.Isolation

namespace Nutcracker

open Lib

namespace Proxy

variable {p q : Proxy} {s m pmsg : Addr} {rest : List Addr}

/-! ### Swallowed responses -/

/-- What should become of the response to a swallowed request, and of the request: the request leaves
the queue, both messages go back to `msg_pool`, and no client connection changes. -/
structure Swallowed (s m pmsg : Addr) (rest : List Addr) (p q : Proxy) : Prop where
  queue : (q.server s).m_omsg_q = rest
  freed : q.msg_pool.m_queue.Perm (p.msg_pool.m_queue ++ [pmsg, m])
  clients : q.c_pool = p.c_pool

/-- **`responseForward` of a response**: the request leaves the queue of the server connection, `m_err`
of its client may be set, and no message is freed. -/
theorem responseForward_spec (sys : ForwardAnswers) (queue : (p.server s).m_omsg_q = pmsg :: rest)
    (m : Addr) :
    (p.responseForward sys s m).msg_pool.m_queue = p.msg_pool.m_queue ∧
      ((p.responseForward sys s m).server s).m_omsg_q = NcQueue.remove pmsg (pmsg :: rest) ∧
      ∀ c err, (p.msg pmsg).data = some c → (p.client c).m_omsg_q ≠ [] → sys.client = some err →
        ((p.responseForward sys s m).client c).m_err = err := by
  have removed : ((p.link s m pmsg).server s).m_omsg_q = NcQueue.remove pmsg (pmsg :: rest) := by
    rw [← queue]
    exact congrArg NcConn.m_omsg_q (server_putServer s (fun conn =>
      { conn with m_omsg_q := NcQueue.remove pmsg conn.m_omsg_q }) p)
  rw [responseForward_eq sys queue]
  cases (p.msg pmsg).data with
  | none => exact ⟨rfl, removed, nofun⟩
  | some c =>
      have same : (p.link s m pmsg).client c = p.client c := rfl
      dsimp only
      unfold wake
      dsimp only
      split
      next idle => exact ⟨rfl, removed, fun d err isC waits =>
        absurd (Option.some.inj isC ▸ idle) waits⟩
      next =>
        cases sys.client with
        | none => exact ⟨rfl, removed, nofun⟩
        | some err =>
            refine ⟨rfl, removed, fun d err' isC _ fails => ?_⟩
            rw [← Option.some.inj isC, ← Option.some.inj fails, client_putClient]

/-- **A swallowed response is linked.** Whether `close` has marked the request at the head or not, the
response that arrives takes it out of the queue and goes on as the response to its client, whose
`m_err` it may set; neither message is freed. -/
theorem swallow_ignored (sys : ForwardAnswers) (queue : (p.server s).m_omsg_q = pmsg :: rest)
    (full : ¬ (p.msg m).empty = true) :
    ¬ Swallowed s m pmsg rest p (p.serverRecvDone sys s m) ∧
      (p.serverRecvDone sys s m).msg_pool.m_queue = p.msg_pool.m_queue ∧
      ((p.serverRecvDone sys s m).server s).m_omsg_q = NcQueue.remove pmsg (pmsg :: rest) ∧
      ∀ c err, (p.msg pmsg).data = some c → (p.client c).m_omsg_q ≠ [] → sys.client = some err →
        ((p.serverRecvDone sys s m).client c).m_err = err := by
  unfold serverRecvDone
  dsimp only
  generalize started : (p.putServer s fun conn => { conn with m_rmsg := none }) = q
  have waits : (q.server s).m_omsg_q = pmsg :: rest := by
    rw [← started, server_putServer]
    exact queue
  have full' : ¬ (q.msg m).empty = true := started ▸ full
  rw [responseFilter_request full' (waits ▸ List.cons_ne_nil pmsg rest)]
  dsimp only
  rw [if_neg Bool.false_ne_true]
  obtain ⟨pool, removed, woken⟩ := responseForward_spec (s := s)
    (p := (q.did (.responded s m)).did (.looked .responseFilter false)) sys waits m
  have same : ((q.did (.responded s m)).did (.looked .responseFilter false)).msg_pool = p.msg_pool ∧
      ((q.did (.responded s m)).did (.looked .responseFilter false)).c_pool = p.c_pool :=
    started ▸ ⟨rfl, rfl⟩
  rw [same.1] at pool
  unfold msg client at woken ⊢
  rw [same.1, same.2] at woken
  refine ⟨fun swallowed => ?_, pool, removed, woken⟩
  have length := swallowed.freed.length_eq
  rw [pool, List.length_append] at length
  exact absurd (Nat.left_eq_add.mp length) (Nat.succ_ne_zero 1)

/-- The response arrives when the client object serves the next client, and `addOutput` fails. -/
def reusedFailed : Proxy :=
  (recvTurn (serverReceiver ⟨0, none, some 9⟩ 0) freshMbuf (.bytes [8]) reused).1

/-- The same response, when it is read. -/
def reusedRead : Proxy :=
  reused.allocMsg.1.putMsg reused.allocMsg.2 fun msg => { msg with m_mlen := 1 }

theorem swallow_ignored_reusedRead :
    (reusedRead.serverRecvDone ⟨0, none, some 9⟩ 0 1).msg_pool.m_queue = [] ∧
      ((reusedRead.serverRecvDone ⟨0, none, some 9⟩ 0 1).client 0).m_err = 9 := by
  have queue : (reusedRead.server 0).m_omsg_q = [0] := by decide
  have full : ¬ (reusedRead.msg 1).empty = true := by decide
  obtain ⟨-, pool, -, woken⟩ := swallow_ignored ⟨0, none, some 9⟩ queue full
  refine ⟨pool.trans (by decide), woken 0 9 (by decide) (by decide) rfl⟩

/-- **The response to the request of a client that is gone sets `m_err` of the next client**, and
neither message goes back to `msg_pool`. -/
theorem error_of_another :
    (proxyRuns 1024).Reach reused ∧ (reused.msg 0).m_swallow = true ∧
      (reused.server 0).m_omsg_q = [0] ∧ reused.Open 0 ∧ (reused.client 0).m_err = 0 ∧
      (proxyRuns 1024).Reach reusedFailed ∧ reusedFailed.msg_pool.m_queue = [] ∧
      (reusedFailed.client 0).m_err = 9 := by
  have failed : (proxyRuns 1024).Reach reusedFailed :=
    reach_reused.next (a := .serverRecv 0 ⟨0, none, some 9⟩ freshMbuf (.bytes [8])) ⟨by decide, rfl⟩
  refine ⟨reach_reused, ?_, ?_, ?_, ?_, failed, ?_, ?_⟩ <;> decide

/-! ### Stray responses -/

/-- What should become of a stray response: it is freed as `reset` leaves it, and the connection is
marked so that `callback` closes it. -/
structure StrayHandled (s m : Addr) (p q : Proxy) : Prop where
  freed : q.msg_pool.m_queue = p.msg_pool.m_queue ++ [m]
  err : (q.server s).m_err = EINVAL
  done : (q.server s).m_done = true
  reset : q.msg m = (p.msg m).freeMbuf.reset

/-- `responseFilter` frees a stray response, and then writes to it. -/
theorem responseFilter_of_stray (stray : (p.server s).m_omsg_q = [])
    (full : ¬ (p.msg m).empty = true) :
    p.responseFilter s m =
      ((((p.did (.responded s m)).did (.looked .responseFilter true)).freeMsg (p.server s).m_owner m
        false).putMsg m fun msg => { msg with m_err := EINVAL, m_done := true }, true) := by
  unfold responseFilter
  rw [if_neg full]
  dsimp only
  rw [show (p.did (.responded s m)).server s = p.server s from rfl, List.isEmpty_iff.mpr stray]
  exact if_pos stray

/-- **A stray response marks itself.** `responseFilter` leaves the connection as it is, and the message
that it has freed gets `m_err` and `m_done`. -/
theorem stray_marked (stray : (p.server s).m_omsg_q = []) (full : ¬ (p.msg m).empty = true) :
    ¬ StrayHandled s m p (p.responseFilter s m).1 ∧ (p.responseFilter s m).2 = true ∧
      (p.responseFilter s m).1.server s = p.server s ∧
      ((p.responseFilter s m).1.msg m).m_err = EINVAL ∧
      ((p.responseFilter s m).1.msg m).m_done = true := by
  have filtered := responseFilter_of_stray stray full
  have marked : ((p.responseFilter s m).1.msg m).m_err = EINVAL := by
    rw [filtered, msg_putMsg]
  have done : ((p.responseFilter s m).1.msg m).m_done = true := by
    rw [filtered, msg_putMsg]
  refine ⟨fun handled => ?_, by rw [filtered], by rw [filtered]; rfl, marked, done⟩
  rw [handled.reset] at marked
  exact absurd marked (show (0 : Int) ≠ EINVAL by decide)

/-- `recvDone` of a stray response changes `m_rmsg` of the connection only. -/
theorem serverRecvDone_stray (sys : ForwardAnswers) (stray : (p.server s).m_omsg_q = [])
    (full : ¬ (p.msg m).empty = true) :
    (p.serverRecvDone sys s m).server s = { p.server s with m_rmsg := none } := by
  unfold serverRecvDone
  dsimp only
  generalize started : (p.putServer s fun conn => { conn with m_rmsg := none }) = q
  have conn : q.server s = { p.server s with m_rmsg := none } := by
    rw [← started, server_putServer]
  have stray' : (q.server s).m_omsg_q = [] := by
    rw [conn]
    exact stray
  have full' : ¬ (q.msg m).empty = true := started ▸ full
  rw [responseFilter_of_stray stray' full', if_pos rfl, ← conn]
  rfl

/-- A read of some bytes. -/
theorem recv_data {answer : ReadAnswer} {size : Nat} (data : HasData size answer) (conn : NcConn) :
    ∃ ready bytes, bytes ≠ [] ∧
      conn.recv answer size = ({ conn with m_recv_ready := ready }, .ok bytes) := by
  rcases recv_cases answer size conn with ⟨-, bytes, ready, some, read⟩ | ⟨nothing, -⟩
  · exact ⟨ready, bytes, some, read⟩
  · exact absurd data nothing

theorem received_stray (sys : ForwardAnswers) (before : List NcMbuf) (mbuf : NcMbuf)
    {bytes : List UInt8} (some : bytes ≠ []) (m : Addr) (stray : (p.server s).m_omsg_q = [])
    (eof : (p.server s).m_eof = false) (fine : (p.server s).m_err = 0) :
    (received (serverReceiver sys s) before mbuf bytes m p).2 = NC_OK ∧
      (received (serverReceiver sys s) before mbuf bytes m p).1.server s =
        { p.server s with m_rmsg := none } := by
  unfold received
  dsimp only
  generalize start : (p.putMsg m fun msg =>
    { msg with m_mbuf_queue := before ++ [mbuf.copy bytes], m_mlen := bytes.length }) = q
  have conn : q.server s = p.server s := start ▸ rfl
  have full : ¬ (q.msg m).empty = true := by
    rw [← start, msg_putMsg]
    exact fun empty => some (List.length_eq_zero_iff.mp (beq_iff_eq.mp empty))
  obtain ⟨t, parsed, dropped⟩ : ∃ t, parse (serverReceiver sys s) m q = (t, NC_OK) ∧
      t.server s = { p.server s with m_rmsg := none } := by
    have drops (r : Proxy) (same : r.server s = p.server s) (msg : r.msg m = q.msg m) :
        (r.serverRecvDone sys s m).server s = { p.server s with m_rmsg := none } := by
      rw [← same]
      exact serverRecvDone_stray sys (same ▸ stray) (msg ▸ full)
    unfold parse
    rw [if_neg full]
    have after := drops ((q.did (.looked .parse (q.msg m).m_mbuf_queue.isEmpty)).did
      (.looked .parseDone (q.msg m).m_mbuf_queue.isEmpty)) conn rfl
    exact ⟨_, Prod.ext rfl (if_neg (not_not.mpr ((congrArg NcConn.m_err after).trans fine))), after⟩
  have still : t.serverRecvNext s false = (t, none) := by
    unfold serverRecvNext
    rw [dropped]
    dsimp only
    rw [eof, if_neg Bool.false_ne_true, if_neg Bool.false_ne_true]
  rw [parsed, if_pos rfl]
  refine ⟨rfl, ?_⟩
  show (t.serverRecvNext s false).1.server s = _
  rw [still]
  exact dropped

/-- **The connection stays open**: after the whole turn in which a stray response arrives on a
connection without an error, `callback` does not close it. -/
theorem stray_turn (sys : ForwardAnswers) (fresh : NcMbuf) {answer : ReadAnswer}
    (stray : (p.server s).m_omsg_q = []) (eof : (p.server s).m_eof = false)
    (done : (p.server s).m_done = false) (fine : (p.server s).m_err = 0)
    (data : ∀ q m, p.serverRecvNext s true = (q, some m) →
      HasData (tailMbuf fresh (q.msg m).m_mbuf_queue).2.size answer) :
    ¬ Closing (recvTurn (serverReceiver sys s) fresh answer p).2
      ((recvTurn (serverReceiver sys s) fresh answer p).1.server s) := by
  have next : (serverReceiver sys s).recvNext true p = p.serverRecvNext s true := rfl
  have notEof : ¬ (p.server s).m_eof = true := by
    rw [eof]
    exact Bool.false_ne_true
  obtain ⟨q, m, result, rmsg, conn⟩ : ∃ q m, p.serverRecvNext s true = (q, some m) ∧ ∃ rmsg,
      q.server s = { p.server s with m_rmsg := rmsg } := by
    unfold serverRecvNext
    rw [if_neg notEof]
    cases (p.server s).m_rmsg with
    | some m => exact ⟨p, m, rfl, (p.server s).m_rmsg, rfl⟩
    | none => exact ⟨_, _, rfl, _, server_putServer ..⟩
  obtain ⟨ready, bytes, some, read⟩ := recv_data (data q m result) (q.server s)
  unfold recvTurn
  rw [next, result]
  dsimp only
  rw [recvChain_ok (fun _ => rfl) rfl read]
  generalize stored : (serverReceiver sys s).put _ _ = r
  have conn' : r.server s = { p.server s with m_rmsg := rmsg, m_recv_ready := ready } := by
    rw [← stored]
    refine (server_putServer ..).trans ?_
    rw [conn]
  obtain ⟨status, final⟩ := received_stray (p := r) (s := s) sys _ _ some m
    (by rw [conn']; exact stray) (by rw [conn']; exact eof) (by rw [conn']; exact fine)
  rw [status, final, conn']
  rintro (failed | isDone | failed)
  · exact failed rfl
  · exact Bool.false_ne_true (done.symm.trans isDone)
  · exact failed fine

/-- A response of the byte 9, when it is read, that nobody waits for. -/
def unasked : Proxy :=
  clientAccepted.allocMsg.1.putMsg clientAccepted.allocMsg.2 fun msg => { msg with m_mlen := 1 }

theorem stray_marked_unasked :
    ¬ StrayHandled 0 0 unasked (unasked.responseFilter 0 0).1 ∧
      ((unasked.responseFilter 0 0).1.msg 0).m_err = EINVAL :=
  have marked := stray_marked (p := unasked) (s := 0) (m := 0) (by decide) (by decide)
  ⟨marked.1, marked.2.2.2.1⟩

/-- A response of the byte 9 arrives that nobody waits for. -/
def strayRead : Proxy :=
  (recvTurn (serverReceiver ⟨0, none, none⟩ 0) freshMbuf (.bytes [9]) clientAccepted).1

/-- **After a stray response the connection has no error**, and the message that is next in `msg_pool`
has. -/
theorem wrong_mark :
    (proxyRuns 1024).Reach strayRead ∧ (strayRead.server 0).m_err = 0 ∧
      (strayRead.server 0).m_done = false ∧ strayRead.msg_pool.m_queue = [0] ∧
      (strayRead.msg 0).m_err = EINVAL ∧ (strayRead.msg 0).m_done = true := by
  have stray : (proxyRuns 1024).Reach strayRead :=
    ((reach_atStart 1024).next step_clientAccepted).next
      (a := .serverRecv 0 ⟨0, none, none⟩ freshMbuf (.bytes [9])) ⟨by decide, rfl⟩
  refine ⟨stray, ?_, ?_, ?_, ?_, ?_⟩ <;> decide

end Proxy

end Nutcracker
