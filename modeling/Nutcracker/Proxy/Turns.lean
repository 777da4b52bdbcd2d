/-
**What the proxy does with an event on a connection.**

A turn of `recvMsg` is `recvNext`, one read, `parse` and `recvDone`; a turn of `sendMsg` is `sendNext`
and `sendChain`. `Receiver` is what receiving sees of a connection: its virtual functions. `parse`
takes every message as complete, so the rest of a buffer is never split off, and `recvDone` gets no
further message.

* `recvTurn` — a turn of `recvMsg`, with the request forwarded or the response linked.
* `clientSendTurn`, `serverSendTurn` — a turn of `sendMsg`. Which request a write to a server
  completes is an argument here.
* `proxyRuns` — **every run of the proxy**: accepts, turns and closes in any order.

`front()` of an empty queue is `NULL`. Where the source would use a `NULL` request or client, nothing
happens here.
-/

import Nutcracker.Client.Send
import Nutcracker.Event.Model
import Nutcracker.Lib.Runs
import Nutcracker.Proxy.Model
import Nutcracker.Server.Wire

namespace Nutcracker

open Lib

/-- How `read(2)` ends: it has these bytes (none at the end of the stream), would block, or fails. -/
inductive ReadAnswer
  | bytes (b : List UInt8)
  | again
  | failed (err : Int)

/-- `NcConnBase::recv` of up to `size` bytes: the bytes, or the status. -/
def NcConn.recv (answer : ReadAnswer) (size : Nat) (conn : NcConn) :
    NcConn × Except Int (List UInt8) :=
  match answer with
  | .bytes b =>
      let got := b.take size
      if got = [] then ({ conn with m_recv_ready := false, m_eof := true }, .ok [])
      else if got.length < size then ({ conn with m_recv_ready := false }, .ok got)
      else (conn, .ok got)
  | .again => ({ conn with m_recv_ready := false }, .error NC_EAGAIN)
  | .failed err => ({ conn with m_recv_ready := false, m_err := err }, .error NC_ERROR)

/-- The answers of the kernel while a message is forwarded: `errno`, and the error numbers of a failed
`addOutput` of the server and of the client. -/
structure ForwardAnswers where
  errno : Int
  server : Option Int
  client : Option Int

namespace Proxy

/-! ### Reads -/

/-- The read has bytes for a buffer of this size. -/
def HasData (size : Nat) : ReadAnswer → Prop
  | .bytes b => b.take size ≠ []
  | _ => False

/-- **How a read ends**: with some bytes, at the end of the stream, or with a status. -/
theorem recv_cases (answer : ReadAnswer) (size : Nat) (conn : NcConn) :
    (HasData size answer ∧ ∃ bytes ready, bytes ≠ [] ∧
      conn.recv answer size = ({ conn with m_recv_ready := ready }, .ok bytes)) ∨
    (¬ HasData size answer ∧
      (conn.recv answer size = ({ conn with m_recv_ready := false, m_eof := true }, .ok []) ∨
        ∃ status err, conn.recv answer size =
          ({ conn with m_recv_ready := false, m_err := err }, .error status))) := by
  cases answer with
  | bytes b =>
      unfold NcConn.recv
      dsimp only
      by_cases nothing : b.take size = []
      · rw [if_pos nothing]
        exact Or.inr ⟨not_not.mpr nothing, Or.inl rfl⟩
      · rw [if_neg nothing]
        refine Or.inl ⟨nothing, b.take size, ?_⟩
        split
        · exact ⟨false, nothing, rfl⟩
        · exact ⟨conn.m_recv_ready, nothing, rfl⟩
  | again => exact Or.inr ⟨id, Or.inr ⟨NC_EAGAIN, conn.m_err, rfl⟩⟩
  | failed err => exact Or.inr ⟨id, Or.inr ⟨NC_ERROR, err, rfl⟩⟩

/-- A read changes `m_recv_ready`, `m_eof` and `m_err` at most. -/
theorem recv_frame (answer : ReadAnswer) (size : Nat) (conn : NcConn) :
    ∃ ready eof err, (conn.recv answer size).1 =
      { conn with m_recv_ready := ready, m_eof := eof, m_err := err } := by
  rcases recv_cases answer size conn with
    ⟨-, bytes, ready, -, read⟩ | ⟨-, read | ⟨status, err, read⟩⟩
  · exact ⟨ready, conn.m_eof, conn.m_err, by rw [read]⟩
  · exact ⟨false, true, conn.m_err, by rw [read]⟩
  · exact ⟨false, conn.m_eof, err, by rw [read]⟩

/-! ### Requests -/

/-- `NcClientConn::active`. -/
def clientActive (conn : NcConn) : Bool :=
  !conn.m_omsg_q.isEmpty || conn.m_rmsg.isSome || conn.m_smsg.isSome

/-- The branch of `recvNext` at the end of the stream: an incomplete message is dropped. -/
def dropIncomplete (put : (NcConn → NcConn) → Proxy → Proxy) (conn : NcConn) (force : Bool)
    (p : Proxy) : Proxy :=
  match conn.m_rmsg with
  | some m => (put (fun conn => { conn with m_rmsg := none }) p).freeMsg conn.m_owner m force
  | none => p

/-- **`NcClientConn::recvNext`.** -/
def clientRecvNext (c : Addr) (alloc : Bool) (p : Proxy) : Proxy × Ptr :=
  if (p.client c).m_eof then
    let p := p.dropIncomplete (putClient c) (p.client c) true
    if clientActive (p.client c) then (p, none)
    else (p.putClient c fun conn => { conn with m_done := true }, none)
  else
    match (p.client c).m_rmsg with
    | some m => (p, some m)
    | none =>
        if alloc then
          let m := p.allocMsg.2
          let p := p.allocMsg.1.putClient c fun conn => { conn with m_rmsg := some m }
          (p.putMsg m (NcMsg.setData (some c)), some m)
        else (p, none)

/-- `NcMsg::requestFilter`. -/
def requestFilter (c m : Addr) (p : Proxy) : Proxy × Bool :=
  if (p.msg m).empty then (p.freeMsg (p.client c).m_owner m true, true)
  else if (p.msg m).m_quit then
    let p := p.putClient c fun conn => { conn with m_eof := true, m_recv_ready := false }
    (p.freeMsg (p.client c).m_owner m true, true)
  else (p, false)

/-- **`NcMsg::requestForwardError`.** -/
def requestForwardError (sys : ForwardAnswers) (c m : Addr) (p : Proxy) : Proxy :=
  let p := p.putMsg m fun msg => { msg with m_done := true, m_error := true, m_err := sys.errno }
  if (p.msg m).m_noreply then p.freeMsg (p.client c).m_owner m true
  else
    let p := p.did (.looked .requestForwardError (p.client c).m_omsg_q.isEmpty)
    match sys.client with
    | some err => p.putMsg m fun msg => { msg with m_err := err }
    | none => p

/-- **`NcMsg::requestForward`**, where `pick` is `NcServerPool::getConn`. -/
def requestForward (pick : Proxy → Proxy × Ptr) (sys : ForwardAnswers) (c m : Addr) (p : Proxy) :
    Proxy :=
  let p :=
    if (p.msg m).m_noreply then p
    else p.putClient c fun conn => { conn with m_omsg_q := conn.m_omsg_q ++ [m] }
  let p' := (pick p).1
  match (pick p).2 with
  | none => p'.requestForwardError sys c m
  | some s =>
      if (p'.server s).m_imsg_q = [] then
        match sys.server with
        | some err =>
            (p'.requestForwardError sys c m).putServer s fun conn => { conn with m_err := err }
        | none => p'.putServer s fun conn => { conn with m_imsg_q := conn.m_imsg_q ++ [m] }
      else p'.putServer s fun conn => { conn with m_imsg_q := conn.m_imsg_q ++ [m] }

/-- `NcMsg::requestMakeReply`. -/
def requestMakeReply (c m : Addr) (p : Proxy) : Proxy :=
  let rsp := p.allocMsg.2
  let p := p.allocMsg.1.putMsg m fun msg => { msg with m_peer := some rsp }
  let p := p.putMsg rsp fun msg => { msg with m_peer := some m }
  let p := p.putMsg m fun msg => { msg with m_done := true }
  p.putClient c fun conn => { conn with m_omsg_q := conn.m_omsg_q ++ [m] }

/-- **`NcClientConn::recvDone`**, without a further message. `frag_msgq` stays empty. -/
def clientRecvDone (pick : Proxy → Proxy × Ptr) (sys : ForwardAnswers) (c m : Addr) (p : Proxy) :
    Proxy :=
  let p := p.putClient c fun conn => { conn with m_rmsg := none }
  let filtered := p.requestFilter c m
  if filtered.2 then filtered.1
  else
    let p := filtered.1.did (.read c m)
    if (p.msg m).m_noforward then
      let p := p.requestMakeReply c m
      match sys.client with
      | some err => p.putClient c fun conn => { conn with m_err := err }
      | none => p
    else p.requestForward pick sys c m

/-! ### Responses -/

/-- **`NcServerConn::recvNext`.** -/
def serverRecvNext (s : Addr) (alloc : Bool) (p : Proxy) : Proxy × Ptr :=
  if (p.server s).m_eof then
    let p := p.dropIncomplete (putServer s) (p.server s) false
    (p.putServer s fun conn => { conn with m_done := true }, none)
  else
    match (p.server s).m_rmsg with
    | some m => (p, some m)
    | none =>
        if alloc then
          let m := p.allocMsg.2
          (p.allocMsg.1.putServer s fun conn => { conn with m_rmsg := some m }, some m)
        else (p, none)

/-- **`NcMsg::responseFilter`.** For a stray response the source sets the flags of the message it has
just freed. -/
def responseFilter (s m : Addr) (p : Proxy) : Proxy × Bool :=
  if (p.msg m).empty then (p.freeMsg (p.server s).m_owner m false, true)
  else
    let p := p.did (.responded s m)
    let p := p.did (.looked .responseFilter (p.server s).m_omsg_q.isEmpty)
    if (p.server s).m_omsg_q = [] then
      let p := p.freeMsg (p.server s).m_owner m false
      (p.putMsg m fun msg => { msg with m_err := EINVAL, m_done := true }, true)
    else (p, false)

/-- **`NcMsg::responseForward`.** -/
def responseForward (sys : ForwardAnswers) (s m : Addr) (p : Proxy) : Proxy :=
  let p := p.did (.looked .responseForward (p.server s).m_omsg_q.isEmpty)
  match (p.server s).m_omsg_q with
  | [] => p
  | pmsg :: _ =>
      let p := p.putServer s fun conn =>
        { conn with m_omsg_q := NcQueue.remove pmsg conn.m_omsg_q }
      let p := p.putMsg pmsg fun msg => { msg with m_done := true, m_peer := some m }
      let p := p.putMsg m fun msg => { msg with m_peer := some pmsg }
      let p := p.did (.answered s m pmsg)
      match (p.msg pmsg).data with
      | none => p
      | some c =>
          let p := p.did (.looked .responseForward (p.client c).m_omsg_q.isEmpty)
          if (p.client c).m_omsg_q = [] then p
          else
            match sys.client with
            | some err => p.putClient c fun conn => { conn with m_err := err }
            | none => p

/-- `responseForward` up to the link between the response `m` and the request `pmsg`. -/
def link (s m pmsg : Addr) (p : Proxy) : Proxy :=
  let p := p.did (.looked .responseForward false)
  let p := p.putServer s fun conn => { conn with m_omsg_q := NcQueue.remove pmsg conn.m_omsg_q }
  let p := p.putMsg pmsg fun msg => { msg with m_done := true, m_peer := some m }
  let p := p.putMsg m fun msg => { msg with m_peer := some pmsg }
  p.did (.answered s m pmsg)

/-- `responseForward` from the link on. -/
def wake (sys : ForwardAnswers) (c : Addr) (p : Proxy) : Proxy :=
  let p := p.did (.looked .responseForward (p.client c).m_omsg_q.isEmpty)
  if (p.client c).m_omsg_q = [] then p
  else
    match sys.client with
    | some err => p.putClient c fun conn => { conn with m_err := err }
    | none => p

theorem data_link (s m pmsg x : Addr) (p : Proxy) :
    ((p.link s m pmsg).msg x).data = (p.msg x).data := by
  have put (y : Addr) (f : NcMsg → NcMsg) (same : ∀ msg, (f msg).data = msg.data) (q : Proxy) :
      ((q.putMsg y f).msg x).data = (q.msg x).data := by
    by_cases isY : x = y
    · rw [isY, msg_putMsg, same]
    · rw [msg_putMsg_of_ne _ _ isY]
  exact (put m (fun msg => { msg with m_peer := some pmsg }) (fun _ => rfl) _).trans
    (put pmsg (fun msg => { msg with m_done := true, m_peer := some m }) (fun _ => rfl) _)

/-- The request after the link. -/
theorem msg_link {m pmsg : Addr} (apart : pmsg ≠ m) (s : Addr) (p : Proxy) :
    (p.link s m pmsg).msg pmsg = { p.msg pmsg with m_done := true, m_peer := some m } := by
  simp [link, msg_putMsg_of_ne _ _ apart]

theorem peer_link (s m pmsg : Addr) (p : Proxy) : ((p.link s m pmsg).msg m).m_peer = some pmsg := by
  simp [link]

@[simp] theorem msg_wake (sys : ForwardAnswers) (c m : Addr) (p : Proxy) :
    (p.wake sys c).msg m = p.msg m := by
  unfold wake
  dsimp only
  split
  · rfl
  · cases sys.client <;> rfl

/-- **`responseForward` with a request in the queue**: the link, and the client of the request. -/
theorem responseForward_eq (sys : ForwardAnswers) {s pmsg : Addr} {rest : List Addr} {p : Proxy}
    (queue : (p.server s).m_omsg_q = pmsg :: rest) (m : Addr) :
    p.responseForward sys s m =
      match (p.msg pmsg).data with
      | none => p.link s m pmsg
      | some c => (p.link s m pmsg).wake sys c := by
  have data := data_link s m pmsg pmsg p
  unfold responseForward
  dsimp only
  rw [show (p.did (.looked .responseForward (p.server s).m_omsg_q.isEmpty)).server s = p.server s
    from rfl, queue, ← data]
  rfl

/-- **`NcServerConn::recvDone`**, without a further message. -/
def serverRecvDone (sys : ForwardAnswers) (s m : Addr) (p : Proxy) : Proxy :=
  let p := p.putServer s fun conn => { conn with m_rmsg := none }
  let filtered := p.responseFilter s m
  if filtered.2 then filtered.1 else filtered.1.responseForward sys s m

/-! ### A turn of `recvMsg` -/

/-- What receiving sees of a connection. -/
structure Receiver where
  conn : Proxy → NcConn
  put : (NcConn → NcConn) → Proxy → Proxy
  recvNext : Bool → Proxy → Proxy × Ptr
  recvDone : Addr → Proxy → Proxy

def clientReceiver (pick : Proxy → Proxy × Ptr) (sys : ForwardAnswers) (c : Addr) : Receiver where
  conn p := p.client c
  put := putClient c
  recvNext := clientRecvNext c
  recvDone := clientRecvDone pick sys c

def serverReceiver (sys : ForwardAnswers) (s : Addr) : Receiver where
  conn p := p.server s
  put := putServer s
  recvNext := serverRecvNext s
  recvDone := serverRecvDone sys s

/-- `NcMsg::parse` and `parseDone`. -/
def parse (r : Receiver) (m : Addr) (p : Proxy) : Proxy × Int :=
  if (p.msg m).empty then (r.recvDone m p, NC_OK)
  else
    let p := p.did (.looked .parse (p.msg m).m_mbuf_queue.isEmpty)
    let p := p.did (.looked .parseDone (p.msg m).m_mbuf_queue.isEmpty)
    let p := r.recvDone m p
    (p, if (r.conn p).m_err ≠ 0 then NC_ERROR else NC_OK)

/-- The buffer that is read into, and those before it: the last one, or one from `mbuf_pool`. -/
def tailMbuf (fresh : NcMbuf) (queue : List NcMbuf) : List NcMbuf × NcMbuf :=
  match queue.getLast? with
  | none => ([], fresh)
  | some mbuf => if mbuf.full then (queue, fresh) else (queue.dropLast, mbuf)

/-- `recvChain` after the read of `bytes` into the buffer `mbuf`, the last after `before`. There is no
message to go on with after `parse`. -/
def received (r : Receiver) (before : List NcMbuf) (mbuf : NcMbuf) (bytes : List UInt8) (m : Addr)
    (p : Proxy) : Proxy × Int :=
  let parsed := parse r m <| p.putMsg m fun msg =>
    { msg with m_mbuf_queue := before ++ [mbuf.copy bytes], m_mlen := bytes.length }
  if parsed.2 = NC_OK then ((r.recvNext false parsed.1).1, NC_OK) else parsed

/-- **`NcConn::recvChain`.** -/
def recvChain (r : Receiver) (fresh : NcMbuf) (answer : ReadAnswer) (m : Addr) (p : Proxy) :
    Proxy × Int :=
  let p := p.did (.looked .recvChain (p.msg m).m_mbuf_queue.isEmpty)
  let tail := tailMbuf fresh (p.msg m).m_mbuf_queue
  let read := (r.conn p).recv answer tail.2.size
  let p := r.put (fun _ => read.1) p
  match read.2 with
  | .ok bytes => received r tail.1 tail.2 bytes m p
  | .error status =>
      (p.putMsg m fun msg => { msg with m_mbuf_queue := tail.1 ++ [tail.2] },
        if status = NC_EAGAIN then NC_OK else NC_ERROR)

section RecvChain

variable {r : Receiver} {p : Proxy} {conn : NcConn} {answer : ReadAnswer} {fresh : NcMbuf} {m : Addr}
  {tail : List NcMbuf × NcMbuf} (look : ∀ act, r.conn (p.did act) = r.conn p)
  (last : tailMbuf fresh (p.msg m).m_mbuf_queue = tail)

include look last

/-- `recvChain` after a read of bytes, or of the end of the stream. -/
theorem recvChain_ok {bytes : List UInt8}
    (read : (r.conn p).recv answer tail.2.size = (conn, .ok bytes)) :
    recvChain r fresh answer m p = received r tail.1 tail.2 bytes m
      (r.put (fun _ => conn) (p.did (.looked .recvChain (p.msg m).m_mbuf_queue.isEmpty))) := by
  unfold recvChain
  dsimp only
  rw [look, msg_did, last, read]

/-- `recvChain` after a read that fails. -/
theorem recvChain_error {status : Int}
    (read : (r.conn p).recv answer tail.2.size = (conn, .error status)) :
    recvChain r fresh answer m p =
      ((r.put (fun _ => conn) (p.did (.looked .recvChain (p.msg m).m_mbuf_queue.isEmpty))).putMsg m
          fun msg => { msg with m_mbuf_queue := tail.1 ++ [tail.2] },
        if status = NC_EAGAIN then NC_OK else NC_ERROR) := by
  unfold recvChain
  dsimp only
  rw [look, msg_did, last, read]

end RecvChain

/-- **A turn of `NcConn::recvMsg`.** -/
def recvTurn (r : Receiver) (fresh : NcMbuf) (answer : ReadAnswer) (p : Proxy) : Proxy × Int :=
  match r.recvNext true p with
  | (p, none) => (p, NC_OK)
  | (p, some m) => recvChain r fresh answer m p

/-! ### A turn of `sendMsg` -/

/-- **A turn of `NcConn::sendMsg` on a client connection.** A response is completed when its request
has left the queue. -/
def clientSendTurn (c : Addr) (delOutput : Option Int) (answer : NcConn.SendvAnswer)
    (p : Proxy) : Except SendFault Proxy := do
  let p := p.did (.looked .clientSendNext (p.client c).m_omsg_q.isEmpty)
  let (conn, next) := NcClientConn.sendNext delOutput p.msg_pool.mem (p.client c)
  match next with
  | none => return p.putClient c fun _ => conn
  | some rsp =>
      let (s, _, _) ← NcConn.sendChain (NcClientConn.nextOf delOutput p.msg_pool.mem)
        NcClientConn.sendDone answer 2 rsp ⟨conn, p.msg_pool⟩
      let p := ({ p with msg_pool := s.msg_pool }.putClient c fun _ => s.conn).did (.handed c rsp)
      if s.conn.m_omsg_q = conn.m_omsg_q then return p else return p.did (.completed c rsp)

/-- **What a turn of `sendMsg` on a client connection does**: there is nothing to send, or one response
is accounted for. -/
theorem clientSendTurn_cases {c : Addr} {delOutput : Option Int} {answer : NcConn.SendvAnswer}
    {p p' : Proxy} (turn : p.clientSendTurn c delOutput answer = .ok p') :
    ((NcClientConn.sendNext delOutput p.msg_pool.mem (p.client c)).2 = none ∧
      p' = (p.did (.looked .clientSendNext (p.client c).m_omsg_q.isEmpty)).putClient c fun _ =>
        (NcClientConn.sendNext delOutput p.msg_pool.mem (p.client c)).1) ∨
    ∃ rsp pmsg rest nsent ready err, (p.client c).m_omsg_q = pmsg :: rest ∧
      (p.client c).m_smsg = none ∧ (p.msg pmsg).m_peer = some rsp ∧
      let s := NcConn.accounted NcClientConn.sendDone rsp nsent
        ⟨{ p.client c with m_smsg := none, m_send_ready := ready, m_err := err }, p.msg_pool⟩
      let q := ({ p.did (.looked .clientSendNext (p.client c).m_omsg_q.isEmpty) with
        msg_pool := s.msg_pool }.putClient c fun _ => s.conn).did (.handed c rsp)
      (s.conn.m_omsg_q = (p.client c).m_omsg_q ∧ p' = q) ∨
        (s.conn.m_omsg_q ≠ (p.client c).m_omsg_q ∧ p' = q.did (.completed c rsp)) := by
  generalize looked : p.did (.looked .clientSendNext (p.client c).m_omsg_q.isEmpty) = q
  have msg_pool : q.msg_pool = p.msg_pool := looked ▸ rfl
  have client : q.client c = p.client c := looked ▸ rfl
  unfold clientSendTurn at turn
  dsimp only at turn
  rw [looked, msg_pool, client] at turn
  cases next : NcClientConn.sendNext delOutput p.msg_pool.mem (p.client c) with
  | mk conn result =>
      rw [next] at turn
      cases result with
      | none => exact Or.inl ⟨rfl, (Except.ok.inj turn).symm⟩
      | some rsp =>
          obtain ⟨pmsg, rest, queue, start, peer, cursor⟩ := NcClientConn.sendNext_some next
          have queue' : conn.m_omsg_q = (p.client c).m_omsg_q := by rw [cursor]
          dsimp only at turn
          cases chain : NcConn.sendChain (NcClientConn.nextOf delOutput p.msg_pool.mem)
              NcClientConn.sendDone answer 2 rsp ⟨conn, p.msg_pool⟩ with
          | error fault =>
              rw [chain] at turn
              cases turn
          | ok result =>
              obtain ⟨nsent, ready, err, same⟩ := NcClientConn.sendChain_sending
                (queue'.trans queue) (by rw [cursor]; exact Option.some_ne_none rsp) chain
              rw [cursor] at same
              rw [chain] at turn
              refine Or.inr ⟨rsp, pmsg, rest, nsent, ready, err, queue, start, peer, ?_⟩
              dsimp only
              rw [← same, ← queue']
              change (if _ then _ else _) = _ at turn
              split at turn
              next kept => exact Or.inl ⟨kept, (Except.ok.inj turn).symm⟩
              next left => exact Or.inr ⟨left, (Except.ok.inj turn).symm⟩

/-- `NcServerConn::sendDone` of a request. -/
def serverSendDone (s m : Addr) (p : Proxy) : Proxy :=
  let sent := NcServerConn.sendDone m ⟨p.server s, p.msg_pool⟩
  ({ p with msg_pool := sent.msg_pool }.putServer s fun _ => sent.conn).did (.moved s m)

/-- **A turn of `NcConn::sendMsg` on a server connection**, where `done` is the request that the write
completes, if any. -/
def serverSendTurn (s : Addr) (sys : SysCalls) (done : Ptr) (p : Proxy) : Proxy :=
  let p := p.did (.looked .serverSendNext (p.server s).m_imsg_q.isEmpty)
  let (conn, next) := NcServerConn.sendNext sys (p.server s)
  match next, done with
  | some _, some m =>
      (p.putServer s fun _ => { conn with m_smsg := none }).serverSendDone s m
  | some _, none => p.putServer s fun _ => { conn with m_smsg := none }
  | none, _ => p.putServer s fun _ => conn

/-- **`NcConn::callback` closes the connection** after a turn with this status. -/
def Closing (status : Int) (conn : NcConn) : Prop :=
  status ≠ NC_OK ∨ conn.m_done = true ∨ conn.m_err ≠ 0

/-! ### Runs -/

/-- The client connections of the pool. -/
def Open (p : Proxy) (c : Addr) : Prop := c ∈ p.server_pool.c_conn_q

instance (p : Proxy) (c : Addr) : Decidable (p.Open c) := inferInstanceAs (Decidable (_ ∈ _))

/-- The server connections that the event base reports: those of a server that were not closed. -/
def Serving (p : Proxy) (s : Addr) : Prop :=
  s < p.s_pool.made ∧ (p.server s).m_owner ≠ none ∧ .serverClosed s ∉ p.acts

instance (p : Proxy) (s : Addr) : Decidable (p.Serving s) := inferInstanceAs (Decidable (_ ∧ _))

/-- How a request finds its server connection: through `getConn`, or in any other way. -/
inductive Choice
  | index (idx : Nat)
  | any (conn : Ptr)

def Choice.pick : Choice → Proxy → Proxy × Ptr
  | .index idx => getConn idx
  | .any conn => fun p => (p, conn)

/-- The kernel gives a new connection a descriptor that no open connection has. -/
def AcceptAnswer.Legal (p : Proxy) : AcceptAnswer → Prop
  | .failed => True
  | .descriptor sd _ _ => 0 ≤ sd ∧ sd < 2 ^ 31 ∧ ∀ c, p.Open c → (p.client c).m_sd ≠ sd

inductive ProxyEvent
  | accept (answer : AcceptAnswer)
  | clientRecv (c : Addr) (choice : Choice) (sys : ForwardAnswers) (fresh : NcMbuf)
      (answer : ReadAnswer)
  | clientSend (c : Addr) (delOutput : Option Int) (answer : NcConn.SendvAnswer)
  | clientClose (c : Addr)
  | serverRecv (s : Addr) (sys : ForwardAnswers) (fresh : NcMbuf) (answer : ReadAnswer)
  | serverSend (s : Addr) (sys : SysCalls) (done : Ptr)
  | serverClose (s : Addr)

/-- **One event.** `NcServerConn::close` does nothing. A close is an event of its own, so that these runs
are more than those of `callback`, which closes a connection when its turn has failed or left an
error. -/
def Step (p : Proxy) : ProxyEvent → Proxy → Prop
  | .accept answer, p' => answer.Legal p ∧ p' = p.accept answer
  | .clientRecv c choice sys fresh answer, p' =>
      p.Open c ∧ p' = (recvTurn (clientReceiver choice.pick sys c) fresh answer p).1
  | .clientSend c delOutput answer, p' =>
      p.Open c ∧ p.clientSendTurn c delOutput answer = .ok p'
  | .clientClose c, p' => p.Open c ∧ p' = p.close c
  | .serverRecv s sys fresh answer, p' =>
      p.Serving s ∧ p' = (recvTurn (serverReceiver sys s) fresh answer p).1
  | .serverSend s sys done, p' =>
      p.Serving s ∧ (∀ m ∈ done, m ∈ (p.server s).m_imsg_q) ∧ p' = p.serverSendTurn s sys done
  | .serverClose s, p' => p.Serving s ∧ p' = p.did (.serverClosed s)

/-- The server connections at the start: nothing is queued on them, or being received or sent. -/
structure Connected (conn : NcConn) : Prop where
  imsg_q : conn.m_imsg_q = []
  omsg_q : conn.m_omsg_q = []
  rmsg : conn.m_rmsg = none
  smsg : conn.m_smsg = none

/-- **The proxy at the start**, with the limits for a limit of the process. -/
structure Start (rlim_cur : UInt64) (p : Proxy) : Prop where
  ctx : p.ctx = .calcConnections rlim_cur
  msg_pool : ∃ mem current, p.msg_pool = .default mem current
  c_pool : ∃ mem current, p.c_pool = .default mem current
  s_queue : p.s_pool.m_queue = []
  s_conns : ∀ s, Connected (p.server s)
  chosen : ∀ server ∈ p.server_pool.server, ∀ s, some s ∈ server.m_conn_queue → s < p.s_pool.made
  nc_conn_q : p.server_pool.nc_conn_q = 0
  c_conn_q : p.server_pool.c_conn_q = []
  acts : p.acts = []

/-- **The runs of the proxy.** -/
def proxyRuns (rlim_cur : UInt64) : System Proxy ProxyEvent where
  init := Start rlim_cur
  step := Step

/-- A proxy at the start, with one server and one connection to it. -/
def atStart (rlim_cur : UInt64) : Proxy where
  ctx := .calcConnections rlim_cur
  msg_pool := .default (fun _ => .new) none
  c_pool := .default (fun _ => .new) none
  s_pool :=
    { mem := fun _ => { NcConn.new with m_sd := 4, m_connected := true, m_owner := some 1 }
      made := 1
      m_queue := []
      m_free := 0
      m_current := none }
  server_pool :=
    { nc_conn_q := 0
      c_conn_q := []
      server := [⟨[some 0], 1, 0, 0⟩]
      nlive_server := 0
      next_rebuild := 0
      dist_type := kDIST_RANDOM
      server_connections := 1
      server_retry_timeout := 30
      server_failure_limit := 2
      auto_eject_hosts := false
      nserver_continuum := 0
      continuum := [] }
  acts := []

theorem chunk_bounds : MBUF_MIN_SIZE ≤ 512 ∧ 512 ≤ MBUF_MAX_SIZE := by decide

/-- A buffer of 512 bytes from `mbuf_pool`. -/
def freshMbuf : NcMbuf := .new ⟨512, chunk_bounds⟩ fun _ => 0

theorem start_atStart (rlim_cur : UInt64) : Start rlim_cur (atStart rlim_cur) := by
  refine ⟨rfl, ⟨_, _, rfl⟩, ⟨_, _, rfl⟩, rfl, fun s => ⟨rfl, rfl, rfl, rfl⟩, ?_, rfl, rfl, rfl⟩
  intro server member s queued
  rw [List.mem_singleton.mp member] at queued
  rw [Option.some.inj (List.mem_singleton.mp queued)]
  exact Nat.zero_lt_one

theorem reach_atStart (rlim_cur : UInt64) : (proxyRuns rlim_cur).Reach (atStart rlim_cur) :=
  .start (start_atStart rlim_cur)

end Proxy

end Nutcracker
