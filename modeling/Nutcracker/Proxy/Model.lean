/-
**The proxy: its pools, its connections, and how they come and go.**

`Proxy` holds the pools of messages, client connections and server connections with the objects in
them, the server pool, the limits of the context, and a record of what the handlers did (`acts`, the
latest first). The calls of the kernel are arguments: `accept` gets what `accept(2)` and the calls on
the new descriptor answer.

* `NcContext.calcConnections` — the limits, from the limit of the process.
* `accept`, `close` — a client connection is taken from its pool and goes back to it. `close` leaves
  `m_omsg_q` as it is, and the `reset()` of the pool does too.
* `getConn` — the server connection that a request is forwarded to.

The logging, `m_recv_ready` of the listening connection, and the socket options are left out.
-/

import Nutcracker.HashKit.Model

namespace Nutcracker

def RESERVED_FDS : UInt32 := 32

/-- The handlers that read an end of a queue. -/
inductive Handler
  | recvChain
  | parse
  | parseDone
  | clientSendNext
  | serverSendNext
  | responseFilter
  | responseForward
  | requestForwardError
  | getConn
  deriving DecidableEq

/-- What the handlers do. -/
inductive Act
  /-- `front()`, `back()` or `*begin()` of a queue. -/
  | looked (handler : Handler) (empty : Bool)
  /-- `NcServer::getConn` returned this. -/
  | chose (conn : Ptr)
  | accepted (conn : Addr) (sd : Int)
  | closed (conn : Addr)
  | serverClosed (conn : Addr)
  /-- A whole request was read from a client. -/
  | read (conn msg : Addr)
  /-- A request was sent to a server. -/
  | moved (conn msg : Addr)
  /-- A whole response was read from a server. -/
  | responded (conn msg : Addr)
  /-- A response was linked to a request. -/
  | answered (conn rsp pmsg : Addr)
  /-- `sendChain` handed a response to the socket of a client. -/
  | handed (conn rsp : Addr)
  | completed (conn rsp : Addr)
  deriving DecidableEq

/-- The limits of `NcContext`. -/
structure NcContext where
  max_nfd : UInt32
  max_ncconn : UInt32
  max_nsconn : UInt32
  deriving DecidableEq

/-- `NcContext::calcConnections()`, on a context as `createContext` makes it. -/
def NcContext.calcConnections (rlim_cur : UInt64) : NcContext :=
  let max_nfd := rlim_cur.toUInt32
  let max_nsconn := 0
  { max_nfd := max_nfd, max_ncconn := max_nfd - max_nsconn - RESERVED_FDS, max_nsconn := max_nsconn }

/-- `NcUtil::ncCurCConn()`: a static counter that starts at 0, and that no call increments. -/
def ncCurCConn : UInt32 := 0

/-- **The proxy.** -/
structure Proxy where
  ctx : NcContext
  msg_pool : NcObjectPool NcMsg
  c_pool : NcObjectPool NcConn
  s_pool : NcObjectPool NcConn
  server_pool : NcServerPool
  acts : List Act

namespace Proxy

/-- The owner of the client connections, the one server pool. -/
def pool : Addr := 0

def client (p : Proxy) (c : Addr) : NcConn := p.c_pool.mem c

def server (p : Proxy) (s : Addr) : NcConn := p.s_pool.mem s

def msg (p : Proxy) (m : Addr) : NcMsg := p.msg_pool.mem m

def putClient (c : Addr) (f : NcConn → NcConn) (p : Proxy) : Proxy :=
  { p with c_pool := p.c_pool.put c f }

def putServer (s : Addr) (f : NcConn → NcConn) (p : Proxy) : Proxy :=
  { p with s_pool := p.s_pool.put s f }

def putMsg (m : Addr) (f : NcMsg → NcMsg) (p : Proxy) : Proxy :=
  { p with msg_pool := p.msg_pool.put m f }

def did (act : Act) (p : Proxy) : Proxy := { p with acts := act :: p.acts }

/-- `freeMsg(msg, force)` of a connection with the given owner. -/
def freeMsg (m_owner : Ptr) (m : Addr) (force : Bool) (p : Proxy) : Proxy :=
  { p with msg_pool := NcConn.freeMsg m_owner m force p.msg_pool }

/-- `msg_pool.alloc<NcMsg>()`. -/
def allocMsg (p : Proxy) : Proxy × Addr :=
  ({ p with msg_pool := (p.msg_pool.alloc NcMsg.new).1 }, (p.msg_pool.alloc NcMsg.new).2)

@[simp] theorem msg_putMsg (m : Addr) (f : NcMsg → NcMsg) (p : Proxy) :
    (p.putMsg m f).msg m = f (p.msg m) := NcObjectPool.mem_put_self ..

theorem msg_putMsg_of_ne {m x : Addr} (f : NcMsg → NcMsg) (p : Proxy) (other : x ≠ m) :
    (p.putMsg m f).msg x = p.msg x := NcObjectPool.mem_put_of_ne _ _ other

@[simp] theorem client_putClient (c : Addr) (f : NcConn → NcConn) (p : Proxy) :
    (p.putClient c f).client c = f (p.client c) := NcObjectPool.mem_put_self ..

theorem client_putClient_of_ne {c d : Addr} (f : NcConn → NcConn) (p : Proxy) (other : d ≠ c) :
    (p.putClient c f).client d = p.client d := NcObjectPool.mem_put_of_ne _ _ other

@[simp] theorem server_putServer (s : Addr) (f : NcConn → NcConn) (p : Proxy) :
    (p.putServer s f).server s = f (p.server s) := NcObjectPool.mem_put_self ..

theorem server_putServer_of_ne {s t : Addr} (f : NcConn → NcConn) (p : Proxy) (other : t ≠ s) :
    (p.putServer s f).server t = p.server t := NcObjectPool.mem_put_of_ne _ _ other

@[simp] theorem msg_did (act : Act) (p : Proxy) (m : Addr) : (p.did act).msg m = p.msg m := rfl

@[simp] theorem client_did (act : Act) (p : Proxy) (c : Addr) : (p.did act).client c = p.client c :=
  rfl

@[simp] theorem server_did (act : Act) (p : Proxy) (s : Addr) : (p.did act).server s = p.server s :=
  rfl

@[simp] theorem msg_putClient (c : Addr) (f : NcConn → NcConn) (p : Proxy) (m : Addr) :
    (p.putClient c f).msg m = p.msg m := rfl

@[simp] theorem msg_putServer (s : Addr) (f : NcConn → NcConn) (p : Proxy) (m : Addr) :
    (p.putServer s f).msg m = p.msg m := rfl

@[simp] theorem client_putMsg (m : Addr) (f : NcMsg → NcMsg) (p : Proxy) (c : Addr) :
    (p.putMsg m f).client c = p.client c := rfl

@[simp] theorem client_putServer (s : Addr) (f : NcConn → NcConn) (p : Proxy) (c : Addr) :
    (p.putServer s f).client c = p.client c := rfl

@[simp] theorem server_putMsg (m : Addr) (f : NcMsg → NcMsg) (p : Proxy) (s : Addr) :
    (p.putMsg m f).server s = p.server s := rfl

@[simp] theorem server_putClient (c : Addr) (f : NcConn → NcConn) (p : Proxy) (s : Addr) :
    (p.putClient c f).server s = p.server s := rfl

/-! ### Client connections -/

/-- `NcClientConn::ref`. -/
def ref (c : Addr) (p : Proxy) : Proxy :=
  let p := p.putClient c fun conn => { conn with m_owner := some pool }
  { p with
    server_pool :=
      { p.server_pool with
        nc_conn_q := p.server_pool.nc_conn_q + 1, c_conn_q := p.server_pool.c_conn_q ++ [c] } }

/-- `NcClientConn::unref`. -/
def unref (c : Addr) (p : Proxy) : Proxy :=
  let p := p.putClient c fun conn => { conn with m_owner := none }
  { p with
    server_pool :=
      { p.server_pool with
        nc_conn_q := p.server_pool.nc_conn_q - 1
        c_conn_q := NcQueue.remove c p.server_pool.c_conn_q } }

/-- `c_pool.free(this)`: `c_pool` is typed by the base class, and so is the `reset()` it runs. -/
def freeClient (c : Addr) (p : Proxy) : Proxy :=
  { p with c_pool := p.c_pool.free NcConn.baseReset (some c) }

/-- What `close` does with the requests of `m_omsg_q`. -/
def discard (m_owner : Ptr) : List Addr → Proxy → Proxy
  | [], p => p
  | m :: rest, p =>
      discard m_owner rest <|
        if (p.msg m).m_done then p.freeMsg m_owner m true
        else p.putMsg m fun msg => { msg with m_swallow := true }

/-- What `close` does with the messages of an open connection. -/
def dropMsgs (c : Addr) (p : Proxy) : Proxy :=
  let p :=
    match (p.client c).m_rmsg with
    | some m =>
        (p.putClient c fun conn => { conn with m_rmsg := none }).freeMsg (p.client c).m_owner m true
    | none => p
  p.discard (p.client c).m_owner (p.client c).m_omsg_q

/-- **`NcClientConn::close`.** -/
def close (c : Addr) (p : Proxy) : Proxy :=
  let p := p.did (.closed c)
  if (p.client c).m_sd < 0 then (p.unref c).freeClient c
  else (((p.dropMsgs c).unref c).putClient c fun conn => { conn with m_sd := -1 }).freeClient c

/-- What `accept(2)` returns, and whether the descriptor can be made non-blocking and added to the
event base. -/
inductive AcceptAnswer
  | failed
  | descriptor (sd : Int) (setNonBlocking addConn : Bool)

/-- The connection that `c_pool` hands out next. -/
def nextClient (p : Proxy) : Addr := (p.c_pool.alloc NcConn.new).2

/-- `accept` up to `ref`: a connection from `c_pool` gets the descriptor. -/
def enroll (sd : Int) (p : Proxy) : Proxy :=
  let c := p.nextClient
  let p := { p with c_pool := (p.c_pool.alloc NcConn.new).1 }
  ((p.putClient c fun conn => { conn with m_sd := sd }).ref c).did (.accepted c sd)

/-- **`NcProxyConn::accept`.** -/
def accept (answer : AcceptAnswer) (p : Proxy) : Proxy :=
  match answer with
  | .failed => p
  | .descriptor sd setNonBlocking addConn =>
      if p.ctx.max_ncconn ≤ ncCurCConn then p
      else if setNonBlocking = true ∧ addConn = true then p.enroll sd
      else (p.enroll sd).close p.nextClient

/-! ### The choice of a server connection -/

/-- **`NcServer::getConn`** of the server at the given index: a connection from `s_pool` while the
server may have more, and else the first of its queue, which goes to the end. `front()` of an empty
queue is `NULL`. -/
def serverGetConn (i : Nat) (server : NcServer) (p : Proxy) : Proxy × Ptr :=
  if server.m_ns_conn_q < p.server_pool.server_connections then
    ({ p with s_pool := (p.s_pool.alloc NcConn.new).1 }, some (p.s_pool.alloc NcConn.new).2)
  else
    let conn : Ptr := server.m_conn_queue.head?.join
    let queue := (server.m_conn_queue.filter fun other => other != conn) ++ [conn]
    let p := p.did (.looked .getConn server.m_conn_queue.isEmpty)
    ({ p with
      server_pool :=
        { p.server_pool with
          server := p.server_pool.server.set i { server with m_conn_queue := queue } } }, conn)

/-- **`NcServerPool::getConn`**, with the result of `index`. There is no server to ask if the pool has
none. -/
def getConn (idx : Nat) (p : Proxy) : Proxy × Ptr :=
  match p.server_pool.server[idx % p.server_pool.server.length]? with
  | none => (p, none)
  | some server =>
      let result := p.serverGetConn (idx % p.server_pool.server.length) server
      (result.1.did (.chose result.2), result.2)

end Proxy

end Nutcracker
