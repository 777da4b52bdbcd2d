/-
**The start-up that fails.**

`createProxyConn` and `createServerConn` take a connection from `p_pool`, `ref` it, and `close` and
delete it if it cannot listen or connect. The answers of the kernel are arguments.

* `createProxyConn_pooled` — the `close` of the listening connection **gives it to `p_pool`**, and then
  it is deleted.
* `createServerConn_queued` — the `close` of a server connection is empty, so **its server keeps it**.
* `failed_dangling` — no start-up that fails leaves the connection it deletes unreferenced.
-/

import Nutcracker.Proxy.Registry

namespace Nutcracker

def EINPROGRESS : Int := 115

/-- `sa_family` of an address. -/
inductive Family
  | inet
  | inet6
  | unix
  | unspec
  deriving DecidableEq

/-- What `NcProxyConn::listen` reads of the pool, and what the calls in it return. -/
structure ListenAnswers where
  m_family : Family
  perm : Nat
  socket : Int
  ncSetReuseAddr : Int
  bind : Int
  chmod : Int
  listen : Int
  ncSetNonBlocking : Int
  addConn : Int
  delOutput : Int

/-- **`NcProxyConn::reuse`.** -/
def ListenAnswers.reuse (answers : ListenAnswers) : Int :=
  match answers.m_family with
  | .inet => answers.ncSetReuseAddr
  | .inet6 => answers.ncSetReuseAddr
  | .unix => NC_OK
  | .unspec => NC_ERROR

/-- What the calls in `NcServerConn::ref` and `NcServerConn::connect` return, and the `errno` of the
last one that fails. -/
structure ConnectAnswers where
  ncResolve : Int
  socket : Int
  ncSetNonBlocking : Int
  addConn : Int
  connect : Int
  errno : Int

/-- **What the start-up sets up.** `evb` lists the connections whose descriptor is in the event
base. -/
structure StartUp where
  p_pool : NcObjectPool NcConn
  server : List NcServer
  p_conn : Ptr
  evb : List Addr

namespace StartUp

def conn (s : StartUp) (c : Addr) : NcConn := s.p_pool.mem c

def putConn (c : Addr) (f : NcConn → NcConn) (s : StartUp) : StartUp :=
  { s with p_pool := s.p_pool.put c f }

/-- `addConn` that succeeds. -/
def watch (c : Addr) (s : StartUp) : StartUp := { s with evb := s.evb ++ [c] }

/-- `p_pool.alloc`. -/
def alloc (s : StartUp) : StartUp × Addr :=
  ({ s with p_pool := (s.p_pool.alloc NcConn.new).1 }, (s.p_pool.alloc NcConn.new).2)

/-! ### The listening connection -/

/-- **`NcProxyConn::ref`.** -/
def proxyRef (c : Addr) (s : StartUp) : StartUp :=
  { s.putConn c fun conn => { conn with m_owner := some Proxy.pool } with p_conn := some c }

/-- **`NcProxyConn::unref`.** -/
def proxyUnref (c : Addr) (s : StartUp) : StartUp :=
  { s.putConn c fun conn => { conn with m_owner := none } with p_conn := none }

/-- **`NcProxyConn::close`.** The kernel forgets a descriptor that is closed, and `p_pool` is typed by
the base class. -/
def proxyClose (c : Addr) (s : StartUp) : StartUp :=
  let s := s.proxyUnref c
  let s :=
    if (s.conn c).m_sd < 0 then s
    else
      { s with evb := s.evb.filter fun other => other != c }.putConn c fun conn =>
        { conn with m_sd := -1 }
  { s with p_pool := s.p_pool.free NcConn.baseReset (some c) }

/-- **`NcProxyConn::listen`**, with its status. -/
def listen (c : Addr) (answers : ListenAnswers) (s : StartUp) : StartUp × Int :=
  let s := s.putConn c fun conn => { conn with m_sd := answers.socket }
  if answers.socket < 0 then (s, NC_ERROR)
  else if answers.reuse < 0 then (s, NC_ERROR)
  else if answers.bind < 0 then (s, NC_ERROR)
  else if answers.m_family = .unix ∧ answers.perm ≠ 0 ∧ answers.chmod < 0 then (s, NC_ERROR)
  else if answers.listen < 0 then (s, NC_ERROR)
  else if answers.ncSetNonBlocking < 0 then (s, NC_ERROR)
  else if answers.addConn < 0 then (s, NC_ERROR)
  else if answers.delOutput < 0 then (s.watch c, NC_ERROR)
  else (s.watch c, NC_OK)

/-- **`NcContext::createProxyConn`.** The second component is the connection it deletes, when it
returns an error. -/
def createProxyConn (answers : ListenAnswers) (s : StartUp) : StartUp × Ptr :=
  let c := s.alloc.2
  let result := (s.alloc.1.proxyRef c).listen c answers
  if result.2 ≠ NC_OK then (result.1.proxyClose c, some c) else (result.1, none)

/-! ### The connections to the servers -/

/-- **`NcServerConn::ref`** with the server at the index `i`. -/
def serverRef (i : Nat) (c : Addr) (ncResolve : Int) (s : StartUp) : StartUp :=
  let s :=
    if ncResolve ≠ NC_OK then
      s.putConn c fun conn => { conn with m_err := EHOSTDOWN, m_done := true }
    else s
  match s.server[i]? with
  | none => s
  | some server =>
      { s with
        server := s.server.set i
          { server with
            m_ns_conn_q := server.m_ns_conn_q + 1
            m_conn_queue := server.m_conn_queue ++ [some c] } }.putConn c
        fun conn => { conn with m_owner := some i }

/-- **`NcServerConn::connect`**, with its status. -/
def connect (c : Addr) (answers : ConnectAnswers) (s : StartUp) : StartUp × Int :=
  let failed (s : StartUp) : StartUp := s.putConn c fun conn => { conn with m_err := answers.errno }
  if (s.conn c).m_err ≠ 0 then (s, NC_ERROR)
  else if 0 < (s.conn c).m_sd then (s, NC_OK)
  else
    let s := s.putConn c fun conn => { conn with m_sd := answers.socket }
    if answers.socket < 0 then (failed s, NC_ERROR)
    else if answers.ncSetNonBlocking ≠ NC_OK then (failed s, answers.ncSetNonBlocking)
    else if answers.addConn ≠ NC_OK then (failed s, answers.addConn)
    else if answers.connect = NC_OK then
      ((s.watch c).putConn c fun conn => { conn with m_connected := true }, NC_OK)
    else if answers.errno = EINPROGRESS then
      ((s.watch c).putConn c fun conn => { conn with m_connecting := true }, NC_OK)
    else (failed (s.watch c), answers.connect)

/-- The loop of `createServerConn` from the index `i` on. **`NcServerConn::close` is empty.** -/
def connectServers (answers : Nat → ConnectAnswers) (i : Nat) : Nat → StartUp → StartUp × Ptr
  | 0, s => (s, none)
  | n + 1, s =>
      let c := s.alloc.2
      let result := (s.alloc.1.serverRef i c (answers i).ncResolve).connect c (answers i)
      if result.2 ≠ NC_OK then (result.1, some c)
      else connectServers answers (i + 1) n result.1

/-- **`NcContext::createServerConn`.** The second component is the connection it deletes, when it
returns an error. -/
def createServerConn (answers : Nat → ConnectAnswers) (s : StartUp) : StartUp × Ptr :=
  connectServers answers 0 s.server.length s

/-! ### What is left of a connection -/

/-- No pool, no server and no event base knows the connection. -/
structure Unreferenced (s : StartUp) (c : Addr) : Prop where
  pooled : c ∉ s.p_pool.m_queue
  queued : ∀ server ∈ s.server, some c ∉ server.m_conn_queue
  counted : ∀ server ∈ s.server,
    server.m_ns_conn_q.toNat = (server.m_conn_queue.filter fun other => other != some c).length
  listening : s.p_conn ≠ some c
  watched : c ∉ s.evb

variable {s : StartUp} {c : Addr}

/-- `close` gives the listening connection back, and unsets `p_conn`. -/
theorem proxyClose_spec (s : StartUp) (c : Addr) :
    c ∈ (s.proxyClose c).p_pool.m_queue ∧ (s.proxyClose c).p_conn = none := by
  unfold proxyClose
  dsimp only
  by_cases closed : ((s.proxyUnref c).conn c).m_sd < 0
  · rw [if_pos closed]
    exact ⟨List.mem_append_right _ List.mem_cons_self, rfl⟩
  · rw [if_neg closed]
    exact ⟨List.mem_append_right _ List.mem_cons_self, rfl⟩

/-- **The listening connection that is deleted is in `p_pool`.** -/
theorem createProxyConn_pooled {answers : ListenAnswers}
    (deleted : (s.createProxyConn answers).2 = some c) :
    c ∈ (s.createProxyConn answers).1.p_pool.m_queue ∧
      (s.createProxyConn answers).1.p_conn = none := by
  unfold createProxyConn at deleted ⊢
  dsimp only at deleted ⊢
  split at deleted
  · rename_i failed
    rw [if_pos failed, ← Option.some.inj deleted]
    exact proxyClose_spec _ _
  · cases deleted

/-- `connect` leaves the servers alone. -/
theorem connect_server (c : Addr) (answers : ConnectAnswers) (s : StartUp) :
    (s.connect c answers).1.server = s.server := by
  unfold connect
  dsimp only
  repeat' split
  all_goals rfl

/-- `ref` files the connection with its server. -/
theorem serverRef_server {i : Nat} {server : NcServer} (ncResolve : Int)
    (present : s.server[i]? = some server) :
    (s.serverRef i c ncResolve).server = s.server.set i
      { server with
        m_ns_conn_q := server.m_ns_conn_q + 1
        m_conn_queue := server.m_conn_queue ++ [some c] } := by
  unfold serverRef
  dsimp only
  by_cases unresolved : ncResolve ≠ NC_OK
  · rw [if_pos unresolved]
    rw [show (s.putConn c _).server[i]? = some server from present]
    rfl
  · rw [if_neg unresolved, present]
    rfl

/-- The loop deletes a connection that the server at its index has in the queue. -/
theorem connectServers_queued {answers : Nat → ConnectAnswers} {i n : Nat}
    (inside : i + n ≤ s.server.length) (deleted : (connectServers answers i n s).2 = some c) :
    ∃ server ∈ (connectServers answers i n s).1.server, some c ∈ server.m_conn_queue := by
  induction n generalizing i s with
  | zero => cases deleted
  | succ n ih =>
      have isServer : i < s.server.length := by omega
      have present : s.alloc.1.server[i]? = some s.server[i] := List.getElem?_eq_getElem isServer
      have servers := (connect_server s.alloc.2 (answers i)
        (s.alloc.1.serverRef i s.alloc.2 (answers i).ncResolve)).trans
          (serverRef_server (answers i).ncResolve present)
      rw [connectServers] at deleted ⊢
      split at deleted
      · rename_i failed
        -- The first failure: `ref` has queued the connection, and nothing takes it out.
        rw [if_pos failed, servers, ← Option.some.inj deleted]
        exact ⟨_, List.mem_set isServer _,
          List.mem_append_right _ List.mem_cons_self⟩
      · rename_i fine
        rw [if_neg fine]
        refine ih ?_ deleted
        rw [servers, List.length_set]
        show i + 1 + n ≤ s.server.length
        omega

/-- **The server connection that is deleted is in the queue of its server.** -/
theorem createServerConn_queued {answers : Nat → ConnectAnswers}
    (deleted : (s.createServerConn answers).2 = some c) :
    ∃ server ∈ (s.createServerConn answers).1.server, some c ∈ server.m_conn_queue :=
  connectServers_queued (Nat.le_of_eq (Nat.zero_add _)) deleted

/-- **A start-up that fails leaves a reference to the connection it deletes**, whatever the pool, the
servers and the call that fails. -/
theorem failed_dangling (s : StartUp) (c : Addr) :
    (∀ answers, (s.createProxyConn answers).2 = some c →
      ¬ (s.createProxyConn answers).1.Unreferenced c) ∧
    ∀ answers, (s.createServerConn answers).2 = some c →
      ¬ (s.createServerConn answers).1.Unreferenced c := by
  constructor
  · intro answers deleted unreferenced
    exact unreferenced.pooled (createProxyConn_pooled deleted).1
  · intro answers deleted unreferenced
    obtain ⟨server, inside, queued⟩ := createServerConn_queued deleted
    exact unreferenced.queued server inside queued

/-- A context with a server, before the start-up. -/
def fresh : StartUp where
  p_pool := .default (fun _ => .new) none
  server := [⟨[], 0, 0, 0⟩]
  p_conn := none
  evb := []

/-- The port is taken. -/
def portTaken : ListenAnswers where
  m_family := .inet
  perm := 0
  socket := 4
  ncSetReuseAddr := 0
  bind := -1
  chmod := 0
  listen := 0
  ncSetNonBlocking := 0
  addConn := 0
  delOutput := 0

/-- The server refuses the connection. -/
def refused : ConnectAnswers where
  ncResolve := 0
  socket := 4
  ncSetNonBlocking := 0
  addConn := 0
  connect := -1
  errno := 111

theorem failed_dangling_fresh :
    ¬ (fresh.createProxyConn portTaken).1.Unreferenced 0 ∧
      ¬ (fresh.createServerConn fun _ => refused).1.Unreferenced 0 :=
  ⟨(failed_dangling fresh 0).1 portTaken (by decide),
    (failed_dangling fresh 0).2 (fun _ => refused) (by decide)⟩

/-- **What the two failures leave of the connection that they delete**: it is in `p_pool`; and a server
has it in its queue and its count, and the event base watches it. -/
theorem left_behind :
    (fresh.createProxyConn portTaken).2 = some 0 ∧
      (fresh.createProxyConn portTaken).1.p_pool.m_queue = [0] ∧
      (fresh.createServerConn fun _ => refused).2 = some 0 ∧
      (fresh.createServerConn fun _ => refused).1.server = [⟨[some 0], 1, 0, 0⟩] ∧
      (fresh.createServerConn fun _ => refused).1.evb = [0] := by
  refine ⟨?_, ?_, ?_, ?_, ?_⟩ <;> decide

end StartUp

end Nutcracker
