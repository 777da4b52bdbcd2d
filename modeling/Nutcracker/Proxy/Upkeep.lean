/-
**No message leaks while every client waits for its responses.**

`freeMsg` gives a message back if the connection has an owner, and loses it if not. `close` leaves the
requests that a server connection still has: their responses are linked to them, and then nobody refers
to either any more. Where a client is closed only when its queue is empty, nothing is lost.

* `Upholds.recvTurn` — a rule for a turn of `recvMsg`: what holds before the read, and after
  `recvDone`.
* `Upkept.step` — every event but such a close keeps the messages together, and constructs one only if
  all are held.
* `messages_kept` — **the free messages and the held ones are those that were constructed**, each once,
  on all these runs.
* `messages_peak` — **and there are never more than were outstanding at once**: two for each request in
  the queues, and one for each connection.
* `lost_answered` — a client that goes while it waits leaves two messages that are neither.
-/

import Nutcracker.Proxy.Backlog
import Nutcracker.Proxy.EdgeTriggered
import Nutcracker.Proxy.Isolation
import Nutcracker.Proxy.Retention

namespace Nutcracker

open Lib

namespace Books

/-! ### How many messages there are -/

/-- What may be outstanding: a message for each connection, and two for each request in the queues of
the clients. -/
def weight (b : Books) : Nat :=
  (b.live.map fun c => 1 + 2 * (b.client c).omsg.length).sum + b.servers

/-- **The books are tight**: nothing leaks, and at most `n` messages were made. -/
structure Tight (n : Nat) (b : Books) : Prop where
  sound : b.Sound
  retains : b.Retains []
  distinct : b.live.Nodup
  made : b.made ≤ n

section Weight

variable {b : Books} {c s : Addr}

theorem length_holds (peer : Addr → Ptr) (desk : Desk) :
    (desk.holds peer).length ≤ desk.rmsg.toList.length + 2 * desk.omsg.length := by
  have := List.length_filterMap_le peer desk.omsg
  unfold Desk.holds
  rw [List.length_append, List.length_append]
  omega

/-- What the clients hold. -/
theorem length_clients (b : Books) :
    (b.live.flatMap fun c => (b.client c).holds b.peer).length ≤
      (b.live.map fun c => 1 + 2 * (b.client c).omsg.length).sum := by
  rw [List.length_flatMap]
  refine List.sum_le_sum fun c _ => (length_holds b.peer (b.client c)).trans ?_
  exact Nat.add_le_add_right Option.length_toList_le _

/-- What the server connections receive. -/
theorem length_servers (b : Books) :
    ((List.range b.servers).filterMap fun s => (b.server s).rmsg).length ≤ b.servers :=
  (List.length_filterMap_le _ _).trans_eq List.length_range

/-- **A client that receives nothing leaves room for a message.** -/
theorem held_lt_of_client (isLive : c ∈ b.live) (idle : (b.client c).rmsg = none) :
    b.held.length < b.weight := by
  have servers := length_servers b
  have clients : (b.live.flatMap fun c => (b.client c).holds b.peer).length <
      (b.live.map fun c => 1 + 2 * (b.client c).omsg.length).sum := by
    rw [List.length_flatMap]
    refine List.sum_lt_sum _ _ (fun d _ => (length_holds b.peer (b.client d)).trans
      (Nat.add_le_add_right Option.length_toList_le _)) ⟨c, isLive, ?_⟩
    have room := length_holds b.peer (b.client c)
    rw [idle, Option.toList_none, List.length_nil, Nat.zero_add] at room
    omega
  unfold held weight
  rw [List.length_append]
  omega

/-- So does a server connection. -/
theorem held_lt_of_server (born : s < b.servers) (idle : (b.server s).rmsg = none) :
    b.held.length < b.weight := by
  have clients := length_clients b
  have servers : ((List.range b.servers).filterMap fun s => (b.server s).rmsg).length <
      b.servers := by
    refine Nat.lt_of_lt_of_eq ?_ List.length_range
    exact List.length_filterMap_lt_length_iff_exists.mpr ⟨s, List.mem_range.mpr born, idle⟩
  unfold held weight
  rw [List.length_append]
  omega

/-- The queues decide. -/
theorem weight_congr {a : Books} (live : a.live = b.live) (servers : a.servers = b.servers)
    (omsg : ∀ c, (a.client c).omsg = (b.client c).omsg) : a.weight = b.weight := by
  unfold weight
  rw [live, servers]
  congr 3
  funext c
  rw [omsg c]

end Weight

namespace Tight

variable {n k : Nat} {b : Books} {c s m r : Addr} {rest : List Addr}

theorem mono (tight : b.Tight n) (more : n ≤ k) : b.Tight k :=
  { tight with made := tight.made.trans more }

/-- A message is constructed only if all are held. -/
theorem made_fetch (tight : b.Tight n) (room : b.held.length < b.weight) (weight : b.weight ≤ n) :
    b.fetch.made ≤ n := by
  have made := tight.made
  cases queue : b.free with
  | cons m rest =>
      rw [(fetch_cons queue).1]
      exact made
  | nil =>
      have all := (tight.retains.perm tight.sound tight.distinct).length_eq
      rw [queue, List.nil_append, List.length_range] at all
      rw [(fetch_nil queue).1]
      exact Nat.le_trans (Nat.succ_le_of_lt (all ▸ room)) weight

/-- A client connection takes a message. -/
theorem take (tight : b.Tight n) (weight : b.weight ≤ n) (isLive : c ∈ b.live)
    (idle : (b.client c).rmsg = none) :
    (b.fetch.setClient c { b.client c with rmsg := some b.next }).Tight n := by
  obtain ⟨place, agrees⟩ := tight.sound
  refine ⟨tight.sound.turn (.take isLive : Turn False b _),
    tight.retains.take agrees isLive idle, ?_, tight.made_fetch (held_lt_of_client isLive idle) weight⟩
  show b.fetch.live.Nodup
  rw [(fetch_frame b).1]
  exact tight.distinct

/-- A server connection takes one. -/
theorem takeServer (tight : b.Tight n) (weight : b.weight ≤ n) (born : s < b.servers)
    (idle : (b.server s).rmsg = none) :
    (b.fetch.setServer s { b.server s with rmsg := some b.next }).Tight n := by
  obtain ⟨place, agrees⟩ := tight.sound
  refine ⟨tight.sound.turn (.takeServer : Turn False b _),
    tight.retains.takeServer agrees born idle, ?_,
    tight.made_fetch (held_lt_of_server born idle) weight⟩
  show b.fetch.live.Nodup
  rw [(fetch_frame b).1]
  exact tight.distinct

theorem drop (tight : b.Tight n) (isLive : c ∈ b.live) (received : (b.client c).rmsg = some m) :
    ((b.putDown c).discard m).Tight n := by
  obtain ⟨place, agrees⟩ := tight.sound
  obtain ⟨live, -, -, -, -, -, made⟩ := discard_frame m (b.putDown c)
  exact ⟨tight.sound.within (tight.sound.drop isLive received : Within False b _),
    tight.retains.drop agrees isLive received, live ▸ tight.distinct, made ▸ tight.made⟩

theorem dropServer (tight : b.Tight n) (received : (b.server s).rmsg = some m) :
    ((b.putDownServer s).discard m).Tight n := by
  obtain ⟨place, agrees⟩ := tight.sound
  obtain ⟨live, -, -, -, -, -, made⟩ := discard_frame m (b.putDownServer s)
  exact ⟨tight.sound.within (tight.sound.dropServer received : Within False b _),
    tight.retains.dropServer agrees received, live ▸ tight.distinct, made ▸ tight.made⟩

theorem spawn (tight : b.Tight n) : b.spawn.Tight n :=
  ⟨tight.sound.turn (.spawn : Turn False b _), tight.retains.spawn, tight.distinct, tight.made⟩

theorem request (tight : b.Tight n) {dest : Ptr} (isLive : c ∈ b.live)
    (received : (b.client c).rmsg = some m) : (b.request c m dest).Tight n := by
  refine ⟨tight.sound.turn (.request isLive received : Turn False b _),
    tight.retains.request isLive received, ?_, ?_⟩
  · cases dest with
    | none => exact tight.distinct
    | some s => exact tight.distinct
  · cases dest with
    | none => exact tight.made
    | some s => exact tight.made

theorem move (tight : b.Tight n) (born : s < b.servers) (inside : m ∈ (b.server s).imsg) :
    (b.move s m).Tight n :=
  ⟨tight.sound.turn (.move born inside : Turn False b _), tight.retains.move inside,
    tight.distinct, tight.made⟩

theorem answer (tight : b.Tight n) (received : (b.server s).rmsg = some r)
    (queue : (b.server s).omsg = m :: rest) : (b.answer s r m).Tight n := by
  obtain ⟨place, agrees⟩ := tight.sound
  exact ⟨tight.sound.turn (.answer received queue : Turn False b _),
    tight.retains.answer agrees received queue, tight.distinct, tight.made⟩

/-- A response that nobody waits for is noted. -/
theorem respond (tight : b.Tight n) : (b.note (.responded s r)).Tight n :=
  ⟨tight.sound.turn (.stray id : Turn False b _), tight.retains.note _, tight.distinct, tight.made⟩

theorem hand (tight : b.Tight n) : (b.note (.handed c r)).Tight n := by
  obtain ⟨place, agrees⟩ := tight.sound
  exact ⟨⟨_, agrees.hand⟩, tight.retains.note _, tight.distinct, tight.made⟩

theorem complete (tight : b.Tight n) (isLive : c ∈ b.live) (queue : (b.client c).omsg = m :: rest)
    (peer : b.peer m = some r) : ((b.complete c r).discard m).Tight n := by
  obtain ⟨place, agrees⟩ := tight.sound
  obtain ⟨live, -, -, -, -, -, made⟩ := discard_frame m (b.complete c r)
  obtain ⟨loose, looseR⟩ := agrees.loose_complete isLive queue peer
  refine ⟨agrees.complete isLive queue peer |>.discard loose fun x linked => ?_,
    tight.retains.complete agrees isLive queue peer, live ▸ tight.distinct, made ▸ tight.made⟩
  rw [Option.some.inj ((show b.peer m = some x from linked).symm.trans peer)]
  exact looseR

/-- **A client comes.** -/
theorem enter (tight : b.Tight n) {sd : Int} (notLive : c ∉ b.live) (fresh : c ∉ rest)
    (still : ∀ d ∈ rest, d ∈ b.idle) : (b.enter c sd rest).Tight n := by
  obtain ⟨place, agrees⟩ := tight.sound
  refine ⟨⟨_, agrees.enter notLive fresh still⟩, tight.retains.enter notLive, ?_, tight.made⟩
  refine List.nodup_append.mpr ⟨tight.distinct, List.nodup_singleton c, fun d isLive e single => ?_⟩
  rw [List.mem_singleton.mp single]
  rintro rfl
  exact notLive isLive

/-- **A client goes** that receives nothing, with nothing in its queue. -/
theorem leave (tight : b.Tight n) (isLive : c ∈ b.live) (rmsg : (b.client c).rmsg = none)
    (omsg : (b.client c).omsg = []) : (b.leave c).Tight n := by
  obtain ⟨place, agrees⟩ := tight.sound
  exact ⟨⟨_, agrees.leave isLive rmsg⟩, tight.retains.leave rmsg omsg,
    NcQueue.nodup_remove tight.distinct, tight.made⟩

end Tight

end Books

namespace Proxy

/-! ### A rule for a turn of `recvMsg` -/

/-- **A receiver that leads from `Pre` to `Post`.** What happens before `recvDone` keeps `Pre`. -/
structure Upholds (Pre Post : Proxy → Prop) (r : Receiver) : Prop where
  put : ∀ f p, r.conn (r.put f p) = f (r.conn p)
  did : ∀ act p, r.conn (p.did act) = r.conn p
  putMsg : ∀ m f p, r.conn (p.putMsg m f) = r.conn p
  looks : ∀ handler empty p, Pre p → Pre (p.did (.looked handler empty))
  reads : ∀ answer size p, Pre p → Pre (r.put (fun _ => ((r.conn p).recv answer size).1) p)
  stores : ∀ m f p, (∀ msg : NcMsg, (f msg).m_peer = msg.m_peer ∧ (f msg).plain = msg.plain) →
    Pre p → Pre (p.putMsg m f)
  next : ∀ p, Pre p → Pre (r.recvNext true p).1
  current : ∀ p m, (r.recvNext true p).2 = some m → (r.conn (r.recvNext true p).1).m_rmsg = some m
  done : ∀ m p, Pre p → (r.conn p).m_rmsg = some m → Post (r.recvDone m p)
  again : ∀ p, Post p → Post (r.recvNext false p).1
  weaken : ∀ p, Pre p → Post p

namespace Upholds

variable {Pre Post : Proxy → Prop} {r : Receiver} {p : Proxy} {m : Addr}

theorem parse (upholds : Upholds Pre Post r) (holds : Pre p)
    (received : (r.conn p).m_rmsg = some m) : Post (Proxy.parse r m p).1 := by
  unfold Proxy.parse
  split
  · exact upholds.done m p holds received
  · refine upholds.done m _ (upholds.looks .parseDone (p.msg m).m_mbuf_queue.isEmpty _
      (upholds.looks .parse (p.msg m).m_mbuf_queue.isEmpty p holds)) ?_
    rw [upholds.did, upholds.did]
    exact received

theorem received (upholds : Upholds Pre Post r) (holds : Pre p)
    (current : (r.conn p).m_rmsg = some m) (before : List NcMbuf) (mbuf : NcMbuf)
    (bytes : List UInt8) : Post (Proxy.received r before mbuf bytes m p).1 := by
  unfold Proxy.received
  dsimp only
  have stored := upholds.stores m (fun msg =>
    { msg with m_mbuf_queue := before ++ [mbuf.copy bytes], m_mlen := bytes.length }) p
    (fun msg => ⟨rfl, rfl⟩) holds
  have parsed := upholds.parse (m := m) stored (by rw [upholds.putMsg]; exact current)
  split
  · exact upholds.again _ parsed
  · exact parsed

theorem recvChain (upholds : Upholds Pre Post r) (holds : Pre p)
    (current : (r.conn p).m_rmsg = some m) (fresh : NcMbuf) (answer : ReadAnswer) :
    Post (Proxy.recvChain r fresh answer m p).1 := by
  have looked := upholds.looks .recvChain (p.msg m).m_mbuf_queue.isEmpty p holds
  have taken := upholds.reads answer (tailMbuf fresh (p.msg m).m_mbuf_queue).2.size _ looked
  have still : (r.conn (r.put (fun _ => ((r.conn p).recv answer
      (tailMbuf fresh (p.msg m).m_mbuf_queue).2.size).1)
      (p.did (.looked .recvChain (p.msg m).m_mbuf_queue.isEmpty)))).m_rmsg = some m := by
    obtain ⟨ready, eof, err, same⟩ := recv_frame answer
      (tailMbuf fresh (p.msg m).m_mbuf_queue).2.size (r.conn p)
    rw [upholds.put, same]
    exact current
  rw [upholds.did] at taken
  cases read : (r.conn p).recv answer (tailMbuf fresh (p.msg m).m_mbuf_queue).2.size with
  | mk conn result =>
      rw [read] at taken still
      cases result with
      | ok bytes =>
          rw [recvChain_ok (fun act => upholds.did act p) rfl read]
          exact upholds.received taken still _ _ bytes
      | error status =>
          rw [recvChain_error (fun act => upholds.did act p) rfl read]
          exact upholds.weaken _ (upholds.stores m _ _ (fun msg => ⟨rfl, rfl⟩) taken)

/-- **The rule.** -/
theorem recvTurn (upholds : Upholds Pre Post r) (holds : Pre p) (fresh : NcMbuf)
    (answer : ReadAnswer) : Post (Proxy.recvTurn r fresh answer p).1 := by
  have next := upholds.next p holds
  have current := upholds.current p
  unfold Proxy.recvTurn
  cases result : r.recvNext true p with
  | mk q msg =>
      rw [result] at next current
      cases msg with
      | none => exact upholds.weaken q next
      | some m => exact upholds.recvChain next (current m rfl) fresh answer

end Upholds

/-! ### Clients -/

/-- The owner of a connection stays. -/
theorem owner_mends : NcConn.Mends fun a b => b.m_owner = a.m_owner where
  refl _ := rfl
  trans one two := two.trans one
  rmsg _ _ := rfl
  omsg_q _ _ := rfl
  err _ _ := rfl
  done _ := rfl
  quit _ := rfl

theorem owner_recv (answer : ReadAnswer) (size : Nat) (conn : NcConn) :
    (conn.recv answer size).1.m_owner = conn.m_owner := by
  obtain ⟨ready, eof, err, same⟩ := recv_frame answer size conn
  rw [same]

/-- The books are tight, and this client is open and has an owner. -/
structure Asking (n : Nat) (c : Addr) (p : Proxy) : Prop where
  tight : p.books.Tight n
  isOpen : p.Open c
  owned : (p.client c).m_owner ≠ none

namespace Asking

variable {n : Nat} {c m : Addr} {p : Proxy}

/-- What the books do not notice. -/
theorem unnoticed {q : Proxy} (asking : Asking n c p) (same : q.books = p.books)
    (owner : (q.client c).m_owner = (p.client c).m_owner) : Asking n c q where
  tight := same ▸ asking.tight
  isOpen := by
    show c ∈ q.books.live
    rw [same]
    exact asking.isOpen
  owned := owner ▸ asking.owned

/-- **`recvNext` of a client**, which takes a message if there is room for it. -/
theorem recvNext (asking : Asking n c p) (alloc : Bool) (room : alloc = true → p.books.weight ≤ n) :
    Asking n c (p.clientRecvNext c alloc).1 ∧
      (p.clientRecvNext c alloc).1.books.weight = p.books.weight := by
  have owner := owner_mends.clientRecvNext c alloc p
  have within : Books.Within False p.books (p.clientRecvNext c alloc).1.books :=
    (clientRecvNext_within alloc asking.tight.sound asking.isOpen).1
  have isOpen : (p.clientRecvNext c alloc).1.Open c := by
    show c ∈ (p.clientRecvNext c alloc).1.books.live
    rw [within.frame.live]
    exact asking.isOpen
  have owned : ((p.clientRecvNext c alloc).1.client c).m_owner ≠ none := by
    rw [owner]
    exact asking.owned
  -- What is received does not weigh.
  have weighs {b : Books} (live : b.live = p.books.live) (servers : b.servers = p.books.servers)
      (client : b.client = p.books.client) (rmsg : Ptr) :
      (b.setClient c { p.books.client c with rmsg := rmsg }).weight = p.books.weight := by
    refine Books.weight_congr live servers fun d => ?_
    show (Function.update b.client c _ d).omsg = _
    by_cases isC : d = c
    · rw [isC, Function.update_self]
    · rw [Function.update_of_ne isC, client]
  rcases clientRecvNext_cases c alloc p with same | ⟨m, received, ⟨none, -⟩ | given⟩ |
    ⟨idle, allocs, taken⟩
  · exact ⟨⟨same ▸ asking.tight, isOpen, owned⟩, congrArg Books.weight same⟩
  · exact absurd none asking.owned
  · obtain ⟨live, -, client, servers, -⟩ := Books.discard_frame m (p.books.putDown c)
    refine ⟨⟨given ▸ asking.tight.drop asking.isOpen received, isOpen, owned⟩, ?_⟩
    rw [given, ← weighs rfl rfl rfl none]
    exact Books.weight_congr live servers fun d => by rw [client]; rfl
  · obtain ⟨live, -, client, servers, -⟩ := Books.fetch_frame p.books
    refine ⟨⟨taken ▸ asking.tight.take (room allocs) asking.isOpen idle, isOpen, owned⟩, ?_⟩
    rw [taken]
    exact weighs live servers client _

/-- **`recvDone` of a client.** -/
theorem recvDone (asking : Asking n c p) (choice : Choice) (sys : ForwardAnswers)
    (received : (p.client c).m_rmsg = some m) : Asking n c (p.clientRecvDone choice.pick sys c m) := by
  have owner := owner_mends.clientRecvDone c choice sys m p
  have within : Books.Within False p.books (p.clientRecvDone choice.pick sys c m).books :=
    clientRecvDone_within choice sys asking.tight.sound asking.isOpen received
  refine ⟨?_, ?_, owner ▸ asking.owned⟩
  · rcases clientRecvDone_cases choice sys asking.tight.sound asking.isOpen received with
      ⟨b, dest, start, forwarded⟩ | ⟨none, -⟩ | given
    · rw [forwarded]
      rcases start with rfl | rfl
      · exact asking.tight.request asking.isOpen received
      · exact asking.tight.spawn.request asking.isOpen received
    · exact absurd none asking.owned
    · rw [given]
      exact asking.tight.drop asking.isOpen received
  · show c ∈ (p.clientRecvDone choice.pick sys c m).books.live
    rw [within.frame.live]
    exact asking.isOpen

end Asking

/-- **Receiving from a client keeps the books tight**, if there is room. -/
theorem clientReceiver_upholds (n : Nat) (choice : Choice) (sys : ForwardAnswers) (c : Addr) :
    Upholds (fun p => Asking n c p ∧ p.books.weight ≤ n) (Asking n c)
      (clientReceiver choice.pick sys c) where
  put f p := client_putClient c f p
  did act p := client_did act p c
  putMsg m f p := client_putMsg m f p c
  looks _ _ _ holds := ⟨holds.1.unnoticed rfl rfl, holds.2⟩
  reads answer size p holds := by
    have same : (p.putClient c fun _ => ((p.client c).recv answer size).1).books = p.books :=
      books_putClient_of_desk (recv_desk answer size (p.client c))
    refine ⟨holds.1.unnoticed same ?_, (congrArg Books.weight same).trans_le holds.2⟩
    show ((p.putClient c fun _ => ((p.client c).recv answer size).1).client c).m_owner = _
    rw [client_putClient]
    exact owner_recv answer size (p.client c)
  stores m f p still holds := by
    have same : (p.putMsg m f).books = p.books :=
      books_putMsg_of_peer (still (p.msg m)).1 (still (p.msg m)).2
    exact ⟨holds.1.unnoticed same rfl, (congrArg Books.weight same).trans_le holds.2⟩
  next p holds := by
    obtain ⟨asking, weight⟩ := holds.1.recvNext true fun _ => holds.2
    exact ⟨asking, weight.trans_le holds.2⟩
  current p m := clientRecvNext_current c true p m
  done m p holds := holds.1.recvDone choice sys
  again p holds := (holds.recvNext false nofun).1
  weaken p holds := holds.1

/-! ### Servers -/

/-- The books are tight, and this server connection was made and has an owner. -/
structure Answering (n : Nat) (s : Addr) (p : Proxy) : Prop where
  tight : p.books.Tight n
  born : s < p.s_pool.made
  owned : (p.server s).m_owner ≠ none

namespace Answering

variable {n : Nat} {s m : Addr} {p : Proxy}

theorem unnoticed {q : Proxy} (answering : Answering n s p) (same : q.books = p.books)
    (owner : (q.server s).m_owner = (p.server s).m_owner) : Answering n s q where
  tight := same ▸ answering.tight
  born := by
    show s < q.books.servers
    rw [same]
    exact answering.born
  owned := owner ▸ answering.owned

/-- **`recvNext` of a server connection**, which takes a message if there is room for it. -/
theorem recvNext (answering : Answering n s p) (alloc : Bool)
    (room : alloc = true → p.books.weight ≤ n) :
    Answering n s (p.serverRecvNext s alloc).1 ∧
      (p.serverRecvNext s alloc).1.books.weight = p.books.weight := by
  have owner := owner_mends.serverRecvNext s alloc p
  have within : Books.Within False p.books (p.serverRecvNext s alloc).1.books :=
    (serverRecvNext_within alloc answering.tight.sound).1
  have born : s < (p.serverRecvNext s alloc).1.s_pool.made :=
    Nat.lt_of_lt_of_le answering.born within.frame.servers
  have owned : ((p.serverRecvNext s alloc).1.server s).m_owner ≠ none := by
    rw [owner]
    exact answering.owned
  rcases serverRecvNext_cases alloc answering.tight.sound with
    same | ⟨m, received, ⟨none, -⟩ | given⟩ | ⟨idle, allocs, taken⟩
  · exact ⟨⟨same ▸ answering.tight, born, owned⟩, congrArg Books.weight same⟩
  · exact absurd none answering.owned
  · obtain ⟨live, -, client, servers, -⟩ := Books.discard_frame m (p.books.putDownServer s)
    refine ⟨⟨given ▸ answering.tight.dropServer received, born, owned⟩, ?_⟩
    rw [given]
    exact Books.weight_congr live servers fun d => by rw [client]; rfl
  · obtain ⟨live, -, client, servers, -⟩ := Books.fetch_frame p.books
    refine ⟨⟨taken ▸ answering.tight.takeServer (room allocs) answering.born idle, born, owned⟩, ?_⟩
    rw [taken]
    exact Books.weight_congr live servers fun d => by
      show (p.books.fetch.client d).omsg = _
      rw [client]

/-- **`recvDone` of a server connection.** -/
theorem recvDone (answering : Answering n s p) (sys : ForwardAnswers)
    (received : (p.server s).m_rmsg = some m) : Answering n s (p.serverRecvDone sys s m) := by
  have owner := owner_mends.serverRecvDone s sys m p
  have within : Books.Within False p.books (p.serverRecvDone sys s m).books :=
    serverRecvDone_within sys answering.tight.sound received False.elim
  refine ⟨?_, Nat.lt_of_lt_of_le answering.born within.frame.servers, owner ▸ answering.owned⟩
  rcases serverRecvDone_cases sys answering.tight.sound received with
    ⟨-, ⟨none, -⟩ | given⟩ | ⟨-, -, ⟨none, -⟩ | given⟩ | ⟨pmsg, rest, waiting, answered⟩
  · exact absurd none answering.owned
  · rw [given]
    exact answering.tight.dropServer received
  · exact absurd none answering.owned
  · rw [given]
    exact answering.tight.respond.dropServer received
  · rw [answered]
    exact answering.tight.answer received waiting

end Answering

/-- **Receiving from a server keeps the books tight**, if there is room. -/
theorem serverReceiver_upholds (n : Nat) (sys : ForwardAnswers) (s : Addr) :
    Upholds (fun p => Answering n s p ∧ p.books.weight ≤ n) (Answering n s)
      (serverReceiver sys s) where
  put f p := server_putServer s f p
  did act p := server_did act p s
  putMsg m f p := server_putMsg m f p s
  looks _ _ _ holds := ⟨holds.1.unnoticed rfl rfl, holds.2⟩
  reads answer size p holds := by
    have same : (p.putServer s fun _ => ((p.server s).recv answer size).1).books = p.books :=
      books_putServer_of_desk (recv_desk answer size (p.server s))
    refine ⟨holds.1.unnoticed same ?_, (congrArg Books.weight same).trans_le holds.2⟩
    show ((p.putServer s fun _ => ((p.server s).recv answer size).1).server s).m_owner = _
    rw [server_putServer]
    exact owner_recv answer size (p.server s)
  stores m f p still holds := by
    have same : (p.putMsg m f).books = p.books :=
      books_putMsg_of_peer (still (p.msg m)).1 (still (p.msg m)).2
    exact ⟨holds.1.unnoticed same rfl, (congrArg Books.weight same).trans_le holds.2⟩
  next p holds := by
    obtain ⟨answering, weight⟩ := holds.1.recvNext true fun _ => holds.2
    exact ⟨answering, weight.trans_le holds.2⟩
  current p m := serverRecvNext_current s true p m
  done m p holds := holds.1.recvDone sys
  again p holds := (holds.recvNext false nofun).1
  weaken p holds := holds.1

/-! ### Events -/

/-- A client is closed only with nothing in its queue. -/
def LeavesNothing (p : Proxy) : ProxyEvent → Prop
  | .clientClose c => (p.client c).m_omsg_q = []
  | _ => True

/-- **Upkeep**: the books are tight, open clients have an owner, and clients that went left no
requests. -/
structure Upkept (n : Nat) (p : Proxy) : Prop where
  tight : p.books.Tight n
  owned : ∀ c, p.Open c → (p.client c).m_owner ≠ none
  unworn : p.books.Unworn

/-- The clients keep their owners. -/
def SameOwners (p q : Proxy) : Prop := ∀ d, (q.client d).m_owner = (p.client d).m_owner

theorem sameOwners_fails : Fails SameOwners where
  refl _ _ := rfl
  trans one two d := (two d).trans (one d)
  did _ _ _ _ := rfl
  msgs _ _ _ := rfl
  putServer _ _ _ _ := rfl
  fail c err p d := by
    by_cases isC : d = c
    · rw [isC, client_putClient]
    · rw [client_putClient_of_ne _ _ isC]

/-- But one. -/
def OtherOwners (c : Addr) (p q : Proxy) : Prop :=
  ∀ d, d ≠ c → (q.client d).m_owner = (p.client d).m_owner

theorem otherOwners_tends (c : Addr) : Tends c (OtherOwners c) where
  refl _ _ _ := rfl
  trans one two d other := (two d other).trans (one d other)
  did _ _ _ _ _ := rfl
  msgs _ _ _ _ := rfl
  putServer _ _ _ _ _ := rfl
  putClient f p _ d other := by rw [client_putClient_of_ne f p other]

theorem otherOwners_pick (c : Addr) (choice : Choice) (p : Proxy) :
    OtherOwners c p (choice.pick p).1 := fun d _ => by rw [client_pick]

/-- A turn of `sendMsg` keeps the owner of its connection. -/
theorem owner_clientSend {c : Addr} {delOutput : Option Int} {answer : NcConn.SendvAnswer}
    {p q : Proxy} (turn : p.clientSendTurn c delOutput answer = .ok q) :
    (q.client c).m_owner = (p.client c).m_owner := by
  rcases clientSendTurn_cases turn with ⟨-, final⟩ | ⟨rsp, pmsg, rest, nsent, ready, err, -, -, -, final⟩
  · rw [final, client_putClient]
    unfold NcClientConn.sendNext
    split
    · cases delOutput <;> cases (p.client c).m_eof <;> rfl
    · split <;> rfl
  · obtain ⟨left, conn⟩ := accounted_conn rsp nsent
      ⟨{ p.client c with m_smsg := none, m_send_ready := ready, m_err := err }, p.msg_pool⟩
    have put (acts : List Act) (msg_pool : NcObjectPool NcMsg) (f : NcConn → NcConn) :
        Proxy.client { { p with msg_pool := msg_pool }.putClient c f with acts := acts } c =
          f (p.client c) := NcObjectPool.mem_put_self ..
    have after : q.client c = (NcConn.accounted NcClientConn.sendDone rsp nsent
        ⟨{ p.client c with m_smsg := none, m_send_ready := ready, m_err := err },
          p.msg_pool⟩).conn := by
      rcases final with ⟨-, final⟩ | ⟨-, final⟩
      · rw [final]
        exact put _ _ fun _ => _
      · rw [final]
        exact put _ _ fun _ => _
    rw [after, conn]

/-- A new connection has an owner. -/
theorem m_owner_enroll (p : Proxy) (sd : Int) :
    ((p.enroll sd).client p.nextClient).m_owner = some pool := by
  have mem : (p.enroll sd).client p.nextClient =
      (((p.c_pool.alloc NcConn.new).1.put p.nextClient fun conn =>
        { conn with m_sd := sd }).put p.nextClient fun conn =>
        { conn with m_owner := some pool }).mem p.nextClient := rfl
  rw [mem, NcObjectPool.mem_put_self]

/-- A close leaves the owners of the others. -/
theorem owner_close (c : Addr) (p : Proxy) : OtherOwners c p (p.close c) := by
  intro d other
  unfold close
  dsimp only
  split
  · rw [(client_left other _).2, (client_left other _).1, client_did]
  · rw [(client_left other _).2, client_putClient_of_ne _ _ other, (client_left other _).1,
      (otherOwners_tends c).dropMsgs (p.did (.closed c)) d other, client_did]

/-- **A client that is closed with nothing in its queue** gives back what it receives, and goes. -/
theorem close_empty {c : Addr} {p : Proxy} (counted : Counted p) (isOpen : p.Open c)
    (owned : (p.client c).m_owner ≠ none) (omsg : (p.client c).m_omsg_q = []) :
    ((p.books.client c).rmsg = none ∧ (p.close c).books = p.books.leave c) ∨
      ∃ m, (p.books.client c).rmsg = some m ∧
        (p.close c).books = ((p.books.putDown c).discard m).leave c := by
  have notNegative : ¬ ((p.did (.closed c)).client c).m_sd < 0 :=
    Int.not_lt.mpr (counted.range c isOpen).1
  have noted : (p.did (.closed c)).books = p.books := rfl
  unfold close
  dsimp only
  rw [if_neg notNegative, books_leave]
  unfold dropMsgs
  rw [client_did]
  cases received : (p.client c).m_rmsg with
  | none =>
      refine Or.inl ⟨received, ?_⟩
      dsimp only
      rw [client_did, omsg]
      rfl
  | some m =>
      refine Or.inr ⟨m, received, ?_⟩
      dsimp only
      have queue : (((p.did (.closed c)).putClient c fun conn =>
          { conn with m_rmsg := none }).client c).m_omsg_q = [] := by
        rw [client_putClient]
        exact omsg
      show (Proxy.discard _ (((p.did (.closed c)).putClient c fun conn =>
          { conn with m_rmsg := none }).client c).m_omsg_q _).books.leave c = _
      rw [queue]
      show (Proxy.freeMsg _ m true _).books.leave c = _
      rw [books_freeMsg owned (Or.inl rfl), books_putDown, noted]

namespace Upkept

variable {n k : Nat} {p q : Proxy} {c s : Addr}

theorem mono (upkept : Upkept n p) (more : n ≤ k) : Upkept k p :=
  { upkept with tight := upkept.tight.mono more }

/-- The same clients are open, and keep their owners. -/
theorem turn (upkept : Upkept n p) (tight : q.books.Tight k) (live : q.books.live = p.books.live)
    (unworn : q.books.Unworn) (owners : SameOwners p q) : Upkept k q where
  tight := tight
  owned c isOpen := by
    rw [owners c]
    refine upkept.owned c ?_
    show c ∈ p.books.live
    rw [← live]
    exact isOpen
  unworn := unworn

/-- The turns of the books concern the clients that there are. -/
theorem unworn_within (upkept : Upkept n p) (within : Books.Within False p.books q.books) :
    q.books.Unworn := by
  obtain ⟨place, agrees⟩ := upkept.tight.sound
  exact upkept.unworn.within agrees.apart within

/-- **A turn of `recvMsg` on a client connection.** -/
theorem clientRecv (upkept : Upkept n p) (weight : p.books.weight ≤ n) (choice : Choice)
    (sys : ForwardAnswers) (fresh : NcMbuf) (answer : ReadAnswer) (isOpen : p.Open c) :
    Upkept n (recvTurn (clientReceiver choice.pick sys c) fresh answer p).1 := by
  have asking : Asking n c p := ⟨upkept.tight, isOpen, upkept.owned c isOpen⟩
  have after := (clientReceiver_upholds n choice sys c).recvTurn ⟨asking, weight⟩ fresh answer
  have others := (otherOwners_tends c).clientRecv (otherOwners_pick c choice) sys fresh answer p
  have within : Books.Within False p.books
      (recvTurn (clientReceiver choice.pick sys c) fresh answer p).1.books :=
    clientRecv_within choice sys fresh answer upkept.tight.sound isOpen
  refine ⟨after.tight, fun d isOpen => ?_, upkept.unworn_within within⟩
  by_cases isC : d = c
  · exact isC ▸ after.owned
  · rw [others d isC]
    refine upkept.owned d ?_
    show d ∈ p.books.live
    rw [← within.frame.live]
    exact isOpen

/-- **A turn of `recvMsg` on a server connection.** -/
theorem serverRecv (upkept : Upkept n p) (weight : p.books.weight ≤ n) (sys : ForwardAnswers)
    (fresh : NcMbuf) (answer : ReadAnswer) (serving : p.Serving s) :
    Upkept n (recvTurn (serverReceiver sys s) fresh answer p).1 := by
  have answering : Answering n s p := ⟨upkept.tight, serving.1, serving.2.1⟩
  have after := (serverReceiver_upholds n sys s).recvTurn ⟨answering, weight⟩ fresh answer
  have within : Books.Within False p.books
      (recvTurn (serverReceiver sys s) fresh answer p).1.books :=
    serverRecv_within sys upkept.tight.sound False.elim
  exact upkept.turn after.tight within.frame.live (upkept.unworn_within within)
    (sameOwners_fails.serverRecv sys s fresh answer p)

/-- **A turn of `sendMsg` on a client connection.** -/
theorem clientSend (upkept : Upkept n p) {delOutput : Option Int} {answer : NcConn.SendvAnswer}
    (isOpen : p.Open c) (turn : p.clientSendTurn c delOutput answer = .ok q) : Upkept n q := by
  have others := (otherOwners_tends c).clientSend turn
  have owners : SameOwners p q := fun d => by
    by_cases isC : d = c
    · rw [isC]
      exact owner_clientSend turn
    · exact others d isC
  have stepped : Books.Step True p.books q.books := clientSend_step upkept.tight.sound isOpen turn
  have unworn := upkept.unworn.step upkept.tight.sound stepped
  rcases clientSend_cases upkept.tight.sound isOpen turn with
    same | ⟨r, m, rest, queue, peer, handed | ⟨none, -⟩ | given⟩
  · exact upkept.turn (same ▸ upkept.tight) (same ▸ rfl) unworn owners
  · exact upkept.turn (handed ▸ upkept.tight.hand) (handed ▸ rfl) unworn owners
  · exact absurd none (upkept.owned c isOpen)
  · refine upkept.turn (given ▸ upkept.tight.hand.complete isOpen queue peer) ?_ unworn owners
    rw [given]
    exact (Books.discard_frame m _).1

/-- **A turn of `sendMsg` on a server connection.** -/
theorem serverSend (upkept : Upkept n p) (sys : SysCalls) {done : Ptr} (serving : p.Serving s)
    (inside : ∀ m ∈ done, m ∈ (p.server s).m_imsg_q) :
    Upkept n (p.serverSendTurn s sys done) := by
  have within : Books.Within False p.books (p.serverSendTurn s sys done).books :=
    serverSend_within sys upkept.tight.sound serving.1 inside
  refine upkept.turn ?_ within.frame.live (upkept.unworn_within within)
    (sameOwners_fails.toBase.serverSend s sys done p)
  rcases serverSend_cases sys upkept.tight.sound inside with same | ⟨m, member, moved⟩
  · exact same ▸ upkept.tight
  · exact moved ▸ upkept.tight.move serving.1 member

/-! ### Clients that come and go -/

/-- **A client is accepted.** -/
theorem enroll (upkept : Upkept n p) (counted : Counted p) (sd : Int) : Upkept n (p.enroll sd) := by
  have clean : p.Clean := fun c first => upkept.unworn c (List.mem_of_mem_head? first)
  obtain ⟨rest, enrolled, notLive, unused, still⟩ :=
    enroll_books sd upkept.tight.sound counted clean
  refine ⟨enrolled ▸ upkept.tight.enter notLive unused still, fun d isOpen => ?_,
    enrolled ▸ upkept.unworn.enter unused still⟩
  by_cases isNew : d = p.nextClient
  · rw [isNew, m_owner_enroll]
    exact Option.some_ne_none pool
  · rw [client_enroll sd p isNew]
    exact upkept.owned d ((List.mem_append.mp isOpen).resolve_right (mt List.mem_singleton.mp isNew))

/-- **A client is closed** with nothing in its queue. -/
theorem close (upkept : Upkept n p) (counted : Counted p) (isOpen : p.Open c)
    (omsg : (p.client c).m_omsg_q = []) : Upkept n (p.close c) := by
  have closed := close_empty counted isOpen (upkept.owned c isOpen) omsg
  have isLive : c ∈ p.books.live := isOpen
  have owned (d : Addr) (stays : (p.close c).Open d) : ((p.close c).client d).m_owner ≠ none := by
    have left : d ∈ (p.close c).server_pool.c_conn_q := stays
    rw [(close_left c p).1] at left
    obtain ⟨was, other⟩ := NcQueue.mem_remove.mp left
    rw [owner_close c p d other]
    exact upkept.owned d was
  obtain ⟨b, after, tight, unworn, live, rmsg, omsg⟩ :
      ∃ b : Books, (p.close c).books = b.leave c ∧ b.Tight n ∧ b.Unworn ∧ c ∈ b.live ∧
        (b.client c).rmsg = none ∧ (b.client c).omsg = [] := by
    rcases closed with ⟨idle, gone⟩ | ⟨m, received, gone⟩
    · exact ⟨p.books, gone, upkept.tight, upkept.unworn, isLive, idle, omsg⟩
    · obtain ⟨live, idle, client, -⟩ := Books.discard_frame m (p.books.putDown c)
      have desk : (((p.books.putDown c).discard m).client c) =
          { p.books.client c with rmsg := none } := by
        rw [client]
        exact Function.update_self ..
      refine ⟨_, gone, upkept.tight.drop isLive received, fun d isIdle => ?_, live ▸ isLive,
        congrArg Desk.rmsg desk, (congrArg Desk.omsg desk).trans omsg⟩
      have was : d ∈ p.books.idle := by
        rw [idle] at isIdle
        exact isIdle
      rw [client]
      by_cases isC : d = c
      · rw [isC]
        exact (congrArg Desk.omsg (Function.update_self ..)).trans omsg
      · exact (congrArg Desk.omsg (Function.update_of_ne isC ..)).trans (upkept.unworn d was)
  refine ⟨after ▸ tight.leave live rmsg omsg, owned, fun d isIdle => ?_⟩
  rw [after] at isIdle ⊢
  rcases List.mem_append.mp isIdle with old | new
  · exact unworn d old
  · exact List.mem_singleton.mp new ▸ omsg

/-- **A client is refused**: the object that it got goes back as it came. -/
theorem refuse (upkept : Upkept n p) (counted : Counted p) {sd : Int} (counted' : Counted (p.enroll sd))
    (isOpen : (p.enroll sd).Open p.nextClient) : Upkept n ((p.enroll sd).close p.nextClient) := by
  refine (upkept.enroll counted sd).close counted' isOpen ?_
  have clean : p.Clean := fun c first => upkept.unworn c (List.mem_of_mem_head? first)
  obtain ⟨rest, enrolled, -⟩ := enroll_books sd upkept.tight.sound counted clean
  show ((p.enroll sd).books.client p.nextClient).omsg = []
  rw [enrolled]
  show (Function.update p.books.client p.nextClient .bare p.nextClient).omsg = []
  rw [Function.update_self]
  rfl

/-- **Every event keeps the proxy**, if there is room for the messages that it takes and no client goes
that has requests. -/
theorem step {event : ProxyEvent} (upkept : Upkept n p) (weight : p.books.weight ≤ n)
    (counted : Counted p) (leaves : LeavesNothing p event) (step : Step p event q) : Upkept n q := by
  cases event with
  | accept answer =>
      rw [step.2]
      cases answer with
      | failed => exact upkept
      | descriptor sd setNonBlocking addConn =>
          show Upkept n (if _ then p else _)
          by_cases refused : p.ctx.max_ncconn ≤ ncCurCConn
          · rw [if_pos refused]
            exact upkept
          rw [if_neg refused]
          obtain ⟨least, greatest, fresh⟩ := step.1
          obtain ⟨counted', isOpen⟩ := counted.enroll ⟨least, greatest⟩ fresh
          split
          · exact upkept.enroll counted sd
          · exact upkept.refuse counted counted' isOpen
  | clientRecv c choice sys fresh answer =>
      rw [step.2]
      exact upkept.clientRecv weight choice sys fresh answer step.1
  | clientSend c delOutput answer => exact upkept.clientSend step.1 step.2
  | clientClose c =>
      rw [step.2]
      exact upkept.close counted step.1 leaves
  | serverRecv s sys fresh answer =>
      rw [step.2]
      exact upkept.serverRecv weight sys fresh answer step.1
  | serverSend s sys done =>
      rw [step.2.2]
      exact upkept.serverSend sys step.1 step.2.1
  | serverClose s =>
      rw [step.2]
      exact ⟨upkept.tight, upkept.owned, upkept.unworn⟩

/-- At the start there are no messages and no clients. -/
theorem start {rlim_cur : UInt64} (start : Start rlim_cur p) : Upkept 0 p := by
  obtain ⟨mem, current, msg_pool⟩ := start.msg_pool
  obtain ⟨mem', current', c_pool⟩ := start.c_pool
  have made : p.books.made = 0 := by
    show p.msg_pool.made = 0
    rw [msg_pool]
    rfl
  have live : p.books.live = [] := start.c_conn_q
  have idle : p.books.idle = [] := by
    show p.c_pool.m_queue = []
    rw [c_pool]
    rfl
  refine ⟨⟨sound_start start, ⟨fun s m inside => ?_, fun m below => ?_⟩, live ▸ List.nodup_nil,
    made.le⟩, fun c isOpen => ?_, fun c isIdle => ?_⟩
  · obtain ⟨imsg_q, omsg_q, -⟩ := start.s_conns s
    have bare : (p.books.server s).imsg ++ (p.books.server s).omsg = [] := by
      show (p.server s).m_imsg_q ++ (p.server s).m_omsg_q = []
      rw [imsg_q, omsg_q, List.nil_append]
    exact absurd (bare ▸ inside) List.not_mem_nil
  · exact absurd (made ▸ below) (Nat.not_lt_zero m)
  · exact absurd (live ▸ (show c ∈ p.books.live from isOpen)) List.not_mem_nil
  · exact absurd (idle ▸ isIdle) List.not_mem_nil

end Upkept

/-! ### Runs -/

/-- What may be outstanding: a message for each connection, and two for each request in the queues of
the clients. -/
def outstanding (p : Proxy) : Nat :=
  (p.server_pool.c_conn_q.map fun c => 1 + 2 * (p.client c).m_omsg_q.length).sum + p.s_pool.made

/-- **The runs on which clients leave nothing**, with the most that was outstanding. -/
def tidyRuns (rlim_cur : UInt64) : System (Proxy × Nat) ProxyEvent where
  init w := Start rlim_cur w.1 ∧ w.2 = 0
  step w event w' := LeavesNothing w.1 event ∧ Step w.1 event w'.1 ∧ w'.2 = max w.2 w.1.outstanding

/-- What these runs keep. -/
theorem upkept_run {rlim_cur : UInt64} {w : Proxy × Nat} (reached : (tidyRuns rlim_cur).Reach w) :
    (proxyRuns rlim_cur).Reach w.1 ∧ Upkept w.2 w.1 := by
  refine reached.invariant (I := fun w => (proxyRuns rlim_cur).Reach w.1 ∧ Upkept w.2 w.1)
    (fun w start => ?_) fun w event w' _ kept step => ?_
  · obtain ⟨start, peak⟩ := start
    exact ⟨.start start, peak ▸ .start start⟩
  · obtain ⟨inner, upkept⟩ := kept
    obtain ⟨leaves, step, peak⟩ := step
    refine ⟨inner.next (a := event) step, ?_⟩
    rw [peak]
    exact (upkept.mono (Nat.le_max_left _ _)).step (Nat.le_max_right _ _) (Counted.run inner) leaves
      step

/-- **The pool never holds more messages than were outstanding at once.** -/
theorem messages_peak (rlim_cur : UInt64) (p : Proxy) (peak : Nat)
    (reached : (tidyRuns rlim_cur).Reach (p, peak)) : p.msg_pool.made ≤ peak :=
  (upkept_run reached).2.tight.made

/-- The next event of such a run. -/
theorem tidy_next {rlim_cur : UInt64} {p q : Proxy} {peak more : Nat} {a : ProxyEvent}
    (reached : (tidyRuns rlim_cur).Reach (p, peak)) (leaves : LeavesNothing p a)
    (step : Step p a q) (most : more = max peak p.outstanding) :
    (tidyRuns rlim_cur).Reach (q, more) :=
  reached.next (a := a) ⟨leaves, step, most⟩

/-- A client comes, a request of it is read, and sent, and answered. -/
theorem tidy_firstAnswered : (tidyRuns 1024).Reach (firstAnswered, 4) := by
  have waits : clientAccepted.outstanding = 2 := by decide
  have asks : firstRead.outstanding = 4 := by decide
  have still : firstSent.outstanding = 4 := by decide
  have start : (tidyRuns 1024).Reach (atStart 1024, 0) := .start ⟨start_atStart 1024, rfl⟩
  have accepted : (tidyRuns 1024).Reach (clientAccepted, 1) :=
    tidy_next start (a := .accept (.descriptor 5 true true)) trivial step_clientAccepted rfl
  have read : (tidyRuns 1024).Reach (firstRead, 2) :=
    tidy_next accepted (a := .clientRecv 0 (.index 0) ⟨0, none, none⟩ freshMbuf (.bytes [7]))
      trivial ⟨List.mem_cons_self, rfl⟩ (waits ▸ rfl)
  have sent : (tidyRuns 1024).Reach (firstSent, 4) :=
    tidy_next read (a := .serverSend 0 ⟨.inProgress 4, none⟩ (some 0)) trivial
      ⟨by decide, by decide, rfl⟩ (asks ▸ rfl)
  exact tidy_next sent (a := .serverRecv 0 ⟨0, none, none⟩ freshMbuf (.bytes [8])) trivial
    ⟨by decide, rfl⟩ (still ▸ rfl)

theorem messages_peak_firstAnswered : firstAnswered.msg_pool.made ≤ 4 :=
  messages_peak 1024 firstAnswered 4 tidy_firstAnswered

/-- **No message leaks.** On the runs where a client is closed only with nothing in its queue, the
messages that were made are the free ones and those that the connections hold, each once. -/
theorem messages_kept (rlim_cur : UInt64) (p : Proxy)
    (reached : ((proxyRuns rlim_cur).guarded LeavesNothing).Reach p) :
    (p.msg_pool.m_queue ++ p.books.held).Perm (List.range p.msg_pool.made) := by
  obtain ⟨n, upkept⟩ : ∃ n, Upkept n p := by
    refine reached.invariant (I := fun p => ∃ n, Upkept n p) (fun p start => ⟨0, .start start⟩)
      fun p event q inner kept step => ?_
    obtain ⟨n, upkept⟩ := kept
    exact ⟨max n p.books.weight, (upkept.mono (Nat.le_max_left _ _)).step (Nat.le_max_right _ _)
      (Counted.run inner.of_guarded) step.1 step.2⟩
  exact upkept.tight.retains.perm upkept.tight.sound upkept.tight.distinct

theorem messages_kept_firstAnswered :
    (firstAnswered.msg_pool.m_queue ++ firstAnswered.books.held).Perm [0, 1] :=
  messages_kept 1024 firstAnswered (reach_firstAnswered trivial trivial trivial trivial)

/-- The client goes while it waits, and then the response arrives. -/
def lateAnswer : Proxy :=
  (recvTurn (serverReceiver ⟨0, none, none⟩ 0) freshMbuf (.bytes [8]) (firstSent.close 0)).1

/-- **Two messages were made, and none is free or held.** -/
theorem lost_answered : (proxyRuns 1024).Reach lateAnswer ∧ lateAnswer.msg_pool.made = 2 ∧
    lateAnswer.msg_pool.m_queue = [] ∧ lateAnswer.books.held = [] := by
  have closed : (proxyRuns 1024).Reach (firstSent.close 0) :=
    reach_firstSent.next (a := .clientClose 0) ⟨by decide, rfl⟩
  have answered : (proxyRuns 1024).Reach lateAnswer :=
    closed.next (a := .serverRecv 0 ⟨0, none, none⟩ freshMbuf (.bytes [8])) ⟨by decide, rfl⟩
  exact ⟨answered, by decide, by decide, by decide⟩

end Proxy

end Nutcracker
