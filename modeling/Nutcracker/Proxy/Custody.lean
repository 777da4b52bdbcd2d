/-
**The proxy keeps the books.**

`Proxy.books` reads the books off the proxy. The pieces of a turn change them as `Books.Turn` says, and
so every turn goes from books to books, however its calls end.

* `clientRecv_within`, `serverRecv_within`, `serverSend_within` — a turn of `recvMsg` or `sendMsg` is a
  sequence of turns of the books.
* `clientSend_cases` — a turn of `sendMsg` on a client connection hands a response out, or changes
  nothing.
* `close_books`, `enroll_books` — and so are closing and accepting a client, under conditions.
* `books_step` — so **every step of the proxy is a step of the books**.
-/

import Nutcracker.Proxy.Budget
import Nutcracker.Proxy.Looks
import Nutcracker.Proxy.Places

namespace Nutcracker

open Lib

/-- What the books say of a connection. -/
def NcConn.desk (conn : NcConn) : Desk :=
  ⟨conn.m_imsg_q, conn.m_omsg_q, conn.m_rmsg, conn.m_smsg⟩

/-- The message is to be forwarded, and wants a reply. -/
def NcMsg.plain (msg : NcMsg) : Bool := !msg.m_noreply && !msg.m_noforward

theorem NcMsg.plain_iff {msg : NcMsg} :
    msg.plain = true ↔ msg.m_noreply = false ∧ msg.m_noforward = false := by
  simp [plain]

namespace Proxy

/-- **The books of the proxy.** -/
def books (p : Proxy) : Books where
  free := p.msg_pool.m_queue
  made := p.msg_pool.made
  peer m := (p.msg m).m_peer
  plain m := (p.msg m).plain
  live := p.server_pool.c_conn_q
  idle := p.c_pool.m_queue
  client c := (p.client c).desk
  servers := p.s_pool.made
  spare := p.s_pool.m_queue
  server s := (p.server s).desk
  ledger := ledger p.acts

/-! ### The pieces -/

section Pieces

variable {p q : Proxy} {c s m : Addr}

theorem books_putClient (c : Addr) (f : NcConn → NcConn) (p : Proxy) :
    (p.putClient c f).books = p.books.setClient c (f (p.client c)).desk := by
  have client : (fun d => ((p.putClient c f).client d).desk) =
      Function.update p.books.client c (f (p.client c)).desk :=
    Function.comp_update NcConn.desk p.client c (f (p.client c))
  unfold Books.setClient
  rw [← client]
  rfl

theorem books_putServer (s : Addr) (f : NcConn → NcConn) (p : Proxy) :
    (p.putServer s f).books = p.books.setServer s (f (p.server s)).desk := by
  have server : (fun t => ((p.putServer s f).server t).desk) =
      Function.update p.books.server s (f (p.server s)).desk :=
    Function.comp_update NcConn.desk p.server s (f (p.server s))
  unfold Books.setServer
  rw [← server]
  rfl

/-- The books do not notice a change that leaves the queues and the current messages. -/
theorem books_putClient_of_desk {f : NcConn → NcConn}
    (same : (f (p.client c)).desk = (p.client c).desk) : (p.putClient c f).books = p.books := by
  rw [books_putClient, same]
  unfold Books.setClient
  rw [show (p.client c).desk = p.books.client c from rfl, Function.update_eq_self]

theorem books_putServer_of_desk {f : NcConn → NcConn}
    (same : (f (p.server s)).desk = (p.server s).desk) : (p.putServer s f).books = p.books := by
  rw [books_putServer, same]
  unfold Books.setServer
  rw [show (p.server s).desk = p.books.server s from rfl, Function.update_eq_self]

theorem books_putMsg {f : NcMsg → NcMsg} (plain : (f (p.msg m)).plain = (p.msg m).plain) :
    (p.putMsg m f).books = p.books.setPeer m (f (p.msg m)).m_peer := by
  have peer : (fun x => ((p.putMsg m f).msg x).m_peer) =
      Function.update p.books.peer m (f (p.msg m)).m_peer :=
    Function.comp_update NcMsg.m_peer p.msg m (f (p.msg m))
  have flags : (fun x => ((p.putMsg m f).msg x).plain) = p.books.plain := by
    funext x
    by_cases isM : x = m
    · rw [isM, msg_putMsg, plain]
      rfl
    · rw [msg_putMsg_of_ne _ _ isM]
      rfl
  unfold Books.setPeer
  rw [← peer, ← flags]
  rfl

/-- The books do not notice a change that leaves the peer and the flags. -/
theorem books_putMsg_of_peer {f : NcMsg → NcMsg} (peer : (f (p.msg m)).m_peer = (p.msg m).m_peer)
    (plain : (f (p.msg m)).plain = (p.msg m).plain) : (p.putMsg m f).books = p.books := by
  rw [books_putMsg plain, peer]
  unfold Books.setPeer
  rw [show (p.msg m).m_peer = p.books.peer m from rfl, Function.update_eq_self]

theorem books_allocMsg (p : Proxy) :
    p.allocMsg.1.books = p.books.fetch ∧ p.allocMsg.2 = p.books.next := by
  unfold allocMsg
  cases queue : p.msg_pool.m_queue with
  | cons m rest =>
      obtain ⟨fetch, next⟩ := Books.fetch_cons (b := p.books) queue
      rw [NcObjectPool.alloc_queued NcMsg.new queue, fetch, next]
      exact ⟨rfl, rfl⟩
  | nil =>
      obtain ⟨fetch, next⟩ := Books.fetch_nil (b := p.books) queue
      have peer : (fun x => (Function.update p.msg_pool.mem p.msg_pool.made NcMsg.new x).m_peer) =
          Function.update p.books.peer p.books.made none :=
        Function.comp_update NcMsg.m_peer p.msg p.msg_pool.made NcMsg.new
      have flags : (fun x => (Function.update p.msg_pool.mem p.msg_pool.made NcMsg.new x).plain) =
          Function.update p.books.plain p.books.made true :=
        Function.comp_update NcMsg.plain p.msg p.msg_pool.made NcMsg.new
      rw [NcObjectPool.alloc_empty NcMsg.new queue, fetch, next, ← peer, ← flags]
      exact ⟨rfl, rfl⟩

theorem books_release (m : Addr) (p : Proxy) :
    ({ p with msg_pool := NcConn.release m p.msg_pool } : Proxy).books = p.books.release m := by
  have freed : ((p.putMsg m NcMsg.freeMbuf).putMsg m NcMsg.reset).books = p.books.setPeer m none := by
    rw [books_putMsg (p := p.putMsg m NcMsg.freeMbuf) rfl, books_putMsg_of_peer rfl rfl]
    rfl
  unfold Books.release
  rw [← freed]
  rfl

/-- `freeMsg` of a message with a peer. -/
theorem books_release_pair (m r : Addr) (p : Proxy) :
    ({ p with
      msg_pool := NcConn.release m <| NcConn.release r <|
        (p.msg_pool.put m fun msg => { msg with m_peer := none }).put r
          fun msg => { msg with m_peer := none } } : Proxy).books =
      (((p.books.setPeer m none).setPeer r none).release r).release m := by
  generalize unlinked : ((p.putMsg m fun msg => { msg with m_peer := none }).putMsg r
    fun msg => { msg with m_peer := none }) = q
  have first : q.books = (p.books.setPeer m none).setPeer r none := by
    rw [← unlinked, books_putMsg rfl, books_putMsg rfl]
  rw [← first, ← books_release r q, ← books_release m, ← unlinked]
  rfl

/-- **`freeMsg` gives a message and its peer back**, on a connection with an owner. -/
theorem books_freeMsg {m_owner : Ptr} {force : Bool} (owned : m_owner ≠ none)
    (whole : force = true ∨ p.books.peer m = none) :
    (p.freeMsg m_owner m force).books = p.books.discard m := by
  unfold freeMsg NcConn.freeMsg Books.discard
  rw [if_neg owned, show (p.msg_pool.mem m).m_peer = p.books.peer m from rfl]
  cases peer : p.books.peer m with
  | none =>
      cases force with
      | false => exact books_release m p
      | true => exact books_release m p
  | some r =>
      rw [whole.resolve_right (by rw [peer]; nofun)]
      exact books_release_pair m r p

/-- Without an owner, or with one: the message is lost or given back. -/
theorem books_freeMsg_cases (m_owner : Ptr) {force : Bool}
    (whole : force = true ∨ p.books.peer m = none) :
    (m_owner = none ∧ (p.freeMsg m_owner m force).books = p.books) ∨
      (p.freeMsg m_owner m force).books = p.books.discard m := by
  by_cases owned : m_owner = none
  · refine Or.inl ⟨owned, ?_⟩
    unfold freeMsg NcConn.freeMsg
    rw [if_pos owned]
  · exact Or.inr (books_freeMsg owned whole)

end Pieces

/-! ### Requests -/

section Requests

variable {strict : Prop} {p : Proxy} {c m : Addr}

/-- A choice takes no connection, or a new one. -/
theorem books_pick (choice : Choice) (spare : p.s_pool.m_queue = []) :
    (choice.pick p).1.books = p.books ∨ (choice.pick p).1.books = p.books.spawn := by
  cases choice with
  | any conn => exact Or.inl rfl
  | index idx =>
      show (p.getConn idx).1.books = p.books ∨ (p.getConn idx).1.books = p.books.spawn
      unfold getConn
      cases p.server_pool.server[idx % p.server_pool.server.length]? with
      | none => exact Or.inl rfl
      | some server =>
          dsimp only
          unfold serverGetConn
          split
          · refine Or.inr ?_
            have server : (fun s =>
                (Function.update p.s_pool.mem p.s_pool.made NcConn.new s).desk) =
                Function.update p.books.server p.books.servers .bare :=
              Function.comp_update NcConn.desk p.server p.s_pool.made NcConn.new
            rw [NcObjectPool.alloc_empty NcConn.new spare]
            unfold Books.spawn Books.setServer
            rw [← server]
            rfl
          · exact Or.inl rfl

theorem books_requestForwardError (sys : ForwardAnswers) (reply : (p.msg m).m_noreply = false) :
    (p.requestForwardError sys c m).books = p.books := by
  unfold requestForwardError
  generalize failed : (p.putMsg m fun msg =>
    { msg with m_done := true, m_error := true, m_err := sys.errno }) = q
  have same : q.books = p.books := failed ▸ books_putMsg_of_peer rfl rfl
  have reply' : ¬ (q.msg m).m_noreply = true := by
    rw [← failed, msg_putMsg]
    exact Bool.eq_false_iff.mp reply
  dsimp only
  rw [if_neg reply']
  cases sys.client with
  | none => exact same
  | some err => exact (books_putMsg_of_peer rfl rfl).trans same

/-- The request goes to the end of its client's queue, and to a server connection or to none. -/
theorem books_requestForward (choice : Choice) (sys : ForwardAnswers)
    (reply : (p.msg m).m_noreply = false) (spare : p.s_pool.m_queue = []) :
    ∃ b dest, (b = p.books ∨ b = p.books.spawn) ∧
      (p.requestForward choice.pick sys c m).books =
        (b.setClient c { b.client c with omsg := (b.client c).omsg ++ [m] }).assign m dest := by
  unfold requestForward
  rw [if_neg (Bool.eq_false_iff.mp reply)]
  generalize enqueued : (p.putClient c fun conn =>
    { conn with m_omsg_q := conn.m_omsg_q ++ [m] }) = q
  have queue : q.books = p.books.setClient c
      { p.books.client c with omsg := (p.books.client c).omsg ++ [m] } :=
    enqueued ▸ books_putClient ..
  have picked : ∃ b, (b = p.books ∨ b = p.books.spawn) ∧ (choice.pick q).1.books =
      b.setClient c { b.client c with omsg := (b.client c).omsg ++ [m] } := by
    rcases books_pick choice (p := q) (enqueued ▸ spare) with same | new
    · exact ⟨p.books, Or.inl rfl, same.trans queue⟩
    · refine ⟨p.books.spawn, Or.inr rfl, new.trans ?_⟩
      rw [queue]
      rfl
  obtain ⟨b, start, picked⟩ := picked
  have reply' : ((choice.pick q).1.msg m).m_noreply = false := by
    unfold msg
    rw [(pick_frame choice q).1, ← enqueued]
    exact reply
  have failed := books_requestForwardError (c := c) sys reply'
  dsimp only
  generalize (choice.pick q).1 = t at picked failed reply'
  cases (choice.pick q).2 with
  | none => exact ⟨b, none, start, failed.trans picked⟩
  | some s =>
      have pushed : (t.putServer s fun conn => { conn with m_imsg_q := conn.m_imsg_q ++ [m] }).books =
          (b.setClient c { b.client c with omsg := (b.client c).omsg ++ [m] }).assign m (some s) := by
        rw [books_putServer, ← picked]
        rfl
      dsimp only
      split
      · cases sys.server with
        | none => exact ⟨b, some s, start, pushed⟩
        | some err =>
            refine ⟨b, none, start, ?_⟩
            rw [books_putServer_of_desk rfl, failed, picked]
            rfl
      · exact ⟨b, some s, start, pushed⟩

theorem books_putDown (c : Addr) (p : Proxy) :
    (p.putClient c fun conn => { conn with m_rmsg := none }).books = p.books.putDown c :=
  books_putClient ..

/-- `requestFilter` gives the message back, or leaves it. -/
theorem requestFilter_cases (c m : Addr) (p : Proxy) :
    p.requestFilter c m = (p, false) ∨ ((p.requestFilter c m).2 = true ∧
      (((p.client c).m_owner = none ∧ (p.requestFilter c m).1.books = p.books) ∨
        (p.requestFilter c m).1.books = p.books.discard m)) := by
  unfold requestFilter
  by_cases empty : (p.msg m).empty = true
  · rw [if_pos empty]
    exact Or.inr ⟨rfl, books_freeMsg_cases _ (Or.inl rfl)⟩
  rw [if_neg empty]
  by_cases quit : (p.msg m).m_quit = true
  · rw [if_pos quit]
    have same : (p.putClient c fun conn =>
      { conn with m_eof := true, m_recv_ready := false }).books = p.books := books_putClient_of_desk rfl
    have owner : ((p.putClient c fun conn =>
        { conn with m_eof := true, m_recv_ready := false }).client c).m_owner =
        (p.client c).m_owner := by rw [client_putClient]
    refine Or.inr ⟨rfl, ?_⟩
    rw [← same, ← owner]
    exact books_freeMsg_cases _ (Or.inl rfl)
  · rw [if_neg quit]
    exact Or.inl rfl

/-- A request that passes the filter is forwarded, or stays with no server connection. -/
theorem clientRecvDone_forwards (choice : Choice) (sys : ForwardAnswers) (sound : p.books.Sound)
    (isOpen : p.Open c) (received : (p.client c).m_rmsg = some m)
    (passes : (p.putClient c fun conn => { conn with m_rmsg := none }).requestFilter c m =
      (p.putClient c fun conn => { conn with m_rmsg := none }, false)) :
    ∃ b dest, (b = p.books ∨ b = p.books.spawn) ∧
      (p.clientRecvDone choice.pick sys c m).books = b.request c m dest := by
  have received' : (p.books.client c).rmsg = some m := received
  have down := books_putDown c p
  unfold clientRecvDone
  generalize put : (p.putClient c fun conn => { conn with m_rmsg := none }) = q at down passes
  obtain ⟨place, agrees⟩ := sound
  have plain : (p.msg m).plain = true := by
    have placed := (agrees.client c isOpen).asking m received'
    exact agrees.plain m (agrees.made_of_place (by simp [placed]))
  obtain ⟨reply, forward⟩ := NcMsg.plain_iff.mp plain
  have sameMsg : (q.did (.read c m)).msg m = p.msg m := put ▸ rfl
  obtain ⟨b, dest, start, forwarded⟩ := books_requestForward (c := c) choice sys
    (p := q.did (.read c m)) (m := m) (sameMsg ▸ reply)
    (show q.s_pool.m_queue = [] from put ▸ agrees.spare)
  have read : (q.did (.read c m)).books = (p.books.putDown c).note (.read c m) := by
    rw [← down]
    rfl
  dsimp only
  rw [passes]
  dsimp only
  rw [if_neg Bool.false_ne_true, sameMsg, forward, if_neg Bool.false_ne_true, forwarded]
  rcases start with start | start
  · refine ⟨p.books, dest, Or.inl rfl, ?_⟩
    rw [start, read, ← Books.request_eq]
    rfl
  · refine ⟨p.books.spawn, dest, Or.inr rfl, ?_⟩
    rw [start, read, ← Books.request_eq]
    rfl

/-- **What `recvDone` does with a request**: it is forwarded, or dropped. -/
theorem clientRecvDone_cases (choice : Choice) (sys : ForwardAnswers) (sound : p.books.Sound)
    (isOpen : p.Open c) (received : (p.client c).m_rmsg = some m) :
    (∃ b dest, (b = p.books ∨ b = p.books.spawn) ∧
      (p.clientRecvDone choice.pick sys c m).books = b.request c m dest) ∨
    ((p.client c).m_owner = none ∧
      (p.clientRecvDone choice.pick sys c m).books = p.books.putDown c) ∨
    (p.clientRecvDone choice.pick sys c m).books = (p.books.putDown c).discard m := by
  have down := books_putDown c p
  have owner : ((p.putClient c fun conn => { conn with m_rmsg := none }).client c).m_owner =
      (p.client c).m_owner := by rw [client_putClient]
  have forwards := clientRecvDone_forwards choice sys sound isOpen received
  unfold clientRecvDone at forwards ⊢
  generalize (p.putClient c fun conn => { conn with m_rmsg := none }) = q at down owner forwards
  rcases requestFilter_cases c m q with passes | ⟨drops, ⟨none, same⟩ | given⟩
  · exact Or.inl (forwards passes)
  · refine Or.inr (Or.inl ⟨owner.symm.trans none, ?_⟩)
    dsimp only
    rw [if_pos drops, same, down]
  · refine Or.inr (Or.inr ?_)
    dsimp only
    rw [if_pos drops, given, down]

theorem clientRecvDone_within (choice : Choice) (sys : ForwardAnswers) (sound : p.books.Sound)
    (isOpen : p.Open c) (received : (p.client c).m_rmsg = some m) :
    Books.Within strict p.books (p.clientRecvDone choice.pick sys c m).books := by
  have received' : (p.books.client c).rmsg = some m := received
  rcases clientRecvDone_cases choice sys sound isOpen received with
    ⟨b, dest, start, forwarded⟩ | ⟨-, same⟩ | given
  · rw [forwarded]
    rcases start with rfl | rfl
    · exact .single (.request isOpen received')
    · exact .head .spawn (.single (.request isOpen received'))
  · rw [same]
    exact .single .putDown
  · rw [given]
    exact sound.drop isOpen received'

/-- **What `recvNext` of a client does**: nothing, or it drops the request that is being received, or
takes a message for one. -/
theorem clientRecvNext_cases (c : Addr) (alloc : Bool) (p : Proxy) :
    (p.clientRecvNext c alloc).1.books = p.books ∨
    (∃ m, (p.client c).m_rmsg = some m ∧ (((p.client c).m_owner = none ∧
      (p.clientRecvNext c alloc).1.books = p.books.putDown c) ∨
      (p.clientRecvNext c alloc).1.books = (p.books.putDown c).discard m)) ∨
    ((p.client c).m_rmsg = none ∧ alloc = true ∧ (p.clientRecvNext c alloc).1.books =
      p.books.fetch.setClient c { p.books.client c with rmsg := some p.books.next }) := by
  unfold clientRecvNext
  by_cases eof : (p.client c).m_eof = true
  · rw [if_pos eof]
    have ended : (let q := p.dropIncomplete (putClient c) (p.client c) true
        if clientActive (q.client c) then (q, none)
        else (q.putClient c fun conn => { conn with m_done := true }, none) : Proxy × Ptr).1.books =
        (p.dropIncomplete (putClient c) (p.client c) true).books := by
      dsimp only
      split
      · rfl
      · exact books_putClient_of_desk rfl
    rw [ended]
    unfold dropIncomplete
    cases received : (p.client c).m_rmsg with
    | none => exact Or.inl rfl
    | some m =>
        have down := books_putDown c p
        generalize (p.putClient c fun conn => { conn with m_rmsg := none }) = q at down
        dsimp only
        refine Or.inr (Or.inl ⟨m, rfl, ?_⟩)
        rw [← down]
        exact books_freeMsg_cases _ (Or.inl rfl)
  · rw [if_neg eof]
    cases received : (p.client c).m_rmsg with
    | some m => exact Or.inl rfl
    | none =>
        cases alloc with
        | false => exact Or.inl rfl
        | true =>
            obtain ⟨fetched, next⟩ := books_allocMsg p
            have taken : (p.allocMsg.1.putClient c fun conn =>
                { conn with m_rmsg := some p.allocMsg.2 }).books =
                p.books.fetch.setClient c { p.books.client c with rmsg := some p.books.next } := by
              rw [books_putClient, fetched, next]
              rfl
            refine Or.inr (Or.inr ⟨rfl, rfl, ?_⟩)
            dsimp only
            rw [if_pos rfl, books_putMsg_of_peer rfl rfl, taken]

/-- The message that `recvNext` returns is the current one. -/
theorem clientRecvNext_current (c : Addr) (alloc : Bool) (p : Proxy) (m : Addr)
    (next : (p.clientRecvNext c alloc).2 = some m) :
    ((p.clientRecvNext c alloc).1.client c).m_rmsg = some m := by
  unfold clientRecvNext at next ⊢
  by_cases eof : (p.client c).m_eof = true
  · rw [if_pos eof] at next
    dsimp only at next
    split at next
    · cases next
    · cases next
  · rw [if_neg eof] at next ⊢
    cases received : (p.client c).m_rmsg with
    | some x =>
        rw [received] at next
        rw [← Option.some.inj next]
        exact received
    | none =>
        rw [received] at next
        cases alloc with
        | false => cases next
        | true =>
            show ((p.allocMsg.1.putClient c fun conn =>
              { conn with m_rmsg := some p.allocMsg.2 }).client c).m_rmsg = some m
            rw [client_putClient]
            exact next

theorem clientRecvNext_within (alloc : Bool) (sound : p.books.Sound) (isOpen : p.Open c) :
    Books.Within strict p.books (p.clientRecvNext c alloc).1.books ∧
      ∀ m, (p.clientRecvNext c alloc).2 = some m →
        ((p.clientRecvNext c alloc).1.client c).m_rmsg = some m := by
  refine ⟨?_, clientRecvNext_current c alloc p⟩
  rcases clientRecvNext_cases c alloc p with same | ⟨m, received, ⟨-, down⟩ | given⟩ |
    ⟨-, -, taken⟩
  · rw [same]
    exact .refl
  · rw [down]
    exact .single .putDown
  · rw [given]
    exact sound.drop isOpen received
  · rw [taken]
    exact .single (.take isOpen)

end Requests

/-! ### Responses -/

section Responses

variable {strict : Prop} {p : Proxy} {s m : Addr}

theorem books_putDownServer (s : Addr) (p : Proxy) :
    (p.putServer s fun conn => { conn with m_rmsg := none }).books = p.books.putDownServer s :=
  books_putServer ..

/-- A message that a server connection puts down has no peer. -/
theorem alone_of_received (sound : p.books.Sound) (received : (p.server s).m_rmsg = some m) :
    p.books.peer m = none := by
  obtain ⟨place, agrees⟩ := sound
  exact (agrees.loose_putDownServer received).2

/-- **What `recvNext` of a server connection does**: nothing, or it drops the response that is being
received, or takes a message for one. -/
theorem serverRecvNext_cases (alloc : Bool) (sound : p.books.Sound) :
    (p.serverRecvNext s alloc).1.books = p.books ∨
    (∃ m, (p.server s).m_rmsg = some m ∧ (((p.server s).m_owner = none ∧
      (p.serverRecvNext s alloc).1.books = p.books.putDownServer s) ∨
      (p.serverRecvNext s alloc).1.books = (p.books.putDownServer s).discard m)) ∨
    ((p.server s).m_rmsg = none ∧ alloc = true ∧ (p.serverRecvNext s alloc).1.books =
      p.books.fetch.setServer s { p.books.server s with rmsg := some p.books.next }) := by
  unfold serverRecvNext
  by_cases eof : (p.server s).m_eof = true
  · rw [if_pos eof]
    dsimp only
    rw [books_putServer_of_desk rfl]
    unfold dropIncomplete
    cases received : (p.server s).m_rmsg with
    | none => exact Or.inl rfl
    | some m =>
        have down := books_putDownServer s p
        have alone := alone_of_received sound received
        generalize (p.putServer s fun conn => { conn with m_rmsg := none }) = q at down
        have alone : q.books.peer m = none := down ▸ alone
        dsimp only
        refine Or.inr (Or.inl ⟨m, rfl, ?_⟩)
        rw [← down]
        exact books_freeMsg_cases _ (Or.inr alone)
  · rw [if_neg eof]
    cases received : (p.server s).m_rmsg with
    | some m => exact Or.inl rfl
    | none =>
        cases alloc with
        | false => exact Or.inl rfl
        | true =>
            obtain ⟨fetched, next⟩ := books_allocMsg p
            have taken : (p.allocMsg.1.putServer s fun conn =>
                { conn with m_rmsg := some p.allocMsg.2 }).books =
                p.books.fetch.setServer s { p.books.server s with rmsg := some p.books.next } := by
              rw [books_putServer, fetched, next]
              rfl
            refine Or.inr (Or.inr ⟨rfl, rfl, ?_⟩)
            dsimp only
            rw [if_pos rfl, taken]

/-- The message that `recvNext` returns is the current one. -/
theorem serverRecvNext_current (s : Addr) (alloc : Bool) (p : Proxy) (m : Addr)
    (next : (p.serverRecvNext s alloc).2 = some m) :
    ((p.serverRecvNext s alloc).1.server s).m_rmsg = some m := by
  unfold serverRecvNext at next ⊢
  by_cases eof : (p.server s).m_eof = true
  · rw [if_pos eof] at next
    cases next
  · rw [if_neg eof] at next ⊢
    cases received : (p.server s).m_rmsg with
    | some x =>
        rw [received] at next
        rw [← Option.some.inj next]
        exact received
    | none =>
        rw [received] at next
        cases alloc with
        | false => cases next
        | true =>
            show ((p.allocMsg.1.putServer s fun conn =>
              { conn with m_rmsg := some p.allocMsg.2 }).server s).m_rmsg = some m
            rw [server_putServer]
            exact next

theorem serverRecvNext_within (alloc : Bool) (sound : p.books.Sound) :
    Books.Within strict p.books (p.serverRecvNext s alloc).1.books ∧
      ∀ m, (p.serverRecvNext s alloc).2 = some m →
        ((p.serverRecvNext s alloc).1.server s).m_rmsg = some m := by
  refine ⟨?_, serverRecvNext_current s alloc p⟩
  rcases serverRecvNext_cases alloc sound with same | ⟨m, received, ⟨-, down⟩ | given⟩ |
    ⟨-, -, taken⟩
  · rw [same]
    exact .refl
  · rw [down]
    exact .single .putDownServer
  · rw [given]
    exact sound.dropServer received
  · rw [taken]
    exact .single .takeServer

/-- The response is linked to the first request of the queue. -/
theorem books_responseForward (sys : ForwardAnswers) {pmsg : Addr} {rest : List Addr}
    (queue : (p.server s).m_omsg_q = pmsg :: rest) (fresh : pmsg ∉ rest) :
    (p.responseForward sys s m).books =
      (((p.books.setServer s
        { p.books.server s with omsg := (p.books.server s).omsg.tail }).setPeer pmsg (some m)).setPeer
          m (some pmsg)).note (.answered s m pmsg) := by
  have left (q : Proxy) (queue : (q.server s).m_omsg_q = pmsg :: rest) : (q.putServer s fun conn =>
      { conn with m_omsg_q := NcQueue.remove pmsg conn.m_omsg_q }).books =
      q.books.setServer s { q.books.server s with omsg := (q.books.server s).omsg.tail } := by
    rw [books_putServer]
    refine congrArg (fun omsg => q.books.setServer s { q.books.server s with omsg := omsg }) ?_
    show NcQueue.remove pmsg (q.server s).m_omsg_q = (q.server s).m_omsg_q.tail
    rw [queue, NcQueue.remove_head fresh]
    rfl
  have linked : (p.link s m pmsg).books =
      (((p.books.setServer s
        { p.books.server s with omsg := (p.books.server s).omsg.tail }).setPeer pmsg (some m)).setPeer
          m (some pmsg)).note (.answered s m pmsg) := by
    have noted (q : Proxy) :
        (q.did (.answered s m pmsg)).books = q.books.note (.answered s m pmsg) := rfl
    have paired (q : Proxy) :
        ((q.putMsg pmsg fun msg => { msg with m_done := true, m_peer := some m }).putMsg m
          fun msg => { msg with m_peer := some pmsg }).books =
          (q.books.setPeer pmsg (some m)).setPeer m (some pmsg) := by
      rw [books_putMsg rfl, books_putMsg rfl]
    unfold link
    dsimp only
    rw [noted, paired, left (p.did (.looked .responseForward false)) queue]
    rfl
  rw [responseForward_eq sys queue, ← linked]
  split
  · rfl
  · unfold wake
    dsimp only
    split
    · rfl
    · cases sys.client with
      | none => rfl
      | some err => exact books_putClient_of_desk rfl

/-- A message with nothing in it is given back. -/
theorem books_responseFilter_empty (empty : (p.msg m).empty = true) (alone : p.books.peer m = none) :
    (p.responseFilter s m).2 = true ∧
      (((p.server s).m_owner = none ∧ (p.responseFilter s m).1.books = p.books) ∨
        (p.responseFilter s m).1.books = p.books.discard m) := by
  unfold responseFilter
  rw [if_pos empty]
  exact ⟨rfl, books_freeMsg_cases _ (Or.inr alone)⟩

/-- A response that finds no request is noted, and given back. -/
theorem books_responseFilter_stray (full : ¬ (p.msg m).empty = true)
    (stray : (p.server s).m_omsg_q = []) (alone : p.books.peer m = none) :
    (p.responseFilter s m).2 = true ∧
      (((p.server s).m_owner = none ∧
        (p.responseFilter s m).1.books = p.books.note (.responded s m)) ∨
        (p.responseFilter s m).1.books = (p.books.note (.responded s m)).discard m) := by
  unfold responseFilter
  rw [if_neg full]
  dsimp only
  rw [show ((p.did (.responded s m)).did (.looked .responseFilter
    ((p.did (.responded s m)).server s).m_omsg_q.isEmpty)).server s = p.server s from rfl,
    if_pos stray]
  refine ⟨rfl, ?_⟩
  dsimp only
  rw [books_putMsg_of_peer rfl rfl]
  have looked : ((p.did (.responded s m)).did (.looked .responseFilter
      ((p.did (.responded s m)).server s).m_omsg_q.isEmpty)).books =
      p.books.note (.responded s m) := rfl
  rw [← looked]
  exact books_freeMsg_cases _ (Or.inr alone)

/-- A response that finds a request is linked to it. -/
theorem serverRecvDone_answers (sys : ForwardAnswers) {pmsg : Addr} {rest : List Addr}
    (sound : p.books.Sound) (full : ¬ (p.msg m).empty = true)
    (waiting : (p.server s).m_omsg_q = pmsg :: rest) :
    (p.serverRecvDone sys s m).books = p.books.answer s m pmsg := by
  have down := books_putDownServer s p
  unfold serverRecvDone
  generalize put : (p.putServer s fun conn => { conn with m_rmsg := none }) = q at down
  have full : ¬ (q.msg m).empty = true := put ▸ full
  have sameQueue : (q.server s).m_omsg_q = pmsg :: rest := by
    rw [← put, server_putServer]
    exact waiting
  obtain ⟨place, agrees⟩ := sound
  have waiting' : (p.books.server s).omsg = pmsg :: rest := waiting
  have fresh : pmsg ∉ rest := by
    have distinct := (List.nodup_append.mp (agrees.server s).distinct).2.1
    rw [waiting'] at distinct
    exact (List.nodup_cons.mp distinct).1
  have responded : ((q.did (.responded s m)).did (.looked .responseFilter false)).books =
      (p.books.putDownServer s).note (.responded s m) := by
    rw [← down]
    rfl
  dsimp only
  rw [responseFilter_request full (sameQueue ▸ List.cons_ne_nil pmsg rest)]
  dsimp only
  rw [if_neg Bool.false_ne_true, books_responseForward sys
    (p := (q.did (.responded s m)).did (.looked .responseFilter false)) sameQueue fresh, responded,
    ← Books.answer_eq]
  rfl

/-- **What `recvDone` does with a response**: it is dropped, noted and dropped, or linked. -/
theorem serverRecvDone_cases (sys : ForwardAnswers) (sound : p.books.Sound)
    (received : (p.server s).m_rmsg = some m) :
    ((p.msg m).empty = true ∧
      (((p.server s).m_owner = none ∧ (p.serverRecvDone sys s m).books = p.books.putDownServer s) ∨
        (p.serverRecvDone sys s m).books = (p.books.putDownServer s).discard m)) ∨
    (¬ (p.msg m).empty = true ∧ (p.server s).m_omsg_q = [] ∧
      (((p.server s).m_owner = none ∧ (p.serverRecvDone sys s m).books =
        (p.books.note (.responded s m)).putDownServer s) ∨
        (p.serverRecvDone sys s m).books =
          ((p.books.note (.responded s m)).putDownServer s).discard m)) ∨
    ∃ pmsg rest, (p.server s).m_omsg_q = pmsg :: rest ∧
      (p.serverRecvDone sys s m).books = p.books.answer s m pmsg := by
  have down := books_putDownServer s p
  have alone := alone_of_received sound received
  have answers {pmsg : Addr} {rest : List Addr} (full : ¬ (p.msg m).empty = true)
      (waiting : (p.server s).m_omsg_q = pmsg :: rest) :
      (p.serverRecvDone sys s m).books = p.books.answer s m pmsg :=
    serverRecvDone_answers sys sound full waiting
  unfold serverRecvDone at answers ⊢
  generalize put : (p.putServer s fun conn => { conn with m_rmsg := none }) = q at down answers
  have alone : q.books.peer m = none := down ▸ alone
  have sameMsg : q.msg m = p.msg m := put ▸ rfl
  have owner : (q.server s).m_owner = (p.server s).m_owner := by rw [← put, server_putServer]
  have sameQueue : (q.server s).m_omsg_q = (p.server s).m_omsg_q := by
    rw [← put, server_putServer]
  dsimp only at answers ⊢
  by_cases empty : (q.msg m).empty = true
  · obtain ⟨drops, given⟩ := books_responseFilter_empty (s := s) empty alone
    rw [if_pos drops, ← down, ← owner]
    exact Or.inl ⟨sameMsg ▸ empty, given⟩
  cases waiting : (p.server s).m_omsg_q with
  | nil =>
      obtain ⟨drops, given⟩ := books_responseFilter_stray empty (sameQueue.trans waiting) alone
      have noted : q.books.note (.responded s m) =
          (p.books.note (.responded s m)).putDownServer s := by
        rw [down]
        rfl
      rw [if_pos drops, ← noted, ← owner]
      exact Or.inr (Or.inl ⟨sameMsg ▸ empty, rfl, given⟩)
  | cons pmsg rest =>
      exact Or.inr (Or.inr ⟨pmsg, rest, rfl, answers (sameMsg ▸ empty) waiting⟩)

/-- With `strict`, a response has nothing in it or finds a request. -/
theorem serverRecvDone_within (sys : ForwardAnswers) (sound : p.books.Sound)
    (received : (p.server s).m_rmsg = some m)
    (tidy : strict → (p.msg m).empty = true ∨ (p.server s).m_omsg_q ≠ []) :
    Books.Within strict p.books (p.serverRecvDone sys s m).books := by
  have received' : (p.books.server s).rmsg = some m := received
  rcases serverRecvDone_cases sys sound received with
    ⟨-, ⟨-, down⟩ | given⟩ | ⟨full, none, outcome⟩ | ⟨pmsg, rest, waiting, answered⟩
  · rw [down]
    exact .single .putDownServer
  · rw [given]
    exact sound.dropServer received'
  · have lax : ¬ strict := fun isStrict => (tidy isStrict).elim full fun some => some none
    have stray : Books.Turn strict p.books (p.books.note (.responded s m)) := .stray lax
    rcases outcome with ⟨-, down⟩ | given
    · rw [down]
      exact .tail (.single stray) .putDownServer
    · rw [given]
      exact .trans (.single stray) ((sound.turn stray).dropServer received')
  · rw [answered]
    exact .single (.answer received' waiting)

end Responses

/-! ### A turn of `recvMsg` -/

/-- A read leaves the queues and the current messages. -/
theorem recv_desk (answer : ReadAnswer) (size : Nat) (conn : NcConn) :
    (conn.recv answer size).1.desk = conn.desk := by
  obtain ⟨ready, eof, err, same⟩ := recv_frame answer size conn
  rw [same]
  rfl

/-- **A receiver that keeps the books**, while `live` holds; `fit` is what `recvDone` needs to know when
the message has something in it. -/
structure Handles (strict : Prop) (live fit : Books → Prop) (r : Receiver) : Prop where
  put : ∀ f p, (f (r.conn p)).desk = (r.conn p).desk → (r.put f p).books = p.books
  next : ∀ alloc p, p.books.Sound → live p.books →
    Books.Within strict p.books (r.recvNext alloc p).1.books ∧
      ∀ m, (r.recvNext alloc p).2 = some m → (r.conn (r.recvNext alloc p).1).m_rmsg = some m
  done : ∀ m p, p.books.Sound → live p.books → (r.conn p).m_rmsg = some m →
    ((p.msg m).empty = true ∨ fit p.books) → Books.Within strict p.books (r.recvDone m p).books
  keeps : ∀ b b', b.Keeps b' → live b → live b'
  conn : ∀ p q, q.books = p.books → (r.conn q).m_rmsg = (r.conn p).m_rmsg

namespace Handles

variable {strict : Prop} {live fit : Books → Prop} {r : Receiver} {p : Proxy} {m : Addr}

theorem parse (handles : Handles strict live fit r) (sound : p.books.Sound) (alive : live p.books)
    (received : (r.conn p).m_rmsg = some m) (fits : (p.msg m).empty = true ∨ fit p.books) :
    Books.Within strict p.books (Proxy.parse r m p).1.books := by
  unfold Proxy.parse
  split
  · exact handles.done m p sound alive received fits
  · have looked : ((p.did (.looked .parse (p.msg m).m_mbuf_queue.isEmpty)).did
        (.looked .parseDone (p.msg m).m_mbuf_queue.isEmpty)).books = p.books := rfl
    have sameMsg : ((p.did (.looked .parse (p.msg m).m_mbuf_queue.isEmpty)).did
        (.looked .parseDone (p.msg m).m_mbuf_queue.isEmpty)).msg m = p.msg m := rfl
    show Books.Within strict p.books (r.recvDone m ((p.did (.looked .parse
      (p.msg m).m_mbuf_queue.isEmpty)).did (.looked .parseDone (p.msg m).m_mbuf_queue.isEmpty))).books
    generalize ((p.did (.looked .parse (p.msg m).m_mbuf_queue.isEmpty)).did
      (.looked .parseDone (p.msg m).m_mbuf_queue.isEmpty)) = q at looked sameMsg ⊢
    rw [← looked] at sound alive fits ⊢
    rw [← sameMsg] at fits
    exact handles.done m q sound alive ((handles.conn p q looked).trans received) fits

theorem received (handles : Handles strict live fit r) (sound : p.books.Sound)
    (alive : live p.books) (current : (r.conn p).m_rmsg = some m) (before : List NcMbuf)
    (mbuf : NcMbuf) {bytes : List UInt8} (fits : bytes ≠ [] → fit p.books) :
    Books.Within strict p.books (Proxy.received r before mbuf bytes m p).1.books := by
  unfold Proxy.received
  dsimp only
  have stored : (p.putMsg m fun msg =>
      { msg with m_mbuf_queue := before ++ [mbuf.copy bytes], m_mlen := bytes.length }).books =
      p.books := books_putMsg_of_peer rfl rfl
  have empty : ((p.putMsg m fun msg =>
      { msg with m_mbuf_queue := before ++ [mbuf.copy bytes], m_mlen := bytes.length }).msg m).empty =
      true ∨ fit p.books := by
    rw [msg_putMsg]
    by_cases nothing : bytes = []
    · exact Or.inl (by rw [nothing]; rfl)
    · exact Or.inr (fits nothing)
  generalize (p.putMsg m fun msg =>
    { msg with m_mbuf_queue := before ++ [mbuf.copy bytes], m_mlen := bytes.length }) = q
    at stored empty
  have parsed := handles.parse (p := q) (m := m) (stored ▸ sound) (stored ▸ alive)
    ((handles.conn p q stored).trans current) (stored ▸ empty)
  rw [stored] at parsed
  split
  · exact parsed.trans
      (handles.next false _ (sound.within parsed) (handles.keeps _ _ parsed.frame alive)).1
  · exact parsed

theorem recvChain (handles : Handles strict live fit r) (sound : p.books.Sound)
    (alive : live p.books) (current : (r.conn p).m_rmsg = some m) {fresh : NcMbuf}
    {answer : ReadAnswer}
    (fits : HasData (tailMbuf fresh (p.msg m).m_mbuf_queue).2.size answer → fit p.books) :
    Books.Within strict p.books (Proxy.recvChain r fresh answer m p).1.books := by
  unfold Proxy.recvChain
  have looked : (p.did (.looked .recvChain (p.msg m).m_mbuf_queue.isEmpty)).books = p.books := rfl
  have sameMsg : (p.did (.looked .recvChain (p.msg m).m_mbuf_queue.isEmpty)).msg m = p.msg m := rfl
  dsimp only
  generalize p.did (.looked .recvChain (p.msg m).m_mbuf_queue.isEmpty) = q at looked sameMsg
  rw [sameMsg]
  generalize tailMbuf fresh (p.msg m).m_mbuf_queue = tail at fits
  have read := handles.put (fun _ => ((r.conn q).recv answer tail.2.size).1) q (recv_desk ..)
  rw [looked] at read
  generalize put : r.put (fun _ => ((r.conn q).recv answer tail.2.size).1) q = t at read
  have current := (handles.conn p t read).trans current
  cases result : ((r.conn q).recv answer tail.2.size).2 with
  | ok bytes =>
      have fits : bytes ≠ [] → fit t.books := by
        intro some
        rw [read]
        refine fits ?_
        rcases recv_cases answer tail.2.size (r.conn q) with
          ⟨data, -⟩ | ⟨-, ends | ⟨status, err, fails⟩⟩
        · exact data
        · rw [ends] at result
          exact absurd (Except.ok.inj result).symm some
        · rw [fails] at result
          cases result
      have taken := handles.received (read ▸ sound) (read ▸ alive) current tail.1 tail.2 fits
      rw [read] at taken
      exact taken
  | error status =>
      dsimp only
      rw [books_putMsg_of_peer rfl rfl, read]
      exact .refl

/-- **A turn of `recvMsg` is a sequence of turns of the books.** -/
theorem recvTurn (handles : Handles strict live fit r) (sound : p.books.Sound)
    (alive : live p.books) {fresh : NcMbuf} {answer : ReadAnswer}
    (fits : ∀ m, (r.recvNext true p).2 = some m →
      HasData (tailMbuf fresh ((r.recvNext true p).1.msg m).m_mbuf_queue).2.size answer →
      fit (r.recvNext true p).1.books) :
    Books.Within strict p.books (Proxy.recvTurn r fresh answer p).1.books := by
  obtain ⟨within, current⟩ := handles.next true p sound alive
  unfold Proxy.recvTurn
  cases result : r.recvNext true p with
  | mk q msg =>
      rw [result] at within current fits
      cases msg with
      | none => exact within
      | some m =>
          exact within.trans (handles.recvChain (sound.within within)
            (handles.keeps _ _ within.frame alive) (current m rfl) (fits m rfl))

end Handles

/-! ### The turns of the proxy -/

section Turns

variable {strict : Prop} {p q : Proxy} {c s : Addr}

theorem clientReceiver_handles (choice : Choice) (sys : ForwardAnswers) (c : Addr) :
    Handles strict (fun b => c ∈ b.live) (fun _ => True) (clientReceiver choice.pick sys c) where
  put _ _ same := books_putClient_of_desk same
  next alloc _ sound isOpen := clientRecvNext_within alloc sound isOpen
  done _ _ sound isOpen received _ := clientRecvDone_within choice sys sound isOpen received
  keeps _ _ keeps isLive := keeps.live.symm ▸ isLive
  conn _ _ same := congrArg (fun b => (b.client c).rmsg) same

theorem serverReceiver_handles (sys : ForwardAnswers) (s : Addr) :
    Handles strict (fun _ => True) (fun b => strict → (b.server s).omsg ≠ [])
      (serverReceiver sys s) where
  put _ _ same := books_putServer_of_desk same
  next alloc _ sound _ := serverRecvNext_within alloc sound
  done _ _ sound _ received fits := serverRecvDone_within sys sound received fun isStrict =>
    fits.imp_right fun fits => fits isStrict
  keeps _ _ _ _ := trivial
  conn _ _ same := congrArg (fun b => (b.server s).rmsg) same

/-- **A turn of `recvMsg` on a client connection.** -/
theorem clientRecv_within (choice : Choice) (sys : ForwardAnswers) (fresh : NcMbuf)
    (answer : ReadAnswer) (sound : p.books.Sound) (isOpen : p.Open c) :
    Books.Within strict p.books
      (recvTurn (clientReceiver choice.pick sys c) fresh answer p).1.books :=
  (clientReceiver_handles choice sys c).recvTurn sound isOpen fun _ _ _ => trivial

/-- A response that this read completes finds a request. -/
def Expected (p : Proxy) (s : Addr) (fresh : NcMbuf) (answer : ReadAnswer) : Prop :=
  (p.server s).m_eof = true ∨
    (HasData (tailMbuf fresh
      ((p.incoming (p.server s)).1.msg (p.incoming (p.server s)).2).m_mbuf_queue).2.size answer →
        (p.server s).m_omsg_q ≠ [])

/-- **A turn of `recvMsg` on a server connection.** -/
theorem serverRecv_within (sys : ForwardAnswers) {fresh : NcMbuf} {answer : ReadAnswer}
    (sound : p.books.Sound) (expected : strict → p.Expected s fresh answer) :
    Books.Within strict p.books (recvTurn (serverReceiver sys s) fresh answer p).1.books := by
  refine (serverReceiver_handles sys s).recvTurn sound trivial ?_
  intro m
  show (p.serverRecvNext s true).2 = some m →
    HasData (tailMbuf fresh ((p.serverRecvNext s true).1.msg m).m_mbuf_queue).2.size answer →
      strict → ((p.serverRecvNext s true).1.server s).m_omsg_q ≠ []
  unfold Expected incoming at expected
  unfold serverRecvNext
  by_cases eof : (p.server s).m_eof = true
  · rw [if_pos eof]
    nofun
  rw [if_neg eof]
  intro same data isStrict
  have fits := (expected isStrict).resolve_left eof
  cases received : (p.server s).m_rmsg with
  | some x =>
      rw [received] at same data fits
      rw [← Option.some.inj same] at data
      exact fits data
  | none =>
      rw [received] at same data fits
      rw [← Option.some.inj same] at data
      show ((p.allocMsg.1.putServer s _).server s).m_omsg_q ≠ []
      rw [server_putServer]
      exact fits data

/-- Without a cursor, `sendNext` of a server sets it at most. -/
theorem serverSendNext_desk (sys : SysCalls) {conn : NcConn} (idle : conn.m_smsg = none) :
    NcConn.desk { (NcServerConn.sendNext sys conn).1 with m_smsg := none } = conn.desk ∧
      ((NcServerConn.sendNext sys conn).2 = none →
        (NcServerConn.sendNext sys conn).1.desk = conn.desk) := by
  obtain ⟨imsg, omsg, -⟩ := NcServerConn.sendNext_frame sys conn
  have rmsg := NcServerConn.sendNext_rmsg sys conn
  refine ⟨?_, fun nothing => ?_⟩
  · show Desk.mk _ _ _ none = Desk.mk _ _ _ conn.m_smsg
    rw [imsg, omsg, rmsg, idle]
  · have cursor : (NcServerConn.sendNext sys conn).1.m_smsg = none := by
      cases queue : conn.m_imsg_q with
      | nil => exact (NcServerConn.sendNext_empty sys queue).2.trans idle
      | cons first rest => cases nothing.symm.trans (NcServerConn.sendNext_first sys queue idle).1
    show Desk.mk _ _ _ _ = Desk.mk _ _ _ _
    rw [imsg, omsg, rmsg, cursor, idle]

/-- **A turn of `sendMsg` on a server connection**: a request is sent, or nothing changes. -/
theorem serverSend_cases (sys : SysCalls) {done : Ptr} (sound : p.books.Sound)
    (inside : ∀ m ∈ done, m ∈ (p.server s).m_imsg_q) :
    (p.serverSendTurn s sys done).books = p.books ∨
      ∃ m ∈ (p.server s).m_imsg_q, (p.serverSendTurn s sys done).books = p.books.move s m := by
  obtain ⟨place, agrees⟩ := sound
  obtain ⟨cleared, kept⟩ := serverSendNext_desk sys (agrees.server s).smsg
  have looked : (p.did (.looked .serverSendNext (p.server s).m_imsg_q.isEmpty)).books = p.books := rfl
  have sameConn : (p.did (.looked .serverSendNext (p.server s).m_imsg_q.isEmpty)).server s =
      p.server s := rfl
  unfold serverSendTurn
  dsimp only
  generalize p.did (.looked .serverSendNext (p.server s).m_imsg_q.isEmpty) = t at looked sameConn
  rw [sameConn]
  have cleared : (t.putServer s fun _ =>
      { (NcServerConn.sendNext sys (p.server s)).1 with m_smsg := none }).books = p.books := by
    rw [books_putServer_of_desk (cleared.trans (congrArg NcConn.desk sameConn.symm)), looked]
  generalize put : (t.putServer s fun _ =>
    { (NcServerConn.sendNext sys (p.server s)).1 with m_smsg := none }) = q at cleared
  split
  next m _ =>
    have member : m ∈ (p.books.server s).imsg := inside m rfl
    have plain : q.books.plain m = true := by
      rw [cleared]
      have placed := (agrees.server s).inside m (List.mem_append_left _ member)
      exact agrees.plain m (agrees.made_of_place (by simp [placed]))
    have reply : (q.msg_pool.mem m).m_noreply = false := (NcMsg.plain_iff.mp plain).1
    have sent : NcServerConn.sendDone m ⟨q.server s, q.msg_pool⟩ =
        ⟨{ q.server s with
          m_imsg_q := NcQueue.remove m (q.server s).m_imsg_q
          m_omsg_q := (q.server s).m_omsg_q ++ [m] }, q.msg_pool⟩ := by
      unfold NcServerConn.sendDone
      rw [if_neg (Bool.eq_false_iff.mp reply)]
    have moved : (q.serverSendDone s m).books = p.books.move s m := by
      unfold serverSendDone
      rw [sent, ← cleared]
      show (q.putServer s fun conn =>
        { conn with
          m_imsg_q := NcQueue.remove m conn.m_imsg_q
          m_omsg_q := conn.m_omsg_q ++ [m] }).books.note (.moved s m) = _
      rw [books_putServer]
      rfl
    exact Or.inr ⟨m, member, moved⟩
  · exact Or.inl cleared
  next nothing =>
    refine Or.inl ?_
    rw [books_putServer_of_desk, looked]
    rw [sameConn]
    exact kept nothing

theorem serverSend_within (sys : SysCalls) {done : Ptr} (sound : p.books.Sound)
    (born : s < p.s_pool.made) (inside : ∀ m ∈ done, m ∈ (p.server s).m_imsg_q) :
    Books.Within strict p.books (p.serverSendTurn s sys done).books := by
  rcases serverSend_cases sys sound inside with same | ⟨m, member, moved⟩
  · rw [same]
    exact .refl
  · rw [moved]
    exact .single (.move born member)

/-- The accounting of a message consumes its buffers, and then it may be done. -/
theorem accounted_cases (done : Addr → NcConn.Sending → NcConn.Sending) (m : Addr) (nsent : Nat)
    (sending : NcConn.Sending) :
    ∃ f : NcMsg → NcMsg, (∀ msg, (f msg).m_peer = msg.m_peer ∧ (f msg).plain = msg.plain) ∧
      (NcConn.accounted done m nsent sending =
          { sending with msg_pool := sending.msg_pool.put m f } ∨
        NcConn.accounted done m nsent sending =
          done m { sending with msg_pool := sending.msg_pool.put m f }) := by
  have still : sending.msg_pool.put m id = sending.msg_pool := by
    unfold NcObjectPool.put
    rw [id, Function.update_eq_self]
  unfold NcConn.accounted
  split
  · refine ⟨id, fun msg => ⟨rfl, rfl⟩, ?_⟩
    rw [still]
    split
    · exact Or.inr rfl
    · exact Or.inl rfl
  · refine ⟨fun msg => { msg with
      m_mbuf_queue := (NcConn.consume nsent (sending.msg_pool.mem m).m_mbuf_queue).2.1 },
      fun msg => ⟨rfl, rfl⟩, ?_⟩
    dsimp only
    split
    · exact Or.inr rfl
    · exact Or.inl rfl

/-- Without a cursor, a `sendNext` of a client that returns nothing changes no queue. -/
theorem clientSendNext_desk {delOutput : Option Int} {mem : Addr → NcMsg} {conn : NcConn}
    (idle : conn.m_smsg = none)
    (nothing : (NcClientConn.sendNext delOutput mem conn).2 = none) :
    (NcClientConn.sendNext delOutput mem conn).1.desk = conn.desk := by
  cases queue : conn.m_omsg_q with
  | nil =>
      unfold NcClientConn.sendNext
      split
      · split <;> split <;> rfl
      next some => cases some.symm.trans queue
  | cons pmsg rest =>
      rw [NcClientConn.sendNext_answered queue idle] at nothing ⊢
      show Desk.mk _ _ _ (mem pmsg).m_peer = Desk.mk _ _ _ conn.m_smsg
      rw [idle, show (mem pmsg).m_peer = none from nothing]

/-- **A turn of `sendMsg` on a client connection**: it changes nothing, or hands out the response to the
first request. When the response was sent, the two are given back. -/
theorem clientSend_cases {delOutput : Option Int} {answer : NcConn.SendvAnswer}
    (sound : p.books.Sound) (isOpen : p.Open c)
    (turn : p.clientSendTurn c delOutput answer = .ok q) :
    q.books = p.books ∨
    ∃ r m rest, (p.client c).m_omsg_q = m :: rest ∧ p.books.peer m = some r ∧
      (q.books = p.books.note (.handed c r) ∨
        ((p.client c).m_owner = none ∧ q.books = (p.books.note (.handed c r)).complete c r) ∨
        q.books = ((p.books.note (.handed c r)).complete c r).discard m) := by
  obtain ⟨place, agrees⟩ := sound
  have asks := agrees.client c isOpen
  have smsg : (p.client c).m_smsg = none := asks.smsg
  have looked : (p.did (.looked .clientSendNext (p.client c).m_omsg_q.isEmpty)).books = p.books := rfl
  have sameConn : (p.did (.looked .clientSendNext (p.client c).m_omsg_q.isEmpty)).client c =
      p.client c := rfl
  have sameMsgs : (p.did (.looked .clientSendNext (p.client c).m_omsg_q.isEmpty)).msg_pool =
      p.msg_pool := rfl
  have cases := clientSendTurn_cases turn
  generalize p.did (.looked .clientSendNext (p.client c).m_omsg_q.isEmpty) = t
    at looked sameConn sameMsgs cases
  rcases cases with ⟨nothing, final⟩ | ⟨r, m, rest, nsent, ready, err, queue, -, peer, final⟩
  · refine Or.inl ?_
    rw [final, books_putClient_of_desk, looked]
    rw [sameConn]
    exact clientSendNext_desk smsg nothing
  have queue' : (p.books.client c).omsg = m :: rest := queue
  have peer' : p.books.peer m = some r := peer
  have back : p.books.peer r = some m := by
    have pair := agrees.answered isOpen (queue' ▸ List.mem_cons_self) peer'
    exact (agrees.pair (agrees.made_of_place (by simp [pair.1])) peer').1
  have fresh : m ∉ rest := by
    have distinct := agrees.client_distinct isOpen
    rw [queue'] at distinct
    exact (List.nodup_cons.mp distinct).1
  refine Or.inr ⟨r, m, rest, queue, peer', ?_⟩
  obtain ⟨f, same, cases⟩ := accounted_cases NcClientConn.sendDone r nsent
    ⟨{ p.client c with m_smsg := none, m_send_ready := ready, m_err := err }, p.msg_pool⟩
  generalize NcConn.accounted NcClientConn.sendDone r nsent
    ⟨{ p.client c with m_smsg := none, m_send_ready := ready, m_err := err }, p.msg_pool⟩ = sent
    at final cases
  rw [← sameMsgs] at cases
  have stored : (t.putMsg r f).books = p.books :=
    (books_putMsg_of_peer (same _).1 (same _).2).trans looked
  rcases cases with kept | done
  · -- a part of the response was sent
    have final : q = (({ t with msg_pool := sent.msg_pool }.putClient c fun _ => sent.conn).did
        (.handed c r)) := by
      refine final.elim And.right fun left => absurd ?_ left.1
      rw [kept]
    have written : q.books = p.books.note (.handed c r) := by
      rw [final, kept, ← stored]
      show ((t.putMsg r f).putClient c fun _ => _).books.note (.handed c r) = _
      rw [books_putClient_of_desk]
      show Desk.mk _ _ _ none = NcConn.desk (t.client c)
      rw [sameConn, ← smsg]
      rfl
    exact Or.inl written
  · have linked : ((t.msg_pool.put r f).mem r).m_peer = some m := by
      rw [NcObjectPool.mem_put_self, (same _).1, sameMsgs]
      exact back
    have left : NcQueue.remove m (p.client c).m_omsg_q = rest := by
      rw [queue]
      exact NcQueue.remove_head fresh
    unfold NcClientConn.sendDone at done
    dsimp only at done
    rw [linked] at done
    dsimp only at done
    rw [left] at done
    have final : q = (({ t with msg_pool := sent.msg_pool }.putClient c fun _ => sent.conn).did
        (.handed c r)).did (.completed c r) := by
      refine final.elim (fun kept => absurd kept.1 ?_) And.right
      rw [done, queue]
      exact (List.cons_ne_self m rest).symm
    have desk : { p.books.client c with omsg := (p.books.client c).omsg.tail } =
        NcConn.desk { p.client c with
          m_smsg := none, m_send_ready := ready, m_err := err, m_omsg_q := rest } := by
      show Desk.mk _ (p.client c).m_omsg_q.tail _ (p.client c).m_smsg = Desk.mk _ rest _ none
      rw [queue, smsg]
      rfl
    have written : q.books = ((((t.putMsg r f).freeMsg (p.client c).m_owner m true).books.setClient c
        { p.books.client c with omsg := (p.books.client c).omsg.tail }).note (.handed c r)).note
          (.completed c r) := by
      rw [final, done, desk, ← books_putClient c (fun _ => { p.client c with
        m_smsg := none, m_send_ready := ready, m_err := err, m_omsg_q := rest })]
      rfl
    rw [written]
    rcases books_freeMsg_cases (p := t.putMsg r f) (m := m) (p.client c).m_owner (Or.inl rfl)
      with ⟨none, lost⟩ | given
    · rw [lost, stored]
      exact Or.inr (Or.inl ⟨none, rfl⟩)
    · rw [given, stored, Books.discard_complete]
      exact Or.inr (Or.inr rfl)

/-- A turn of `sendMsg` on a client connection is a step of the books. -/
theorem clientSend_step {delOutput : Option Int} {answer : NcConn.SendvAnswer}
    (sound : p.books.Sound) (isOpen : p.Open c)
    (turn : p.clientSendTurn c delOutput answer = .ok q) : Books.Step strict p.books q.books := by
  rcases clientSend_cases sound isOpen turn with same | ⟨r, m, rest, queue, peer, outcome⟩
  · rw [same]
    exact .turns .refl
  have complete : Books.Turn strict (p.books.note (.handed c r))
      ((p.books.note (.handed c r)).complete c r) := .complete isOpen queue peer
  refine .hand isOpen queue peer ?_
  rcases outcome with handed | ⟨-, completed⟩ | given
  · rw [handed]
    exact .refl
  · rw [completed]
    exact .single complete
  · rw [given]
    obtain ⟨place, agrees⟩ := sound
    obtain ⟨loose, looseR⟩ := agrees.hand.loose_complete isOpen queue peer
    refine .tail (.single complete) (.discard loose fun x linked => ?_)
    rw [← Option.some.inj (peer.symm.trans linked)]
    exact looseR

end Turns

/-! ### Clients that come and go -/

section Clients

variable {p : Proxy} {c m : Addr}

/-- Freeing a message leaves `m_done` of every message. -/
theorem freeMsg_m_done (m_owner : Ptr) (m : Addr) (force : Bool) (p : Proxy) (x : Addr) :
    ((p.freeMsg m_owner m force).msg x).m_done = (p.msg x).m_done := by
  have put (pool : NcObjectPool NcMsg) (o : Addr) (f : NcMsg → NcMsg)
      (same : ∀ msg, (f msg).m_done = msg.m_done) :
      ((pool.put o f).mem x).m_done = (pool.mem x).m_done := by
    by_cases isO : x = o
    · rw [isO, NcObjectPool.mem_put_self, same]
    · rw [NcObjectPool.mem_put_of_ne _ _ isO]
  have release (pool : NcObjectPool NcMsg) (o : Addr) :
      ((NcConn.release o pool).mem x).m_done = (pool.mem x).m_done := by
    show (((pool.put o NcMsg.freeMbuf).put o NcMsg.reset).mem x).m_done = _
    exact (put _ o NcMsg.reset fun _ => rfl).trans (put _ o NcMsg.freeMbuf fun _ => rfl)
  have cut (pool : NcObjectPool NcMsg) (o : Addr) :
      ((pool.put o fun msg => { msg with m_peer := none }).mem x).m_done = (pool.mem x).m_done :=
    put pool o _ fun _ => rfl
  show ((NcConn.freeMsg m_owner m force p.msg_pool).mem x).m_done = _
  unfold NcConn.freeMsg
  split
  · rfl
  · split
    · rw [release, release, cut, cut]
      rfl
    · rw [release]
      rfl

/-- **`close` gives back the requests that are done**, on a connection with an owner. -/
theorem books_discard {m_owner : Ptr} (owned : m_owner ≠ none) (msgs : List Addr) (p : Proxy) :
    (p.discard m_owner msgs).books = p.books.discards (msgs.filter fun m => (p.msg m).m_done) := by
  induction msgs generalizing p with
  | nil => rfl
  | cons m msgs ih =>
      unfold discard
      rw [ih]
      by_cases done : (p.msg m).m_done = true
      · have same : (fun x => ((p.freeMsg m_owner m true).msg x).m_done) =
            fun x => (p.msg x).m_done := by
          funext x
          exact freeMsg_m_done m_owner m true p x
        rw [if_pos done, List.filter_cons_of_pos (p := fun m => (p.msg m).m_done) done, same, books_freeMsg owned (Or.inl rfl)]
        rfl
      · have same : (fun x => ((p.putMsg m fun msg => { msg with m_swallow := true }).msg x).m_done) =
            fun x => (p.msg x).m_done := by
          funext x
          by_cases isM : x = m
          · rw [isM, msg_putMsg]
          · rw [msg_putMsg_of_ne _ _ isM]
        rw [if_neg done, List.filter_cons_of_neg (p := fun m => (p.msg m).m_done) done, same, books_putMsg_of_peer rfl rfl]

theorem books_discard_unowned (msgs : List Addr) (p : Proxy) :
    (p.discard none msgs).books = p.books := by
  induction msgs generalizing p with
  | nil => rfl
  | cons m msgs ih =>
      unfold discard
      rw [ih]
      split
      · rfl
      · exact books_putMsg_of_peer rfl rfl

theorem books_leave (c : Addr) (p : Proxy) :
    (((p.unref c).putClient c fun conn => { conn with m_sd := -1 }).freeClient c).books =
      p.books.leave c := by
  have desk : ((((p.putClient c fun conn => { conn with m_owner := none }).putClient c
      fun conn => { conn with m_sd := -1 }).putClient c NcConn.baseReset)).books = p.books := by
    rw [books_putClient_of_desk rfl, books_putClient_of_desk rfl, books_putClient_of_desk rfl]
  show ((((p.putClient c fun conn => { conn with m_owner := none }).putClient c
    fun conn => { conn with m_sd := -1 }).putClient c NcConn.baseReset)).books.leave c = _
  rw [desk]

/-- What a client receives is dropped first. -/
theorem dropMsgs_start (strict : Prop) (sound : p.books.Sound) (isOpen : p.Open c) :
    ∃ q : Proxy, p.dropMsgs c = q.discard (q.client c).m_owner (q.client c).m_omsg_q ∧
      Books.Within strict p.books q.books ∧ (q.books.client c).rmsg = none ∧
      (q.books.client c).omsg = (p.books.client c).omsg ∧ q.books.server = p.books.server ∧
      ∀ x, (q.msg x).m_done = (p.msg x).m_done := by
  unfold dropMsgs
  cases received : (p.client c).m_rmsg with
  | none => exact ⟨p, rfl, .refl, received, rfl, rfl, fun _ => rfl⟩
  | some m =>
      have down := books_putDown c p
      have sameMsgs : (p.putClient c fun conn => { conn with m_rmsg := none }).msg_pool =
        p.msg_pool := rfl
      dsimp only
      generalize (p.putClient c fun conn => { conn with m_rmsg := none }) = q at down sameMsgs
      have desk : q.books.client c = { p.books.client c with rmsg := none } := by
        rw [down]
        exact Function.update_self ..
      have server : q.books.server = p.books.server := by
        rw [down]
        rfl
      have m_done (x : Addr) : ((q.freeMsg (p.client c).m_owner m true).msg x).m_done =
          (p.msg x).m_done := by
        rw [freeMsg_m_done]
        unfold msg
        rw [sameMsgs]
      refine ⟨q.freeMsg (p.client c).m_owner m true, rfl, ?_⟩
      rcases books_freeMsg_cases (p := q) (m := m) (p.client c).m_owner (Or.inl rfl)
        with ⟨-, lost⟩ | given
      · rw [lost, desk]
        refine ⟨?_, rfl, rfl, server, m_done⟩
        rw [down]
        exact .single .putDown
      · obtain ⟨-, -, client, -, server', -, -⟩ := Books.discard_frame m q.books
        rw [given, client, server', desk]
        refine ⟨?_, rfl, rfl, server, m_done⟩
        rw [down]
        exact sound.drop isOpen received

/-- The requests of a client that are done are with no server connection. -/
def Settled (p : Proxy) (c : Addr) : Prop :=
  ∀ m ∈ (p.client c).m_omsg_q, (p.msg m).m_done = true →
    ∀ s, m ∉ (p.server s).m_imsg_q ∧ m ∉ (p.server s).m_omsg_q

/-- **Closing a client**: it goes, and the requests that are done are given back. -/
theorem close_books (strict : Prop) (sound : p.books.Sound) (counted : Counted p) (isOpen : p.Open c)
    (settled : p.Settled c) :
    ∃ b, Books.Within strict p.books b ∧ c ∈ b.live ∧ (b.client c).rmsg = none ∧
      Books.Within strict (b.leave c) (p.close c).books := by
  obtain ⟨q, drops, before, rmsg, omsg, server, m_done⟩ :=
    dropMsgs_start (p := p.did (.closed c)) strict sound isOpen
  have notNegative : ¬ ((p.did (.closed c)).client c).m_sd < 0 :=
    Int.not_lt.mpr (counted.range c isOpen).1
  have isLive : c ∈ q.books.live := by
    rw [before.frame.live]
    exact isOpen
  refine ⟨q.books, before, isLive, rmsg, ?_⟩
  unfold close
  dsimp only
  rw [if_neg notNegative, books_leave, drops]
  by_cases owned : (q.client c).m_owner = none
  · rw [owned, books_discard_unowned]
    exact .refl
  · obtain ⟨place, agrees⟩ := sound.within before
    have outside {m : Addr} (inside : m ∈ (q.client c).m_omsg_q) (done : (q.msg m).m_done = true)
        (s : Addr) : m ∉ (q.books.server s).imsg ++ (q.books.server s).omsg := by
      have same : (q.client c).m_omsg_q = (p.client c).m_omsg_q := omsg
      rw [server, List.mem_append, not_or]
      exact settled m (same ▸ inside) ((m_done m).symm.trans done) s
    rw [books_discard owned, Books.discards_leave]
    refine Books.Sound.discards ⟨place, agrees.leave isLive rmsg⟩
      ((agrees.client_distinct isLive).filter _) (fun x inside y inside' peer => ?_)
      fun x inside => ?_
    · obtain ⟨inside, -⟩ := List.mem_filter.mp inside
      obtain ⟨inside', -⟩ := List.mem_filter.mp inside'
      have pair := agrees.answered isLive inside peer
      exact (agrees.client c isLive).not_mem pair.2.1 nofun (fun _ => nofun) inside'
    · obtain ⟨inside, done⟩ := List.mem_filter.mp inside
      exact agrees.loose_leave isLive inside (outside inside done)

/-- The client object that `c_pool` hands out again has no requests in its queue. -/
def Clean (p : Proxy) : Prop := ∀ c ∈ p.c_pool.m_queue.head?, (p.client c).m_omsg_q = []

/-- **A client that is accepted**, from a clean object or a new one. -/
theorem enroll_books (sd : Int) (sound : p.books.Sound) (counted : Counted p) (clean : p.Clean) :
    ∃ rest, (p.enroll sd).books = p.books.enter p.nextClient sd rest ∧
      p.nextClient ∉ p.books.live ∧ p.nextClient ∉ rest ∧ ∀ d ∈ rest, d ∈ p.books.idle := by
  have distinct := List.nodup_append.mp counted.distinct
  -- the descriptor and the owner are not in the books
  have named (c : Addr) (t : Proxy) : ((t.putClient c fun conn =>
      { conn with m_sd := sd }).putClient c fun conn => { conn with m_owner := some pool }).books =
      t.books := by
    rw [books_putClient_of_desk rfl, books_putClient_of_desk rfl]
  have enrolled : (p.enroll sd).books = { ({ p with
      c_pool := (p.c_pool.alloc NcConn.new).1 } : Proxy).books with
        live := p.books.live ++ [p.nextClient] }.note (.accepted p.nextClient sd) := by
    rw [← named p.nextClient { p with c_pool := (p.c_pool.alloc NcConn.new).1 }]
    rfl
  cases queue : p.c_pool.m_queue with
  | cons c rest =>
      have taken := NcObjectPool.alloc_queued NcConn.new queue
      have next : p.nextClient = c := congrArg Prod.snd taken
      have queued : c ∈ p.c_pool.m_queue := queue ▸ List.mem_cons_self
      obtain ⟨place, agrees⟩ := sound
      have bare : p.books.client c = .bare := by
        have rests := agrees.idle c queued
        have omsg : (p.client c).m_omsg_q = [] := clean c (queue ▸ rfl)
        show Desk.mk _ (p.client c).m_omsg_q _ _ = Desk.mk [] [] none none
        rw [omsg, show (p.client c).m_rmsg = none from rests.rmsg,
          show (p.client c).m_imsg_q = [] from rests.imsg,
          show (p.client c).m_smsg = none from rests.smsg]
      have same : p.books.setClient c .bare = p.books := by
        unfold Books.setClient
        rw [← bare, Function.update_eq_self]
      refine ⟨rest, ?_, ?_, ?_, ?_⟩
      · rw [enrolled, next, taken]
        unfold Books.enter
        rw [same]
        rfl
      · rw [next]
        exact fun isLive => distinct.2.2 c isLive c queued rfl
      · rw [next]
        exact (List.nodup_cons.mp (queue ▸ distinct.2.1)).1
      · intro d inside
        show d ∈ p.c_pool.m_queue
        rw [queue]
        exact List.mem_cons_of_mem c inside
  | nil =>
      have taken := NcObjectPool.alloc_empty NcConn.new queue
      have next : p.nextClient = p.c_pool.made := congrArg Prod.snd taken
      have client : (fun d => (Function.update p.c_pool.mem p.c_pool.made NcConn.new d).desk) =
          Function.update p.books.client p.c_pool.made .bare :=
        Function.comp_update NcConn.desk p.client p.c_pool.made NcConn.new
      refine ⟨[], ?_, ?_, List.not_mem_nil, fun d inside => absurd inside List.not_mem_nil⟩
      · rw [enrolled, next, taken]
        unfold Books.enter Books.setClient
        rw [← client, ← queue]
        rfl
      · rw [next]
        exact fun isLive => Nat.lt_irrefl _ (counted.made _ (List.mem_append_left _ isLive))

/-- A client with nothing in its queues that is closed only goes. -/
theorem close_bare (bare : (p.client c).desk = .bare) (range : 0 ≤ (p.client c).m_sd) :
    (p.close c).books = p.books.leave c := by
  have notNegative : ¬ ((p.did (.closed c)).client c).m_sd < 0 := Int.not_lt.mpr range
  have rmsg : ((p.did (.closed c)).client c).m_rmsg = none := congrArg Desk.rmsg bare
  have omsg : ((p.did (.closed c)).client c).m_omsg_q = [] := congrArg Desk.omsg bare
  unfold close
  dsimp only
  rw [if_neg notNegative, books_leave]
  unfold dropMsgs
  rw [rmsg]
  dsimp only
  rw [omsg]
  rfl

end Clients

/-! ### Events -/

/-- **An event that mixes nothing up**: an accept hands out a clean client object, and a client that is
closed has no request that is done and still with a server connection. -/
def Safe (p : Proxy) : ProxyEvent → Prop
  | .accept (.descriptor _ _ _) => p.ctx.max_ncconn ≤ ncCurCConn ∨ p.Clean
  | .clientClose c => p.Settled c
  | _ => True

/-- No connection is closed, and no response finds an empty queue. -/
def Orderly (p : Proxy) : ProxyEvent → Prop
  | .clientClose _ | .serverClose _ => False
  | .serverRecv s _ fresh answer => p.Expected s fresh answer
  | _ => True

/-- **The proxy keeps the books**: a safe event is a step of theirs. -/
theorem books_step {strict : Prop} {p q : Proxy} {event : ProxyEvent} (sound : p.books.Sound)
    (counted : Counted p) (safe : Safe p event) (orderly : strict → Orderly p event)
    (step : Step p event q) : Books.Step strict p.books q.books := by
  cases event with
  | accept answer =>
      rw [step.2]
      cases answer with
      | failed => exact .turns .refl
      | descriptor sd setNonBlocking addConn =>
          show Books.Step strict p.books (if _ then p else _ : Proxy).books
          by_cases refused : p.ctx.max_ncconn ≤ ncCurCConn
          · rw [if_pos refused]
            exact .turns .refl
          obtain ⟨least, greatest, fresh⟩ := step.1
          obtain ⟨rest, enrolled, notLive, unused, still⟩ :=
            enroll_books sd sound counted (safe.resolve_left refused)
          rw [if_neg refused]
          split
          · rw [enrolled]
            exact .enter notLive unused still
          · obtain ⟨counted', isOpen⟩ := counted.enroll ⟨least, greatest⟩ fresh
            have bare : ((p.enroll sd).client p.nextClient).desk = .bare := by
              show (p.enroll sd).books.client p.nextClient = .bare
              rw [enrolled]
              exact Function.update_self ..
            rw [close_bare bare (counted'.range _ isOpen).1, enrolled]
            exact .refuse notLive unused still
  | clientRecv c choice sys fresh answer =>
      rw [step.2]
      exact .turns (clientRecv_within choice sys fresh answer sound step.1)
  | clientSend c delOutput answer => exact clientSend_step sound step.1 step.2
  | clientClose c =>
      obtain ⟨b, before, isLive, rmsg, after⟩ := close_books strict sound counted step.1 safe
      rw [step.2]
      exact .leave orderly before isLive rmsg after
  | serverRecv s sys fresh answer =>
      rw [step.2]
      exact .turns (serverRecv_within sys sound orderly)
  | serverSend s sys done =>
      rw [step.2.2]
      exact .turns (serverSend_within sys sound step.1.1 step.2.1)
  | serverClose s =>
      rw [step.2]
      exact .turns .refl

end Proxy

end Nutcracker
