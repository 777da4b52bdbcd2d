/-
**Which queues are empty when they are read?**

The handlers take `front()` of a queue first and compare with `NULL` afterwards. `blind` counts the
looks at an empty queue, which the record of the handlers shows.

* `clientRecv_sighted_iff`, `serverRecv_sighted_iff` — a turn of `recvMsg` looks at a queue with an
  element each time exactly if the message it goes on with has a buffer, and the queues of the
  forwarding have elements.
* `step_sighted_iff` — an event looks at elements only, exactly if it is `Fit`.
* `looks_iff` — **so in every reachable state, and on all runs of fit events**.
* `looked_at_nothing` — the first read of a client is not.
-/

import Nutcracker.Proxy.Frame

namespace Nutcracker

open Lib

/-- A look at an empty queue. -/
def Act.blind : Act → Bool
  | .looked _ empty => empty
  | _ => false

namespace Proxy

/-- The looks at an empty queue so far. -/
def blind (p : Proxy) : Nat := p.acts.countP Act.blind

theorem blind_did (act : Act) (p : Proxy) :
    (p.did act).blind = p.blind + if act.blind = true then 1 else 0 := List.countP_cons ..

theorem blind_looked {empty : Bool} (handler : Handler) (sees : empty = false) (p : Proxy) :
    (p.did (.looked handler empty)).blind = p.blind := by
  rw [blind_did, sees]
  rfl

theorem blind_looked_empty {empty : Bool} (handler : Handler) (nothing : empty = true) (p : Proxy) :
    (p.did (.looked handler empty)).blind = p.blind + 1 := by
  rw [blind_did, nothing]
  rfl

/-- The count grows. -/
theorem grows_whole : Whole fun p q => p.blind ≤ q.blind where
  refl p := Nat.le_refl _
  trans := Nat.le_trans
  did act p _ := by
    rw [blind_did]
    exact Nat.le_add_right ..
  msgs _ _ := Nat.le_refl _
  putClient _ _ _ _ := Nat.le_refl _
  putServer _ _ _ := Nat.le_refl _
  clients _ _ _ _ := Nat.le_refl _
  noted act p _ := by
    rw [blind_did]
    exact Nat.le_add_right ..

theorem isEmpty_eq_false {α : Type} {l : List α} : l.isEmpty = false ↔ l ≠ [] := by
  rw [← Bool.not_eq_true, List.isEmpty_iff]

/-- One look makes a turn blind exactly if the queue is empty. -/
theorem blind_looked_iff {α : Type} (handler : Handler) (queue : List α) (p : Proxy) :
    (p.did (.looked handler queue.isEmpty)).blind = p.blind ↔ queue ≠ [] := by
  by_cases nothing : queue = []
  · rw [blind_looked_empty handler (List.isEmpty_iff.mpr nothing)]
    exact iff_of_false (Nat.succ_ne_self _) (not_not.mpr nothing)
  · exact iff_of_true (blind_looked handler (isEmpty_eq_false.mpr nothing) p) nothing

/-! ### The choice of a server connection -/

/-- The choice looks at no empty queue: the server may have another connection, or has one. -/
def ChoiceFits (p : Proxy) : Choice → Prop
  | .any _ => True
  | .index idx => ∀ server, p.server_pool.server[idx % p.server_pool.server.length]? = some server →
      server.m_ns_conn_q < p.server_pool.server_connections ∨ server.m_conn_queue ≠ []

theorem serverGetConn_frame (i : Nat) (server : NcServer) (p : Proxy) :
    (p.serverGetConn i server).1.msg_pool = p.msg_pool ∧
      (p.serverGetConn i server).1.c_pool = p.c_pool ∧
      (p.serverGetConn i server).1.blind = p.blind +
        if ¬ server.m_ns_conn_q < p.server_pool.server_connections ∧ server.m_conn_queue = [] then 1
        else 0 := by
  unfold serverGetConn
  by_cases more : server.m_ns_conn_q < p.server_pool.server_connections
  · rw [if_pos more, if_neg (not_and.mpr fun full => absurd more full)]
    exact ⟨rfl, rfl, rfl⟩
  · rw [if_neg more]
    refine ⟨rfl, rfl, ?_⟩
    have looked := blind_did (.looked .getConn server.m_conn_queue.isEmpty) p
    refine looked.trans (congrArg (p.blind + ·) (if_congr ?_ rfl rfl))
    rw [and_iff_right more]
    exact List.isEmpty_iff

/-- A choice changes neither the messages nor the clients. -/
theorem pick_frame (choice : Choice) (p : Proxy) :
    (choice.pick p).1.msg_pool = p.msg_pool ∧ (choice.pick p).1.c_pool = p.c_pool ∧
      p.blind ≤ (choice.pick p).1.blind := by
  cases choice with
  | any conn => exact ⟨rfl, rfl, Nat.le_refl _⟩
  | index idx =>
      show (p.getConn idx).1.msg_pool = p.msg_pool ∧ (p.getConn idx).1.c_pool = p.c_pool ∧
        p.blind ≤ (p.getConn idx).1.blind
      unfold getConn
      cases p.server_pool.server[idx % p.server_pool.server.length]? with
      | none => exact ⟨rfl, rfl, Nat.le_refl _⟩
      | some server =>
          obtain ⟨msgs, clients, looks⟩ :=
            p.serverGetConn_frame (idx % p.server_pool.server.length) server
          refine ⟨msgs, clients, ?_⟩
          dsimp only
          rw [blind_did, looks]
          omega

theorem pick_sighted_iff (choice : Choice) (p : Proxy) :
    (choice.pick p).1.blind = p.blind ↔ p.ChoiceFits choice := by
  cases choice with
  | any conn => exact iff_of_true rfl trivial
  | index idx =>
      show (p.getConn idx).1.blind = _ ↔ _
      unfold getConn
      cases found : p.server_pool.server[idx % p.server_pool.server.length]? with
      | none => exact iff_of_true rfl fun server isSome => absurd (found.symm.trans isSome) nofun
      | some server =>
          have fits : p.ChoiceFits (.index idx) ↔
              server.m_ns_conn_q < p.server_pool.server_connections ∨ server.m_conn_queue ≠ [] := by
            refine ⟨fun all => all server found, fun holds server' found' => ?_⟩
            rw [← Option.some.inj (found.symm.trans found')]
            exact holds
          have chose : (Act.chose (p.serverGetConn (idx % p.server_pool.server.length) server).2).blind
              = false := rfl
          dsimp only
          rw [fits, blind_did, chose, if_neg Bool.false_ne_true, Nat.add_zero,
            (p.serverGetConn_frame _ server).2.2, Nat.add_eq_left, ite_eq_right_iff]
          refine ⟨fun looks => ?_, fun holds none =>
            absurd (holds.resolve_left none.1) (not_not.mpr none.2)⟩
          by_contra none
          exact absurd (looks ⟨(not_or.mp none).1, not_not.mp (not_or.mp none).2⟩) Nat.one_ne_zero

/-! ### Forwarding a request -/

theorem requestForwardError_sighted (sys : ForwardAnswers) {c m : Addr} {p : Proxy}
    (queued : (p.msg m).m_noreply = true ∨ (p.client c).m_omsg_q ≠ []) :
    (p.requestForwardError sys c m).blind = p.blind := by
  unfold requestForwardError
  dsimp only
  rw [msg_putMsg]
  dsimp only
  by_cases quiet : (p.msg m).m_noreply = true
  · rw [if_pos quiet]
    rfl
  · rw [if_neg quiet]
    have looked : (p.did (.looked .requestForwardError (p.client c).m_omsg_q.isEmpty)).blind =
        p.blind := blind_looked _ (isEmpty_eq_false.mpr (queued.resolve_left quiet)) p
    cases sys.client with
    | none => exact looked
    | some err => exact looked

/-- A request is in the queue of its client before `requestForwardError` looks there. -/
theorem requestForward_sighted_iff (choice : Choice) (sys : ForwardAnswers) (c m : Addr) (p : Proxy) :
    (p.requestForward choice.pick sys c m).blind = p.blind ↔ p.ChoiceFits choice := by
  generalize enqueued : (if (p.msg m).m_noreply then p
    else p.putClient c fun conn => { conn with m_omsg_q := conn.m_omsg_q ++ [m] }) = q
  have same : q.blind = p.blind ∧ q.msg_pool = p.msg_pool ∧ q.server_pool = p.server_pool := by
    rw [← enqueued]
    split
    · exact ⟨rfl, rfl, rfl⟩
    · exact ⟨rfl, rfl, rfl⟩
  have queued : (q.msg m).m_noreply = true ∨ (q.client c).m_omsg_q ≠ [] := by
    by_cases quiet : (p.msg m).m_noreply = true
    · exact Or.inl ((congrArg (fun pool => (pool.mem m).m_noreply) same.2.1).trans quiet)
    · refine Or.inr ?_
      rw [← enqueued, if_neg quiet, client_putClient]
      exact List.append_ne_nil_of_right_ne_nil _ (List.cons_ne_nil m [])
  have frame := pick_frame choice q
  have queued' : ((choice.pick q).1.msg m).m_noreply = true ∨
      ((choice.pick q).1.client c).m_omsg_q ≠ [] := by
    unfold msg client
    rw [frame.1, frame.2.1]
    exact queued
  have failed := requestForwardError_sighted sys queued'
  have rest : (p.requestForward choice.pick sys c m).blind = (choice.pick q).1.blind := by
    unfold requestForward
    dsimp only
    rw [enqueued]
    cases (choice.pick q).2 with
    | none => exact failed
    | some s =>
        dsimp only
        split
        · cases sys.server with
          | none => rfl
          | some err => exact failed
        · rfl
  have fits : q.ChoiceFits choice ↔ p.ChoiceFits choice := by
    unfold ChoiceFits
    rw [same.2.2]
  rw [rest, ← fits, ← pick_sighted_iff choice q, same.1]

theorem requestFilter_blind (c m : Addr) (p : Proxy) :
    (p.requestFilter c m).1.blind = p.blind ∧
      (p.requestFilter c m).2 = ((p.msg m).empty || (p.msg m).m_quit) ∧
      ((p.requestFilter c m).2 = false → (p.requestFilter c m).1 = p) := by
  unfold requestFilter
  cases (p.msg m).empty with
  | true => exact ⟨rfl, rfl, nofun⟩
  | false =>
      cases (p.msg m).m_quit with
      | true => exact ⟨rfl, rfl, nofun⟩
      | false => exact ⟨rfl, rfl, fun _ => rfl⟩

theorem clientRecvDone_sighted_iff (choice : Choice) (sys : ForwardAnswers) (c m : Addr) (p : Proxy) :
    (p.clientRecvDone choice.pick sys c m).blind = p.blind ↔
      (p.msg m).empty = true ∨ (p.msg m).m_quit = true ∨ (p.msg m).m_noforward = true ∨
        p.ChoiceFits choice := by
  unfold clientRecvDone
  dsimp only
  generalize started : (p.putClient c fun conn => { conn with m_rmsg := none }) = q
  have same : q.blind = p.blind ∧ q.msg m = p.msg m ∧ q.server_pool = p.server_pool :=
    started ▸ ⟨rfl, rfl, rfl⟩
  obtain ⟨blind, filtered, passes⟩ := q.requestFilter_blind c m
  rw [same.2.1] at filtered
  by_cases drops : (q.requestFilter c m).2 = true
  · rw [if_pos drops]
    refine iff_of_true (blind.trans same.1) ?_
    rw [filtered, Bool.or_eq_true] at drops
    exact drops.imp_right Or.inl
  · rw [if_neg drops, passes (Bool.not_eq_true _ ▸ drops)]
    rw [filtered, Bool.or_eq_true, not_or] at drops
    rw [or_iff_right drops.1, or_iff_right drops.2]
    have read : (q.did (.read c m)).blind = p.blind := (blind_did _ q).trans same.1
    have kept : (q.did (.read c m)).msg m = p.msg m := same.2.1
    rw [kept]
    by_cases stays : (p.msg m).m_noforward = true
    · rw [if_pos stays]
      refine iff_of_true ?_ (Or.inl stays)
      cases sys.client with
      | none => exact read
      | some err => exact read
    · have fits : (q.did (.read c m)).ChoiceFits choice ↔ p.ChoiceFits choice := by
        unfold ChoiceFits
        rw [show (q.did (.read c m)).server_pool = p.server_pool from same.2.2]
      rw [if_neg stays, or_iff_right stays, ← fits, ← requestForward_sighted_iff choice sys c m, read]

/-! ### Linking a response -/

/-- A response finds a request in the queue of the server, and its client a request in the queue of
the client. -/
def LinkFits (s : Addr) (p : Proxy) : Prop :=
  ∃ pmsg rest, (p.server s).m_omsg_q = pmsg :: rest ∧
    ∀ c, (p.msg pmsg).data = some c → (p.client c).m_omsg_q ≠ []

theorem responseForward_sighted_iff (sys : ForwardAnswers) {s m pmsg : Addr} {rest : List Addr}
    {p : Proxy} (queue : (p.server s).m_omsg_q = pmsg :: rest) :
    (p.responseForward sys s m).blind = p.blind ↔
      ∀ c, (p.msg pmsg).data = some c → (p.client c).m_omsg_q ≠ [] := by
  have linked : (p.link s m pmsg).blind = p.blind := by
    show blind (Proxy.did (.answered s m pmsg) _) = _
    rw [blind_did]
    exact blind_looked .responseForward rfl p
  have client (c : Addr) : (p.link s m pmsg).client c = p.client c := rfl
  rw [responseForward_eq sys queue]
  cases (p.msg pmsg).data with
  | none => exact iff_of_true linked nofun
  | some c =>
      have first : (∀ d, some c = some d → (p.client d).m_omsg_q ≠ []) ↔
          (p.client c).m_omsg_q ≠ [] :=
        ⟨fun all => all c rfl, fun first d same => Option.some.inj same ▸ first⟩
      have woken : ((p.link s m pmsg).wake sys c).blind =
          ((p.link s m pmsg).did (.looked .responseForward (p.client c).m_omsg_q.isEmpty)).blind := by
        unfold wake
        dsimp only
        split
        · rfl
        · cases sys.client with
          | none => rfl
          | some err => rfl
      rw [first, ← linked]
      dsimp only
      rw [woken]
      exact blind_looked_iff ..

theorem responseFilter_empty {s m : Addr} {p : Proxy} (empty : (p.msg m).empty = true) :
    (p.responseFilter s m).1.blind = p.blind ∧ (p.responseFilter s m).2 = true := by
  unfold responseFilter
  rw [if_pos empty]
  exact ⟨rfl, rfl⟩

theorem responseFilter_stray {s m : Addr} {p : Proxy} (full : ¬ (p.msg m).empty = true)
    (stray : (p.server s).m_omsg_q = []) :
    (p.responseFilter s m).1.blind = p.blind + 1 ∧ (p.responseFilter s m).2 = true := by
  have looked := blind_looked_empty .responseFilter (List.isEmpty_iff.mpr stray)
    (p.did (.responded s m))
  unfold responseFilter
  rw [if_neg full]
  dsimp only
  generalize given : p.did (.responded s m) = q at looked
  have server : q.server s = p.server s := given ▸ rfl
  have blind : q.blind = p.blind := given ▸ rfl
  rw [server, show (q.did (.looked .responseFilter (p.server s).m_omsg_q.isEmpty)).server s =
    p.server s from server, if_pos stray]
  rw [blind] at looked
  exact ⟨looked, rfl⟩

theorem responseFilter_request {s m : Addr} {p : Proxy} (full : ¬ (p.msg m).empty = true)
    (request : (p.server s).m_omsg_q ≠ []) :
    p.responseFilter s m =
      ((p.did (.responded s m)).did (.looked .responseFilter false), false) := by
  unfold responseFilter
  rw [if_neg full]
  dsimp only
  rw [show (p.did (.responded s m)).server s = p.server s from rfl, isEmpty_eq_false.mpr request]
  exact if_neg request

theorem serverRecvDone_sighted_iff (sys : ForwardAnswers) (s m : Addr) (p : Proxy) :
    (p.serverRecvDone sys s m).blind = p.blind ↔ (p.msg m).empty = true ∨ p.LinkFits s := by
  unfold serverRecvDone
  dsimp only
  generalize started : (p.putServer s fun conn => { conn with m_rmsg := none }) = q
  have queue : (q.server s).m_omsg_q = (p.server s).m_omsg_q := by
    rw [← started, server_putServer]
  have same : q.blind = p.blind ∧ q.msg_pool = p.msg_pool ∧ q.c_pool = p.c_pool :=
    started ▸ ⟨rfl, rfl, rfl⟩
  have fits : q.LinkFits s ↔ p.LinkFits s := by
    unfold LinkFits msg client
    rw [queue, same.2.1, same.2.2]
  rw [← fits, ← show q.msg m = p.msg m from congrArg (fun pool => pool.mem m) same.2.1]
  by_cases empty : (q.msg m).empty = true
  · obtain ⟨blind, drops⟩ := responseFilter_empty (s := s) empty
    rw [if_pos drops, blind, same.1]
    exact iff_of_true rfl (Or.inl empty)
  rw [or_iff_right empty]
  cases queued : (q.server s).m_omsg_q with
  | nil =>
      obtain ⟨blind, drops⟩ := responseFilter_stray empty queued
      rw [if_pos drops, blind, same.1]
      refine iff_of_false (Nat.succ_ne_self _) ?_
      rintro ⟨pmsg, rest, queued', -⟩
      cases queued.symm.trans queued'
  | cons pmsg rest =>
      have request : (q.server s).m_omsg_q ≠ [] := queued ▸ List.cons_ne_nil pmsg rest
      have blind : ((q.did (.responded s m)).did (.looked .responseFilter false)).blind = p.blind :=
        (blind_looked _ rfl (q.did (.responded s m))).trans same.1
      rw [responseFilter_request empty request, if_neg Bool.false_ne_true, ← blind,
        responseForward_sighted_iff sys
          (p := (q.did (.responded s m)).did (.looked .responseFilter false)) queued]
      refine ⟨fun all => ⟨pmsg, rest, queued, all⟩, ?_⟩
      rintro ⟨pmsg', rest', queued', all⟩
      cases queued.symm.trans queued'
      exact all

/-! ### A turn of `recvMsg` -/

theorem recv_m_omsg_q (answer : ReadAnswer) (size : Nat) (conn : NcConn) :
    (conn.recv answer size).1.m_omsg_q = conn.m_omsg_q := by
  obtain ⟨ready, eof, err, same⟩ := recv_frame answer size conn
  rw [same]

/-- A receiver whose `recvDone` looks at elements, for a message that is not empty, exactly if the
condition holds. -/
structure Sighted (r : Receiver) (fits : Addr → Proxy → Prop) : Prop where
  put : ∀ f p, (r.put f p).acts = p.acts ∧ (r.put f p).msg_pool = p.msg_pool
  next : ∀ p, (r.recvNext false p).1.acts = p.acts
  done : ∀ m p, (r.recvDone m p).blind = p.blind ↔ (p.msg m).empty = true ∨ fits m p
  grows : Frame.Receives (fun p q => p.blind ≤ q.blind) r
  did : ∀ act m p, fits m (p.did act) ↔ fits m p
  recv : ∀ answer size m p,
    fits m (r.put (fun _ => ((r.conn p).recv answer size).1) p) ↔ fits m p
  store : ∀ queue mlen m p, fits m (p.putMsg m fun msg =>
    { msg with m_mbuf_queue := queue, m_mlen := mlen }) ↔ fits m p

namespace Sighted

variable {r : Receiver} {fits : Addr → Proxy → Prop}

theorem parse_iff (sighted : Sighted r fits) {m : Addr} {p : Proxy}
    (buffers : (p.msg m).m_mbuf_queue ≠ []) :
    (parse r m p).1.blind = p.blind ↔ (p.msg m).empty = true ∨ fits m p := by
  unfold parse
  by_cases empty : (p.msg m).empty = true
  · rw [if_pos empty]
    exact sighted.done m p
  · have seen := isEmpty_eq_false.mpr buffers
    have looked := blind_looked .parse seen p
    have again := blind_looked .parseDone seen
      (p.did (.looked .parse (p.msg m).m_mbuf_queue.isEmpty))
    have done := sighted.done m ((p.did (.looked .parse (p.msg m).m_mbuf_queue.isEmpty)).did
      (.looked .parseDone (p.msg m).m_mbuf_queue.isEmpty))
    rw [again, looked, sighted.did, sighted.did] at done
    rw [if_neg empty]
    exact done

theorem received_iff (sighted : Sighted r fits) (before : List NcMbuf) (mbuf : NcMbuf)
    (bytes : List UInt8) (m : Addr) (p : Proxy) :
    (received r before mbuf bytes m p).1.blind = p.blind ↔ bytes = [] ∨ fits m p := by
  have parsed := sighted.parse_iff (m := m) (p := p.putMsg m fun msg =>
    { msg with m_mbuf_queue := before ++ [mbuf.copy bytes], m_mlen := bytes.length }) <| by
      rw [msg_putMsg]
      exact List.append_ne_nil_of_right_ne_nil _ (List.cons_ne_nil _ [])
  have empty : ((p.putMsg m fun msg => { msg with
      m_mbuf_queue := before ++ [mbuf.copy bytes], m_mlen := bytes.length }).msg m).empty = true ↔
        bytes = [] := by
    rw [msg_putMsg]
    exact beq_iff_eq.trans List.length_eq_zero_iff
  rw [empty, sighted.store] at parsed
  unfold received
  dsimp only
  split
  · show blind _ = _ ↔ _
    unfold blind at parsed ⊢
    rw [sighted.next]
    exact parsed
  · exact parsed

/-- **`recvChain` looks at elements** exactly if the message has a buffer, and the condition holds
when bytes arrive. -/
theorem recvChain_iff (sighted : Sighted r fits) (fresh : NcMbuf) (answer : ReadAnswer) (m : Addr)
    (p : Proxy) :
    (recvChain r fresh answer m p).1.blind = p.blind ↔ (p.msg m).m_mbuf_queue ≠ [] ∧
      (HasData (tailMbuf fresh (p.msg m).m_mbuf_queue).2.size answer → fits m p) := by
  have msg (act : Act) : (p.did act).msg m = p.msg m := rfl
  unfold recvChain
  dsimp only
  rw [msg]
  generalize tailMbuf fresh (p.msg m).m_mbuf_queue = tail
  by_cases buffers : (p.msg m).m_mbuf_queue = []
  · have looked := blind_looked_empty .recvChain (List.isEmpty_iff.mpr buffers) p
    generalize p.did (.looked .recvChain (p.msg m).m_mbuf_queue.isEmpty) = q at looked
    have after : (r.put (fun _ => ((r.conn q).recv answer tail.2.size).1) q).blind = q.blind :=
      congrArg (List.countP Act.blind) (sighted.put _ q).1
    refine iff_of_false (fun same => ?_) fun holds => holds.1 buffers
    have more : q.blind ≤ p.blind := by
      rw [← same, ← after]
      cases ((r.conn q).recv answer tail.2.size).2 with
      | ok bytes => exact grows_whole.base.received sighted.grows tail.1 tail.2 bytes m _
      | error status => exact Nat.le_refl _
    omega
  · have looked := blind_looked .recvChain (isEmpty_eq_false.mpr buffers) p
    have fits' : fits m (p.did (.looked .recvChain (p.msg m).m_mbuf_queue.isEmpty)) ↔ fits m p :=
      sighted.did _ m p
    generalize p.did (.looked .recvChain (p.msg m).m_mbuf_queue.isEmpty) = q at looked fits'
    have after : (r.put (fun _ => ((r.conn q).recv answer tail.2.size).1) q).blind = p.blind :=
      (congrArg (List.countP Act.blind) (sighted.put _ q).1).trans looked
    rw [and_iff_right buffers, ← fits', ← sighted.recv answer tail.2.size m q]
    rcases recv_cases answer tail.2.size (r.conn q) with
      ⟨data, bytes, ready, some, read⟩ | ⟨nothing, read | ⟨status, err, read⟩⟩
    · have read := congrArg Prod.snd read
      have received := sighted.received_iff tail.1 tail.2 bytes m
        (r.put (fun _ => ((r.conn q).recv answer tail.2.size).1) q)
      rw [after, or_iff_right some] at received
      rw [imp_iff_right data, read]
      exact received
    · have read := congrArg Prod.snd read
      have received := sighted.received_iff tail.1 tail.2 [] m
        (r.put (fun _ => ((r.conn q).recv answer tail.2.size).1) q)
      rw [after] at received
      rw [read]
      exact iff_of_true (received.mpr (Or.inl rfl)) fun data => absurd data nothing
    · rw [congrArg Prod.snd read]
      exact iff_of_true after fun data => absurd data nothing

end Sighted

/-! ### The two kinds of connections -/

theorem dropIncomplete_acts {put : (NcConn → NcConn) → Proxy → Proxy} {conn : NcConn}
    (force : Bool) (p : Proxy) (keeps : ∀ f, (put f p).acts = p.acts) :
    (p.dropIncomplete put conn force).acts = p.acts := by
  unfold dropIncomplete
  cases conn.m_rmsg with
  | none => rfl
  | some m => exact keeps _

theorem clientRecvNext_acts (c : Addr) (alloc : Bool) (p : Proxy) :
    (p.clientRecvNext c alloc).1.acts = p.acts := by
  have dropped : (p.dropIncomplete (putClient c) (p.client c) true).acts = p.acts :=
    dropIncomplete_acts true p fun _ => rfl
  unfold clientRecvNext
  split
  · dsimp only
    split
    · exact dropped
    · exact dropped
  · split
    · rfl
    · split
      · rfl
      · rfl

theorem serverRecvNext_acts (s : Addr) (alloc : Bool) (p : Proxy) :
    (p.serverRecvNext s alloc).1.acts = p.acts := by
  unfold serverRecvNext
  split
  · exact dropIncomplete_acts false p fun _ => rfl
  · split
    · rfl
    · split
      · rfl
      · rfl

/-- A request finds its way: it is not forwarded, or the choice looks at elements. -/
def ForwardFits (choice : Choice) (m : Addr) (p : Proxy) : Prop :=
  (p.msg m).m_quit = true ∨ (p.msg m).m_noforward = true ∨ p.ChoiceFits choice

theorem clientReceiver_sighted (choice : Choice) (sys : ForwardAnswers) (c : Addr) :
    Sighted (clientReceiver choice.pick sys c) (ForwardFits choice) where
  put _ _ := ⟨rfl, rfl⟩
  next p := clientRecvNext_acts c false p
  done m p := clientRecvDone_sighted_iff choice sys c m p
  grows :=
    ⟨grows_whole.putClient c, (grows_whole.tends c).clientRecvNext,
      (grows_whole.tends c).clientRecvDone (fun p => (pick_frame choice p).2.2) sys⟩
  did _ _ _ := Iff.rfl
  recv _ _ _ _ := Iff.rfl
  store queue mlen m p := by
    unfold ForwardFits
    rw [msg_putMsg]
    exact Iff.rfl

theorem serverReceiver_sighted (sys : ForwardAnswers) (s : Addr) :
    Sighted (serverReceiver sys s) fun _ p => p.LinkFits s where
  put _ _ := ⟨rfl, rfl⟩
  next p := serverRecvNext_acts s false p
  done m p := serverRecvDone_sighted_iff sys s m p
  grows :=
    ⟨fun f p _ => grows_whole.putServer s f p, grows_whole.base.serverRecvNext s,
      grows_whole.fails.serverRecvDone sys s⟩
  did _ _ _ := Iff.rfl
  recv answer size m p := by
    show LinkFits s (p.putServer s fun _ => ((p.server s).recv answer size).1) ↔ _
    unfold LinkFits
    rw [server_putServer, recv_m_omsg_q]
    exact Iff.rfl
  store queue mlen m p := by
    have data (x : Addr) : ((p.putMsg m fun msg =>
        { msg with m_mbuf_queue := queue, m_mlen := mlen }).msg x).data = (p.msg x).data := by
      by_cases same : x = m
      · rw [same, msg_putMsg]
      · rw [msg_putMsg_of_ne _ _ same]
    show LinkFits s (p.putMsg m _) ↔ _
    unfold LinkFits
    refine exists_congr fun pmsg => exists_congr fun rest => and_congr_right' (forall_congr' fun c => ?_)
    rw [data]
    exact Iff.rfl

/-- The message that a turn of `recvMsg` goes on with: the one being received, or one of
`msg_pool`. -/
def incoming (conn : NcConn) (p : Proxy) : Proxy × Addr :=
  match conn.m_rmsg with
  | some m => (p, m)
  | none => p.allocMsg

/-- **The turn looks at elements**: there is nothing to receive any more, or the message has a buffer
and the condition holds when bytes arrive. -/
def RecvFits (fits : Addr → Proxy → Prop) (conn : NcConn) (fresh : NcMbuf) (answer : ReadAnswer)
    (p : Proxy) : Prop :=
  conn.m_eof = true ∨
    (((p.incoming conn).1.msg (p.incoming conn).2).m_mbuf_queue ≠ [] ∧
      (HasData (tailMbuf fresh ((p.incoming conn).1.msg (p.incoming conn).2).m_mbuf_queue).2.size
        answer → fits (p.incoming conn).2 (p.incoming conn).1))

theorem clientRecv_sighted_iff (choice : Choice) (sys : ForwardAnswers) (c : Addr) (fresh : NcMbuf)
    (answer : ReadAnswer) (p : Proxy) :
    (recvTurn (clientReceiver choice.pick sys c) fresh answer p).1.blind = p.blind ↔
      p.RecvFits (ForwardFits choice) (p.client c) fresh answer := by
  have chain (m : Addr) (q : Proxy) :=
    (clientReceiver_sighted choice sys c).recvChain_iff fresh answer m q
  have next : (clientReceiver choice.pick sys c).recvNext true p = p.clientRecvNext c true := rfl
  have dropped : (p.clientRecvNext c true).1.blind = p.blind :=
    congrArg (List.countP Act.blind) (clientRecvNext_acts c true p)
  unfold recvTurn RecvFits incoming
  rw [next]
  by_cases eof : (p.client c).m_eof = true
  · have done : (p.clientRecvNext c true).2 = none := by
      unfold clientRecvNext
      rw [if_pos eof]
      dsimp only
      split
      · rfl
      · rfl
    cases result : p.clientRecvNext c true with
    | mk q msg =>
        rw [result] at done dropped
        rw [show msg = none from done]
        exact iff_of_true dropped (Or.inl eof)
  rw [or_iff_right eof]
  unfold clientRecvNext
  rw [if_neg eof]
  cases (p.client c).m_rmsg with
  | some m => exact chain m p
  | none =>
      have sighted := chain p.allocMsg.2 ((p.allocMsg.1.putClient c fun conn =>
        { conn with m_rmsg := some p.allocMsg.2 }).putMsg p.allocMsg.2 (NcMsg.setData (some c)))
      unfold ForwardFits at sighted ⊢
      rw [msg_putMsg] at sighted
      exact sighted

theorem serverRecv_sighted_iff (sys : ForwardAnswers) (s : Addr) (fresh : NcMbuf) (answer : ReadAnswer)
    (p : Proxy) :
    (recvTurn (serverReceiver sys s) fresh answer p).1.blind = p.blind ↔
      p.RecvFits (fun _ p => p.LinkFits s) (p.server s) fresh answer := by
  have chain (m : Addr) (q : Proxy) :=
    (serverReceiver_sighted sys s).recvChain_iff fresh answer m q
  have next : (serverReceiver sys s).recvNext true p = p.serverRecvNext s true := rfl
  unfold recvTurn RecvFits incoming
  rw [next]
  by_cases eof : (p.server s).m_eof = true
  · have dropped : (p.serverRecvNext s true).1.blind = p.blind :=
      congrArg (List.countP Act.blind) (serverRecvNext_acts s true p)
    unfold serverRecvNext at dropped ⊢
    rw [if_pos eof] at dropped ⊢
    exact iff_of_true dropped (Or.inl eof)
  rw [or_iff_right eof]
  unfold serverRecvNext
  rw [if_neg eof]
  cases (p.server s).m_rmsg with
  | some m => exact chain m p
  | none =>
      have sighted := chain p.allocMsg.2 (p.allocMsg.1.putServer s fun conn =>
        { conn with m_rmsg := some p.allocMsg.2 })
      unfold LinkFits at sighted ⊢
      rw [server_putServer] at sighted
      exact sighted

/-! ### Accepting, closing, and sending -/

theorem discard_acts (m_owner : Ptr) (msgs : List Addr) (p : Proxy) :
    (p.discard m_owner msgs).acts = p.acts := by
  induction msgs generalizing p with
  | nil => rfl
  | cons m rest ih =>
      unfold discard
      rw [ih]
      split
      · rfl
      · rfl

theorem dropMsgs_acts (c : Addr) (p : Proxy) : (p.dropMsgs c).acts = p.acts := by
  unfold dropMsgs
  rw [discard_acts]
  cases (p.client c).m_rmsg with
  | none => rfl
  | some m => rfl

theorem close_blind (c : Addr) (p : Proxy) : (p.close c).blind = p.blind := by
  have closed : (p.close c).acts = .closed c :: p.acts := by
    unfold close
    dsimp only
    split
    · rfl
    · exact dropMsgs_acts c (p.did (.closed c))
  unfold blind
  rw [closed]
  rfl

theorem accept_blind (answer : AcceptAnswer) (p : Proxy) : (p.accept answer).blind = p.blind := by
  cases answer with
  | failed => rfl
  | descriptor sd setNonBlocking addConn =>
      show blind (if _ then _ else _) = _
      split
      · rfl
      · split
        · rfl
        · exact (close_blind _ _).trans rfl

theorem clientSend_sighted_iff {c : Addr} {delOutput : Option Int}
    {answer : NcConn.SendvAnswer} {p q : Proxy} (turn : p.clientSendTurn c delOutput answer = .ok q) :
    q.blind = p.blind ↔ (p.client c).m_omsg_q ≠ [] := by
  have looked : q.blind =
      (p.did (.looked .clientSendNext (p.client c).m_omsg_q.isEmpty)).blind := by
    rcases clientSendTurn_cases turn with
      ⟨-, final⟩ | ⟨_, _, _, _, _, _, -, -, -, ⟨-, final⟩ | ⟨-, final⟩⟩
    · rw [final]
      rfl
    · rw [final]
      rfl
    · rw [final]
      rfl
  rw [looked]
  exact blind_looked_iff ..

theorem serverSend_sighted_iff (s : Addr) (sys : SysCalls) (done : Ptr) (p : Proxy) :
    (p.serverSendTurn s sys done).blind = p.blind ↔ (p.server s).m_imsg_q ≠ [] := by
  have looked : (p.serverSendTurn s sys done).blind =
      (p.did (.looked .serverSendNext (p.server s).m_imsg_q.isEmpty)).blind := by
    unfold serverSendTurn
    dsimp only
    split
    · rfl
    · rfl
    · rfl
  rw [looked]
  exact blind_looked_iff ..

/-! ### Every event -/

/-- No handler looked at an empty queue between the two states. -/
def OnlyElements (p q : Proxy) : Prop :=
  ∃ acts, q.acts = acts ++ p.acts ∧ ∀ handler, .looked handler true ∉ acts

/-- **What an event needs**, so that it looks at elements only. -/
def Fit (p : Proxy) : ProxyEvent → Prop
  | .clientRecv c choice _ fresh answer =>
      p.RecvFits (ForwardFits choice) (p.client c) fresh answer
  | .serverRecv s _ fresh answer => p.RecvFits (fun _ p => p.LinkFits s) (p.server s) fresh answer
  | .clientSend c _ _ => (p.client c).m_omsg_q ≠ []
  | .serverSend s _ _ => (p.server s).m_imsg_q ≠ []
  | .accept _ | .clientClose _ | .serverClose _ => True

/-- The record only grows. -/
theorem acts_whole : Whole fun p q => ∃ acts, q.acts = acts ++ p.acts where
  refl p := ⟨[], rfl⟩
  trans := by
    rintro p q r ⟨acts, same⟩ ⟨acts', same'⟩
    exact ⟨acts' ++ acts, by rw [same', same, List.append_assoc]⟩
  did act p _ := ⟨[act], rfl⟩
  msgs _ _ := ⟨[], rfl⟩
  putClient _ _ _ _ := ⟨[], rfl⟩
  putServer _ _ _ := ⟨[], rfl⟩
  clients _ _ _ _ := ⟨[], rfl⟩
  noted act p _ := ⟨[act], rfl⟩

theorem acts_pick (choice : Choice) (p : Proxy) :
    ∃ acts, (choice.pick p).1.acts = acts ++ p.acts := by
  cases choice with
  | any conn => exact ⟨[], rfl⟩
  | index idx =>
      show ∃ acts, (p.getConn idx).1.acts = acts ++ p.acts
      unfold getConn
      cases p.server_pool.server[idx % p.server_pool.server.length]? with
      | none => exact ⟨[], rfl⟩
      | some server =>
          dsimp only
          unfold serverGetConn
          split
          · exact ⟨[_], rfl⟩
          · exact ⟨[_, _], rfl⟩

theorem onlyElements_iff {p q : Proxy} (grown : ∃ acts, q.acts = acts ++ p.acts) :
    OnlyElements p q ↔ q.blind = p.blind := by
  obtain ⟨acts, grown⟩ := grown
  have none : acts.countP Act.blind = 0 ↔ ∀ handler, .looked handler true ∉ acts := by
    rw [List.countP_eq_zero]
    refine ⟨fun all handler member => all _ member rfl, fun all act member blind => ?_⟩
    cases act with
    | looked handler empty =>
        rw [show empty = true from blind] at member
        exact all handler member
    | _ => cases blind
  have count : q.blind = acts.countP Act.blind + p.blind := by
    unfold blind
    rw [grown, List.countP_append]
  rw [count, Nat.add_eq_right, none]
  refine ⟨?_, fun all => ⟨acts, grown, all⟩⟩
  rintro ⟨acts', grown', all⟩
  rw [List.append_cancel_right (grown.symm.trans grown')]
  exact all

/-- **An event looks at elements only, exactly if it fits.** -/
theorem step_sighted_iff {p q : Proxy} {event : ProxyEvent} (step : Step p event q) :
    OnlyElements p q ↔ Fit p event := by
  have grown := acts_whole.step (fun _ choice _ _ _ _ => acts_pick choice) step
  rw [onlyElements_iff grown]
  cases event with
  | accept answer =>
      rw [step.2]
      exact iff_of_true (accept_blind answer p) trivial
  | clientRecv c choice sys fresh answer =>
      rw [step.2]
      exact clientRecv_sighted_iff choice sys c fresh answer p
  | clientSend c delOutput answer => exact clientSend_sighted_iff step.2
  | clientClose c =>
      rw [step.2]
      exact iff_of_true (close_blind c p) trivial
  | serverRecv s sys fresh answer =>
      rw [step.2]
      exact serverRecv_sighted_iff sys s fresh answer p
  | serverSend s sys done =>
      rw [step.2.2]
      exact serverSend_sighted_iff s sys done p
  | serverClose s =>
      rw [step.2]
      exact iff_of_true rfl trivial

/-- **Queues are read when they have elements.** In every reachable state an event looks at elements
only, exactly if it fits, and on the runs whose events all fit no handler ever looked at an empty
queue. No message is read on these runs, and so none is written: the first read of a message looks at
the queue of its buffers, which is empty. -/
theorem looks_iff (rlim_cur : UInt64) :
    (∀ p event q, (proxyRuns rlim_cur).Reach p → Step p event q →
      (OnlyElements p q ↔ Fit p event)) ∧
    ∀ p, ((proxyRuns rlim_cur).guarded Fit).Reach p →
      ∀ handler, .looked handler true ∉ p.acts := by
  refine ⟨fun p event q _ step => step_sighted_iff step, fun p reached => ?_⟩
  refine reached.invariant (I := fun p => ∀ handler, .looked handler true ∉ p.acts)
    (fun p (initial : Start rlim_cur p) handler => ?_) fun p event q _ seen step => ?_
  · rw [initial.acts]
    exact List.not_mem_nil
  · obtain ⟨acts, same, sighted⟩ := (step_sighted_iff step.2).mpr step.1
    intro handler
    rw [same, List.mem_append, not_or]
    exact ⟨sighted handler, seen handler⟩

/-- A client, and its first request, of the byte 7. -/
def clientAccepted : Proxy := (atStart 1024).enroll 5

def firstRead : Proxy :=
  (recvTurn (clientReceiver (getConn 0) ⟨0, none, none⟩ 0) freshMbuf (.bytes [7]) clientAccepted).1

theorem step_clientAccepted :
    (proxyRuns 1024).step (atStart 1024) (.accept (.descriptor 5 true true)) clientAccepted :=
  ⟨⟨by decide, by decide, fun c isOpen => absurd isOpen List.not_mem_nil⟩, rfl⟩

theorem reach_firstRead : (proxyRuns 1024).Reach firstRead :=
  ((reach_atStart 1024).next step_clientAccepted).next
    (a := .clientRecv 0 (.index 0) ⟨0, none, none⟩ freshMbuf (.bytes [7])) ⟨List.mem_cons_self, rfl⟩

/-- The first request is sent to the server connection 0. -/
def firstSent : Proxy := firstRead.serverSendTurn 0 ⟨.inProgress 4, none⟩ (some 0)

/-- The response of the byte 8 arrives. -/
def firstAnswered : Proxy :=
  (recvTurn (serverReceiver ⟨0, none, none⟩ 0) freshMbuf (.bytes [8]) firstSent).1

/-- The proxy after a turn that does not fail. -/
def orElse (p : Proxy) : Except SendFault Proxy → Proxy
  | .ok q => q
  | .error _ => p

/-- It is sent to the client. -/
def firstHanded : Proxy := firstAnswered.orElse (firstAnswered.clientSendTurn 0 none (.wrote 1))

theorem step_firstSent : Step firstRead (.serverSend 0 ⟨.inProgress 4, none⟩ (some 0)) firstSent :=
  ⟨by decide, by decide, rfl⟩

theorem reach_firstSent : (proxyRuns 1024).Reach firstSent :=
  reach_firstRead.next (a := .serverSend 0 ⟨.inProgress 4, none⟩ (some 0)) step_firstSent

theorem reached_firstAnswered : (proxyRuns 1024).Reach firstAnswered :=
  reach_firstSent.next (a := .serverRecv 0 ⟨0, none, none⟩ freshMbuf (.bytes [8])) ⟨by decide, rfl⟩

/-- The request is sent and the response is sent, and neither looks at an empty queue. -/
theorem looks_firstAnswered :
    OnlyElements firstRead firstSent ∧ OnlyElements firstAnswered firstHanded ∧
      ∀ handler, .looked handler true ∉ clientAccepted.acts := by
  have sent := (looks_iff 1024).1 firstRead _ firstSent reach_firstRead step_firstSent
  have handed := (looks_iff 1024).1 firstAnswered (.clientSend 0 none (.wrote 1)) firstHanded
    reached_firstAnswered ⟨by decide, rfl⟩
  have accepted := (looks_iff 1024).2 clientAccepted
    (.next (.start (start_atStart 1024)) (a := .accept (.descriptor 5 true true))
      ⟨trivial, step_clientAccepted⟩)
  refine ⟨sent.mpr ?_, handed.mpr ?_, accepted⟩
  · show (firstRead.server 0).m_imsg_q ≠ []
    decide
  · show (firstAnswered.client 0).m_omsg_q ≠ []
    decide

/-- **The first read of a client looks at the empty queue of a fresh message.** -/
theorem looked_at_nothing :
    (proxyRuns 1024).Reach firstRead ∧ .looked .recvChain true ∈ firstRead.acts :=
  ⟨reach_firstRead, by decide⟩

end Proxy

end Nutcracker
