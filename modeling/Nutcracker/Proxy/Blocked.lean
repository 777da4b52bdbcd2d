/-
**A failed request blocks its client.**

A client is sent the peer of the request at the head of its queue. A response gets a request as its
peer, and is its peer in turn, in `responseForward`; `requestForwardError` only says that the request is
done. So `sendNext` has nothing to send for it, and it stays at the head.

* `unblocked_iff` — `sendNext` and `sendDone` get the head out of the queue **exactly if it and a response
  are each other's peer**.
* `linked_of_responseForward`, `unlinked_of_requestForwardError` — which is what `responseForward` does, and
  `requestForwardError` does not.
* `stuck_run` — and **while the client stays, nothing gets a request that is with no server connection and
  has no peer away from the head of the queue**, on the runs that mix no messages up.
* `blocked_behind_error` — two requests, of which the first failed and the second is answered.
-/

import Nutcracker.Proxy.Isolation

namespace Nutcracker

open Lib

namespace Proxy

variable {p q : Proxy} {s c h m pmsg : Addr} {rest : List Addr} {delOutput : Option Int}

/-- The next `sendNext` returns a response, and when that is sent `sendDone` takes the request out of
the queue. -/
def Unblocked (delOutput : Option Int) (c h : Addr) (p : Proxy) : Prop :=
  ∃ conn rsp, NcClientConn.sendNext delOutput p.msg_pool.mem (p.client c) = (conn, some rsp) ∧
    h ∉ (NcClientConn.sendDone rsp ⟨conn, p.msg_pool⟩).conn.m_omsg_q

/-- The request and a response are each other's peer. -/
def Linked (h : Addr) (p : Proxy) : Prop :=
  ∃ rsp, (p.msg h).m_peer = some rsp ∧ (p.msg rsp).m_peer = some h

/-- **When the head of the queue gets out.** -/
theorem unblocked_iff (queue : (p.client c).m_omsg_q = h :: rest) (idle : (p.client c).m_smsg = none)
    (delOutput : Option Int) : p.Unblocked delOutput c h ↔ p.Linked h := by
  have next : NcClientConn.sendNext delOutput p.msg_pool.mem (p.client c) =
      ({ p.client c with m_smsg := (p.msg h).m_peer }, (p.msg h).m_peer) :=
    NcClientConn.sendNext_answered queue idle
  constructor
  · rintro ⟨conn, rsp, sends, gone⟩
    rw [next] at sends
    obtain ⟨cursor, peer⟩ := Prod.mk.inj sends
    refine ⟨rsp, peer, ?_⟩
    by_contra other
    refine gone ?_
    have head : h ∈ conn.m_omsg_q := by
      rw [← cursor]
      exact queue ▸ List.mem_cons_self
    unfold NcClientConn.sendDone
    cases back : (p.msg_pool.mem rsp).m_peer with
    | none => exact head
    | some pmsg =>
        refine NcQueue.mem_remove.mpr ⟨head, fun same => other ?_⟩
        rw [same]
        exact back
  · rintro ⟨rsp, peer, back⟩
    refine ⟨_, rsp, next.trans (Prod.ext rfl peer), ?_⟩
    unfold NcClientConn.sendDone
    rw [show (p.msg_pool.mem rsp).m_peer = some h from back]
    exact fun inside => (NcQueue.mem_remove.mp inside).2 rfl

theorem unblocked_iff_firstAnswered : firstAnswered.Unblocked none 0 0 := by
  have queue : (firstAnswered.client 0).m_omsg_q = [0] := by decide
  have idle : (firstAnswered.client 0).m_smsg = none := by decide
  have linked : firstAnswered.Linked 0 := ⟨1, by decide, by decide⟩
  exact (unblocked_iff queue idle none).mpr linked

/-- A proxy at the start, with two servers and one connection to each. -/
def pairServers : Proxy :=
  { atStart 1024 with
    s_pool :=
      { (atStart 1024).s_pool with
        mem := fun s => { NcConn.new with m_sd := 4 + s, m_connected := true, m_owner := some 1 }
        made := 2 }
    server_pool :=
      { (atStart 1024).server_pool with server := [⟨[some 0], 1, 0, 0⟩, ⟨[some 1], 1, 0, 0⟩] } }

theorem start_pairServers : Start 1024 pairServers := by
  refine ⟨rfl, ⟨_, _, rfl⟩, ⟨_, _, rfl⟩, rfl, fun s => ⟨rfl, rfl, rfl, rfl⟩, ?_, rfl, rfl, rfl⟩
  intro server member s queued
  rcases List.mem_cons.mp member with rfl | second
  · rw [Option.some.inj (List.mem_singleton.mp queued)]
    exact Nat.zero_lt_two
  · rw [List.mem_singleton.mp second] at queued
    rw [Option.some.inj (List.mem_singleton.mp queued)]
    exact Nat.one_lt_two

def pairAccepted : Proxy := pairServers.enroll 6

/-- The first request fails: `addOutput` of the server connection 0 does. -/
def firstFailed : Proxy :=
  (recvTurn (clientReceiver (getConn 0) ⟨0, some 9, none⟩ 0) freshMbuf (.bytes [6]) pairAccepted).1

/-- The second one is read, sent on the server connection 1, and answered. -/
def secondRead : Proxy :=
  (recvTurn (clientReceiver (getConn 1) ⟨0, none, none⟩ 0) freshMbuf (.bytes [7]) firstFailed).1

def secondSent : Proxy := secondRead.serverSendTurn 1 ⟨.inProgress 5, none⟩ (some 1)

def secondAnswered : Proxy :=
  (recvTurn (serverReceiver ⟨0, none, none⟩ 1) freshMbuf (.bytes [8]) secondSent).1

theorem reach_secondAnswered : ((proxyRuns 1024).guarded Safe).Reach secondAnswered := by
  have start : ((proxyRuns 1024).guarded Safe).Reach pairServers := .start start_pairServers
  have accepted : ((proxyRuns 1024).guarded Safe).Reach pairAccepted :=
    start.next (a := .accept (.descriptor 6 true true))
      ⟨Or.inr nofun, ⟨by decide, by decide, fun c isOpen => absurd isOpen List.not_mem_nil⟩, rfl⟩
  have failed : ((proxyRuns 1024).guarded Safe).Reach firstFailed :=
    accepted.next (a := .clientRecv 0 (.index 0) ⟨0, some 9, none⟩ freshMbuf (.bytes [6]))
      ⟨trivial, List.mem_cons_self, rfl⟩
  have read : ((proxyRuns 1024).guarded Safe).Reach secondRead :=
    failed.next (a := .clientRecv 0 (.index 1) ⟨0, none, none⟩ freshMbuf (.bytes [7]))
      ⟨trivial, by decide, rfl⟩
  have sent : ((proxyRuns 1024).guarded Safe).Reach secondSent :=
    read.next (a := .serverSend 1 ⟨.inProgress 5, none⟩ (some 1)) ⟨trivial, by decide, by decide, rfl⟩
  exact sent.next (a := .serverRecv 1 ⟨0, none, none⟩ freshMbuf (.bytes [8]))
    ⟨trivial, by decide, rfl⟩

/-- **Nothing is sent for two requests that are done**: the first one failed. No error is left on the
client or on the server connection that answered. -/
theorem blocked_behind_error :
    ((proxyRuns 1024).guarded Safe).Reach secondAnswered ∧
      (secondAnswered.client 0).m_err = 0 ∧ (secondAnswered.server 1).m_err = 0 ∧
      (secondAnswered.client 0).m_omsg_q = [0, 1] ∧ (secondAnswered.client 0).m_smsg = none ∧
      (secondAnswered.msg 0).m_done = true ∧ (secondAnswered.msg 0).m_error = true ∧
      secondAnswered.Linked 1 ∧ ¬ secondAnswered.Unblocked none 0 0 := by
  refine ⟨reach_secondAnswered, by decide, by decide, by decide, by decide, by decide, by decide,
    ⟨2, by decide, by decide⟩, ?_⟩
  have nothing : (NcClientConn.sendNext none secondAnswered.msg_pool.mem
      (secondAnswered.client 0)).2 = none := by decide
  rintro ⟨conn, rsp, sends, -⟩
  rw [sends] at nothing
  cases nothing

/-! ### The two ways to be done -/

/-- **`responseForward` links the request at the head and the response.** -/
theorem linked_of_responseForward (sys : ForwardAnswers)
    (queue : (p.server s).m_omsg_q = pmsg :: rest) (apart : pmsg ≠ m) :
    ((p.responseForward sys s m).msg pmsg).m_done = true ∧
      (p.responseForward sys s m).Linked pmsg := by
  have same (x : Addr) : (p.responseForward sys s m).msg x = (p.link s m pmsg).msg x := by
    rw [responseForward_eq sys queue]
    cases (p.msg pmsg).data with
    | none => rfl
    | some c => exact msg_wake sys c x _
  unfold Linked
  simp only [same, msg_link apart]
  exact ⟨trivial, m, rfl, peer_link s m pmsg p⟩

/-- **`requestForwardError` links nothing.** -/
theorem unlinked_of_requestForwardError (sys : ForwardAnswers) (c : Addr)
    (reply : (p.msg m).m_noreply = false) (alone : (p.msg m).m_peer = none) :
    ((p.requestForwardError sys c m).msg m).m_done = true ∧
      ¬ (p.requestForwardError sys c m).Linked m := by
  have request : ∃ err, (p.requestForwardError sys c m).msg m =
      { p.msg m with m_done := true, m_error := true, m_err := err } := by
    unfold requestForwardError
    cases sys.client with
    | none => exact ⟨sys.errno, by simp [reply]⟩
    | some err => exact ⟨err, by simp [reply]⟩
  obtain ⟨err, request⟩ := request
  refine ⟨by rw [request], ?_⟩
  rintro ⟨rsp, peer, -⟩
  rw [request] at peer
  cases alone.symm.trans peer

end Proxy

/-! ### For ever -/

namespace Books

variable {strict : Prop} {b b' : Books} {c d h m s : Addr}

/-- The first request of the client is with no server connection, and has no response. -/
structure Stuck (c h : Addr) (b : Books) : Prop where
  live : c ∈ b.live
  head : (b.client c).omsg.head? = some h
  alone : b.peer h = none
  away : ∀ s, h ∉ (b.server s).imsg ++ (b.server s).omsg

namespace Stuck

theorem setClient (stuck : b.Stuck c h) {desk : Desk} (first : d = c → desk.omsg.head? = some h) :
    (b.setClient d desk).Stuck c h := by
  refine { stuck with head := ?_ }
  show (Function.update b.client d desk c).omsg.head? = some h
  by_cases isC : c = d
  · rw [isC, Function.update_self]
    exact first isC.symm
  · rw [Function.update_of_ne isC]
    exact stuck.head

theorem setServer (stuck : b.Stuck c h) {desk : Desk} (away : h ∉ desk.imsg ++ desk.omsg) :
    (b.setServer s desk).Stuck c h := by
  refine { stuck with away := fun t => ?_ }
  show h ∉ (Function.update b.server s desk t).imsg ++ (Function.update b.server s desk t).omsg
  by_cases isS : t = s
  · rw [isS, Function.update_self]
    exact away
  · rw [Function.update_of_ne isS]
    exact stuck.away t

theorem setPeer (stuck : b.Stuck c h) (other : h ≠ m) (peer : Ptr) :
    (b.setPeer m peer).Stuck c h :=
  { stuck with alone := (Function.update_of_ne other ..).trans stuck.alone }

theorem note (stuck : b.Stuck c h) (act : Act) : (b.note act).Stuck c h := { stuck with }

theorem fetch (stuck : b.Stuck c h) (made : h < b.made) : b.fetch.Stuck c h := by
  obtain ⟨live, -, client, -, server, -⟩ := fetch_frame b
  have alone : b.fetch.peer h = none := by
    unfold Books.fetch
    cases b.free with
    | nil => exact (Function.update_of_ne (Nat.ne_of_lt made) ..).trans stuck.alone
    | cons m rest => exact stuck.alone
  exact ⟨live ▸ stuck.live, client ▸ stuck.head, alone, fun s => server ▸ stuck.away s⟩

theorem discard (stuck : b.Stuck c h) (other : h ≠ m) (apart : b.peer m ≠ some h) :
    (b.discard m).Stuck c h := by
  unfold Books.discard
  cases peer : b.peer m with
  | none => exact { stuck.setPeer other none with }
  | some r =>
      have notR : h ≠ r := by
        rintro rfl
        exact apart peer
      have cut := (stuck.setPeer other none).setPeer notR none
      exact { ((cut.setPeer notR none).setPeer other none) with }

/-- A request that was received is not at the head of a queue. -/
theorem ne_of_asking (stuck : b.Stuck c h) (sound : b.Sound) (isLive : d ∈ b.live)
    (received : (b.client d).rmsg = some m) : h ≠ m := by
  obtain ⟨place, agrees⟩ := sound
  have placed := (agrees.client d isLive).asking m received
  rintro rfl
  exact (agrees.client c stuck.live).not_mem placed nofun (fun _ => nofun)
    (List.mem_of_mem_head? stuck.head)

/-- Neither is a response that was received. -/
theorem ne_of_answering (stuck : b.Stuck c h) (sound : b.Sound)
    (received : (b.server s).rmsg = some m) : h ≠ m := by
  obtain ⟨place, agrees⟩ := sound
  have placed := (agrees.server s).answering m received
  rintro rfl
  exact (agrees.client c stuck.live).not_mem placed nofun (fun _ => nofun)
    (List.mem_of_mem_head? stuck.head)

theorem made (stuck : b.Stuck c h) (sound : b.Sound) : h < b.made := by
  obtain ⟨place, agrees⟩ := sound
  have inside := List.mem_of_mem_head? stuck.head
  exact agrees.made_of_place
    ((agrees.client c stuck.live).place_ne inside nofun fun _ => nofun)

/-- **No turn gets a stuck request away.** -/
theorem turn (stuck : b.Stuck c h) (sound : b.Sound) (turn : Turn strict b b') : b'.Stuck c h := by
  have inside := List.mem_of_mem_head? stuck.head
  cases turn with
  | spawn =>
      have bare : (b.setServer b.servers .bare).Stuck c h := stuck.setServer List.not_mem_nil
      exact { bare with }
  | take isLive =>
      obtain ⟨-, -, client, -⟩ := fetch_frame b
      exact (stuck.fetch (stuck.made sound)).setClient fun isC => isC ▸ stuck.head
  | @takeServer s => exact (stuck.fetch (stuck.made sound)).setServer (stuck.away s)
  | putDown => exact stuck.setClient fun isC => isC ▸ stuck.head
  | @putDownServer s => exact stuck.setServer (stuck.away s)
  | @discard m loose peer =>
      refine stuck.discard ?_ fun apart => ((peer h apart).client c stuck.live).2 inside
      rintro rfl
      exact (loose.client c stuck.live).2 inside
  | @request d m dest isLive received =>
      have other := stuck.ne_of_asking sound isLive received
      have asked : (b.setClient d
          { b.client d with rmsg := none, omsg := (b.client d).omsg ++ [m] }).Stuck c h :=
        stuck.setClient fun isC => by
          rw [isC, List.head?_append, stuck.head]
          rfl
      cases dest with
      | none => exact asked.note _
      | some s =>
          refine (asked.setServer fun inside => ?_).note _
          rcases List.mem_append.mp inside with inside | inside
          · rcases List.mem_append.mp inside with old | new
            · exact stuck.away s (List.mem_append_left _ old)
            · exact other (List.mem_singleton.mp new)
          · exact stuck.away s (List.mem_append_right _ inside)
  | @move s m born moved =>
      refine (stuck.setServer fun inside => ?_).note _
      rcases List.mem_append.mp inside with inside | inside
      · exact stuck.away s (List.mem_append_left _ (NcQueue.mem_remove.mp inside).1)
      · rcases List.mem_append.mp inside with old | new
        · exact stuck.away s (List.mem_append_right _ old)
        · rw [List.mem_singleton.mp new] at inside
          exact stuck.away s (List.mem_append_left _ (List.mem_singleton.mp new ▸ moved))
  | @answer s r m rest received queue =>
      have notM : h ≠ m := by
        rintro rfl
        exact stuck.away s (List.mem_append_right _ (queue ▸ List.mem_cons_self))
      have notR := stuck.ne_of_answering sound received
      refine ((((stuck.setServer fun inside => ?_).setPeer notM _).setPeer notR _).note _).note _
      rcases List.mem_append.mp inside with inside | inside
      · exact stuck.away s (List.mem_append_left _ inside)
      · exact stuck.away s (List.mem_append_right _ (List.mem_of_mem_tail inside))
  | stray => exact stuck.note _
  | @complete d m r rest isLive queue peer =>
      refine (stuck.setClient fun isC => ?_).note _
      -- The request that is completed has a response, the stuck one has none.
      have first := stuck.head
      rw [← isC, queue] at first
      rw [Option.some.inj first] at peer
      cases stuck.alone.symm.trans peer

theorem within (stuck : b.Stuck c h) (sound : b.Sound) (within : Within strict b b') :
    b'.Stuck c h := by
  have both : b'.Sound ∧ b'.Stuck c h := by
    induction within with
    | refl => exact ⟨sound, stuck⟩
    | tail _ turn both => exact ⟨both.1.turn turn, both.2.turn both.1 turn⟩
  exact both.2

/-- **No step does**, if the client is still there. -/
theorem step (stuck : b.Stuck c h) (sound : b.Sound) (step : Step strict b b') (still : c ∈ b'.live) :
    b'.Stuck c h := by
  cases step with
  | turns within => exact stuck.within sound within
  | hand isLive queue peer within =>
      obtain ⟨place, agrees⟩ := sound
      exact (stuck.note _).within ⟨_, agrees.hand⟩ within
  | @enter d sd rest notLive fresh _ =>
      have entered : (b.setClient d .bare).Stuck c h :=
        stuck.setClient fun isC => absurd (isC ▸ stuck.live) notLive
      exact { entered with live := List.mem_append_left _ stuck.live }
  | @refuse d sd rest notLive fresh _ =>
      have entered : (b.setClient d .bare).Stuck c h :=
        stuck.setClient fun isC => absurd (isC ▸ stuck.live) notLive
      exact { entered with live := still }
  | @leave b _ d _ before isLive rmsg after =>
      have kept := stuck.within sound before
      have left : (b.leave d).Stuck c h := { kept with live := after.frame.live ▸ still }
      obtain ⟨place, agrees⟩ := sound.within before
      exact left.within ⟨_, agrees.leave isLive rmsg⟩ after

end Stuck

end Books

namespace Proxy

variable {rlim_cur : UInt64} {p q : Proxy} {c h : Addr}

/-- One more safe event, and the client is still open. -/
def NextOpen (c : Addr) (p q : Proxy) : Prop :=
  ∃ event, Safe p event ∧ Step p event q ∧ q.Open c

/-- **A stuck request stays at the head of the queue** while its client is open. -/
theorem stuck_run (reached : ((proxyRuns rlim_cur).guarded Safe).Reach p) (stuck : p.books.Stuck c h)
    (run : Relation.ReflTransGen (NextOpen c) p q) :
    q.Open c ∧ (q.client c).m_omsg_q.head? = some h ∧ (q.msg h).m_peer = none := by
  have both : ((proxyRuns rlim_cur).guarded Safe).Reach q ∧ q.books.Stuck c h := by
    induction run with
    | refl => exact ⟨reached, stuck⟩
    | tail _ next both =>
        obtain ⟨event, safe, step, isOpen⟩ := next
        have stepped : Books.Step False _ _ :=
          books_step (sound_run both.1) (Counted.run both.1.of_guarded) safe False.elim step
        exact ⟨both.1.next ⟨safe, step⟩, both.2.step (sound_run both.1) stepped isOpen⟩
  exact ⟨both.2.live, both.2.head, both.2.alone⟩

end Proxy

end Nutcracker
