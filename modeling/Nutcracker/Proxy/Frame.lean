/-
**What a turn leaves alone.**

The turns change the messages, the server connections, the client connections and the record, one
change at a time. `Base` is a preorder on proxies that allows the changes around the clients; and there
are four ways to allow changes of the clients too. What the turns are made of keeps such a preorder, and
hence so do they.

* `Tends.clientRecv`, `Tends.clientSend` — a turn of a client connection keeps a preorder that allows
  **changes of this client**.
* `Serves.recvDone` — what becomes of a request changes neither `m_done` nor `m_rmsg` of the client.
* `Fails.serverRecv` — a turn of `recvMsg` of a server connection changes **`m_err` of the clients**
  only.
* `Frame.clientRecv` and the others — a `Frame` allows changes of every client, but for its descriptor.
* `Whole.step` — and so does every event, if the frame is `Whole`.
-/

import Nutcracker.Proxy.Turns

namespace Nutcracker

/-- The records that a turn itself makes, outside `getConn`. -/
def Act.Inner : Act → Prop
  | .looked .getConn _ | .chose _ | .accepted _ _ | .closed _ | .serverClosed _ => False
  | _ => True

namespace Proxy

/-- **The changes that a preorder allows.** -/
structure Frame (R : Proxy → Proxy → Prop) : Prop where
  refl : ∀ p, R p p
  trans : ∀ {p q r}, R p q → R q r → R p r
  did : ∀ act p, act.Inner → R p (p.did act)
  msgs : ∀ msg_pool p, R p { p with msg_pool := msg_pool }
  putClient : ∀ c f p, (f (p.client c)).m_sd = (p.client c).m_sd → R p (p.putClient c f)
  putServer : ∀ s f p, R p (p.putServer s f)

/-- A receiver whose functions keep the preorder. -/
structure Frame.Receives (R : Proxy → Proxy → Prop) (r : Receiver) : Prop where
  put : ∀ f p, (f (r.conn p)).m_sd = (r.conn p).m_sd → R p (r.put f p)
  recvNext : ∀ alloc p, R p (r.recvNext alloc p).1
  recvDone : ∀ m p, R p (r.recvDone m p)

/-- **The changes around the clients.** -/
structure Base (R : Proxy → Proxy → Prop) : Prop where
  refl : ∀ p, R p p
  trans : ∀ {p q r}, R p q → R q r → R p r
  did : ∀ act p, act.Inner → R p (p.did act)
  msgs : ∀ msg_pool p, R p { p with msg_pool := msg_pool }
  putServer : ∀ s f p, R p (p.putServer s f)

/-- And of a client, but for its descriptor. -/
structure Tends (c : Addr) (R : Proxy → Proxy → Prop) : Prop extends Base R where
  putClient : ∀ f p, (f (p.client c)).m_sd = (p.client c).m_sd → R p (p.putClient c f)

/-- And of a client, but for its descriptor, `m_done` and `m_rmsg`. -/
structure Serves (c : Addr) (R : Proxy → Proxy → Prop) : Prop extends Base R where
  putClient : ∀ f p, (f (p.client c)).m_sd = (p.client c).m_sd →
    (f (p.client c)).m_done = (p.client c).m_done →
    (f (p.client c)).m_rmsg = (p.client c).m_rmsg → R p (p.putClient c f)

/-- And of `m_err` of every client. -/
structure Fails (R : Proxy → Proxy → Prop) : Prop extends Base R where
  fail : ∀ c err p, R p (p.putClient c fun conn => { conn with m_err := err })

variable {R : Proxy → Proxy → Prop}

theorem Frame.base (frame : Frame R) : Base R where
  refl := frame.refl
  trans := frame.trans
  did := frame.did
  msgs := frame.msgs
  putServer := frame.putServer

theorem Frame.tends (frame : Frame R) (c : Addr) : Tends c R :=
  { frame.base with putClient := frame.putClient c }

theorem Frame.fails (frame : Frame R) : Fails R :=
  { frame.base with fail := fun c _ p => frame.putClient c _ p rfl }

theorem Tends.serves {c : Addr} (tends : Tends c R) : Serves c R :=
  { tends.toBase with putClient := fun f p m_sd _ _ => tends.putClient f p m_sd }

/-! ### What the calls leave of a connection -/

theorem recv_m_sd (answer : ReadAnswer) (size : Nat) (conn : NcConn) :
    (conn.recv answer size).1.m_sd = conn.m_sd := by
  obtain ⟨ready, eof, err, same⟩ := recv_frame answer size conn
  rw [same]

theorem sendNext_m_sd (delOutput : Option Int) (mem : Addr → NcMsg) (conn : NcConn) :
    (NcClientConn.sendNext delOutput mem conn).1.m_sd = conn.m_sd := by
  unfold NcClientConn.sendNext
  cases conn.m_omsg_q with
  | nil =>
      dsimp only
      cases delOutput <;> cases conn.m_eof <;> rfl
  | cons pmsg rest =>
      dsimp only
      split
      · rfl
      · rfl

/-- The accounting of a response changes the connection in `m_omsg_q` at most. -/
theorem accounted_conn (msg : Addr) (nsent : Nat) (s : NcConn.Sending) :
    ∃ queue, (NcConn.accounted NcClientConn.sendDone msg nsent s).conn =
      { s.conn with m_omsg_q := queue } := by
  have done (s : NcConn.Sending) :
      ∃ queue, (NcClientConn.sendDone msg s).conn = { s.conn with m_omsg_q := queue } := by
    unfold NcClientConn.sendDone
    cases (s.msg_pool.mem msg).m_peer with
    | none => exact ⟨_, rfl⟩
    | some pmsg => exact ⟨_, rfl⟩
  unfold NcConn.accounted
  split
  · split
    · exact done s
    · exact ⟨_, rfl⟩
  · dsimp only
    split
    · exact done _
    · exact ⟨_, rfl⟩

namespace Base

theorem discard (base : Base R) (m_owner : Ptr) (msgs : List Addr) (p : Proxy) :
    R p (p.discard m_owner msgs) := by
  induction msgs generalizing p with
  | nil => exact base.refl p
  | cons m rest ih =>
      unfold Proxy.discard
      refine base.trans ?_ (ih _)
      split
      · exact base.msgs _ p
      · exact base.msgs _ p

theorem dropIncomplete (base : Base R) {put : (NcConn → NcConn) → Proxy → Proxy} {conn : NcConn}
    (force : Bool) (p : Proxy) (clears : R p (put (fun conn => { conn with m_rmsg := none }) p)) :
    R p (p.dropIncomplete put conn force) := by
  unfold Proxy.dropIncomplete
  cases conn.m_rmsg with
  | none => exact base.refl p
  | some m => exact base.trans clears (base.msgs _ _)

/-! ### A turn of `recvMsg` -/

theorem parse (base : Base R) {r : Receiver} (receives : Frame.Receives R r) (m : Addr) (p : Proxy) :
    R p (Proxy.parse r m p).1 := by
  unfold Proxy.parse
  split
  · exact receives.recvDone m p
  · exact base.trans
      (base.trans (base.did (.looked .parse (p.msg m).m_mbuf_queue.isEmpty) p trivial)
        (base.did (.looked .parseDone (p.msg m).m_mbuf_queue.isEmpty) _ trivial))
      (receives.recvDone m _)

theorem received (base : Base R) {r : Receiver} (receives : Frame.Receives R r) (before : List NcMbuf)
    (mbuf : NcMbuf) (bytes : List UInt8) (m : Addr) (p : Proxy) :
    R p (Proxy.received r before mbuf bytes m p).1 := by
  unfold Proxy.received
  dsimp only
  have stored : R p (p.putMsg m fun msg =>
      { msg with m_mbuf_queue := before ++ [mbuf.copy bytes], m_mlen := bytes.length }) :=
    base.msgs _ p
  refine base.trans stored (base.trans (base.parse receives m _) ?_)
  split
  · exact receives.recvNext false _
  · exact base.refl _

theorem recvChain (base : Base R) {r : Receiver} (receives : Frame.Receives R r) (fresh : NcMbuf)
    (answer : ReadAnswer) (m : Addr) (p : Proxy) : R p (Proxy.recvChain r fresh answer m p).1 := by
  unfold Proxy.recvChain
  refine base.trans (base.did (.looked .recvChain (p.msg m).m_mbuf_queue.isEmpty) p trivial) ?_
  dsimp only
  generalize p.did (.looked .recvChain (p.msg m).m_mbuf_queue.isEmpty) = q
  generalize tailMbuf fresh (q.msg m).m_mbuf_queue = tail
  have m_sd := recv_m_sd answer tail.2.size (r.conn q)
  generalize (r.conn q).recv answer tail.2.size = read at m_sd
  refine base.trans (receives.put (fun _ => read.1) q m_sd) ?_
  cases read.2 with
  | ok bytes => exact base.received receives tail.1 tail.2 bytes m _
  | error status => exact base.msgs _ _

theorem recvTurn (base : Base R) {r : Receiver} (receives : Frame.Receives R r) (fresh : NcMbuf)
    (answer : ReadAnswer) (p : Proxy) : R p (Proxy.recvTurn r fresh answer p).1 := by
  have next := receives.recvNext true p
  unfold Proxy.recvTurn
  cases result : r.recvNext true p with
  | mk q msg =>
      rw [result] at next
      cases msg with
      | none => exact next
      | some m => exact base.trans next (base.recvChain receives fresh answer m q)

/-! ### Servers -/

theorem serverRecvNext (base : Base R) (s : Addr) (alloc : Bool) (p : Proxy) :
    R p (p.serverRecvNext s alloc).1 := by
  unfold Proxy.serverRecvNext
  split
  · exact base.trans (base.dropIncomplete false p (base.putServer s _ p)) (base.putServer s _ _)
  · cases (p.server s).m_rmsg with
    | some m => exact base.refl p
    | none =>
        cases alloc with
        | false => exact base.refl p
        | true => exact base.trans (base.msgs _ p) (base.putServer s _ _)

theorem responseFilter (base : Base R) (s m : Addr) (p : Proxy) :
    R p (p.responseFilter s m).1 := by
  unfold Proxy.responseFilter
  split
  · exact base.msgs _ p
  · refine base.trans (base.trans (base.did (.responded s m) p trivial)
      (base.did (.looked .responseFilter (p.server s).m_omsg_q.isEmpty) _ trivial)) ?_
    dsimp only
    split
    · exact base.msgs _ _
    · exact base.refl _

/-- **A turn of `sendMsg` on a server connection.** -/
theorem serverSend (base : Base R) (s : Addr) (sys : SysCalls) (done : Ptr) (p : Proxy) :
    R p (p.serverSendTurn s sys done) := by
  unfold Proxy.serverSendTurn
  refine base.trans
    (base.did (.looked .serverSendNext (p.server s).m_imsg_q.isEmpty) p trivial) ?_
  dsimp only
  generalize p.did (.looked .serverSendNext (p.server s).m_imsg_q.isEmpty) = q
  split
  next m _ =>
    refine base.trans (base.putServer s (fun _ =>
      { (NcServerConn.sendNext sys (q.server s)).1 with m_smsg := none }) q) ?_
    exact base.trans (base.trans (base.msgs _ _) (base.putServer s _ _))
      (base.did (.moved s m) _ trivial)
  · exact base.putServer s _ _
  · exact base.putServer s _ _

end Base

namespace Fails

theorem responseForward (fails : Fails R) (sys : ForwardAnswers) (s m : Addr) (p : Proxy) :
    R p (p.responseForward sys s m) := by
  unfold Proxy.responseForward
  refine fails.trans
    (fails.did (.looked .responseForward (p.server s).m_omsg_q.isEmpty) p trivial) ?_
  dsimp only
  split
  · exact fails.refl _
  next pmsg _ _ =>
    generalize p.did (.looked .responseForward (p.server s).m_omsg_q.isEmpty) = p
    have linked : R p (((p.putServer s fun conn =>
        { conn with m_omsg_q := NcQueue.remove pmsg conn.m_omsg_q }).putMsg pmsg fun msg =>
        { msg with m_done := true, m_peer := some m }).putMsg m fun msg =>
        { msg with m_peer := some pmsg }) :=
      fails.trans (fails.putServer s (fun conn =>
        { conn with m_omsg_q := NcQueue.remove pmsg conn.m_omsg_q }) p) (fails.msgs _ _)
    refine fails.trans linked ?_
    generalize (((p.putServer s fun conn =>
      { conn with m_omsg_q := NcQueue.remove pmsg conn.m_omsg_q }).putMsg pmsg fun msg =>
      { msg with m_done := true, m_peer := some m }).putMsg m fun msg =>
      { msg with m_peer := some pmsg }) = q
    refine fails.trans (fails.did (.answered s m pmsg) q trivial) ?_
    split
    · exact fails.refl _
    next c _ =>
      refine fails.trans
        (fails.did (.looked .responseForward ((q.did (.answered s m pmsg)).client c).m_omsg_q.isEmpty)
          (q.did (.answered s m pmsg)) trivial) ?_
      split
      · exact fails.refl _
      · cases sys.client with
        | none => exact fails.refl _
        | some err => exact fails.fail _ err _

theorem serverRecvDone (fails : Fails R) (sys : ForwardAnswers) (s m : Addr) (p : Proxy) :
    R p (p.serverRecvDone sys s m) := by
  unfold Proxy.serverRecvDone
  refine fails.trans (fails.putServer s (fun conn => { conn with m_rmsg := none }) p) ?_
  refine fails.trans (fails.responseFilter s m _) ?_
  dsimp only
  split
  · exact fails.refl _
  · exact fails.responseForward sys s m _

/-- **A turn of `recvMsg` on a server connection.** -/
theorem serverRecv (fails : Fails R) (sys : ForwardAnswers) (s : Addr) (fresh : NcMbuf)
    (answer : ReadAnswer) (p : Proxy) :
    R p (Proxy.recvTurn (serverReceiver sys s) fresh answer p).1 :=
  fails.recvTurn
    ⟨fun f p _ => fails.putServer s f p, fails.serverRecvNext s, fails.serverRecvDone sys s⟩
    fresh answer p

end Fails

/-! ### What becomes of a request -/

namespace Serves

variable {c : Addr}

theorem requestFilter (serves : Serves c R) (m : Addr) (p : Proxy) : R p (p.requestFilter c m).1 := by
  unfold Proxy.requestFilter
  split
  · exact serves.msgs _ p
  · split
    · exact serves.trans (serves.putClient _ p rfl rfl rfl) (serves.msgs _ _)
    · exact serves.refl p

theorem requestForwardError (serves : Serves c R) (sys : ForwardAnswers) (m : Addr) (p : Proxy) :
    R p (p.requestForwardError sys c m) := by
  unfold Proxy.requestForwardError
  dsimp only
  have failed : R p (p.putMsg m fun msg =>
      { msg with m_done := true, m_error := true, m_err := sys.errno }) := serves.msgs _ p
  generalize (p.putMsg m fun msg =>
    { msg with m_done := true, m_error := true, m_err := sys.errno }) = q at failed
  refine serves.trans failed ?_
  split
  · exact serves.msgs _ q
  · refine serves.trans
      (serves.did (.looked .requestForwardError (q.client c).m_omsg_q.isEmpty) q trivial) ?_
    cases sys.client with
    | none => exact serves.refl _
    | some err => exact serves.msgs _ _

theorem requestForward (serves : Serves c R) {pick : Proxy → Proxy × Ptr} (picks : ∀ p, R p (pick p).1)
    (sys : ForwardAnswers) (m : Addr) (p : Proxy) : R p (p.requestForward pick sys c m) := by
  unfold Proxy.requestForward
  dsimp only
  have queued : R p (if (p.msg m).m_noreply then p
      else p.putClient c fun conn => { conn with m_omsg_q := conn.m_omsg_q ++ [m] }) := by
    split
    · exact serves.refl p
    · exact serves.putClient _ p rfl rfl rfl
  generalize (if (p.msg m).m_noreply then p
    else p.putClient c fun conn => { conn with m_omsg_q := conn.m_omsg_q ++ [m] }) = q at queued
  refine serves.trans queued (serves.trans (picks q) ?_)
  cases (pick q).2 with
  | none => exact serves.requestForwardError sys m _
  | some s =>
      dsimp only
      split
      · cases sys.server with
        | none => exact serves.putServer s _ _
        | some err => exact serves.trans (serves.requestForwardError sys m _) (serves.putServer s _ _)
      · exact serves.putServer s _ _

theorem requestMakeReply (serves : Serves c R) (m : Addr) (p : Proxy) :
    R p (p.requestMakeReply c m) :=
  serves.trans (serves.msgs _ p) (serves.putClient _ _ rfl rfl rfl)

/-- **`recvDone` of a client** after it has unset `m_rmsg`. -/
theorem recvDone (serves : Serves c R) {pick : Proxy → Proxy × Ptr} (picks : ∀ p, R p (pick p).1)
    (sys : ForwardAnswers) (m : Addr) (p : Proxy) :
    R (p.putClient c fun conn => { conn with m_rmsg := none }) (p.clientRecvDone pick sys c m) := by
  unfold Proxy.clientRecvDone
  refine serves.trans (serves.requestFilter m _) ?_
  dsimp only
  split
  · exact serves.refl _
  · refine serves.trans (serves.did (.read c m) _ trivial) ?_
    split
    · refine serves.trans (serves.requestMakeReply m _) ?_
      cases sys.client with
      | none => exact serves.refl _
      | some err => exact serves.putClient _ _ rfl rfl rfl
    · exact serves.requestForward picks sys m _

end Serves

/-! ### Clients -/

namespace Tends

variable {c : Addr}

theorem dropMsgs (tends : Tends c R) (p : Proxy) : R p (p.dropMsgs c) := by
  unfold Proxy.dropMsgs
  refine tends.trans ?_ (tends.discard _ _ _)
  cases (p.client c).m_rmsg with
  | none => exact tends.refl p
  | some m => exact tends.trans (tends.putClient _ p rfl) (tends.msgs _ _)

theorem clientRecvNext (tends : Tends c R) (alloc : Bool) (p : Proxy) :
    R p (p.clientRecvNext c alloc).1 := by
  unfold Proxy.clientRecvNext
  by_cases eof : (p.client c).m_eof = true
  · rw [if_pos eof]
    have dropped : R p (p.dropIncomplete (Proxy.putClient c) (p.client c) true) :=
      tends.dropIncomplete true p (tends.putClient _ p rfl)
    dsimp only
    split
    · exact dropped
    · exact tends.trans dropped (tends.putClient _ _ rfl)
  · rw [if_neg eof]
    cases (p.client c).m_rmsg with
    | some m => exact tends.refl p
    | none =>
        cases alloc with
        | false => exact tends.refl p
        | true =>
            exact tends.trans (tends.msgs _ p)
              (tends.trans (tends.putClient _ _ rfl) (tends.msgs _ _))

theorem clientRecvDone (tends : Tends c R) {pick : Proxy → Proxy × Ptr} (picks : ∀ p, R p (pick p).1)
    (sys : ForwardAnswers) (m : Addr) (p : Proxy) : R p (p.clientRecvDone pick sys c m) :=
  tends.trans (tends.putClient (fun conn => { conn with m_rmsg := none }) p rfl)
    (tends.serves.recvDone picks sys m p)

/-- **A turn of `recvMsg` on a client connection.** -/
theorem clientRecv (tends : Tends c R) {pick : Proxy → Proxy × Ptr} (picks : ∀ p, R p (pick p).1)
    (sys : ForwardAnswers) (fresh : NcMbuf) (answer : ReadAnswer) (p : Proxy) :
    R p (Proxy.recvTurn (clientReceiver pick sys c) fresh answer p).1 :=
  tends.recvTurn
    ⟨tends.putClient, tends.clientRecvNext, tends.clientRecvDone picks sys⟩ fresh answer p

/-- **A turn of `sendMsg` on a client connection.** -/
theorem clientSend (tends : Tends c R) {delOutput : Option Int}
    {answer : NcConn.SendvAnswer} {p p' : Proxy}
    (turn : p.clientSendTurn c delOutput answer = .ok p') : R p p' := by
  have looked := tends.did (.looked .clientSendNext (p.client c).m_omsg_q.isEmpty) p trivial
  generalize given : p.did (.looked .clientSendNext (p.client c).m_omsg_q.isEmpty) = q at looked
  have same : q.client c = p.client c := given ▸ rfl
  have cases := clientSendTurn_cases turn
  rw [given] at cases
  rcases cases with ⟨-, final⟩ | ⟨rsp, _, _, nsent, ready, err, -, -, -, final⟩
  · rw [final]
    refine tends.trans looked (tends.putClient _ q ?_)
    rw [same]
    exact sendNext_m_sd ..
  · generalize accounting : NcConn.accounted NcClientConn.sendDone rsp nsent
      ⟨{ p.client c with m_smsg := none, m_send_ready := ready, m_err := err }, p.msg_pool⟩ = s
      at final
    have m_sd : s.conn.m_sd = (q.client c).m_sd := by
      obtain ⟨queue, conn⟩ := accounted_conn rsp nsent
        ⟨{ p.client c with m_smsg := none, m_send_ready := ready, m_err := err }, p.msg_pool⟩
      rw [← accounting, conn, same]
    have sent : R p (({ q with msg_pool := s.msg_pool }.putClient c fun _ => s.conn).did
        (.handed c rsp)) :=
      tends.trans looked (tends.trans (tends.msgs _ q)
        (tends.trans (tends.putClient _ _ m_sd) (tends.did (.handed c rsp) _ trivial)))
    rcases final with ⟨-, final⟩ | ⟨-, final⟩
    · rw [final]
      exact sent
    · rw [final]
      exact tends.trans sent (tends.did (.completed c rsp) _ trivial)

end Tends

namespace Frame

theorem dropMsgs (frame : Frame R) (c : Addr) (p : Proxy) : R p (p.dropMsgs c) :=
  (frame.tends c).dropMsgs p

/-- **A turn of `recvMsg` on a client connection.** -/
theorem clientRecv (frame : Frame R) {pick : Proxy → Proxy × Ptr} (picks : ∀ p, R p (pick p).1)
    (sys : ForwardAnswers) (c : Addr) (fresh : NcMbuf) (answer : ReadAnswer) (p : Proxy) :
    R p (Proxy.recvTurn (clientReceiver pick sys c) fresh answer p).1 :=
  (frame.tends c).clientRecv picks sys fresh answer p

/-- **A turn of `recvMsg` on a server connection.** -/
theorem serverRecv (frame : Frame R) (sys : ForwardAnswers) (s : Addr) (fresh : NcMbuf)
    (answer : ReadAnswer) (p : Proxy) :
    R p (Proxy.recvTurn (serverReceiver sys s) fresh answer p).1 :=
  frame.fails.serverRecv sys s fresh answer p

/-- **A turn of `sendMsg` on a client connection.** -/
theorem clientSend (frame : Frame R) {c : Addr} {delOutput : Option Int}
    {answer : NcConn.SendvAnswer} {p p' : Proxy}
    (turn : p.clientSendTurn c delOutput answer = .ok p') : R p p' :=
  (frame.tends c).clientSend turn

/-- **A turn of `sendMsg` on a server connection.** -/
theorem serverSend (frame : Frame R) (s : Addr) (sys : SysCalls) (done : Ptr) (p : Proxy) :
    R p (p.serverSendTurn s sys done) := frame.base.serverSend s sys done p

end Frame

/-! ### Events -/

/-- A frame that allows the coming and going of clients too, and all records but the choices. -/
structure Whole (R : Proxy → Proxy → Prop) : Prop extends Frame R where
  clients : ∀ c_pool nc_conn_q c_conn_q p, R p { p with
    c_pool := c_pool
    server_pool := { p.server_pool with nc_conn_q := nc_conn_q, c_conn_q := c_conn_q } }
  noted : ∀ act p, (∀ conn, act ≠ .chose conn) → R p (p.did act)

namespace Whole

theorem close (whole : Whole R) (c : Addr) (p : Proxy) : R p (p.close c) := by
  have noted := whole.noted (.closed c) p fun _ => nofun
  unfold Proxy.close
  dsimp only
  split
  · exact whole.trans noted (whole.clients _ _ _ _)
  · exact whole.trans noted (whole.trans (whole.dropMsgs c _) (whole.clients _ _ _ _))

theorem enroll (whole : Whole R) (sd : Int) (p : Proxy) : R p (p.enroll sd) :=
  whole.trans (whole.clients _ _ _ p) (whole.noted (.accepted p.nextClient sd) _ fun _ => nofun)

/-- **Every event keeps the frame**, if the choice of a server connection does. -/
theorem step (whole : Whole R) {event : ProxyEvent} {p p' : Proxy}
    (picks : ∀ c choice sys fresh answer, event = .clientRecv c choice sys fresh answer →
      ∀ q, R q (choice.pick q).1)
    (step : Step p event p') : R p p' := by
  cases event with
  | accept answer =>
      rw [step.2]
      cases answer with
      | failed => exact whole.refl p
      | descriptor sd setNonBlocking addConn =>
          show R p (if _ then _ else _)
          split
          · exact whole.refl p
          · split
            · exact whole.enroll sd p
            · exact whole.trans (whole.enroll sd p) (whole.close _ _)
  | clientRecv c choice sys fresh answer =>
      rw [step.2]
      exact whole.clientRecv (picks c choice sys fresh answer rfl) _ _ _ _ _
  | clientSend c delOutput answer => exact whole.clientSend step.2
  | clientClose c =>
      rw [step.2]
      exact whole.close c p
  | serverRecv s sys fresh answer =>
      rw [step.2]
      exact whole.serverRecv _ _ _ _ _
  | serverSend s sys done =>
      rw [step.2.2]
      exact whole.serverSend _ _ _ _
  | serverClose s =>
      rw [step.2]
      exact whole.noted (.serverClosed s) p fun _ => nofun

end Whole

end Proxy

end Nutcracker
