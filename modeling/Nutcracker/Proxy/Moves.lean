/-
**What the handlers make of the messages.**

Between the read and the next one, nothing is written into a message and none is taken from the pool: a
message keeps its buffers and its length, or is given back. `Moves` says so, and that the queues, the
current messages and the links get nothing new but a request `req` and a response `rsp`.

* `Spares.freeMsg` — `freeMsg` gives messages back, and leaves the others.
* `Moves.clientRecvDone`, `Moves.serverRecvDone` — **what becomes of a message that was received**.
* `Moves.clientSendDone`, `Moves.serverSendTurn`, `Moves.close` — the other turns add nothing.
-/

import Nutcracker.Proxy.Custody

namespace Nutcracker

/-- What a message holds. -/
def NcMsg.text (msg : NcMsg) : List NcMbuf × Nat := (msg.m_mbuf_queue, msg.m_mlen)

/-! ### Messages -/

/-- **A message keeps what it holds, or is given back**, and no link is made but those of `rsp`. -/
structure Spares (rsp : Addr → Prop) (a b : NcObjectPool NcMsg) : Prop where
  text : ∀ m, ((b.mem m).text = (a.mem m).text ∧ (m ∈ b.m_queue ↔ m ∈ a.m_queue)) ∨
    m ∈ b.m_queue ∧ (b.mem m).text = ([], 0)
  peer : ∀ m r, (b.mem m).m_peer = some r → (a.mem m).m_peer = some r ∨ rsp m ∨ rsp r

namespace Spares

variable {rsp : Addr → Prop} {a b d : NcObjectPool NcMsg}

theorem refl (a : NcObjectPool NcMsg) : Spares rsp a a :=
  ⟨fun _ => Or.inl ⟨rfl, Iff.rfl⟩, fun _ _ => Or.inl⟩

theorem trans (one : Spares rsp a b) (two : Spares rsp b d) : Spares rsp a d := by
  refine ⟨fun m => ?_, fun m r peer => ?_⟩
  · rcases two.text m with ⟨same, queue⟩ | given
    · rcases one.text m with ⟨same', queue'⟩ | ⟨free, empty⟩
      · exact Or.inl ⟨same.trans same', queue.trans queue'⟩
      · exact Or.inr ⟨queue.mpr free, same.trans empty⟩
    · exact Or.inr given
  · rcases two.peer m r peer with peer | new
    · exact one.peer m r peer
    · exact Or.inr new

/-- The flags of a message. -/
theorem put (m : Addr) {f : NcMsg → NcMsg} (text : ∀ msg, (f msg).text = msg.text)
    (peer : ∀ r, (f (a.mem m)).m_peer = some r → (a.mem m).m_peer = some r ∨ rsp m ∨ rsp r) :
    Spares rsp a (a.put m f) := by
  refine ⟨fun x => Or.inl ⟨?_, Iff.rfl⟩, fun x r linked => ?_⟩
  · by_cases isM : x = m
    · rw [isM, NcObjectPool.mem_put_self, text]
    · rw [NcObjectPool.mem_put_of_ne _ _ isM]
  · by_cases isM : x = m
    · rw [isM, NcObjectPool.mem_put_self] at linked
      rw [isM]
      exact peer r linked
    · rw [NcObjectPool.mem_put_of_ne _ _ isM] at linked
      exact Or.inl linked

/-- The link of a message is cut. -/
theorem cut (m : Addr) (a : NcObjectPool NcMsg) :
    Spares rsp a (a.put m fun msg => { msg with m_peer := none }) :=
  put m (fun _ => rfl) nofun

theorem release (m : Addr) (a : NcObjectPool NcMsg) : Spares rsp a (NcConn.release m a) := by
  have self : (NcConn.release m a).mem m = (a.mem m).freeMbuf.reset := by
    show ((a.put m NcMsg.freeMbuf).put m NcMsg.reset).mem m = _
    rw [NcObjectPool.mem_put_self, NcObjectPool.mem_put_self]
  have queue : (NcConn.release m a).m_queue = a.m_queue ++ [m] := rfl
  refine ⟨fun x => ?_, fun x r peer => ?_⟩
  · rw [queue, List.mem_append, List.mem_singleton]
    by_cases isM : x = m
    · rw [isM, self]
      exact Or.inr ⟨Or.inr rfl, rfl⟩
    · rw [NcConn.mem_release isM, or_iff_left isM]
      exact Or.inl ⟨rfl, Iff.rfl⟩
  · by_cases isM : x = m
    · rw [isM, self] at peer
      cases peer
    · rw [NcConn.mem_release isM] at peer
      exact Or.inl peer

/-- **`freeMsg`.** -/
theorem freeMsg (m_owner : Ptr) (m : Addr) (force : Bool) (a : NcObjectPool NcMsg) :
    Spares rsp a (NcConn.freeMsg m_owner m force a) := by
  unfold NcConn.freeMsg
  split
  · exact refl a
  · split
    next pmsg _ =>
      refine ((cut m a).trans (cut pmsg _)).trans ((release pmsg _).trans (release m _))
    · exact release m a

end Spares

namespace Proxy

/-- **Nothing is read and nothing is taken**: the messages are spared, and the queues, the current
messages and the links get nothing but the request `req` and the response `rsp`. -/
structure Moves (req rsp : Addr → Prop) (p q : Proxy) : Prop where
  msgs : Spares rsp p.msg_pool q.msg_pool
  imsg : ∀ s, ∀ m ∈ (q.server s).m_imsg_q, m ∈ (p.server s).m_imsg_q ∨ req m
  answering : ∀ s m, (q.server s).m_rmsg = some m → (p.server s).m_rmsg = some m
  still : ∀ c, q.Open c → p.Open c
  asking : ∀ c m, (q.client c).m_rmsg = some m → (p.client c).m_rmsg = some m
  omsg : ∀ c, ∀ m ∈ (q.client c).m_omsg_q, m ∈ (p.client c).m_omsg_q ∨ req m

namespace Moves

variable {req rsp : Addr → Prop} {p q t : Proxy}

theorem refl (p : Proxy) : Moves req rsp p p where
  msgs := .refl _
  imsg _ _ := Or.inl
  answering _ _ := id
  still _ := id
  asking _ _ := id
  omsg _ _ := Or.inl

theorem trans (one : Moves req rsp p q) (two : Moves req rsp q t) : Moves req rsp p t where
  msgs := one.msgs.trans two.msgs
  imsg s m inside := (two.imsg s m inside).elim (one.imsg s m) Or.inr
  answering s m received := one.answering s m (two.answering s m received)
  still c isOpen := one.still c (two.still c isOpen)
  asking c m received := one.asking c m (two.asking c m received)
  omsg c m inside := (two.omsg c m inside).elim (one.omsg c m) Or.inr

/-! ### One change -/

theorem did (act : Act) (p : Proxy) : Moves req rsp p (p.did act) :=
  { (refl p : Moves req rsp p p) with msgs := .refl _ }

/-- The messages change. -/
theorem of_msgs {msg_pool : NcObjectPool NcMsg} (msgs : Spares rsp p.msg_pool msg_pool) :
    Moves req rsp p { p with msg_pool := msg_pool } :=
  { (refl p : Moves req rsp p p) with msgs := msgs }

theorem freeMsg (m_owner : Ptr) (m : Addr) (force : Bool) (p : Proxy) :
    Moves req rsp p (p.freeMsg m_owner m force) := of_msgs (.freeMsg m_owner m force _)

/-- The flags of a message change. -/
theorem flag (m : Addr) {f : NcMsg → NcMsg} (text : ∀ msg, (f msg).text = msg.text)
    (peer : ∀ msg, (f msg).m_peer = msg.m_peer) (p : Proxy) : Moves req rsp p (p.putMsg m f) :=
  of_msgs (.put m text fun _ linked => Or.inl ((peer _).symm.trans linked))

/-- A client connection changes. -/
theorem putClient (c : Addr) {f : NcConn → NcConn} {p : Proxy}
    (rmsg : ∀ m, (f (p.client c)).m_rmsg = some m → (p.client c).m_rmsg = some m)
    (omsg : ∀ m ∈ (f (p.client c)).m_omsg_q, m ∈ (p.client c).m_omsg_q ∨ req m) :
    Moves req rsp p (p.putClient c f) := by
  refine { refl p with asking := fun d m received => ?_, omsg := fun d m inside => ?_ }
  · by_cases isC : d = c
    · rw [isC, client_putClient] at received
      rw [isC]
      exact rmsg m received
    · rwa [client_putClient_of_ne _ _ isC] at received
  · by_cases isC : d = c
    · rw [isC, client_putClient] at inside
      rw [isC]
      exact omsg m inside
    · rw [client_putClient_of_ne _ _ isC] at inside
      exact Or.inl inside

/-- The queues of a client connection stay. -/
theorem ofClient (c : Addr) {f : NcConn → NcConn} {p : Proxy}
    (rmsg : (f (p.client c)).m_rmsg = (p.client c).m_rmsg ∨ (f (p.client c)).m_rmsg = none)
    (omsg : (f (p.client c)).m_omsg_q = (p.client c).m_omsg_q) :
    Moves req rsp p (p.putClient c f) := by
  refine putClient c (fun m received => ?_) fun m inside => Or.inl (omsg ▸ inside)
  rcases rmsg with same | none
  · exact same ▸ received
  · cases none.symm.trans received

/-- A server connection changes. -/
theorem putServer (s : Addr) {f : NcConn → NcConn} {p : Proxy}
    (rmsg : (f (p.server s)).m_rmsg = (p.server s).m_rmsg ∨ (f (p.server s)).m_rmsg = none)
    (imsg : ∀ m ∈ (f (p.server s)).m_imsg_q, m ∈ (p.server s).m_imsg_q ∨ req m) :
    Moves req rsp p (p.putServer s f) := by
  refine { refl p with imsg := fun t m inside => ?_, answering := fun t m received => ?_ }
  · by_cases isS : t = s
    · rw [isS, server_putServer] at inside
      rw [isS]
      exact imsg m inside
    · rw [server_putServer_of_ne _ _ isS] at inside
      exact Or.inl inside
  · by_cases isS : t = s
    · rw [isS, server_putServer] at received
      rw [isS]
      rcases rmsg with same | none
      · exact same ▸ received
      · cases none.symm.trans received
    · rwa [server_putServer_of_ne _ _ isS] at received

/-- The current message of a client is put down. -/
theorem putDown (c : Addr) (p : Proxy) :
    Moves req rsp p (p.putClient c fun conn => { conn with m_rmsg := none }) :=
  ofClient c (Or.inr rfl) rfl

theorem putDownServer (s : Addr) (p : Proxy) :
    Moves req rsp p (p.putServer s fun conn => { conn with m_rmsg := none }) :=
  putServer s (Or.inr rfl) fun _ => Or.inl

/-! ### Requests -/

section Requests

variable (c m : Addr)

theorem dropIncomplete (force : Bool) (p : Proxy) :
    Moves req rsp p (p.dropIncomplete (Proxy.putClient c) (p.client c) force) := by
  unfold Proxy.dropIncomplete
  cases (p.client c).m_rmsg with
  | none => exact refl p
  | some m => exact (putDown c p).trans (freeMsg _ m force _)

/-- `recvNext` behind `recvDone`. -/
theorem clientRecvNext (p : Proxy) : Moves req rsp p (p.clientRecvNext c false).1 := by
  unfold Proxy.clientRecvNext
  split
  · dsimp only
    split
    · exact dropIncomplete c true p
    · exact (dropIncomplete c true p).trans (ofClient c (Or.inl rfl) rfl)
  · cases (p.client c).m_rmsg with
    | some m => exact refl p
    | none => exact refl p

theorem requestFilter (p : Proxy) : Moves req rsp p (p.requestFilter c m).1 := by
  unfold Proxy.requestFilter
  split
  · exact freeMsg _ m true p
  · split
    · exact (ofClient c (Or.inl rfl) rfl).trans (freeMsg _ m true _)
    · exact refl p

theorem requestForwardError (sys : ForwardAnswers) (p : Proxy) :
    Moves req rsp p (p.requestForwardError sys c m) := by
  unfold Proxy.requestForwardError
  have failed : Moves req rsp p (p.putMsg m fun msg =>
      { msg with m_done := true, m_error := true, m_err := sys.errno }) := by
    refine flag m ?_ ?_ p
    · exact fun _ => rfl
    · exact fun _ => rfl
  generalize (p.putMsg m fun msg =>
    { msg with m_done := true, m_error := true, m_err := sys.errno }) = q at failed
  dsimp only
  split
  · exact failed.trans (freeMsg _ m true q)
  · have looked := failed.trans (did (.looked .requestForwardError (q.client c).m_omsg_q.isEmpty) q)
    cases sys.client with
    | none => exact looked
    | some err =>
        refine looked.trans (flag m ?_ ?_ _)
        · exact fun _ => rfl
        · exact fun _ => rfl

/-- A server connection comes from the pool: a new one has nothing in its queues. -/
theorem allocServer (p : Proxy) :
    Moves req rsp p { p with s_pool := (p.s_pool.alloc NcConn.new).1 } := by
  have conn (s : Addr) : (p.s_pool.alloc NcConn.new).1.mem s = p.s_pool.mem s ∨
      (p.s_pool.alloc NcConn.new).1.mem s = NcConn.new := by
    cases queue : p.s_pool.m_queue with
    | cons c rest =>
        rw [NcObjectPool.alloc_queued NcConn.new queue]
        exact Or.inl rfl
    | nil =>
        rw [NcObjectPool.alloc_empty NcConn.new queue]
        by_cases isNew : s = p.s_pool.made
        · rw [isNew]
          exact Or.inr (Function.update_self ..)
        · exact Or.inl (Function.update_of_ne isNew ..)
  refine { (refl p : Moves req rsp p p) with
    imsg := fun s m (inside : m ∈ ((p.s_pool.alloc NcConn.new).1.mem s).m_imsg_q) => ?_
    answering := fun s m (received : ((p.s_pool.alloc NcConn.new).1.mem s).m_rmsg = some m) => ?_ }
  · rcases conn s with same | new
    · rw [same] at inside
      exact Or.inl inside
    · exact absurd (new ▸ inside) List.not_mem_nil
  · rcases conn s with same | new
    · rw [same] at received
      exact received
    · cases (congrArg NcConn.m_rmsg new).symm.trans received

/-- A choice changes no queue of messages. -/
theorem pick (choice : Choice) (p : Proxy) : Moves req rsp p (choice.pick p).1 := by
  cases choice with
  | any conn => exact refl p
  | index idx =>
      show Moves req rsp p (p.getConn idx).1
      unfold getConn
      cases p.server_pool.server[idx % p.server_pool.server.length]? with
      | none => exact refl p
      | some server =>
          dsimp only
          refine Moves.trans ?_ (did _ _)
          unfold serverGetConn
          split
          · exact allocServer p
          · exact { (refl p : Moves req rsp p p) with msgs := .refl _ }

/-- The request goes to the end of the queues. -/
theorem requestForward (choice : Choice) (sys : ForwardAnswers) (isReq : req m) (p : Proxy) :
    Moves req rsp p (p.requestForward choice.pick sys c m) := by
  unfold Proxy.requestForward
  have isNew {x : Addr} (new : x ∈ [m]) : req x := by
    rw [List.mem_singleton.mp new]
    exact isReq
  have queued : Moves req rsp p (if (p.msg m).m_noreply then p
      else p.putClient c fun conn => { conn with m_omsg_q := conn.m_omsg_q ++ [m] }) := by
    split
    · exact refl p
    · refine putClient c (fun _ => id) fun x inside => ?_
      exact (List.mem_append.mp inside).imp id isNew
  generalize (if (p.msg m).m_noreply then p
    else p.putClient c fun conn => { conn with m_omsg_q := conn.m_omsg_q ++ [m] }) = q at queued
  have picked := queued.trans (pick choice q)
  dsimp only
  generalize (choice.pick q).1 = t at picked
  have failed := picked.trans (requestForwardError c m sys t)
  have pushed (s : Addr) : Moves req rsp p (t.putServer s fun conn =>
      { conn with m_imsg_q := conn.m_imsg_q ++ [m] }) := by
    refine picked.trans (putServer s (Or.inl rfl) fun x inside => ?_)
    exact (List.mem_append.mp inside).imp id isNew
  cases (choice.pick q).2 with
  | none => exact failed
  | some s =>
      dsimp only
      split
      · cases sys.server with
        | none => exact pushed s
        | some err => exact failed.trans (putServer s (Or.inl rfl) fun _ => Or.inl)
      · exact pushed s

/-- **An empty message goes to no queue.** -/
theorem clientRecvDone_empty (pick : Proxy → Proxy × Ptr) (sys : ForwardAnswers) {p : Proxy}
    (empty : (p.msg m).empty = true) :
    Moves req rsp (p.putClient c fun conn => { conn with m_rmsg := none })
      (p.clientRecvDone pick sys c m) := by
  unfold Proxy.clientRecvDone
  have empty' : ((p.putClient c fun conn => { conn with m_rmsg := none }).msg m).empty = true := empty
  have filtered : ((p.putClient c fun conn => { conn with m_rmsg := none }).requestFilter c m).2 =
      true := by
    unfold Proxy.requestFilter
    rw [if_pos empty']
  dsimp only
  rw [if_pos filtered]
  exact requestFilter c m _

/-- **What becomes of a request.** -/
theorem clientRecvDone (choice : Choice) (sys : ForwardAnswers) (isReq : req m) {p : Proxy}
    (forward : (p.msg m).m_noforward = false) :
    Moves req rsp (p.putClient c fun conn => { conn with m_rmsg := none })
      (p.clientRecvDone choice.pick sys c m) := by
  unfold Proxy.clientRecvDone
  have forward' : ((p.putClient c fun conn => { conn with m_rmsg := none }).msg m).m_noforward =
      false := forward
  generalize (p.putClient c fun conn => { conn with m_rmsg := none }) = q at forward'
  have filtered : Moves req rsp q (q.requestFilter c m).1 := requestFilter c m q
  dsimp only
  split
  · exact filtered
  next passes =>
    have same : (q.requestFilter c m).1 = q := by
      unfold Proxy.requestFilter at passes ⊢
      split
      next empty =>
        rw [if_pos empty] at passes
        exact absurd rfl passes
      next full =>
        rw [if_neg full] at passes
        split
        next quit =>
          rw [if_pos quit] at passes
          exact absurd rfl passes
        · rfl
    rw [same]
    have stays : ¬ ((q.did (.read c m)).msg m).m_noforward = true := by
      rw [msg_did, forward']
      exact Bool.false_ne_true
    rw [if_neg stays]
    exact (did _ q).trans (requestForward c m choice sys isReq _)

end Requests

/-! ### Responses -/

section Responses

variable (s m : Addr)

theorem dropIncompleteServer (force : Bool) (p : Proxy) :
    Moves req rsp p (p.dropIncomplete (Proxy.putServer s) (p.server s) force) := by
  unfold Proxy.dropIncomplete
  cases (p.server s).m_rmsg with
  | none => exact refl p
  | some m => exact (putDownServer s p).trans (freeMsg _ m force _)

theorem serverRecvNext (p : Proxy) : Moves req rsp p (p.serverRecvNext s false).1 := by
  unfold Proxy.serverRecvNext
  split
  · exact (dropIncompleteServer s false p).trans (putServer s (Or.inl rfl) fun _ => Or.inl)
  · cases (p.server s).m_rmsg with
    | some m => exact refl p
    | none => exact refl p

theorem responseFilter (p : Proxy) : Moves req rsp p (p.responseFilter s m).1 := by
  unfold Proxy.responseFilter
  split
  · exact freeMsg _ m false p
  · dsimp only
    have looked : Moves req rsp p ((p.did (.responded s m)).did
        (.looked .responseFilter ((p.did (.responded s m)).server s).m_omsg_q.isEmpty)) :=
      (did _ p).trans (did _ _)
    split
    · refine (looked.trans (freeMsg _ m false _)).trans (flag m ?_ ?_ _)
      · exact fun _ => rfl
      · exact fun _ => rfl
    · exact looked

/-- The response is linked to the first request that waits. -/
theorem responseForward (sys : ForwardAnswers) (isRsp : rsp m) (p : Proxy) :
    Moves req rsp p (p.responseForward sys s m) := by
  unfold Proxy.responseForward
  have looked : Moves req rsp p
      (p.did (.looked .responseForward (p.server s).m_omsg_q.isEmpty)) := did _ p
  generalize p.did (.looked .responseForward (p.server s).m_omsg_q.isEmpty) = q at looked
  dsimp only
  cases (q.server s).m_omsg_q with
  | nil => exact looked
  | cons pmsg rest =>
      dsimp only
      have taken := looked.trans (putServer s (f := fun conn =>
        { conn with m_omsg_q := NcQueue.remove pmsg conn.m_omsg_q }) (Or.inl rfl) fun _ => Or.inl)
      generalize (q.putServer s fun conn =>
        { conn with m_omsg_q := NcQueue.remove pmsg conn.m_omsg_q }) = q at taken
      have request : Moves req rsp q
          (q.putMsg pmsg fun msg => { msg with m_done := true, m_peer := some m }) :=
        of_msgs (.put pmsg (fun _ => rfl) fun r linked => Or.inr (Or.inr (Option.some.inj linked ▸ isRsp)))
      have response (t : Proxy) : Moves req rsp t
          (t.putMsg m fun msg => { msg with m_peer := some pmsg }) :=
        of_msgs (.put m (fun _ => rfl) fun r _ => Or.inr (Or.inl isRsp))
      have linked := ((taken.trans request).trans (response _)).trans (did (.answered s m pmsg) _)
      generalize (((q.putMsg pmsg fun msg => { msg with m_done := true, m_peer := some m }).putMsg m
        fun msg => { msg with m_peer := some pmsg }).did (.answered s m pmsg)) = t at linked
      cases (t.msg pmsg).data with
      | none => exact linked
      | some c =>
          dsimp only
          have looked := linked.trans (did (.looked .responseForward (t.client c).m_omsg_q.isEmpty) t)
          split
          · exact looked
          · cases sys.client with
            | none => exact looked
            | some err => exact looked.trans (ofClient c (Or.inl rfl) rfl)

/-- **An empty message is linked to no request.** -/
theorem serverRecvDone_empty (sys : ForwardAnswers) {p : Proxy} (empty : (p.msg m).empty = true) :
    Moves req rsp (p.putServer s fun conn => { conn with m_rmsg := none })
      (p.serverRecvDone sys s m) := by
  unfold Proxy.serverRecvDone
  have empty' : ((p.putServer s fun conn => { conn with m_rmsg := none }).msg m).empty = true := empty
  have filtered : ((p.putServer s fun conn => { conn with m_rmsg := none }).responseFilter s m).2 =
      true := by
    unfold Proxy.responseFilter
    rw [if_pos empty']
  dsimp only
  rw [if_pos filtered]
  exact responseFilter s m _

/-- **What becomes of a response.** -/
theorem serverRecvDone (sys : ForwardAnswers) (isRsp : rsp m) (p : Proxy) :
    Moves req rsp (p.putServer s fun conn => { conn with m_rmsg := none })
      (p.serverRecvDone sys s m) := by
  unfold Proxy.serverRecvDone
  generalize (p.putServer s fun conn => { conn with m_rmsg := none }) = q
  have filtered : Moves req rsp q (q.responseFilter s m).1 := responseFilter s m q
  dsimp only
  split
  · exact filtered
  · exact filtered.trans (responseForward s m sys isRsp _)

end Responses

/-! ### Sending -/

/-- The request of a response that was sent leaves the queue. -/
theorem clientSendDone (c rsp' : Addr) (conn : NcConn) {p : Proxy}
    (rmsg : conn.m_rmsg = (p.client c).m_rmsg) (omsg : conn.m_omsg_q = (p.client c).m_omsg_q) :
    Moves req rsp p ({ p with
      msg_pool := (NcClientConn.sendDone rsp' ⟨conn, p.msg_pool⟩).msg_pool }.putClient c
        fun _ => (NcClientConn.sendDone rsp' ⟨conn, p.msg_pool⟩).conn) := by
  unfold NcClientConn.sendDone
  dsimp only
  cases (p.msg_pool.mem rsp').m_peer with
  | none => exact ofClient c (Or.inl rmsg) omsg
  | some pmsg =>
      dsimp only
      refine (of_msgs (.freeMsg conn.m_owner pmsg true p.msg_pool)).trans
        (putClient c (fun m received => rmsg ▸ received) fun m inside => Or.inl ?_)
      exact omsg ▸ (NcQueue.mem_remove.mp inside).1

/-- A request that was sent waits for its response. -/
theorem serverSendDone (s m : Addr) (p : Proxy) : Moves req rsp p (p.serverSendDone s m) := by
  unfold Proxy.serverSendDone NcServerConn.sendDone
  have queue : ∀ x ∈ NcQueue.remove m (p.server s).m_imsg_q, x ∈ (p.server s).m_imsg_q ∨ req x :=
    fun x inside => Or.inl (NcQueue.mem_remove.mp inside).1
  dsimp only
  refine Moves.trans ?_ (did _ _)
  split
  · exact (of_msgs (.freeMsg _ m true p.msg_pool)).trans (putServer s (Or.inl rfl) queue)
  · exact putServer s (Or.inl rfl) queue

/-- **A turn of `sendMsg` on a server connection.** -/
theorem serverSendTurn (s : Addr) (sys : SysCalls) (done : Ptr) (p : Proxy) :
    Moves req rsp p (p.serverSendTurn s sys done) := by
  unfold Proxy.serverSendTurn
  obtain ⟨imsg, -, -⟩ := NcServerConn.sendNext_frame sys (p.server s)
  have rmsg := NcServerConn.sendNext_rmsg sys (p.server s)
  have sameConn : (p.did (.looked .serverSendNext (p.server s).m_imsg_q.isEmpty)).server s =
      p.server s := rfl
  have looked : Moves req rsp p (p.did (.looked .serverSendNext (p.server s).m_imsg_q.isEmpty)) :=
    did _ p
  generalize p.did (.looked .serverSendNext (p.server s).m_imsg_q.isEmpty) = q at looked sameConn
  dsimp only
  rw [sameConn]
  rw [← sameConn] at imsg rmsg ⊢
  have next (f : NcConn → NcConn)
      (same : (f (q.server s)).m_rmsg = (NcServerConn.sendNext sys (q.server s)).1.m_rmsg)
      (queue : (f (q.server s)).m_imsg_q = (NcServerConn.sendNext sys (q.server s)).1.m_imsg_q) :
      Moves req rsp p (q.putServer s f) := by
    refine looked.trans (putServer s (Or.inl (same.trans rmsg)) fun m inside => Or.inl ?_)
    rw [queue, imsg] at inside
    exact inside
  have cleared := next
    (fun _ => { (NcServerConn.sendNext sys (q.server s)).1 with m_smsg := none }) rfl rfl
  split
  next m _ => exact cleared.trans (serverSendDone s m _)
  · exact cleared
  · exact next (fun _ => (NcServerConn.sendNext sys (q.server s)).1) rfl rfl

/-! ### A client goes -/

theorem discard (m_owner : Ptr) (msgs : List Addr) (p : Proxy) :
    Moves req rsp p (p.discard m_owner msgs) := by
  induction msgs generalizing p with
  | nil => exact refl p
  | cons m rest ih =>
      unfold Proxy.discard
      refine Moves.trans ?_ (ih _)
      split
      · exact freeMsg m_owner m true p
      · refine flag m ?_ ?_ p
        · exact fun _ => rfl
        · exact fun _ => rfl

theorem dropMsgs (c : Addr) (p : Proxy) : Moves req rsp p (p.dropMsgs c) := by
  unfold Proxy.dropMsgs
  cases (p.client c).m_rmsg with
  | none => exact discard _ _ p
  | some m => exact ((putDown c p).trans (freeMsg _ m true _)).trans (discard _ _ _)

theorem unref (c : Addr) (p : Proxy) : Moves req rsp p (p.unref c) := by
  have left : Moves req rsp p (p.putClient c fun conn => { conn with m_owner := none }) :=
    ofClient c (Or.inl rfl) rfl
  exact { left with still := fun d isOpen => (NcQueue.mem_remove.mp isOpen).1 }

theorem freeClient (c : Addr) (p : Proxy) : Moves req rsp p (p.freeClient c) := by
  have reset : Moves req rsp p (p.putClient c NcConn.baseReset) := ofClient c (Or.inl rfl) rfl
  exact { reset with msgs := reset.msgs }

/-- **`close` of a client.** -/
theorem close (c : Addr) (p : Proxy) : Moves req rsp p (p.close c) := by
  unfold Proxy.close
  have noted : Moves req rsp p (p.did (.closed c)) := did _ p
  generalize p.did (.closed c) = q at noted
  dsimp only
  split
  · exact noted.trans ((unref c q).trans (freeClient c _))
  · refine noted.trans ((dropMsgs c q).trans ((unref c _).trans (Moves.trans ?_ (freeClient c _))))
    exact ofClient c (Or.inl rfl) rfl

end Moves

end Proxy

end Nutcracker
