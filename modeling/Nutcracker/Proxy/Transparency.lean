/-
**The proxy changes no byte.**

* `Conveys.recvTurn`, `Faithful.clientSend` — a turn of `recvMsg` keeps what was read, and a turn of
  `sendMsg` of a client takes bytes from the front of a response.
* `transparent` — **a request waits with the bytes that were read, and of a response those are left
  that were not yet written**.
* `completed_whole` — **a response that is completed was written as it was read**.
-/

import Nutcracker.Proxy.Faithful

namespace Nutcracker

open Lib

namespace Proxy

/-- Nothing new. -/
abbrev Moves.Nothing (p q : Proxy) : Prop := Moves (fun _ => False) (fun _ => False) p q

/-! ### A turn of `recvMsg` -/

/-- The receiver puts its current message down. -/
def Receiver.down (r : Receiver) (p : Proxy) : Proxy :=
  r.put (fun conn => { conn with m_rmsg := none }) p

/-- **A receiver that makes a request or a response of the message it receives**, and does nothing else
with the messages. -/
structure Conveys (live fit : Books → Prop) (req rsp : Addr → Addr → Prop) (r : Receiver) : Prop where
  handles : Handles False live fit r
  fits : ∀ b, fit b
  look : ∀ act p, r.conn (p.did act) = r.conn p
  put : ∀ f p, (f (r.conn p)).desk = (r.conn p).desk → Moves.Nothing p (r.put f p)
  msg : ∀ f p x, (r.put f p).msg x = p.msg x
  putMsg : ∀ f x g p, r.put f (p.putMsg x g) = (r.put f p).putMsg x g
  putDid : ∀ f act p, r.put f (p.did act) = (r.put f p).did act
  lower : ∀ p, Moves.Nothing p (r.down p)
  next : ∀ {heard told p}, Faithful heard told p → p.books.Sound → live p.books →
    Faithful heard told (r.recvNext true p).1
  blank : ∀ {heard told p m}, Faithful heard told p → live p.books →
    (r.conn p).m_rmsg = some m → (p.msg m).Blank
  loose : ∀ {p m}, p.books.Sound → live p.books → (r.conn p).m_rmsg = some m →
    p.Unqueued m ∧ (r.down p).books.Sound ∧ (r.down p).books.Loose m ∧ p.books.peer m = none
  empty : ∀ m p, (p.msg m).empty = true → Moves.Nothing (r.down p) (r.recvDone m p)
  done : ∀ m p, (p.msg m).m_noforward = false → Moves (req m) (rsp m) (r.down p) (r.recvDone m p)
  again : ∀ (req rsp : Addr → Prop) p, Moves req rsp p (r.recvNext false p).1
  request : ∀ m x, req m x → x = m ∧ ∀ y, ¬ rsp m y
  response : ∀ m x, rsp m x → x = m

/-- A read has no more bytes than there is room for. -/
theorem recv_fits {answer : ReadAnswer} {size : Nat} {conn conn' : NcConn} {bytes : List UInt8}
    (read : conn.recv answer size = (conn', .ok bytes)) : bytes.length ≤ size := by
  cases answer with
  | bytes b =>
      unfold NcConn.recv at read
      dsimp only at read
      split at read
      · cases read
        exact Nat.zero_le size
      · split at read
        · cases read
          exact List.length_take_le ..
        · cases read
          exact List.length_take_le ..
  | again => cases read
  | failed err => cases read

/-- A read that has bytes or ends does not fail. -/
theorem recv_bytes {b : List UInt8} {size : Nat} {conn conn' : NcConn} {status : Int} :
    conn.recv (.bytes b) size ≠ (conn', .error status) := by
  intro read
  unfold NcConn.recv at read
  dsimp only at read
  split at read
  · cases read
  · split at read <;> cases read

namespace Conveys

variable {live fit : Books → Prop} {req rsp : Addr → Addr → Prop} {r : Receiver}
  {heard told : Addr → List UInt8} {p : Proxy} {m : Addr}

/-- What `parse` does with the message: it is dropped if it has no bytes, and is the request or the
response if it has. -/
theorem parse (conveys : Conveys live fit req rsp r) (forward : (p.msg m).m_noforward = false) :
    ((p.msg m).empty = true ∧ Moves.Nothing (r.down p) (Proxy.parse r m p).1) ∨
      ((p.msg m).empty = false ∧ Moves (req m) (rsp m) (r.down p) (Proxy.parse r m p).1) := by
  unfold Proxy.parse
  split
  next empty => exact Or.inl ⟨empty, conveys.empty m p empty⟩
  next full =>
    refine Or.inr ⟨Bool.eq_false_iff.mpr full, ?_⟩
    have looked : r.down ((p.did (.looked .parse (p.msg m).m_mbuf_queue.isEmpty)).did
        (.looked .parseDone (p.msg m).m_mbuf_queue.isEmpty)) =
        ((r.down p).did (.looked .parse (p.msg m).m_mbuf_queue.isEmpty)).did
          (.looked .parseDone (p.msg m).m_mbuf_queue.isEmpty) := by
      unfold Receiver.down
      rw [conveys.putDid, conveys.putDid]
    have done := conveys.done m ((p.did (.looked .parse (p.msg m).m_mbuf_queue.isEmpty)).did
      (.looked .parseDone (p.msg m).m_mbuf_queue.isEmpty)) forward
    rw [looked] at done
    exact ((Moves.did _ _).trans (Moves.did _ _)).trans done

/-- From the read on, the message is dropped, or is the request or the response. -/
theorem received_moves (conveys : Conveys live fit req rsp r) (tail : List NcMbuf × NcMbuf)
    (bytes : List UInt8) (forward : (p.msg m).m_noforward = false) :
    (bytes = [] ∧ Moves.Nothing (r.down (p.putMsg m (NcMsg.fill tail bytes)))
        (Proxy.received r tail.1 tail.2 bytes m p).1) ∨
      (bytes ≠ [] ∧ Moves (req m) (rsp m) (r.down (p.putMsg m (NcMsg.fill tail bytes)))
        (Proxy.received r tail.1 tail.2 bytes m p).1) := by
  have stored : (p.putMsg m (NcMsg.fill tail bytes)).msg m = (p.msg m).fill tail bytes :=
    msg_putMsg ..
  have parsed := conveys.parse (p := p.putMsg m (NcMsg.fill tail bytes)) (m := m) (stored ▸ forward)
  rw [stored] at parsed
  unfold Proxy.received
  change let parsed := Proxy.parse r m (p.putMsg m (NcMsg.fill tail bytes)); _ ∧
    Moves _ _ _ (if parsed.2 = NC_OK then ((r.recvNext false parsed.1).1, NC_OK) else parsed).1 ∨ _ ∧
    Moves _ _ _ (if parsed.2 = NC_OK then ((r.recvNext false parsed.1).1, NC_OK) else parsed).1
  generalize p.putMsg m (NcMsg.fill tail bytes) = q at parsed
  dsimp only
  have ended {req rsp : Addr → Prop} (parsed : Moves req rsp (r.down q) (Proxy.parse r m q).1) :
      Moves req rsp (r.down q) (if (Proxy.parse r m q).2 = NC_OK then
        ((r.recvNext false (Proxy.parse r m q).1).1, NC_OK) else Proxy.parse r m q).1 := by
    split
    · exact parsed.trans (conveys.again req rsp _)
    · exact parsed
  have empty : ((p.msg m).fill tail bytes).empty = (bytes.length == 0) := rfl
  rw [empty] at parsed
  refine parsed.imp (fun ⟨nothing, moves⟩ => ⟨?_, ended moves⟩) fun ⟨full, moves⟩ => ⟨?_, ended moves⟩
  · exact List.length_eq_zero_iff.mp (beq_iff_eq.mp nothing)
  · rintro rfl
    cases full

/-- **What was read is in the message**, wherever it goes. -/
theorem received (conveys : Conveys live fit req rsp r) (faithful : Faithful heard told p)
    (sound : p.books.Sound) (alive : live p.books) (current : (r.conn p).m_rmsg = some m)
    {fresh : NcMbuf} (handed : fresh.FromPool) {bytes : List UInt8}
    (fits : bytes.length ≤ (tailMbuf fresh (p.msg m).m_mbuf_queue).2.size) :
    Faithful (Function.update heard m bytes) (Function.update told m [])
      (Proxy.received r (tailMbuf fresh (p.msg m).m_mbuf_queue).1
        (tailMbuf fresh (p.msg m).m_mbuf_queue).2 bytes m p).1 := by
  have fills (some : bytes ≠ []) :=
    (conveys.blank faithful alive current).read handed some fits
  generalize tailMbuf fresh (p.msg m).m_mbuf_queue = tail at fills
  have within : Books.Within False p.books (Proxy.received r tail.1 tail.2 bytes m p).1.books :=
    conveys.handles.received sound alive current tail.1 tail.2 fun _ => conveys.fits _
  have kept := sound.within within
  obtain ⟨-, sound', loose, alone⟩ := conveys.loose sound alive current
  have msgs : (r.down p).msg m = p.msg m := conveys.msg ..
  obtain ⟨unqueued, unreceived⟩ := unqueued_of_loose sound' loose (msgs ▸ alone)
  have forward : (p.msg m).m_noforward = false := by
    obtain ⟨place, agrees⟩ := sound'
    rw [← msgs]
    exact (NcMsg.plain_iff.mp (agrees.plain m loose.made)).2
  -- The message is put down before anything is done with it.
  have moves := conveys.received_moves tail bytes forward
  rw [show r.down (p.putMsg m (NcMsg.fill tail bytes)) =
    (r.down p).putMsg m (NcMsg.fill tail bytes) from conveys.putMsg ..] at moves
  have filled : Faithful (Function.update heard m bytes) (Function.update told m [])
      ((r.down p).putMsg m (NcMsg.fill tail bytes)) := by
    refine (faithful.quiet sound' (conveys.lower p)).write unqueued rfl (fun x other => ?_) ?_
    · exact ⟨Function.update_of_ne other .., Function.update_of_ne other ..⟩
    · rintro (⟨c, isOpen, received⟩ | ⟨s, received⟩)
      · exact absurd received (unreceived.1 c isOpen)
      · exact absurd received (unreceived.2 s)
  have holds : ((r.down p).putMsg m (NcMsg.fill tail bytes)).msg m = (p.msg m).fill tail bytes := by
    rw [msg_putMsg, msgs]
  have whole : Function.update heard m bytes m = bytes := Function.update_self ..
  rcases moves with ⟨-, nothing⟩ | ⟨some, moves⟩
  · exact filled.quiet kept nothing
  refine filled.moves moves kept (fun x isReq => ?_) fun x isRsp => ?_
  · obtain ⟨rfl, noResponse⟩ := conveys.request m x isReq
    rw [whole, holds]
    exact ⟨fills some, alone, noResponse⟩
  · obtain rfl := conveys.response m x isRsp
    rw [whole, holds]
    exact ⟨Function.update_self .., fills some, fun c isOpen => (loose.client c isOpen).2⟩

/-- A read leaves the messages and the queues. -/
theorem reads (conveys : Conveys live fit req rsp r) {conn : NcConn} (act : Act)
    (desk : conn.desk = (r.conn p).desk) :
    (r.put (fun _ => conn) (p.did act)).books = (p.did act).books ∧
      Moves.Nothing p (r.put (fun _ => conn) (p.did act)) := by
  have desk' : conn.desk = (r.conn (p.did act)).desk := by rw [conveys.look, desk]
  exact ⟨conveys.handles.put (fun _ => conn) _ desk',
    (Moves.did act p).trans (conveys.put (fun _ => conn) _ desk')⟩

/-- **`recvChain`** keeps what was read. -/
theorem recvChain (conveys : Conveys live fit req rsp r) (faithful : Faithful heard told p)
    (sound : p.books.Sound) (alive : live p.books) (current : (r.conn p).m_rmsg = some m)
    {fresh : NcMbuf} (handed : fresh.FromPool) {answer : ReadAnswer}
    (supplied : fresh.size = 0 → ∃ b, answer = .bytes b) :
    match ((r.conn p).recv answer (tailMbuf fresh (p.msg m).m_mbuf_queue).2.size).2 with
    | .ok bytes => Faithful (Function.update heard m bytes) (Function.update told m [])
        (Proxy.recvChain r fresh answer m p).1
    | .error _ => Faithful heard told (Proxy.recvChain r fresh answer m p).1 := by
  have desk := recv_desk answer (tailMbuf fresh (p.msg m).m_mbuf_queue).2.size (r.conn p)
  have look (act : Act) : r.conn (p.did act) = r.conn p := conveys.look act p
  have blank := conveys.blank faithful alive current
  cases read : (r.conn p).recv answer (tailMbuf fresh (p.msg m).m_mbuf_queue).2.size with
  | mk conn result =>
  rw [read] at desk
  obtain ⟨books, moves⟩ := conveys.reads
    (.looked .recvChain (p.msg m).m_mbuf_queue.isEmpty) desk
  have sound' : (p.did (.looked .recvChain (p.msg m).m_mbuf_queue.isEmpty)).books.Sound := sound
  rw [← books] at sound'
  have msgs := conveys.msg (fun _ => conn)
    (p.did (.looked .recvChain (p.msg m).m_mbuf_queue.isEmpty)) m
  have current' := (conveys.handles.conn p _ books).trans current
  have alive' : live (p.did (.looked .recvChain (p.msg m).m_mbuf_queue.isEmpty)).books := alive
  rw [← books] at alive'
  cases result with
  | ok bytes =>
      rw [recvChain_ok look rfl read]
      generalize r.put (fun _ => conn) (p.did (.looked .recvChain
        (p.msg m).m_mbuf_queue.isEmpty)) = q at moves sound' msgs current' alive' ⊢
      rw [msg_did] at msgs
      rw [← msgs] at read ⊢
      exact conveys.received (faithful.quiet sound' moves) sound' alive' current' handed
        (recv_fits read)
  | error status =>
      have room : 0 < (tailMbuf fresh (p.msg m).m_mbuf_queue).2.size := by
        rcases (blank.tail handed).2.1 with isFresh | room
        · rw [isFresh]
          refine Nat.pos_of_ne_zero fun nothing => ?_
          obtain ⟨b, rfl⟩ := supplied nothing
          exact recv_bytes read
        · exact room
      rw [recvChain_error look rfl read]
      generalize r.put (fun _ => conn) (p.did (.looked .recvChain
        (p.msg m).m_mbuf_queue.isEmpty)) = q at moves sound' msgs current' alive' ⊢
      rw [msg_did] at msgs
      obtain ⟨unqueued, -⟩ := conveys.loose sound' alive' current'
      refine (faithful.quiet sound' moves).write unqueued rfl (fun _ _ => ⟨rfl, rfl⟩) fun _ => ?_
      rw [msgs]
      exact blank.stays handed room

/-- **A turn of `recvMsg`** keeps what was read. -/
theorem recvTurn (conveys : Conveys live fit req rsp r) (faithful : Faithful heard told p)
    (sound : p.books.Sound) (alive : live p.books) {fresh : NcMbuf} (handed : fresh.FromPool)
    {answer : ReadAnswer} (supplied : fresh.size = 0 → ∃ b, answer = .bytes b) :
    Faithful (Tapped.hear (heardBy r fresh answer p) ⟨p, heard, told⟩).heard
      (Tapped.hear (heardBy r fresh answer p) ⟨p, heard, told⟩).told
      (Proxy.recvTurn r fresh answer p).1 := by
  obtain ⟨within, received⟩ := conveys.handles.next true p sound alive
  have taken := conveys.next faithful sound alive
  unfold heardBy Proxy.recvTurn
  generalize r.recvNext true p = next at within received taken ⊢
  obtain ⟨q, _ | m⟩ := next
  · exact taken
  have chain := conveys.recvChain taken (sound.within within)
    (conveys.handles.keeps _ _ within.frame alive) (received m rfl) handed supplied
  dsimp only at chain ⊢
  cases read : ((r.conn q).recv answer (tailMbuf fresh (q.msg m).m_mbuf_queue).2.size).2 with
  | ok bytes =>
      rw [read] at chain
      exact chain
  | error status =>
      rw [read] at chain
      exact chain

end Conveys

theorem clientReceiver_conveys (choice : Choice) (sys : ForwardAnswers) (c : Addr) :
    Conveys (fun b => c ∈ b.live) (fun _ => True) Eq (fun _ _ => False)
      (clientReceiver choice.pick sys c) where
  handles := clientReceiver_handles choice sys c
  fits _ := trivial
  look _ _ := rfl
  put f p same := by
    refine .ofClient c (Or.inl ?_) ?_
    · exact congrArg Desk.rmsg same
    · exact congrArg Desk.omsg same
  msg _ _ _ := rfl
  putMsg _ _ _ _ := rfl
  putDid _ _ _ := rfl
  lower p := .putDown c p
  next {heard told p} faithful sound isOpen := by
    have within : Books.Within False p.books (p.clientRecvNext c true).1.books :=
      (clientRecvNext_within true sound isOpen).1
    have kept := sound.within within
    have moves : Moves.Nothing p (p.clientRecvNext c false).1 := .clientRecvNext c p
    show Faithful heard told (p.clientRecvNext c true).1
    unfold clientRecvNext at kept moves ⊢
    split
    next eof =>
      rw [if_pos eof] at kept moves
      exact faithful.quiet kept moves
    next more =>
      rw [if_neg more] at kept moves
      cases received : (p.client c).m_rmsg with
      | some m => exact faithful
      | none =>
          rw [received] at kept
          obtain ⟨taken, empty, -⟩ := faithful.alloc sound
          refine (taken.takeClient (c := c) empty).quiet kept (.flag p.allocMsg.2 ?_ ?_ _)
          · exact fun _ => rfl
          · exact fun _ => rfl
  blank faithful isOpen received := faithful.asking c isOpen _ received
  loose {p m} sound isOpen received := by
    obtain ⟨place, agrees⟩ := sound
    obtain ⟨loose, alone⟩ := agrees.loose_putDown isOpen received
    have placed := (agrees.client c isOpen).asking m received
    have down : ((clientReceiver choice.pick sys c).down p).books = p.books.putDown c :=
      books_putDown c p
    rw [down]
    exact ⟨unqueued_of_place agrees placed nofun nofun nofun, ⟨place, agrees.putDown⟩, loose, alone⟩
  empty m _ empty := .clientRecvDone_empty c m choice.pick sys empty
  done m _ forward := .clientRecvDone c m choice sys rfl forward
  again _ _ p := .clientRecvNext c p
  request _ _ same := ⟨same.symm, fun _ => id⟩
  response _ _ := False.elim

theorem serverReceiver_conveys (sys : ForwardAnswers) (s : Addr) :
    Conveys (fun _ => True) (fun b => False → (b.server s).omsg ≠ []) (fun _ _ => False)
      Eq (serverReceiver sys s) where
  handles := serverReceiver_handles sys s
  fits _ := False.elim
  look _ _ := rfl
  put f p same := by
    refine .putServer s (Or.inl ?_) fun m inside => Or.inl ?_
    · exact congrArg Desk.rmsg same
    · rwa [show (f (p.server s)).m_imsg_q = (p.server s).m_imsg_q from
        congrArg Desk.imsg same] at inside
  msg _ _ _ := rfl
  putMsg _ _ _ _ := rfl
  putDid _ _ _ := rfl
  lower p := .putDownServer s p
  next {heard told p} faithful sound _ := by
    have within : Books.Within False p.books (p.serverRecvNext s true).1.books :=
      (serverRecvNext_within true sound).1
    have kept := sound.within within
    have moves : Moves.Nothing p (p.serverRecvNext s false).1 := .serverRecvNext s p
    show Faithful heard told (p.serverRecvNext s true).1
    unfold serverRecvNext at kept moves ⊢
    split
    next eof =>
      rw [if_pos eof] at kept moves
      exact faithful.quiet kept moves
    next more =>
      rw [if_neg more] at kept moves
      cases received : (p.server s).m_rmsg with
      | some m => exact faithful
      | none =>
          obtain ⟨taken, empty, -⟩ := faithful.alloc sound
          exact taken.takeServer (s := s) empty
  blank faithful _ received := faithful.answering s _ received
  loose {p m} sound _ received := by
    obtain ⟨place, agrees⟩ := sound
    obtain ⟨loose, alone⟩ := agrees.loose_putDownServer received
    have placed := (agrees.server s).answering m received
    have down : ((serverReceiver sys s).down p).books = p.books.putDownServer s :=
      books_putDownServer s p
    rw [down]
    exact ⟨unqueued_of_place agrees placed nofun nofun nofun, ⟨place, agrees.putDownServer⟩, loose,
      alone⟩
  empty m _ empty := .serverRecvDone_empty s m sys empty
  done m p _ := .serverRecvDone s m sys rfl p
  again _ _ p := .serverRecvNext s p
  request _ _ := False.elim
  response _ _ same := same.symm

/-! ### A turn of `sendMsg` of a client -/

section Sent

variable {delOutput : Option Int} {rsp pmsg : Addr} {rest : List Addr} {conn : NcConn}

variable (delOutput) in
/-- The gather loop finds the bytes of one response. -/
theorem gather_bears {mem : Addr → NcMsg} {x : List UInt8} (queue : conn.m_omsg_q = pmsg :: rest)
    (sending : conn.m_smsg ≠ none) (bears : (mem rsp).Bears x) :
    ∃ g smsg,
      NcConn.gather (NcClientConn.nextOf delOutput mem) mem rsp 2 rsp ⟨conn, [], [], 0⟩ = .ok g ∧
      g.send_msgq = [rsp] ∧ g.conn = { conn with m_smsg := smsg } ∧
      g.iov.flatMap IoVec.bytes = x := by
  obtain ⟨mbuf, one, valid, content⟩ := bears.queue
  have fits : ([] : List IoVec).length + (NcConn.segments rsp (mem rsp).m_mbuf_queue).length ≤
      NC_IOV_MAX := by
    have short : (NcConn.segments rsp (mem rsp).m_mbuf_queue).length ≤ 1 := by
      unfold NcConn.segments
      rw [one, List.length_map]
      exact List.length_filter_le ..
    exact Nat.le_trans (Nat.le_trans (Nat.le_of_eq (Nat.zero_add _)) short) (by decide)
  have all : ∀ b ∈ (mem rsp).m_mbuf_queue, b.Valid := fun b inside => by
    rw [one] at inside
    rw [List.mem_singleton.mp inside]
    exact valid
  have bytes : ((NcConn.segments rsp (mem rsp).m_mbuf_queue).flatMap IoVec.bytes) = x := by
    rw [NcConn.bytes_segments rsp all]
    unfold NcConn.unsent
    rw [one, List.flatMap_singleton, content]
  have again : NcClientConn.nextOf delOutput mem 1 conn = ({ conn with m_smsg := none }, none) :=
    NcClientConn.sendNext_sending queue sending
  obtain ⟨turn, adds', same, single, iov⟩ : ∃ turn : Gathering,
      NcConn.addMbufs rsp (mem rsp).m_mbuf_queue ⟨conn, [rsp], [], 0⟩ = .ok turn ∧
        turn.conn = conn ∧ turn.send_msgq = [rsp] ∧ turn.iov.flatMap IoVec.bytes = x :=
    ⟨_, NcConn.addMbufs_fits all ⟨rfl, nofun⟩ fits, rfl, rfl, bytes⟩
  unfold NcConn.gather
  rw [List.nil_append, adds']
  by_cases full : NC_IOV_MAX ≤ turn.iov.length ∨ SSIZE_MAX < turn.nsend
  · exact ⟨turn, conn.m_smsg, if_pos full, single, same, iov⟩
  · refine ⟨{ turn with conn := { conn with m_smsg := none } }, none, (if_neg full).trans ?_, single,
      rfl, iov⟩
    rw [single, same, List.length_singleton, again]
    rfl

variable (delOutput) in
/-- **`sendChain` takes bytes from the front of one response**, and writes these. -/
theorem sendChain_bears {msg_pool : NcObjectPool NcMsg} {x : List UInt8}
    (answer : NcConn.SendvAnswer) (queue : conn.m_omsg_q = pmsg :: rest)
    (sending : conn.m_smsg ≠ none) (bears : (msg_pool.mem rsp).Bears x) :
    ∃ nsent ready err status,
      NcConn.sendChain (NcClientConn.nextOf delOutput msg_pool.mem) NcClientConn.sendDone answer 2 rsp
        ⟨conn, msg_pool⟩ = .ok (NcConn.accounted NcClientConn.sendDone rsp nsent
          ⟨{ conn with m_smsg := none, m_send_ready := ready, m_err := err }, msg_pool⟩, status,
          x.take nsent) := by
  obtain ⟨g, smsg, gathers, single, same, bytes⟩ :=
    gather_bears delOutput queue sending bears
  obtain ⟨ready, err, sent⟩ := NcConn.sent_eq answer g
  refine ⟨(NcConn.sent answer g).2.toNat, ready, err, NcConn.chainStatus (NcConn.sent answer g).2, ?_⟩
  rw [NcConn.sendChain_one (s := ⟨conn, msg_pool⟩) NcClientConn.sendDone answer gathers single, sent,
    same, bytes]

/-- The accounting of a response with bytes: none was written, all of them were, or some. -/
theorem accounted_bears (sending : NcConn.Sending) {x : List UInt8} (n : Nat)
    (bears : (sending.msg_pool.mem rsp).Bears x) :
    (n = 0 ∧ NcConn.accounted NcClientConn.sendDone rsp n sending = sending) ∨
      (x.length ≤ n ∧ NcConn.accounted NcClientConn.sendDone rsp n sending =
        NcClientConn.sendDone rsp { sending with msg_pool := sending.msg_pool.put rsp fun msg =>
          { msg with m_mbuf_queue :=
            (NcConn.consume n (sending.msg_pool.mem rsp).m_mbuf_queue).2.1 } }) ∨
      (NcConn.accounted NcClientConn.sendDone rsp n sending =
        { sending with msg_pool := sending.msg_pool.put rsp fun msg =>
          { msg with m_mbuf_queue :=
            (NcConn.consume n (sending.msg_pool.mem rsp).m_mbuf_queue).2.1 } }) := by
  have all := (bears.consume n).2
  unfold NcConn.accounted
  by_cases none : n = 0
  · rw [if_pos none, if_neg bears.mlen]
    exact Or.inl ⟨none, rfl⟩
  · rw [if_neg none]
    refine Or.inr ?_
    dsimp only
    split
    next every => exact Or.inl ⟨all.mp every, rfl⟩
    next => exact Or.inr rfl

/-- **What a turn of `sendMsg` of a client writes**: nothing, or bytes from the front of the response
to the first request. -/
theorem clientSendTurn_told {p q : Proxy} {c : Addr} {answer : NcConn.SendvAnswer}
    (linked : ∀ m ∈ (p.client c).m_omsg_q, ∀ r, (p.msg m).m_peer = some r → ∃ x, (p.msg r).Bears x)
    (turn : p.clientSendTurn c delOutput answer = .ok q) :
    (toldBy c delOutput answer p = none ∧
      (NcClientConn.sendNext delOutput p.msg_pool.mem (p.client c)).2 = none ∧
      q = (p.did (.looked .clientSendNext (p.client c).m_omsg_q.isEmpty)).putClient c fun _ =>
        (NcClientConn.sendNext delOutput p.msg_pool.mem (p.client c)).1) ∨
    ∃ rsp pmsg rest x nsent ready err, (p.client c).m_omsg_q = pmsg :: rest ∧
      (p.msg pmsg).m_peer = some rsp ∧ (p.msg rsp).Bears x ∧
      toldBy c delOutput answer p = some (rsp, x.take nsent) ∧
      let s := NcConn.accounted NcClientConn.sendDone rsp nsent
        ⟨{ p.client c with m_smsg := none, m_send_ready := ready, m_err := err }, p.msg_pool⟩
      let t := ({ p.did (.looked .clientSendNext (p.client c).m_omsg_q.isEmpty) with
        msg_pool := s.msg_pool }.putClient c fun _ => s.conn).did (.handed c rsp)
      (s.conn.m_omsg_q = (p.client c).m_omsg_q ∧ q = t) ∨
        (s.conn.m_omsg_q ≠ (p.client c).m_omsg_q ∧ q = t.did (.completed c rsp)) := by
  unfold clientSendTurn at turn
  unfold toldBy
  dsimp only at turn ⊢
  rw [show (p.did (.looked .clientSendNext (p.client c).m_omsg_q.isEmpty)).msg_pool = p.msg_pool from
    rfl, client_did] at turn
  cases next : NcClientConn.sendNext delOutput p.msg_pool.mem (p.client c) with
  | mk conn result =>
  rw [next] at turn
  cases result with
  | none => exact Or.inl ⟨rfl, rfl, (Except.ok.inj turn).symm⟩
  | some rsp =>
      obtain ⟨pmsg, rest, queue, -, peer, cursor⟩ := NcClientConn.sendNext_some next
      obtain ⟨x, bears⟩ := linked pmsg (queue ▸ List.mem_cons_self) rsp peer
      have queue' : conn.m_omsg_q = (p.client c).m_omsg_q := by rw [cursor]
      obtain ⟨nsent, ready, err, status, chain⟩ := sendChain_bears delOutput answer
        (queue'.trans queue) (by rw [cursor]; exact Option.some_ne_none rsp) bears
      rw [cursor] at chain
      subst cursor
      dsimp only at turn ⊢
      rw [chain] at turn ⊢
      refine Or.inr ⟨rsp, pmsg, rest, x, nsent, ready, err, queue, peer, bears, rfl, ?_⟩
      change (if _ then _ else _) = _ at turn
      split at turn
      next kept => exact Or.inl ⟨kept, (Except.ok.inj turn).symm⟩
      next left => exact Or.inr ⟨left, (Except.ok.inj turn).symm⟩

/-- Between the two, the sending of this response to this client was completed. -/
def Completes (p q : Proxy) (c rsp : Addr) : Prop :=
  ∃ acts, q.acts = acts ++ p.acts ∧ .completed c rsp ∈ acts

theorem completes_iff {p q : Proxy} {c r : Addr} (acts : List Act) (same : q.acts = acts ++ p.acts) :
    Completes p q c r ↔ .completed c r ∈ acts := by
  refine ⟨fun ⟨acts', same', inside⟩ => ?_, fun inside => ⟨acts, same, inside⟩⟩
  rwa [List.append_cancel_right (same'.symm.trans same)] at inside

/-- A turn that accounts for a response: what follows is noted, and it is completed if its request left
the queue. -/
theorem turn_accounted {p q : Proxy} {c : Addr} {s : NcConn.Sending}
    (final : let t := ({ p.did (.looked .clientSendNext (p.client c).m_omsg_q.isEmpty) with
        msg_pool := s.msg_pool }.putClient c fun _ => s.conn).did (.handed c rsp)
      (s.conn.m_omsg_q = (p.client c).m_omsg_q ∧ q = t) ∨
        (s.conn.m_omsg_q ≠ (p.client c).m_omsg_q ∧ q = t.did (.completed c rsp))) :
    Moves.Nothing ({ p with msg_pool := s.msg_pool }.putClient c fun _ => s.conn) q ∧
      ∀ d r, Completes p q d r → r = rsp ∧ s.conn.m_omsg_q ≠ (p.client c).m_omsg_q := by
  rcases final with ⟨-, final⟩ | ⟨left, final⟩
  · refine ⟨?_, fun d r completes => ?_⟩
    · rw [final]
      exact { (Moves.refl _ : Moves.Nothing _ ({ p with
        msg_pool := s.msg_pool }.putClient c fun _ => s.conn)) with msgs := .refl _ }
    · rw [completes_iff [.handed c rsp, .looked .clientSendNext
        (p.client c).m_omsg_q.isEmpty] (by rw [final]; rfl)] at completes
      simp at completes
  · refine ⟨?_, fun d r completes => ?_⟩
    · rw [final]
      exact { (Moves.refl _ : Moves.Nothing _ ({ p with
        msg_pool := s.msg_pool }.putClient c fun _ => s.conn)) with msgs := .refl _ }
    · rw [completes_iff [.completed c rsp, .handed c rsp, .looked .clientSendNext
        (p.client c).m_omsg_q.isEmpty] (by rw [final]; rfl)] at completes
      have same : d = c ∧ r = rsp := by simpa using completes
      exact ⟨same.2, left⟩

/-- **A turn of `sendMsg` of a client** writes from the front of a response, and completes it with its
last byte. -/
theorem Faithful.clientSend {heard told : Addr → List UInt8} {p q : Proxy} {c : Addr}
    {answer : NcConn.SendvAnswer} (faithful : Faithful heard told p) (sound : p.books.Sound)
    (isOpen : p.Open c) (turn : p.clientSendTurn c delOutput answer = .ok q) :
    Faithful (Tapped.tell (toldBy c delOutput answer p) ⟨p, heard, told⟩).heard
      (Tapped.tell (toldBy c delOutput answer p) ⟨p, heard, told⟩).told q ∧
    ∀ d r, Completes p q d r → (Tapped.tell (toldBy c delOutput answer p) ⟨p, heard, told⟩).told r =
      heard r := by
  have stepped : Books.Step False p.books q.books := clientSend_step sound isOpen turn
  have kept := sound.step stepped
  have idle : (p.client c).m_smsg = none := by
    obtain ⟨place, agrees⟩ := sound
    exact (agrees.client c isOpen).smsg
  rcases clientSendTurn_told (fun m inside r peer =>
      (faithful.linked c isOpen m inside r peer).imp fun _ => And.right) turn with
    ⟨nothing, none, final⟩ | ⟨rsp, pmsg, rest, x, n, ready, err, queue, peer, bears, writes, final⟩
  · rw [nothing]
    refine ⟨faithful.quiet kept ?_, fun d r completes => ?_⟩
    · rw [final]
      have desk := clientSendNext_desk idle none
      refine (Moves.did _ p).trans (.ofClient c (Or.inl ?_) ?_)
      · exact congrArg Desk.rmsg desk
      · exact congrArg Desk.omsg desk
    · rw [completes_iff [.looked .clientSendNext (p.client c).m_omsg_q.isEmpty]
        (by rw [final]; rfl)] at completes
      cases List.mem_singleton.mp completes
  · have inside : pmsg ∈ (p.client c).m_omsg_q := queue ▸ List.mem_cons_self
    obtain ⟨left, whole, bears'⟩ := faithful.linked c isOpen pmsg inside rsp peer
    obtain rfl : x = left := bears.content.symm.trans bears'.content
    have written := faithful.tell sound isOpen inside peer n whole bears
    rw [writes]
    show Faithful heard (Function.update told rsp (told rsp ++ x.take n)) q ∧
      ∀ d r, Completes p q d r → Function.update told rsp (told rsp ++ x.take n) r = heard r
    obtain ⟨moves, completed⟩ := turn_accounted final
    rcases accounted_bears ⟨{ p.client c with
        m_smsg := none, m_send_ready := ready, m_err := err }, p.msg_pool⟩ n bears with
      ⟨rfl, same⟩ | ⟨every, same⟩ | same
    · rw [same] at moves completed
      rw [List.take_zero, List.append_nil, Function.update_eq_self]
      exact ⟨faithful.quiet kept ((Moves.ofClient c (Or.inl rfl) rfl).trans moves),
        fun d r completes => absurd rfl (completed d r completes).2⟩
    · rw [same] at moves completed
      refine ⟨written.quiet kept (Moves.trans (.clientSendDone c rsp { p.client c with
        m_smsg := none, m_send_ready := ready, m_err := err } rfl rfl) moves),
        fun d r completes => ?_⟩
      rw [(completed d r completes).1, Function.update_self, List.take_of_length_le every, whole]
    · rw [same] at moves completed
      exact ⟨written.quiet kept ((Moves.ofClient c (Or.inl rfl) rfl).trans moves),
        fun d r completes => absurd rfl (completed d r completes).2⟩

end Sent

/-! ### Runs -/

section Runs

variable {heard told : Addr → List UInt8} {p q : Proxy} {rlim_cur : UInt64}

/-- At the start there are no messages. -/
theorem Faithful.start (start : Start rlim_cur p) : Faithful heard told p := by
  obtain ⟨mem, current, msg_pool⟩ := start.msg_pool
  have live (c : Addr) : ¬ p.Open c := by
    unfold Open
    rw [start.c_conn_q]
    exact List.not_mem_nil
  refine ⟨fun m isFree => ?_, fun c isOpen => absurd isOpen (live c), fun s m received => ?_,
    fun s m inside => ?_, fun c isOpen => absurd isOpen (live c)⟩
  · rw [msg_pool] at isFree
    exact absurd isFree List.not_mem_nil
  · cases (start.s_conns s).rmsg.symm.trans received
  · rw [(start.s_conns s).imsg_q] at inside
    exact absurd inside List.not_mem_nil

/-- A client that is accepted has no messages. -/
theorem Faithful.enroll (faithful : Faithful heard told p) (sound : p.books.Sound)
    (counted : Counted p) (clean : p.Clean) (sd : Int) : Faithful heard told (p.enroll sd) := by
  obtain ⟨rest, enrolled, -⟩ := enroll_books sd sound counted clean
  have client (c : Addr) : ((p.enroll sd).client c).desk =
      (p.books.enter p.nextClient sd rest).client c := by
    rw [← enrolled]
    rfl
  have bare : ((p.enroll sd).client p.nextClient).desk = .bare := by
    rw [client]
    exact Function.update_self ..
  have other {c : Addr} (different : c ≠ p.nextClient) :
      ((p.enroll sd).client c).desk = (p.client c).desk := by
    rw [client]
    exact Function.update_of_ne different ..
  have before {c : Addr} (isOpen : (p.enroll sd).Open c) (different : c ≠ p.nextClient) : p.Open c :=
    (List.mem_append.mp isOpen).resolve_right fun new => different (List.mem_singleton.mp new)
  refine ⟨faithful.free, fun c isOpen m received => ?_, faithful.answering, faithful.waiting,
    fun c isOpen m inside => ?_⟩
  · by_cases isNew : c = p.nextClient
    · rw [isNew] at received
      cases (congrArg Desk.rmsg bare).symm.trans received
    · exact faithful.asking c (before isOpen isNew) m
        ((congrArg Desk.rmsg (other isNew)).symm.trans received)
  · by_cases isNew : c = p.nextClient
    · rw [isNew, show ((p.enroll sd).client p.nextClient).m_omsg_q = [] from
        congrArg Desk.omsg bare] at inside
      exact absurd inside List.not_mem_nil
    · rw [show ((p.enroll sd).client c).m_omsg_q = (p.client c).m_omsg_q from
        congrArg Desk.omsg (other isNew)] at inside
      exact faithful.linked c (before isOpen isNew) m inside

/-- **Every event keeps what was read.** -/
theorem Faithful.step {w : Tapped} {event : ProxyEvent}
    (faithful : Faithful w.heard w.told w.proxy) (sound : w.proxy.books.Sound)
    (counted : Counted w.proxy) (safe : Safe w.proxy event) (supplied : Supplied event)
    (step : Step w.proxy event q) :
    Faithful (w.listen event).heard (w.listen event).told q := by
  have stepped : Books.Step False w.proxy.books q.books :=
    books_step sound counted safe False.elim step
  have kept := sound.step stepped
  obtain ⟨p, heard, told⟩ := w
  cases event with
  | accept answer =>
      obtain ⟨-, rfl⟩ := step
      cases answer with
      | failed => exact faithful
      | descriptor sd setNonBlocking addConn =>
          unfold accept at kept ⊢
          dsimp only at kept ⊢
          split
          · exact faithful
          next room =>
            rw [if_neg room] at kept
            have enrolled := faithful.enroll sound counted (safe.resolve_left room) sd
            split
            · exact enrolled
            next fails =>
              rw [if_neg fails] at kept
              exact enrolled.quiet kept (.close _ _)
  | clientRecv c choice sys fresh answer =>
      obtain ⟨isOpen, rfl⟩ := step
      exact (clientReceiver_conveys choice sys c).recvTurn faithful sound isOpen supplied.1 supplied.2
  | clientSend c delOutput answer => exact (faithful.clientSend sound step.1 step.2).1
  | clientClose c =>
      obtain ⟨-, rfl⟩ := step
      exact faithful.quiet kept (.close c p)
  | serverRecv s sys fresh answer =>
      obtain ⟨-, rfl⟩ := step
      exact (serverReceiver_conveys sys s).recvTurn faithful sound trivial supplied.1 supplied.2
  | serverSend s sys done =>
      obtain ⟨-, -, rfl⟩ := step
      exact faithful.quiet kept (.serverSendTurn s sys done p)
  | serverClose s =>
      obtain ⟨-, rfl⟩ := step
      exact faithful.quiet kept (.did _ p)

variable {w w' : Tapped} {event : ProxyEvent}

/-- A step with its record. -/
theorem tapped_next (reached : (tappedRuns rlim_cur).Reach w) (step : Step w.proxy event q)
    (safe : Safe w.proxy event) (supplied : Supplied event) :
    (tappedRuns rlim_cur).Reach { w.listen event with proxy := q } :=
  reached.next ⟨safe, supplied, step, rfl⟩

/-- The proxy does what it does without the record. -/
theorem untapped (reached : (tappedRuns rlim_cur).Reach w) :
    ((proxyRuns rlim_cur).guarded Safe).Reach w.proxy := by
  refine reached.invariant (I := fun w => ((proxyRuns rlim_cur).guarded Safe).Reach w.proxy)
    (fun w (initial : Start rlim_cur w.proxy ∧ _) => ?_) fun w event w' _ before step => ?_
  · exact System.Reach.start (show Start rlim_cur w.proxy from initial.1)
  · exact before.next ⟨step.1, step.2.2.1⟩

theorem faithful_run (reached : (tappedRuns rlim_cur).Reach w) :
    Faithful w.heard w.told w.proxy := by
  refine reached.invariant (I := fun w => Faithful w.heard w.told w.proxy)
    (fun w (initial : Start rlim_cur w.proxy ∧ _) => .start initial.1)
    fun w event w' inner faithful step => ?_
  obtain ⟨safe, supplied, step, same⟩ := step
  have before := untapped inner
  rw [same]
  exact faithful.step (sound_run before) (Counted.run before.of_guarded) safe supplied step

/-- **A response that is completed was written as it was read**, with nothing left out or added. -/
theorem completed_whole {c d r : Addr} {delOutput : Option Int} {answer : NcConn.SendvAnswer}
    (reached : (tappedRuns rlim_cur).Reach w)
    (step : (tappedRuns rlim_cur).step w (.clientSend c delOutput answer) w')
    (completes : Completes w.proxy w'.proxy d r) : w'.told r = w'.heard r := by
  obtain ⟨-, -, step, same⟩ := step
  have sent := (faithful_run reached).clientSend (sound_run (untapped reached)) step.1 step.2
  have heard : w'.heard = w.heard := by
    rw [same]
    show (w.tell (toldBy c delOutput answer w.proxy)).heard = w.heard
    unfold Tapped.tell
    split <;> rfl
  rw [heard, ← sent.2 d r completes, same]
  rfl

end Runs

/-! ### One request -/

def tappedStart : Tapped := ⟨atStart 1024, fun _ => [], fun _ => []⟩

def tappedAccepted : Tapped :=
  { tappedStart.listen (.accept (.descriptor 5 true true)) with proxy := clientAccepted }

/-- The request of the byte 7 was read. -/
def tappedRead : Tapped :=
  { tappedAccepted.listen (.clientRecv 0 (.index 0) ⟨0, none, none⟩ freshMbuf (.bytes [7])) with
    proxy := firstRead }

def tappedSent : Tapped :=
  { tappedRead.listen (.serverSend 0 ⟨.inProgress 4, none⟩ (some 0)) with proxy := firstSent }

/-- The response of the byte 8 was read. -/
def tappedAnswered : Tapped :=
  { tappedSent.listen (.serverRecv 0 ⟨0, none, none⟩ freshMbuf (.bytes [8])) with
    proxy := firstAnswered }

/-- It was sent. -/
def tappedHanded : Tapped :=
  { tappedAnswered.listen (.clientSend 0 none (.wrote 1)) with proxy := firstHanded }

theorem reach_tappedAnswered : (tappedRuns 1024).Reach tappedAnswered := by
  have fresh : freshMbuf.FromPool := Or.inl ⟨_, _, rfl⟩
  have room : freshMbuf.size ≠ 0 := by decide
  have accept : Step (atStart 1024) (.accept (.descriptor 5 true true)) clientAccepted :=
    step_clientAccepted
  have read : Step clientAccepted (.clientRecv 0 (.index 0) ⟨0, none, none⟩ freshMbuf (.bytes [7]))
      firstRead := ⟨List.mem_cons_self, rfl⟩
  have send : Step firstRead (.serverSend 0 ⟨.inProgress 4, none⟩ (some 0)) firstSent :=
    ⟨by decide, by decide, rfl⟩
  have answer : Step firstSent (.serverRecv 0 ⟨0, none, none⟩ freshMbuf (.bytes [8])) firstAnswered :=
    ⟨by decide, rfl⟩
  have start : (tappedRuns 1024).Reach tappedStart := .start ⟨start_atStart 1024, rfl, rfl⟩
  have accepted : (tappedRuns 1024).Reach tappedAccepted :=
    tapped_next start accept (Or.inr nofun) trivial
  have isRead : (tappedRuns 1024).Reach tappedRead :=
    tapped_next accepted read trivial ⟨fresh, fun none => absurd none room⟩
  have sent : (tappedRuns 1024).Reach tappedSent := tapped_next isRead send trivial trivial
  exact tapped_next sent answer trivial ⟨fresh, fun none => absurd none room⟩

theorem proxy_tappedAnswered : tappedAnswered.proxy = firstAnswered := by
  dsimp only [tappedAnswered]

theorem proxy_tappedHanded : tappedHanded.proxy = firstHanded := by
  dsimp only [tappedHanded]

theorem completed_whole_tappedHanded : tappedHanded.told 1 = tappedHanded.heard 1 := by
  have hand : Step tappedAnswered.proxy (.clientSend 0 none (.wrote 1)) firstHanded := by
    rw [proxy_tappedAnswered]
    exact ⟨by decide, rfl⟩
  have step : (tappedRuns 1024).step tappedAnswered (.clientSend 0 none (.wrote 1)) tappedHanded :=
    ⟨trivial, trivial, proxy_tappedHanded ▸ hand, rfl⟩
  have completes : Completes tappedAnswered.proxy tappedHanded.proxy 0 1 := by
    rw [proxy_tappedAnswered, proxy_tappedHanded]
    exact ⟨[.completed 0 1, .handed 0 1, .looked .clientSendNext false], by decide,
      List.mem_cons_self⟩
  exact completed_whole reach_tappedAnswered step completes

example : tappedHanded.heard 1 = [8] ∧ tappedHanded.told 1 = [8] := by decide

end Proxy

end Nutcracker
