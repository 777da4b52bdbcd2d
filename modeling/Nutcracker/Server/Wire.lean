/-
**What goes on a server's wire.**

`wireSystem` runs the turns of `sendMsg` on one server connection, each with any answer of `writev`,
and forwards any requests to it in between. It records the bytes written (`wire`) and the contents of
all requests in the order of the queue (`want`).

* `denotes_iff` — the array of one `sendChain` call denotes the unsent bytes of the messages on
  `send_msgq` exactly if one request is queued and fits, or the first fills the array (`Fits`).
* `turn_spec` — one turn that fits writes a prefix of what is pending and leaves the rest.
* `wire_of_runs` — **runs whose turns fit write every request once, in queue order**.
* `wire_repeats_first` — two requests `G` and `E`: the array starts with `G`, `G`.
-/

import Nutcracker.Lib.Runs
import Nutcracker.Server.Gather

namespace Nutcracker

open Lib

namespace NcServerConn

open NcConn

/-- `NcServerConn::sendDone`. -/
def sendDone (msg : Addr) (s : Sending) : Sending :=
  let conn : NcConn := { s.conn with m_imsg_q := NcQueue.remove msg s.conn.m_imsg_q }
  if (s.msg_pool.mem msg).m_noreply then
    ⟨conn, freeMsg conn.m_owner msg true s.msg_pool⟩
  else
    ⟨{ conn with m_omsg_q := conn.m_omsg_q ++ [msg] }, s.msg_pool⟩

/-- One turn of the loop of `sendMsg`, with the bytes it writes. -/
def sendTurn (sys : Nat → SysCalls) (answer : SendvAnswer) (fuel : Nat) (s : Sending) :
    Except SendFault (Sending × List UInt8) :=
  match sendNext (sys 0) s.conn with
  | (conn, none) => .ok (⟨conn, s.msg_pool⟩, [])
  | (conn, some msg) => do
      let (s, _, bytes) ← sendChain (nextOf sys) sendDone answer fuel msg ⟨conn, s.msg_pool⟩
      return (s, bytes)

/-- The unsent bytes of a message. -/
def unsentOf (mem : Addr → NcMsg) (msg : Addr) : List UInt8 := unsent (mem msg).m_mbuf_queue

/-- The entries of a message. -/
def entriesOf (mem : Addr → NcMsg) (msg : Addr) : List IoVec :=
  segments msg (mem msg).m_mbuf_queue

/-- The unsent bytes of all queued requests. -/
def pending (s : Sending) : List UInt8 := s.conn.m_imsg_q.flatMap (unsentOf s.msg_pool.mem)

/-- A request that `requestForward` can enqueue: it is not empty, and it has no response yet. -/
structure IsRequest (msg : NcMsg) : Prop where
  valid : ∀ mbuf ∈ msg.m_mbuf_queue, mbuf.Valid
  filled : msg.m_mlen ≠ 0
  unanswered : msg.m_peer = none

/-- A server connection between two turns. -/
structure Idle (s : Sending) : Prop where
  cursor : s.conn.m_smsg = none
  distinct : s.conn.m_imsg_q.Nodup
  requests : ∀ msg ∈ s.conn.m_imsg_q, IsRequest (s.msg_pool.mem msg)

/-- **The condition**: one request, whose buffers fit into the array, or a first request that fills
it. -/
def Fits (mem : Addr → NcMsg) (q : List Addr) : Prop :=
  ∀ msg ∈ q.head?, (q = [msg] ∧ (entriesOf mem msg).length ≤ NC_IOV_MAX) ∨
    (entriesOf mem msg).length = NC_IOV_MAX

/-- **The array denotes what `send_msgq` holds**: the unsent bytes of each message, from its own
buffers. -/
def Denotes (sys : Nat → SysCalls) (mem : Addr → NcMsg) (msg : Addr) (conn : NcConn) : Prop :=
  ∃ fuel g, gathered sys mem msg fuel conn = .ok g ∧ g.iov = g.send_msgq.flatMap (entriesOf mem)

variable {sys : Nat → SysCalls} {mem : Addr → NcMsg} {msg : Addr} {rest : List Addr} {conn : NcConn}
  {g : Gathering}

/-! ### One call of `sendChain` -/

/-- An array with the entries of one message. -/
structure Single (mem : Addr → NcMsg) (msg : Addr) (conn : NcConn) (g : Gathering) : Prop where
  msgq : g.send_msgq = [msg]
  iov : g.iov = entriesOf mem msg
  nsend : g.nsend = (unsentOf mem msg).length
  imsg_q : g.conn.m_imsg_q = conn.m_imsg_q

theorem single_turn {conn' : NcConn} (valid : ∀ mbuf ∈ (mem msg).m_mbuf_queue, mbuf.Valid)
    (same : conn'.m_imsg_q = conn.m_imsg_q) (start : NcConn) :
    Single mem msg conn { turn mem msg msg ⟨start, [], [], 0⟩ with conn := conn' } where
  msgq := rfl
  iov := rfl
  nsend := (Nat.zero_add _).trans (sum_segments msg valid)
  imsg_q := same

/-- **A gathering that fits returns one message.** -/
theorem gathered_fits (sys : Nat → SysCalls) (fuel : Nat) (valid : ∀ mbuf ∈ (mem msg).m_mbuf_queue, mbuf.Valid)
    (start : conn.m_smsg = none) (queue : conn.m_imsg_q = msg :: rest)
    (fits : Fits mem conn.m_imsg_q) :
    ∃ g, gathered sys mem msg (fuel + 1) conn = .ok g ∧ Single mem msg conn g := by
  have first : msg ∈ conn.m_imsg_q.head? := by
    rw [queue]
    exact rfl
  rcases fits msg first with ⟨alone, room⟩ | full
  · rcases gathered_one sys fuel valid start alone with
      ⟨-, conn', inQueue, -, -, returns⟩ | ⟨past, -⟩
    · exact ⟨_, returns, single_turn valid inQueue conn'⟩
    · exact absurd room (Nat.not_le.mpr past)
  · have filled : (0 : Nat) + (segments msg (mem msg).m_mbuf_queue).length = NC_IOV_MAX := by
      rw [Nat.zero_add]
      exact full
    exact ⟨_, gather_full fuel valid (counted_start _) filled,
      single_turn valid (sendNext_queue (sys 0)) _⟩

/-- More fuel changes nothing: a gathering that fits ends in its first turn. -/
theorem gathered_unique {fuel : Nat} (valid : ∀ mbuf ∈ (mem msg).m_mbuf_queue, mbuf.Valid)
    (start : conn.m_smsg = none) (queue : conn.m_imsg_q = msg :: rest)
    (fits : Fits mem conn.m_imsg_q) (returns : gathered sys mem msg fuel conn = .ok g) :
    Single mem msg conn g := by
  cases fuel with
  | zero => cases returns
  | succ fuel =>
      obtain ⟨g', returns', single⟩ := gathered_fits sys fuel valid start queue fits
      rw [returns'] at returns
      exact Except.ok.inj returns ▸ single

theorem msg_of_mem_entriesOf {entry : IoVec} (member : entry ∈ entriesOf mem msg) :
    entry.msg = msg := by
  obtain ⟨mbuf, -, rfl⟩ := List.mem_map.mp member
  rfl

/-- **What the array denotes.** -/
theorem denotes_iff (sys : Nat → SysCalls) (valid : ∀ mbuf ∈ (mem msg).m_mbuf_queue, mbuf.Valid)
    (start : conn.m_smsg = none) (queue : conn.m_imsg_q = msg :: rest)
    (distinct : conn.m_imsg_q.Nodup) :
    Denotes sys mem msg conn ↔ Fits mem conn.m_imsg_q := by
  constructor
  · rintro ⟨fuel, g, returns, denotes⟩ first isFirst
    rw [queue] at isFirst
    obtain rfl := Option.some.inj isFirst
    cases rest with
    | nil =>
        obtain ⟨fuel, rfl⟩ : ∃ n, fuel = n + 1 := by
          cases fuel with
          | zero => cases returns
          | succ n => exact ⟨n, rfl⟩
        rcases gathered_one sys fuel valid start queue with ⟨fits, -⟩ | ⟨-, fails⟩
        · exact Or.inl ⟨queue, fits⟩
        · rw [fails] at returns
          cases returns
    | cons second rest =>
        obtain ⟨inQueue, sending⟩ := sending_first (sys 0) start queue
        obtain ⟨j, msgq, iov, length⟩ := gather_many fuel valid
          (counted_start (sendNext (sys 0) conn).1) ⟨inQueue, sending⟩ (Nat.zero_le _) returns
        rw [queue] at distinct
        cases j with
        | zero =>
            rw [iov, List.nil_append, List.replicate_one, List.flatten_singleton] at length
            exact Or.inr length
        | succ j =>
            -- the second copy of the first request's entries stands where the second request's
            -- entries should
            rw [iov, msgq, List.nil_append, List.nil_append, List.replicate_succ, List.flatten_cons,
              List.flatMap_cons] at denotes
            have copies := List.append_cancel_left denotes
            have some : segments msg (mem msg).m_mbuf_queue ≠ [] := by
              intro none
              rw [iov, none, List.flatten_replicate_nil] at length
              cases length
            obtain ⟨entry, more, isCons⟩ := List.exists_cons_of_ne_nil some
            have inFirst : entry ∈ entriesOf mem msg := by
              show entry ∈ segments _ _
              rw [isCons]
              exact List.mem_cons_self
            have inSecond : entry ∈
                (List.replicate (j + 1) second).flatMap (entriesOf mem) := by
              rw [← copies, List.replicate_succ, List.flatten_cons]
              exact List.mem_append_left _ inFirst
            obtain ⟨other, isSecond, inOther⟩ := List.mem_flatMap.mp inSecond
            have same : msg = second := by
              rw [← msg_of_mem_entriesOf inFirst, msg_of_mem_entriesOf inOther]
              exact (List.mem_replicate.mp isSecond).2
            exact absurd List.mem_cons_self (same ▸ (List.nodup_cons.mp distinct).1)
  · intro fits
    obtain ⟨g, returns, single⟩ := gathered_fits sys 0 valid start queue fits
    refine ⟨1, g, returns, ?_⟩
    rw [single.iov, single.msgq, List.flatMap_singleton]

/-! ### One turn -/

variable {s s' : Sending} {bytes : List UInt8} {fuel : Nat} {answer : SendvAnswer}

/-- `sendDone` takes the first request off the queue, and touches no other request. -/
theorem sendDone_spec (queue : s.conn.m_imsg_q = msg :: rest) (fresh : msg ∉ rest)
    (unanswered : (s.msg_pool.mem msg).m_peer = none) :
    (sendDone msg s).conn.m_imsg_q = rest ∧ (sendDone msg s).conn.m_smsg = s.conn.m_smsg ∧
      ∀ x ∈ rest, (sendDone msg s).msg_pool.mem x = s.msg_pool.mem x := by
  have removed : NcQueue.remove msg s.conn.m_imsg_q = rest := by
    rw [queue]
    exact NcQueue.remove_head fresh
  unfold sendDone
  by_cases noreply : (s.msg_pool.mem msg).m_noreply = true
  · rw [if_pos noreply]
    refine ⟨removed, rfl, fun x member => mem_freeMsg unanswered ?_⟩
    exact fun same => fresh (same ▸ member)
  · rw [if_neg noreply]
    exact ⟨removed, rfl, fun _ _ => rfl⟩

/-- The pending bytes, when the first request is gone or has changed. -/
theorem flatMap_congr_unsent {mem' : Addr → NcMsg} (same : ∀ x ∈ rest, mem' x = mem x) :
    rest.flatMap (unsentOf mem') = rest.flatMap (unsentOf mem) := by
  refine List.flatMap_congr fun x member => ?_
  unfold unsentOf
  rw [same x member]

/-- **The accounting keeps the rest of the bytes pending.** -/
theorem accounted_spec {nsent : Nat} (idle : Idle s) (queue : s.conn.m_imsg_q = msg :: rest)
    (within : nsent ≤ (unsentOf s.msg_pool.mem msg).length) :
    Idle (accounted sendDone msg nsent s) ∧
      (unsentOf s.msg_pool.mem msg).take nsent ++ pending (accounted sendDone msg nsent s) =
        pending s := by
  obtain ⟨cursor, distinct, requests⟩ := idle
  have isRequest := requests msg (queue ▸ List.mem_cons_self)
  have others : ∀ x ∈ rest, x ∈ s.conn.m_imsg_q := fun x member =>
    queue ▸ List.mem_cons_of_mem msg member
  obtain ⟨fresh, distinctRest⟩ := List.nodup_cons.mp (queue ▸ distinct)
  have before : pending s = unsentOf s.msg_pool.mem msg ++
      rest.flatMap (unsentOf s.msg_pool.mem) := by
    unfold pending
    rw [queue, List.flatMap_cons]
  unfold accounted
  by_cases none : nsent = 0
  · rw [if_pos none, if_neg isRequest.filled, none, List.take_zero, List.nil_append]
    exact ⟨⟨cursor, distinct, requests⟩, rfl⟩
  · rw [if_neg none]
    obtain ⟨dropped, valid⟩ := consume_spec nsent isRequest.valid
    have all := consume_all_iff nsent isRequest.valid
    generalize consume nsent (s.msg_pool.mem msg).m_mbuf_queue = result at dropped valid all
    obtain ⟨left, mbufs, done⟩ := result
    -- the message with its buffers consumed
    let s₁ : Sending :=
      { s with msg_pool := s.msg_pool.put msg fun m => { m with m_mbuf_queue := mbufs } }
    have atMsg : s₁.msg_pool.mem msg = { s.msg_pool.mem msg with m_mbuf_queue := mbufs } :=
      s.msg_pool.mem_put_self msg fun m => { m with m_mbuf_queue := mbufs }
    have elsewhere : ∀ x ∈ rest, s₁.msg_pool.mem x = s.msg_pool.mem x := fun x member =>
      s.msg_pool.mem_put_of_ne (fun m => { m with m_mbuf_queue := mbufs }) fun same =>
        fresh (same ▸ member)
    show Idle (if done then sendDone msg s₁ else s₁) ∧
      _ ++ pending (if done then sendDone msg s₁ else s₁) = _
    cases done with
    | true =>
        obtain ⟨queue', cursor', same⟩ := sendDone_spec (s := s₁) queue fresh
          (by rw [atMsg]; exact isRequest.unanswered)
        have still : ∀ x ∈ rest, (sendDone msg s₁).msg_pool.mem x = s.msg_pool.mem x :=
          fun x member => (same x member).trans (elsewhere x member)
        rw [if_pos rfl]
        refine ⟨⟨cursor'.trans cursor, queue' ▸ distinctRest, fun x member => ?_⟩, ?_⟩
        · rw [queue'] at member
          rw [still x member]
          exact requests x (others x member)
        · have whole : (unsentOf s.msg_pool.mem msg).take nsent = unsentOf s.msg_pool.mem msg :=
            List.take_of_length_le (all.mp rfl)
          rw [before, whole, pending, queue', flatMap_congr_unsent still]
    | false =>
        rw [if_neg Bool.false_ne_true]
        refine ⟨⟨cursor, distinct, fun x member => ?_⟩, ?_⟩
        · rcases List.mem_cons.mp (queue ▸ member) with rfl | inRest
          · rw [atMsg]
            exact ⟨valid, isRequest.filled, isRequest.unanswered⟩
          · rw [elsewhere x inRest]
            exact requests x (others x inRest)
        · have after : unsentOf s₁.msg_pool.mem msg =
              (unsentOf s.msg_pool.mem msg).drop nsent := by
            unfold unsentOf
            rw [atMsg]
            exact dropped
          rw [before, pending, show s₁.conn.m_imsg_q = msg :: rest from queue, List.flatMap_cons,
            after, flatMap_congr_unsent elsewhere, ← List.append_assoc, List.take_append_drop]

/-- **One turn that fits** writes the front of what is pending. -/
theorem turn_spec (idle : Idle s) (fits : Fits s.msg_pool.mem s.conn.m_imsg_q)
    (runs : sendTurn sys answer fuel s = .ok (s', bytes)) :
    Idle s' ∧ bytes ++ pending s' = pending s := by
  obtain ⟨inQueue, -, -⟩ := sendNext_frame (sys 0) s.conn
  cases queue : s.conn.m_imsg_q with
  | nil =>
      obtain ⟨result, cursor⟩ := sendNext_empty (sys 0) queue
      have null : sendNext (sys 0) s.conn = ((sendNext (sys 0) s.conn).1, none) := Prod.ext rfl result
      unfold sendTurn at runs
      rw [null] at runs
      obtain ⟨rfl, rfl⟩ := Prod.mk.inj (Except.ok.inj runs)
      refine ⟨⟨cursor.trans idle.cursor, inQueue ▸ idle.distinct, fun x member => ?_⟩, ?_⟩
      · exact idle.requests x (inQueue ▸ member)
      · unfold pending
        rw [List.nil_append, inQueue]
  | cons msg rest =>
      obtain ⟨result, -⟩ := sendNext_first (sys 0) queue idle.cursor
      have isRequest := idle.requests msg (queue ▸ List.mem_cons_self)
      have first : sendNext (sys 0) s.conn = ((sendNext (sys 0) s.conn).1, some msg) :=
        Prod.ext rfl result
      unfold sendTurn at runs
      rw [first] at runs
      cases gathers : gathered sys s.msg_pool.mem msg fuel s.conn with
      | error fault =>
          have fails : sendChain (nextOf sys) sendDone answer fuel msg
              ⟨(sendNext (sys 0) s.conn).1, s.msg_pool⟩ = .error fault := by
            unfold sendChain
            rw [show gather _ _ _ _ _ _ = _ from gathers]
            rfl
          simp only [fails] at runs
          cases runs
      | ok g =>
          have single := gathered_unique isRequest.valid idle.cursor queue fits gathers
          have chain := sendChain_one sendDone answer
            (s := ⟨(sendNext (sys 0) s.conn).1, s.msg_pool⟩) gathers single.msgq
          simp only [chain] at runs
          obtain ⟨rfl, rfl⟩ := Prod.mk.inj (Except.ok.inj runs)
          obtain ⟨sameQueue, noCursor, within⟩ := sent_spec answer g
          rw [single.nsend] at within
          have same : (sent answer g).1.m_imsg_q = s.conn.m_imsg_q :=
            sameQueue.trans single.imsg_q
          have idle' : Idle ⟨(sent answer g).1, s.msg_pool⟩ :=
            ⟨noCursor, same ▸ idle.distinct, fun x member => idle.requests x (same ▸ member)⟩
          obtain ⟨kept, bytes⟩ := accounted_spec idle' (same.trans queue) within
          refine ⟨kept, ?_⟩
          have written : g.iov.flatMap IoVec.bytes = unsentOf s.msg_pool.mem msg := by
            rw [single.iov]
            exact bytes_segments msg isRequest.valid
          rw [written, bytes]
          unfold pending
          rw [same]

/-! ### Runs -/

/-- A server connection with what it has written and what it should write. -/
structure WireState extends Sending where
  wire : List UInt8
  want : List UInt8

/-- A turn of `sendMsg`, or the end of `requestForward`: a request is received into a message object
and enqueued. -/
inductive WireOp
  | turn (sys : Nat → SysCalls) (answer : SendvAnswer)
  | enqueue (msg : Addr) (request : NcMsg)

/-- **The runs of a server connection.** -/
def wireSystem (start : Sending) : System WireState WireOp where
  init s := s = ⟨start, [], pending start⟩
  step s op s' :=
    match op with
    | .turn sys answer => ∃ fuel next bytes, sendTurn sys answer fuel s.toSending = .ok (next, bytes) ∧
        s' = ⟨next, s.wire ++ bytes, s.want⟩
    | .enqueue msg request => msg ∉ s.conn.m_imsg_q ∧ IsRequest request ∧
        s' = ⟨⟨{ s.conn with m_imsg_q := s.conn.m_imsg_q ++ [msg] },
          s.msg_pool.put msg fun _ => request⟩, s.wire, s.want ++ unsent request.m_mbuf_queue⟩

/-- Every turn fits. -/
def TurnsFit (s : WireState) (op : WireOp) : Prop :=
  ∀ sys answer, op = .turn sys answer → Fits s.msg_pool.mem s.conn.m_imsg_q

theorem idle_enqueue {request : NcMsg} (idle : Idle s) (fresh : msg ∉ s.conn.m_imsg_q)
    (isRequest : IsRequest request) :
    Idle ⟨{ s.conn with m_imsg_q := s.conn.m_imsg_q ++ [msg] }, s.msg_pool.put msg fun _ => request⟩ ∧
      pending ⟨{ s.conn with m_imsg_q := s.conn.m_imsg_q ++ [msg] },
        s.msg_pool.put msg fun _ => request⟩ = pending s ++ unsent request.m_mbuf_queue := by
  have atMsg : (s.msg_pool.put msg fun _ => request).mem msg = request :=
    s.msg_pool.mem_put_self msg _
  have elsewhere : ∀ x ∈ s.conn.m_imsg_q,
      (s.msg_pool.put msg fun _ => request).mem x = s.msg_pool.mem x := fun x member =>
    s.msg_pool.mem_put_of_ne _ fun same => fresh (same ▸ member)
  refine ⟨⟨idle.cursor, ?_, fun x member => ?_⟩, ?_⟩
  · show (s.conn.m_imsg_q ++ [msg]).Nodup
    rw [List.nodup_append]
    refine ⟨idle.distinct, List.nodup_singleton msg, fun x inQueue y single => ?_⟩
    rw [List.mem_singleton.mp single]
    exact fun same => fresh (same ▸ inQueue)
  · rcases List.mem_append.mp member with before | single
    · show IsRequest ((s.msg_pool.put msg fun _ => request).mem x)
      rw [elsewhere x before]
      exact idle.requests x before
    · rw [List.mem_singleton.mp single]
      show IsRequest ((s.msg_pool.put msg fun _ => request).mem msg)
      rw [atMsg]
      exact isRequest
  · show (s.conn.m_imsg_q ++ [msg]).flatMap (unsentOf _) = _
    rw [List.flatMap_append, List.flatMap_singleton, flatMap_congr_unsent elsewhere]
    show _ ++ unsentOf (s.msg_pool.put msg fun _ => request).mem msg = _
    unfold unsentOf
    rw [atMsg]
    rfl

/-- **What goes on the wire.** Each array denotes the requests gathered exactly if the queue fits;
and in every run whose turns fit, what is written and what is pending are the requests enqueued, each
once and in order. -/
theorem wire_of_runs (sys : Nat → SysCalls) (start : Sending) (idle : Idle start) :
    (∀ msg rest, start.conn.m_imsg_q = msg :: rest →
      (Denotes sys start.msg_pool.mem msg start.conn ↔
        Fits start.msg_pool.mem start.conn.m_imsg_q)) ∧
    ∀ s, ((wireSystem start).guarded TurnsFit).Reach s → s.wire ++ pending s.toSending = s.want := by
  refine ⟨fun msg rest queue => ?_, fun s reached => ?_⟩
  · have isRequest := idle.requests msg (queue ▸ List.mem_cons_self)
    exact denotes_iff sys isRequest.valid idle.cursor queue idle.distinct
  · have holds : Idle s.toSending ∧ s.wire ++ pending s.toSending = s.want := by
      let I : WireState → Prop := fun s => Idle s.toSending ∧ s.wire ++ pending s.toSending = s.want
      refine reached.invariant (I := I) (fun s begins => ?_) fun s op s' _ holds step => ?_
      · rw [show s = _ from begins]
        exact ⟨idle, List.nil_append _⟩
      · obtain ⟨idle, wire⟩ := holds
        obtain ⟨fits, step⟩ := step
        cases op with
        | turn sys answer =>
            obtain ⟨fuel, next, bytes, runs, rfl⟩ := step
            obtain ⟨idle', same⟩ := turn_spec idle (fits sys answer rfl) runs
            refine ⟨idle', ?_⟩
            show (s.wire ++ bytes) ++ pending next = s.want
            rw [List.append_assoc, same, wire]
        | enqueue msg request =>
            obtain ⟨fresh, isRequest, rfl⟩ := step
            obtain ⟨idle', more⟩ := idle_enqueue idle fresh isRequest
            refine ⟨idle', ?_⟩
            show s.wire ++ pending _ = s.want ++ _
            rw [more, ← List.append_assoc, wire]
    exact holds.2

/-! ### Two requests of one byte -/

/-- A buffer with one byte. -/
def oneByte (byte : UInt8) : NcMbuf := (NcMbuf.new ⟨512, by decide⟩ fun _ => 0).copy [byte]

theorem valid_oneByte (byte : UInt8) : (oneByte byte).Valid := by
  have room : 1 ≤ (NcMbuf.new ⟨512, by decide⟩ fun _ => 0).size := by decide
  exact (NcMbuf.valid_new _ _).copy room

/-- The request `G` at address 1, the request `E` at address 2. -/
def twoRequests : NcObjectPool NcMsg :=
  { NcObjectPool.default (fun msg =>
      { NcMsg.new with m_mlen := 1, m_mbuf_queue := [oneByte (if msg = 1 then 71 else 69)] }) none
    with made := 3 }

/-- A server connection with both in its queue. -/
def twoQueued : Sending :=
  ⟨{ NcConn.new with m_sd := 5, m_connected := true, m_imsg_q := [1, 2] }, twoRequests⟩

theorem idle_twoQueued : Idle twoQueued where
  cursor := rfl
  distinct := by decide
  requests msg _ := by
    refine ⟨fun mbuf member => ?_, by exact Nat.one_ne_zero, rfl⟩
    rw [List.mem_singleton.mp member]
    exact valid_oneByte _

/-- With both queued the array does not denote them. -/
theorem wire_of_twoQueued : ¬ Denotes noErrors twoRequests.mem 1 twoQueued.conn := by
  obtain ⟨denotes, -⟩ := wire_of_runs noErrors twoQueued idle_twoQueued
  intro holds
  rcases (denotes 1 [2] rfl).mp holds 1 rfl with ⟨alone, -⟩ | full
  · exact absurd alone (by decide)
  · exact absurd (show 1 = NC_IOV_MAX from full) (by decide)

/-- **The array of the two requests `G` and `E` starts with `G`, `G`.** -/
theorem wire_repeats_first :
    (∃ g, gathered noErrors twoRequests.mem 1 128 twoQueued.conn = .ok g ∧
      (g.iov.flatMap IoVec.bytes).take 2 = [71, 71]) ∧
    pending twoQueued = [71, 69] := by
  have bytes : (gathered noErrors twoRequests.mem 1 128 twoQueued.conn).map
      (fun g => (g.iov.flatMap IoVec.bytes).take 2) = .ok [71, 71] := by
    decide +kernel
  refine ⟨?_, by decide +kernel⟩
  cases gathers : gathered noErrors twoRequests.mem 1 128 twoQueued.conn with
  | error fault =>
      rw [gathers] at bytes
      cases bytes
  | ok g =>
      rw [gathers] at bytes
      exact ⟨g, rfl, Except.ok.inj bytes⟩

end NcServerConn

end Nutcracker
