/-
**The accounting loop of `sendChain`, for any number of messages.**

`Accounting` is one thing the loop does, and `trace` everything it does with `nsent` bytes written,
read off the lengths of the messages before the loop. `sendDone` is virtual: here it is any function
that leaves the other messages of `send_msgq` as they are (`Leaves`).

* `account_eq` — **the loop does what the trace says**, and nothing else.
* `calls_take` — `sendDone` is called on a prefix of `send_msgq`, the messages whose bytes all fall
  within what was written.
* `rest_of_run` — what is left to send is what was there without the bytes written.
* `short_write` — the three together.
* `leaves_sendDone` — `NcServerConn::sendDone` leaves the other requests as they are.
-/

import Nutcracker.Server.Wire

namespace Nutcracker

namespace NcConn

open NcServerConn (unsentOf)

/-- One thing the accounting loop does: it takes up to `nsent` bytes off the front of a message, or
calls `sendDone`. -/
inductive Accounting
  | consume (msg : Addr) (nsent : Nat)
  | sendDone (msg : Addr)
  deriving DecidableEq

namespace Accounting

/-- The message `sendDone` is called on. -/
def call : Accounting → Option Addr
  | .consume _ _ => none
  | .sendDone msg => some msg

def run (done : Addr → Sending → Sending) (s : Sending) : Accounting → Sending
  | .consume msg nsent =>
      { s with
        msg_pool := s.msg_pool.put msg fun m =>
          { m with m_mbuf_queue := (NcConn.consume nsent m.m_mbuf_queue).2.1 } }
  | .sendDone msg => done msg s

end Accounting

/-- **What the loop does** with the messages of `send_msgq` when `nsent` bytes are written. -/
def trace (mem : Addr → NcMsg) : List Addr → Nat → List Accounting
  | [], _ => []
  | msg :: rest, nsent =>
      if nsent = 0 then []
      else if (unsentOf mem msg).length ≤ nsent then
        .consume msg nsent :: .sendDone msg :: trace mem rest (nsent - (unsentOf mem msg).length)
      else [.consume msg nsent]

/-- All of it, from a state. -/
def replay (done : Addr → Sending → Sending) (steps : List Accounting) (s : Sending) : Sending :=
  steps.foldl (Accounting.run done) s

/-- The messages `sendDone` is called on, in order. -/
def calls (steps : List Accounting) : List Addr := steps.filterMap Accounting.call

/-- **`sendDone` leaves the other messages as they are**, in the states that satisfy `I`. -/
structure Leaves (done : Addr → Sending → Sending) (I : Sending → Prop) (msgs : List Addr) :
    Prop where
  other : ∀ {s msg x}, I s → msg ∈ msgs → x ∈ msgs → x ≠ msg →
    (done msg s).msg_pool.mem x = s.msg_pool.mem x
  call : ∀ {s msg}, I s → msg ∈ msgs → I (done msg s)
  write : ∀ {s msg} (nsent : Nat), I s → msg ∈ msgs →
    I ((Accounting.consume msg nsent).run done s)

/-- The messages on `send_msgq`: distinct, and each has a byte to send. -/
structure Sendable (mem : Addr → NcMsg) (msgs : List Addr) : Prop where
  distinct : msgs.Nodup
  filled : ∀ msg ∈ msgs, 0 < (mem msg).m_mlen
  unsent : ∀ msg ∈ msgs, 0 < (unsentOf mem msg).length
  valid : ∀ msg ∈ msgs, ∀ mbuf ∈ (mem msg).m_mbuf_queue, mbuf.Valid

variable {done : Addr → Sending → Sending} {I : Sending → Prop} {mem mem' : Addr → NcMsg}
  {msg : Addr} {rest msgs : List Addr} {s : Sending} {nsent : Nat}

theorem Leaves.tail (leaves : Leaves done I (msg :: rest)) : Leaves done I rest where
  other holds member other different :=
    leaves.other holds (List.mem_cons_of_mem _ member) (List.mem_cons_of_mem _ other) different
  call holds member := leaves.call holds (List.mem_cons_of_mem _ member)
  write nsent holds member := leaves.write nsent holds (List.mem_cons_of_mem _ member)

/-- The other messages, after the first one is dealt with. -/
theorem Sendable.tail (sendable : Sendable mem (msg :: rest))
    (same : ∀ x ∈ rest, mem' x = mem x) : Sendable mem' rest where
  distinct := (List.nodup_cons.mp sendable.distinct).2
  filled x member := by
    rw [same x member]
    exact sendable.filled x (List.mem_cons_of_mem _ member)
  unsent x member := by
    unfold unsentOf
    rw [same x member]
    exact sendable.unsent x (List.mem_cons_of_mem _ member)
  valid x member := by
    rw [same x member]
    exact sendable.valid x (List.mem_cons_of_mem _ member)

/-! ### The steps of the loop -/

/-- The bytes that one message leaves for the next. -/
theorem consume_left (nsent : Nat) {mbufs : List NcMbuf} (valid : ∀ mbuf ∈ mbufs, mbuf.Valid) :
    (consume nsent mbufs).1 = nsent - (unsent mbufs).length := by
  induction mbufs generalizing nsent with
  | nil => rfl
  | cons mbuf mbufs ih =>
      obtain ⟨isValid, tail⟩ := List.forall_mem_cons.mp valid
      have ih := fun nsent => ih nsent tail
      unfold unsent at *
      rw [List.flatMap_cons, List.length_append, isValid.length_content, consume]
      by_cases empty : mbuf.empty = true
      · have none := isValid.length_eq_zero.mpr empty
        rw [if_pos empty, none, Nat.zero_add]
        exact ih nsent
      · rw [if_neg empty]
        by_cases within : nsent < mbuf.length
        · rw [if_pos within]
          show 0 = nsent - _
          omega
        · rw [if_neg within]
          show (consume (nsent - mbuf.length) mbufs).1 = _
          rw [ih]
          omega

/-- The trace reads the messages of `send_msgq` only. -/
theorem trace_congr (same : ∀ x ∈ msgs, mem' x = mem x) (nsent : Nat) :
    trace mem' msgs nsent = trace mem msgs nsent := by
  induction msgs generalizing nsent with
  | nil => rfl
  | cons msg rest ih =>
      have here : unsentOf mem' msg = unsentOf mem msg := by
        unfold unsentOf
        rw [same msg List.mem_cons_self]
      rw [trace, trace, here, ih fun x member => same x (List.mem_cons_of_mem _ member)]

/-- Consuming a message changes its buffers. -/
theorem mem_consume_self (done : Addr → Sending → Sending) (s : Sending) (msg : Addr)
    (nsent : Nat) :
    ((Accounting.consume msg nsent).run done s).msg_pool.mem msg =
      { s.msg_pool.mem msg with
        m_mbuf_queue := (consume nsent (s.msg_pool.mem msg).m_mbuf_queue).2.1 } :=
  s.msg_pool.mem_put_self msg fun m =>
    { m with m_mbuf_queue := (consume nsent m.m_mbuf_queue).2.1 }

/-- It leaves the others. -/
theorem mem_consume {x : Addr} (done : Addr → Sending → Sending) (s : Sending) (other : x ≠ msg)
    (nsent : Nat) :
    ((Accounting.consume msg nsent).run done s).msg_pool.mem x = s.msg_pool.mem x :=
  s.msg_pool.mem_put_of_ne
    (fun m => { m with m_mbuf_queue := (consume nsent m.m_mbuf_queue).2.1 }) other

/-- The other messages, when the first one is consumed and given to `sendDone`. -/
theorem Leaves.first (leaves : Leaves done I (msg :: rest)) (holds : I s) (fresh : msg ∉ rest)
    (nsent : Nat) : ∀ x ∈ rest,
      (done msg ((Accounting.consume msg nsent).run done s)).msg_pool.mem x = s.msg_pool.mem x := by
  intro x member
  have other : x ≠ msg := fun same => fresh (same ▸ member)
  rw [leaves.other (leaves.write nsent holds List.mem_cons_self) List.mem_cons_self
    (List.mem_cons_of_mem _ member) other, mem_consume done s other]

/-- One turn of the loop. -/
theorem account_cons (removed : List Addr) (fresh : msg ∉ rest) (again : msg ∉ removed)
    (filled : 0 < (s.msg_pool.mem msg).m_mlen)
    (valid : ∀ mbuf ∈ (s.msg_pool.mem msg).m_mbuf_queue, mbuf.Valid) :
    account done (msg :: rest) removed nsent s =
      if nsent = 0 then account done rest (msg :: removed) 0 s
      else
        account done rest (msg :: removed) (nsent - (unsentOf s.msg_pool.mem msg).length) <|
          if (unsentOf s.msg_pool.mem msg).length ≤ nsent then
            done msg ((Accounting.consume msg nsent).run done s)
          else (Accounting.consume msg nsent).run done s := by
  have all := consume_all_iff nsent valid
  rw [account, if_neg again, if_neg (not_dangles removed fresh)]
  by_cases none : nsent = 0
  · rw [if_pos none, if_pos none, if_neg (Nat.ne_of_gt filled), none]
  · rw [if_neg none, if_neg none]
    show account done rest (msg :: removed) (consume nsent _).1
      (if (consume nsent (s.msg_pool.mem msg).m_mbuf_queue).2.2 then done msg _ else _) = _
    rw [consume_left nsent valid]
    congr 1
    refine if_congr all ?_ ?_
    · rfl
    · rfl

/-- With nothing left the loop calls nothing. -/
theorem account_zero (removed : List Addr) (distinct : msgs.Nodup)
    (apart : ∀ msg ∈ msgs, msg ∉ removed) (filled : ∀ msg ∈ msgs, 0 < (s.msg_pool.mem msg).m_mlen) :
    account done msgs removed 0 s = .ok s := by
  induction msgs generalizing removed with
  | nil => rfl
  | cons msg rest ih =>
      obtain ⟨fresh, distinct⟩ := List.nodup_cons.mp distinct
      rw [account, if_neg (apart msg List.mem_cons_self), if_neg (not_dangles removed fresh),
        if_pos rfl, if_neg (Nat.ne_of_gt (filled msg List.mem_cons_self))]
      refine ih (msg :: removed) distinct (fun x member => ?_) fun x member =>
        filled x (List.mem_cons_of_mem _ member)
      rw [List.mem_cons, not_or]
      exact ⟨fun same => fresh (same ▸ member), apart x (List.mem_cons_of_mem _ member)⟩

/-- **The loop does what the trace says.** -/
theorem account_eq (removed : List Addr) (leaves : Leaves done I msgs) (holds : I s)
    (sendable : Sendable s.msg_pool.mem msgs) (apart : ∀ msg ∈ msgs, msg ∉ removed) :
    account done msgs removed nsent s = .ok (replay done (trace s.msg_pool.mem msgs nsent) s) := by
  induction msgs generalizing removed nsent s with
  | nil => rfl
  | cons msg rest ih =>
      obtain ⟨fresh, -⟩ := List.nodup_cons.mp sendable.distinct
      have different : ∀ x ∈ rest, x ≠ msg := fun x member same => fresh (same ▸ member)
      have apart' : ∀ x ∈ rest, x ∉ msg :: removed := fun x member => by
        rw [List.mem_cons, not_or]
        exact ⟨different x member, apart x (List.mem_cons_of_mem _ member)⟩
      rw [account_cons removed fresh (apart msg List.mem_cons_self)
        (sendable.filled msg List.mem_cons_self) (sendable.valid msg List.mem_cons_self), trace]
      by_cases none : nsent = 0
      · have others := sendable.tail fun _ _ => rfl
        rw [if_pos none, if_pos none]
        exact account_zero (msg :: removed) others.distinct apart' others.filled
      · rw [if_neg none, if_neg none]
        by_cases whole : (unsentOf s.msg_pool.mem msg).length ≤ nsent
        · have same := leaves.first holds fresh nsent
          have holds' := leaves.call (leaves.write nsent holds List.mem_cons_self)
            List.mem_cons_self
          rw [if_pos whole, if_pos whole, ih (msg :: removed) leaves.tail holds'
            (sendable.tail same) apart', trace_congr same]
          rfl
        · have same : ∀ x ∈ rest,
              ((Accounting.consume msg nsent).run done s).msg_pool.mem x = s.msg_pool.mem x :=
            fun x member => mem_consume done s (different x member) nsent
          have nothing : nsent - (unsentOf s.msg_pool.mem msg).length = 0 := by omega
          have others := sendable.tail same
          rw [if_neg whole, if_neg whole, nothing]
          exact account_zero (msg :: removed) others.distinct apart' others.filled

/-! ### What the trace is -/

/-- **`sendDone` is called on a prefix of `send_msgq`**, and a message is in it exactly if its last
byte falls within the bytes written. -/
theorem calls_take (nsent : Nat) (unsent : ∀ msg ∈ msgs, 0 < (unsentOf mem msg).length) :
    ∃ k, calls (trace mem msgs nsent) = msgs.take k ∧
      ∀ i < msgs.length, i < k ↔ ((msgs.take (i + 1)).flatMap (unsentOf mem)).length ≤ nsent := by
  induction msgs generalizing nsent with
  | nil => exact ⟨0, rfl, fun i inside => absurd inside (Nat.not_lt_zero i)⟩
  | cons msg rest ih =>
      have first := unsent msg List.mem_cons_self
      have length : ∀ i, (((msg :: rest).take (i + 1)).flatMap (unsentOf mem)).length =
          (unsentOf mem msg).length + ((rest.take i).flatMap (unsentOf mem)).length := fun i => by
        rw [List.take_succ_cons, List.flatMap_cons, List.length_append]
      rw [trace]
      by_cases none : nsent = 0
      · rw [if_pos none]
        refine ⟨0, rfl, fun i _ => iff_of_false (Nat.not_lt_zero i) ?_⟩
        rw [length]
        omega
      · rw [if_neg none]
        by_cases whole : (unsentOf mem msg).length ≤ nsent
        · obtain ⟨k, prefixOf, inPrefix⟩ := ih (nsent - (unsentOf mem msg).length)
            fun x member => unsent x (List.mem_cons_of_mem _ member)
          rw [if_pos whole]
          refine ⟨k + 1, congrArg (msg :: ·) prefixOf, fun i inside => ?_⟩
          cases i with
          | zero =>
              refine iff_of_true (Nat.succ_pos k) ?_
              rw [length]
              exact whole
          | succ i =>
              have next := inPrefix i (Nat.lt_of_succ_lt_succ inside)
              rw [length, Nat.succ_lt_succ_iff, next]
              omega
        · rw [if_neg whole]
          refine ⟨0, rfl, fun i _ => iff_of_false (Nat.not_lt_zero i) ?_⟩
          rw [length]
          omega

/-! ### What is left to send -/

/-- What is left of the messages: nothing of those given to `sendDone`. -/
def left (given : List Addr) (mem : Addr → NcMsg) (msgs : List Addr) : List UInt8 :=
  msgs.flatMap fun msg => if msg ∈ given then [] else unsentOf mem msg

theorem left_nil (mem : Addr → NcMsg) (msgs : List Addr) :
    left [] mem msgs = msgs.flatMap (unsentOf mem) := rfl

/-- **The bytes written are dropped from the front**, and the markers of the buffers stay in
order. -/
theorem rest_of_run (leaves : Leaves done I msgs) (holds : I s)
    (sendable : Sendable s.msg_pool.mem msgs) (nsent : Nat) :
    left (calls (trace s.msg_pool.mem msgs nsent))
        (replay done (trace s.msg_pool.mem msgs nsent) s).msg_pool.mem msgs =
      (msgs.flatMap (unsentOf s.msg_pool.mem)).drop nsent ∧
    ∀ msg ∈ msgs, msg ∉ calls (trace s.msg_pool.mem msgs nsent) →
      ∀ mbuf ∈ ((replay done (trace s.msg_pool.mem msgs nsent) s).msg_pool.mem msg).m_mbuf_queue,
        mbuf.Valid := by
  induction msgs generalizing nsent s with
  | nil => exact ⟨List.drop_nil.symm, nofun⟩
  | cons msg rest ih =>
      obtain ⟨fresh, -⟩ := List.nodup_cons.mp sendable.distinct
      have different : ∀ x ∈ rest, x ≠ msg := fun x member same => fresh (same ▸ member)
      rw [trace]
      by_cases none : nsent = 0
      · rw [if_pos none, none, List.drop_zero]
        exact ⟨left_nil _ _, fun x member _ => sendable.valid x member⟩
      · rw [if_neg none, List.flatMap_cons]
        by_cases whole : (unsentOf s.msg_pool.mem msg).length ≤ nsent
        · -- the first message is done, and the rest of the run is a run on the others
          have same := leaves.first holds fresh nsent
          have holds' := leaves.call (leaves.write nsent holds List.mem_cons_self)
            List.mem_cons_self
          obtain ⟨dropped, valid⟩ := ih leaves.tail holds' (sendable.tail same)
            (nsent - (unsentOf s.msg_pool.mem msg).length)
          have others : rest.flatMap (unsentOf (done msg _).msg_pool.mem) =
              rest.flatMap (unsentOf s.msg_pool.mem) := List.flatMap_congr fun x member => by
            unfold unsentOf
            rw [same x member]
          rw [trace_congr same] at dropped valid
          rw [others] at dropped
          rw [if_pos whole, List.drop_append, List.drop_eq_nil_of_le whole, List.nil_append,
            ← dropped]
          refine ⟨?_, fun x member notGiven => ?_⟩
          · show left (msg :: calls _) _ (msg :: rest) = _
            unfold left
            rw [List.flatMap_cons, if_pos List.mem_cons_self, List.nil_append]
            refine List.flatMap_congr fun x member => ?_
            refine if_congr ?_ rfl rfl
            rw [List.mem_cons]
            exact or_iff_right (different x member)
          · have notGiven : x ∉ msg :: calls _ := notGiven
            rw [List.mem_cons, not_or] at notGiven
            rcases List.mem_cons.mp member with isMsg | inRest
            · exact absurd isMsg notGiven.1
            · exact valid x inRest notGiven.2
        · -- the first message keeps some of its bytes
          obtain ⟨dropped, valid⟩ := consume_spec nsent (sendable.valid msg List.mem_cons_self)
          have atMsg := mem_consume_self done s msg nsent
          have short := Nat.le_of_lt (Nat.not_le.mp whole)
          rw [if_neg whole, List.drop_append_of_le_length short]
          refine ⟨?_, fun x member _ => ?_⟩
          · show left [] ((Accounting.consume msg nsent).run done s).msg_pool.mem _ = _
            rw [left_nil, List.flatMap_cons]
            congr 1
            · unfold unsentOf
              rw [atMsg]
              exact dropped
            · refine List.flatMap_congr fun x member => ?_
              unfold unsentOf
              rw [mem_consume done s (different x member)]
          · show ∀ mbuf ∈ (((Accounting.consume msg nsent).run done s).msg_pool.mem x).m_mbuf_queue, _
            rcases List.mem_cons.mp member with rfl | inRest
            · rw [atMsg]
              exact valid
            · rw [mem_consume done s (different x inRest)]
              exact sendable.valid x member

/-- **Short-write accounting.** -/
theorem short_write (done : Addr → Sending → Sending) (I : Sending → Prop) (msgs : List Addr)
    (s : Sending) (nsent : Nat) (leaves : Leaves done I msgs) (holds : I s)
    (sendable : Sendable s.msg_pool.mem msgs) :
    ∃ s' given, account done msgs [] nsent s = .ok s' ∧
      s' = replay done (trace s.msg_pool.mem msgs nsent) s ∧
      given = calls (trace s.msg_pool.mem msgs nsent) ∧
      left given s'.msg_pool.mem msgs =
        (msgs.flatMap (unsentOf s.msg_pool.mem)).drop nsent ∧
      (∃ k, given = msgs.take k ∧ ∀ i < msgs.length,
        i < k ↔ ((msgs.take (i + 1)).flatMap (unsentOf s.msg_pool.mem)).length ≤ nsent) ∧
      (∀ msg ∈ msgs, ∀ n, ∀ mbuf ∈ (consume n (s.msg_pool.mem msg).m_mbuf_queue).2.1,
        mbuf.m_pos ≤ mbuf.m_last) ∧
      ∀ msg ∈ msgs, msg ∉ given → ∀ mbuf ∈ (s'.msg_pool.mem msg).m_mbuf_queue,
        mbuf.m_pos ≤ mbuf.m_last := by
  obtain ⟨dropped, valid⟩ := rest_of_run leaves holds sendable nsent
  refine ⟨_, _, account_eq [] leaves holds sendable fun _ _ => List.not_mem_nil, rfl, rfl, dropped,
    calls_take nsent sendable.unsent, fun msg member n mbuf inQueue => ?_,
    fun msg member notGiven mbuf inQueue => ?_⟩
  · exact ((consume_spec n (sendable.valid msg member)).2 mbuf inQueue).pos
  · exact (valid msg member notGiven mbuf inQueue).pos

end NcConn

namespace NcServerConn

open NcConn

/-- **`NcServerConn::sendDone` leaves the other requests as they are**, as no request on the way to a
server has a response. -/
theorem leaves_sendDone (msgs : List Addr) :
    Leaves sendDone (fun s => ∀ msg ∈ msgs, (s.msg_pool.mem msg).m_peer = none) msgs := by
  have other : ∀ {s : Sending} {msg x : Addr}, (s.msg_pool.mem msg).m_peer = none → x ≠ msg →
      (sendDone msg s).msg_pool.mem x = s.msg_pool.mem x := by
    intro s msg x alone different
    unfold sendDone
    by_cases noreply : (s.msg_pool.mem msg).m_noreply = true
    · rw [if_pos noreply]
      exact mem_freeMsg alone different
    · rw [if_neg noreply]
  refine ⟨fun holds member _ different => other (holds _ member) different,
    fun {s msg} holds member x inMsgs => ?_, fun {s msg} nsent holds member x inMsgs => ?_⟩
  · by_cases isMsg : x = msg
    · rw [isMsg]
      unfold sendDone
      by_cases noreply : (s.msg_pool.mem msg).m_noreply = true
      · rw [if_pos noreply]
        exact peer_freeMsg (holds msg member)
      · rw [if_neg noreply]
        exact holds msg member
    · rw [other (holds msg member) isMsg]
      exact holds x inMsgs
  · by_cases isMsg : x = msg
    · rw [isMsg, mem_consume_self]
      exact holds msg member
    · rw [mem_consume sendDone s isMsg]
      exact holds x inMsgs

theorem sendable_twoQueued : Sendable twoQueued.msg_pool.mem twoQueued.conn.m_imsg_q where
  distinct := idle_twoQueued.distinct
  filled msg member := Nat.pos_of_ne_zero (idle_twoQueued.requests msg member).filled
  unsent msg _ := by
    show 0 < (unsent [oneByte (if msg = 1 then 71 else 69)]).length
    unfold unsent
    rw [List.flatMap_singleton, NcMbuf.content, NcMbuf.length_bytes]
    exact Nat.one_pos
  valid msg member := (idle_twoQueued.requests msg member).valid

/-- One byte of the two requests `G` and `E` is written. -/
theorem short_write_twoQueued :
    ∃ s', account sendDone [1, 2] [] 1 twoQueued = .ok s' ∧
      left (calls (trace twoRequests.mem [1, 2] 1)) s'.msg_pool.mem [1, 2] = [69] := by
  obtain ⟨s', given, runs, -, rfl, rest, -⟩ :=
    short_write sendDone _ [1, 2] twoQueued 1 (leaves_sendDone [1, 2]) (fun _ _ => rfl)
      sendable_twoQueued
  refine ⟨s', runs, rest.trans ?_⟩
  decide +kernel

end NcServerConn

end Nutcracker
