/-
**The bound of the `iovec` array.**

The gather loop compares the number of entries with `NC_IOV_MAX` between two messages, and adds an
entry for each buffer of a message without looking. Each turn adds the unsent buffers of the first
message, so the array is overrun as soon as a turn starts below the bound and ends above it.

* `overrun_iff` — **the loop writes past the array exactly if one of its turns does**.
* `length_gather` — otherwise it passes at most `NC_IOV_MAX` entries to `sendv`.
* `iov_bound` — the condition for any `sendNext`, for a client connection and for a server
  connection.
* `iov_overrun` — a response of 129 buffers is enough.
-/

import Nutcracker.Client.Send
import Nutcracker.Server.Wire

namespace Nutcracker

namespace NcConn

/-- `sendNext` answers with a message `j` times, when `n` messages are gathered. -/
def Answers (next : Nat → NcConn → NcConn × Ptr) : Nat → Nat → NcConn → Prop
  | _, 0, _ => True
  | n, j + 1, conn => (next n conn).2 ≠ none ∧ Answers next (n + 1) j (next n conn).1

/-- **The array is never overrun**: no entry is written past it, and `sendv` gets no more than
`NC_IOV_MAX` entries. -/
def Bounded (next : Nat → NcConn → NcConn × Ptr) (done : Addr → Sending → Sending) (msg : Addr)
    (s : Sending) : Prop :=
  ∀ fuel, (∀ answer, sendChain next done answer fuel msg s ≠ .error .iovOverrun) ∧
    ∀ g, gather next s.msg_pool.mem msg fuel msg ⟨s.conn, [], [], 0⟩ = .ok g →
      g.iov.length ≤ NC_IOV_MAX

/-- The number of buffers of a message with something to send. -/
def unsentMbufs (mem : Addr → NcMsg) (msg : Addr) : Nat :=
  ((mem msg).m_mbuf_queue.filter fun mbuf => !mbuf.empty).length

variable {next : Nat → NcConn → NcConn × Ptr} {done : Addr → Sending → Sending}
  {mem : Addr → NcMsg} {msg cmsg : Addr} {g g' : Gathering} {s : Sending}

theorem length_segments : (segments msg (mem msg).m_mbuf_queue).length = unsentMbufs mem msg :=
  List.length_map ..

/-! ### The gather loop -/

/-- A turn adds the segments of the message. -/
theorem length_iov_turn : (turn mem msg cmsg g).iov.length = g.iov.length + unsentMbufs mem msg := by
  rw [length_turn, length_segments]

theorem length_send_msgq_turn :
    (turn mem msg cmsg g).send_msgq.length = g.send_msgq.length + 1 :=
  List.length_append

/-- **If the loop writes past the array, so does one of its turns.** -/
theorem turns_of_overrun {fuel : Nat} (valid : ∀ mbuf ∈ (mem msg).m_mbuf_queue, mbuf.Valid)
    (counted : g.Counted) (room : g.iov.length ≤ NC_IOV_MAX)
    (overruns : gather next mem msg fuel cmsg g = .error .iovOverrun) :
    ∃ j, Answers next (g.send_msgq.length + 1) j g.conn ∧
      (j = 0 ∨ g.iov.length + j * unsentMbufs mem msg < NC_IOV_MAX) ∧
      NC_IOV_MAX < g.iov.length + (j + 1) * unsentMbufs mem msg := by
  have count : (segments msg (mem msg).m_mbuf_queue).length = unsentMbufs mem msg := length_segments
  induction fuel generalizing cmsg g with
  | zero => cases overruns
  | succ fuel ih =>
      rcases Nat.lt_trichotomy (g.iov.length + (segments msg (mem msg).m_mbuf_queue).length)
        NC_IOV_MAX with short | full | past
      · have length : (g.send_msgq ++ [cmsg]).length = g.send_msgq.length + 1 := List.length_append
        cases answer : next (g.send_msgq ++ [cmsg]).length g.conn with
        | mk conn result =>
            cases result with
            | none =>
                rw [gather_null fuel valid counted short answer] at overruns
                cases overruns
            | some cmsg' =>
                rw [gather_next fuel valid counted short answer] at overruns
                rw [length] at answer
                have room' : (turn mem msg cmsg g).iov.length ≤ NC_IOV_MAX := by
                  rw [length_turn]
                  exact Nat.le_of_lt short
                obtain ⟨j, answers, below, above⟩ :=
                  ih (counted_turn valid counted cmsg conn) room' overruns
                simp only [length_iov_turn, length_send_msgq_turn] at answers below above
                refine ⟨j + 1, ⟨?_, ?_⟩, Or.inr ?_, ?_⟩
                · rw [answer]
                  exact Option.some_ne_none cmsg'
                · rw [answer]
                  exact answers
                · rw [count] at short
                  rw [Nat.succ_mul]
                  rcases below with rfl | below
                  · omega
                  · omega
                · rw [Nat.succ_mul (j + 1)]
                  omega
      · rw [gather_full fuel valid counted full] at overruns
        cases overruns
      · refine ⟨0, trivial, Or.inl rfl, ?_⟩
        rw [count] at past
        omega

/-- **If a turn writes past the array, so does the loop** that comes to it. -/
theorem overrun_of_turns {j : Nat} (valid : ∀ mbuf ∈ (mem msg).m_mbuf_queue, mbuf.Valid)
    (counted : g.Counted) (room : g.iov.length ≤ NC_IOV_MAX)
    (answers : Answers next (g.send_msgq.length + 1) j g.conn)
    (below : j = 0 ∨ g.iov.length + j * unsentMbufs mem msg < NC_IOV_MAX)
    (above : NC_IOV_MAX < g.iov.length + (j + 1) * unsentMbufs mem msg) :
    gather next mem msg (j + 1) cmsg g = .error .iovOverrun := by
  have count : (segments msg (mem msg).m_mbuf_queue).length = unsentMbufs mem msg := length_segments
  induction j generalizing cmsg g with
  | zero =>
      refine gather_overrun 0 valid counted room ?_
      rw [count]
      omega
  | succ j ih =>
      have below := below.resolve_left (Nat.succ_ne_zero j)
      rw [Nat.succ_mul] at below
      rw [Nat.succ_mul (j + 1)] at above
      obtain ⟨cmsg', isSome⟩ := Option.ne_none_iff_exists'.mp answers.1
      have answer : next (g.send_msgq ++ [cmsg]).length g.conn =
          ((next (g.send_msgq.length + 1) g.conn).1, some cmsg') := by
        rw [List.length_append, List.length_singleton]
        exact Prod.ext rfl isSome
      have short : g.iov.length + (segments msg (mem msg).m_mbuf_queue).length < NC_IOV_MAX := by
        rw [count]
        omega
      rw [gather_next (j + 1) valid counted short answer]
      refine ih (counted_turn valid counted cmsg _) ?_ ?_ (Or.inr ?_) ?_
      · rw [length_iov_turn]
        omega
      · rw [length_send_msgq_turn]
        exact answers.2
      · rw [length_iov_turn]
        omega
      · rw [length_iov_turn]
        omega

/-- **The loop writes past the array exactly if one of its turns does.** -/
theorem overrun_iff (valid : ∀ mbuf ∈ (mem msg).m_mbuf_queue, mbuf.Valid) (counted : g.Counted)
    (room : g.iov.length ≤ NC_IOV_MAX) :
    (∃ fuel, gather next mem msg fuel cmsg g = .error .iovOverrun) ↔
      ∃ j, Answers next (g.send_msgq.length + 1) j g.conn ∧
        (j = 0 ∨ g.iov.length + j * unsentMbufs mem msg < NC_IOV_MAX) ∧
        NC_IOV_MAX < g.iov.length + (j + 1) * unsentMbufs mem msg := by
  constructor
  · rintro ⟨fuel, overruns⟩
    exact turns_of_overrun valid counted room overruns
  · rintro ⟨j, answers, below, above⟩
    exact ⟨j + 1, overrun_of_turns valid counted room answers below above⟩

/-- What the loop returns is within the bound. -/
theorem length_gather (fuel : Nat) (valid : ∀ mbuf ∈ (mem msg).m_mbuf_queue, mbuf.Valid)
    (counted : g.Counted) (room : g.iov.length ≤ NC_IOV_MAX)
    (returns : gather next mem msg fuel cmsg g = .ok g') : g'.iov.length ≤ NC_IOV_MAX := by
  induction fuel generalizing cmsg g with
  | zero => cases returns
  | succ fuel ih =>
      rcases Nat.lt_trichotomy (g.iov.length + (segments msg (mem msg).m_mbuf_queue).length)
        NC_IOV_MAX with short | full | past
      · have within : (turn mem msg cmsg g).iov.length ≤ NC_IOV_MAX := by
          rw [length_turn]
          exact Nat.le_of_lt short
        cases answer : next (g.send_msgq ++ [cmsg]).length g.conn with
        | mk conn result =>
            cases result with
            | none =>
                rw [gather_null fuel valid counted short answer] at returns
                rw [← Except.ok.inj returns]
                exact within
            | some cmsg' =>
                rw [gather_next fuel valid counted short answer] at returns
                exact ih (counted_turn valid counted cmsg conn) within returns
      · rw [gather_full fuel valid counted full] at returns
        rw [← Except.ok.inj returns, length_turn]
        exact Nat.le_of_eq full
      · rw [gather_overrun fuel valid counted room past] at returns
        cases returns

/-! ### `sendChain` -/

/-- The accounting loop writes no entry. -/
theorem account_ne_overrun (done : Addr → Sending → Sending) (msgs removed : List Addr)
    (nsent : Nat) (s : Sending) :
    account done msgs removed nsent s ≠ .error .iovOverrun := by
  induction msgs generalizing removed nsent s with
  | nil =>
      intro same
      cases same
  | cons msg rest ih =>
      rw [account]
      split
      · exact ih removed nsent s
      · split
        · intro same
          cases same
        · split
          · exact ih (msg :: removed) nsent _
          · show account done rest (msg :: removed) _ _ ≠ _
            exact ih (msg :: removed) _ _

/-- The fault of the gather loop is the fault of `sendChain`. -/
theorem sendChain_overrun_iff {fuel : Nat} {answer : SendvAnswer} :
    sendChain next done answer fuel msg s = .error .iovOverrun ↔
      gather next s.msg_pool.mem msg fuel msg ⟨s.conn, [], [], 0⟩ = .error .iovOverrun := by
  unfold sendChain
  cases gathers : gather next s.msg_pool.mem msg fuel msg ⟨s.conn, [], [], 0⟩ with
  | error fault =>
      show (Except.error fault : Except SendFault _) = _ ↔ _
      rw [Except.error.injEq, Except.error.injEq]
  | ok g =>
      refine iff_of_false (fun fails => ?_) nofun
      have other := account_ne_overrun done g.send_msgq [] (sent answer g).2.toNat
        ⟨(sent answer g).1, s.msg_pool⟩
      have fails : (account done g.send_msgq [] (sent answer g).2.toNat
        ⟨(sent answer g).1, s.msg_pool⟩ >>= _) = Except.error .iovOverrun := fails
      cases accounts : account done g.send_msgq [] (sent answer g).2.toNat
        ⟨(sent answer g).1, s.msg_pool⟩ with
      | error fault =>
          rw [accounts] at fails other
          exact other (congrArg Except.error (Except.error.inj fails))
      | ok s' =>
          rw [accounts] at fails
          cases fails

/-- **The bound holds exactly if every turn that starts below it ends below it.** -/
theorem bounded_iff (valid : ∀ mbuf ∈ (s.msg_pool.mem msg).m_mbuf_queue, mbuf.Valid) :
    Bounded next done msg s ↔ ∀ j, Answers next 1 j s.conn →
      j * unsentMbufs s.msg_pool.mem msg < NC_IOV_MAX →
        (j + 1) * unsentMbufs s.msg_pool.mem msg ≤ NC_IOV_MAX := by
  have counted := NcServerConn.counted_start s.conn
  have overruns : (∃ fuel, gather next s.msg_pool.mem msg fuel msg ⟨s.conn, [], [], 0⟩ =
      .error .iovOverrun) ↔ _ := overrun_iff valid counted (Nat.zero_le _)
  simp only [List.length_nil, Nat.zero_add] at overruns
  constructor
  · intro bounded j answers below
    refine Nat.not_lt.mp fun above => ?_
    obtain ⟨fuel, fails⟩ := overruns.mpr ⟨j, answers, Or.inr below, above⟩
    exact (bounded fuel).1 .again (sendChain_overrun_iff.mpr fails)
  · intro turns fuel
    refine ⟨fun answer fails => ?_, fun g returns =>
      length_gather fuel valid counted (Nat.zero_le _) returns⟩
    obtain ⟨j, answers, below, above⟩ := overruns.mp ⟨fuel, sendChain_overrun_iff.mp fails⟩
    refine Nat.not_lt.mpr (turns j answers ?_) above
    rcases below with rfl | below
    · rw [Nat.zero_mul]
      decide
    · exact below

/-- Turns without end stay within the bound exactly if the buffers of the first message divide it. -/
theorem turns_within_iff (k : Nat) :
    (∀ j, j * k < NC_IOV_MAX → (j + 1) * k ≤ NC_IOV_MAX) ↔ k = 0 ∨ k ∣ NC_IOV_MAX := by
  constructor
  · intro turns
    rcases Nat.eq_zero_or_pos k with none | some
    · exact Or.inl none
    · refine Or.inr ?_
      have low : NC_IOV_MAX / k * k ≤ NC_IOV_MAX := Nat.div_mul_le_self _ _
      have high : NC_IOV_MAX < (NC_IOV_MAX / k + 1) * k := by
        rw [Nat.mul_comm]
        exact Nat.lt_mul_div_succ NC_IOV_MAX some
      rcases Nat.lt_or_eq_of_le low with below | whole
      · exact absurd (turns _ below) (Nat.not_le.mpr high)
      · exact ⟨NC_IOV_MAX / k, by rw [Nat.mul_comm, whole]⟩
  · rintro (rfl | ⟨turns, whole⟩) j below
    · exact Nat.zero_le _
    · rw [whole, Nat.mul_comm k] at below ⊢
      exact Nat.mul_le_mul_right k (Nat.lt_of_mul_lt_mul_right below)

end NcConn

namespace NcClientConn

open NcConn

variable {mem : Addr → NcMsg} {msg pmsg : Addr} {rest : List Addr} {conn : NcConn}

/-- The gather loop of a client connection takes one turn. -/
theorem answers_iff (delOutput : Option Int) (queue : conn.m_omsg_q = pmsg :: rest)
    (sending : conn.m_smsg ≠ none) (j : Nat) : Answers (nextOf delOutput mem) 1 j conn ↔ j = 0 := by
  cases j with
  | zero => exact iff_of_true trivial rfl
  | succ j =>
      refine iff_of_false (fun answers => answers.1 ?_) (Nat.succ_ne_zero j)
      show (sendNext delOutput mem conn).2 = none
      rw [sendNext_sending queue sending]

end NcClientConn

namespace NcServerConn

open NcConn

variable {mem : Addr → NcMsg} {msg second : Addr} {rest : List Addr} {conn : NcConn}

/-- With one request, the gather loop of a server connection takes one turn. -/
theorem answers_one (sys : Nat → SysCalls) (queue : conn.m_imsg_q = [msg])
    (sending : conn.m_smsg ≠ none) (j : Nat) : Answers (nextOf sys) 1 j conn ↔ j = 0 := by
  cases j with
  | zero => exact iff_of_true trivial rfl
  | succ j =>
      exact iff_of_false (fun answers => answers.1 (sendNext_second (sys 1) queue sending).1)
        (Nat.succ_ne_zero j)

/-- With more, it takes any number of turns. -/
theorem answers_many (sys : Nat → SysCalls) (many : Many msg second rest conn) (n j : Nat) :
    Answers (nextOf sys) n j conn := by
  induction j generalizing n conn with
  | zero => trivial
  | succ j ih =>
      obtain ⟨conn', answer, many'⟩ := many.next sys n
      refine ⟨?_, ?_⟩
      · rw [answer]
        exact Option.some_ne_none second
      · rw [answer]
        exact ih many' (n + 1)

end NcServerConn

namespace NcConn

/-- **The bound of the array**, for any `sendNext`; for a client connection with a request queued;
and for a server connection with one request, and with more. -/
theorem iov_bound (done : Addr → Sending → Sending) (msg : Addr) (s : Sending)
    (valid : ∀ mbuf ∈ (s.msg_pool.mem msg).m_mbuf_queue, mbuf.Valid) :
    (∀ next, Bounded next done msg s ↔ ∀ j, Answers next 1 j s.conn →
      j * unsentMbufs s.msg_pool.mem msg < NC_IOV_MAX →
        (j + 1) * unsentMbufs s.msg_pool.mem msg ≤ NC_IOV_MAX) ∧
    (s.conn.m_smsg ≠ none →
      (∀ delOutput pmsg rest, s.conn.m_omsg_q = pmsg :: rest →
        (Bounded (NcClientConn.nextOf delOutput s.msg_pool.mem) done msg s ↔
          unsentMbufs s.msg_pool.mem msg ≤ NC_IOV_MAX)) ∧
      (∀ sys, s.conn.m_imsg_q = [msg] →
        (Bounded (NcServerConn.nextOf sys) done msg s ↔
          unsentMbufs s.msg_pool.mem msg ≤ NC_IOV_MAX)) ∧
      ∀ sys second rest, s.conn.m_imsg_q = msg :: second :: rest →
        (Bounded (NcServerConn.nextOf sys) done msg s ↔
          unsentMbufs s.msg_pool.mem msg = 0 ∨ unsentMbufs s.msg_pool.mem msg ∣ NC_IOV_MAX)) := by
  have one : ∀ next, (∀ j, Answers next 1 j s.conn ↔ j = 0) →
      (Bounded next done msg s ↔ unsentMbufs s.msg_pool.mem msg ≤ NC_IOV_MAX) := by
    intro next single
    rw [bounded_iff valid]
    constructor
    · intro turns
      have first := turns 0 ((single 0).mpr rfl)
      rw [Nat.zero_mul, Nat.zero_add, Nat.one_mul] at first
      exact first (by decide)
    · intro fits j answers _
      rw [(single j).mp answers, Nat.zero_add, Nat.one_mul]
      exact fits
  refine ⟨fun next => bounded_iff valid, fun sending => ⟨fun delOutput pmsg rest queue => ?_,
    fun sys queue => ?_, fun sys second rest queue => ?_⟩⟩
  · exact one _ (NcClientConn.answers_iff delOutput queue sending)
  · exact one _ (NcServerConn.answers_one sys queue sending)
  · rw [bounded_iff valid, ← turns_within_iff]
    refine forall_congr' fun j => ?_
    exact forall_prop_of_true (NcServerConn.answers_many sys ⟨queue, sending⟩ 1 j)

open NcServerConn (oneByte twoQueued idle_twoQueued noErrors) in
/-- Two requests of one buffer: the array fills up exactly. -/
theorem iov_bound_of_twoQueued :
    Bounded (NcServerConn.nextOf noErrors) NcServerConn.sendDone 1
      { twoQueued with conn := { twoQueued.conn with m_smsg := some 1 } } := by
  have valid := (idle_twoQueued.requests 1 List.mem_cons_self).valid
  have bound := iov_bound NcServerConn.sendDone 1
    { twoQueued with conn := { twoQueued.conn with m_smsg := some 1 } } valid
  refine ((bound.2 (Option.some_ne_none 1)).2.2 noErrors 2 [] rfl).mpr (Or.inr ?_)
  exact one_dvd NC_IOV_MAX

/-- A client connection that sends the response 2 of 129 buffers to the request 1. -/
def longResponse : Sending :=
  ⟨{ NcConn.new with m_sd := 5, m_owner := some 0, m_omsg_q := [1], m_smsg := some 2 },
    { NcObjectPool.default (fun msg =>
        if msg = 1 then { NcMsg.new with m_peer := some 2, m_mlen := 1, m_done := true }
        else
          { NcMsg.new with
            m_peer := some 1, m_mlen := 129,
            m_mbuf_queue := List.replicate 129 (NcServerConn.oneByte 65) }) none
      with made := 3 }⟩

/-- **A response of 129 buffers is written past the array.** -/
theorem iov_overrun :
    ¬ Bounded (NcClientConn.nextOf none longResponse.msg_pool.mem) NcClientConn.sendDone 2
      longResponse := by
  have valid : ∀ mbuf ∈ (longResponse.msg_pool.mem 2).m_mbuf_queue, mbuf.Valid := by
    intro mbuf member
    rw [List.eq_of_mem_replicate (show mbuf ∈ List.replicate 129 _ from member)]
    exact NcServerConn.valid_oneByte 65
  have count : unsentMbufs longResponse.msg_pool.mem 2 = 129 := by decide +kernel
  intro bounded
  have first := (bounded_iff valid).mp bounded 0 trivial
  rw [count] at first
  exact absurd (first (by decide)) (by decide)

end NcConn

end Nutcracker
