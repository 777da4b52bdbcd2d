/-
**The gather loop on a server connection.**

The loop has no counter: it ends when the array is full or `sendNext` returns `NULL`. With two or
more requests queued `sendNext` never does, so the loop takes the buffers of the first request again
and again, and puts the second request on `send_msgq` each time.

* `gather_turn` — one turn, for any `sendNext`; `gather_full`, `gather_null`, `gather_next` and
  `gather_overrun` are its cases.
* `gather_many` — what the loop returns with two or more requests: the array is exactly full.
* `gather_ends_iff` — **it ends exactly if there is one request or the first has an unsent byte**.
* `enumeration_of_queue` — the three properties of the enumeration, each with its condition.
* `enumeration_fails` — three requests without bytes: the loop never ends.
-/

import Nutcracker.Conn.SendChain
import Nutcracker.Server.SendNext
import Mathlib.Data.List.Nodup

namespace Nutcracker

namespace NcConn

/-- The gathering after one turn: another message on `send_msgq`, and the entries of the first. -/
def turn (mem : Addr → NcMsg) (msg cmsg : Addr) (g : Gathering) : Gathering :=
  Gathering.add { g with send_msgq := g.send_msgq ++ [cmsg] } (segments msg (mem msg).m_mbuf_queue)

section Turn

variable {next : Nat → NcConn → NcConn × Ptr} {mem : Addr → NcMsg} {msg cmsg : Addr} {g : Gathering}

theorem length_turn : (turn mem msg cmsg g).iov.length =
    g.iov.length + (segments msg (mem msg).m_mbuf_queue).length := List.length_append

theorem counted_turn (valid : ∀ mbuf ∈ (mem msg).m_mbuf_queue, mbuf.Valid) (counted : g.Counted)
    (cmsg : Addr) (conn : NcConn) : Gathering.Counted { turn mem msg cmsg g with conn } := by
  have same : Gathering.Counted { g with send_msgq := g.send_msgq ++ [cmsg] } :=
    ⟨counted.sum, counted.small⟩
  have small : ∀ entry ∈ segments msg (mem msg).m_mbuf_queue, entry.len ≤ MBUF_MAX_SIZE :=
    segments_small valid
  exact ⟨(same.add small).sum, (same.add small).small⟩

/-- **One turn** that fits into the array: the loop ends there if the array is full. -/
theorem gather_turn (fuel : Nat) (valid : ∀ mbuf ∈ (mem msg).m_mbuf_queue, mbuf.Valid)
    (counted : g.Counted)
    (fits : g.iov.length + (segments msg (mem msg).m_mbuf_queue).length ≤ NC_IOV_MAX) :
    gather next mem msg (fuel + 1) cmsg g =
      if NC_IOV_MAX ≤ (turn mem msg cmsg g).iov.length then .ok (turn mem msg cmsg g)
      else
        match next (turn mem msg cmsg g).send_msgq.length (turn mem msg cmsg g).conn with
        | (conn, none) => .ok { turn mem msg cmsg g with conn }
        | (conn, some cmsg') => gather next mem msg fuel cmsg' { turn mem msg cmsg g with conn } := by
  have counted' : (turn mem msg cmsg g).Counted := counted_turn valid counted cmsg g.conn
  have below := counted'.below (by rw [length_turn]; exact fits)
  have inLimit : ¬ SSIZE_MAX < (turn mem msg cmsg g).nsend := by omega
  have adds : addMbufs msg (mem msg).m_mbuf_queue { g with send_msgq := g.send_msgq ++ [cmsg] } =
      .ok (turn mem msg cmsg g) := addMbufs_fits valid ⟨counted.sum, counted.small⟩ fits
  rw [gather, adds]
  show (if NC_IOV_MAX ≤ _ ∨ SSIZE_MAX < _ then _ else _) = _
  simp only [inLimit, or_false]
  rfl

/-- A turn that does not fill the array, after which `sendNext` returns `NULL`. -/
theorem gather_null (fuel : Nat) {conn : NcConn}
    (valid : ∀ mbuf ∈ (mem msg).m_mbuf_queue, mbuf.Valid) (counted : g.Counted)
    (short : g.iov.length + (segments msg (mem msg).m_mbuf_queue).length < NC_IOV_MAX)
    (null : next (g.send_msgq ++ [cmsg]).length g.conn = (conn, none)) :
    gather next mem msg (fuel + 1) cmsg g = .ok { turn mem msg cmsg g with conn } := by
  have more : ¬ NC_IOV_MAX ≤ (turn mem msg cmsg g).iov.length := by
    rw [length_turn]
    exact Nat.not_le.mpr short
  have result : next (turn mem msg cmsg g).send_msgq.length (turn mem msg cmsg g).conn =
      (conn, none) := null
  rw [gather_turn fuel valid counted (Nat.le_of_lt short), if_neg more, result]

/-- A turn that does not fill the array, after which `sendNext` returns another message. -/
theorem gather_next (fuel : Nat) {conn : NcConn} {cmsg' : Addr}
    (valid : ∀ mbuf ∈ (mem msg).m_mbuf_queue, mbuf.Valid) (counted : g.Counted)
    (short : g.iov.length + (segments msg (mem msg).m_mbuf_queue).length < NC_IOV_MAX)
    (another : next (g.send_msgq ++ [cmsg]).length g.conn = (conn, some cmsg')) :
    gather next mem msg (fuel + 1) cmsg g =
      gather next mem msg fuel cmsg' { turn mem msg cmsg g with conn } := by
  have more : ¬ NC_IOV_MAX ≤ (turn mem msg cmsg g).iov.length := by
    rw [length_turn]
    exact Nat.not_le.mpr short
  have result : next (turn mem msg cmsg g).send_msgq.length (turn mem msg cmsg g).conn =
      (conn, some cmsg') := another
  rw [gather_turn fuel valid counted (Nat.le_of_lt short), if_neg more, result]

/-- A turn that fills the array. -/
theorem gather_full (fuel : Nat) (valid : ∀ mbuf ∈ (mem msg).m_mbuf_queue, mbuf.Valid)
    (counted : g.Counted)
    (full : g.iov.length + (segments msg (mem msg).m_mbuf_queue).length = NC_IOV_MAX) :
    gather next mem msg (fuel + 1) cmsg g = .ok (turn mem msg cmsg g) := by
  rw [gather_turn fuel valid counted (Nat.le_of_eq full), if_pos]
  rw [length_turn]
  exact Nat.le_of_eq full.symm

/-- A turn that does not fit. -/
theorem gather_overrun (fuel : Nat) (valid : ∀ mbuf ∈ (mem msg).m_mbuf_queue, mbuf.Valid)
    (counted : g.Counted) (room : g.iov.length ≤ NC_IOV_MAX)
    (more : NC_IOV_MAX < g.iov.length + (segments msg (mem msg).m_mbuf_queue).length) :
    gather next mem msg (fuel + 1) cmsg g = .error .iovOverrun := by
  have fails : addMbufs msg (mem msg).m_mbuf_queue { g with send_msgq := g.send_msgq ++ [cmsg] } =
      .error .iovOverrun := addMbufs_overrun valid ⟨counted.sum, counted.small⟩ room more
  rw [gather, fails]
  rfl

end Turn

end NcConn

namespace NcServerConn

open NcConn

/-- `sendNext` as the gather loop calls it. -/
def nextOf (sys : Nat → SysCalls) : Nat → NcConn → NcConn × Ptr := fun n conn => sendNext (sys n) conn

/-- The gather loop of the call of `sendChain` that `sendMsg` makes: its first `sendNext` has
returned `msg`. -/
def gathered (sys : Nat → SysCalls) (mem : Addr → NcMsg) (msg : Addr) (fuel : Nat) (conn : NcConn) :
    Except SendFault Gathering :=
  gather (nextOf sys) mem msg fuel msg ⟨(sendNext (sys 0) conn).1, [], [], 0⟩

variable {sys : Nat → SysCalls} {mem : Addr → NcMsg} {msg cmsg second : Addr} {rest : List Addr}
  {g g' : Gathering}

/-! ### One request -/

/-- The gather loop with one request: one turn. -/
theorem gather_one (sys : Nat → SysCalls) (fuel : Nat) (valid : ∀ mbuf ∈ (mem msg).m_mbuf_queue, mbuf.Valid)
    (counted : g.Counted) (queue : g.conn.m_imsg_q = [msg]) (sending : g.conn.m_smsg ≠ none)
    (fits : g.iov.length + (segments msg (mem msg).m_mbuf_queue).length ≤ NC_IOV_MAX) :
    ∃ conn : NcConn, conn.m_imsg_q = g.conn.m_imsg_q ∧ conn.m_omsg_q = g.conn.m_omsg_q ∧
      conn.m_owner = g.conn.m_owner ∧
      gather (nextOf sys) mem msg (fuel + 1) msg g = .ok { turn mem msg msg g with conn } := by
  rcases Nat.lt_or_eq_of_le fits with short | full
  · let n := (g.send_msgq ++ [msg]).length
    obtain ⟨inQueue, outQueue, owner⟩ := sendNext_frame (sys n) g.conn
    obtain ⟨result, -⟩ := sendNext_second (sys n) queue sending
    have null : nextOf sys n g.conn = ((sendNext (sys n) g.conn).1, none) := Prod.ext rfl result
    exact ⟨_, inQueue, outQueue, owner, gather_null fuel valid counted short null⟩
  · exact ⟨g.conn, rfl, rfl, rfl, gather_full fuel valid counted full⟩

/-! ### Two or more requests -/

/-- Two or more requests in the queue, and the cursor set. -/
structure Many (msg second : Addr) (rest : List Addr) (conn : NcConn) : Prop where
  queue : conn.m_imsg_q = msg :: second :: rest
  sending : conn.m_smsg ≠ none

/-- **`sendNext` never gets to the end**: it returns the second request, and nothing changes. -/
theorem Many.next {conn : NcConn} (many : Many msg second rest conn) (sys : Nat → SysCalls)
    (n : Nat) :
    ∃ conn', nextOf sys n conn = (conn', some second) ∧ Many msg second rest conn' := by
  obtain ⟨result, cursor⟩ := sendNext_second (sys n) many.queue many.sending
  refine ⟨(sendNext (sys n) conn).1, Prod.ext rfl result,
    (sendNext_queue (sys n)).trans many.queue, ?_⟩
  rw [cursor]
  exact Option.some_ne_none second

/-- **What the loop returns with two or more requests**: the buffers of the first request, repeated
until the array is exactly full. -/
theorem gather_many (fuel : Nat) (valid : ∀ mbuf ∈ (mem msg).m_mbuf_queue, mbuf.Valid)
    (counted : g.Counted) (many : Many msg second rest g.conn) (room : g.iov.length ≤ NC_IOV_MAX)
    (returns : gather (nextOf sys) mem msg fuel cmsg g = .ok g') :
    ∃ j, g'.send_msgq = g.send_msgq ++ cmsg :: List.replicate j second ∧
      g'.iov = g.iov ++
        (List.replicate (j + 1) (segments msg (mem msg).m_mbuf_queue)).flatten ∧
      g'.iov.length = NC_IOV_MAX := by
  induction fuel generalizing cmsg g with
  | zero => cases returns
  | succ fuel ih =>
      rcases Nat.lt_trichotomy (g.iov.length + (segments msg (mem msg).m_mbuf_queue).length)
        NC_IOV_MAX with short | full | past
      · obtain ⟨conn, another, again⟩ := many.next sys (g.send_msgq ++ [cmsg]).length
        rw [gather_next fuel valid counted short another] at returns
        have room' : (turn mem msg cmsg g).iov.length ≤ NC_IOV_MAX := by
          rw [length_turn]
          exact Nat.le_of_lt short
        obtain ⟨j, msgq, iov, length⟩ :=
          ih (counted_turn valid counted cmsg conn) again room' returns
        refine ⟨j + 1, ?_, ?_, length⟩
        · rw [msgq]
          show (g.send_msgq ++ [cmsg]) ++ _ = _
          rw [List.append_assoc, List.singleton_append, List.replicate_succ]
        · rw [iov, List.replicate_succ (n := j + 1), List.flatten_cons, ← List.append_assoc]
          rfl
      · rw [gather_full fuel valid counted full] at returns
        obtain rfl := Except.ok.inj returns
        refine ⟨0, rfl, ?_, length_turn.trans full⟩
        rw [List.replicate_one, List.flatten_singleton]
        rfl
      · rw [gather_overrun fuel valid counted room past] at returns
        cases returns

/-- With an unsent byte in the first request, every turn makes the array longer. -/
theorem gather_many_ends (fuel : Nat) (valid : ∀ mbuf ∈ (mem msg).m_mbuf_queue, mbuf.Valid)
    (counted : g.Counted) (many : Many msg second rest g.conn) (room : g.iov.length < NC_IOV_MAX)
    (some : segments msg (mem msg).m_mbuf_queue ≠ []) (enough : NC_IOV_MAX ≤ fuel + g.iov.length) :
    gather (nextOf sys) mem msg fuel cmsg g ≠ .error .outOfFuel := by
  induction fuel generalizing cmsg g with
  | zero => omega
  | succ fuel ih =>
      have grows := List.length_pos_iff.mpr some
      rcases Nat.lt_trichotomy (g.iov.length + (segments msg (mem msg).m_mbuf_queue).length)
        NC_IOV_MAX with short | full | past
      · obtain ⟨conn, another, again⟩ := many.next sys (g.send_msgq ++ [cmsg]).length
        rw [gather_next fuel valid counted short another]
        refine ih (counted_turn valid counted cmsg conn) again ?_ ?_
        · show (turn mem msg cmsg g).iov.length < _
          rw [length_turn]
          exact short
        · show _ ≤ fuel + (turn mem msg cmsg g).iov.length
          rw [length_turn]
          omega
      · rw [gather_full fuel valid counted full]
        exact nofun
      · rw [gather_overrun fuel valid counted (Nat.le_of_lt room) past]
        exact nofun

/-- Without one, no turn changes the array, and the loop never ends. -/
theorem gather_many_diverges (fuel : Nat) (valid : ∀ mbuf ∈ (mem msg).m_mbuf_queue, mbuf.Valid)
    (counted : g.Counted) (many : Many msg second rest g.conn) (room : g.iov.length < NC_IOV_MAX)
    (none : segments msg (mem msg).m_mbuf_queue = []) :
    gather (nextOf sys) mem msg fuel cmsg g = .error .outOfFuel := by
  induction fuel generalizing cmsg g with
  | zero => rfl
  | succ fuel ih =>
      have short : g.iov.length + (segments msg (mem msg).m_mbuf_queue).length < NC_IOV_MAX := by
        rw [none]
        exact room
      obtain ⟨conn, another, again⟩ := many.next sys (g.send_msgq ++ [cmsg]).length
      rw [gather_next fuel valid counted short another]
      refine ih (counted_turn valid counted cmsg conn) again ?_
      show (turn mem msg cmsg g).iov.length < _
      rw [length_turn]
      exact short

/-! ### The enumeration of a queue -/

/-- The calls return the requests of the queue, in order, and then `NULL`. -/
def Enumerates (sys : Nat → SysCalls) (conn : NcConn) : Prop :=
  sendNexts ((List.range (conn.m_imsg_q.length + 1)).map sys) conn =
    conn.m_imsg_q.map some ++ [none]

/-- The gather loop ends. -/
def GatherEnds (sys : Nat → SysCalls) (mem : Addr → NcMsg) (conn : NcConn) : Prop :=
  ∀ msg ∈ conn.m_imsg_q.head?, ∃ fuel, gathered sys mem msg fuel conn ≠ .error .outOfFuel

/-- `send_msgq` never holds a message twice. -/
def NoRepeat (sys : Nat → SysCalls) (mem : Addr → NcMsg) (conn : NcConn) : Prop :=
  ∀ msg ∈ conn.m_imsg_q.head?, ∀ fuel g, gathered sys mem msg fuel conn = .ok g → g.send_msgq.Nodup

variable {conn : NcConn}

theorem counted_start (conn : NcConn) : Gathering.Counted ⟨conn, [], [], 0⟩ := ⟨rfl, nofun⟩

/-- The connection as the gather loop finds it: `sendMsg` has called `sendNext` once. -/
theorem sending_first (sys : SysCalls) (start : conn.m_smsg = none)
    (queue : conn.m_imsg_q = msg :: rest) :
    (sendNext sys conn).1.m_imsg_q = msg :: rest ∧ (sendNext sys conn).1.m_smsg ≠ none := by
  refine ⟨(sendNext_queue sys).trans queue, ?_⟩
  rw [(sendNext_first sys queue start).2]
  exact Option.some_ne_none msg

/-- **With one request** the loop puts it on `send_msgq` and ends, or writes past the array. -/
theorem gathered_one (sys : Nat → SysCalls) (fuel : Nat)
    (valid : ∀ mbuf ∈ (mem msg).m_mbuf_queue, mbuf.Valid) (start : conn.m_smsg = none)
    (queue : conn.m_imsg_q = [msg]) :
    ((segments msg (mem msg).m_mbuf_queue).length ≤ NC_IOV_MAX ∧
      ∃ conn' : NcConn, conn'.m_imsg_q = conn.m_imsg_q ∧ conn'.m_omsg_q = conn.m_omsg_q ∧
        conn'.m_owner = conn.m_owner ∧
        gathered sys mem msg (fuel + 1) conn =
          .ok { turn mem msg msg ⟨conn', [], [], 0⟩ with conn := conn' }) ∨
    (NC_IOV_MAX < (segments msg (mem msg).m_mbuf_queue).length ∧
      gathered sys mem msg (fuel + 1) conn = .error .iovOverrun) := by
  obtain ⟨inQueue, sending⟩ := sending_first (sys 0) start queue
  obtain ⟨-, outQueue, owner⟩ := sendNext_frame (sys 0) conn
  have counted := counted_start (sendNext (sys 0) conn).1
  rcases Nat.lt_or_ge NC_IOV_MAX (segments msg (mem msg).m_mbuf_queue).length with past | fits
  · refine Or.inr ⟨past, gather_overrun fuel valid counted (Nat.zero_le _) ?_⟩
    show _ < 0 + _
    rw [Nat.zero_add]
    exact past
  · obtain ⟨conn', inQueue', outQueue', owner', returns⟩ :=
      gather_one sys fuel valid counted inQueue sending
        (by show 0 + _ ≤ _; rw [Nat.zero_add]; exact fits)
    exact Or.inl ⟨fits, conn', inQueue'.trans (inQueue.trans queue.symm),
      outQueue'.trans outQueue, owner'.trans owner, returns⟩

/-- **The loop ends exactly if there is one request or the first has an unsent byte.** -/
theorem gather_ends_iff (sys : Nat → SysCalls)
    (valid : ∀ mbuf ∈ (mem msg).m_mbuf_queue, mbuf.Valid) (start : conn.m_smsg = none)
    (queue : conn.m_imsg_q = msg :: rest) :
    (∃ fuel, gathered sys mem msg fuel conn ≠ .error .outOfFuel) ↔
      rest = [] ∨ unsent (mem msg).m_mbuf_queue ≠ [] := by
  rw [ne_eq (unsent _), ← segments_eq_nil msg valid]
  cases rest with
  | nil =>
      refine iff_of_true ⟨1, ?_⟩ (Or.inl rfl)
      rcases gathered_one sys 0 valid start queue with ⟨-, conn', -, -, -, returns⟩ | ⟨-, fails⟩
      · rw [returns]
        exact nofun
      · rw [fails]
        exact nofun
  | cons second rest =>
      obtain ⟨inQueue, sending⟩ := sending_first (sys 0) start queue
      have many : Many msg second rest (sendNext (sys 0) conn).1 := ⟨inQueue, sending⟩
      have counted := counted_start (sendNext (sys 0) conn).1
      have room : (0 : Nat) < NC_IOV_MAX := by decide
      by_cases bytes : segments msg (mem msg).m_mbuf_queue = []
      · refine iff_of_false ?_ fun either => either.elim (List.cons_ne_nil _ _) fun ne => ne bytes
        rintro ⟨fuel, ends⟩
        exact ends (gather_many_diverges fuel valid counted many room bytes)
      · exact iff_of_true ⟨NC_IOV_MAX, gather_many_ends _ valid counted many room bytes (le_refl _)⟩
          (Or.inr bytes)

/-- **A message is on `send_msgq` twice exactly if there are two requests or more and the first has
fewer than 64 entries.** -/
theorem nodup_iff (sys : Nat → SysCalls) (fuel : Nat)
    (valid : ∀ mbuf ∈ (mem msg).m_mbuf_queue, mbuf.Valid) (start : conn.m_smsg = none)
    (queue : conn.m_imsg_q = msg :: rest) (distinct : conn.m_imsg_q.Nodup)
    (returns : gathered sys mem msg fuel conn = .ok g) :
    g.send_msgq.Nodup ↔ rest = [] ∨ 64 ≤ (segments msg (mem msg).m_mbuf_queue).length := by
  cases rest with
  | nil =>
      obtain ⟨fuel, rfl⟩ : ∃ n, fuel = n + 1 := by
        cases fuel with
        | zero => cases returns
        | succ n => exact ⟨n, rfl⟩
      rcases gathered_one sys fuel valid start queue with ⟨-, conn', -, -, -, same⟩ | ⟨-, fails⟩
      · rw [same] at returns
        obtain rfl := Except.ok.inj returns
        exact iff_of_true (List.nodup_singleton msg) (Or.inl rfl)
      · rw [fails] at returns
        cases returns
  | cons second rest =>
      obtain ⟨inQueue, sending⟩ := sending_first (sys 0) start queue
      obtain ⟨j, msgq, iov, length⟩ := gather_many fuel valid
        (counted_start (sendNext (sys 0) conn).1) ⟨inQueue, sending⟩ (Nat.zero_le _) returns
      rw [queue] at distinct
      have notSecond : msg ≠ second := fun same =>
        (List.nodup_cons.mp distinct).1 (same ▸ List.mem_cons_self)
      -- the array is full, with `j + 1` copies of the first request's entries
      have full : (j + 1) * (segments msg (mem msg).m_mbuf_queue).length = NC_IOV_MAX := by
        rw [iov, List.nil_append, List.length_flatten, List.map_replicate, List.sum_replicate,
          smul_eq_mul] at length
        exact length
      rw [msgq, List.nil_append, List.nodup_cons, List.nodup_replicate]
      constructor
      · rintro ⟨-, few⟩
        have half : (j + 1) * (segments msg (mem msg).m_mbuf_queue).length ≤
            2 * (segments msg (mem msg).m_mbuf_queue).length := Nat.mul_le_mul_right _ (by omega)
        unfold NC_IOV_MAX at full
        exact Or.inr (by omega)
      · rintro (none | wide)
        · cases none
        · refine ⟨fun again => notSecond (List.mem_replicate.mp again).2, ?_⟩
          by_contra more
          have three : 3 * (segments msg (mem msg).m_mbuf_queue).length ≤
              (j + 1) * (segments msg (mem msg).m_mbuf_queue).length :=
            Nat.mul_le_mul_right _ (by omega)
          unfold NC_IOV_MAX at full
          omega

/-- **The enumeration of the queue by `sendMsg` and the gather loop.** All three properties hold
exactly for queues of at most one request; the end of the loop and the repetitions on `send_msgq`
have conditions of their own. -/
theorem enumeration_of_queue (sys : Nat → SysCalls) (mem : Addr → NcMsg) (conn : NcConn)
    (start : conn.m_smsg = none)
    (valid : ∀ msg ∈ conn.m_imsg_q, ∀ mbuf ∈ (mem msg).m_mbuf_queue, mbuf.Valid)
    (distinct : conn.m_imsg_q.Nodup) :
    (Enumerates sys conn ∧ GatherEnds sys mem conn ∧ NoRepeat sys mem conn ↔
      conn.m_imsg_q.length ≤ 1) ∧
    (Enumerates sys conn ↔ conn.m_imsg_q.length ≤ 1) ∧
    ∀ msg rest, conn.m_imsg_q = msg :: rest →
      ((∃ fuel, gathered sys mem msg fuel conn ≠ .error .outOfFuel) ↔
        rest = [] ∨ unsent (mem msg).m_mbuf_queue ≠ []) ∧
      ∀ fuel g, gathered sys mem msg fuel conn = .ok g →
        (g.send_msgq.Nodup ↔ rest = [] ∨ 64 ≤ (segments msg (mem msg).m_mbuf_queue).length) := by
  have enumerates : Enumerates sys conn ↔ conn.m_imsg_q.length ≤ 1 :=
    enumerates_iff rfl start (by rw [List.length_map, List.length_range])
  have first : ∀ msg rest, conn.m_imsg_q = msg :: rest →
      ∀ mbuf ∈ (mem msg).m_mbuf_queue, mbuf.Valid := fun msg rest queue =>
    valid msg (queue ▸ List.mem_cons_self)
  refine ⟨⟨fun all => enumerates.mp all.1, fun short => ?_⟩, enumerates, fun msg rest queue =>
    ⟨gather_ends_iff sys (first msg rest queue) start queue, fun fuel g returns =>
      nodup_iff sys fuel (first msg rest queue) start queue distinct returns⟩⟩
  have alone : ∀ msg ∈ conn.m_imsg_q.head?, conn.m_imsg_q = [msg] := by
    intro msg isFirst
    obtain ⟨rest, queue⟩ := List.head?_eq_some_iff.mp isFirst
    rw [queue, List.length_cons] at short
    rw [queue, List.length_eq_zero_iff.mp (by omega : rest.length = 0)]
  refine ⟨enumerates.mpr short, fun msg isFirst => ?_, fun msg isFirst fuel g returns => ?_⟩
  · have queue := alone msg isFirst
    exact (gather_ends_iff sys (first msg [] queue) start queue).mpr (Or.inl rfl)
  · have queue := alone msg isFirst
    exact (nodup_iff sys fuel (first msg [] queue) start queue distinct returns).mpr (Or.inl rfl)

/-- System calls that succeed. -/
def noErrors : Nat → SysCalls := fun _ => ⟨.connected 5, none⟩

/-- A connected server connection with three requests. -/
def threeQueued : NcConn := { NcConn.new with m_sd := 5, m_connected := true, m_imsg_q := [1, 2, 3] }

/-- Messages without a byte. -/
def noBytes : Addr → NcMsg := fun _ => .new

/-- With three requests the calls do not enumerate the queue. -/
theorem enumeration_of_threeQueued : ¬ Enumerates noErrors threeQueued ∧
    ¬ ∃ fuel, gathered noErrors noBytes 1 fuel threeQueued ≠ .error .outOfFuel := by
  obtain ⟨-, enumerates, each⟩ :=
    enumeration_of_queue noErrors noBytes threeQueued rfl (fun _ _ _ => nofun) (by decide)
  refine ⟨fun holds => absurd (enumerates.mp holds) (by decide), fun ends => ?_⟩
  rcases (each 1 [2, 3] rfl).1.mp ends with none | bytes
  · cases none
  · exact bytes rfl

/-- **Three requests, of which the third is never returned and the second for ever**; where the
first has no unsent byte the gather loop does not end. -/
theorem enumeration_fails :
    sendNexts [noErrors 0, noErrors 1, noErrors 2, noErrors 3] threeQueued =
      [some 1, some 2, some 2, some 2] ∧
    ∀ fuel, gathered noErrors noBytes 1 fuel threeQueued = .error .outOfFuel := by
  refine ⟨rfl, fun fuel => ?_⟩
  have many : Many 1 2 [3] (sendNext (noErrors 0) threeQueued).1 := ⟨rfl, nofun⟩
  exact gather_many_diverges fuel (fun _ => nofun) (counted_start _) many (by decide) rfl

end NcServerConn

end Nutcracker
