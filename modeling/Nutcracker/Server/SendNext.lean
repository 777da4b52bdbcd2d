/-
**`NcServerConn::sendNext`: which request goes on the wire next.**

The cursor `m_smsg` says whether a request is being sent, but the code does not look for it in the
queue: without a cursor it takes the first request, with any cursor the second. Hence *every call
after the first returns the second request, for ever*.

* `sendNext_queue` — the queue stays as it is.
* `sendNexts_second` — once the cursor is set, all calls return the second request.
* `enumerates_iff` — **the calls return the queue and then `NULL` exactly on queues of at most one
  request**.

`*m_imsg_q_.begin()` of an empty queue is `NULL`, as the code expects.
-/

import Nutcracker.Conn.Model

namespace Nutcracker

/-- How `connect()` goes: the first of its system calls that fails, with the error number, or the
descriptor of the new socket. -/
inductive ConnectOutcome
  | socketFailed (err : Int)
  | setupFailed (sd err : Int)
  | inProgress (sd : Int)
  | connected (sd : Int)

/-- What the system calls of one `sendNext` answer: `connect()`, and the error number of a failed
`delOutput`. -/
structure SysCalls where
  connect : ConnectOutcome
  delOutput : Option Int

namespace NcServerConn

/-- `NcServerConn::connect`. -/
def connect (outcome : ConnectOutcome) (conn : NcConn) : NcConn :=
  if conn.m_err ≠ 0 then conn
  else if 0 < conn.m_sd then conn
  else
    match outcome with
    | .socketFailed err => { conn with m_sd := -1, m_err := err }
    | .setupFailed sd err => { conn with m_sd := sd, m_err := err }
    | .inProgress sd => { conn with m_sd := sd, m_connecting := true }
    | .connected sd => { conn with m_sd := sd, m_connected := true }

/-- `if (m_connecting_) connect();` -/
def connecting (sys : SysCalls) (conn : NcConn) : NcConn :=
  if conn.m_connecting then connect sys.connect conn else conn

/-- `sendNext` after that. -/
def pick (sys : SysCalls) (conn : NcConn) : NcConn × Ptr :=
  match conn.m_imsg_q with
  | [] =>
      match sys.delOutput with
      | some err => ({ conn with m_err := err }, none)
      | none => (conn, none)
  | first :: rest =>
      let nmsg := if conn.m_smsg = none then some first else rest.head?
      ({ conn with m_smsg := nmsg }, nmsg)

/-- `NcServerConn::sendNext`. -/
def sendNext (sys : SysCalls) (conn : NcConn) : NcConn × Ptr := pick sys (connecting sys conn)

/-- The results of successive calls. -/
def sendNexts : List SysCalls → NcConn → List Ptr
  | [], _ => []
  | sys :: calls, conn => (sendNext sys conn).2 :: sendNexts calls (sendNext sys conn).1

/-! ### One call -/

/-- `connect()` touches neither the queues nor the cursor. -/
structure SameQueues (conn conn' : NcConn) : Prop where
  imsg_q : conn'.m_imsg_q = conn.m_imsg_q
  omsg_q : conn'.m_omsg_q = conn.m_omsg_q
  smsg : conn'.m_smsg = conn.m_smsg
  owner : conn'.m_owner = conn.m_owner

theorem connect_frame (outcome : ConnectOutcome) (conn : NcConn) :
    SameQueues conn (connect outcome conn) := by
  unfold connect
  split
  · exact ⟨rfl, rfl, rfl, rfl⟩
  · split
    · exact ⟨rfl, rfl, rfl, rfl⟩
    · cases outcome <;> exact ⟨rfl, rfl, rfl, rfl⟩

theorem connecting_frame (sys : SysCalls) (conn : NcConn) :
    SameQueues conn (connecting sys conn) := by
  unfold connecting
  split
  · exact connect_frame _ _
  · exact ⟨rfl, rfl, rfl, rfl⟩

variable {conn : NcConn} {first : Addr} {rest : List Addr}

theorem pick_frame (sys : SysCalls) (conn : NcConn) :
    (pick sys conn).1.m_imsg_q = conn.m_imsg_q ∧ (pick sys conn).1.m_omsg_q = conn.m_omsg_q ∧
      (pick sys conn).1.m_owner = conn.m_owner := by
  unfold pick
  split
  · split
    · exact ⟨rfl, rfl, rfl⟩
    · exact ⟨rfl, rfl, rfl⟩
  · exact ⟨rfl, rfl, rfl⟩

/-- **The queues and the owner stay as they are.** -/
theorem sendNext_frame (sys : SysCalls) (conn : NcConn) :
    (sendNext sys conn).1.m_imsg_q = conn.m_imsg_q ∧
      (sendNext sys conn).1.m_omsg_q = conn.m_omsg_q ∧
      (sendNext sys conn).1.m_owner = conn.m_owner := by
  have same := connecting_frame sys conn
  obtain ⟨imsg_q, omsg_q, owner⟩ := pick_frame sys (connecting sys conn)
  exact ⟨imsg_q.trans same.imsg_q, omsg_q.trans same.omsg_q, owner.trans same.owner⟩

theorem sendNext_queue (sys : SysCalls) : (sendNext sys conn).1.m_imsg_q = conn.m_imsg_q :=
  (sendNext_frame sys conn).1

/-- So does the message that is being received. -/
theorem sendNext_rmsg (sys : SysCalls) (conn : NcConn) :
    (sendNext sys conn).1.m_rmsg = conn.m_rmsg := by
  have connected : (connecting sys conn).m_rmsg = conn.m_rmsg := by
    unfold connecting connect
    split
    · split
      · rfl
      · split
        · rfl
        · cases sys.connect <;> rfl
    · rfl
  rw [← connected]
  unfold sendNext pick
  split
  · split
    · rfl
    · rfl
  · rfl

/-- An empty queue: `NULL`, and the cursor stays. -/
theorem sendNext_empty (sys : SysCalls) (queue : conn.m_imsg_q = []) :
    (sendNext sys conn).2 = none ∧ (sendNext sys conn).1.m_smsg = conn.m_smsg := by
  have same := connecting_frame sys conn
  unfold sendNext pick
  rw [same.imsg_q, queue]
  cases sys.delOutput with
  | none => exact ⟨rfl, same.smsg⟩
  | some err => exact ⟨rfl, same.smsg⟩

/-- Without a cursor: the first request. -/
theorem sendNext_first (sys : SysCalls) (queue : conn.m_imsg_q = first :: rest)
    (start : conn.m_smsg = none) :
    (sendNext sys conn).2 = some first ∧ (sendNext sys conn).1.m_smsg = some first := by
  have same := connecting_frame sys conn
  unfold sendNext pick
  rw [same.imsg_q, queue]
  simp only [same.smsg, if_pos start, and_self]

/-- **With a cursor: the second request**, whatever the cursor is. -/
theorem sendNext_second (sys : SysCalls) (queue : conn.m_imsg_q = first :: rest)
    (sending : conn.m_smsg ≠ none) :
    (sendNext sys conn).2 = rest.head? ∧ (sendNext sys conn).1.m_smsg = rest.head? := by
  have same := connecting_frame sys conn
  unfold sendNext pick
  rw [same.imsg_q, queue]
  simp only [same.smsg, if_neg sending, and_self]

/-! ### All calls -/

/-- Once the cursor is set, every call returns the second request. -/
theorem sendNexts_second {second : Addr} (calls : List SysCalls)
    (queue : conn.m_imsg_q = first :: second :: rest) (sending : conn.m_smsg ≠ none) :
    sendNexts calls conn = List.replicate calls.length (some second) := by
  induction calls generalizing conn with
  | nil => rfl
  | cons sys calls ih =>
      obtain ⟨result, cursor⟩ := sendNext_second sys queue sending
      unfold sendNexts
      rw [result, List.length_cons, List.replicate_succ, List.head?_cons,
        ih ((sendNext_queue sys).trans queue)]
      rw [cursor, List.head?_cons]
      exact Option.some_ne_none second

/-- **The calls enumerate the queue exactly if it has at most one request.** -/
theorem enumerates_iff {q : List Addr} {calls : List SysCalls} (queue : conn.m_imsg_q = q)
    (start : conn.m_smsg = none) (count : calls.length = q.length + 1) :
    sendNexts calls conn = q.map some ++ [none] ↔ q.length ≤ 1 := by
  obtain ⟨sys, calls, rfl⟩ := List.exists_cons_of_length_eq_add_one count
  rw [List.length_cons, Nat.add_right_cancel_iff] at count
  match q with
  | [] =>
      obtain rfl := List.length_eq_zero_iff.mp count
      refine iff_of_true ?_ (Nat.zero_le 1)
      unfold sendNexts
      rw [(sendNext_empty sys queue).1]
      rfl
  | [r] =>
      obtain ⟨sys', rfl⟩ := List.length_eq_one_iff.mp count
      obtain ⟨result, cursor⟩ := sendNext_first sys queue start
      have sending : (sendNext sys conn).1.m_smsg ≠ none := by
        rw [cursor]
        exact Option.some_ne_none r
      obtain ⟨last, -⟩ := sendNext_second sys' ((sendNext_queue sys).trans queue) sending
      refine iff_of_true ?_ (Nat.le_refl 1)
      unfold sendNexts sendNexts sendNexts
      rw [result, last]
      rfl
  | first :: second :: rest =>
      obtain ⟨result, cursor⟩ := sendNext_first sys queue start
      have sending : (sendNext sys conn).1.m_smsg ≠ none := by
        rw [cursor]
        exact Option.some_ne_none first
      refine iff_of_false (fun same => ?_) (by rw [List.length_cons, List.length_cons]; omega)
      unfold sendNexts at same
      rw [result, sendNexts_second calls ((sendNext_queue sys).trans queue) sending] at same
      -- the list ends in NULL, and no call returns it
      have ends : (none : Ptr) ∈ some first :: List.replicate calls.length (some second) := by
        rw [same]
        exact List.mem_append_right _ (List.mem_singleton_self none)
      rcases List.mem_cons.mp ends with isFirst | isSecond
      · cases isFirst
      · cases (List.mem_replicate.mp isSecond).2

end NcServerConn

end Nutcracker
