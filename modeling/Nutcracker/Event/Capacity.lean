/-
**The room in the change array of the kqueue back end.**

The array has `nevent` entries, and each call writes behind the last change without a look at that.
A change is queued whenever a flag of a connection is set or cleared, so that how many there are can
be told from the flags and from what the callbacks do, without the array: `flips` walks the batch
like `wait`, with the connections and the events that are left.

* `flags_run`, `length_run` — what a call does to the flags, and that each flip queues one change.
* `Follows` — the loop of `wait` follows the walk of `flips`.
* `capacity_iff` — **the changes fit at every moment of a batch if and only if the callbacks flip at
  most `nevent` flags in it**.
* `accept_overflow` — one event for a proxy, with one client more than the array has entries.
-/

import Nutcracker.Event.Wait

namespace Nutcracker

/-! ### The flags of a connection -/

namespace EventCall

/-- What a call does to the flags. -/
def flags (conn : NcConnBase) : EventCall → NcConnBase
  | addInput => { conn with m_recv_active := true }
  | delInput => { conn with m_recv_active := false }
  | addOutput => { conn with m_send_active := true }
  | delOutput => { conn with m_send_active := false }
  | addConn events =>
      { conn with
        m_recv_active := conn.m_recv_active || decide (events &&& EVENT_READ ≠ 0)
        m_send_active := conn.m_send_active || decide (events &&& EVENT_WRITE ≠ 0) }
  | delConn => { conn with m_recv_active := false, m_send_active := false }

/-- **The flags that a call turns over.** -/
def flips (conn : NcConnBase) (call : EventCall) : Nat :=
  (if (call.flags conn).m_recv_active = conn.m_recv_active then 0 else 1) +
    if (call.flags conn).m_send_active = conn.m_send_active then 0 else 1

end EventCall

namespace Kqueue

variable (c : Addr) (conn : NcConnBase) (kq : Kqueue)

theorem flags_addInput : (addInput c conn kq).1 = { conn with m_recv_active := true } := by
  obtain ⟨sd, recv, send⟩ := conn
  cases recv <;> rfl

theorem length_addInput : (addInput c conn kq).2.change.length =
    kq.change.length + if conn.m_recv_active then 0 else 1 := by
  cases active : conn.m_recv_active <;> simp [addInput, push, active]

theorem flags_addOutput : (addOutput c conn kq).1 = { conn with m_send_active := true } := by
  obtain ⟨sd, recv, send⟩ := conn
  cases send <;> rfl

theorem length_addOutput : (addOutput c conn kq).2.change.length =
    kq.change.length + if conn.m_send_active then 0 else 1 := by
  cases active : conn.m_send_active <;> simp [addOutput, push, active]

/-- `addConn` does the one, the other, both or nothing. -/
theorem run_addConn (events : UInt32) :
    (run c (.addConn events) conn kq).1 = EventCall.flags conn (.addConn events) ∧
      (run c (.addConn events) conn kq).2.change.length =
        kq.change.length + EventCall.flips conn (.addConn events) := by
  obtain ⟨sd, recv, send⟩ := conn
  by_cases reads : events &&& EVENT_READ ≠ 0
  · by_cases writes : events &&& EVENT_WRITE ≠ 0
    · simp only [run, addConn, if_pos reads, if_pos writes, flags_addOutput, flags_addInput,
        length_addOutput, length_addInput]
      cases recv <;> cases send <;> simp [EventCall.flags, EventCall.flips, reads, writes]
    · simp only [run, addConn, if_pos reads, if_neg writes, flags_addInput, length_addInput]
      cases recv <;> simp [EventCall.flags, EventCall.flips, reads, writes]
  · by_cases writes : events &&& EVENT_WRITE ≠ 0
    · simp only [run, addConn, if_neg reads, if_pos writes, flags_addOutput, length_addOutput]
      cases send <;> simp [EventCall.flags, EventCall.flips, reads, writes]
    · simp [run, addConn, EventCall.flags, EventCall.flips, reads, writes]

/-- The flags after a call of the back end. -/
theorem flags_run (call : EventCall) : (run c call conn kq).1 = call.flags conn := by
  cases call with
  | addConn events => exact (run_addConn c conn kq events).1
  | _ =>
      obtain ⟨sd, recv, send⟩ := conn
      cases recv <;> cases send <;> rfl

/-- **Each flip queues one change.** -/
theorem length_run (call : EventCall) :
    (run c call conn kq).2.change.length = kq.change.length + call.flips conn := by
  cases call with
  | addConn events => exact (run_addConn c conn kq events).2
  | _ =>
      obtain ⟨sd, recv, send⟩ := conn
      cases recv <;> cases send <;>
        simp [run, addInput, delInput, addOutput, delOutput, delConn, eliminate, push,
          EventCall.flags, EventCall.flips]

end Kqueue

/-! ### A walk over the batch -/

/-- The events that are left of a batch, and the connections. -/
abbrev Walk := List Kevent × (Addr → NcConnBase)

namespace Effect

/-- An effect, on the events that are left and the flags. -/
def walk (w : Walk) : Effect → Walk
  | .call c made =>
      (if made = .delConn then Kqueue.clearFirst (w.2 c).m_sd w.1 else w.1,
        Function.update w.2 c (made.flags (w.2 c)))
  | .store c conn => (w.1, Function.update w.2 c conn)

/-- The flags that an effect turns over. -/
def flips (w : Walk) : Effect → Nat
  | .call c made => made.flips (w.2 c)
  | .store _ _ => 0

/-- The flags that a list of effects turns over. -/
def totalFlips : List Effect → Walk → Nat
  | [], _ => 0
  | e :: effects, w => e.flips w + totalFlips effects (e.walk w)

theorem totalFlips_append (first second : List Effect) (w : Walk) :
    totalFlips (first ++ second) w =
      totalFlips first w + totalFlips second (first.foldl walk w) := by
  induction first generalizing w with
  | nil => exact (Nat.zero_add _).symm
  | cons e first ih =>
      rw [List.cons_append, totalFlips, ih, totalFlips, List.foldl_cons, Nat.add_assoc]

end Effect

/-- What the callback of the event at position `i` does, if it is called. -/
def called (behave : Nat → List Effect) (i : Nat) (ev : Kevent) : List Effect :=
  if ev.ignored || ev.udata.isNone then [] else behave i

/-- **The flags that the callbacks of a batch turn over**, from the position `i` on. -/
def flips (behave : Nat → List Effect) : Nat → Nat → Walk → Nat
  | 0, _, _ => 0
  | left + 1, i, (events, conns) =>
      match events with
      | [] => 0
      | ev :: rest =>
          Effect.totalFlips (called behave i ev) (rest, conns) +
            flips behave left (i + 1) ((called behave i ev).foldl Effect.walk (rest, conns))

namespace EventLoop

/-! ### The loop follows the walk -/

/-- The number of changes that are queued. -/
def queued (s : EventLoop × List LoopLog) : Nat := s.1.kq.change.length

/-- **The loop and the walk agree**: `d` events are behind, and the event `m` is processed. -/
structure Follows (m d : Nat) (s : EventLoop × List LoopLog) (w : Walk) : Prop where
  nprocessed : s.1.kq.nprocessed = m
  nreturned : s.1.kq.nreturned = s.1.kq.event.length
  events : s.1.kq.event.drop d = w.1
  conn : s.1.conn = w.2

variable {m d : Nat} {s : EventLoop × List LoopLog} {w : Walk}

/-- **One effect** queues a change for each flag that it turns over. -/
theorem Follows.effect (follows : Follows m (m + 1) s w) (inside : m < s.1.kq.event.length)
    (e : Effect) :
    Follows m (m + 1) (effect s e) (e.walk w) ∧
      (EventLoop.effect s e).1.kq.event.length = s.1.kq.event.length ∧
        queued (EventLoop.effect s e) = queued s + e.flips w := by
  obtain ⟨nprocessed, nreturned, events, conns⟩ := follows
  cases e with
  | store c conn =>
      have connAfter := congrArg (fun conns => Function.update conns c conn) conns
      exact ⟨⟨nprocessed, nreturned, events, connAfter⟩, rfl, rfl⟩
  | call c call =>
      have flags := Kqueue.flags_run c (s.1.conn c) s.1.kq call
      have changes := Kqueue.length_run c (s.1.conn c) s.1.kq call
      rw [conns] at flags changes
      have connAfter : (EventLoop.effect s (.call c call)).1.conn =
          ((Effect.call c call).walk w).2 := by
        show Function.update s.1.conn c (Kqueue.run c call (s.1.conn c) s.1.kq).1 = _
        rw [conns, flags]
        rfl
      have queuedAfter : queued (EventLoop.effect s (.call c call)) =
          queued s + (Effect.call c call).flips w := by
        show (Kqueue.run c call (s.1.conn c) s.1.kq).2.change.length = _
        rw [conns, changes]
        rfl
      by_cases isDel : call = .delConn
      · subst isDel
        have same := sameBatch_delConn c (s.1.conn c) s.1.kq
        have within : s.1.kq.nprocessed < s.1.kq.event.length := nprocessed ▸ inside
        have sameLength := length_eliminate (s.1.conn c).m_sd nreturned within
        have parts := eliminate_parts (s.1.conn c).m_sd nreturned within
        have lengthAfter : (EventLoop.effect s (.call c .delConn)).1.kq.event.length =
            s.1.kq.event.length := (congrArg List.length same.event).trans sameLength
        refine ⟨⟨same.nprocessed.trans nprocessed, ?_, ?_, connAfter⟩, lengthAfter, queuedAfter⟩
        · exact (same.nreturned.trans nreturned).trans lengthAfter.symm
        · refine (congrArg (List.drop (m + 1)) (same.event.trans parts)).trans ?_
          rw [nprocessed, List.drop_left' (List.length_take_of_le inside), events, conns]
          rfl
      · have same := sameBatch_run c (s.1.conn c) s.1.kq isDel
        have lengthAfter : (EventLoop.effect s (.call c call)).1.kq.event.length =
            s.1.kq.event.length := congrArg List.length same.event
        refine ⟨⟨same.nprocessed.trans nprocessed, ?_, ?_, connAfter⟩, lengthAfter, queuedAfter⟩
        · exact (same.nreturned.trans nreturned).trans lengthAfter.symm
        · refine (congrArg (List.drop (m + 1)) same.event).trans ?_
          rw [events, Effect.walk, if_neg isDel]

/-- **All effects of a callback.** -/
theorem Follows.effects (effects : List Effect) (follows : Follows m (m + 1) s w)
    (inside : m < s.1.kq.event.length) :
    Follows m (m + 1) (effects.foldl EventLoop.effect s) (effects.foldl Effect.walk w) ∧
      (effects.foldl EventLoop.effect s).1.kq.event.length = s.1.kq.event.length ∧
        queued (effects.foldl EventLoop.effect s) = queued s + Effect.totalFlips effects w := by
  induction effects generalizing s w with
  | nil => exact ⟨follows, rfl, rfl⟩
  | cons e effects ih =>
      obtain ⟨next, sameLength, changes⟩ := follows.effect inside e
      obtain ⟨result, restLength, restChanges⟩ := ih next (sameLength ▸ inside)
      refine ⟨result, restLength.trans sameLength, ?_⟩
      rw [List.foldl_cons, restChanges, changes, Effect.totalFlips, Nat.add_assoc]

/-- A pass of the loop, by what the callback does. -/
theorem handle_called (behave : Nat → List Effect) {ev : Kevent}
    (entry : s.1.kq.event[s.1.kq.nprocessed]? = some ev) :
    ∃ log, handle behave s = (called behave s.1.kq.nprocessed ev).foldl effect (s.1, log) := by
  rw [handle, entry, called]
  by_cases ignored : ev.ignored = true
  · exact ⟨s.2, by simp [ignored]⟩
  · cases isFor : ev.udata with
    | none => exact ⟨s.2, by simp [ignored, isFor]⟩
    | some c =>
        refine ⟨s.2 ++ [.callback s.1.kq.nprocessed c ev.events], ?_⟩
        simp [ignored, isFor]

/-- **One pass of the loop.** -/
theorem Follows.handle (behave : Nat → List Effect) {ev : Kevent} {rest : List Kevent}
    {conns : Addr → NcConnBase} (follows : Follows m m s (ev :: rest, conns)) :
    Follows (m + 1) (m + 1) (advance (handle behave s))
        ((called behave m ev).foldl Effect.walk (rest, conns)) ∧
      (EventLoop.handle behave s).1.kq.event.length = s.1.kq.event.length ∧
      queued (EventLoop.handle behave s) =
        queued s + Effect.totalFlips (called behave m ev) (rest, conns) := by
  obtain ⟨nprocessed, nreturned, events, conn⟩ := follows
  have entry : s.1.kq.event[s.1.kq.nprocessed]? = some ev := by
    rw [nprocessed, ← List.head?_drop, events]
    rfl
  have inside : m < s.1.kq.event.length := by
    have found := List.getElem?_eq_some_iff.mp entry
    rw [nprocessed] at found
    exact found.1
  have later : s.1.kq.event.drop (m + 1) = rest := by
    rw [← List.tail_drop, events]
    rfl
  obtain ⟨log, handled⟩ := handle_called behave entry
  rw [nprocessed] at handled
  have start : Follows m (m + 1) (s.1, log) (rest, conns) := ⟨nprocessed, nreturned, later, conn⟩
  obtain ⟨after, sameLength, changes⟩ := start.effects (called behave m ev) inside
  rw [← handled] at after sameLength changes
  refine ⟨⟨?_, after.nreturned, after.events, after.conn⟩, sameLength, changes⟩
  show (EventLoop.handle behave s).1.kq.nprocessed + 1 = m + 1
  rw [after.nprocessed]

/-- **The whole loop.** -/
theorem Follows.process (behave : Nat → List Effect) (left : Nat) {events : List Kevent}
    {conns : Addr → NcConnBase} (follows : Follows m m s (events, conns)) :
    queued (process behave left s) = queued s + flips behave left m (events, conns) := by
  induction left generalizing m s events conns with
  | zero => rfl
  | succ left ih =>
      cases events with
      | nil =>
          obtain ⟨nprocessed, nreturned, behind, conn⟩ := follows
          have done : s.1.kq.event[s.1.kq.nprocessed]? = none := by
            rw [nprocessed, ← List.head?_drop, behind]
            rfl
          have same : EventLoop.handle behave s = s := by
            rw [EventLoop.handle, done]
          have behind' : s.1.kq.event.drop (m + 1) = [] := by
            rw [← List.tail_drop, behind]
            rfl
          have after : Follows (m + 1) (m + 1) (advance s) ([], conns) :=
            ⟨congrArg (· + 1) nprocessed, nreturned, behind', conn⟩
          have none : flips behave left (m + 1) ([], conns) = 0 := by
            cases left <;> rfl
          rw [EventLoop.process, same, ih after, none]
          rfl
      | cons ev rest =>
          obtain ⟨after, -, changes⟩ := follows.handle behave
          rw [EventLoop.process, ih after]
          show queued (EventLoop.handle behave s) + _ = _
          rw [changes, flips, Nat.add_assoc]

/-! ### The array -/

/-- `wait` before its first event. -/
def begin (batch : List Kevent) (w : EventLoop) : EventLoop × List LoopLog :=
  (⟨w.kq.kevent batch, w.conn⟩, [])

/-- **A moment of `wait`**: some events are processed, and of the callback of the next one the first
`j` effects have happened. -/
def moment (behave : Nat → List Effect) (batch : List Kevent) (w : EventLoop) (i j : Nat) :
    EventLoop × List LoopLog :=
  handle (fun k => (behave k).take j) (process behave i (begin batch w))

/-- The changes are never taken back. -/
theorem queued_le_effects (effects : List Effect) (s : EventLoop × List LoopLog) :
    queued s ≤ queued (effects.foldl effect s) := by
  induction effects generalizing s with
  | nil => exact Nat.le_refl _
  | cons e effects ih =>
      refine Nat.le_trans ?_ (ih (effect s e))
      cases e with
      | store c conn => exact Nat.le_refl _
      | call c call =>
          have changes := Kqueue.length_run c (s.1.conn c) s.1.kq call
          show s.1.kq.change.length ≤ (Kqueue.run c call (s.1.conn c) s.1.kq).2.change.length
          omega

/-- The first effects of a callback queue at most what all of them queue. -/
theorem queued_le_handle (behave : Nat → List Effect) (s : EventLoop × List LoopLog) (j : Nat) :
    queued s ≤ queued (handle (fun k => (behave k).take j) s) ∧
      queued (handle (fun k => (behave k).take j) s) ≤ queued (handle behave s) := by
  cases entry : s.1.kq.event[s.1.kq.nprocessed]? with
  | none => simp [handle, entry]
  | some ev =>
      cases ignored : ev.ignored with
      | true => simp [handle, entry, ignored]
      | false =>
          cases isFor : ev.udata with
          | none => simp [handle, entry, ignored, isFor]
          | some c =>
              simp only [handle, entry, ignored, isFor, Bool.false_eq_true, if_false]
              constructor
              · exact queued_le_effects _ (s.1, s.2 ++ [.callback s.1.kq.nprocessed c ev.events])
              · conv_rhs =>
                  rw [← List.take_append_drop j (behave s.1.kq.nprocessed), List.foldl_append]
                exact queued_le_effects _ _

theorem queued_le_process (behave : Nat → List Effect) (left : Nat) (s : EventLoop × List LoopLog) :
    queued s ≤ queued (process behave left s) := by
  induction left generalizing s with
  | zero => exact Nat.le_refl _
  | succ left ih =>
      obtain ⟨some, all⟩ := queued_le_handle behave s 0
      exact Nat.le_trans (Nat.le_trans some all) (ih (advance (handle behave s)))

theorem process_add (behave : Nat → List Effect) (i left : Nat) (s : EventLoop × List LoopLog) :
    process behave (i + left) s = process behave left (process behave i s) := by
  induction i generalizing s with
  | zero => rw [Nat.zero_add, process]
  | succ i ih => rw [Nat.succ_add, process, process, ih]

/-- After the last event there is nothing to do. -/
theorem handle_done (behave : Nat → List Effect) (batch : List Kevent) (w : EventLoop) :
    handle behave (wait behave batch w) = wait behave batch w := by
  have tracks := (processed_wait behave batch w).tracks
  have past := Nat.le_of_eq (tracks.length.trans tracks.nprocessed.symm)
  rw [handle, List.getElem?_eq_none past]

/-- **At most as many changes as after the whole batch.** -/
theorem queued_moment (behave : Nat → List Effect) (batch : List Kevent) (w : EventLoop) {i : Nat}
    (within : i ≤ batch.length) (j : Nat) :
    queued (moment behave batch w i j) ≤ queued (wait behave batch w) := by
  have here := (queued_le_handle behave (process behave i (begin batch w)) j).2
  rcases Nat.eq_or_lt_of_le within with rfl | before
  · have last : handle behave (process behave batch.length (begin batch w)) = wait behave batch w :=
      handle_done behave batch w
    rw [last] at here
    exact here
  · obtain ⟨left, rest⟩ := Nat.exists_eq_add_of_lt before
    have later : wait behave batch w = process behave left
        (advance (handle behave (process behave i (begin batch w)))) := by
      show process behave batch.length (begin batch w) = _
      rw [rest, Nat.add_assoc, process_add, process]
    rw [later]
    exact Nat.le_trans here
      (queued_le_process behave left (advance (handle behave (process behave i (begin batch w)))))

/-- **The change array of kqueue**: at every moment of a batch the changes fit into it, if and only
if the callbacks turn over at most as many flags as it has entries. -/
theorem capacity_iff (nevent : Nat) (behave : Nat → List Effect) (batch : List Kevent)
    (w : EventLoop) :
    (∀ i ≤ batch.length, ∀ j, (moment behave batch w i j).1.kq.change.length ≤ nevent) ↔
      flips behave batch.length 0 (batch, w.conn) ≤ nevent := by
  have follows : Follows 0 0 (begin batch w) (batch, w.conn) := ⟨rfl, rfl, rfl, rfl⟩
  have total : queued (wait behave batch w) = flips behave batch.length 0 (batch, w.conn) :=
    (follows.process behave batch.length).trans (Nat.zero_add _)
  rw [← total]
  constructor
  · intro fits
    have last := fits batch.length (Nat.le_refl _) 0
    exact Nat.le_trans (queued_le_handle behave _ 0).1 last
  · intro fits i within j
    exact Nat.le_trans (queued_moment behave batch w within j) fits

/-! ### A proxy with many clients -/

/-- The number of entries that the arrays get. -/
def EVENT_SIZE : Nat := 1024

/-- What `NcProxyConn::recvMsg` does when `n` clients are pending: each of them is accepted and
added for reading. -/
def acceptAll (n : Nat) : List Effect :=
  (List.range n).flatMap fun k =>
    [.store (k + 2) ⟨(k : Int) + 8, false, false⟩, .call (k + 2) (.addConn EVENT_READ)]

/-- A read event of the proxy. -/
def proxyReadable : List Kevent := [⟨7, EVFILT_READ, 0, 0, some 1⟩]

/-- A proxy that waits for clients. -/
def onlyProxy : EventLoop := ⟨⟨[], [], 0, 0, fun _ _ => true⟩, fun _ => ⟨7, true, false⟩⟩

/-- A client that is added turns over one flag. -/
theorem totalFlips_acceptAll (n : Nat) (w : Walk) : Effect.totalFlips (acceptAll n) w = n := by
  induction n with
  | zero => rfl
  | succ n ih =>
      have last : ∀ before : Walk, Effect.totalFlips
          [.store (n + 2) ⟨(n : Int) + 8, false, false⟩, .call (n + 2) (.addConn EVENT_READ)]
          before = 1 := by
        intro before
        have fresh : (Effect.walk before (.store (n + 2) ⟨(n : Int) + 8, false, false⟩)).2 (n + 2) =
            ⟨(n : Int) + 8, false, false⟩ := Function.update_self ..
        have one : EventCall.flips ⟨(n : Int) + 8, false, false⟩ (.addConn EVENT_READ) = 1 := rfl
        rw [Effect.totalFlips, Effect.totalFlips, Effect.flips, Effect.flips, fresh, one,
          Effect.totalFlips]
      rw [acceptAll, List.range_succ, List.flatMap_append, Effect.totalFlips_append, ← acceptAll,
        ih, List.flatMap_singleton, last]

/-- Each client that is accepted takes an entry of the array. -/
theorem length_accept (n : Nat) :
    (wait (fun _ => acceptAll n) proxyReadable onlyProxy).1.kq.change.length = n := by
  have follows : Follows 0 0 (begin proxyReadable onlyProxy) (proxyReadable, onlyProxy.conn) :=
    ⟨rfl, rfl, rfl, rfl⟩
  have walked : flips (fun _ => acceptAll n) 1 0 (proxyReadable, onlyProxy.conn) = n :=
    totalFlips_acceptAll n ([], onlyProxy.conn)
  exact ((follows.process _ 1).trans (Nat.zero_add _)).trans walked

/-- **One client more than the array has entries**: the batch is one event, and the last change is
written behind the array. -/
theorem accept_overflow :
    proxyReadable.length ≤ EVENT_SIZE ∧
      (wait (fun _ => acceptAll (EVENT_SIZE + 1)) proxyReadable onlyProxy).1.kq.change.length =
        EVENT_SIZE + 1 :=
  ⟨by decide, length_accept (EVENT_SIZE + 1)⟩

end EventLoop

end Nutcracker
