/-
**The backlog and the descriptors of the clients.**

`NcProxyConn::recvMsg` calls `accept` until `accept` unsets `m_recv_ready`. The listening connection is
registered with `EPOLLET` too, so what it leaves in the backlog is not reported again. A descriptor
that `accept(2)` hands out has to end up in an open connection, or has to be closed: over the limit, and
on the two paths on which the new connection is closed again.

`Front` puts the proxy together with the backlog and the open descriptors.

* `descriptors_accounted` — **no descriptor leaks, and none is closed twice**: on all runs the open
  descriptors are those of the open connections. `Front.Settled` is the invariant, and its first part
  says that these runs are runs of the proxy.
* `backlog_reported` — **no client is left waiting** without an event, unless the last answer was that a
  connection was aborted or that there are no descriptors left: for these `accept` returns as if nothing
  were left. `client_left_waiting` is such a run.
* `keeps_listening` — the listening connection stays open while `accept(2)` knows its errors and the
  new descriptors can be registered.
-/

import Nutcracker.Proxy.Budget

namespace Nutcracker

open Lib

namespace Proxy

/-- What `accept(2)` answers, and then the two calls on the new descriptor. -/
inductive AcceptCall
  | eintr
  /-- `EAGAIN` or `EWOULDBLOCK`. -/
  | again
  /-- `ECONNABORTED`. -/
  | aborted
  /-- `EMFILE` or `ENFILE`. -/
  | tooMany
  | failed
  | descriptor (sd : Int) (setNonBlocking addConn : Bool)

/-- **The proxy, its listening connection, and the kernel's side of both.** -/
structure Front where
  proxy : Proxy
  /-- The open descriptors of clients. -/
  fds : List Int
  /-- A descriptor was closed that was not open. -/
  badClose : Bool
  /-- The connections in the backlog. -/
  waiting : Nat
  /-- An event is pending for the listening connection. -/
  event : Bool
  m_recv_ready : Bool
  /-- `recvMsg` is running on the listening connection. -/
  reading : Bool
  /-- The listening connection has been closed. -/
  closed : Bool
  /-- The last answer. -/
  last : AcceptCall

namespace Front

/-- `close(2)`. -/
def closeFd (sd : Int) (w : Front) : Front :=
  { w with fds := w.fds.erase sd, badClose := w.badClose || !w.fds.contains sd }

/-- `NcClientConn::close`, which closes the descriptor unless it is negative. -/
def closeClient (c : Addr) (w : Front) : Front :=
  let sd := (w.proxy.client c).m_sd
  let w := { w with proxy := w.proxy.close c }
  if sd < 0 then w else w.closeFd sd

/-- **`NcProxyConn::accept`**, a turn of its loop: the status, unless the call is made again. -/
def accept (call : AcceptCall) (w : Front) : Front × Option Int :=
  match call with
  | .eintr => (w, none)
  | .again | .aborted | .tooMany => ({ w with m_recv_ready := false }, some NC_OK)
  | .failed => (w, some NC_ERROR)
  | .descriptor sd setNonBlocking addConn =>
      let w := { w with fds := sd :: w.fds }
      if w.proxy.ctx.max_ncconn ≤ ncCurCConn then (w.closeFd sd, some NC_OK)
      else
        let conn := w.proxy.nextClient
        let w := { w with proxy := w.proxy.enroll sd }
        if setNonBlocking = false then (w.closeClient conn, some NC_ERROR)
        else if addConn = false then (w.closeClient conn, some NC_ERROR)
        else (w, some NC_OK)

/-- **A turn of `NcProxyConn::recvMsg`**, and of `callback` behind it: an error closes the listening
connection. -/
def recvMsg (call : AcceptCall) (w : Front) : Front :=
  match w.accept call with
  | (w, none) => w
  | (w, some status) =>
      if status ≠ NC_OK then { w with reading := false, closed := true }
      else { w with reading := w.m_recv_ready }

/-- What the kernel may answer, and how many connections are left in the backlog then. A descriptor is
not one of those that are open. -/
def Answers (w : Front) : AcceptCall → Nat → Prop
  | .eintr, left | .tooMany, left | .failed, left => left = w.waiting
  | .again, left => w.waiting = 0 ∧ left = 0
  | .aborted, left => w.waiting = left + 1
  | .descriptor sd _ _, left => w.waiting = left + 1 ∧ 0 ≤ sd ∧ sd < 2 ^ 31 ∧ sd ∉ w.fds

end Front

inductive FrontEvent
  /-- A client connects. -/
  | arrive
  /-- The event base calls the listening connection, and `recvMsg` starts. -/
  | callback
  /-- It calls it with an error. -/
  | error
  | turn (call : AcceptCall)
  | clientClose (c : Addr)
  /-- Another event of the proxy. -/
  | other (event : ProxyEvent)

/-- The events that open or close a connection. -/
def ProxyEvent.Comings : ProxyEvent → Prop
  | .accept _ | .clientClose _ => True
  | _ => False

/-- **The runs of the proxy with its backlog and descriptors.** While `recvMsg` runs, only the kernel
does something else. -/
def frontRuns (rlim_cur : UInt64) : System Front FrontEvent where
  init w := Start rlim_cur w.proxy ∧ w.fds = [] ∧ w.badClose = false ∧ w.reading = false ∧
    w.closed = false ∧ (w.waiting ≠ 0 → w.event = true)
  step w event w' :=
    match event with
    | .arrive => w' = { w with waiting := w.waiting + 1, event := true }
    | .callback => w.reading = false ∧ w.closed = false ∧ w.event = true ∧
        w' = { w with event := false, m_recv_ready := true, reading := true }
    | .error => w.reading = false ∧ w.closed = false ∧ w' = { w with closed := true }
    | .turn call => w.reading = true ∧ ∃ left, w.Answers call left ∧
        w' = { w.recvMsg call with waiting := left, last := call }
    | .clientClose c => w.reading = false ∧ w.proxy.Open c ∧ w' = w.closeClient c
    | .other event => w.reading = false ∧ ¬ event.Comings ∧
        ∃ p, Step w.proxy event p ∧ w' = { w with proxy := p }

/-! ### The descriptors of the open connections -/

/-- The descriptors of the open connections. -/
def descriptors (p : Proxy) : List Int := p.server_pool.c_conn_q.map fun c => (p.client c).m_sd

section Descriptors

variable {p p' : Proxy} {c : Addr} {sd : Int}

theorem descriptors_undisturbed (same : Undisturbed p p') : p'.descriptors = p.descriptors := by
  unfold descriptors
  rw [same.c_conn_q]
  exact List.map_congr_left fun c _ => same.m_sd c

/-- Only the comings and goings change the descriptors. -/
theorem step_undisturbed {event : ProxyEvent} (step : Step p event p') (inner : ¬ event.Comings) :
    Undisturbed p p' := by
  cases event with
  | accept answer => exact absurd trivial inner
  | clientRecv c choice sys fresh answer =>
      exact step.2 ▸ undisturbed_frame.clientRecv (undisturbed_pick choice) _ _ _ _ _
  | clientSend c delOutput answer => exact undisturbed_frame.clientSend step.2
  | clientClose c => exact absurd trivial inner
  | serverRecv s sys fresh answer => exact step.2 ▸ undisturbed_frame.serverRecv _ _ _ _ _
  | serverSend s sys done => exact step.2.2 ▸ undisturbed_frame.serverSend _ _ _ _
  | serverClose s => exact step.2 ▸ undisturbed_did _ p

/-- The connection that `accept` takes is not open. -/
theorem nextClient_fresh (counted : Counted p) : ¬ p.Open p.nextClient := by
  have distinct := (NcObjectPool.alloc_distinct NcConn.new counted.distinct counted.made).1
  intro isOpen
  exact (List.nodup_append.mp (List.nodup_append.mp distinct).1).2.2 _ isOpen _ List.mem_cons_self rfl

/-- No other connection changes. -/
theorem client_enroll (sd : Int) (p : Proxy) (other : c ≠ p.nextClient) :
    (p.enroll sd).client c = p.client c := by
  have mem : (p.enroll sd).client c =
      (((p.c_pool.alloc NcConn.new).1.put p.nextClient fun conn =>
        { conn with m_sd := sd }).put p.nextClient fun conn =>
        { conn with m_owner := some pool }).mem c := rfl
  rw [mem, NcObjectPool.mem_put_of_ne _ _ other, NcObjectPool.mem_put_of_ne _ _ other,
    NcObjectPool.mem_alloc_of_ne _ _ other]
  rfl

theorem m_sd_enroll (p : Proxy) (sd : Int) : ((p.enroll sd).client p.nextClient).m_sd = sd := by
  have mem : (p.enroll sd).client p.nextClient =
      (((p.c_pool.alloc NcConn.new).1.put p.nextClient fun conn =>
        { conn with m_sd := sd }).put p.nextClient fun conn =>
        { conn with m_owner := some pool }).mem p.nextClient := rfl
  rw [mem, NcObjectPool.mem_put_self, NcObjectPool.mem_put_self]

/-- The new connection has the new descriptor. -/
theorem descriptors_enroll (counted : Counted p) (sd : Int) :
    (p.enroll sd).descriptors = p.descriptors ++ [sd] := by
  have kept : (p.server_pool.c_conn_q.map fun c => ((p.enroll sd).client c).m_sd) =
      p.descriptors := by
    refine List.map_congr_left fun c member => ?_
    rw [client_enroll sd p fun same => nextClient_fresh counted (same ▸ member)]
  show (p.server_pool.c_conn_q ++ [p.nextClient]).map _ = _
  rw [List.map_append, kept, List.map_singleton, m_sd_enroll]

/-- The list without one member, up to the order. -/
theorem perm_remove {q : List Addr} (f : Addr → Int) (distinct : q.Nodup) (member : c ∈ q) :
    (q.map f).Perm (f c :: (NcQueue.remove c q).map f) := by
  have erased : NcQueue.remove c q = q.erase c := (distinct.erase_eq_filter c).symm
  rw [erased, ← List.map_cons]
  exact (List.perm_cons_erase member).map f

/-- What `close` does with a connection is done to no other one. -/
theorem client_left {d : Addr} (other : d ≠ c) (p : Proxy) :
    (p.unref c).client d = p.client d ∧ (p.freeClient c).client d = p.client d :=
  ⟨client_putClient_of_ne (fun conn => { conn with m_owner := none }) p other,
    client_putClient_of_ne NcConn.baseReset p other⟩

/-- **A close takes the connection from the queue**, and changes no other descriptor. -/
theorem close_left (c : Addr) (p : Proxy) :
    (p.close c).server_pool.c_conn_q = NcQueue.remove c p.server_pool.c_conn_q ∧
      ∀ d ≠ c, ((p.close c).client d).m_sd = (p.client d).m_sd := by
  unfold close
  dsimp only
  split
  · refine ⟨rfl, fun d other => ?_⟩
    rw [(client_left other _).2, (client_left other _).1, client_did]
  · have same := undisturbed_frame.dropMsgs c (p.did (.closed c))
    refine ⟨congrArg (NcQueue.remove c) same.c_conn_q, fun d other => ?_⟩
    rw [(client_left other _).2, client_putClient_of_ne _ _ other, (client_left other _).1,
      same.m_sd d, client_did]

theorem descriptors_close (counted : Counted p) (isOpen : p.Open c) :
    p.descriptors.Perm ((p.client c).m_sd :: (p.close c).descriptors) := by
  obtain ⟨queue, m_sd⟩ := close_left c p
  have kept : (p.close c).descriptors =
      (NcQueue.remove c p.server_pool.c_conn_q).map fun d => (p.client d).m_sd := by
    unfold descriptors
    rw [queue]
    exact List.map_congr_left fun d member => m_sd d (NcQueue.mem_remove.mp member).2
  rw [kept]
  exact perm_remove _ (List.nodup_append.mp counted.distinct).1 isOpen

end Descriptors

namespace Front

/-! ### No leak -/

/-- **The runs are runs of the proxy, and the open descriptors are those of the open connections.** -/
structure Settled (rlim_cur : UInt64) (w : Front) : Prop where
  reached : (proxyRuns rlim_cur).Reach w.proxy
  fds : w.fds.Perm w.proxy.descriptors
  badClose : w.badClose = false

variable {rlim_cur : UInt64} {w w' : Front} {c : Addr} {call : AcceptCall} {left : Nat}

theorem Settled.of_eq (settled : Settled rlim_cur w) (proxy : w'.proxy = w.proxy)
    (fds : w'.fds = w.fds) (badClose : w'.badClose = w.badClose) : Settled rlim_cur w' :=
  ⟨proxy ▸ settled.reached, by rw [fds, proxy]; exact settled.fds, badClose.trans settled.badClose⟩

/-- A close of a descriptor that is open. -/
theorem Settled.closeClient (counted : Counted w.proxy) (isOpen : w.proxy.Open c)
    (fds : w.fds.Perm w.proxy.descriptors) (badClose : w.badClose = false) :
    (w.closeClient c).proxy = w.proxy.close c ∧
      (w.closeClient c).fds.Perm (w.proxy.close c).descriptors ∧
        (w.closeClient c).badClose = false := by
  have split := fds.trans (descriptors_close counted isOpen)
  have member : (w.proxy.client c).m_sd ∈ w.fds := split.mem_iff.mpr List.mem_cons_self
  unfold Front.closeClient
  rw [if_neg (by have := counted.range c isOpen; omega)]
  refine ⟨rfl, ?_, ?_⟩
  · exact ((List.perm_cons_erase member).symm.trans split).cons_inv
  · show (w.badClose || !w.fds.contains _) = false
    rw [badClose, List.contains_iff_mem.mpr member]
    rfl

/-- **`accept` settles every descriptor that it gets.** -/
theorem Settled.accept (settled : Settled rlim_cur w) (answers : w.Answers call left) :
    Settled rlim_cur (w.accept call).1 := by
  have counted := Counted.run settled.reached
  cases call with
  | eintr => exact settled
  | again => exact settled.of_eq rfl rfl rfl
  | aborted => exact settled.of_eq rfl rfl rfl
  | tooMany => exact settled.of_eq rfl rfl rfl
  | failed => exact settled
  | descriptor sd setNonBlocking addConn =>
      obtain ⟨-, least, greatest, notOpen⟩ := answers
      have fresh : ∀ c, w.proxy.Open c → (w.proxy.client c).m_sd ≠ sd := fun c isOpen same =>
        notOpen (settled.fds.mem_iff.mpr (List.mem_map.mpr ⟨c, isOpen, same⟩))
      have next : (proxyRuns rlim_cur).Reach
          (w.proxy.accept (.descriptor sd setNonBlocking addConn)) :=
        settled.reached.next (a := .accept (.descriptor sd setNonBlocking addConn))
          ⟨⟨least, greatest, fresh⟩, rfl⟩
      unfold Front.accept
      unfold Proxy.accept at next
      dsimp only at next ⊢
      by_cases refused : w.proxy.ctx.max_ncconn ≤ ncCurCConn
      · rw [if_pos refused]
        refine settled.of_eq rfl (List.erase_cons_head ..) ?_
        show (w.badClose || !(sd :: w.fds).contains sd) = _
        rw [List.contains_cons, BEq.rfl]
        exact Bool.or_false _
      · rw [if_neg refused]
        rw [if_neg refused] at next
        obtain ⟨enrolled, isOpen⟩ := counted.enroll ⟨least, greatest⟩ fresh
        have fds : (sd :: w.fds).Perm (w.proxy.enroll sd).descriptors := by
          rw [descriptors_enroll counted]
          exact (settled.fds.cons sd).trans (List.perm_append_singleton sd _).symm
        have closed := Settled.closeClient
          (w := { w with proxy := w.proxy.enroll sd, fds := sd :: w.fds })
          enrolled isOpen fds settled.badClose
        cases setNonBlocking with
        | false => exact ⟨closed.1 ▸ next, closed.1 ▸ closed.2.1, closed.2.2⟩
        | true =>
            cases addConn with
            | false => exact ⟨closed.1 ▸ next, closed.1 ▸ closed.2.1, closed.2.2⟩
            | true => exact ⟨next, fds, settled.badClose⟩

theorem recvMsg_same (call : AcceptCall) (w : Front) :
    (w.recvMsg call).proxy = (w.accept call).1.proxy ∧
      (w.recvMsg call).fds = (w.accept call).1.fds ∧
        (w.recvMsg call).badClose = (w.accept call).1.badClose ∧
          (w.recvMsg call).event = (w.accept call).1.event := by
  unfold recvMsg
  generalize w.accept call = result
  obtain ⟨w, status⟩ := result
  cases status with
  | none => exact ⟨rfl, rfl, rfl, rfl⟩
  | some status =>
      dsimp only
      split
      · exact ⟨rfl, rfl, rfl, rfl⟩
      · exact ⟨rfl, rfl, rfl, rfl⟩

end Front

/-- **The descriptors of the clients are accounted for.** On all runs, with every failure of `accept`,
the open descriptors are those of the open connections, each once, and no descriptor was closed that was
not open. -/
theorem descriptors_accounted (rlim_cur : UInt64) (w : Front)
    (reached : (frontRuns rlim_cur).Reach w) :
    w.fds.Perm w.proxy.descriptors ∧ w.fds.Nodup ∧ w.badClose = false ∧
      (proxyRuns rlim_cur).Reach w.proxy := by
  have settled : w.Settled rlim_cur := by
    refine reached.invariant (I := Front.Settled rlim_cur) (fun w start => ?_)
      fun w event w' _ settled step => ?_
    · obtain ⟨start, fds, badClose, -⟩ := start
      refine ⟨.start start, ?_, badClose⟩
      unfold descriptors
      rw [fds, start.c_conn_q]
      exact .refl _
    · cases event with
      | arrive =>
          obtain rfl : w' = _ := step
          exact settled.of_eq rfl rfl rfl
      | callback =>
          obtain ⟨-, -, -, rfl⟩ := step
          exact settled.of_eq rfl rfl rfl
      | error =>
          obtain ⟨-, -, rfl⟩ := step
          exact settled.of_eq rfl rfl rfl
      | turn call =>
          obtain ⟨-, left, answers, rfl⟩ := step
          obtain ⟨proxy, fds, badClose, -⟩ := w.recvMsg_same call
          exact (settled.accept answers).of_eq proxy fds badClose
      | clientClose c =>
          obtain ⟨-, isOpen, rfl⟩ := step
          obtain ⟨proxy, fds, badClose⟩ := Front.Settled.closeClient
            (Counted.run settled.reached) isOpen settled.fds settled.badClose
          refine ⟨proxy ▸ settled.reached.next (a := .clientClose c) ⟨isOpen, rfl⟩, proxy ▸ fds, ?_⟩
          exact badClose
      | other event =>
          obtain ⟨-, inner, p, step, rfl⟩ := step
          refine ⟨settled.reached.next (a := event) step, ?_, settled.badClose⟩
          rw [descriptors_undisturbed (step_undisturbed step inner)]
          exact settled.fds
  have counted := Counted.run settled.reached
  refine ⟨settled.fds, settled.fds.nodup_iff.mpr ?_, settled.badClose, settled.reached⟩
  exact (List.nodup_append.mp counted.distinct).1.map_on fun c isOpen d isOpen' same =>
    counted.fds c d isOpen isOpen' same

/-! ### No client is left waiting -/

/-- `accept` stops for these, whatever is in the backlog. -/
def AcceptCall.GivesUp : AcceptCall → Prop
  | .aborted | .tooMany => True
  | _ => False

/-- The new descriptor cannot be registered, or the error is not one that `accept` knows. -/
def AcceptCall.Fatal : AcceptCall → Prop
  | .failed => True
  | .descriptor _ setNonBlocking addConn => ¬ (setNonBlocking = true ∧ addConn = true)
  | _ => False

namespace Front

theorem closeClient_same (c : Addr) (w : Front) :
    (w.closeClient c).m_recv_ready = w.m_recv_ready ∧ (w.closeClient c).reading = w.reading ∧
      (w.closeClient c).closed = w.closed ∧ (w.closeClient c).waiting = w.waiting ∧
        (w.closeClient c).event = w.event ∧ (w.closeClient c).last = w.last := by
  unfold closeClient
  dsimp only
  split
  · exact ⟨rfl, rfl, rfl, rfl, rfl, rfl⟩
  · exact ⟨rfl, rfl, rfl, rfl, rfl, rfl⟩

/-- **What `accept` does with `m_recv_ready`**, and when it fails. -/
theorem accept_cases (call : AcceptCall) (w : Front) :
    (w.accept call).1.closed = w.closed ∧ (w.accept call).1.reading = w.reading ∧
      (w.accept call).1.event = w.event ∧
        ((w.accept call).2 = some NC_ERROR ∧ call.Fatal ∨
          ((w.accept call).2 = none ∨ (w.accept call).2 = some NC_OK) ∧
              (w.accept call).1.m_recv_ready = w.m_recv_ready ∨
            (w.accept call).2 = some NC_OK ∧ (w.accept call).1.m_recv_ready = false ∧
              (call = .again ∨ call.GivesUp)) := by
  cases call with
  | eintr => exact ⟨rfl, rfl, rfl, Or.inr (Or.inl ⟨Or.inl rfl, rfl⟩)⟩
  | again => exact ⟨rfl, rfl, rfl, Or.inr (Or.inr ⟨rfl, rfl, Or.inl rfl⟩)⟩
  | aborted => exact ⟨rfl, rfl, rfl, Or.inr (Or.inr ⟨rfl, rfl, Or.inr trivial⟩)⟩
  | tooMany => exact ⟨rfl, rfl, rfl, Or.inr (Or.inr ⟨rfl, rfl, Or.inr trivial⟩)⟩
  | failed => exact ⟨rfl, rfl, rfl, Or.inl ⟨rfl, trivial⟩⟩
  | descriptor sd setNonBlocking addConn =>
      unfold accept
      dsimp only
      split
      · exact ⟨rfl, rfl, rfl, Or.inr (Or.inl ⟨Or.inr rfl, rfl⟩)⟩
      · obtain ⟨-, reading, closed, -, event, -⟩ := closeClient_same w.proxy.nextClient
          { w with proxy := w.proxy.enroll sd, fds := sd :: w.fds }
        split
        next refused =>
          refine ⟨closed, reading, event, Or.inl ⟨rfl, fun both => ?_⟩⟩
          rw [both.1] at refused
          cases refused
        · split
          next refused =>
            refine ⟨closed, reading, event, Or.inl ⟨rfl, fun both => ?_⟩⟩
            rw [both.2] at refused
            cases refused
          · exact ⟨rfl, rfl, rfl, Or.inr (Or.inl ⟨Or.inr rfl, rfl⟩)⟩

/-- **A turn** closes the listening connection for a fatal answer, makes the next call, or stops. -/
theorem recvMsg_cases (call : AcceptCall) {w : Front} (ready : w.m_recv_ready = true)
    (reading : w.reading = true) :
    (w.recvMsg call).closed = true ∧ (w.recvMsg call).reading = false ∧ call.Fatal ∨
      (w.recvMsg call).closed = w.closed ∧
        ((w.recvMsg call).reading = true ∧ (w.recvMsg call).m_recv_ready = true ∨
          (w.recvMsg call).reading = false ∧ (call = .again ∨ call.GivesUp)) := by
  obtain ⟨closed, reads, -, result⟩ := w.accept_cases call
  unfold recvMsg
  generalize w.accept call = answer at closed reads result
  obtain ⟨w', status⟩ := answer
  dsimp only at closed reads result
  rcases result with ⟨rfl, fatal⟩ | ⟨known, same⟩ | ⟨rfl, stop, gone⟩
  · exact Or.inl ⟨rfl, rfl, fatal⟩
  · rcases known with rfl | rfl
    · exact Or.inr ⟨closed, Or.inl ⟨reads.trans reading, same.trans ready⟩⟩
    · exact Or.inr ⟨closed, Or.inl ⟨same.trans ready, same.trans ready⟩⟩
  · exact Or.inr ⟨closed, Or.inr ⟨stop, gone⟩⟩

/-- **What the runs keep**: the loop makes the next call, or the listening connection is closed, or the
backlog is empty, or an event is pending, or `accept` has given up. -/
def Watches (w : Front) : Prop :=
  if w.reading then w.m_recv_ready = true
  else w.closed = true ∨ w.waiting = 0 ∨ w.event = true ∨ w.last.GivesUp

end Front

/-- **No client is left waiting without an event**, on any run: while the listening connection is open
and `recvMsg` is not running, an event is pending if there are connections in the backlog, unless
`accept` has given up for an aborted connection or a missing descriptor. -/
theorem backlog_reported (rlim_cur : UInt64) (w : Front) (reached : (frontRuns rlim_cur).Reach w) :
    w.closed = true ∨ w.reading = true ∨ w.waiting = 0 ∨ w.event = true ∨ w.last.GivesUp := by
  have watches : w.Watches := by
    refine reached.invariant (I := Front.Watches) (fun w start => ?_) fun w event w' _ watches step => ?_
    · obtain ⟨-, -, -, idle, -, reported⟩ := start
      unfold Front.Watches
      rw [idle]
      refine Or.inr ?_
      exact (Classical.em (w.waiting = 0)).imp id fun more => Or.inl (reported more)
    · cases event with
      | arrive =>
          obtain rfl : w' = _ := step
          unfold Front.Watches at watches ⊢
          dsimp only
          split
          next reading => rwa [if_pos reading] at watches
          · exact Or.inr (Or.inr (Or.inl rfl))
      | callback =>
          obtain ⟨-, -, -, rfl⟩ := step
          exact (if_pos rfl).mpr rfl
      | error =>
          obtain ⟨idle, -, rfl⟩ := step
          unfold Front.Watches
          dsimp only
          rw [idle]
          exact Or.inl rfl
      | turn call =>
          obtain ⟨reading, left, answers, rfl⟩ := step
          unfold Front.Watches at watches ⊢
          rw [if_pos reading] at watches
          dsimp only
          rcases Front.recvMsg_cases call watches reading with
            ⟨closed, stops, -⟩ | ⟨-, goes | ⟨stops, why⟩⟩
          · rw [stops]
            exact Or.inl closed
          · rw [if_pos goes.1]
            exact goes.2
          · rw [stops]
            rcases why with rfl | givesUp
            · exact Or.inr (Or.inl answers.2)
            · exact Or.inr (Or.inr (Or.inr givesUp))
      | clientClose c =>
          obtain ⟨idle, -, rfl⟩ := step
          obtain ⟨ready, reading, closed, waiting, event, last⟩ := Front.closeClient_same c w
          unfold Front.Watches at watches ⊢
          rwa [ready, reading, closed, waiting, event, last]
      | other event =>
          obtain ⟨-, -, p, -, rfl⟩ := step
          exact watches
  unfold Front.Watches at watches
  split at watches
  next reading => exact Or.inr (Or.inl reading)
  · exact watches.imp id Or.inr

/-- **The listening connection stays open** on the runs on which `accept(2)` fails with the errors that
`accept` knows, and every new descriptor can be registered. Refusing clients does not close it. -/
theorem keeps_listening (rlim_cur : UInt64) (w : Front)
    (reached : ((frontRuns rlim_cur).guarded fun _ event =>
      match event with
      | .error => False
      | .turn call => ¬ call.Fatal
      | _ => True).Reach w) :
    w.closed = false ∧ (w.reading = true → w.m_recv_ready = true) := by
  refine reached.invariant (I := fun w => w.closed = false ∧ (w.reading = true → w.m_recv_ready = true))
    (fun w start => ?_) fun w event w' _ listens step => ?_
  · obtain ⟨-, -, -, idle, listens, -⟩ := start
    refine ⟨listens, fun reading => ?_⟩
    rw [idle] at reading
    cases reading
  · obtain ⟨listens, ready⟩ := listens
    obtain ⟨harmless, step⟩ := step
    cases event with
    | arrive =>
        obtain rfl : w' = _ := step
        exact ⟨listens, ready⟩
    | callback =>
        obtain ⟨-, -, -, rfl⟩ := step
        exact ⟨listens, fun _ => rfl⟩
    | error => exact harmless.elim
    | turn call =>
        obtain ⟨reading, left, -, rfl⟩ := step
        rcases Front.recvMsg_cases call (ready reading) reading with ⟨-, -, fatal⟩ | ⟨closed, goes⟩
        · exact absurd fatal harmless
        · refine ⟨closed.trans listens, fun reads => ?_⟩
          rcases goes with goes | stops
          · exact goes.2
          · exact absurd (stops.1.symm.trans reads) Bool.false_ne_true
    | clientClose c =>
        obtain ⟨-, -, rfl⟩ := step
        obtain ⟨same, reads, closed, -⟩ := Front.closeClient_same c w
        rw [same, reads, closed]
        exact ⟨listens, ready⟩
    | other event =>
        obtain ⟨-, -, p, -, rfl⟩ := step
        exact ⟨listens, ready⟩

/-! ### A client comes -/

/-- No client has come yet. -/
def quietFront : Front := ⟨atStart 1024, [], false, 0, false, false, false, false, .again⟩

/-- One client waits, and `recvMsg` runs. -/
def calledFront : Front := { quietFront with waiting := 1, m_recv_ready := true, reading := true }

/-- It is accepted, and then nobody is left. -/
def acceptedFront : Front :=
  { calledFront.recvMsg (.descriptor 5 true true) with waiting := 0, last := .descriptor 5 true true }

def drainedFront : Front := { acceptedFront.recvMsg .again with waiting := 0, last := .again }

theorem reach_quietFront : (frontRuns 1024).Reach quietFront :=
  .start ⟨start_atStart 1024, rfl, rfl, rfl, rfl, fun more => absurd rfl more⟩

theorem reach_drainedFront : (frontRuns 1024).Reach drainedFront := by
  have arrived := reach_quietFront.next (a := .arrive)
    (show (frontRuns 1024).step quietFront .arrive { quietFront with waiting := 1, event := true }
      from rfl)
  have called : (frontRuns 1024).Reach calledFront := arrived.next (a := .callback) ⟨rfl, rfl, rfl, rfl⟩
  have accepted : (frontRuns 1024).Reach acceptedFront :=
    called.next (a := .turn (.descriptor 5 true true))
      ⟨rfl, 0, ⟨rfl, by decide, by decide, List.not_mem_nil⟩, rfl⟩
  exact accepted.next (a := .turn .again) ⟨rfl, 0, ⟨rfl, rfl⟩, rfl⟩

theorem descriptors_of_drainedFront :
    drainedFront.fds = [5] ∧ drainedFront.fds.Perm drainedFront.proxy.descriptors :=
  ⟨rfl, (descriptors_accounted 1024 drainedFront reach_drainedFront).1⟩

theorem backlog_of_drainedFront :
    drainedFront.closed = true ∨ drainedFront.reading = true ∨ drainedFront.waiting = 0 ∨
      drainedFront.event = true ∨ drainedFront.last.GivesUp :=
  backlog_reported 1024 drainedFront reach_drainedFront

/-- Two clients wait, the connection of the first one is aborted, and `recvMsg` returns. -/
def leftFront : Front :=
  { ({ quietFront with waiting := 2, m_recv_ready := true, reading := true } : Front).recvMsg .aborted
    with waiting := 1, last := .aborted }

/-- **The second client waits without an event**, until another one comes. -/
theorem client_left_waiting : (frontRuns 1024).Reach leftFront ∧ leftFront.closed = false ∧
    leftFront.reading = false ∧ leftFront.waiting = 1 ∧ leftFront.event = false := by
  refine ⟨?_, rfl, rfl, rfl, rfl⟩
  have one := reach_quietFront.next (a := .arrive)
    (show (frontRuns 1024).step quietFront .arrive { quietFront with waiting := 1, event := true }
      from rfl)
  have two := one.next (a := .arrive)
    (show (frontRuns 1024).step { quietFront with waiting := 1, event := true } .arrive
      { quietFront with waiting := 2, event := true } from rfl)
  have called : (frontRuns 1024).Reach
      { quietFront with waiting := 2, m_recv_ready := true, reading := true } :=
    two.next (a := .callback) ⟨rfl, rfl, rfl, rfl⟩
  exact called.next (a := .turn .aborted) ⟨rfl, 1, rfl, rfl⟩

end Proxy

end Nutcracker
