/-
**A client that sends no more is closed when it waits for nothing.**

`recvNext` sets `m_done` at the end of the stream if the connection is not active, and `sendNext` if
`m_omsg_q` is empty. The latter does not ask for `m_rmsg`, and need not: at the end of the stream the
read is a message without bytes, which is dropped in the same turn.

* `Calm.run` — on all runs the client connections are `Quiet`.
* `recvTurn_end` — a turn at the end of the stream, while a request waits for its response.
* `half_close` — **`m_done` is set when the connection is `Drained` only, and the end of the stream alone
  closes no connection with a request that waits**.
-/

import Nutcracker.Proxy.Budget
import Nutcracker.Proxy.Looks

namespace Nutcracker

open Lib

/-- The end of the stream was seen, and there is no request in the queue or being received. -/
structure NcConn.Drained (conn : NcConn) : Prop where
  eof : conn.m_eof = true
  omsg_q : conn.m_omsg_q = []
  rmsg : conn.m_rmsg = none

namespace Proxy

/-- At the end of the stream no request is being received, and a connection is done only when its queue
is empty too. -/
structure Quiet (conn : NcConn) : Prop where
  rmsg : conn.m_eof = true → conn.m_rmsg = none
  done : conn.m_done = true → conn.m_eof = true ∧ conn.m_omsg_q = []

variable {p q : Proxy} {c m : Addr} {conn : NcConn}

theorem Quiet.drained (quiet : Quiet conn) (done : conn.m_done = true) : conn.Drained where
  eof := (quiet.done done).1
  omsg_q := (quiet.done done).2
  rmsg := quiet.rmsg (quiet.done done).1

theorem Quiet.not_done (quiet : Quiet conn) (eof : conn.m_eof = false) : conn.m_done = false := by
  by_contra done
  rw [(quiet.done (Bool.not_eq_false _ ▸ done)).1] at eof
  cases eof

theorem Quiet.of_idle (done : conn.m_done = false) (rmsg : conn.m_rmsg = none) : Quiet conn where
  rmsg _ := rmsg
  done isDone := absurd (done.symm.trans isDone) nofun

theorem Quiet.of_open (done : conn.m_done = false) (eof : conn.m_eof = false) : Quiet conn where
  rmsg isEof := absurd (eof.symm.trans isEof) nofun
  done isDone := absurd (done.symm.trans isDone) nofun

/-! ### Receiving from a client -/

/-- At the end of the stream `recvNext` has no message to drop. -/
theorem recvNext_eof (eof : (p.client c).m_eof = true) (rmsg : (p.client c).m_rmsg = none)
    (alloc : Bool) :
    p.clientRecvNext c alloc =
      if clientActive (p.client c) then (p, none)
      else (p.putClient c fun conn => { conn with m_done := true }, none) := by
  unfold clientRecvNext dropIncomplete
  rw [if_pos eof, rmsg]

theorem recvNext_pending (eof : (p.client c).m_eof = true) (rmsg : (p.client c).m_rmsg = none)
    (pending : (p.client c).m_omsg_q ≠ []) (alloc : Bool) :
    p.clientRecvNext c alloc = (p, none) := by
  have active : clientActive (p.client c) = true := by
    unfold clientActive
    rw [isEmpty_eq_false.mpr pending]
    rfl
  rw [recvNext_eof eof rmsg, if_pos active]

/-- Before the end of the stream there is a message to receive. -/
theorem recvNext_open (eof : (p.client c).m_eof = false) :
    ∃ q m, p.clientRecvNext c true = (q, some m) ∧
      q.client c = { p.client c with m_rmsg := some m } := by
  have notEof : ¬ (p.client c).m_eof = true := by
    rw [eof]
    exact Bool.false_ne_true
  unfold clientRecvNext
  rw [if_neg notEof]
  cases rmsg : (p.client c).m_rmsg with
  | some m =>
      refine ⟨p, m, rfl, ?_⟩
      rw [← rmsg]
  | none => exact ⟨_, _, rfl, (client_putMsg ..).trans (client_putClient ..)⟩

/-- **`recvNext` keeps a connection quiet.** -/
theorem Quiet.recvNext (quiet : Quiet (p.client c)) (alloc : Bool) :
    Quiet ((p.clientRecvNext c alloc).1.client c) := by
  by_cases eof : (p.client c).m_eof = true
  · rw [recvNext_eof eof (quiet.rmsg eof)]
    by_cases active : clientActive (p.client c) = true
    · rw [if_pos active]
      exact quiet
    · rw [if_neg active, client_putClient]
      have empty : (p.client c).m_omsg_q = [] := by
        by_contra pending
        refine active ?_
        unfold clientActive
        rw [isEmpty_eq_false.mpr pending]
        rfl
      exact ⟨quiet.rmsg, fun _ => ⟨eof, empty⟩⟩
  · unfold clientRecvNext
    rw [if_neg eof]
    have opened := Bool.eq_false_of_not_eq_true eof
    cases (p.client c).m_rmsg with
    | some m => exact quiet
    | none =>
        cases alloc with
        | false => exact quiet
        | true =>
            dsimp only
            rw [if_pos rfl, client_putMsg, client_putClient]
            exact .of_open (quiet.not_done opened) opened

/-- The client keeps `m_done` and `m_rmsg`. -/
def Served (c : Addr) (p q : Proxy) : Prop :=
  (q.client c).m_done = (p.client c).m_done ∧ (q.client c).m_rmsg = (p.client c).m_rmsg

theorem served_serves (c : Addr) : Serves c (Served c) where
  refl _ := ⟨rfl, rfl⟩
  trans one two := ⟨two.1.trans one.1, two.2.trans one.2⟩
  did _ _ _ := ⟨rfl, rfl⟩
  msgs _ _ := ⟨rfl, rfl⟩
  putServer _ _ _ := ⟨rfl, rfl⟩
  putClient f p _ done rmsg := by
    unfold Served
    rw [client_putClient]
    exact ⟨done, rmsg⟩

theorem served_pick (c : Addr) (choice : Choice) (p : Proxy) : Served c p (choice.pick p).1 := by
  have same : (choice.pick p).1.client c = p.client c :=
    congrArg (fun pool => pool.mem c) (pick_frame choice p).2.1
  unfold Served
  rw [same]
  exact ⟨rfl, rfl⟩

/-- After `recvDone` no request is being received. -/
theorem recvDone_idle (choice : Choice) (sys : ForwardAnswers) (c m : Addr) (p : Proxy) :
    ((p.clientRecvDone choice.pick sys c m).client c).m_done = (p.client c).m_done ∧
      ((p.clientRecvDone choice.pick sys c m).client c).m_rmsg = none := by
  have served := (served_serves c).recvDone (served_pick c choice) sys m p
  unfold Served at served
  rw [client_putClient] at served
  exact served

theorem parse_idle (choice : Choice) (sys : ForwardAnswers) (c m : Addr) (p : Proxy) :
    ((parse (clientReceiver choice.pick sys c) m p).1.client c).m_done = (p.client c).m_done ∧
      ((parse (clientReceiver choice.pick sys c) m p).1.client c).m_rmsg = none := by
  unfold parse
  split
  · exact recvDone_idle choice sys c m p
  · exact recvDone_idle choice sys c m _

/-- A read that fails leaves `m_eof`, and no read sets `m_done`. -/
theorem recv_flags (answer : ReadAnswer) (size : Nat) (conn : NcConn) :
    (conn.recv answer size).1.m_done = conn.m_done ∧
      ∀ status, (conn.recv answer size).2 = .error status →
        (conn.recv answer size).1.m_eof = conn.m_eof := by
  rcases recv_cases answer size conn with
    ⟨-, bytes, ready, -, read⟩ | ⟨-, read | ⟨status, err, read⟩⟩
  · rw [read]
    exact ⟨rfl, nofun⟩
  · rw [read]
    exact ⟨rfl, nofun⟩
  · rw [read]
    exact ⟨rfl, fun _ _ => rfl⟩

/-- **A read keeps a connection quiet**: at the end of the stream the message is dropped. -/
theorem quiet_recvChain (choice : Choice) (sys : ForwardAnswers) (fresh : NcMbuf)
    (answer : ReadAnswer) (m : Addr) (done : (p.client c).m_done = false)
    (eof : (p.client c).m_eof = false) :
    Quiet ((recvChain (clientReceiver choice.pick sys c) fresh answer m p).1.client c) := by
  generalize last : tailMbuf fresh (p.msg m).m_mbuf_queue = tail
  have flags := recv_flags answer tail.2.size (p.client c)
  generalize read : (p.client c).recv answer tail.2.size = outcome at flags
  obtain ⟨conn, result⟩ := outcome
  cases result with
  | error status =>
      rw [recvChain_error (fun _ => rfl) last read, client_putMsg]
      show Quiet ((Proxy.putClient c _ _).client c)
      rw [client_putClient]
      exact .of_open (flags.1.trans done) ((flags.2 status rfl).trans eof)
  | ok bytes =>
      rw [recvChain_ok (fun _ => rfl) last read]
      unfold received
      dsimp only
      generalize start : Proxy.putMsg m _ _ = q
      have same : q.client c = conn := by
        rw [← start, client_putMsg]
        exact client_putClient ..
      have parsed := parse_idle choice sys c m q
      have idle := Quiet.of_idle (parsed.1.trans (same ▸ flags.1.trans done)) parsed.2
      split
      · exact idle.recvNext false
      · exact idle

/-- **A turn of `recvMsg` keeps a connection quiet.** -/
theorem Quiet.recvTurn (quiet : Quiet (p.client c)) (choice : Choice) (sys : ForwardAnswers)
    (fresh : NcMbuf) (answer : ReadAnswer) :
    Quiet ((Proxy.recvTurn (clientReceiver choice.pick sys c) fresh answer p).1.client c) := by
  have next : (clientReceiver choice.pick sys c).recvNext true p = p.clientRecvNext c true := rfl
  unfold Proxy.recvTurn
  rw [next]
  by_cases eof : (p.client c).m_eof = true
  · have after := quiet.recvNext true
    have nothing : (p.clientRecvNext c true).2 = none := by
      rw [recvNext_eof eof (quiet.rmsg eof)]
      split
      · rfl
      · rfl
    cases result : p.clientRecvNext c true with
    | mk q msg =>
        rw [result] at after nothing
        rw [show msg = none from nothing]
        exact after
  · have opened := Bool.eq_false_of_not_eq_true eof
    obtain ⟨q, m, result, same⟩ := recvNext_open opened
    rw [result]
    refine quiet_recvChain choice sys fresh answer m ?_ ?_
    · rw [same]
      exact quiet.not_done opened
    · rw [same]
      exact opened

/-! ### The turn at the end of the stream -/

/-- `recvDone` of a message without bytes drops it. -/
theorem recvDone_empty (choice : Choice) (sys : ForwardAnswers) (c : Addr)
    (empty : (p.msg m).empty = true) :
    (p.clientRecvDone choice.pick sys c m).client c = { p.client c with m_rmsg := none } := by
  unfold clientRecvDone requestFilter
  dsimp only
  generalize put : (p.putClient c fun conn => { conn with m_rmsg := none }) = q
  have sameMsg : q.msg m = p.msg m := put ▸ rfl
  rw [sameMsg, if_pos empty]
  show q.client c = _
  rw [← put, client_putClient]

theorem received_end (choice : Choice) (sys : ForwardAnswers) (before : List NcMbuf) (mbuf : NcMbuf)
    (m : Addr) (eof : (p.client c).m_eof = true) (pending : (p.client c).m_omsg_q ≠ []) :
    (received (clientReceiver choice.pick sys c) before mbuf [] m p).2 = NC_OK ∧
      (received (clientReceiver choice.pick sys c) before mbuf [] m p).1.client c =
        { p.client c with m_rmsg := none } := by
  unfold received
  dsimp only
  generalize start : (p.putMsg m fun msg =>
    { msg with m_mbuf_queue := before ++ [mbuf.copy []], m_mlen := ([] : List UInt8).length }) = q
  have same : q.client c = p.client c := start ▸ rfl
  have empty : (q.msg m).empty = true := by
    rw [← start, msg_putMsg]
    rfl
  have dropped := recvDone_empty choice sys c empty
  have parsed : parse (clientReceiver choice.pick sys c) m q =
      (q.clientRecvDone choice.pick sys c m, NC_OK) := by
    unfold parse
    rw [if_pos empty]
    rfl
  rw [same] at dropped
  rw [parsed, if_pos rfl]
  refine ⟨rfl, ?_⟩
  show ((clientRecvNext c false _).1).client c = _
  rw [recvNext_pending (by rw [dropped]; exact eof) (by rw [dropped]) (by rw [dropped]; exact pending)]
  exact dropped

/-- **A turn at the end of the stream leaves a connection with a request that waits**: its status is
`NC_OK`, and it changes neither the queue, nor `m_done`, nor `m_err`. -/
theorem recvTurn_end (quiet : Quiet (p.client c)) (choice : Choice) (sys : ForwardAnswers)
    (fresh : NcMbuf) {answer : ReadAnswer} (last : (p.client c).m_eof = true ∨ answer = .bytes [])
    (pending : (p.client c).m_omsg_q ≠ []) :
    (recvTurn (clientReceiver choice.pick sys c) fresh answer p).2 = NC_OK ∧
      ∃ ready, (recvTurn (clientReceiver choice.pick sys c) fresh answer p).1.client c =
        { p.client c with m_recv_ready := ready, m_eof := true, m_rmsg := none } := by
  have next : (clientReceiver choice.pick sys c).recvNext true p = p.clientRecvNext c true := rfl
  unfold recvTurn
  rw [next]
  by_cases eof : (p.client c).m_eof = true
  · rw [recvNext_pending eof (quiet.rmsg eof) pending]
    refine ⟨rfl, (p.client c).m_recv_ready, ?_⟩
    show p.client c = _
    rw [← eof, ← quiet.rmsg eof]
  · have opened := Bool.eq_false_of_not_eq_true eof
    obtain ⟨q, m, result, same⟩ := recvNext_open opened
    rw [result, last.resolve_left eof]
    dsimp only
    generalize last' : tailMbuf fresh (q.msg m).m_mbuf_queue = tail
    have read : (q.client c).recv (.bytes []) tail.2.size =
        ({ q.client c with m_recv_ready := false, m_eof := true }, .ok []) := by
      unfold NcConn.recv
      dsimp only
      rw [List.take_nil, if_pos rfl]
    rw [recvChain_ok (fun _ => rfl) last' read]
    generalize ended : (clientReceiver choice.pick sys c).put _ _ = r
    have conn : r.client c = { q.client c with m_recv_ready := false, m_eof := true } := by
      rw [← ended]
      exact client_putClient ..
    have atEnd : (r.client c).m_eof = true := by rw [conn]
    have waits : (r.client c).m_omsg_q ≠ [] := by
      rw [conn, same]
      exact pending
    obtain ⟨status, final⟩ := received_end choice sys tail.1 tail.2 m atEnd waits
    refine ⟨status, false, ?_⟩
    rw [final, conn, same]

/-! ### The other events -/

/-- **`sendNext` keeps a connection quiet.** -/
theorem Quiet.sendNext (quiet : Quiet conn) (delOutput : Option Int) (mem : Addr → NcMsg) :
    Quiet (NcClientConn.sendNext delOutput mem conn).1 := by
  unfold NcClientConn.sendNext
  split
  next queue =>
    have done : Quiet (if conn.m_eof then { conn with m_done := true } else conn) := by
      split
      next eof => exact ⟨quiet.rmsg, fun _ => ⟨eof, queue⟩⟩
      next => exact quiet
    cases delOutput with
    | none => exact done
    | some err => exact ⟨done.rmsg, done.done⟩
  next =>
    split
    · exact ⟨quiet.rmsg, quiet.done⟩
    · exact ⟨quiet.rmsg, quiet.done⟩

/-- **A turn of `sendMsg` keeps a connection quiet.** -/
theorem Quiet.clientSend (quiet : Quiet (p.client c)) {delOutput : Option Int}
    {answer : NcConn.SendvAnswer} (turn : p.clientSendTurn c delOutput answer = .ok q) :
    Quiet (q.client c) := by
  rcases clientSendTurn_cases turn with
    ⟨-, final⟩ | ⟨rsp, pmsg, rest, nsent, ready, err, queue, -, -, final⟩
  · rw [final, client_putClient]
    exact quiet.sendNext delOutput p.msg_pool.mem
  · obtain ⟨left, conn⟩ := accounted_conn rsp nsent
      ⟨{ p.client c with m_smsg := none, m_send_ready := ready, m_err := err }, p.msg_pool⟩
    -- The queue has a request, so the connection was not done.
    have kept : Quiet (NcConn.accounted NcClientConn.sendDone rsp nsent
        ⟨{ p.client c with m_smsg := none, m_send_ready := ready, m_err := err },
          p.msg_pool⟩).conn := by
      rw [conn]
      refine ⟨quiet.rmsg, fun done => ?_⟩
      have empty := (quiet.done done).2
      rw [queue] at empty
      cases empty
    have after : q.client c = (NcConn.accounted NcClientConn.sendDone rsp nsent
        ⟨{ p.client c with m_smsg := none, m_send_ready := ready, m_err := err },
          p.msg_pool⟩).conn := by
      have put (acts : List Act) (msg_pool : NcObjectPool NcMsg) (f : NcConn → NcConn) :
          Proxy.client { { p with msg_pool := msg_pool }.putClient c f with acts := acts } c =
            f (p.client c) := NcObjectPool.mem_put_self ..
      rcases final with ⟨-, final⟩ | ⟨-, final⟩
      · rw [final]
        exact put _ _ fun _ => _
      · rw [final]
        exact put _ _ fun _ => _
    rw [after]
    exact kept

/-- The connections but one stay quiet. -/
def Others (c : Addr) (p q : Proxy) : Prop :=
  ∀ d, d ≠ c → Quiet (p.client d) → Quiet (q.client d)

theorem others_tends (c : Addr) : Tends c (Others c) where
  refl _ _ _ quiet := quiet
  trans one two d other quiet := two d other (one d other quiet)
  did _ _ _ _ _ quiet := quiet
  msgs _ _ _ _ quiet := quiet
  putServer _ _ _ _ _ quiet := quiet
  putClient f p _ d other quiet := by
    rw [client_putClient_of_ne f p other]
    exact quiet

theorem others_pick (c : Addr) (choice : Choice) (p : Proxy) : Others c p (choice.pick p).1 := by
  intro d _ quiet
  have same : (choice.pick p).1.client d = p.client d :=
    congrArg (fun pool => pool.mem d) (pick_frame choice p).2.1
  rw [same]
  exact quiet

/-- A server connection sets `m_err` of a client, which stays quiet. -/
theorem quiet_fails : Fails fun p q => ∀ d, Quiet (p.client d) → Quiet (q.client d) where
  refl _ _ quiet := quiet
  trans one two d quiet := two d (one d quiet)
  did _ _ _ _ quiet := quiet
  msgs _ _ _ quiet := quiet
  putServer _ _ _ _ quiet := quiet
  fail c err p d quiet := by
    by_cases isC : d = c
    · rw [isC, client_putClient]
      rw [isC] at quiet
      exact ⟨quiet.rmsg, quiet.done⟩
    · rw [client_putClient_of_ne _ _ isC]
      exact quiet

/-- **`close` leaves a quiet object**, and the others alone. -/
theorem quiet_close (c : Addr) (p : Proxy) (d : Addr) (quiet : Quiet (p.client d)) :
    Quiet ((p.close c).client d) := by
  have back (q : Proxy) (quiet : d ≠ c → Quiet (q.client d)) : Quiet ((q.freeClient c).client d) := by
    by_cases isC : d = c
    · rw [isC]
      show Quiet ((q.c_pool.put c NcConn.baseReset).mem c)
      rw [NcObjectPool.mem_put_self]
      exact .of_open rfl rfl
    · show Quiet ((q.c_pool.put c NcConn.baseReset).mem d)
      rw [NcObjectPool.mem_put_of_ne _ _ isC]
      exact quiet isC
  have unref (q : Proxy) (other : d ≠ c) : (q.unref c).client d = q.client d := by
    show (q.c_pool.put c fun conn => { conn with m_owner := none }).mem d = q.c_pool.mem d
    exact NcObjectPool.mem_put_of_ne _ _ other
  unfold close
  dsimp only
  split
  · refine back _ fun other => ?_
    rw [unref _ other]
    exact quiet
  · refine back _ fun other => ?_
    rw [client_putClient_of_ne _ _ other, unref _ other]
    exact (others_tends c).dropMsgs _ d other quiet

/-- Every client connection that was made is quiet. -/
def Calm (p : Proxy) : Prop := ∀ c, c < p.c_pool.made → Quiet (p.client c)

/-- **A new client is quiet.** -/
theorem Calm.enroll (calm : Calm p) (counted : Counted p) (sd : Int) : Calm (p.enroll sd) := by
  intro d made
  have mem : (p.enroll sd).client d = (((p.c_pool.alloc NcConn.new).1.put p.nextClient fun conn =>
    { conn with m_sd := sd }).put p.nextClient fun conn =>
    { conn with m_owner := some pool }).mem d := rfl
  rw [mem]
  by_cases isNew : d = p.nextClient
  · have taken : Quiet ((p.c_pool.alloc NcConn.new).1.mem p.nextClient) :=
      NcObjectPool.alloc_taken (.of_open rfl rfl) fun o queued =>
        calm o (counted.made o (List.mem_append_right _ queued))
    rw [isNew, NcObjectPool.mem_put_self, NcObjectPool.mem_put_self]
    exact ⟨taken.rmsg, taken.done⟩
  · rw [NcObjectPool.mem_put_of_ne _ _ isNew, NcObjectPool.mem_put_of_ne _ _ isNew,
      NcObjectPool.mem_alloc_of_ne _ _ isNew]
    exact calm d ((NcObjectPool.made_alloc NcConn.new p.c_pool).2 d made isNew)

theorem made_enroll (sd : Int) (p : Proxy) : p.c_pool.made ≤ (p.enroll sd).c_pool.made :=
  (NcObjectPool.made_alloc NcConn.new p.c_pool).1

theorem made_close (c : Addr) (p : Proxy) : (p.close c).c_pool.made = p.c_pool.made := by
  unfold close
  dsimp only
  split
  · rfl
  · exact (undisturbed_frame.dropMsgs c (p.did (.closed c))).made

theorem Calm.close (calm : Calm p) (c : Addr) : Calm (p.close c) :=
  fun d made => quiet_close c p d (calm d (made.trans_eq (made_close c p)))

/-- An event that makes no client connection, and keeps each of them quiet. -/
theorem Calm.kept (calm : Calm p) (made : q.c_pool.made = p.c_pool.made)
    (keeps : ∀ d, Quiet (p.client d) → Quiet (q.client d)) :
    p.c_pool.made ≤ q.c_pool.made ∧ Calm q :=
  ⟨made.ge, fun d below => keeps d (calm d (below.trans_eq made))⟩

/-- An event of one connection. -/
theorem Others.all (others : Others c p q) (own : Quiet (p.client c) → Quiet (q.client c)) (d : Addr)
    (quiet : Quiet (p.client d)) : Quiet (q.client d) := by
  by_cases isC : d = c
  · rw [isC] at quiet ⊢
    exact own quiet
  · exact others d isC quiet

/-- **Every event keeps the connections quiet**, and unmakes none. -/
theorem Calm.step (calm : Calm p) (counted : Counted p) {event : ProxyEvent}
    (step : Step p event q) : p.c_pool.made ≤ q.c_pool.made ∧ Calm q := by
  cases event with
  | accept answer =>
      rw [step.2]
      cases answer with
      | failed => exact ⟨Nat.le_refl _, calm⟩
      | descriptor sd setNonBlocking addConn =>
          have entered := calm.enroll counted sd
          show _ ≤ (if _ then _ else _ : Proxy).c_pool.made ∧ Calm (if _ then _ else _)
          split
          · exact ⟨Nat.le_refl _, calm⟩
          · split
            · exact ⟨made_enroll sd p, entered⟩
            · rw [made_close]
              exact ⟨made_enroll sd p, entered.close _⟩
  | clientRecv c choice sys fresh answer =>
      have same := undisturbed_frame.clientRecv (undisturbed_pick choice) sys c fresh answer p
      have others := (others_tends c).clientRecv (others_pick c choice) sys fresh answer p
      rw [step.2]
      exact calm.kept same.made (others.all fun quiet => quiet.recvTurn choice sys fresh answer)
  | clientSend c delOutput answer =>
      have same := undisturbed_frame.clientSend step.2
      have others := (others_tends c).clientSend step.2
      exact calm.kept same.made (others.all fun quiet => quiet.clientSend step.2)
  | clientClose c =>
      rw [step.2]
      exact ⟨(made_close c p).ge, calm.close c⟩
  | serverRecv s sys fresh answer =>
      have same := undisturbed_frame.serverRecv sys s fresh answer p
      rw [step.2]
      exact calm.kept same.made (quiet_fails.serverRecv sys s fresh answer p)
  | serverSend s sys done =>
      have same := undisturbed_frame.serverSend s sys done p
      rw [step.2.2]
      exact calm.kept same.made (quiet_fails.toBase.serverSend s sys done p)
  | serverClose s =>
      rw [step.2]
      exact ⟨Nat.le_refl _, calm⟩

/-- **The client connections are quiet on all runs.** -/
theorem Calm.run {rlim_cur : UInt64} (reached : (proxyRuns rlim_cur).Reach p) : Calm p := by
  refine reached.invariant (I := Calm) (fun p (initial : Start rlim_cur p) => ?_)
    fun p event q inner calm step => (calm.step (Counted.run inner) step).2
  obtain ⟨mem, current, c_pool⟩ := initial.c_pool
  intro c made
  rw [c_pool] at made
  exact absurd made (Nat.not_lt_zero c)

/-! ### Half-close -/

/-- **Half-close keeps the responses that wait.** In every run, a client connection that is done has seen
the end of the stream, and has no request in its queue and none being received; the events set `m_done`
in such a state only. And a turn of `recvMsg` at the end of the stream does not make `callback` close a
connection without an error while a request waits for its response. -/
theorem half_close {rlim_cur : UInt64} (reached : (proxyRuns rlim_cur).Reach p) (isOpen : p.Open c) :
    ((p.client c).m_done = true → (p.client c).Drained) ∧
    (∀ event q, Step p event q → (q.client c).m_done = true → (q.client c).Drained) ∧
    ∀ (choice : Choice) sys fresh answer, (p.client c).m_eof = true ∨ answer = .bytes [] →
      (p.client c).m_omsg_q ≠ [] → (p.client c).m_err = 0 →
      let turn := recvTurn (clientReceiver choice.pick sys c) fresh answer p
      (turn.1.client c).m_omsg_q = (p.client c).m_omsg_q ∧ ¬ Closing turn.2 (turn.1.client c) := by
  have calm := Calm.run reached
  have counted := Counted.run reached
  have made := counted.made c (List.mem_append_left _ isOpen)
  refine ⟨(calm c made).drained, fun event q step done => ?_,
    fun choice sys fresh answer last pending fine => ?_⟩
  · obtain ⟨more, calm'⟩ := calm.step counted step
    exact (calm' c (Nat.lt_of_lt_of_le made more)).drained done
  · obtain ⟨status, ready, after⟩ := recvTurn_end (calm c made) choice sys fresh last pending
    dsimp only
    rw [status, after]
    refine ⟨rfl, ?_⟩
    rintro (failed | done | failed)
    · exact failed rfl
    · exact pending ((calm c made).done done).2
    · exact failed fine

/-- The client of the first request sends no more. -/
theorem half_close_firstRead :
    let turn := recvTurn (clientReceiver (Choice.index 0).pick ⟨0, none, none⟩ 0) freshMbuf (.bytes [])
      firstRead
    (turn.1.client 0).m_omsg_q = [0] ∧ ¬ Closing turn.2 (turn.1.client 0) := by
  have isOpen : firstRead.Open 0 := by decide
  obtain ⟨-, -, stays⟩ := half_close reach_firstRead isOpen
  exact stays (.index 0) ⟨0, none, none⟩ freshMbuf (.bytes []) (Or.inr rfl) (by decide) (by decide)

end Proxy

end Nutcracker
