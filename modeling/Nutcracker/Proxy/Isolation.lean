/-
**Clients get the responses to their own requests.**

`NcClientConn::close` leaves `m_omsg_q` as it is, and `c_pool` hands the object out again with these
requests in it; and it frees the requests that are `m_done`, a flag that `reset()` leaves, though they
may still be with a server connection. Where neither happens, every message has its place.

* `client_isolation` — **a client is handed the responses to the requests of its own socket only**, on
  all runs without these two.
* `pool_ownership` — **and nothing in use refers to a free message**.
* `in_order_delivery` — while no connection is closed, **the responses are sent in the order of the
  requests, and on each server connection the requests are answered in order**, if no response arrives
  that nobody waits for.
-/

import Nutcracker.Proxy.Custody

namespace Nutcracker

open Lib

/-- A response that is handed to a client. -/
def Act.hand : Act → Option (Addr × Addr)
  | .handed c rsp => some (c, rsp)
  | _ => none

/-- What a record adds to the responses that are handed out. -/
theorem handed_append (acts before : List Act) :
    (ledger (acts ++ before)).handed = acts.filterMap Act.hand ++ (ledger before).handed := by
  induction acts with
  | nil => rfl
  | cons act acts ih =>
      have noted : (ledger ((act :: acts) ++ before)) = (ledger (acts ++ before)).note act := rfl
      rw [noted]
      cases act with
      | handed c rsp => exact congrArg ((c, rsp) :: ·) ih
      | _ => exact ih

namespace Proxy

variable {rlim_cur : UInt64} {p q : Proxy} {event : ProxyEvent}

/-! ### Runs -/

/-- At the start nothing refers to any message. -/
theorem sound_start (start : Start rlim_cur p) : p.books.Sound := by
  obtain ⟨mem, current, msg_pool⟩ := start.msg_pool
  obtain ⟨mem', current', c_pool⟩ := start.c_pool
  have free : p.books.free = [] := by
    show p.msg_pool.m_queue = []
    rw [msg_pool]
    rfl
  have made : p.books.made = 0 := by
    show p.msg_pool.made = 0
    rw [msg_pool]
    rfl
  have live : p.books.live = [] := start.c_conn_q
  have idle : p.books.idle = [] := by
    show p.c_pool.m_queue = []
    rw [c_pool]
    rfl
  have record : p.books.ledger = .blank := by
    show ledger p.acts = .blank
    rw [start.acts]
    rfl
  have bare (s : Addr) : p.books.server s = .bare := by
    obtain ⟨imsg_q, omsg_q, rmsg, smsg⟩ := start.s_conns s
    show Desk.mk _ _ _ _ = Desk.mk [] [] none none
    rw [imsg_q, omsg_q, rmsg, smsg]
  refine ⟨fun _ => .free, ?_⟩
  refine {
    nodup := free ▸ List.nodup_nil
    free := fun m inside => absurd (free ▸ inside) List.not_mem_nil
    unmade := fun _ _ => rfl
    plain := fun m below => absurd (made ▸ below) (Nat.not_lt_zero m)
    peer := fun m below => absurd (made ▸ below) (Nat.not_lt_zero m)
    client := fun c isLive => absurd (live ▸ isLive) List.not_mem_nil
    idle := fun c isIdle => absurd (idle ▸ isIdle) List.not_mem_nil
    apart := fun c isLive => absurd (live ▸ isLive) List.not_mem_nil
    server := fun s => ?_
    unborn := fun s _ => by rw [bare s]; rfl
    spare := start.s_queue
    numbered := numbered p.acts }
  rw [record, bare s]
  exact ⟨rfl, fun m inside => absurd inside List.not_mem_nil, List.nodup_nil, fun m => nofun, rfl⟩

/-- **The books are sound on all runs that mix nothing up.** -/
theorem sound_run (reached : ((proxyRuns rlim_cur).guarded Safe).Reach p) : p.books.Sound := by
  refine reached.invariant (I := fun p => p.books.Sound)
    (fun _ (initial : Start rlim_cur _) => sound_start initial) fun p event q inner sound step => ?_
  have stepped : Books.Step False p.books q.books :=
    books_step sound (Counted.run inner.of_guarded) step.1 False.elim step.2
  exact sound.step stepped

/-! ### Isolation -/

/-- Between the two, `sendChain` handed this response to this client. -/
def Hands (p q : Proxy) (c rsp : Addr) : Prop :=
  ∃ acts, q.acts = acts ++ p.acts ∧ .handed c rsp ∈ acts

/-- The request that the message holds was read from the present socket of the client. -/
def Brought (p : Proxy) (c m : Addr) : Prop :=
  (ledger p.acts).ticket m ∈ (ledger p.acts).requests c

/-- The response is the peer of a request that this socket brought, and was linked to just that
request. -/
def Own (p : Proxy) (c rsp : Addr) : Prop :=
  ∃ pmsg, (p.msg pmsg).m_peer = some rsp ∧ p.Brought c pmsg ∧
    (ledger p.acts).link rsp = (ledger p.acts).ticket pmsg

/-- **Client isolation.** On the runs where no accept hands out a client object with requests in its
queue, and no client is closed while a request of it is done and still with a server connection, a
client is handed its own responses only. -/
theorem client_isolation {c rsp : Addr} (reached : ((proxyRuns rlim_cur).guarded Safe).Reach p)
    (step : ((proxyRuns rlim_cur).guarded Safe).step p event q) (hands : Hands p q c rsp) :
    p.Own c rsp := by
  obtain ⟨acts, same, handed⟩ := hands
  have sound := sound_run reached
  have stepped : Books.Step False p.books q.books :=
    books_step sound (Counted.run reached.of_guarded) step.1 False.elim step.2
  obtain ⟨place, agrees⟩ := sound
  have added : q.books.ledger.handed = acts.filterMap Act.hand ++ p.books.ledger.handed := by
    show (ledger q.acts).handed = _
    rw [same]
    exact handed_append acts p.acts
  have hand : (c, rsp) ∈ acts.filterMap Act.hand := List.mem_filterMap.mpr ⟨_, handed, rfl⟩
  rcases stepped.handed with nothing | ⟨d, isLive, m, inside, r, peer, one⟩
  · rw [List.self_eq_append_left.mp (nothing.symm.trans added)] at hand
    exact absurd hand List.not_mem_nil
  · have single : acts.filterMap Act.hand = [(d, r)] :=
      List.append_cancel_right (added.symm.trans one)
    rw [single, List.mem_singleton] at hand
    obtain ⟨rfl, rfl⟩ := Prod.mk.inj hand
    refine ⟨m, peer, ?_, (agrees.answered isLive inside peer).2.2⟩
    show p.books.ledger.ticket m ∈ p.books.ledger.requests c
    rw [(agrees.client c isLive).queue]
    exact List.mem_append_right _ (List.mem_map_of_mem inside)

/-- These steps, under a condition that they meet. -/
theorem reach_firstAnswered {ok : Proxy → ProxyEvent → Prop}
    (accepts : ok (atStart 1024) (.accept (.descriptor 5 true true)))
    (reads : ok clientAccepted (.clientRecv 0 (.index 0) ⟨0, none, none⟩ freshMbuf (.bytes [7])))
    (sends : ok firstRead (.serverSend 0 ⟨.inProgress 4, none⟩ (some 0)))
    (answers : ok firstSent (.serverRecv 0 ⟨0, none, none⟩ freshMbuf (.bytes [8]))) :
    ((proxyRuns 1024).guarded ok).Reach firstAnswered := by
  have start : ((proxyRuns 1024).guarded ok).Reach (atStart 1024) := .start (start_atStart 1024)
  have accepted : ((proxyRuns 1024).guarded ok).Reach clientAccepted :=
    start.next (a := .accept (.descriptor 5 true true)) ⟨accepts, step_clientAccepted⟩
  have read : ((proxyRuns 1024).guarded ok).Reach firstRead :=
    accepted.next (a := .clientRecv 0 (.index 0) ⟨0, none, none⟩ freshMbuf (.bytes [7]))
      ⟨reads, List.mem_cons_self, rfl⟩
  have sent : ((proxyRuns 1024).guarded ok).Reach firstSent :=
    read.next (a := .serverSend 0 ⟨.inProgress 4, none⟩ (some 0)) ⟨sends, by decide, by decide, rfl⟩
  exact sent.next (a := .serverRecv 0 ⟨0, none, none⟩ freshMbuf (.bytes [8]))
    ⟨answers, by decide, rfl⟩

theorem client_isolation_firstHanded : firstAnswered.Own 0 1 := by
  have reached : ((proxyRuns 1024).guarded Safe).Reach firstAnswered :=
    reach_firstAnswered (Or.inr nofun) trivial trivial trivial
  have step : ((proxyRuns 1024).guarded Safe).step firstAnswered (.clientSend 0 none (.wrote 1))
      firstHanded := ⟨trivial, by decide, rfl⟩
  have hands : Hands firstAnswered firstHanded 0 1 :=
    ⟨[.completed 0 1, .handed 0 1, .looked .clientSendNext false], by decide, by decide⟩
  exact client_isolation reached step hands

/-- The client goes before the response arrives, and its object serves the next one. -/
def reused : Proxy := (firstSent.close 0).enroll 6

def reusedAnswered : Proxy :=
  (recvTurn (serverReceiver ⟨0, none, none⟩ 0) freshMbuf (.bytes [8]) reused).1

def reusedHanded : Proxy :=
  reusedAnswered.orElse (reusedAnswered.clientSendTurn 0 none (.wrote 1))

theorem reach_reused : (proxyRuns 1024).Reach reused := by
  have closed : (proxyRuns 1024).Reach (firstSent.close 0) :=
    reach_firstSent.next (a := .clientClose 0) ⟨by decide, rfl⟩
  exact closed.next (a := .accept (.descriptor 6 true true))
    ⟨⟨by decide, by decide, fun c isOpen => absurd isOpen List.not_mem_nil⟩, rfl⟩

/-- **The next client is handed the response to the request of the one before.** -/
theorem handed_to_another :
    (proxyRuns 1024).Reach reusedAnswered ∧
      Step reusedAnswered (.clientSend 0 none (.wrote 1)) reusedHanded ∧
      Hands reusedAnswered reusedHanded 0 1 ∧ ¬ reusedAnswered.Own 0 1 := by
  have answered : (proxyRuns 1024).Reach reusedAnswered :=
    reach_reused.next (a := .serverRecv 0 ⟨0, none, none⟩ freshMbuf (.bytes [8])) ⟨by decide, rfl⟩
  have brought : (ledger reusedAnswered.acts).requests 0 = [] := by decide
  refine ⟨answered, ⟨by decide, rfl⟩,
    ⟨[.completed 0 1, .handed 0 1, .looked .clientSendNext false], by decide, by decide⟩, ?_⟩
  rintro ⟨m, -, inside, -⟩
  unfold Brought at inside
  rw [brought] at inside
  exact List.not_mem_nil inside

/-! ### Ownership -/

/-- Something live refers to the message: an open client, a server connection, or a message in use. -/
def Referenced (p : Proxy) (m : Addr) : Prop :=
  (∃ c, p.Open c ∧ (m ∈ (p.client c).m_imsg_q ∨ m ∈ (p.client c).m_omsg_q ∨
      (p.client c).m_rmsg = some m ∨ (p.client c).m_smsg = some m)) ∨
    (∃ s, m ∈ (p.server s).m_imsg_q ∨ m ∈ (p.server s).m_omsg_q ∨
      (p.server s).m_rmsg = some m ∨ (p.server s).m_smsg = some m) ∨
    ∃ x, p.msg_pool.InUse x ∧ (p.msg x).m_peer = some m

/-- **Pool ownership.** Nothing live refers to a free message, it is in the queue of `msg_pool` once,
and the next message is one that nothing live refers to. -/
structure Owned (p : Proxy) : Prop where
  distinct : p.msg_pool.m_queue.Nodup
  free : ∀ m ∈ p.msg_pool.m_queue, ¬ p.Referenced m
  next : ¬ p.Referenced p.allocMsg.2

/-- A message in no place is one that nothing live refers to. -/
theorem not_referenced {place : Addr → Books.Place} {m : Addr} (agrees : p.books.Agrees place)
    (placed : place m = .free) : ¬ p.Referenced m := by
  obtain ⟨client, server⟩ := agrees.unused_of_free placed
  rintro (⟨c, isOpen, inside | inside | received | sending⟩ |
    ⟨s, inside | inside | received | sending⟩ | ⟨x, used, peer⟩)
  · rw [show (p.client c).m_imsg_q = [] from (agrees.client c isOpen).imsg] at inside
    exact List.not_mem_nil inside
  · exact (client c isOpen).2 inside
  · exact (client c isOpen).1 received
  · cases sending.symm.trans (agrees.client c isOpen).smsg
  · exact (server s).2 (List.mem_append_left _ inside)
  · exact (server s).2 (List.mem_append_right _ inside)
  · exact (server s).1 received
  · cases sending.symm.trans (agrees.server s).smsg
  · rcases (agrees.peer x used.1 m peer).2 with pair | pair
    · cases placed.symm.trans pair.2.1
    · cases placed.symm.trans pair.1

theorem pool_ownership (reached : ((proxyRuns rlim_cur).guarded Safe).Reach p) : Owned p := by
  obtain ⟨place, agrees⟩ := sound_run reached
  refine ⟨agrees.nodup, fun m inside => not_referenced agrees (agrees.free m inside).1, ?_⟩
  rw [(books_allocMsg p).2]
  refine not_referenced agrees ?_
  cases queue : p.books.free with
  | nil =>
      rw [(Books.fetch_nil queue).2]
      exact agrees.unmade _ (Nat.le_refl _)
  | cons m rest =>
      rw [(Books.fetch_cons queue).2]
      exact (agrees.free m (queue ▸ List.mem_cons_self)).1

/-- The request and its response are free when the response is sent. -/
theorem pool_ownership_firstHanded : firstHanded.msg_pool.m_queue ≠ [] ∧ firstHanded.Owned := by
  have answered : ((proxyRuns 1024).guarded Safe).Reach firstAnswered :=
    reach_firstAnswered (Or.inr nofun) trivial trivial trivial
  have handed : ((proxyRuns 1024).guarded Safe).Reach firstHanded :=
    answered.next (a := .clientSend 0 none (.wrote 1)) ⟨trivial, by decide, rfl⟩
  exact ⟨by decide, pool_ownership handed⟩

/-- The client goes when its request is answered, and its object serves the next one. -/
def stale : Proxy := (firstAnswered.close 0).enroll 6

/-- **A free message is in the queue of an open client.** -/
theorem free_in_queue : (proxyRuns 1024).Reach stale ∧ ¬ stale.Owned := by
  have closed : (proxyRuns 1024).Reach (firstAnswered.close 0) :=
    reached_firstAnswered.next (a := .clientClose 0) ⟨by decide, rfl⟩
  have again : (proxyRuns 1024).Reach stale :=
    closed.next (a := .accept (.descriptor 6 true true))
      ⟨⟨by decide, by decide, fun c isOpen => absurd isOpen List.not_mem_nil⟩, rfl⟩
  refine ⟨again, fun owned => owned.free 0 (by decide) (Or.inl ⟨0, by decide, Or.inr (Or.inl ?_)⟩)⟩
  decide

/-! ### Delivery -/

/-- **In-order, exactly-once delivery.** The responses whose sending to a client was completed are
linked to its requests one after the other, without a gap, and no request is there twice; every response
that a server connection read was linked, to the requests moved there one after the other. -/
structure Delivered (p : Proxy) : Prop where
  completed : ∀ c, p.Open c → (ledger p.acts).completed c <+: (ledger p.acts).requests c
  once : ∀ c, ((ledger p.acts).requests c).Nodup
  linked : ∀ s, (ledger p.acts).responses s = ((ledger p.acts).answered s).length
  answered : ∀ s, (ledger p.acts).answered s <+: (ledger p.acts).moved s

/-- While no connection is closed, no client object has requests of another socket. -/
theorem orderly_run (reached : ((proxyRuns rlim_cur).guarded Orderly).Reach p) :
    p.books.Sound ∧ p.books.Unworn ∧ p.books.Even := by
  refine reached.invariant (I := fun p => p.books.Sound ∧ p.books.Unworn ∧ p.books.Even)
    (fun p (initial : Start rlim_cur p) => ⟨sound_start initial, ?_, ?_⟩) ?_
  · obtain ⟨mem, current, c_pool⟩ := initial.c_pool
    intro c isIdle
    have idle : p.books.idle = [] := by
      show p.c_pool.m_queue = []
      rw [c_pool]
      rfl
    exact absurd (idle ▸ isIdle) List.not_mem_nil
  · intro s
    show (ledger p.acts).responses s = ((ledger p.acts).answered s).length
    rw [initial.acts]
    rfl
  · rintro p event q inner ⟨sound, unworn, even⟩ ⟨orderly, step⟩
    have safe : Safe p event := by
      cases event with
      | accept answer =>
          cases answer with
          | failed => trivial
          | descriptor sd setNonBlocking addConn =>
              exact Or.inr fun c first => unworn c (List.mem_of_mem_head? first)
      | clientClose c => exact orderly.elim
      | _ => trivial
    have stepped : Books.Step True p.books q.books :=
      books_step sound (Counted.run inner.of_guarded) safe (fun _ => orderly) step
    exact ⟨sound.step stepped, unworn.step sound stepped, even.step stepped⟩

theorem in_order_delivery (reached : ((proxyRuns rlim_cur).guarded Orderly).Reach p) :
    Delivered p := by
  obtain ⟨⟨place, agrees⟩, -, even⟩ := orderly_run reached
  exact ⟨fun c isOpen => ⟨_, (agrees.client c isOpen).queue.symm⟩, agrees.numbered.distinct, even,
    fun s => ⟨_, (agrees.server s).queue.symm⟩⟩

theorem in_order_firstAnswered : firstAnswered.Delivered :=
  in_order_delivery (reach_firstAnswered trivial trivial trivial (Or.inr fun _ => by decide))

/-- No connection is closed. -/
def Unclosed : ProxyEvent → Prop
  | .clientClose _ | .serverClose _ => False
  | _ => True

/-- A response of the byte 9 arrives before the first request is sent. -/
def earlyRead : Proxy :=
  (recvTurn (serverReceiver ⟨0, none, none⟩ 0) freshMbuf (.bytes [9]) firstRead).1

/-- Then the request is sent. -/
def earlySent : Proxy := earlyRead.serverSendTurn 0 ⟨.inProgress 4, none⟩ (some 0)

/-- **The first response is linked to no request**, though a request is the first one there. -/
theorem first_to_none :
    ((proxyRuns 1024).guarded fun _ event => Unclosed event).Reach earlySent ∧
      (ledger earlySent.acts).responses 0 = 1 ∧ (ledger earlySent.acts).moved 0 = [0] ∧
      (ledger earlySent.acts).answered 0 = [] ∧ ¬ earlySent.Delivered := by
  have start : ((proxyRuns 1024).guarded fun _ event => Unclosed event).Reach (atStart 1024) :=
    .start (start_atStart 1024)
  have accepted : ((proxyRuns 1024).guarded fun _ event => Unclosed event).Reach clientAccepted :=
    start.next (a := .accept (.descriptor 5 true true)) ⟨trivial, step_clientAccepted⟩
  have read : ((proxyRuns 1024).guarded fun _ event => Unclosed event).Reach firstRead :=
    accepted.next (a := .clientRecv 0 (.index 0) ⟨0, none, none⟩ freshMbuf (.bytes [7]))
      ⟨trivial, List.mem_cons_self, rfl⟩
  -- no buffer was freed yet, so the pool hands out a new one
  have stray : ((proxyRuns 1024).guarded fun _ event => Unclosed event).Reach earlyRead :=
    read.next (a := .serverRecv 0 ⟨0, none, none⟩ freshMbuf (.bytes [9]))
      ⟨trivial, by decide, rfl⟩
  have sent : ((proxyRuns 1024).guarded fun _ event => Unclosed event).Reach earlySent :=
    stray.next (a := .serverSend 0 ⟨.inProgress 4, none⟩ (some 0))
      ⟨trivial, by decide, by decide, rfl⟩
  refine ⟨sent, by decide, by decide, by decide, fun delivered => ?_⟩
  exact absurd (delivered.linked 0) (by decide)

end Proxy

end Nutcracker
