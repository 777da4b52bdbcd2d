/-
**Is a closed server connection out of service?**

`NcServerConn::close` does nothing. The connection stays in the rotation queue of its server, and the
requests in its two queues stay there.

* `Retired.run` — a connection that no server rotates is never chosen again.
* `chosen_again` — a connection that a server rotates is chosen again, after at most as many calls as
  there are connections before it.
* `out_of_service_iff` — **so closing takes a connection out of service exactly if it already was**.
* `closed_but_chosen` — the only connection of a server is closed with a request on it, and chosen for
  the next request.
-/

import Nutcracker.Proxy.Frame

namespace Nutcracker

open Lib

namespace Proxy

/-- An event of the proxy, or a call of `NcServerPool::getConn`. -/
inductive ServiceEvent
  | proxy (event : ProxyEvent)
  | getConn (idx : Nat)

/-- Requests find their server connection through `getConn`. -/
def ProxyEvent.Indexed : ProxyEvent → Prop
  | .clientRecv _ (.any _) _ _ _ => False
  | _ => True

/-- **The runs of the proxy with the connections that `getConn` chooses.** -/
def serviceRuns (rlim_cur : UInt64) : System Proxy ServiceEvent where
  init := Start rlim_cur
  step p event p' :=
    match event with
    | .proxy event => event.Indexed ∧ Step p event p'
    | .getConn idx => p' = (p.getConn idx).1

/-- No request is undone in the queues: each was freed, or is done with an error. -/
def Resolved (p : Proxy) (s : Addr) : Prop :=
  ∀ m ∈ (p.server s).m_imsg_q ++ (p.server s).m_omsg_q,
    m ∈ p.msg_pool.m_queue ∨ ((p.msg m).m_done = true ∧ (p.msg m).m_error = true)

/-- Between the two, `getConn` has not returned this connection. -/
def NotChosen (s : Addr) (p q : Proxy) : Prop :=
  ∃ acts, q.acts = acts ++ p.acts ∧ .chose (some s) ∉ acts

/-- **Out of service**: never chosen in any run from here, and nothing undone. -/
def OutOfService (rlim_cur : UInt64) (s : Addr) (p : Proxy) : Prop :=
  (∀ q, Relation.ReflTransGen (serviceRuns rlim_cur).Next p q → NotChosen s p q) ∧ p.Resolved s

/-- No server rotates the connection: it may have more connections, or does not know this one. -/
def Unrotated (p : Proxy) (s : Addr) : Prop :=
  ∀ server ∈ p.server_pool.server,
    server.m_ns_conn_q < p.server_pool.server_connections ∨ some s ∉ server.m_conn_queue

variable {s : Addr} {p q r : Proxy}

theorem NotChosen.refl (p : Proxy) : NotChosen s p p := ⟨[], rfl, List.not_mem_nil⟩

theorem NotChosen.trans (one : NotChosen s p q) (two : NotChosen s q r) : NotChosen s p r := by
  obtain ⟨acts, same, absent⟩ := one
  obtain ⟨acts', same', absent'⟩ := two
  refine ⟨acts' ++ acts, ?_, fun member => ?_⟩
  · rw [same', same, List.append_assoc]
  · rcases List.mem_append.mp member with late | early
    · exact absent' late
    · exact absent early

theorem NotChosen.one {act : Act} (same : q.acts = act :: p.acts) (other : act ≠ .chose (some s)) :
    NotChosen s p q :=
  ⟨[act], same, fun member => other (List.mem_singleton.mp member).symm⟩

/-- A rule for `getConn` is a rule for the choices of these runs. -/
theorem picks_index {R : Proxy → Proxy → Prop} {event : ProxyEvent} (indexed : event.Indexed)
    (picks : ∀ idx p, R p (p.getConn idx).1) (c : Addr) (choice : Choice) (sys : ForwardAnswers)
    (fresh : NcMbuf) (answer : ReadAnswer) (same : event = .clientRecv c choice sys fresh answer)
    (q : Proxy) : R q (choice.pick q).1 := by
  cases choice with
  | any conn =>
      rw [same] at indexed
      exact indexed.elim
  | index idx => exact picks idx q

/-! ### A connection that no server rotates -/

/-- What keeps a connection from being chosen. -/
structure Retired (p : Proxy) (s : Addr) : Prop where
  unrotated : p.Unrotated s
  s_queue : p.s_pool.m_queue = []
  made : s < p.s_pool.made

/-- It stays so, and is not chosen. -/
def Retires (s : Addr) (p q : Proxy) : Prop := p.Retired s → q.Retired s ∧ NotChosen s p q

theorem Retires.of_same (server : q.server_pool.server = p.server_pool.server)
    (server_connections : q.server_pool.server_connections = p.server_pool.server_connections)
    (s_queue : q.s_pool.m_queue = p.s_pool.m_queue) (made : q.s_pool.made = p.s_pool.made)
    (notChosen : NotChosen s p q) : Retires s p q := by
  intro retired
  refine ⟨⟨?_, s_queue.trans retired.s_queue, made.symm ▸ retired.made⟩, notChosen⟩
  unfold Unrotated
  rw [server, server_connections]
  exact retired.unrotated

theorem retires_whole (s : Addr) : Whole (Retires s) where
  refl p retired := ⟨retired, .refl p⟩
  trans one two retired :=
    ⟨(two (one retired).1).1, (one retired).2.trans (two (one retired).1).2⟩
  did act p inner := by
    refine .of_same rfl rfl rfl rfl (.one rfl ?_)
    rintro rfl
    exact inner
  msgs _ p := .of_same rfl rfl rfl rfl (.refl p)
  putClient _ _ p _ := .of_same rfl rfl rfl rfl (.refl p)
  putServer _ _ p := .of_same rfl rfl rfl rfl (.refl p)
  clients _ _ _ p := .of_same rfl rfl rfl rfl (.refl p)
  noted act p other := .of_same rfl rfl rfl rfl (.one rfl (other (some s)))

/-- **`getConn` chooses another connection**: a new one, or one that is rotated. -/
theorem retires_getConn (s : Addr) (idx : Nat) (p : Proxy) : Retires s p (p.getConn idx).1 := by
  intro retired
  unfold getConn
  cases found : p.server_pool.server[idx % p.server_pool.server.length]? with
  | none => exact ⟨retired, .refl p⟩
  | some server =>
      have member : server ∈ p.server_pool.server := List.mem_of_getElem? found
      dsimp only
      unfold serverGetConn
      by_cases more : server.m_ns_conn_q < p.server_pool.server_connections
      · rw [if_pos more, NcObjectPool.alloc_empty _ retired.s_queue]
        refine ⟨⟨retired.unrotated, retired.s_queue, Nat.lt_succ_of_lt retired.made⟩, .one rfl ?_⟩
        intro same
        exact Nat.ne_of_gt retired.made (Option.some.inj (Act.chose.inj same))
      · have unknown := (retired.unrotated server member).resolve_left more
        have other : server.m_conn_queue.head?.join ≠ some s := by
          intro first
          rw [Option.join_eq_some_iff] at first
          exact unknown (List.mem_of_mem_head? first)
        rw [if_neg more]
        dsimp only
        refine ⟨⟨fun server' member' => ?_, retired.s_queue, retired.made⟩, ?_⟩
        · rcases List.mem_or_eq_of_mem_set member' with old | rfl
          · exact retired.unrotated server' old
          · refine Or.inr fun queued => ?_
            rcases List.mem_append.mp queued with kept | last
            · exact unknown (List.mem_filter.mp kept).1
            · exact other (List.mem_singleton.mp last).symm
        · have looked : NotChosen s p
              (p.did (.looked .getConn server.m_conn_queue.isEmpty)) := .one rfl nofun
          refine NotChosen.trans looked (.one rfl ?_)
          exact fun same => other (Act.chose.inj same)

/-- No event chooses a connection that no server rotates. -/
theorem retires_step {rlim_cur : UInt64} {event : ServiceEvent}
    (step : (serviceRuns rlim_cur).step p event q) : Retires s p q := by
  cases event with
  | getConn idx =>
      rw [show q = _ from step]
      exact retires_getConn s idx p
  | proxy event =>
      exact (retires_whole s).step (picks_index step.1 (retires_getConn s)) step.2

theorem Retired.run {rlim_cur : UInt64} (retired : p.Retired s)
    (run : Relation.ReflTransGen (serviceRuns rlim_cur).Next p q) :
    q.Retired s ∧ NotChosen s p q := by
  induction run with
  | refl => exact ⟨retired, .refl p⟩
  | tail before last ih =>
      obtain ⟨event, step⟩ := last
      have after := retires_step step ih.1
      exact ⟨after.1, ih.2.trans after.2⟩

/-- `s_pool` gets no connection back. -/
theorem s_queue_run {rlim_cur : UInt64} (reached : (serviceRuns rlim_cur).Reach p) :
    p.s_pool.m_queue = [] := by
  have whole : Whole fun p q => p.s_pool.m_queue = [] → q.s_pool.m_queue = [] :=
    ⟨⟨fun _ => id, fun one two empty => two (one empty), fun _ _ _ => id, fun _ _ => id,
      fun _ _ _ _ => id, fun _ _ _ => id⟩, fun _ _ _ _ => id, fun _ _ _ => id⟩
  have picks (idx : Nat) (p : Proxy) (empty : p.s_pool.m_queue = []) :
      (p.getConn idx).1.s_pool.m_queue = [] := by
    unfold getConn
    split
    · exact empty
    · dsimp only
      unfold serverGetConn
      split
      · rw [NcObjectPool.alloc_empty _ empty]
        exact empty
      · exact empty
  refine reached.invariant (I := fun p => p.s_pool.m_queue = [])
    (fun p (initial : Start rlim_cur p) => initial.s_queue) fun p event q _ empty step => ?_
  cases event with
  | getConn idx =>
      rw [show q = _ from step]
      exact picks idx p empty
  | proxy event =>
      exact whole.step (picks_index (R := fun p q => p.s_pool.m_queue = [] → q.s_pool.m_queue = [])
        step.1 picks) step.2 empty

/-! ### A connection that a server rotates -/

/-- A call of `getConn` that rotates the queue of the server `i`. -/
theorem getConn_rotates {i : Nat} {server : NcServer}
    (found : p.server_pool.server[i]? = some server)
    (full : ¬ server.m_ns_conn_q < p.server_pool.server_connections) :
    (p.getConn i).1.acts = [.chose server.m_conn_queue.head?.join,
        .looked .getConn server.m_conn_queue.isEmpty] ++ p.acts ∧
      (p.getConn i).1.server_pool.server_connections = p.server_pool.server_connections ∧
      (p.getConn i).1.server_pool.server[i]? = some { server with
        m_conn_queue := (server.m_conn_queue.filter fun other =>
          other != server.m_conn_queue.head?.join) ++ [server.m_conn_queue.head?.join] } := by
  have inside : i < p.server_pool.server.length := (List.getElem?_eq_some_iff.mp found).1
  have index : i % p.server_pool.server.length = i := Nat.mod_eq_of_lt inside
  have result : (p.getConn i).1 =
      (p.serverGetConn i server).1.did (.chose (p.serverGetConn i server).2) := by
    unfold getConn
    rw [index, found]
  rw [result]
  unfold serverGetConn
  rw [if_neg full]
  exact ⟨rfl, rfl, List.getElem?_set_self inside⟩

/-- **It comes round**: each call moves another connection from before it to the end. -/
theorem chosen_again {rlim_cur : UInt64} {i : Nat} {server : NcServer} {before after : List Ptr}
    (found : p.server_pool.server[i]? = some server)
    (full : ¬ server.m_ns_conn_q < p.server_pool.server_connections)
    (queue : server.m_conn_queue = before ++ some s :: after) (first : some s ∉ before) :
    ∃ q, Relation.ReflTransGen (serviceRuns rlim_cur).Next p q ∧
      ∃ acts, q.acts = acts ++ p.acts ∧ .chose (some s) ∈ acts := by
  obtain ⟨n, bound⟩ : ∃ n, before.length ≤ n := ⟨_, Nat.le_refl _⟩
  induction n generalizing p server before after with
  | zero =>
      obtain ⟨acts, -, -⟩ := getConn_rotates found full
      have empty : before = [] := List.eq_nil_of_length_eq_zero (Nat.le_zero.mp bound)
      refine ⟨(p.getConn i).1, .single ⟨.getConn i, rfl⟩, _, acts, ?_⟩
      rw [queue, empty]
      exact List.mem_cons_self
  | succ n ih =>
      obtain ⟨acts, server_connections, found'⟩ := getConn_rotates found full
      cases before with
      | nil => exact ih found full queue first (Nat.zero_le n)
      | cons a before =>
          have other : some s ≠ a := fun same => first (same ▸ List.mem_cons_self)
          have head : server.m_conn_queue.head?.join = a := by
            rw [queue]
            rfl
          rw [head] at acts found'
          have kept : (server.m_conn_queue.filter fun b => b != a) ++ [a] =
              (before.filter fun b => b != a) ++ some s :: ((after.filter fun b => b != a) ++ [a]) := by
            have self : (a :: before).filter (fun b => b != a) = before.filter fun b => b != a :=
              List.filter_cons_of_neg (by rw [bne_self_eq_false]; exact Bool.false_ne_true)
            have stays : (some s :: after).filter (fun b => b != a) =
                some s :: after.filter fun b => b != a :=
              List.filter_cons_of_pos (bne_iff_ne.mpr other)
            rw [queue, List.filter_append, self, stays, List.append_assoc, List.cons_append]
          rw [kept] at found'
          rw [List.length_cons] at bound
          have shorter := List.length_filter_le (fun b => b != a) before
          obtain ⟨q, run, acts', same, chosen⟩ := ih found'
            (by rw [server_connections]; exact full) rfl
            (fun member => first (List.mem_cons_of_mem a (List.mem_filter.mp member).1)) (by omega)
          refine ⟨q, .head ⟨.getConn i, rfl⟩ run,
            acts' ++ [.chose a, .looked .getConn server.m_conn_queue.isEmpty], ?_,
            List.mem_append_left _ chosen⟩
          rw [same, acts, List.append_assoc]

/-- **Closing takes a connection out of service exactly if no server rotates it and nothing on it is
undone.** -/
theorem out_of_service_iff {rlim_cur : UInt64} (reached : (serviceRuns rlim_cur).Reach p)
    (serving : p.Serving s) :
    OutOfService rlim_cur s (p.did (.serverClosed s)) ↔ p.Unrotated s ∧ p.Resolved s := by
  constructor
  · rintro ⟨never, resolved⟩
    refine ⟨fun server member => ?_, resolved⟩
    by_contra rotated
    obtain ⟨full, queued⟩ := not_or.mp rotated
    obtain ⟨i, inside, found⟩ := List.mem_iff_getElem.mp member
    obtain ⟨before, after, queue, first⟩ := List.eq_append_cons_of_mem (not_not.mp queued)
    obtain ⟨q, run, acts, same, chosen⟩ := chosen_again (p := p.did (.serverClosed s))
      (List.getElem?_eq_some_iff.mpr ⟨inside, found⟩) full queue first
    obtain ⟨acts', same', absent⟩ := never q run
    rw [same] at same'
    exact absent (List.append_cancel_right same' ▸ chosen)
  · rintro ⟨unrotated, resolved⟩
    have empty := s_queue_run reached
    have retired : (p.did (.serverClosed s)).Retired s := ⟨unrotated, empty, serving.1⟩
    exact ⟨fun q run => (retired.run run).2, resolved⟩

/-- A client sends the byte 7, which is forwarded to the connection 0. -/
def oneForwarded : Proxy :=
  (recvTurn (clientReceiver (getConn 0) ⟨0, none, none⟩ 0) freshMbuf (.bytes [7])
    ((atStart 1024).enroll 5)).1

theorem reach_oneForwarded : (serviceRuns 1024).Reach oneForwarded := by
  have start : (serviceRuns 1024).Reach (atStart 1024) := .start (start_atStart 1024)
  have accepted : (serviceRuns 1024).Reach ((atStart 1024).enroll 5) :=
    start.next (a := .proxy (.accept (.descriptor 5 true true)))
      ⟨trivial, ⟨by decide, by decide, fun c isOpen => absurd isOpen List.not_mem_nil⟩, rfl⟩
  exact accepted.next (a := .proxy (.clientRecv 0 (.index 0) ⟨0, none, none⟩
    freshMbuf (.bytes [7]))) ⟨trivial, List.mem_cons_self, rfl⟩

theorem serving_oneForwarded : oneForwarded.Serving 0 := by
  refine ⟨Nat.zero_lt_one, Option.some_ne_none 1, ?_⟩
  show Act.serverClosed 0 ∉ oneForwarded.acts
  decide

theorem out_of_service_oneForwarded :
    OutOfService 1024 0 (oneForwarded.did (.serverClosed 0)) ↔
      oneForwarded.Unrotated 0 ∧ oneForwarded.Resolved 0 :=
  out_of_service_iff reach_oneForwarded serving_oneForwarded

/-- **The only connection of a server is closed while a request is queued on it, and chosen again.** -/
theorem closed_but_chosen :
    (serviceRuns 1024).Reach (oneForwarded.did (.serverClosed 0)) ∧
      ((oneForwarded.did (.serverClosed 0)).getConn 0).2 = some 0 ∧
      ((oneForwarded.did (.serverClosed 0)).server 0).m_imsg_q = [0] ∧
      ((oneForwarded.did (.serverClosed 0)).msg 0).m_done = false ∧
      (oneForwarded.did (.serverClosed 0)).msg_pool.InUse 0 :=
  ⟨reach_oneForwarded.next (a := .proxy (.serverClose 0)) ⟨trivial, serving_oneForwarded, rfl⟩,
    by decide, by decide, by decide, by decide⟩

end Proxy

end Nutcracker
