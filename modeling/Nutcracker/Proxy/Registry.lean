/-
**Which connections does a server have?**

`ref` files a connection with its server and `unref` takes it out again. `getConn` counts on both: at
the limit of connections it goes round the queue. Below the limit it takes a connection from `s_pool`,
and files it nowhere.

* `Filed.run` — on all runs **the queue of a server holds the connections it owns, each once, and
  `m_ns_conn_q` counts them**.
* `getConns_all` — at the limit, **as many calls as there are connections return each of them once**.
* `registry_iff` — and a call returns a connection of the server exactly at the limit.
* `unfiled` — below it, connections are made without end.

The owner of a server connection is written as the index of the server.
-/

import Nutcracker.HashKit.Dispatch
import Nutcracker.Proxy.Model

namespace Nutcracker

open Lib

def EHOSTDOWN : Int := 112

namespace Proxy

/-! ### `ref` and `unref` -/

/-- What `ref` notes when the address of the server cannot be resolved. -/
def lookUp (s : Addr) (resolved : Bool) (p : Proxy) : Proxy :=
  if resolved then p else p.putServer s fun conn => { conn with m_err := EHOSTDOWN, m_done := true }

/-- `ref` after the address is looked up. -/
def file (i : Nat) (s : Addr) (p : Proxy) : Proxy :=
  match p.server_pool.server[i]? with
  | none => p
  | some server =>
      { p with
        server_pool :=
          p.server_pool.withServer i
            { server with
              m_ns_conn_q := server.m_ns_conn_q + 1
              m_conn_queue := server.m_conn_queue ++ [some s] } }.putServer s
        fun conn => { conn with m_owner := some i }

/-- **`NcServerConn::ref`** with the server at the index `i`. -/
def serverRef (i : Nat) (s : Addr) (resolved : Bool) (p : Proxy) : Proxy :=
  (p.lookUp s resolved).file i s

/-- **`NcServerConn::unref`.** -/
def serverUnref (s : Addr) (p : Proxy) : Proxy :=
  match (p.server s).m_owner with
  | none => p
  | some i =>
      let p := p.putServer s fun conn => { conn with m_owner := none }
      match p.server_pool.server[i]? with
      | none => p
      | some server =>
          { p with
            server_pool :=
              p.server_pool.withServer i
                { server with
                  m_ns_conn_q := server.m_ns_conn_q - 1
                  m_conn_queue := server.m_conn_queue.filter fun other => other != some s } }

/-- So many calls of `getConn` for the server at the index `i`, with the connections they return. -/
def getConns (i : Nat) : Nat → Proxy → Proxy × List Ptr
  | 0, p => (p, [])
  | n + 1, p =>
      match p.server_pool.server[i]? with
      | none => (p, [])
      | some server =>
          let result := p.serverGetConn i server
          let later := getConns i n result.1
          (later.1, result.2 :: later.2)

/-- What changes the connections of a server. -/
inductive RegistryEvent
  | ref (i : Nat) (s : Addr) (resolved : Bool)
  | unref (s : Addr)
  | getConn (i : Nat)

/-- **The runs of `ref`, `unref` and `getConn`**, over any number of servers, from a state where no
connection has an owner. A connection is referenced when it has none. Those that the start-up takes
from `p_pool` are among the connections made before the run. -/
def registryRuns : System Proxy RegistryEvent where
  init p :=
    p.s_pool.m_queue = [] ∧ (∀ s, (p.server s).m_owner = none) ∧
      0 < p.server_pool.server_connections ∧
      ∀ server ∈ p.server_pool.server, server.m_conn_queue = [] ∧ server.m_ns_conn_q = 0
  step p event q :=
    match event with
    | .ref i s resolved =>
        s < p.s_pool.made ∧ (p.server s).m_owner = none ∧ i < p.server_pool.server.length ∧
          q = p.serverRef i s resolved
    | .unref s => (p.server s).m_owner ≠ none ∧ q = p.serverUnref s
    | .getConn i =>
        ∃ server, p.server_pool.server[i]? = some server ∧ q = (p.serverGetConn i server).1

/-- The `uint32_t` has room for one more connection. -/
def Roomy (p : Proxy) : RegistryEvent → Prop
  | .ref i _ _ => ∀ server, p.server_pool.server[i]? = some server →
      server.m_ns_conn_q.toNat + 1 < 2 ^ 32
  | _ => True

/-! ### The files -/

/-- These are the connections of the server at the index `i`. -/
structure Files (p : Proxy) (i : Nat) (server : NcServer) (conns : List Addr) : Prop where
  queue : server.m_conn_queue = conns.map some
  count : server.m_ns_conn_q.toNat = conns.length
  once : conns.Nodup
  owner : ∀ s, s ∈ conns ↔ (p.server s).m_owner = some i

/-- **Every server has its connections on file.** -/
structure Filed (p : Proxy) : Prop where
  spare : p.s_pool.m_queue = []
  limit : 0 < p.server_pool.server_connections
  unmade : ∀ s, p.s_pool.made ≤ s → (p.server s).m_owner = none
  owned : ∀ s i, (p.server s).m_owner = some i → i < p.server_pool.server.length
  files : ∀ i server, p.server_pool.server[i]? = some server → ∃ conns, Files p i server conns

variable {p q : Proxy} {i : Nat} {server : NcServer} {conns : List Addr} {s : Addr}

theorem filter_map_some (s : Addr) (conns : List Addr) :
    ((conns.map some).filter fun other : Ptr => other != some s) =
      (NcQueue.remove s conns).map some := by
  unfold NcQueue.remove
  rw [List.filter_map]
  congr 1

/-- Files from the same connections and owners. -/
theorem Files.of_owner (files : Files p i server conns)
    (same : ∀ s, (q.server s).m_owner = some i ↔ (p.server s).m_owner = some i) :
    Files q i server conns :=
  ⟨files.queue, files.count, files.once, fun s => (files.owner s).trans (same s).symm⟩

/-- **A change of one server and its connections keeps the files of the others.** -/
theorem Filed.withServer {after : NcServer} (filed : Filed p)
    (present : p.server_pool.server[i]? = some server) (files : Files q i after conns)
    (server_pool : q.server_pool = p.server_pool.withServer i after)
    (s_queue : q.s_pool.m_queue = p.s_pool.m_queue) (made : q.s_pool.made = p.s_pool.made)
    (unmade : ∀ s, p.s_pool.made ≤ s → (q.server s).m_owner = none)
    (others : ∀ s j, j ≠ i → ((q.server s).m_owner = some j ↔ (p.server s).m_owner = some j)) :
    Filed q := by
  refine ⟨s_queue.trans filed.spare, ?_, made.symm ▸ unmade, fun t j has => ?_,
    fun j other found => ?_⟩
  · rw [server_pool]
    exact filed.limit
  · rw [server_pool, NcServerPool.withServer_length]
    by_cases here : j = i
    · rw [here]
      exact (List.getElem?_eq_some_iff.mp present).1
    · exact filed.owned t j ((others t j here).mp has)
  · rw [server_pool, NcServerPool.withServer_getElem? present] at found
    by_cases here : j = i
    · rw [if_pos here] at found
      rw [← Option.some.inj found, here]
      exact ⟨conns, files⟩
    · rw [if_neg here] at found
      obtain ⟨theirs, files'⟩ := filed.files j other found
      exact ⟨theirs, files'.of_owner fun t => others t j here⟩

/-! ### What the steps do -/

/-- A failed look-up leaves the files alone. -/
theorem Filed.lookUp (resolved : Bool) (filed : Filed p) : Filed (p.lookUp s resolved) := by
  cases resolved with
  | true => exact filed
  | false =>
      have owner (t : Addr) : ((p.lookUp s false).server t).m_owner = (p.server t).m_owner := by
        by_cases here : t = s
        · rw [here]
          show ((p.putServer s _).server s).m_owner = _
          rw [server_putServer]
        · show ((p.putServer s _).server t).m_owner = _
          rw [server_putServer_of_ne _ _ here]
      refine ⟨filed.spare, filed.limit, fun t old => ?_, fun t j has => ?_, fun j other found => ?_⟩
      · rw [owner]
        exact filed.unmade t old
      · rw [owner] at has
        exact filed.owned t j has
      · obtain ⟨conns, files⟩ := filed.files j other found
        exact ⟨conns, files.of_owner fun t => by rw [owner]⟩

/-- **A connection that has no owner is filed.** -/
theorem Filed.file (filed : Filed p) (free : (p.server s).m_owner = none)
    (made : s < p.s_pool.made) (present : p.server_pool.server[i]? = some server)
    (room : server.m_ns_conn_q.toNat + 1 < 2 ^ 32) : Filed (p.file i s) := by
  have after : p.file i s =
      { p with
        server_pool :=
          p.server_pool.withServer i
            { server with
              m_ns_conn_q := server.m_ns_conn_q + 1
              m_conn_queue := server.m_conn_queue ++ [some s] } }.putServer s
        fun conn => { conn with m_owner := some i } := by
    unfold Proxy.file
    rw [present]
  have owner (t : Addr) : ((p.file i s).server t).m_owner =
      if t = s then some i else (p.server t).m_owner := by
    rw [after]
    by_cases here : t = s
    · rw [if_pos here, here, server_putServer]
    · rw [if_neg here, server_putServer_of_ne _ _ here]
      rfl
  have pool : (p.file i s).server_pool = p.server_pool.withServer i
      { server with
        m_ns_conn_q := server.m_ns_conn_q + 1
        m_conn_queue := server.m_conn_queue ++ [some s] } := congrArg Proxy.server_pool after
  obtain ⟨conns, files⟩ := filed.files i server present
  have longer : Files (p.file i s) i
      { server with
        m_ns_conn_q := server.m_ns_conn_q + 1
        m_conn_queue := server.m_conn_queue ++ [some s] } (conns ++ [s]) := by
    refine ⟨?_, ?_, ?_, fun t => ?_⟩
    · rw [List.map_append]
      exact congrArg (· ++ [some s]) files.queue
    · have one : (server.m_ns_conn_q + 1).toNat = server.m_ns_conn_q.toNat + 1 := by
        rw [UInt32.toNat_add]
        exact Nat.mod_eq_of_lt room
      rw [List.length_append, ← files.count]
      exact one
    · refine List.nodup_append.mpr ⟨files.once, List.nodup_singleton s, fun a old b single => ?_⟩
      rw [List.mem_singleton.mp single]
      rintro rfl
      rw [(files.owner a).mp old] at free
      cases free
    · rw [List.mem_append, List.mem_singleton, owner, files.owner t]
      by_cases same : t = s
      · rw [if_pos same]
        exact iff_of_true (Or.inr same) rfl
      · rw [if_neg same]
        exact or_iff_left same
  have s_pool : (p.file i s).s_pool.m_queue = p.s_pool.m_queue ∧
      (p.file i s).s_pool.made = p.s_pool.made := by
    rw [after]
    exact ⟨rfl, rfl⟩
  refine filed.withServer present longer pool s_pool.1 s_pool.2 (fun t old => ?_)
    fun t j other => ?_
  · have isOther : t ≠ s := fun same => absurd (same ▸ old) (Nat.not_le.mpr made)
    rw [owner, if_neg isOther]
    exact filed.unmade t old
  · rw [owner]
    by_cases same : t = s
    · rw [if_pos same, same, free]
      exact iff_of_false (fun equal => other (Option.some.inj equal).symm) nofun
    · rw [if_neg same]

/-- **`unref` takes the connection out.** -/
theorem Filed.unref (filed : Filed p) (has : (p.server s).m_owner ≠ none) :
    Filed (p.serverUnref s) := by
  obtain ⟨i, owned⟩ := Option.ne_none_iff_exists'.mp has
  obtain ⟨server, present⟩ : ∃ server, p.server_pool.server[i]? = some server :=
    ⟨_, List.getElem?_eq_getElem (filed.owned s i owned)⟩
  have after : p.serverUnref s =
      { p with
        server_pool := p.server_pool.withServer i
          { server with
            m_ns_conn_q := server.m_ns_conn_q - 1
            m_conn_queue := server.m_conn_queue.filter fun other => other != some s } }.putServer s
        fun conn => { conn with m_owner := none } := by
    unfold serverUnref
    rw [owned]
    dsimp only
    rw [show (p.putServer s _).server_pool.server[i]? = some server from present]
    rfl
  have owner (t : Addr) : ((p.serverUnref s).server t).m_owner =
      if t = s then none else (p.server t).m_owner := by
    rw [after]
    by_cases here : t = s
    · rw [if_pos here, here, server_putServer]
    · rw [if_neg here, server_putServer_of_ne _ _ here]
      rfl
  have pool : (p.serverUnref s).server_pool = p.server_pool.withServer i
      { server with
        m_ns_conn_q := server.m_ns_conn_q - 1
        m_conn_queue := server.m_conn_queue.filter fun other => other != some s } :=
    congrArg Proxy.server_pool after
  obtain ⟨conns, files⟩ := filed.files i server present
  have shorter : Files (p.serverUnref s) i
      { server with
        m_ns_conn_q := server.m_ns_conn_q - 1
        m_conn_queue := server.m_conn_queue.filter fun other => other != some s }
      (NcQueue.remove s conns) := by
    have filedHere : s ∈ conns := (files.owner s).mpr owned
    refine ⟨?_, ?_, NcQueue.nodup_remove files.once, fun t => ?_⟩
    · show server.m_conn_queue.filter _ = _
      rw [files.queue, filter_map_some]
    · have some : 0 < conns.length := List.length_pos_of_mem filedHere
      have count := files.count
      have one : (server.m_ns_conn_q - 1).toNat = server.m_ns_conn_q.toNat - 1 :=
        UInt32.toNat_sub_of_le _ _ (by
          show 1 ≤ server.m_ns_conn_q.toNat
          omega)
      rw [NcQueue.length_remove files.once filedHere, ← files.count]
      exact one
    · rw [NcQueue.mem_remove, owner, files.owner t]
      by_cases same : t = s
      · rw [if_pos same]
        exact iff_of_false (fun both => both.2 same) nofun
      · rw [if_neg same]
        exact and_iff_left same
  have s_pool : (p.serverUnref s).s_pool.m_queue = p.s_pool.m_queue ∧
      (p.serverUnref s).s_pool.made = p.s_pool.made := by
    rw [after]
    exact ⟨rfl, rfl⟩
  refine filed.withServer present shorter pool s_pool.1 s_pool.2 (fun t old => ?_)
    fun t j other => ?_
  · rw [owner, filed.unmade t old, ite_self]
  · rw [owner]
    by_cases same : t = s
    · rw [if_pos same, same, owned]
      exact iff_of_false nofun fun equal => other (Option.some.inj equal).symm
    · rw [if_neg same]

/-- Below the limit, `getConn` returns a new connection. -/
theorem serverGetConn_below (spare : p.s_pool.m_queue = [])
    (below : server.m_ns_conn_q < p.server_pool.server_connections) :
    p.serverGetConn i server =
      ({ p with s_pool := (p.s_pool.alloc NcConn.new).1 }, some p.s_pool.made) := by
  unfold serverGetConn
  rw [if_pos below, NcObjectPool.alloc_empty NcConn.new spare]

/-- **At the limit, `getConn` returns the first connection, which goes to the end.** -/
theorem serverGetConn_full {s : Addr} {rest : List Addr}
    (full : ¬ server.m_ns_conn_q < p.server_pool.server_connections)
    (files : Files p i server (s :: rest)) :
    (p.serverGetConn i server).2 = some s ∧
      (p.serverGetConn i server).1.s_pool = p.s_pool ∧
      (p.serverGetConn i server).1.server_pool = p.server_pool.withServer i
        { server with m_conn_queue := (rest ++ [s]).map some } := by
  have front : server.m_conn_queue.head?.join = some s := by
    rw [files.queue]
    rfl
  have others : server.m_conn_queue.filter (fun other => other != some s) = rest.map some := by
    rw [files.queue, filter_map_some, NcQueue.remove_head (List.nodup_cons.mp files.once).1]
  unfold serverGetConn
  rw [if_neg full]
  dsimp only
  rw [front, others, List.map_append]
  exact ⟨rfl, rfl, rfl⟩

/-- At the limit there is a connection to return. -/
theorem Filed.nonempty (filed : Filed p) (files : Files p i server conns)
    (full : ¬ server.m_ns_conn_q < p.server_pool.server_connections) : conns ≠ [] := by
  rintro rfl
  refine full (UInt32.lt_iff_toNat_lt.mpr ?_)
  rw [files.count]
  exact UInt32.lt_iff_toNat_lt.mp filed.limit

/-- The files of the other servers stay when one queue is turned. -/
theorem Filed.turn {s : Addr} {rest : List Addr} (filed : Filed p)
    (present : p.server_pool.server[i]? = some server) (files : Files p i server (s :: rest))
    (s_pool : q.s_pool = p.s_pool)
    (server_pool : q.server_pool = p.server_pool.withServer i
      { server with m_conn_queue := (rest ++ [s]).map some }) :
    Filed q ∧ Files q i { server with m_conn_queue := (rest ++ [s]).map some } (rest ++ [s]) := by
  have owner (t : Addr) : (q.server t).m_owner = (p.server t).m_owner := by
    unfold Proxy.server
    rw [s_pool]
  have turned : Files q i { server with m_conn_queue := (rest ++ [s]).map some } (rest ++ [s]) := by
    have perm : (rest ++ [s]).Perm (s :: rest) := List.perm_append_singleton s rest
    refine ⟨rfl, ?_, perm.nodup_iff.mpr files.once, fun t => ?_⟩
    · rw [perm.length_eq]
      exact files.count
    · rw [perm.mem_iff, owner]
      exact files.owner t
  refine ⟨?_, turned⟩
  refine filed.withServer present turned server_pool (by rw [s_pool]) (by rw [s_pool])
    (fun t old => ?_) fun t j _ => by rw [owner]
  rw [owner]
  exact filed.unmade t old

/-- **`getConn` keeps the files.** -/
theorem Filed.getConn (filed : Filed p) (present : p.server_pool.server[i]? = some server) :
    Filed (p.serverGetConn i server).1 := by
  by_cases below : server.m_ns_conn_q < p.server_pool.server_connections
  · rw [serverGetConn_below filed.spare below, NcObjectPool.alloc_empty NcConn.new filed.spare]
    have owner (t : Addr) :
        (Function.update p.s_pool.mem p.s_pool.made NcConn.new t).m_owner = (p.server t).m_owner := by
      by_cases here : t = p.s_pool.made
      · rw [here, Function.update_self, filed.unmade _ (Nat.le_refl _)]
        rfl
      · rw [Function.update_of_ne here]
        rfl
    refine ⟨filed.spare, filed.limit, fun t old => ?_, fun t j has => ?_, fun j other found => ?_⟩
    · exact (owner t).trans (filed.unmade t (Nat.le_of_succ_le old))
    · exact filed.owned t j ((owner t).symm.trans has)
    · obtain ⟨others, files⟩ := filed.files j other found
      exact ⟨others, files.of_owner fun t => iff_of_eq (congrArg (· = some j) (owner t))⟩
  · obtain ⟨conns, files⟩ := filed.files i server present
    cases conns with
    | nil => exact absurd rfl (filed.nonempty files below)
    | cons s rest =>
        obtain ⟨-, s_pool, server_pool⟩ := serverGetConn_full below files
        exact (filed.turn present files s_pool server_pool).1

/-- **On all runs every server has its connections on file.** -/
theorem Filed.run (reached : (registryRuns.guarded Roomy).Reach p) : Filed p := by
  refine reached.invariant (I := Filed) (fun p initial => ?_) fun p event q _ filed step => ?_
  · obtain ⟨spare, free, limit, empty⟩ := initial
    refine ⟨spare, limit, fun s _ => free s, fun s i has => ?_, fun i server present => ?_⟩
    · rw [free s] at has
      cases has
    · obtain ⟨queue, count⟩ := empty server (List.mem_of_getElem? present)
      refine ⟨[], queue, ?_, List.nodup_nil, fun s => ?_⟩
      · rw [count]
        rfl
      · rw [free s]
        exact iff_of_false List.not_mem_nil nofun
  · obtain ⟨roomy, step⟩ := step
    cases event with
    | ref i s resolved =>
        obtain ⟨made, free, isServer, rfl⟩ := step
        have present := List.getElem?_eq_getElem isServer
        have looked := filed.lookUp (s := s) resolved
        have same : (p.lookUp s resolved).server_pool = p.server_pool ∧
            (p.lookUp s resolved).s_pool.made = p.s_pool.made ∧
            ((p.lookUp s resolved).server s).m_owner = none := by
          cases resolved with
          | true => exact ⟨rfl, rfl, free⟩
          | false =>
              refine ⟨rfl, rfl, ?_⟩
              show ((p.putServer s _).server s).m_owner = none
              rw [server_putServer]
              exact free
        obtain ⟨pool, made', free'⟩ := same
        refine looked.file free' (made'.symm ▸ made) ?_ (roomy _ present)
        rw [pool]
        exact present
    | unref s =>
        obtain ⟨has, rfl⟩ := step
        exact filed.unref has
    | getConn i =>
        obtain ⟨server, present, rfl⟩ := step
        exact filed.getConn present

/-! ### The registry -/

/-- What the registry says of the server at the index `i`. -/
structure Registered (p : Proxy) (i : Nat) (server : NcServer) : Prop where
  count : server.m_ns_conn_q.toNat = server.m_conn_queue.length
  once : server.m_conn_queue.Nodup
  owner : ∀ conn, conn ∈ server.m_conn_queue ↔ ∃ s, conn = some s ∧ (p.server s).m_owner = some i

/-- A call of `getConn` returns a connection that is in the queue and owned by the server; and one
that it makes does not take the server above its limit. -/
def Handed (p : Proxy) (i : Nat) (server : NcServer) : Prop :=
  ∃ s after, (p.serverGetConn i server).2 = some s ∧
    (p.serverGetConn i server).1.server_pool.server[i]? = some after ∧
    some s ∈ after.m_conn_queue ∧ ((p.serverGetConn i server).1.server s).m_owner = some i ∧
    (some s ∉ server.m_conn_queue →
      after.m_conn_queue.length ≤ p.server_pool.server_connections.toNat)

theorem Files.registered (files : Files p i server conns) : Registered p i server := by
  refine ⟨?_, ?_, fun conn => ?_⟩
  · rw [files.queue, List.length_map]
    exact files.count
  · rw [files.queue]
    exact files.once.map (Option.some_injective _)
  · rw [files.queue, List.mem_map]
    constructor
    · rintro ⟨s, inside, rfl⟩
      exact ⟨s, rfl, (files.owner s).mp inside⟩
    · rintro ⟨s, rfl, owned⟩
      exact ⟨s, (files.owner s).mpr owned, rfl⟩

/-- **A call returns a connection of the server exactly at the limit.** -/
theorem Filed.handed_iff (filed : Filed p) (present : p.server_pool.server[i]? = some server) :
    Handed p i server ↔ p.server_pool.server_connections ≤ server.m_ns_conn_q := by
  obtain ⟨conns, files⟩ := filed.files i server present
  by_cases below : server.m_ns_conn_q < p.server_pool.server_connections
  · refine iff_of_false ?_ (UInt32.not_le.mpr below)
    rintro ⟨s, after, returned, found, inside, -⟩
    rw [serverGetConn_below filed.spare below] at returned found
    have new : p.s_pool.made = s := Option.some.inj returned
    have same : server = after := Option.some.inj (present.symm.trans found)
    rw [← same, files.queue, List.mem_map] at inside
    obtain ⟨t, filedHere, equal⟩ := inside
    have owned := (files.owner t).mp filedHere
    rw [Option.some.inj equal, ← new, filed.unmade _ (Nat.le_refl _)] at owned
    cases owned
  · refine iff_of_true ?_ (UInt32.not_lt.mp below)
    cases conns with
    | nil => exact absurd rfl (filed.nonempty files below)
    | cons s rest =>
        obtain ⟨returned, s_pool, server_pool⟩ := serverGetConn_full below files
        obtain ⟨-, turned⟩ := filed.turn present files s_pool server_pool
        have queued : some s ∈ server.m_conn_queue := by
          rw [files.queue]
          exact List.mem_cons_self
        refine ⟨s, { server with m_conn_queue := (rest ++ [s]).map some }, returned, ?_, ?_,
          (turned.owner s).mp ?_, fun new => absurd queued new⟩
        · rw [server_pool, NcServerPool.withServer_getElem? present, if_pos rfl]
        · exact List.mem_map.mpr ⟨s, List.mem_append_right _ List.mem_cons_self, rfl⟩
        · exact List.mem_append_right _ List.mem_cons_self

/-- **At the limit, `getConn` goes round the queue.** -/
theorem Filed.getConns {first rest : List Addr} (filed : Filed p)
    (present : p.server_pool.server[i]? = some server)
    (full : p.server_pool.server_connections ≤ server.m_ns_conn_q)
    (files : Files p i server (first ++ rest)) :
    (p.getConns i first.length).2 = first.map some := by
  induction first generalizing p server rest with
  | nil => rfl
  | cons s first ih =>
      have below : ¬ server.m_ns_conn_q < p.server_pool.server_connections := UInt32.not_lt.mpr full
      have here : Files p i server (s :: (first ++ rest)) := files
      obtain ⟨returned, s_pool, server_pool⟩ := serverGetConn_full below here
      obtain ⟨filed', turned⟩ := filed.turn present here s_pool server_pool
      have found : (p.serverGetConn i server).1.server_pool.server[i]? = some
          { server with m_conn_queue := (first ++ rest ++ [s]).map some } := by
        rw [server_pool, NcServerPool.withServer_getElem? present, if_pos rfl]
      have limit : (p.serverGetConn i server).1.server_pool.server_connections
          = p.server_pool.server_connections := by
        rw [server_pool]
        rfl
      rw [List.append_assoc] at found turned
      rw [List.length_cons, Proxy.getConns, present]
      dsimp only
      rw [returned, ih filed' found (limit.trans_le full) turned]
      rfl

theorem Filed.getConns_all (filed : Filed p) (present : p.server_pool.server[i]? = some server)
    (full : p.server_pool.server_connections ≤ server.m_ns_conn_q) :
    (p.getConns i server.m_conn_queue.length).2 = server.m_conn_queue := by
  obtain ⟨conns, files⟩ := filed.files i server present
  have last : Files p i server (conns ++ []) := (List.append_nil conns).symm ▸ files
  rw [files.queue, List.length_map]
  exact filed.getConns present full last

/-- **The registry of the server connections.** On all runs in which no server has `2 ^ 32 - 1`
connections when it gets another, each server's queue holds the connections it owns, each once, and its
count is right. A call of `getConn` returns one of these, and makes none beyond the limit, exactly when
the count is at the limit; then as many calls as there are connections return each of them once. -/
theorem registry_iff (reached : (registryRuns.guarded Roomy).Reach p)
    (present : p.server_pool.server[i]? = some server) :
    Registered p i server ∧
      (Handed p i server ↔ p.server_pool.server_connections ≤ server.m_ns_conn_q) ∧
      (p.server_pool.server_connections ≤ server.m_ns_conn_q →
        (p.getConns i server.m_conn_queue.length).2 = server.m_conn_queue) := by
  have filed := Filed.run reached
  obtain ⟨conns, files⟩ := filed.files i server present
  exact ⟨files.registered, filed.handed_iff present, fun full => filed.getConns_all present full⟩

/-- Two connections and a server, before the first `ref`. -/
def unreferenced (server_connections : UInt32) : Proxy where
  ctx := .calcConnections 1024
  msg_pool := .default (fun _ => .new) none
  c_pool := .default (fun _ => .new) none
  s_pool := { mem := fun _ => .new, made := 2, m_queue := [], m_free := 0, m_current := none }
  server_pool :=
    { nc_conn_q := 0
      c_conn_q := []
      server := [⟨[], 0, 0, 0⟩]
      nlive_server := 1
      next_rebuild := 0
      dist_type := kDIST_RANDOM
      server_connections := server_connections
      server_retry_timeout := 30
      server_failure_limit := 2
      auto_eject_hosts := false
      nserver_continuum := 0
      continuum := [] }
  acts := []

theorem unreferenced_init {server_connections : UInt32} (some : 0 < server_connections) :
    registryRuns.init (unreferenced server_connections) := by
  refine ⟨rfl, fun _ => rfl, some, fun server inside => ?_⟩
  rw [List.mem_singleton.mp inside]
  exact ⟨rfl, rfl⟩

/-- Both connections are referenced. -/
def twoFiled : Proxy := ((unreferenced 2).serverRef 0 0 true).serverRef 0 1 true

theorem registry_iff_twoFiled :
    Handed twoFiled 0 ⟨[some 0, some 1], 2, 0, 0⟩ ∧
      (twoFiled.getConns 0 2).2 = [some 0, some 1] := by
  have start := System.Reach.start (M := registryRuns.guarded Roomy)
    (unreferenced_init (show (0 : UInt32) < 2 by decide))
  have first : (registryRuns.guarded Roomy).Reach ((unreferenced 2).serverRef 0 0 true) :=
    start.next (a := .ref 0 0 true)
      ⟨fun server here => Option.some.inj here ▸ by decide, by decide, rfl, by decide, rfl⟩
  have second : (registryRuns.guarded Roomy).Reach twoFiled :=
    first.next (a := .ref 0 1 true)
      ⟨fun server here => Option.some.inj here ▸ by decide, by decide, rfl, by decide, rfl⟩
  have present : twoFiled.server_pool.server[0]? = some ⟨[some 0, some 1], 2, 0, 0⟩ := rfl
  obtain ⟨-, handed, round⟩ := registry_iff second present
  exact ⟨handed.mpr (by decide), round (by decide)⟩

/-- **A server that may have one connection gets two**: `getConn` files what it makes nowhere, so the
count stays at 0. -/
theorem unfiled : ∃ p, (registryRuns.guarded Roomy).Reach p ∧
    p.server_pool.server[0]? = some ⟨[], 0, 0, 0⟩ ∧ p.server_pool.server_connections = 1 ∧
    (p.getConns 0 2).2 = [some 2, some 3] ∧
    ((p.serverGetConn 0 ⟨[], 0, 0, 0⟩).1.server 2).m_owner = none ∧
    ¬ Handed p 0 ⟨[], 0, 0, 0⟩ := by
  refine ⟨unreferenced 1, .start (unreferenced_init (by decide)), rfl, rfl, by decide, rfl, ?_⟩
  rintro ⟨s, after, -, found, inside, -⟩
  rw [← Option.some.inj (show some (⟨[], 0, 0, 0⟩ : NcServer) = some after from found)] at inside
  exact absurd inside List.not_mem_nil

end Proxy

end Nutcracker
