/-
**Server pools, and the continuum they are dispatched over.**

`NcServerPool` and `NcServer` with the fields that `random_update`, `NcServer::failure`,
`NcHashKit::dispatch` and `NcServerPool::getConn` read. The clock is an argument of each call that
reads it. The logging, `srandom`, and the counters only the logging reads are left out.

A result `none` has no defined value in the source: a loop counter past `INT_MAX`, a slot outside the
continuum, a growth loop that does not end, a remainder by zero.

* `liveServers` — the servers that an update counts as live, by index.
* `grow_half` — **the growth loop adds half of the slots that are missing**, rounded up.
* `fill_spec` — the first slots receive the live servers in order, and the others stay.
-/

import Nutcracker.Conn.SendChain

namespace Nutcracker

def RANDOM_CONTINUUM_ADDITION : Nat := 10

def RANDOM_POINTS_PER_SERVER : Nat := 1

def kDIST_RANDOM : Int := 0x300

/-- `NcContinuum`. -/
structure NcContinuum where
  index : Nat
  value : Nat
  deriving DecidableEq

/-- `new NcContinuum()`. -/
def NcContinuum.new : NcContinuum := ⟨0, 0⟩

/-- `NcServer`. -/
structure NcServer where
  m_conn_queue : List Ptr
  m_ns_conn_q : UInt32
  m_next_retry : Int
  m_failure_count : UInt32
  deriving DecidableEq

/-- `NcServerPool`. -/
structure NcServerPool where
  nc_conn_q : UInt32
  c_conn_q : List Addr
  server : List NcServer
  nlive_server : Nat
  next_rebuild : Int
  dist_type : Int
  server_connections : UInt32
  server_retry_timeout : Int
  server_failure_limit : UInt32
  auto_eject_hosts : Bool
  nserver_continuum : Nat
  continuum : List NcContinuum
  deriving DecidableEq

namespace NcServerPool

/-! ### `random_update` -/

/-- The first loop: the servers after it, the number of live ones, and the next rebuild. -/
def countLive (auto_eject_hosts : Bool) (now : Int) :
    List NcServer → Nat → Int → List NcServer × Nat × Int
  | [], nlive_server, next_rebuild => ([], nlive_server, next_rebuild)
  | server :: rest, nlive_server, next_rebuild =>
      if auto_eject_hosts then
        if server.m_next_retry ≤ now then
          let after := countLive auto_eject_hosts now rest (nlive_server + 1) next_rebuild
          ({ server with m_next_retry := 0 } :: after.1, after.2)
        else if next_rebuild = 0 ∨ server.m_next_retry < next_rebuild then
          let after := countLive auto_eject_hosts now rest nlive_server server.m_next_retry
          (server :: after.1, after.2)
        else
          let after := countLive auto_eject_hosts now rest nlive_server next_rebuild
          (server :: after.1, after.2)
      else
        let after := countLive auto_eject_hosts now rest (nlive_server + 1) next_rebuild
        (server :: after.1, after.2)

/-- The growth loop. Its bound `ncontinuum - continuum.size()` is a `size_t`, read again on each
turn. -/
def grow (ncontinuum : Nat) : Nat → Nat → List NcContinuum → Option (List NcContinuum)
  | 0, _, _ => none
  | fuel + 1, i, continuum =>
      if i < (ncontinuum + 2 ^ 64 - continuum.length) % 2 ^ 64 then
        grow ncontinuum fuel (i + 1) (continuum ++ [NcContinuum.new])
      else some continuum

/-- The last loop: the live servers from the index `i` on take the slots from `continuum_index`. -/
def fill (auto_eject_hosts : Bool) (now : Int) :
    List NcServer → Nat → Nat → List NcContinuum → Option (List NcContinuum)
  | [], _, _, continuum => some continuum
  | server :: rest, i, continuum_index, continuum =>
      if auto_eject_hosts = true ∧ server.m_next_retry > now then
        fill auto_eject_hosts now rest (i + 1) continuum_index continuum
      else if continuum_index < continuum.length then
        fill auto_eject_hosts now rest (i + 1) (continuum_index + 1)
          (continuum.set continuum_index { index := i, value := 0 })
      else none

/-- The pool's `server.size()` as the `uint32_t` the loops run to. -/
def nserver (pool : NcServerPool) : Nat := pool.server.length % 2 ^ 32

/-- The pool after the first loop. -/
def counted (now : Int) (pool : NcServerPool) : NcServerPool :=
  let after := countLive pool.auto_eject_hosts now (pool.server.take pool.nserver) 0 0
  { pool with
    server := after.1 ++ pool.server.drop pool.nserver
    nlive_server := after.2.1
    next_rebuild := after.2.2 }

/-- The pool after the growth loop, which runs only when the recorded size is too small. -/
def grown (pool : NcServerPool) : Option NcServerPool :=
  if pool.nlive_server > pool.nserver_continuum then
    let nserver_continuum := (pool.nlive_server + RANDOM_CONTINUUM_ADDITION) % 2 ^ 32
    let ncontinuum := nserver_continuum * RANDOM_POINTS_PER_SERVER % 2 ^ 32
    (grow ncontinuum (ncontinuum + 1) 0 pool.continuum).map fun continuum =>
      { pool with continuum := continuum, nserver_continuum := nserver_continuum }
  else some pool

/-- The pool after the last loop. -/
def filled (now : Int) (pool : NcServerPool) : Option NcServerPool :=
  (fill pool.auto_eject_hosts now (pool.server.take pool.nserver) 0 0 pool.continuum).map
    fun continuum => { pool with continuum := continuum }

/-- **`random_update(pool)`** at the clock reading `now`. The first loop counts with an `int`. -/
def random_update (now : Int) (pool : NcServerPool) : Option (Int × NcServerPool) :=
  if now < 0 then some (NC_ERROR, pool)
  else if pool.nserver > 2147483647 then none
  else if (pool.counted now).nlive_server = 0 then some (NC_OK, pool.counted now)
  else (((pool.counted now).grown).bind (filled now)).map fun after => (NC_OK, after)

/-! ### `NcServer::failure` -/

/-- What `failure()` records in its server at the clock reading `now`, and whether it goes on to update
the pool. -/
def noteFailure (now : Int) (pool : NcServerPool) (server : NcServer) : NcServer × Bool :=
  if pool.auto_eject_hosts = false then (server, false)
  else
    let count := server.m_failure_count + 1
    if count < pool.server_failure_limit then ({ server with m_failure_count := count }, false)
    else if now < 0 then ({ server with m_failure_count := count }, false)
    else
      ({ server with m_failure_count := 0, m_next_retry := now + pool.server_retry_timeout }, true)

/-- The pool in `failure()` of the server at the index `i`, before the update it may make. -/
def noted (i : Nat) (now : Int) (pool : NcServerPool) : Option (NcServerPool × Bool) :=
  (pool.server[i]?).map fun server =>
    ({ pool with server := pool.server.set i (noteFailure now pool server).1 },
      (noteFailure now pool server).2)

/-- **`NcServer::failure()`**, with the clock readings of the call and of its update. -/
def failure (i : Nat) (now later : Int) (pool : NcServerPool) : Option NcServerPool :=
  (pool.noted i now).bind fun after =>
    if after.2 then (random_update later after.1).map Prod.snd else some after.1

/-! ### `dispatch` and `getConn` -/

/-- The slot that `random() % ncontinuum` names, with the size as an `int`. -/
def randomSlot (random size : Nat) : Option Nat :=
  let ncontinuum := Int.bmod size (2 ^ 32)
  if ncontinuum = 0 then none else some (Int.tmod random ncontinuum).toNat

/-- **`NcHashKit::dispatch(pool, hashv)`** when `random()` returns the given value. -/
def dispatch (random : Nat) (pool : NcServerPool) : Option Nat :=
  if pool.dist_type = kDIST_RANDOM then
    (randomSlot random pool.continuum.length).bind fun slot =>
      (pool.continuum[slot]?).map fun c => c.index
  else some 0

/-- The server that `NcServerPool::getConn` asks: `server[idx % server.size()]`. -/
def serverFor (idx : Nat) (pool : NcServerPool) : Option NcServer :=
  if pool.server.length = 0 then none else pool.server[idx % pool.server.length]?

/-- The server after `NcServer::getConn`: at the limit of its connections, the first one of its queue
goes to the end. Below the limit, the connection it returns is a new one. -/
def turned (server_connections : UInt32) (server : NcServer) : NcServer :=
  if server.m_ns_conn_q < server_connections then server
  else
    let conn : Ptr := server.m_conn_queue.head?.join
    { server with
      m_conn_queue := (server.m_conn_queue.filter fun other => other != conn) ++ [conn] }

/-- **The pool after `NcServerPool::getConn`**, when `random()` returns the given value. -/
def getConn (random : Nat) (pool : NcServerPool) : Option NcServerPool :=
  (pool.dispatch random).bind fun idx =>
    (pool.serverFor idx).map fun server =>
      { pool with
        server :=
          pool.server.set (idx % pool.server.length) (turned pool.server_connections server) }

/-! ### What an update does -/

/-- The live servers from the index `i` on. -/
def liveFrom (auto_eject_hosts : Bool) (now : Int) : List NcServer → Nat → List Nat
  | [], _ => []
  | server :: rest, i =>
      if auto_eject_hosts = true ∧ server.m_next_retry > now then
        liveFrom auto_eject_hosts now rest (i + 1)
      else i :: liveFrom auto_eject_hosts now rest (i + 1)

/-- **The servers that an update at `now` counts as live.** -/
def liveServers (now : Int) (pool : NcServerPool) : List Nat :=
  liveFrom pool.auto_eject_hosts now (pool.server.take pool.nserver) 0

section Loops

variable {auto_eject_hosts : Bool} {now : Int}

theorem countLive_length (servers : List NcServer) (n : Nat) (rebuild : Int) :
    (countLive auto_eject_hosts now servers n rebuild).1.length = servers.length := by
  induction servers generalizing n rebuild with
  | nil => rfl
  | cons server rest ih =>
      unfold countLive
      split
      · split
        · exact congrArg (· + 1) (ih ..)
        · split
          · exact congrArg (· + 1) (ih ..)
          · exact congrArg (· + 1) (ih ..)
      · exact congrArg (· + 1) (ih ..)

/-- The first loop counts the live servers. -/
theorem countLive_count (servers : List NcServer) (n : Nat) (rebuild : Int) (i : Nat) :
    (countLive auto_eject_hosts now servers n rebuild).2.1 =
      n + (liveFrom auto_eject_hosts now servers i).length := by
  induction servers generalizing n rebuild i with
  | nil => rfl
  | cons server rest ih =>
      unfold countLive liveFrom
      cases auto_eject_hosts with
      | false =>
          rw [if_neg Bool.false_ne_true, if_neg (fun both => Bool.false_ne_true both.1)]
          show (countLive false now rest (n + 1) rebuild).2.1 = _
          rw [ih (n + 1) rebuild (i + 1), List.length_cons]
          omega
      | true =>
          rw [if_pos rfl]
          by_cases back : server.m_next_retry ≤ now
          · rw [if_pos back, if_neg (by omega)]
            show (countLive true now rest (n + 1) rebuild).2.1 = _
            rw [ih (n + 1) rebuild (i + 1), List.length_cons]
            omega
          · have ejected : true = true ∧ server.m_next_retry > now := ⟨rfl, by omega⟩
            rw [if_neg back, if_pos ejected]
            split
            · exact ih n server.m_next_retry (i + 1)
            · exact ih n rebuild (i + 1)

/-- Clearing the retry times of the live servers ejects none. -/
theorem liveFrom_countLive (nonneg : 0 ≤ now) (servers : List NcServer) (n : Nat) (rebuild : Int)
    (i : Nat) :
    liveFrom auto_eject_hosts now (countLive auto_eject_hosts now servers n rebuild).1 i =
      liveFrom auto_eject_hosts now servers i := by
  induction servers generalizing n rebuild i with
  | nil => rfl
  | cons server rest ih =>
      unfold countLive
      cases auto_eject_hosts with
      | false =>
          rw [if_neg Bool.false_ne_true]
          unfold liveFrom
          rw [if_neg (fun both => Bool.false_ne_true both.1),
            if_neg (fun both => Bool.false_ne_true both.1), ih]
      | true =>
          rw [if_pos rfl]
          by_cases back : server.m_next_retry ≤ now
          · rw [if_pos back]
            unfold liveFrom
            rw [if_neg (show ¬ (true = true ∧ (0 : Int) > now) by omega),
              if_neg (show ¬ (true = true ∧ server.m_next_retry > now) by omega), ih]
          · have ejected : true = true ∧ server.m_next_retry > now := ⟨rfl, by omega⟩
            have skip (servers : List NcServer) :
                liveFrom true now (server :: servers) i = liveFrom true now servers (i + 1) :=
              if_pos ejected
            rw [if_neg back, skip]
            split
            · exact (skip _).trans (ih ..)
            · exact (skip _).trans (ih ..)

/-- **The growth loop adds half of the missing slots.** The counter and the size grow together. -/
theorem grow_half {ncontinuum : Nat} (bound : ncontinuum < 2 ^ 64) (fuel i : Nat)
    (continuum : List NcContinuum) (room : continuum.length ≤ ncontinuum)
    (enough : ncontinuum < fuel + continuum.length) :
    grow ncontinuum fuel i continuum =
      some (continuum ++
        List.replicate ((ncontinuum - continuum.length - i + 1) / 2) NcContinuum.new) := by
  induction fuel generalizing i continuum with
  | zero => exact absurd enough (by omega)
  | succ fuel ih =>
      have size : (continuum ++ [NcContinuum.new]).length = continuum.length + 1 :=
        List.length_append
      have left : (ncontinuum + 2 ^ 64 - continuum.length) % 2 ^ 64
          = ncontinuum - continuum.length := by omega
      unfold grow
      rw [left]
      by_cases more : i < ncontinuum - continuum.length
      · have turns : (ncontinuum - continuum.length - i + 1) / 2
            = (ncontinuum - (continuum.length + 1) - (i + 1) + 1) / 2 + 1 := by omega
        rw [if_pos more, ih (i + 1) (continuum ++ [NcContinuum.new]) (by omega) (by omega), size,
          turns, List.append_assoc, List.replicate_succ]
        rfl
      · have turns : (ncontinuum - continuum.length - i + 1) / 2 = 0 := by omega
        rw [if_neg more, turns, List.replicate_zero, List.append_nil]

/-- **The slots from `k` on receive the live servers, in order, and the others stay.** -/
theorem fill_spec (servers : List NcServer) (i k : Nat) (continuum after : List NcContinuum)
    (filled : fill auto_eject_hosts now servers i k continuum = some after) :
    after.length = continuum.length ∧
      (k ≤ continuum.length →
        k + (liveFrom auto_eject_hosts now servers i).length ≤ continuum.length) ∧
      ∀ slot, (after[slot]?).map NcContinuum.index =
        if slot < k then (continuum[slot]?).map NcContinuum.index
        else ((liveFrom auto_eject_hosts now servers i)[slot - k]?).or
          ((continuum[slot]?).map NcContinuum.index) := by
  induction servers generalizing i k continuum with
  | nil =>
      rw [← Option.some.inj filled]
      refine ⟨rfl, id, fun slot => ?_⟩
      show _ = if slot < k then _ else (none : Option Nat).or _
      rw [Option.none_or, ite_self]
  | cons server rest ih =>
      unfold fill at filled
      unfold liveFrom
      by_cases ejected : auto_eject_hosts = true ∧ server.m_next_retry > now
      · rw [if_pos ejected] at filled
        rw [if_pos ejected]
        exact ih (i + 1) k continuum filled
      · rw [if_neg ejected] at filled
        rw [if_neg ejected]
        by_cases inside : k < continuum.length
        · rw [if_pos inside] at filled
          have later := ih (i + 1) (k + 1) _ filled
          rw [List.length_set] at later
          refine ⟨later.1, fun _ => ?_, fun slot => ?_⟩
          · rw [List.length_cons]
            have := later.2.1 inside
            omega
          · rw [later.2.2 slot]
            rcases Nat.lt_trichotomy slot k with before | rfl | beyond
            · rw [if_pos (by omega), if_pos before, List.getElem?_set_ne (by omega)]
            · rw [if_pos (by omega), if_neg (by omega), List.getElem?_set_self inside, Nat.sub_self]
              rfl
            · rw [if_neg (by omega), if_neg (by omega), List.getElem?_set_ne (by omega),
                show slot - k = slot - (k + 1) + 1 by omega, List.getElem?_cons_succ]
        · rw [if_neg inside] at filled
          cases filled

end Loops

end NcServerPool

end Nutcracker
