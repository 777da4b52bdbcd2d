/-
**When does an ejected server come back?**

`next_rebuild` is the time at which the first ejected server may be tried again, and nothing reads it:
only `failure()` updates the pool. Until the next failure `getConn` draws from the slots that the last
update left, whatever the time.

* `Timed.run` — on all runs **the last update tells the live servers from the ejected ones** by their
  retry times, which are 0 or still to come.
* `offered_iff` — `getConn` chooses among the servers in the slots of the continuum.
* `comeback_iff` — **an ejected server whose time has come is among them exactly when an extra slot
  still has its index**; and once `next_rebuild` has come there is such a server.
* `never_back` — a server that is not.
-/

import Nutcracker.HashKit.Growth

namespace Nutcracker

open Lib

namespace NcServerPool

/-! ### Runs of failures and requests -/

/-- A pool with its history, and the last clock reading. -/
structure Served where
  pooled : Pooled
  clock : Int

/-- A `failure()` of the server at the index `i` with the clock readings it makes, or a `getConn` at
the time `now`, for which `random()` returns the given value. -/
inductive ConnEvent
  | failure (i : Nat) (now later : Int)
  | getConn (random : Nat) (now : Int)

/-- **The runs of a pool that ejects servers**, where the clock does not go back. -/
def connRuns : System Served ConnEvent where
  init s :=
    s.pooled.pool.auto_eject_hosts = true ∧ s.pooled.pool.next_rebuild = 0 ∧
      s.pooled.pool.continuum = [] ∧ s.pooled.history = []
  step s event s' :=
    match event with
    | .failure i now later =>
        s.clock ≤ now ∧ now ≤ later ∧ s.pooled.failure i now later = some s'.pooled ∧
          s'.clock = later
    | .getConn random now =>
        s.clock ≤ now ∧
          ∃ pool, s.pooled.pool.getConn random = some pool ∧ s' = ⟨⟨pool, s.pooled.history⟩, now⟩

/-- The servers that `getConn` may choose, by index. -/
def offered (pool : NcServerPool) : Set Nat :=
  {i | ∃ random < 2 ^ 31, ∃ idx, pool.dispatch random = some idx ∧ i = idx % pool.server.length}

/-- Every server whose retry time has come is among the servers that `getConn` chooses from. -/
def Returned (now : Int) (pool : NcServerPool) : Prop :=
  ∀ (i : Nat) (server : NcServer), pool.server[i]? = some server →
    server.m_next_retry ≤ now → i ∈ pool.offered

/-! ### What the last update tells -/

/-- **What the retry times say**: a live server has none, and the others are ejected. -/
structure Timed (s : Pooled) : Prop where
  eject : s.pool.auto_eject_hosts = true
  size : s.pool.continuum.length ≤ s.pool.server.length + RANDOM_CONTINUUM_ADDITION
  start : s.history = [] → s.pool.next_rebuild = 0
  inside : ∀ live ∈ s.history, ∀ i ∈ live, i < s.pool.server.length
  nlive : ∀ last older, s.history = last :: older → s.pool.nlive_server = last.length
  times : ∀ last older, s.history = last :: older → ∀ i (server : NcServer),
    s.pool.server[i]? = some server → (server.m_next_retry = 0 ∧ i ∈ last) ∨ (0 < server.m_next_retry ∧ i ∉ last)
  rebuild : s.pool.next_rebuild ≠ 0 → 0 < s.pool.next_rebuild ∧
    ∃ (i : Nat) (server : NcServer),
      s.pool.server[i]? = some server ∧ server.m_next_retry = s.pool.next_rebuild

variable {now : Int} {pool : NcServerPool}

/-- An update keeps the number of servers and the setting. -/
theorem random_update_keeps {result : Int × NcServerPool}
    (updates : random_update now pool = some result) :
    result.2.server.length = pool.server.length ∧
      result.2.auto_eject_hosts = pool.auto_eject_hosts := by
  rcases random_update_cases updates with
    ⟨-, rfl⟩ | ⟨-, -, ⟨-, rfl⟩ | ⟨-, large, after, grows, fills, rfl⟩⟩
  · exact ⟨rfl, rfl⟩
  · exact ⟨counted_length, rfl⟩
  · obtain ⟨continuum, -, rfl⟩ := Option.map_eq_some_iff.mp fills
    obtain ⟨-, server, eject, -, -⟩ := grown_frame grows
    exact ⟨(congrArg List.length server).trans counted_length, eject⟩

/-- The continuum stays below ten slots more than there are servers. -/
theorem random_update_size_le {result : Int × NcServerPool} (clock : 0 ≤ now)
    (few : pool.server.length < 2 ^ 31) (sized : pool.continuum.length ≤ pool.nserver_continuum)
    (size : pool.continuum.length ≤ pool.server.length + RANDOM_CONTINUUM_ADDITION)
    (updates : random_update now pool = some result) :
    result.2.continuum.length ≤ pool.server.length + RANDOM_CONTINUUM_ADDITION := by
  have small : pool.nserver ≤ 2147483647 := by
    rw [nserver_of_few few]
    omega
  have need : (liveServers now pool).length ≤ pool.server.length :=
    (liveServers_length_le.trans_eq (nserver_of_few few))
  have after := ((random_update_size clock small sized).2 result updates).2.1
  unfold RANDOM_CONTINUUM_ADDITION at size ⊢
  split at after <;> omega

/-- Another server at an index, with the same retry time. -/
theorem Timed.withServer {s : Pooled} {i : Nat} {old server : NcServer} (timed : Timed s)
    (present : s.pool.server[i]? = some old) (same : server.m_next_retry = old.m_next_retry) :
    Timed ⟨s.pool.withServer i server, s.history⟩ := by
  have length : (s.pool.withServer i server).server.length = s.pool.server.length :=
    withServer_length ..
  have lookup (j : Nat) (other : NcServer)
      (found : (s.pool.withServer i server).server[j]? = some other) :
      ∃ before, s.pool.server[j]? = some before ∧ other.m_next_retry = before.m_next_retry := by
    rw [withServer_getElem? present] at found
    by_cases here : j = i
    · rw [if_pos here] at found
      exact ⟨old, here ▸ present, Option.some.inj found ▸ same⟩
    · rw [if_neg here] at found
      exact ⟨other, found, rfl⟩
  refine {
    eject := timed.eject
    size := ?_
    start := timed.start
    inside := ?_
    nlive := timed.nlive
    times := ?_
    rebuild := fun set => ?_ }
  · show s.pool.continuum.length ≤ (s.pool.withServer i server).server.length + _
    rw [length]
    exact timed.size
  · show ∀ live ∈ s.history, ∀ j ∈ live, j < (s.pool.withServer i server).server.length
    rw [length]
    exact timed.inside
  · intro last older history j other found
    obtain ⟨before, found, retry⟩ := lookup j other found
    rw [retry]
    exact timed.times last older history j before found
  · obtain ⟨positive, j, other, found, retry⟩ := timed.rebuild set
    have after := withServer_getElem? present server j
    refine ⟨positive, ?_⟩
    by_cases here : j = i
    · have first : other = old := Option.some.inj (found.symm.trans (here ▸ present))
      rw [if_pos here] at after
      exact ⟨j, server, after, same.trans (first ▸ retry)⟩
    · rw [if_neg here] at after
      exact ⟨j, other, after.trans found, retry⟩

/-- **An update tells the live servers from the others**, whatever the retry times were before. -/
theorem Timed.update {s s' : Pooled} (clock : 0 ≤ now) (few : s.pool.server.length < 2 ^ 31)
    (sized : s.pool.continuum.length ≤ s.pool.nserver_continuum)
    (eject : s.pool.auto_eject_hosts = true)
    (size : s.pool.continuum.length ≤ s.pool.server.length + RANDOM_CONTINUUM_ADDITION)
    (inside : ∀ live ∈ s.history, ∀ i ∈ live, i < s.pool.server.length)
    (step : s.update now = some s') : Timed s' := by
  obtain ⟨result, updates, rfl⟩ := Option.map_eq_some_iff.mp step
  rw [if_neg (show ¬ now < 0 by omega)]
  obtain ⟨-, account⟩ := accounted_of_update clock few updates
  obtain ⟨length, kept⟩ := random_update_keeps updates
  have cleared (i : Nat) (server : NcServer) (found : result.2.server[i]? = some server) :
      ∃ before, s.pool.server[i]? = some before ∧ server = s.pool.cleared now before := by
    rw [account.retries, List.getElem?_map] at found
    obtain ⟨before, found, same⟩ := Option.map_eq_some_iff.mp found
    exact ⟨before, found, same.symm⟩
  refine {
    eject := kept.trans eject
    size := ?_
    start := fun none => absurd none (List.cons_ne_nil _ _)
    inside := fun live member i isLive => ?_
    nlive := fun last older history => ?_
    times := fun last older history i server found => ?_
    rebuild := fun set => ?_ }
  · rw [length]
    exact random_update_size_le clock few sized size updates
  · rw [length]
    rcases List.mem_cons.mp member with rfl | member
    · obtain ⟨server, found, -⟩ := (mem_liveServers_of_few few i).mp isLive
      exact (List.getElem?_eq_some_iff.mp found).1
    · exact inside live member i isLive
  · obtain ⟨rfl, -⟩ := List.cons.inj history
    exact account.nlive.trans (liveServers_length_of_few few).symm
  · obtain ⟨rfl, -⟩ := List.cons.inj history
    obtain ⟨before, present, rfl⟩ := cleared i server found
    rw [mem_liveServers_of_few few, present]
    by_cases alive : s.pool.live now before = true
    · refine Or.inl ⟨?_, before, rfl, alive⟩
      simp [NcServerPool.cleared, eject, alive]
    · have due := (ejected_of_not alive).2
      refine Or.inr ⟨?_, ?_⟩
      · simp only [NcServerPool.cleared, alive, Bool.and_false]
        exact Int.lt_of_le_of_lt clock due
      · rintro ⟨server, same, isLive⟩
        exact alive (Option.some.inj same ▸ isLive)
  · -- the earliest retry time is the time of an ejected server, which the update leaves
    by_cases all : ∀ server ∈ s.pool.server, s.pool.live now server = true
    · exact absurd (account.no_rebuild all) set
    · obtain ⟨some, isServer, dead⟩ := not_forall₂.mp all
      obtain ⟨server, isServer, ejected, retry⟩ :=
        (account.rebuild ⟨some, isServer, Bool.not_eq_true _ ▸ dead⟩).1
      obtain ⟨i, present⟩ := List.mem_iff_getElem?.mp isServer
      have due := ((ejected_iff server).mpr ejected).2
      have later : now < result.2.next_rebuild := by
        rw [← retry]
        exact due
      refine ⟨Int.lt_of_le_of_lt clock later, i, s.pool.cleared now server, ?_, ?_⟩
      · rw [account.retries, List.getElem?_map, present]
        rfl
      · simp only [NcServerPool.cleared, ejected, Bool.and_false]
        exact retry

/-- What `failure()` notes in its server leaves the retry time, unless an update follows. -/
theorem noteFailure_cases (now : Int) (pool : NcServerPool) (server : NcServer) :
    ((noteFailure now pool server).2 = false →
        (noteFailure now pool server).1.m_next_retry = server.m_next_retry) ∧
      ((noteFailure now pool server).2 = true → 0 ≤ now) := by
  unfold noteFailure
  split
  · exact ⟨fun _ => rfl, nofun⟩
  · dsimp only
    split
    · exact ⟨fun _ => rfl, nofun⟩
    · split
      · exact ⟨fun _ => rfl, nofun⟩
      next clock => exact ⟨nofun, fun _ => Int.not_lt.mp clock⟩

theorem Timed.failure {s s' : Pooled} {i : Nat} {later : Int} (forward : now ≤ later)
    (few : s.pool.server.length < 2 ^ 31) (drawn : Drawn s) (timed : Timed s)
    (step : s.failure i now later = some s') : Timed s' := by
  obtain ⟨server, present, ⟨updates, step⟩ | ⟨kept, rfl⟩⟩ := Pooled.failure_cases step
  · have length : (s.pool.withServer i (noteFailure now s.pool server).1).server.length
        = s.pool.server.length := withServer_length ..
    have clock : 0 ≤ later := ((noteFailure_cases now s.pool server).2 updates).trans forward
    refine Timed.update (s := ⟨s.pool.withServer i _, s.history⟩) clock ?_ drawn.sized timed.eject
      ?_ ?_ step
    · exact length.trans_lt few
    · show s.pool.continuum.length ≤ (s.pool.withServer i _).server.length + _
      rw [length]
      exact timed.size
    · show ∀ live ∈ s.history, ∀ j ∈ live, j < (s.pool.withServer i _).server.length
      rw [length]
      exact timed.inside
  · exact timed.withServer present ((noteFailure_cases now s.pool server).1 kept)

/-- `getConn` turns the queue of one server. -/
theorem getConn_cases {random : Nat} {after : NcServerPool} (draws : pool.getConn random = some after) :
    ∃ i server, pool.server[i]? = some server ∧
      after = pool.withServer i (turned pool.server_connections server) := by
  obtain ⟨idx, -, asks⟩ := Option.bind_eq_some_iff.mp draws
  obtain ⟨server, found, rfl⟩ := Option.map_eq_some_iff.mp asks
  unfold serverFor at found
  split at found
  · cases found
  · exact ⟨_, server, found, rfl⟩

theorem turned_retry (limit : UInt32) (server : NcServer) :
    (turned limit server).m_next_retry = server.m_next_retry := by
  unfold turned
  split <;> rfl

/-- A step keeps the number of servers. -/
theorem connRuns_length {s s' : Served} {event : ConnEvent} (step : connRuns.step s event s') :
    s'.pooled.pool.server.length = s.pooled.pool.server.length := by
  cases event with
  | failure i now later =>
      obtain ⟨-, -, step, -⟩ := step
      obtain ⟨server, -, ⟨-, step⟩ | ⟨-, same⟩⟩ := Pooled.failure_cases step
      · obtain ⟨result, updates, final⟩ := Option.map_eq_some_iff.mp step
        rw [← final]
        exact (random_update_keeps updates).1.trans List.length_set
      · rw [same]
        exact List.length_set
  | getConn random now =>
      obtain ⟨-, pool, draws, rfl⟩ := step
      obtain ⟨i, server, -, rfl⟩ := getConn_cases draws
      exact List.length_set

/-- **On all runs the last update tells the live servers from the ejected ones.** -/
theorem Timed.run {s : Served} (reached : connRuns.Reach s)
    (few : s.pooled.pool.server.length < 2 ^ 31) : Drawn s.pooled ∧ Timed s.pooled := by
  refine reached.invariant
    (I := fun s => s.pooled.pool.server.length < 2 ^ 31 → Drawn s.pooled ∧ Timed s.pooled)
    (fun s initial _ => ?_) (fun s event s' _ holds step few' => ?_) few
  · obtain ⟨eject, rebuild, continuum, history⟩ := initial
    refine ⟨.start ⟨continuum, history⟩, eject, ?_, fun _ => rebuild, ?_, ?_, ?_, ?_⟩
    · rw [continuum]
      exact Nat.zero_le _
    · rw [history]
      exact nofun
    · rw [history]
      exact nofun
    · rw [history]
      exact nofun
    · exact fun set => absurd rebuild set
  · obtain ⟨drawn, timed⟩ := holds (connRuns_length step ▸ few')
    have few : s.pooled.pool.server.length < 2 ^ 31 := connRuns_length step ▸ few'
    cases event with
    | failure i now later =>
        obtain ⟨-, forward, step, -⟩ := step
        exact ⟨drawn.failure step, timed.failure forward few drawn step⟩
    | getConn random now =>
        obtain ⟨-, pool, draws, rfl⟩ := step
        obtain ⟨i, server, present, rfl⟩ := getConn_cases draws
        exact ⟨drawn.of_continuum (p := s.pooled.pool.withServer i _) rfl rfl,
          timed.withServer present (turned_retry _ server)⟩

/-! ### The choice -/

/-- Every index in a slot is one of a server. -/
theorem slotIndex_lt {history : List (List Nat)} {n : Nat} (some : 0 < n)
    (inside : ∀ live ∈ history, ∀ i ∈ live, i < n) (slot : Nat) : slotIndex history slot < n := by
  induction history with
  | nil => exact some
  | cons live older ih =>
      unfold slotIndex
      cases found : live[slot]? with
      | none => exact ih fun live' member => inside live' (List.mem_cons_of_mem _ member)
      | some i => exact inside live List.mem_cons_self i (List.mem_of_getElem? found)

/-- A draw from a continuum whose size fits an `int` may name every slot of it, and no other. -/
theorem randomSlot_iff {size slot : Nat} (small : size < 2 ^ 31) :
    (∃ random < 2 ^ 31, randomSlot random size = some slot) ↔ slot < size := by
  have whole : Int.bmod size (2 ^ 32) = size := by
    rw [Int.bmod_def]
    omega
  constructor
  · rintro ⟨random, -, draws⟩
    by_cases empty : size = 0
    · rw [empty, randomSlot_zero] at draws
      cases draws
    · obtain ⟨other, draws', inside⟩ := randomSlot_spec random (by omega) empty
      rw [Option.some.inj (draws.symm.trans draws')]
      exact inside
  · intro inside
    refine ⟨slot, by omega, ?_⟩
    have remainder : Int.tmod slot size = slot := Int.tmod_eq_of_lt (by omega) (by omega)
    unfold randomSlot
    dsimp only
    rw [whole, if_neg (by omega), remainder]
    rfl

/-- A server that `getConn` may choose is in some slot. -/
theorem slot_of_offered (dist : pool.dist_type = kDIST_RANDOM) {i : Nat} (offered : i ∈ pool.offered) :
    ∃ (slot : Nat) (c : NcContinuum),
      pool.continuum[slot]? = some c ∧ i = c.index % pool.server.length := by
  obtain ⟨random, -, idx, dispatches, rfl⟩ := offered
  have draw : pool.dispatch random = (randomSlot random pool.continuum.length).bind fun slot =>
      (pool.continuum[slot]?).map fun c => c.index := if_pos dist
  rw [draw] at dispatches
  obtain ⟨slot, -, found⟩ := Option.bind_eq_some_iff.mp dispatches
  obtain ⟨c, present, rfl⟩ := Option.map_eq_some_iff.mp found
  exact ⟨slot, c, present, rfl⟩

/-- **`getConn` chooses among the servers in the slots.** -/
theorem offered_iff {s : Pooled} (drawn : Drawn s) (timed : Timed s)
    (few : s.pool.server.length + RANDOM_CONTINUUM_ADDITION < 2 ^ 31)
    (dist : s.pool.dist_type = kDIST_RANDOM) {i : Nat} (isServer : i < s.pool.server.length) :
    i ∈ s.pool.offered ↔ ∃ slot : Nat, (s.pool.continuum[slot]?).map NcContinuum.index = some i := by
  have small : s.pool.continuum.length < 2 ^ 31 := timed.size.trans_lt few
  constructor
  · intro offered
    obtain ⟨slot, c, present, rfl⟩ := slot_of_offered dist offered
    have inside := (List.getElem?_eq_some_iff.mp present).1
    have index := drawn.slots slot inside
    have known : c.index = slotIndex s.history slot := by
      rw [present] at index
      exact Option.some.inj index
    have below : c.index < s.pool.server.length := by
      rw [known]
      exact slotIndex_lt (by omega) timed.inside slot
    refine ⟨slot, ?_⟩
    rw [present, Nat.mod_eq_of_lt below]
    rfl
  · rintro ⟨slot, found⟩
    obtain ⟨c, present, rfl⟩ := Option.map_eq_some_iff.mp found
    have inside := (List.getElem?_eq_some_iff.mp present).1
    obtain ⟨random, bound, draws⟩ := (randomSlot_iff small).mpr inside
    refine ⟨random, bound, c.index, ?_, (Nat.mod_eq_of_lt isServer).symm⟩
    unfold dispatch
    rw [if_pos dist, draws, Option.bind_some, present]
    rfl

/-- The other distributions name the first server. -/
theorem offered_of_other (dist : pool.dist_type ≠ kDIST_RANDOM) {i : Nat}
    (isServer : i < pool.server.length) : i ∈ pool.offered ↔ i = 0 := by
  have first (random : Nat) : pool.dispatch random = some 0 := if_neg dist
  constructor
  · rintro ⟨random, -, idx, dispatches, rfl⟩
    rw [← Option.some.inj ((first random).symm.trans dispatches), Nat.zero_mod]
  · rintro rfl
    exact ⟨0, by decide, 0, first 0, (Nat.zero_mod _).symm⟩

/-- **Ejected servers come back by chance.** When `next_rebuild` has come, some server that the last
update ejected is due again. Under `kDIST_RANDOM` all the due servers are among those `getConn`
chooses from exactly when each that was ejected is still in a slot past the live ones. -/
theorem comeback_iff {s : Served} (reached : connRuns.Reach s)
    (few : s.pooled.pool.server.length + RANDOM_CONTINUUM_ADDITION < 2 ^ 31)
    (due : s.pooled.pool.next_rebuild ≠ 0 ∧ s.pooled.pool.next_rebuild ≤ now) :
    (s.pooled.pool.dist_type = kDIST_RANDOM → (Returned now s.pooled.pool ↔
      ∀ (i : Nat) (server : NcServer), s.pooled.pool.server[i]? = some server →
        0 < server.m_next_retry → server.m_next_retry ≤ now →
        ∃ slot, s.pooled.pool.nlive_server ≤ slot ∧
          (s.pooled.pool.continuum[slot]?).map NcContinuum.index = some i)) ∧
    (s.pooled.pool.dist_type ≠ kDIST_RANDOM → (Returned now s.pooled.pool ↔
      ∀ (i : Nat) (server : NcServer), s.pooled.pool.server[i]? = some server →
        server.m_next_retry ≤ now → i = 0)) ∧
    ∃ (i : Nat) (server : NcServer), s.pooled.pool.server[i]? = some server ∧
      0 < server.m_next_retry ∧ server.m_next_retry ≤ now := by
  obtain ⟨drawn, timed⟩ := Timed.run reached (by omega)
  have isServer {i : Nat} {server : NcServer} (found : s.pooled.pool.server[i]? = some server) :
      i < s.pooled.pool.server.length := (List.getElem?_eq_some_iff.mp found).1
  refine ⟨fun dist => ?_, fun dist => ?_, ?_⟩
  · cases history : s.pooled.history with
    | nil => exact absurd (timed.start history) due.1
    | cons last older =>
        have nlive := timed.nlive last older history
        have index (slot : Nat) (inside : slot < s.pooled.pool.continuum.length) :
            (s.pooled.pool.continuum[slot]?).map NcContinuum.index =
              some ((last[slot]?).getD (slotIndex older slot)) := by
          rw [drawn.slots slot inside, history]
          rfl
        constructor
        · intro returned i server found positive past
          obtain ⟨slot, holds⟩ :=
            (offered_iff drawn timed few dist (isServer found)).mp (returned i server found past)
          refine ⟨slot, ?_, holds⟩
          -- a slot before them holds a live server
          by_contra before
          obtain ⟨c, present, -⟩ := Option.map_eq_some_iff.mp holds
          rw [index slot (List.getElem?_eq_some_iff.mp present).1,
            List.getElem?_eq_getElem (by omega), Option.getD_some] at holds
          rcases timed.times last older history i server found with ⟨zero, -⟩ | ⟨-, dead⟩
          · omega
          · exact dead (Option.some.inj holds ▸ List.getElem_mem _)
        · intro extra i server found past
          rw [offered_iff drawn timed few dist (isServer found)]
          rcases timed.times last older history i server found with ⟨-, alive⟩ | ⟨positive, -⟩
          · obtain ⟨slot, inside, rfl⟩ := List.getElem_of_mem alive
            have room := drawn.reached last (history ▸ List.mem_cons_self)
            refine ⟨slot, ?_⟩
            rw [index slot (by omega), List.getElem?_eq_getElem inside, Option.getD_some]
          · obtain ⟨slot, -, holds⟩ := extra i server found positive past
            exact ⟨slot, holds⟩
  · constructor
    · intro returned i server found past
      exact (offered_of_other dist (isServer found)).mp (returned i server found past)
    · intro first i server found past
      exact (offered_of_other dist (isServer found)).mpr (first i server found past)
  · obtain ⟨positive, i, server, found, retry⟩ := timed.rebuild due.1
    refine ⟨i, server, found, ?_, ?_⟩
    · rw [retry]
      exact positive
    · rw [retry]
      exact due.2

/-- Two servers that are ejected at their first failure, for a time of 30. -/
def twoFailing : Served :=
  ⟨⟨{ twoServers.pool with
      server := [⟨[], 0, 0, 0⟩, ⟨[], 0, 0, 0⟩]
      server_failure_limit := 1 }, []⟩, 0⟩

theorem reach_twoFailing : connRuns.Reach twoFailing := .start ⟨rfl, rfl, rfl, rfl⟩

/-- They after the failure of the server `i` at the time 10. -/
def afterFailure (i : Nat) : Served :=
  ⟨(twoFailing.pooled.failure i 10 10).getD twoFailing.pooled, 10⟩

theorem reach_afterFailure_zero : connRuns.Reach (afterFailure 0) :=
  reach_twoFailing.next (a := .failure 0 10 10) ⟨by decide, by decide, rfl, rfl⟩

theorem reach_afterFailure_one : connRuns.Reach (afterFailure 1) :=
  reach_twoFailing.next (a := .failure 1 10 10) ⟨by decide, by decide, rfl, rfl⟩

/-- The unused slots have the index 0, so the first server comes back. -/
theorem comeback_afterFailure_zero : Returned 100 (afterFailure 0).pooled.pool := by
  have few : (afterFailure 0).pooled.pool.server.length + RANDOM_CONTINUUM_ADDITION < 2 ^ 31 := by
    rw [show (afterFailure 0).pooled.pool.server.length = 2 from rfl]
    decide
  have rebuild : (afterFailure 0).pooled.pool.next_rebuild = 40 := rfl
  refine ((comeback_iff reach_afterFailure_zero few ?_).1 rfl).mpr ?_
  · rw [rebuild]
    decide
  intro i server found positive past
  match i with
  | 0 => exact ⟨1, by decide, by decide⟩
  | 1 =>
      have live : server = ⟨[], 0, 0, 0⟩ := (Option.some.inj found).symm
      rw [live] at positive
      exact absurd positive (by decide)
  | i + 2 => cases found

/-- **The second server does not come back**, though its retry time 40 and `next_rebuild` are past. -/
theorem never_back :
    connRuns.Reach (afterFailure 1) ∧ (afterFailure 1).pooled.pool.next_rebuild = 40 ∧
      (afterFailure 1).pooled.pool.server[1]? = some ⟨[], 0, 40, 0⟩ ∧
      ¬ Returned 100 (afterFailure 1).pooled.pool := by
  refine ⟨reach_afterFailure_one, by decide, by decide, fun returned => ?_⟩
  obtain ⟨slot, c, present, index⟩ :=
    slot_of_offered rfl (returned 1 ⟨[], 0, 40, 0⟩ (by decide) (by decide))
  have first : ∀ c ∈ (afterFailure 1).pooled.pool.continuum, c.index = 0 := by decide
  rw [first c (List.mem_of_getElem? present)] at index
  cases index

end NcServerPool

end Nutcracker
