/-
**What an update does with the ejected servers.**

`random_update` goes over the servers twice: the first loop counts the live ones, clears their retry
times and looks for the earliest retry time of the others; the last loop tests the retry times again
and gives the live ones their slots.

* `countLive_map` — the first loop clears the retry times of the live servers only.
* `countLive_rebuild` — and finds **the earliest retry time of the ejected ones**, with 0 for none.
* `liveFrom_mem`, `liveFrom_pairwise` — the last loop takes the same servers, in increasing order.
* `ejection_accounting` — **the account of an update**, of fewer than `2 ^ 31` servers.
* `wrapped_account` — `2 ^ 32` servers are none for the `uint32_t` that counts them.
-/

import Nutcracker.HashKit.Dispatch
import Mathlib.Order.Bounds.Defs

namespace Nutcracker

namespace NcServerPool

/-- The server is live at `now`: no server is ejected, or its retry time has come. -/
def live (now : Int) (pool : NcServerPool) (server : NcServer) : Bool :=
  !pool.auto_eject_hosts || decide (server.m_next_retry ≤ now)

/-- The server after the first loop. -/
def cleared (now : Int) (pool : NcServerPool) (server : NcServer) : NcServer :=
  if pool.auto_eject_hosts && pool.live now server then { server with m_next_retry := 0 } else server

/-- **The account of an update of `pool` at `now`.** -/
structure Accounted (now : Int) (pool after : NcServerPool) : Prop where
  nlive : after.nlive_server = pool.server.countP (pool.live now)
  /-- Some server is ejected, and this is the earliest retry time of these. -/
  rebuild : (∃ server ∈ pool.server, pool.live now server = false) →
    IsLeast {retry | ∃ server ∈ pool.server, pool.live now server = false ∧
      server.m_next_retry = retry} after.next_rebuild
  no_rebuild : (∀ server ∈ pool.server, pool.live now server = true) → after.next_rebuild = 0
  retries : after.server = pool.server.map (pool.cleared now)
  size : after.nlive_server ≤ after.continuum.length
  increasing :
    ((after.continuum.take after.nlive_server).map NcContinuum.index).Pairwise (· < ·)
  slots : ∀ i, i ∈ (after.continuum.take after.nlive_server).map NcContinuum.index ↔
    ∃ server, pool.server[i]? = some server ∧ pool.live now server = true
  unchanged : (∀ server ∈ pool.server, pool.live now server = false) →
    after.continuum = pool.continuum

variable {now : Int} {pool : NcServerPool}

/-- The test of the loops. -/
theorem ejected_iff (server : NcServer) :
    (pool.auto_eject_hosts = true ∧ server.m_next_retry > now) ↔ pool.live now server = false := by
  simp [live]

theorem not_ejected {server : NcServer} (alive : pool.live now server = true) :
    ¬ (pool.auto_eject_hosts = true ∧ server.m_next_retry > now) := by
  rw [ejected_iff, alive]
  exact Bool.noConfusion

theorem ejected_of_not {server : NcServer} (dead : ¬ pool.live now server = true) :
    pool.auto_eject_hosts = true ∧ server.m_next_retry > now :=
  (ejected_iff server).mpr (Bool.not_eq_true _ ▸ dead)

/-! ### The first loop -/

/-- **The first loop clears the retry times of the live servers.** -/
theorem countLive_map (servers : List NcServer) (n : Nat) (rebuild : Int) :
    (countLive pool.auto_eject_hosts now servers n rebuild).1 = servers.map (pool.cleared now) := by
  induction servers generalizing n rebuild with
  | nil => rfl
  | cons server rest ih =>
      unfold countLive
      rw [List.map_cons]
      by_cases eject : pool.auto_eject_hosts = true
      · by_cases back : server.m_next_retry ≤ now
        · have same : pool.cleared now server = { server with m_next_retry := 0 } := by
            simp [cleared, live, eject, back]
          rw [if_pos eject, if_pos back, same]
          exact congrArg (_ :: ·) (ih ..)
        · have same : pool.cleared now server = server := by simp [cleared, live, eject, back]
          rw [if_pos eject, if_neg back, same]
          split
          · exact congrArg (server :: ·) (ih ..)
          · exact congrArg (server :: ·) (ih ..)
      · have same : pool.cleared now server = server := by simp [cleared, eject]
        rw [if_neg eject, same]
        exact congrArg (server :: ·) (ih ..)

/-- The earliest of the retry times of the ejected servers and of `rebuild`, where 0 is no time. -/
structure Earliest (now : Int) (pool : NcServerPool) (servers : List NcServer)
    (rebuild earliest : Int) : Prop where
  zero : earliest = 0 ↔ rebuild = 0 ∧ ∀ server ∈ servers, pool.live now server = true
  later : earliest = 0 ∨ now < earliest
  before : rebuild ≠ 0 → earliest ≤ rebuild
  least : ∀ server ∈ servers, pool.live now server = false → earliest ≤ server.m_next_retry
  found : earliest = rebuild ∨
    ∃ server ∈ servers, pool.live now server = false ∧ server.m_next_retry = earliest

/-- **The first loop finds the earliest retry time of the ejected servers.** -/
theorem countLive_rebuild (clock : 0 ≤ now) (servers : List NcServer) (n : Nat) (rebuild : Int)
    (later : rebuild = 0 ∨ now < rebuild) :
    Earliest now pool servers rebuild
      (countLive pool.auto_eject_hosts now servers n rebuild).2.2 := by
  induction servers generalizing n rebuild with
  | nil =>
      exact ⟨⟨fun none => ⟨none, nofun⟩, And.left⟩, later, fun _ => Int.le_refl _, nofun, Or.inl rfl⟩
  | cons server rest ih =>
      -- a live server changes nothing, and an ejected one is compared
      have skip (alive : pool.live now server = true) (n' : Nat) :
          Earliest now pool (server :: rest) rebuild
            (countLive pool.auto_eject_hosts now rest n' rebuild).2.2 := by
        have inner := ih n' rebuild later
        refine ⟨?_, inner.later, inner.before, ?_, ?_⟩
        · rw [inner.zero, List.forall_mem_cons]
          simp only [alive, true_and]
        · rintro other inside ejected
          rcases List.mem_cons.mp inside with rfl | inside
          · rw [alive] at ejected
            cases ejected
          · exact inner.least other inside ejected
        · rcases inner.found with same | ⟨other, inside, ejected⟩
          · exact Or.inl same
          · exact Or.inr ⟨other, List.mem_cons_of_mem _ inside, ejected⟩
      by_cases alive : pool.live now server = true
      · unfold countLive
        by_cases eject : pool.auto_eject_hosts = true
        · have back : server.m_next_retry ≤ now := by simpa [live, eject] using alive
          rw [if_pos eject, if_pos back]
          exact skip alive _
        · rw [if_neg eject]
          exact skip alive _
      · have ejected : pool.live now server = false := Bool.not_eq_true _ ▸ alive
        obtain ⟨eject, due⟩ := ejected_of_not alive
        unfold countLive
        rw [if_pos eject, if_neg (by omega)]
        by_cases sooner : rebuild = 0 ∨ server.m_next_retry < rebuild
        · rw [if_pos sooner]
          have inner := ih n server.m_next_retry (Or.inr due)
          have bound : (countLive pool.auto_eject_hosts now rest n server.m_next_retry).2.2
              ≤ server.m_next_retry := inner.before (by omega)
          have nonzero : (countLive pool.auto_eject_hosts now rest n server.m_next_retry).2.2 ≠ 0 :=
            fun zero => absurd (inner.zero.mp zero).1 (by omega)
          refine ⟨⟨fun zero => absurd zero nonzero, ?_⟩, inner.later, ?_, ?_, ?_⟩
          · rintro ⟨-, all⟩
            exact absurd (all server List.mem_cons_self) alive
          · intro some
            rcases sooner with none | less
            · exact absurd none some
            · exact bound.trans (Int.le_of_lt less)
          · rintro other inside isEjected
            rcases List.mem_cons.mp inside with rfl | inside
            · exact bound
            · exact inner.least other inside isEjected
          · rcases inner.found with same | ⟨other, inside, isEjected⟩
            · exact Or.inr ⟨server, List.mem_cons_self, ejected, same.symm⟩
            · exact Or.inr ⟨other, List.mem_cons_of_mem _ inside, isEjected⟩
        · rw [if_neg sooner]
          have inner := ih n rebuild later
          have known : rebuild ≠ 0 := fun none => sooner (Or.inl none)
          refine ⟨?_, inner.later, inner.before, ?_, ?_⟩
          · rw [inner.zero]
            exact ⟨fun zero => absurd zero.1 known, fun zero => absurd zero.1 known⟩
          · rintro other inside isEjected
            rcases List.mem_cons.mp inside with rfl | inside
            · exact (inner.before known).trans (by omega)
            · exact inner.least other inside isEjected
          · rcases inner.found with same | ⟨other, inside, isEjected⟩
            · exact Or.inl same
            · exact Or.inr ⟨other, List.mem_cons_of_mem _ inside, isEjected⟩

/-! ### The last loop -/

theorem liveFrom_cons (server : NcServer) (rest : List NcServer) (i : Nat) :
    liveFrom pool.auto_eject_hosts now (server :: rest) i =
      if pool.live now server then i :: liveFrom pool.auto_eject_hosts now rest (i + 1)
      else liveFrom pool.auto_eject_hosts now rest (i + 1) := by
  conv_lhs => unfold liveFrom
  by_cases alive : pool.live now server = true
  · rw [if_pos alive, if_neg (not_ejected alive)]
  · rw [if_neg alive, if_pos (ejected_of_not alive)]

theorem liveFrom_length (servers : List NcServer) (i : Nat) :
    (liveFrom pool.auto_eject_hosts now servers i).length = servers.countP (pool.live now) := by
  induction servers generalizing i with
  | nil => rfl
  | cons server rest ih =>
      rw [liveFrom_cons, List.countP_cons]
      split
      · rw [List.length_cons, ih]
      · rw [ih, Nat.add_zero]

/-- **The last loop takes the live servers.** -/
theorem liveFrom_mem (servers : List NcServer) (i j : Nat) :
    j ∈ liveFrom pool.auto_eject_hosts now servers i ↔
      ∃ k server, j = i + k ∧ servers[k]? = some server ∧ pool.live now server = true := by
  induction servers generalizing i with
  | nil => exact ⟨nofun, fun ⟨_, _, _, found, _⟩ => nomatch found⟩
  | cons server rest ih =>
      have tail : j ∈ liveFrom pool.auto_eject_hosts now rest (i + 1) ↔
          ∃ k other, j = i + (k + 1) ∧ (server :: rest)[k + 1]? = some other ∧
            pool.live now other = true := by
        rw [ih]
        simp only [List.getElem?_cons_succ, Nat.add_assoc, Nat.add_comm 1]
      rw [liveFrom_cons]
      constructor
      · intro inside
        split at inside
        next alive =>
          rcases List.mem_cons.mp inside with rfl | inside
          · exact ⟨0, server, rfl, rfl, alive⟩
          · obtain ⟨k, other, found⟩ := tail.mp inside
            exact ⟨k + 1, other, found⟩
        next =>
          obtain ⟨k, other, found⟩ := tail.mp inside
          exact ⟨k + 1, other, found⟩
      · rintro ⟨k, other, place, found, alive⟩
        cases k with
        | zero =>
            rw [show server = other from Option.some.inj found, if_pos alive, place]
            exact List.mem_cons_self
        | succ k =>
            have inside := tail.mpr ⟨k, other, place, found, alive⟩
            split
            · exact List.mem_cons_of_mem _ inside
            · exact inside

/-- **In increasing order.** -/
theorem liveFrom_pairwise (servers : List NcServer) (i : Nat) :
    (liveFrom pool.auto_eject_hosts now servers i).Pairwise (· < ·) := by
  induction servers generalizing i with
  | nil => exact List.Pairwise.nil
  | cons server rest ih =>
      rw [liveFrom_cons]
      split
      · refine List.pairwise_cons.mpr ⟨fun j inside => ?_, ih (i + 1)⟩
        obtain ⟨k, -, place, -⟩ := (liveFrom_mem rest (i + 1) j).mp inside
        omega
      · exact ih (i + 1)

/-! ### The growth loop -/

/-- If the growth loop ends, it has appended unused slots. -/
theorem grow_appends {ncontinuum fuel i : Nat} {continuum after : List NcContinuum}
    (grows : grow ncontinuum fuel i continuum = some after) :
    ∃ extra, after = continuum ++ List.replicate extra NcContinuum.new := by
  induction fuel generalizing i continuum with
  | zero => cases grows
  | succ fuel ih =>
      unfold grow at grows
      split at grows
      · obtain ⟨extra, same⟩ := ih grows
        refine ⟨extra + 1, ?_⟩
        rw [same, List.append_assoc]
        rfl
      · exact ⟨0, by rw [List.replicate_zero, List.append_nil, Option.some.inj grows]⟩

/-- The growth changes the continuum and its recorded size. -/
theorem grown_frame {large : NcServerPool} (grows : pool.grown = some large) :
    (∃ extra, large.continuum = pool.continuum ++ List.replicate extra NcContinuum.new) ∧
      large.server = pool.server ∧ large.auto_eject_hosts = pool.auto_eject_hosts ∧
      large.nlive_server = pool.nlive_server ∧ large.next_rebuild = pool.next_rebuild := by
  unfold grown at grows
  split at grows
  · obtain ⟨continuum, ends, rfl⟩ := Option.map_eq_some_iff.mp grows
    exact ⟨grow_appends ends, rfl, rfl, rfl, rfl⟩
  · rw [← Option.some.inj grows]
    exact ⟨⟨0, (List.append_nil _).symm⟩, rfl, rfl, rfl, rfl⟩

/-- The growth ends if there is none, or if the recorded size is not below the size. -/
theorem grown_isSome (few : pool.nlive_server ≤ 2147483647)
    (ends : pool.nlive_server ≤ pool.nserver_continuum ∨
      pool.continuum.length ≤ pool.nlive_server + RANDOM_CONTINUUM_ADDITION) :
    ∃ large, pool.grown = some large := by
  by_cases short : pool.nlive_server > pool.nserver_continuum
  · exact ⟨_, grown_half few (ends.resolve_left (Nat.not_le.mpr short)) short⟩
  · exact ⟨pool, if_neg short⟩

/-- With a slot for each live server the last loop stays inside. -/
theorem fill_isSome (servers : List NcServer) (i k : Nat) (continuum : List NcContinuum)
    (room : k + servers.countP (pool.live now) ≤ continuum.length) :
    ∃ after, fill pool.auto_eject_hosts now servers i k continuum = some after := by
  induction servers generalizing i k continuum with
  | nil => exact ⟨continuum, rfl⟩
  | cons server rest ih =>
      rw [List.countP_cons] at room
      unfold fill
      by_cases alive : pool.live now server = true
      · rw [if_pos alive] at room
        rw [if_neg (not_ejected alive), if_pos (by omega)]
        exact ih (i + 1) (k + 1) _ (by rw [List.length_set]; omega)
      · rw [if_neg alive] at room
        rw [if_pos (ejected_of_not alive)]
        exact ih (i + 1) k continuum room

/-- The last loop stays inside exactly when there is a slot for each live server. -/
theorem filled_isSome_iff {large : NcServerPool} :
    (∃ after, large.filled now = some after) ↔
      (liveServers now large).length ≤ large.continuum.length := by
  constructor
  · rintro ⟨after, fills⟩
    obtain ⟨continuum, written, -⟩ := Option.map_eq_some_iff.mp fills
    have room := (fill_spec _ 0 0 _ _ written).2.1 (Nat.zero_le _)
    exact (Nat.zero_add _).symm.trans_le room
  · intro room
    have count : (liveServers now large).length
        = (large.server.take large.nserver).countP (large.live now) := liveFrom_length _ 0
    obtain ⟨continuum, fills⟩ :=
      @fill_isSome now large (large.server.take large.nserver) 0 0 large.continuum (by omega)
    exact ⟨_, congrArg (Option.map _) fills⟩

/-! ### The account -/

section Few

variable (few : pool.server.length < 2 ^ 31)

include few

/-- The `uint32_t` holds the number of servers. -/
theorem nserver_of_few : pool.nserver = pool.server.length := Nat.mod_eq_of_lt (by omega)

theorem take_nserver_of_few : pool.server.take pool.nserver = pool.server := by
  rw [nserver_of_few few, List.take_length]

theorem counted_server_of_few : (pool.counted now).server = pool.server.map (pool.cleared now) := by
  show (countLive _ now (pool.server.take pool.nserver) 0 0).1 ++ pool.server.drop pool.nserver = _
  rw [take_nserver_of_few few, nserver_of_few few, List.drop_length, List.append_nil, countLive_map]

theorem counted_rebuild_of_few (clock : 0 ≤ now) :
    Earliest now pool pool.server 0 (pool.counted now).next_rebuild := by
  have found : Earliest now pool (pool.server.take pool.nserver) 0
      (countLive pool.auto_eject_hosts now (pool.server.take pool.nserver) 0 0).2.2 :=
    countLive_rebuild clock _ 0 0 (Or.inl rfl)
  rw [take_nserver_of_few few] at found
  show Earliest now pool pool.server 0 (countLive _ now (pool.server.take pool.nserver) 0 0).2.2
  rw [take_nserver_of_few few]
  exact found

theorem liveServers_of_few :
    liveServers now pool = liveFrom pool.auto_eject_hosts now pool.server 0 := by
  unfold liveServers
  rw [take_nserver_of_few few]

theorem liveServers_length_of_few :
    (liveServers now pool).length = pool.server.countP (pool.live now) := by
  rw [liveServers_of_few few, liveFrom_length]

theorem mem_liveServers_of_few (i : Nat) :
    i ∈ liveServers now pool ↔
      ∃ server, pool.server[i]? = some server ∧ pool.live now server = true := by
  rw [liveServers_of_few few, liveFrom_mem]
  constructor
  · rintro ⟨k, server, rfl, found⟩
    exact ⟨server, by simpa using found⟩
  · rintro ⟨server, found⟩
    exact ⟨i, server, (Nat.zero_add i).symm, found⟩

end Few

/-- The first slots hold the live servers. -/
theorem take_index {continuum : List NcContinuum} {indices : List Nat} {others : Nat → Option Nat}
    (room : indices.length ≤ continuum.length)
    (slots : ∀ slot < continuum.length, (continuum[slot]?).map NcContinuum.index =
      (indices[slot]?).or (others slot)) :
    (continuum.take indices.length).map NcContinuum.index = indices := by
  refine List.ext_getElem? fun slot => ?_
  rw [List.getElem?_map, List.getElem?_take]
  by_cases inside : slot < indices.length
  · rw [if_pos inside, slots slot (by omega), List.getElem?_eq_getElem inside, Option.some_or]
  · rw [if_neg inside, List.getElem?_eq_none (by omega), Option.map_none]

/-- The account, from the slots that an update leaves. -/
theorem Accounted.of_slots {after : NcServerPool} (clock : 0 ≤ now)
    (few : pool.server.length < 2 ^ 31)
    (same : after.server = (pool.counted now).server ∧
      after.nlive_server = (pool.counted now).nlive_server ∧
      after.next_rebuild = (pool.counted now).next_rebuild)
    (room : (liveServers now pool).length ≤ after.continuum.length)
    (slots : (after.continuum.take (liveServers now pool).length).map NcContinuum.index =
      liveServers now pool)
    (unchanged : liveServers now pool = [] → after.continuum = pool.continuum) :
    Accounted now pool after := by
  obtain ⟨server, nlive, rebuild⟩ := same
  have number : after.nlive_server = (liveServers now pool).length := nlive.trans counted_nlive
  have earliest := counted_rebuild_of_few few clock
  rw [← rebuild] at earliest
  refine {
    nlive := number.trans (liveServers_length_of_few few)
    rebuild := ?_
    no_rebuild := fun all => earliest.zero.mpr ⟨rfl, all⟩
    retries := server.trans (counted_server_of_few few)
    size := number ▸ room
    increasing := ?_
    slots := fun i => ?_
    unchanged := fun none => unchanged ?_ }
  · rintro ⟨server, inside, ejected⟩
    rcases earliest.found with zero | found
    · have alive := (earliest.zero.mp zero).2 server inside
      rw [ejected] at alive
      cases alive
    · refine ⟨found, ?_⟩
      rintro retry ⟨other, isServer, isEjected, rfl⟩
      exact earliest.least other isServer isEjected
  · rw [number, slots, liveServers_of_few few]
    exact liveFrom_pairwise _ 0
  · rw [number, slots]
    exact mem_liveServers_of_few few i
  · refine List.eq_nil_iff_forall_not_mem.mpr fun i inside => ?_
    obtain ⟨server, found, alive⟩ := (mem_liveServers_of_few few i).mp inside
    rw [none server (List.mem_of_getElem? found)] at alive
    cases alive

/-- **The account of an update that ends.** -/
theorem accounted_of_update {result : Int × NcServerPool} (clock : 0 ≤ now)
    (few : pool.server.length < 2 ^ 31) (updates : random_update now pool = some result) :
    result.1 = NC_OK ∧ Accounted now pool result.2 := by
  rcases random_update_cases updates with
    ⟨noClock, -⟩ | ⟨-, -, ⟨none, rfl⟩ | ⟨some, large, after, grows, fills, rfl⟩⟩
  · omega
  · refine ⟨rfl, .of_slots clock few ⟨rfl, rfl, rfl⟩ ?_ ?_ fun _ => rfl⟩
    · rw [none]
      exact Nat.zero_le _
    · rw [none]
      rfl
  · obtain ⟨appended, server, eject, nlive, rebuild⟩ := grown_frame grows
    obtain ⟨-, -, length, room, slots⟩ :=
      filled_spec (liveServers_of_grown clock server eject) appended fills
    obtain ⟨continuum, -, rfl⟩ := Option.map_eq_some_iff.mp fills
    exact ⟨rfl, .of_slots clock few ⟨server, nlive, rebuild⟩ room (take_index room slots)
      fun none => absurd none some⟩

/-- An update ends if the growth loop does, and there is a slot for each live server. -/
theorem update_isSome (few : pool.server.length < 2 ^ 31)
    (room : pool.server.countP (pool.live now) ≤ pool.continuum.length)
    (ends : pool.server.countP (pool.live now) ≤ pool.nserver_continuum ∨
      pool.continuum.length ≤ pool.server.countP (pool.live now) + RANDOM_CONTINUUM_ADDITION)
    (clock : 0 ≤ now) : (random_update now pool).isSome = true := by
  have few' : pool.nserver ≤ 2147483647 := by
    rw [nserver_of_few few]
    omega
  have number : (pool.counted now).nlive_server = pool.server.countP (pool.live now) :=
    counted_nlive.trans (liveServers_length_of_few few)
  have small : (pool.counted now).nlive_server ≤ 2147483647 := by
    rw [counted_nlive]
    exact liveServers_length_le.trans few'
  by_cases dead : liveServers now pool = []
  · rw [random_update_of_dead clock few' dead]
    rfl
  · obtain ⟨large, grows⟩ := grown_isSome small (number ▸ ends)
    obtain ⟨⟨extra, appended⟩, server, eject, -, -⟩ := grown_frame grows
    have enough : (liveServers now large).length ≤ large.continuum.length := by
      rw [liveServers_of_grown clock server eject, liveServers_length_of_few few, appended,
        List.length_append]
      exact Nat.le_add_right_of_le room
    obtain ⟨after, fills⟩ := filled_isSome_iff.mpr enough
    rw [random_update_of_live clock few' dead, grows, Option.bind_some, fills]
    rfl

/-- **Ejection accounting.** With a slot for each live server, an update of fewer than `2 ^ 31` servers
accounts for all of them, and it ends unless its growth loop runs away. -/
theorem ejection_accounting (clock : 0 ≤ now) (few : pool.server.length < 2 ^ 31)
    (room : pool.server.countP (pool.live now) ≤ pool.continuum.length) :
    (∀ result, random_update now pool = some result →
        result.1 = NC_OK ∧ Accounted now pool result.2) ∧
      (pool.server.countP (pool.live now) ≤ pool.nserver_continuum ∨
        pool.continuum.length ≤
          pool.server.countP (pool.live now) + RANDOM_CONTINUUM_ADDITION →
        (random_update now pool).isSome = true) :=
  ⟨fun _ updates => accounted_of_update clock few updates,
    fun ends => update_isSome few room ends clock⟩

/-- An update of two servers, the second of which is live, ends and accounts for both. -/
theorem ejection_accounting_secondLive : ∃ result,
    random_update 50 secondLive.pool = some result ∧ result.1 = NC_OK ∧
      Accounted 50 secondLive.pool result.2 := by
  obtain ⟨accounts, ends⟩ :=
    ejection_accounting (show (0 : Int) ≤ 50 by decide) (show secondLive.pool.server.length < 2 ^ 31 by decide)
      (show secondLive.pool.server.countP (secondLive.pool.live 50) ≤ _ by decide)
  obtain ⟨result, updates⟩ := Option.isSome_iff_exists.mp (ends (Or.inl (by decide)))
  exact ⟨result, updates, accounts result updates⟩

/-- The given number of servers, all of them live, with a slot for each. -/
def crowd (n : Nat) : NcServerPool :=
  { twoServers.pool with
    server := List.replicate n ⟨[], 0, 0, 0⟩
    continuum := List.replicate n NcContinuum.new }

/-- Every server of a crowd is live. -/
theorem crowd_live (n : Nat) : (crowd n).server.countP ((crowd n).live 0) = n := by
  have all : ∀ server ∈ (crowd n).server, (crowd n).live 0 server = true := by
    intro server inside
    rw [List.eq_of_mem_replicate inside]
    rfl
  rw [List.countP_eq_length.mpr all]
  exact List.length_replicate

/-- A multiple of `2 ^ 32` servers counts as none. -/
theorem crowd_update {n : Nat} (wraps : n % 2 ^ 32 = 0) :
    random_update 0 (crowd n) = some (NC_OK, (crowd n).counted 0) ∧
      ((crowd n).counted 0).nlive_server = 0 := by
  have none : (crowd n).nserver = 0 := by
    unfold nserver
    rw [show (crowd n).server.length = n from List.length_replicate, wraps]
  have number : ((crowd n).counted 0).nlive_server = 0 := by
    have counted : (liveServers 0 (crowd n)).length ≤ (crowd n).nserver := liveServers_length_le
    rw [none] at counted
    exact counted_nlive.trans (Nat.le_zero.mp counted)
  refine ⟨?_, number⟩
  unfold random_update
  rw [if_neg (by omega), none, if_neg (by omega), if_pos number]

/-- **`2 ^ 32` servers are none for the `uint32_t` that counts them.** -/
theorem wrapped_account :
    ¬ ∀ (now : Int) (pool : NcServerPool), 0 ≤ now →
      pool.server.countP (pool.live now) ≤ pool.continuum.length →
      ∀ result, random_update now pool = some result → Accounted now pool result.2 := by
  intro claimed
  obtain ⟨update, number⟩ := crowd_update (n := 2 ^ 32) rfl
  have room : (crowd (2 ^ 32)).server.countP ((crowd (2 ^ 32)).live 0)
      ≤ (crowd (2 ^ 32)).continuum.length := by
    rw [crowd_live]
    exact Nat.le_of_eq List.length_replicate.symm
  have account := claimed 0 (crowd (2 ^ 32)) (Int.le_refl 0) room _ update
  have nlive := account.nlive
  rw [crowd_live] at nlive
  exact absurd (number.symm.trans nlive) (by decide)

end NcServerPool

end Nutcracker
