/-
**How far does the continuum grow?**

The growth loop counts up to `ncontinuum - pool->continuum.size()`, and each turn makes that smaller by
one. So it stops half way, while `nserver_continuum` records the whole size, and later updates that fit
the recorded size grow nothing.

* `update_inside_iff` — an update writes only slots of the continuum up to 11 live servers more than
  its size if it grows, and up to its size if it does not.
* `continuum_bounds` — so on all runs **an update meets its bounds exactly when the continuum has a
  slot for each live server already**.
* `twelve_outside` — twelve servers are too many for the first update, and one is too few.
-/

import Nutcracker.HashKit.Ejection

namespace Nutcracker

open Lib

namespace NcServerPool

/-! ### One update -/

section Update

variable {now : Int} {pool : NcServerPool}

/-- What an update leaves of the continuum's size, if there are enough slots after the growth. -/
theorem random_update_size (clock : 0 ≤ now) (small : pool.nserver ≤ 2147483647)
    (sized : pool.continuum.length ≤ pool.nserver_continuum) :
    let need := (liveServers now pool).length
    let size := if pool.nserver_continuum < need then
      pool.continuum.length + (need + 11 - pool.continuum.length) / 2 else pool.continuum.length
    ((random_update now pool).isSome = true ↔ need ≤ size) ∧
      ∀ result, random_update now pool = some result →
        result.2.nlive_server = need ∧ result.2.continuum.length = size ∧
          result.2.nserver_continuum =
            if pool.nserver_continuum < need then need + 10 else pool.nserver_continuum := by
  dsimp only
  have few : (pool.counted now).nlive_server ≤ 2147483647 := by
    rw [counted_nlive]
    exact liveServers_length_le.trans small
  by_cases found : liveServers now pool = []
  · rw [random_update_of_dead clock small found, found]
    refine ⟨⟨fun _ => Nat.zero_le _, fun _ => rfl⟩, fun result same => ?_⟩
    have none : ¬ pool.nserver_continuum < ([] : List Nat).length := Nat.not_lt_zero _
    rw [← Option.some.inj same, if_neg none, if_neg none]
    refine ⟨?_, rfl, rfl⟩
    rw [counted_nlive, found]
  -- the pool that the last loop fills
  have filling (large : NcServerPool) (grows : (pool.counted now).grown = some large)
      (server : large.server = (pool.counted now).server)
      (eject : large.auto_eject_hosts = pool.auto_eject_hosts) :
      ((random_update now pool).isSome = true ↔
          (liveServers now pool).length ≤ large.continuum.length) ∧
        ∀ result, random_update now pool = some result →
          result.2.nlive_server = large.nlive_server ∧
            result.2.continuum.length = large.continuum.length ∧
            result.2.nserver_continuum = large.nserver_continuum := by
    have whole : random_update now pool = (large.filled now).map fun after => (NC_OK, after) := by
      rw [random_update_of_live clock small found, grows, Option.bind_some]
    rw [← liveServers_of_grown clock server eject, ← filled_isSome_iff, whole, Option.isSome_map,
      Option.isSome_iff_exists]
    refine ⟨Iff.rfl, fun result same => ?_⟩
    obtain ⟨after, fills, rfl⟩ := Option.map_eq_some_iff.mp same
    obtain ⟨continuum, written, rfl⟩ := Option.map_eq_some_iff.mp fills
    exact ⟨rfl, (fill_spec _ 0 0 _ _ written).1, rfl⟩
  have number : (pool.counted now).nlive_server = (liveServers now pool).length := counted_nlive
  by_cases short : pool.nserver_continuum < (liveServers now pool).length
  · have room : pool.continuum.length ≤ (liveServers now pool).length + RANDOM_CONTINUUM_ADDITION := by
      unfold RANDOM_CONTINUUM_ADDITION
      omega
    have grows := grown_half few (number ▸ room) (number ▸ short)
    obtain ⟨inside, leaves⟩ := filling _ grows rfl rfl
    have size : ((pool.counted now).continuum ++ List.replicate
        (((pool.counted now).nlive_server + 11 - (pool.counted now).continuum.length) / 2)
        NcContinuum.new).length = pool.continuum.length +
          ((liveServers now pool).length + 11 - pool.continuum.length) / 2 := by
      rw [List.length_append, List.length_replicate, number]
      rfl
    rw [if_pos short, if_pos short]
    refine ⟨inside.trans (iff_of_eq (congrArg _ size)), fun result same => ?_⟩
    obtain ⟨nlive, length, recorded⟩ := leaves result same
    exact ⟨nlive.trans number, length.trans size, recorded.trans (congrArg (· + 10) number)⟩
  · have fits : ¬ (pool.counted now).nlive_server > (pool.counted now).nserver_continuum := by
      rw [number]
      exact short
    have grows : (pool.counted now).grown = some (pool.counted now) := if_neg fits
    obtain ⟨inside, leaves⟩ := filling _ grows rfl rfl
    rw [if_neg short, if_neg short]
    refine ⟨inside, fun result same => ?_⟩
    obtain ⟨nlive, length, recorded⟩ := leaves result same
    exact ⟨nlive.trans number, length, recorded⟩

end Update

/-! ### Runs -/

/-- The servers get these retry times. -/
def retrying (retry : Nat → Int) (pool : NcServerPool) : NcServerPool :=
  { pool with
    server := pool.server.mapIdx fun i server => { server with m_next_retry := retry i } }

/-- The runs of updates, with any retry times at each, from a pool without a continuum. -/
def updateRuns : System NcServerPool ((Nat → Int) × Int) where
  init pool := pool.continuum = [] ∧ pool.nserver_continuum = 0
  step pool event after :=
    (random_update event.2 (pool.retrying event.1)).map Prod.snd = some after

/-- **The bounds of an update**: it has a result, so it indexes no slot outside the continuum, and if
the continuum grows, it has the size that is recorded. -/
structure Bounded (now : Int) (pool : NcServerPool) : Prop where
  inside : (random_update now pool).isSome = true
  grown : ∀ result, random_update now pool = some result →
    result.2.continuum.length ≠ pool.continuum.length →
    result.2.continuum.length = result.2.nlive_server + RANDOM_CONTINUUM_ADDITION ∧
      result.2.nserver_continuum = result.2.nlive_server + RANDOM_CONTINUUM_ADDITION

/-- On all runs the size is not above the recorded size. -/
theorem sized_run {pool : NcServerPool} (reached : updateRuns.Reach pool) :
    pool.continuum.length ≤ pool.nserver_continuum := by
  refine reached.invariant (I := fun pool => pool.continuum.length ≤ pool.nserver_continuum)
    (fun pool (initial : pool.continuum = [] ∧ pool.nserver_continuum = 0) => ?_)
    fun pool event after _ sized step => ?_
  · rw [initial.1]
    exact Nat.zero_le _
  · obtain ⟨result, updates, rfl⟩ := Option.map_eq_some_iff.mp step
    by_cases clock : event.2 < 0
    · rw [random_update_of_no_clock clock] at updates
      rw [← Option.some.inj updates]
      exact sized
    · have updated : Updated (liveServers event.2 (pool.retrying event.1)) (pool.retrying event.1)
          result.2 :=
        random_update_spec (by omega) sized updates
      exact updated.sized

/-- **Where an update stays inside the continuum.** -/
theorem update_inside_iff {now : Int} {pool : NcServerPool}
    (sized : pool.continuum.length ≤ pool.nserver_continuum) :
    (random_update now pool).isSome = true ↔ now < 0 ∨ pool.nserver ≤ 2147483647 ∧
      ((liveServers now pool).length ≤ pool.continuum.length ∨
        pool.nserver_continuum < (liveServers now pool).length ∧
          (liveServers now pool).length ≤ pool.continuum.length + 11) := by
  by_cases clock : now < 0
  · rw [random_update_of_no_clock clock]
    exact iff_of_true rfl (Or.inl clock)
  by_cases small : pool.nserver ≤ 2147483647
  · rw [(random_update_size (by omega) small sized).1]
    split
    next short => omega
    next fits => omega
  · rw [random_update_of_many (Int.not_lt.mp clock) (Nat.not_le.mp small)]
    exact iff_of_false Bool.false_ne_true (by omega)

/-- **Continuum bounds.** In every state of every run the next update, with any retry times, stays
inside the continuum and grows it to the recorded size exactly when it cannot read the clock, or an
`int` can count the servers and the continuum has a slot for each live one. If it grows the continuum,
then by half of the slots that are missing. -/
theorem continuum_bounds {pool : NcServerPool} (reached : updateRuns.Reach pool)
    (retry : Nat → Int) (now : Int) :
    let next := pool.retrying retry
    let need := (liveServers now next).length
    (Bounded now next ↔
      now < 0 ∨ next.nserver ≤ 2147483647 ∧ need ≤ pool.continuum.length) ∧
    ((random_update now next).isSome = true ↔ now < 0 ∨ next.nserver ≤ 2147483647 ∧
      (need ≤ pool.continuum.length ∨
        pool.nserver_continuum < need ∧ need ≤ pool.continuum.length + 11)) ∧
    (0 ≤ now → next.nserver ≤ 2147483647 → pool.nserver_continuum < need →
      ∀ result, random_update now next = some result →
        result.2.continuum.length =
            pool.continuum.length + (need + 11 - pool.continuum.length) / 2 ∧
          result.2.nserver_continuum = need + RANDOM_CONTINUUM_ADDITION) := by
  dsimp only
  have sized : (pool.retrying retry).continuum.length ≤ (pool.retrying retry).nserver_continuum := by
    show pool.continuum.length ≤ pool.nserver_continuum
    exact sized_run reached
  have inside_iff := @update_inside_iff now _ sized
  refine ⟨⟨fun bounded => ?_, fun fits => ⟨inside_iff.mpr ?_, fun result updates grew => ?_⟩⟩,
    inside_iff, fun clock small short result updates => ?_⟩
  · -- an update that grows the continuum leaves it below the recorded size
    rcases inside_iff.mp bounded.inside with noClock | ⟨small, room | ⟨short, near⟩⟩
    · exact Or.inl noClock
    · exact Or.inr ⟨small, room⟩
    · by_cases clock : now < 0
      · exact Or.inl clock
      obtain ⟨result, updates⟩ := Option.isSome_iff_exists.mp bounded.inside
      obtain ⟨nlive, size, -⟩ := (random_update_size (by omega) small sized).2 result updates
      rw [if_pos short] at size
      have full := (bounded.grown result updates (by omega)).1
      unfold RANDOM_CONTINUUM_ADDITION at full
      omega
  · rcases fits with noClock | ⟨small, room⟩
    · exact Or.inl noClock
    · exact Or.inr ⟨small, Or.inl room⟩
  · rcases fits with noClock | ⟨small, room⟩
    · rw [random_update_of_no_clock noClock] at updates
      rw [← Option.some.inj updates] at grew
      exact absurd rfl grew
    · by_cases clock : now < 0
      · rw [random_update_of_no_clock clock] at updates
        rw [← Option.some.inj updates] at grew
        exact absurd rfl grew
      obtain ⟨-, size, -⟩ := (random_update_size (by omega) small sized).2 result updates
      rw [if_neg (Nat.not_lt.mpr (room.trans sized))] at size
      exact absurd size grew
  · obtain ⟨-, size, recorded⟩ := (random_update_size clock small sized).2 result updates
    have short' : (pool.retrying retry).nserver_continuum <
        (liveServers now (pool.retrying retry)).length := short
    rw [if_pos short'] at size recorded
    exact ⟨size, recorded⟩

/-- The given number of servers before the first update. -/
def fresh (n : Nat) : NcServerPool :=
  { twoServers.pool with server := List.replicate n ⟨[], 0, 0, 0⟩ }

theorem reach_fresh (n : Nat) : updateRuns.Reach (fresh n) := .start ⟨rfl, rfl⟩

/-- Only the server 0 is live until the time 100. -/
def firstOnly (i : Nat) : Int := if i = 0 then 0 else 100

/-- Six servers after an update that found only the first of them: there are six slots. -/
def sixSlots : NcServerPool :=
  { (fresh 6).retrying firstOnly with
    nlive_server := 1
    next_rebuild := 100
    nserver_continuum := 11
    continuum := List.replicate 6 NcContinuum.new }

theorem reach_sixSlots : updateRuns.Reach sixSlots := by
  have step : (random_update 50 ((fresh 6).retrying firstOnly)).map Prod.snd = some sixSlots := by
    decide
  exact (reach_fresh 6).next (a := (firstOnly, 50)) step

theorem continuum_bounds_sixSlots : Bounded 100 (sixSlots.retrying firstOnly) :=
  (continuum_bounds reach_sixSlots firstOnly 100).1.mpr (Or.inr ⟨by decide, by decide⟩)

/-- **Twelve servers are too many for the first update**, which writes the slot 11 of 11, **and one
server gets six slots where eleven are recorded.** -/
theorem twelve_outside :
    (updateRuns.Reach (fresh 12) ∧
      random_update 0 ((fresh 12).retrying fun _ => 0) = none ∧
      ¬ Bounded 0 ((fresh 12).retrying fun _ => 0)) ∧
    updateRuns.Reach (fresh 1) ∧ ¬ Bounded 0 ((fresh 1).retrying fun _ => 0) := by
  have outside : random_update 0 ((fresh 12).retrying fun _ => 0) = none := by decide
  refine ⟨⟨reach_fresh 12, outside, fun bounded => ?_⟩, reach_fresh 1, fun bounded => ?_⟩
  · have inside := bounded.inside
    rw [outside] at inside
    cases inside
  · have size := (bounded.grown _ rfl (by decide)).1
    exact absurd size (by decide)

end NcServerPool

end Nutcracker
