/-
**Which server is drawn?**

`dispatch` draws from the whole continuum, by its size. Its first slots belong to the servers that the
last update counted as live; the others keep what an earlier update wrote there, or the index `0` they
were made with. Before the first update that finds a live server the continuum is empty.

* `random_update_spec` — what an update leaves in the slots.
* `Drawn.run` — on all runs a slot holds what the latest update that reached it wrote there.
* `dispatch_live_iff` — **when `dispatch` is defined, and when it returns a live server**.
* `dispatch_ejected` — a draw before the first update, and a draw of a slot no update has reached.
-/

import Nutcracker.HashKit.Model
import Nutcracker.Lib.Runs

namespace Nutcracker

open Lib

namespace NcServerPool

/-! ### One update -/

/-- An update that counts the servers `live` turns `pool` into `after`. -/
structure Updated (live : List Nat) (pool after : NcServerPool) : Prop where
  dist_type : after.dist_type = pool.dist_type
  sized : after.continuum.length ≤ after.nserver_continuum
  small : pool.continuum.length ≤ 2 ^ 31 + 9 → after.continuum.length ≤ 2 ^ 31 + 9
  grew : pool.continuum.length ≤ after.continuum.length
  empty : live = [] → after.continuum = pool.continuum
  room : live.length ≤ after.continuum.length
  slots : ∀ slot < after.continuum.length, (after.continuum[slot]?).map NcContinuum.index =
    (live[slot]?).or (((pool.continuum[slot]?).map NcContinuum.index).or (some 0))

variable {now : Int} {pool : NcServerPool}

theorem liveFrom_length_le (auto_eject_hosts : Bool) (servers : List NcServer) (i : Nat) :
    (liveFrom auto_eject_hosts now servers i).length ≤ servers.length := by
  induction servers generalizing i with
  | nil => exact Nat.le_refl 0
  | cons server rest ih =>
      unfold liveFrom
      split
      · exact (ih (i + 1)).trans (Nat.le_succ _)
      · exact Nat.succ_le_succ (ih (i + 1))

theorem liveServers_length_le : (liveServers now pool).length ≤ pool.nserver :=
  (liveFrom_length_le ..).trans (List.length_take_le ..)

theorem counted_nlive : (pool.counted now).nlive_server = (liveServers now pool).length :=
  (countLive_count _ 0 0 0).trans (Nat.zero_add _)

theorem counted_length : (pool.counted now).server.length = pool.server.length := by
  have within : pool.nserver ≤ pool.server.length := Nat.mod_le ..
  show (_ ++ _ : List NcServer).length = _
  rw [List.length_append, countLive_length, List.length_drop, List.length_take_of_le within]
  omega

theorem take_nserver_counted :
    (pool.counted now).server.take (pool.counted now).nserver =
      (countLive pool.auto_eject_hosts now (pool.server.take pool.nserver) 0 0).1 := by
  have same : (pool.counted now).nserver = pool.nserver := congrArg (· % 2 ^ 32) counted_length
  have counted : (countLive pool.auto_eject_hosts now (pool.server.take pool.nserver) 0 0).1.length =
      pool.nserver := by
    have within : pool.nserver ≤ pool.server.length := Nat.mod_le ..
    rw [countLive_length, List.length_take_of_le within]
  rw [same]
  exact List.take_left' counted

/-- The live servers are the same for the last loop. -/
theorem liveServers_of_grown {large : NcServerPool} (clock : 0 ≤ now)
    (server : large.server = (pool.counted now).server)
    (eject : large.auto_eject_hosts = pool.auto_eject_hosts) :
    liveServers now large = liveServers now pool := by
  have size : large.nserver = (pool.counted now).nserver := by
    unfold nserver
    rw [server]
  unfold liveServers
  rw [eject, server, size, take_nserver_counted]
  exact liveFrom_countLive clock _ 0 0 0

theorem random_update_of_no_clock (noClock : now < 0) :
    random_update now pool = some (NC_ERROR, pool) := by
  unfold random_update
  rw [if_pos noClock]

theorem random_update_of_many (clock : 0 ≤ now) (many : pool.nserver > 2147483647) :
    random_update now pool = none := by
  unfold random_update
  rw [if_neg (by omega), if_pos many]

theorem random_update_of_dead (clock : 0 ≤ now) (small : pool.nserver ≤ 2147483647)
    (none : liveServers now pool = []) :
    random_update now pool = some (NC_OK, pool.counted now) := by
  have dead : (pool.counted now).nlive_server = 0 := by
    rw [counted_nlive, none]
    rfl
  unfold random_update
  rw [if_neg (by omega), if_neg (by omega), if_pos dead]

/-- An update that finds a live server is the growth and the last loop. -/
theorem random_update_of_live (clock : 0 ≤ now) (small : pool.nserver ≤ 2147483647)
    (found : liveServers now pool ≠ []) :
    random_update now pool =
      (((pool.counted now).grown).bind (filled now)).map fun after => (NC_OK, after) := by
  have alive : (pool.counted now).nlive_server ≠ 0 := by
    rw [counted_nlive]
    exact fun none => found (List.eq_nil_of_length_eq_zero none)
  unfold random_update
  rw [if_neg (by omega), if_neg (by omega), if_neg alive]

/-- **What an update does**: it cannot read the clock, it finds no live server, or it grows the
continuum and fills it. -/
theorem random_update_cases {result : Int × NcServerPool}
    (updates : random_update now pool = some result) :
    (now < 0 ∧ result = (NC_ERROR, pool)) ∨
      0 ≤ now ∧ pool.nserver ≤ 2147483647 ∧
        ((liveServers now pool = [] ∧ result = (NC_OK, pool.counted now)) ∨
          (liveServers now pool ≠ [] ∧ ∃ large after, (pool.counted now).grown = some large ∧
            large.filled now = some after ∧ result = (NC_OK, after))) := by
  by_cases noClock : now < 0
  · rw [random_update_of_no_clock noClock] at updates
    exact Or.inl ⟨noClock, (Option.some.inj updates).symm⟩
  have clock : 0 ≤ now := Int.not_lt.mp noClock
  by_cases many : pool.nserver > 2147483647
  · rw [random_update_of_many clock many] at updates
    cases updates
  have small : pool.nserver ≤ 2147483647 := Nat.not_lt.mp many
  refine Or.inr ⟨clock, small, ?_⟩
  by_cases none : liveServers now pool = []
  · rw [random_update_of_dead clock small none] at updates
    exact Or.inl ⟨none, (Option.some.inj updates).symm⟩
  · rw [random_update_of_live clock small none] at updates
    obtain ⟨after, both, last⟩ := Option.map_eq_some_iff.mp updates
    obtain ⟨large, grows, fills⟩ := Option.bind_eq_some_iff.mp both
    exact Or.inr ⟨none, large, after, grows, fills, last.symm⟩

/-- The growth of a continuum that has fewer slots than it should. -/
theorem grown_half (few : pool.nlive_server ≤ 2147483647)
    (room : pool.continuum.length ≤ pool.nlive_server + RANDOM_CONTINUUM_ADDITION)
    (short : pool.nlive_server > pool.nserver_continuum) :
    pool.grown = some
      { pool with
        continuum := pool.continuum ++
          List.replicate ((pool.nlive_server + 11 - pool.continuum.length) / 2) NcContinuum.new
        nserver_continuum := pool.nlive_server + RANDOM_CONTINUUM_ADDITION } := by
  have size : (pool.nlive_server + RANDOM_CONTINUUM_ADDITION) % 2 ^ 32
      = pool.nlive_server + RANDOM_CONTINUUM_ADDITION :=
    Nat.mod_eq_of_lt (by unfold RANDOM_CONTINUUM_ADDITION; omega)
  have points : (pool.nlive_server + RANDOM_CONTINUUM_ADDITION) * RANDOM_POINTS_PER_SERVER % 2 ^ 32
      = pool.nlive_server + 10 := by
    rw [show RANDOM_POINTS_PER_SERVER = 1 from rfl, Nat.mul_one, size]
    rfl
  have room' : pool.continuum.length ≤ pool.nlive_server + 10 := room
  have turns : (pool.nlive_server + 10 - pool.continuum.length - 0 + 1) / 2
      = (pool.nlive_server + 11 - pool.continuum.length) / 2 := by
    congr 1
    omega
  unfold grown
  rw [if_pos short]
  dsimp only
  rw [size, points, grow_half (by omega) _ 0 pool.continuum room' (by omega), turns]
  rfl

/-- The growth keeps the slots there are, and appends slots with the index `0`. -/
theorem grown_spec {large : NcServerPool} (live : pool.nlive_server ≤ 2147483647)
    (sized : pool.continuum.length ≤ pool.nserver_continuum) (grows : pool.grown = some large) :
    (∃ extra, large.continuum = pool.continuum ++ List.replicate extra NcContinuum.new) ∧
      large.continuum.length ≤ large.nserver_continuum ∧
      (pool.continuum.length ≤ 2 ^ 31 + 9 → large.continuum.length ≤ 2 ^ 31 + 9) ∧
      (large.dist_type = pool.dist_type ∧ large.server = pool.server ∧
        large.auto_eject_hosts = pool.auto_eject_hosts) := by
  by_cases short : pool.nlive_server > pool.nserver_continuum
  · have room : pool.continuum.length ≤ pool.nlive_server + 10 := by omega
    rw [grown_half live room short] at grows
    rw [← Option.some.inj grows]
    refine ⟨⟨_, rfl⟩, ?_, fun _ => ?_, rfl, rfl, rfl⟩
    · show (_ ++ _ : List NcContinuum).length ≤ pool.nlive_server + 10
      rw [List.length_append, List.length_replicate]
      omega
    · show (_ ++ _ : List NcContinuum).length ≤ _
      rw [List.length_append, List.length_replicate]
      omega
  · unfold grown at grows
    rw [if_neg short] at grows
    rw [← Option.some.inj grows]
    exact ⟨⟨0, (List.append_nil _).symm⟩, sized, id, rfl, rfl, rfl⟩

/-- The slots after an update that finds a live server. -/
theorem filled_spec {large after : NcServerPool} {live : List Nat}
    (same : liveFrom large.auto_eject_hosts now (large.server.take large.nserver) 0 = live)
    (appended : ∃ extra, large.continuum = pool.continuum ++ List.replicate extra NcContinuum.new)
    (fills : large.filled now = some after) :
    after.dist_type = large.dist_type ∧ after.nserver_continuum = large.nserver_continuum ∧
      after.continuum.length = large.continuum.length ∧
      live.length ≤ after.continuum.length ∧
      ∀ slot < after.continuum.length, (after.continuum[slot]?).map NcContinuum.index =
        (live[slot]?).or (((pool.continuum[slot]?).map NcContinuum.index).or (some 0)) := by
  obtain ⟨continuum, written, final⟩ := Option.map_eq_some_iff.mp fills
  obtain ⟨length, room, slots⟩ := fill_spec _ 0 0 _ _ written
  rw [same] at room slots
  have first := room (Nat.zero_le _)
  rw [Nat.zero_add, ← length] at first
  rw [← final]
  refine ⟨rfl, rfl, length, first, fun slot inside => ?_⟩
  have inside' : slot < large.continuum.length := length ▸ inside
  show (continuum[slot]?).map _ = _
  rw [slots slot, if_neg (Nat.not_lt_zero slot), Nat.sub_zero]
  congr 1
  -- a slot of the grown continuum: an old one, or a new one with the index 0
  obtain ⟨extra, appended⟩ := appended
  rw [appended, List.length_append, List.length_replicate] at inside'
  rw [appended, List.getElem?_append]
  by_cases present : slot < pool.continuum.length
  · rw [if_pos present, List.getElem?_eq_getElem present]
    rfl
  · rw [if_neg present, List.getElem?_eq_none (show pool.continuum.length ≤ slot by omega),
      List.getElem?_replicate_of_lt (by omega)]
    rfl

/-- **An update that reads the clock writes the live servers into the first slots.** -/
theorem random_update_spec {result : Int × NcServerPool} (clock : 0 ≤ now)
    (sized : pool.continuum.length ≤ pool.nserver_continuum)
    (updates : random_update now pool = some result) :
    Updated (liveServers now pool) pool result.2 := by
  rcases random_update_cases updates with
    ⟨noClock, -⟩ | ⟨-, many, ⟨none, rfl⟩ | ⟨found, large, after, grows, fills, rfl⟩⟩
  · omega
  · rw [none]
    refine ⟨rfl, sized, id, Nat.le_refl _, fun _ => rfl, Nat.zero_le _, fun slot inside => ?_⟩
    show (pool.continuum[slot]?).map _ = _
    rw [List.getElem?_eq_getElem (show slot < pool.continuum.length from inside)]
    rfl
  · have bound : (pool.counted now).nlive_server ≤ 2147483647 := by
      rw [counted_nlive]
      exact liveServers_length_le.trans many
    obtain ⟨appended, sized', small, dist, server, eject⟩ := grown_spec bound sized grows
    obtain ⟨dist', size, length, room, slots⟩ :=
      filled_spec (liveServers_of_grown clock server eject) appended fills
    refine ⟨dist'.trans dist, ?_, fun fits => length.trans_le (small fits), ?_, ?_, room, slots⟩
    · rw [length, size]
      exact sized'
    · obtain ⟨extra, appended⟩ := appended
      rw [length, appended, List.length_append]
      exact Nat.le_add_right ..
    · exact fun none => absurd none found

/-! ### Runs -/

/-- A pool, and the live servers that each update counted, last first. -/
structure Pooled where
  pool : NcServerPool
  history : List (List Nat)

/-- An update, or a `failure()` of the server at the index `i`, with the clock readings they make. -/
inductive PoolEvent where
  | update (now : Int)
  | failure (i : Nat) (now later : Int)

/-- An update that cannot read the clock counts nothing. -/
def Pooled.update (now : Int) (s : Pooled) : Option Pooled :=
  (random_update now s.pool).map fun result =>
    ⟨result.2, if now < 0 then s.history else liveServers now s.pool :: s.history⟩

def Pooled.failure (i : Nat) (now later : Int) (s : Pooled) : Option Pooled :=
  (s.pool.noted i now).bind fun after =>
    if after.2 then Pooled.update later ⟨after.1, s.history⟩ else some ⟨after.1, s.history⟩

def Pooled.step (s : Pooled) : PoolEvent → Option Pooled
  | .update now => s.update now
  | .failure i now later => s.failure i now later

/-- The runs of updates and `failure()` calls, from a pool whose continuum is empty. -/
def poolRuns : System Pooled PoolEvent where
  init s := s.pool.continuum = [] ∧ s.history = []
  step s event s' := s.step event = some s'

theorem Pooled.pool_update (now : Int) (s : Pooled) :
    (s.update now).map Pooled.pool = (random_update now s.pool).map Prod.snd :=
  Option.map_map ..

/-- The history is only a record: the pool of a run goes through `failure()`. -/
theorem Pooled.pool_failure (i : Nat) (now later : Int) (s : Pooled) :
    (s.failure i now later).map Pooled.pool = s.pool.failure i now later := by
  unfold Pooled.failure NcServerPool.failure
  rw [Option.map_bind]
  congr 1
  funext after
  show (if _ then _ else _ : Option Pooled).map _ = _
  by_cases updates : after.2 = true
  · rw [if_pos updates, if_pos updates, Pooled.pool_update]
  · rw [if_neg updates, if_neg updates]
    rfl

/-- The index in a slot: the latest update that reached it wrote it, and it is 0 if none did. -/
def slotIndex : List (List Nat) → Nat → Nat
  | [], _ => 0
  | live :: older, slot => (live[slot]?).getD (slotIndex older slot)

theorem slotIndex_unreached {history : List (List Nat)} {slot : Nat}
    (short : ∀ live ∈ history, live.length ≤ slot) : slotIndex history slot = 0 := by
  induction history with
  | nil => rfl
  | cons live older ih =>
      unfold slotIndex
      rw [List.getElem?_eq_none (short live List.mem_cons_self), Option.getD_none]
      exact ih fun live' member => short live' (List.mem_cons_of_mem _ member)

/-- **What holds of the continuum on all runs.** -/
structure Drawn (s : Pooled) : Prop where
  sized : s.pool.continuum.length ≤ s.pool.nserver_continuum
  small : s.pool.continuum.length ≤ 2 ^ 31 + 9
  reached : ∀ live ∈ s.history, live.length ≤ s.pool.continuum.length
  empty : (∀ live ∈ s.history, live = []) → s.pool.continuum = []
  slots : ∀ slot < s.pool.continuum.length,
    (s.pool.continuum[slot]?).map NcContinuum.index = some (slotIndex s.history slot)

theorem Drawn.of_continuum {s : Pooled} {p : NcServerPool} (drawn : Drawn s)
    (continuum : p.continuum = s.pool.continuum)
    (size : p.nserver_continuum = s.pool.nserver_continuum) : Drawn ⟨p, s.history⟩ := by
  refine ⟨?_, ?_, ?_, ?_, ?_⟩
  · show p.continuum.length ≤ p.nserver_continuum
    rw [continuum, size]
    exact drawn.sized
  · show p.continuum.length ≤ _
    rw [continuum]
    exact drawn.small
  · show ∀ live ∈ s.history, live.length ≤ p.continuum.length
    rw [continuum]
    exact drawn.reached
  · show _ → p.continuum = []
    rw [continuum]
    exact drawn.empty
  · show ∀ slot < p.continuum.length, (p.continuum[slot]?).map _ = _
    rw [continuum]
    exact drawn.slots

theorem Drawn.start {s : Pooled} (initial : poolRuns.init s) : Drawn s := by
  have length : s.pool.continuum.length = 0 := congrArg List.length initial.1
  refine ⟨by omega, by omega, ?_, fun _ => initial.1, fun slot inside => by omega⟩
  rw [initial.2]
  exact nofun

theorem Drawn.update {s s' : Pooled} (drawn : Drawn s) (step : s.update now = some s') :
    Drawn s' := by
  obtain ⟨result, updates, final⟩ := Option.map_eq_some_iff.mp step
  rw [← final]
  by_cases clock : now < 0
  · rw [random_update_of_no_clock clock] at updates
    rw [if_pos clock, ← Option.some.inj updates]
    exact drawn
  rw [if_neg clock]
  have updated := random_update_spec (by omega) drawn.sized updates
  have grew : s.pool.continuum.length ≤ result.2.continuum.length := updated.grew
  refine ⟨updated.sized, updated.small drawn.small, ?_, ?_, ?_⟩
  · intro live member
    rcases List.mem_cons.mp member with rfl | member
    · exact updated.room
    · exact (drawn.reached live member).trans grew
  · intro none
    exact (updated.empty (none _ List.mem_cons_self)).trans
      (drawn.empty fun live member => none live (List.mem_cons_of_mem _ member))
  · intro slot inside
    show (result.2.continuum[slot]?).map _ = some ((_ : Option Nat).getD _)
    rw [updated.slots slot inside]
    have old : ((s.pool.continuum[slot]?).map NcContinuum.index).or (some 0)
        = some (slotIndex s.history slot) := by
      by_cases present : slot < s.pool.continuum.length
      · rw [drawn.slots slot present]
        rfl
      · rw [List.getElem?_eq_none (by omega), slotIndex_unreached]
        · rfl
        · exact fun live member => (drawn.reached live member).trans (by omega)
    rw [old]
    cases (liveServers now s.pool)[slot]? with
    | none => rfl
    | some i => rfl

/-- The pool with this server at the index `i`. -/
def withServer (i : Nat) (server : NcServer) (pool : NcServerPool) : NcServerPool :=
  { pool with server := pool.server.set i server }

@[simp] theorem withServer_length (i : Nat) (server : NcServer) (pool : NcServerPool) :
    (pool.withServer i server).server.length = pool.server.length := List.length_set

/-- The server at an index, and the others. -/
theorem withServer_getElem? {i : Nat} {old : NcServer} (present : pool.server[i]? = some old)
    (server : NcServer) (j : Nat) :
    (pool.withServer i server).server[j]? = if j = i then some server else pool.server[j]? := by
  have inside := (List.getElem?_eq_some_iff.mp present).1
  show (pool.server.set i server)[j]? = _
  by_cases here : j = i
  · rw [if_pos here, here, List.getElem?_set_self inside]
  · rw [if_neg here, List.getElem?_set_ne (Ne.symm here)]

/-- A call of `failure()` is an update of the pool it notes, or no update. -/
theorem Pooled.failure_cases {s s' : Pooled} {i : Nat} {now later : Int}
    (step : s.failure i now later = some s') :
    ∃ server, s.pool.server[i]? = some server ∧
      (((noteFailure now s.pool server).2 = true ∧
          Pooled.update later ⟨s.pool.withServer i (noteFailure now s.pool server).1, s.history⟩ =
            some s') ∨
        ((noteFailure now s.pool server).2 = false ∧
          s' = ⟨s.pool.withServer i (noteFailure now s.pool server).1, s.history⟩)) := by
  obtain ⟨after, noted, step⟩ := Option.bind_eq_some_iff.mp step
  obtain ⟨server, present, rfl⟩ := Option.map_eq_some_iff.mp noted
  refine ⟨server, present, ?_⟩
  by_cases updates : (noteFailure now s.pool server).2 = true
  · rw [if_pos updates] at step
    exact Or.inl ⟨updates, step⟩
  · rw [if_neg updates] at step
    exact Or.inr ⟨Bool.not_eq_true _ ▸ updates, (Option.some.inj step).symm⟩

theorem Drawn.failure {s s' : Pooled} {i : Nat} {now later : Int} (drawn : Drawn s)
    (step : s.failure i now later = some s') : Drawn s' := by
  obtain ⟨server, -, ⟨-, step⟩ | ⟨-, rfl⟩⟩ := Pooled.failure_cases step
  · exact (drawn.of_continuum (p := s.pool.withServer i _) rfl rfl).update step
  · exact drawn.of_continuum (p := s.pool.withServer i _) rfl rfl

theorem Drawn.run {s : Pooled} (reached : poolRuns.Reach s) : Drawn s := by
  refine reached.invariant (fun s initial => .start initial) fun s event s' _ drawn step => ?_
  cases event with
  | update now => exact drawn.update step
  | failure i now later => exact drawn.failure step

/-! ### The draw -/

/-- A draw from the empty continuum divides by zero. -/
theorem randomSlot_zero (random : Nat) : randomSlot random 0 = none := by
  unfold randomSlot
  exact if_pos Int.zero_bmod

theorem dispatch_empty {random : Nat} (dist : pool.dist_type = kDIST_RANDOM)
    (empty : pool.continuum = []) : pool.dispatch random = none := by
  unfold dispatch
  rw [if_pos dist, empty, List.length_nil, randomSlot_zero, Option.bind_none]

/-- The draw lands in the continuum, unless that is empty. -/
theorem randomSlot_spec (random : Nat) {size : Nat} (small : size ≤ 2 ^ 31 + 9) (nonempty : size ≠ 0) :
    ∃ slot, randomSlot random size = some slot ∧ slot < size := by
  have wraps : Int.bmod size (2 ^ 32) ≠ 0 ∧ (Int.bmod size (2 ^ 32)).natAbs ≤ size := by
    rw [Int.bmod_def]
    split <;> omega
  have draws : randomSlot random size = some (Int.tmod random (Int.bmod size (2 ^ 32))).toNat := by
    unfold randomSlot
    exact if_neg wraps.1
  refine ⟨_, draws, ?_⟩
  generalize Int.bmod size (2 ^ 32) = ncontinuum at wraps
  have nonneg := Int.tmod_nonneg ncontinuum (Int.natCast_nonneg random)
  have below : (Int.tmod random ncontinuum).natAbs < ncontinuum.natAbs := by
    rw [Int.natAbs_tmod]
    exact Nat.mod_lt _ (Int.natAbs_pos.mpr wraps.1)
  omega

/-- **Dispatching on all runs.** A draw is defined exactly when some update has found a live server.
When the last update has, a draw returns one of its live servers exactly when it names one of the
slots that update wrote, or a left-over slot with the index of a live server. -/
theorem dispatch_live_iff {s : Pooled} (reached : poolRuns.Reach s)
    (dist : s.pool.dist_type = kDIST_RANDOM) (random : Nat) :
    ((s.pool.dispatch random).isSome = true ↔ ∃ live ∈ s.history, live ≠ []) ∧
      ∀ last older, s.history = last :: older → last ≠ [] →
        ∃ slot, randomSlot random s.pool.continuum.length = some slot ∧
          ((∃ i ∈ last, s.pool.dispatch random = some i) ↔
            slot < last.length ∨ slotIndex older slot ∈ last) := by
  have drawn := Drawn.run reached
  have draw (slot : Nat) (draws : randomSlot random s.pool.continuum.length = some slot)
      (inside : slot < s.pool.continuum.length) :
      s.pool.dispatch random = some (slotIndex s.history slot) := by
    unfold dispatch
    rw [if_pos dist, draws, Option.bind_some]
    exact drawn.slots slot inside
  have nonempty (live : List Nat) (member : live ∈ s.history) (found : live ≠ []) :
      s.pool.continuum.length ≠ 0 := by
    have := drawn.reached live member
    have := List.length_pos_of_ne_nil found
    omega
  refine ⟨⟨fun defined => ?_, ?_⟩, ?_⟩
  · by_contra none
    have empty := drawn.empty fun live member => by
      by_contra found
      exact none ⟨live, member, found⟩
    rw [dispatch_empty dist empty] at defined
    exact Bool.false_ne_true defined
  · rintro ⟨live, member, found⟩
    obtain ⟨slot, draws, inside⟩ :=
      randomSlot_spec random drawn.small (nonempty live member found)
    rw [draw slot draws inside]
    rfl
  · intro last older history found
    have member : last ∈ s.history := history ▸ List.mem_cons_self
    obtain ⟨slot, draws, inside⟩ :=
      randomSlot_spec random drawn.small (nonempty last member found)
    refine ⟨slot, draws, ?_⟩
    rw [draw slot draws inside, history]
    show (∃ i ∈ last, some ((last[slot]?).getD (slotIndex older slot)) = some i) ↔ _
    by_cases written : slot < last.length
    · rw [List.getElem?_eq_getElem written]
      exact iff_of_true ⟨_, List.getElem_mem written, rfl⟩ (Or.inl written)
    · rw [List.getElem?_eq_none (by omega), Option.getD_none]
      constructor
      · rintro ⟨i, member, same⟩
        exact Or.inr (Option.some.inj same ▸ member)
      · rintro (absurd | member)
        · exact False.elim (written absurd)
        · exact ⟨_, member, rfl⟩

/-- Two servers, the first of them ejected until the time 100, before the first update. -/
def twoServers : Pooled where
  pool :=
    { nc_conn_q := 0
      c_conn_q := []
      server := [⟨[], 0, 100, 0⟩, ⟨[], 0, 0, 0⟩]
      nlive_server := 0
      next_rebuild := 0
      dist_type := kDIST_RANDOM
      server_connections := 1
      server_retry_timeout := 30
      server_failure_limit := 2
      auto_eject_hosts := true
      nserver_continuum := 0
      continuum := [] }
  history := []

/-- They after the update at the time 50: the second server has the first of six slots. -/
def secondLive : Pooled where
  pool :=
    { twoServers.pool with
      nlive_server := 1
      next_rebuild := 100
      nserver_continuum := 11
      continuum := ⟨1, 0⟩ :: List.replicate 5 NcContinuum.new }
  history := [[1]]

theorem reach_twoServers : poolRuns.Reach twoServers := .start ⟨rfl, rfl⟩

theorem reach_secondLive : poolRuns.Reach secondLive :=
  reach_twoServers.next (a := .update 50) rfl

theorem dispatch_live_secondLive :
    ∃ slot, randomSlot 6 secondLive.pool.continuum.length = some slot ∧
      ((∃ i ∈ [1], secondLive.pool.dispatch 6 = some i) ↔ slot < 1 ∨ slotIndex [] slot ∈ [1]) :=
  (dispatch_live_iff reach_secondLive rfl 6).2 [1] [] rfl (List.cons_ne_nil 1 [])

/-- **A draw before the first update divides by zero, and a draw of a slot that no update has reached
returns the server 0, ejected or not.** -/
theorem dispatch_ejected :
    (poolRuns.Reach twoServers ∧ twoServers.pool.dispatch 0 = none) ∧
      poolRuns.Reach secondLive ∧ secondLive.history = [[1]] ∧
      secondLive.pool.dispatch 3 = some 0 :=
  ⟨⟨reach_twoServers, dispatch_empty rfl rfl⟩, reach_secondLive, rfl, by decide +kernel⟩

end NcServerPool

end Nutcracker
