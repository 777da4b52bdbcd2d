/-
**Which accepted configurations can be used?**

`handler` drops what the parsers of the values return, and no check follows: a file is accepted with
any values, and with any pool. Nor does the reader come to all of them: it leaves out the documents after
the first, the aliases, and what its stack takes for something else.

* `handled_iff` — the values that `handler` came to are those that the stream gives.
* `handler_recorded`, `coreTurn_recorded` — a pool has a valid address and a server exactly if
  `handler` came to an accepted value of each.
* `usable_iff` — **so an accepted configuration can be used exactly if every value of the file is given
  to its parser and accepted, and every pool that is named gets one of each**.
* `accepted_unusable` — a pool with a malformed address and no server is accepted.
-/

import Nutcracker.Conf.Rejected
import Nutcracker.Conf.Survive
import Mathlib.Tactic.IntervalCases

namespace Nutcracker

/-- `NcServerPool::setConf`, where `fresh` is what the new servers hold. -/
def NcServerPool.setConf (fresh : Nat → NcServer) (conf : NcConfPool) (pool : NcServerPool) :
    NcServerPool :=
  { pool with
    nlive_server := 0
    next_rebuild := 0
    server_connections := UInt32.ofInt conf.server_connections
    server_retry_timeout := conf.server_retry_timeout * 1000
    server_failure_limit := UInt32.ofInt conf.server_failure_limit
    server := pool.server ++ (List.range conf.server.length).map fresh }

namespace NcConf

variable {libc : Libc} {parser : YamlParser} {cf cf' : NcConf} {data data' : Option Nat}

/-- **The configuration can be used**: every pool has a valid address and a server, every value of the
two keys in the file was parsed and accepted, and a server pool that is set from it never asks for the
server of no servers. -/
structure Usable (libc : Libc) (parser : YamlParser) (cf : NcConf) : Prop where
  listens : ∀ pool ∈ cf.pool, pool.listen.valid = 1
  serves : ∀ pool ∈ cf.pool, pool.server ≠ []
  accepted : ∀ key before event rest, parser.IsValue key before event rest →
    ∃ text data, event = .scalar text ∧ ⟨key, data, .stored text, rest⟩ ∈ cf.handled ∧
      key.Accepts libc (.stored text)
  chooses : ∀ pool ∈ cf.pool, ∀ fresh (sp : NcServerPool), sp.server = [] →
    ∀ idx, (sp.setConf fresh pool).serverFor idx ≠ none

/-- **The file is complete**: every value of the two keys is a scalar that the reader gives to its parser
and that this accepts, and to every pool that is named it gives such a value of each key. -/
structure Complete (libc : Libc) (parser : YamlParser) : Prop where
  accepted : ∀ key before event rest, parser.IsValue key before event rest →
    ∃ text data, event = .scalar text ∧ parser.Gives key data (.stored text) rest ∧
      key.Accepts libc (.stored text)
  filled : ∀ key i, parser.NamesPool i →
    ∃ value rest, parser.Gives key (some i) value rest ∧ key.Accepts libc value

/-! ### What the pools tell about the values -/

/-- Some value of the key, for this pool, was accepted. -/
def Filled (libc : Libc) (handled : List Handled) (key : ConfKey) (i : Nat) : Prop :=
  ∃ called ∈ handled, called.key = key ∧ called.data = some i ∧ key.Accepts libc called.value

theorem filled_cons {called : Handled} {handled : List Handled} {key : ConfKey} {i : Nat} :
    Filled libc (called :: handled) key i ↔
      (called.key = key ∧ called.data = some i ∧ key.Accepts libc called.value) ∨
        Filled libc handled key i := by
  unfold Filled
  rw [List.exists_mem_cons_iff]

/-- **The pools are those of the values**: one is valid exactly if it got an accepted address, and has
a server exactly if it got an accepted one. -/
structure Recorded (libc : Libc) (pool : List NcConfPool) (handled : List Handled)
    (data : Option Nat) : Prop where
  data : ∀ i ∈ data, i < pool.length
  known : ∀ called ∈ handled, ∀ i ∈ called.data, i < pool.length
  listens : ∀ i p, pool[i]? = some p → (p.listen.valid = 1 ↔ Filled libc handled .listen i)
  serves : ∀ i p, pool[i]? = some p → (p.server ≠ [] ↔ Filled libc handled .servers i)

namespace Recorded

variable {pool : List NcConfPool} {handled : List Handled}

theorem start (libc : Libc) : Recorded libc [] [] none where
  data _ none := nomatch none
  known _ member := nomatch member
  listens _ _ none := nomatch none
  serves _ _ none := nomatch none

/-- A new pool has nothing yet. -/
theorem newPool (recorded : Recorded libc pool handled data) :
    Recorded libc (pool ++ [NcConfPool.new libc]) handled (some pool.length) := by
  have inside {i : Nat} (less : i < pool.length) : i < (pool ++ [NcConfPool.new libc]).length := by
    rw [List.length_append]
    exact Nat.lt_add_right _ less
  have cases {i : Nat} {p : NcConfPool} (found : (pool ++ [NcConfPool.new libc])[i]? = some p) :
      pool[i]? = some p ∨ (i = pool.length ∧ p = NcConfPool.new libc) := by
    rcases Nat.lt_or_ge i pool.length with less | more
    · exact Or.inl (List.getElem?_append_left less ▸ found)
    · rw [List.getElem?_append_right more] at found
      obtain ⟨zero, same⟩ := List.getElem?_eq_some_iff.mp found
      rw [List.length_singleton] at zero
      rw [List.getElem_singleton] at same
      exact Or.inr ⟨by omega, same.symm⟩
  have nothing (key : ConfKey) : ¬ Filled libc handled key pool.length := by
    rintro ⟨called, member, -, at_, -⟩
    exact Nat.lt_irrefl _ (recorded.known called member _ at_)
  refine ⟨?_, fun called member i at_ => inside (recorded.known called member i at_), ?_, ?_⟩
  · rintro i same
    rw [← Option.some.inj same, List.length_append]
    exact Nat.lt_succ_self _
  · intro i p found
    rcases cases found with old | ⟨rfl, rfl⟩
    · exact recorded.listens i p old
    · exact iff_of_false nofun (nothing .listen)
  · intro i p found
    rcases cases found with old | ⟨rfl, rfl⟩
    · exact recorded.serves i p old
    · exact iff_of_false (not_not.mpr rfl) (nothing .servers)

/-- A value for the address of a pool. What was there does not matter for whether it is accepted. -/
theorem listen (recorded : Recorded libc pool handled data) {i : Nat} {p : NcConfPool}
    (found : pool[i]? = some p) {value : NcString} (left : List YamlEvent)
    (small : value.byte 0 = 47 → value.m_len + 1 < 2 ^ 32) :
    Recorded libc
      (pool.modify i fun q => { q with listen := (p.listen.parse libc value).1 })
      (⟨.listen, some i, value, left⟩ :: handled) data := by
  have inside : i < pool.length := (List.getElem?_eq_some_iff.mp found).1
  refine ⟨?_, ?_, fun j q found' => ?_, fun j q found' => ?_⟩
  · rw [List.length_modify]
    exact recorded.data
  · rw [List.length_modify]
    intro called member j at_
    rcases List.mem_cons.mp member with rfl | old
    · exact Option.some.inj at_ ▸ inside
    · exact recorded.known called old j at_
  · rw [List.getElem?_modify] at found'
    obtain ⟨q', old, rfl⟩ := Option.map_eq_some_iff.mp found'
    rw [filled_cons, ← recorded.listens j q' old, and_iff_right rfl]
    by_cases same : i = j
    · cases same
      cases found.symm.trans old
      rw [if_pos rfl, and_iff_right rfl]
      show (p.listen.parse libc value).1.valid = 1 ↔ ((NcConfListen.new libc).parse libc value).2 = _ ∨ _
      rw [NcConfListen.parse_valid, NcConfListen.parse_status_congr (.new libc) p.listen libc small]
      split
      next accepted => exact iff_of_true rfl (Or.inl accepted)
      next rejected => exact (or_iff_right rejected).symm
    · rw [if_neg same, or_iff_right fun holds => same (Option.some.inj holds.1)]
  · rw [List.getElem?_modify] at found'
    obtain ⟨q', old, rfl⟩ := Option.map_eq_some_iff.mp found'
    rw [filled_cons, or_iff_right nofun, ← recorded.serves j q' old]
    split
    · exact Iff.rfl
    · exact Iff.rfl

/-- A value for a server, which is not accepted. -/
theorem rejected (recorded : Recorded libc pool handled data) {value : NcString}
    (left : List YamlEvent) (fails : ((NcConfServer.new libc).parse libc value).2 ≠ NC_OK) :
    Recorded libc pool (⟨.servers, data, value, left⟩ :: handled) data := by
  refine ⟨recorded.data, ?_, fun j p found => ?_, fun j p found => ?_⟩
  · intro called member j at_
    rcases List.mem_cons.mp member with rfl | old
    · exact recorded.data j at_
    · exact recorded.known called old j at_
  · rw [filled_cons, or_iff_right nofun]
    exact recorded.listens j p found
  · rw [filled_cons, or_iff_right fun holds => fails holds.2.2]
    exact recorded.serves j p found

/-- A value for a server, which is accepted. -/
theorem server {i : Nat} (recorded : Recorded libc pool handled (some i)) {value : NcString}
    (left : List YamlEvent) (accepted : ((NcConfServer.new libc).parse libc value).2 = NC_OK)
    (cs : NcConfServer) :
    Recorded libc (pool.modify i fun q => { q with server := q.server ++ [cs] })
      (⟨.servers, some i, value, left⟩ :: handled) (some i) := by
  refine ⟨?_, ?_, fun j p found => ?_, fun j p found => ?_⟩
  · rw [List.length_modify]
    exact recorded.data
  · rw [List.length_modify]
    intro called member j at_
    rcases List.mem_cons.mp member with rfl | old
    · exact recorded.data j at_
    · exact recorded.known called old j at_
  · rw [List.getElem?_modify] at found
    obtain ⟨p', old, rfl⟩ := Option.map_eq_some_iff.mp found
    rw [filled_cons, or_iff_right nofun, ← recorded.listens j p' old]
    split
    · exact Iff.rfl
    · exact Iff.rfl
  · rw [List.getElem?_modify] at found
    obtain ⟨p', old, rfl⟩ := Option.map_eq_some_iff.mp found
    rw [filled_cons, ← recorded.serves j p' old]
    by_cases same : i = j
    · rw [if_pos same]
      exact iff_of_true (List.append_ne_nil_of_right_ne_nil _ (List.cons_ne_nil cs []))
        (Or.inl ⟨rfl, congrArg some same, accepted⟩)
    · rw [if_neg same, or_iff_right fun holds => same (Option.some.inj holds.2.1)]

end Recorded

/-! ### The reader records them -/

/-- The scalars on the stack are strings of the parser. -/
def AllStored (cf : NcConf) : Prop := ∀ arg ∈ cf.args, ∃ text, arg = .stored text

/-- A scalar whose length is too large to be copied is empty. -/
theorem stored_small (text : List UInt8) (slash : (NcString.stored text).byte 0 = 47) :
    (NcString.stored text).m_len + 1 < 2 ^ 32 := by
  have bound : text.length % 2 ^ 32 < 2 ^ 32 := Nat.mod_lt _ (by decide)
  show text.length % 2 ^ 32 + 1 < 2 ^ 32
  by_contra large
  have last : text.length % 2 ^ 32 = 2 ^ 32 - 1 := by omega
  have copied : (NcString.stored text).m_data = [(0 : UInt8)].set (2 ^ 32 - 1) 0 := by
    unfold NcString.stored NcString.ofBytes NcString.nc_strndup
    rw [last]
    rfl
  unfold NcString.byte at slash
  rw [copied, List.set_eq_of_length_le (by decide)] at slash
  exact absurd slash (by decide)

/-- **`handler` records the value.** -/
theorem handler_recorded {status : Int} (recorded : Recorded libc cf.pool cf.handled data)
    (stored : cf.AllStored) (handles : cf.handler libc data = .ok (cf', status)) :
    Recorded libc cf'.pool cf'.handled data := by
  unfold handler at handles
  dsimp only at handles
  split at handles
  · cases handles
    exact recorded
  next more =>
    split at handles
    · cases data with
      | none => cases handles
      | some i =>
          obtain ⟨p, found⟩ : ∃ p, cf.pool[i]? = some p :=
            ⟨_, List.getElem?_eq_getElem (recorded.data i rfl)⟩
          have there : cf.pool.getD i (NcConfPool.new libc) = p := by
            rw [List.getD_eq_getElem?_getD, found]
            rfl
          have inside : cf.args.length % 2 ^ 32 - 1 < cf.args.length := by
            have le := Nat.mod_le cf.args.length (2 ^ 32)
            omega
          obtain ⟨text, value⟩ := stored _ (List.getElem_mem inside)
          rw [← List.getD_eq_getElem _ .empty inside] at value
          cases handles
          rw [there, value]
          exact recorded.listen found _ (stored_small text)
    · split at handles
      · split at handles
        next fails =>
          cases handles
          exact recorded.rejected _ fails
        next accepted =>
          cases data with
          | none => cases handles
          | some i =>
              cases handles
              exact recorded.server _ (not_not.mp accepted) _
      · cases handles
        exact recorded

/-- The reader after a call of `parseCore`, whether it returned or goes on. -/
def CoreTurn.Holds (libc : Libc) (data : Option Nat) : CoreTurn → Prop
  | .returned cf _ => Recorded libc cf.pool cf.handled data
  | .again cf data => Recorded libc cf.pool cf.handled data

/-- **So does a call of `parseCore`.** -/
theorem coreTurn_recorded {turn : CoreTurn} (recorded : Recorded libc cf.pool cf.handled data)
    (stored : cf.AllStored) (takes : cf.coreTurn libc data = .ok turn) :
    CoreTurn.Holds libc data turn := by
  have one := coreTurn_frame takes
  cases turn with
  | returned cf' status =>
      obtain ⟨-, pool, handled, -⟩ := one
      show Recorded libc cf'.pool cf'.handled data
      rw [pool, handled]
      exact recorded
  | again cf' data' =>
      show Recorded libc cf'.pool cf'.handled data'
      rcases one.2.1 with
        ⟨pool, handled, rfl⟩ | ⟨cf₀, cf₁, handles, ⟨value, pushed⟩, before, pool, handled, given⟩
      · rw [pool, handled]
        exact recorded
      · have stored : cf₀.AllStored := by
          intro arg member
          rw [pushed, List.mem_append, List.mem_singleton] at member
          exact member.elim (stored arg) fun last => ⟨value, last⟩
        rw [pool, handled]
        refine handler_recorded ?_ stored handles
        rw [before]
        rcases given with ⟨pools, rfl⟩ | ⟨pools, rfl⟩
        · rw [pools]
          exact recorded
        · rw [pools]
          exact recorded.newPool

/-! ### The end of the mapping -/

variable {seen : Seen}

theorem Follows.allStored (follows : Follows seen cf data) : cf.AllStored := by
  intro arg member
  rw [follows.args, List.mem_map] at member
  obtain ⟨text, -, rfl⟩ := member
  exact ⟨text, rfl⟩

/-- **The reader has ended**: it stopped at an event, with what the events before it give. -/
structure Ended (libc : Libc) (parser : YamlParser) (seen : Seen) (event : YamlEvent)
    (rest : List YamlEvent) (cf : NcConf) : Prop where
  body : parser.body = seen.reverse ++ event :: rest
  going : seen.Going
  stops : seen.Stops event
  pools : cf.pool.length = seen.pools
  handled : cf.handled = seen.taken (event :: rest)
  recorded : ∃ data, Recorded libc cf.pool cf.handled data

theorem core_ends {fuel : Nat} (follows : Follows seen cf data)
    (body : parser.body = seen.reverse ++ cf.parser.events) (going : seen.Going)
    (recorded : Recorded libc cf.pool cf.handled data)
    (returns : cf.parseCore libc fuel data = .ok (cf', NC_OK)) :
    ∃ seen event rest, Ended libc parser seen event rest cf' := by
  induction fuel generalizing cf data seen with
  | zero => cases returns
  | succ fuel ih =>
      unfold parseCore at returns
      cases takes : cf.coreTurn libc data with
      | error fault =>
          rw [takes] at returns
          cases returns
      | ok turn =>
          have after := coreTurn_recorded recorded follows.allStored takes
          rw [takes] at returns
          cases events : cf.parser.events with
          | nil =>
              have same := coreTurn_noEvent events takes
              rcases same with rfl | rfl
              · exact absurd (Prod.mk.inj (Except.ok.inj returns)).2 (by decide)
              · exact ih follows body going recorded returns
          | cons event rest =>
              have one := turn_follows follows events takes
              rw [events] at body
              cases turn with
              | returned cf₁ status =>
                  have frame := coreTurn_frame takes
                  cases returns
                  exact ⟨seen, event, rest, body, going, one.1,
                    (congrArg List.length frame.2.1).trans follows.pools, one.2, data, after⟩
              | again cf₁ data₁ =>
                  obtain ⟨goes, next, left⟩ := one
                  refine ih next ?_ ⟨goes, going⟩ after returns
                  rw [body, left, List.reverse_cons, List.append_assoc]
                  rfl

/-- `parseEnd` leaves the pools and the values. -/
theorem endLoop_frame {fuel : Nat} {result : NcConf × Int} (ends : cf.endLoop fuel = .ok result) :
    result.1.pool = cf.pool ∧ result.1.handled = cf.handled := by
  induction fuel generalizing cf with
  | zero => cases ends
  | succ fuel ih =>
      unfold endLoop yamlEventNext at ends
      split at ends
      next same =>
        obtain ⟨rfl, -⟩ := Prod.mk.inj same
        cases ends
        exact ⟨rfl, rfl⟩
      next same =>
        obtain ⟨rfl, -⟩ := Prod.mk.inj same
        cases ends
        exact ⟨rfl, rfl⟩
      next same =>
        obtain ⟨rfl, -⟩ := Prod.mk.inj same
        have frame := ih ends
        exact frame

/-- **The reader of a file that is accepted has ended.** -/
theorem parseProcess_ends {fuel : Nat}
    (accepted : (new parser).parseProcess libc fuel = .ok (cf, NC_OK)) :
    ∃ seen event rest, Ended libc parser seen event rest cf := by
  unfold parseProcess at accepted
  cases begun : (new parser).parseBegin fuel with
  | error fault =>
      rw [begun] at accepted
      cases accepted
  | ok first =>
      obtain ⟨cf₁, status₁⟩ := first
      rw [begun] at accepted
      dsimp only [bind, Except.bind] at accepted
      split at accepted
      next fails =>
        cases accepted
        exact absurd rfl fails
      next begins =>
      obtain ⟨follows, left⟩ := follows_begun (not_not.mp begins ▸ begun)
      have initial : Recorded libc cf₁.pool cf₁.handled none := by
        rw [List.length_eq_zero_iff.mp follows.pools, show cf₁.handled = [] from follows.handled]
        exact .start libc
      cases core : cf₁.parseCore libc fuel none with
      | error fault =>
          rw [core] at accepted
          cases accepted
      | ok second =>
          obtain ⟨cf₂, status₂⟩ := second
          rw [core] at accepted
          dsimp only at accepted
          split at accepted
          next fails =>
            cases accepted
            exact absurd rfl fails
          next goes =>
          obtain ⟨seen, event, rest, ended⟩ :=
            core_ends follows left.symm trivial initial (not_not.mp goes ▸ core)
          cases last : cf₂.parseEnd fuel with
          | error fault =>
              rw [last] at accepted
              cases accepted
          | ok third =>
              obtain ⟨cf₃, status₃⟩ := third
              obtain ⟨pool, handled⟩ := endLoop_frame last
              rw [last] at accepted
              dsimp only at accepted
              split at accepted
              next fails =>
                cases accepted
                exact absurd rfl fails
              cases accepted
              exact ⟨seen, event, rest, ended.body, ended.going, ended.stops,
                (congrArg List.length pool).trans ended.pools, handled.trans ended.handled,
                ended.recorded.imp fun data recorded => by
                  rw [show cf₃.pool = _ from pool, show cf₃.handled = _ from handled]
                  exact recorded⟩

namespace Ended

variable {event : YamlEvent} {rest : List YamlEvent}

/-- **What `handler` came to is what the stream gives.** -/
theorem handled_iff (ended : Ended libc parser seen event rest cf) {key : ConfKey}
    {value : NcString} {left : List YamlEvent} :
    ⟨key, data, value, left⟩ ∈ cf.handled ↔ parser.Gives key data value left := by
  rw [ended.handled, Seen.mem_taken]
  constructor
  · rintro ⟨later, before, given, split, taken⟩
    obtain ⟨⟨key', value'⟩, at_, same⟩ := Option.map_eq_some_iff.mp taken
    cases same
    refine ⟨before, given, ?_, ?_, at_, rfl⟩
    · rw [ended.body, split]
      simp
    · have going := ended.going
      rw [split] at going
      exact going.before
  · rintro ⟨before, given, body, going, at_, rfl⟩
    obtain ⟨later, split, rfl⟩ := going.before_stop ended.stops (body.symm.trans ended.body)
    refine ⟨later, before, given, split, ?_⟩
    unfold Seen.takenAt
    rw [at_]
    rfl

/-- **The pools are those that the stream names.** -/
theorem namesPool_iff (ended : Ended libc parser seen event rest cf) {i : Nat} :
    i < cf.pool.length ↔ parser.NamesPool i := by
  rw [ended.pools, Seen.lt_pools_iff]
  constructor
  · rintro ⟨later, name, before, split, names, pools⟩
    refine ⟨before, name, later.reverse ++ event :: rest, ?_, ?_, names, pools⟩
    · rw [ended.body, split]
      simp
    · have going := ended.going
      rw [split] at going
      exact going.before
  · rintro ⟨before, name, left, body, going, names, pools⟩
    obtain ⟨later, split, -⟩ := going.before_stop ended.stops (body.symm.trans ended.body)
    exact ⟨later, name, before, split, names, pools⟩

/-- A pool got an accepted value exactly if the stream gives one. -/
theorem filled_iff (ended : Ended libc parser seen event rest cf) {key : ConfKey} {i : Nat} :
    Filled libc cf.handled key i ↔
      ∃ value rest, parser.Gives key (some i) value rest ∧ key.Accepts libc value := by
  constructor
  · rintro ⟨⟨key, data, value, left⟩, member, rfl, rfl, accepted⟩
    exact ⟨value, left, ended.handled_iff.mp member, accepted⟩
  · rintro ⟨value, left, given, accepted⟩
    exact ⟨_, ended.handled_iff.mpr given, rfl, rfl, accepted⟩

end Ended

/-! ### Accepted configurations -/

/-- With a server there is one to ask. -/
theorem serverFor_setConf {conf : NcConfPool} (serves : conf.server ≠ []) (fresh : Nat → NcServer)
    {sp : NcServerPool} (empty : sp.server = []) (idx : Nat) :
    (sp.setConf fresh conf).serverFor idx ≠ none := by
  have length : (sp.setConf fresh conf).server.length = conf.server.length := by
    show (sp.server ++ (List.range conf.server.length).map fresh).length = _
    rw [empty, List.nil_append, List.length_map, List.length_range]
  have some : 0 < (sp.setConf fresh conf).server.length := by
    rw [length]
    exact List.length_pos_of_ne_nil serves
  unfold NcServerPool.serverFor
  rw [if_neg (Nat.ne_of_gt some), List.getElem?_eq_getElem (Nat.mod_lt idx some)]
  exact Option.some_ne_none _

/-- **An accepted configuration can be used exactly if the file is complete.** -/
theorem usable_iff {fuel : Nat}
    (accepted : (new parser).parseProcess libc fuel = .ok (cf, NC_OK)) :
    Usable libc parser cf ↔ Complete libc parser := by
  obtain ⟨seen, event, rest, ended⟩ := parseProcess_ends accepted
  obtain ⟨data, recorded⟩ := ended.recorded
  constructor
  · intro usable
    refine ⟨fun key before event rest isValue => ?_, fun key i names => ?_⟩
    · obtain ⟨text, data, scalar, member, accepts⟩ := usable.accepted key before event rest isValue
      exact ⟨text, data, scalar, ended.handled_iff.mp member, accepts⟩
    · have inside := ended.namesPool_iff.mpr names
      have found := List.getElem?_eq_getElem inside
      cases key with
      | listen =>
          have valid := usable.listens _ (List.getElem_mem inside)
          exact ended.filled_iff.mp ((recorded.listens i _ found).mp valid)
      | servers =>
          have serves := usable.serves _ (List.getElem_mem inside)
          exact ended.filled_iff.mp ((recorded.serves i _ found).mp serves)
  · intro complete
    have filled (key : ConfKey) (i : Nat) (inside : i < cf.pool.length) :
        Filled libc cf.handled key i :=
      ended.filled_iff.mpr (complete.filled key i (ended.namesPool_iff.mp inside))
    have serves (pool : NcConfPool) (member : pool ∈ cf.pool) : pool.server ≠ [] := by
      obtain ⟨i, inside, rfl⟩ := List.mem_iff_getElem.mp member
      exact (recorded.serves i _ (List.getElem?_eq_getElem inside)).mpr (filled .servers i inside)
    refine ⟨fun pool member => ?_, serves, fun key before event rest isValue => ?_,
      fun pool member fresh sp empty => serverFor_setConf (serves pool member) fresh empty⟩
    · obtain ⟨i, inside, rfl⟩ := List.mem_iff_getElem.mp member
      exact (recorded.listens i _ (List.getElem?_eq_getElem inside)).mpr (filled .listen i inside)
    · obtain ⟨text, data, scalar, given, accepts⟩ := complete.accepted key before event rest isValue
      exact ⟨text, data, scalar, ended.handled_iff.mpr given, accepts⟩

/-- The configuration of `leafFile`. -/
def leafConf : NcConf :=
  match (new leafFile).parseProcess oneHost 20 with
  | .ok (cf, _) => cf
  | .error _ => new leafFile

/-- The reader gives the two values of `leafFile` to the pool. -/
theorem gives_leafFile :
    leafFile.Gives .listen (some 0) (.stored [97, 58, 49]) (leafFile.events.drop 7) ∧
      leafFile.Gives .servers (some 0) (.stored [98, 58, 50, 58, 51]) (leafFile.events.drop 10) :=
  ⟨⟨(leafFile.body.take 3).reverse, .scalar [97, 58, 49], rfl, by decide, rfl, rfl⟩,
    ⟨(leafFile.body.take 6).reverse, .scalar [98, 58, 50, 58, 51], rfl, by decide, rfl, rfl⟩⟩

/-- The values in `leafFile` are these two. -/
theorem isValue_leafFile {key : ConfKey} {before rest : List YamlEvent} {event : YamlEvent}
    (isValue : leafFile.IsValue key before event rest) :
    (key = .listen ∧ event = .scalar [97, 58, 49] ∧ rest = leafFile.events.drop 7) ∨
      (key = .servers ∧ event = .scalar [98, 58, 50, 58, 51] ∧ rest = leafFile.events.drop 10) := by
  obtain ⟨split, isKey, starts, other⟩ := isValue
  have first : before = (leafFile.events.take before.length).reverse := by
    rw [split, List.take_left' (List.length_reverse), List.reverse_reverse]
  have later : event :: rest = leafFile.events.drop before.length := by
    rw [split, List.drop_left' (List.length_reverse)]
  have inside : before.length < 15 := by
    have length := congrArg List.length split
    rw [List.length_append, List.length_reverse, List.length_cons] at length
    have all : leafFile.events.length = 15 := rfl
    omega
  generalize before.length = n at first later inside
  subst first
  clear split
  interval_cases n <;> cases later <;> cases key <;> revert isKey starts other <;> decide

theorem usable_leafConf : Usable oneHost leafFile leafConf := by
  have accepted : (new leafFile).parseProcess oneHost 20 = .ok (leafConf, NC_OK) := rfl
  have listens : ConfKey.listen.Accepts oneHost (.stored [97, 58, 49]) := rfl
  have serves : ConfKey.servers.Accepts oneHost (.stored [98, 58, 50, 58, 51]) := rfl
  refine (usable_iff accepted).mpr ⟨fun key before event rest isValue => ?_, fun key i names => ?_⟩
  · rcases isValue_leafFile isValue with ⟨rfl, rfl, rfl⟩ | ⟨rfl, rfl, rfl⟩
    · exact ⟨_, _, rfl, gives_leafFile.1, listens⟩
    · exact ⟨_, _, rfl, gives_leafFile.2, serves⟩
  · obtain ⟨seen, event, rest, ended⟩ := parseProcess_ends accepted
    have inside : i < 1 := ended.namesPool_iff.mpr names
    rw [Nat.lt_one_iff.mp inside]
    cases key with
    | listen => exact ⟨_, _, gives_leafFile.1, listens⟩
    | servers => exact ⟨_, _, gives_leafFile.2, serves⟩

/-- The file `leaf:` with `listen: x` and nothing else. -/
def badFile : YamlParser :=
  ⟨true, .streamStart :: ([.documentStart, .mappingStart, .scalar [108, 101, 97, 102],
    .mappingStart, .scalar listenText, .scalar [120], .mappingEnd, .mappingEnd, .documentEnd] ++
      [.streamEnd]), false⟩

/-- **A pool with a malformed address and no server is accepted.** -/
theorem accepted_unusable :
    badFile.WellFormed ∧ ∃ cf, (new badFile).parseProcess oneHost 20 = .ok (cf, NC_OK) ∧
      ∃ pool ∈ cf.pool, pool.listen.valid = 0 ∧ pool.server = [] := by
  refine ⟨⟨_, .document (.mapping (.scalar _ (.mapping (.scalar _ (.scalar _ .nil)) .nil)) .nil) .nil,
    rfl⟩, _, rfl, _, List.mem_cons_self, rfl, rfl⟩

end NcConf

end Nutcracker
