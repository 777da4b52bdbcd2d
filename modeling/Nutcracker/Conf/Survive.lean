/-
**Which YAML documents does the reader survive?**

The reader is followed along the stream: its depth, its stack and its pools are those that the events
read so far make, so what the next call needs is a condition on the file.

* `Follows`, `turn_follows` — the reader after some events of the first mapping, and after one more.
* `Follows.fits_iff` — what the call needs is what the event needs.
* `follows_of_reached`, `reached_of_fits` — every run has followed the stream, and it gets through the
  events as long as they are safe.
* `survives_iff` — **the documents that the reader survives**, by their events.
* `no_survival` — an empty file, and two with a sequence in a key.
-/

import Nutcracker.Conf.Phases
import Mathlib.Data.List.TakeWhile

namespace Nutcracker

open Lib

namespace NcConf

variable {cf cf' : NcConf} {data data' : Option Nat} {libc : Libc} {parser : YamlParser}

/-! ### The reader and the stream -/

/-- **The reader after the events `seen`** of the first mapping. -/
structure Follows (seen : Seen) (cf : NcConf) (data : Option Nat) : Prop where
  depth : cf.depth = seen.depth
  seq : cf.seq = seen.inSequence
  args : cf.args = seen.waiting.reverse.map .stored
  data : data = seen.data
  pools : cf.pool.length = seen.pools
  handled : cf.handled = seen.taken cf.parser.events

variable {seen : Seen} {event : YamlEvent} {rest : List YamlEvent} {waits : List (List UInt8)}
  {value : List UInt8}

/-- `handler` takes the key and the value that the scalars give. -/
theorem handler_takes {status : Int} (handles : cf.handler libc data = .ok (cf', status))
    (args : cf.args = (value :: waits).reverse.map .stored) :
    cf'.handled = ((Seen.entry waits value).map fun taken =>
      ⟨taken.1, data, taken.2, cf.parser.events⟩).toList ++ cf.handled ∧
      cf'.pool.length = cf.pool.length := by
  unfold handler at handles
  unfold Seen.entry ConfKey.of
  rw [← args]
  dsimp only at handles ⊢
  by_cases few : cf.args.length % 2 ^ 32 ≤ 1
  · rw [if_pos few] at handles ⊢
    cases handles
    exact ⟨rfl, rfl⟩
  · rw [if_neg few] at handles ⊢
    by_cases listens : (cf.args.getD (cf.args.length % 2 ^ 32 - 2) .empty).eqText listenText = true
    · rw [if_pos listens] at handles ⊢
      cases data with
      | none => cases handles
      | some i =>
          cases handles
          exact ⟨rfl, List.length_modify _ _ _⟩
    · rw [if_neg listens] at handles ⊢
      by_cases serves : (cf.args.getD (cf.args.length % 2 ^ 32 - 2) .empty).eqText serversText = true
      · rw [if_pos serves] at handles ⊢
        split at handles
        · cases handles
          exact ⟨rfl, rfl⟩
        · cases data with
          | none => cases handles
          | some i =>
              cases handles
              exact ⟨rfl, List.length_modify _ _ _⟩
      · rw [if_neg serves] at handles ⊢
        cases handles
        exact ⟨rfl, rfl⟩

theorem needsPool_iff (args : cf.args = (value :: waits).reverse.map .stored) :
    cf.NeedsPool libc ↔ Seen.NeedsPool libc waits value := by
  unfold NeedsPool Seen.NeedsPool Seen.entry ConfKey.of
  rw [← args]
  dsimp only
  by_cases few : cf.args.length % 2 ^ 32 ≤ 1
  · rw [if_pos few]
    refine iff_of_false (fun needs => Nat.not_lt.mpr few needs.1) ?_
    rintro ⟨key, value', taken, -⟩
    cases taken
  · rw [if_neg few, and_iff_right (Nat.lt_of_not_le few)]
    by_cases listens : (cf.args.getD (cf.args.length % 2 ^ 32 - 2) .empty).eqText listenText = true
    · rw [if_pos listens]
      exact iff_of_true (Or.inl listens) ⟨_, _, rfl, Or.inl rfl⟩
    · rw [if_neg listens, or_iff_right listens]
      by_cases serves : (cf.args.getD (cf.args.length % 2 ^ 32 - 2) .empty).eqText serversText = true
      · rw [if_pos serves, and_iff_right serves]
        constructor
        · intro accepted
          exact ⟨_, _, rfl, Or.inr accepted⟩
        · rintro ⟨key, value', taken, needs⟩
          cases taken
          exact needs.resolve_left nofun
      · rw [if_neg serves]
        refine iff_of_false (fun needs => serves needs.1) ?_
        rintro ⟨key, value', taken, -⟩
        cases taken

/-- The stack without its last scalar. -/
theorem dropLast_stored (waits : List (List UInt8)) :
    (waits.reverse.map NcString.stored).dropLast = waits.tail.reverse.map .stored := by
  rw [← List.map_dropLast, List.dropLast_reverse]

/-- After an event that is no scalar. -/
theorem Follows.next (follows : Follows seen cf data) (events : cf.parser.events = event :: rest)
    (other : event.isScalar = false) (depth : cf'.depth = depthAfter event cf.depth)
    (seq : cf'.seq = Seen.inSequence (event :: seen))
    (args : cf'.args = (Seen.waiting (event :: seen)).reverse.map .stored)
    (pool : cf'.pool = cf.pool) (handled : cf'.handled = cf.handled)
    (left : cf'.parser.events = rest) : Follows (event :: seen) cf' data where
  depth := depth.trans (congrArg (depthAfter event) follows.depth)
  seq := seq
  args := args
  data := by
    unfold Seen.data
    rw [Seen.pools_cons other]
    exact follows.data
  pools := by
    rw [pool, Seen.pools_cons other]
    exact follows.pools
  handled := by
    rw [handled, left, Seen.taken, Seen.takenAt, Seen.given_cons other, ← events]
    exact follows.handled

/-- **One call of `parseCore`** goes on with one event more, unless the reader stops there. -/
def Followed (seen : Seen) (event : YamlEvent) (rest : List YamlEvent) : CoreTurn → Prop
  | .again cf' data' =>
      ¬ seen.Stops event ∧ Follows (event :: seen) cf' data' ∧ cf'.parser.events = rest
  | .returned cf' _ => seen.Stops event ∧ cf'.handled = seen.taken (event :: rest)

theorem mappingEnd_follows {turn : CoreTurn} (follows : Follows seen cf data)
    (events : cf.parser.events = .mappingEnd :: rest) (takes : cf.coreTurn libc data = .ok turn) :
    Followed seen .mappingEnd rest turn := by
  unfold coreTurn at takes
  rw [yamlEventNext_cons events] at takes
  have root : cf.depth - 1 = 1 ↔ seen.depth = 2 :=
    follows.depth ▸ (UInt32.sub_eq_iff_eq_add : cf.depth - 1 = 1 ↔ _)
  have last : cf.depth - 1 = 0 ↔ seen.depth = 1 :=
    follows.depth ▸ (UInt32.sub_eq_iff_eq_add : cf.depth - 1 = 0 ↔ _)
  dsimp only at takes
  by_cases pool : cf.depth - 1 = 1
  · rw [if_pos pool] at takes
    cases pop : yamlPopScalar { cf with
        parser := { cf.parser with events := rest }, depth := cf.depth - 1 } with
    | error fault =>
        rw [pop] at takes
        cases takes
    | ok cf₁ =>
        obtain ⟨depth, parser, seq, pools, handled, args⟩ := yamlPopScalar_frame pop
        rw [pop] at takes
        cases takes
        refine ⟨fun stops => ?_, follows.next events rfl depth (seq.trans follows.seq) ?_ pools
          handled (congrArg YamlParser.events parser), congrArg YamlParser.events parser⟩
        · rw [last.mpr stops] at pool
          exact absurd pool (by decide)
        · rw [args, Seen.waiting, if_pos (root.mp pool), ← dropLast_stored, ← follows.args]
  · rw [if_neg pool] at takes
    by_cases ends : cf.depth - 1 = 0
    · rw [if_pos ends] at takes
      cases takes
      exact ⟨last.mp ends, events ▸ follows.handled⟩
    · rw [if_neg ends] at takes
      cases takes
      refine ⟨fun stops => ends (last.mpr stops), follows.next events rfl rfl follows.seq ?_ rfl
        rfl rfl, rfl⟩
      rw [Seen.waiting, if_neg fun two => pool (root.mpr two)]
      exact follows.args

theorem sequenceEnd_follows {turn : CoreTurn} (follows : Follows seen cf data)
    (events : cf.parser.events = .sequenceEnd :: rest) (takes : cf.coreTurn libc data = .ok turn) :
    Followed seen .sequenceEnd rest turn := by
  unfold coreTurn at takes
  rw [yamlEventNext_cons events] at takes
  dsimp only at takes
  cases pop : yamlPopScalar { cf with parser := { cf.parser with events := rest } } with
  | error fault =>
      rw [pop] at takes
      cases takes
  | ok cf₁ =>
      obtain ⟨depth, parser, -, pools, handled, args⟩ := yamlPopScalar_frame pop
      rw [pop] at takes
      cases takes
      refine ⟨id, follows.next events rfl depth rfl ?_ pools handled
        (congrArg YamlParser.events parser), congrArg YamlParser.events parser⟩
      rw [Seen.waiting, ← dropLast_stored, ← follows.args]
      exact args

/-- The reader with one scalar more on its stack. -/
def push (cf : NcConf) (rest : List YamlEvent) (value : List UInt8) : NcConf :=
  { cf with
    parser := { cf.parser with events := rest }
    args := cf.args ++ [.stored value] }

theorem Follows.pushed (follows : Follows seen cf data) (rest : List YamlEvent) (value : List UInt8) :
    (cf.push rest value).args = (value :: seen.waiting).reverse.map .stored := by
  rw [List.reverse_cons, List.map_append, ← follows.args]
  rfl

/-- A leaf is given to `handler`, and then popped, outside a sequence with its key. -/
theorem leaf_follows {turn : CoreTurn} (follows : Follows seen cf data)
    (events : cf.parser.events = .scalar value :: rest) (filled : value.length % 2 ^ 32 ≠ 0)
    (isLeaf : seen.Leaf) (takes : (cf.push rest value).leaf libc data = .ok turn) :
    Followed seen (.scalar value) rest turn := by
  obtain ⟨cf₁, cf', handles, rfl, depth, parser, pools, called, seq, args⟩ := leaf_frame takes
  obtain ⟨taken, same⟩ := handler_takes handles (follows.pushed rest value)
  have unnamed : ¬ seen.Names := fun names => names.not_leaf isLeaf
  have left : cf'.parser.events = rest := congrArg YamlParser.events parser
  refine ⟨filled, ⟨depth.trans follows.depth, seq.trans follows.seq, ?_, ?_, ?_, ?_⟩, left⟩
  · rw [args, follows.pushed, dropLast_stored, dropLast_stored, Seen.waiting]
    show (if cf.seq then _ else _) = _
    rw [follows.seq]
    cases inside : seen.inSequence with
    | true => rfl
    | false =>
        have full := isLeaf.resolve_left (by rw [inside]; exact Bool.false_ne_true)
        rw [if_neg Bool.false_ne_true, if_neg Bool.false_ne_true, if_pos full]
        rfl
  · rw [Seen.data_scalar, if_neg unnamed]
    exact follows.data
  · rw [pools, same, Seen.pools, if_neg unnamed]
    exact follows.pools
  · rw [called, taken, left, Seen.taken, Seen.takenAt, Seen.given, if_pos (Or.inr isLeaf),
      Seen.data_scalar, if_neg unnamed, ← follows.data]
    exact congrArg (_ ++ ·) (events ▸ follows.handled)

/-- The name of a pool is given to `handler` too, and waits. -/
theorem newPool_follows {turn : CoreTurn} (follows : Follows seen cf data)
    (events : cf.parser.events = .scalar value :: rest) (filled : value.length % 2 ^ 32 ≠ 0)
    (names : seen.Names) (takes : (cf.push rest value).newPool libc = .ok turn) :
    Followed seen (.scalar value) rest turn := by
  obtain ⟨cf', handles, rfl, depth, parser, seq, args⟩ := newPool_frame takes
  obtain ⟨taken, same⟩ := handler_takes handles (follows.pushed rest value)
  have left : cf'.parser.events = rest := congrArg YamlParser.events parser
  have pools : (cf.push rest value).pool.length = seen.pools := follows.pools
  have outside : ¬ seen.inSequence = true := by
    rw [names.1]
    exact Bool.false_ne_true
  refine ⟨filled, ⟨depth.trans follows.depth, seq.trans follows.seq, ?_, ?_, ?_, ?_⟩, left⟩
  · rw [args, follows.pushed, Seen.waiting, if_neg outside, if_neg fun full => full.1 names.2]
  · rw [Seen.data_scalar, if_pos names, pools]
  · rw [same, List.length_append, Seen.pools, if_pos names, pools]
    rfl
  · rw [taken, left, Seen.taken, Seen.takenAt, Seen.given, if_pos (Or.inl names), Seen.data_scalar,
      if_pos names, pools]
    exact congrArg (_ ++ ·) (events ▸ follows.handled)

/-- Any other scalar waits. -/
theorem push_follows (follows : Follows seen cf data)
    (events : cf.parser.events = .scalar value :: rest) (filled : value.length % 2 ^ 32 ≠ 0)
    (unnamed : ¬ seen.Names) (waits : ¬ seen.Leaf) :
    Followed seen (.scalar value) rest (.again (cf.push rest value) data) := by
  refine ⟨filled, ⟨follows.depth, follows.seq, ?_, ?_, ?_, ?_⟩, rfl⟩
  · rw [Seen.waiting, if_neg fun inside => waits (Or.inl inside),
      if_neg fun full => waits (Or.inr full)]
    exact follows.pushed rest value
  · rw [Seen.data_scalar, if_neg unnamed]
    exact follows.data
  · rw [Seen.pools, if_neg unnamed]
    exact follows.pools
  · rw [Seen.taken, Seen.takenAt, Seen.given, if_neg (not_or.mpr ⟨unnamed, waits⟩)]
    exact events ▸ follows.handled

theorem scalar_follows {turn : CoreTurn} (follows : Follows seen cf data)
    (events : cf.parser.events = .scalar value :: rest) (takes : cf.coreTurn libc data = .ok turn) :
    Followed seen (.scalar value) rest turn := by
  unfold coreTurn at takes
  rw [yamlEventNext_cons events] at takes
  dsimp only at takes
  unfold yamlPushScalar at takes
  by_cases empty : value.length % 2 ^ 32 = 0
  · rw [if_pos empty] at takes
    cases takes
    exact ⟨empty, events ▸ follows.handled⟩
  rw [if_neg empty] at takes
  dsimp only at takes
  rw [if_neg (not_not.mpr rfl)] at takes
  by_cases inside : cf.seq = true
  · rw [if_pos inside] at takes
    exact leaf_follows follows events empty (Or.inl (follows.seq ▸ inside)) takes
  rw [if_neg inside] at takes
  have outside : ¬ seen.inSequence = true := follows.seq ▸ inside
  by_cases root : cf.depth = CONF_ROOT_DEPTH
  · rw [if_pos root] at takes
    exact newPool_follows follows events empty
      ⟨Bool.not_eq_true _ ▸ outside, follows.depth ▸ root⟩ takes
  have unnamed : ¬ seen.Names := fun names => root (follows.depth ▸ names.2)
  have full : Seen.Full seen.depth seen.waiting.length ↔
      cf.args.length + 1 = (cf.depth + 1).toNat := by
    rw [follows.args, List.length_map, List.length_reverse, follows.depth]
    exact and_iff_right (follows.depth ▸ root)
  rw [if_neg root, List.length_append, List.length_singleton] at takes
  by_cases below : cf.args.length + 1 = (cf.depth + 1).toNat
  · rw [if_pos below] at takes
    exact leaf_follows follows events empty (Or.inr (full.mpr below)) takes
  · rw [if_neg below] at takes
    cases takes
    exact push_follows follows events empty unnamed fun leaf =>
      below (full.mp (leaf.resolve_left outside))

theorem turn_follows {turn : CoreTurn} (follows : Follows seen cf data)
    (events : cf.parser.events = event :: rest) (takes : cf.coreTurn libc data = .ok turn) :
    Followed seen event rest turn := by
  have read := yamlEventNext_cons events
  cases event with
  | mappingEnd => exact mappingEnd_follows follows events takes
  | sequenceEnd => exact sequenceEnd_follows follows events takes
  | scalar value => exact scalar_follows follows events takes
  | sequenceStart =>
      unfold coreTurn at takes
      rw [read] at takes
      cases takes
      exact ⟨id, follows.next events rfl rfl rfl follows.args rfl rfl rfl, rfl⟩
  | _ =>
      unfold coreTurn at takes
      rw [read] at takes
      cases takes
      exact ⟨id, follows.next events rfl rfl follows.seq follows.args rfl rfl rfl, rfl⟩

/-- After the last event there is an error, or one more `YAML_NO_EVENT`. -/
theorem coreTurn_noEvent {turn : CoreTurn} (events : cf.parser.events = [])
    (takes : cf.coreTurn libc data = .ok turn) :
    turn = .returned cf NC_ERROR ∨ turn = .again cf data := by
  unfold coreTurn at takes
  rw [yamlEventNext_nil events] at takes
  cases fails : cf.parser.fails with
  | true =>
      rw [fails] at takes
      cases takes
      exact Or.inl rfl
  | false =>
      rw [fails] at takes
      cases takes
      exact Or.inr rfl

/-- **What a call of `parseCore` needs is what the event needs.** -/
theorem Follows.fits_iff (follows : Follows seen cf data)
    (events : cf.parser.events = event :: rest) : cf.Fits libc data ↔ seen.Safe libc event := by
  unfold Fits
  rw [YamlParser.parse_cons events]
  have some : cf.args ≠ [] ↔ seen.waiting ≠ [] := by
    rw [follows.args, ne_eq, List.map_eq_nil_iff, List.reverse_eq_nil_iff]
  cases event with
  | mappingEnd =>
      show (cf.depth = 2 → _) ↔ (seen.depth = 2 → _)
      rw [some, follows.depth]
  | sequenceEnd => exact some
  | scalar value =>
      have takes : cf.TakesLeaf value ↔ value.length % 2 ^ 32 ≠ 0 ∧ seen.Leaf := by
        unfold TakesLeaf Seen.Leaf Seen.Full
        rw [follows.seq, follows.depth, follows.args, List.length_map, List.length_reverse]
      have pools : data ≠ none ↔ seen.pools ≠ 0 := by
        rw [follows.data]
        unfold Seen.data
        split
        next zero => exact iff_of_false (not_not.mpr rfl) (not_not.mpr zero)
        next more => exact iff_of_true (Option.some_ne_none _) more
      show (cf.TakesLeaf value → _) ↔ (value.length % 2 ^ 32 ≠ 0 → seen.Leaf → _)
      rw [takes, and_imp]
      refine forall₂_congr fun filled _ => ?_
      have needs : (cf.yamlPushScalar value).1.NeedsPool libc ↔
          Seen.NeedsPool libc seen.waiting value := by
        refine needsPool_iff ?_
        unfold yamlPushScalar
        dsimp only
        rw [if_neg filled]
        show cf.args ++ [NcString.stored value] = _
        rw [follows.args, List.reverse_cons, List.map_append]
        rfl
      rw [pools, needs, follows.seq, some]
  | _ => exact Iff.rfl

/-- `parseBegin` leaves the reader at the first mapping. -/
theorem beginLoop_body {fuel : Nat} (begins : cf.beginLoop fuel = .ok (cf', NC_OK)) :
    cf' = { cf with
      depth := cf.depth + 1
      parser := { cf.parser with events := cf.parser.body } } := by
  induction fuel generalizing cf with
  | zero => cases begins
  | succ fuel ih =>
      unfold beginLoop at begins
      unfold YamlParser.body
      cases events : cf.parser.events with
      | nil =>
          rw [yamlEventNext_nil events] at begins
          cases fails : cf.parser.fails with
          | true =>
              rw [fails] at begins
              cases begins
          | false =>
              rw [fails] at begins
              have after := ih begins
              unfold YamlParser.body at after
              rw [events] at after
              exact after
      | cons event rest =>
          rw [yamlEventNext_cons events] at begins
          by_cases starts : event = .mappingStart
          · subst starts
            cases begins
            rfl
          · have later : beginLoop fuel { cf with parser := { cf.parser with events := rest } } =
                .ok (cf', NC_OK) := by
              cases event with
              | mappingStart => exact absurd rfl starts
              | _ => exact begins
            rw [List.dropWhile_cons_of_pos (by simpa using starts)]
            exact ih later

/-- A stream with a mapping is begun. -/
theorem beginLoop_finds (member : .mappingStart ∈ cf.parser.events) :
    ∃ fuel cf', cf.beginLoop fuel = .ok (cf', NC_OK) := by
  generalize events : cf.parser.events = list at member
  induction list generalizing cf with
  | nil => cases member
  | cons event rest ih =>
      by_cases starts : event = .mappingStart
      · subst starts
        refine ⟨1, { cf with
          parser := { cf.parser with events := rest }, depth := cf.depth + 1 }, ?_⟩
        unfold beginLoop
        rw [yamlEventNext_cons events]
      · have later := (List.mem_cons.mp member).resolve_left fun same => starts same.symm
        generalize read : ({ cf with parser := { cf.parser with events := rest } } : NcConf) = cf₁
        have list : cf₁.parser.events = rest := read ▸ rfl
        obtain ⟨fuel, cf', begins⟩ := ih list later
        refine ⟨fuel + 1, cf', ?_⟩
        unfold beginLoop
        rw [yamlEventNext_cons events, read]
        cases event with
        | mappingStart => exact absurd rfl starts
        | _ => exact begins

/-- **At the start nothing of the mapping was seen.** -/
theorem follows_begun {fuel : Nat} (begins : (new parser).parseBegin fuel = .ok (cf, NC_OK)) :
    Follows [] cf none ∧ cf.parser.events = parser.body := by
  unfold parseBegin at begins
  by_cases starts : (new parser).parser.starts = true
  · rw [if_pos starts] at begins
    rw [beginLoop_body begins]
    exact ⟨⟨rfl, rfl, rfl, rfl, rfl, rfl⟩, rfl⟩
  · rw [if_neg starts] at begins
    cases begins

/-- **Every run follows the stream**, and goes on. -/
theorem follows_of_reached {s : NcConf × Option Nat} (reached : (coreRuns libc parser).Reach s) :
    ∃ seen : Seen, parser.body = seen.reverse ++ s.1.parser.events ∧ seen.Going ∧
      Follows seen s.1 s.2 := by
  refine reached.invariant
    (I := fun s => ∃ seen : Seen, parser.body = seen.reverse ++ s.1.parser.events ∧ seen.Going ∧
      Follows seen s.1 s.2) ?_ ?_
  · rintro ⟨cf, data⟩ ⟨⟨fuel, begins⟩, rfl⟩
    obtain ⟨follows, left⟩ := follows_begun begins
    exact ⟨[], left.symm, trivial, follows⟩
  · rintro ⟨cf, data⟩ _ ⟨cf', data'⟩ _ ⟨seen, body, going, follows⟩ takes
    cases events : cf.parser.events with
    | nil =>
        have stays := (coreTurn_noEvent events takes).resolve_left nofun
        cases stays
        exact ⟨seen, body, going, follows⟩
    | cons event rest =>
        obtain ⟨goes, next, left⟩ := turn_follows follows events takes
        refine ⟨event :: seen, ?_, ⟨goes, going⟩, next⟩
        rw [body, events, List.reverse_cons, List.append_assoc, left]
        rfl

/-- **A run gets through all events that are safe**, as far as it goes on. -/
theorem reached_of_fits (starts : parser.starts = true)
    (fits : ∀ s, (coreRuns libc parser).Reach s → s.1.Fits libc s.2) {rest : List YamlEvent}
    (some : parser.body ≠ []) (split : parser.body = seen.reverse ++ rest) (going : seen.Going) :
    ∃ s, (coreRuns libc parser).Reach s ∧ s.1.parser.events = rest ∧ Follows seen s.1 s.2 := by
  induction seen generalizing rest with
  | nil =>
      have member : .mappingStart ∈ (new parser).parser.events := by
        by_contra none
        refine some ?_
        show (parser.events.dropWhile _).tail = []
        rw [List.dropWhile_eq_nil_iff.mpr fun event inside => by
          simpa using fun same : event = .mappingStart => none (same ▸ inside)]
        rfl
      obtain ⟨fuel, cf, begins⟩ := beginLoop_finds member
      have begins : (new parser).parseBegin fuel = .ok (cf, NC_OK) := (if_pos starts).trans begins
      obtain ⟨follows, left⟩ := follows_begun begins
      exact ⟨(cf, none), .start ⟨⟨fuel, begins⟩, rfl⟩, left.trans split, follows⟩
  | cons event seen ih =>
      rw [List.reverse_cons, List.append_assoc] at split
      obtain ⟨⟨cf, data⟩, reached, events, follows⟩ := ih split going.2
      obtain ⟨turn, takes⟩ := coreTurn_ok_iff.mpr (fits (cf, data) reached)
      have one := turn_follows follows events takes
      cases turn with
      | returned cf' status => exact absurd one.1 going.1
      | again cf' data' =>
          have step : (coreRuns libc parser).step (cf, data) () (cf', data') := takes
          exact ⟨(cf', data'), reached.next step, one.2.2, one.2.1⟩

/-- **The reader survives exactly the documents** that end it before a mapping starts, or in which one
starts and every event is safe, up to the end of that mapping. -/
theorem survives_iff (libc : Libc) {parser : YamlParser} (wellFormed : parser.WellFormed) :
    Survives libc parser ↔
      parser.starts = false ∨
        (parser.fails = true ∨ .mappingStart ∈ parser.events) ∧
          ∀ (seen : Seen) (event : YamlEvent) (rest : List YamlEvent),
            parser.body = seen.reverse ++ event :: rest → seen.Going → seen.Safe libc event := by
  rw [survives_iff_fits libc wellFormed]
  constructor
  · rintro ⟨begins, fits⟩
    by_cases starts : parser.starts = true
    · refine Or.inr ⟨begins.resolve_left (Bool.not_eq_false _ ▸ starts), ?_⟩
      intro seen event rest split going
      have some : parser.body ≠ [] := by
        rw [split]
        exact List.append_ne_nil_of_right_ne_nil _ (List.cons_ne_nil _ _)
      obtain ⟨s, reached, events, follows⟩ := reached_of_fits starts fits some split going
      exact (follows.fits_iff events).mp (fits s reached)
    · exact Or.inl (Bool.not_eq_true _ ▸ starts)
  · rintro (never | ⟨begins, safe⟩)
    · refine ⟨Or.inl never, fun s reached => ?_⟩
      obtain ⟨start, ⟨⟨fuel, begun⟩, -⟩, -⟩ := reached
      unfold parseBegin at begun
      rw [if_neg (show ¬ (new parser).parser.starts = true from Bool.not_eq_true _ ▸ never)] at begun
      exact absurd (Prod.mk.inj (Except.ok.inj begun)).2 (by decide)
    · refine ⟨Or.inr begins, fun s reached => ?_⟩
      obtain ⟨seen, split, going, follows⟩ := follows_of_reached reached
      cases events : s.1.parser.events with
      | nil =>
          unfold Fits
          rw [YamlParser.parse_nil events]
          cases s.1.parser.fails with
          | true => exact trivial
          | false => exact trivial
      | cons event rest =>
          rw [events] at split
          exact (follows.fits_iff events).mpr (safe seen event rest split going)

/-- A host on which every name has the same address. -/
def oneHost : Libc where
  getaddrinfo _ _ := some (.addr 2 [127, 0, 0, 1])
  noConversion := 0
  modeBits := 32
  NC_UNIX_ADDRSTRLEN := 108
  port := 0
  perm := 0
  info := .addr 0 []

/-- The file `leaf:` with `listen: a:1` and one server, `b:2:3`. -/
def leafFile : YamlParser :=
  ⟨true, .streamStart :: ([.documentStart, .mappingStart, .scalar [108, 101, 97, 102],
    .mappingStart, .scalar listenText, .scalar [97, 58, 49], .scalar serversText,
    .sequenceStart, .scalar [98, 58, 50, 58, 51], .sequenceEnd, .mappingEnd, .mappingEnd,
    .documentEnd] ++ [.streamEnd]), false⟩

theorem wellFormed_leafFile : leafFile.WellFormed :=
  ⟨_, .document (.mapping (.scalar _ (.mapping (.scalar _ (.scalar _ (.scalar _
    (.sequence (.scalar _ .nil) .nil)))) .nil)) .nil) .nil, rfl⟩

/-- The reader survives it, and so every event of it is safe. -/
theorem survives_leafFile :
    leafFile.starts = false ∨ (leafFile.fails = true ∨ .mappingStart ∈ leafFile.events) ∧
      ∀ (seen : Seen) (event : YamlEvent) (rest : List YamlEvent),
        leafFile.body = seen.reverse ++ event :: rest → seen.Going → seen.Safe oneHost event :=
  (survives_iff oneHost wellFormed_leafFile).mp ⟨20, _, rfl⟩

/-- An empty file. -/
def emptyFile : YamlParser := ⟨true, [.streamStart, .streamEnd], false⟩

/-- The file `? [a]` with the value `b`. -/
def sequenceKey : YamlParser :=
  ⟨true, [.streamStart, .documentStart, .mappingStart, .sequenceStart, .scalar [97], .sequenceEnd,
    .scalar [98], .mappingEnd, .documentEnd, .streamEnd], false⟩

/-- The file `? {listen: [a]}` with the value `b`. -/
def listenKey : YamlParser :=
  ⟨true, [.streamStart, .documentStart, .mappingStart, .mappingStart, .scalar listenText,
    .sequenceStart, .scalar [97], .sequenceEnd, .mappingEnd, .scalar [98], .mappingEnd,
    .documentEnd, .streamEnd], false⟩

/-- **Three files that the reader does not survive**: it never returns, pops an empty stack, or follows
`NULL`. -/
theorem no_survival :
    emptyFile.WellFormed ∧ (∀ fuel, (new emptyFile).parseProcess oneHost fuel = .error .fuel) ∧
      (new sequenceKey).parseProcess oneHost 20 = .error .popEmpty ∧
      (new listenKey).parseProcess oneHost 20 = .error .nullData := by
  refine ⟨⟨[], .nil, rfl⟩, fun fuel => ?_, rfl, rfl⟩
  have endless : (new emptyFile).parseBegin fuel = .error .fuel :=
    (if_pos rfl).trans (beginLoop_endless rfl (by decide) fuel)
  unfold parseProcess
  rw [endless]
  rfl

end NcConf

end Nutcracker
