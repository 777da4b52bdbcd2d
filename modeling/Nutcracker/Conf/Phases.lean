/-
**What the phases of the reader need.**

`parseBegin` reads on until a mapping starts, and after the end of the stream there is always one more
`YAML_NO_EVENT`. `parseCore` pops the stack without a look at it, and follows `data` before the first
pool.

* `coreTurn_ok_iff` — what a call of `parseCore` needs.
* `coreTurn_frame` — and what it does.
* `core_returns` — in a well-nested stream `parseCore` returns, at the latest at the end of the mapping.
* `parseProcess_ok_iff` — `parseProcess` returns exactly when its phases do.
* `survives_iff_fits` — the reader survives if its phases begin, and each call of `parseCore` fits.
-/

import Nutcracker.Conf.Stream
import Nutcracker.Lib.Runs

namespace Nutcracker

open Lib

/-! ### The streams of the parser -/

/-- **Well-nested events**, below the stream. -/
inductive Nested : List YamlEvent → Prop
  | nil : Nested []
  | aliased {rest : List YamlEvent} (nested : Nested rest) : Nested (.aliased :: rest)
  | scalar {rest : List YamlEvent} (value : List UInt8) (nested : Nested rest) :
      Nested (.scalar value :: rest)
  | sequence {inner rest : List YamlEvent} (items : Nested inner) (nested : Nested rest) :
      Nested (.sequenceStart :: (inner ++ .sequenceEnd :: rest))
  | mapping {inner rest : List YamlEvent} (pairs : Nested inner) (nested : Nested rest) :
      Nested (.mappingStart :: (inner ++ .mappingEnd :: rest))
  | document {inner rest : List YamlEvent} (root : Nested inner) (nested : Nested rest) :
      Nested (.documentStart :: (inner ++ .documentEnd :: rest))

/-- **What the parser can return**: a whole stream, or the beginning of one and then an error. -/
def YamlParser.WellFormed (parser : YamlParser) : Prop :=
  ∃ body, Nested body ∧
    if parser.fails then parser.events <+: .streamStart :: (body ++ [.streamEnd])
    else parser.events = .streamStart :: (body ++ [.streamEnd])

/-- The events close as many mappings as are open. -/
def Closes : Nat → List YamlEvent → Prop
  | 0, _ => True
  | _ + 1, [] => False
  | opened + 1, .mappingStart :: rest => Closes (opened + 2) rest
  | opened + 1, .mappingEnd :: rest => Closes opened rest
  | opened + 1, _ :: rest => Closes (opened + 1) rest

/-- Every mapping is closed. -/
def AllClose : List YamlEvent → Prop
  | [] => True
  | .mappingStart :: rest => Closes 1 rest ∧ AllClose rest
  | _ :: rest => AllClose rest

theorem closes_zero (events : List YamlEvent) : Closes 0 events := by
  unfold Closes
  trivial

/-- Well-nested events close nothing that was open before them. -/
theorem Nested.closes {events : List YamlEvent} (nested : Nested events) {opened : Nat}
    {tail : List YamlEvent} (closes : Closes (opened + 1) tail) :
    Closes (opened + 1) (events ++ tail) := by
  induction nested generalizing opened tail with
  | nil => exact closes
  | aliased _ ih => exact ih closes
  | scalar _ _ ih => exact ih closes
  | sequence _ _ items ih =>
      rw [List.cons_append, List.append_assoc]
      exact items (ih closes)
  | mapping _ _ pairs ih =>
      rw [List.cons_append, List.append_assoc]
      exact pairs (ih closes)
  | document _ _ root ih =>
      rw [List.cons_append, List.append_assoc]
      exact root (ih closes)

theorem Nested.allClose {events : List YamlEvent} (nested : Nested events) {tail : List YamlEvent}
    (closes : AllClose tail) : AllClose (events ++ tail) := by
  induction nested generalizing tail with
  | nil => exact closes
  | aliased _ ih => exact ih closes
  | scalar _ _ ih => exact ih closes
  | sequence _ _ items ih =>
      rw [List.cons_append, List.append_assoc]
      exact items (ih closes)
  | mapping inner _ pairs ih =>
      rw [List.cons_append, List.append_assoc]
      exact ⟨inner.closes (closes_zero _), pairs (ih closes)⟩
  | document _ _ root ih =>
      rw [List.cons_append, List.append_assoc]
      exact root (ih closes)

/-- The parser fails, or closes the open mappings before the end of the stream. -/
def YamlParser.Closing (opened : Nat) (parser : YamlParser) : Prop :=
  parser.fails = true ∨
    (Closes opened parser.events ∧ parser.events.getLast? = some .streamEnd)

/-- The parser fails, or closes every mapping before the end of the stream. -/
def YamlParser.AllClosing (parser : YamlParser) : Prop :=
  parser.fails = true ∨ (AllClose parser.events ∧ parser.events.getLast? = some .streamEnd)

theorem YamlParser.WellFormed.allClosing {parser : YamlParser} (wellFormed : parser.WellFormed) :
    parser.AllClosing := by
  obtain ⟨body, nested, events⟩ := wellFormed
  by_cases fails : parser.fails = true
  · exact Or.inl fails
  · rw [if_neg fails] at events
    refine Or.inr ⟨?_, ?_⟩
    · rw [events]
      exact nested.allClose trivial
    · rw [events, ← List.cons_append]
      exact List.getLast?_append_of_ne_nil _ (List.cons_ne_nil _ _)

theorem AllClose.rest {event : YamlEvent} {rest : List YamlEvent} (closes : AllClose (event :: rest)) :
    AllClose rest := by
  cases event with
  | mappingStart => exact closes.2
  | _ => exact closes

/-- The last event stays while there are others before it. -/
theorem getLast?_rest {event : YamlEvent} {rest : List YamlEvent} (more : rest ≠ []) :
    (event :: rest).getLast? = rest.getLast? := by
  cases rest with
  | nil => exact absurd rfl more
  | cons _ _ => rfl

/-- What the parser does with its next event. -/
theorem YamlParser.parse_cons {parser : YamlParser} {event : YamlEvent} {rest : List YamlEvent}
    (events : parser.events = event :: rest) :
    parser.parse = ({ parser with events := rest }, some event) := by
  unfold YamlParser.parse
  rw [events]

theorem YamlParser.parse_nil {parser : YamlParser} (events : parser.events = []) :
    parser.parse = (parser, if parser.fails then none else some .noEvent) := by
  unfold YamlParser.parse
  rw [events]

namespace NcConf

variable {cf cf' : NcConf} {data data' : Option Nat} {libc : Libc}

/-! ### The loops -/

/-- `parseBegin` with more fuel. -/
theorem beginLoop_mono {fuel : Nat} {result : NcConf × Int}
    (ends : cf.beginLoop fuel = .ok result) (more : Nat) : cf.beginLoop (fuel + more) = .ok result := by
  induction fuel generalizing cf with
  | zero => cases ends
  | succ fuel ih =>
      rw [Nat.succ_add]
      unfold beginLoop at ends ⊢
      split at ends
      · exact ends
      · exact ends
      · exact ih ends

theorem parseBegin_mono {fuel : Nat} {result : NcConf × Int}
    (ends : cf.parseBegin fuel = .ok result) (more : Nat) :
    cf.parseBegin (fuel + more) = .ok result := by
  unfold parseBegin at ends ⊢
  by_cases starts : cf.parser.starts = true
  · rw [if_pos starts] at ends ⊢
    exact beginLoop_mono ends more
  · rw [if_neg starts] at ends ⊢
    exact ends

/-- `parseEnd` with more fuel. -/
theorem endLoop_mono {fuel : Nat} {result : NcConf × Int}
    (ends : cf.endLoop fuel = .ok result) (more : Nat) : cf.endLoop (fuel + more) = .ok result := by
  induction fuel generalizing cf with
  | zero => cases ends
  | succ fuel ih =>
      rw [Nat.succ_add]
      unfold endLoop at ends ⊢
      split at ends
      · exact ends
      · exact ends
      · exact ih ends

/-- `parseCore` with more fuel. -/
theorem parseCore_mono {fuel : Nat} {result : NcConf × Int}
    (ends : cf.parseCore libc fuel data = .ok result) (more : Nat) :
    cf.parseCore libc (fuel + more) data = .ok result := by
  induction fuel generalizing cf data with
  | zero => cases ends
  | succ fuel ih =>
      rw [Nat.succ_add]
      unfold parseCore at ends ⊢
      split at ends
      · cases ends
      · exact ends
      · exact ih ends

/-- The end of the list of events: an error, or `YAML_NO_EVENT`. -/
theorem yamlEventNext_nil (events : cf.parser.events = []) :
    cf.yamlEventNext = (cf, if cf.parser.fails then none else some .noEvent) := by
  unfold yamlEventNext
  rw [YamlParser.parse_nil events]

theorem yamlEventNext_cons {event : YamlEvent} {rest : List YamlEvent}
    (events : cf.parser.events = event :: rest) :
    cf.yamlEventNext = ({ cf with parser := { cf.parser with events := rest } }, some event) := by
  unfold yamlEventNext
  rw [YamlParser.parse_cons events]

/-- **`parseBegin` does not return** if no mapping starts and no error comes. -/
theorem beginLoop_endless (runs : cf.parser.fails = false) (none : .mappingStart ∉ cf.parser.events)
    (fuel : Nat) : cf.beginLoop fuel = .error .fuel := by
  induction fuel generalizing cf with
  | zero => rfl
  | succ fuel ih =>
      unfold beginLoop
      cases events : cf.parser.events with
      | nil =>
          rw [yamlEventNext_nil events, runs]
          exact ih runs none
      | cons event rest =>
          rw [events, List.mem_cons, not_or] at none
          rw [yamlEventNext_cons events]
          cases event with
          | mappingStart => exact absurd rfl none.1
          | _ => exact ih runs none.2

/-- **And else it returns**, with the mapping open, or an error. -/
theorem beginLoop_returns (closing : cf.parser.AllClosing)
    (starts : cf.parser.fails = true ∨ .mappingStart ∈ cf.parser.events) :
    ∃ fuel cf' status, cf.beginLoop fuel = .ok (cf', status) ∧
      (status = NC_OK → cf'.depth = cf.depth + 1 ∧ cf'.parser.Closing 1) := by
  generalize events : cf.parser.events = list
  induction list generalizing cf with
  | nil =>
      have fails : cf.parser.fails = true := by
        rcases starts with fails | member
        · exact fails
        · rw [events] at member
          cases member
      refine ⟨1, cf, NC_ERROR, ?_, nofun⟩
      unfold beginLoop
      rw [yamlEventNext_nil events, fails]
      rfl
  | cons event rest ih =>
      generalize read : ({ cf with parser := { cf.parser with events := rest } } : NcConf) = cf₁
      have next : cf.yamlEventNext = (cf₁, some event) := read ▸ yamlEventNext_cons events
      have depth : cf₁.depth = cf.depth := read ▸ rfl
      have rest' : cf₁.parser = { cf.parser with events := rest } := read ▸ rfl
      have keep (other : event ≠ .mappingStart) : ∃ fuel cf' status,
          cf.beginLoop fuel = .ok (cf', status) ∧
            (status = NC_OK → cf'.depth = cf.depth + 1 ∧ cf'.parser.Closing 1) := by
        have starts' : cf₁.parser.fails = true ∨ .mappingStart ∈ rest := by
          rw [rest']
          refine starts.imp_right fun member => ?_
          rw [events] at member
          exact (List.mem_cons.mp member).resolve_left other.symm
        have closing' : cf₁.parser.AllClosing := by
          rw [rest'] at starts' ⊢
          rcases closing with fails | ⟨closes, last⟩
          · exact Or.inl fails
          · refine starts'.imp_right fun member => ?_
            rw [events] at closes last
            exact ⟨closes.rest, getLast?_rest (List.ne_nil_of_mem member) ▸ last⟩
        have list' : cf₁.parser.events = rest := by rw [rest']
        obtain ⟨fuel, cf', status, ends, begun⟩ := ih closing' (list' ▸ starts') list'
        refine ⟨fuel + 1, cf', status, ?_, depth ▸ begun⟩
        unfold beginLoop
        rw [next]
        cases event with
        | mappingStart => exact absurd rfl other
        | _ => exact ends
      cases event with
      | mappingStart =>
          refine ⟨1, { cf₁ with depth := cf₁.depth + 1 }, NC_OK, ?_, fun _ => ⟨?_, ?_⟩⟩
          · unfold beginLoop
            rw [next]
          · rw [← depth]
          · show cf₁.parser.Closing 1
            rw [rest']
            rcases closing with fails | ⟨closes, last⟩
            · exact Or.inl fails
            · rw [events] at closes last
              refine Or.inr ⟨closes.1, ?_⟩
              have more : rest ≠ [] := by
                rintro rfl
                exact closes.1
              rw [← last, getLast?_rest more]
      | _ => exact keep nofun

/-- **`parseEnd` returns** if an error comes or the stream ends. -/
theorem endLoop_returns (ends : cf.parser.fails = true ∨
    cf.parser.events.getLast? = some .streamEnd) : ∃ fuel result, cf.endLoop fuel = .ok result := by
  generalize events : cf.parser.events = list at ends
  induction list generalizing cf with
  | nil =>
      have fails : cf.parser.fails = true := ends.resolve_right nofun
      refine ⟨1, (cf, NC_ERROR), ?_⟩
      unfold endLoop
      rw [yamlEventNext_nil events, fails]
      rfl
  | cons event rest ih =>
      generalize read : ({ cf with parser := { cf.parser with events := rest } } : NcConf) = cf₁
      have next : cf.yamlEventNext = (cf₁, some event) := read ▸ yamlEventNext_cons events
      by_cases last : event = .streamEnd
      · refine ⟨1, (cf₁, NC_OK), ?_⟩
        unfold endLoop
        rw [next, last]
      · have ends' : cf₁.parser.fails = true ∨ rest.getLast? = some .streamEnd := by
          rw [← read]
          refine ends.imp_right fun at_ => ?_
          have more : rest ≠ [] := by
            rintro rfl
            exact last (Option.some.inj at_)
          rw [← at_, getLast?_rest more]
        have list' : cf₁.parser.events = rest := by rw [← read]
        obtain ⟨fuel, result, returns⟩ := ih list' ends'
        refine ⟨fuel + 1, result, ?_⟩
        unfold endLoop
        rw [next]
        cases event with
        | streamEnd => exact absurd rfl last
        | _ => exact returns

/-! ### What a call of `parseCore` needs -/

/-- `handler` follows `data`: the key is `listen`, or `servers` with a value that is accepted. -/
def NeedsPool (libc : Libc) (cf : NcConf) : Prop :=
  let narg := cf.args.length % 2 ^ 32
  1 < narg ∧
    ((cf.args.getD (narg - 2) .empty).eqText listenText = true ∨
      (cf.args.getD (narg - 2) .empty).eqText serversText = true ∧
        ((NcConfServer.new libc).parse libc (cf.args.getD (narg - 1) .empty)).2 = NC_OK)

/-- The scalar is a leaf: it is in a sequence, or below a pool and its key. -/
def TakesLeaf (cf : NcConf) (value : List UInt8) : Prop :=
  value.length % 2 ^ 32 ≠ 0 ∧
    (cf.seq = true ∨
      cf.depth ≠ CONF_ROOT_DEPTH ∧ cf.args.length + 1 = (cf.depth + 1).toNat)

/-- **What the next event needs**: there is something to pop, and a pool for a value. -/
def Fits (libc : Libc) (cf : NcConf) (data : Option Nat) : Prop :=
  match cf.parser.parse.2 with
  | some .mappingEnd => cf.depth = 2 → cf.args ≠ []
  | some .sequenceEnd => cf.args ≠ []
  | some (.scalar value) => cf.TakesLeaf value →
      (data ≠ none ∨ ¬ (cf.yamlPushScalar value).1.NeedsPool libc) ∧
        (cf.seq = true ∨ cf.args ≠ [])
  | _ => True

/-- **`handler` returns `NC_OK`**, and leaves the reader but for the pools, if it returns. -/
theorem handler_frame {result : NcConf × Int} (handles : cf.handler libc data = .ok result) :
    result.2 = NC_OK ∧ result.1.args = cf.args ∧ result.1.depth = cf.depth ∧
      result.1.seq = cf.seq ∧ result.1.parser = cf.parser := by
  unfold handler at handles
  dsimp only at handles
  split at handles
  · cases handles
    exact ⟨rfl, rfl, rfl, rfl, rfl⟩
  · split at handles
    · cases data with
      | none => cases handles
      | some i =>
          cases handles
          exact ⟨rfl, rfl, rfl, rfl, rfl⟩
    · split at handles
      · split at handles
        · cases handles
          exact ⟨rfl, rfl, rfl, rfl, rfl⟩
        · cases data with
          | none => cases handles
          | some i =>
              cases handles
              exact ⟨rfl, rfl, rfl, rfl, rfl⟩
      · cases handles
        exact ⟨rfl, rfl, rfl, rfl, rfl⟩

/-- With a pool `handler` returns. -/
theorem handler_some (libc : Libc) (cf : NcConf) (i : Nat) :
    ∃ result, cf.handler libc (some i) = .ok result := by
  unfold handler
  dsimp only
  split
  · exact ⟨_, rfl⟩
  · split
    · exact ⟨_, rfl⟩
    · split
      · split
        · exact ⟨_, rfl⟩
        · exact ⟨_, rfl⟩
      · exact ⟨_, rfl⟩

/-- Without one, `handler` returns exactly if it needs none. -/
theorem handler_none_iff :
    (∃ result, cf.handler libc none = .ok result) ↔ ¬ cf.NeedsPool libc := by
  have ok (result : NcConf × Int) : ∃ r : NcConf × Int,
      (Except.ok result : Except ConfFault (NcConf × Int)) = .ok r := ⟨result, rfl⟩
  have fault : ¬ ∃ r : NcConf × Int,
      (Except.error .nullData : Except ConfFault (NcConf × Int)) = .ok r := nofun
  unfold handler NeedsPool
  dsimp only
  by_cases few : cf.args.length % 2 ^ 32 ≤ 1
  · rw [if_pos few]
    exact iff_of_true (ok _) fun needs => absurd needs.1 (Nat.not_lt.mpr few)
  · rw [if_neg few, and_iff_right (Nat.lt_of_not_le few)]
    by_cases listens : (cf.args.getD (cf.args.length % 2 ^ 32 - 2) .empty).eqText listenText = true
    · rw [if_pos listens]
      exact iff_of_false fault (not_not.mpr (Or.inl listens))
    · rw [if_neg listens, or_iff_right listens]
      by_cases serves : (cf.args.getD (cf.args.length % 2 ^ 32 - 2) .empty).eqText serversText = true
      · rw [if_pos serves, and_iff_right serves]
        by_cases accepted : ((NcConfServer.new libc).parse libc
            (cf.args.getD (cf.args.length % 2 ^ 32 - 1) .empty)).2 = NC_OK
        · rw [if_neg (not_not.mpr accepted)]
          exact iff_of_false fault (not_not.mpr accepted)
        · rw [if_pos accepted]
          exact iff_of_true (ok _) accepted
      · rw [if_neg serves]
        exact iff_of_true (ok _) fun needs => serves needs.1

theorem handler_ok_iff :
    (∃ result, cf.handler libc data = .ok result) ↔ data ≠ none ∨ ¬ cf.NeedsPool libc := by
  cases data with
  | none => exact handler_none_iff.trans (or_iff_right (not_not.mpr rfl)).symm
  | some i => exact iff_of_true (handler_some libc cf i) (Or.inl (Option.some_ne_none i))

/-- A leaf: `handler` returns, and there is something to pop each time. -/
theorem leaf_ok_iff {last : NcString} {before : List NcString} (args : cf.args = before ++ [last]) :
    (∃ turn, cf.leaf libc data = .ok turn) ↔
      (data ≠ none ∨ ¬ cf.NeedsPool libc) ∧ (cf.seq = true ∨ before ≠ []) := by
  rw [← handler_ok_iff]
  unfold leaf
  cases handles : cf.handler libc data with
  | error fault => exact iff_of_false nofun fun holds => absurd holds.1 nofun
  | ok result =>
      obtain ⟨cf', status⟩ := result
      obtain ⟨ok, same, -, seq, -⟩ := handler_frame handles
      have first : cf'.yamlPopScalar = .ok { cf' with args := before } := by
        have args' : cf'.args = before ++ [last] := same.trans args
        unfold yamlPopScalar
        rw [args', if_neg (List.append_ne_nil_of_right_ne_nil _ (List.cons_ne_nil _ _)),
          List.dropLast_concat]
      rw [and_iff_right ⟨_, rfl⟩]
      dsimp only [bind, Except.bind]
      rw [first]
      dsimp only
      rw [show cf'.seq = cf.seq from seq, show status = NC_OK from ok]
      by_cases inside : cf.seq = true
      · rw [if_pos inside]
        exact iff_of_true ⟨_, rfl⟩ (Or.inl inside)
      · rw [if_neg inside, or_iff_right inside]
        unfold yamlPopScalar
        by_cases nothing : before = []
        · rw [if_pos nothing]
          exact iff_of_false nofun (not_not.mpr nothing)
        · rw [if_neg nothing]
          exact iff_of_true ⟨_, rfl⟩ nothing

theorem yamlPopScalar_ok_iff : (∃ cf', cf.yamlPopScalar = .ok cf') ↔ cf.args ≠ [] := by
  unfold yamlPopScalar
  by_cases nothing : cf.args = []
  · rw [if_pos nothing]
    exact iff_of_false nofun (not_not.mpr nothing)
  · rw [if_neg nothing]
    exact iff_of_true ⟨_, rfl⟩ nothing

/-- What is returned after a step that may go wrong. -/
theorem return_ok_iff {α β : Type} {x : Except ConfFault α} (f : α → β) :
    (∃ result, (x >>= fun a => pure (f a)) = .ok result) ↔ ∃ a, x = .ok a := by
  cases x with
  | error fault => exact iff_of_false nofun nofun
  | ok a => exact iff_of_true ⟨f a, rfl⟩ ⟨a, rfl⟩

theorem newPool_ok (libc : Libc) (cf : NcConf) : ∃ turn, cf.newPool libc = .ok turn := by
  unfold newPool
  dsimp only
  obtain ⟨result, handles⟩ :=
    handler_some libc { cf with pool := cf.pool ++ [NcConfPool.new libc] } cf.pool.length
  rw [handles]
  dsimp only [bind, Except.bind]
  split
  · exact ⟨_, rfl⟩
  · exact ⟨_, rfl⟩

/-- **A call of `parseCore` returns or goes on exactly if it fits.** -/
theorem coreTurn_ok_iff :
    (∃ turn, cf.coreTurn libc data = .ok turn) ↔ cf.Fits libc data := by
  unfold coreTurn Fits yamlEventNext
  cases cf.parser.parse.2 with
  | none => exact iff_of_true ⟨_, rfl⟩ trivial
  | some event =>
      cases event with
      | mappingEnd =>
          have root : cf.depth - 1 = 1 ↔ cf.depth = 2 := UInt32.sub_eq_iff_eq_add
          dsimp only
          by_cases pool : cf.depth - 1 = 1
          · rw [if_pos pool, imp_iff_right (root.mp pool)]
            exact (return_ok_iff _).trans yamlPopScalar_ok_iff
          · rw [if_neg pool]
            refine iff_of_true ?_ fun two => absurd (root.mpr two) pool
            split
            · exact ⟨_, rfl⟩
            · exact ⟨_, rfl⟩
      | sequenceEnd => exact (return_ok_iff _).trans yamlPopScalar_ok_iff
      | scalar value =>
          dsimp only
          unfold yamlPushScalar TakesLeaf
          by_cases empty : value.length % 2 ^ 32 = 0
          · rw [if_pos empty]
            exact iff_of_true ⟨_, rfl⟩ fun takes => absurd empty takes.1
          · rw [if_neg empty, if_neg empty]
            dsimp only
            rw [if_neg (not_not.mpr rfl)]
            have takes : (∃ turn, leaf libc { cf with
                parser := cf.parser.parse.1
                args := cf.args ++ [.ofBytes value (value.length % 2 ^ 32)] } data = .ok turn) ↔ _ :=
              leaf_ok_iff rfl
            by_cases inside : cf.seq = true
            · rw [if_pos inside, imp_iff_right ⟨empty, Or.inl inside⟩]
              exact takes
            · rw [if_neg inside]
              by_cases root : cf.depth = CONF_ROOT_DEPTH
              · rw [if_pos root]
                refine iff_of_true (newPool_ok libc _) fun leaf => ?_
                exact absurd root (leaf.2.resolve_left inside).1
              · rw [if_neg root, List.length_append, List.length_singleton]
                by_cases below : cf.args.length + 1 = (cf.depth + 1).toNat
                · rw [if_pos below, imp_iff_right ⟨empty, Or.inr ⟨root, below⟩⟩]
                  exact takes
                · rw [if_neg below]
                  refine iff_of_true ⟨_, rfl⟩ fun leaf => ?_
                  exact absurd (leaf.2.resolve_left inside).2 below
      | _ => exact iff_of_true ⟨_, rfl⟩ trivial

/-! ### What a call of `parseCore` does -/

theorem yamlPopScalar_frame (pop : cf.yamlPopScalar = .ok cf') :
    cf'.depth = cf.depth ∧ cf'.parser = cf.parser ∧ cf'.seq = cf.seq ∧ cf'.pool = cf.pool ∧
      cf'.handled = cf.handled ∧ cf'.args = cf.args.dropLast := by
  unfold yamlPopScalar at pop
  split at pop
  · cases pop
  · cases pop
    exact ⟨rfl, rfl, rfl, rfl, rfl, rfl⟩

/-- A leaf goes on after `handler`. It is popped, and outside a sequence so is its key. -/
theorem leaf_frame {turn : CoreTurn} (takes : cf.leaf libc data = .ok turn) :
    ∃ cf₁ cf', cf.handler libc data = .ok (cf₁, NC_OK) ∧ turn = .again cf' data ∧
      cf'.depth = cf.depth ∧ cf'.parser = cf.parser ∧ cf'.pool = cf₁.pool ∧
      cf'.handled = cf₁.handled ∧ cf'.seq = cf.seq ∧
      cf'.args = if cf.seq then cf.args.dropLast else cf.args.dropLast.dropLast := by
  unfold leaf at takes
  cases handles : cf.handler libc data with
  | error fault =>
      rw [handles] at takes
      cases takes
  | ok result =>
      obtain ⟨cf₁, status⟩ := result
      obtain ⟨ok, args, depth, seq, parser⟩ := handler_frame handles
      rw [handles] at takes
      dsimp only [bind, Except.bind] at takes
      cases first : cf₁.yamlPopScalar with
      | error fault =>
          rw [first] at takes
          cases takes
      | ok cf₂ =>
          have frame := yamlPopScalar_frame first
          rw [first] at takes
          dsimp only at takes
          rw [show status = NC_OK from ok] at takes
          have popped : cf₂.args = cf.args.dropLast := args ▸ frame.2.2.2.2.2
          have seq : cf₂.seq = cf.seq := frame.2.2.1.trans seq
          by_cases inside : cf₂.seq = true
          · rw [if_pos inside] at takes
            cases takes
            refine ⟨cf₁, cf₂, ok ▸ rfl, rfl, frame.1.trans depth, frame.2.1.trans parser,
              frame.2.2.2.1, frame.2.2.2.2.1, seq, ?_⟩
            rw [if_pos (seq ▸ inside)]
            exact popped
          · rw [if_neg inside] at takes
            cases second : cf₂.yamlPopScalar with
            | error fault =>
                rw [second] at takes
                cases takes
            | ok cf₃ =>
                have frame' := yamlPopScalar_frame second
                rw [second] at takes
                cases takes
                refine ⟨cf₁, cf₃, ok ▸ rfl, rfl, frame'.1.trans (frame.1.trans depth),
                  frame'.2.1.trans (frame.2.1.trans parser),
                  frame'.2.2.2.1.trans frame.2.2.2.1,
                  frame'.2.2.2.2.1.trans frame.2.2.2.2.1, frame'.2.2.1.trans seq, ?_⟩
                rw [if_neg (seq ▸ inside), ← popped]
                exact frame'.2.2.2.2.2

/-- The name of a pool goes on with the pool. -/
theorem newPool_frame {turn : CoreTurn} (takes : cf.newPool libc = .ok turn) :
    ∃ cf', handler libc { cf with pool := cf.pool ++ [NcConfPool.new libc] }
        (some cf.pool.length) = .ok (cf', NC_OK) ∧
      turn = .again cf' (some cf.pool.length) ∧ cf'.depth = cf.depth ∧ cf'.parser = cf.parser ∧
      cf'.seq = cf.seq ∧ cf'.args = cf.args := by
  unfold newPool at takes
  dsimp only at takes
  cases handles : handler libc { cf with pool := cf.pool ++ [NcConfPool.new libc] }
      (some cf.pool.length) with
  | error fault =>
      rw [handles] at takes
      cases takes
  | ok result =>
      obtain ⟨cf₁, status⟩ := result
      obtain ⟨ok, args, depth, seq, parser⟩ := handler_frame handles
      rw [handles] at takes
      dsimp only [bind, Except.bind] at takes
      rw [show status = NC_OK from ok] at takes
      cases takes
      exact ⟨cf₁, ok ▸ rfl, rfl, depth, parser, seq, args⟩

/-- The pools and the values after a call that goes on: they are as before, or `handler` was called with
one scalar more, perhaps with a new pool. -/
def Handles (libc : Libc) (cf : NcConf) (data : Option Nat) (cf' : NcConf) (data' : Option Nat) :
    Prop :=
  (cf'.pool = cf.pool ∧ cf'.handled = cf.handled ∧ data' = data) ∨
    ∃ cf₀ cf₁ : NcConf, cf₀.handler libc data' = .ok (cf₁, NC_OK) ∧
      (∃ value, cf₀.args = cf.args ++ [.stored value]) ∧ cf₀.handled = cf.handled ∧
      cf'.pool = cf₁.pool ∧ cf'.handled = cf₁.handled ∧
      ((cf₀.pool = cf.pool ∧ data' = data) ∨
        (cf₀.pool = cf.pool ++ [NcConfPool.new libc] ∧ data' = some cf.pool.length))

/-- One event was read. The call goes on with the depth that the event leads to, or returns: `NC_OK` at
the end of a mapping only. -/
def ReadOne (libc : Libc) (cf : NcConf) (data : Option Nat) : CoreTurn → Prop
  | .again cf' data' => cf'.parser = cf.parser.parse.1 ∧ cf.Handles libc data cf' data' ∧
      ∃ event, cf.parser.parse.2 = some event ∧ cf'.depth = depthAfter event cf.depth ∧
        (event = .mappingEnd → cf'.depth ≠ 0)
  | .returned cf' status => cf'.parser = cf.parser.parse.1 ∧ cf'.pool = cf.pool ∧
      cf'.handled = cf.handled ∧ (status = NC_OK → cf.parser.parse.2 = some .mappingEnd)

theorem mappingEnd_frame {turn : CoreTurn} (read : cf.parser.parse.2 = some .mappingEnd)
    (takes : cf.coreTurn libc data = .ok turn) : cf.ReadOne libc data turn := by
  unfold ReadOne
  unfold coreTurn yamlEventNext at takes
  rw [read] at takes ⊢
  dsimp only at takes
  by_cases pool : cf.depth - 1 = 1
  · rw [if_pos pool] at takes
    cases pop : yamlPopScalar { cf with parser := cf.parser.parse.1, depth := cf.depth - 1 } with
    | error fault =>
        rw [pop] at takes
        cases takes
    | ok cf₁ =>
        obtain ⟨depth, parser, -, pools, handled, -⟩ := yamlPopScalar_frame pop
        rw [pop] at takes
        cases takes
        refine ⟨parser, Or.inl ⟨pools, handled, rfl⟩, _, rfl, depth, fun _ => ?_⟩
        rw [depth]
        show cf.depth - 1 ≠ 0
        rw [pool]
        decide
  · rw [if_neg pool] at takes
    by_cases root : cf.depth - 1 = 0
    · rw [if_pos root] at takes
      cases takes
      exact ⟨rfl, rfl, rfl, fun _ => rfl⟩
    · rw [if_neg root] at takes
      cases takes
      exact ⟨rfl, Or.inl ⟨rfl, rfl, rfl⟩, _, rfl, rfl, fun _ => root⟩

theorem scalar_frame {turn : CoreTurn} {value : List UInt8}
    (read : cf.parser.parse.2 = some (.scalar value)) (takes : cf.coreTurn libc data = .ok turn) :
    cf.ReadOne libc data turn := by
  unfold ReadOne
  unfold coreTurn yamlEventNext at takes
  rw [read] at takes ⊢
  dsimp only at takes
  unfold yamlPushScalar at takes
  by_cases empty : value.length % 2 ^ 32 = 0
  · rw [if_pos empty] at takes
    cases takes
    exact ⟨rfl, rfl, rfl, nofun⟩
  rw [if_neg empty] at takes
  dsimp only at takes
  rw [if_neg (not_not.mpr rfl)] at takes
  have leaves {turn : CoreTurn} (takes : leaf libc { cf with
      parser := cf.parser.parse.1
      args := cf.args ++ [.ofBytes value (value.length % 2 ^ 32)] } data = .ok turn) :
      ∃ cf', turn = .again cf' data ∧ cf'.parser = cf.parser.parse.1 ∧
        cf.Handles libc data cf' data ∧ cf'.depth = cf.depth := by
    obtain ⟨cf₁, cf', handles, again, depth, parser, pools, handled, -⟩ := leaf_frame takes
    exact ⟨cf', again, parser,
      Or.inr ⟨_, cf₁, handles, ⟨value, rfl⟩, rfl, pools, handled, Or.inl ⟨rfl, rfl⟩⟩, depth⟩
  split at takes
  · obtain ⟨cf', rfl, parser, handles, depth⟩ := leaves takes
    exact ⟨parser, handles, _, rfl, depth, nofun⟩
  · split at takes
    · obtain ⟨cf', handles, rfl, depth, parser, -⟩ := newPool_frame takes
      exact ⟨parser, Or.inr ⟨_, cf', handles, ⟨value, rfl⟩, rfl, rfl, rfl, Or.inr ⟨rfl, rfl⟩⟩, _, rfl,
        depth, nofun⟩
    · split at takes
      · obtain ⟨cf', rfl, parser, handles, depth⟩ := leaves takes
        exact ⟨parser, handles, _, rfl, depth, nofun⟩
      · cases takes
        exact ⟨rfl, Or.inl ⟨rfl, rfl, rfl⟩, _, rfl, rfl, nofun⟩

/-- **A call of `parseCore` reads one event.** -/
theorem coreTurn_frame {turn : CoreTurn} (takes : cf.coreTurn libc data = .ok turn) :
    cf.ReadOne libc data turn := by
  cases read : cf.parser.parse.2 with
  | none =>
      unfold coreTurn yamlEventNext at takes
      rw [read] at takes
      cases takes
      exact ⟨rfl, rfl, rfl, nofun⟩
  | some event =>
      cases event with
      | mappingEnd => exact mappingEnd_frame read takes
      | scalar value => exact scalar_frame read takes
      | sequenceEnd =>
          unfold coreTurn yamlEventNext at takes
          rw [read] at takes
          dsimp only at takes
          cases pop : yamlPopScalar { cf with parser := cf.parser.parse.1 } with
          | error fault =>
              rw [pop] at takes
              cases takes
          | ok cf₁ =>
              obtain ⟨depth, parser, -, pools, handled, -⟩ := yamlPopScalar_frame pop
              rw [pop] at takes
              cases takes
              exact ⟨parser, Or.inl ⟨pools, handled, rfl⟩, _, read, depth, nofun⟩
      | _ =>
          unfold coreTurn yamlEventNext at takes
          rw [read] at takes
          cases takes
          exact ⟨rfl, Or.inl ⟨rfl, rfl, rfl⟩, _, read, rfl, nofun⟩

/-! ### Runs -/

/-- **The calls of `parseCore`**, after `parseBegin`. -/
def coreRuns (libc : Libc) (parser : YamlParser) : System (NcConf × Option Nat) Unit where
  init s := (∃ fuel, (NcConf.new parser).parseBegin fuel = .ok (s.1, NC_OK)) ∧ s.2 = none
  step s _ s' := s.1.coreTurn libc s.2 = .ok (.again s'.1 s'.2)

variable {parser : YamlParser}

/-- The mappings that are open after an event, if any. -/
theorem closing_next {event : YamlEvent} {rest : List YamlEvent} {opened : Nat}
    (closing : cf.parser.Closing (opened + 1)) (events : cf.parser.events = event :: rest)
    (depth : cf.depth = UInt32.ofNat (opened + 1)) (parser : cf'.parser = cf.parser.parse.1)
    (depth' : cf'.depth = depthAfter event cf.depth)
    (inside : event = .mappingEnd → cf'.depth ≠ 0) :
    ∃ opened', cf'.parser.Closing (opened' + 1) ∧ cf'.depth = UInt32.ofNat (opened' + 1) := by
  -- the mappings open after the event, in the depth and in the events that are left
  have goes (opened' : Nat)
      (closes : Closes (opened + 1) (event :: rest) → Closes (opened' + 1) rest)
      (depth' : cf'.depth = UInt32.ofNat (opened' + 1)) :
      ∃ opened', cf'.parser.Closing (opened' + 1) ∧ cf'.depth = UInt32.ofNat (opened' + 1) := by
    refine ⟨opened', ?_, depth'⟩
    rw [parser, YamlParser.parse_cons events]
    refine closing.imp_right fun holds => ?_
    rw [events] at holds
    have closes' := closes holds.1
    have more : rest ≠ [] := by
      rintro rfl
      exact closes'
    exact ⟨closes', getLast?_rest more ▸ holds.2⟩
  rw [depth] at depth'
  cases event with
  | mappingStart =>
      refine goes (opened + 1) id ?_
      rw [depth']
      exact (UInt32.ofNat_add (opened + 1) 1).symm
  | mappingEnd =>
      cases opened with
      | zero => exact absurd depth' (inside rfl)
      | succ opened =>
          refine goes opened id ?_
          rw [depth', UInt32.ofNat_add (opened + 1) 1]
          exact UInt32.add_sub_cancel _ _
  | _ => exact goes opened id depth'

/-- **`parseCore` returns** if its calls all fit, and leaves the end of the stream to `parseEnd`. -/
theorem core_returns {opened : Nat} (closing : cf.parser.Closing (opened + 1))
    (depth : cf.depth = UInt32.ofNat (opened + 1))
    (fits : ∀ s, Relation.ReflTransGen (coreRuns libc parser).Next (cf, data) s →
      s.1.Fits libc s.2) :
    ∃ fuel cf' status, cf.parseCore libc fuel data = .ok (cf', status) ∧
      (status = NC_OK → cf'.parser.fails = true ∨
        cf'.parser.events.getLast? = some .streamEnd) := by
  generalize events : cf.parser.events = list
  induction list generalizing cf data opened with
  | nil =>
      have fails : cf.parser.fails = true := by
        refine closing.resolve_right fun holds => ?_
        rw [events] at holds
        exact holds.1
      refine ⟨1, cf, NC_ERROR, ?_, nofun⟩
      unfold parseCore coreTurn
      rw [yamlEventNext_nil events, fails]
      rfl
  | cons event rest ih =>
      have read := YamlParser.parse_cons events
      obtain ⟨turn, takes⟩ := coreTurn_ok_iff.mpr (fits (cf, data) .refl)
      have one := coreTurn_frame takes
      cases turn with
      | returned cf' status =>
          refine ⟨1, cf', status, ?_, fun ok => ?_⟩
          · unfold parseCore
            rw [takes]
          · rw [one.1, read]
            have last := one.2.2.2 ok
            rw [read] at last
            cases last
            refine closing.imp_right fun holds => ?_
            rw [events] at holds
            have more : rest ≠ [] := by
              rintro rfl
              cases holds.2
            exact getLast?_rest more ▸ holds.2
      | again cf' data' =>
          obtain ⟨parser', -, event', read', depth', inside⟩ := one
          rw [read] at read'
          cases read'
          have again : (coreRuns libc parser).step (cf, data) () (cf', data') := takes
          obtain ⟨opened', closing', depth''⟩ :=
            closing_next closing events depth parser' depth' inside
          obtain ⟨fuel, cf'', status, returns, leaves⟩ := ih closing' depth''
            (fun s run => fits s (.head ⟨(), again⟩ run)) (by rw [parser', read])
          refine ⟨fuel + 1, cf'', status, ?_, leaves⟩
          unfold parseCore
          rw [takes]
          exact returns

/-- A run of `parseCore` returns from each of its calls. -/
theorem parseCore_reaches {fuel : Nat} {result : NcConf × Int} {s : NcConf × Option Nat}
    (returns : cf.parseCore libc fuel data = .ok result)
    (run : Relation.ReflTransGen (coreRuns libc parser).Next (cf, data) s) :
    ∃ fuel', s.1.parseCore libc fuel' s.2 = .ok result := by
  induction run with
  | refl => exact ⟨fuel, returns⟩
  | tail before last ih =>
      obtain ⟨fuel', returns'⟩ := ih
      obtain ⟨_, again⟩ := last
      cases fuel' with
      | zero => cases returns'
      | succ fuel' =>
          unfold parseCore at returns'
          rw [show coreTurn libc _ _ = _ from again] at returns'
          exact ⟨fuel', returns'⟩

/-- **The reader survives**: `parseProcess` returns, and nothing goes wrong before. -/
def Survives (libc : Libc) (parser : YamlParser) : Prop :=
  ∃ fuel result, (NcConf.new parser).parseProcess libc fuel = .ok result

/-- The phases of `parseProcess` return, each with its fuel. The next one is called on `NC_OK` only. -/
def Phases (libc : Libc) (cf : NcConf) (fuel₁ fuel₂ fuel₃ : Nat) : Prop :=
  ∃ cf₁ status₁, cf.parseBegin fuel₁ = .ok (cf₁, status₁) ∧ (status₁ = NC_OK →
    ∃ cf₂ status₂, cf₁.parseCore libc fuel₂ none = .ok (cf₂, status₂) ∧ (status₂ = NC_OK →
      ∃ result, cf₂.parseEnd fuel₃ = .ok result))

/-- More fuel for the phases. -/
theorem Phases.mono {fuel₁ fuel₂ fuel₃ fuel : Nat} (phases : cf.Phases libc fuel₁ fuel₂ fuel₃)
    (first : fuel₁ ≤ fuel) (second : fuel₂ ≤ fuel) (third : fuel₃ ≤ fuel) :
    cf.Phases libc fuel fuel fuel := by
  obtain ⟨cf₁, status₁, begun, core⟩ := phases
  refine ⟨cf₁, status₁, Nat.add_sub_of_le first ▸ parseBegin_mono begun (fuel - fuel₁),
    fun begins => ?_⟩
  obtain ⟨cf₂, status₂, core, ended⟩ := core begins
  refine ⟨cf₂, status₂, Nat.add_sub_of_le second ▸ parseCore_mono core (fuel - fuel₂),
    fun goes => ?_⟩
  obtain ⟨result, ended⟩ := ended goes
  exact ⟨result, Nat.add_sub_of_le third ▸ endLoop_mono ended (fuel - fuel₃)⟩

/-- `parseProcess` returns exactly when its phases do. -/
theorem parseProcess_ok_iff {fuel : Nat} :
    (∃ result, cf.parseProcess libc fuel = .ok result) ↔ cf.Phases libc fuel fuel fuel := by
  unfold Phases parseProcess
  dsimp only [bind, Except.bind]
  cases begun : cf.parseBegin fuel with
  | error fault => simp
  | ok first =>
      obtain ⟨cf₁, status₁⟩ := first
      dsimp only
      by_cases begins : status₁ = NC_OK
      · rw [if_neg (not_not.mpr begins)]
        cases core : cf₁.parseCore libc fuel none with
        | error fault => simp [core, begins]
        | ok second =>
            obtain ⟨cf₂, status₂⟩ := second
            dsimp only
            by_cases goes : status₂ = NC_OK
            · rw [if_neg (not_not.mpr goes)]
              cases ended : cf₂.parseEnd fuel with
              | error fault => simp [core, begins, ended, goes]
              | ok third =>
                  obtain ⟨cf₃, status₃⟩ := third
                  dsimp only
                  split <;> simp [core, ended, pure, Except.pure]
            · simp [core, begins, goes, pure, Except.pure]
      · simp [begins, pure, Except.pure]

/-- Where the phases return, the first one found a mapping, or did not read. -/
theorem Phases.begins {fuel₁ fuel₂ fuel₃ : Nat}
    (phases : (new parser).Phases libc fuel₁ fuel₂ fuel₃) :
    parser.starts = false ∨ parser.fails = true ∨ .mappingStart ∈ parser.events := by
  obtain ⟨cf, status, begun, -⟩ := phases
  by_contra endless
  obtain ⟨starts, fails, none⟩ := not_or.mp endless |>.imp_right not_or.mp
  unfold parseBegin at begun
  rw [if_pos (show (new parser).parser.starts = true from Bool.not_eq_false _ ▸ starts),
    beginLoop_endless (Bool.not_eq_true _ ▸ fails) none] at begun
  cases begun

/-- Where the phases return, each call of `parseCore` fits. -/
theorem Phases.fits {fuel₁ fuel₂ fuel₃ : Nat}
    (phases : (new parser).Phases libc fuel₁ fuel₂ fuel₃) {s : NcConf × Option Nat}
    (reached : (coreRuns libc parser).Reach s) : s.1.Fits libc s.2 := by
  obtain ⟨cf, status, begun, core⟩ := phases
  obtain ⟨⟨cf', data⟩, ⟨⟨fuel', begun'⟩, none⟩, run⟩ := reached
  have same := parseBegin_mono begun' fuel₁
  rw [Nat.add_comm, parseBegin_mono begun fuel'] at same
  cases same
  cases none
  obtain ⟨cf₂, status₂, core, -⟩ := core rfl
  obtain ⟨fuel, returns⟩ := parseCore_reaches core run
  cases fuel with
  | zero => cases returns
  | succ fuel =>
      refine coreTurn_ok_iff.mp ?_
      unfold parseCore at returns
      cases takes : s.1.coreTurn libc s.2 with
      | error fault =>
          rw [takes] at returns
          cases returns
      | ok turn => exact ⟨turn, rfl⟩

/-- The reader survives if a mapping starts, or the reading ends, and each call of `parseCore` fits. -/
theorem survives_iff_fits (libc : Libc) {parser : YamlParser} (wellFormed : parser.WellFormed) :
    Survives libc parser ↔
      (parser.starts = false ∨ parser.fails = true ∨ .mappingStart ∈ parser.events) ∧
        ∀ s, (coreRuns libc parser).Reach s → s.1.Fits libc s.2 := by
  constructor
  · rintro ⟨fuel, returns⟩
    have phases := parseProcess_ok_iff.mp returns
    exact ⟨phases.begins, fun s reached => phases.fits reached⟩
  · rintro ⟨begins, fits⟩
    suffices phases : ∃ fuel₁ fuel₂ fuel₃, (new parser).Phases libc fuel₁ fuel₂ fuel₃ by
      obtain ⟨fuel₁, fuel₂, fuel₃, phases⟩ := phases
      exact ⟨fuel₁ + fuel₂ + fuel₃,
        parseProcess_ok_iff.mpr (phases.mono (by omega) (by omega) (by omega))⟩
    by_cases starts : parser.starts = true
    · have closing : (new parser).parser.AllClosing := wellFormed.allClosing
      obtain ⟨fuel₁, cf₁, status₁, begun, opens⟩ := beginLoop_returns closing
        (begins.resolve_left (Bool.not_eq_false _ ▸ starts))
      have begun : (new parser).parseBegin fuel₁ = .ok (cf₁, status₁) :=
        (if_pos starts).trans begun
      by_cases begins : status₁ = NC_OK
      · obtain ⟨depth, closing⟩ := opens begins
        obtain ⟨fuel₂, cf₂, status₂, core, leaves⟩ := core_returns closing depth
          fun s run => fits s ⟨(cf₁, none), ⟨⟨fuel₁, begins ▸ begun⟩, rfl⟩, run⟩
        by_cases goes : status₂ = NC_OK
        · obtain ⟨fuel₃, ended⟩ := endLoop_returns (leaves goes)
          exact ⟨fuel₁, fuel₂, fuel₃, cf₁, status₁, begun, fun _ =>
            ⟨cf₂, status₂, core, fun _ => ended⟩⟩
        · exact ⟨fuel₁, fuel₂, 0, cf₁, status₁, begun, fun _ =>
            ⟨cf₂, status₂, core, fun ok => absurd ok goes⟩⟩
      · exact ⟨fuel₁, 0, 0, cf₁, status₁, begun, fun ok => absurd ok begins⟩
    · have begun : (new parser).parseBegin 0 = .ok (new parser, NC_ERROR) := if_neg starts
      exact ⟨0, 0, 0, new parser, NC_ERROR, begun, nofun⟩

end NcConf

end Nutcracker
