/-
**The stream, as the reader takes it.**

What `parseCore` does with an event is settled by the events before it. `Seen` are the events since the
start of the first mapping, the latest first, and the functions on them are the rule that the reader
follows, stated on the file alone.

* `Seen.depth`, `Seen.inSequence`, `Seen.pools` — the mappings that are open, whether a sequence is, and
  the pools that are named.
* `Seen.waiting` — **the scalars that wait**: names of pools whose mapping has not ended, and keys without
  a value.
* `Seen.Going` — the reader has not returned.
* `Seen.entry` — the key and the value that `handler` takes from a scalar.
* `entry_below` — with a key that waits, they are that key and the scalar.
* `YamlParser.IsValue` — the values of a key as the file has them, in any document and at any depth.
-/

import Nutcracker.Conf.Model

namespace Nutcracker

/-- The events from the start of the first mapping on. -/
def YamlParser.body (parser : YamlParser) : List YamlEvent :=
  (parser.events.dropWhile (· ≠ .mappingStart)).tail

def YamlEvent.isScalar : YamlEvent → Bool
  | .scalar _ => true
  | _ => false

/-- The depth after an event. -/
def depthAfter : YamlEvent → UInt32 → UInt32
  | .mappingStart, depth => depth + 1
  | .mappingEnd, depth => depth - 1
  | _, depth => depth

/-- The string of a scalar. -/
def NcString.stored (value : List UInt8) : NcString := .ofBytes value (value.length % 2 ^ 32)

namespace ConfKey

def text : ConfKey → List UInt8
  | .listen => NcConf.listenText
  | .servers => NcConf.serversText

/-- The key that a string is, if `handler` parses its values. -/
def of (key : NcString) : Option ConfKey :=
  if key.eqText NcConf.listenText then some .listen
  else if key.eqText NcConf.serversText then some .servers
  else none

/-- **The parser for the key accepts the value.** What is parsed into does not matter: it is a new
object here. -/
def Accepts (libc : Libc) (value : NcString) : ConfKey → Prop
  | .listen => ((NcConfListen.new libc).parse libc value).2 = NC_OK
  | .servers => ((NcConfServer.new libc).parse libc value).2 = NC_OK

end ConfKey

/-- **The events since the start of the first mapping**, the latest first. -/
abbrev Seen := List YamlEvent

namespace Seen

/-- The mappings that are open, as an `uint32_t`. -/
def depth : Seen → UInt32
  | [] => CONF_ROOT_DEPTH
  | event :: seen => depthAfter event (depth seen)

/-- A sequence was started, and none was ended since. -/
def inSequence : Seen → Bool
  | [] => false
  | .sequenceStart :: _ => true
  | .sequenceEnd :: _ => false
  | _ :: seen => inSequence seen

/-- With `waits` scalars waiting in a mapping below the first one, the next one is a value: there is one
for each mapping, and a key. -/
def Full (depth : UInt32) (waits : Nat) : Prop :=
  depth ≠ CONF_ROOT_DEPTH ∧ waits + 1 = (depth + 1).toNat

instance (depth : UInt32) (waits : Nat) : Decidable (Full depth waits) :=
  inferInstanceAs (Decidable (_ ∧ _))

/-- **The scalars that wait**, the latest first. A scalar outside a sequence waits, unless it is a value:
then its key waits no longer. The end of a sequence, and the end of a mapping in the first one, is taken
for the end of what the latest one waits for. -/
def waiting : Seen → List (List UInt8)
  | [] => []
  | .scalar value :: seen =>
      if inSequence seen then waiting seen
      else if Full (depth seen) (waiting seen).length then (waiting seen).tail
      else value :: waiting seen
  | .sequenceEnd :: seen => (waiting seen).tail
  | .mappingEnd :: seen => if depth seen = 2 then (waiting seen).tail else waiting seen
  | _ :: seen => waiting seen

/-- The next scalar is the name of a pool. -/
def Names (seen : Seen) : Prop := inSequence seen = false ∧ depth seen = CONF_ROOT_DEPTH

/-- The next scalar is a value. -/
def Leaf (seen : Seen) : Prop :=
  inSequence seen = true ∨ Full (depth seen) (waiting seen).length

instance (seen : Seen) : Decidable (Names seen) := inferInstanceAs (Decidable (_ ∧ _))

instance (seen : Seen) : Decidable (Leaf seen) := inferInstanceAs (Decidable (_ ∨ _))

/-- The pools that were named. -/
def pools : Seen → Nat
  | [] => 0
  | .scalar _ :: seen => if Names seen then pools seen + 1 else pools seen
  | _ :: seen => pools seen

/-- The pool that was named last. -/
def data (seen : Seen) : Option Nat := if pools seen = 0 then none else some (pools seen - 1)

/-- The reader returns at the event: it ends the first mapping, or is an empty scalar. -/
def Stops (seen : Seen) : YamlEvent → Prop
  | .mappingEnd => depth seen = 1
  | .scalar value => value.length % 2 ^ 32 = 0
  | _ => False

/-- **The reader goes on**: it did not return at any of the events. -/
def Going : Seen → Prop
  | [] => True
  | event :: seen => ¬ Stops seen event ∧ Going seen

instance (seen : Seen) (event : YamlEvent) : Decidable (Stops seen event) :=
  match event with
  | .mappingEnd => inferInstanceAs (Decidable (depth seen = 1))
  | .scalar value => inferInstanceAs (Decidable (value.length % 2 ^ 32 = 0))
  | .noEvent | .streamStart | .streamEnd | .documentStart | .documentEnd | .aliased
  | .sequenceStart | .sequenceEnd | .mappingStart => inferInstanceAs (Decidable False)

instance : (seen : Seen) → Decidable (Going seen)
  | [] => inferInstanceAs (Decidable True)
  | event :: seen =>
      have : Decidable (Going seen) := instDecidableGoing seen
      inferInstanceAs (Decidable (¬ Stops seen event ∧ Going seen))

/-- The key and the value that `handler` takes, where `value` is the latest scalar and those in `waits`
wait: the last two of the first `narg`. -/
def entry (waits : List (List UInt8)) (value : List UInt8) : Option (ConfKey × NcString) :=
  let args := (value :: waits).reverse.map .stored
  let narg := args.length % 2 ^ 32
  if narg ≤ 1 then none
  else (ConfKey.of (args.getD (narg - 2) .empty)).map fun key => (key, args.getD (narg - 1) .empty)

/-- **What `handler` takes from an event**, the name of a pool or a value. -/
def given (seen : Seen) : YamlEvent → Option (ConfKey × NcString)
  | .scalar value => if Names seen ∨ Leaf seen then entry (waiting seen) value else none
  | _ => none

/-- What `handler` comes to at an event that `rest` is left after. -/
def takenAt (seen : Seen) (event : YamlEvent) (rest : List YamlEvent) : Option Handled :=
  (given seen event).map fun taken => ⟨taken.1, data (event :: seen), taken.2, rest⟩

/-- **All that `handler` came to**, the latest first, where `rest` is left. -/
def taken : Seen → List YamlEvent → List Handled
  | [], _ => []
  | event :: seen, rest => (takenAt seen event rest).toList ++ taken seen (event :: rest)

/-- The value needs a pool: `handler` follows `data`. -/
def NeedsPool (libc : Libc) (waits : List (List UInt8)) (value : List UInt8) : Prop :=
  ∃ key value', entry waits value = some (key, value') ∧
    (key = .listen ∨ key.Accepts libc value')

/-- **What an event needs.** The end of a sequence or of a mapping in the first one needs a scalar that
waits. So does a value outside a sequence; and one that needs a pool must come after the name of one. -/
def Safe (libc : Libc) (seen : Seen) : YamlEvent → Prop
  | .mappingEnd => depth seen = 2 → waiting seen ≠ []
  | .sequenceEnd => waiting seen ≠ []
  | .scalar value => value.length % 2 ^ 32 ≠ 0 → Leaf seen →
      (pools seen ≠ 0 ∨ ¬ NeedsPool libc (waiting seen) value) ∧
        (inSequence seen = true ∨ waiting seen ≠ [])
  | _ => True

variable {seen : Seen}

/-- A name is no value. -/
theorem Names.not_leaf (names : Names seen) : ¬ Leaf seen := by
  rintro (inside | full)
  · rw [names.1] at inside
    cases inside
  · exact full.1 names.2

/-- The pools after a scalar. -/
theorem data_scalar (value : List UInt8) (seen : Seen) :
    data (.scalar value :: seen) = if Names seen then some (pools seen) else data seen := by
  unfold data
  by_cases names : Names seen
  · rw [if_pos names, pools, if_pos names, if_neg (Nat.succ_ne_zero _), Nat.add_sub_cancel]
  · rw [if_neg names, pools, if_neg names]

/-- The events that name no pool. -/
theorem pools_cons {event : YamlEvent} (other : event.isScalar = false) (seen : Seen) :
    pools (event :: seen) = pools seen := by
  cases event with
  | scalar value => cases other
  | _ => rfl

theorem given_cons {event : YamlEvent} (other : event.isScalar = false) (seen : Seen) :
    given seen event = none := by
  cases event with
  | scalar value => cases other
  | _ => rfl

/-- What was taken, with the events that were left then. -/
theorem mem_taken {seen : Seen} {rest : List YamlEvent} {called : Handled} :
    called ∈ taken seen rest ↔ ∃ later before event, seen = later ++ event :: before ∧
      takenAt before event (later.reverse ++ rest) = some called := by
  induction seen generalizing rest with
  | nil =>
      refine iff_of_false nofun ?_
      rintro ⟨later, before, event, split, -⟩
      exact absurd split (by simp)
  | cons event seen ih =>
      rw [taken, List.mem_append, Option.mem_toList, ih]
      constructor
      · rintro (latest | ⟨later, before, event', split, taken⟩)
        · exact ⟨[], seen, event, rfl, latest⟩
        · refine ⟨event :: later, before, event', congrArg (event :: ·) split, ?_⟩
          rw [List.reverse_cons, List.append_assoc]
          exact taken
      · rintro ⟨later, before, event', split, taken⟩
        cases later with
        | nil =>
            obtain ⟨rfl, rfl⟩ := List.cons.inj split
            exact Or.inl taken
        | cons first later =>
            obtain ⟨rfl, inner⟩ := List.cons.inj split
            refine Or.inr ⟨later, before, event', inner, ?_⟩
            rw [List.reverse_cons, List.append_assoc] at taken
            exact taken

/-- The reader goes on to all of the events, if it does to the latest. -/
theorem Going.before {later before : Seen} (going : Going (later ++ before)) : Going before := by
  induction later with
  | nil => exact going
  | cons event later ih => exact ih going.2

/-- Of two events at which the reader comes to, **it stops at the later one only**. -/
theorem Going.before_stop {seen before : Seen} {event last : YamlEvent} {rest left : List YamlEvent}
    (going : Going (event :: before)) (stops : Stops seen last)
    (same : before.reverse ++ event :: rest = seen.reverse ++ last :: left) :
    ∃ later, seen = later ++ event :: before ∧ rest = later.reverse ++ last :: left := by
  -- else the reader has stopped already
  have never (cut : ∃ later, event :: before = later ++ last :: seen) : False := by
    obtain ⟨later, split⟩ := cut
    rw [split] at going
    exact going.before.1 stops
  have ends (reversed : List YamlEvent) (prefixes : before.reverse = seen.reverse ++ reversed)
      (rests : last :: left = reversed ++ event :: rest) : False := by
    refine never ?_
    rw [← List.reverse_reverse before, prefixes, List.reverse_append, List.reverse_reverse]
    cases reversed with
    | nil =>
        obtain ⟨rfl, rfl⟩ := List.cons.inj rests
        exact ⟨[], rfl⟩
    | cons first others =>
        obtain ⟨rfl, rfl⟩ := List.cons.inj rests
        exact ⟨event :: others.reverse, by simp⟩
  rcases List.append_eq_append_iff.mp same with
    ⟨reversed, prefixes, rests⟩ | ⟨reversed, prefixes, rests⟩
  · cases reversed with
    | nil => exact (ends [] (by simpa using prefixes.symm) rests.symm).elim
    | cons first others =>
        obtain ⟨rfl, rest⟩ := List.cons.inj rests
        refine ⟨others.reverse, ?_, ?_⟩
        · rw [← List.reverse_reverse seen, prefixes, List.reverse_append, List.reverse_reverse]
          simp
        · rw [List.reverse_reverse]
          exact rest
  · exact (ends reversed prefixes rests).elim

/-- A pool was named for every index below the number of pools. -/
theorem lt_pools_iff {seen : Seen} {i : Nat} :
    i < pools seen ↔ ∃ later name before, seen = later ++ .scalar name :: before ∧ Names before ∧
      pools before = i := by
  induction seen with
  | nil =>
      refine iff_of_false (Nat.not_lt_zero i) ?_
      rintro ⟨later, name, before, split, -⟩
      exact absurd split (by simp)
  | cons event seen ih =>
      have older : (∃ later name before, event :: seen = later ++ .scalar name :: before ∧
          Names before ∧ pools before = i) ↔
          (∃ name, event = .scalar name ∧ Names seen ∧ pools seen = i) ∨ i < pools seen := by
        rw [ih]
        constructor
        · rintro ⟨later, name, before, split, named⟩
          cases later with
          | nil =>
              obtain ⟨rfl, rfl⟩ := List.cons.inj split
              exact Or.inl ⟨name, rfl, named⟩
          | cons first later =>
              exact Or.inr ⟨later, name, before, (List.cons.inj split).2, named⟩
        · rintro (⟨name, rfl, named⟩ | ⟨later, name, before, split, named⟩)
          · exact ⟨[], name, seen, rfl, named⟩
          · exact ⟨event :: later, name, before, congrArg (event :: ·) split, named⟩
      rw [older]
      cases event with
      | scalar value =>
          by_cases names : Names seen
          · rw [pools, if_pos names, Nat.lt_succ_iff_lt_or_eq, or_comm]
            refine or_congr_left ⟨fun same => ⟨value, rfl, names, same.symm⟩, ?_⟩
            rintro ⟨-, -, -, same⟩
            exact same.symm
          · rw [pools, if_neg names, or_iff_right]
            rintro ⟨-, -, named, -⟩
            exact names named
      | _ =>
          rw [pools_cons rfl, or_iff_right]
          rintro ⟨name, same, -⟩
          cases same

/-- Of fewer than `2 ^ 32` scalars **the key is the latest one that waits**. -/
theorem entry_below (value key : List UInt8) (waits : List (List UInt8))
    (few : waits.length + 2 < 2 ^ 32) :
    entry (key :: waits) value = (ConfKey.of (.stored key)).map fun key => (key, .stored value) := by
  have args : (value :: key :: waits).reverse.map NcString.stored =
      waits.reverse.map NcString.stored ++ [NcString.stored key, NcString.stored value] := by simp
  have length : (waits.reverse.map NcString.stored).length = waits.length := by simp
  unfold entry
  simp only [args, List.length_append, length, List.length_cons, List.length_nil]
  rw [Nat.mod_eq_of_lt few, if_neg (by omega), show waits.length + 2 - 2 = waits.length from rfl,
    show waits.length + 2 - 1 = waits.length + 1 from rfl]
  generalize waits.reverse.map NcString.stored = before at length
  have first : (before ++ [NcString.stored key, .stored value]).getD waits.length .empty =
      .stored key := by
    simp [← length]
  have second : (before ++ [NcString.stored key, .stored value]).getD (waits.length + 1) .empty =
      .stored value := by
    simp [← length]
  rw [first, second]

end Seen

/-! ### The values of a file -/

/-- A sequence or a mapping that is open. -/
inductive Frame
  /-- With the key whose values the items are. -/
  | sequence (key : Option (List UInt8))
  /-- With the key whose value is next; the key is none if it is no scalar. -/
  | mapping (key : Option (Option (List UInt8)))

namespace Frame

/-- The key whose value the next node is. -/
def key : List Frame → Option (List UInt8)
  | .mapping (some key) :: _ => key
  | .sequence key :: _ => key
  | _ => none

/-- A node ends, where `text` is its scalar: in a mapping it is a key or a value, by turns. -/
def close (text : Option (List UInt8)) : List Frame → List Frame
  | .mapping none :: frames => .mapping (some text) :: frames
  | .mapping (some _) :: frames => .mapping none :: frames
  | frames => frames

/-- **What is open after some events of the stream**, the latest first. -/
def after : List YamlEvent → List Frame
  | [] => []
  | .scalar value :: before => close (some value) (after before)
  | .aliased :: before => close none (after before)
  | .sequenceStart :: before => .sequence (key (after before)) :: after before
  | .mappingStart :: before => .mapping none :: after before
  | .sequenceEnd :: before => close none (after before).tail
  | .mappingEnd :: before => close none (after before).tail
  | .documentStart :: _ => []
  | _ :: before => after before

end Frame

/-- A node starts at the event. -/
def YamlEvent.StartsNode : YamlEvent → Bool
  | .scalar _ | .aliased | .sequenceStart | .mappingStart => true
  | _ => false

namespace YamlParser

/-- **A value of the key in the file**, at the event between `before` and `rest`: a scalar, an alias or a
mapping that follows the key, or is in a sequence that does. -/
def IsValue (parser : YamlParser) (key : ConfKey) (before : List YamlEvent) (event : YamlEvent)
    (rest : List YamlEvent) : Prop :=
  parser.events = before.reverse ++ event :: rest ∧ Frame.key (Frame.after before) = some key.text ∧
    event.StartsNode ∧ event ≠ .sequenceStart

/-- **The reader gives a value to the parser of the key**, for a pool: at the event before `rest`, which
is in the first mapping. -/
def Gives (parser : YamlParser) (key : ConfKey) (data : Option Nat) (value : NcString)
    (rest : List YamlEvent) : Prop :=
  ∃ (seen : Seen) (event : YamlEvent), parser.body = seen.reverse ++ event :: rest ∧
    Seen.Going (event :: seen) ∧ seen.given event = some (key, value) ∧
      data = Seen.data (event :: seen)

/-- The file names a pool: it is the one with this index. -/
def NamesPool (parser : YamlParser) (i : Nat) : Prop :=
  ∃ (seen : Seen) (name : List UInt8) (rest : List YamlEvent),
    parser.body = seen.reverse ++ .scalar name :: rest ∧ Seen.Going (.scalar name :: seen) ∧
      seen.Names ∧ seen.pools = i

end YamlParser

end Nutcracker
