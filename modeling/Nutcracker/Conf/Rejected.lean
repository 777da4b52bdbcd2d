/-
**Values for `listen` that are rejected.**

`NcConfListen::parse` writes the permissions and the port before it checks them, and the value and its
name before it resolves the name. `NcConf::handler` ignores the status and keeps the object, so that a
pool may listen under a rejected name at the address of an earlier value. (A server that is rejected
is deleted.) And an accepted value leaves what it does not write as an earlier value has left it: a
host has no permissions, a path no port, and a path without permissions does not get the defaults back.

* `parse_unchanged_iff` — a value leaves the object alone, if it is rejected, exactly when it is
  `Harmless`: what is written before the exit is already there.
* `parse_belongs_iff` — all parts of the object belong to a value that is accepted, exactly when it is
  `Whole`: what it does not write is as in a new object.
* `rejected_changes_nothing` — **in every sequence of values that are all harmless and whole the object
  is the one that the last accepted value left, and belongs to it**.
-/

import Nutcracker.Conf.SocketPath
import Nutcracker.Lib.Runs

namespace Nutcracker

open Lib

namespace NcConfListen

/-! ### The parts of a value, by position -/

/-- The end of the name: the last separator, or for a path without one the whole value. -/
def nameEnd (value : NcString) : Nat :=
  if value.byte 0 = 47 then (nc_strrchr value.byte 32 value.m_len).getD value.m_len
  else (nc_strrchr value.byte 58 value.m_len).getD 0

/-- The name in a value. -/
def nameOf (value : NcString) : NcString := .ofBytes value.m_data (nameEnd value)

/-- The port in a value that is not a path. -/
def portOf (value : NcString) : Int :=
  nc_atoi value.byte (nameEnd value + 1) (lengthAfter (nameEnd value) value.m_len)

/-- The permissions at the end of a path, as `mode_t`. -/
def permOf (libc : Libc) (value : NcString) : Nat :=
  ((strtol8 libc.noConversion (value.m_data.drop (nameEnd value + 1))).1 % 2 ^ libc.modeBits).toNat

/-- The name in a value is resolved, at this port. -/
def Resolves (libc : Libc) (value : NcString) (port : Int) : Prop :=
  (ncResolve libc (nameOf value) port libc.info).2 = NC_OK

/-- The value and its name are already in the object. -/
def Kept (value : NcString) (conf : NcConfListen) : Prop :=
  conf.pname = value ∧ conf.name = nameOf value

/-- **A value that leaves the object alone if it is rejected**: it has no separator, or what the
parser writes before it rejects the value is already there. -/
def Harmless (libc : Libc) (value : NcString) (conf : NcConfListen) : Prop :=
  if value.byte 0 = 47 then
    match nc_strrchr value.byte 32 value.m_len with
    | none => Resolves libc value conf.port ∨ conf.Kept value
    | some q =>
        if Refused libc (value.m_data.drop (q + 1)) then conf.perm = permOf libc value
        else Resolves libc value conf.port ∨ (conf.perm = permOf libc value ∧ conf.Kept value)
  else
    match nc_strrchr value.byte 58 value.m_len with
    | none => True
    | some _ =>
        if IsPort (portOf value) then
          Resolves libc value (portOf value) ∨ (conf.port = portOf value ∧ conf.Kept value)
        else conf.port = portOf value

/-- **A value that leaves nothing of an earlier one if it is accepted**: the fields that it does not
write are as in a new object. -/
def Whole (libc : Libc) (value : NcString) (conf : NcConfListen) : Prop :=
  if value.byte 0 = 47 then
    match nc_strrchr value.byte 32 value.m_len with
    | none => Resolves libc value conf.port → conf.port = libc.port ∧ conf.perm = libc.perm
    | some q =>
        ¬ Refused libc (value.m_data.drop (q + 1)) → Resolves libc value conf.port →
          conf.port = libc.port
  else
    match nc_strrchr value.byte 58 value.m_len with
    | none => True
    | some _ =>
        IsPort (portOf value) → Resolves libc value (portOf value) → conf.perm = libc.perm

/-! ### One value -/

variable {libc : Libc} {value : NcString} {conf : NcConfListen}

/-- The resolver's status does not depend on what was there, and its failure leaves that alone. -/
theorem ncResolve_cases (libc : Libc) (name : NcString) (port : Int) :
    (∃ found, ∀ info, ncResolve libc name port info = (found, NC_OK)) ∨
      ∀ info, ncResolve libc name port info = (info, NC_ERROR) := by
  unfold ncResolve
  by_cases empty : name.m_len = 0
  · exact Or.inr fun info => by rw [if_pos empty]; rfl
  · by_cases slash : name.byte 0 = 47
    · by_cases long : name.m_len ≥ libc.NC_UNIX_ADDRSTRLEN
      · exact Or.inr fun info => by rw [if_neg empty, if_pos slash, if_pos long]; rfl
      · exact Or.inl ⟨_, fun info => by rw [if_neg empty, if_pos slash, if_neg long]; rfl⟩
    · cases libc.getaddrinfo name.cstr port with
      | none => exact Or.inr fun info => by rw [if_neg empty, if_neg slash]; rfl
      | some found => exact Or.inl ⟨found, fun info => by rw [if_neg empty, if_neg slash]; rfl⟩

/-- **The end of the parser**: it writes the value and the name in any case. -/
theorem assign_cases (conf : NcConfListen) (libc : Libc) (value : NcString) :
    (Resolves libc value conf.port ∧ ∃ found,
      (∀ info, ncResolve libc (nameOf value) conf.port info = (found, NC_OK)) ∧
      conf.assign libc value (nameEnd value) =
        ({ conf with pname := value, name := nameOf value, info := found, valid := 1 }, NC_OK)) ∨
    (¬ Resolves libc value conf.port ∧
      conf.assign libc value (nameEnd value) =
        ({ conf with pname := value, name := nameOf value }, NC_ERROR)) := by
  rcases ncResolve_cases libc (nameOf value) conf.port with ⟨found, resolves⟩ | fails
  · refine Or.inl ⟨by rw [Resolves, resolves], found, resolves, ?_⟩
    rw [assign, show NcString.ofBytes value.m_data (nameEnd value) = nameOf value from rfl, resolves]
    rfl
  · have notOk : NC_ERROR ≠ NC_OK := by decide
    refine Or.inr ⟨by rw [Resolves, fails]; exact notOk, ?_⟩
    rw [assign, show NcString.ofBytes value.m_data (nameEnd value) = nameOf value from rfl, fails]
    rfl

/-- The parser of a path, by its parts. -/
theorem parse_slash (conf : NcConfListen) (libc : Libc) (slash : value.byte 0 = 47) :
    conf.parse libc value =
      match nc_strrchr value.byte 32 value.m_len with
      | none => conf.assign libc value (nameEnd value)
      | some q =>
          if Refused libc (value.m_data.drop (q + 1)) then
            ({ conf with perm := permOf libc value }, NC_ERROR)
          else assign libc value (nameEnd value) { conf with perm := permOf libc value } := by
  rw [parse, if_pos slash]
  cases found : nc_strrchr value.byte 32 value.m_len with
  | none =>
      have isEnd : nameEnd value = value.m_len := by simp [nameEnd, slash, found]
      rw [isEnd]
  | some q =>
      have isEnd : nameEnd value = q := by simp [nameEnd, slash, found]
      have read : conf.setPerm libc value (q + 1) = ({ conf with perm := permOf libc value },
          if Refused libc (value.m_data.drop (q + 1)) then NC_ERROR else NC_OK) := by
        rw [permOf, isEnd]
        rfl
      simp only [read, andThen, isEnd]
      by_cases refused : Refused libc (value.m_data.drop (q + 1))
      · simp [refused, NC_ERROR, NC_OK]
      · simp [refused]

/-- The parser of a host, by its parts. -/
theorem parse_noSlash (conf : NcConfListen) (libc : Libc) (slash : value.byte 0 ≠ 47) :
    conf.parse libc value =
      match nc_strrchr value.byte 58 value.m_len with
      | none => (conf, NC_ERROR)
      | some _ =>
          if IsPort (portOf value) then
            assign libc value (nameEnd value) { conf with port := portOf value }
          else ({ conf with port := portOf value }, NC_ERROR) := by
  rw [parse, if_neg slash]
  cases found : nc_strrchr value.byte 58 value.m_len with
  | none => rfl
  | some q =>
      have isEnd : nameEnd value = q := by simp [nameEnd, slash, found]
      have number : nc_atoi value.byte (q + 1) (lengthAfter q value.m_len) = portOf value := by
        rw [portOf, isEnd]
      simp only [setPort, number, andThen, invalidPort_iff, isEnd]
      by_cases isPort : IsPort (portOf value)
      · simp [isPort]
      · simp [isPort, NC_ERROR, NC_OK]

/-- The status of the end of the parser. -/
theorem assign_status_iff (conf : NcConfListen) (libc : Libc) (value : NcString) :
    (conf.assign libc value (nameEnd value)).2 = NC_OK ↔ Resolves libc value conf.port := by
  rcases conf.assign_cases libc value with ⟨resolves, found, -, assigned⟩ | ⟨fails, assigned⟩
  · rw [assigned]
    exact iff_of_true rfl resolves
  · rw [assigned]
    refine iff_of_false (fun accepted => ?_) fails
    cases accepted

/-- The name in a path, unless its length is too large to be copied, is a path or empty. -/
theorem nameOf_slash (slash : value.byte 0 = 47) (small : value.m_len + 1 < 2 ^ 32) :
    (nameOf value).m_len = 0 ∨ (nameOf value).byte 0 = 47 := by
  have short : nameEnd value ≤ value.m_len := by
    unfold nameEnd
    rw [if_pos slash]
    cases found : nc_strrchr value.byte 32 value.m_len with
    | none => exact Nat.le_refl _
    | some q => exact nc_strrchr_le found
  refine or_iff_not_imp_left.mpr fun some => ?_
  have some : nameEnd value ≠ 0 := some
  unfold nameOf NcString.ofBytes NcString.byte NcString.nc_strndup
  rw [Nat.mod_eq_of_lt (by omega)]
  unfold NcString.byte at slash
  cases bytes : value.m_data with
  | nil =>
      rw [bytes] at slash
      exact absurd slash (by decide)
  | cons first others =>
      rw [bytes] at slash
      have first : first = 47 := slash
      subst first
      obtain ⟨n, isEnd⟩ := Nat.exists_eq_succ_of_ne_zero some
      rw [isEnd]
      rfl

/-- **What was there does not matter** for the resolver of a path. -/
theorem resolves_slash (slash : value.byte 0 = 47) (small : value.m_len + 1 < 2 ^ 32)
    (port port' : Int) : Resolves libc value port ↔ Resolves libc value port' := by
  unfold Resolves ncResolve
  rcases nameOf_slash slash small with empty | path
  · rw [if_pos empty, if_pos empty]
  · rw [if_pos path, if_pos path]

/-- **A value is accepted or not, whatever was there.** -/
theorem parse_status_congr (conf conf' : NcConfListen) (libc : Libc)
    (small : value.byte 0 = 47 → value.m_len + 1 < 2 ^ 32) :
    (conf.parse libc value).2 = NC_OK ↔ (conf'.parse libc value).2 = NC_OK := by
  by_cases slash : value.byte 0 = 47
  · rw [parse_slash conf libc slash, parse_slash conf' libc slash]
    cases nc_strrchr value.byte 32 value.m_len with
    | none =>
        rw [assign_status_iff, assign_status_iff]
        exact resolves_slash slash (small slash) _ _
    | some q =>
        by_cases refused : Refused libc (value.m_data.drop (q + 1))
        · simp only [if_pos refused]
        · simp only [if_neg refused]
          rw [assign_status_iff, assign_status_iff]
          exact resolves_slash slash (small slash) _ _
  · rw [parse_noSlash conf libc slash, parse_noSlash conf' libc slash]
    cases nc_strrchr value.byte 58 value.m_len with
    | none => exact Iff.rfl
    | some q =>
        by_cases isPort : IsPort (portOf value)
        · simp only [if_pos isPort]
          rw [assign_status_iff, assign_status_iff]
        · simp only [if_neg isPort]

/-- **The end of the parser leaves another object alone**, if it fails, exactly when the value and
the name are there. -/
theorem assign_unchanged_iff (conf before : NcConfListen) (libc : Libc) (value : NcString)
    (written : before.pname = conf.pname ∧ before.name = conf.name ∧ before.info = conf.info ∧
      before.valid = conf.valid) :
    ((conf.assign libc value (nameEnd value)).2 = NC_ERROR →
      (conf.assign libc value (nameEnd value)).1 = before) ↔
    Resolves libc value conf.port ∨
      (before.port = conf.port ∧ before.perm = conf.perm ∧ before.Kept value) := by
  obtain ⟨pname, name, info, valid⟩ := written
  rcases conf.assign_cases libc value with ⟨resolves, found, -, assigned⟩ | ⟨fails, assigned⟩
  · rw [assigned]
    refine ⟨fun _ => Or.inl resolves, fun _ rejected => ?_⟩
    cases rejected
  · rw [assigned]
    constructor
    · intro same
      have same := same rfl
      refine Or.inr ?_
      rw [← same]
      exact ⟨rfl, rfl, rfl, rfl⟩
    · rintro (resolves | ⟨port, perm, keptP, keptN⟩) -
      · exact absurd resolves fails
      · obtain ⟨pname', name', port', perm', info', valid'⟩ := before
        simp only at pname name info valid port perm keptP keptN
        subst port perm info valid keptP keptN
        rfl

/-- **One value**: if it is rejected the object is as before, exactly when the value is harmless. -/
theorem parse_unchanged_iff (libc : Libc) (value : NcString) (conf : NcConfListen) :
    ((conf.parse libc value).2 = NC_ERROR → (conf.parse libc value).1 = conf) ↔
      conf.Harmless libc value := by
  by_cases slash : value.byte 0 = 47
  · rw [parse_slash conf libc slash, Harmless, if_pos slash]
    cases nc_strrchr value.byte 32 value.m_len with
    | none =>
        rw [assign_unchanged_iff conf conf libc value ⟨rfl, rfl, rfl, rfl⟩]
        simp
    | some q =>
        by_cases refused : Refused libc (value.m_data.drop (q + 1))
        · simp only [if_pos refused, true_implies]
          constructor
          · intro same
            rw [← same]
          · intro same
            rw [← same]
        · simp only [if_neg refused]
          rw [assign_unchanged_iff { conf with perm := permOf libc value } conf libc value
            ⟨rfl, rfl, rfl, rfl⟩]
          simp
  · rw [parse_noSlash conf libc slash, Harmless, if_neg slash]
    cases nc_strrchr value.byte 58 value.m_len with
    | none => simp
    | some q =>
        by_cases isPort : IsPort (portOf value)
        · simp only [if_pos isPort]
          rw [assign_unchanged_iff { conf with port := portOf value } conf libc value
            ⟨rfl, rfl, rfl, rfl⟩]
          simp
        · simp only [if_neg isPort, true_implies]
          constructor
          · intro same
            rw [← same]
          · intro same
            rw [← same]

/-! ### Sequences of values -/

/-- The port that belongs to a value: a path has none, so it is that of a new object. -/
def portFor (libc : Libc) (value : NcString) : Int :=
  if value.byte 0 = 47 then libc.port else portOf value

/-- The permissions that belong to a value: those of a new object, unless it is a path that has its
own. -/
def permFor (libc : Libc) (value : NcString) : Nat :=
  if value.byte 0 = 47 then
    match nc_strrchr value.byte 32 value.m_len with
    | none => libc.perm
    | some _ => permOf libc value
  else libc.perm

/-- **All parts of the object belong to this value.** -/
structure BelongsTo (libc : Libc) (value : NcString) (conf : NcConfListen) : Prop where
  pname : conf.pname = value
  name : conf.name = nameOf value
  port : conf.port = portFor libc value
  perm : conf.perm = permFor libc value
  info : ∀ info, ncResolve libc conf.name conf.port info = (conf.info, NC_OK)
  valid : conf.valid = 1

/-- **The end of the parser**: if it succeeds, the port and the permissions are those that were there. -/
theorem assign_belongs_iff (conf : NcConfListen) (libc : Libc) (value : NcString) :
    ((conf.assign libc value (nameEnd value)).2 = NC_OK →
      BelongsTo libc value (conf.assign libc value (nameEnd value)).1) ↔
    (Resolves libc value conf.port → conf.port = portFor libc value ∧ conf.perm = permFor libc value) := by
  rcases conf.assign_cases libc value with ⟨resolves, found, always, assigned⟩ | ⟨fails, assigned⟩
  · rw [assigned]
    constructor
    · intro belongs _
      exact ⟨(belongs rfl).port, (belongs rfl).perm⟩
    · intro own _
      obtain ⟨port, perm⟩ := own resolves
      exact ⟨rfl, rfl, port, perm, always, rfl⟩
  · rw [assigned]
    refine iff_of_true (fun accepted => ?_) fun resolves => absurd resolves fails
    cases accepted

/-- **One value**: if it is accepted the object belongs to it, exactly when the value is whole. -/
theorem parse_belongs_iff (libc : Libc) (value : NcString) (conf : NcConfListen) :
    ((conf.parse libc value).2 = NC_OK → BelongsTo libc value (conf.parse libc value).1) ↔
      conf.Whole libc value := by
  have rejects : ∀ conf : NcConfListen, NC_ERROR = NC_OK → BelongsTo libc value conf := fun _ same =>
    absurd same (by decide)
  by_cases slash : value.byte 0 = 47
  · have port : portFor libc value = libc.port := if_pos slash
    rw [parse_slash conf libc slash, Whole, if_pos slash]
    cases found : nc_strrchr value.byte 32 value.m_len with
    | none =>
        have perm : permFor libc value = libc.perm := by simp [permFor, slash, found]
        rw [assign_belongs_iff conf libc value, port, perm]
    | some q =>
        have perm : permFor libc value = permOf libc value := by simp [permFor, slash, found]
        by_cases refused : Refused libc (value.m_data.drop (q + 1))
        · simp only [if_pos refused]
          exact iff_of_true (rejects _) (absurd refused)
        · simp only [if_neg refused]
          rw [assign_belongs_iff { conf with perm := permOf libc value } libc value, port, perm]
          simp [refused]
  · have port : portFor libc value = portOf value := if_neg slash
    have perm : permFor libc value = libc.perm := if_neg slash
    rw [parse_noSlash conf libc slash, Whole, if_neg slash]
    cases nc_strrchr value.byte 58 value.m_len with
    | none => exact iff_of_true (rejects _) trivial
    | some q =>
        by_cases isPort : IsPort (portOf value)
        · simp only [if_pos isPort]
          rw [assign_belongs_iff { conf with port := portOf value } libc value, port, perm]
          simp [isPort]
        · simp only [if_neg isPort]
          exact iff_of_true (rejects _) fun is => absurd is isPort

/-- The parser returns one of two values. -/
theorem parse_status (conf : NcConfListen) (libc : Libc) (value : NcString) :
    (conf.parse libc value).2 = NC_OK ∨ (conf.parse libc value).2 = NC_ERROR := by
  have ended : ∀ conf : NcConfListen, (conf.assign libc value (nameEnd value)).2 = NC_OK ∨
      (conf.assign libc value (nameEnd value)).2 = NC_ERROR := by
    intro conf
    rcases conf.assign_cases libc value with ⟨-, found, -, assigned⟩ | ⟨-, assigned⟩
    · exact Or.inl (by rw [assigned])
    · exact Or.inr (by rw [assigned])
  by_cases slash : value.byte 0 = 47
  · rw [parse_slash conf libc slash]
    cases nc_strrchr value.byte 32 value.m_len with
    | none => exact ended conf
    | some q =>
        by_cases refused : Refused libc (value.m_data.drop (q + 1))
        · exact Or.inr (by simp [refused])
        · simp only [if_neg refused]
          exact ended _
  · rw [parse_noSlash conf libc slash]
    cases nc_strrchr value.byte 58 value.m_len with
    | none => exact Or.inr rfl
    | some q =>
        by_cases isPort : IsPort (portOf value)
        · simp only [if_pos isPort]
          exact ended _
        · exact Or.inr (by simp [isPort])

/-- **The values for `listen` of one pool**, one after the other; with the last one that was accepted,
and the object that it left. -/
def listenRuns (libc : Libc) : System (NcConfListen × Option (NcString × NcConfListen)) NcString where
  init s := s = (new libc, none)
  step s value s' := s'.1 = (s.1.parse libc value).1 ∧
    s'.2 = if (s.1.parse libc value).2 = NC_OK then some (value, s'.1) else s.2

/-- **A rejected value changes nothing** exactly when it is harmless, and the object belongs to an
accepted value exactly when that is whole; and in every sequence of values that are both the object is
the one that the last accepted value left, and belongs to it. -/
theorem rejected_changes_nothing (libc : Libc) :
    (∀ (value : NcString) (conf : NcConfListen),
      (((conf.parse libc value).2 = NC_ERROR → (conf.parse libc value).1 = conf) ↔
        conf.Harmless libc value) ∧
      (((conf.parse libc value).2 = NC_OK → BelongsTo libc value (conf.parse libc value).1) ↔
        conf.Whole libc value)) ∧
    ∀ conf last,
      ((listenRuns libc).guarded fun s value =>
        s.1.Harmless libc value ∧ s.1.Whole libc value).Reach (conf, last) →
        (last = none → conf = new libc) ∧
          ∀ value accepted, last = some (value, accepted) →
            conf = accepted ∧ conf.BelongsTo libc value := by
  refine ⟨fun value conf => ⟨parse_unchanged_iff libc value conf, parse_belongs_iff libc value conf⟩,
    fun conf last reached => ?_⟩
  let I : NcConfListen × Option (NcString × NcConfListen) → Prop := fun s =>
    (s.2 = none → s.1 = new libc) ∧ ∀ value accepted, s.2 = some (value, accepted) →
      s.1 = accepted ∧ s.1.BelongsTo libc value
  refine reached.invariant (I := I) (fun s isStart => ?_) fun s value s' _ holds step => ?_
  · rw [show s = (new libc, none) from isStart]
    exact ⟨fun _ => rfl, nofun⟩
  · obtain ⟨⟨harmless, whole⟩, parsed, latest⟩ := step
    rcases s.1.parse_status libc value with accepted | rejected
    · rw [if_pos accepted] at latest
      refine ⟨fun isNone => ?_, fun value' accepted' isLast => ?_⟩
      · rw [latest] at isNone
        cases isNone
      · rw [latest] at isLast
        cases isLast
        rw [parsed]
        exact ⟨rfl, (parse_belongs_iff libc value s.1).mpr whole accepted⟩
    · have notOk : (s.1.parse libc value).2 ≠ NC_OK := by
        rw [rejected]
        decide
      have same : s'.1 = s.1 := by
        rw [parsed]
        exact (parse_unchanged_iff libc value s.1).mpr harmless rejected
      rw [if_neg notOk] at latest
      show (s'.2 = none → s'.1 = new libc) ∧ _
      rw [same, latest]
      exact holds

/-- The object after the value `127.0.0.1:1`. -/
def afterOne : NcConfListen :=
  ((new loopback).parse loopback
    (.ofText [49, 50, 55, 46, 48, 46, 48, 46, 49, 58, 49])).1

/-- **`127.0.0.1:1` and then `x`**, which has no colon: the object belongs to the first. -/
theorem rejected_without_colon :
    (afterOne.parse loopback (.ofText [120])).1 = afterOne ∧
      afterOne.BelongsTo loopback (.ofText [49, 50, 55, 46, 48, 46, 48, 46, 49, 58, 49]) := by
  have accepted : ((new loopback).parse loopback
      (.ofText [49, 50, 55, 46, 48, 46, 48, 46, 49, 58, 49])).2 = NC_OK := by decide
  have rejected : (afterOne.parse loopback (.ofText [120])).2 = NC_ERROR := by decide
  have accepts : (new loopback).Harmless loopback
      (.ofText [49, 50, 55, 46, 48, 46, 48, 46, 49, 58, 49]) := by
    refine (parse_unchanged_iff loopback _ _).mp fun isRejected => ?_
    rw [accepted] at isRejected
    cases isRejected
  have whole : (new loopback).Whole loopback
      (.ofText [49, 50, 55, 46, 48, 46, 48, 46, 49, 58, 49]) := fun _ _ => rfl
  have harmless : afterOne.Harmless loopback (.ofText [120]) := by
    refine (parse_unchanged_iff loopback _ _).mp fun _ => ?_
    have same : afterOne.parse loopback (.ofText [120]) = (afterOne, NC_ERROR) := rfl
    rw [same]
  obtain ⟨exactly, runs⟩ := rejected_changes_nothing loopback
  have start : ((listenRuns loopback).guarded fun s value =>
      s.1.Harmless loopback value ∧ s.1.Whole loopback value).Reach (new loopback, none) := .start rfl
  have reached : ((listenRuns loopback).guarded fun s value =>
      s.1.Harmless loopback value ∧ s.1.Whole loopback value).Reach
        (afterOne, some (.ofText [49, 50, 55, 46, 48, 46, 48, 46, 49, 58, 49], afterOne)) :=
    start.next ⟨⟨accepts, whole⟩, rfl, rfl⟩
  exact ⟨(exactly _ _).1.mpr harmless rejected, ((runs _ _ reached).2 _ _ rfl).2⟩

/-- **`127.0.0.1:1` and then `x:2`**, whose name is unknown: the object has the name and the port of
the second, and is valid with the address of the first. After `127.0.0.1:1` and then the path `/b` it
has the port of the first, and after the paths `/a 644` and then `/b` the permissions of the first. -/
theorem half_updated :
    (afterOne.parse loopback (.ofText [120, 58, 50])).2 = NC_ERROR ∧
      (afterOne.parse loopback (.ofText [120, 58, 50])).1.name.cstr = [120] ∧
      (afterOne.parse loopback (.ofText [120, 58, 50])).1.port = 2 ∧ afterOne.port = 1 ∧
      (afterOne.parse loopback (.ofText [120, 58, 50])).1.info = .addr 2 [127, 0, 0, 1] ∧
      (afterOne.parse loopback (.ofText [120, 58, 50])).1.valid = 1 ∧
      (afterOne.parse loopback (.ofText [120, 58, 50])).1 ≠ afterOne ∧
      (afterOne.parse loopback (.ofText [47, 98])).2 = NC_OK ∧
      ¬ BelongsTo loopback (.ofText [47, 98]) (afterOne.parse loopback (.ofText [47, 98])).1 ∧
      ¬ BelongsTo loopback (.ofText [47, 98])
        (((new loopback).parse loopback (.ofText [47, 97, 32, 54, 52, 52])).1.parse loopback
          (.ofText [47, 98])).1 := by
  refine ⟨by decide, by decide, by decide, by decide, by decide, by decide, ?_, by decide,
    fun belongs => absurd belongs.port (by decide), fun belongs => absurd belongs.perm (by decide)⟩
  intro same
  have port := congrArg NcConfListen.port same
  revert port
  decide

end NcConfListen

end Nutcracker
