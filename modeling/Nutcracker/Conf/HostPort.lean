/-
**Addresses with a port.**

A value that does not begin with a slash is `hostname:port`, and for a server `hostname:port:weight`.
Both are read from the end, so the host may itself contain colons. `getaddrinfo` is a parameter, and
the theorem asks that it knows the name.

* `NcConfListen.parse_host`, `parse_host_none` — what the parser does with a value that has a host
  before its last colon, and with any other; `NcConfServer.parse_host`, `parse_host_none` — the same
  with the last two colons.
* `address_grammar` — **which values are accepted, and what is then in the object**.
-/

import Nutcracker.Conf.Address
import Nutcracker.Text.Number

namespace Nutcracker

/-- `hostname:port`, split at the last colon. -/
def HostPort (text h p : List UInt8) : Prop := text = h ++ 58 :: p ∧ 58 ∉ p

/-- `hostname:port:weight`, split at the last two colons. -/
def HostPortWeight (text h p w : List UInt8) : Prop :=
  text = h ++ 58 :: (p ++ 58 :: w) ∧ 58 ∉ p ∧ 58 ∉ w

theorem HostPortWeight.unique {text h h' p p' w w' : List UInt8}
    (split : HostPortWeight text h p w) (split' : HostPortWeight text h' p' w') :
    h = h' ∧ p = p' ∧ w = w' := by
  obtain ⟨parts, lastP, lastW⟩ := split
  obtain ⟨parts', lastP', lastW'⟩ := split'
  have same : (h ++ 58 :: p) ++ 58 :: w = (h' ++ 58 :: p') ++ 58 :: w' := by
    rw [List.append_assoc, List.append_assoc, List.cons_append, List.cons_append, ← parts, ← parts']
  obtain ⟨sameU, sameW⟩ := last_unique same lastW lastW'
  obtain ⟨sameH, sameP⟩ := last_unique sameU lastP lastP'
  exact ⟨sameH, sameP, sameW⟩

theorem HostPort.unique {text h h' p p' : List UInt8} (split : HostPort text h p)
    (split' : HostPort text h' p') : h = h' ∧ p = p' :=
  last_unique (split.1.symm.trans split'.1) split.2 split'.2

/-- A port that `ncValidPort` takes. -/
def IsPort (n : Int) : Prop := 1 ≤ n ∧ n ≤ 65535

instance (n : Int) : Decidable (IsPort n) := inferInstanceAs (Decidable (_ ∧ _))

theorem invalidPort_iff (n : Int) : (n < 0 ∨ ncValidPort n = false) ↔ ¬ IsPort n := by
  simp [ncValidPort, IsPort]
  omega

/-- The length between two positions. -/
theorem lengthAfter_eq {q n last : Nat} (same : last = q + 1 + n) (short : last < 2 ^ 32) :
    NcConfListen.lengthAfter q last = n := by
  have exactly : ((last : Int) - q - 1) = n := by omega
  have bound : (n : Int) < 2 ^ 32 := by omega
  rw [NcConfListen.lengthAfter, exactly, Int.emod_eq_of_lt (Int.natCast_nonneg n) bound,
    Int.toNat_natCast]

section Resolve

variable {libc : Libc} {name : NcString} {h : List UInt8} {port : Int} {info : SockInfo}

/-- **A host name** goes to the resolver. -/
theorem ncResolve_host (spells : Spells name h) (nonempty : h ≠ []) (notPath : h.head? ≠ some 47) :
    ncResolve libc name port info =
      match libc.getaddrinfo h port with
      | none => (info, -1)
      | some found => (found, 0) := by
  obtain ⟨b, rest, rfl⟩ := List.exists_cons_of_ne_nil nonempty
  have notZero : name.m_len ≠ 0 := by
    rw [spells.len]
    simp
  have first : name.byte 0 ≠ 47 := by
    rw [spells.byte (Nat.zero_le _)]
    intro same
    exact notPath (by rw [List.head?_cons, ← same]; rfl)
  rw [ncResolve, if_neg notZero, if_neg first]
  exact spells.cstr ▸ rfl

end Resolve

/-! ### The parts of a value -/

section Parts

variable {value : NcString} {text : List UInt8}

/-- The number in the middle of a value. -/
theorem Spells.atoi (spells : Spells value text) {u p v : List UInt8} (parts : text = u ++ p ++ v) :
    nc_atoi value.byte u.length p.length = atoi p := by
  refine nc_atoi_eq fun i inside => ?_
  have within : u.length + i ≤ text.length := by
    rw [parts, List.length_append, List.length_append]
    omega
  have here : u.length + i < (u ++ p).length := by
    rw [List.length_append]
    omega
  rw [spells.byte within, parts, List.getD_append _ _ _ _ here,
    List.getD_append_right _ _ _ _ (Nat.le_add_right _ _), Nat.add_sub_cancel_left]

/-- The last byte `c` of a part of a value. -/
theorem Spells.strrchr (spells : Spells value text) {c : UInt8} {u h p v : List UInt8}
    (part : text = u ++ v) (split : u = h ++ c :: p) (last : c ∉ p) (nonempty : h ≠ []) :
    nc_strrchr value.byte c u.length = some h.length := by
  refine nc_strrchr_split (fun i inside => ?_) ?_ split last nonempty
  · have within : i ≤ text.length := by
      rw [part, List.length_append]
      omega
    rw [spells.byte within, part, List.getD_append _ _ _ _ inside]
  · exact fun member => spells.zero (part ▸ List.mem_append_left v member)

theorem Spells.strrchr_none (spells : Spells value text) {c : UInt8} {u v : List UInt8}
    (part : text = u ++ v) (absent : c ∉ u.tail) : nc_strrchr value.byte c u.length = none := by
  refine nc_strrchr_none (fun i inside => ?_) ?_ absent
  · have within : i ≤ text.length := by
      rw [part, List.length_append]
      omega
    rw [spells.byte within, part, List.getD_append _ _ _ _ inside]
  · exact fun member => spells.zero (part ▸ List.mem_append_left v member)

/-- The first byte of a value tells a path from a host. -/
theorem Spells.first_iff (spells : Spells value text) :
    value.byte 0 = 47 ↔ text.head? = some 47 := by
  rw [spells.byte (Nat.zero_le _)]
  cases text with
  | nil => decide
  | cons b rest => simp

end Parts

/-! ### `hostname:port` -/

namespace NcConfListen

variable {libc : Libc} {value : NcString} {text : List UInt8} {conf : NcConfListen}

/-- **The end of the parser, for a host**: all fields but `info` and `valid` are set in any case. -/
theorem assign_host (libc : Libc) (conf : NcConfListen) {h v : List UInt8}
    (spells : Spells value text) (notPath : text.head? ≠ some 47) (short : text.length < 2 ^ 32)
    (parts : text = h ++ v) (cut : v ≠ []) (nonempty : h ≠ []) :
    ∃ name, Spells name h ∧ conf.assign libc value h.length =
      match libc.getaddrinfo h conf.port with
      | none => ({ conf with pname := value, name := name }, NC_ERROR)
      | some found =>
          ({ conf with pname := value, name := name, info := found, valid := 1 }, NC_OK) := by
  have room : h.length + 1 ≤ text.length := by
    have positive := List.length_pos_iff.mpr cut
    rw [parts, List.length_append]
    omega
  have named : Spells (NcString.ofBytes value.m_data h.length) h := by
    have copied := spells.ofBytes (n := h.length) (by omega) (by omega)
    rw [parts, List.take_left] at copied
    exact copied
  have sameFirst : h.head? ≠ some 47 := by
    rw [parts, List.head?_append_of_ne_nil _ nonempty] at notPath
    exact notPath
  refine ⟨_, named, ?_⟩
  rw [assign, ncResolve_host named nonempty sameFirst]
  cases libc.getaddrinfo h conf.port with
  | none => rfl
  | some found => rfl

/-- **A value with a host before its last colon.** -/
theorem parse_host {h p : List UInt8} (spells : Spells value text) (notPath : text.head? ≠ some 47)
    (short : text.length < 2 ^ 32) (split : HostPort text h p) (nonempty : h ≠ []) :
    conf.parse libc value =
      if IsPort (atoi p) then assign libc value h.length { conf with port := atoi p }
      else ({ conf with port := atoi p }, NC_ERROR) := by
  obtain ⟨parts, last⟩ := split
  have notSlash : value.byte 0 ≠ 47 := fun same => notPath (spells.first_iff.mp same)
  have found := spells.strrchr (v := []) (List.append_nil text).symm parts last nonempty
  have rest : text.length = h.length + 1 + p.length := by
    rw [parts, List.length_append, List.length_cons]
    omega
  have number : nc_atoi value.byte (h.length + 1) p.length = atoi p := by
    have whole : text = (h ++ [58]) ++ p ++ [] := by simp [parts]
    have read := spells.atoi whole
    rw [List.length_append, List.length_singleton] at read
    exact read
  rw [parse, if_neg notSlash, spells.len, found]
  simp only [setPort, lengthAfter_eq rest short, number, invalidPort_iff, andThen]
  by_cases valid : IsPort (atoi p)
  · simp [valid]
  · simp [valid, NC_ERROR, NC_OK]

/-- **A value without a host before its last colon.** -/
theorem parse_host_none (spells : Spells value text) (notPath : text.head? ≠ some 47)
    (absent : 58 ∉ text.tail) : conf.parse libc value = (conf, NC_ERROR) := by
  have notSlash : value.byte 0 ≠ 47 := fun same => notPath (spells.first_iff.mp same)
  have none := spells.strrchr_none (v := []) (List.append_nil text).symm absent
  rw [parse, if_neg notSlash, spells.len, none]

/-- **What `NcConfListen::parse` accepts.** -/
theorem host_grammar (conf : NcConfListen) (spells : Spells value text)
    (short : text.length < 2 ^ 32) (notPath : text.head? ≠ some 47)
    (known : ∀ h p, HostPort text h p → (libc.getaddrinfo h (atoi p)).isSome) :
    ((conf.parse libc value).2 = NC_OK ↔
        ∃ h p, HostPort text h p ∧ h ≠ [] ∧ IsPort (atoi p)) ∧
      ∀ h p, HostPort text h p → (conf.parse libc value).2 = NC_OK →
        Spells (conf.parse libc value).1.name h ∧ (conf.parse libc value).1.port = atoi p ∧
          (conf.parse libc value).1.pname = value := by
  by_cases present : 58 ∈ text.tail
  · obtain ⟨h, p, parts, last, nonempty⟩ := exists_last_tail present
    obtain ⟨info, resolves⟩ := Option.isSome_iff_exists.mp (known h p ⟨parts, last⟩)
    obtain ⟨name, named, assigned⟩ := assign_host libc { conf with port := atoi p } spells notPath
      short parts (List.cons_ne_nil _ _) nonempty
    rw [parse_host spells notPath short ⟨parts, last⟩ nonempty, assigned, resolves]
    by_cases valid : IsPort (atoi p)
    · rw [if_pos valid]
      refine ⟨⟨fun _ => ⟨h, p, ⟨parts, last⟩, nonempty, valid⟩, fun _ => rfl⟩, ?_⟩
      intro h' p' split _
      obtain ⟨rfl, rfl⟩ := split.unique ⟨parts, last⟩
      exact ⟨named, rfl, rfl⟩
    · rw [if_neg valid]
      have rejected : NC_ERROR ≠ NC_OK := by decide
      refine ⟨⟨fun accepted => absurd accepted rejected, ?_⟩, fun _ _ _ accepted =>
        absurd accepted rejected⟩
      rintro ⟨h', p', split, -, valid'⟩
      obtain ⟨rfl, rfl⟩ := split.unique ⟨parts, last⟩
      exact absurd valid' valid
  · have rejected : NC_ERROR ≠ NC_OK := by decide
    rw [parse_host_none spells notPath present]
    refine ⟨⟨fun accepted => absurd accepted rejected, ?_⟩, fun _ _ _ accepted =>
      absurd accepted rejected⟩
    rintro ⟨h, p, ⟨parts, -⟩, nonempty, -⟩
    obtain ⟨b, rest, rfl⟩ := List.exists_cons_of_ne_nil nonempty
    exact absurd (by simp [parts]) present

end NcConfListen

/-! ### `hostname:port:weight` -/

namespace NcConfServer

open NcConfListen

variable {libc : Libc} {value : NcString} {text : List UInt8} {conf : NcConfServer}

/-- **A value with a host before its last two colons.** -/
theorem parse_host {h p w : List UInt8} (spells : Spells value text)
    (notPath : text.head? ≠ some 47) (short : text.length < 2 ^ 32)
    (split : HostPortWeight text h p w) (nonempty : h ≠ []) :
    conf.parse libc value =
      if ¬ IsPort (atoi p) then
        (⟨{ conf.toNcConfListen with port := atoi p }, conf.weight⟩, NC_ERROR)
      else if atoi w < 0 then
        (⟨{ conf.toNcConfListen with port := atoi p }, atoi w⟩, NC_ERROR)
      else
        let assigned :=
          assign libc value h.length { conf.toNcConfListen with port := atoi p }
        (⟨assigned.1, atoi w⟩, assigned.2) := by
  obtain ⟨parts, lastP, lastW⟩ := split
  have notSlash : value.byte 0 ≠ 47 := fun same => notPath (spells.first_iff.mp same)
  have front : text = (h ++ 58 :: p) ++ 58 :: w := by simp [parts]
  have foundW := spells.strrchr (v := []) (List.append_nil text).symm front lastW (by simp)
  have foundP := spells.strrchr front rfl lastP nonempty
  have lengthU : (h ++ 58 :: p).length = h.length + 1 + p.length := by
    rw [List.length_append, List.length_cons]
    omega
  have lengthT : text.length = (h ++ 58 :: p).length + 1 + w.length := by
    rw [front, List.length_append, List.length_cons]
    omega
  have port : nc_atoi value.byte (h.length + 1) p.length = atoi p := by
    have whole : text = (h ++ [58]) ++ p ++ 58 :: w := by simp [parts]
    have read := spells.atoi whole
    rw [List.length_append, List.length_singleton] at read
    exact read
  have weight : nc_atoi value.byte ((h ++ 58 :: p).length + 1) w.length = atoi w := by
    have whole : text = (h ++ 58 :: p ++ [58]) ++ w ++ [] := by simp [parts]
    have read := spells.atoi whole
    have length : (h ++ 58 :: p ++ [58]).length = (h ++ 58 :: p).length + 1 := List.length_append
    rw [length] at read
    exact read
  have small : ¬ atoi w > 0x7FFFFFFF := by
    have bound := atoi_lt w
    omega
  rw [parse, if_neg notSlash, spells.len, foundW]
  simp only [foundP, setPort, setWeight, lengthAfter_eq lengthU (by omega), port, invalidPort_iff,
    spells.len, lengthAfter_eq lengthT short, weight, small, or_false]
  by_cases valid : IsPort (atoi p)
  · simp [valid]
  · simp [valid, NC_ERROR, NC_OK]

/-- **A value without a host before its last two colons.** -/
theorem parse_host_none (spells : Spells value text) (notPath : text.head? ≠ some 47)
    (absent : ¬ ∃ h p w, HostPortWeight text h p w ∧ h ≠ []) :
    conf.parse libc value = (conf, NC_ERROR) := by
  have notSlash : value.byte 0 ≠ 47 := fun same => notPath (spells.first_iff.mp same)
  by_cases present : 58 ∈ text.tail
  · obtain ⟨u, w, parts, lastW, nonempty⟩ := exists_last_tail present
    have foundW := spells.strrchr (v := []) (List.append_nil text).symm parts lastW nonempty
    have noColon : 58 ∉ u.tail := by
      intro another
      obtain ⟨h, p, partsU, lastP, nonemptyH⟩ := exists_last_tail another
      refine absent ⟨h, p, w, ⟨?_, lastP, lastW⟩, nonemptyH⟩
      rw [parts, partsU, List.append_assoc, List.cons_append]
    rw [parse, if_neg notSlash, spells.len, foundW]
    simp only [spells.strrchr_none parts noColon]
  · have none := spells.strrchr_none (v := []) (List.append_nil text).symm present
    rw [parse, if_neg notSlash, spells.len, none]

/-- **What `NcConfServer::parse` accepts.** -/
theorem host_grammar (conf : NcConfServer) (spells : Spells value text)
    (short : text.length < 2 ^ 32) (notPath : text.head? ≠ some 47)
    (known : ∀ h p w, HostPortWeight text h p w → (libc.getaddrinfo h (atoi p)).isSome) :
    ((conf.parse libc value).2 = NC_OK ↔
        ∃ h p w, HostPortWeight text h p w ∧ h ≠ [] ∧ IsPort (atoi p) ∧ 0 ≤ atoi w) ∧
      ∀ h p w, HostPortWeight text h p w → (conf.parse libc value).2 = NC_OK →
        Spells (conf.parse libc value).1.name h ∧ (conf.parse libc value).1.port = atoi p ∧
          (conf.parse libc value).1.weight = atoi w := by
  have rejected : NC_ERROR ≠ NC_OK := by decide
  by_cases present : ∃ h p w, HostPortWeight text h p w ∧ h ≠ []
  · obtain ⟨h, p, w, split, nonempty⟩ := present
    obtain ⟨info, resolves⟩ := Option.isSome_iff_exists.mp (known h p w split)
    obtain ⟨name, named, assigned⟩ := assign_host libc
      { conf.toNcConfListen with port := atoi p } spells notPath short split.1
      (List.cons_ne_nil _ _) nonempty
    rw [parse_host spells notPath short split nonempty, assigned, resolves]
    by_cases validPort : IsPort (atoi p)
    · rw [if_neg (not_not.mpr validPort)]
      by_cases negative : atoi w < 0
      · rw [if_pos negative]
        refine ⟨⟨fun accepted => absurd accepted rejected, ?_⟩, fun _ _ _ _ accepted =>
          absurd accepted rejected⟩
        rintro ⟨h', p', w', split', -, -, positive⟩
        obtain ⟨-, -, rfl⟩ := split'.unique split
        exact absurd positive (not_le.mpr negative)
      · rw [if_neg negative]
        refine ⟨⟨fun _ => ⟨h, p, w, split, nonempty, validPort, not_lt.mp negative⟩,
          fun _ => rfl⟩, ?_⟩
        intro h' p' w' split' _
        obtain ⟨rfl, rfl, rfl⟩ := split'.unique split
        exact ⟨named, rfl, rfl⟩
    · rw [if_pos validPort]
      refine ⟨⟨fun accepted => absurd accepted rejected, ?_⟩, fun _ _ _ _ accepted =>
        absurd accepted rejected⟩
      rintro ⟨h', p', w', split', -, validPort', -⟩
      obtain ⟨-, rfl, -⟩ := split'.unique split
      exact absurd validPort' validPort
  · rw [parse_host_none spells notPath present]
    refine ⟨⟨fun accepted => absurd accepted rejected, ?_⟩, fun _ _ _ _ accepted =>
      absurd accepted rejected⟩
    rintro ⟨h, p, w, split, nonempty, -⟩
    exact absurd ⟨h, p, w, split, nonempty⟩ present

end NcConfServer

/-! ### Both parsers -/

/-- **The grammar of addresses with a port.** -/
theorem address_grammar (libc : Libc) (value : NcString) (text : List UInt8)
    (spells : Spells value text) (short : text.length < 2 ^ 32) (notPath : text.head? ≠ some 47) :
    (∀ conf : NcConfListen,
      (∀ h p, HostPort text h p → (libc.getaddrinfo h (atoi p)).isSome) →
        ((conf.parse libc value).2 = NC_OK ↔
          ∃ h p, HostPort text h p ∧ h ≠ [] ∧ IsPort (atoi p)) ∧
        ∀ h p, HostPort text h p → (conf.parse libc value).2 = NC_OK →
          Spells (conf.parse libc value).1.name h ∧ (conf.parse libc value).1.port = atoi p ∧
            (conf.parse libc value).1.pname = value) ∧
    ∀ conf : NcConfServer,
      (∀ h p w, HostPortWeight text h p w → (libc.getaddrinfo h (atoi p)).isSome) →
        ((conf.parse libc value).2 = NC_OK ↔
          ∃ h p w, HostPortWeight text h p w ∧ h ≠ [] ∧ IsPort (atoi p) ∧ 0 ≤ atoi w) ∧
        ∀ h p w, HostPortWeight text h p w → (conf.parse libc value).2 = NC_OK →
          Spells (conf.parse libc value).1.name h ∧ (conf.parse libc value).1.port = atoi p ∧
            (conf.parse libc value).1.weight = atoi w :=
  ⟨fun conf known => conf.host_grammar spells short notPath known,
    fun conf known => conf.host_grammar spells short notPath known⟩

/-- A platform whose resolver knows `127.0.0.1`, and nothing else. -/
def loopback : Libc where
  getaddrinfo node _ :=
    if node = [49, 50, 55, 46, 48, 46, 48, 46, 49] then some (.addr 2 [127, 0, 0, 1]) else none
  noConversion := 0
  modeBits := 32
  NC_UNIX_ADDRSTRLEN := 108
  port := 0
  perm := 0
  info := .addr 0 []

/-- **`127.0.0.1:22121` and `127.0.0.1:22121:1`** are accepted. -/
theorem address_grammar_loopback :
    ((NcConfListen.new loopback).parse loopback
      (.ofText [49, 50, 55, 46, 48, 46, 48, 46, 49, 58, 50, 50, 49, 50, 49])).2 = NC_OK ∧
    ((NcConfServer.new loopback).parse loopback
      (.ofText [49, 50, 55, 46, 48, 46, 48, 46, 49, 58, 50, 50, 49, 50, 49, 58, 49])).2 = NC_OK := by
  constructor
  · have split : HostPort [49, 50, 55, 46, 48, 46, 48, 46, 49, 58, 50, 50, 49, 50, 49]
        [49, 50, 55, 46, 48, 46, 48, 46, 49] [50, 50, 49, 50, 49] := ⟨rfl, by decide⟩
    refine ((address_grammar loopback _ _ (spells_ofText (by decide)) (by decide)
      (by decide)).1 _ ?_).1.mpr ⟨_, _, split, by decide, by decide⟩
    rintro h p ⟨parts, last⟩
    obtain ⟨rfl, -⟩ := split.unique ⟨parts, last⟩
    rfl
  · have split : HostPortWeight
        [49, 50, 55, 46, 48, 46, 48, 46, 49, 58, 50, 50, 49, 50, 49, 58, 49]
        [49, 50, 55, 46, 48, 46, 48, 46, 49] [50, 50, 49, 50, 49] [49] :=
      ⟨rfl, by decide, by decide⟩
    refine ((address_grammar loopback _ _ (spells_ofText (by decide)) (by decide)
      (by decide)).2 _ ?_).1.mpr ⟨_, _, _, split, by decide, by decide, by decide⟩
    rintro h p w split'
    obtain ⟨rfl, -, -⟩ := split.unique split'
    rfl

end Nutcracker
