/-
**Addresses of sockets in the file system.**

A value that begins with a slash is `socket_path permissions`, and for a server
`socket_path permissions weight`, where the permissions may be left out. The fields are read from the
end, as `hostname:port` is.

* `NcConfListen.parse_path`, `parse_path_perm` — the two forms for `listen`; the permissions are
  refused if `strtol` refuses them (`Refused`).
* `NcConfServer.parse_path_weight` — without permissions the server's name has the length of the
  whole value, so that it ends in the weight.
* `NcConfServer.parse_path_perm_weight` — with permissions the name is the path.
* `socket_grammar` — **for each form, exactly when the parser does as it should**.
-/

import Nutcracker.Conf.HostPort

namespace Nutcracker

/-- The sizes of the platform that the parsers rely on: `mode_t` holds nine bits, and the length of
a socket's path is an `uint32_t`. -/
structure HoldsSockets (libc : Libc) : Prop where
  mode : 9 ≤ libc.modeBits
  path : libc.NC_UNIX_ADDRSTRLEN < 2 ^ 32

/-- A socket's path, short enough for `ncResolve`. -/
structure IsPath (libc : Libc) (path : List UInt8) : Prop where
  slash : path.head? = some 47
  space : 32 ∉ path
  short : path.length < libc.NC_UNIX_ADDRSTRLEN

/-- A permission field: an octal number up to `0777`. -/
def IsPerm (m : List UInt8) : Prop := IsNumeral 8 m ∧ numeral 8 m ≤ 511

/-- **What is refused as a permission**: `strtol` reports an error, or what is left of its result in
a `mode_t` is above `0777`. It reads leading spaces, a sign and then digits, as far as they go. -/
def Refused (libc : Libc) (text : List UInt8) : Prop :=
  (strtol8 libc.noConversion text).2 ≠ 0 ∨
    ((strtol8 libc.noConversion text).1 % 2 ^ libc.modeBits).toNat > 511

instance (libc : Libc) (text : List UInt8) : Decidable (Refused libc text) :=
  inferInstanceAs (Decidable (_ ∨ _))

section IsPath

variable {libc : Libc} {value : NcString} {text path v : List UInt8}

theorem IsPath.nonempty (isPath : IsPath libc path) : path ≠ [] := by
  rintro rfl
  cases isPath.slash

theorem IsPath.space_tail (isPath : IsPath libc path) : 32 ∉ path.tail := fun member =>
  isPath.space (List.mem_of_mem_tail member)

/-- A value with a path in front begins with a slash. -/
theorem IsPath.first (isPath : IsPath libc path) (spells : Spells value text)
    (parts : text = path ++ v) : value.byte 0 = 47 := by
  rw [spells.first_iff, parts, List.head?_append_of_ne_nil _ isPath.nonempty]
  exact isPath.slash

end IsPath

theorem IsNumeral.space {base : Nat} {text : List UInt8} (isNumeral : IsNumeral base text) :
    32 ∉ text := by
  intro member
  have low := (isNumeral.2 32 member).1
  simp at low

/-- A permission is read as it is written. -/
theorem strtol8_perm (libc : Libc) {m rest : List UInt8} (isPerm : IsPerm m)
    (stop : ∀ b ∈ rest.head?, isOctal b = false) (sizes : HoldsSockets libc) :
    ¬ Refused libc (m ++ rest) ∧
      ((strtol8 libc.noConversion (m ++ rest)).1 % 2 ^ libc.modeBits).toNat = numeral 8 m := by
  obtain ⟨isNumeral, small⟩ := isPerm
  have range : numeral 8 m < 2 ^ 63 := by omega
  have wide : (2 : Int) ^ 9 ≤ 2 ^ libc.modeBits := by
    exact_mod_cast Nat.pow_le_pow_right (by decide) sizes.mode
  have read := strtol8_octal libc.noConversion isNumeral stop range
  have fits : ((numeral 8 m : Int) % 2 ^ libc.modeBits).toNat = numeral 8 m := by
    rw [Int.emod_eq_of_lt (Int.natCast_nonneg _) (by omega), Int.toNat_natCast]
  rw [Refused, read]
  refine ⟨?_, fits⟩
  simp only [fits]
  omega

/-- **A path** needs no resolver. -/
theorem ncResolve_path {libc : Libc} {name : NcString} {path : List UInt8} {port : Int}
    {info : SockInfo} (spells : Spells name path) (isPath : IsPath libc path) :
    ncResolve libc name port info = (.un path, 0) := by
  have short := isPath.short
  have first := isPath.first spells (List.append_nil path).symm
  have notZero : name.m_len ≠ 0 := by
    rw [spells.len]
    exact mt List.length_eq_zero_iff.mp isPath.nonempty
  have bytes : (List.range name.m_len).map name.byte = path := by
    refine List.ext_getElem (by simp [spells.len]) fun i inside inPath => ?_
    rw [List.getElem_map, List.getElem_range, spells.byte inPath.le, List.getD_eq_getElem _ _ inPath]
  rw [ncResolve, if_neg notZero, if_pos first, if_neg (by rw [spells.len]; omega), bytes]

/-! ### `socket_path permissions` -/

namespace NcConfListen

variable {libc : Libc} {value : NcString} {text path : List UInt8}

/-- **The end of the parser, for a path**. -/
theorem assign_path (conf : NcConfListen) {v : List UInt8} (spells : Spells value text)
    (parts : text = path ++ v) (isPath : IsPath libc path) (sizes : HoldsSockets libc) :
    ∃ name, Spells name path ∧ conf.assign libc value path.length =
      ({ conf with pname := value, name := name, info := .un path, valid := 1 }, NC_OK) := by
  have room : path.length ≤ text.length := by
    rw [parts, List.length_append]
    omega
  have fits : path.length + 1 < 2 ^ 32 := by
    have short := isPath.short
    have limit := sizes.path
    omega
  have named : Spells (NcString.ofBytes value.m_data path.length) path := by
    have copied := spells.ofBytes room fits
    rw [parts, List.take_left] at copied
    exact copied
  refine ⟨_, named, ?_⟩
  rw [assign, ncResolve_path named isPath]
  rfl

/-- **The permissions** are what is left of the value after its last space. -/
theorem setPerm_eq (libc : Libc) (conf : NcConfListen) {u f : List UInt8} (spells : Spells value text)
    (parts : text = u ++ f) :
    conf.setPerm libc value u.length =
      ({ conf with perm := ((strtol8 libc.noConversion f).1 % 2 ^ libc.modeBits).toNat },
        if Refused libc f then NC_ERROR else NC_OK) := by
  have room : u.length ≤ text.length := by
    rw [parts, List.length_append]
    omega
  obtain ⟨rest, dropped, ends⟩ := spells.drop room
  rw [parts, List.drop_left] at dropped
  simp only [setPerm, dropped, strtol8_stop _ f ends]
  rfl

/-- **A path alone.** -/
theorem parse_path (conf : NcConfListen) (spells : Spells value path) (isPath : IsPath libc path) :
    conf.parse libc value = conf.assign libc value path.length := by
  have whole := (List.append_nil path).symm
  have none := spells.strrchr_none whole isPath.space_tail
  rw [parse, if_pos (isPath.first spells whole), spells.len, none]

/-- **A path and a field** for the permissions. -/
theorem parse_path_perm (conf : NcConfListen) {f : List UInt8} (spells : Spells value text)
    (parts : text = path ++ 32 :: f) (isPath : IsPath libc path) (space : 32 ∉ f) :
    conf.parse libc value =
      let read := { conf with perm := ((strtol8 libc.noConversion f).1 % 2 ^ libc.modeBits).toNat }
      if Refused libc f then (read, NC_ERROR) else read.assign libc value path.length := by
  have found := spells.strrchr (List.append_nil text).symm parts space isPath.nonempty
  have field : text = (path ++ [32]) ++ f := by simp [parts]
  have read := setPerm_eq libc conf spells field
  rw [List.length_append, List.length_singleton] at read
  rw [parse, if_pos (isPath.first spells parts), spells.len, found]
  simp only [read, andThen]
  by_cases refused : Refused libc f
  · simp [refused, NC_ERROR, NC_OK]
  · simp [refused]

end NcConfListen

/-! ### `socket_path permissions weight` -/

namespace NcConfServer

open NcConfListen

variable {libc : Libc} {value : NcString} {text path w : List UInt8}

/-- The weight, when the rest of the value was read without an error. -/
theorem setWeight_eq (conf : NcConfServer) {u : List UInt8} (result : NcConfListen × Int)
    (_namelen : Nat) (spells : Spells value text) (short : text.length < 2 ^ 32)
    (parts : text = u ++ 32 :: w) :
    conf.setWeight libc value u.length _namelen result =
      if result.2 ≠ NC_OK then (⟨result.1, conf.weight⟩, result.2)
      else if atoi w < 0 then (⟨result.1, atoi w⟩, NC_ERROR)
      else
        let assigned := result.1.assign libc value _namelen
        (⟨assigned.1, atoi w⟩, assigned.2) := by
  have length : text.length = u.length + 1 + w.length := by
    rw [parts, List.length_append, List.length_cons]
    omega
  have number : nc_atoi value.byte (u.length + 1) w.length = atoi w := by
    have whole : text = (u ++ [32]) ++ w ++ [] := by simp [parts]
    have read := spells.atoi whole
    rw [List.length_append, List.length_singleton] at read
    exact read
  have small : ¬ atoi w > 0x7FFFFFFF := by
    have bound := atoi_lt w
    omega
  simp only [setWeight, spells.len, lengthAfter_eq length short, number, small, or_false]

/-- **A path and a weight**: the name gets the length of the whole value. -/
theorem parse_path_weight (conf : NcConfServer) (spells : Spells value text)
    (parts : text = path ++ 32 :: w) (isPath : IsPath libc path) (space : 32 ∉ w) :
    conf.parse libc value =
      conf.setWeight libc value path.length text.length (conf.toNcConfListen, NC_OK) := by
  have found := spells.strrchr (List.append_nil text).symm parts space isPath.nonempty
  rw [parse, if_pos (isPath.first spells parts), spells.len, found]
  simp only [spells.strrchr_none parts isPath.space_tail]

/-- **A path, a field for the permissions, and a weight.** -/
theorem parse_path_perm_weight (conf : NcConfServer) {f : List UInt8} (spells : Spells value text)
    (parts : text = (path ++ 32 :: f) ++ 32 :: w) (isPath : IsPath libc path) (space : 32 ∉ f)
    (spaceW : 32 ∉ w) :
    conf.parse libc value =
      conf.setWeight libc value (path ++ 32 :: f).length path.length
        ({ conf.toNcConfListen with
            perm := ((strtol8 libc.noConversion (f ++ 32 :: w)).1 % 2 ^ libc.modeBits).toNat },
          if Refused libc (f ++ 32 :: w) then NC_ERROR else NC_OK) := by
  have front : text = path ++ 32 :: (f ++ 32 :: w) := by simp [parts]
  have foundW := spells.strrchr (List.append_nil text).symm parts spaceW (by simp)
  have foundF := spells.strrchr parts rfl space isPath.nonempty
  have field : text = (path ++ [32]) ++ (f ++ 32 :: w) := by simp [parts]
  have read := setPerm_eq libc conf.toNcConfListen spells field
  rw [List.length_append, List.length_singleton] at read
  rw [parse, if_pos (isPath.first spells front), spells.len, foundW]
  simp only [foundF, read]

end NcConfServer

/-! ### What the parsers accept -/

/-- The value is accepted, and the name is this path. -/
def NcConfListen.Names (libc : Libc) (value : NcString) (path : List UInt8) (conf : NcConfListen) :
    Prop :=
  (conf.parse libc value).2 = NC_OK ∧ Spells (conf.parse libc value).1.name path

/-- The value is accepted, and the server's name is this path. -/
def NcConfServer.Names (libc : Libc) (value : NcString) (path : List UInt8) (conf : NcConfServer) :
    Prop :=
  (conf.parse libc value).2 = NC_OK ∧ Spells (conf.parse libc value).1.name path

section Forms

variable {libc : Libc} {value : NcString} {text path : List UInt8} (sizes : HoldsSockets libc)
  (spells : Spells value text) (isPath : IsPath libc path)

include sizes spells isPath

theorem NcConfListen.names_path (conf : NcConfListen) (parts : text = path) :
    conf.Names libc value path := by
  subst parts
  obtain ⟨name, named, assigned⟩ :=
    conf.assign_path spells (List.append_nil text).symm isPath sizes
  rw [Names, conf.parse_path spells isPath, assigned]
  exact ⟨rfl, named⟩

theorem NcConfListen.names_path_perm (conf : NcConfListen) {m : List UInt8}
    (parts : text = path ++ 32 :: m) (isPerm : IsPerm m) :
    conf.Names libc value path ∧ (conf.parse libc value).1.perm = numeral 8 m := by
  have stop : ∀ b ∈ ([] : List UInt8).head?, isOctal b = false := nofun
  obtain ⟨taken, perm⟩ := strtol8_perm libc isPerm stop sizes
  rw [List.append_nil] at taken perm
  obtain ⟨name, named, assigned⟩ :=
    assign_path { conf with perm := numeral 8 m } spells parts isPath sizes
  rw [Names, conf.parse_path_perm spells parts isPath isPerm.1.space]
  simp only [if_neg taken, perm, assigned]
  exact ⟨⟨trivial, named⟩, trivial⟩

/-- **A field for the permissions is refused** as `Refused` says, and else taken. -/
theorem NcConfListen.refuses_iff (conf : NcConfListen) {f : List UInt8}
    (parts : text = path ++ 32 :: f) (space : 32 ∉ f) :
    (conf.parse libc value).2 = NC_ERROR ↔ Refused libc f := by
  rw [conf.parse_path_perm spells parts isPath space]
  by_cases refused : Refused libc f
  · simp [refused]
  · obtain ⟨name, -, assigned⟩ := assign_path
      { conf with perm := ((strtol8 libc.noConversion f).1 % 2 ^ libc.modeBits).toNat } spells parts
      isPath sizes
    simp [refused, assigned, NC_ERROR, NC_OK]

omit sizes in
/-- **Without permissions the path is never the name.** -/
theorem NcConfServer.not_names_path_weight (conf : NcConfServer) (short : text.length < 2 ^ 32)
    {w : List UInt8} (parts : text = path ++ 32 :: w) (space : 32 ∉ w) :
    ¬ conf.Names libc value path := by
  have longer : text.length ≠ path.length := by
    rw [parts, List.length_append, List.length_cons]
    omega
  rw [Names, conf.parse_path_weight spells parts isPath space,
    conf.setWeight_eq _ _ spells short parts, if_neg (not_not.mpr rfl)]
  rintro ⟨accepted, named⟩
  by_cases negative : atoi w < 0
  · rw [if_pos negative] at accepted
    cases accepted
  · rw [if_neg negative] at named
    have length := named.len
    simp only [NcConfListen.assign] at length
    split at length
    · exact longer length
    · exact longer length

/-- **With permissions the path is the name**, and the weight is what the text says if it is an
`int`. -/
theorem NcConfServer.names_path_perm_weight_iff (conf : NcConfServer)
    (short : text.length < 2 ^ 32) {m w : List UInt8} (parts : text = (path ++ 32 :: m) ++ 32 :: w)
    (isPerm : IsPerm m) (isNumeral : IsNumeral 10 w) :
    (conf.Names libc value path ∧ (conf.parse libc value).1.perm = numeral 8 m ∧
      (conf.parse libc value).1.weight = numeral 10 w) ↔ numeral 10 w < 2 ^ 31 := by
  have stop : ∀ b ∈ (32 :: w).head?, isOctal b = false := by
    rintro b member
    obtain rfl : 32 = b := Option.some.inj member
    decide
  obtain ⟨taken, perm⟩ := strtol8_perm libc isPerm stop sizes
  have front : text = path ++ 32 :: (m ++ 32 :: w) := by simp [parts]
  obtain ⟨name, named, assigned⟩ := NcConfListen.assign_path
    { conf.toNcConfListen with perm := numeral 8 m } spells front isPath sizes
  rw [Names, conf.parse_path_perm_weight spells parts isPath isPerm.1.space isNumeral.space,
    conf.setWeight_eq _ _ spells short parts]
  simp only [if_neg taken, perm, assigned]
  rw [if_neg (not_not.mpr rfl), ← atoi_decimal_iff isNumeral]
  by_cases negative : atoi w < 0
  · rw [if_pos negative]
    constructor
    · rintro ⟨⟨accepted, -⟩, -⟩
      cases accepted
    · intro same
      omega
  · rw [if_neg negative]
    constructor
    · rintro ⟨-, -, weight⟩
      exact weight
    · intro weight
      exact ⟨⟨rfl, named⟩, rfl, weight⟩

/-- **A field for the permissions is refused** as `Refused` says of it and the weight behind it. -/
theorem NcConfServer.refuses_iff (conf : NcConfServer) (short : text.length < 2 ^ 32)
    {f w : List UInt8} (parts : text = (path ++ 32 :: f) ++ 32 :: w) (space : 32 ∉ f)
    (spaceW : 32 ∉ w) :
    (conf.parse libc value).2 = NC_ERROR ↔ Refused libc (f ++ 32 :: w) ∨ atoi w < 0 := by
  have front : text = path ++ 32 :: (f ++ 32 :: w) := by simp [parts]
  obtain ⟨name, -, assigned⟩ := NcConfListen.assign_path
    { conf.toNcConfListen with
      perm := ((strtol8 libc.noConversion (f ++ 32 :: w)).1 % 2 ^ libc.modeBits).toNat } spells
    front isPath sizes
  rw [conf.parse_path_perm_weight spells parts isPath space spaceW,
    conf.setWeight_eq _ _ spells short parts]
  by_cases refused : Refused libc (f ++ 32 :: w)
  · simp [refused, NC_ERROR, NC_OK]
  · by_cases negative : atoi w < 0
    · simp [refused, negative]
    · simp [refused, negative, assigned, NC_ERROR, NC_OK]

end Forms

/-- **The grammar of socket addresses**: what holds as it should, and when the rest does. -/
theorem socket_grammar (libc : Libc) (value : NcString) (text path : List UInt8)
    (sizes : HoldsSockets libc) (spells : Spells value text) (short : text.length < 2 ^ 32)
    (isPath : IsPath libc path) :
    (∀ conf : NcConfListen, text = path → conf.Names libc value path) ∧
    (∀ (conf : NcConfListen) (m : List UInt8), text = path ++ 32 :: m → IsPerm m →
      conf.Names libc value path ∧ (conf.parse libc value).1.perm = numeral 8 m) ∧
    (∀ (conf : NcConfListen) (f : List UInt8), text = path ++ 32 :: f → 32 ∉ f →
      ((conf.parse libc value).2 = NC_ERROR ↔ Refused libc f)) ∧
    (∀ (conf : NcConfServer) (w : List UInt8), text = path ++ 32 :: w → IsNumeral 10 w →
      ¬ conf.Names libc value path) ∧
    (∀ (conf : NcConfServer) (m w : List UInt8), text = (path ++ 32 :: m) ++ 32 :: w → IsPerm m →
      IsNumeral 10 w →
      ((conf.Names libc value path ∧ (conf.parse libc value).1.perm = numeral 8 m ∧
        (conf.parse libc value).1.weight = numeral 10 w) ↔ numeral 10 w < 2 ^ 31)) ∧
    ∀ (conf : NcConfServer) (f w : List UInt8), text = (path ++ 32 :: f) ++ 32 :: w → 32 ∉ f →
      IsNumeral 10 w →
      ((conf.parse libc value).2 = NC_ERROR ↔ Refused libc (f ++ 32 :: w) ∨ atoi w < 0) := by
  refine ⟨?_, ?_, ?_, ?_, ?_, ?_⟩
  · intro conf parts
    exact conf.names_path sizes spells isPath parts
  · intro conf m parts isPerm
    exact conf.names_path_perm sizes spells isPath parts isPerm
  · intro conf f parts space
    exact conf.refuses_iff sizes spells isPath parts space
  · intro conf w parts isNumeral
    exact conf.not_names_path_weight spells isPath short parts isNumeral.space
  · intro conf m w parts isPerm isNumeral
    exact conf.names_path_perm_weight_iff sizes spells isPath short parts isPerm isNumeral
  · intro conf f w parts space isNumeral
    exact conf.refuses_iff sizes spells isPath short parts space isNumeral.space

theorem holdsSockets_loopback : HoldsSockets loopback where
  mode := by decide
  path := by decide

/-- **`/a 17 1` as a server**: the path `/a`, the permissions `017` and the weight `1`. -/
theorem socket_grammar_seventeen :
    (NcConfServer.new loopback).Names loopback (.ofText [47, 97, 32, 49, 55, 32, 49]) [47, 97] ∧
      ((NcConfServer.new loopback).parse loopback (.ofText [47, 97, 32, 49, 55, 32, 49])).1.perm =
        numeral 8 [49, 55] ∧
      ((NcConfServer.new loopback).parse loopback (.ofText [47, 97, 32, 49, 55, 32, 49])).1.weight =
        numeral 10 [49] := by
  have isPath : IsPath loopback [47, 97] := ⟨rfl, by decide, by decide⟩
  have isPerm : IsPerm [49, 55] := ⟨by decide, by decide⟩
  have grammar := socket_grammar loopback (.ofText [47, 97, 32, 49, 55, 32, 49]) _ [47, 97]
    holdsSockets_loopback (spells_ofText (by decide)) (by decide) isPath
  exact (grammar.2.2.2.2.1 (.new loopback) [49, 55] [49] rfl isPerm (by decide)).mpr (by decide)

/-- **`/a 1` as a server** is accepted under the name `/a 1`, and `/a 777x` as an address to listen
on is accepted too. -/
theorem socket_name_keeps_weight :
    ((NcConfServer.new loopback).parse loopback (.ofText [47, 97, 32, 49])).2 = NC_OK ∧
      ((NcConfServer.new loopback).parse loopback (.ofText [47, 97, 32, 49])).1.name.cstr =
        [47, 97, 32, 49] ∧
      ¬ (NcConfServer.new loopback).Names loopback (.ofText [47, 97, 32, 49]) [47, 97] ∧
      ((NcConfListen.new loopback).parse loopback (.ofText [47, 97, 32, 55, 55, 55, 120])).2 =
        NC_OK := by
  refine ⟨by decide, by decide, ?_, by decide⟩
  rintro ⟨-, named⟩
  have length := named.len
  revert length
  decide

end Nutcracker
