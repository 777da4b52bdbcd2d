/-
**The addresses of a configuration.**

`NcConfListen::parse` reads `hostname:port` or `socket_path permissions`, and `NcConfServer::parse` the
same with a weight, from the end. The C library, the sizes of its types, and what a fresh object holds
in the fields that no constructor sets are given by `Libc`.

* `parse_valid` — `valid` is set when a value is accepted, and else stays.
-/

import Nutcracker.Conn.SendChain
import Nutcracker.Text.Model

namespace Nutcracker

/-- `struct sockinfo`. -/
inductive SockInfo
  | un (sun_path : List UInt8)
  | addr (family : Int) (bytes : List UInt8)
  deriving DecidableEq

/-- What the source leaves to the platform. -/
structure Libc where
  /-- The first address of `getaddrinfo(node, service, ..)`, if there is one. -/
  getaddrinfo : List UInt8 → Int → Option SockInfo
  /-- `errno` after a `strtol` of no digits. -/
  noConversion : Int
  /-- The width of `mode_t`. -/
  modeBits : Nat
  NC_UNIX_ADDRSTRLEN : Nat
  /-- The fields of a fresh object that no constructor sets. -/
  port : Int
  perm : Nat
  info : SockInfo

/-- `NcUtil::ncValidPort`. -/
def ncValidPort (n : Int) : Bool := !(n < 1 || n > 65535)

/-- `NcUtil::ncResolve`: the `sockinfo` after it, and its result. -/
def ncResolve (libc : Libc) (name : NcString) (port : Int) (info : SockInfo) : SockInfo × Int :=
  if name.m_len = 0 then (info, -1)
  else if name.byte 0 = 47 then
    if name.m_len ≥ libc.NC_UNIX_ADDRSTRLEN then (info, -1)
    else (.un ((List.range name.m_len).map name.byte), 0)
  else
    match libc.getaddrinfo name.cstr port with
    | none => (info, -1)
    | some info => (info, 0)

/-- `NcConfListen`. -/
structure NcConfListen where
  pname : NcString
  name : NcString
  port : Int
  perm : Nat
  info : SockInfo
  valid : Nat

namespace NcConfListen

/-- `NcConfListen()`. -/
def new (libc : Libc) : NcConfListen := ⟨.empty, .empty, libc.port, libc.perm, libc.info, 0⟩

/-- The `perm` part of both parsers: the octal number at the position `_perm`. -/
def setPerm (libc : Libc) (value : NcString) (_perm : Nat) (conf : NcConfListen) :
    NcConfListen × Int :=
  let number := strtol8 libc.noConversion (value.m_data.drop _perm)
  let perm := (number.1 % 2 ^ libc.modeBits).toNat
  ({ conf with perm := perm }, if number.2 ≠ 0 ∨ perm > 511 then NC_ERROR else NC_OK)

/-- The `port` part of both parsers: the `_portlen` digits at the position `_port`. -/
def setPort (value : NcString) (_port _portlen : Nat) (conf : NcConfListen) : NcConfListen × Int :=
  let port := nc_atoi value.byte _port _portlen
  ({ conf with port := port }, if port < 0 ∨ ncValidPort port = false then NC_ERROR else NC_OK)

/-- The end of both parsers, with the name of the length `_namelen`. -/
def assign (libc : Libc) (value : NcString) (_namelen : Nat) (conf : NcConfListen) :
    NcConfListen × Int :=
  let name := NcString.ofBytes value.m_data _namelen
  let resolved := ncResolve libc name conf.port conf.info
  let conf := { conf with pname := value, name := name, info := resolved.1 }
  if resolved.2 ≠ NC_OK then (conf, NC_ERROR) else ({ conf with valid := 1 }, NC_OK)

/-- The length of what is after the position `q` and before the position `last`, as an `uint32_t`. -/
def lengthAfter (q last : Nat) : Nat := (((last : Int) - q - 1) % 2 ^ 32).toNat

/-- A part of a parser that goes on if it succeeds. -/
def andThen (result : NcConfListen × Int) (next : NcConfListen → NcConfListen × Int) :
    NcConfListen × Int :=
  if result.2 ≠ NC_OK then result else next result.1

/-- **`NcConfListen::parse`.** -/
def parse (libc : Libc) (value : NcString) (conf : NcConfListen) : NcConfListen × Int :=
  if value.byte 0 = 47 then
    match nc_strrchr value.byte 32 value.m_len with
    | none => conf.assign libc value value.m_len
    | some q => andThen (conf.setPerm libc value (q + 1)) fun conf => conf.assign libc value q
  else
    match nc_strrchr value.byte 58 value.m_len with
    | none => (conf, NC_ERROR)
    | some q =>
        andThen (conf.setPort value (q + 1) (lengthAfter q value.m_len)) fun conf =>
          conf.assign libc value q

theorem assign_valid (libc : Libc) (value : NcString) (_namelen : Nat) (conf : NcConfListen) :
    (conf.assign libc value _namelen).1.valid =
      if (conf.assign libc value _namelen).2 = NC_OK then 1 else conf.valid := by
  unfold assign
  dsimp only
  split
  · rfl
  · rfl

theorem andThen_valid {result : NcConfListen × Int} {next : NcConfListen → NcConfListen × Int}
    {valid : Nat} (kept : result.1.valid = valid)
    (sets : ∀ conf, (next conf).1.valid = if (next conf).2 = NC_OK then 1 else conf.valid) :
    (andThen result next).1.valid = if (andThen result next).2 = NC_OK then 1 else valid := by
  unfold andThen
  split
  · exact kept
  · rw [← kept]
    exact sets result.1

/-- **`valid` is set by a value that is accepted**, and by no other. -/
theorem parse_valid (libc : Libc) (value : NcString) (conf : NcConfListen) :
    (conf.parse libc value).1.valid =
      if (conf.parse libc value).2 = NC_OK then 1 else conf.valid := by
  unfold parse
  split
  · cases nc_strrchr value.byte 32 value.m_len with
    | none => exact assign_valid libc value value.m_len conf
    | some q => exact andThen_valid rfl fun conf => assign_valid libc value q conf
  · cases nc_strrchr value.byte 58 value.m_len with
    | none => rfl
    | some q => exact andThen_valid rfl fun conf => assign_valid libc value q conf

end NcConfListen

/-- `NcConfServer`. -/
structure NcConfServer extends NcConfListen where
  weight : Int

namespace NcConfServer

open NcConfListen

/-- `NcConfServer()`. -/
def new (libc : Libc) : NcConfServer := ⟨.new libc, 0⟩

/-- The end of `NcConfServer::parse`: the weight after the position `q`, and the name. -/
def setWeight (libc : Libc) (value : NcString) (q _namelen : Nat)
    (result : NcConfListen × Int) (conf : NcConfServer) : NcConfServer × Int :=
  let weight := nc_atoi value.byte (q + 1) (lengthAfter q value.m_len)
  if result.2 ≠ NC_OK then (⟨result.1, conf.weight⟩, result.2)
  else if weight < 0 ∨ weight > 0x7FFFFFFF then (⟨result.1, weight⟩, NC_ERROR)
  else
    let assigned := result.1.assign libc value _namelen
    (⟨assigned.1, weight⟩, assigned.2)

/-- **`NcConfServer::parse`.** -/
def parse (libc : Libc) (value : NcString) (conf : NcConfServer) : NcConfServer × Int :=
  if value.byte 0 = 47 then
    match nc_strrchr value.byte 32 value.m_len with
    | none => (conf, NC_ERROR)
    | some q =>
        match nc_strrchr value.byte 32 q with
        | none => conf.setWeight libc value q value.m_len (conf.toNcConfListen, NC_OK)
        | some q' =>
            conf.setWeight libc value q q' (conf.toNcConfListen.setPerm libc value (q' + 1))
  else
    match nc_strrchr value.byte 58 value.m_len with
    | none => (conf, NC_ERROR)
    | some q =>
        match nc_strrchr value.byte 58 q with
        | none => (conf, NC_ERROR)
        | some q' =>
            conf.setWeight libc value q q'
              (conf.toNcConfListen.setPort value (q' + 1) (lengthAfter q' q))

end NcConfServer

end Nutcracker
