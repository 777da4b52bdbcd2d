/-
**The reader of the configuration file.**

`yaml_parser_parse` is given by what it returns, call by call. `NcConf` keeps a depth, one bit for
sequences and a stack of scalars; a loop that reads events has fuel, and `parseCore` calls itself in
its tail. `handled` records the values that `handler` came to.

* `parseBegin`, `parseEnd` — up to the first mapping, and from the end of it to the end of the stream.
* `parseCore` — the mapping. `coreTurn` is one call without the call in its tail.
* `handler` — the value at the end of the stack, by the key before it. It returns `NC_OK` always.

What has no defined effect in the source is a `ConfFault`. `data` is the index of a pool in `pool`, or
`NULL`. The name of a pool, its other settings, and the flags `valid_parser`, `valid_event`,
`valid_token`, `sound` and `valid` are left out.
-/

import Nutcracker.Conf.Address
import Nutcracker.HashKit.Model

namespace Nutcracker

/-- The events of the YAML parser. -/
inductive YamlEvent
  | noEvent
  | streamStart
  | streamEnd
  | documentStart
  | documentEnd
  | aliased
  | scalar (value : List UInt8)
  | sequenceStart
  | sequenceEnd
  | mappingStart
  | mappingEnd
  deriving DecidableEq

/-- The YAML parser of a file: whether it starts, the events that are left, and whether an error comes
after them. -/
structure YamlParser where
  starts : Bool
  events : List YamlEvent
  fails : Bool
  deriving DecidableEq

/-- `yaml_parser_parse`: an event, or an error. After the last event it is `YAML_NO_EVENT`. -/
def YamlParser.parse (parser : YamlParser) : YamlParser × Option YamlEvent :=
  match parser.events with
  | event :: rest => ({ parser with events := rest }, some event)
  | [] => (parser, if parser.fails then none else some .noEvent)

/-- `NcConfPool`. -/
structure NcConfPool where
  listen : NcConfListen
  server_connections : Int
  server_retry_timeout : Int
  server_failure_limit : Int
  server : List NcConfServer

/-- `NcConfPool()`. -/
def NcConfPool.new (libc : Libc) : NcConfPool where
  listen := .new libc
  server_connections := 1
  server_retry_timeout := 30 * 1000
  server_failure_limit := 2
  server := []

/-- The keys whose values `handler` parses. -/
inductive ConfKey
  | listen
  | servers
  deriving DecidableEq

/-- A value that `handler` came to, with its key and its pool, and the events after it. -/
structure Handled where
  key : ConfKey
  data : Option Nat
  value : NcString
  left : List YamlEvent
  deriving DecidableEq

/-- `NcConf`. -/
structure NcConf where
  pool : List NcConfPool
  args : List NcString
  depth : UInt32
  seq : Bool
  parser : YamlParser
  parsed : Bool
  handled : List Handled

/-- What goes wrong in the reader, or a loop out of fuel. -/
inductive ConfFault
  /-- `yamlPopScalar` with nothing on the stack. -/
  | popEmpty
  /-- `data->listen` or `data->server` without a pool. -/
  | nullData
  | fuel
  deriving DecidableEq

def CONF_ROOT_DEPTH : UInt32 := 1

namespace NcConf

/-- `NcConf()`, with the parser of its file. -/
def new (parser : YamlParser) : NcConf := ⟨[], [], 0, false, parser, false, []⟩

/-- `yamlEventNext`: the event, or none with an error. -/
def yamlEventNext (cf : NcConf) : NcConf × Option YamlEvent :=
  ({ cf with parser := cf.parser.parse.1 }, cf.parser.parse.2)

/-- The loop of `parseBegin`. -/
def beginLoop : Nat → NcConf → Except ConfFault (NcConf × Int)
  | 0, _ => .error .fuel
  | fuel + 1, cf =>
      match cf.yamlEventNext with
      | (cf, none) => .ok (cf, NC_ERROR)
      | (cf, some .mappingStart) => .ok ({ cf with depth := cf.depth + 1 }, NC_OK)
      | (cf, some _) => beginLoop fuel cf

/-- **`NcConf::parseBegin`.** -/
def parseBegin (fuel : Nat) (cf : NcConf) : Except ConfFault (NcConf × Int) :=
  if cf.parser.starts then beginLoop fuel cf else .ok (cf, NC_ERROR)

/-- The loop of `parseEnd`. -/
def endLoop : Nat → NcConf → Except ConfFault (NcConf × Int)
  | 0, _ => .error .fuel
  | fuel + 1, cf =>
      match cf.yamlEventNext with
      | (cf, none) => .ok (cf, NC_ERROR)
      | (cf, some .streamEnd) => .ok (cf, NC_OK)
      | (cf, some _) => endLoop fuel cf

/-- **`NcConf::parseEnd`.** -/
def parseEnd (fuel : Nat) (cf : NcConf) : Except ConfFault (NcConf × Int) := endLoop fuel cf

/-- `yamlPushScalar`. -/
def yamlPushScalar (value : List UInt8) (cf : NcConf) : NcConf × Int :=
  let scalar_len := value.length % 2 ^ 32
  if scalar_len = 0 then (cf, NC_ERROR)
  else ({ cf with args := cf.args ++ [.ofBytes value scalar_len] }, NC_OK)

/-- `yamlPopScalar`. -/
def yamlPopScalar (cf : NcConf) : Except ConfFault NcConf :=
  if cf.args = [] then .error .popEmpty else .ok { cf with args := cf.args.dropLast }

/-- The bytes of `"listen"` and of `"servers"`. -/
def listenText : List UInt8 := [108, 105, 115, 116, 101, 110]

def serversText : List UInt8 := [115, 101, 114, 118, 101, 114, 115]

/-- **`NcConf::handler`.** -/
def handler (libc : Libc) (cf : NcConf) (data : Option Nat) : Except ConfFault (NcConf × Int) :=
  let narg := cf.args.length % 2 ^ 32
  if narg ≤ 1 then .ok (cf, NC_OK)
  else
    let value := cf.args.getD (narg - 1) .empty
    let key := cf.args.getD (narg - 2) .empty
    if key.eqText listenText then
      match data with
      | none => .error .nullData
      | some i =>
          let listen := (cf.pool.getD i (NcConfPool.new libc)).listen
          .ok ({ cf with
            pool := cf.pool.modify i fun pool => { pool with listen := (listen.parse libc value).1 }
            handled := ⟨.listen, some i, value, cf.parser.events⟩ :: cf.handled }, NC_OK)
    else if key.eqText serversText then
      let cs := (NcConfServer.new libc).parse libc value
      let cf :=
        { cf with handled := ⟨.servers, data, value, cf.parser.events⟩ :: cf.handled }
      if cs.2 ≠ NC_OK then .ok (cf, NC_OK)
      else
        match data with
        | none => .error .nullData
        | some i =>
            .ok ({ cf with
              pool := cf.pool.modify i fun pool => { pool with server := pool.server ++ [cs.1] } },
              NC_OK)
    else .ok (cf, NC_OK)

/-- How a call of `parseCore` ends: it returns, or calls itself. -/
inductive CoreTurn
  | returned (cf : NcConf) (status : Int)
  | again (cf : NcConf) (data : Option Nat)

/-- The end of a call of `parseCore` with a leaf on the stack. -/
def leaf (libc : Libc) (cf : NcConf) (data : Option Nat) : Except ConfFault CoreTurn := do
  let (cf, status) ← cf.handler libc data
  let cf ← cf.yamlPopScalar
  let cf ← if cf.seq then pure cf else cf.yamlPopScalar
  if status ≠ NC_OK then return .returned cf status
  return .again cf data

/-- The end of a call of `parseCore` with a scalar on the stack that names a pool. -/
def newPool (libc : Libc) (cf : NcConf) : Except ConfFault CoreTurn := do
  let data := some cf.pool.length
  let (cf, status) ← { cf with pool := cf.pool ++ [NcConfPool.new libc] }.handler libc data
  if status ≠ NC_OK then return .returned cf status
  return .again cf data

/-- **A call of `NcConf::parseCore`**, up to the one in its tail. -/
def coreTurn (libc : Libc) (cf : NcConf) (data : Option Nat) : Except ConfFault CoreTurn :=
  match cf.yamlEventNext with
  | (cf, none) => .ok (.returned cf NC_ERROR)
  | (cf, some .mappingEnd) => do
      let cf := { cf with depth := cf.depth - 1 }
      if cf.depth = 1 then return .again (← cf.yamlPopScalar) data
      else if cf.depth = 0 then return .returned cf NC_OK
      else return .again cf data
  | (cf, some .mappingStart) => .ok (.again { cf with depth := cf.depth + 1 } data)
  | (cf, some .sequenceStart) => .ok (.again { cf with seq := true } data)
  | (cf, some .sequenceEnd) => do
      let cf ← cf.yamlPopScalar
      return .again { cf with seq := false } data
  | (cf, some (.scalar value)) =>
      let (cf, status) := cf.yamlPushScalar value
      if status ≠ NC_OK then .ok (.returned cf status)
      else if cf.seq then cf.leaf libc data
      else if cf.depth = CONF_ROOT_DEPTH then cf.newPool libc
      else if cf.args.length = (cf.depth + 1).toNat then cf.leaf libc data
      else .ok (.again cf data)
  | (cf, some _) => .ok (.again cf data)

/-- **`NcConf::parseCore`.** -/
def parseCore (libc : Libc) : Nat → NcConf → Option Nat → Except ConfFault (NcConf × Int)
  | 0, _, _ => .error .fuel
  | fuel + 1, cf, data =>
      match cf.coreTurn libc data with
      | .error fault => .error fault
      | .ok (.returned cf status) => .ok (cf, status)
      | .ok (.again cf data) => parseCore libc fuel cf data

/-- **`NcConf::parseProcess`.** -/
def parseProcess (libc : Libc) (fuel : Nat) (cf : NcConf) : Except ConfFault (NcConf × Int) := do
  let (cf, status) ← cf.parseBegin fuel
  if status ≠ NC_OK then return (cf, status)
  let (cf, status) ← cf.parseCore libc fuel none
  if status ≠ NC_OK then return (cf, status)
  let (cf, status) ← cf.parseEnd fuel
  if status ≠ NC_OK then return (cf, status)
  return ({ cf with parsed := true }, NC_OK)

end NcConf

end Nutcracker
