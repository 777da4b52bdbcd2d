/-
**What a configuration becomes.**

A configuration is a mapping from the names of pools to mappings, in which every entry is a scalar or
a sequence of scalars (`Entry`, `PoolText`). The reader sees its events (`docEvents`) and tells keys
from values by the depth, one bit and the height of its stack alone.

* `entry_turns`, `pool_turns`, `doc_turns` — what the reader does with the events of an entry, a pool
  and all pools: the stack is as before, and each value was handled under its own key and pool.
* `foldl_take` — what the values of a pool become: the last state of its address to listen on, and the
  servers that are accepted.
* `configuration_shape` — **the reader returns, and the pools are those of the configuration**, if
  every scalar is shorter than the length of a string can say.
-/

import Nutcracker.Conf.Survive
import Nutcracker.Text.Split

namespace Nutcracker

/-! ### Configurations -/

/-- An entry of a pool: a key, and a scalar or a sequence of scalars. -/
inductive Entry
  | scalar (key value : List UInt8)
  | sequence (key : List UInt8) (values : List (List UInt8))

namespace Entry

def key : Entry → List UInt8
  | scalar key _ => key
  | sequence key _ => key

def values : Entry → List (List UInt8)
  | scalar _ value => [value]
  | sequence _ values => values

def events : Entry → List YamlEvent
  | scalar key value => [.scalar key, .scalar value]
  | sequence key values =>
      .scalar key :: .sequenceStart :: (values.map YamlEvent.scalar ++ [.sequenceEnd])

end Entry

/-- A pool in a configuration. -/
structure PoolText where
  name : List UInt8
  entries : List Entry

namespace PoolText

def events (pool : PoolText) : List YamlEvent :=
  .scalar pool.name :: .mappingStart :: (pool.entries.flatMap Entry.events ++ [.mappingEnd])

/-- The values under a key, in order. -/
def valuesOf (key : List UInt8) (entries : List Entry) : List (List UInt8) :=
  entries.flatMap fun entry => if entry.key = key then entry.values else []

/-- All scalars of a pool. -/
def scalars (pool : PoolText) : List (List UInt8) :=
  pool.name :: pool.entries.flatMap fun entry => entry.key :: entry.values

end PoolText

/-- The events of a file with this configuration, up to the end of the mapping. -/
def docEvents (doc : List PoolText) : List YamlEvent :=
  .streamStart :: .documentStart :: .mappingStart :: (doc.flatMap PoolText.events ++ [.mappingEnd])

/-- A scalar that a string can hold: not empty, without zero bytes, and with a length that leaves
room for one more in an `uint32_t`. -/
structure Storable (value : List UInt8) : Prop where
  nonempty : value ≠ []
  zero : 0 ∉ value
  short : value.length + 1 < 2 ^ 32

/-! ### One value -/

/-- What a value under a key does to its pool. -/
def NcConfPool.take (libc : Libc) (key value : List UInt8) (pool : NcConfPool) : NcConfPool :=
  if key = NcConf.listenText then { pool with listen := (pool.listen.parse libc (.ofText value)).1 }
  else if key = NcConf.serversText then
    let cs := (NcConfServer.new libc).parse libc (.ofText value)
    if cs.2 ≠ NC_OK then pool else { pool with server := pool.server ++ [cs.1] }
  else pool

/-- The values for `listen` that were parsed, with the index of their pool, in order. -/
def listened (handled : List Handled) : List (Nat × NcString) :=
  (handled.filterMap fun called =>
    if called.key = .listen then called.data.map fun data => (data, called.value) else none).reverse

@[simp] theorem listened_listen (data : Nat) (value : NcString) (left : List YamlEvent)
    (handled : List Handled) :
    listened (⟨.listen, some data, value, left⟩ :: handled) =
      listened handled ++ [(data, value)] := by
  simp [listened]

@[simp] theorem listened_server (data : Option Nat) (value : NcString) (left : List YamlEvent)
    (handled : List Handled) :
    listened (⟨.servers, data, value, left⟩ :: handled) = listened handled := by
  simp [listened]

/-- The values that are listened on, of some values under a key. -/
def listens (data : Nat) (key : List UInt8) (values : List (List UInt8)) : List (Nat × NcString) :=
  if key = NcConf.listenText then values.map fun value => (data, .ofText value) else []

/-- A storable scalar is copied as it is. -/
theorem Storable.ofBytes {value : List UInt8} (storable : Storable value) :
    NcString.ofBytes value (value.length % 2 ^ 32) = .ofText value := by
  have short := storable.short
  have length : value.length % 2 ^ 32 = value.length := Nat.mod_eq_of_lt (by omega)
  have next : (value.length + 1) % 2 ^ 32 = value.length + 1 := Nat.mod_eq_of_lt short
  rw [length, NcString.ofBytes, next, NcString.nc_strndup, List.take_of_length_le (by omega),
    takeWhile_of_zero storable.zero, List.set_append_right _ _ (le_refl _), Nat.sub_self]
  rfl

/-- A key is the text that it spells. -/
theorem Storable.eqText_iff {value : List UInt8} (storable : Storable value) (text : List UInt8) :
    (NcString.ofText value).eqText text = decide (value = text) := by
  have length : ((NcString.ofText value).m_len != 0) = true := by
    rw [bne_iff_ne]
    intro isZero
    exact storable.nonempty (List.length_eq_zero_iff.mp isZero)
  rw [NcString.eqText, (spells_ofText storable.zero).cstr, length, Bool.true_and,
    beq_eq_decide]

/-- A storable scalar is pushed. -/
theorem Storable.push {value : List UInt8} (storable : Storable value) (cf : NcConf) :
    cf.yamlPushScalar value = ({ cf with args := cf.args ++ [.ofText value] }, NC_OK) := by
  have short := storable.short
  have positive := List.length_pos_iff.mpr storable.nonempty
  have length : value.length % 2 ^ 32 ≠ 0 := by
    rw [Nat.mod_eq_of_lt (by omega)]
    omega
  rw [NcConf.yamlPushScalar]
  simp only [if_neg length, storable.ofBytes]

/-! ### The turns of `parseCore` -/

namespace NcConf

/-- **Turns of `parseCore`**, one after the other. -/
def Turns (libc : Libc) : NcConf × Option Nat → NcConf × Option Nat → Prop :=
  Relation.ReflTransGen fun s s' => s.1.coreTurn libc s.2 = .ok (.again s'.1 s'.2)

/-- What the turns lead to is what `parseCore` returns. -/
theorem Turns.parseCore {libc : Libc} {s s' : NcConf × Option Nat} {result : NcConf × Int}
    (turns : Turns libc s s') (fuel : Nat) (returns : s'.1.parseCore libc fuel s'.2 = .ok result) :
    ∃ more, s.1.parseCore libc more s.2 = .ok result := by
  induction turns using Relation.ReflTransGen.head_induction_on with
  | refl => exact ⟨fuel, returns⟩
  | head first _ ih =>
      obtain ⟨more, rest⟩ := ih
      refine ⟨more + 1, ?_⟩
      rw [NcConf.parseCore, first]
      exact rest

theorem Turns.first {libc : Libc} {cf cf' : NcConf} {data data' : Option Nat}
    {s : NcConf × Option Nat} (turn : cf.coreTurn libc data = .ok (.again cf' data'))
    (rest : Turns libc (cf', data') s) : Turns libc (cf, data) s :=
  .head turn rest

theorem Turns.last {libc : Libc} {cf cf' : NcConf} {data data' : Option Nat}
    {s : NcConf × Option Nat} (before : Turns libc s (cf, data))
    (turn : cf.coreTurn libc data = .ok (.again cf' data')) : Turns libc s (cf', data') :=
  .tail before turn

/-- The reader in the middle of a file. -/
def during (fails : Bool) (pool : List NcConfPool) (args : List NcString) (depth : UInt32)
    (seq : Bool) (events : List YamlEvent) (handled : List Handled) : NcConf :=
  ⟨pool, args, depth, seq, ⟨true, events, fails⟩, false, handled⟩

variable {libc : Libc} {fails : Bool} {before : List NcConfPool} {pool : NcConfPool}
  {events : List YamlEvent} {handled : List Handled} {name key value : List UInt8}

/-- **The handler**, with a key and a value behind the name of a pool. -/
theorem handler_take (libc : Libc) (pool : NcConfPool) (cf : NcConf) (isKey : Storable key)
    (args : cf.args = [.ofText name, .ofText key, .ofText value])
    (isPool : cf.pool = before ++ [pool]) :
    ∃ handled', cf.handler libc (some before.length) =
        .ok ({ cf with pool := before ++ [pool.take libc key value], handled := handled' }, NC_OK) ∧
      listened handled' = listened cf.handled ++ listens before.length key [value] := by
  have last : (before ++ [pool]).getD before.length (NcConfPool.new libc) = pool := by simp
  have modified : ∀ f : NcConfPool → NcConfPool,
      (before ++ [pool]).modify before.length f = before ++ [f pool] := by
    intro f
    simp [List.modify_eq_set_getElem?]
  have narg : ([.ofText name, .ofText key, .ofText value] : List NcString).length % 2 ^ 32 = 3 := rfl
  obtain ⟨pools, stack, depth, seq, parser, parsed, handled⟩ := cf
  simp only at args isPool
  subst args isPool
  rw [handler]
  simp only [narg]
  rw [if_neg (by decide), show ([.ofText name, .ofText key, .ofText value] : List NcString).getD
    (3 - 1) .empty = .ofText value from rfl, show ([.ofText name, .ofText key, .ofText value] :
    List NcString).getD (3 - 2) .empty = .ofText key from rfl]
  simp only [isKey.eqText_iff, decide_eq_true_eq]
  by_cases isListen : key = listenText
  · simp only [NcConfPool.take, if_pos isListen, last, modified]
    refine ⟨_, rfl, ?_⟩
    simp [listens, isListen]
  · simp only [NcConfPool.take, if_neg isListen]
    have noCalls : listens before.length key [value] = [] := if_neg isListen
    by_cases isServers : key = serversText
    · simp only [if_pos isServers]
      by_cases rejected : ((NcConfServer.new libc).parse libc (.ofText value)).2 ≠ NC_OK
      · simp only [if_pos rejected]
        refine ⟨_, rfl, ?_⟩
        rw [listened_server, noCalls, List.append_nil]
      · simp only [if_neg rejected, modified]
        refine ⟨_, rfl, ?_⟩
        rw [listened_server, noCalls, List.append_nil]
    · simp only [if_neg isServers]
      refine ⟨_, rfl, ?_⟩
      rw [noCalls, List.append_nil]

/-! ### One event -/

/-- The name of a pool. -/
theorem turn_name (storable : Storable name) (data : Option Nat) :
    coreTurn libc (during fails before [] 1 false (.scalar name :: events) handled) data =
      .ok (.again (during fails (before ++ [NcConfPool.new libc]) [.ofText name] 1 false events
        handled) (some before.length)) := by
  simp only [coreTurn, during, yamlEventNext, YamlParser.parse, storable.push]
  rfl

/-- The begin of a pool's mapping. -/
theorem turn_mappingStart (args : List NcString) (data : Option Nat) :
    coreTurn libc (during fails before args 1 false (.mappingStart :: events) handled) data =
      .ok (.again (during fails before args 2 false events handled) data) := rfl

/-- The end of a pool's mapping. -/
theorem turn_mappingEnd (data : Option Nat) :
    coreTurn libc (during fails before [.ofText name] 2 false (.mappingEnd :: events) handled) data =
      .ok (.again (during fails before [] 1 false events handled) data) := by
  have shallower : (2 : UInt32) - 1 = 1 := by decide
  simp only [coreTurn, during, yamlEventNext, YamlParser.parse, shallower, if_true]
  rfl

/-- A key. -/
theorem turn_key (storable : Storable key) (data : Option Nat) :
    coreTurn libc (during fails before [.ofText name] 2 false (.scalar key :: events) handled) data =
      .ok (.again (during fails before [.ofText name, .ofText key] 2 false events handled) data) := by
  simp only [coreTurn, during, yamlEventNext, YamlParser.parse, storable.push]
  rfl

/-- The begin of a sequence. -/
theorem turn_sequenceStart (args : List NcString) (data : Option Nat) :
    coreTurn libc (during fails before args 2 false (.sequenceStart :: events) handled) data =
      .ok (.again (during fails before args 2 true events handled) data) := rfl

/-- The end of a sequence. -/
theorem turn_sequenceEnd (data : Option Nat) :
    coreTurn libc (during fails before [.ofText name, .ofText key] 2 true (.sequenceEnd :: events)
        handled) data =
      .ok (.again (during fails before [.ofText name] 2 false events handled) data) := rfl

/-- **A value**: it is handled and popped, and outside a sequence so is its key. -/
theorem turn_value (libc : Libc) (fails : Bool) (before : List NcConfPool) (pool : NcConfPool)
    (events : List YamlEvent) (handled : List Handled) (name : List UInt8) (seq : Bool) (isKey : Storable key) (storable : Storable value) :
    ∃ handled', coreTurn libc (during fails (before ++ [pool]) [.ofText name, .ofText key] 2 seq
          (.scalar value :: events) handled) (some before.length) =
        .ok (.again (during fails (before ++ [pool.take libc key value])
          (if seq then [.ofText name, .ofText key] else [.ofText name]) 2 seq events handled')
            (some before.length)) ∧
      listened handled' = listened handled ++ listens before.length key [value] := by
  obtain ⟨handled', handles, calls⟩ := handler_take libc pool
    (during fails (before ++ [pool]) [.ofText name, .ofText key, .ofText value] 2 seq events handled)
    isKey rfl rfl
  refine ⟨handled', ?_, calls⟩
  have notRoot : (2 : UInt32) ≠ CONF_ROOT_DEPTH := by decide
  have notError : ¬ NC_OK ≠ NC_OK := fun notOk => notOk rfl
  have isLeaf : ([.ofText name, .ofText key, .ofText value] : List NcString).length =
      ((2 : UInt32) + 1).toNat := by
    rw [show ((2 : UInt32) + 1).toNat = 3 by decide]
    rfl
  have pushed : ([.ofText name, .ofText key] : List NcString) ++ [.ofText value] =
      [.ofText name, .ofText key, .ofText value] := rfl
  rw [during] at handles
  simp only [coreTurn, during, yamlEventNext, YamlParser.parse, storable.push, pushed]
  rw [if_neg notError]
  cases seq with
  | true =>
      rw [if_pos rfl, leaf, handles]
      rfl
  | false =>
      rw [if_neg Bool.false_ne_true, if_neg notRoot, if_pos isLeaf, leaf, handles]
      rfl

/-! ### Entries and pools -/

/-- What the values of an entry do to its pool. -/
def takeEntry (libc : Libc) (pool : NcConfPool) (entry : Entry) : NcConfPool :=
  entry.values.foldl (fun pool value => pool.take libc entry.key value) pool

theorem listens_append (data : Nat) (key : List UInt8) (first second : List (List UInt8)) :
    listens data key (first ++ second) = listens data key first ++ listens data key second := by
  by_cases isListen : key = listenText
  · simp [listens, isListen]
  · simp [listens, isListen]

/-- **The values of a sequence**, one after the other. -/
theorem values_turns (libc : Libc) (fails : Bool) (before : List NcConfPool) (name : List UInt8)
    (events : List YamlEvent) (isKey : Storable key) (values : List (List UInt8))
    (storable : ∀ value ∈ values, Storable value) (pool : NcConfPool) (handled : List Handled) :
    ∃ handled', Turns libc
        (during fails (before ++ [pool]) [.ofText name, .ofText key] 2 true
          (values.map YamlEvent.scalar ++ events) handled, some before.length)
        (during fails (before ++ [values.foldl (fun pool value => pool.take libc key value) pool])
          [.ofText name, .ofText key] 2 true events handled', some before.length) ∧
      listened handled' = listened handled ++ listens before.length key values := by
  induction values generalizing pool handled with
  | nil =>
      refine ⟨handled, .refl, ?_⟩
      simp [listens]
  | cons value values ih =>
      obtain ⟨isStorable, restStorable⟩ := List.forall_mem_cons.mp storable
      obtain ⟨handled₁, first, calls₁⟩ := turn_value libc fails before pool
        (values.map YamlEvent.scalar ++ events) handled name true isKey isStorable
      obtain ⟨handled₂, rest, calls₂⟩ := ih restStorable (pool.take libc key value) handled₁
      rw [if_pos rfl] at first
      refine ⟨handled₂, .first first rest, ?_⟩
      rw [calls₂, calls₁, List.append_assoc, ← listens_append, List.singleton_append]

/-- **An entry**: its values are handled under its key, and the stack is as before. -/
theorem entry_turns (libc : Libc) (fails : Bool) (before : List NcConfPool) (name : List UInt8)
    (events : List YamlEvent) (entry : Entry) (storable : ∀ value ∈ entry.key :: entry.values, Storable value)
    (pool : NcConfPool) (handled : List Handled) :
    ∃ handled', Turns libc
        (during fails (before ++ [pool]) [.ofText name] 2 false (entry.events ++ events) handled,
          some before.length)
        (during fails (before ++ [takeEntry libc pool entry]) [.ofText name] 2 false events handled',
          some before.length) ∧
      listened handled' =
        listened handled ++ listens before.length entry.key entry.values := by
  obtain ⟨isKey, values⟩ := List.forall_mem_cons.mp storable
  cases entry with
  | scalar key value =>
      obtain ⟨handled', last, calls⟩ := turn_value libc fails before pool events handled name false
        isKey (values value List.mem_cons_self)
      rw [if_neg Bool.false_ne_true] at last
      exact ⟨handled', .first (turn_key isKey _) (.first last .refl), calls⟩
  | sequence key inner =>
      obtain ⟨handled', inside, calls⟩ := values_turns libc fails before name
        (.sequenceEnd :: events) isKey inner values pool handled
      have after := inside.last (turn_sequenceEnd _)
      have events : (Entry.sequence key inner).events ++ events = .scalar key :: .sequenceStart ::
          (inner.map YamlEvent.scalar ++ .sequenceEnd :: events) := by
        simp [Entry.events]
      rw [events]
      exact ⟨handled', .first (turn_key isKey _) (.first (turn_sequenceStart _ _) after), calls⟩

/-- **The entries of a pool.** -/
theorem entries_turns (libc : Libc) (fails : Bool) (before : List NcConfPool) (name : List UInt8)
    (events : List YamlEvent) (entries : List Entry)
    (storable : ∀ entry ∈ entries, ∀ value ∈ entry.key :: entry.values, Storable value)
    (pool : NcConfPool) (handled : List Handled) :
    ∃ handled', Turns libc
        (during fails (before ++ [pool]) [.ofText name] 2 false
          (entries.flatMap Entry.events ++ events) handled, some before.length)
        (during fails (before ++ [entries.foldl (takeEntry libc) pool]) [.ofText name] 2 false events
          handled', some before.length) ∧
      listened handled' = listened handled ++
        entries.flatMap fun entry => listens before.length entry.key entry.values := by
  induction entries generalizing pool handled with
  | nil =>
      refine ⟨handled, .refl, ?_⟩
      simp
  | cons entry entries ih =>
      obtain ⟨isStorable, restStorable⟩ := List.forall_mem_cons.mp storable
      obtain ⟨handled₁, first, calls₁⟩ := entry_turns libc fails before name
        (entries.flatMap Entry.events ++ events) entry isStorable pool handled
      obtain ⟨handled₂, rest, calls₂⟩ := ih restStorable (takeEntry libc pool entry) handled₁
      refine ⟨handled₂, ?_, ?_⟩
      · rw [List.flatMap_cons, List.append_assoc]
        exact Relation.ReflTransGen.trans first rest
      · rw [calls₂, calls₁, List.flatMap_cons, List.append_assoc]

/-! ### What becomes of a pool -/

/-- A server that is accepted. -/
def accept (libc : Libc) (value : List UInt8) : Option NcConfServer :=
  let cs := (NcConfServer.new libc).parse libc (.ofText value)
  if cs.2 = NC_OK then some cs.1 else none

/-- The address to listen on, after some values. -/
def listenAfter (libc : Libc) (values : List (List UInt8)) (conf : NcConfListen) : NcConfListen :=
  values.foldl (fun conf value => (conf.parse libc (.ofText value)).1) conf

/-- The values of one entry. -/
theorem foldl_take_values (libc : Libc) (key : List UInt8) (values : List (List UInt8))
    (pool : NcConfPool) :
    values.foldl (fun pool value => pool.take libc key value) pool =
      { pool with
        listen := listenAfter libc (if key = listenText then values else []) pool.listen
        server := pool.server ++
          (if key = serversText then values else []).filterMap (accept libc) } := by
  have different : listenText ≠ serversText := by decide
  induction values generalizing pool with
  | nil => simp [listenAfter]
  | cons value values ih =>
      rw [List.foldl_cons, ih, NcConfPool.take]
      by_cases isListen : key = listenText
      · subst isListen
        simp [listenAfter, different]
      · by_cases isServers : key = serversText
        · subst isServers
          by_cases accepted : ((NcConfServer.new libc).parse libc (.ofText value)).2 = NC_OK
          · simp [listenAfter, isListen, accept, accepted]
          · simp [listenAfter, isListen, accept, accepted]
        · simp [listenAfter, isListen, isServers]

/-- **The values of a pool**: its address to listen on, and the servers that are accepted. -/
theorem foldl_take (libc : Libc) (entries : List Entry) (pool : NcConfPool) :
    entries.foldl (takeEntry libc) pool =
      { pool with
        listen := listenAfter libc (PoolText.valuesOf listenText entries) pool.listen
        server := pool.server ++
          (PoolText.valuesOf serversText entries).filterMap (accept libc) } := by
  induction entries generalizing pool with
  | nil => simp [PoolText.valuesOf, listenAfter]
  | cons entry entries ih =>
      rw [List.foldl_cons, ih, takeEntry, foldl_take_values]
      simp [PoolText.valuesOf, listenAfter]

/-- The values that are listened on, of a pool. -/
theorem flatMap_listens (data : Nat) (entries : List Entry) :
    (entries.flatMap fun entry => listens data entry.key entry.values) =
      (PoolText.valuesOf listenText entries).map fun value => (data, .ofText value) := by
  induction entries with
  | nil => rfl
  | cons entry entries ih =>
      rw [List.flatMap_cons, ih, PoolText.valuesOf, PoolText.valuesOf, List.flatMap_cons,
        List.map_append]
      congr 1
      rw [listens]
      split
      · rfl
      · rfl

end NcConf

/-- **The pool that a configuration describes.** -/
def PoolText.conf (libc : Libc) (pool : PoolText) : NcConfPool :=
  { NcConfPool.new libc with
    listen := NcConf.listenAfter libc (valuesOf NcConf.listenText pool.entries) (.new libc)
    server := (valuesOf NcConf.serversText pool.entries).filterMap (NcConf.accept libc) }

/-- The values for `listen` of a configuration, with the index of their pool. -/
def listensOf (doc : List PoolText) (first : Nat) : List (Nat × NcString) :=
  (doc.zipIdx first).flatMap fun pool =>
    (PoolText.valuesOf NcConf.listenText pool.1.entries).map fun value => (pool.2, .ofText value)

namespace NcConf

/-- **A pool.** -/
theorem pool_turns (libc : Libc) (fails : Bool) (before : List NcConfPool) (events : List YamlEvent)
    (pool : PoolText) (storable : ∀ value ∈ pool.scalars, Storable value) (handled : List Handled)
    (data : Option Nat) :
    ∃ handled', Turns libc
        (during fails before [] 1 false (pool.events ++ events) handled, data)
        (during fails (before ++ [pool.conf libc]) [] 1 false events handled', some before.length) ∧
      listened handled' = listened handled ++
        (PoolText.valuesOf listenText pool.entries).map fun value =>
          (before.length, .ofText value) := by
  obtain ⟨isName, inEntries⟩ := List.forall_mem_cons.mp storable
  have entries : ∀ entry ∈ pool.entries, ∀ value ∈ entry.key :: entry.values, Storable value :=
    fun entry member value inside => inEntries value (List.mem_flatMap.mpr ⟨entry, member, inside⟩)
  obtain ⟨handled', inside, calls⟩ := entries_turns libc fails before pool.name
    (.mappingEnd :: events) pool.entries entries (.new libc) handled
  have after := inside.last (turn_mappingEnd _)
  rw [foldl_take] at after
  refine ⟨handled', ?_, ?_⟩
  · have parts : pool.events ++ events = .scalar pool.name :: .mappingStart ::
        (pool.entries.flatMap Entry.events ++ .mappingEnd :: events) := by
      simp [PoolText.events]
    rw [parts]
    exact .first (turn_name isName _) (.first (turn_mappingStart _ _) after)
  · rw [calls, flatMap_listens]

/-- **All pools.** -/
theorem doc_turns (libc : Libc) (fails : Bool) (events : List YamlEvent) (doc : List PoolText)
    (storable : ∀ pool ∈ doc, ∀ value ∈ pool.scalars, Storable value) (before : List NcConfPool)
    (handled : List Handled) (data : Option Nat) :
    ∃ handled' data', Turns libc
        (during fails before [] 1 false (doc.flatMap PoolText.events ++ events) handled, data)
        (during fails (before ++ doc.map (PoolText.conf libc)) [] 1 false events handled', data') ∧
      listened handled' = listened handled ++ listensOf doc before.length := by
  induction doc generalizing before handled data with
  | nil =>
      refine ⟨handled, data, ?_, ?_⟩
      · rw [List.map_nil, List.append_nil]
        exact .refl
      · simp [listensOf]
  | cons pool doc ih =>
      obtain ⟨isStorable, restStorable⟩ := List.forall_mem_cons.mp storable
      obtain ⟨handled₁, first, calls₁⟩ := pool_turns libc fails before
        (doc.flatMap PoolText.events ++ events) pool isStorable handled data
      obtain ⟨handled₂, data₂, rest, calls₂⟩ :=
        ih restStorable (before ++ [pool.conf libc]) handled₁ (some before.length)
      rw [List.append_assoc, List.singleton_append] at rest
      refine ⟨handled₂, data₂, ?_, ?_⟩
      · rw [List.flatMap_cons, List.append_assoc]
        exact Relation.ReflTransGen.trans first rest
      · rw [calls₂, calls₁, List.append_assoc]
        simp [listensOf]

/-- `parseBegin` goes up to the mapping. -/
theorem begin_doc (fuel : Nat) (fails : Bool) (doc : List PoolText) (rest : List YamlEvent) :
    (NcConf.new ⟨true, docEvents doc ++ rest, fails⟩).parseBegin (fuel + 3) =
      .ok (during fails [] [] 1 false (doc.flatMap PoolText.events ++ .mappingEnd :: rest) [],
        NC_OK) := by
  have parts : docEvents doc ++ rest = .streamStart :: .documentStart :: .mappingStart ::
      (doc.flatMap PoolText.events ++ .mappingEnd :: rest) := by
    simp [docEvents]
  rw [parts]
  rfl

/-- The end of the mapping. -/
theorem core_end (libc : Libc) (fails : Bool) (pools : List NcConfPool) (rest : List YamlEvent)
    (handled : List Handled) (data : Option Nat) :
    (during fails pools [] 1 false (.mappingEnd :: rest) handled).parseCore libc 1 data =
      .ok (during fails pools [] 0 false rest handled, NC_OK) := by
  have top : (1 : UInt32) - 1 = 0 := by decide
  have notOne : (0 : UInt32) ≠ 1 := by decide
  simp only [parseCore, coreTurn, during, yamlEventNext, YamlParser.parse, top, if_neg notOne, if_true]
  rfl

/-- **The shape of a configuration**: `parseBegin` and `parseCore` return, with nothing left on the
stack; the pools are those of the configuration, in order, and exactly the values for `listen` were
listened on. -/
theorem configuration_shape (libc : Libc) (fails : Bool) (doc : List PoolText)
    (rest : List YamlEvent)
    (storable : ∀ pool ∈ doc, ∀ value ∈ pool.scalars, Storable value) :
    ∃ fuel more cf cf',
      (NcConf.new ⟨true, docEvents doc ++ rest, fails⟩).parseBegin fuel = .ok (cf, NC_OK) ∧
      cf.parseCore libc more none = .ok (cf', NC_OK) ∧
      cf'.depth = 0 ∧ cf'.seq = false ∧ cf'.args = [] ∧
      cf'.pool = doc.map (PoolText.conf libc) ∧ listened cf'.handled = listensOf doc 0 := by
  obtain ⟨handled', data', turns, calls⟩ :=
    doc_turns libc fails (.mappingEnd :: rest) doc storable [] [] none
  obtain ⟨more, returns⟩ := turns.parseCore 1 (core_end libc fails _ rest handled' data')
  exact ⟨3, more, _, _, begin_doc 0 fails doc rest, returns, rfl, rfl, rfl, rfl, calls⟩

/-- A scalar whose length is lost in an `uint32_t` ends the reader. -/
theorem core_unstorable (libc : Libc) (fails : Bool) (pools : List NcConfPool)
    (events : List YamlEvent) (handled : List Handled) {value : List UInt8}
    (wraps : value.length % 2 ^ 32 = 0) (more : Nat) (data : Option Nat) :
    (during fails pools [] 1 false (.scalar value :: events) handled).parseCore libc (more + 1) data =
      .ok (during fails pools [] 1 false events handled, NC_ERROR) := by
  have lost : ∀ cf : NcConf, cf.yamlPushScalar value = (cf, NC_ERROR) := by
    intro cf
    rw [yamlPushScalar]
    simp only [wraps, if_true]
  have notOk : NC_ERROR ≠ NC_OK := by decide
  have turn : (during fails pools [] 1 false (.scalar value :: events) handled).coreTurn libc data =
      .ok (.returned (during fails pools [] 1 false events handled) NC_ERROR) := by
    simp only [coreTurn, during, yamlEventNext, YamlParser.parse, lost, if_pos notOk]
  rw [parseCore, turn]

/-- **The configuration `leaf: {listen: a:1, servers: [b:2:3]}`.** -/
def leafDoc : List PoolText :=
  [⟨[108, 101, 97, 102],
    [.scalar listenText [97, 58, 49], .sequence serversText [[98, 58, 50, 58, 51]]]⟩]

/-- One pool, one value to listen on, and one server. -/
theorem shape_of_leafDoc :
    ∃ fuel more cf cf',
      (NcConf.new ⟨true, docEvents leafDoc ++ [], false⟩).parseBegin fuel = .ok (cf, NC_OK) ∧
      cf.parseCore oneHost more none = .ok (cf', NC_OK) ∧
      cf'.pool.map (fun pool => pool.server.map NcConfServer.weight) = [[3]] ∧
      listened cf'.handled = [(0, .ofText [97, 58, 49])] := by
  have storable : ∀ pool ∈ leafDoc, ∀ value ∈ pool.scalars, Storable value := by
    have all : ∀ pool ∈ leafDoc, ∀ value ∈ pool.scalars,
        value ≠ [] ∧ 0 ∉ value ∧ value.length + 1 < 2 ^ 32 := by decide
    intro pool inDoc value member
    obtain ⟨nonempty, zero, short⟩ := all pool inDoc value member
    exact ⟨nonempty, zero, short⟩
  obtain ⟨fuel, more, cf, cf', begins, returns, -, -, -, pools, calls⟩ :=
    configuration_shape oneHost false leafDoc [] storable
  refine ⟨fuel, more, cf, cf', begins, returns, ?_, ?_⟩
  · rw [pools]
    decide
  · rw [calls]
    decide

/-- **A name of `2 ^ 32` bytes** has the length `0` in an `uint32_t`: `parseCore` returns an error. -/
theorem long_name_rejected :
    ∃ doc : List PoolText,
      (∀ pool ∈ doc, ∀ value ∈ pool.scalars, value ≠ [] ∧ 0 ∉ value) ∧
      ∀ fuel more cf cf' status,
        (NcConf.new ⟨true, docEvents doc ++ [], false⟩).parseBegin fuel = .ok (cf, NC_OK) →
        cf.parseCore oneHost more none = .ok (cf', status) → status = NC_ERROR := by
  obtain ⟨value, length, letters⟩ : ∃ value : List UInt8, value.length = 2 ^ 32 ∧
      ∀ b ∈ value, b = 97 :=
    ⟨List.replicate (2 ^ 32) 97, List.length_replicate, fun b member => List.eq_of_mem_replicate member⟩
  have wraps : value.length % 2 ^ 32 = 0 := by rw [length, Nat.mod_self]
  refine ⟨[⟨value, []⟩], ?_, ?_⟩
  · intro pool inDoc other member
    obtain rfl := List.mem_singleton.mp inDoc
    obtain rfl : other = value := List.mem_singleton.mp member
    constructor
    · rintro rfl
      cases length
    · intro zero
      have isLetter := letters 0 zero
      revert isLetter
      decide
  · intro fuel more cf cf' status begins returns
    have sameBegin := (parseBegin_mono begins 3).symm.trans (begin_doc fuel false [⟨value, []⟩] [])
    obtain ⟨rfl, -⟩ := Prod.mk.inj (Except.ok.inj sameBegin)
    have ends := core_unstorable oneHost false [] [.mappingStart, .mappingEnd, .mappingEnd] [] wraps
      more none
    have sameCore := (parseCore_mono returns 1).symm.trans ends
    exact (Prod.mk.inj (Except.ok.inj sameCore)).2

end NcConf

end Nutcracker
