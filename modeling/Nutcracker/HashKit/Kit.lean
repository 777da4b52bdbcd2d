/-
**The other hash functions, and `NcHashKit::hash`.**

`hsiehHash` and `murmurHash` take four bytes at a time and the rest in a `switch`, and
`one_at_a_timeHash` one byte at a time. Where the source casts the key to unsigned bytes the model has
the byte, and where it widens a plain `char` the model widens one of either kind.

* `HashType`, `hash` — the twelve functions by the number of their type.
-/

import Nutcracker.HashKit.Crc
import Nutcracker.HashKit.Fnv
import Nutcracker.HashKit.Jenkins
import Nutcracker.HashKit.Md5

namespace Nutcracker

open Lib

namespace NcHashUtil

/-! ### `hsiehHash` -/

/-- `get16bits(d)`. -/
def get16bits (d : List UInt8) : UInt32 := (d.getD 1 0).toUInt32 <<< 8 + (d.getD 0 0).toUInt32

/-- A turn of the main loop. -/
def hsiehTurn (hash : UInt32) (key : List UInt8) : UInt32 :=
  let hash := hash + get16bits key
  let tmp := get16bits (key.drop 2) <<< 11 ^^^ hash
  let hash := hash <<< 16 ^^^ tmp
  hash + hash >>> 11

/-- The end cases, with `rem` bytes left at `key`. -/
def hsiehEnd (char : PlainChar) (rem : Nat) (key : List UInt8) (hash : UInt32) : UInt32 :=
  match rem with
  | 3 =>
      let hash := hash + get16bits key
      let hash := hash ^^^ hash <<< 16
      let hash := hash ^^^ char.toUInt32 (key.getD 2 0) <<< 18
      hash + hash >>> 11
  | 2 =>
      let hash := hash + get16bits key
      let hash := hash ^^^ hash <<< 11
      hash + hash >>> 17
  | 1 =>
      let hash := hash + (key.getD 0 0).toUInt32
      let hash := hash ^^^ hash <<< 10
      hash + hash >>> 1
  | _ => hash

/-- The last lines. -/
def avalanche (hash : UInt32) : UInt32 :=
  let hash := hash ^^^ hash <<< 3
  let hash := hash + hash >>> 5
  let hash := hash ^^^ hash <<< 4
  let hash := hash + hash >>> 17
  let hash := hash ^^^ hash <<< 25
  hash + hash >>> 6

/-- **`NcHashUtil::hsiehHash`.** -/
def hsiehHash (char : PlainChar) (key : List UInt8) : UInt32 :=
  if key.length = 0 then 0
  else
    let rem := key.length % 4
    let turns := key.length / 4
    let hash := firstBlocks 4 hsiehTurn turns 0 key
    avalanche (hsiehEnd char rem (key.drop (4 * turns)) hash)

/-! ### `murmurHash` -/

/-- The constant `m`. -/
def murmurM : UInt32 := 0x5bd1e995

/-- A turn of the loop, over the word at `data`. -/
def murmurTurn (h : UInt32) (data : List UInt8) : UInt32 :=
  let k := word data
  let k := k * murmurM
  let k := k ^^^ k >>> 24
  let k := k * murmurM
  (h * murmurM) ^^^ k

/-- The last few bytes. The cases fall through. -/
def murmurEnd (data : List UInt8) : Nat → UInt32 → UInt32
  | 3, h => murmurEnd data 2 (h ^^^ (data.getD 2 0).toUInt32 <<< 16)
  | 2, h => murmurEnd data 1 (h ^^^ (data.getD 1 0).toUInt32 <<< 8)
  | 1, h => (h ^^^ (data.getD 0 0).toUInt32) * murmurM
  | _, h => h

/-- **`NcHashUtil::murmurHash`.** -/
def murmurHash (key : List UInt8) : UInt32 :=
  let key_length := UInt32.ofNat key.length
  let seed := 0xdeadbeef * key_length
  let turns := key.length / 4
  let h := firstBlocks 4 murmurTurn turns (seed ^^^ key_length) key
  let h := murmurEnd (key.drop (4 * turns)) (key.length % 4) h
  let h := h ^^^ h >>> 13
  let h := h * murmurM
  h ^^^ h >>> 15

/-! ### `one_at_a_timeHash` -/

/-- A turn of the loop. -/
def oneTurn (char : PlainChar) (value : UInt32) (ptr : UInt8) : UInt32 :=
  let value := value + char.toUInt32 ptr
  let value := value + value <<< 10
  value ^^^ value >>> 6

/-- The last lines. -/
def oneEnd (value : UInt32) : UInt32 :=
  let value := value + value <<< 3
  let value := value ^^^ value >>> 11
  value + value <<< 15

/-- **`NcHashUtil::one_at_a_timeHash`.** -/
def one_at_a_timeHash (char : PlainChar) (key : List UInt8) : UInt32 :=
  oneEnd (key.foldl (oneTurn char) 0)

end NcHashUtil

/-! ### The hash of a type -/

/-- `HashType`, the `kHASH_` constants. -/
inductive HashType
  | oneAtATime
  | md5
  | crc16
  | crc32
  | crc32a
  | fnv1_64
  | fnv1a_64
  | fnv1_32
  | fnv1a_32
  | hsieh
  | murmur
  | jenkins
  deriving DecidableEq

/-- The type with this number. -/
def HashType.ofNumber : Int → Option HashType
  | 0x1 => some .oneAtATime
  | 0x2 => some .md5
  | 0x3 => some .crc16
  | 0x4 => some .crc32
  | 0x5 => some .crc32a
  | 0x6 => some .fnv1_64
  | 0x7 => some .fnv1a_64
  | 0x8 => some .fnv1_32
  | 0x9 => some .fnv1a_32
  | 0xa => some .hsieh
  | 0xb => some .murmur
  | 0xc => some .jenkins
  | _ => none

open NcHashUtil

/-- **`NcHashKit::hash`**, of the bytes in memory at `key`. What is in the buffer of a new `NcMd5` is
`m_buffer`. -/
def NcHashKit.hash (char : PlainChar) (m_buffer : List UInt8) (type : Int) (byte : Int → UInt8)
    (key : Int) (key_length : Nat) : UInt32 :=
  let bytes := bytesAt byte key key_length
  match HashType.ofNumber type with
  | some .oneAtATime => one_at_a_timeHash char bytes
  | some .md5 => md5Hash m_buffer bytes
  | some .crc16 => crc16Hash char bytes
  | some .crc32 => crc32Hash char bytes
  | some .crc32a => crc32aHash bytes
  | some .fnv1_64 => fnv164Hash char bytes
  | some .fnv1a_64 => fnv164aHash char bytes
  | some .fnv1_32 => fnv132Hash char bytes
  | some .fnv1a_32 => fnv132aHash char bytes
  | some .hsieh => hsiehHash char bytes
  | some .murmur => murmurHash bytes
  | some .jenkins => jenkinsHash byte key key_length
  | none => 0

end Nutcracker
