/-
**Strings, the searches in them, and the numbers in them.**

`NcString` is a length and an allocation. Positions are counted from the start of the string, and a
byte past the allocation reads as zero. `strndup` stops at the first zero byte, so a string of bytes
with a zero in them has an allocation shorter than its length; the zero that the constructor then
writes at its length is past it, and left out. A copy of a string is the string.

* `nc_strchr` — the search from the start. It returns the position before a zero byte, where it stops,
  and `NULL` for a match at the last byte.
* `nc_strrchr` — the search from the end. It returns `NULL` for a match at the start, and the position
  after a zero byte, where it stops.
* `nc_atoi` — the digits of a number, modulo `2 ^ 32`.
* `strtol8` — `strtol` in base 8, of the C library.
-/

import Mathlib.Algebra.Order.Ring.Int
import Mathlib.Algebra.Order.Ring.Nat

namespace Nutcracker

/-- `NcString`. -/
structure NcString where
  m_len : Nat
  m_data : List UInt8
  deriving DecidableEq

namespace NcString

/-- `NcString()`. -/
def empty : NcString := ⟨0, [0]⟩

/-- `nc_strndup(s, n)` of the bytes at `s`. -/
def nc_strndup (s : List UInt8) (n : Nat) : List UInt8 :=
  (s.take n).takeWhile (fun byte => byte != 0) ++ [0]

/-- `NcString(s, len)`, of the bytes at `s`. -/
def ofBytes (s : List UInt8) (len : Nat) : NcString :=
  ⟨len, (nc_strndup s ((len + 1) % 2 ^ 32)).set len 0⟩

def byte (s : NcString) (i : Nat) : UInt8 := s.m_data.getD i 0

/-- The bytes up to the first zero. -/
def cstr (s : NcString) : List UInt8 := s.m_data.takeWhile fun byte => byte != 0

/-- `operator==(const uint8_t *)`. -/
def eqText (s : NcString) (text : List UInt8) : Bool := s.m_len != 0 && s.cstr == text

end NcString

/-- The loop of `_nc_strchr`, with `n` bytes up to `last`. The byte at `last` is read too, whatever it
is. -/
def strchrLoop (byte : Int → UInt8) (c : UInt8) : Nat → Int → Option Int
  | 0, _ => none
  | n + 1, p =>
      if byte p = 0 then some (p - 1)
      else if byte p = c then (if n = 0 then none else some p)
      else strchrLoop byte c n (p + 1)

/-- `_nc_strchr(p, last, c)`. -/
def nc_strchr (byte : Int → UInt8) (p last : Int) (c : UInt8) : Option Int :=
  strchrLoop byte c (last - p).toNat p

/-- `_nc_strrchr(p, start, c)`, where the argument is `p - start + 1`. -/
def nc_strrchr (byte : Nat → UInt8) (c : UInt8) : Nat → Option Nat
  | 0 => none
  | i + 1 =>
      if byte i = 0 then some (i + 1)
      else if byte i = c then (if i = 0 then none else some i)
      else nc_strrchr byte c i

/-- The loop of `_nc_atoi`, from the position `line` on. -/
def atoiLoop (byte : Nat → UInt8) : Nat → Nat → Int → Int
  | _, 0, value => if value < 0 then -1 else value
  | line, n + 1, value =>
      if byte line < 48 ∨ 57 < byte line then -1
      else atoiLoop byte (line + 1) n ((value * 10 + ((byte line).toNat - 48)).bmod (2 ^ 32))

/-- `_nc_atoi(line, n)`. -/
def nc_atoi (byte : Nat → UInt8) (line n : Nat) : Int :=
  if n = 0 then -1 else atoiLoop byte line n 0

def isspace (b : UInt8) : Bool := b == 32 || (9 ≤ b && b ≤ 13)

def isOctal (b : UInt8) : Bool := 48 ≤ b && b ≤ 55

def ERANGE : Int := 34

/-- `strtol(text, NULL, 8)` with the `errno` it leaves; with nothing to convert this is
`noConversion`. -/
def strtol8 (noConversion : Int) (text : List UInt8) : Int × Int :=
  let text := text.dropWhile isspace
  let negative := text.head? == some 45
  let text := if negative || text.head? == some 43 then text.tail else text
  let digits := text.takeWhile isOctal
  let value : Int := digits.foldl (fun value digit => value * 8 + (digit.toNat - 48)) 0
  if digits = [] then (0, noConversion)
  else if negative then
    if value > 2 ^ 63 then (-2 ^ 63, ERANGE) else (-value, 0)
  else if value ≥ 2 ^ 63 then (2 ^ 63 - 1, ERANGE)
  else (value, 0)

end Nutcracker
