/-
**Which bytes of a key are hashed?**

With a hash tag of two characters, `index` looks for the first of them and from there for the second,
and hashes what is between. `_nc_strchr` steps over each byte before it compares it, so it misses a
match at the last byte; and it stops at a zero byte as if it had found one.

* `hashedBytes_eq` — what `index` hashes, on the bytes of the key.
* `scan_zero`, `scan_char`, `scan_none` — the three ways a search ends.
* `hash_tag_iff` — **`index` hashes the tag, or a key without one, exactly if `Readable`**; and keys
  with one tag hash alike if they are.
* `tag_at_end` — a tag that closes the key is not found.
-/

import Nutcracker.HashKit.Fnv
import Nutcracker.Text.Model
import Mathlib.Data.List.Basic

namespace Nutcracker

/-- The bytes `p[0]` to `p[n - 1]`. -/
def bytesAt (byte : Int → UInt8) (p : Int) (n : Nat) : List UInt8 :=
  (List.range n).map fun i : Nat => byte (p + (i : Int))

namespace NcServerPool

/-- **The key and its length that `NcServerPool::index` passes to `NcHashKit::hash`.** -/
def hashedKey (hash_tag : NcString) (byte : Int → UInt8) (key : Int) (keylen : UInt32) :
    Int × UInt32 :=
  if hash_tag.m_len > 0 then
    match nc_strchr byte key (key + keylen.toNat) (hash_tag.byte 0) with
    | none => (key, keylen)
    | some tag_start =>
        match nc_strchr byte (tag_start + 1) (key + keylen.toNat) (hash_tag.byte 1) with
        | none => (key, keylen)
        | some tag_end =>
            if tag_end - tag_start > 1 then
              (tag_start + 1, UInt32.ofNat (tag_end - (tag_start + 1)).toNat)
            else (key, keylen)
  else (key, keylen)

/-- The bytes that are hashed. -/
def hashedBytes (hash_tag : NcString) (byte : Int → UInt8) (key : Int) (keylen : UInt32) :
    List UInt8 :=
  bytesAt byte (hashedKey hash_tag byte key keylen).1 (hashedKey hash_tag byte key keylen).2.toNat

/-- The hash value in `NcServerPool::index`, where `hash` is `NcHashKit::hash` of the pool's type. -/
def hashv (hash : List UInt8 → UInt32) (hash_tag : NcString) (byte : Int → UInt8) (key : Int)
    (keylen : UInt32) : UInt32 :=
  hash (hashedBytes hash_tag byte key keylen)

/-- The hash tag `oc`. -/
def hashTag (o c : UInt8) : NcString := ⟨2, [o, c, 0]⟩

/-! ### What a hash tag is for -/

/-- The bytes before the first `b`, and those after it. -/
def splitAtByte (b : UInt8) : List UInt8 → Option (List UInt8 × List UInt8)
  | [] => none
  | x :: rest =>
      if x = b then some ([], rest)
      else (splitAtByte b rest).map fun parts => (x :: parts.1, parts.2)

/-- **The tag of a key**: the bytes between the first `o` and the first `c` after it, if there are
any. -/
def tagOf (o c : UInt8) (key : List UInt8) : Option (List UInt8) :=
  (splitAtByte o key).bind fun opened =>
    (splitAtByte c opened.2).bind fun closed => if closed.1 = [] then none else some closed.1

/-- The bytes to hash: the tag, or the whole key. -/
def tagged (o c : UInt8) (key : List UInt8) : List UInt8 := (tagOf o c key).getD key

/-- **The searches read the tag of the key as it is.** Up to the byte that closes a tag no byte is
zero, and there is a byte after it. Without a tag, no zero byte stands more than two places after the
first `o`, unless there is one before it or a `c` in between. -/
def Readable (o c : UInt8) (key : List UInt8) : Prop :=
  match splitAtByte o key with
  | none => True
  | some (before, after) =>
      match splitAtByte c after with
      | some (tag, rest) => tag = [] ∨ (0 ∉ before ++ o :: (tag ++ [c]) ∧ rest ≠ [])
      | none => 0 ∈ before ++ [o] ∨ ∀ parts ∈ splitAtByte 0 after, parts.1.length ≤ 1

theorem splitAtByte_some {b : UInt8} {bytes before after : List UInt8}
    (split : splitAtByte b bytes = some (before, after)) :
    bytes = before ++ b :: after ∧ b ∉ before := by
  induction bytes generalizing before with
  | nil => cases split
  | cons x rest ih =>
      unfold splitAtByte at split
      by_cases here : x = b
      · rw [if_pos here] at split
        obtain ⟨rfl, rfl⟩ := Prod.mk.inj (Option.some.inj split)
        exact ⟨by rw [here]; rfl, List.not_mem_nil⟩
      · rw [if_neg here] at split
        obtain ⟨⟨inner, after'⟩, found, same⟩ := Option.map_eq_some_iff.mp split
        obtain ⟨rfl, rfl⟩ := Prod.mk.inj same
        obtain ⟨rfl, absent⟩ := ih found
        refine ⟨rfl, fun inside => ?_⟩
        rcases List.mem_cons.mp inside with first | later
        · exact here first.symm
        · exact absent later

theorem splitAtByte_none {b : UInt8} {bytes : List UInt8} :
    splitAtByte b bytes = none ↔ b ∉ bytes := by
  induction bytes with
  | nil => exact iff_of_true rfl List.not_mem_nil
  | cons x rest ih =>
      unfold splitAtByte
      by_cases here : x = b
      · rw [if_pos here, here]
        exact iff_of_false (Option.some_ne_none _) fun absent => absent List.mem_cons_self
      · rw [if_neg here, Option.map_eq_none_iff, ih, List.mem_cons, not_or]
        exact ⟨fun absent => ⟨Ne.symm here, absent⟩, And.right⟩

/-! ### The searches -/

/-- `_nc_strchr` on a list of bytes, with the result relative to its start. -/
def scan (c : UInt8) : List UInt8 → Option Int
  | [] => none
  | x :: rest =>
      if x = 0 then some (-1)
      else if x = c then (if rest = [] then none else some 0)
      else (scan c rest).map (· + 1)

/-- A zero byte ends the search, and the position before it is returned. -/
theorem scan_zero {c : UInt8} {before : List UInt8} (after : List UInt8) (zero : 0 ∉ before)
    (char : c ∉ before) : scan c (before ++ 0 :: after) = some ((before.length : Int) - 1) := by
  induction before with
  | nil => exact if_pos rfl
  | cons x before ih =>
      have one : x ≠ 0 := fun same => zero (same ▸ List.mem_cons_self)
      have two : x ≠ c := fun same => char (same ▸ List.mem_cons_self)
      show scan c (x :: (before ++ 0 :: after)) = _
      unfold scan
      rw [if_neg one, if_neg two, ih (fun inside => zero (List.mem_cons_of_mem _ inside))
        fun inside => char (List.mem_cons_of_mem _ inside), List.length_cons]
      simp

/-- A match is returned if it is not the last byte. -/
theorem scan_char {c : UInt8} {before : List UInt8} (after : List UInt8) (zero : 0 ∉ before)
    (char : c ∉ before) (nonzero : c ≠ 0) :
    scan c (before ++ c :: after) = if after = [] then none else some (before.length : Int) := by
  induction before with
  | nil =>
      show scan c (c :: after) = _
      unfold scan
      rw [if_neg nonzero, if_pos rfl]
      rfl
  | cons x before ih =>
      have one : x ≠ 0 := fun same => zero (same ▸ List.mem_cons_self)
      have two : x ≠ c := fun same => char (same ▸ List.mem_cons_self)
      show scan c (x :: (before ++ c :: after)) = _
      unfold scan
      rw [if_neg one, if_neg two, ih (fun inside => zero (List.mem_cons_of_mem _ inside))
        fun inside => char (List.mem_cons_of_mem _ inside), List.length_cons]
      split <;> simp

/-- Without either there is no result. -/
theorem scan_none {c : UInt8} {bytes : List UInt8} (zero : 0 ∉ bytes) (char : c ∉ bytes) :
    scan c bytes = none := by
  induction bytes with
  | nil => rfl
  | cons x rest ih =>
      have one : x ≠ 0 := fun same => zero (same ▸ List.mem_cons_self)
      have two : x ≠ c := fun same => char (same ▸ List.mem_cons_self)
      unfold scan
      rw [if_neg one, if_neg two, ih (fun inside => zero (List.mem_cons_of_mem _ inside))
        fun inside => char (List.mem_cons_of_mem _ inside)]
      rfl

/-- A result lies one place or more before the last byte. -/
theorem scan_range {c : UInt8} {bytes : List UInt8} {found : Int} (scans : scan c bytes = some found) :
    -1 ≤ found ∧ found + 1 < bytes.length := by
  induction bytes generalizing found with
  | nil => cases scans
  | cons x rest ih =>
      unfold scan at scans
      rw [List.length_cons]
      split at scans
      · have same : -1 = found := Option.some.inj scans
        omega
      · split at scans
        · split at scans
          · cases scans
          next more =>
            have same : 0 = found := Option.some.inj scans
            have := List.length_pos_of_ne_nil more
            omega
        · obtain ⟨inner, scans, same⟩ := Option.map_eq_some_iff.mp scans
          have := ih scans
          omega

/-- What is hashed, on the bytes of the key. -/
def passed (o c : UInt8) (key : List UInt8) : List UInt8 :=
  match scan o key with
  | none => key
  | some tag_start =>
      match scan c (key.drop (tag_start + 1).toNat) with
      | none => key
      | some len => if len > 0 then (key.drop (tag_start + 1).toNat).take len.toNat else key

section Bytes

variable {byte : Int → UInt8}

theorem bytesAt_length (p : Int) (n : Nat) : (bytesAt byte p n).length = n := by
  unfold bytesAt
  rw [List.length_map, List.length_range]

theorem bytesAt_succ (p : Int) (n : Nat) :
    bytesAt byte p (n + 1) = byte p :: bytesAt byte (p + 1) n := by
  unfold bytesAt
  rw [List.range_succ_eq_map, List.map_cons, List.map_map]
  congr 1
  · rw [Int.natCast_zero, Int.add_zero]
  · congr 1
    funext i
    show byte (p + ((i + 1 : Nat) : Int)) = byte (p + 1 + i)
    congr 1
    omega

theorem bytesAt_drop (k : Nat) (p : Int) (n : Nat) :
    (bytesAt byte p n).drop k = bytesAt byte (p + k) (n - k) := by
  induction k generalizing p n with
  | zero => simp
  | succ k ih =>
      cases n with
      | zero => simp [bytesAt]
      | succ n =>
          rw [bytesAt_succ, List.drop_succ_cons, ih]
          congr 1 <;> omega

theorem bytesAt_take {k n : Nat} (p : Int) (within : k ≤ n) :
    (bytesAt byte p n).take k = bytesAt byte p k := by
  unfold bytesAt
  rw [← List.map_take, List.take_range, Nat.min_eq_left within]

/-- The search in memory is the search in the bytes. -/
theorem strchrLoop_eq (c : UInt8) (n : Nat) (p : Int) :
    strchrLoop byte c n p = (scan c (bytesAt byte p n)).map (p + ·) := by
  induction n generalizing p with
  | zero => rfl
  | succ n ih =>
      rw [bytesAt_succ]
      unfold strchrLoop scan
      split
      · rfl
      · split
        · have last : bytesAt byte (p + 1) n = [] ↔ n = 0 := by
            rw [← List.length_eq_zero_iff, bytesAt_length]
          by_cases empty : n = 0
          · rw [if_pos empty, if_pos (last.mpr empty)]
            rfl
          · rw [if_neg empty, if_neg fun none => empty (last.mp none)]
            exact congrArg some (Int.add_zero p).symm
        · rw [ih, Option.map_map]
          congr 1
          funext found
          show p + 1 + found = p + (found + 1)
          omega

theorem nc_strchr_eq (c : UInt8) (p : Int) (n : Nat) :
    nc_strchr byte p (p + n) c = (scan c (bytesAt byte p n)).map (p + ·) := by
  unfold nc_strchr
  rw [strchrLoop_eq, show (p + n - p).toNat = n by omega]

/-- **What `index` hashes, on the bytes of the key.** -/
theorem hashedBytes_eq (o c : UInt8) (key : Int) (keylen : UInt32) :
    hashedBytes (hashTag o c) byte key keylen = passed o c (bytesAt byte key keylen.toNat) := by
  have first : nc_strchr byte key (key + keylen.toNat) ((hashTag o c).byte 0) =
      (scan o (bytesAt byte key keylen.toNat)).map (key + ·) := nc_strchr_eq o key keylen.toNat
  unfold hashedBytes hashedKey passed
  rw [if_pos (show (hashTag o c).m_len > 0 from Nat.two_pos), first]
  cases opens : scan o (bytesAt byte key keylen.toNat) with
  | none => rfl
  | some tag_start =>
      have range := scan_range opens
      rw [bytesAt_length] at range
      have place : key + ((tag_start + 1).toNat : Int) = key + tag_start + 1 := by omega
      have left : key + (keylen.toNat : Int) =
          key + tag_start + 1 + ((keylen.toNat - (tag_start + 1).toNat : Nat) : Int) := by omega
      have second : nc_strchr byte (key + tag_start + 1) (key + keylen.toNat) ((hashTag o c).byte 1) =
          (scan c ((bytesAt byte key keylen.toNat).drop (tag_start + 1).toNat)).map
            (key + tag_start + 1 + ·) := by
        rw [bytesAt_drop, place, left]
        exact nc_strchr_eq c _ _
      rw [Option.map_some]
      dsimp only
      rw [second]
      cases closes : scan c ((bytesAt byte key keylen.toNat).drop (tag_start + 1).toNat) with
      | none => rfl
      | some len =>
          have inner := scan_range closes
          rw [List.length_drop, bytesAt_length] at inner
          have width : key + tag_start + 1 + len - (key + tag_start + 1) = len := by omega
          have apart : key + tag_start + 1 + len - (key + tag_start) > 1 ↔ len > 0 := by omega
          rw [Option.map_some]
          dsimp only
          by_cases some : len > 0
          · have fits : (UInt32.ofNat len.toNat).toNat = len.toNat := by
              have := keylen.toNat_lt
              exact UInt32.toNat_ofNat_of_lt' (by show len.toNat < 2 ^ 32; omega)
            rw [if_pos (apart.mpr some), if_pos some, bytesAt_drop, place,
              bytesAt_take _ (by omega)]
            dsimp only
            rw [width, fits]
          · rw [if_neg fun more => some (apart.mp more), if_neg some]

end Bytes

/-! ### The tag -/

section Tag

variable {o c : UInt8}

/-- A zero byte before any `o` makes both searches end there. -/
theorem passed_zero {before after : List UInt8} (zero : 0 ∉ before) (char : o ∉ before) :
    passed o c (before ++ 0 :: after) = before ++ 0 :: after := by
  have again : scan c (0 :: after) = some (-1) := if_pos rfl
  have place : ((before.length : Int) - 1 + 1).toNat = before.length := by omega
  unfold passed
  rw [scan_zero after zero char]
  dsimp only
  rw [place, List.drop_left, again]
  rfl

theorem passed_absent {key : List UInt8} (absent : o ∉ key) : passed o c key = key := by
  cases split : splitAtByte 0 key with
  | none =>
      unfold passed
      rw [scan_none (splitAtByte_none.mp split) absent]
  | some parts =>
      obtain ⟨first, second⟩ := parts
      obtain ⟨rfl, zero⟩ := splitAtByte_some split
      exact passed_zero zero fun inside => absent (List.mem_append_left _ inside)

/-- What is hashed when the first search finds its byte. -/
theorem passed_opened {before : List UInt8} (after : List UInt8) (zero : 0 ∉ before)
    (char : o ∉ before) (nonzero : o ≠ 0) :
    passed o c (before ++ o :: after) = (scan c after).elim (before ++ o :: after) fun len =>
      if len > 0 then after.take len.toNat else before ++ o :: after := by
  unfold passed
  rw [scan_char after zero char nonzero]
  by_cases last : after = []
  · rw [if_pos last, last]
    rfl
  · have place : ((before.length : Int) + 1).toNat = before.length + 1 := by omega
    have rest : (before ++ o :: after).drop (before.length + 1) = after := by
      rw [List.drop_length_add_append, List.drop_succ_cons, List.drop_zero]
    rw [if_neg last]
    dsimp only
    rw [place, rest]
    cases scan c after <;> rfl

/-- A part of the key is not the key. -/
theorem part_ne {before after part : List UInt8} (short : part.length ≤ after.length) :
    part ≠ before ++ o :: after := by
  intro same
  have length := congrArg List.length same
  rw [List.length_append, List.length_cons] at length
  omega

/-- A zero byte at the first `o` or before it: the key is hashed whole. -/
theorem passed_early {before : List UInt8} (after : List UInt8) (early : 0 ∈ before ++ [o])
    (opened : o ∉ before) : passed o c (before ++ o :: after) = before ++ o :: after := by
  cases split : splitAtByte 0 before with
  | none =>
      have same : o = 0 := by
        rcases List.mem_append.mp early with inside | inside
        · exact absurd inside (splitAtByte_none.mp split)
        · exact (List.mem_singleton.mp inside).symm
      rw [same] at opened ⊢
      exact passed_zero opened opened
  | some parts =>
      obtain ⟨first, second⟩ := parts
      obtain ⟨rfl, zero⟩ := splitAtByte_some split
      rw [List.append_assoc]
      exact passed_zero zero fun first => opened (List.mem_append_left _ first)

/-- Nothing between the two: the key is hashed whole. -/
theorem passed_empty {before rest : List UInt8} (opened : o ∉ before) :
    passed o c (before ++ o :: ([] ++ c :: rest)) = before ++ o :: ([] ++ c :: rest) := by
  by_cases early : 0 ∈ before ++ [o]
  · exact passed_early _ early opened
  · have zero : 0 ∉ before := fun inside => early (List.mem_append_left _ inside)
    have nonzero : o ≠ 0 := fun same => early (List.mem_append_right _ (same ▸ List.mem_cons_self))
    rw [passed_opened _ zero opened nonzero]
    by_cases last : c = 0
    · rw [last, scan_zero rest List.not_mem_nil List.not_mem_nil]
      rfl
    · rw [scan_char rest List.not_mem_nil List.not_mem_nil last]
      split <;> rfl

/-- **A tag is hashed exactly if no byte up to its end is zero, and it does not close the key.** -/
theorem passed_tag_iff {before tag rest : List UInt8} (opened : o ∉ before) (closed : c ∉ tag)
    (some : tag ≠ []) :
    passed o c (before ++ o :: (tag ++ c :: rest)) = tag ↔
      0 ∉ before ++ o :: (tag ++ [c]) ∧ rest ≠ [] := by
  have whole : tag ≠ before ++ o :: (tag ++ c :: rest) := part_ne (by simp)
  by_cases early : 0 ∈ before ++ [o]
  · rw [passed_early _ early opened]
    refine iff_of_false (Ne.symm whole) fun both => both.1 ?_
    rcases List.mem_append.mp early with inside | inside
    · exact List.mem_append_left _ inside
    · exact List.mem_append_right _ (List.mem_singleton.mp inside ▸ List.mem_cons_self)
  have zero : 0 ∉ before := fun inside => early (List.mem_append_left _ inside)
  have nonzero : o ≠ 0 := fun same => early (List.mem_append_right _ (same ▸ List.mem_cons_self))
  rw [passed_opened _ zero opened nonzero]
  by_cases late : 0 ∈ tag ++ [c]
  · -- the second search ends at the zero byte
    have ends : ∃ m : Nat, m ≤ tag.length ∧ scan c (tag ++ c :: rest) = Option.some ((m : Int) - 1) := by
      cases split : splitAtByte 0 tag with
      | none =>
          have absent := splitAtByte_none.mp split
          have last : c = 0 := by
            rcases List.mem_append.mp late with inside | inside
            · exact absurd inside absent
            · exact (List.mem_singleton.mp inside).symm
          rw [last] at closed ⊢
          exact ⟨tag.length, Nat.le_refl _, scan_zero rest closed closed⟩
      | some parts =>
          obtain ⟨first, second⟩ := parts
          obtain ⟨rfl, absent⟩ := splitAtByte_some split
          refine ⟨first.length, ?_, ?_⟩
          · rw [List.length_append]
            exact Nat.le_add_right _ _
          · rw [List.append_assoc]
            exact scan_zero _ absent fun inside => closed (List.mem_append_left _ inside)
    obtain ⟨m, bound, scans⟩ := ends
    rw [scans, Option.elim_some]
    refine iff_of_false (fun same => ?_) fun both => both.1 ?_
    · split at same
      next more =>
        have length := congrArg List.length same
        rw [List.length_take, List.length_append, List.length_cons] at length
        omega
      next => exact whole same.symm
    · rcases List.mem_append.mp late with inside | inside
      · exact List.mem_append_right _ (List.mem_cons_of_mem _ (List.mem_append_left _ inside))
      · exact List.mem_append_right _ (List.mem_cons_of_mem _ (List.mem_append_right _ inside))
  · have tagZero : 0 ∉ tag := fun inside => late (List.mem_append_left _ inside)
    have charZero : c ≠ 0 := fun same => late (List.mem_append_right _ (same ▸ List.mem_cons_self))
    have clean : 0 ∉ before ++ o :: (tag ++ [c]) := by
      rw [List.mem_append, List.mem_cons, not_or, not_or]
      exact ⟨zero, Ne.symm nonzero, late⟩
    rw [scan_char rest tagZero closed charZero]
    by_cases last : rest = []
    · rw [if_pos last, Option.elim_none]
      exact iff_of_false (Ne.symm whole) fun both => both.2 last
    · have length : (0 : Int) < tag.length := by
        have := List.length_pos_of_ne_nil some
        omega
      rw [if_neg last, Option.elim_some, if_pos length, Int.toNat_natCast, List.take_left]
      exact iff_of_true rfl ⟨clean, last⟩

/-- **A key whose `o` no `c` follows is hashed whole exactly if a zero byte comes first, or none comes
more than two places later.** -/
theorem passed_untagged_iff {before after : List UInt8} (opened : o ∉ before) (open' : c ∉ after) :
    passed o c (before ++ o :: after) = before ++ o :: after ↔
      0 ∈ before ++ [o] ∨ ∀ parts ∈ splitAtByte 0 after, parts.1.length ≤ 1 := by
  by_cases early : 0 ∈ before ++ [o]
  · exact iff_of_true (passed_early after early opened) (Or.inl early)
  · have zero : 0 ∉ before := fun inside => early (List.mem_append_left _ inside)
    have nonzero : o ≠ 0 := fun same => early (List.mem_append_right _ (same ▸ List.mem_cons_self))
    rw [passed_opened after zero opened nonzero]
    cases split : splitAtByte 0 after with
    | none =>
        rw [scan_none (splitAtByte_none.mp split) open', Option.elim_none]
        exact iff_of_true rfl (Or.inr nofun)
    | some parts =>
        obtain ⟨first, second⟩ := parts
        obtain ⟨rfl, absent⟩ := splitAtByte_some split
        rw [scan_zero second absent fun inside => open' (List.mem_append_left _ inside),
          Option.elim_some]
        have place : (∀ parts ∈ Option.some (first, second), parts.1.length ≤ 1) ↔
            first.length ≤ 1 := by
          simp
        rw [place]
        by_cases more : (first.length : Int) - 1 > 0
        · rw [if_pos more]
          refine iff_of_false (part_ne ?_) (by
            rintro (inside | short)
            · exact early inside
            · omega)
          exact List.length_take_le' _ _
        · rw [if_neg more]
          exact iff_of_true rfl (Or.inr (by omega))

/-- **`index` hashes the tag of a key, or a key without one, exactly if the searches read it.** -/
theorem passed_iff (key : List UInt8) : passed o c key = tagged o c key ↔ Readable o c key := by
  unfold tagged tagOf Readable
  cases opens : splitAtByte o key with
  | none => exact iff_of_true (passed_absent (splitAtByte_none.mp opens)) trivial
  | some parts =>
      obtain ⟨before, after⟩ := parts
      obtain ⟨rfl, opened⟩ := splitAtByte_some opens
      rw [Option.bind_some]
      dsimp only
      cases closes : splitAtByte c after with
      | none => exact passed_untagged_iff opened (splitAtByte_none.mp closes)
      | some parts =>
          obtain ⟨tag, rest⟩ := parts
          obtain ⟨rfl, closed⟩ := splitAtByte_some closes
          rw [Option.bind_some]
          dsimp only
          by_cases empty : tag = []
          · rw [if_pos empty, Option.getD_none, empty]
            exact iff_of_true (passed_empty opened) (Or.inl rfl)
          · rw [if_neg empty, Option.getD_some, passed_tag_iff opened closed empty]
            exact ⟨Or.inr, fun either => either.resolve_left empty⟩

end Tag

/-- **Hash tags.** `index` hashes what a hash tag is for exactly on the keys that its searches read as
they are, and two such keys with one tag hash alike. -/
theorem hash_tag_iff (o c : UInt8) (byte : Int → UInt8) (key : Int) (keylen : UInt32) :
    (hashedBytes (hashTag o c) byte key keylen = tagged o c (bytesAt byte key keylen.toNat) ↔
      Readable o c (bytesAt byte key keylen.toNat)) ∧
    ∀ (other : Int → UInt8) (key' : Int) (keylen' : UInt32) (tag : List UInt8),
      Readable o c (bytesAt byte key keylen.toNat) →
      Readable o c (bytesAt other key' keylen'.toNat) →
      tagOf o c (bytesAt byte key keylen.toNat) = some tag →
      tagOf o c (bytesAt other key' keylen'.toNat) = some tag →
      ∀ hash, hashv hash (hashTag o c) byte key keylen = hashv hash (hashTag o c) other key' keylen' := by
  have whole (byte : Int → UInt8) (key : Int) (keylen : UInt32) :
      hashedBytes (hashTag o c) byte key keylen = tagged o c (bytesAt byte key keylen.toNat) ↔
        Readable o c (bytesAt byte key keylen.toNat) := by
    rw [hashedBytes_eq]
    exact passed_iff _
  refine ⟨whole byte key keylen, fun other key' keylen' tag readable readable' has has' hash => ?_⟩
  unfold hashv
  rw [(whole byte key keylen).mpr readable, (whole other key' keylen').mpr readable']
  unfold tagged
  rw [has, has']
  rfl

/-- The bytes in memory, from the address 0 on. -/
def stored (bytes : List UInt8) (p : Int) : UInt8 := bytes.getD p.toNat 0

/-- The keys `x{u}y` and `{u}zz` have the tag `u`, and one hash value. -/
theorem hash_tag_twoKeys :
    hashv (NcHashUtil.fnv164Hash .signed) (hashTag 123 125) (stored [120, 123, 117, 125, 121]) 0 5 =
      hashv (NcHashUtil.fnv164Hash .signed) (hashTag 123 125) (stored [123, 117, 125, 122, 122]) 0 5 := by
  have readable : Readable 123 125 (bytesAt (stored [120, 123, 117, 125, 121]) 0 5) :=
    Or.inr ⟨by decide, by decide⟩
  have readable' : Readable 123 125 (bytesAt (stored [123, 117, 125, 122, 122]) 0 5) :=
    Or.inr ⟨by decide, by decide⟩
  exact (hash_tag_iff 123 125 (stored [120, 123, 117, 125, 121]) 0 5).2
    (stored [123, 117, 125, 122, 122]) 0 5 [117] readable readable' rfl rfl
    (NcHashUtil.fnv164Hash .signed)

/-- **A tag that closes the key is not found, though a key with a byte after the same tag is hashed by
it**; and of a key without a tag, with a zero byte in it, a part is hashed. -/
theorem tag_at_end :
    (tagged 123 125 [123, 117, 125] = [117] ∧
      hashedBytes (hashTag 123 125) (stored [123, 117, 125]) 0 3 = [123, 117, 125] ∧
      hashedBytes (hashTag 123 125) (stored [120, 123, 117, 125, 121]) 0 5 = [117]) ∧
    tagged 123 125 [123, 1, 2, 0] = [123, 1, 2, 0] ∧
      hashedBytes (hashTag 123 125) (stored [123, 1, 2, 0]) 0 4 = [1] := by
  decide

end NcServerPool

end Nutcracker
