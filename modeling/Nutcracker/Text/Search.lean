/-
**The searches for a byte.**

`_nc_strchr` and `_nc_strrchr` are one loop in two directions. It reads a byte and stops at a zero, tests
the bound only then, reads the byte again and moves on; behind the loop the position is corrected by
one. `search` is this loop with the positions whose bytes it reads.

* `strchr_found`, `strrchr_found` — the results are those of `nc_strchr` and `nc_strrchr`.
* `search_mirror` — the search from the end is the mirror image of the one from the start.
* `firstIn_iff` — the result is right if no byte of the range is a zero or the one looked for, or if the
  first such byte is the one looked for and not the last byte of the range.
* `inside_iff` — no byte outside the range is read if the range has a zero or the byte looked for.
* `searches_iff` — **when a search does what its name says**.
-/

import Nutcracker.Text.Model
import Mathlib.Algebra.Order.Group.Int
import Mathlib.Order.Interval.Set.Basic

namespace Nutcracker

/-- The loop of `_nc_strchr` and of `_nc_strrchr`, with `n` bytes up to the bound: the positions read
and the result. -/
def search (byte : Int → UInt8) (c : UInt8) (step : Int) : Nat → Int → List Int × Option Int
  | 0, p => ([p], none)
  | n + 1, p =>
      if byte p = 0 then ([p], some (p - step))
      else if byte p = c then ([p, p], if n = 0 then none else some p)
      else
        let (reads, found) := search byte c step n (p + step)
        (p :: p :: reads, found)

/-- `_nc_strchr(p, last, c)`. -/
def strchr (byte : Int → UInt8) (p last : Int) (c : UInt8) : List Int × Option Int :=
  search byte c 1 (last - p).toNat p

/-- `_nc_strrchr(p, start, c)`. -/
def strrchr (byte : Int → UInt8) (p start : Int) (c : UInt8) : List Int × Option Int :=
  search byte c (-1) (p - start + 1).toNat p

/-- The first position in `[p, last)` with the byte `c`, or `NULL` if there is none. -/
def FirstIn (byte : Int → UInt8) (p last : Int) (c : UInt8) : Option Int → Prop
  | some q => p ≤ q ∧ q < last ∧ byte q = c ∧ ∀ i, p ≤ i → i < q → byte i ≠ c
  | none => ∀ i, p ≤ i → i < last → byte i ≠ c

/-- The last position in `[start, p]` with the byte `c`, or `NULL` if there is none. -/
def LastIn (byte : Int → UInt8) (p start : Int) (c : UInt8) : Option Int → Prop
  | some q => start ≤ q ∧ q ≤ p ∧ byte q = c ∧ ∀ i, q < i → i ≤ p → byte i ≠ c
  | none => ∀ i, start ≤ i → i ≤ p → byte i ≠ c

/-- All the positions lie in `[low, high)`. -/
def Inside (low high : Int) (reads : List Int) : Prop := ∀ q ∈ reads, low ≤ q ∧ q < high

section Search

variable {byte : Int → UInt8} {c : UInt8} {p q last start : Int} {n : Nat}

/-! ### The results -/

theorem search_found (byte : Int → UInt8) (c : UInt8) (n : Nat) (p : Int) :
    (search byte c 1 n p).2 = strchrLoop byte c n p := by
  induction n generalizing p with
  | zero => rfl
  | succ n ih =>
      rw [search, strchrLoop, ← ih]
      split
      · rfl
      · split <;> rfl

/-- **`_nc_strchr`** is `nc_strchr`. -/
theorem strchr_found (byte : Int → UInt8) (p last : Int) (c : UInt8) :
    (strchr byte p last c).2 = nc_strchr byte p last c := search_found _ _ _ _

theorem search_found_back (byte : Int → UInt8) (c : UInt8) (start : Int) (n : Nat) :
    (search byte c (-1) n (start + n - 1)).2 =
      (nc_strrchr (fun i => byte (start + i)) c n).map fun i : Nat => start + i := by
  induction n with
  | zero => rfl
  | succ n ih =>
      have here : start + ((n + 1 : Nat) : Int) - 1 = start + n := by omega
      have next : start + (n : Int) + -1 = start + n - 1 := by omega
      rw [search, nc_strrchr, here, next]
      split
      · rw [Option.map_some, Option.some_inj]
        omega
      · split
        · by_cases last : n = 0
          · rw [if_pos last, if_pos last]
            rfl
          · rw [if_neg last, if_neg last]
            rfl
        · exact ih

/-- **`_nc_strrchr`** is `nc_strrchr`, which counts from the start. -/
theorem strrchr_found (byte : Int → UInt8) (p start : Int) (c : UInt8) :
    (strrchr byte p start c).2 =
      (nc_strrchr (fun i => byte (start + i)) c (p - start + 1).toNat).map fun i : Nat => start + i := by
  unfold strrchr
  by_cases range : start ≤ p
  · have place : start + ((p - start + 1).toNat : Int) - 1 = p := by omega
    have found := search_found_back byte c start (p - start + 1).toNat
    rwa [place] at found
  · have empty : (p - start + 1).toNat = 0 := by omega
    rw [empty]
    rfl

/-! ### Where the loop stops -/

/-- The first position in `[p, last)` where the loop stops. -/
structure StopsAt (byte : Int → UInt8) (c : UInt8) (p last q : Int) : Prop where
  low : p ≤ q
  high : q < last
  here : byte q = 0 ∨ byte q = c
  before : ∀ i, p ≤ i → i < q → byte i ≠ 0 ∧ byte i ≠ c

/-- Either the loop stops in the range or it goes through the whole of it. -/
theorem stopsAt_or (byte : Int → UInt8) (c : UInt8) (p : Int) (n : Nat) :
    (∃ q, StopsAt byte c p (p + n) q) ∨
      ∀ i, p ≤ i → i < p + n → byte i ≠ 0 ∧ byte i ≠ c := by
  induction n generalizing p with
  | zero =>
      refine Or.inr fun i low high => ?_
      rw [Nat.cast_zero, Int.add_zero] at high
      exact absurd low (Int.not_le.mpr high)
  | succ n ih =>
      have longer : p + ((n + 1 : Nat) : Int) = p + 1 + n := by omega
      rw [longer]
      by_cases here : byte p = 0 ∨ byte p = c
      · exact Or.inl ⟨p, Int.le_refl p, by omega, here, fun i low less =>
          absurd low (Int.not_le.mpr less)⟩
      · rw [not_or] at here
        -- the first byte is passed, whatever comes behind it
        have pass : ∀ {i : Int}, p ≤ i → (p + 1 ≤ i → byte i ≠ 0 ∧ byte i ≠ c) →
            byte i ≠ 0 ∧ byte i ≠ c := by
          intro i low later
          rcases Int.le_iff_eq_or_lt.mp low with same | less
          · exact same ▸ here
          · exact later less
        rcases ih (p + 1) with ⟨q, stops⟩ | none
        · refine Or.inl ⟨q, by have low := stops.low; omega, stops.high, stops.here, ?_⟩
          exact fun i low less => pass low fun later => stops.before i later less
        · exact Or.inr fun i low high => pass low fun later => none i later high

/-- **The loop stops at the position.** -/
theorem search_stop (stops : StopsAt byte c p (p + n) q) :
    (search byte c 1 n p).2 =
        (if byte q = 0 then some (q - 1) else if q + 1 = p + n then none else some q) ∧
      ∀ r ∈ (search byte c 1 n p).1, p ≤ r ∧ r ≤ q := by
  induction n generalizing p with
  | zero =>
      have low := stops.low
      have high := stops.high
      rw [Nat.cast_zero, Int.add_zero] at high
      exact absurd low (Int.not_le.mpr high)
  | succ n ih =>
      have low := stops.low
      rw [search]
      by_cases first : q = p
      · subst first
        by_cases zero : byte q = 0
        · rw [if_pos zero, if_pos zero]
          refine ⟨rfl, fun r member => ?_⟩
          rw [List.mem_singleton.mp member]
          exact ⟨Int.le_refl q, Int.le_refl q⟩
        · have found := stops.here.resolve_left zero
          have last : q + 1 = q + ((n + 1 : Nat) : Int) ↔ n = 0 := by omega
          rw [if_neg zero, if_pos found, if_neg zero]
          refine ⟨?_, fun r member => ?_⟩
          · simp only [last]
          · have same : r = q := by simpa using member
            rw [same]
            exact ⟨Int.le_refl q, Int.le_refl q⟩
      · have passed := stops.before p (Int.le_refl p) (by omega)
        have longer : p + ((n + 1 : Nat) : Int) = p + 1 + n := by omega
        have rest : StopsAt byte c (p + 1) (p + 1 + n) q :=
          ⟨by omega, longer ▸ stops.high, stops.here, fun i later => stops.before i (by omega)⟩
        obtain ⟨found, reads⟩ := ih rest
        rw [if_neg passed.1, if_neg passed.2, longer]
        refine ⟨found, fun r member => ?_⟩
        rcases List.mem_cons.mp member with same | member
        · omega
        · rcases List.mem_cons.mp member with same | member
          · omega
          · have inside := reads r member
            omega

/-- **The loop goes on to the bound**, and reads the byte there. -/
theorem search_through (none : ∀ i, p ≤ i → i < p + n → byte i ≠ 0 ∧ byte i ≠ c) :
    (search byte c 1 n p).2 = .none ∧ p + n ∈ (search byte c 1 n p).1 := by
  induction n generalizing p with
  | zero =>
      refine ⟨rfl, ?_⟩
      rw [Nat.cast_zero, Int.add_zero]
      exact List.mem_singleton_self p
  | succ n ih =>
      have longer : p + ((n + 1 : Nat) : Int) = p + 1 + n := by omega
      obtain ⟨notZero, notC⟩ := none p (Int.le_refl p) (by omega)
      have rest : ∀ i, p + 1 ≤ i → i < p + 1 + n → byte i ≠ 0 ∧ byte i ≠ c :=
        fun i low high => none i (by omega) (by omega)
      obtain ⟨found, read⟩ := ih rest
      rw [search, if_neg notZero, if_neg notC, longer]
      exact ⟨found, List.mem_cons_of_mem _ (List.mem_cons_of_mem _ read)⟩

/-! ### What is found and what is read -/

/-- A byte `c` of the range, not its last, with no zero up to it. -/
def FoundEarly (byte : Int → UInt8) (p last : Int) (c : UInt8) : Prop :=
  ∃ i, p ≤ i ∧ i + 1 < last ∧ byte i = c ∧ ∀ j, p ≤ j → j ≤ i → byte j ≠ 0

theorem StopsAt.foundEarly_iff (stops : StopsAt byte c p last q) :
    FoundEarly byte p last c ↔ byte q ≠ 0 ∧ q + 1 < last := by
  constructor
  · rintro ⟨i, low, high, found, notZero⟩
    have order : q ≤ i := by
      by_contra less
      exact (stops.before i low (Int.not_le.mp less)).2 found
    exact ⟨notZero q stops.low order, by omega⟩
  · rintro ⟨notZero, high⟩
    refine ⟨q, stops.low, high, stops.here.resolve_left notZero, fun j low order => ?_⟩
    rcases Int.le_iff_eq_or_lt.mp order with same | less
    · exact same ▸ notZero
    · exact (stops.before j low less).1

/-- **When the result is right.** -/
theorem firstIn_iff (byte : Int → UInt8) (c : UInt8) (p : Int) (n : Nat) :
    FirstIn byte p (p + n) c (search byte c 1 n p).2 ↔
      (∀ i, p ≤ i → i < p + n → byte i ≠ 0 ∧ byte i ≠ c) ∨ FoundEarly byte p (p + n) c := by
  rcases stopsAt_or byte c p n with ⟨q, stops⟩ | through
  · have low := stops.low
    have high := stops.high
    rw [stops.foundEarly_iff, (search_stop stops).1]
    have notThrough : ¬ ∀ i, p ≤ i → i < p + n → byte i ≠ 0 ∧ byte i ≠ c := by
      intro through
      obtain ⟨notZero, notC⟩ := through q low high
      exact stops.here.elim notZero notC
    rw [or_iff_right notThrough]
    by_cases zero : byte q = 0
    · -- the position before a zero byte does not hold the byte
      rw [if_pos zero]
      refine iff_of_false ?_ fun holds => holds.1 zero
      rintro ⟨inside, -, found, -⟩
      exact (stops.before (q - 1) inside (by omega)).2 found
    · have found := stops.here.resolve_left zero
      rw [if_neg zero]
      by_cases last : q + 1 = p + n
      · rw [if_pos last]
        refine iff_of_false (fun missing => ?_) fun holds => by omega
        exact missing q low high found
      · rw [if_neg last]
        refine iff_of_true ⟨low, high, found, fun i inside less => ?_⟩ ⟨zero, by omega⟩
        exact (stops.before i inside less).2
  · rw [(search_through through).1]
    exact iff_of_true (fun i low high => (through i low high).2) (Or.inl through)

/-- **When no byte outside the range is read.** -/
theorem inside_iff (byte : Int → UInt8) (c : UInt8) (p : Int) (n : Nat) :
    Inside p (p + n) (search byte c 1 n p).1 ↔
      ∃ i, p ≤ i ∧ i < p + n ∧ (byte i = 0 ∨ byte i = c) := by
  rcases stopsAt_or byte c p n with ⟨q, stops⟩ | through
  · refine iff_of_true (fun r member => ?_) ⟨q, stops.low, stops.high, stops.here⟩
    obtain ⟨low, order⟩ := (search_stop stops).2 r member
    exact ⟨low, Int.lt_of_le_of_lt order stops.high⟩
  · refine iff_of_false (fun inside => ?_) ?_
    · have bound := inside _ (search_through through).2
      exact Int.lt_irrefl _ bound.2
    · rintro ⟨i, low, high, here⟩
      obtain ⟨notZero, notC⟩ := through i low high
      exact here.elim notZero notC

/-- Both. -/
theorem firstIn_and_inside_iff (byte : Int → UInt8) (c : UInt8) (p : Int) (n : Nat) :
    (FirstIn byte p (p + n) c (search byte c 1 n p).2 ∧
        Inside p (p + n) (search byte c 1 n p).1) ↔ FoundEarly byte p (p + n) c := by
  rw [firstIn_iff, inside_iff]
  constructor
  · rintro ⟨right, i, low, high, here⟩
    refine right.resolve_left fun through => ?_
    obtain ⟨notZero, notC⟩ := through i low high
    exact here.elim notZero notC
  · intro early
    have ⟨i, low, high, found, _⟩ := early
    exact ⟨Or.inr early, i, low, by omega, Or.inr found⟩

/-! ### The search from the end -/

/-- **The mirror image.** -/
theorem search_mirror (byte : Int → UInt8) (c : UInt8) (step : Int) (n : Nat) (p : Int) :
    search byte c (-step) n p =
      ((search (fun i => byte (-i)) c step n (-p)).1.map Neg.neg,
        (search (fun i => byte (-i)) c step n (-p)).2.map Neg.neg) := by
  induction n generalizing p with
  | zero => simp only [search, List.map_cons, List.map_nil, Int.neg_neg, Option.map_none]
  | succ n ih =>
      have moved : -(p + -step) = -p + step := by omega
      have back : p - -step = -(-p - step) := by omega
      simp only [search, ih, moved, Int.neg_neg, back]
      split
      · simp only [List.map_cons, List.map_nil, Int.neg_neg, Option.map_some]
      · split
        · split <;>
            simp only [List.map_cons, List.map_nil, Int.neg_neg, Option.map_some, Option.map_none]
        · simp only [List.map_cons, Int.neg_neg]

theorem lastIn_iff_firstIn (byte : Int → UInt8) (p start : Int) (c : UInt8) (found : Option Int) :
    LastIn byte p start c (found.map Neg.neg) ↔
      FirstIn (fun i => byte (-i)) (-p) (1 - start) c found := by
  have mirror (A : Int → Prop) (low high : Int) {low' high' : Int} (first : low' = -high)
      (second : high' = -low) :
      (∀ i, low < i → i ≤ high → A i) ↔ ∀ i, low' ≤ i → i < high' → A (-i) := by
    constructor
    · exact fun all i above below => all (-i) (by omega) (by omega)
    · intro all i above below
      have there := all (-i) (by omega) (by omega)
      rwa [Int.neg_neg] at there
  cases found with
  | none =>
      show (∀ i, start ≤ i → i ≤ p → byte i ≠ c) ↔ ∀ i, -p ≤ i → i < 1 - start → byte (-i) ≠ c
      rw [← mirror (fun i => byte i ≠ c) (start - 1) p rfl (by omega)]
      exact forall_congr' fun i => by rw [Int.sub_one_lt_iff]
  | some q =>
      show (start ≤ -q ∧ -q ≤ p ∧ byte (-q) = c ∧ ∀ i, -q < i → i ≤ p → byte i ≠ c) ↔
        (-p ≤ q ∧ q < 1 - start ∧ byte (-q) = c ∧ ∀ i, -p ≤ i → i < q → byte (-i) ≠ c)
      rw [mirror (fun i => byte i ≠ c) (-q) p rfl (Int.neg_neg q).symm]
      constructor
      · exact fun ⟨low, high, rest⟩ => ⟨by omega, by omega, rest⟩
      · exact fun ⟨low, high, rest⟩ => ⟨by omega, by omega, rest⟩

theorem inside_mirror (low high : Int) (reads : List Int) :
    Inside low high (reads.map Neg.neg) ↔ Inside (1 - high) (1 - low) reads := by
  unfold Inside
  rw [List.forall_mem_map]
  refine forall_congr' fun q => imp_congr_right fun _ => ?_
  constructor
  · exact fun ⟨above, below⟩ => ⟨by omega, by omega⟩
  · exact fun ⟨above, below⟩ => ⟨by omega, by omega⟩

end Search

/-- A byte `c` of the range, not its first, with no zero behind it. -/
def FoundLate (byte : Int → UInt8) (p start : Int) (c : UInt8) : Prop :=
  ∃ i, start < i ∧ i ≤ p ∧ byte i = c ∧ ∀ j, i ≤ j → j ≤ p → byte j ≠ 0

theorem foundLate_iff (byte : Int → UInt8) (p start : Int) (c : UInt8) :
    FoundLate byte p start c ↔ FoundEarly (fun i => byte (-i)) (-p) (1 - start) c := by
  constructor
  · rintro ⟨i, low, high, found, notZero⟩
    refine ⟨-i, by omega, by omega, ?_, fun j above below => notZero (-j) (by omega) (by omega)⟩
    show byte (- -i) = c
    rwa [Int.neg_neg]
  · rintro ⟨i, low, high, found, notZero⟩
    refine ⟨-i, by omega, by omega, found, fun j above below => ?_⟩
    have there : byte (- -j) ≠ 0 := notZero (-j) (by omega) (by omega)
    rwa [Int.neg_neg] at there

/-- The search from the start, in any range. -/
theorem strchr_iff (byte : Int → UInt8) (p last : Int) (c : UInt8) :
    (FirstIn byte p last c (strchr byte p last c).2 ∧ Inside p last (strchr byte p last c).1) ↔
      FoundEarly byte p last c := by
  unfold strchr
  by_cases range : p ≤ last
  · have both := firstIn_and_inside_iff byte c p (last - p).toNat
    have bound : p + ((last - p).toNat : Int) = last := by omega
    rwa [bound] at both
  · have empty : (last - p).toNat = 0 := by omega
    rw [empty]
    refine iff_of_false (fun holds => ?_) ?_
    · have inside := holds.2 p (List.mem_singleton_self p)
      omega
    · rintro ⟨i, low, high, -⟩
      omega

/-- The search from the end is the mirror image, in any range. -/
theorem strrchr_mirror (byte : Int → UInt8) (p start : Int) (c : UInt8) :
    strrchr byte p start c =
      ((strchr (fun i => byte (-i)) (-p) (1 - start) c).1.map Neg.neg,
        (strchr (fun i => byte (-i)) (-p) (1 - start) c).2.map Neg.neg) := by
  have width : 1 - start - -p = p - start + 1 := by omega
  unfold strrchr strchr
  rw [search_mirror, width]

/-- **When the searches do what their names say**: the result is right and no byte outside the range is
read, if and only if the byte is found in time, before the end of the range and before a zero. -/
theorem searches_iff (byte : Int → UInt8) (c : UInt8) :
    (∀ p last, (FirstIn byte p last c (strchr byte p last c).2 ∧
        Inside p last (strchr byte p last c).1) ↔ FoundEarly byte p last c) ∧
      ∀ p start, (LastIn byte p start c (strrchr byte p start c).2 ∧
        Inside start (p + 1) (strrchr byte p start c).1) ↔ FoundLate byte p start c := by
  refine ⟨fun p last => strchr_iff byte p last c, fun p start => ?_⟩
  have ends : 1 - (p + 1) = -p := by omega
  rw [strrchr_mirror, lastIn_iff_firstIn, inside_mirror, ends, foundLate_iff]
  exact strchr_iff _ _ _ c

/-- **Four searches that fail**: for a byte at the end of the range, and at its start from the end, for
a byte that is not there (the byte behind the range is read), and behind a zero byte. -/
theorem searches_fail :
    ¬ FirstIn (fun i => if i = 2 then 58 else 65) 0 3 58
        (strchr (fun i => if i = 2 then 58 else 65) 0 3 58).2 ∧
      ¬ LastIn (fun i => if i = 0 then 58 else 65) 2 0 58
        (strrchr (fun i => if i = 0 then 58 else 65) 2 0 58).2 ∧
      ¬ Inside 0 3 (strchr (fun _ => 65) 0 3 58).1 ∧
      ¬ FirstIn (fun i => if i = 1 then 0 else if i = 2 then 58 else 65) 0 4 58
        (strchr (fun i => if i = 1 then 0 else if i = 2 then 58 else 65) 0 4 58).2 := by
  refine ⟨fun missing => ?_, fun missing => ?_, fun inside => ?_, fun found => ?_⟩
  · exact missing 2 (by decide) (by decide) (by decide)
  · exact missing 0 (by decide) (by decide) (by decide)
  · have behind := inside 3 (by decide)
    exact absurd behind.2 (by decide)
  · exact absurd found.2.2.1 (by decide)

end Nutcracker
