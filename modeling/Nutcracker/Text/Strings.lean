/-
**Which bytes a string holds.**

The length of an `NcString` is what the caller says, its allocation is what `strndup` makes of the bytes
up to a zero, and the constructor writes a zero at the length. `operator==` compares up to a zero and
takes no empty string, `compare` looks at the lengths first. Left out are a `strndup` that finds no
memory, and the test `m_data_ == s` in the constructor, of a member that is not set yet.

* `holds_pushed_iff` — a string holds its bytes, and the zero is inside the allocation, if and only if
  none of them is a zero and their number leaves room for one more in an `uint32_t`.
* `Holds.apply` — a string that holds its bytes still does after a copy or an assignment.
* `eq_iff`, `compare_eq` — the comparisons of strings that hold their bytes.
* `strings_iff` — **when strings are their bytes**: if they hold them, and are not both empty. And
  `compare` is a total order then.
-/

import Nutcracker.Text.Split
import Mathlib.Tactic.Linarith

namespace Nutcracker

/-- `strcmp`, of the bytes at two addresses. -/
def strcmp : List UInt8 → List UInt8 → Int
  | [], b => 0 - (b.headD 0).toNat
  | x :: a, b =>
      if x ≠ b.headD 0 then (x.toNat : Int) - (b.headD 0).toNat
      else if x = 0 then 0
      else strcmp a b.tail

/-- `nc_strncmp`. -/
def nc_strncmp (a b : List UInt8) : Nat → Int
  | 0 => 0
  | n + 1 =>
      if a.headD 0 ≠ b.headD 0 then ((a.headD 0).toNat : Int) - (b.headD 0).toNat
      else if a.headD 0 = 0 then 0
      else nc_strncmp a.tail b.tail n

namespace NcString

/-- `NcString(const NcString &)`, and `operator=(const NcString &)` of another string. -/
def copy (s : NcString) : NcString := .ofBytes s.m_data s.m_len

/-- `operator=(const uint8_t *)`, of the bytes at `s`. -/
def assignText (s : List UInt8) : NcString :=
  .ofBytes s ((s.takeWhile fun byte => byte != 0).length % 2 ^ 32)

/-- `operator==(const NcString &)`. -/
def eq (a b : NcString) : Bool := a.m_len != 0 && strcmp a.m_data b.m_data == 0

def compare (a b : NcString) : Int :=
  if a.m_len ≠ b.m_len then (if a.m_len > b.m_len then 1 else -1)
  else nc_strncmp a.m_data b.m_data a.m_len

end NcString

/-- What makes a string of a string: a copy, `a = a`, and `b = a.c_str()`. -/
inductive Assign
  | copy
  | self
  | text

def Assign.apply : Assign → NcString → NcString
  | copy, s => s.copy
  | self, s => s
  | text, s => .assignText s.m_data

/-- A chain of copies and assignments. -/
def assignAll (ops : List Assign) (s : NcString) : NcString := ops.foldl (fun s op => op.apply s) s

/-- **The string holds the bytes**: its length is theirs, and its allocation has them and a zero. So the
zero was written inside the allocation. -/
structure Holds (s : NcString) (bytes : List UInt8) : Prop where
  len : s.m_len = bytes.length
  data : bytes ++ [0] <+: s.m_data

/-- Bytes that a string can hold: no zero, and a length that leaves room for one more. -/
structure Fits (bytes : List UInt8) : Prop where
  zero : 0 ∉ bytes
  short : bytes.length + 1 < 2 ^ 32

/-- `NcString(s, len)` as in `yamlPushScalar`, with other bytes behind those of the scalar. -/
def pushed (bytes after : List UInt8) : NcString :=
  .ofBytes (bytes ++ after) (bytes.length % 2 ^ 32)

section Holding

variable {s : NcString} {bytes : List UInt8}

theorem holds_ofBytes (fits : Fits bytes) (after : List UInt8) :
    Holds (.ofBytes (bytes ++ after) bytes.length) bytes where
  len := rfl
  data := by
    obtain ⟨b, more, copied⟩ := strndup_append fits.zero after
    refine ⟨more, ?_⟩
    rw [NcString.ofBytes, Nat.mod_eq_of_lt fits.short, copied,
      List.set_append_right _ _ (Nat.le_refl _), Nat.sub_self, List.append_assoc]
    rfl

/-- **Which bytes a string holds.** -/
theorem holds_pushed_iff (bytes after : List UInt8) : Holds (pushed bytes after) bytes ↔ Fits bytes := by
  constructor
  · rintro ⟨len, data⟩
    have small : bytes.length < 2 ^ 32 := by
      rw [← len]
      exact Nat.mod_lt _ (by decide)
    have copied := data.length_le
    unfold pushed NcString.ofBytes NcString.nc_strndup at copied
    rw [Nat.mod_eq_of_lt small, List.length_append, List.length_set, List.length_append] at copied
    have kept : bytes.length ≤ (((bytes ++ after).take ((bytes.length + 1) % 2 ^ 32)).takeWhile
        (fun byte => byte != 0)).length := Nat.le_of_add_le_add_right copied
    have taken := (List.takeWhile_prefix (fun byte : UInt8 => byte != 0)
      (l := (bytes ++ after).take ((bytes.length + 1) % 2 ^ 32))).length_le
    rw [List.length_take] at taken
    refine ⟨fun member => ?_, ?_⟩
    · -- the bytes are the beginning of what `strndup` keeps, where no byte is zero
      have first : bytes <+: ((bytes ++ after).take ((bytes.length + 1) % 2 ^ 32)).takeWhile
          (fun byte => byte != 0) :=
        List.prefix_of_prefix_length_le (List.prefix_append bytes after)
          ((List.takeWhile_prefix _).trans (List.take_prefix _ _)) kept
      have passes := List.mem_takeWhile_imp (first.subset member)
      simp at passes
    · by_contra long
      have full : bytes.length + 1 = 2 ^ 32 := by omega
      rw [full, Nat.mod_self] at kept taken
      rw [Nat.zero_min] at taken
      omega
  · intro fits
    have small : bytes.length < 2 ^ 32 := Nat.lt_of_succ_lt fits.short
    unfold pushed
    rw [Nat.mod_eq_of_lt small]
    exact holds_ofBytes fits after

/-- A string that holds bytes without zeros spells them. -/
theorem Holds.spells (holds : Holds s bytes) (zero : 0 ∉ bytes) : Spells s bytes where
  len := holds.len
  cstr := by
    obtain ⟨rest, data⟩ := holds.data
    rw [NcString.cstr, ← data, List.append_assoc, List.takeWhile_append, takeWhile_of_zero zero,
      if_pos rfl]
    exact List.append_nil bytes

theorem Holds.copy (holds : Holds s bytes) (fits : Fits bytes) : Holds s.copy bytes := by
  obtain ⟨len, rest, data⟩ := holds
  unfold NcString.copy
  rw [len, ← data, List.append_assoc]
  exact holds_ofBytes fits _

/-- **A copy or an assignment keeps the bytes.** -/
theorem Holds.apply (holds : Holds s bytes) (fits : Fits bytes) (op : Assign) :
    Holds (op.apply s) bytes := by
  cases op with
  | copy => exact holds.copy fits
  | self => exact holds
  | text =>
      have text : s.m_data.takeWhile (fun byte => byte != 0) = bytes := (holds.spells fits.zero).cstr
      have same : NcString.assignText s.m_data = s.copy := by
        unfold NcString.assignText NcString.copy
        rw [text, Nat.mod_eq_of_lt (Nat.lt_of_succ_lt fits.short), holds.len]
      show Holds (NcString.assignText s.m_data) bytes
      rw [same]
      exact holds.copy fits

theorem Holds.assignAll (holds : Holds s bytes) (fits : Fits bytes) (ops : List Assign) :
    Holds (assignAll ops s) bytes := by
  induction ops generalizing s with
  | nil => exact holds
  | cons op ops ih => exact ih (holds.apply fits op)

end Holding

/-! ### Comparisons -/

/-- The first difference. -/
def difference : List UInt8 → List UInt8 → Int
  | x :: xs, y :: ys => if x ≠ y then (x.toNat : Int) - y.toNat else difference xs ys
  | _, _ => 0

/-- The lengths, and then the first difference. -/
def order (xs ys : List UInt8) : Int :=
  if xs.length ≠ ys.length then (if xs.length > ys.length then 1 else -1) else difference xs ys

section Order

variable {x y : UInt8} {xs ys zs : List UInt8}

theorem toNat_sub_ne_zero (ne : x ≠ y) : (x.toNat : Int) - y.toNat ≠ 0 := by
  intro zero
  exact ne (UInt8.toNat_inj.mp (by omega))

@[simp] theorem difference_nil (ys : List UInt8) : difference [] ys = 0 := rfl

@[simp] theorem difference_cons_self (x : UInt8) (xs ys : List UInt8) :
    difference (x :: xs) (x :: ys) = difference xs ys := if_neg (not_not.mpr rfl)

theorem difference_cons_of_ne (ne : x ≠ y) (xs ys : List UInt8) :
    difference (x :: xs) (y :: ys) = (x.toNat : Int) - y.toNat := if_pos ne

theorem order_of_length_eq (same : xs.length = ys.length) : order xs ys = difference xs ys :=
  if_neg (not_not.mpr same)

theorem order_of_length_ne (other : xs.length ≠ ys.length) :
    order xs ys = if xs.length > ys.length then 1 else -1 := if_pos other

theorem difference_eq_zero_iff (same : xs.length = ys.length) : difference xs ys = 0 ↔ xs = ys := by
  induction xs generalizing ys with
  | nil =>
      rw [List.eq_nil_of_length_eq_zero same.symm]
      exact iff_of_true rfl rfl
  | cons x xs ih =>
      cases ys with
      | nil => cases same
      | cons y ys =>
          by_cases first : x = y
          · subst first
            rw [difference_cons_self, ih (Nat.succ.inj same), List.cons_inj_right]
          · rw [difference_cons_of_ne first]
            refine iff_of_false (toNat_sub_ne_zero first) fun equal => ?_
            exact first (List.cons.inj equal).1

theorem difference_swap (xs ys : List UInt8) : difference ys xs = -difference xs ys := by
  induction xs generalizing ys with
  | nil => cases ys <;> rfl
  | cons x xs ih =>
      cases ys with
      | nil => rfl
      | cons y ys =>
          by_cases first : x = y
          · subst first
            rw [difference_cons_self, difference_cons_self]
            exact ih ys
          · rw [difference_cons_of_ne first, difference_cons_of_ne (Ne.symm first)]
            omega

theorem difference_trans (one : xs.length = ys.length) (two : ys.length = zs.length)
    (first : difference xs ys ≤ 0) (second : difference ys zs ≤ 0) : difference xs zs ≤ 0 := by
  induction xs generalizing ys zs with
  | nil => exact Int.le_refl 0
  | cons x xs ih =>
      cases ys with
      | nil => cases one
      | cons y ys =>
          cases zs with
          | nil => cases two
          | cons z zs =>
              -- the strings part at the first of the two places where a pair of them parts
              by_cases xy : x = y
              · subst xy
                by_cases xz : x = z
                · subst xz
                  rw [difference_cons_self] at first second ⊢
                  exact ih (Nat.succ.inj one) (Nat.succ.inj two) first second
                · rwa [difference_cons_of_ne xz] at second ⊢
              · rw [difference_cons_of_ne xy] at first
                have less := toNat_sub_ne_zero xy
                by_cases yz : y = z
                · subst yz
                  rwa [difference_cons_of_ne xy]
                · rw [difference_cons_of_ne yz] at second
                  have xz : x ≠ z := by
                    rintro rfl
                    omega
                  rw [difference_cons_of_ne xz]
                  omega

theorem order_eq_zero_iff : order xs ys = 0 ↔ xs = ys := by
  by_cases same : xs.length = ys.length
  · rw [order_of_length_eq same]
    exact difference_eq_zero_iff same
  · rw [order_of_length_ne same]
    refine iff_of_false ?_ fun equal => same (congrArg List.length equal)
    split
    · exact one_ne_zero
    · exact neg_ne_zero.mpr one_ne_zero

theorem order_swap (xs ys : List UInt8) : order ys xs = -order xs ys := by
  by_cases same : xs.length = ys.length
  · rw [order_of_length_eq same, order_of_length_eq same.symm]
    exact difference_swap xs ys
  · rw [order_of_length_ne same, order_of_length_ne (Ne.symm same)]
    split <;> split <;> omega

/-- What comes first is not longer. -/
theorem length_le_of_order (below : order xs ys ≤ 0) : xs.length ≤ ys.length := by
  by_contra longer
  rw [not_le] at longer
  rw [order_of_length_ne (Nat.ne_of_gt longer), if_pos longer] at below
  exact absurd below (by decide)

theorem order_trans (first : order xs ys ≤ 0) (second : order ys zs ≤ 0) : order xs zs ≤ 0 := by
  have xy := length_le_of_order first
  have yz := length_le_of_order second
  by_cases same : xs.length = zs.length
  · have one : xs.length = ys.length := by omega
    have two : ys.length = zs.length := by omega
    rw [order_of_length_eq one] at first
    rw [order_of_length_eq two] at second
    rw [order_of_length_eq same]
    exact difference_trans one two first second
  · have less : ¬ xs.length > zs.length := by omega
    rw [order_of_length_ne same, if_neg less]
    decide

end Order

/-! ### The strings' own comparisons -/

section Compare

variable {a b : NcString} {xs ys zs : List UInt8}

theorem strcmp_cons_self {x : UInt8} (ne : 0 ≠ x) (a b : List UInt8) :
    strcmp (x :: a) (x :: b) = strcmp a b := by
  simp [strcmp, ne.symm]

theorem strcmp_cons_of_ne {x y : UInt8} (ne : x ≠ y) (a b : List UInt8) :
    strcmp (x :: a) (y :: b) = (x.toNat : Int) - y.toNat := if_pos ne

/-- `strcmp` of strings without zeros. -/
theorem strcmp_eq_zero_iff (xZero : 0 ∉ xs) (yZero : 0 ∉ ys) (more more' : List UInt8) :
    strcmp (xs ++ 0 :: more) (ys ++ 0 :: more') = 0 ↔ xs = ys := by
  induction xs generalizing ys with
  | nil =>
      cases ys with
      | nil => exact iff_of_true rfl rfl
      | cons y ys =>
          have ne : 0 ≠ y := List.ne_of_not_mem_cons yZero
          refine iff_of_false ?_ (List.cons_ne_nil y ys).symm
          rw [List.nil_append, List.cons_append, strcmp_cons_of_ne ne]
          exact toNat_sub_ne_zero ne
  | cons x xs ih =>
      obtain ⟨xNe, xRest⟩ := List.ne_and_not_mem_of_not_mem_cons xZero
      cases ys with
      | nil =>
          refine iff_of_false ?_ (List.cons_ne_nil x xs)
          rw [List.nil_append, List.cons_append, strcmp_cons_of_ne xNe.symm]
          exact toNat_sub_ne_zero xNe.symm
      | cons y ys =>
          rw [List.cons_append, List.cons_append]
          by_cases first : x = y
          · subst first
            rw [strcmp_cons_self xNe, List.cons_inj_right]
            exact ih xRest (List.not_mem_of_not_mem_cons yZero)
          · rw [strcmp_cons_of_ne first]
            refine iff_of_false (toNat_sub_ne_zero first) fun equal => ?_
            exact first (List.cons.inj equal).1

/-- `strncmp` of strings of one length. -/
theorem strncmp_eq_difference (zero : 0 ∉ xs) (same : xs.length = ys.length)
    (more more' : List UInt8) :
    nc_strncmp (xs ++ more) (ys ++ more') xs.length = difference xs ys := by
  induction xs generalizing ys with
  | nil => rw [List.eq_nil_of_length_eq_zero same.symm, difference_nil, List.length_nil, nc_strncmp]
  | cons x xs ih =>
      obtain ⟨ne, rest⟩ := List.ne_and_not_mem_of_not_mem_cons zero
      cases ys with
      | nil => cases same
      | cons y ys => simp [nc_strncmp, difference, ne.symm, ih rest (Nat.succ.inj same)]

/-- The allocation of a string that holds bytes. -/
theorem Holds.split (holds : Holds a xs) : ∃ more, a.m_data = xs ++ 0 :: more := by
  obtain ⟨more, data⟩ := holds.data
  exact ⟨more, by rw [← data, List.append_assoc]; rfl⟩

/-- **`operator==`**: the same bytes, and not empty. -/
theorem eq_iff (one : Holds a xs) (two : Holds b ys) (xZero : 0 ∉ xs) (yZero : 0 ∉ ys) :
    a.eq b = true ↔ xs = ys ∧ xs ≠ [] := by
  obtain ⟨more, data⟩ := one.split
  obtain ⟨more', data'⟩ := two.split
  unfold NcString.eq
  rw [Bool.and_eq_true, bne_iff_ne, beq_iff_eq, data, data', strcmp_eq_zero_iff xZero yZero,
    one.len, and_comm, Ne, List.length_eq_zero_iff]

/-- **`compare`**: the lengths, and then the first difference. -/
theorem compare_eq (one : Holds a xs) (two : Holds b ys) (xZero : 0 ∉ xs) :
    a.compare b = order xs ys := by
  obtain ⟨more, data⟩ := one.split
  obtain ⟨more', data'⟩ := two.split
  unfold NcString.compare
  rw [one.len, two.len, data, data']
  by_cases same : xs.length = ys.length
  · rw [if_neg (not_not.mpr same), order_of_length_eq same]
    exact strncmp_eq_difference xZero same _ _
  · rw [if_pos same, order_of_length_ne same]

/-- `operator==`, `compare` and the bytes say the same. -/
structure Agree (a b : NcString) (xs ys : List UInt8) : Prop where
  eq : a.eq b = true ↔ xs = ys
  compare : a.compare b = 0 ↔ xs = ys

theorem agree_iff (one : Holds a xs) (two : Holds b ys) (xZero : 0 ∉ xs) (yZero : 0 ∉ ys) :
    Agree a b xs ys ↔ ¬ (xs = [] ∧ ys = []) := by
  have equal := eq_iff one two xZero yZero
  constructor
  · rintro ⟨eq, -⟩ ⟨rfl, rfl⟩
    exact (equal.mp (eq.mpr rfl)).2 rfl
  · intro some
    refine ⟨equal.trans (and_iff_left_of_imp ?_), ?_⟩
    · rintro rfl empty
      exact some ⟨empty, empty⟩
    · rw [compare_eq one two xZero]
      exact order_eq_zero_iff

end Compare

/-- The string made of the bytes holds them in every step of a chain of copies and assignments. -/
def Faithful (bytes after : List UInt8) (ops : List Assign) : Prop :=
  ∀ before, before <+: ops → Holds (assignAll before (pushed bytes after)) bytes

theorem faithful_iff (bytes after : List UInt8) (ops : List Assign) :
    Faithful bytes after ops ↔ Fits bytes := by
  constructor
  · exact fun faithful => (holds_pushed_iff bytes after).mp (faithful [] List.nil_prefix)
  · exact fun fits before _ => ((holds_pushed_iff bytes after).mpr fits).assignAll fits before

/-- **Strings are their bytes**, through every chain of copies and assignments and in every comparison,
if and only if the bytes fit and not both strings are empty. `compare` is a total order on strings
whose bytes fit. -/
theorem strings_iff (xs ys after after' : List UInt8) (ops ops' : List Assign) :
    ((Faithful xs after ops ∧ Faithful ys after' ops' ∧
          Agree (assignAll ops (pushed xs after)) (assignAll ops' (pushed ys after')) xs ys) ↔
        Fits xs ∧ Fits ys ∧ ¬ (xs = [] ∧ ys = [])) ∧
      ∀ (a b c : NcString) (zs : List UInt8), Holds a xs → Holds b ys → Holds c zs →
        Fits xs → Fits ys → Fits zs →
        (a.compare b ≤ 0 ∨ b.compare a ≤ 0) ∧
          (a.compare b ≤ 0 → b.compare a ≤ 0 → xs = ys) ∧
          (a.compare b ≤ 0 → b.compare c ≤ 0 → a.compare c ≤ 0) := by
  refine ⟨?_, ?_⟩
  · rw [faithful_iff, faithful_iff]
    refine and_congr_right fun fits => and_congr_right fun fits' => ?_
    have one := ((holds_pushed_iff xs after).mpr fits).assignAll fits ops
    have two := ((holds_pushed_iff ys after').mpr fits').assignAll fits' ops'
    exact agree_iff one two fits.zero fits'.zero
  · intro a b c zs one two three fits fits' fits''
    rw [compare_eq one two fits.zero, compare_eq two one fits'.zero, compare_eq two three fits'.zero,
      compare_eq one three fits.zero]
    have swap := order_swap xs ys
    refine ⟨by omega, fun below above => order_eq_zero_iff.mp (by omega), order_trans⟩

/-- Two scalars, and the order of one string with itself. -/
theorem strings_iff_ab :
    Agree (assignAll [.copy] (pushed [97] [0])) (assignAll [.text] (pushed [98] [0])) [97] [98] ∧
      (pushed [97] [0]).compare (pushed [97] [0]) ≤ 0 := by
  have a : Fits [97] := ⟨by decide, by decide⟩
  have b : Fits [98] := ⟨by decide, by decide⟩
  have holds : Holds (pushed [97] [0]) [97] := ⟨by decide, by decide⟩
  have both := (strings_iff [97] [98] [0] [0] [.copy] [.text]).1.mpr ⟨a, b, by decide⟩
  have order := ((strings_iff [97] [97] [0] [0] [] []).2 _ _ _ _ holds holds holds a a a).1
  exact ⟨both.2.2, order.elim id id⟩

/-- **A scalar with a zero byte in it**: the allocation has two bytes, and a zero is written at index 3.
**Two empty strings** are not `==`. -/
theorem strings_fail :
    (¬ Holds (pushed [97, 0, 98] [0]) [97, 0, 98] ∧ (pushed [97, 0, 98] [0]).m_len = 3 ∧
        (pushed [97, 0, 98] [0]).m_data.length = 2) ∧
      ¬ Agree (pushed [] [0]) (pushed [] [0]) [] [] := by
  refine ⟨⟨fun holds => ?_, by decide, by decide⟩, fun agree => ?_⟩
  · exact absurd holds.data (by decide)
  · exact absurd (agree.eq.mpr rfl) (by decide)

end Nutcracker
