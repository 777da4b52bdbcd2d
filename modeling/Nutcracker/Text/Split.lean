/-
**Texts, and where the searches from the end split them.**

A string that holds a text (`Spells`) has its length and no zero byte before its end. The code
searches such a string from the end and counts positions; here the same is said of lists: the text
`h ++ c :: p` with no `c` in `p` is split at its last `c`.

* `nc_strrchr_split`, `nc_strrchr_none` — the search finds that place, unless nothing is before it.
* `Spells.ofBytes` — the name that a parser cuts out.
-/

import Nutcracker.Text.Model
import Mathlib.Data.List.GetD
import Mathlib.Data.List.Induction
import Mathlib.Data.List.TakeWhile

namespace Nutcracker

/-! ### Strings that hold a text -/

/-- The string holds exactly this text, without zero bytes. -/
structure Spells (s : NcString) (text : List UInt8) : Prop where
  len : s.m_len = text.length
  cstr : s.cstr = text

namespace Spells

variable {s : NcString} {text : List UInt8}

theorem zero (spells : Spells s text) : 0 ∉ text := by
  intro member
  rw [← spells.cstr] at member
  have passes := List.mem_takeWhile_imp member
  simp at passes

/-- The allocation: the text, and then nothing or a zero byte. -/
theorem data (spells : Spells s text) :
    ∃ rest, s.m_data = text ++ rest ∧ rest.getD 0 0 = 0 := by
  refine ⟨s.m_data.dropWhile fun byte => byte != 0, ?_, ?_⟩
  · rw [← spells.cstr, NcString.cstr, List.takeWhile_append_dropWhile]
  · cases after : s.m_data.dropWhile fun byte => byte != 0 with
    | nil => rfl
    | cons b rest =>
        have nonempty : s.m_data.dropWhile (fun byte => byte != 0) ≠ [] := by
          rw [after]
          exact List.cons_ne_nil b rest
        have stops := List.head_dropWhile_not (fun byte : UInt8 => byte != 0) nonempty
        simp only [after, List.head_cons, bne_eq_false_iff_eq] at stops
        rw [stops]
        rfl

/-- The bytes of the text, and the zero behind them. -/
theorem byte (spells : Spells s text) {i : Nat} (within : i ≤ text.length) :
    s.byte i = text.getD i 0 := by
  obtain ⟨rest, data, ends⟩ := spells.data
  rw [NcString.byte, data]
  rcases Nat.lt_or_eq_of_le within with inside | rfl
  · rw [List.getD_append _ _ _ _ inside]
  · rw [List.getD_append_right _ _ _ _ (le_refl _), Nat.sub_self, ends,
      List.getD_eq_default _ _ (le_refl _)]

theorem drop (spells : Spells s text) {n : Nat} (within : n ≤ text.length) :
    ∃ rest, s.m_data.drop n = text.drop n ++ rest ∧ rest.getD 0 0 = 0 := by
  obtain ⟨rest, data, ends⟩ := spells.data
  exact ⟨rest, by rw [data, List.drop_append_of_le_length within], ends⟩

end Spells

/-- Writing a zero ends the text there. -/
theorem takeWhile_set {xs : List UInt8} {n : Nat} (within : n < xs.length) :
    (xs.set n 0).takeWhile (fun byte => byte != 0) =
      (xs.take n).takeWhile fun byte => byte != 0 := by
  induction xs generalizing n with
  | nil => cases within
  | cons b xs ih =>
      cases n with
      | zero => rfl
      | succ n =>
          rw [List.set_cons_succ, List.take_succ_cons, List.takeWhile_cons, List.takeWhile_cons,
            ih (Nat.lt_of_succ_lt_succ within)]

/-- Where no byte is zero nothing ends a text. -/
theorem takeWhile_of_zero {xs : List UInt8} (zero : 0 ∉ xs) :
    xs.takeWhile (fun byte => byte != 0) = xs := by
  refine List.takeWhile_eq_self_iff.mpr fun b member => ?_
  have notZero : b ≠ 0 := fun same => zero (same ▸ member)
  simp [notZero]

/-- `strndup` with room for one more byte. -/
theorem strndup_append {bytes : List UInt8} (zero : 0 ∉ bytes) (after : List UInt8) :
    ∃ b more, NcString.nc_strndup (bytes ++ after) (bytes.length + 1) = bytes ++ b :: more := by
  have whole : NcString.nc_strndup (bytes ++ after) (bytes.length + 1) =
      bytes ++ ((after.take 1).takeWhile (fun byte => byte != 0) ++ [0]) := by
    rw [NcString.nc_strndup, List.take_add, List.take_left, List.drop_left, List.takeWhile_append,
      takeWhile_of_zero zero, if_pos rfl, List.append_assoc]
  cases rest : (after.take 1).takeWhile (fun byte => byte != 0) with
  | nil => exact ⟨0, [], by rw [whole, rest, List.nil_append]⟩
  | cons b more => exact ⟨b, more ++ [0], by rw [whole, rest, List.cons_append]⟩

/-- The string of a text. -/
def NcString.ofText (text : List UInt8) : NcString := ⟨text.length, text ++ [0]⟩

theorem spells_ofText {text : List UInt8} (zero : 0 ∉ text) : Spells (.ofText text) text where
  len := rfl
  cstr := by
    rw [NcString.ofText, NcString.cstr, List.takeWhile_append, takeWhile_of_zero zero, if_pos rfl]
    simp

/-- **The copy of the first bytes** is the text up to there. -/
theorem Spells.ofBytes {s : NcString} {text : List UInt8} (spells : Spells s text) {n : Nat}
    (within : n ≤ text.length) (short : n + 1 < 2 ^ 32) :
    Spells (NcString.ofBytes s.m_data n) (text.take n) where
  len := by
    rw [List.length_take, Nat.min_eq_left within]
    rfl
  cstr := by
    obtain ⟨rest, data, ends⟩ := spells.data
    have zero : 0 ∉ text.take n := fun member => spells.zero (List.mem_of_mem_take member)
    have length : (text.take n).length = n := by
      rw [List.length_take, Nat.min_eq_left within]
    have first : s.m_data = text.take n ++ (text.drop n ++ rest) := by
      rw [← List.append_assoc, List.take_append_drop]
      exact data
    obtain ⟨b, more, copied⟩ := strndup_append zero (text.drop n ++ rest)
    rw [length, ← first] at copied
    have inside : n < (text.take n ++ b :: more).length := by
      rw [List.length_append, length, List.length_cons]
      omega
    rw [NcString.ofBytes, NcString.cstr, Nat.mod_eq_of_lt short, copied, takeWhile_set inside,
      List.take_left' length, takeWhile_of_zero zero]

/-! ### The search from the end -/

section Search

variable {byte : Nat → UInt8} {c : UInt8}

/-- What is found is among the bytes, or just behind them. -/
theorem nc_strrchr_le {n q : Nat} (found : nc_strrchr byte c n = some q) : q ≤ n := by
  induction n with
  | zero => cases found
  | succ n ih =>
      unfold nc_strrchr at found
      split at found
      · exact Nat.le_of_eq (Option.some.inj found).symm
      · split at found
        · split at found
          · cases found
          · exact Nat.le_succ_of_le (Nat.le_of_eq (Option.some.inj found).symm)
        · exact Nat.le_succ_of_le (ih found)

/-- **The last `c` is found**, if something is before it. -/
theorem nc_strrchr_split {text h p : List UInt8} (same : ∀ i < text.length, byte i = text.getD i 0)
    (zero : 0 ∉ text) (split : text = h ++ c :: p) (last : c ∉ p) (nonempty : h ≠ []) :
    nc_strrchr byte c text.length = some h.length := by
  subst split
  have positive : h.length ≠ 0 := fun empty => nonempty (List.length_eq_zero_iff.mp empty)
  induction p using List.reverseRecOn with
  | nil =>
      have here : byte h.length = c := by
        rw [same h.length (by simp)]
        simp
      have notZero : c ≠ 0 := fun isZero => zero (by simp [isZero])
      rw [List.length_append, List.length_singleton, nc_strrchr, here, if_neg notZero, if_pos rfl,
        if_neg positive]
  | append_singleton p b ih =>
      have whole : h ++ c :: (p ++ [b]) = (h ++ c :: p) ++ [b] := by simp
      rw [whole] at same zero ⊢
      rw [List.mem_append, not_or] at zero last
      have here : byte (h ++ c :: p).length = b := by
        rw [same (h ++ c :: p).length (by simp)]
        simp
      have notZero : b ≠ 0 := fun isZero => zero.2 (by simp [isZero])
      have notC : b ≠ c := fun isC => last.2 (by simp [isC])
      rw [List.length_append, List.length_singleton, nc_strrchr, here, if_neg notZero, if_neg notC]
      refine ih last.1 (fun i inside => ?_) zero.1
      rw [same i (by rw [List.length_append]; omega), List.getD_append _ _ _ _ inside]

/-- **Without a `c` behind the first byte** nothing is found. -/
theorem nc_strrchr_none {text : List UInt8} (same : ∀ i < text.length, byte i = text.getD i 0)
    (zero : 0 ∉ text) (absent : c ∉ text.tail) : nc_strrchr byte c text.length = none := by
  induction text using List.reverseRecOn with
  | nil => rfl
  | append_singleton text b ih =>
      rw [List.mem_append, not_or] at zero
      have here : byte text.length = b := by
        rw [same text.length (by simp)]
        simp
      have notZero : b ≠ 0 := fun isZero => zero.2 (by simp [isZero])
      rw [List.length_append, List.length_singleton, nc_strrchr, here, if_neg notZero]
      cases text with
      | nil =>
          simp [nc_strrchr]
      | cons a text =>
          rw [List.cons_append, List.tail_cons, List.mem_append, not_or] at absent
          have notC : b ≠ c := fun isC => absent.2 (by simp [isC])
          rw [if_neg notC]
          refine ih (fun i inside => ?_) zero.1 absent.1
          rw [same i (by rw [List.length_append]; omega), List.getD_append _ _ _ _ inside]

/-- A byte that is in a list has a last place there. -/
theorem exists_last {text : List UInt8} (member : c ∈ text) :
    ∃ h p, text = h ++ c :: p ∧ c ∉ p := by
  obtain ⟨p, h, reversed, absent⟩ := List.eq_append_cons_of_mem (List.mem_reverse.mpr member)
  refine ⟨h.reverse, p.reverse, ?_, fun inP => absent (List.mem_reverse.mp inP)⟩
  rw [← List.reverse_reverse text, reversed]
  simp

/-- Behind the first byte the last place has something before it. -/
theorem exists_last_tail {text : List UInt8} (member : c ∈ text.tail) :
    ∃ h p, text = h ++ c :: p ∧ c ∉ p ∧ h ≠ [] := by
  cases text with
  | nil => cases member
  | cons a text =>
      have inside : c ∈ text := member
      obtain ⟨h, p, split, last⟩ := exists_last inside
      exact ⟨a :: h, p, by rw [split, List.cons_append], last, List.cons_ne_nil a h⟩

/-- There is only one last place. -/
theorem last_unique {h h' p p' : List UInt8} (same : h ++ c :: p = h' ++ c :: p') (last : c ∉ p)
    (last' : c ∉ p') : h = h' ∧ p = p' := by
  rcases List.append_eq_append_iff.mp same with ⟨more, first, second⟩ | ⟨more, first, second⟩
  · cases more with
    | nil => simp_all
    | cons b more =>
        rw [List.cons_append, List.cons.injEq] at second
        exact absurd (second.2 ▸ List.mem_append_right more List.mem_cons_self) last
  · cases more with
    | nil => simp_all
    | cons b more =>
        rw [List.cons_append, List.cons.injEq] at second
        exact absurd (second.2 ▸ List.mem_append_right more List.mem_cons_self) last'

end Search

end Nutcracker
