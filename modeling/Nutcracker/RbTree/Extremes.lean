/-
**`min` and `max`.**

Both follow one kind of child link until the sentinel. They stop at a node with no child on that
side, below ancestors that all have it on that side: the first, or the last, node in order.

* `descendTo_spec` — the loop, for both sides.
* `min_spec`, `max_spec` — **the first and the last node in order, `NULL` for the empty tree**.
-/

import Nutcracker.RbTree.Rotate

namespace Nutcracker

open Lib

namespace NcRbTree

/-- **The descent to one side.** -/
theorem descendTo_spec (d : Dir) {t : NcRbTree} {T : CTree Addr} {par : Ptr} (fuel : Nat)
    (rep : Rep t.links t.m_sentinel par T) (nonempty : T ≠ .nil) (enough : T.labels.length ≤ fuel) :
    ∃ ctx c m B, t.descendTo d fuel (T.ptr t.m_sentinel) = .ok (some m) ∧
      T = Ctx.plug ctx (.mk d .nil c m B) ∧ ∀ f ∈ ctx, f.side = d := by
  induction fuel generalizing T par with
  | zero =>
      obtain ⟨near, c, x, far, rfl⟩ := T.exists_mk d nonempty
      have member : x ∈ (CTree.mk d near c x far).labels :=
        CTree.mem_labels_mk.mpr (Or.inr (Or.inl rfl))
      rw [List.length_eq_zero_iff.mp (Nat.le_zero.mp enough)] at member
      cases member
  | succ fuel ih =>
      obtain ⟨near, c, x, far, rfl⟩ := T.exists_mk d nonempty
      obtain ⟨-, toNear, -, -, -, inNear, -⟩ := rep_mk.mp rep
      have toNear : (t.mem x).child d = near.ptr t.m_sentinel := toNear
      by_cases isNil : near = .nil
      · refine ⟨[], c, x, far, ?_, by rw [isNil, Ctx.plug_nil], fun f member => nomatch member⟩
        rw [CTree.ptr_mk]
        rw [isNil, CTree.ptr_nil] at toNear
        simp only [descendTo, child_some, ok_bind, toNear, ne_eq, not_true_eq_false, if_false,
          pure_ok]
      · have stays : near.ptr t.m_sentinel ≠ t.m_sentinel := by
          obtain ⟨l, c', y, r, rfl⟩ := near.exists_mk .left isNil
          rw [CTree.ptr_mk]
          exact inNear.1
        have shorter := Ctx.length_le_labels_plug [⟨d, c, x, far⟩] near
        simp only [Ctx.plug_cons, Ctx.plug_nil, Frame.fill, List.length_cons, List.length_nil]
          at shorter
        obtain ⟨ctx, cm, m, B, runs, same, sides⟩ := ih inNear isNil (by omega)
        refine ⟨ctx ++ [⟨d, c, x, far⟩], cm, m, B, ?_, ?_, fun f member => ?_⟩
        · rw [CTree.ptr_mk]
          simp only [descendTo, child_some, ok_bind, toNear, ne_eq, stays, not_false_eq_true,
            if_true, runs]
        · rw [Ctx.plug_append, ← same]
          rfl
        · rcases List.mem_append.mp member with inner | outer
          · exact sides f inner
          · rw [List.mem_singleton.mp outer]

/-- **`min` returns the first node in order.** -/
theorem min_spec {t : NcRbTree} {top : Ptr} {T : CTree Addr} (fuel : Nat) (holds : Holds t top T)
    (enough : T.labels.length ≤ fuel) : t.min fuel = .ok T.labels.head? := by
  by_cases empty : T = .nil
  · have isRoot : t.m_root = t.m_sentinel := by
      rw [holds.root, empty, CTree.ptr_nil]
    rw [min, if_pos isRoot, empty]
    rfl
  · obtain ⟨ctx, c, m, B, runs, same, lefts⟩ := descendTo_spec .left fuel holds.rep empty enough
    have first : T.labels.head? = some m := by
      rw [same, Ctx.labels_plug, Ctx.before_of_lefts lefts]
      rfl
    rw [min, if_neg (holds_ptr_ne holds empty), holds.root, runs, first]

/-- **`max` returns the last node in order.** -/
theorem max_spec {t : NcRbTree} {top : Ptr} {T : CTree Addr} (fuel : Nat) (holds : Holds t top T)
    (enough : T.labels.length ≤ fuel) : t.max fuel = .ok T.labels.getLast? := by
  by_cases empty : T = .nil
  · have isRoot : t.m_root = t.m_sentinel := by
      rw [holds.root, empty, CTree.ptr_nil]
    rw [max, if_pos isRoot, empty]
    rfl
  · obtain ⟨ctx, c, m, B, runs, same, rights⟩ := descendTo_spec .right fuel holds.rep empty enough
    have last : T.labels.getLast? = some m := by
      rw [same, Ctx.labels_plug, Ctx.after_of_rights rights]
      simp [CTree.mk]
    obtain ⟨l, cx, x, r, rfl⟩ : ∃ l c x r, T = .node l c x r := T.exists_mk .left empty
    have right : (t.mem x).child .right = r.ptr t.m_sentinel := holds.rep.2.2.1
    rw [max, if_neg (holds_ptr_ne holds empty), last]
    rw [holds.root, CTree.ptr_node] at *
    simp only [child_some, right, ok_bind]
    by_cases isNull : r.ptr t.m_sentinel = none
    · -- without a right child the root is the last node
      have noRight : r = .nil := by
        cases r with
        | nil => rfl
        | node rl c' y rr => cases isNull
      rw [noRight, CTree.labels_node, CTree.labels_nil, List.getLast?_concat] at last
      simp only [isNull, ne_eq, not_true_eq_false, if_false, pure_ok, last]
    · simp only [ne_eq, isNull, not_false_eq_true, if_true, runs]

end NcRbTree

end Nutcracker
