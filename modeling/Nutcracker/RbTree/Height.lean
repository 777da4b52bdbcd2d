/-
**Every operation of the tree takes logarithmically many turns.**

The loops of `nc_rbtree.h` go down one way from the root (`insert`'s search, `min`, `max`) or back up
one (the two rebalancing loops). In a red-black tree of `n` nodes no way is longer than
`2 * log2(n + 1)`.

* `descendTo_within`, `descend_within` — a way down takes no more turns than the tree is high.
* `insert_within`, `remove_within`, `min_within`, `max_within` — each operation ends with fuel for the
  height of the tree and two more turns.
* `logarithmic_turns` — **in every history of a tree with a sentinel, each next operation, and each
  `min` and `max`, takes at most `turns n` turns of any of its loops**.
-/

import Nutcracker.RbTree.History
import Mathlib.Data.Set.Card

namespace Nutcracker

open Lib

namespace NcRbTree

/-- Turns that are enough for a tree of `n` nodes. -/
def turns (n : Nat) : Nat := 2 * Nat.log 2 (n + 1) + 2

/-! ### Ways down -/

/-- The descent to one side runs out of fuel on no tree that is not higher. -/
theorem descendTo_within (d : Dir) {t : NcRbTree} {T : CTree Addr} {par : Ptr} {fuel : Nat}
    (rep : Rep t.links t.m_sentinel par T) (nonempty : T ≠ .nil) (low : T.height ≤ fuel) :
    ∃ x, t.descendTo d fuel (T.ptr t.m_sentinel) = .ok (some x) := by
  induction fuel generalizing T par with
  | zero =>
      obtain ⟨near, c, x, far, rfl⟩ := T.exists_mk d nonempty
      rw [CTree.height_mk] at low
      exact absurd low (Nat.not_succ_le_zero _)
  | succ fuel ih =>
      obtain ⟨near, c, x, far, rfl⟩ := T.exists_mk d nonempty
      obtain ⟨-, toNear, -, -, -, inNear, -⟩ := rep_mk.mp rep
      have toNear : (t.mem x).child d = near.ptr t.m_sentinel := toNear
      rw [CTree.height_mk] at low
      have lower : near.height ≤ fuel := (le_max_left _ _).trans (Nat.le_of_succ_le_succ low)
      rw [CTree.ptr_mk]
      by_cases isNil : near = .nil
      · refine ⟨x, ?_⟩
        have isLeaf : near.ptr t.m_sentinel = t.m_sentinel := inNear.ptr_eq_iff.mpr isNil
        simp only [descendTo, child_some, ok_bind, toNear, isLeaf, ne_eq, not_true_eq_false,
          if_false, pure_ok]
      · obtain ⟨y, runs⟩ := ih inNear isNil lower
        have stays : near.ptr t.m_sentinel ≠ t.m_sentinel := mt inNear.ptr_eq_iff.mp isNil
        refine ⟨y, ?_⟩
        simp only [descendTo, child_some, ok_bind, toNear, ne_eq, stays, not_false_eq_true,
          if_true, runs]

/-- The search of `insert` runs out of fuel on no tree that is not higher. -/
theorem descend_within (k : Int) {t : NcRbTree} {T : CTree Addr} {par : Ptr} {fuel : Nat}
    (rep : Rep t.links t.m_sentinel par T) (nonempty : T ≠ .nil) (low : T.height ≤ fuel) :
    ∃ found, t.descend k fuel (T.ptr t.m_sentinel) = .ok found := by
  induction fuel generalizing T par with
  | zero =>
      obtain ⟨near, c, x, far, rfl⟩ := T.exists_mk .left nonempty
      rw [CTree.height_mk] at low
      exact absurd low (Nat.not_succ_le_zero _)
  | succ fuel ih =>
      obtain ⟨l, c, x, r, rfl⟩ : ∃ l c x r, T = .node l c x r := T.exists_mk .left nonempty
      -- the side that the comparison with `x` leads to
      generalize toSide : (if k < (t.mem x).key then Dir.left else Dir.right) = d
      obtain ⟨near, far, same⟩ := CTree.node_eq_mk d l c x r
      rw [same] at rep low ⊢
      obtain ⟨-, toNear, -, -, -, inNear, -⟩ := rep_mk.mp rep
      have toNear : (t.mem x).child d = near.ptr t.m_sentinel := toNear
      rw [CTree.height_mk] at low
      have lower : near.height ≤ fuel := (le_max_left _ _).trans (Nat.le_of_succ_le_succ low)
      rw [CTree.ptr_mk]
      by_cases isNil : near = .nil
      · have isLeaf : near.ptr t.m_sentinel = t.m_sentinel := inNear.ptr_eq_iff.mpr isNil
        refine ⟨(some x, d), ?_⟩
        simp only [descend, key_some, ok_bind, toSide, child_some, toNear, isLeaf, if_true, pure_ok]
      · obtain ⟨found, runs⟩ := ih inNear isNil lower
        have stays : near.ptr t.m_sentinel ≠ t.m_sentinel := mt inNear.ptr_eq_iff.mp isNil
        refine ⟨found, ?_⟩
        simp only [descend, key_some, ok_bind, toSide, child_some, toNear, if_neg stays, runs]

/-! ### The operations -/

section Operations

variable {t : NcRbTree} {top : Ptr} {T : CTree Addr} {n fuel : Nat} {x : Addr}

/-- More fuel than a loop needs changes nothing. -/
theorem descend_mono (k : Int) (temp : Ptr) {more : Nat} (le : fuel ≤ more) :
    Below (t.descend k fuel temp) (t.descend k more temp) :=
  .of_step (fun n => descend_step k t n temp) le

/-- **`min` and `max`** of a tree that is not higher than the fuel. -/
theorem min_within (holds : Holds t top T) (low : T.height ≤ fuel) :
    t.min fuel = .ok T.labels.head? := by
  have big := min_spec (fuel + T.labels.length) holds (Nat.le_add_left _ _)
  obtain ⟨p, runs⟩ : ∃ p, t.min fuel = .ok p := by
    by_cases empty : T = .nil
    · have isRoot : t.m_root = t.m_sentinel := by rw [holds.root, empty, CTree.ptr_nil]
      exact ⟨none, by rw [min, if_pos isRoot]⟩
    · obtain ⟨y, runs⟩ := descendTo_within .left holds.rep empty low
      exact ⟨some y, by rw [min, if_neg (holds_ptr_ne holds empty), holds.root, runs]⟩
  rw [runs, ← big, (min_mono (Nat.le_add_right fuel _)).of_ok runs]

theorem max_within (holds : Holds t top T) (low : T.height ≤ fuel) :
    t.max fuel = .ok T.labels.getLast? := by
  have big := max_spec (fuel + T.labels.length) holds (Nat.le_add_left _ _)
  obtain ⟨p, runs⟩ : ∃ p, t.max fuel = .ok p := by
    by_cases empty : T = .nil
    · have isRoot : t.m_root = t.m_sentinel := by rw [holds.root, empty, CTree.ptr_nil]
      exact ⟨none, by rw [max, if_pos isRoot]⟩
    · obtain ⟨l, c, y, r, rfl⟩ : ∃ l c y r, T = .node l c y r := T.exists_mk .left empty
      obtain ⟨z, runs⟩ := descendTo_within .right holds.rep empty low
      rw [max, if_neg (holds_ptr_ne holds empty), holds.root, runs]
      simp only [CTree.ptr_node, child_some, ok_bind, pure_ok]
      split
      · exact ⟨_, rfl⟩
      · exact ⟨_, rfl⟩
  rw [runs, ← big, (max_mono (Nat.le_add_right fuel _)).of_ok runs]

/-- The writes of `insert` up to the rebalancing loop, with fuel for the way down. -/
theorem insert_eq_within (fuel : Nat) (holds : Holds t top T) (nonempty : T ≠ .nil) (low : T.height ≤ fuel) :
    ∃ f ctx, T = Ctx.plug (f :: ctx) .nil ∧
      ∀ more, fuel ≤ more → t.insert more (some x) =
        insertFixup more (some x) (t.attach f x) >>= fun t' => t'.setColor t'.m_root .black := by
  obtain ⟨f, ctx, found, same, -⟩ := descend_spec (t.mem x).key (fuel + T.labels.length)
    holds.rep nonempty (Nat.le_add_left _ _)
  obtain ⟨found', runs⟩ := descend_within (t.mem x).key holds.rep nonempty low
  have big := (descend_mono (t.mem x).key _ (Nat.le_add_right fuel T.labels.length)).of_ok runs
  obtain rfl : (some f.label, f.side) = found' := Except.ok.inj (found.symm.trans big)
  refine ⟨f, ctx, same, fun more le => ?_⟩
  have ends := (descend_mono (t.mem x).key _ le).of_ok runs
  rw [← holds.root] at ends
  simp only [insert, if_neg (holds_ptr_ne holds nonempty), key_some, ok_bind, ends, setChild_some,
    setParent_some, setColor_some, put_sentinel]
  rfl

/-- **`insert`** into a red-black tree that is lower than the fuel. -/
theorem insert_within (holds : Holds t top T) (shape : RB .black n T) (black : t.SentinelBlack)
    (fresh : x ∉ T.labels) (real : some x ≠ t.m_sentinel) (sentinel : t.m_sentinel ≠ none)
    (low : T.height + 2 ≤ fuel) : ∃ t', t.insert fuel (some x) = .ok t' := by
  by_cases empty : T = .nil
  · subst empty
    obtain ⟨t', runs, -⟩ := insert_empty fuel holds real
    exact ⟨t', runs⟩
  · obtain ⟨f, ctx, rfl, steps⟩ := insert_eq_within (x := x) fuel holds empty (by omega)
    obtain ⟨holds₁, frame₁⟩ := attach_spec holds fresh real
    have black₁ : (t.attach f x).SentinelBlack := by
      refine black.touches frame₁ fun z member => ?_
      rcases List.mem_cons.mp member with rfl | inTree
      · exact real
      · exact holds.rep.real z inTree
    obtain ⟨k, c, around, leaf, -⟩ := shape.unplug rfl
    obtain rfl := leaf.nil_height
    have short := Ctx.length_add_height_le (f :: ctx) .nil
    rw [CTree.height_nil] at short
    -- the loop ends within the height; with more fuel it does the same
    obtain ⟨t₂, -, loop, -⟩ := insertFixup_spec fuel (by omega) holds₁ black₁ around .nil .nil
      fun isNull => absurd (frame₁.sentinel.symm.trans isNull) sentinel
    let more := fuel + (2 * (Ctx.plug (f :: ctx) .nil).labels.length + 2)
    have longer : Below (insertFixup fuel (some x) (t.attach f x))
        (insertFixup more (some x) (t.attach f x)) :=
      .of_step (fun n => insertFixup_step n _ _) (Nat.le_add_right _ _)
    obtain ⟨f', ctx', same, searched, inserts, faults⟩ :=
      insert_spec more holds shape black fresh real empty (Nat.le_add_left _ _)
    obtain ⟨t', T', runs, -⟩ := inserts fun isNull => absurd isNull sentinel
    refine ⟨t', ?_⟩
    rw [steps more (Nat.le_add_right _ _), longer.of_ok loop] at runs
    rw [steps fuel (le_refl _), loop, runs]

/-- **`remove`** from a red-black tree that is lower than the fuel. -/
theorem remove_within (holds : Holds t top T) (shape : RB .black n T) (black : t.SentinelBlack)
    (xIn : x ∈ T.labels) (sentinel : t.m_sentinel ≠ none) (low : T.height + 2 ≤ fuel) :
    ∃ t', t.remove fuel (some x) = .ok t' := by
  by_cases lacks : t.LacksChild x
  · obtain ⟨ctx, l, c, r, rfl⟩ := Ctx.exists_plug_of_mem xIn
    have short := Ctx.length_add_height_le ctx (.node l c x r)
    obtain ⟨-, left, right, -, -, inL, inR⟩ := (holds_plug.mp holds).2.2.1
    have left : (t.mem x).left = l.ptr t.m_sentinel := left
    have right : (t.mem x).right = r.ptr t.m_sentinel := right
    rcases lacks with noLeft | noRight
    · obtain rfl : l = .nil := inL.ptr_eq_iff.mp (left.symm.trans noLeft)
      obtain ⟨t', -, -, runs, -⟩ := remove_one (d := .left) fuel (by omega) holds shape black
        fun isNull => absurd isNull sentinel
      exact ⟨t', runs⟩
    · obtain rfl : r = .nil := inR.ptr_eq_iff.mp (right.symm.trans noRight)
      obtain ⟨t', -, -, runs, -⟩ := remove_one (d := .right) fuel (by omega) holds shape black
        fun isNull => absurd isNull sentinel
      exact ⟨t', runs⟩
  · obtain ⟨hasLeft, hasRight⟩ := not_or.mp lacks
    have first : t.min fuel = .ok T.labels.head? := min_within holds (by omega)
    have nonempty : T ≠ .nil := by
      rintro rfl
      cases xIn
    obtain ⟨ctx, c, m, B, -, rfl, lefts⟩ :=
      descendTo_spec .left T.labels.length holds.rep nonempty (le_refl _)
    obtain ⟨k, d, -, here, -⟩ := shape.unplug rfl
    have xInCtx : x ∈ Ctx.labels ctx := mem_above_first holds here xIn hasLeft
    have short := Ctx.length_add_height_le ctx (.mk .left .nil c m B)
    rw [CTree.height_mk] at short
    rw [Ctx.labels_plug, Ctx.before_of_lefts lefts] at first
    cases ctx with
    | nil => cases xInCtx
    | cons f ctx =>
        rw [List.length_cons] at short
        obtain ⟨t', -, runs, -⟩ := remove_two fuel (by omega) holds shape black first
          (lefts f List.mem_cons_self) xInCtx hasLeft hasRight fun isNull => absurd isNull sentinel
        exact ⟨t', runs⟩

end Operations

/-! ### Histories -/

theorem Valid.low {t : NcRbTree} {xs : List Addr} (valid : t.Valid xs) :
    ∃ top T n, Holds t top T ∧ RB .black n T ∧ T.labels = xs ∧ T.height + 2 ≤ turns xs.length := by
  obtain ⟨top, T, n, holds, shape, rfl⟩ := valid.holds
  exact ⟨top, T, n, holds, shape, rfl, Nat.add_le_add_right shape.height_le_log 2⟩

/-- **One operation** ends within the turns for the nodes of the tree. -/
theorem Valid.apply_within {t : NcRbTree} {xs : List Addr} {op : TreeOp} (valid : t.Valid xs)
    (admissible : op.Admissible t {x | x ∈ xs}) (sentinel : t.m_sentinel ≠ none) :
    ∃ t', op.apply (turns xs.length) t = .ok t' := by
  cases op with
  | insert x cell =>
      obtain ⟨fresh, real⟩ := admissible
      have valid' := valid.put fresh real fun _ => cell
      obtain ⟨top, T, n, holds, shape, rfl, low⟩ := valid'.low
      exact insert_within holds shape valid'.sentinel fresh real sentinel low
  | remove x =>
      obtain ⟨top, T, n, holds, shape, rfl, low⟩ := valid.low
      exact remove_within holds shape valid.sentinel admissible sentinel low

/-- **Logarithmically many turns**, in every history of a tree with a sentinel: with `n` nodes in the
tree, no loop of the next operation, of `min` or of `max` takes more than `turns n` turns. -/
theorem logarithmic_turns (mem : Addr → RbNode) (node : Addr) (t : NcRbTree) (S : Set Addr)
    (reached : (treeSystem (ofSentinel mem node)).Reach (t, S)) :
    S.Finite ∧ (∀ op : TreeOp, op.Admissible t S → ∃ t', op.apply (turns S.ncard) t = .ok t') ∧
      (∃ p, t.min (turns S.ncard) = .ok p) ∧ ∃ p, t.max (turns S.ncard) = .ok p := by
  obtain ⟨isSentinel, xs, valid, rfl⟩ := reach_valid reached
  have sentinel : t.m_sentinel ≠ none := by
    rw [isSentinel]
    exact Option.some_ne_none node
  have size : {x | x ∈ xs}.ncard = xs.length := by
    rw [← List.toFinset_card_of_nodup valid.nodup, ← Set.ncard_coe_finset, List.coe_toFinset]
  obtain ⟨top, T, n, holds, shape, same, low⟩ := valid.low
  rw [size]
  refine ⟨List.finite_toSet xs, fun op admissible => valid.apply_within admissible sentinel, ?_, ?_⟩
  · exact ⟨_, min_within holds (by omega)⟩
  · exact ⟨_, max_within holds (by omega)⟩

/-- The five insertions, and the next operation within `turns 5 = 6` turns. -/
theorem logarithmic_turns_of_fiveInserted : ∃ t, fiveInserted = .ok t ∧
    ∃ t', (TreeOp.remove 4).apply (turns ({x | x ∈ [1, 2, 3, 4, 5]} ∪ ∅ : Set Addr).ncard) t =
      .ok t' := by
  obtain ⟨t, inserted, -⟩ : Ends fiveInserted fun _ => True := by decide +kernel
  have reached := (reach_fiveInserted (fun _ _ => True) (fun _ _ _ => trivial)
    inserted).of_guarded
  obtain ⟨-, ends, -⟩ := logarithmic_turns blank 0 t _ reached
  exact ⟨t, inserted, ends (.remove 4) (Or.inl (by decide))⟩

end NcRbTree

end Nutcracker
