/-
**Removing a node that is not in the tree.**

`remove` never looks the node up. For a reset node, whose links are all `NULL`, it compares these
with the sentinel. Where the sentinel is `NULL` too, the node looks like one without children or
parent, and the code returns. Where the sentinel is a node, the links look like two children, and
the code takes the first node of the tree out of its place to put it where the reset node is: in the
empty tree it reads through the `NULL` that `min` returns, before it checks for it.

* `remove_absent_null` — without a sentinel nothing happens.
* `Valid.remove_absent` — with one, the code faults or replaces the root.
* `remove_untracked_iff` — **in every tree that inserts and removes lead to, from either
  constructor, the removal changes nothing if and only if the tree has no sentinel**.
-/

import Nutcracker.RbTree.NullSentinel

namespace Nutcracker

open Lib

namespace NcRbTree

/-- A node as `reset` leaves it: no link. -/
structure IsReset (node : RbNode) : Prop where
  left : node.left = none
  right : node.right = none
  parent : node.parent = none

/-- **What the removal of an absent node should do**: return, with the root, every link and every
color of the tree as they were. -/
def RemovalIgnored (t : NcRbTree) (S : Set Addr) (x : Addr) : Prop :=
  ∃ fuel t', t.remove fuel (some x) = .ok t' ∧ t'.m_root = t.m_root ∧
    ∀ y ∈ S, t'.links y = t.links y

/-! ### Without a sentinel -/

/-- **Without a sentinel** the code returns where it finds no parent. -/
theorem remove_absent_null {t : NcRbTree} {x : Addr} (fuel : Nat) (isNull : t.m_sentinel = none)
    (reset : IsReset (t.mem x)) (notRoot : some x ≠ t.m_root) :
    t.remove fuel (some x) = .ok t := by
  have chosen : t.substitute fuel (some x) = .ok (some x, none) := by
    simp only [substitute, child_some, Links.child, ok_bind, reset.left, reset.right, isNull,
      if_true, pure_ok]
  simp only [remove, reduceCtorEq, if_false, chosen, ok_bind, if_neg notRoot, parent_some,
    reset.parent, if_true, pure_ok]

/-! ### With a sentinel -/

/-- Putting `m` in the place of a node without a left child: the code follows that child. -/
theorem takeOver_absent {t : NcRbTree} {x m z : Addr} (isSentinel : t.m_sentinel = some z)
    (left : (t.mem x).left = none) (different : m ≠ x) (notRoot : some x ≠ t.m_root)
    (apart : (t.mem x).parent ≠ some m) :
    t.takeOver (some x) (some m) = .error .nullDeref := by
  have xLeft : (t.mem x).child .left = none := left
  -- `m` has the links and the color of `x`, in particular no left child
  let t₁ := t.inherit m ⟨none, (t.mem x).child .right, (t.mem x).parent, (t.mem x).color⟩
  have t₁X : t₁.mem x = t.mem x := inherit_of_ne t _ different.symm
  have t₁M : (t₁.mem m).child .left = none :=
    congrArg Links.left (links_inherit t m
      ⟨none, (t.mem x).child .right, (t.mem x).parent, (t.mem x).color⟩)
  have relinked : t₁.relink .left (some x) (some m) = .error .nullDeref ∨
      ∃ t₂, t₁.relink .left (some x) (some m) = .ok t₂ ∧ (t₂.mem m).child .left = none ∧
        t₂.m_sentinel = some z := by
    have notRoot₁ : some x ≠ t₁.m_root := notRoot
    rw [relink, if_neg notRoot₁, hang, parent_some, ok_bind, t₁X]
    cases above : (t.mem x).parent with
    | none => exact Or.inl (by simp only [child_none, error_bind])
    | some p =>
        have notM : m ≠ p := fun same => apart (same ▸ above)
        simp only [child_some, ok_bind, setChild_some]
        split
        · exact Or.inr ⟨_, rfl, by rw [put_of_ne _ _ _ notM, t₁M], isSentinel⟩
        · exact Or.inr ⟨_, rfl, by rw [put_of_ne _ _ _ notM, t₁M], isSentinel⟩
  have unfolded : t.takeOver (some x) (some m) =
      t₁.relink .left (some x) (some m) >>= fun t₂ => t₂.child .left (some m) >>= fun l =>
        t₂.adopt l (some m) >>= fun t₃ => t₃.child .right (some m) >>= fun r =>
          t₃.adopt r (some m) := by
    simp only [takeOver, child_some, ok_bind, xLeft, setChild_some, put_of_ne _ _ _ different.symm,
      parent_some, setParent_some, color_some, setColor_some]
    rfl
  rw [unfolded]
  rcases relinked with faults | ⟨t₂, runs, noLeft, isSentinel₂⟩
  · rw [faults, error_bind]
  · have notSentinel : (none : Ptr) ≠ t₂.m_sentinel := by
      rw [isSentinel₂]
      exact (Option.some_ne_none z).symm
    simp only [runs, ok_bind, child_some, noLeft, adopt, if_pos notSentinel, setParent_none,
      error_bind]

/-- The first node of a tree, which is below another one: its removal instead of the absent node. -/
theorem remove_absent_below {t : NcRbTree} {top : Ptr} {f : Frame Addr} {ctx : Ctx Addr}
    {B : CTree Addr} {c : Color} {x m z : Addr} {fuel : Nat} (isSentinel : t.m_sentinel = some z)
    (holds : Holds t top (Ctx.plug (f :: ctx) (.mk .left .nil c m B)))
    (absent : x ∉ (Ctx.plug (f :: ctx) (.mk .left .nil c m B)).labels)
    (reset : IsReset (t.mem x)) (notRoot : some x ≠ t.m_root)
    (chosen : t.substitute fuel (some x) = .ok (some m, B.ptr t.m_sentinel)) :
    t.remove fuel (some x) = .error .nullDeref := by
  have parent : (t.mem m).parent = some f.label := holds.parent
  obtain ⟨-, above, -⟩ := holds_plug.mp holds
  rw [CTree.ptr_mk] at above
  have hung := hang_spec .left (B.ptr t.m_sentinel) above parent holds.mem.2.2 holds.real
  have inTree : ∀ y ∈ f.label :: (CTree.mk .left .nil c m B).labels,
      y ∈ (Ctx.plug (f :: ctx) (.mk .left .nil c m B)).labels := by
    intro y member
    rw [Ctx.mem_labels_plug]
    rcases List.mem_cons.mp member with rfl | inside
    · exact Or.inl (Ctx.mem_labels_cons.mpr (Or.inl rfl))
    · exact Or.inr inside
  have mIn : m ∈ (CTree.mk .left .nil c m B).labels := CTree.mem_labels_mk.mpr (Or.inr (Or.inl rfl))
  have notM : m ≠ x := fun same => absent (same ▸ inTree m (List.mem_cons_of_mem _ mIn))
  have notP : x ≠ f.label := fun same => absent (same ▸ inTree f.label List.mem_cons_self)
  have mNotP : m ≠ f.label := by
    rintro rfl
    exact holds.mem.2.2 (Ctx.mem_labels_cons.mpr (Or.inl rfl))
  obtain ⟨q, moves⟩ : ∃ q, B.ptr t.m_sentinel = some q := by
    cases B with
    | nil => exact ⟨z, isSentinel⟩
    | node l c y r => exact ⟨y, rfl⟩
  rw [moves] at chosen hung
  -- the tree once `m` is out of its place
  let t₁ := t.put f.label (RbNode.withChild f.side (some q))
  let t₂ := t₁.put q (RbNode.withParent (some f.label))
  have parent₁ : (t₁.mem m).parent = some f.label := by
    rw [put_of_ne _ _ _ mNotP, parent]
  have left₂ : (t₂.mem x).left = none := by
    by_cases isQ : x = q
    · subst isQ
      rw [put_self, RbNode.withParent, put_of_ne _ _ _ notP, reset.left]
    · rw [put_of_ne _ _ _ isQ, put_of_ne _ _ _ notP, reset.left]
  have apart₂ : (t₂.mem x).parent ≠ some m := by
    by_cases isQ : x = q
    · subst isQ
      rw [put_self, RbNode.withParent]
      exact fun same => mNotP (Option.some.inj same).symm
    · rw [put_of_ne _ _ _ isQ, put_of_ne _ _ _ notP, reset.parent]
      exact nofun
  have faults : t₂.takeOver (some x) (some m) = .error .nullDeref :=
    takeOver_absent isSentinel left₂ notM notRoot apart₂
  have mNotX : (some m : Ptr) ≠ some x := fun same => notM (Option.some.inj same)
  have pNotX : (some f.label : Ptr) ≠ some x := fun same => notP (Option.some.inj same).symm
  simp only [remove, reduceCtorEq, if_false, chosen, ok_bind, if_neg holds.ne_root, parent_some,
    parent, color_some, hung, if_neg mNotX]
  rw [show (t.put f.label (RbNode.withChild f.side (some q))).mem m = t₁.mem m from rfl]
  simp only [parent₁, if_neg pNotX, setParent_some, ok_bind]
  rw [show (t.put f.label (RbNode.withChild f.side (some q))).put q
    (RbNode.withParent (some f.label)) = t₂ from rfl, faults, error_bind]

/-- The first node of a tree, which is the root: its removal gives the tree another root. -/
theorem remove_absent_root {t t' : NcRbTree} {top : Ptr} {B : CTree Addr} {c : Color} {x m : Addr}
    {fuel : Nat} (holds : Holds t top (CTree.mk .left .nil c m B))
    (chosen : t.substitute fuel (some x) = .ok (some m, B.ptr t.m_sentinel))
    (runs : t.remove fuel (some x) = .ok t') : t'.m_root ≠ t.m_root := by
  have atM : Holds t top (Ctx.plug [] (.mk .left .nil c m B)) := holds
  have isRoot : some m = t.m_root := by
    rw [holds.root, CTree.ptr_mk]
  have moved : B.ptr t.m_sentinel ≠ some m := CTree.ptr_ne atM.mem.2.1 atM.real
  simp only [remove, reduceCtorEq, if_false, chosen, ok_bind, if_pos isRoot] at runs
  cases next : B.ptr t.m_sentinel with
  | none =>
      rw [next] at runs
      cases runs
  | some q =>
      rw [next, setColor_some, ok_bind, store_some] at runs
      obtain rfl := Except.ok.inj runs
      rw [put_root, put_root, ← isRoot, ← next]
      exact moved

/-- The root of a tree is a node of it, or the sentinel. -/
theorem Valid.root_mem {t : NcRbTree} {xs : List Addr} {r : Addr} (valid : t.Valid xs)
    (isRoot : t.m_root = some r) (real : some r ≠ t.m_sentinel) : r ∈ xs := by
  obtain ⟨top, T, n, holds, -, rfl⟩ := valid.holds
  have root := holds.root
  cases T with
  | nil => exact absurd (isRoot.symm.trans root) real
  | node l c y r' =>
      obtain rfl : r = y := Option.some.inj (isRoot.symm.trans root)
      simp

/-- **With a sentinel** the code faults or replaces the root. -/
theorem Valid.remove_absent {t t' : NcRbTree} {xs : List Addr} {x z : Addr} {fuel : Nat}
    (valid : t.Valid xs) (isSentinel : t.m_sentinel = some z) (absent : x ∉ xs)
    (reset : IsReset (t.mem x)) (runs : t.remove fuel (some x) = .ok t') :
    t'.m_root ≠ t.m_root := by
  have notLeft : (none : Ptr) ≠ t.m_sentinel := by
    rw [isSentinel]
    exact nofun
  have looksFull : t.substitute fuel (some x) =
      t.min fuel >>= fun subst => t.child .right subst >>= fun temp => .ok (subst, temp) := by
    simp only [substitute, child_some, Links.child, ok_bind, reset.left, reset.right,
      if_neg notLeft, pure_ok]
  cases first : t.min fuel with
  | error e =>
      simp only [NcRbTree.remove, reduceCtorEq, if_false, looksFull, first, error_bind] at runs
  | ok subst =>
      obtain ⟨top, T, n, holds, -, rfl⟩ := id valid.holds
      have isHead : subst = T.labels.head? := by
        have one := (min_mono (le_max_left fuel T.labels.length)).of_ok first
        have two := (min_mono (le_max_right fuel T.labels.length)).of_ok
          (min_spec _ holds (le_refl _))
        exact Except.ok.inj (one.symm.trans two)
      by_cases empty : T = .nil
      · have isNull : subst = none := by rw [isHead, empty, CTree.labels_nil, List.head?_nil]
        simp only [NcRbTree.remove, reduceCtorEq, if_false, looksFull, first, isNull, ok_bind,
          child_none, error_bind] at runs
      · obtain ⟨ctx, c, m, B, -, same, lefts⟩ :=
          descendTo_spec .left T.labels.length holds.rep empty (le_refl _)
        have isFirst : subst = some m := by
          rw [isHead, same, Ctx.labels_plug, Ctx.before_of_lefts lefts]
          rfl
        have atM : Holds t top (Ctx.plug ctx (.mk .left .nil c m B)) := same ▸ holds
        have chosen : t.substitute fuel (some x) = .ok (some m, B.ptr t.m_sentinel) := by
          rw [looksFull, first, isFirst, ok_bind, child_some, ok_bind]
          rw [show (t.mem m).child .right = _ from atM.child_far]
        cases ctx with
        | nil => exact remove_absent_root atM chosen runs
        | cons f ctx =>
            have notRoot : some x ≠ t.m_root := by
              intro isRoot
              refine absent (valid.root_mem isRoot.symm ?_)
              rw [isRoot]
              exact holds_ptr_ne holds empty
            rw [remove_absent_below isSentinel atM (same ▸ absent) reset notRoot chosen] at runs
            cases runs

/-! ### Every history -/

/-- **The removal of an absent, reset node changes nothing if and only if there is no sentinel**, in
every history of either constructor. -/
theorem remove_untracked_iff (mem : Addr → RbNode) (start t : NcRbTree) (S : Set Addr) (x : Addr)
    (constructed : start = default mem ∨ ∃ node, start = ofSentinel mem node)
    (reached : (treeSystem start).Reach (t, S)) (absent : x ∉ S) (reset : IsReset (t.mem x)) :
    t.RemovalIgnored S x ↔ t.m_sentinel = none := by
  rcases constructed with rfl | ⟨node, rfl⟩
  · obtain ⟨isNull, xs, valid, rfl⟩ := reach_valid_default reached
    refine ⟨fun _ => isNull, fun _ => ⟨0, t, ?_, rfl, fun _ _ => rfl⟩⟩
    refine remove_absent_null 0 isNull reset fun isRoot => absent ?_
    exact valid.root_mem isRoot.symm (by rw [isNull]; exact nofun)
  · obtain ⟨isSentinel, xs, valid, rfl⟩ := reach_valid reached
    constructor
    · rintro ⟨fuel, t', runs, sameRoot, -⟩
      exact absurd sameRoot (valid.remove_absent isSentinel absent reset runs)
    · intro isNull
      rw [isSentinel] at isNull
      cases isNull

/-- **A removal that is ignored**: the node `2` was never inserted into the default tree. -/
theorem untracked_of_one : ∃ t, (TreeOp.insert 1 .reset).apply 8 (default blank) = .ok t ∧
    t.RemovalIgnored (Insert.insert 1 ∅) 2 := by
  obtain ⟨t, inserted, isNull, left, right, parent⟩ :
      Ends ((TreeOp.insert 1 .reset).apply 8 (default blank)) fun t => t.m_sentinel = none ∧
        (t.mem 2).left = none ∧ (t.mem 2).right = none ∧ (t.mem 2).parent = none := by
    decide +kernel
  have start : (treeSystem (default blank)).Reach (default blank, ∅) := .start rfl
  have first : (treeSystem (default blank)).step (default blank, ∅) (.insert 1 .reset)
      (t, Insert.insert 1 ∅) := ⟨⟨Set.notMem_empty 1, nofun⟩, ⟨8, inserted⟩, rfl⟩
  refine ⟨t, inserted, (remove_untracked_iff blank (default blank) t (Insert.insert 1 ∅) 2
    (Or.inl rfl) (start.next first) ?_ ⟨left, right, parent⟩).mpr isNull⟩
  simp

/-- **A removal that is not**: the tree has the sentinel `0` and the node `1`, and the removal of the
reset node `2` takes the node `1` out. -/
theorem untracked_takes_another : ∃ t t',
    (treeSystem (ofSentinel blank 0)).Reach (t, Insert.insert 1 ∅) ∧ IsReset (t.mem 2) ∧
      t.remove 8 (some 2) = .ok t' ∧ t.m_root = some 1 ∧ t'.m_root = some 0 ∧
        ¬ t.RemovalIgnored (Insert.insert 1 ∅) 2 := by
  obtain ⟨t, inserted, left, right, parent, one, t', removed, zero⟩ :
      Ends ((TreeOp.insert 1 .reset).apply 8 (ofSentinel blank 0)) fun t =>
        (t.mem 2).left = none ∧ (t.mem 2).right = none ∧ (t.mem 2).parent = none ∧
          t.m_root = some 1 ∧ Ends (t.remove 8 (some 2)) fun t' => t'.m_root = some 0 := by
    decide +kernel
  have start : (treeSystem (ofSentinel blank 0)).Reach (ofSentinel blank 0, ∅) := .start rfl
  have real : (some 1 : Ptr) ≠ (ofSentinel blank 0).m_sentinel := by decide
  have first : (treeSystem (ofSentinel blank 0)).step (ofSentinel blank 0, ∅) (.insert 1 .reset)
      (t, Insert.insert 1 ∅) := ⟨⟨Set.notMem_empty 1, real⟩, ⟨8, inserted⟩, rfl⟩
  have reached := start.next first
  refine ⟨t, t', reached, ⟨left, right, parent⟩, removed, one, zero, ?_⟩
  rintro ⟨fuel, t₁, runs, sameRoot, -⟩
  obtain ⟨isSentinel, xs, valid, members⟩ := reach_valid reached
  refine valid.remove_absent isSentinel (fun member => ?_) ⟨left, right, parent⟩ runs sameRoot
  have inSet : 2 ∈ (Insert.insert 1 ∅ : Set Addr) := by
    rw [show Insert.insert 1 ∅ = {x | x ∈ xs} from members.symm]
    exact member
  simp at inSet

end NcRbTree

end Nutcracker
