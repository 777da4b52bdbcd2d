/-
**Histories of a tree: balance and membership.**

A history is any sequence of insertions of nodes that are not in the tree and removals of nodes that
are. `Valid t xs` is what every history keeps: the cells hold a red-black tree whose in-order
sequence is `xs`, and the sentinel is black.

* `Valid.insert`, `Valid.remove` — one operation: it ends, and the sequence changes as
  `insert_spec` and `remove_spec` say.
* `Valid.balanced` — what `Valid` means for the links in memory (`Balanced`).
* `balance_and_membership` — **every history of a tree with a sentinel**: the tree is balanced, it
  contains exactly the nodes inserted and not yet removed, and the next operation ends.
-/

import Nutcracker.Lib.Runs
import Nutcracker.RbTree.Fuel
import Nutcracker.RbTree.Remove
import Mathlib.Data.Set.Insert

namespace Nutcracker

open Lib

/-- An operation of the tree's owner: insert a node, after any writes to its fields, or remove a
node. -/
inductive TreeOp
  | insert (node : Addr) (cell : RbNode)
  | remove (node : Addr)

namespace TreeOp

def apply (fuel : Nat) : TreeOp → NcRbTree → Except Fault NcRbTree
  | insert node cell, t => (t.put node fun _ => cell).insert fuel (some node)
  | remove node, t => t.remove fuel (some node)

/-- The nodes in the tree after the operation. -/
def members : TreeOp → Set Addr → Set Addr
  | insert node _, S => Insert.insert node S
  | remove node, S => S \ {node}

/-- Only nodes outside the tree are inserted, only nodes of the tree are removed. -/
def Admissible (t : NcRbTree) (S : Set Addr) : TreeOp → Prop
  | insert node _ => node ∉ S ∧ some node ≠ t.m_sentinel
  | remove node => node ∈ S

theorem apply_mono (op : TreeOp) (t : NcRbTree) {fuel more : Nat} (le : fuel ≤ more) :
    Below (op.apply fuel t) (op.apply more t) := by
  cases op with
  | insert node cell => exact NcRbTree.insert_mono le
  | remove node => exact NcRbTree.remove_mono le

/-- Run a list of operations. -/
def run (fuel : Nat) : List TreeOp → NcRbTree → Except Fault NcRbTree
  | [], t => .ok t
  | op :: ops, t => do run fuel ops (← op.apply fuel t)

/-- The result does not depend on the fuel. -/
theorem apply_unique {op : TreeOp} {t t₁ t₂ : NcRbTree} {fuel more : Nat}
    (first : op.apply fuel t = .ok t₁) (second : op.apply more t = .ok t₂) : t₁ = t₂ := by
  have one := (apply_mono op t (le_max_left fuel more)).of_ok first
  have two := (apply_mono op t (le_max_right fuel more)).of_ok second
  exact Except.ok.inj (one.symm.trans two)

end TreeOp

/-- **The histories of a tree object**, with the set of nodes in the tree. -/
def treeSystem (start : NcRbTree) : System (NcRbTree × Set Addr) TreeOp where
  init s := s = (start, ∅)
  step s op s' := op.Admissible s.1 s.2 ∧ (∃ fuel, op.apply fuel s.1 = .ok s'.1) ∧
    s'.2 = op.members s.2

namespace NcRbTree

/-- **The invariant of all histories.** -/
structure Valid (t : NcRbTree) (xs : List Addr) : Prop where
  sentinel : t.SentinelBlack
  holds : ∃ top T n, Holds t top T ∧ RB .black n T ∧ T.labels = xs

theorem Valid.nodup {t : NcRbTree} {xs : List Addr} (valid : t.Valid xs) : xs.Nodup := by
  obtain ⟨top, T, n, holds, -, rfl⟩ := valid.holds
  exact holds.nodup

theorem Valid.real {t : NcRbTree} {xs : List Addr} (valid : t.Valid xs) :
    ∀ x ∈ xs, some x ≠ t.m_sentinel := by
  obtain ⟨top, T, n, holds, -, rfl⟩ := valid.holds
  exact holds.rep.real

theorem Valid.put {t : NcRbTree} {xs : List Addr} {x : Addr} (valid : t.Valid xs) (fresh : x ∉ xs)
    (real : some x ≠ t.m_sentinel) (f : RbNode → RbNode) : (t.put x f).Valid xs := by
  obtain ⟨top, T, n, holds, shape, rfl⟩ := valid.holds
  exact ⟨valid.sentinel.put_real real f, top, T, n, holds.put_outside fresh f, shape, rfl⟩

/-- **One insertion**: the node stands where the search ends. Without a sentinel the hole needs an
uncle where its parent is red. -/
theorem Valid.insert (fuel : Nat) {t : NcRbTree} {xs : List Addr} {x : Addr} (valid : t.Valid xs)
    (fresh : x ∉ xs) (real : some x ≠ t.m_sentinel) (enough : 2 * xs.length + 2 ≤ fuel) :
    ∃ top ctx, Holds t top (Ctx.plug ctx .nil) ∧ (∃ n, RB .black n (Ctx.plug ctx .nil)) ∧
      xs = Ctx.before ctx ++ Ctx.after ctx ∧
      Searched (fun y => (t.mem y).key) (t.mem x).key ctx ∧
      ((t.m_sentinel = none → UncleAtHole ctx) →
        ∃ t', t.insert fuel (some x) = .ok t' ∧
          t'.Valid (Ctx.before ctx ++ x :: Ctx.after ctx) ∧ Touches (x :: xs) t t') ∧
      (t.m_sentinel = none → ¬ UncleAtHole ctx → t.insert fuel (some x) = .error .nullDeref) := by
  obtain ⟨top, T, n, holds, shape, rfl⟩ := valid.holds
  have kept : ∀ {t' : NcRbTree}, Touches (x :: T.labels) t t' → t'.SentinelBlack := by
    intro t' frame
    refine valid.sentinel.touches frame fun z member => ?_
    rcases List.mem_cons.mp member with isX | inTree
    · rw [isX]
      exact real
    · exact holds.rep.real z inTree
  by_cases empty : T = .nil
  · subst empty
    have searched : Searched (fun y => (t.mem y).key) (t.mem x).key [] := fun f member =>
      absurd member List.not_mem_nil
    refine ⟨top, [], holds, ⟨n, shape⟩, rfl, searched, fun _ => ?_, fun _ noUncle => ?_⟩
    · obtain ⟨t', runs, holds', frame⟩ := insert_empty fuel holds real
      exact ⟨t', runs, ⟨kept frame, none, _, 1, holds', .black .nil .nil, rfl⟩, frame⟩
    · exact absurd (fun f g rest split => absurd split (List.cons_ne_nil _ _).symm) noUncle
  · obtain ⟨f, ctx, same, searched, inserts, faults⟩ :=
      insert_spec fuel holds shape valid.sentinel fresh real empty enough
    refine ⟨top, f :: ctx, same ▸ holds, ⟨n, same ▸ shape⟩, ?_, searched, fun uncle => ?_, faults⟩
    · rw [same, Ctx.labels_plug, CTree.labels_nil, List.nil_append]
    · obtain ⟨t', T', runs, holds', labels, ⟨m, shape'⟩, frame⟩ := inserts uncle
      exact ⟨t', runs, ⟨kept frame, top, T', m, holds', shape', labels⟩, frame⟩

/-- **One removal.** Without a sentinel the node taken out of its place needs a child. -/
theorem Valid.remove (fuel : Nat) {t : NcRbTree} {xs : List Addr} {x : Addr} (valid : t.Valid xs)
    (xIn : x ∈ xs) (readable : t.m_sentinel = none → t.HasChild (t.unlinked x xs))
    (enough : xs.length + 2 ≤ fuel) :
    ∃ t', t.remove fuel (some x) = .ok t' ∧ t'.Valid (t.afterRemove x xs) ∧
      Releases xs x t t' := by
  obtain ⟨top, T, n, holds, shape, rfl⟩ := valid.holds
  obtain ⟨t', top', T', runs, holds', labels, ⟨m, shape'⟩, frame⟩ :=
    remove_spec fuel enough holds shape valid.sentinel xIn readable
  exact ⟨t', runs, ⟨frame.black, top', T', m, holds', shape', labels⟩, frame⟩

/-- A removal takes exactly one node out. -/
theorem mem_afterRemove {t : NcRbTree} {x y : Addr} {xs : List Addr} (nodup : xs.Nodup)
    (xIn : x ∈ xs) : y ∈ t.afterRemove x xs ↔ y ∈ xs ∧ y ≠ x := by
  by_cases lacks : t.LacksChild x
  · rw [afterRemove, if_pos lacks, nodup.mem_erase_iff, and_comm]
  · rw [afterRemove, if_neg lacks]
    cases xs with
    | nil => cases xIn
    | cons m rest =>
        obtain ⟨mNotIn, -⟩ := List.nodup_cons.mp nodup
        rw [List.headD_cons, List.tail_cons, List.mem_map, List.mem_cons]
        constructor
        · rintro ⟨z, zIn, image⟩
          by_cases isX : z = x
          · rw [isX, Function.update_self] at image
            refine ⟨Or.inl image.symm, fun same => mNotIn ?_⟩
            rw [image, same, ← isX]
            exact zIn
          · rw [Function.update_of_ne isX] at image
            rw [← image]
            exact ⟨Or.inr zIn, isX⟩
        · rintro ⟨rfl | inRest, notX⟩
          · have xRest : x ∈ rest := (List.mem_cons.mp xIn).resolve_left (Ne.symm notX)
            exact ⟨x, xRest, Function.update_self _ _ _⟩
          · exact ⟨y, inRest, Function.update_of_ne notX _ _⟩

/-- **One operation on a tree with a sentinel** ends, and keeps the invariant. -/
theorem Valid.apply {t : NcRbTree} {xs : List Addr} {op : TreeOp} (valid : t.Valid xs)
    (admissible : op.Admissible t {x | x ∈ xs}) (sentinel : t.m_sentinel ≠ none) :
    ∃ fuel t' xs', op.apply fuel t = .ok t' ∧ t'.Valid xs' ∧ t'.m_sentinel = t.m_sentinel ∧
      {x | x ∈ xs'} = op.members {x | x ∈ xs} := by
  cases op with
  | insert x cell =>
      obtain ⟨fresh, real⟩ := admissible
      obtain ⟨top, ctx, -, -, rfl, -, inserts, -⟩ := (valid.put fresh real fun _ => cell).insert
        (2 * xs.length + 2) fresh real (le_refl _)
      obtain ⟨t', runs, valid', frame⟩ := inserts fun isNull => absurd isNull sentinel
      refine ⟨_, t', _, runs, valid', frame.sentinel, ?_⟩
      ext y
      simp only [TreeOp.members, Set.mem_ofPred_eq, Set.mem_insert_iff, List.mem_append,
        List.mem_cons]
      tauto
  | remove x =>
      obtain ⟨t', runs, valid', frame⟩ := valid.remove (xs.length + 2) admissible
        (fun isNull => absurd isNull sentinel) (le_refl _)
      refine ⟨_, t', _, runs, valid', frame.sentinel, ?_⟩
      ext y
      rw [Set.mem_ofPred_eq, mem_afterRemove valid.nodup admissible]
      rfl

/-- The tree built with a sentinel node is empty. -/
theorem valid_ofSentinel (mem : Addr → RbNode) (node : Addr) : (ofSentinel mem node).Valid [] where
  sentinel z isSentinel := by
    obtain rfl : node = z := Option.some.inj isSentinel
    have painted : (ofSentinel mem node).mem node = { mem node with color := .black } :=
      Function.update_self _ _ _
    rw [painted]
  holds := ⟨none, .nil, 0, ⟨rfl, trivial, List.nodup_nil⟩, .nil, rfl⟩

/-! ### Balance in memory -/

/-- **A balanced tree in memory with the nodes `S`.** -/
structure Balanced (t : NcRbTree) (S : Set Addr) : Prop where
  root_black : ∀ x, t.m_root = some x → (t.mem x).color = .black
  sentinel_black : ∀ z, t.m_sentinel = some z → (t.mem z).color = .black
  no_red_red : ∀ x ∈ S, (t.mem x).color = .red →
    ∀ d y, (t.mem x).child d = some y → (t.mem y).color = .black
  black_height : ∀ j k, BlackPath t.links t.m_sentinel t.m_root j →
    BlackPath t.links t.m_sentinel t.m_root k → j = k
  parent_of_child : ∀ x ∈ S, ∀ d y, (t.mem x).child d = some y → some y ≠ t.m_sentinel →
    (t.mem y).parent = some x
  child_of_parent : ∀ y ∈ S, t.m_root ≠ some y →
    ∃ x ∈ S, (t.mem y).parent = some x ∧ ∃ d, (t.mem x).child d = some y
  members : ∀ x, Reaches t.links t.m_sentinel t.m_root x ↔ x ∈ S

theorem Valid.balanced {t : NcRbTree} {xs : List Addr} (valid : t.Valid xs) :
    t.Balanced {x | x ∈ xs} := by
  obtain ⟨top, T, n, holds, shape, rfl⟩ := valid.holds
  have root := holds.root
  refine ⟨fun x isRoot => ?_, valid.sentinel, fun x xIn isRed d y toChild => ?_, fun j k first second => ?_,
    fun x xIn d y => holds.rep.parent_child x xIn d y, fun y yIn notRoot => ?_, fun x => ?_⟩
  · rw [root] at isRoot
    cases T with
    | nil => exact valid.sentinel x isRoot
    | node l c y r =>
        obtain rfl : y = x := Option.some.inj isRoot
        exact holds.rep.2.2.2.2.1.trans shape.color_eq
  · by_cases isLeaf : some y = t.m_sentinel
    · exact valid.sentinel y isLeaf.symm
    · exact holds.rep.no_red_red shape x xIn isRed d y toChild isLeaf
  · rw [root] at first second
    rw [holds.rep.blackPath shape first, holds.rep.blackPath shape second]
  · obtain ⟨ctx, l, c, r, same⟩ := Ctx.exists_plug_of_mem yIn
    have atY : Holds t top (Ctx.plug ctx (.mk .left l c y r)) := same ▸ holds
    cases ctx with
    | nil =>
        have isRoot := atY.root
        exact absurd isRoot notRoot
    | cons f ctx =>
        obtain ⟨-, above, -⟩ := holds_plug.mp atY
        refine ⟨f.label, ?_, atY.parent, f.side, ?_⟩
        · rw [Set.mem_ofPred_eq, same, Ctx.mem_labels_plug]
          exact Or.inl (Ctx.mem_labels_cons.mpr (Or.inl rfl))
        · rw [CTree.ptr_mk] at above
          exact above.2.1
  · rw [root]
    exact holds.rep.reaches_iff

/-- Every state of a history is valid. -/
theorem reach_valid {mem : Addr → RbNode} {node : Addr} {s : NcRbTree × Set Addr}
    (reached : (treeSystem (ofSentinel mem node)).Reach s) :
    s.1.m_sentinel = some node ∧ ∃ xs, s.1.Valid xs ∧ {x | x ∈ xs} = s.2 := by
  let I : NcRbTree × Set Addr → Prop := fun s =>
    s.1.m_sentinel = some node ∧ ∃ xs, s.1.Valid xs ∧ {x | x ∈ xs} = s.2
  refine reached.invariant (I := I) (fun s isStart => ?_) fun s op s' _ holds step => ?_
  · rw [show s = (ofSentinel mem node, ∅) from isStart]
    refine ⟨rfl, [], valid_ofSentinel mem node, ?_⟩
    ext x
    simp
  · obtain ⟨t, S⟩ := s
    obtain ⟨t', S'⟩ := s'
    obtain ⟨isSentinel, xs, valid, rfl⟩ := holds
    obtain ⟨admissible, ⟨fuel, runs⟩, rfl⟩ := step
    obtain ⟨more, t₁, xs', runs₁, valid', kept, members⟩ :=
      valid.apply admissible (by rw [isSentinel]; exact Option.some_ne_none node)
    obtain rfl : t' = t₁ := TreeOp.apply_unique runs runs₁
    exact ⟨kept.trans isSentinel, xs', valid', members⟩

/-- **Balance and membership, for every history of a tree with a sentinel.** -/
theorem balance_and_membership (mem : Addr → RbNode) (node : Addr) (t : NcRbTree) (S : Set Addr)
    (reached : (treeSystem (ofSentinel mem node)).Reach (t, S)) :
    t.m_sentinel = some node ∧ t.Balanced S ∧
      ∀ op : TreeOp, op.Admissible t S → ∃ fuel t', op.apply fuel t = .ok t' := by
  obtain ⟨isSentinel, xs, valid, rfl⟩ := reach_valid reached
  refine ⟨isSentinel, valid.balanced, fun op admissible => ?_⟩
  obtain ⟨fuel, t', -, runs, -⟩ :=
    valid.apply admissible (by rw [isSentinel]; exact Option.some_ne_none node)
  exact ⟨fuel, t', runs⟩

/-- A list of insertions that succeeds is a history, under any condition that admits those of them that
succeed. -/
theorem reach_inserts {t₀ : NcRbTree} {ok : NcRbTree × Set Addr → TreeOp → Prop}
    (keeps : ∀ s, (treeSystem t₀).Reach s → s.1.m_sentinel = t₀.m_sentinel)
    (admits : ∀ s x cell s', (treeSystem t₀).Reach s → (treeSystem t₀).step s (.insert x cell) s' →
      ok s (.insert x cell)) {fuel : Nat} (cells : List (Addr × RbNode)) {t t' : NcRbTree}
    {S : Set Addr} (reached : ((treeSystem t₀).guarded ok).Reach (t, S))
    (distinct : (cells.map Prod.fst).Nodup)
    (fresh : ∀ x ∈ cells.map Prod.fst, x ∉ S ∧ some x ≠ t₀.m_sentinel)
    (runs : TreeOp.run fuel (cells.map fun c => .insert c.1 c.2) t = .ok t') :
    ((treeSystem t₀).guarded ok).Reach (t', {x | x ∈ cells.map Prod.fst} ∪ S) := by
  induction cells generalizing t S with
  | nil =>
      obtain rfl := Except.ok.inj runs
      have same : {x | x ∈ ([] : List (Addr × RbNode)).map Prod.fst} ∪ S = S := by
        ext x
        simp
      rw [same]
      exact reached
  | cons c cells ih =>
      rw [List.map_cons, List.nodup_cons] at distinct
      simp only [List.map_cons, List.forall_mem_cons] at fresh
      obtain ⟨⟨cFresh, cReal⟩, restFresh⟩ := fresh
      rw [List.map_cons, TreeOp.run] at runs
      cases first : (TreeOp.insert c.1 c.2).apply fuel t with
      | error e =>
          rw [first] at runs
          cases runs
      | ok t₁ =>
          rw [first] at runs
          have real : some c.1 ≠ t.m_sentinel := by
            rw [keeps _ reached.of_guarded]
            exact cReal
          have step : (treeSystem t₀).step (t, S) (.insert c.1 c.2) (t₁, Insert.insert c.1 S) :=
            ⟨⟨cFresh, real⟩, ⟨fuel, first⟩, rfl⟩
          have next := reached.next (a := .insert c.1 c.2)
            ⟨admits _ _ _ _ reached.of_guarded step, step⟩
          have rest := ih next distinct.2 (fun x member => ⟨?_, (restFresh x member).2⟩) runs
          · have same : {x | x ∈ (c :: cells).map Prod.fst} ∪ S =
                {x | x ∈ cells.map Prod.fst} ∪ Insert.insert c.1 S := by
              ext x
              simp only [List.map_cons, List.mem_cons, Set.mem_union, Set.mem_ofPred_eq,
                Set.mem_insert_iff]
              tauto
            rw [same]
            exact rest
          · rw [Set.mem_insert_iff, not_or]
            exact ⟨fun same => distinct.1 (same ▸ member), (restFresh x member).1⟩

/-! ### A small tree -/

/-- Cells as their constructor leaves them. -/
def blank : Addr → RbNode := fun _ => .reset

/-- Five nodes with the keys `1` to `5`; the sentinel is the cell `0`. -/
def fiveNodes : List (Addr × RbNode) :=
  [1, 2, 3, 4, 5].map fun x => (x, { RbNode.reset with key := x })

/-- The tree after the insertion of the five nodes. -/
def fiveInserted : Except Fault NcRbTree :=
  TreeOp.run 12 (fiveNodes.map fun c => .insert c.1 c.2) (ofSentinel blank 0)

/-- The five insertions are a history of any guarded system that admits insertions. -/
theorem reach_fiveInserted (ok : NcRbTree × Set Addr → TreeOp → Prop)
    (admits : ∀ s x cell, ok s (.insert x cell)) {t : NcRbTree} (inserted : fiveInserted = .ok t) :
    ((treeSystem (ofSentinel blank 0)).guarded ok).Reach (t, {x | x ∈ [1, 2, 3, 4, 5]} ∪ ∅) := by
  refine reach_inserts (fun s reached => (reach_valid reached).1) (fun s x cell _ _ _ => admits s x cell)
    fiveNodes (.start rfl) (by decide) ?_ inserted
  intro x member
  refine ⟨Set.notMem_empty x, ?_⟩
  rintro same
  cases same
  exact absurd member (by decide)

/-- **Balance and membership after five insertions.** -/
theorem balance_of_fiveInserted : ∃ t, fiveInserted = .ok t ∧
    t.Balanced ({x | x ∈ [1, 2, 3, 4, 5]} ∪ ∅) := by
  obtain ⟨t, inserted, -⟩ : Ends fiveInserted fun _ => True := by decide +kernel
  have reached := (reach_fiveInserted (fun _ _ => True) (fun _ _ _ => trivial)
    inserted).of_guarded
  exact ⟨t, inserted, (balance_and_membership blank 0 t _ reached).2.1⟩

end NcRbTree

end Nutcracker
