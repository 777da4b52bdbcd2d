/-
**Histories of a tree: the order of the keys.**

Insertion keeps the keys in order, since the search ends between the keys that are smaller and those
that are not. Removal does not: for a node with two children the code takes the first node of the
*whole tree*, not of the right subtree, and puts it in the removed node's place. The order survives
exactly when the removed node lacks a child or when every node before it has the least key
(`InPlace`).

* `Searched.split`, `Valid.insert_at` — where the search ends in an ordered tree.
* `Valid.insert_kept` — insertion keeps the order, for any ordered tree.
* `Valid.remove_kept_iff` — **one removal keeps the order if and only if it is in place**.
* `order_of_runs` — in every history whose removals are in place the keys are ordered, `min` returns
  a least key, and each next operation adds or deletes exactly its key if and only if it is in place.
* `remove_breaks_order` — five insertions and one removal after which the keys are out of order and
  `min` misses the least one.
-/

import Nutcracker.RbTree.History
import Mathlib.Data.List.Pairwise

namespace Nutcracker

open Lib

namespace NcRbTree

/-! ### The in-order sequence and its keys -/

/-- The nodes of the tree in order. -/
def Sequence (t : NcRbTree) (xs : List Addr) : Prop := InOrder t.links t.m_sentinel t.m_root xs

/-- The keys of a sequence of nodes. -/
def keysOf (t : NcRbTree) (xs : List Addr) : List Int := xs.map fun x => (t.mem x).key

/-- The keys are in non-decreasing order. -/
def Ordered (t : NcRbTree) : Prop := ∀ xs, t.Sequence xs → (t.keysOf xs).Pairwise (· ≤ ·)

/-- `min` returns a node with a least key of the nodes `S`, or `NULL` if there is none. -/
def MinLeast (t : NcRbTree) (S : Set Addr) : Prop :=
  ∃ fuel p, t.min fuel = .ok p ∧ (p = none ↔ S = ∅) ∧
    ∀ x, p = some x → x ∈ S ∧ ∀ y ∈ S, (t.mem x).key ≤ (t.mem y).key

/-- **What an operation should do to the keys**: they are in order, and exactly the inserted key is
new or exactly the removed node is gone. -/
def OrderKept (t : NcRbTree) (op : TreeOp) (t' : NcRbTree) : Prop :=
  ∀ xs xs', t.Sequence xs → t'.Sequence xs' →
    (t'.keysOf xs').Pairwise (· ≤ ·) ∧ match op with
    | .insert _ cell => ∃ u v, xs = u ++ v ∧
        t'.keysOf xs' = t.keysOf u ++ cell.key :: t.keysOf v
    | .remove x => ∃ u v, xs = u ++ x :: v ∧ t'.keysOf xs' = t.keysOf u ++ t.keysOf v

/-- **Where the code's choice of a replacement is harmless**: the removed node lacks a child, or
every node before it has the least key. -/
def InPlace (t : NcRbTree) : TreeOp → Prop
  | .insert _ _ => True
  | .remove x => t.LacksChild x ∨
      ∀ u v, t.Sequence (u ++ x :: v) → ∀ y ∈ u, ∀ z ∈ u ++ x :: v, (t.mem y).key ≤ (t.mem z).key

theorem Valid.sequence {t : NcRbTree} {xs : List Addr} (valid : t.Valid xs) : t.Sequence xs := by
  obtain ⟨top, T, n, holds, -, rfl⟩ := valid.holds
  rw [Sequence, holds.root]
  exact holds.rep.inOrder

theorem Valid.sequence_unique {t : NcRbTree} {xs ys : List Addr} (valid : t.Valid xs)
    (sequence : t.Sequence ys) : ys = xs :=
  sequence.unique valid.sequence

theorem keysOf_congr {t t' : NcRbTree} {xs : List Addr}
    (same : ∀ x ∈ xs, (t'.mem x).key = (t.mem x).key) : t'.keysOf xs = t.keysOf xs :=
  List.map_congr_left same

@[simp] theorem keysOf_append (t : NcRbTree) (xs ys : List Addr) :
    t.keysOf (xs ++ ys) = t.keysOf xs ++ t.keysOf ys :=
  List.map_append

@[simp] theorem keysOf_cons (t : NcRbTree) (x : Addr) (xs : List Addr) :
    t.keysOf (x :: xs) = (t.mem x).key :: t.keysOf xs := rfl

/-! ### Insertion -/

/-- **Where the search ends**: not before a smaller key, not after a larger one. -/
theorem Searched.split {key : Addr → Int} {k : Int} {ctx : Ctx Addr} (searched : Searched key k ctx)
    (sorted : ((Ctx.before ctx ++ Ctx.after ctx).map key).Pairwise (· ≤ ·)) :
    (∀ y ∈ Ctx.before ctx, key y ≤ k) ∧ ∀ y ∈ Ctx.after ctx, k < key y := by
  induction ctx with
  | nil => exact ⟨fun y member => absurd member List.not_mem_nil,
      fun y member => absurd member List.not_mem_nil⟩
  | cons f ctx ih =>
      have outer : Searched key k ctx := fun g member => searched g (List.mem_cons_of_mem _ member)
      have here := searched f List.mem_cons_self
      obtain ⟨side, c, x, other⟩ := f
      cases side with
      | left =>
          simp only at here
          simp only [Ctx.before, Ctx.after] at sorted ⊢
          have sortedOuter : ((Ctx.before ctx ++ Ctx.after ctx).map key).Pairwise (· ≤ ·) := by
            refine sorted.sublist (List.Sublist.map key ?_)
            refine (List.Sublist.refl _).append ?_
            exact (List.sublist_append_right _ _)
          obtain ⟨inBefore, inAfter⟩ := ih outer sortedOuter
          refine ⟨inBefore, fun y member => ?_⟩
          rw [List.map_append, List.pairwise_append] at sorted
          have fromX := sorted.2.1
          rw [List.cons_append, List.map_cons, List.pairwise_cons] at fromX
          rw [List.cons_append, List.mem_cons] at member
          rcases member with rfl | member
          · exact here
          · exact here.trans_le (fromX.1 (key y) (List.mem_map_of_mem member))
      | right =>
          simp only at here
          simp only [Ctx.before, Ctx.after] at sorted ⊢
          have sortedOuter : ((Ctx.before ctx ++ Ctx.after ctx).map key).Pairwise (· ≤ ·) := by
            refine sorted.sublist (List.Sublist.map key ?_)
            exact (List.sublist_append_left _ _).append (List.Sublist.refl _)
          obtain ⟨inBefore, inAfter⟩ := ih outer sortedOuter
          refine ⟨fun y member => ?_, inAfter⟩
          rw [List.append_assoc, List.map_append, List.pairwise_append] at sorted
          rcases List.mem_append.mp member with outside | inside
          · exact inBefore y outside
          · rw [List.map_append, List.pairwise_append] at sorted
            have toX := sorted.2.1.1
            rw [List.map_append, List.pairwise_append] at toX
            rcases List.mem_append.mp inside with inOther | isX
            · exact (toX.2.2 (key y) (List.mem_map_of_mem inOther) (key x) (by simp)).trans here
            · rw [List.mem_singleton.mp isX]
              exact here

/-- **Where an insertion puts its node**: behind the keys that are not larger, before the larger. -/
theorem Valid.insert_at {t : NcRbTree} {xs : List Addr} {x : Addr} (valid : t.Valid xs)
    (ordered : t.Ordered) (fresh : x ∉ xs) (real : some x ≠ t.m_sentinel)
    (sentinel : t.m_sentinel ≠ none) :
    ∃ t' u v, t.insert (2 * xs.length + 2) (some x) = .ok t' ∧ xs = u ++ v ∧
      t'.Valid (u ++ x :: v) ∧ Touches (x :: xs) t t' ∧
        (∀ y ∈ u, (t.mem y).key ≤ (t.mem x).key) ∧ ∀ y ∈ v, (t.mem x).key < (t.mem y).key := by
  obtain ⟨top, ctx, -, -, rfl, searched, inserts, -⟩ :=
    valid.insert (2 * xs.length + 2) fresh real (le_refl _)
  obtain ⟨t', runs, valid', frame⟩ := inserts fun isNull => absurd isNull sentinel
  have sorted : (t.keysOf (Ctx.before ctx ++ Ctx.after ctx)).Pairwise (· ≤ ·) :=
    ordered _ valid.sequence
  obtain ⟨smaller, larger⟩ := searched.split sorted
  exact ⟨t', Ctx.before ctx, Ctx.after ctx, runs, rfl, valid', frame, smaller, larger⟩

/-- A node put between the smaller and the larger keys keeps them in order. -/
theorem Touches.keysOf_pairwise {t t' : NcRbTree} {x : Addr} {xs u v : List Addr}
    (frame : Touches xs t t') (sorted : (t.keysOf (u ++ v)).Pairwise (· ≤ ·))
    (smaller : ∀ y ∈ u, (t.mem y).key ≤ (t.mem x).key)
    (larger : ∀ y ∈ v, (t.mem x).key < (t.mem y).key) :
    (t'.keysOf (u ++ x :: v)).Pairwise (· ≤ ·) := by
  rw [keysOf_congr fun y _ => frame.key y, keysOf_append, keysOf_cons]
  rw [keysOf_append, List.pairwise_append] at sorted
  obtain ⟨sortedBefore, sortedAfter, apart⟩ := sorted
  rw [List.pairwise_append, List.pairwise_cons]
  refine ⟨sortedBefore, ⟨fun k member => ?_, sortedAfter⟩, fun k member k' member' => ?_⟩
  · obtain ⟨y, yIn, rfl⟩ := List.mem_map.mp member
    exact (larger y yIn).le
  · rcases List.mem_cons.mp member' with rfl | inAfter
    · obtain ⟨y, yIn, rfl⟩ := List.mem_map.mp member
      exact smaller y yIn
    · exact apart k member k' inAfter

/-- Writes to a node outside the tree do not touch the order. -/
theorem Valid.put_ordered {t : NcRbTree} {xs : List Addr} {x : Addr} (valid : t.Valid xs)
    (ordered : t.Ordered) (fresh : x ∉ xs) (real : some x ≠ t.m_sentinel) (f : RbNode → RbNode) :
    (t.put x f).Ordered := by
  intro ys sequence
  obtain rfl := (valid.put fresh real f).sequence_unique sequence
  rw [keysOf_congr (t := t)]
  · exact ordered _ valid.sequence
  · intro y member
    have notX : y ≠ x := fun same => fresh (same ▸ member)
    rw [put_of_ne _ _ _ notX]

/-- **Insertion keeps the order.** -/
theorem Valid.insert_kept {t t' : NcRbTree} {xs : List Addr} {x : Addr} {cell : RbNode} {fuel : Nat}
    (valid : t.Valid xs) (ordered : t.Ordered) (fresh : x ∉ xs) (real : some x ≠ t.m_sentinel)
    (sentinel : t.m_sentinel ≠ none) (runs : (TreeOp.insert x cell).apply fuel t = .ok t') :
    t.OrderKept (.insert x cell) t' := by
  have validPut := valid.put fresh real fun _ => cell
  have orderedPut := valid.put_ordered ordered fresh real fun _ => cell
  obtain ⟨t₁, u, v, runs₁, rfl, valid', frame, smaller, larger⟩ :=
    validPut.insert_at orderedPut fresh real sentinel
  obtain rfl : t' = t₁ := TreeOp.apply_unique runs runs₁
  have keys : ∀ y ∈ u ++ v, (t'.mem y).key = (t.mem y).key := by
    intro y member
    have notX : y ≠ x := fun same => fresh (same ▸ member)
    rw [frame.key y, put_of_ne _ _ _ notX]
  have keyX : (t'.mem x).key = cell.key := by
    rw [frame.key x, put_self]
  have after : t'.keysOf (u ++ x :: v) = t.keysOf u ++ cell.key :: t.keysOf v := by
    rw [keysOf_append, keysOf_cons, keyX,
      keysOf_congr fun y member => keys y (List.mem_append_left _ member),
      keysOf_congr fun y member => keys y (List.mem_append_right _ member)]
  have sorted := frame.keysOf_pairwise (orderedPut _ validPut.sequence) smaller larger
  intro ys ys' sequence sequence'
  obtain rfl := valid.sequence_unique sequence
  obtain rfl := valid'.sequence_unique sequence'
  exact ⟨sorted, u, v, rfl, after⟩

/-! ### Removal -/

/-- Moving the first entry of a list behind the others changes nothing only if all are equal. -/
theorem append_singleton_eq_cons {α : Type} {a : α} {l : List α} :
    l ++ [a] = a :: l ↔ ∀ b ∈ l, b = a := by
  induction l with
  | nil => simp
  | cons b l ih =>
      rw [List.cons_append, List.cons.injEq, List.forall_mem_cons]
      constructor
      · rintro ⟨rfl, rest⟩
        exact ⟨rfl, ih.mp rest⟩
      · rintro ⟨rfl, rest⟩
        exact ⟨rfl, ih.mpr rest⟩

/-- The first node of a valid tree has no left child. -/
theorem Valid.head_lacks {t : NcRbTree} {m : Addr} {xs : List Addr} (valid : t.Valid (m :: xs)) :
    t.LacksChild m := by
  obtain ⟨top, T, n, holds, -, labels⟩ := valid.holds
  have nonempty : T ≠ .nil := by
    rintro rfl
    cases labels
  obtain ⟨ctx, c, m', B, -, same, lefts⟩ :=
    descendTo_spec .left T.labels.length holds.rep nonempty (le_refl _)
  have isFirst : m' = m := by
    rw [same, Ctx.labels_plug, Ctx.before_of_lefts lefts] at labels
    exact (List.cons.inj labels).1
  subst isFirst
  exact Or.inl (same ▸ holds : Holds t top (Ctx.plug ctx (.mk .left .nil c m' B))).child_near

/-- The sequence after a removal, by the place of the removed node. -/
theorem Valid.afterRemove_split {t : NcRbTree} {x : Addr} {u v : List Addr}
    (valid : t.Valid (u ++ x :: v)) :
    (t.LacksChild x ∧ t.afterRemove x (u ++ x :: v) = u ++ v) ∨
      (¬ t.LacksChild x ∧ ∃ m w, u = m :: w ∧ t.afterRemove x (u ++ x :: v) = w ++ m :: v) := by
  have nodup := valid.nodup
  have notU : x ∉ u := fun member =>
    (List.nodup_append'.mp nodup).2.2 member List.mem_cons_self
  by_cases lacks : t.LacksChild x
  · refine Or.inl ⟨lacks, ?_⟩
    rw [afterRemove, if_pos lacks, List.erase_append_right _ notU, List.erase_cons_head]
  · refine Or.inr ⟨lacks, ?_⟩
    cases u with
    | nil => exact absurd valid.head_lacks lacks
    | cons m w =>
        refine ⟨m, w, rfl, ?_⟩
        rw [afterRemove, if_neg lacks, List.cons_append, List.headD_cons, List.tail_cons,
          List.map_append, List.map_cons, Function.update_self]
        have fixed : ∀ {l : List Addr}, x ∉ l → l.map (Function.update id x m) = l := by
          intro l notIn
          have same : ∀ y ∈ l, Function.update id x m y = id y := by
            intro y member
            have notX : y ≠ x := fun equal => notIn (equal ▸ member)
            exact Function.update_of_ne notX m id
          rw [List.map_congr_left same, List.map_id]
        have notV : x ∉ v := (List.nodup_cons.mp (List.nodup_append'.mp nodup).2.1).1
        rw [fixed fun member => notU (List.mem_cons_of_mem _ member), fixed notV]

/-- **One removal keeps the order if and only if it is in place.** -/
theorem Valid.remove_kept_iff {t t' : NcRbTree} {xs : List Addr} {x : Addr} {fuel : Nat}
    (valid : t.Valid xs) (ordered : t.Ordered) (xIn : x ∈ xs) (sentinel : t.m_sentinel ≠ none)
    (runs : (TreeOp.remove x).apply fuel t = .ok t') :
    t.OrderKept (.remove x) t' ↔ t.InPlace (.remove x) := by
  obtain ⟨t₁, runs₁, valid', frame⟩ := valid.remove (xs.length + 2) xIn
    (fun isNull => absurd isNull sentinel) (le_refl _)
  obtain rfl : t' = t₁ := TreeOp.apply_unique runs runs₁
  obtain ⟨u, v, rfl⟩ := List.append_of_mem xIn
  have nodup := valid.nodup
  have keys : t'.keysOf (t.afterRemove x (u ++ x :: v)) =
      t.keysOf (t.afterRemove x (u ++ x :: v)) := by
    refine keysOf_congr fun y member => frame.key y ?_
    exact ((mem_afterRemove nodup xIn).mp member).2
  have sorted : (t.keysOf (u ++ x :: v)).Pairwise (· ≤ ·) := ordered _ valid.sequence
  have sortedRest : (t.keysOf u ++ t.keysOf v).Pairwise (· ≤ ·) := by
    rw [keysOf_append, keysOf_cons] at sorted
    exact sorted.sublist ((List.Sublist.refl _).append (List.sublist_cons_self _ _))
  have place : ∀ {u' v' : List Addr}, u ++ x :: v = u' ++ x :: v' → u = u' ∧ v = v' := by
    intro u' v' same
    have notU : x ∉ u := fun member =>
      (List.nodup_append'.mp nodup).2.2 member List.mem_cons_self
    have notV : x ∉ v := (List.nodup_cons.mp (List.nodup_append'.mp nodup).2.1).1
    obtain ⟨before, -, after⟩ := (List.append_cons_inj_of_notMem notU notV).mp same
    exact ⟨before, after⟩
  -- both sides say that the keys are those of `u` and `v`
  have exact_iff : t.OrderKept (.remove x) t' ↔
      t.keysOf (t.afterRemove x (u ++ x :: v)) = t.keysOf u ++ t.keysOf v := by
    constructor
    · intro kept
      obtain ⟨-, u', v', same, exactly⟩ := kept _ _ valid.sequence valid'.sequence
      obtain ⟨rfl, rfl⟩ := place same
      rw [← keys, exactly]
    · intro exactly ys ys' sequence sequence'
      obtain rfl := valid.sequence_unique sequence
      obtain rfl := valid'.sequence_unique sequence'
      rw [keys, exactly]
      exact ⟨sortedRest, u, v, rfl, rfl⟩
  rw [exact_iff]
  rcases valid.afterRemove_split with ⟨lacks, sequence⟩ | ⟨lacks, m, w, rfl, sequence⟩
  · rw [sequence, keysOf_append]
    exact ⟨fun _ => Or.inl lacks, fun _ => rfl⟩
  · have rotated : t.keysOf (w ++ m :: v) = t.keysOf (m :: w) ++ t.keysOf v ↔
        ∀ b ∈ t.keysOf w, b = (t.mem m).key := by
      rw [keysOf_append, keysOf_cons, keysOf_cons, List.append_cons, List.append_left_inj,
        append_singleton_eq_cons]
    have least : ∀ z ∈ (m :: w) ++ x :: v, (t.mem m).key ≤ (t.mem z).key := by
      intro z member
      rcases List.mem_cons.mp member with rfl | inRest
      · exact le_refl _
      · rw [List.cons_append, keysOf_cons, List.pairwise_cons] at sorted
        exact sorted.1 _ (List.mem_map_of_mem inRest)
    rw [sequence, rotated]
    constructor
    · intro equal
      refine Or.inr fun u' v' before y yIn z zIn => ?_
      obtain ⟨rfl, rfl⟩ := place (valid.sequence_unique before).symm
      have isLeast : (t.mem y).key = (t.mem m).key := by
        rcases List.mem_cons.mp yIn with rfl | inW
        · rfl
        · exact equal _ (List.mem_map_of_mem inW)
      rw [isLeast]
      exact least z zIn
    · rintro (impossible | inPlace) b member
      · exact absurd impossible lacks
      · obtain ⟨y, yIn, rfl⟩ := List.mem_map.mp member
        have yBefore : y ∈ m :: w := List.mem_cons_of_mem _ yIn
        refine le_antisymm ?_ (least y (List.mem_append_left _ yBefore))
        exact inPlace _ _ valid.sequence y yBefore m List.mem_cons_self

/-! ### Runs -/

/-- In an ordered tree `min` returns a least node. -/
theorem Valid.minLeast {t : NcRbTree} {xs : List Addr} (valid : t.Valid xs) (ordered : t.Ordered) :
    t.MinLeast {x | x ∈ xs} := by
  have sorted := ordered _ valid.sequence
  have runs : t.min xs.length = .ok xs.head? := by
    obtain ⟨top, T, n, holds, -, rfl⟩ := valid.holds
    exact min_spec _ holds (le_refl _)
  refine ⟨xs.length, xs.head?, runs, ?_, fun x isFirst => ?_⟩
  · rw [List.head?_eq_none_iff]
    constructor
    · rintro rfl
      ext x
      simp
    · intro isEmpty
      refine List.eq_nil_iff_forall_not_mem.mpr fun x member => ?_
      have inEmpty : x ∈ (∅ : Set Addr) := isEmpty ▸ (show x ∈ {x | x ∈ xs} from member)
      exact inEmpty
  · obtain ⟨rest, rfl⟩ := List.head?_eq_some_iff.mp isFirst
    refine ⟨List.mem_cons_self, fun y member => ?_⟩
    rcases List.mem_cons.mp member with rfl | inRest
    · exact le_refl _
    · rw [keysOf_cons, List.pairwise_cons] at sorted
      exact sorted.1 _ (List.mem_map_of_mem inRest)

/-- The operation keeps the order if and only if it is in place. -/
theorem Valid.kept_iff {t t' : NcRbTree} {xs : List Addr} {op : TreeOp} {fuel : Nat}
    (valid : t.Valid xs) (ordered : t.Ordered) (admissible : op.Admissible t {x | x ∈ xs})
    (sentinel : t.m_sentinel ≠ none) (runs : op.apply fuel t = .ok t') :
    t.OrderKept op t' ↔ t.InPlace op := by
  cases op with
  | insert x cell =>
      have kept := valid.insert_kept ordered admissible.1 admissible.2 sentinel runs
      exact ⟨fun _ => trivial, fun _ => kept⟩
  | remove x => exact valid.remove_kept_iff ordered admissible sentinel runs

/-- **The order of the keys, in every history whose removals are in place.** -/
theorem order_of_runs (mem : Addr → RbNode) (node : Addr) (t : NcRbTree) (S : Set Addr)
    (reached : ((treeSystem (ofSentinel mem node)).guarded fun s op => s.1.InPlace op).Reach (t, S)) :
    t.Ordered ∧ t.MinLeast S ∧
      ∀ (op : TreeOp) (t' : NcRbTree) (fuel : Nat), op.Admissible t S → op.apply fuel t = .ok t' →
        (t.OrderKept op t' ↔ t.InPlace op) := by
  have ordered : t.Ordered := by
    refine reached.invariant (I := fun s => s.1.Ordered) (fun s isStart => ?_)
      fun s op s' before ordered step => ?_
    · rw [show s = (ofSentinel mem node, ∅) from isStart]
      intro xs sequence
      obtain rfl := (valid_ofSentinel mem node).sequence_unique sequence
      exact List.Pairwise.nil
    · obtain ⟨inPlace, admissible, ⟨fuel, runs⟩, -⟩ := step
      obtain ⟨isSentinel, xs, valid, members⟩ := reach_valid before.of_guarded
      rw [← members] at admissible
      have sentinel : s.1.m_sentinel ≠ none := by
        rw [isSentinel]
        exact Option.some_ne_none node
      have kept := (valid.kept_iff ordered admissible sentinel runs).mpr inPlace
      intro ys sequence
      exact (kept xs ys valid.sequence sequence).1
  obtain ⟨isSentinel, xs, valid, rfl⟩ := reach_valid reached.of_guarded
  have sentinel : t.m_sentinel ≠ none := by
    rw [isSentinel]
    exact Option.some_ne_none node
  exact ⟨ordered, valid.minLeast ordered, fun op t' fuel admissible runs =>
    valid.kept_iff ordered admissible sentinel runs⟩

/-- The tree of the five nodes: the root is the node `2`, and the node `3` is red. -/
theorem fiveInserted_spec : ∃ t, fiveInserted = .ok t ∧ t.m_sentinel = some 0 ∧
    t.Valid [1, 2, 3, 4, 5] ∧ t.keysOf [1, 2, 3, 4, 5] = [1, 2, 3, 4, 5] ∧ ¬ t.LacksChild 2 ∧
      (t.mem 3).color = .red := by
  obtain ⟨t, inserted, before, keys, both, red⟩ : Ends fiveInserted fun t =>
      walk t.links t.m_sentinel 6 t.m_root = some [1, 2, 3, 4, 5] ∧
        t.keysOf [1, 2, 3, 4, 5] = [1, 2, 3, 4, 5] ∧ ¬ t.LacksChild 2 ∧
          (t.mem 3).color = .red := by
    decide +kernel
  have reached := (reach_fiveInserted (fun _ _ => True) (fun _ _ _ => trivial)
    inserted).of_guarded
  obtain ⟨isSentinel, xs, valid, -⟩ := reach_valid reached
  obtain rfl := valid.sequence_unique (InOrder.of_walk before)
  exact ⟨t, inserted, isSentinel, valid, keys, both, red⟩

/-- The keys are in order after five insertions and the removal of the root: it has two children, and
the node `1` takes its place. -/
theorem order_of_rootRemoved : ∃ t t', fiveInserted = .ok t ∧ t.remove 12 (some 2) = .ok t' ∧
    ¬ t.LacksChild 2 ∧ t'.Ordered ∧ t'.MinLeast (({x | x ∈ [1, 2, 3, 4, 5]} ∪ ∅) \ {2}) := by
  obtain ⟨t, inserted, -, valid, keys, both, -⟩ := fiveInserted_spec
  obtain ⟨t₁, same, t', removed, -⟩ : Ends fiveInserted fun t =>
      Ends (t.remove 12 (some 2)) fun _ => True := by
    decide +kernel
  obtain rfl : t = t₁ := Except.ok.inj (inserted.symm.trans same)
  simp only [keysOf, List.map_cons, List.map_nil, List.cons.injEq] at keys
  have inPlace : t.InPlace (.remove 2) := by
    refine Or.inr fun u v sequence => ?_
    have split := valid.sequence_unique sequence
    have first : u = [1] := by
      rcases u with _ | ⟨a, _ | ⟨b, u⟩⟩
      · simp at split
      · simp only [List.cons_append, List.nil_append, List.cons.injEq] at split
        rw [split.1]
      · have member : 2 ∈ u ++ 2 :: v := List.mem_append_right _ List.mem_cons_self
        simp only [List.cons_append, List.cons.injEq] at split
        rw [split.2.2] at member
        exact absurd member (by decide)
    rw [first] at split ⊢
    intro y least z inTree
    rw [List.mem_singleton.mp least]
    rw [split] at inTree
    simp only [List.mem_cons, List.not_mem_nil, or_false] at inTree
    rcases inTree with rfl | rfl | rfl | rfl | rfl <;> omega
  have reached := reach_fiveInserted (fun s op => s.1.InPlace op) (fun _ _ _ => trivial) inserted
  obtain ⟨ordered, least, -⟩ := order_of_runs blank 0 t' _
    (reached.next (a := .remove 2) ⟨inPlace, Or.inl (by decide), ⟨12, removed⟩, rfl⟩)
  exact ⟨t, t', inserted, removed, both, ordered, least⟩

/-- **A removal that breaks the order**: the node `4` has the children `3` and `5`, and the code
puts the node `1` in its place. The keys become `2, 3, 1, 5`, and `min` returns the node `2`. -/
theorem remove_breaks_order : ∃ t S t' fuel,
    (treeSystem (ofSentinel blank 0)).Reach (t, S) ∧ (TreeOp.remove 4).Admissible t S ∧
      (TreeOp.remove 4).apply fuel t = .ok t' ∧ ¬ t.OrderKept (.remove 4) t' ∧
        ¬ t'.Ordered ∧ ¬ t'.MinLeast (S \ {4}) := by
  obtain ⟨t, inserted, before, t', removed, after, keys, first⟩ : Ends fiveInserted fun t =>
      walk t.links t.m_sentinel 6 t.m_root = some [1, 2, 3, 4, 5] ∧
        Ends (t.remove 12 (some 4)) fun t' =>
          walk t'.links t'.m_sentinel 6 t'.m_root = some [2, 3, 1, 5] ∧
            t'.keysOf [2, 3, 1, 5] = [2, 3, 1, 5] ∧ t'.min 6 = .ok (some 2) := by
    decide +kernel
  have reached := (reach_fiveInserted (fun _ _ => True) (fun _ _ _ => trivial)
    inserted).of_guarded
  have broken : ¬ t'.Ordered := by
    intro ordered
    have sorted := ordered _ (InOrder.of_walk after)
    rw [keys] at sorted
    revert sorted
    decide
  refine ⟨t, _, t', 12, reached, ?_, removed, ?_, broken, ?_⟩
  · exact Or.inl (by decide)
  · intro kept
    refine broken fun xs sequence => ?_
    exact (kept _ _ (InOrder.of_walk before) sequence).1
  · rintro ⟨fuel, p, runs, -, least⟩
    have isFirst : p = some 2 := by
      have one := (min_mono (t := t') (le_max_left fuel 6)).of_ok runs
      have two := (min_mono (t := t') (le_max_right fuel 6)).of_ok first
      exact Except.ok.inj (one.symm.trans two)
    have smaller := (least 2 isFirst).2 1 ⟨Or.inl (by decide), by decide⟩
    simp only [keysOf, List.map_cons, List.map_nil, List.cons.injEq] at keys
    omega

end NcRbTree

end Nutcracker
