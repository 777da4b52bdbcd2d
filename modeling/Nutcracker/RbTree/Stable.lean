/-
**Insertion, node by node.**

The order of the keys leaves open where a node goes among those with its own key. The search of
`insert` turns right at an equal key, so the new node comes last among them: nodes with equal keys
stand in the order of their insertion, and `min` takes them out in that order.

* `insert_stable` — **one insertion into any ordered red-black tree with a sentinel** ends, keeps
  the tree balanced and ordered, and puts the node right behind the last key that is not larger.
* `inserts_stable` — the same for any list of insertions: the nodes with one key are the old ones,
  then the inserted ones in their order.
-/

import Nutcracker.RbTree.Order

namespace Nutcracker

open Lib

namespace NcRbTree

/-! ### The nodes with one key -/

/-- The nodes of a sequence that have the key `k`, in order. -/
def nodesWith (t : NcRbTree) (k : Int) (xs : List Addr) : List Addr :=
  xs.filter fun y => (t.mem y).key = k

theorem nodesWith_congr {t t' : NcRbTree} (k : Int) {xs : List Addr}
    (same : ∀ x ∈ xs, (t'.mem x).key = (t.mem x).key) : t'.nodesWith k xs = t.nodesWith k xs := by
  refine List.filter_congr fun x member => ?_
  rw [same x member]

@[simp] theorem nodesWith_append (t : NcRbTree) (k : Int) (xs ys : List Addr) :
    t.nodesWith k (xs ++ ys) = t.nodesWith k xs ++ t.nodesWith k ys :=
  List.filter_append _ _

theorem nodesWith_cons (t : NcRbTree) (k : Int) (x : Addr) (xs : List Addr) :
    t.nodesWith k (x :: xs) = (if (t.mem x).key = k then [x] else []) ++ t.nodesWith k xs := by
  by_cases same : (t.mem x).key = k
  · simp [nodesWith, same]
  · simp [nodesWith, same]

/-- No node of a sequence with larger keys has the key `k`. -/
theorem nodesWith_of_larger {t : NcRbTree} {k : Int} {xs : List Addr}
    (larger : ∀ x ∈ xs, k < (t.mem x).key) : t.nodesWith k xs = [] := by
  refine List.filter_eq_nil_iff.mpr fun x member => ?_
  have notSame := (larger x member).ne'
  simp [notSame]

/-- **A node in front of the larger keys comes last among its own.** -/
theorem nodesWith_insert {t : NcRbTree} (k : Int) {x : Addr} {u v : List Addr}
    (larger : ∀ y ∈ v, (t.mem x).key < (t.mem y).key) :
    t.nodesWith k (u ++ x :: v) =
      t.nodesWith k (u ++ v) ++ if (t.mem x).key = k then [x] else [] := by
  rw [nodesWith_append, nodesWith_append, nodesWith_cons]
  by_cases same : (t.mem x).key = k
  · have noneAfter : t.nodesWith k v = [] := nodesWith_of_larger (same ▸ larger)
    rw [noneAfter, List.append_nil, List.append_nil]
  · rw [if_neg same, List.nil_append, List.append_nil]

/-! ### One insertion -/

/-- **Insertion**: it ends; the tree is again balanced and ordered; the node stands right behind the
last one whose key is not larger, and last among those with its own key. -/
theorem insert_stable (t : NcRbTree) (xs : List Addr) (x : Addr) (valid : t.Valid xs)
    (ordered : t.Ordered) (sentinel : t.m_sentinel ≠ none) (fresh : x ∉ xs)
    (real : some x ≠ t.m_sentinel) :
    ∃ fuel t' u v, t.insert fuel (some x) = .ok t' ∧ xs = u ++ v ∧
      (∀ y ∈ u, (t.mem y).key ≤ (t.mem x).key) ∧ (∀ y ∈ v, (t.mem x).key < (t.mem y).key) ∧
      t'.Valid (u ++ x :: v) ∧ t'.Balanced {y | y ∈ u ++ x :: v} ∧ t'.Ordered ∧
      (∀ y, (t'.mem y).key = (t.mem y).key) ∧
      ∀ k, t'.nodesWith k (u ++ x :: v) =
        t.nodesWith k xs ++ if (t.mem x).key = k then [x] else [] := by
  obtain ⟨t', u, v, runs, rfl, valid', frame, smaller, larger⟩ :=
    valid.insert_at ordered fresh real sentinel
  refine ⟨_, t', u, v, runs, rfl, smaller, larger, valid', valid'.balanced, ?_, frame.key, ?_⟩
  · intro ys sequence
    obtain rfl := valid'.sequence_unique sequence
    exact frame.keysOf_pairwise (ordered _ valid.sequence) smaller larger
  · intro k
    rw [nodesWith_congr k fun y _ => frame.key y, nodesWith_insert k larger]

/-- **A second node with the key 3** in the tree of five nodes: it hangs below the first one, which is
red, so the tree is rebalanced, and it stands right behind the first. -/
theorem insert_stable_twins : ∃ t fuel t' xs, fiveInserted = .ok t ∧ (t.mem 3).color = .red ∧
    (t.put 6 fun node => { node with key := 3 }).insert fuel (some 6) = .ok t' ∧ t'.Sequence xs ∧
      t'.nodesWith 3 xs = [3, 6] := by
  obtain ⟨t, inserted, sentinel, valid, keys, -, red⟩ := fiveInserted_spec
  have fresh : 6 ∉ [1, 2, 3, 4, 5] := by decide
  have real : some 6 ≠ t.m_sentinel := by
    rw [sentinel]
    decide
  have ordered : t.Ordered := by
    intro ys sequence
    rw [valid.sequence_unique sequence, keys]
    decide
  have sameKeys : (t.put 6 fun node => { node with key := 3 }).nodesWith 3 [1, 2, 3, 4, 5] = [3] := by
    have others : ∀ x ∈ [1, 2, 3, 4, 5], ((t.put 6 fun node => { node with key := 3 }).mem x).key =
        (t.mem x).key := by
      intro x member
      have notSix : x ≠ 6 := fun same => fresh (same ▸ member)
      rw [put_of_ne _ _ _ notSix]
    rw [nodesWith_congr 3 others]
    simp only [keysOf, List.map_cons, List.map_nil, List.cons.injEq] at keys
    obtain ⟨one, two, three, four, five, -⟩ := keys
    simp [nodesWith, one, two, three, four, five]
  obtain ⟨fuel, t', u, v, runs, -, -, -, valid', -, -, -, twins⟩ :=
    insert_stable (t.put 6 fun node => { node with key := 3 }) [1, 2, 3, 4, 5] 6
      (valid.put fresh real _) (valid.put_ordered ordered fresh real _)
      (by rw [put_sentinel, sentinel]; exact Option.some_ne_none 0) fresh real
  refine ⟨t, fuel, t', u ++ 6 :: v, inserted, red, runs, valid'.sequence, ?_⟩
  rw [twins, sameKeys, put_self]
  rfl

/-! ### Any list of insertions -/

/-- **Nodes with equal keys stay in the order of their insertion.** -/
theorem inserts_stable (fuel : Nat) (cells : List (Addr × RbNode)) (t : NcRbTree) (xs : List Addr)
    (enough : 2 * (xs.length + cells.length) + 2 ≤ fuel) (valid : t.Valid xs) (ordered : t.Ordered)
    (sentinel : t.m_sentinel ≠ none) (distinct : (cells.map Prod.fst).Nodup)
    (fresh : ∀ x ∈ cells.map Prod.fst, x ∉ xs ∧ some x ≠ t.m_sentinel) :
    ∃ t' xs', TreeOp.run fuel (cells.map fun c => .insert c.1 c.2) t = .ok t' ∧
      t'.Valid xs' ∧ t'.Ordered ∧
      ∀ k, t'.nodesWith k xs' =
        t.nodesWith k xs ++ (cells.filter fun c => c.2.key = k).map Prod.fst := by
  induction cells generalizing t xs with
  | nil => exact ⟨t, xs, rfl, valid, ordered, fun k => by simp⟩
  | cons c cells ih =>
      obtain ⟨x, cell⟩ := c
      rw [List.map_cons, List.nodup_cons] at distinct
      obtain ⟨notLater, distinct⟩ := distinct
      simp only [List.map_cons, List.forall_mem_cons] at fresh
      obtain ⟨⟨xFresh, xReal⟩, laterFresh⟩ := fresh
      rw [List.length_cons] at enough
      have validPut := valid.put xFresh xReal fun _ => cell
      have orderedPut := valid.put_ordered ordered xFresh xReal fun _ => cell
      obtain ⟨t₁, u, v, first, rfl, valid₁, frame, smaller, larger⟩ :=
        validPut.insert_at orderedPut xFresh xReal sentinel
      have step : (TreeOp.insert x cell).apply fuel t = .ok t₁ :=
        (insert_mono (by omega)).of_ok first
      have ordered₁ : t₁.Ordered := by
        intro ys sequence
        obtain rfl := valid₁.sequence_unique sequence
        exact frame.keysOf_pairwise (orderedPut _ validPut.sequence) smaller larger
      have sentinel₁ : t₁.m_sentinel ≠ none := by
        rw [frame.sentinel]
        exact sentinel
      have length₁ : (u ++ x :: v).length = (u ++ v).length + 1 := by
        simp only [List.length_append, List.length_cons]
        omega
      have fresh₁ : ∀ y ∈ cells.map Prod.fst, y ∉ u ++ x :: v ∧ some y ≠ t₁.m_sentinel := by
        intro y later
        obtain ⟨notIn, notSentinel⟩ := laterFresh y later
        have notX : y ≠ x := fun same => notLater (same ▸ later)
        rw [frame.sentinel]
        refine ⟨fun member => ?_, notSentinel⟩
        rw [List.mem_append, List.mem_cons] at member
        rw [List.mem_append] at notIn
        tauto
      obtain ⟨t', xs', runs, valid', ordered', classes⟩ :=
        ih t₁ (u ++ x :: v) (by omega) valid₁ ordered₁ sentinel₁ distinct fresh₁
      refine ⟨t', xs', ?_, valid', ordered', fun k => ?_⟩
      · rw [List.map_cons, TreeOp.run, step]
        exact runs
      · have unchanged : (t.put x fun _ => cell).nodesWith k (u ++ v) = t.nodesWith k (u ++ v) := by
          refine nodesWith_congr k fun y member => ?_
          have notX : y ≠ x := fun same => xFresh (same ▸ member)
          rw [put_of_ne _ _ _ notX]
        rw [classes k, nodesWith_congr k fun y _ => frame.key y, nodesWith_insert k larger,
          unchanged, put_self, List.append_assoc, List.filter_cons]
        by_cases same : cell.key = k
        · simp [same]
        · simp [same]

end NcRbTree

end Nutcracker
