/-
**What a tree object holds, and what a rotation does to it.**

`Holds t top T` — the cells of `t` hold the tree `T` (`top` is the parent link of the root, which no
operation relies on). `Touches xs t t'` — `t'` differs from `t` only in the links of the cells
`xs`: the frame of an operation.

* `hang_spec`, `relink_spec` — hanging another node where `node` hangs.
* `rotate_spec` — **a rotation at any place of any tree** turns `mk d a x (mk d b y e)` into
  `mk d (mk d a x b) y e` and changes nothing else. Both rotations of the source are instances, and
  the in-order sequence stays (`CTree.labels_rotate`).
* `setColor_spec` — painting one node.
-/

import Nutcracker.RbTree.Model

namespace Nutcracker

open Lib

namespace NcRbTree

/-- The links of all cells. -/
def links (t : NcRbTree) : Addr → Links Addr := fun x => (t.mem x).toLinks

/-- **The tree object holds a tree.** -/
structure Holds (t : NcRbTree) (top : Ptr) (T : CTree Addr) : Prop where
  root : t.m_root = T.ptr t.m_sentinel
  rep : Rep t.links t.m_sentinel top T
  nodup : T.labels.Nodup

/-- **Frame of an operation**: only links of the cells `xs` changed. -/
structure Touches (xs : List Addr) (t t' : NcRbTree) : Prop where
  sentinel : t'.m_sentinel = t.m_sentinel
  outside : ∀ z, z ∉ xs → t'.mem z = t.mem z
  key : ∀ z, (t'.mem z).key = (t.mem z).key

namespace Touches

variable {xs ys : List Addr} {t t' t'' : NcRbTree}

theorem refl : Touches xs t t := ⟨rfl, fun _ _ => rfl, fun _ => rfl⟩

theorem trans (first : Touches xs t t') (second : Touches xs t' t'') : Touches xs t t'' where
  sentinel := second.sentinel.trans first.sentinel
  outside z notIn := (second.outside z notIn).trans (first.outside z notIn)
  key z := (second.key z).trans (first.key z)

instance (xs : List Addr) : Trans (Touches xs) (Touches xs) (Touches xs) := ⟨trans⟩

theorem mono (inner : Touches xs t t') (sub : ∀ x ∈ xs, x ∈ ys) : Touches ys t t' where
  sentinel := inner.sentinel
  outside z notIn := inner.outside z fun member => notIn (sub z member)
  key := inner.key

theorem links_eq (frame : Touches xs t t') {z : Addr} (notIn : z ∉ xs) :
    t'.links z = t.links z := by
  show (t'.mem z).toLinks = (t.mem z).toLinks
  rw [frame.outside z notIn]

/-- A write that keeps the key touches its own cell only. -/
theorem put {x : Addr} {f : RbNode → RbNode} (keeps : ∀ node, (f node).key = node.key)
    (member : x ∈ xs) : Touches xs t (t.put x f) where
  sentinel := rfl
  outside z notIn := t.put_of_ne x f fun same => notIn (same ▸ member)
  key z := by
    by_cases same : z = x
    · rw [same, put_self, keeps]
    · rw [put_of_ne _ _ _ same]

end Touches

theorem holds_plug {t : NcRbTree} {top : Ptr} {ctx : Ctx Addr} {T : CTree Addr} :
    Holds t top (Ctx.plug ctx T) ↔
      t.m_root = Ctx.root (T.ptr t.m_sentinel) ctx ∧
        RepCtx t.links t.m_sentinel top (T.ptr t.m_sentinel) ctx ∧
        Rep t.links t.m_sentinel (Ctx.parent top ctx) T ∧ (Ctx.labels ctx).Nodup ∧
        T.labels.Nodup ∧ List.Disjoint T.labels (Ctx.labels ctx) := by
  constructor
  · rintro ⟨root, rep, nodup⟩
    rw [ptr_plug] at root
    rw [rep_plug] at rep
    exact ⟨root, rep.1, rep.2, Ctx.nodup_labels_plug.mp nodup⟩
  · rintro ⟨root, above, here, nodup⟩
    exact ⟨by rw [ptr_plug, root], rep_plug.mpr ⟨above, here⟩, Ctx.nodup_labels_plug.mpr nodup⟩

section Reading

variable {t : NcRbTree} {top : Ptr} {ctx : Ctx Addr} {d : Dir} {near far : CTree Addr} {c : Color}
  {x : Addr}

theorem Holds.real (holds : Holds t top (Ctx.plug ctx (.mk d near c x far))) :
    some x ≠ t.m_sentinel :=
  (rep_mk.mp (holds_plug.mp holds).2.2.1).1

theorem Holds.child_near (holds : Holds t top (Ctx.plug ctx (.mk d near c x far))) :
    (t.mem x).child d = near.ptr t.m_sentinel :=
  (rep_mk.mp (holds_plug.mp holds).2.2.1).2.1

theorem Holds.child_far (holds : Holds t top (Ctx.plug ctx (.mk d near c x far))) :
    (t.mem x).child d.opp = far.ptr t.m_sentinel :=
  (rep_mk.mp (holds_plug.mp holds).2.2.1).2.2.1

theorem Holds.parent (holds : Holds t top (Ctx.plug ctx (.mk d near c x far))) :
    (t.mem x).parent = Ctx.parent top ctx :=
  (rep_mk.mp (holds_plug.mp holds).2.2.1).2.2.2.1

theorem Holds.color (holds : Holds t top (Ctx.plug ctx (.mk d near c x far))) :
    (t.mem x).color = c :=
  (rep_mk.mp (holds_plug.mp holds).2.2.1).2.2.2.2.1

theorem Holds.mem (holds : Holds t top (Ctx.plug ctx (.mk d near c x far))) :
    x ∉ near.labels ∧ x ∉ far.labels ∧ x ∉ Ctx.labels ctx := by
  obtain ⟨-, -, -, -, nodup, apart⟩ := holds_plug.mp holds
  obtain ⟨-, -, notNear, notFar, -⟩ := CTree.nodup_labels_mk.mp nodup
  exact ⟨notNear, notFar, apart (CTree.mem_labels_mk.mpr (Or.inr (Or.inl rfl)))⟩

/-- A node below another one is not the root. -/
theorem Holds.ne_root {f : Frame Addr}
    (holds : Holds t top (Ctx.plug (f :: ctx) (.mk d near c x far))) : some x ≠ t.m_root := by
  rw [(holds_plug.mp holds).1]
  exact Ctx.root_ne holds.mem.2.2

end Reading

theorem holds_ptr_ne {t : NcRbTree} {top : Ptr} {T : CTree Addr} (holds : Holds t top T)
    (nonempty : T ≠ .nil) : t.m_root ≠ t.m_sentinel := by
  rw [holds.root]
  cases T with
  | nil => exact absurd rfl nonempty
  | node l c x r => exact holds.rep.1

/-! ### Hanging another node in the same place -/

/-- **`hang`**: both comparisons end in a write to the side that `node` is on. -/
theorem hang_spec {t : NcRbTree} {top : Ptr} {f : Frame Addr} {ctx : Ctx Addr} {x : Addr} (d : Dir)
    (temp : Ptr) (above : RepCtx t.links t.m_sentinel top (some x) (f :: ctx))
    (parent : (t.mem x).parent = some f.label) (outside : x ∉ Ctx.labels (f :: ctx))
    (real : some x ≠ t.m_sentinel) :
    t.hang d (some x) temp = .ok (t.put f.label (RbNode.withChild f.side temp)) := by
  have toHole : (t.mem f.label).child f.side = some x := above.2.1
  have toOther : (t.mem f.label).child f.side.opp = f.other.ptr t.m_sentinel := above.2.2.1
  have notOther : x ∉ f.other.labels := fun inOther =>
    outside (Ctx.mem_labels_cons.mpr (Or.inr (Or.inl inOther)))
  simp only [hang, parent_some, ok_bind, parent, child_some]
  rcases Dir.eq_or_eq_opp d f.side with same | other
  · rw [← same, toHole, if_pos rfl, setChild_some]
  · have opposite : d = f.side.opp := by rw [other, Dir.opp_opp]
    rw [opposite, toOther, if_neg fun same => CTree.ptr_ne notOther real same.symm, Dir.opp_opp,
      setChild_some]

/-- **`relink`**: whatever `node`'s place is, the pointer there becomes `temp`. -/
theorem relink_spec {t : NcRbTree} {top : Ptr} {ctx : Ctx Addr} {x : Addr} (d : Dir) (temp : Ptr)
    (root : t.m_root = Ctx.root (some x) ctx)
    (above : RepCtx t.links t.m_sentinel top (some x) ctx)
    (parent : (t.mem x).parent = Ctx.parent top ctx) (outside : x ∉ Ctx.labels ctx)
    (real : some x ≠ t.m_sentinel) (nodup : (Ctx.labels ctx).Nodup) :
    ∃ t', t.relink d (some x) temp = .ok t' ∧ t'.m_root = Ctx.root temp ctx ∧
      RepCtx t'.links t.m_sentinel top temp ctx ∧ Touches (Ctx.labels ctx) t t' := by
  cases ctx with
  | nil =>
      refine ⟨{ t with m_root := temp }, ?_, rfl, trivial, ⟨rfl, fun _ _ => rfl, fun _ => rfl⟩⟩
      have atRoot : some x = t.m_root := root.symm
      rw [relink, if_pos atRoot]
  | cons f ctx =>
      have notRoot : some x ≠ t.m_root := by
        rw [root]
        exact Ctx.root_ne outside
      have member : f.label ∈ Ctx.labels (f :: ctx) := Ctx.mem_labels_cons.mpr (Or.inl rfl)
      refine ⟨t.put f.label (RbNode.withChild f.side temp), ?_, root, ?_, .put (fun _ => rfl) member⟩
      · rw [relink, if_neg notRoot]
        exact hang_spec d temp above parent outside real
      · refine above.relink nodup ?_ fun y _ different => ?_
        · simp only [links, put_self, RbNode.toLinks_withChild]
        · simp only [links, put_of_ne _ _ _ different]

/-- **`adopt`**: a subtree gets a new parent. -/
theorem adopt_spec {t : NcRbTree} {par : Ptr} {b : CTree Addr} (q : Ptr)
    (rep : Rep t.links t.m_sentinel par b) (nodup : b.labels.Nodup) :
    ∃ t', t.adopt (b.ptr t.m_sentinel) q = .ok t' ∧ t'.m_root = t.m_root ∧
      Rep t'.links t.m_sentinel q b ∧ Touches b.labels t t' := by
  cases b with
  | nil => exact ⟨t, if_neg (not_not.mpr rfl), rfl, trivial, .refl⟩
  | node l c x r =>
      have real : some x ≠ t.m_sentinel := rep.real x (by simp)
      refine ⟨t.put x (RbNode.withParent q), if_pos real, rfl, ?_, .put (fun _ => rfl) (by simp)⟩
      refine rep.reparent nodup (fun z isRoot _ => ?_) fun z _ notRoot => ?_
      · rw [CTree.ptr_node, Option.some.injEq] at isRoot
        subst isRoot
        simp only [links, put_self, RbNode.toLinks_withParent]
      · have different : z ≠ x := fun same => notRoot (by rw [CTree.ptr_node, same])
        simp only [links, put_of_ne _ _ _ different]

/-! ### Rotations -/

/-- The two nodes of a rotation, the three subtrees and the context have no node in common. -/
structure Apart (ctx : Ctx Addr) (a b e : CTree Addr) (x y : Addr) : Prop where
  nodes : x ≠ y
  xCtx : x ∉ Ctx.labels ctx
  yCtx : y ∉ Ctx.labels ctx
  xSub : x ∉ a.labels ∧ x ∉ b.labels ∧ x ∉ e.labels
  ySub : y ∉ a.labels ∧ y ∉ b.labels ∧ y ∉ e.labels
  aCtx : ∀ z ∈ a.labels, z ∉ Ctx.labels ctx
  bCtx : ∀ z ∈ b.labels, z ∉ Ctx.labels ctx
  eCtx : ∀ z ∈ e.labels, z ∉ Ctx.labels ctx
  aB : ∀ z ∈ a.labels, z ∉ b.labels
  eB : ∀ z ∈ e.labels, z ∉ b.labels
  distinct : b.labels.Nodup

theorem Holds.apart {t : NcRbTree} {top : Ptr} {ctx : Ctx Addr} {d : Dir} {a b e : CTree Addr}
    {cx cy : Color} {x y : Addr}
    (holds : Holds t top (Ctx.plug ctx (.mk d a cx x (.mk d b cy y e)))) : Apart ctx a b e x y := by
  obtain ⟨-, -, -, -, nodupHere, apart⟩ := holds_plug.mp holds
  obtain ⟨-, nodupY, xNotA, xNotY, apartAY⟩ := CTree.nodup_labels_mk.mp nodupHere
  obtain ⟨nodupB, -, yNotB, yNotE, apartBE⟩ := CTree.nodup_labels_mk.mp nodupY
  have inY {z : Addr} (member : z ∈ b.labels ∨ z = y ∨ z ∈ e.labels) :
      z ∈ (CTree.mk d b cy y e).labels := CTree.mem_labels_mk.mpr member
  have below {z : Addr} (member : z ∈ (CTree.mk d b cy y e).labels) : z ∉ Ctx.labels ctx :=
    apart (CTree.mem_labels_mk.mpr (Or.inr (Or.inr member)))
  exact {
    nodes := fun same => xNotY (inY (Or.inr (Or.inl same)))
    xCtx := apart (CTree.mem_labels_mk.mpr (Or.inr (Or.inl rfl)))
    yCtx := below (inY (Or.inr (Or.inl rfl)))
    xSub := ⟨xNotA, fun member => xNotY (inY (Or.inl member)),
      fun member => xNotY (inY (Or.inr (Or.inr member)))⟩
    ySub := ⟨fun member => apartAY member (inY (Or.inr (Or.inl rfl))), yNotB, yNotE⟩
    aCtx := fun z member => apart (CTree.mem_labels_mk.mpr (Or.inl member))
    bCtx := fun z member => below (inY (Or.inl member))
    eCtx := fun z member => below (inY (Or.inr (Or.inr member)))
    aB := fun z member inB => apartAY member (inY (Or.inl inB))
    eB := fun z member inB => apartBE inB member
    distinct := nodupB }

/-- **What a rotation writes**: the two nodes, the parent of the subtree that changes sides, and the
pointer to the upper node. -/
structure Rotated (d : Dir) (top : Ptr) (ctx : Ctx Addr) (b : CTree Addr) (x y : Addr)
    (t t' : NcRbTree) : Prop where
  sentinel : t'.m_sentinel = t.m_sentinel
  root : t'.m_root = Ctx.root (some y) ctx
  above : RepCtx t'.links t.m_sentinel top (some y) ctx
  lower : t'.mem x = ((t.mem x).withChild d.opp (b.ptr t.m_sentinel)).withParent (some y)
  upper : t'.mem y = ((t.mem y).withParent (Ctx.parent top ctx)).withChild d (some x)
  moved : Rep t'.links t.m_sentinel (some x) b
  others : ∀ z, z ≠ x → z ≠ y → z ∉ b.labels → z ∉ Ctx.labels ctx → t'.mem z = t.mem z
  keys : ∀ z, (t'.mem z).key = (t.mem z).key

/-- **`rotate` step by step.** -/
theorem rotate_run {t : NcRbTree} {top : Ptr} {ctx : Ctx Addr} {d : Dir} {a b e : CTree Addr}
    {cx cy : Color} {x y : Addr}
    (holds : Holds t top (Ctx.plug ctx (.mk d a cx x (.mk d b cy y e)))) :
    ∃ t', t.rotate d (some x) = .ok t' ∧ Rotated d top ctx b x y t t' := by
  have apart := holds.apart
  obtain ⟨root, above, here, nodupCtx, -, -⟩ := holds_plug.mp holds
  obtain ⟨realX, -, xFar, xParent, -, -, inY⟩ := rep_mk.mp here
  obtain ⟨-, yNear, -, -, -, inB, -⟩ := rep_mk.mp inY
  rw [CTree.ptr_mk] at xFar
  -- the inner subtree moves below `x`
  let t₁ := t.put x (RbNode.withChild d.opp (b.ptr t.m_sentinel))
  have inB₁ : Rep t₁.links t₁.m_sentinel (some y) b := inB.congr fun z member => by
    have different : z ≠ x := fun same => apart.xSub.2.1 (same ▸ member)
    simp only [t₁, links, put_of_ne _ _ _ different]
  obtain ⟨t₂, adopted, t₂Root, movedB, t₂Frame⟩ := adopt_spec (some x) inB₁ apart.distinct
  have t₂X : t₂.mem x = (t.mem x).withChild d.opp (b.ptr t.m_sentinel) := by
    rw [t₂Frame.outside x apart.xSub.2.1]
    exact put_self _ _ _
  have t₂Y : t₂.mem y = t.mem y := by
    rw [t₂Frame.outside y apart.ySub.2.1]
    exact put_of_ne _ _ _ apart.nodes.symm
  have t₂Else : ∀ z, z ≠ x → z ∉ b.labels → t₂.mem z = t.mem z := fun z notX notB =>
    (t₂Frame.outside z notB).trans (put_of_ne _ _ _ notX)
  -- the node `y` moves up, into the place of `x`
  let t₃ := t₂.put y (RbNode.withParent (Ctx.parent top ctx))
  have t₃X : t₃.mem x = (t.mem x).withChild d.opp (b.ptr t.m_sentinel) :=
    (put_of_ne _ _ _ apart.nodes).trans t₂X
  have t₃Y : t₃.mem y = (t.mem y).withParent (Ctx.parent top ctx) := by
    rw [← t₂Y]
    exact put_self _ _ _
  have t₃Parent : (t₃.mem x).parent = Ctx.parent top ctx := by
    rw [t₃X]
    exact (Links.parent_setChild _ _ _).trans xParent
  have t₃Sentinel : t₃.m_sentinel = t.m_sentinel := t₂Frame.sentinel
  have t₃Root : t₃.m_root = Ctx.root (some x) ctx := by
    rw [CTree.ptr_mk] at root
    exact t₂Root.trans root
  have t₃Above : RepCtx t₃.links t₃.m_sentinel top (some x) ctx := by
    rw [CTree.ptr_mk] at above
    rw [t₃Sentinel]
    refine above.congr fun z member => ?_
    have notX : z ≠ x := fun same => apart.xCtx (same ▸ member)
    have notY : z ≠ y := fun same => apart.yCtx (same ▸ member)
    have same : t₃.mem z = t.mem z :=
      (put_of_ne _ _ _ notY).trans (t₂Else z notX fun inB => apart.bCtx z inB member)
    simp only [links, same]
  obtain ⟨t₄, relinked, t₄Root, t₄Above, t₄Frame⟩ := relink_spec d (some y) t₃Root t₃Above t₃Parent
    apart.xCtx (t₃Sentinel ▸ realX) nodupCtx
  -- `x` becomes the child of `y`
  let t₅ := t₄.put y (RbNode.withChild d (some x))
  let t₆ := t₅.put x (RbNode.withParent (some y))
  have runs : t.rotate d (some x) = .ok t₆ := by
    have toY : (t.mem x).child d.opp = some y := xFar
    have toB : (t.mem y).child d = b.ptr t.m_sentinel := yNear
    have toB₁ : ((t.put x (RbNode.withChild d.opp (b.ptr t.m_sentinel))).mem y).child d =
        b.ptr t.m_sentinel := by
      rw [put_of_ne _ _ _ apart.nodes.symm, toB]
    have parent₂ : (t₂.mem x).parent = Ctx.parent top ctx := by
      rw [t₂X]
      exact (Links.parent_setChild _ _ _).trans xParent
    simp only [rotate, reduceCtorEq, if_false, child_some, ok_bind, toY, toB, setChild_some, toB₁]
    simp only [t₁] at adopted
    rw [put_sentinel] at adopted
    simp only [adopted, ok_bind, parent_some, parent₂, setParent_some]
    simp only [t₃] at relinked
    simp only [relinked, ok_bind]
    rfl
  have t₆Else : ∀ z, z ≠ x → z ≠ y → t₆.mem z = t₄.mem z := fun z notX notY =>
    (put_of_ne _ _ _ notX).trans (put_of_ne _ _ _ notY)
  have t₆Inner : ∀ z, z ≠ x → z ≠ y → z ∉ Ctx.labels ctx → t₆.mem z = t₂.mem z :=
    fun z notX notY notCtx =>
      (t₆Else z notX notY).trans ((t₄Frame.outside z notCtx).trans (put_of_ne _ _ _ notY))
  refine ⟨t₆, runs, {
    sentinel := t₄Frame.sentinel.trans t₃Sentinel
    root := t₄Root
    above := ?_
    lower := ?_
    upper := ?_
    moved := movedB.congr fun z member => ?_
    others := fun z notX notY notB notCtx => (t₆Inner z notX notY notCtx).trans (t₂Else z notX notB)
    keys := fun z => ?_ }⟩
  · rw [t₃Sentinel] at t₄Above
    refine t₄Above.congr fun z member => ?_
    have same := t₆Else z (fun same => apart.xCtx (same ▸ member))
      fun same => apart.yCtx (same ▸ member)
    simp only [links, same]
  · have t₅X : t₅.mem x = t₃.mem x :=
      (put_of_ne _ _ _ apart.nodes).trans (t₄Frame.outside x apart.xCtx)
    rw [← t₃X, ← t₅X]
    exact put_self _ _ _
  · rw [← t₃Y, ← t₄Frame.outside y apart.yCtx]
    exact (put_of_ne _ _ _ apart.nodes.symm).trans (put_self _ _ _)
  · have notX : z ≠ x := fun same => apart.xSub.2.1 (same ▸ member)
    have notY : z ≠ y := fun same => apart.ySub.2.1 (same ▸ member)
    simp only [links, t₆Inner z notX notY (apart.bCtx z member)]
  · have keeps {u : NcRbTree} {w : Addr} {f : RbNode → RbNode}
        (keeps : ∀ node, (f node).key = node.key) : ((u.put w f).mem z).key = (u.mem z).key := by
      have touched : Touches [w] u (u.put w f) := .put keeps List.mem_cons_self
      exact touched.key z
    calc (t₆.mem z).key = (t₅.mem z).key := keeps fun _ => rfl
      _ = (t₄.mem z).key := keeps fun _ => rfl
      _ = (t₃.mem z).key := t₄Frame.key z
      _ = (t₂.mem z).key := keeps fun _ => rfl
      _ = (t₁.mem z).key := t₂Frame.key z
      _ = (t.mem z).key := keeps fun _ => rfl

/-- The nodes that are written are in the tree. -/
theorem Rotated.touches {t t' : NcRbTree} {top : Ptr} {ctx : Ctx Addr} {d : Dir}
    {a b e : CTree Addr} {cx cy : Color} {x y : Addr} (rotated : Rotated d top ctx b x y t t') :
    Touches (Ctx.plug ctx (.mk d a cx x (.mk d b cy y e))).labels t t' where
  sentinel := rotated.sentinel
  outside z notIn := by
    rw [Ctx.mem_labels_plug, CTree.mem_labels_mk, CTree.mem_labels_mk] at notIn
    simp only [not_or] at notIn
    obtain ⟨notCtx, -, notX, notB, notY, -⟩ := notIn
    exact rotated.others z notX notY notB notCtx
  key := rotated.keys

/-- **A rotation at any place of any tree.** -/
theorem rotate_spec {t : NcRbTree} {top : Ptr} {ctx : Ctx Addr} {d : Dir} {a b e : CTree Addr}
    {cx cy : Color} {x y : Addr}
    (holds : Holds t top (Ctx.plug ctx (.mk d a cx x (.mk d b cy y e)))) :
    ∃ t', t.rotate d (some x) = .ok t' ∧
      Holds t' top (Ctx.plug ctx (.mk d (.mk d a cx x b) cy y e)) ∧
      Touches (Ctx.plug ctx (.mk d a cx x (.mk d b cy y e))).labels t t' := by
  have apart := holds.apart
  obtain ⟨t', runs, rotated⟩ := rotate_run holds
  obtain ⟨-, -, here, nodupCtx, nodupHere, outside⟩ := holds_plug.mp holds
  obtain ⟨realX, xNear, -, -, xColor, inA, inY⟩ := rep_mk.mp here
  obtain ⟨realY, -, yFar, -, yColor, -, inE⟩ := rep_mk.mp inY
  have keepA : Rep t'.links t.m_sentinel (some x) a := inA.congr fun z member => by
    have notX : z ≠ x := fun same => apart.xSub.1 (same ▸ member)
    have notY : z ≠ y := fun same => apart.ySub.1 (same ▸ member)
    simp only [links, rotated.others z notX notY (apart.aB z member) (apart.aCtx z member)]
  have keepE : Rep t'.links t.m_sentinel (some y) e := inE.congr fun z member => by
    have notX : z ≠ x := fun same => apart.xSub.2.2 (same ▸ member)
    have notY : z ≠ y := fun same => apart.ySub.2.2 (same ▸ member)
    simp only [links, rotated.others z notX notY (apart.eB z member) (apart.eCtx z member)]
  refine ⟨t', runs, holds_plug.mpr ⟨?_, ?_, ?_, nodupCtx, ?_, ?_⟩, rotated.touches⟩
  · rw [CTree.ptr_mk]
    exact rotated.root
  · rw [CTree.ptr_mk, rotated.sentinel]
    exact rotated.above
  · rw [rotated.sentinel]
    have linksX : t'.links x =
        { (t.links x).setChild d.opp (b.ptr t.m_sentinel) with parent := some y } := by
      simp only [links, rotated.lower, RbNode.toLinks_withParent, RbNode.toLinks_withChild]
    have linksY : t'.links y =
        { t.links y with parent := Ctx.parent top ctx }.setChild d (some x) := by
      simp only [links, rotated.upper, RbNode.toLinks_withParent, RbNode.toLinks_withChild]
    refine rep_mk.mpr ⟨realY, ?_, ?_, ?_, ?_,
      rep_mk.mpr ⟨realX, ?_, ?_, ?_, ?_, keepA, rotated.moved⟩, keepE⟩
    · rw [linksY, Links.child_setChild_self, CTree.ptr_mk]
    · rw [linksY, Links.child_setChild_opp, Links.child_setParent, yFar]
    · rw [linksY, Links.parent_setChild]
    · rw [linksY, Links.color_setChild, yColor]
    · rw [linksX, Links.child_setParent, Links.child_opp_setChild, xNear]
    · rw [linksX, Links.child_setParent, Links.child_setChild_self]
    · rw [linksX]
    · rw [linksX, Links.color_setChild, xColor]
  · rw [CTree.labels_rotate d a b e cx cy cx cy]
    exact nodupHere
  · rw [CTree.labels_rotate d a b e cx cy cx cy]
    exact outside

/-- **Painting one node.** -/
theorem setColor_spec {t : NcRbTree} {top : Ptr} {ctx : Ctx Addr} {d : Dir} {near far : CTree Addr}
    {c : Color} {x : Addr} (c' : Color)
    (holds : Holds t top (Ctx.plug ctx (.mk d near c x far))) :
    ∃ t', t.setColor (some x) c' = .ok t' ∧ Holds t' top (Ctx.plug ctx (.mk d near c' x far)) ∧
      Touches (Ctx.plug ctx (.mk d near c x far)).labels t t' := by
  obtain ⟨root, above, here, nodupCtx, nodupHere, apart⟩ := holds_plug.mp holds
  have xIn : x ∈ (CTree.mk d near c x far).labels := CTree.mem_labels_mk.mpr (Or.inr (Or.inl rfl))
  have sameLabels : (CTree.mk d near c' x far).labels = (CTree.mk d near c x far).labels := by
    cases d <;> rfl
  refine ⟨_, setColor_some _ _ _, holds_plug.mpr ⟨?_, ?_, ?_, nodupCtx, ?_, ?_⟩,
    .put (fun _ => rfl) (Ctx.mem_labels_plug.mpr (Or.inr xIn))⟩
  · rw [CTree.ptr_mk] at root ⊢
    exact root
  · rw [CTree.ptr_mk] at above ⊢
    refine above.congr fun z member => ?_
    have different : z ≠ x := fun same => apart xIn (same ▸ member)
    simp only [links, put_of_ne _ _ _ different]
  · refine here.recolor nodupHere ?_ fun z _ different => ?_
    · simp only [links, put_self, RbNode.toLinks_withColor]
    · simp only [links, put_of_ne _ _ _ different]
  · rw [sameLabels]
    exact nodupHere
  · rw [sameLabels]
    exact apart

/-- Painting the root of a nonempty subtree black. -/
theorem blacken_spec {t : NcRbTree} {top : Ptr} {ctx : Ctx Addr} {T : CTree Addr}
    (holds : Holds t top (Ctx.plug ctx T)) (nonempty : T ≠ .nil) :
    ∃ t', t.setColor (T.ptr t.m_sentinel) .black = .ok t' ∧
      Holds t' top (Ctx.plug ctx T.blacken) ∧ Touches (Ctx.plug ctx T).labels t t' := by
  obtain ⟨l, c, x, r, rfl⟩ := T.exists_mk .left nonempty
  rw [CTree.ptr_mk, CTree.blacken_mk]
  exact setColor_spec .black holds

/-- **Frame rule** for the whole tree. -/
theorem Holds.congr {t t' : NcRbTree} {top : Ptr} {T : CTree Addr} (holds : Holds t top T)
    (root : t'.m_root = t.m_root) (sentinel : t'.m_sentinel = t.m_sentinel)
    (same : ∀ z ∈ T.labels, t'.mem z = t.mem z) : Holds t' top T where
  root := by rw [root, sentinel, holds.root]
  rep := by
    rw [sentinel]
    refine holds.rep.congr fun z member => ?_
    simp only [links, same z member]
  nodup := holds.nodup

/-- A write outside the tree does not matter. -/
theorem Holds.put_outside {t : NcRbTree} {top : Ptr} {T : CTree Addr} {x : Addr}
    (holds : Holds t top T) (outside : x ∉ T.labels) (f : RbNode → RbNode) :
    Holds (t.put x f) top T :=
  holds.congr rfl rfl fun _ member => put_of_ne _ _ _ fun same => outside (same ▸ member)

end NcRbTree

end Nutcracker
