/-
**Trees linked through parent pointers, over an arbitrary set of cells.**

A store gives every cell its links: two children, a parent, a color. A leaf is the pointer `s` (a
sentinel cell, or the null pointer). `Rep h s par t` says that the store `h` holds the tree `t`
below a cell whose parent link is `par`; `RepCtx h s top hole ctx` says that it holds the ancestors
`ctx` above the pointer `hole`, where `top` is whatever the root's parent link happens to be.

* `rep_plug` — a whole tree is its context and the subtree in the hole.
* `Rep.congr`, `RepCtx.congr` — the frame rules: cells outside the tree do not matter.
* `RepCtx.relink`, `Rep.reparent`, `Rep.recolor` — the three local writes.
* `Rep.inOrder`, `Rep.reaches_iff`, `Rep.blackPath`, `Rep.no_red_red`, `Rep.parent_child` — what a
  walk over the links sees of a represented tree.
-/

import Nutcracker.Lib.ColorTree

namespace Nutcracker.Lib

variable {α : Type}

/-- The links of one cell. -/
structure Links (α : Type) where
  left : Option α
  right : Option α
  parent : Option α
  color : Color
  deriving DecidableEq, Repr

namespace Links

/-- The child link on one side. -/
def child (d : Dir) (links : Links α) : Option α :=
  match d with
  | .left => links.left
  | .right => links.right

/-- Write the child link on one side. -/
def setChild (d : Dir) (p : Option α) (links : Links α) : Links α :=
  match d with
  | .left => { links with left := p }
  | .right => { links with right := p }

@[simp] theorem child_setChild_self (d : Dir) (p : Option α) (links : Links α) :
    (links.setChild d p).child d = p := by
  cases d <;> rfl

@[simp] theorem child_setChild_opp (d : Dir) (p : Option α) (links : Links α) :
    (links.setChild d p).child d.opp = links.child d.opp := by
  cases d <;> rfl

@[simp] theorem child_opp_setChild (d : Dir) (p : Option α) (links : Links α) :
    (links.setChild d.opp p).child d = links.child d := by
  cases d <;> rfl

@[simp] theorem parent_setChild (d : Dir) (p : Option α) (links : Links α) :
    (links.setChild d p).parent = links.parent := by
  cases d <;> rfl

@[simp] theorem color_setChild (d : Dir) (p : Option α) (links : Links α) :
    (links.setChild d p).color = links.color := by
  cases d <;> rfl

@[simp] theorem child_setParent (d : Dir) (p : Option α) (links : Links α) :
    ({ links with parent := p } : Links α).child d = links.child d := by
  cases d <;> rfl

@[simp] theorem child_setColor (d : Dir) (c : Color) (links : Links α) :
    ({ links with color := c } : Links α).child d = links.child d := by
  cases d <;> rfl

end Links

/-- The pointer to a tree whose leaves are the pointer `s`. -/
def CTree.ptr (s : Option α) : CTree α → Option α
  | .nil => s
  | .node _ _ x _ => some x

@[simp] theorem CTree.ptr_nil (s : Option α) : (CTree.nil : CTree α).ptr s = s := rfl

@[simp] theorem CTree.ptr_node (s : Option α) (l r : CTree α) (c : Color) (x : α) :
    (CTree.node l c x r).ptr s = some x := rfl

@[simp] theorem CTree.ptr_mk (s : Option α) (d : Dir) (near far : CTree α) (c : Color) (x : α) :
    (CTree.mk d near c x far).ptr s = some x := by
  cases d <;> rfl

@[simp] theorem CTree.ptr_blacken (s : Option α) (t : CTree α) : t.blacken.ptr s = t.ptr s := by
  cases t <;> rfl

theorem CTree.ptr_eq_some {s : Option α} {t : CTree α} {x : α} (here : t.ptr s = some x)
    (real : some x ≠ s) : x ∈ t.labels := by
  cases t with
  | nil => exact absurd here.symm real
  | node l c y r =>
      simp only [CTree.ptr_node, Option.some.injEq] at here
      simp [here]

/-- A pointer outside a tree is not the tree's pointer. -/
theorem CTree.ptr_ne {s : Option α} {t : CTree α} {x : α} (outside : x ∉ t.labels)
    (real : some x ≠ s) : t.ptr s ≠ some x :=
  fun here => outside (t.ptr_eq_some here real)

/-- The parent link below a context. -/
def Ctx.parent (top : Option α) : Ctx α → Option α
  | [] => top
  | f :: _ => some f.label

/-- The pointer to the root of a context with `hole` in its hole. -/
def Ctx.root : Option α → Ctx α → Option α
  | hole, [] => hole
  | _, f :: ctx => Ctx.root (some f.label) ctx

theorem ptr_plug (s : Option α) (ctx : Ctx α) (t : CTree α) :
    (Ctx.plug ctx t).ptr s = Ctx.root (t.ptr s) ctx := by
  induction ctx generalizing t with
  | nil => rfl
  | cons f ctx ih =>
      rw [Ctx.plug_cons, ih, Ctx.root, Frame.fill, CTree.ptr_mk]

/-- The root above a nonempty context is one of its cells. -/
theorem Ctx.root_mem (hole : Option α) (f : Frame α) (ctx : Ctx α) :
    ∃ y ∈ Ctx.labels (f :: ctx), Ctx.root hole (f :: ctx) = some y := by
  induction ctx generalizing hole f with
  | nil => exact ⟨f.label, Ctx.mem_labels_cons.mpr (Or.inl rfl), rfl⟩
  | cons g ctx ih =>
      obtain ⟨y, member, root⟩ := ih (some f.label) g
      exact ⟨y, Ctx.mem_labels_cons.mpr (Or.inr (Or.inr member)), root⟩

/-- A cell outside a nonempty context is not the root above it. -/
theorem Ctx.root_ne {hole : Option α} {f : Frame α} {ctx : Ctx α} {x : α}
    (outside : x ∉ Ctx.labels (f :: ctx)) : some x ≠ Ctx.root hole (f :: ctx) := by
  obtain ⟨y, member, root⟩ := Ctx.root_mem hole f ctx
  rw [root]
  rintro same
  rw [Option.some.inj same] at outside
  exact outside member

/-! ### Representation -/

/-- **The store holds a tree.** -/
def Rep (h : α → Links α) (s : Option α) : Option α → CTree α → Prop
  | _, .nil => True
  | par, .node l c x r =>
      some x ≠ s ∧ (h x).left = l.ptr s ∧ (h x).right = r.ptr s ∧ (h x).parent = par ∧
        (h x).color = c ∧ Rep h s (some x) l ∧ Rep h s (some x) r

/-- **The store holds a context** above the pointer `hole`. -/
def RepCtx (h : α → Links α) (s top : Option α) : Option α → Ctx α → Prop
  | _, [] => True
  | hole, f :: ctx =>
      some f.label ≠ s ∧ (h f.label).child f.side = hole ∧
        (h f.label).child f.side.opp = f.other.ptr s ∧
        (h f.label).parent = Ctx.parent top ctx ∧ (h f.label).color = f.color ∧
        Rep h s (some f.label) f.other ∧ RepCtx h s top (some f.label) ctx

variable {h h' : α → Links α} {s top par : Option α}

/-- `Rep` at a node seen from either side. -/
theorem rep_mk {d : Dir} {near far : CTree α} {c : Color} {x : α} :
    Rep h s par (CTree.mk d near c x far) ↔
      some x ≠ s ∧ (h x).child d = near.ptr s ∧ (h x).child d.opp = far.ptr s ∧
        (h x).parent = par ∧ (h x).color = c ∧ Rep h s (some x) near ∧
        Rep h s (some x) far := by
  cases d
  · exact Iff.rfl
  · simp only [CTree.mk, Rep, Links.child, Dir.opp]
    tauto

/-- **A whole tree is its context and the subtree in the hole.** -/
theorem rep_plug {ctx : Ctx α} {t : CTree α} :
    Rep h s top (Ctx.plug ctx t) ↔
      RepCtx h s top (t.ptr s) ctx ∧ Rep h s (Ctx.parent top ctx) t := by
  induction ctx generalizing t with
  | nil => simp [RepCtx, Ctx.parent]
  | cons f ctx ih =>
      rw [Ctx.plug_cons, ih, Frame.fill, rep_mk, RepCtx, CTree.ptr_mk]
      simp only [Ctx.parent]
      tauto

/-- **Frame rule.** Only the cells of the tree matter. -/
theorem Rep.congr {t : CTree α} (rep : Rep h s par t) (same : ∀ x ∈ t.labels, h' x = h x) :
    Rep h' s par t := by
  induction t generalizing par with
  | nil => trivial
  | node l c x r left right =>
      obtain ⟨real, toLeft, toRight, toParent, color, inLeft, inRight⟩ := rep
      have here : h' x = h x := same x (by simp)
      refine ⟨real, ?_, ?_, ?_, ?_, left inLeft fun y member => same y (by simp [member]),
        right inRight fun y member => same y (by simp [member])⟩
      · rw [here, toLeft]
      · rw [here, toRight]
      · rw [here, toParent]
      · rw [here, color]

/-- **Frame rule** for contexts. -/
theorem RepCtx.congr {hole : Option α} {ctx : Ctx α} (rep : RepCtx h s top hole ctx)
    (same : ∀ x ∈ Ctx.labels ctx, h' x = h x) : RepCtx h' s top hole ctx := by
  induction ctx generalizing hole with
  | nil => trivial
  | cons f ctx ih =>
      obtain ⟨real, toHole, toOther, toParent, color, other, above⟩ := rep
      have here : h' f.label = h f.label := same _ (Ctx.mem_labels_cons.mpr (Or.inl rfl))
      refine ⟨real, ?_, ?_, ?_, ?_,
        other.congr fun x member => same x (Ctx.mem_labels_cons.mpr (Or.inr (Or.inl member))),
        ih above fun x member => same x (Ctx.mem_labels_cons.mpr (Or.inr (Or.inr member)))⟩
      · rw [here, toHole]
      · rw [here, toOther]
      · rw [here, toParent]
      · rw [here, color]

/-- **Relinking the hole.** Write the child link of the innermost ancestor. -/
theorem RepCtx.relink {hole hole' : Option α} {f : Frame α} {ctx : Ctx α}
    (rep : RepCtx h s top hole (f :: ctx)) (nodup : (Ctx.labels (f :: ctx)).Nodup)
    (written : h' f.label = (h f.label).setChild f.side hole')
    (same : ∀ x ∈ Ctx.labels (f :: ctx), x ≠ f.label → h' x = h x) :
    RepCtx h' s top hole' (f :: ctx) := by
  obtain ⟨real, toHole, toOther, toParent, color, other, above⟩ := rep
  obtain ⟨notOther, notAbove, -, -, -⟩ := Ctx.nodup_labels_cons.mp nodup
  refine ⟨real, ?_, ?_, ?_, ?_, other.congr fun x member => ?_, above.congr fun x member => ?_⟩
  · rw [written, Links.child_setChild_self]
  · rw [written, Links.child_setChild_opp, toOther]
  · rw [written, Links.parent_setChild, toParent]
  · rw [written, Links.color_setChild, color]
  · exact same x (Ctx.mem_labels_cons.mpr (Or.inr (Or.inl member)))
      fun equal => notOther (equal ▸ member)
  · exact same x (Ctx.mem_labels_cons.mpr (Or.inr (Or.inr member)))
      fun equal => notAbove (equal ▸ member)

/-- **Reparenting.** Write the parent link of the root of a subtree. -/
theorem Rep.reparent {t : CTree α} {q : Option α} (rep : Rep h s par t) (nodup : t.labels.Nodup)
    (written : ∀ x, t.ptr s = some x → some x ≠ s → h' x = { h x with parent := q })
    (same : ∀ x ∈ t.labels, t.ptr s ≠ some x → h' x = h x) : Rep h' s q t := by
  cases t with
  | nil => trivial
  | node l c x r =>
      obtain ⟨real, toLeft, toRight, toParent, color, inLeft, inRight⟩ := rep
      have here : h' x = { h x with parent := q } := written x rfl real
      rw [CTree.labels_node, List.nodup_append', List.nodup_cons, List.disjoint_cons_right]
        at nodup
      obtain ⟨-, ⟨notRight, -⟩, notLeft, -⟩ := nodup
      refine ⟨real, ?_, ?_, ?_, ?_, inLeft.congr fun y member => ?_,
        inRight.congr fun y member => ?_⟩
      · rw [here, toLeft]
      · rw [here, toRight]
      · rw [here]
      · rw [here, color]
      · refine same y (by simp [member]) fun equal => ?_
        rw [CTree.ptr_node, Option.some.injEq] at equal
        exact notLeft (equal ▸ member)
      · refine same y (by simp [member]) fun equal => ?_
        rw [CTree.ptr_node, Option.some.injEq] at equal
        exact notRight (equal ▸ member)

/-- **Recoloring.** Write the color of the root of a subtree. -/
theorem Rep.recolor {d : Dir} {near far : CTree α} {c c' : Color} {x : α}
    (rep : Rep h s par (CTree.mk d near c x far)) (nodup : (CTree.mk d near c x far).labels.Nodup)
    (written : h' x = { h x with color := c' })
    (same : ∀ y ∈ (CTree.mk d near c x far).labels, y ≠ x → h' y = h y) :
    Rep h' s par (CTree.mk d near c' x far) := by
  obtain ⟨real, toNear, toFar, toParent, -, inNear, inFar⟩ := rep_mk.mp rep
  obtain ⟨-, -, notNear, notFar, -⟩ := CTree.nodup_labels_mk.mp nodup
  refine rep_mk.mpr ⟨real, ?_, ?_, ?_, ?_, inNear.congr fun y member => ?_,
    inFar.congr fun y member => ?_⟩
  · rw [written, Links.child_setColor, toNear]
  · rw [written, Links.child_setColor, toFar]
  · rw [written, toParent]
  · rw [written]
  · exact same y (CTree.mem_labels_mk.mpr (Or.inl member)) fun equal => notNear (equal ▸ member)
  · exact same y (CTree.mem_labels_mk.mpr (Or.inr (Or.inr member)))
      fun equal => notFar (equal ▸ member)

/-- The cells of a represented tree are not the leaf pointer. -/
theorem Rep.real {t : CTree α} (rep : Rep h s par t) : ∀ x ∈ t.labels, some x ≠ s := by
  induction t generalizing par with
  | nil => simp
  | node l c x r left right =>
      obtain ⟨real, -, -, -, -, inLeft, inRight⟩ := rep
      intro y member
      rw [CTree.labels_node, List.mem_append, List.mem_cons] at member
      rcases member with below | rfl | below
      · exact left inLeft y below
      · exact real
      · exact right inRight y below

/-- Only the empty tree is represented by the leaf pointer. -/
theorem Rep.ptr_eq_iff {t : CTree α} (rep : Rep h s par t) : t.ptr s = s ↔ t = .nil := by
  constructor
  · intro isLeaf
    cases t with
    | nil => rfl
    | node l c x r => exact absurd isLeaf rep.1
  · rintro rfl
    rfl

/-! ### Reading a represented tree through its links -/

/-- The cells reached from a pointer through child links. -/
inductive Reaches (h : α → Links α) (s : Option α) : Option α → α → Prop
  | here {x : α} : some x ≠ s → Reaches h s (some x) x
  | child {x y : α} (d : Dir) : some x ≠ s → Reaches h s ((h x).child d) y → Reaches h s (some x) y

/-- The black cells counted along a path from a pointer down to a leaf. -/
inductive BlackPath (h : α → Links α) (s : Option α) : Option α → Nat → Prop
  | leaf : BlackPath h s s 0
  | red {x : α} {n : Nat} (d : Dir) : some x ≠ s → (h x).color = .red →
      BlackPath h s ((h x).child d) n → BlackPath h s (some x) n
  | black {x : α} {n : Nat} (d : Dir) : some x ≠ s → (h x).color = .black →
      BlackPath h s ((h x).child d) n → BlackPath h s (some x) (n + 1)

/-- The in-order sequence of the cells below a pointer. -/
inductive InOrder (h : α → Links α) (s : Option α) : Option α → List α → Prop
  | leaf : InOrder h s s []
  | node {x : α} {xs ys : List α} : some x ≠ s → InOrder h s (h x).left xs →
      InOrder h s (h x).right ys → InOrder h s (some x) (xs ++ x :: ys)

/-- The in-order walk, as a function: `none` when it meets a null pointer or a path longer than
`fuel`. -/
def walk [DecidableEq α] (h : α → Links α) (s : Option α) : Nat → Option α → Option (List α)
  | 0, _ => none
  | fuel + 1, p =>
    if p = s then some []
    else match p with
      | none => none
      | some x => do
        let xs ← walk h s fuel (h x).left
        let ys ← walk h s fuel (h x).right
        return xs ++ x :: ys

/-- **The walk computes the in-order sequence.** -/
theorem InOrder.of_walk [DecidableEq α] {fuel : Nat} {p : Option α} {xs : List α}
    (found : walk h s fuel p = some xs) : InOrder h s p xs := by
  induction fuel generalizing p xs with
  | zero => cases found
  | succ fuel ih =>
      by_cases isLeaf : p = s
      · unfold walk at found
        rw [if_pos isLeaf] at found
        obtain rfl := Option.some.inj found
        rw [isLeaf]
        exact .leaf
      · unfold walk at found
        rw [if_neg isLeaf] at found
        cases p with
        | none => cases found
        | some x =>
            simp only [Option.bind_eq_bind, Option.bind_eq_some_iff] at found
            obtain ⟨ls, left, rs, right, whole⟩ := found
            obtain rfl := Option.some.inj whole
            exact .node isLeaf (ih left) (ih right)

theorem Rep.inOrder {t : CTree α} (rep : Rep h s par t) : InOrder h s (t.ptr s) t.labels := by
  induction t generalizing par with
  | nil => exact .leaf
  | node l c x r left right =>
      obtain ⟨real, toLeft, toRight, -, -, inLeft, inRight⟩ := rep
      refine .node real ?_ ?_
      · rw [toLeft]
        exact left inLeft
      · rw [toRight]
        exact right inRight

theorem InOrder.of_leaf {p : Option α} {ys : List α} (order : InOrder h s p ys) (isLeaf : p = s) :
    ys = [] := by
  cases order with
  | leaf => rfl
  | node real _ _ => exact absurd isLeaf real

theorem Reaches.not_leaf {p : Option α} {y : α} (reached : Reaches h s p y) : p ≠ s := by
  cases reached with
  | here real => exact real
  | child _ real _ => exact real

theorem BlackPath.of_leaf {p : Option α} {k : Nat} (path : BlackPath h s p k) (isLeaf : p = s) :
    k = 0 := by
  cases path with
  | leaf => rfl
  | red _ real _ _ => exact absurd isLeaf real
  | black _ real _ _ => exact absurd isLeaf real

/-- A pointer has one in-order sequence. -/
theorem InOrder.unique {p : Option α} {xs ys : List α} (first : InOrder h s p xs)
    (second : InOrder h s p ys) : xs = ys := by
  induction first generalizing ys with
  | leaf => exact (second.of_leaf rfl).symm
  | node real _ _ left right =>
      cases second with
      | leaf => exact absurd rfl real
      | node _ inLeft inRight => rw [left inLeft, right inRight]

theorem Rep.reaches_iff {t : CTree α} (rep : Rep h s par t) {x : α} :
    Reaches h s (t.ptr s) x ↔ x ∈ t.labels := by
  induction t generalizing par with
  | nil =>
      simp only [CTree.ptr_nil, CTree.labels_nil, List.not_mem_nil, iff_false]
      exact fun reached => reached.not_leaf rfl
  | node l c y r left right =>
      obtain ⟨real, toLeft, toRight, -, -, inLeft, inRight⟩ := rep
      rw [CTree.labels_node, List.mem_append, List.mem_cons, CTree.ptr_node]
      constructor
      · intro reached
        cases reached with
        | here _ => exact Or.inr (Or.inl rfl)
        | child d _ below =>
            cases d with
            | left =>
                rw [Links.child, toLeft] at below
                exact Or.inl ((left inLeft).mp below)
            | right =>
                rw [Links.child, toRight] at below
                exact Or.inr (Or.inr ((right inRight).mp below))
      · rintro (below | rfl | below)
        · refine .child .left real ?_
          rw [Links.child, toLeft]
          exact (left inLeft).mpr below
        · exact .here real
        · refine .child .right real ?_
          rw [Links.child, toRight]
          exact (right inRight).mpr below

/-- Every path of a red-black tree has the tree's black height. -/
theorem Rep.blackPath {t : CTree α} {c : Color} {n k : Nat} (rep : Rep h s par t)
    (shape : RB c n t) (path : BlackPath h s (t.ptr s) k) : k = n := by
  induction shape generalizing par k with
  | nil => exact path.of_leaf rfl
  | red _ _ left right =>
      obtain ⟨real, toLeft, toRight, -, color, inLeft, inRight⟩ := rep
      rw [CTree.ptr_node] at path
      cases path with
      | leaf => exact absurd rfl real
      | red d _ _ below =>
          cases d with
          | left =>
              rw [Links.child, toLeft] at below
              exact left inLeft below
          | right =>
              rw [Links.child, toRight] at below
              exact right inRight below
      | black _ _ isBlack _ =>
          rw [color] at isBlack
          cases isBlack
  | black _ _ left right =>
      obtain ⟨real, toLeft, toRight, -, color, inLeft, inRight⟩ := rep
      rw [CTree.ptr_node] at path
      cases path with
      | leaf => exact absurd rfl real
      | red _ _ isRed _ =>
          rw [color] at isRed
          cases isRed
      | black d _ _ below =>
          cases d with
          | left =>
              rw [Links.child, toLeft] at below
              rw [left inLeft below]
          | right =>
              rw [Links.child, toRight] at below
              rw [right inRight below]

/-- A red cell of a red-black tree has children that are leaves or black. -/
theorem Rep.no_red_red {t : CTree α} {c : Color} {n : Nat} (rep : Rep h s par t)
    (shape : RB c n t) : ∀ x ∈ t.labels, (h x).color = .red →
      ∀ d y, (h x).child d = some y → some y ≠ s → (h y).color = .black := by
  have blackRoot : ∀ {t : CTree α} {m : Nat} {q : Option α}, Rep h s q t → RB .black m t →
      ∀ y, t.ptr s = some y → some y ≠ s → (h y).color = .black := by
    intro t m q below black y here real
    cases black with
    | nil => exact absurd here.symm real
    | black _ _ =>
        rw [CTree.ptr_node, Option.some.injEq] at here
        subst here
        exact below.2.2.2.2.1
  induction shape generalizing par with
  | nil => simp
  | red l r left right =>
      obtain ⟨-, toLeft, toRight, -, -, inLeft, inRight⟩ := rep
      intro x member isRed d y toChild real
      rw [CTree.labels_node, List.mem_append, List.mem_cons] at member
      rcases member with below | rfl | below
      · exact left inLeft x below isRed d y toChild real
      · cases d with
        | left => exact blackRoot inLeft l y (toLeft ▸ toChild) real
        | right => exact blackRoot inRight r y (toRight ▸ toChild) real
      · exact right inRight x below isRed d y toChild real
  | black _ _ left right =>
      obtain ⟨-, -, -, -, color, inLeft, inRight⟩ := rep
      intro x member isRed d y toChild real
      rw [CTree.labels_node, List.mem_append, List.mem_cons] at member
      rcases member with below | rfl | below
      · exact left inLeft x below isRed d y toChild real
      · rw [color] at isRed
        cases isRed
      · exact right inRight x below isRed d y toChild real

/-- In a represented tree the parent link of a child leads back. -/
theorem Rep.parent_child {t : CTree α} (rep : Rep h s par t) : ∀ x ∈ t.labels,
    ∀ d y, (h x).child d = some y → some y ≠ s → (h y).parent = some x := by
  have rootParent : ∀ {t : CTree α} {q : Option α}, Rep h s q t →
      ∀ y, t.ptr s = some y → some y ≠ s → (h y).parent = q := by
    intro t q below y here real
    cases t with
    | nil => exact absurd here.symm real
    | node l c z r =>
        rw [CTree.ptr_node, Option.some.injEq] at here
        subst here
        exact below.2.2.2.1
  induction t generalizing par with
  | nil => simp
  | node l c z r left right =>
      obtain ⟨-, toLeft, toRight, -, -, inLeft, inRight⟩ := rep
      intro x member d y toChild real
      rw [CTree.labels_node, List.mem_append, List.mem_cons] at member
      rcases member with below | rfl | below
      · exact left inLeft x below d y toChild real
      · cases d with
        | left => exact rootParent inLeft y (toLeft ▸ toChild) real
        | right => exact rootParent inRight y (toRight ▸ toChild) real
      · exact right inRight x below d y toChild real

end Nutcracker.Lib
