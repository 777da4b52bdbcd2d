/-
**Colored binary trees, their contexts and the red-black shape.**

A tree carries a label and a color at every node. A *context* is the way from a subtree up to the
root: one `Frame` for every ancestor, innermost first, and `plug` rebuilds the whole tree. Every
statement about a loop that climbs through parent links is a statement about `plug ctx t`.

* `labels_plug` — the in-order labels of `plug ctx t` are those left of the hole, those of `t`, and
  those right of the hole. A local change of `t` that keeps `t.labels` keeps the whole sequence.
* `RB c n t` — `t` has root color `c`, black height `n`, and no red node with a red child.
  `RBCtx ctx n` — the same for a context whose hole takes a subtree of black height `n`.
  `RBCtx.plug` and `RB.unplug` go from one to the other.
* `RB.height_le_log` — **a red-black tree is low**: its height is at most twice the logarithm of the
  number of its labels.
-/

import Mathlib.Algebra.Group.Nat.Defs
import Mathlib.Data.List.Nodup
import Mathlib.Data.Nat.Log
import Mathlib.Logic.Function.Basic
import Mathlib.Tactic.Common

namespace Nutcracker.Lib

/-! ### Directions and colors -/

/-- The two children of a node. -/
inductive Dir
  | left
  | right
  deriving DecidableEq, Repr

/-- The other child. -/
def Dir.opp : Dir → Dir
  | .left => .right
  | .right => .left

@[simp] theorem Dir.opp_opp (d : Dir) : d.opp.opp = d := by cases d <;> rfl

@[simp] theorem Dir.opp_ne (d : Dir) : d.opp ≠ d := by cases d <;> decide

@[simp] theorem Dir.ne_opp (d : Dir) : d ≠ d.opp := by cases d <;> decide

theorem Dir.eq_or_eq_opp (d e : Dir) : e = d ∨ e = d.opp := by
  cases d <;> cases e <;> decide

/-- The colors of a red-black tree. -/
inductive Color
  | black
  | red
  deriving DecidableEq, Repr

/-! ### Trees and contexts -/

/-- A binary tree with a color and a label at every node. -/
inductive CTree (α : Type)
  | nil
  | node (l : CTree α) (c : Color) (x : α) (r : CTree α)
  deriving DecidableEq, Repr

variable {α β : Type}

namespace CTree

/-- The tree whose child on side `d` is `near` and whose other child is `far`. -/
def mk (d : Dir) (near : CTree α) (c : Color) (x : α) (far : CTree α) : CTree α :=
  match d with
  | .left => node near c x far
  | .right => node far c x near

/-- The labels, from left to right. -/
def labels : CTree α → List α
  | nil => []
  | node l _ x r => l.labels ++ x :: r.labels

/-- The color of the root; a leaf is black. -/
def color : CTree α → Color
  | nil => .black
  | node _ c _ _ => c

/-- The same tree with a black root. -/
def blacken : CTree α → CTree α
  | nil => nil
  | node l _ x r => node l .black x r

/-- The same shape and colors, other labels. -/
def map (f : α → β) : CTree α → CTree β
  | nil => nil
  | node l c x r => node (l.map f) c (f x) (r.map f)

@[simp] theorem labels_nil : (nil : CTree α).labels = [] := rfl

@[simp] theorem labels_node (l : CTree α) (c : Color) (x : α) (r : CTree α) :
    (node l c x r).labels = l.labels ++ x :: r.labels := rfl

@[simp] theorem color_nil : (nil : CTree α).color = .black := rfl

@[simp] theorem color_node (l : CTree α) (c : Color) (x : α) (r : CTree α) :
    (node l c x r).color = c := rfl

@[simp] theorem color_mk (d : Dir) (near far : CTree α) (c : Color) (x : α) :
    (mk d near c x far).color = c := by
  cases d <;> rfl

@[simp] theorem labels_blacken (t : CTree α) : t.blacken.labels = t.labels := by
  cases t <;> rfl

@[simp] theorem color_blacken (t : CTree α) : t.blacken.color = .black := by
  cases t <;> rfl

@[simp] theorem blacken_mk (d : Dir) (near far : CTree α) (c : Color) (x : α) :
    (mk d near c x far).blacken = mk d near .black x far := by
  cases d <;> rfl

theorem mk_ne_nil (d : Dir) (near far : CTree α) (c : Color) (x : α) : mk d near c x far ≠ nil := by
  cases d <;> exact nofun

theorem blacken_of_black {t : CTree α} (black : t.color = .black) : t.blacken = t := by
  cases t with
  | nil => rfl
  | node l c x r =>
      simp only [color_node] at black
      rw [black]
      rfl

@[simp] theorem map_nil (f : α → β) : (nil : CTree α).map f = nil := rfl

@[simp] theorem map_node (f : α → β) (l : CTree α) (c : Color) (x : α) (r : CTree α) :
    (node l c x r).map f = node (l.map f) c (f x) (r.map f) := rfl

@[simp] theorem labels_map (f : α → β) (t : CTree α) : (t.map f).labels = t.labels.map f := by
  induction t with
  | nil => rfl
  | node l c x r left right => simp [left, right]

theorem map_congr {f g : α → β} {t : CTree α} (same : ∀ x ∈ t.labels, f x = g x) :
    t.map f = t.map g := by
  induction t with
  | nil => rfl
  | node l c x r left right =>
      have atRoot : f x = g x := same x (by simp)
      have inLeft : l.map f = l.map g := left fun y member => same y (by simp [member])
      have inRight : r.map f = r.map g := right fun y member => same y (by simp [member])
      rw [map_node, map_node, atRoot, inLeft, inRight]

theorem map_id (t : CTree α) : t.map id = t := by
  induction t with
  | nil => rfl
  | node l c x r left right => rw [map_node, left, right, id]

theorem mem_labels_mk {d : Dir} {near far : CTree α} {c : Color} {x y : α} :
    y ∈ (mk d near c x far).labels ↔ y ∈ near.labels ∨ y = x ∨ y ∈ far.labels := by
  cases d
  · simp only [mk, labels_node, List.mem_append, List.mem_cons]
  · simp only [mk, labels_node, List.mem_append, List.mem_cons]
    tauto

theorem nodup_labels_mk {d : Dir} {near far : CTree α} {c : Color} {x : α} :
    (mk d near c x far).labels.Nodup ↔
      near.labels.Nodup ∧ far.labels.Nodup ∧ x ∉ near.labels ∧ x ∉ far.labels ∧
        List.Disjoint near.labels far.labels := by
  cases d <;>
    simp only [mk, labels_node, List.nodup_append', List.nodup_cons, List.disjoint_cons_right] <;>
    constructor
  · rintro ⟨nearNodup, ⟨notFar, farNodup⟩, notNear, apart⟩
    exact ⟨nearNodup, farNodup, notNear, notFar, apart⟩
  · rintro ⟨nearNodup, farNodup, notNear, notFar, apart⟩
    exact ⟨nearNodup, ⟨notFar, farNodup⟩, notNear, apart⟩
  · rintro ⟨farNodup, ⟨notNear, nearNodup⟩, notFar, apart⟩
    exact ⟨nearNodup, farNodup, notNear, notFar, fun y inNear inFar => apart inFar inNear⟩
  · rintro ⟨nearNodup, farNodup, notNear, notFar, apart⟩
    exact ⟨farNodup, ⟨notNear, nearNodup⟩, notFar, fun y inFar inNear => apart inNear inFar⟩

/-- **A rotation keeps the in-order sequence.** -/
theorem labels_rotate (d : Dir) (a b e : CTree α) (cx cy cx' cy' : Color) (x y : α) :
    (mk d (mk d a cx' x b) cy' y e).labels = (mk d a cx x (mk d b cy y e)).labels := by
  cases d <;> simp [mk]

/-- One node, seen from its two sides. -/
theorem mk_opp (d : Dir) (a b : CTree α) (c : Color) (x : α) : mk d.opp b c x a = mk d a c x b := by
  cases d <;> rfl

/-- A nonempty tree is a node seen from either side. -/
theorem exists_mk (d : Dir) {t : CTree α} (nonempty : t ≠ nil) :
    ∃ near c x far, t = mk d near c x far := by
  cases t with
  | nil => exact absurd rfl nonempty
  | node l c x r =>
      cases d with
      | left => exact ⟨l, c, x, r, rfl⟩
      | right => exact ⟨r, c, x, l, rfl⟩

/-- A node is a node seen from either side. -/
theorem node_eq_mk (d : Dir) (l : CTree α) (c : Color) (x : α) (r : CTree α) :
    ∃ near far, node l c x r = mk d near c x far := by
  cases d with
  | left => exact ⟨l, r, rfl⟩
  | right => exact ⟨r, l, rfl⟩

end CTree

/-- One ancestor of a hole: the side the hole is on, the ancestor's color and label, and its other
child. -/
structure Frame (α : Type) where
  side : Dir
  color : Color
  label : α
  other : CTree α
  deriving DecidableEq, Repr

/-- Fill the hole under one ancestor. -/
def Frame.fill (f : Frame α) (t : CTree α) : CTree α := CTree.mk f.side t f.color f.label f.other

/-- The way from a hole to the root, innermost ancestor first. -/
abbrev Ctx (α : Type) := List (Frame α)

namespace Ctx

/-- Fill the hole of a context. -/
def plug : Ctx α → CTree α → CTree α
  | [], t => t
  | f :: ctx, t => plug ctx (f.fill t)

/-- The labels left of the hole. -/
def before : Ctx α → List α
  | [] => []
  | f :: ctx => match f.side with
    | .left => before ctx
    | .right => before ctx ++ (f.other.labels ++ [f.label])

/-- The labels right of the hole. -/
def after : Ctx α → List α
  | [] => []
  | f :: ctx => match f.side with
    | .left => f.label :: f.other.labels ++ after ctx
    | .right => after ctx

/-- All labels of a context. -/
def labels (ctx : Ctx α) : List α := before ctx ++ after ctx

/-- The color above the hole. There is nothing above the root, and the root has to be black: an
empty context counts as red. -/
def color : Ctx α → Color
  | [] => .red
  | f :: _ => f.color

/-- The same context, other labels. -/
def map (g : α → β) (ctx : Ctx α) : Ctx β :=
  List.map (fun f => ⟨f.side, f.color, g f.label, f.other.map g⟩) ctx

@[simp] theorem plug_nil (t : CTree α) : plug [] t = t := rfl

@[simp] theorem plug_cons (f : Frame α) (ctx : Ctx α) (t : CTree α) :
    plug (f :: ctx) t = plug ctx (f.fill t) := rfl

theorem plug_append (inner outer : Ctx α) (t : CTree α) :
    plug (inner ++ outer) t = plug outer (plug inner t) := by
  induction inner generalizing t with
  | nil => rfl
  | cons f inner ih => exact ih (f.fill t)

/-- **The in-order labels of a plugged context.** -/
theorem labels_plug (ctx : Ctx α) (t : CTree α) :
    (plug ctx t).labels = before ctx ++ (t.labels ++ after ctx) := by
  induction ctx generalizing t with
  | nil => simp [before, after]
  | cons f ctx ih =>
      obtain ⟨side, c, x, other⟩ := f
      rw [plug_cons, ih]
      cases side <;> simp [Frame.fill, CTree.mk, before, after]

theorem mem_labels_cons {f : Frame α} {ctx : Ctx α} {y : α} :
    y ∈ labels (f :: ctx) ↔ y = f.label ∨ y ∈ f.other.labels ∨ y ∈ labels ctx := by
  obtain ⟨side, c, x, other⟩ := f
  cases side <;> simp only [labels, before, after, List.mem_append, List.mem_cons,
    List.cons_append, List.not_mem_nil, or_false] <;> tauto

theorem label_mem {f : Frame α} {ctx : Ctx α} (member : f ∈ ctx) : f.label ∈ labels ctx := by
  induction ctx with
  | nil => cases member
  | cons g ctx ih =>
      rw [mem_labels_cons]
      rcases List.mem_cons.mp member with rfl | inRest
      · exact Or.inl rfl
      · exact Or.inr (Or.inr (ih inRest))

theorem mem_labels_plug {ctx : Ctx α} {t : CTree α} {y : α} :
    y ∈ (plug ctx t).labels ↔ y ∈ labels ctx ∨ y ∈ t.labels := by
  rw [labels_plug, labels]
  simp only [List.mem_append]
  tauto

theorem nodup_labels_plug {ctx : Ctx α} {t : CTree α} :
    (plug ctx t).labels.Nodup ↔
      (labels ctx).Nodup ∧ t.labels.Nodup ∧ List.Disjoint t.labels (labels ctx) := by
  have reorder : (plug ctx t).labels.Perm (t.labels ++ labels ctx) := by
    rw [labels_plug, labels]
    exact List.perm_append_comm_assoc _ _ _
  rw [reorder.nodup_iff, List.nodup_append']
  tauto

theorem nodup_labels_cons {f : Frame α} {ctx : Ctx α} :
    (labels (f :: ctx)).Nodup ↔
      f.label ∉ f.other.labels ∧ f.label ∉ labels ctx ∧ f.other.labels.Nodup ∧
        (labels ctx).Nodup ∧ List.Disjoint f.other.labels (labels ctx) := by
  have nodupHole : (plug (f :: ctx) .nil).labels.Nodup ↔ (labels (f :: ctx)).Nodup ∧
      (.nil : CTree α).labels.Nodup ∧ List.Disjoint (.nil : CTree α).labels (labels (f :: ctx)) :=
    nodup_labels_plug
  rw [plug_cons] at nodupHole
  have nodupFill : (plug ctx (f.fill .nil)).labels.Nodup ↔ (labels ctx).Nodup ∧
      (f.fill .nil).labels.Nodup ∧ List.Disjoint (f.fill .nil).labels (labels ctx) :=
    nodup_labels_plug
  have same := nodupHole.symm.trans nodupFill
  rw [Frame.fill, CTree.nodup_labels_mk] at same
  have disjoint : List.Disjoint (f.fill .nil).labels (labels ctx) ↔
      f.label ∉ labels ctx ∧ List.Disjoint f.other.labels (labels ctx) := by
    simp only [List.Disjoint, Frame.fill, CTree.mem_labels_mk, CTree.labels_nil, List.not_mem_nil,
      false_or]
    constructor
    · exact fun apart => ⟨fun member => apart (Or.inl rfl) member,
        fun y inOther => apart (Or.inr inOther)⟩
    · rintro ⟨notLabel, apart⟩ y (rfl | inOther) inCtx
      · exact notLabel inCtx
      · exact apart inOther inCtx
  rw [Frame.fill] at disjoint
  rw [disjoint] at same
  simp only [CTree.labels_nil, List.nodup_nil, true_and, List.disjoint_nil_left, and_true,
    List.not_mem_nil, not_false_eq_true] at same
  tauto

/-- Deleting the label of one node from the sequence. -/
theorem erase_labels [DecidableEq α] {ctx : Ctx α} {l r : CTree α} {c : Color} {x : α}
    (nodup : (plug ctx (.node l c x r)).labels.Nodup) :
    (plug ctx (.node l c x r)).labels.erase x =
      before ctx ++ (l.labels ++ r.labels ++ after ctx) := by
  rw [labels_plug, CTree.labels_node, List.append_assoc, List.cons_append, ← List.append_assoc]
    at nodup ⊢
  have notBefore : x ∉ before ctx ++ l.labels := fun member =>
    (List.nodup_append'.mp nodup).2.2 member List.mem_cons_self
  rw [List.erase_append_right _ notBefore, List.erase_cons_head, List.append_assoc,
    List.append_assoc]

/-- Every ancestor of a hole is a label of the whole tree. -/
theorem length_le_labels_plug (ctx : Ctx α) (t : CTree α) :
    ctx.length + t.labels.length ≤ (plug ctx t).labels.length := by
  induction ctx generalizing t with
  | nil => simp
  | cons f ctx ih =>
      have outer := ih (f.fill t)
      have filled : t.labels.length + 1 ≤ (f.fill t).labels.length := by
        obtain ⟨side, c, x, other⟩ := f
        cases side <;> simp only [Frame.fill, CTree.mk, CTree.labels_node, List.length_append,
          List.length_cons] <;> omega
      rw [plug_cons, List.length_cons]
      omega

/-- A node of a tree, with everything around it. -/
theorem exists_plug_of_mem {x : α} {t : CTree α} (member : x ∈ t.labels) :
    ∃ ctx l c r, t = plug ctx (.node l c x r) := by
  induction t with
  | nil => simp at member
  | node l c y r left right =>
      rw [CTree.labels_node, List.mem_append, List.mem_cons] at member
      rcases member with inLeft | rfl | inRight
      · obtain ⟨ctx, l', c', r', rfl⟩ := left inLeft
        exact ⟨ctx ++ [⟨.left, c, y, r⟩], l', c', r', by rw [plug_append]; rfl⟩
      · exact ⟨[], l, c, r, rfl⟩
      · obtain ⟨ctx, l', c', r', rfl⟩ := right inRight
        exact ⟨ctx ++ [⟨.right, c, y, l⟩], l', c', r', by rw [plug_append]; rfl⟩

theorem before_of_lefts {ctx : Ctx α} (lefts : ∀ f ∈ ctx, f.side = .left) : before ctx = [] := by
  induction ctx with
  | nil => rfl
  | cons f ctx ih =>
      have here := lefts f List.mem_cons_self
      have rest := ih fun g member => lefts g (List.mem_cons_of_mem _ member)
      simp only [before, here, rest]

theorem after_of_rights {ctx : Ctx α} (rights : ∀ f ∈ ctx, f.side = .right) : after ctx = [] := by
  induction ctx with
  | nil => rfl
  | cons f ctx ih =>
      have here := rights f List.mem_cons_self
      have rest := ih fun g member => rights g (List.mem_cons_of_mem _ member)
      simp only [after, here, rest]

@[simp] theorem map_cons (g : α → β) (f : Frame α) (ctx : Ctx α) :
    map g (f :: ctx) = ⟨f.side, f.color, g f.label, f.other.map g⟩ :: map g ctx := rfl

@[simp] theorem length_map (g : α → β) (ctx : Ctx α) : (map g ctx).length = ctx.length :=
  List.length_map _

theorem map_plug (g : α → β) (ctx : Ctx α) (t : CTree α) :
    (plug ctx t).map g = plug (map g ctx) (t.map g) := by
  induction ctx generalizing t with
  | nil => rfl
  | cons f ctx ih =>
      obtain ⟨side, c, x, other⟩ := f
      rw [plug_cons, ih, map_cons, plug_cons]
      cases side <;> rfl

theorem map_congr {f g : α → β} {ctx : Ctx α} (same : ∀ x ∈ labels ctx, f x = g x) :
    map f ctx = map g ctx := by
  induction ctx with
  | nil => rfl
  | cons frame ctx ih =>
      have label : f frame.label = g frame.label := same _ (mem_labels_cons.mpr (Or.inl rfl))
      have other : frame.other.map f = frame.other.map g :=
        CTree.map_congr fun x member => same x (mem_labels_cons.mpr (Or.inr (Or.inl member)))
      have rest := ih fun x member => same x (mem_labels_cons.mpr (Or.inr (Or.inr member)))
      rw [map_cons, map_cons, label, other, rest]

theorem map_id (ctx : Ctx α) : map id ctx = ctx := by
  induction ctx with
  | nil => rfl
  | cons f ctx ih => rw [map_cons, ih, CTree.map_id, id]

@[simp] theorem color_map (g : α → β) (ctx : Ctx α) : color (map g ctx) = color ctx := by
  cases ctx <;> rfl

/-- Renaming a label that does not occur. -/
theorem map_update_of_not_mem [DecidableEq α] {t : CTree α} {x : α} (m : α) (notIn : x ∉ t.labels) :
    t.map (Function.update id x m) = t := by
  have same : ∀ y ∈ t.labels, Function.update id x m y = id y := by
    intro y member
    have notX : y ≠ x := fun equal => notIn (equal ▸ member)
    exact Function.update_of_ne notX m id
  rw [CTree.map_congr same, CTree.map_id]

/-- **Renaming one label** changes the one node that carries it. -/
theorem map_update_plug [DecidableEq α] {ctx : Ctx α} {l r : CTree α} {c : Color} {x : α} (m : α)
    (nodup : (plug ctx (.node l c x r)).labels.Nodup) :
    (plug ctx (.node l c x r)).map (Function.update id x m) = plug ctx (.node l c m r) := by
  obtain ⟨-, nodupHere, apart⟩ := nodup_labels_plug.mp nodup
  obtain ⟨-, -, notL, notR, -⟩ := CTree.nodup_labels_mk.mp
    (show (CTree.mk .left l c x r).labels.Nodup from nodupHere)
  have notIn : x ∉ labels ctx := apart (by simp)
  have same : ∀ y ∈ labels ctx, Function.update id x m y = id y := by
    intro y member
    have notX : y ≠ x := fun equal => notIn (equal ▸ member)
    exact Function.update_of_ne notX m id
  rw [map_plug, map_congr same, map_id, CTree.map_node, map_update_of_not_mem m notL,
    map_update_of_not_mem m notR, Function.update_self]

end Ctx

/-! ### The red-black shape -/

/-- **A red-black subtree**: root color, black height, and no red node with a red child. -/
inductive RB : Color → Nat → CTree α → Prop
  | nil : RB .black 0 .nil
  | red {n : Nat} {l r : CTree α} {x : α} :
      RB .black n l → RB .black n r → RB .red n (.node l .red x r)
  | black {n : Nat} {c d : Color} {l r : CTree α} {x : α} :
      RB c n l → RB d n r → RB .black (n + 1) (.node l .black x r)

namespace RB

variable {c d : Color} {n : Nat} {t : CTree α}

theorem color_eq (shape : RB c n t) : t.color = c := by
  cases shape <;> rfl

theorem red_mk (d : Dir) {near far : CTree α} {x : α} (nearRB : RB .black n near)
    (farRB : RB .black n far) : RB .red n (CTree.mk d near .red x far) := by
  cases d with
  | left => exact .red nearRB farRB
  | right => exact .red farRB nearRB

theorem black_mk (d : Dir) {c₁ c₂ : Color} {near far : CTree α} {x : α} (nearRB : RB c₁ n near)
    (farRB : RB c₂ n far) : RB .black (n + 1) (CTree.mk d near .black x far) := by
  cases d with
  | left => exact .black nearRB farRB
  | right => exact .black farRB nearRB

theorem of_red_mk {d : Dir} {near far : CTree α} {x : α}
    (shape : RB c n (CTree.mk d near .red x far)) :
    c = .red ∧ RB .black n near ∧ RB .black n far := by
  cases d <;> cases shape with
  | red l r => exact ⟨rfl, by assumption, by assumption⟩

theorem of_black_mk {d : Dir} {near far : CTree α} {x : α}
    (shape : RB c n (CTree.mk d near .black x far)) :
    c = .black ∧ ∃ m c₁ c₂, n = m + 1 ∧ RB c₁ m near ∧ RB c₂ m far := by
  cases d <;> cases shape with
  | black l r => exact ⟨rfl, _, _, _, rfl, by assumption, by assumption⟩

/-- A subtree of black height zero is a leaf, or one red node. -/
theorem height_zero (shape : RB c 0 t) :
    t = .nil ∨ ∃ x, t = .node .nil .red x .nil := by
  cases shape with
  | nil => exact Or.inl rfl
  | red l r =>
      cases l
      cases r
      exact Or.inr ⟨_, rfl⟩

theorem ne_nil (shape : RB c (n + 1) t) : t ≠ .nil := by
  rintro rfl
  cases shape

theorem nil_height (shape : RB c n (.nil : CTree α)) : n = 0 := by
  cases shape
  rfl

/-- A blackened subtree is still red-black, one higher if the root was red. -/
theorem blacken (shape : RB c n t) : ∃ m, RB .black m t.blacken := by
  cases shape with
  | nil => exact ⟨0, .nil⟩
  | red l r => exact ⟨_, .black l r⟩
  | black l r => exact ⟨_, .black l r⟩

theorem map (g : α → β) (shape : RB c n t) : RB c n (t.map g) := by
  induction shape with
  | nil => exact .nil
  | red _ _ left right => exact .red left right
  | black _ _ left right => exact .black left right

end RB

/-- **A red-black context** whose hole takes a subtree of black height `n`. A red ancestor has a
black one above it. -/
inductive RBCtx : Ctx α → Nat → Prop
  | nil {n : Nat} : RBCtx [] n
  | red {n : Nat} {f : Frame α} {ctx : Ctx α} : f.color = .red → RB .black n f.other →
      Ctx.color ctx = .black → RBCtx ctx n → RBCtx (f :: ctx) n
  | black {n : Nat} {c : Color} {f : Frame α} {ctx : Ctx α} : f.color = .black → RB c n f.other →
      RBCtx ctx (n + 1) → RBCtx (f :: ctx) n

namespace RBCtx

variable {ctx : Ctx α} {f : Frame α} {n : Nat}

/-- **Filling a red-black context.** The subtree must be black where the context asks for it. -/
theorem plug (around : RBCtx ctx n) {c : Color} {t : CTree α} (shape : RB c n t)
    (fits : c = .black ∨ Ctx.color ctx = .black) : ∃ m, RB .black m (Ctx.plug ctx t) := by
  induction around generalizing c t with
  | @nil n =>
      rcases fits with rfl | impossible
      · exact ⟨n, shape⟩
      · cases impossible
  | @red n f ctx isRed other above _ ih =>
      obtain ⟨side, fc, x, o⟩ := f
      simp only at isRed
      subst isRed
      have black : c = .black := by
        rcases fits with isBlack | impossible
        · exact isBlack
        · cases impossible
      subst black
      exact ih (.red_mk side shape other) (Or.inr above)
  | @black n c' f ctx isBlack other _ ih =>
      obtain ⟨side, fc, x, o⟩ := f
      simp only at isBlack
      subst isBlack
      exact ih (.black_mk side shape other) (Or.inl rfl)

theorem map (g : α → β) (around : RBCtx ctx n) : RBCtx (Ctx.map g ctx) n := by
  induction around with
  | nil => exact .nil
  | red isRed other above _ ih => exact .red isRed (other.map g) ((Ctx.color_map g _).trans above) ih
  | black isBlack other _ ih => exact .black isBlack (other.map g) ih

/-- The other child of an ancestor has the height of the hole. -/
theorem other (around : RBCtx (f :: ctx) n) : ∃ c, RB c n f.other := by
  cases around with
  | red _ other _ _ => exact ⟨_, other⟩
  | black _ other _ => exact ⟨_, other⟩

/-- A red ancestor: its other child is black, and there is a black ancestor above it. -/
theorem of_red (around : RBCtx (f :: ctx) n) (isRed : f.color = .red) :
    RB .black n f.other ∧ ∃ g rest c, ctx = g :: rest ∧ g.color = .black ∧ RB c n g.other ∧
      RBCtx rest (n + 1) := by
  cases around with
  | red _ other above outer =>
      refine ⟨other, ?_⟩
      cases outer with
      | nil => cases above
      | red red' _ _ _ =>
          rw [Ctx.color, red'] at above
          cases above
      | black isBlack other' outer' => exact ⟨_, _, _, rfl, isBlack, other', outer'⟩
  | black isBlack _ _ =>
      rw [isRed] at isBlack
      cases isBlack

theorem of_black (around : RBCtx (f :: ctx) n) (isBlack : f.color = .black) :
    (∃ c, RB c n f.other) ∧ RBCtx ctx (n + 1) := by
  cases around with
  | red isRed _ _ _ =>
      rw [isBlack] at isRed
      cases isRed
  | black _ other outer => exact ⟨⟨_, other⟩, outer⟩

end RBCtx

/-- **Taking a red-black tree apart** at any of its subtrees. -/
theorem RB.unplug {ctx : Ctx α} {t : CTree α} {c : Color} {m : Nat}
    (whole : RB c m (Ctx.plug ctx t)) (rootBlack : c = .black) :
    ∃ n d, RBCtx ctx n ∧ RB d n t ∧ (d = .black ∨ Ctx.color ctx = .black) := by
  subst rootBlack
  suffices step : ∀ (ctx : Ctx α) (t : CTree α), (∃ m, RB .black m (Ctx.plug ctx t)) →
      ∃ n d, RBCtx ctx n ∧ RB d n t ∧ (d = .black ∨ Ctx.color ctx = .black) from
    step ctx t ⟨m, whole⟩
  intro ctx
  induction ctx with
  | nil =>
      rintro t ⟨m, shape⟩
      exact ⟨m, .black, .nil, shape, Or.inl rfl⟩
  | cons f ctx ih =>
      rintro t ⟨m, shape⟩
      obtain ⟨n, d, around, filled, fits⟩ := ih (f.fill t) ⟨m, shape⟩
      obtain ⟨side, fc, x, other⟩ := f
      cases fc with
      | red =>
          obtain ⟨rfl, near, far⟩ := RB.of_red_mk filled
          have above : Ctx.color ctx = .black := by
            rcases fits with impossible | above
            · cases impossible
            · exact above
          exact ⟨n, .black, .red rfl far above around, near, Or.inl rfl⟩
      | black =>
          obtain ⟨rfl, k, c₁, c₂, rfl, near, far⟩ := RB.of_black_mk filled
          exact ⟨k, c₁, .black rfl far around, near, Or.inr rfl⟩

/-! ### Height -/

namespace CTree

/-- The number of nodes on a longest way down. -/
def height : CTree α → Nat
  | nil => 0
  | node l _ _ r => max l.height r.height + 1

@[simp] theorem height_nil : (nil : CTree α).height = 0 := rfl

@[simp] theorem height_node (l : CTree α) (c : Color) (x : α) (r : CTree α) :
    (node l c x r).height = max l.height r.height + 1 := rfl

theorem height_mk (d : Dir) (near far : CTree α) (c : Color) (x : α) :
    (mk d near c x far).height = max near.height far.height + 1 := by
  cases d with
  | left => rfl
  | right => rw [mk, height_node, max_comm]

end CTree

/-- The ancestors of a hole and a way down from it are on one way down from the root. -/
theorem Ctx.length_add_height_le (ctx : Ctx α) (t : CTree α) :
    ctx.length + t.height ≤ (Ctx.plug ctx t).height := by
  induction ctx generalizing t with
  | nil => simp
  | cons f ctx ih =>
      have outer := ih (f.fill t)
      have filled : t.height + 1 ≤ (f.fill t).height := by
        rw [Frame.fill, CTree.height_mk]
        exact Nat.succ_le_succ (le_max_left _ _)
      rw [plug_cons, List.length_cons]
      omega

namespace RB

variable {c : Color} {n : Nat} {t : CTree α}

/-- At most every second node on a way down is red. -/
theorem height_le (shape : RB c n t) : t.height ≤ 2 * n + 1 ∧ (c = .black → t.height ≤ 2 * n) := by
  induction shape with
  | nil => exact ⟨Nat.zero_le _, fun _ => le_refl _⟩
  | red _ _ left right =>
      refine ⟨?_, nofun⟩
      rw [CTree.height_node]
      exact Nat.succ_le_succ (max_le (left.2 rfl) (right.2 rfl))
  | black _ _ left right =>
      have below := max_le left.1 right.1
      rw [CTree.height_node]
      exact ⟨by omega, fun _ => by omega⟩

/-- There are enough labels for every way down to have `n` black nodes. -/
theorem two_pow_le (shape : RB c n t) : 2 ^ n ≤ t.labels.length + 1 := by
  induction shape with
  | nil => exact le_refl _
  | red _ _ left _ =>
      rw [CTree.labels_node, List.length_append]
      omega
  | black _ _ left right =>
      rw [CTree.labels_node, List.length_append, List.length_cons, Nat.pow_succ]
      omega

/-- **The height of a red-black tree** is logarithmic in the number of its labels. -/
theorem height_le_log (shape : RB .black n t) : t.height ≤ 2 * Nat.log 2 (t.labels.length + 1) := by
  have low := shape.height_le.2 rfl
  have black : n ≤ Nat.log 2 (t.labels.length + 1) :=
    Nat.le_log_of_pow_le Nat.one_lt_two shape.two_pow_le
  omega

end RB

end Nutcracker.Lib
