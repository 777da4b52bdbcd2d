/-
**Removal.**

`remove` takes one node out of its place: `node` itself if it has at most one child, else the first
node of the whole tree, which then takes over the place and the color of `node`. Its only subtree
moves up, and the rebalancing loop starts there.

* `unlink_spec` — the writes that move the subtree up, with any parent link for it.
* `takeOver_spec` — one node takes over the place of another. Only child links below that place
  matter; the parent links there are rewritten.
* `remove_root`, `remove_inner` — a node with at most one child, at the root and below it.
* `remove_two` — a node with two children.
* `remove_spec` — **removal from a red-black tree ends with a red-black tree**. The sequence loses
  `node`, or loses its first node, which then stands where `node` stood (`afterRemove`).

Without a sentinel the subtree that moves up has to exist (`HasChild`).
-/

import Nutcracker.RbTree.Rebalance
import Nutcracker.RbTree.Extremes

namespace Nutcracker

open Lib

namespace NcRbTree

/-- **Frame of `remove`**: outside the tree only the sentinel changes, which keeps its color; the
removed node is reset. -/
structure Releases (xs : List Addr) (x : Addr) (t t' : NcRbTree) : Prop where
  sentinel : t'.m_sentinel = t.m_sentinel
  black : t'.SentinelBlack
  outside : ∀ z, z ∉ xs → some z ≠ t.m_sentinel → t'.mem z = t.mem z
  key : ∀ z, z ≠ x → (t'.mem z).key = (t.mem z).key
  reset : (t'.mem x).key = 0 ∧ (t'.mem x).data = none

/-- A write to a cell that is not the sentinel keeps the sentinel's color. -/
theorem SentinelBlack.put_real {t : NcRbTree} {x : Addr} (black : t.SentinelBlack)
    (real : some x ≠ t.m_sentinel) (f : RbNode → RbNode) : (t.put x f).SentinelBlack := by
  intro z isSentinel
  have notX : z ≠ x := fun same => real (same ▸ isSentinel.symm)
  rw [put_of_ne _ _ _ notX]
  exact black z isSentinel

/-- A write to a cell that is not the sentinel keeps the sentinel's parent field. -/
theorem Lent.put_real {t : NcRbTree} {T : CTree Addr} {q : Ptr} {x : Addr} (lent : Lent t T q)
    (real : some x ≠ t.m_sentinel) (f : RbNode → RbNode) : Lent (t.put x f) T q := by
  intro isNil z isSentinel
  have notX : z ≠ x := fun same => real (same ▸ isSentinel.symm)
  rw [put_of_ne _ _ _ notX]
  exact lent isNil z isSentinel

/-! ### Taking a node out of its place -/

section Unlink

variable {t : NcRbTree} {top : Ptr} {f : Frame Addr} {ctx : Ctx Addr} {d : Dir} {B : CTree Addr}
  {c : Color} {m : Addr}

/-- What the writes that move the subtree `B` up leave behind. -/
structure Unlinked (t : NcRbTree) (top : Ptr) (f : Frame Addr) (ctx : Ctx Addr) (B : CTree Addr)
    (q : Ptr) (t' : NcRbTree) : Prop where
  root : t'.m_root = t.m_root
  sentinel : t'.m_sentinel = t.m_sentinel
  above : RepCtx t'.links t.m_sentinel top (B.ptr t.m_sentinel) (f :: ctx)
  here : Rep t'.links t.m_sentinel q B
  lent : Lent t' B q
  black : t'.SentinelBlack
  outside : ∀ z, z ∉ (Ctx.plug (f :: ctx) B).labels → some z ≠ t.m_sentinel → t'.mem z = t.mem z
  key : ∀ z, (t'.mem z).key = (t.mem z).key

/-- **The subtree moves up.** -/
theorem unlink_spec (q : Ptr) (holds : Holds t top (Ctx.plug (f :: ctx) (.mk d .nil c m B)))
    (black : t.SentinelBlack) (readable : t.m_sentinel = none → B ≠ .nil) :
    ∃ t', (t.put f.label (RbNode.withChild f.side (B.ptr t.m_sentinel))).setParent
        (B.ptr t.m_sentinel) q = .ok t' ∧ Unlinked t top f ctx B q t' := by
  obtain ⟨root, above, here, nodupCtx, nodupHere, apart⟩ := holds_plug.mp holds
  obtain ⟨-, -, -, -, -, -, inB⟩ := rep_mk.mp here
  obtain ⟨-, nodupB, -, mNotB, -⟩ := CTree.nodup_labels_mk.mp nodupHere
  have fIn : f.label ∈ Ctx.labels (f :: ctx) := Ctx.mem_labels_cons.mpr (Or.inl rfl)
  have fReal : some f.label ≠ t.m_sentinel :=
    holds.rep.real f.label (Ctx.mem_labels_plug.mpr (Or.inl fIn))
  have bApart : ∀ z ∈ B.labels, z ∉ Ctx.labels (f :: ctx) := fun z member =>
    apart (CTree.mem_labels_mk.mpr (Or.inr (Or.inr member)))
  -- `temp` is a cell: the root of `B`, or the sentinel
  obtain ⟨y, atY⟩ : ∃ y, B.ptr t.m_sentinel = some y := by
    cases B with
    | nil =>
        refine Option.ne_none_iff_exists'.mp fun isNull => ?_
        exact readable isNull rfl
    | node l c' y r => exact ⟨y, rfl⟩
  have yNotCtx : y ∉ Ctx.labels (f :: ctx) := by
    intro member
    by_cases isSentinel : some y = t.m_sentinel
    · exact holds.rep.real y (Ctx.mem_labels_plug.mpr (Or.inl member)) isSentinel
    · exact bApart y (CTree.ptr_eq_some atY isSentinel) member
  have yNeF : y ≠ f.label := fun same => yNotCtx (same ▸ fIn)
  rw [atY, setParent_some]
  refine ⟨_, rfl, ⟨rfl, rfl, ?_, ?_, ?_, ?_, ?_, ?_⟩⟩
  · rw [atY]
    refine above.relink nodupCtx ?_ fun z member different => ?_
    · simp only [links, put_of_ne _ _ _ yNeF.symm, put_self, RbNode.toLinks_withChild]
    · have notY : z ≠ y := fun same => yNotCtx (same ▸ member)
      simp only [links, put_of_ne _ _ _ notY, put_of_ne _ _ _ different]
  · refine inB.reparent nodupB (fun z isRoot _ => ?_) fun z member notRoot => ?_
    · rw [atY, Option.some.injEq] at isRoot
      subst isRoot
      simp only [links, put_self, RbNode.toLinks_withParent, put_of_ne _ _ _ yNeF]
    · have notY : z ≠ y := fun same => notRoot (by rw [atY, same])
      have notF : z ≠ f.label := fun same => bApart z member (same ▸ fIn)
      simp only [links, put_of_ne _ _ _ notY, put_of_ne _ _ _ notF]
  · intro isNil z isSentinel
    rw [isNil, CTree.ptr_nil, show t.m_sentinel = some z from isSentinel, Option.some.injEq] at atY
    rw [← atY, put_self]
    rfl
  · intro z isSentinel
    have notF : z ≠ f.label := fun same => fReal (same ▸ isSentinel.symm)
    have sameColor : ∀ w, w ≠ f.label → (((t.put f.label
        (RbNode.withChild f.side (some y))).put y (RbNode.withParent q)).mem w).color =
          (t.mem w).color := by
      intro w notF
      by_cases isY : w = y
      · rw [isY, put_self, put_of_ne _ _ _ yNeF]
        rfl
      · rw [put_of_ne _ _ _ isY, put_of_ne _ _ _ notF]
    rw [sameColor z notF]
    exact black z isSentinel
  · intro z notIn notSentinel
    rw [Ctx.mem_labels_plug, not_or] at notIn
    have notF : z ≠ f.label := fun same => notIn.1 (same ▸ fIn)
    have notY : z ≠ y := fun same =>
      notIn.2 (CTree.ptr_eq_some (same ▸ atY) notSentinel)
    rw [put_of_ne _ _ _ notY, put_of_ne _ _ _ notF]
  · intro z
    have first : Touches [f.label] t (t.put f.label (RbNode.withChild f.side (some y))) :=
      .put (fun _ => rfl) (List.mem_singleton.mpr rfl)
    have second : Touches [y] (t.put f.label (RbNode.withChild f.side (some y)))
        ((t.put f.label (RbNode.withChild f.side (some y))).put y (RbNode.withParent q)) :=
      .put (fun _ => rfl) (List.mem_singleton.mpr rfl)
    exact (second.key z).trans (first.key z)

end Unlink

/-! ### Taking over a place -/

/-- The first writes of `takeOver`: `m` gets all links and the color of another node. -/
def inherit (t : NcRbTree) (m : Addr) (links : Links Addr) : NcRbTree :=
  (((t.put m (RbNode.withChild .left links.left)).put m (RbNode.withChild .right links.right)).put m
    (RbNode.withParent links.parent)).put m (RbNode.withColor links.color)

theorem links_inherit (t : NcRbTree) (m : Addr) (given : Links Addr) :
    (t.inherit m given).links m = given := by
  simp only [links, inherit, put_self, RbNode.toLinks_withColor, RbNode.toLinks_withParent,
    RbNode.toLinks_withChild, Links.setChild]

theorem inherit_of_ne (t : NcRbTree) {m z : Addr} (given : Links Addr) (notM : z ≠ m) :
    (t.inherit m given).mem z = t.mem z := by
  simp only [inherit, put_of_ne _ _ _ notM]

theorem touches_inherit (t : NcRbTree) (m : Addr) (given : Links Addr) :
    Touches [m] t (t.inherit m given) := by
  have mIn : m ∈ [m] := List.mem_singleton.mpr rfl
  calc Touches _ t _ := .put (f := RbNode.withChild .left given.left) (fun _ => rfl) mIn
    Touches _ _ _ := .put (f := RbNode.withChild .right given.right) (fun _ => rfl) mIn
    Touches _ _ _ := .put (f := RbNode.withParent given.parent) (fun _ => rfl) mIn
    Touches _ _ _ := .put (f := RbNode.withColor given.color) (fun _ => rfl) mIn

/-- Two subtrees get a new parent. -/
theorem adopt_both {t : NcRbTree} {pl pr : Ptr} {l r : CTree Addr} {m : Addr}
    (inL : Rep t.links t.m_sentinel pl l) (inR : Rep t.links t.m_sentinel pr r)
    (nodupL : l.labels.Nodup) (nodupR : r.labels.Nodup) (apart : l.labels.Disjoint r.labels)
    (mNotL : m ∉ l.labels) :
    ∃ t₁ t₂, t.adopt (l.ptr t.m_sentinel) (some m) = .ok t₁ ∧
      t₁.adopt (r.ptr t.m_sentinel) (some m) = .ok t₂ ∧ t₁.links m = t.links m ∧
      t₂.m_root = t.m_root ∧ Rep t₂.links t₂.m_sentinel (some m) l ∧
      Rep t₂.links t₂.m_sentinel (some m) r ∧ Touches (l.labels ++ r.labels) t t₂ := by
  obtain ⟨t₁, adoptL, root₁, inL₁, frame₁⟩ := adopt_spec (some m) inL nodupL
  have inR₁ : Rep t₁.links t₁.m_sentinel pr r := by
    rw [frame₁.sentinel]
    exact inR.congr fun z member => frame₁.links_eq fun inL => apart inL member
  obtain ⟨t₂, adoptR, root₂, inR₂, frame₂⟩ := adopt_spec (some m) inR₁ nodupR
  have sentinel₂ : t₂.m_sentinel = t.m_sentinel := frame₂.sentinel.trans frame₁.sentinel
  rw [frame₁.sentinel] at adoptR inR₂
  refine ⟨t₁, t₂, adoptL, adoptR, frame₁.links_eq mNotL, root₂.trans root₁, ?_, ?_, ?_⟩
  · rw [sentinel₂]
    exact inL₁.congr fun z member => frame₂.links_eq fun inR => apart member inR
  · rw [sentinel₂]
    exact inR₂
  · calc Touches (l.labels ++ r.labels) t t₁ :=
          frame₁.mono fun z member => List.mem_append_left r.labels member
      Touches (l.labels ++ r.labels) t₁ t₂ :=
          frame₂.mono fun z member => List.mem_append_right l.labels member

/-- **One node takes over the place of another.** -/
theorem takeOver_spec {t : NcRbTree} {top pl pr : Ptr} {ctx : Ctx Addr} {l r : CTree Addr}
    {c : Color} {x m : Addr} (root : t.m_root = Ctx.root (some x) ctx)
    (above : RepCtx t.links t.m_sentinel top (some x) ctx) (xReal : some x ≠ t.m_sentinel)
    (here : t.links x = ⟨l.ptr t.m_sentinel, r.ptr t.m_sentinel, Ctx.parent top ctx, c⟩)
    (inL : Rep t.links t.m_sentinel pl l) (inR : Rep t.links t.m_sentinel pr r)
    (nodup : (Ctx.plug ctx (.node l c x r)).labels.Nodup)
    (fresh : m ∉ (Ctx.plug ctx (.node l c x r)).labels) (mReal : some m ≠ t.m_sentinel) :
    ∃ t', t.takeOver (some x) (some m) = .ok t' ∧ Holds t' top (Ctx.plug ctx (.node l c m r)) ∧
      Touches (m :: (Ctx.plug ctx (.node l c x r)).labels) t t' := by
  obtain ⟨nodupCtx, nodupHere, apart⟩ := Ctx.nodup_labels_plug.mp nodup
  rw [Ctx.mem_labels_plug, not_or] at fresh
  obtain ⟨mNotCtx, mNotHere⟩ := fresh
  rw [CTree.labels_node, List.nodup_append', List.nodup_cons, List.disjoint_cons_right] at nodupHere
  obtain ⟨nodupL, ⟨xNotR, nodupR⟩, xNotL, apartLR⟩ := nodupHere
  simp only [CTree.labels_node, List.mem_append, List.mem_cons, not_or] at mNotHere
  obtain ⟨mNotL, notSame, mNotR⟩ := mNotHere
  have mNeX : m ≠ x := notSame
  have xNotCtx : x ∉ Ctx.labels ctx := apart (by simp)
  have lNotCtx : ∀ z ∈ l.labels, z ∉ Ctx.labels ctx := fun z member => apart (by simp [member])
  have rNotCtx : ∀ z ∈ r.labels, z ∉ Ctx.labels ctx := fun z member => apart (by simp [member])
  -- `m` gets all links and the color of `x`
  let t₁ := t.inherit m ⟨l.ptr t.m_sentinel, r.ptr t.m_sentinel, Ctx.parent top ctx, c⟩
  have t₁M : t₁.links m = ⟨l.ptr t.m_sentinel, r.ptr t.m_sentinel, Ctx.parent top ctx, c⟩ :=
    links_inherit t m _
  have t₁Else : ∀ z, z ≠ m → t₁.mem z = t.mem z := fun z notM => inherit_of_ne t _ notM
  have frame₁ : Touches (m :: (Ctx.plug ctx (.node l c x r)).labels) t t₁ :=
    (touches_inherit t m _).mono fun z member => by
      rw [List.mem_singleton.mp member]
      exact List.mem_cons_self
  have keep : ∀ {U : CTree Addr} {q : Ptr}, m ∉ U.labels → Rep t.links t.m_sentinel q U →
      Rep t₁.links t.m_sentinel q U := fun notIn inU => inU.congr fun z member => by
    simp only [links, t₁Else z fun same => notIn (same ▸ member)]
  have above₁ : RepCtx t₁.links t₁.m_sentinel top (some x) ctx := above.congr fun z member => by
    simp only [links, t₁Else z fun same => mNotCtx (same ▸ member)]
  have parent₁ : (t₁.mem x).parent = Ctx.parent top ctx := by
    rw [t₁Else x mNeX.symm]
    exact congrArg Links.parent here
  obtain ⟨t₂, relinked, root₂, above₂, frame₂⟩ :=
    relink_spec (t := t₁) .left (some m) root above₁ parent₁ xNotCtx xReal nodupCtx
  -- the two subtrees get their new parent
  have sentinel₂ : t₂.m_sentinel = t.m_sentinel := frame₂.sentinel
  have inL₂ : Rep t₂.links t₂.m_sentinel pl l := by
    rw [sentinel₂]
    exact (keep mNotL inL).congr fun z member => frame₂.links_eq (lNotCtx z member)
  have inR₂ : Rep t₂.links t₂.m_sentinel pr r := by
    rw [sentinel₂]
    exact (keep mNotR inR).congr fun z member => frame₂.links_eq (rNotCtx z member)
  obtain ⟨t₃, t₄, adoptL, adoptR, mLinks₃, root₄, inL₄, inR₄, frame₄⟩ :=
    adopt_both inL₂ inR₂ nodupL nodupR apartLR mNotL
  have sentinel₄ : t₄.m_sentinel = t.m_sentinel := frame₄.sentinel.trans sentinel₂
  rw [sentinel₂] at adoptL adoptR
  rw [sentinel₄] at inL₄ inR₄
  have notLR : ∀ z ∈ Ctx.labels ctx, z ∉ l.labels ++ r.labels := fun z member inLR => by
    rcases List.mem_append.mp inLR with inL | inR
    · exact lNotCtx z inL member
    · exact rNotCtx z inR member
  have mNotLR : m ∉ l.labels ++ r.labels := mt List.mem_append.mp (not_or.mpr ⟨mNotL, mNotR⟩)
  have mLinks₂ : t₂.links m = t₁.links m := frame₂.links_eq mNotCtx
  have mLinks₄ : t₄.links m = t₁.links m := (frame₄.links_eq mNotLR).trans mLinks₂
  have xLeft : (t.mem x).child .left = l.ptr t.m_sentinel := congrArg Links.left here
  have xRight : (t.mem x).child .right = r.ptr t.m_sentinel := congrArg Links.right here
  have xParent : (t.mem x).parent = Ctx.parent top ctx := congrArg Links.parent here
  have xColor : (t.mem x).color = c := congrArg Links.color here
  have mLeft₂ : (t₂.mem m).child .left = l.ptr t.m_sentinel :=
    congrArg Links.left (mLinks₂.trans t₁M)
  have mRight₃ : (t₃.mem m).child .right = r.ptr t.m_sentinel :=
    congrArg Links.right (mLinks₃.trans (mLinks₂.trans t₁M))
  refine ⟨t₄, ?_, holds_plug.mpr ⟨?_, ?_, ⟨?_, ?_, ?_, ?_, ?_, ?_, ?_⟩, nodupCtx, ?_, ?_⟩, ?_⟩
  · simp only [t₁, inherit] at relinked
    simp only [takeOver, child_some, ok_bind, xLeft, setChild_some, put_of_ne _ _ _ mNeX.symm,
      xRight, parent_some, xParent, setParent_some, color_some, xColor, setColor_some, relinked,
      mLeft₂, adoptL, mRight₃, adoptR]
  · rw [root₄, root₂, CTree.ptr_node]
  · rw [sentinel₄, CTree.ptr_node]
    exact above₂.congr fun z member => frame₄.links_eq (notLR z member)
  · rw [sentinel₄]
    exact mReal
  · rw [sentinel₄, mLinks₄, t₁M]
  · rw [sentinel₄, mLinks₄, t₁M]
  · rw [mLinks₄, t₁M]
  · rw [mLinks₄, t₁M]
  · rw [sentinel₄]
    exact inL₄
  · rw [sentinel₄]
    exact inR₄
  · rw [CTree.labels_node, List.nodup_append', List.nodup_cons, List.disjoint_cons_right]
    exact ⟨nodupL, ⟨mNotR, nodupR⟩, mNotL, apartLR⟩
  · intro z member inCtx
    rw [CTree.labels_node, List.mem_append, List.mem_cons] at member
    rcases member with inL | rfl | inR
    · exact lNotCtx z inL inCtx
    · exact mNotCtx inCtx
    · exact rNotCtx z inR inCtx
  · have all : ∀ z, z ∈ Ctx.labels ctx ∨ z ∈ l.labels ∨ z ∈ r.labels →
        z ∈ m :: (Ctx.plug ctx (.node l c x r)).labels := by
      intro z member
      rw [List.mem_cons, Ctx.mem_labels_plug, CTree.labels_node, List.mem_append, List.mem_cons]
      tauto
    calc Touches _ t t₁ := frame₁
      Touches _ _ t₂ := frame₂.mono fun z member => all z (Or.inl member)
      Touches _ _ t₄ := frame₄.mono fun z member => all z (Or.inr (List.mem_append.mp member))

/-! ### The two cases -/

section Finish

variable {t : NcRbTree} {top : Ptr} {ctx : Ctx Addr} {d : Dir} {B : CTree Addr} {c cm : Color}
  {n : Nat} {m : Addr}

/-- What is left of the tree was in the tree. -/
theorem mem_of_mem_unlinked {z : Addr} (member : z ∈ (Ctx.plug ctx B).labels) :
    z ∈ (Ctx.plug ctx (.mk d .nil c m B)).labels := by
  rw [Ctx.mem_labels_plug] at member ⊢
  rw [CTree.mem_labels_mk]
  tauto

theorem mem_unlinked : m ∈ (Ctx.plug ctx (.mk d .nil c m B)).labels :=
  Ctx.mem_labels_plug.mpr (Or.inr (CTree.mem_labels_mk.mpr (Or.inr (Or.inl rfl))))

/-- The subtree of a node with at most one child is empty, or a red leaf below a black node. -/
theorem unlinked_shape (shape : RB c n (.mk d .nil cm m B)) :
    (cm = .red ∧ n = 0 ∧ B = .nil) ∨
      (cm = .black ∧ n = 1 ∧ (B = .nil ∨ ∃ y, B = .node .nil .red y .nil)) := by
  cases cm with
  | red =>
      obtain ⟨-, nearRB, farRB⟩ := RB.of_red_mk shape
      obtain rfl := nearRB.nil_height
      rcases farRB.height_zero with isNil | ⟨y, isLeaf⟩
      · exact Or.inl ⟨rfl, rfl, isNil⟩
      · rw [isLeaf] at farRB
        cases farRB
  | black =>
      obtain ⟨-, k, c₁, c₂, rfl, nearRB, farRB⟩ := RB.of_black_mk shape
      obtain rfl := nearRB.nil_height
      exact Or.inr ⟨rfl, rfl, farRB.height_zero⟩

/-- **The end of `remove`**: nothing to do below a red node, the loop below a black one. -/
theorem finish_spec (fuel : Nat) (enough : ctx.length + 2 ≤ fuel)
    (holds : Holds t top (Ctx.plug ctx B)) (black : t.SentinelBlack)
    (lent : Lent t B (Ctx.parent top ctx)) (around : RBCtx ctx n)
    (shape : RB c n (.mk d .nil cm m B)) (somewhere : ctx ≠ [])
    (readable : t.m_sentinel = none → B ≠ .nil) :
    ∃ t' T', (if cm = .red then .ok t else t.rebalance fuel (B.ptr t.m_sentinel)) = .ok t' ∧
      Holds t' top T' ∧ T'.labels = (Ctx.plug ctx B).labels ∧ (∃ m, RB .black m T') ∧
      Touches (Ctx.plug ctx B).labels t t' := by
  rcases unlinked_shape shape with ⟨rfl, rfl, rfl⟩ | ⟨rfl, rfl, leaf⟩
  · exact ⟨t, _, if_pos rfl, holds, rfl, around.plug .nil (Or.inl rfl), .refl⟩
  · have deficit : Deficit 0 B := by
      rcases leaf with rfl | ⟨y, rfl⟩
      · exact Or.inl .nil
      · exact Or.inr ⟨rfl, .black .nil .nil⟩
    have isRed : t.m_sentinel = none → B.color = .red := by
      intro isNull
      rcases leaf with isNil | ⟨y, rfl⟩
      · exact absurd isNil (readable isNull)
      · rfl
    rw [if_neg (fun isRed => by cases isRed)]
    exact rebalance_spec fuel enough holds black lent around deficit (fun _ => somewhere) isRed

/-- The code's choice for a node with at most one child. -/
theorem substitute_one (fuel : Nat) (holds : Holds t top (Ctx.plug ctx (.mk d .nil c m B))) :
    t.substitute fuel (some m) = .ok (some m, B.ptr t.m_sentinel) := by
  have near := holds.child_near
  have far := holds.child_far
  rw [CTree.ptr_nil] at near
  cases d with
  | left =>
      rw [Dir.opp] at far
      simp only [substitute, child_some, near, ok_bind, if_true, far, pure_ok]
  | right =>
      rw [Dir.opp] at far
      by_cases isLeaf : B.ptr t.m_sentinel = t.m_sentinel
      · simp only [substitute, child_some, far, isLeaf, near, ok_bind, if_true, pure_ok]
      · simp only [substitute, child_some, far, near, ok_bind, if_neg isLeaf, if_true, pure_ok]

/-- The frame of the whole operation from the frames of its parts. -/
theorem Releases.of_parts {xs ys : List Addr} {x : Addr} {t₁ t₂ : NcRbTree}
    (sentinel : t₁.m_sentinel = t.m_sentinel) (black : t₁.SentinelBlack)
    (outside : ∀ z, z ∉ xs → some z ≠ t.m_sentinel → t₁.mem z = t.mem z)
    (key : ∀ z, (t₁.mem z).key = (t.mem z).key) (xIn : x ∈ xs) (xReal : some x ≠ t.m_sentinel)
    (frame : Touches ys (t₁.put x fun _ => RbNode.reset) t₂)
    (sub : ∀ y ∈ ys, y ∈ xs) (xNotIn : x ∉ ys) (real : ∀ y ∈ ys, some y ≠ t.m_sentinel) :
    Releases xs x t t₂ where
  sentinel := frame.sentinel.trans sentinel
  black := by
    refine (black.put_real (sentinel ▸ xReal) _).touches frame fun y member => ?_
    rw [put_sentinel, sentinel]
    exact real y member
  outside z notIn notSentinel := by
    have notX : z ≠ x := fun same => notIn (same ▸ xIn)
    rw [frame.outside z fun member => notIn (sub z member), put_of_ne _ _ _ notX]
    exact outside z notIn notSentinel
  key z notX := by
    rw [frame.key z, put_of_ne _ _ _ notX, key z]
  reset := by
    rw [frame.outside x xNotIn, put_self]
    exact ⟨rfl, rfl⟩

/-- What the writes leave behind that make the subtree `B` of the root the new root, and paint it
black. -/
structure Rerooted (t : NcRbTree) (x : Addr) (B : CTree Addr) (t' : NcRbTree) : Prop where
  tree : ∃ T', Holds t' (some x) T' ∧ T'.labels = B.labels ∧ ∃ m, RB .black m T'
  sentinel : t'.m_sentinel = t.m_sentinel
  black : t'.SentinelBlack
  outside : ∀ z, z ∉ B.labels → some z ≠ t.m_sentinel → t'.mem z = t.mem z
  key : ∀ z, (t'.mem z).key = (t.mem z).key

/-- **The root leaves, and its subtree is the new root.** -/
theorem reroot_spec {x : Addr} (holds : Holds t top (.mk d .nil c x B))
    (shape : RB cm n (.mk d .nil c x B)) (black : t.SentinelBlack)
    (readable : t.m_sentinel = none → B ≠ .nil) :
    ∃ t', ({ t with m_root := B.ptr t.m_sentinel } : NcRbTree).setColor (B.ptr t.m_sentinel) .black
        = .ok t' ∧ Rerooted t x B t' := by
  obtain ⟨-, nodupB, -, -, -⟩ := CTree.nodup_labels_mk.mp holds.nodup
  obtain ⟨-, -, -, -, -, -, inB⟩ := rep_mk.mp holds.rep
  let t₁ : NcRbTree := { t with m_root := B.ptr t.m_sentinel }
  by_cases isNil : B = .nil
  · -- the last node leaves, and the code paints the sentinel
    obtain ⟨s, isSentinel⟩ := Option.ne_none_iff_exists'.mp fun isNull => readable isNull isNil
    have frame : Touches [s] t₁ (t₁.put s (RbNode.withColor .black)) :=
      .put (fun _ => rfl) (List.mem_singleton.mpr rfl)
    refine ⟨t₁.put s (RbNode.withColor .black), ?_, ⟨.nil, ⟨?_, trivial, List.nodup_nil⟩,
      by rw [isNil], ⟨0, .nil⟩⟩, rfl, ?_, ?_, frame.key⟩
    · rw [isNil, CTree.ptr_nil, isSentinel, setColor_some]
      simp only [t₁, isNil, CTree.ptr_nil, isSentinel]
    · rw [put_root, put_sentinel, CTree.ptr_nil]
      exact inB.ptr_eq_iff.mpr isNil
    · intro z isZ
      have same : s = z := Option.some.inj (isSentinel.symm.trans isZ)
      rw [← same, put_self]
      rfl
    · intro z _ notSentinel
      exact frame.outside z fun member =>
        notSentinel (by rw [List.mem_singleton.mp member, isSentinel])
  · have holds₁ : Holds t₁ (some x) (Ctx.plug [] B) := ⟨rfl, inB, nodupB⟩
    obtain ⟨t₂, paint, holds₂, frame⟩ := blacken_spec holds₁ isNil
    have shape' : ∃ m, RB .black m B.blacken := by
      rcases unlinked_shape shape with ⟨-, -, gone⟩ | ⟨-, -, gone | ⟨y, rfl⟩⟩
      · exact absurd gone isNil
      · exact absurd gone isNil
      · exact ⟨1, .black .nil .nil⟩
    have black₂ : t₂.SentinelBlack := SentinelBlack.touches (t := t₁) black frame inB.real
    exact ⟨t₂, paint, ⟨B.blacken, holds₂, CTree.labels_blacken B, shape'⟩, frame.sentinel, black₂,
      fun z notIn _ => frame.outside z notIn, frame.key⟩

/-- `remove` of the root, which has at most one child. -/
theorem remove_root (fuel : Nat) {x : Addr} (holds : Holds t top (.mk d .nil c x B))
    (shape : RB cm n (.mk d .nil c x B)) (black : t.SentinelBlack)
    (readable : t.m_sentinel = none → B ≠ .nil) :
    ∃ t' T', t.remove fuel (some x) = .ok t' ∧ Holds t' (some x) T' ∧ T'.labels = B.labels ∧
      (∃ m, RB .black m T') ∧ Releases (.mk d .nil c x B : CTree Addr).labels x t t' := by
  have atRoot : Holds t top (Ctx.plug [] (.mk d .nil c x B)) := holds
  have subst := substitute_one fuel atRoot
  have isRoot : some x = t.m_root := by
    rw [holds.root, CTree.ptr_mk]
  have xNotB : x ∉ B.labels := atRoot.mem.2.1
  have xIn : x ∈ (.mk d .nil c x B : CTree Addr).labels :=
    CTree.mem_labels_mk.mpr (Or.inr (Or.inl rfl))
  obtain ⟨t₂, paint, rerooted⟩ := reroot_spec holds shape black readable
  obtain ⟨T', holds₂, labels, shape'⟩ := rerooted.tree
  have xNotIn : x ∉ T'.labels := labels ▸ xNotB
  refine ⟨t₂.put x fun _ => RbNode.reset, T', ?_, holds₂.put_outside xNotIn _, labels, shape', ?_⟩
  · simp only [remove, reduceCtorEq, if_false, subst, ok_bind, if_pos isRoot]
    rw [paint, ok_bind, store_some]
  · have last : Touches [] (t₂.put x fun _ => RbNode.reset) (t₂.put x fun _ => RbNode.reset) :=
      .refl
    refine .of_parts rerooted.sentinel rerooted.black (fun z notIn notSentinel => ?_) rerooted.key
      xIn atRoot.real last (fun y member => nomatch member) (fun member => nomatch member)
      fun y member => nomatch member
    exact rerooted.outside z
      (fun member => notIn (CTree.mem_labels_mk.mpr (Or.inr (Or.inr member)))) notSentinel

/-- `remove` of a node below the root that has at most one child. -/
theorem remove_inner (fuel : Nat) {x : Addr} {f : Frame Addr} (enough : (f :: ctx).length + 2 ≤ fuel)
    (holds : Holds t top (Ctx.plug (f :: ctx) (.mk d .nil c x B)))
    (shape : RB .black n (Ctx.plug (f :: ctx) (.mk d .nil c x B))) (black : t.SentinelBlack)
    (readable : t.m_sentinel = none → B ≠ .nil) :
    ∃ t' T', t.remove fuel (some x) = .ok t' ∧ Holds t' top T' ∧
      T'.labels = (Ctx.plug (f :: ctx) B).labels ∧ (∃ m, RB .black m T') ∧
      Releases (Ctx.plug (f :: ctx) (.mk d .nil c x B)).labels x t t' := by
  have subst := substitute_one fuel holds
  have xReal := holds.real
  obtain ⟨-, xNotB, xNotCtx⟩ := holds.mem
  have xNotIn : x ∉ (Ctx.plug (f :: ctx) B).labels := by
    rw [Ctx.mem_labels_plug, not_or]
    exact ⟨xNotCtx, xNotB⟩
  have xNeF : x ≠ f.label := fun same => xNotCtx (Ctx.mem_labels_cons.mpr (Or.inl same))
  have notRoot : some x ≠ t.m_root := holds.ne_root
  have parent : (t.mem x).parent = some f.label := holds.parent
  have color : (t.mem x).color = c := holds.color
  obtain ⟨k, cx, around, here, -⟩ := shape.unplug rfl
  obtain ⟨root, above, -, nodupCtx, nodupHere, apart⟩ := holds_plug.mp holds
  rw [CTree.ptr_mk] at above root
  have hung := hang_spec .left (B.ptr t.m_sentinel) above parent xNotCtx xReal
  obtain ⟨t₁, moved, unlinked⟩ := unlink_spec (some f.label) holds black readable
  have holds₁ : Holds t₁ top (Ctx.plug (f :: ctx) B) := by
    refine holds_plug.mpr ⟨?_, ?_, ?_, nodupCtx, ?_, ?_⟩
    · rw [unlinked.root]
      exact root
    · rw [unlinked.sentinel]
      exact unlinked.above
    · rw [unlinked.sentinel]
      exact unlinked.here
    · exact (CTree.nodup_labels_mk.mp nodupHere).2.1
    · exact fun z member => apart (CTree.mem_labels_mk.mpr (Or.inr (Or.inr member)))
  have holds₂ : Holds (t₁.put x fun _ => RbNode.reset) top (Ctx.plug (f :: ctx) B) :=
    holds₁.put_outside xNotIn _
  have sentinel₂ : (t₁.put x fun _ => RbNode.reset).m_sentinel = t.m_sentinel :=
    unlinked.sentinel
  have xReal₁ : some x ≠ t₁.m_sentinel := unlinked.sentinel ▸ xReal
  have black₂ := unlinked.black.put_real xReal₁ fun _ => RbNode.reset
  have lent₂ := unlinked.lent.put_real xReal₁ fun _ => RbNode.reset
  obtain ⟨t', T', runs, holds', labels', shape', frame'⟩ :=
    finish_spec fuel enough holds₂ black₂ lent₂ around here (List.cons_ne_nil _ _)
      fun isNull => readable (sentinel₂ ▸ isNull)
  refine ⟨t', T', ?_, holds', labels', shape', ?_⟩
  · rw [sentinel₂] at runs
    simp only [remove, reduceCtorEq, if_false, subst, ok_bind, if_neg notRoot, parent_some,
      parent, color_some, color, hung, if_true, put_of_ne _ _ _ xNeF, moved, store_some]
    exact runs
  · refine .of_parts unlinked.sentinel unlinked.black (fun z notIn notSentinel => ?_)
      unlinked.key mem_unlinked xReal frame' (fun z => mem_of_mem_unlinked) xNotIn
      fun z member => holds.rep.real z (mem_of_mem_unlinked member)
    exact unlinked.outside z (fun member => notIn (mem_of_mem_unlinked member)) notSentinel

/-- **Removing a node with at most one child.** -/
theorem remove_one (fuel : Nat) {x : Addr} (enough : ctx.length + 2 ≤ fuel)
    (holds : Holds t top (Ctx.plug ctx (.mk d .nil c x B)))
    (shape : RB .black n (Ctx.plug ctx (.mk d .nil c x B))) (black : t.SentinelBlack)
    (readable : t.m_sentinel = none → B ≠ .nil) :
    ∃ t' top' T', t.remove fuel (some x) = .ok t' ∧ Holds t' top' T' ∧
      T'.labels = (Ctx.plug ctx B).labels ∧ (∃ m, RB .black m T') ∧
      Releases (Ctx.plug ctx (.mk d .nil c x B)).labels x t t' := by
  cases ctx with
  | nil =>
      obtain ⟨k, cx, -, here, -⟩ := shape.unplug rfl
      obtain ⟨t', T', rest⟩ := remove_root fuel holds here black readable
      exact ⟨t', some x, T', rest⟩
  | cons f ctx =>
      obtain ⟨t', T', rest⟩ := remove_inner fuel enough holds shape black readable
      exact ⟨t', top, T', rest⟩

end Finish

section Two

variable {t : NcRbTree} {top : Ptr} {f : Frame Addr} {ctx : Ctx Addr} {B : CTree Addr} {c : Color}
  {n : Nat} {x m : Addr}

/-- After the subtree of `m` has moved up, the place of `x` as `takeOver` finds it. The parent link
of the subtree is right for the place it will have. -/
theorem Unlinked.place {q : Ptr} {t₁ : NcRbTree} (unlinked : Unlinked t top f ctx B q t₁)
    (root : t.m_root = Ctx.root (some m) (f :: ctx))
    (nodup : (Ctx.plug (f :: ctx) B).labels.Nodup) (isLeft : f.side = .left)
    (xIn : x ∈ Ctx.labels (f :: ctx)) (link : q = some (Function.update id x m f.label)) :
    ∃ ctx' l c r pl pr, Ctx.plug (f :: ctx) B = Ctx.plug ctx' (.node l c x r) ∧
      t₁.m_root = Ctx.root (some x) ctx' ∧
      RepCtx t₁.links t₁.m_sentinel top (some x) ctx' ∧
      t₁.links x = ⟨l.ptr t₁.m_sentinel, r.ptr t₁.m_sentinel, Ctx.parent top ctx', c⟩ ∧
      Rep t₁.links t₁.m_sentinel pl l ∧ Rep t₁.links t₁.m_sentinel pr r := by
  have above := unlinked.above
  have here := unlinked.here
  rw [← unlinked.sentinel] at above here
  by_cases isParent : f.label = x
  · -- the parent of `m` is the removed node: its left subtree is the one that moved up
    obtain ⟨side, cf, y, other⟩ := f
    obtain rfl : side = .left := isLeft
    obtain rfl : y = x := isParent
    obtain ⟨-, toB, toOther, parent, color, inOther, outer⟩ := above
    refine ⟨ctx, B, cf, other, q, some y, rfl, ?_, outer, ?_, here, inOther⟩
    · rw [unlinked.root, root]
      rfl
    · calc t₁.links y = ⟨(t₁.links y).left, (t₁.links y).right, (t₁.links y).parent,
            (t₁.links y).color⟩ := rfl
        _ = ⟨B.ptr t₁.m_sentinel, other.ptr t₁.m_sentinel, Ctx.parent top ctx, cf⟩ := by
            rw [show (t₁.links y).left = _ from toB, show (t₁.links y).right = _ from toOther,
              parent, color]
  · -- otherwise the whole tree is in order already
    have whole : Holds t₁ top (Ctx.plug (f :: ctx) B) := by
      refine ⟨?_, ?_, nodup⟩
      · rw [unlinked.root, root, ptr_plug]
        rfl
      · refine rep_plug.mpr ⟨above, ?_⟩
        rw [link, Function.update_of_ne isParent] at here
        exact here
    obtain ⟨ctx', l, cx, r, same⟩ := Ctx.exists_plug_of_mem
      (Ctx.mem_labels_plug.mpr (Or.inl xIn) : x ∈ (Ctx.plug (f :: ctx) B).labels)
    rw [same] at whole
    obtain ⟨root₁, above₁, ⟨-, left, right, parent, color, inL, inR⟩, -⟩ := holds_plug.mp whole
    refine ⟨ctx', l, cx, r, _, _, same, root₁, above₁, ?_, inL, inR⟩
    rw [← left, ← right, ← parent, ← color]

/-- The sequence after `m` has taken the place of `x`. -/
theorem mem_map_update {xs ys : List Addr} {z : Addr} (mNeX : m ≠ x) (mIn : m ∈ ys)
    (sub : ∀ y ∈ xs, y ∈ ys) (member : z ∈ xs.map (Function.update id x m)) : z ≠ x ∧ z ∈ ys := by
  obtain ⟨y, yIn, image⟩ := List.mem_map.mp member
  by_cases isX : y = x
  · rw [isX, Function.update_self] at image
    exact ⟨image ▸ mNeX, image ▸ mIn⟩
  · rw [Function.update_of_ne isX] at image
    exact ⟨image ▸ isX, image ▸ sub y yIn⟩

/-- **The writes of `remove`** when another node takes over the place of `x`: the parent link of the
subtree that moves up is the one that it needs then. -/
theorem remove_replaced (fuel : Nat) {q : Ptr} {p : Addr} {t₀ t₁ t₂ : NcRbTree}
    (substituted : t.substitute fuel (some x) = .ok (some m, q)) (notRoot : some m ≠ t.m_root)
    (mNeX : m ≠ x) (parent : (t.mem m).parent = some p) (hung : t.hang .left (some m) q = .ok t₀)
    (parent₀ : (t₀.mem m).parent = some p)
    (moved : t₀.setParent q (some (Function.update id x m p)) = .ok t₁)
    (taken : t₁.takeOver (some x) (some m) = .ok t₂) :
    t.remove fuel (some x) =
      if (t.mem m).color = .red then .ok (t₂.put x fun _ => RbNode.reset)
      else (t₂.put x fun _ => RbNode.reset).rebalance fuel q := by
  have notX : some m ≠ some x := fun equal => mNeX (Option.some.inj equal)
  simp only [remove, reduceCtorEq, if_false, substituted, ok_bind, if_neg notRoot, parent_some,
    parent, color_some, hung, if_neg notX, parent₀, store_some]
  by_cases isParent : p = x
  · have link : Function.update id x m p = m := by
      rw [isParent, Function.update_self]
    rw [link] at moved
    rw [if_pos (congrArg some isParent), moved, ok_bind, taken, ok_bind]
    rfl
  · have link : Function.update id x m p = p := Function.update_of_ne isParent m id
    rw [link] at moved
    rw [if_neg fun equal => isParent (Option.some.inj equal), moved, ok_bind, taken, ok_bind]
    rfl

/-- **Removing a node with two children.** The first node of the tree takes its place. -/
theorem remove_two (fuel : Nat) (enough : ctx.length + 3 ≤ fuel)
    (holds : Holds t top (Ctx.plug (f :: ctx) (.mk .left .nil c m B)))
    (shape : RB .black n (Ctx.plug (f :: ctx) (.mk .left .nil c m B))) (black : t.SentinelBlack)
    (first : t.min fuel = .ok (some m)) (isLeft : f.side = .left)
    (xIn : x ∈ Ctx.labels (f :: ctx)) (hasLeft : (t.mem x).child .left ≠ t.m_sentinel)
    (hasRight : (t.mem x).child .right ≠ t.m_sentinel)
    (readable : t.m_sentinel = none → B ≠ .nil) :
    ∃ t' T', t.remove fuel (some x) = .ok t' ∧ Holds t' top T' ∧
      T'.labels = (Ctx.plug (f :: ctx) B).labels.map (Function.update id x m) ∧
      (∃ m, RB .black m T') ∧
      Releases (Ctx.plug (f :: ctx) (.mk .left .nil c m B)).labels x t t' := by
  have real := holds.rep.real
  have mReal := holds.real
  obtain ⟨-, mNotB, mNotCtx⟩ := holds.mem
  have xInTree : x ∈ (Ctx.plug (f :: ctx) (.mk .left .nil c m B)).labels :=
    Ctx.mem_labels_plug.mpr (Or.inl xIn)
  have xReal : some x ≠ t.m_sentinel := real x xInTree
  have mNeX : m ≠ x := fun same => mNotCtx (same ▸ xIn)
  have fIn : f.label ∈ Ctx.labels (f :: ctx) := Ctx.mem_labels_cons.mpr (Or.inl rfl)
  have mNeF : m ≠ f.label := fun same => mNotCtx (same ▸ fIn)
  have sub : ∀ z ∈ (Ctx.plug (f :: ctx) B).labels,
      z ∈ (Ctx.plug (f :: ctx) (.mk .left .nil c m B)).labels := fun z => mem_of_mem_unlinked
  have mIn : m ∈ (Ctx.plug (f :: ctx) (.mk .left .nil c m B)).labels := mem_unlinked
  obtain ⟨root, above, -, nodupCtx, nodupHere, apart⟩ := holds_plug.mp holds
  rw [CTree.ptr_mk] at above root
  have xNotB : x ∉ B.labels := fun member =>
    apart (CTree.mem_labels_mk.mpr (Or.inr (Or.inr member))) xIn
  have nodupB : (Ctx.plug (f :: ctx) B).labels.Nodup := Ctx.nodup_labels_plug.mpr
    ⟨nodupCtx, (CTree.nodup_labels_mk.mp nodupHere).2.1,
      fun z member => apart (CTree.mem_labels_mk.mpr (Or.inr (Or.inr member)))⟩
  obtain ⟨k, cx, around, here, -⟩ := shape.unplug rfl
  -- the subtree of `m` moves up
  have parent : (t.mem m).parent = some f.label := holds.parent
  have color : (t.mem m).color = c := holds.color
  have mFar : (t.mem m).child .right = B.ptr t.m_sentinel := holds.child_far
  have hung := hang_spec .left (B.ptr t.m_sentinel) above parent mNotCtx mReal
  obtain ⟨t₁, moved, unlinked⟩ :=
    unlink_spec (some (Function.update id x m f.label)) holds black readable
  -- `m` takes over the place of `x`
  obtain ⟨ctx', l, cx', r, pl, pr, same, root₁, above₁, links₁, inL, inR⟩ :=
    unlinked.place root nodupB isLeft xIn rfl
  have fresh : m ∉ (Ctx.plug (f :: ctx) B).labels := by
    rw [Ctx.mem_labels_plug, not_or]
    exact ⟨mNotCtx, mNotB⟩
  obtain ⟨t₂, taken, holds₂, frame₂⟩ := takeOver_spec root₁ above₁ (unlinked.sentinel ▸ xReal) links₁
    inL inR (same ▸ nodupB) (same ▸ fresh) (unlinked.sentinel ▸ mReal)
  have renamed : Ctx.plug ctx' (.node l cx' m r) =
      Ctx.plug (Ctx.map (Function.update id x m) (f :: ctx)) B := by
    rw [← Ctx.map_update_plug m (same ▸ nodupB), ← same, Ctx.map_plug,
      Ctx.map_update_of_not_mem m xNotB]
  have labels : (Ctx.plug (Ctx.map (Function.update id x m) (f :: ctx)) B).labels =
      (Ctx.plug (f :: ctx) B).labels.map (Function.update id x m) := by
    rw [← CTree.labels_map, Ctx.map_plug, Ctx.map_update_of_not_mem m xNotB]
  rw [renamed] at holds₂
  rw [← same] at frame₂
  have sub₂ : ∀ z ∈ (Ctx.plug (Ctx.map (Function.update id x m) (f :: ctx)) B).labels,
      z ≠ x ∧ z ∈ (Ctx.plug (f :: ctx) (.mk .left .nil c m B)).labels := by
    intro z member
    rw [labels] at member
    exact mem_map_update mNeX mIn sub member
  have real₂ : ∀ z ∈ m :: (Ctx.plug (f :: ctx) B).labels, some z ≠ t.m_sentinel := by
    intro z member
    rcases List.mem_cons.mp member with isM | inTree
    · rw [isM]
      exact mReal
    · exact real z (sub z inTree)
  have sentinel₂ : t₂.m_sentinel = t.m_sentinel := frame₂.sentinel.trans unlinked.sentinel
  have black₂ : t₂.SentinelBlack := unlinked.black.touches frame₂ (unlinked.sentinel ▸ real₂)
  have lent₂ : Lent t₂ B (some (Function.update id x m f.label)) :=
    unlinked.lent.touches frame₂ (unlinked.sentinel ▸ real₂)
  have xReal₂ : some x ≠ t₂.m_sentinel := sentinel₂ ▸ xReal
  have holds₃ := holds₂.put_outside (fun member => (sub₂ x member).1 rfl) fun _ => RbNode.reset
  obtain ⟨t', T', runs, holds', labels', shape', frame'⟩ :=
    finish_spec fuel (by rw [Ctx.map_cons, List.length_cons, Ctx.length_map]; omega) holds₃
      (black₂.put_real xReal₂ _) (lent₂.put_real xReal₂ _) (around.map _) here
      (by rw [Ctx.map_cons]; exact List.cons_ne_nil _ _)
      fun isNull => readable (sentinel₂ ▸ isNull)
  refine ⟨t', T', ?_, holds', labels'.trans labels, shape', ?_⟩
  · have substituted : t.substitute fuel (some x) = .ok (some m, B.ptr t.m_sentinel) := by
      simp only [substitute, child_some, ok_bind, if_neg hasLeft, if_neg hasRight, first, mFar,
        pure_ok]
    have parent₀ : ((t.put f.label (RbNode.withChild f.side (B.ptr t.m_sentinel))).mem m).parent =
        some f.label := by
      rw [put_of_ne _ _ _ mNeF, parent]
    rw [put_sentinel, sentinel₂] at runs
    rw [remove_replaced fuel substituted holds.ne_root mNeX parent hung parent₀ moved taken, color]
    exact runs
  · refine .of_parts sentinel₂ black₂ (fun z notIn notSentinel => ?_)
      (fun z => (frame₂.key z).trans (unlinked.key z)) xInTree xReal frame'
      (fun z member => (sub₂ z member).2) (fun member => (sub₂ x member).1 rfl)
      fun z member => real z (sub₂ z member).2
    have notInB : z ∉ (Ctx.plug (f :: ctx) B).labels := fun member => notIn (sub z member)
    have notM : z ≠ m := fun isM => notIn (isM ▸ mIn)
    have outside : z ∉ m :: (Ctx.plug (f :: ctx) B).labels := by
      rw [List.mem_cons, not_or]
      exact ⟨notM, notInB⟩
    rw [frame₂.outside z outside, unlinked.outside z notInB notSentinel]

end Two

/-! ### Removal -/

/-- The node has no left child, or no right child. -/
def LacksChild (t : NcRbTree) (x : Addr) : Prop :=
  (t.mem x).left = t.m_sentinel ∨ (t.mem x).right = t.m_sentinel

instance (t : NcRbTree) (x : Addr) : Decidable (t.LacksChild x) :=
  inferInstanceAs (Decidable (_ ∨ _))

/-- The node has a left child, or a right child. -/
def HasChild (t : NcRbTree) (x : Addr) : Prop :=
  (t.mem x).left ≠ t.m_sentinel ∨ (t.mem x).right ≠ t.m_sentinel

instance (t : NcRbTree) (x : Addr) : Decidable (t.HasChild x) :=
  inferInstanceAs (Decidable (_ ∨ _))

/-- The node taken out of its place to remove `x` from the sequence `xs`. -/
def unlinked (t : NcRbTree) (x : Addr) (xs : List Addr) : Addr :=
  if t.LacksChild x then x else xs.headD x

/-- **The sequence that `remove` leaves**: without `x`, or without its first node, which then stands
where `x` stood. -/
def afterRemove (t : NcRbTree) (x : Addr) (xs : List Addr) : List Addr :=
  if t.LacksChild x then xs.erase x else xs.tail.map (Function.update id x (xs.headD x))

section Spec

variable {t : NcRbTree} {top : Ptr} {T : CTree Addr} {n : Nat} {x : Addr}

/-- Removal of a node without a left child, or without a right one. -/
theorem remove_lacking (fuel : Nat) (enough : T.labels.length + 2 ≤ fuel) (holds : Holds t top T)
    (shape : RB .black n T) (black : t.SentinelBlack) (xIn : x ∈ T.labels) (lacks : t.LacksChild x)
    (readable : t.m_sentinel = none → t.HasChild x) :
    ∃ t' top' T', t.remove fuel (some x) = .ok t' ∧ Holds t' top' T' ∧
      T'.labels = T.labels.erase x ∧ (∃ m, RB .black m T') ∧ Releases T.labels x t t' := by
  obtain ⟨ctx, l, c, r, rfl⟩ := Ctx.exists_plug_of_mem xIn
  have long := Ctx.length_le_labels_plug ctx (.node l c x r)
  obtain ⟨-, left, right, -, -, inL, inR⟩ := (holds_plug.mp holds).2.2.1
  have left : (t.mem x).left = l.ptr t.m_sentinel := left
  have right : (t.mem x).right = r.ptr t.m_sentinel := right
  rw [Ctx.erase_labels holds.nodup]
  rcases lacks with noLeft | noRight
  · obtain rfl : l = .nil := inL.ptr_eq_iff.mp (left.symm.trans noLeft)
    have someRight : t.m_sentinel = none → r ≠ .nil := fun isNull isNil => by
      rcases readable isNull with hasLeft | hasRight
      · exact hasLeft noLeft
      · exact hasRight (right.trans (inR.ptr_eq_iff.mpr isNil))
    obtain ⟨t', top', T', runs, holds', labels, shape', frame⟩ :=
      remove_one (d := .left) fuel (by omega) holds shape black someRight
    refine ⟨t', top', T', runs, holds', ?_, shape', frame⟩
    rw [labels, Ctx.labels_plug, CTree.labels_nil, List.nil_append]
  · obtain rfl : r = .nil := inR.ptr_eq_iff.mp (right.symm.trans noRight)
    have someLeft : t.m_sentinel = none → l ≠ .nil := fun isNull isNil => by
      rcases readable isNull with hasLeft | hasRight
      · exact hasLeft (left.trans (inL.ptr_eq_iff.mpr isNil))
      · exact hasRight noRight
    obtain ⟨t', top', T', runs, holds', labels, shape', frame⟩ :=
      remove_one (d := .right) fuel (by omega) holds shape black someLeft
    refine ⟨t', top', T', runs, holds', ?_, shape', frame⟩
    rw [labels, Ctx.labels_plug, CTree.labels_nil, List.append_nil]

/-- A node with a left child is above the first node: below that is at most a leaf. -/
theorem mem_above_first {ctx : Ctx Addr} {B : CTree Addr} {c d : Color} {m : Addr}
    (holds : Holds t top (Ctx.plug ctx (.mk .left .nil c m B)))
    (here : RB d n (.mk .left .nil c m B))
    (xIn : x ∈ (Ctx.plug ctx (.mk .left .nil c m B)).labels)
    (hasLeft : (t.mem x).left ≠ t.m_sentinel) : x ∈ Ctx.labels ctx := by
  obtain ⟨-, mLeft, -, -, -, -, inB⟩ := rep_mk.mp (holds_plug.mp holds).2.2.1
  have mLeft : (t.mem m).left = t.m_sentinel := mLeft
  have leaf : B = .nil ∨ ∃ y, B = .node .nil .red y .nil := by
    rcases unlinked_shape here with ⟨-, -, isNil⟩ | ⟨-, -, leaf⟩
    · exact Or.inl isNil
    · exact leaf
  rw [Ctx.mem_labels_plug, CTree.mem_labels_mk] at xIn
  rcases xIn with inCtx | inNil | isM | inTree
  · exact inCtx
  · cases inNil
  · exact absurd (isM ▸ mLeft) hasLeft
  · rcases leaf with rfl | ⟨y, rfl⟩
    · cases inTree
    · obtain rfl : x = y := by simpa using inTree
      exact absurd inB.2.1 hasLeft

/-- Removal of a node with two children. -/
theorem remove_full (fuel : Nat) (enough : T.labels.length + 2 ≤ fuel) (holds : Holds t top T)
    (shape : RB .black n T) (black : t.SentinelBlack) (xIn : x ∈ T.labels)
    (lacks : ¬ t.LacksChild x) (readable : t.m_sentinel = none → t.HasChild (T.labels.headD x)) :
    ∃ t' T', t.remove fuel (some x) = .ok t' ∧ Holds t' top T' ∧
      T'.labels = T.labels.tail.map (Function.update id x (T.labels.headD x)) ∧
      (∃ m, RB .black m T') ∧ Releases T.labels x t t' := by
  obtain ⟨hasLeft, hasRight⟩ := not_or.mp lacks
  have nonempty : T ≠ .nil := by
    rintro rfl
    cases xIn
  obtain ⟨ctx, c, m, B, -, rfl, lefts⟩ := descendTo_spec .left fuel holds.rep nonempty (by omega)
  have sequence : (Ctx.plug ctx (.mk .left .nil c m B)).labels = m :: (Ctx.plug ctx B).labels := by
    rw [Ctx.labels_plug, Ctx.labels_plug, Ctx.before_of_lefts lefts]
    rfl
  have first : t.min fuel = .ok (some m) := by
    rw [min_spec fuel holds (by omega), sequence, List.head?_cons]
  obtain ⟨-, mLeft, mRight, -, -, -, inB⟩ := rep_mk.mp (holds_plug.mp holds).2.2.1
  have mLeft : (t.mem m).left = t.m_sentinel := mLeft
  have mRight : (t.mem m).right = B.ptr t.m_sentinel := mRight
  obtain ⟨k, d, -, here, -⟩ := shape.unplug rfl
  have xInCtx : x ∈ Ctx.labels ctx := mem_above_first holds here xIn hasLeft
  have short := Ctx.length_le_labels_plug ctx (.mk .left .nil c m B)
  rw [sequence, List.headD_cons] at readable
  rw [sequence, List.headD_cons, List.tail_cons, ← sequence]
  have someRight : t.m_sentinel = none → B ≠ .nil := fun isNull isNil => by
    rcases readable isNull with hasLeft | hasRight
    · exact hasLeft mLeft
    · exact hasRight (mRight.trans (inB.ptr_eq_iff.mpr isNil))
  cases ctx with
  | nil => cases xInCtx
  | cons f ctx =>
      have one : 1 ≤ (CTree.mk .left .nil c m B).labels.length := by
        simp [CTree.mk]
      rw [List.length_cons] at short
      exact remove_two fuel (by omega) holds shape black first (lefts f List.mem_cons_self) xInCtx
        hasLeft hasRight someRight

/-- **Removal from a red-black tree.** -/
theorem remove_spec (fuel : Nat) {t : NcRbTree} {top : Ptr} {T : CTree Addr} {n : Nat} {x : Addr}
    (enough : T.labels.length + 2 ≤ fuel) (holds : Holds t top T) (shape : RB .black n T)
    (black : t.SentinelBlack) (xIn : x ∈ T.labels)
    (readable : t.m_sentinel = none → t.HasChild (t.unlinked x T.labels)) :
    ∃ t' top' T', t.remove fuel (some x) = .ok t' ∧ Holds t' top' T' ∧
      T'.labels = t.afterRemove x T.labels ∧ (∃ m, RB .black m T') ∧ Releases T.labels x t t' := by
  by_cases lacks : t.LacksChild x
  · simp only [unlinked, afterRemove, if_pos lacks] at readable ⊢
    exact remove_lacking fuel enough holds shape black xIn lacks readable
  · simp only [unlinked, afterRemove, if_neg lacks] at readable ⊢
    obtain ⟨t', T', rest⟩ := remove_full fuel enough holds shape black xIn lacks readable
    exact ⟨t', top, T', rest⟩

end Spec

end NcRbTree

end Nutcracker
