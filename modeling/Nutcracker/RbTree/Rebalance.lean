/-
**The rebalancing loop of `remove`.**

The loop starts at a subtree `temp` whose black height is one short of what its context asks for:
`RBCtx ctx (n + 1)` around, and inside `Deficit n T`, a black tree of height `n`, or a red root
that gives the missing height once it is painted black. When `temp` is the sentinel the code finds
the way up in the sentinel's own parent field (`Lent`); no turn of the loop writes to it.

* `blackSibling_red` — a red sibling rotates away and leaves a black one.
* `resolve_recolor`, `redFarChild_near`, `fillGap_spec` — the cases of a black sibling.
* `removeStep_spec` — one turn ends the loop or moves up one level.
* `rebalance_spec` — **the loop and the paint after it**: the tree is red-black again and the in-order
  sequence is unchanged; fuel `ctx.length + 2` is enough.
-/

import Nutcracker.RbTree.Insert

namespace Nutcracker

open Lib

namespace NcRbTree

/-- When `temp` is the sentinel, the sentinel's parent field holds the link of the hole. -/
def Lent (t : NcRbTree) (T : CTree Addr) (q : Ptr) : Prop :=
  T = .nil → ∀ z, t.m_sentinel = some z → (t.mem z).parent = q

/-- A subtree that lacks one black level: black of height `n`, or red and of height `n + 1` once it
is painted black. -/
def Deficit (n : Nat) (T : CTree Addr) : Prop :=
  RB .black n T ∨ (T.color = .red ∧ RB .black (n + 1) T.blacken)

theorem Lent.touches {t t' : NcRbTree} {T : CTree Addr} {q : Ptr} {xs : List Addr}
    (lent : Lent t T q) (frame : Touches xs t t') (real : ∀ x ∈ xs, some x ≠ t.m_sentinel) :
    Lent t' T q := by
  intro isNil z isSentinel
  rw [frame.sentinel] at isSentinel
  rw [frame.outside z fun member => real z member isSentinel.symm]
  exact lent isNil z isSentinel

/-- **The parent of `temp`**, in any tree that keeps `temp` in place. -/
theorem temp_parent {t t' : NcRbTree} {top : Ptr} {T : CTree Addr} {ctx : Ctx Addr}
    {xs : List Addr} (frame : Touches xs t t') (real : ∀ x ∈ xs, some x ≠ t.m_sentinel)
    (lent : Lent t T (Ctx.parent top ctx)) (sentinel : t.m_sentinel ≠ none)
    (holds : Holds t' top (Ctx.plug ctx T)) :
    t'.parent (T.ptr t.m_sentinel) = .ok (Ctx.parent top ctx) := by
  cases T with
  | nil =>
      obtain ⟨z, isSentinel⟩ := Option.ne_none_iff_exists'.mp sentinel
      have kept : t'.m_sentinel = some z := frame.sentinel.trans isSentinel
      rw [CTree.ptr_nil, isSentinel, parent_some, lent.touches frame real rfl z kept]
  | node l c x r =>
      have atX : Holds t' top (Ctx.plug ctx (.mk .left l c x r)) := holds
      rw [CTree.ptr_node, parent_some, atX.parent]

/-! ### One turn of the loop -/

section Step

variable {t : NcRbTree} {top : Ptr} {rest : Ctx Addr} {d : Dir} {T : CTree Addr} {cp : Color}
  {p w : Addr}

/-- The frame of `temp`'s parent seen from the sibling. -/
theorem holds_sibling {W : CTree Addr} :
    Holds t top (Ctx.plug (⟨d.opp, cp, p, T⟩ :: rest) W) ↔
      Holds t top (Ctx.plug (⟨d, cp, p, W⟩ :: rest) T) := by
  rw [Ctx.plug_cons, Frame.fill, CTree.mk_opp]
  rfl

/-- **A red sibling** rotates away. -/
theorem blackSibling_red {a b : CTree Addr}
    (holds : Holds t top (Ctx.plug (⟨d, .black, p, .mk d a .red w b⟩ :: rest) T))
    (lent : Lent t T (some p)) (sentinel : t.m_sentinel ≠ none) :
    ∃ t', t.blackSibling d (T.ptr t.m_sentinel) = .ok (a.ptr t.m_sentinel, t') ∧
      Holds t' top (Ctx.plug (⟨d, .red, p, a⟩ :: ⟨d, .black, w, b⟩ :: rest) T) ∧
      Touches (Ctx.plug (⟨d, .black, p, .mk d a .red w b⟩ :: rest) T).labels t t' := by
  have real := holds.rep.real
  have parent := temp_parent .refl real lent sentinel holds
  have atP : Holds t top (Ctx.plug rest (.mk d T .black p (.mk d a .red w b))) := holds
  have pFar : (t.mem p).child d.opp = some w := by
    rw [atP.child_far, CTree.ptr_mk]
  have wColor : (t.mem w).color = .red := (holds_sibling.mpr holds).color
  obtain ⟨t₁, paintW, atW₁, frame₁⟩ := setColor_spec .black (holds_sibling.mpr holds)
  have frame₁ : Touches (Ctx.plug (⟨d, .black, p, .mk d a .red w b⟩ :: rest) T).labels t t₁ :=
    frame₁.mono fun z member => by
      simp only [Ctx.plug_cons, Frame.fill, CTree.mk_opp] at member ⊢
      exact member
  have holds₁ := holds_sibling.mp atW₁
  have parent₁ := temp_parent frame₁ real lent sentinel holds₁
  obtain ⟨t₂, paintP, atP₂, frame₂⟩ := setColor_spec .red
    (show Holds t₁ top (Ctx.plug rest (.mk d T .black p (.mk d a .black w b))) from holds₁)
  have frame₂ : Touches (Ctx.plug (⟨d, .black, p, .mk d a .red w b⟩ :: rest) T).labels t t₂ :=
    frame₁.trans (frame₂.mono fun z member => by
      simp only [Ctx.plug_cons, Frame.fill, Ctx.mem_labels_plug, CTree.mem_labels_mk] at member ⊢
      exact member)
  have holds₂ : Holds t₂ top (Ctx.plug (⟨d, .red, p, .mk d a .black w b⟩ :: rest) T) := atP₂
  have parent₂ := temp_parent frame₂ real lent sentinel holds₂
  obtain ⟨t₃, rotated, atW₃, frame₃⟩ := rotate_spec atP₂
  have frame₃ : Touches (Ctx.plug (⟨d, .black, p, .mk d a .red w b⟩ :: rest) T).labels t t₃ :=
    frame₂.trans (frame₃.mono fun z member => by
      simp only [Ctx.plug_cons, Frame.fill, Ctx.mem_labels_plug, CTree.mem_labels_mk] at member ⊢
      exact member)
  have holds₃ : Holds t₃ top (Ctx.plug (⟨d, .red, p, a⟩ :: ⟨d, .black, w, b⟩ :: rest) T) := atW₃
  have parent₃ := temp_parent frame₃ real lent sentinel holds₃
  have pFar₃ : (t₃.mem p).child d.opp = a.ptr t.m_sentinel := by
    have atP₃ : Holds t₃ top (Ctx.plug (⟨d, .black, w, b⟩ :: rest) (.mk d T .red p a)) := atW₃
    rw [atP₃.child_far, frame₃.sentinel]
  refine ⟨t₃, ?_, holds₃, frame₃⟩
  simp only [Ctx.parent] at parent parent₁ parent₂ parent₃
  simp only [blackSibling, parent, ok_bind, child_some, pFar, color_some, wColor, if_true, paintW,
    parent₁, paintP, parent₂, rotated, parent₃, pFar₃, pure_ok]

/-- A black sibling is kept. -/
theorem blackSibling_black {a b : CTree Addr}
    (holds : Holds t top (Ctx.plug (⟨d, cp, p, .mk d a .black w b⟩ :: rest) T))
    (lent : Lent t T (some p)) (sentinel : t.m_sentinel ≠ none) :
    t.blackSibling d (T.ptr t.m_sentinel) = .ok (some w, t) := by
  have parent := temp_parent .refl holds.rep.real lent sentinel holds
  have atP : Holds t top (Ctx.plug rest (.mk d T cp p (.mk d a .black w b))) := holds
  have pFar : (t.mem p).child d.opp = some w := by
    rw [atP.child_far, CTree.ptr_mk]
  have wColor : (t.mem w).color = .black := (holds_sibling.mpr holds).color
  simp only [Ctx.parent] at parent
  simp only [blackSibling, parent, ok_bind, child_some, pFar, color_some, wColor, reduceCtorEq,
    if_false, pure_ok]

/-- The colors of both children of a node. -/
theorem bothBlack_spec {ctx : Ctx Addr} {a b : CTree Addr} {c : Color}
    (holds : Holds t top (Ctx.plug ctx (.mk d a c w b))) (black : t.SentinelBlack)
    (sentinel : t.m_sentinel ≠ none) :
    t.bothBlack (some w) = .ok (a.color = .black ∧ b.color = .black : Bool) := by
  obtain ⟨-, -, -, -, -, inA, inB⟩ := rep_mk.mp (holds_plug.mp holds).2.2.1
  have readA : t.color (a.ptr t.m_sentinel) = .ok a.color :=
    color_ptr black inA fun isNull => absurd isNull sentinel
  have readB : t.color (b.ptr t.m_sentinel) = .ok b.color :=
    color_ptr black inB fun isNull => absurd isNull sentinel
  have near := holds.child_near
  have far := holds.child_far
  cases d with
  | left =>
      rw [Dir.opp] at far
      simp only [bothBlack, child_some, near, far, ok_bind, readA, readB]
      by_cases isBlack : a.color = .black <;> simp [isBlack]
  | right =>
      rw [Dir.opp] at far
      simp only [bothBlack, child_some, near, far, ok_bind, readA, readB]
      by_cases isBlack : b.color = .black <;> simp [isBlack]

/-- **The far child is black**: the red near child rotates up to be the sibling. -/
theorem redFarChild_near {a₁ a₂ b : CTree Addr} {v : Addr}
    (holds : Holds t top (Ctx.plug (⟨d, cp, p, .mk d (.mk d a₁ .red v a₂) .black w b⟩ :: rest) T))
    (black : t.SentinelBlack) (bBlack : b.color = .black) (lent : Lent t T (some p))
    (sentinel : t.m_sentinel ≠ none) :
    ∃ t', t.redFarChild d (some w) (T.ptr t.m_sentinel) = .ok (some v, t') ∧
      Holds t' top (Ctx.plug (⟨d, cp, p, .mk d a₁ .black v (.mk d a₂ .red w b)⟩ :: rest) T) ∧
      Touches (Ctx.plug (⟨d, cp, p, .mk d (.mk d a₁ .red v a₂) .black w b⟩ :: rest) T).labels
        t t' := by
  have real := holds.rep.real
  have atW := holds_sibling.mpr holds
  obtain ⟨-, -, -, -, -, -, inB⟩ := rep_mk.mp (holds_plug.mp atW).2.2.1
  have readB : t.color (b.ptr t.m_sentinel) = .ok b.color :=
    color_ptr black inB fun isNull => absurd isNull sentinel
  have wFar : (t.mem w).child d.opp = b.ptr t.m_sentinel := atW.child_far
  have wNear : (t.mem w).child d = some v := by
    rw [atW.child_near, CTree.ptr_mk]
  have sub : ∀ {c₁ c₂ : Color} {z : Addr}, z ∈ (Ctx.plug (⟨d.opp, cp, p, T⟩ :: rest)
      (.mk d (.mk d a₁ c₁ v a₂) c₂ w b)).labels → z ∈ (Ctx.plug
        (⟨d, cp, p, .mk d (.mk d a₁ .red v a₂) .black w b⟩ :: rest) T).labels := by
    intro c₁ c₂ z member
    simp only [Ctx.plug_cons, Frame.fill, Ctx.mem_labels_plug, CTree.mem_labels_mk] at member ⊢
    tauto
  have atV : Holds t top (Ctx.plug (⟨d, .black, w, b⟩ :: ⟨d.opp, cp, p, T⟩ :: rest)
      (.mk d a₁ .red v a₂)) := atW
  obtain ⟨t₁, paintV, atV₁, frame₁⟩ := setColor_spec .black atV
  have atW₁ : Holds t₁ top (Ctx.plug (⟨d.opp, cp, p, T⟩ :: rest)
      (.mk d (.mk d a₁ .black v a₂) .black w b)) := atV₁
  obtain ⟨t₂, paintW, atW₂, frame₂⟩ := setColor_spec .red atW₁
  -- seen from the other side, the sibling rotates down
  have atW₂' : Holds t₂ top (Ctx.plug (⟨d.opp, cp, p, T⟩ :: rest)
      (.mk d.opp b .red w (.mk d.opp a₂ .black v a₁))) := by
    rw [CTree.mk_opp, CTree.mk_opp]
    exact atW₂
  obtain ⟨t₃, rotated, atV₃, frame₃⟩ := rotate_spec atW₂'
  rw [CTree.mk_opp, CTree.mk_opp] at atV₃ frame₃
  have frame := (frame₁.mono fun z member => sub member).trans
    ((frame₂.mono fun z member => sub member).trans (frame₃.mono fun z member => sub member))
  have holds₃ : Holds t₃ top
      (Ctx.plug (⟨d, cp, p, .mk d a₁ .black v (.mk d a₂ .red w b)⟩ :: rest) T) :=
    holds_sibling.mp atV₃
  have parent₃ := temp_parent frame real lent sentinel holds₃
  have pFar₃ : (t₃.mem p).child d.opp = some v := by
    have atP₃ : Holds t₃ top
        (Ctx.plug rest (.mk d T cp p (.mk d a₁ .black v (.mk d a₂ .red w b)))) := holds₃
    rw [atP₃.child_far, CTree.ptr_mk]
  refine ⟨t₃, ?_, holds₃, frame⟩
  simp only [Ctx.parent] at parent₃
  simp only [redFarChild, child_some, wFar, ok_bind, readB, bBlack, if_true, wNear, paintV, paintW,
    rotated, parent₃, pFar₃, pure_ok]

/-- A red far child is kept. -/
theorem redFarChild_far {a b₁ b₂ : CTree Addr} {v : Addr}
    (holds : Holds t top (Ctx.plug (⟨d, cp, p, .mk d a .black w (.mk d b₁ .red v b₂)⟩ :: rest) T)) :
    t.redFarChild d (some w) (T.ptr t.m_sentinel) = .ok (some w, t) := by
  have atW := holds_sibling.mpr holds
  have wFar : (t.mem w).child d.opp = some v := by
    rw [atW.child_far, CTree.ptr_mk]
  have atV : Holds t top (Ctx.plug (⟨d.opp, .black, w, a⟩ :: ⟨d.opp, cp, p, T⟩ :: rest)
      (.mk d b₁ .red v b₂)) := by
    rw [Ctx.plug_cons, Frame.fill, CTree.mk_opp]
    exact atW
  have vColor : (t.mem v).color = .red := atV.color
  simp only [redFarChild, child_some, wFar, ok_bind, color_some, vColor, reduceCtorEq, if_false,
    pure_ok]

/-- **The last rotation**: the sibling takes the place and the color of the parent. -/
theorem fillGap_spec {a b₁ b₂ : CTree Addr} {v : Addr}
    (holds : Holds t top (Ctx.plug (⟨d, cp, p, .mk d a .black w (.mk d b₁ .red v b₂)⟩ :: rest) T))
    (lent : Lent t T (some p)) (sentinel : t.m_sentinel ≠ none) :
    ∃ t', t.fillGap d (some w) (T.ptr t.m_sentinel) = .ok (t'.m_root, t') ∧
      Holds t' top (Ctx.plug rest (.mk d (.mk d T .black p a) cp w (.mk d b₁ .black v b₂))) ∧
      Touches (Ctx.plug (⟨d, cp, p, .mk d a .black w (.mk d b₁ .red v b₂)⟩ :: rest) T).labels
        t t' := by
  have real := holds.rep.real
  have sub : ∀ {c₁ c₂ c₃ : Color} {z : Addr},
      z ∈ (Ctx.plug rest (.mk d T c₁ p (.mk d a c₂ w (.mk d b₁ c₃ v b₂)))).labels →
        z ∈ (Ctx.plug (⟨d, cp, p, .mk d a .black w (.mk d b₁ .red v b₂)⟩ :: rest) T).labels := by
    intro c₁ c₂ c₃ z member
    simp only [Ctx.plug_cons, Frame.fill, Ctx.mem_labels_plug, CTree.mem_labels_mk] at member ⊢
    exact member
  have subSibling : ∀ {c₁ c₂ c₃ : Color} {z : Addr},
      z ∈ (Ctx.plug (⟨d.opp, c₁, p, T⟩ :: rest) (.mk d a c₂ w (.mk d b₁ c₃ v b₂))).labels →
        z ∈ (Ctx.plug (⟨d, cp, p, .mk d a .black w (.mk d b₁ .red v b₂)⟩ :: rest) T).labels := by
    intro c₁ c₂ c₃ z member
    rw [Ctx.plug_cons, Frame.fill, CTree.mk_opp] at member
    exact sub member
  have parent := temp_parent .refl real lent sentinel holds
  have pColor : (t.mem p).color = cp :=
    (show Holds t top (Ctx.plug rest (.mk d T cp p _)) from holds).color
  obtain ⟨t₁, paintW, atW₁, frame₁⟩ := setColor_spec cp (holds_sibling.mpr holds)
  have frame₁ : Touches (Ctx.plug (⟨d, cp, p, .mk d a .black w (.mk d b₁ .red v b₂)⟩ :: rest) T).labels
      t t₁ := frame₁.mono fun z => subSibling
  have parent₁ := temp_parent frame₁ real lent sentinel (holds_sibling.mp atW₁)
  have atP₁ : Holds t₁ top (Ctx.plug rest (.mk d T cp p (.mk d a cp w (.mk d b₁ .red v b₂)))) :=
    holds_sibling.mp atW₁
  obtain ⟨t₂, paintP, atP₂, frame₂⟩ := setColor_spec .black atP₁
  have frame₂ := frame₁.trans (frame₂.mono fun z => sub)
  have holds₂ : Holds t₂ top
      (Ctx.plug (⟨d, .black, p, .mk d a cp w (.mk d b₁ .red v b₂)⟩ :: rest) T) := atP₂
  have atW₂ := holds_sibling.mpr holds₂
  have wFar₂ : (t₂.mem w).child d.opp = some v := by
    rw [atW₂.child_far, CTree.ptr_mk]
  have atV₂ : Holds t₂ top (Ctx.plug (⟨d.opp, cp, w, a⟩ :: ⟨d.opp, .black, p, T⟩ :: rest)
      (.mk d b₁ .red v b₂)) := by
    rw [Ctx.plug_cons, Frame.fill, CTree.mk_opp]
    exact atW₂
  obtain ⟨t₃, paintV, atV₃, frame₃⟩ := setColor_spec .black atV₂
  rw [Ctx.plug_cons, Frame.fill, CTree.mk_opp] at atV₃ frame₃
  have frame₃ := frame₂.trans (frame₃.mono fun z => subSibling)
  have holds₃ := holds_sibling.mp atV₃
  have parent₃ := temp_parent frame₃ real lent sentinel holds₃
  obtain ⟨t₄, rotated, atW₄, frame₄⟩ := rotate_spec
    (show Holds t₃ top (Ctx.plug rest (.mk d T .black p (.mk d a cp w (.mk d b₁ .black v b₂))))
      from holds₃)
  refine ⟨t₄, ?_, atW₄, frame₃.trans (frame₄.mono fun z => sub)⟩
  simp only [Ctx.parent] at parent parent₁ parent₃
  simp only [fillGap, parent, ok_bind, color_some, pColor, paintW, parent₁, paintP, child_some,
    wFar₂, paintV, parent₃, rotated, pure_ok]

end Step

/-- What a turn of the loop leaves: the next `temp` with its context. Either the loop is over, or
the parent was black and `temp` is one level up. -/
structure StepResult (t : NcRbTree) (top : Ptr) (cp : Color) (size : Nat) (labels : List Addr)
    (result : Ptr × NcRbTree) : Prop where
  outcome : ∃ ctx T n, result.1 = T.ptr t.m_sentinel ∧ Holds result.2 top (Ctx.plug ctx T) ∧
    (Ctx.plug ctx T).labels = labels ∧ T ≠ .nil ∧ RBCtx ctx (n + 1) ∧ Deficit n T ∧
      (T.color = .red ∨ ctx = [] ∨ (cp = .black ∧ ctx.length = size))
  frame : Touches labels t result.2

section Turn

variable {t : NcRbTree} {top : Ptr} {rest : Ctx Addr} {d : Dir} {T a b : CTree Addr} {cp : Color}
  {p w : Addr} {n : Nat}

/-- **Both children of the sibling are black**: the sibling becomes red, and the parent lacks a
level. -/
theorem resolve_recolor
    (holds : Holds t top (Ctx.plug (⟨d, cp, p, .mk d a .black w b⟩ :: rest) T))
    (black : t.SentinelBlack) (lent : Lent t T (some p)) (sentinel : t.m_sentinel ≠ none)
    (around : RBCtx (⟨d, cp, p, .mk d a .black w b⟩ :: rest) (n + 1)) (short : RB .black n T)
    (aRB : RB .black n a) (bRB : RB .black n b) :
    ∃ result, t.resolve d (some w) (T.ptr t.m_sentinel) = .ok result ∧
      StepResult t top cp rest.length
        (Ctx.plug (⟨d, cp, p, .mk d a .black w b⟩ :: rest) T).labels result := by
  have both := bothBlack_spec (holds_sibling.mpr holds) black sentinel
  obtain ⟨t', paint, atW, frame⟩ := setColor_spec .red (holds_sibling.mpr holds)
  rw [Ctx.plug_cons, Frame.fill, CTree.mk_opp] at frame
  have holds' := holds_sibling.mp atW
  have parent := temp_parent frame holds.rep.real lent sentinel holds'
  refine ⟨(some p, t'), ?_, ⟨?_, frame⟩⟩
  · simp only [Ctx.parent] at parent
    simp only [resolve, both, aRB.color_eq, bRB.color_eq, and_self, decide_true, ok_bind, if_true,
      paint, parent, pure_ok]
  · have here : Holds t' top (Ctx.plug rest (.mk d T cp p (.mk d a .red w b))) := holds'
    have labels : (Ctx.plug rest (.mk d T cp p (.mk d a .red w b))).labels =
        (Ctx.plug (⟨d, cp, p, .mk d a .black w b⟩ :: rest) T).labels := by
      rw [Ctx.plug_cons, Frame.fill, Ctx.labels_plug, Ctx.labels_plug]
      cases d <;> rfl
    have redSibling : RB .red n (.mk d a .red w b) := .red_mk d aRB bRB
    cases cp with
    | red =>
        cases around with
        | red _ _ _ outer =>
            refine ⟨rest, _, n, ?_, here, labels, CTree.mk_ne_nil _ _ _ _ _, outer, ?_, ?_⟩
            · rw [CTree.ptr_mk]
            · rw [Deficit, CTree.blacken_mk]
              exact Or.inr ⟨CTree.color_mk _ _ _ _ _, .black_mk d short redSibling⟩
            · exact Or.inl (CTree.color_mk _ _ _ _ _)
        | black isBlack _ _ => cases isBlack
    | black =>
        obtain ⟨-, outer⟩ := around.of_black rfl
        refine ⟨rest, _, n + 1, ?_, here, labels, CTree.mk_ne_nil _ _ _ _ _, outer, ?_, ?_⟩
        · rw [CTree.ptr_mk]
        · exact Or.inl (.black_mk d short redSibling)
        · exact Or.inr (Or.inr ⟨rfl, rfl⟩)

/-- The far child of the sibling is red: one rotation restores the height. -/
theorem fillGap_result {ca : Color} {b₁ b₂ : CTree Addr} {v : Addr}
    (holds : Holds t top (Ctx.plug (⟨d, cp, p, .mk d a .black w (.mk d b₁ .red v b₂)⟩ :: rest) T))
    (lent : Lent t T (some p)) (sentinel : t.m_sentinel ≠ none)
    (around : RBCtx (⟨d, cp, p, .mk d a .black w (.mk d b₁ .red v b₂)⟩ :: rest) (n + 1))
    (short : RB .black n T) (aRB : RB ca n a) (b₁RB : RB .black n b₁) (b₂RB : RB .black n b₂) :
    ∃ result, t.fillGap d (some w) (T.ptr t.m_sentinel) = .ok result ∧
      StepResult t top cp rest.length
        (Ctx.plug (⟨d, cp, p, .mk d a .black w (.mk d b₁ .red v b₂)⟩ :: rest) T).labels
        result := by
  obtain ⟨t', runs, holds', frame⟩ := fillGap_spec holds lent sentinel
  have nearRB : RB .black (n + 1) (.mk d T .black p a) := .black_mk d short aRB
  have farRB : RB .black (n + 1) (.mk d b₁ .black v b₂) := .black_mk d b₁RB b₂RB
  have whole : ∃ m, RB .black m
      (Ctx.plug rest (.mk d (.mk d T .black p a) cp w (.mk d b₁ .black v b₂))) := by
    cases cp with
    | red =>
        cases around with
        | red _ _ above outer => exact outer.plug (.red_mk d nearRB farRB) (Or.inr above)
        | black isBlack _ _ => cases isBlack
    | black =>
        obtain ⟨-, outer⟩ := around.of_black rfl
        exact outer.plug (.black_mk d nearRB farRB) (Or.inl rfl)
  obtain ⟨m, shape⟩ := whole
  refine ⟨_, runs, ⟨⟨[], _, m, ?_, holds', ?_, ?_, .nil, Or.inl shape, Or.inr (Or.inl rfl)⟩, frame⟩⟩
  · rw [← frame.sentinel]
    exact holds'.root
  · rw [Ctx.plug_nil, Ctx.plug_cons, Frame.fill, Ctx.labels_plug, Ctx.labels_plug]
    cases d <;> simp [CTree.mk]
  · intro isNil
    have empty := congrArg CTree.labels isNil
    rw [Ctx.labels_plug] at empty
    cases d <;> simp [CTree.mk] at empty

/-- **A turn with a black sibling.** -/
theorem resolve_spec {ca cb : Color}
    (holds : Holds t top (Ctx.plug (⟨d, cp, p, .mk d a .black w b⟩ :: rest) T))
    (black : t.SentinelBlack) (lent : Lent t T (some p)) (sentinel : t.m_sentinel ≠ none)
    (around : RBCtx (⟨d, cp, p, .mk d a .black w b⟩ :: rest) (n + 1)) (short : RB .black n T)
    (aRB : RB ca n a) (bRB : RB cb n b) :
    ∃ result, t.resolve d (some w) (T.ptr t.m_sentinel) = .ok result ∧
      StepResult t top cp rest.length
        (Ctx.plug (⟨d, cp, p, .mk d a .black w b⟩ :: rest) T).labels result := by
  have both := bothBlack_spec (holds_sibling.mpr holds) black sentinel
  rw [aRB.color_eq, bRB.color_eq] at both
  have split : ∀ {U : CTree Addr}, RB .red n U → ∃ U₁ v U₂, U = .mk d U₁ .red v U₂ ∧
      RB .black n U₁ ∧ RB .black n U₂ := by
    intro U shape
    obtain ⟨U₁, c, v, U₂, rfl⟩ := U.exists_mk d fun isNil => by
      rw [isNil] at shape
      cases shape
    have isRed : c = .red := by
      rw [← CTree.color_mk d U₁ U₂ c v]
      exact shape.color_eq
    subst isRed
    exact ⟨U₁, v, U₂, rfl, (RB.of_red_mk shape).2⟩
  cases cb with
  | red =>
      obtain ⟨b₁, v, b₂, rfl, b₁RB, b₂RB⟩ := split bRB
      obtain ⟨result, runs, outcome⟩ :=
        fillGap_result holds lent sentinel around short aRB b₁RB b₂RB
      refine ⟨result, ?_, outcome⟩
      simp only [resolve, both, reduceCtorEq, and_false, decide_false, ok_bind, Bool.false_eq_true,
        if_false, redFarChild_far holds, runs]
  | black =>
      cases ca with
      | black => exact resolve_recolor holds black lent sentinel around short aRB bRB
      | red =>
          obtain ⟨a₁, v, a₂, rfl, a₁RB, a₂RB⟩ := split aRB
          obtain ⟨t₁, turned, holds₁, frame₁⟩ :=
            redFarChild_near holds black bRB.color_eq lent sentinel
          have siblingRB : RB .black (n + 1) (.mk d a₁ .black v (.mk d a₂ .red w b)) :=
            .black_mk d a₁RB (.red_mk d a₂RB bRB)
          have around₁ : RBCtx (⟨d, cp, p, .mk d a₁ .black v (.mk d a₂ .red w b)⟩ :: rest)
              (n + 1) := by
            cases around with
            | red isRed _ above outer => exact .red isRed siblingRB above outer
            | black isBlack _ outer => exact .black isBlack siblingRB outer
          obtain ⟨result, runs, ⟨ctx, T', m, outcome⟩, frame'⟩ :=
            fillGap_result holds₁ (lent.touches frame₁ holds.rep.real)
              (frame₁.sentinel ▸ sentinel) around₁ short a₁RB a₂RB bRB
          have labels : (Ctx.plug (⟨d, cp, p, .mk d a₁ .black v (.mk d a₂ .red w b)⟩ :: rest) T).labels
              = (Ctx.plug (⟨d, cp, p, .mk d (.mk d a₁ .red v a₂) .black w b⟩ :: rest) T).labels := by
            simp only [Ctx.plug_cons, Frame.fill, Ctx.labels_plug]
            cases d <;> simp [CTree.mk]
          rw [frame₁.sentinel, labels] at outcome
          rw [labels] at frame'
          rw [frame₁.sentinel] at runs
          refine ⟨result, ?_, ⟨⟨ctx, T', m, outcome⟩, frame₁.trans frame'⟩⟩
          simp only [resolve, both, reduceCtorEq, false_and, decide_false, ok_bind,
            Bool.false_eq_true, if_false, turned, runs]

/-- **One turn of the loop.** -/
theorem removeStep_spec {W : CTree Addr} (holds : Holds t top (Ctx.plug (⟨d, cp, p, W⟩ :: rest) T))
    (black : t.SentinelBlack) (lent : Lent t T (some p)) (sentinel : t.m_sentinel ≠ none)
    (around : RBCtx (⟨d, cp, p, W⟩ :: rest) (n + 1)) (short : RB .black n T) :
    ∃ result, t.removeStep d (T.ptr t.m_sentinel) = .ok result ∧
      StepResult t top cp rest.length (Ctx.plug (⟨d, cp, p, W⟩ :: rest) T).labels result := by
  obtain ⟨cw, WRB⟩ := around.other
  obtain ⟨a, c, w, b, rfl⟩ := W.exists_mk d WRB.ne_nil
  cases c with
  | black =>
      obtain ⟨-, m, ca, cb, same, aRB, bRB⟩ := RB.of_black_mk WRB
      obtain rfl : n = m := Nat.succ.inj same
      obtain ⟨result, runs, outcome⟩ :=
        resolve_spec holds black lent sentinel around short aRB bRB
      refine ⟨result, ?_, outcome⟩
      simp only [removeStep, blackSibling_black holds lent sentinel, ok_bind, runs]
  | red =>
      obtain ⟨rfl, aRB, bRB⟩ := RB.of_red_mk WRB
      have isBlack : cp = .black := by
        cases around with
        | red _ other _ _ =>
            have impossible := other.color_eq
            rw [CTree.color_mk] at impossible
            cases impossible
        | black isBlack _ _ => exact isBlack
      subst isBlack
      obtain ⟨-, outer⟩ := around.of_black rfl
      obtain ⟨t₁, turned, holds₁, frame₁⟩ := blackSibling_red holds lent sentinel
      -- the new sibling is a black child of the old one
      obtain ⟨a₁, c₁, v, a₂, rfl⟩ := a.exists_mk d aRB.ne_nil
      have vBlack : c₁ = .black := by
        rw [← CTree.color_mk d a₁ a₂ c₁ v]
        exact aRB.color_eq
      subst vBlack
      obtain ⟨-, m, ca, cb, same, a₁RB, a₂RB⟩ := RB.of_black_mk aRB
      obtain rfl : n = m := Nat.succ.inj same
      have around₁ : RBCtx (⟨d, .red, p, .mk d a₁ .black v a₂⟩ :: ⟨d, .black, w, b⟩ :: rest)
          (n + 1) := .red rfl aRB rfl (.black rfl bRB outer)
      have black₁ : t₁.SentinelBlack := black.touches frame₁ holds.rep.real
      have sentinel₁ : t₁.m_sentinel ≠ none := frame₁.sentinel ▸ sentinel
      have lent₁ : Lent t₁ T (some p) := lent.touches frame₁ holds.rep.real
      obtain ⟨result, runs, ⟨ctx, T', m, atTemp, holds', sameLabels, notNil, outside, deficit, ends⟩,
        frame'⟩ := resolve_spec holds₁ black₁ lent₁ sentinel₁ around₁ short a₁RB a₂RB
      have labels : (Ctx.plug (⟨d, .red, p, .mk d a₁ .black v a₂⟩ :: ⟨d, .black, w, b⟩ :: rest) T).labels
          = (Ctx.plug (⟨d, .black, p, .mk d (.mk d a₁ .black v a₂) .red w b⟩ :: rest) T).labels := by
        simp only [Ctx.plug_cons, Frame.fill, Ctx.labels_plug]
        cases d <;> simp [CTree.mk]
      rw [frame₁.sentinel] at runs atTemp
      rw [labels] at frame' sameLabels
      refine ⟨result, ?_, ⟨ctx, T', m, atTemp, holds', sameLabels, notNil, outside, deficit, ?_⟩,
        frame₁.trans frame'⟩
      · rw [CTree.ptr_mk] at turned
        simp only [removeStep, turned, ok_bind, runs]
      · rcases ends with isRed | isRoot | ⟨impossible, -⟩
        · exact Or.inl isRed
        · exact Or.inr (Or.inl isRoot)
        · cases impossible

end Turn

/-! ### The loop -/

/-- The loop ends at once below a red root, or at the root of the tree. -/
theorem rebalance_paint (fuel : Nat) {t : NcRbTree} {top : Ptr} {ctx : Ctx Addr} {n : Nat}
    {T : CTree Addr} (holds : Holds t top (Ctx.plug ctx T)) (around : RBCtx ctx (n + 1))
    (deficit : Deficit n T) (nonempty : T ≠ .nil) (ends : T.color = .red ∨ ctx = []) :
    ∃ t' T', t.rebalance (fuel + 1) (T.ptr t.m_sentinel) = .ok t' ∧ Holds t' top T' ∧
      T'.labels = (Ctx.plug ctx T).labels ∧ (∃ m, RB .black m T') ∧
      Touches (Ctx.plug ctx T).labels t t' := by
  obtain ⟨t', paint, holds', frame⟩ := blacken_spec holds nonempty
  have loop : removeFixup (fuel + 1) (T.ptr t.m_sentinel) t = .ok (T.ptr t.m_sentinel, t) := by
    by_cases atRoot : T.ptr t.m_sentinel = t.m_root
    · simp only [removeFixup, if_pos atRoot, pure_ok]
    · have isRed : T.color = .red := by
        rcases ends with isRed | rfl
        · exact isRed
        · exact absurd holds.root.symm atRoot
      obtain ⟨l, c, x, r, rfl⟩ := T.exists_mk .left nonempty
      have xColor : (t.mem x).color = .red := by
        rw [holds.color, ← isRed, CTree.color_mk]
      rw [CTree.ptr_mk] at atRoot ⊢
      simp only [removeFixup, if_neg atRoot, color_some, ok_bind, xColor, reduceCtorEq, if_false,
        pure_ok]
  refine ⟨t', _, ?_, holds', ?_, ?_, frame⟩
  · simp only [rebalance, loop, ok_bind, paint]
  · rw [Ctx.labels_plug, Ctx.labels_plug, CTree.labels_blacken]
  · rcases deficit with isBlack | ⟨-, shape⟩
    · rw [CTree.blacken_of_black isBlack.color_eq]
      rcases ends with isRed | rfl
      · rw [isBlack.color_eq] at isRed
        cases isRed
      · exact ⟨n, isBlack⟩
    · exact around.plug shape (Or.inl rfl)

/-- **The rebalancing loop of `remove`.** -/
theorem rebalance_spec (fuel : Nat) {t : NcRbTree} {top : Ptr} {ctx : Ctx Addr} {n : Nat}
    {T : CTree Addr} (enough : ctx.length + 2 ≤ fuel) (holds : Holds t top (Ctx.plug ctx T))
    (black : t.SentinelBlack) (lent : Lent t T (Ctx.parent top ctx)) (around : RBCtx ctx (n + 1))
    (deficit : Deficit n T) (somewhere : T = .nil → ctx ≠ [])
    (readable : t.m_sentinel = none → T.color = .red) :
    ∃ t' T', t.rebalance fuel (T.ptr t.m_sentinel) = .ok t' ∧ Holds t' top T' ∧
      T'.labels = (Ctx.plug ctx T).labels ∧ (∃ m, RB .black m T') ∧
      Touches (Ctx.plug ctx T).labels t t' := by
  induction fuel generalizing t ctx n T with
  | zero => omega
  | succ fuel ih =>
      by_cases ends : T.color = .red ∨ ctx = []
      · refine rebalance_paint fuel holds around deficit ?_ ends
        rintro rfl
        rcases ends with isRed | isRoot
        · cases isRed
        · exact somewhere rfl isRoot
      · rw [not_or] at ends
        obtain ⟨notRed, notRoot⟩ := ends
        have sentinel : t.m_sentinel ≠ none := fun isNull => notRed (readable isNull)
        have short : RB .black n T := by
          rcases deficit with isBlack | ⟨isRed, -⟩
          · exact isBlack
          · exact absurd isRed notRed
        obtain ⟨⟨d, cp, p, W⟩, rest, rfl⟩ := List.exists_cons_of_ne_nil notRoot
        have parent := temp_parent .refl holds.rep.real lent sentinel holds
        have atP : Holds t top (Ctx.plug rest (.mk d T cp p W)) := holds
        have tColor : t.color (T.ptr t.m_sentinel) = .ok .black := by
          have inT := (holds_plug.mp holds).2.2.1
          rw [color_ptr black inT fun isNull => absurd isNull sentinel, short.color_eq]
        have belowRoot : T.ptr t.m_sentinel ≠ t.m_root := by
          rw [(holds_plug.mp holds).1]
          cases T with
          | nil =>
              intro same
              obtain ⟨y, member, root⟩ := Ctx.root_mem (t.m_sentinel) ⟨d, cp, p, W⟩ rest
              rw [CTree.ptr_nil, root] at same
              exact holds.rep.real y (Ctx.mem_labels_plug.mpr (Or.inl member)) same.symm
          | node l c x r =>
              have atX : Holds t top (Ctx.plug (⟨d, cp, p, W⟩ :: rest) (.mk .left l c x r)) := holds
              exact Ctx.root_ne atX.mem.2.2
        obtain ⟨⟨next, t₁⟩, step, ⟨ctx', T', m, atNext, holds₁, labels₁, notNil, around₁, deficit₁,
          after⟩, frame₁⟩ := removeStep_spec holds black lent sentinel around short
        simp only at atNext holds₁ frame₁
        -- the code's comparison picks the side of `temp`
        have turn : t.rebalance (fuel + 1) (T.ptr t.m_sentinel) = t₁.rebalance fuel next := by
          simp only [Ctx.parent] at parent
          have near := atP.child_near
          have far := atP.child_far
          cases d with
          | left =>
              simp only [rebalance, removeFixup, if_neg belowRoot, tColor, ok_bind, if_true, parent,
                child_some, near, step]
          | right =>
              obtain ⟨c, WRB⟩ := around.other
              have notLeft : T.ptr t.m_sentinel ≠ W.ptr t.m_sentinel := by
                obtain ⟨a, cw, w, b, rfl⟩ := W.exists_mk .right WRB.ne_nil
                have atW := holds_sibling.mpr holds
                rw [CTree.ptr_mk]
                exact CTree.ptr_ne (fun inT => atW.mem.2.2
                  (Ctx.mem_labels_cons.mpr (Or.inr (Or.inl inT)))) atW.real
              rw [Dir.opp] at far
              simp only [rebalance, removeFixup, if_neg belowRoot, tColor, ok_bind, if_true, parent,
                child_some, far, if_neg notLeft, step]
        rw [turn, atNext, ← frame₁.sentinel]
        have next : ∃ t' T₂, t₁.rebalance fuel (T'.ptr t₁.m_sentinel) = .ok t' ∧ Holds t' top T₂ ∧
            T₂.labels = (Ctx.plug ctx' T').labels ∧ (∃ m, RB .black m T₂) ∧
            Touches (Ctx.plug ctx' T').labels t₁ t' := by
          by_cases stops : T'.color = .red ∨ ctx' = []
          · obtain ⟨more, rfl⟩ : ∃ more, fuel = more + 1 :=
              Nat.exists_eq_succ_of_ne_zero (by
                simp only [List.length_cons] at enough
                omega)
            exact rebalance_paint more holds₁ around₁ deficit₁ notNil stops
          · have shorter : ctx'.length = rest.length := by tauto
            refine ih ?_ holds₁ (black.touches frame₁ holds.rep.real)
              (fun isNil => absurd isNil notNil) around₁ deficit₁ (fun isNil => absurd isNil notNil)
              fun isNull => absurd (frame₁.sentinel ▸ isNull) sentinel
            simp only [List.length_cons] at enough
            omega
        obtain ⟨t', T₂, runs, holds', labels', shape, frame'⟩ := next
        rw [labels₁] at labels' frame'
        exact ⟨t', T₂, runs, holds', labels', shape, frame₁.trans frame'⟩

end NcRbTree

end Nutcracker
