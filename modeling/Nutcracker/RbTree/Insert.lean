/-
**Insertion.**

The rebalancing loop climbs from a red node `x` whose subtree is red-black below it. Its state is
`plug ctx x` with `RBCtx ctx n`: everything is red-black except that `x` may be the red child of a
red node, or a red root.

* `insertStep_red`, `insertStep_black` — one turn of the loop: recoloring moves the red node two
  levels up, a black uncle ends the loop with one or two rotations.
* `insertFixup_spec` — the loop, by induction on its fuel: the tree is red-black once its root is
  painted black, the in-order sequence is unchanged, and fuel `ctx.length + 2` is enough.
* `descend_spec` — the search loop stops at the hole its comparisons lead to (`Searched`).
* `insert_spec` — **insertion ends, and puts the node into that hole of a red-black tree.**

With a sentinel nothing else is needed. Without one (`m_sentinel = NULL`) the loop reads the color
of a missing uncle, so that the specification asks for an uncle wherever the parent is red
(`UncleAtHole`); higher up a black height above zero provides it.
-/

import Nutcracker.RbTree.Rotate
import Mathlib.Tactic.Linarith

namespace Nutcracker

open Lib

namespace NcRbTree

/-- The sentinel, if there is one, is black. -/
def SentinelBlack (t : NcRbTree) : Prop :=
  ∀ z, t.m_sentinel = some z → (t.mem z).color = .black

/-- **The color of a subtree's pointer**, where the code may read it. -/
theorem color_ptr {t : NcRbTree} {par : Ptr} {U : CTree Addr} (black : t.SentinelBlack)
    (rep : Rep t.links t.m_sentinel par U) (readable : t.m_sentinel = none → U ≠ .nil) :
    t.color (U.ptr t.m_sentinel) = .ok U.color := by
  cases U with
  | nil =>
      rw [CTree.ptr_nil, CTree.color_nil]
      cases isNull : t.m_sentinel with
      | none => exact absurd rfl (readable isNull)
      | some z => rw [color_some, black z isNull]
  | node l c u r =>
      rw [CTree.ptr_node, CTree.color_node, color_some]
      exact congrArg Except.ok rep.2.2.2.2.1

/-- The sentinel keeps its color when only cells of the tree are written. -/
theorem SentinelBlack.touches {t t' : NcRbTree} {xs : List Addr} (black : t.SentinelBlack)
    (frame : Touches xs t t') (real : ∀ x ∈ xs, some x ≠ t.m_sentinel) : t'.SentinelBlack := by
  intro z isSentinel
  rw [frame.sentinel] at isSentinel
  rw [frame.outside z fun member => real z member isSentinel.symm]
  exact black z isSentinel

/-! ### One turn of the rebalancing loop -/

section Step

variable {t : NcRbTree} {top : Ptr} {rest : Ctx Addr} {d : Dir} {N o U : CTree Addr} {x p g : Addr}

/-- **A red uncle**: parent and uncle become black, the grandparent red. -/
theorem insertStep_red {dx df : Dir} {a b ul ur : CTree Addr} {u : Addr}
    (holds : Holds t top (Ctx.plug rest
      (.mk d (.mk df (.mk dx a .red x b) .red p o) .black g (.mk d ul .red u ur)))) :
    ∃ t', t.insertStep d (some x) = .ok (some g, t') ∧
      Holds t' top (Ctx.plug rest
        (.mk d (.mk df (.mk dx a .red x b) .black p o) .red g (.mk d ul .black u ur))) ∧
      Touches (Ctx.plug rest
        (.mk d (.mk df (.mk dx a .red x b) .red p o) .black g (.mk d ul .red u ur))).labels
        t t' := by
  have atP : Holds t top (Ctx.plug (⟨d, .black, g, .mk d ul .red u ur⟩ :: rest)
      (.mk df (.mk dx a .red x b) .red p o)) := holds
  have atX : Holds t top (Ctx.plug (⟨df, .red, p, o⟩ :: ⟨d, .black, g, .mk d ul .red u ur⟩ :: rest)
      (.mk dx a .red x b)) := holds
  have xParent : (t.mem x).parent = some p := atX.parent
  have pParent : (t.mem p).parent = some g := atP.parent
  have gFar : (t.mem g).child d.opp = some u := by
    rw [holds.child_far, CTree.ptr_mk]
  have uColor : (t.mem u).color = .red := by
    have atU : Holds t top (Ctx.plug (⟨d.opp, .black, g, .mk df (.mk dx a .red x b) .red p o⟩ :: rest)
        (.mk d ul .red u ur)) := by
      rw [Ctx.plug_cons, Frame.fill, CTree.mk_opp]
      exact holds
    exact atU.color
  obtain ⟨t₁, paintP, holds₁, frame₁⟩ := setColor_spec .black atP
  have atU₁ : Holds t₁ top (Ctx.plug
      (⟨d.opp, .black, g, .mk df (.mk dx a .red x b) .black p o⟩ :: rest)
      (.mk d ul .red u ur)) := by
    rw [Ctx.plug_cons, Frame.fill, CTree.mk_opp]
    exact holds₁
  obtain ⟨t₂, paintU, holds₂, frame₂⟩ := setColor_spec .black atU₁
  have atG₂ : Holds t₂ top (Ctx.plug rest
      (.mk d (.mk df (.mk dx a .red x b) .black p o) .black g (.mk d ul .black u ur))) := by
    rw [Ctx.plug_cons, Frame.fill, CTree.mk_opp] at holds₂
    exact holds₂
  have xParent₂ : (t₂.mem x).parent = some p := by
    have atX₂ : Holds t₂ top (Ctx.plug
        (⟨df, .black, p, o⟩ :: ⟨d, .black, g, .mk d ul .black u ur⟩ :: rest)
        (.mk dx a .red x b)) := atG₂
    exact atX₂.parent
  have pParent₂ : (t₂.mem p).parent = some g := by
    have atP₂ : Holds t₂ top (Ctx.plug (⟨d, .black, g, .mk d ul .black u ur⟩ :: rest)
        (.mk df (.mk dx a .red x b) .black p o)) := atG₂
    exact atP₂.parent
  obtain ⟨t₃, paintG, holds₃, frame₃⟩ := setColor_spec .red atG₂
  have xParent₃ : (t₃.mem x).parent = some p := by
    have atX₃ : Holds t₃ top (Ctx.plug
        (⟨df, .black, p, o⟩ :: ⟨d, .red, g, .mk d ul .black u ur⟩ :: rest)
        (.mk dx a .red x b)) := holds₃
    exact atX₃.parent
  have pParent₃ : (t₃.mem p).parent = some g := by
    have atP₃ : Holds t₃ top (Ctx.plug (⟨d, .red, g, .mk d ul .black u ur⟩ :: rest)
        (.mk df (.mk dx a .red x b) .black p o)) := holds₃
    exact atP₃.parent
  refine ⟨t₃, ?_, holds₃, ?_⟩
  · simp only [insertStep, parent_some, ok_bind, xParent, pParent, child_some, gFar, color_some,
      uColor, if_pos, paintP, paintU, xParent₂, pParent₂, paintG, xParent₃, pParent₃, pure_ok]
  · have painted : Touches (Ctx.plug rest
        (.mk d (.mk df (.mk dx a .red x b) .red p o) .black g (.mk d ul .red u ur))).labels
        t t₁ := frame₁
    refine painted.trans ((frame₂.mono fun z member => ?_).trans (frame₃.mono fun z member => ?_))
    · simp only [Ctx.plug_cons, Frame.fill, CTree.mk_opp, Ctx.mem_labels_plug,
        CTree.mem_labels_mk] at member ⊢
      exact member
    · simp only [Ctx.mem_labels_plug, CTree.mem_labels_mk] at member ⊢
      exact member

/-- The last two writes and the rotation, once the red child hangs on the outer side. -/
theorem insertStep_outer {a : CTree Addr} {dx : Dir} {b : CTree Addr}
    (holds : Holds t top (Ctx.plug rest (.mk d (.mk d (.mk dx a .red x b) .red p o) .black g U))) :
    ∃ t', (do
        let t ← t.setColor (← t.parent (some x)) .black
        let t ← t.setColor (← t.parent (← t.parent (some x))) .red
        let t ← t.rotate d.opp (← t.parent (← t.parent (some x)))
        return ((some x : Ptr), t)) = .ok (some x, t') ∧
      Holds t' top (Ctx.plug rest (.mk d (.mk dx a .red x b) .black p (.mk d o .red g U))) ∧
      Touches (Ctx.plug rest (.mk d (.mk d (.mk dx a .red x b) .red p o) .black g U)).labels
        t t' := by
  have parents : ∀ {t : NcRbTree} {cp cg : Color},
      Holds t top (Ctx.plug rest (.mk d (.mk d (.mk dx a .red x b) cp p o) cg g U)) →
        (t.mem x).parent = some p ∧ (t.mem p).parent = some g := by
    intro t cp cg held
    have atX : Holds t top (Ctx.plug (⟨d, cp, p, o⟩ :: ⟨d, cg, g, U⟩ :: rest)
        (.mk dx a .red x b)) := held
    have atP : Holds t top (Ctx.plug (⟨d, cg, g, U⟩ :: rest)
        (.mk d (.mk dx a .red x b) cp p o)) := held
    exact ⟨atX.parent, atP.parent⟩
  have atP : Holds t top (Ctx.plug (⟨d, .black, g, U⟩ :: rest)
      (.mk d (.mk dx a .red x b) .red p o)) := holds
  obtain ⟨t₁, paintP, holds₁, frame₁⟩ := setColor_spec .black atP
  have atG₁ : Holds t₁ top
      (Ctx.plug rest (.mk d (.mk d (.mk dx a .red x b) .black p o) .black g U)) := holds₁
  obtain ⟨t₂, paintG, holds₂, frame₂⟩ := setColor_spec .red atG₁
  -- seen from the other side the grandparent rotates down
  have atG₂ : Holds t₂ top (Ctx.plug rest
      (.mk d.opp U .red g (.mk d.opp o .black p (.mk dx a .red x b)))) := by
    rw [CTree.mk_opp, CTree.mk_opp]
    exact holds₂
  obtain ⟨t₃, rotated, holds₃, frame₃⟩ := rotate_spec atG₂
  refine ⟨t₃, ?_, ?_, ?_⟩
  · simp only [parent_some, ok_bind, (parents holds).1, paintP, (parents atG₁).1,
      (parents atG₁).2, paintG, (parents holds₂).1, (parents holds₂).2, rotated, pure_ok]
  · rw [CTree.mk_opp, CTree.mk_opp] at holds₃
    exact holds₃
  · have painted : Touches (Ctx.plug rest
        (.mk d (.mk d (.mk dx a .red x b) .red p o) .black g U)).labels t t₁ := frame₁
    refine painted.trans ((frame₂.mono fun z member => ?_).trans (frame₃.mono fun z member => ?_))
    · simp only [Ctx.mem_labels_plug, CTree.mem_labels_mk] at member ⊢
      exact member
    · rw [CTree.mk_opp, CTree.mk_opp] at member
      simp only [Ctx.mem_labels_plug, CTree.mem_labels_mk] at member ⊢
      exact member

/-- **A black uncle**: one or two rotations, after which the red node hangs below a black one. -/
theorem insertStep_black {n : Nat} {df : Dir} {a b : CTree Addr}
    (holds : Holds t top (Ctx.plug rest (.mk d (.mk df (.mk d a .red x b) .red p o) .black g U)))
    (uncle : t.color (U.ptr t.m_sentinel) = .ok .black) (aRB : RB .black n a)
    (bRB : RB .black n b) (oRB : RB .black n o) (URB : RB .black n U) :
    ∃ t' y a' b' q far, t.insertStep d (some x) = .ok (some y, t') ∧
      Holds t' top (Ctx.plug (⟨d, .black, q, far⟩ :: rest) (.mk d a' .red y b')) ∧
      (Ctx.plug (⟨d, .black, q, far⟩ :: rest) (.mk d a' .red y b')).labels =
        (Ctx.plug rest (.mk d (.mk df (.mk d a .red x b) .red p o) .black g U)).labels ∧
      RB .black n a' ∧ RB .black n b' ∧ RB .red n far ∧
      Touches (Ctx.plug rest (.mk d (.mk df (.mk d a .red x b) .red p o) .black g U)).labels
        t t' := by
  have atX : Holds t top (Ctx.plug (⟨df, .red, p, o⟩ :: ⟨d, .black, g, U⟩ :: rest)
      (.mk d a .red x b)) := holds
  have atP : Holds t top (Ctx.plug (⟨d, .black, g, U⟩ :: rest)
      (.mk df (.mk d a .red x b) .red p o)) := holds
  have xParent : (t.mem x).parent = some p := atX.parent
  have pParent : (t.mem p).parent = some g := atP.parent
  have gFar : (t.mem g).child d.opp = U.ptr t.m_sentinel := holds.child_far
  rcases Dir.eq_or_eq_opp d df with same | inner
  · -- the red node is on the outer side already
    subst same
    have notInner : some x ≠ (t.mem p).child df.opp := by
      rw [atP.child_far]
      have xNotO : x ∉ o.labels := fun member =>
        atX.mem.2.2 (Ctx.mem_labels_cons.mpr (Or.inr (Or.inl member)))
      exact (CTree.ptr_ne xNotO atX.real).symm
    obtain ⟨t', runs, holds', frame⟩ := insertStep_outer holds
    refine ⟨t', x, a, b, p, .mk df o .red g U, ?_, holds', ?_, aRB, bRB, .red_mk df oRB URB, frame⟩
    · simp only [insertStep, parent_some, ok_bind, xParent, pParent, child_some, gFar, uncle,
        reduceCtorEq, if_false, if_neg notInner, pure_ok] at runs ⊢
      exact runs
    · rw [Ctx.plug_cons, Frame.fill, Ctx.labels_plug, Ctx.labels_plug]
      cases df <;> simp [CTree.mk]
  · -- a first rotation moves it there
    subst inner
    have isInner : some x = (t.mem p).child d.opp := by
      rw [atP.child_near, CTree.ptr_mk]
    have atP' : Holds t top (Ctx.plug (⟨d, .black, g, U⟩ :: rest)
        (.mk d o .red p (.mk d a .red x b))) := by
      rw [CTree.mk_opp] at atP
      exact atP
    obtain ⟨t₁, rotated, holds₁, frame₁⟩ := rotate_spec atP'
    have atG₁ : Holds t₁ top
        (Ctx.plug rest (.mk d (.mk d (.mk d o .red p a) .red x b) .black g U)) := holds₁
    obtain ⟨t', runs, holds', frame⟩ := insertStep_outer atG₁
    refine ⟨t', p, o, a, x, .mk d b .red g U, ?_, holds', ?_, oRB, aRB, .red_mk d bRB URB,
      ?_⟩
    · simp only [insertStep, parent_some, ok_bind, xParent, pParent, child_some, gFar, uncle,
        reduceCtorEq, if_false, if_pos isInner, rotated, pure_ok] at runs ⊢
      exact runs
    · rw [Ctx.plug_cons, Frame.fill, Ctx.labels_plug, Ctx.labels_plug]
      cases d <;> simp [CTree.mk, Dir.opp]
    · refine (frame₁.mono fun z member => ?_).trans (frame.mono fun z member => ?_)
      · rw [CTree.mk_opp]
        exact member
      · rw [CTree.mk_opp]
        simp only [Ctx.mem_labels_plug, CTree.mem_labels_mk] at member ⊢
        tauto

end Step

/-! ### The rebalancing loop -/

/-- Where the parent above a hole is red there is an uncle: what the loop relies on when leaves are
the null pointer. -/
def UncleAtHole (ctx : Ctx Addr) : Prop :=
  ∀ f g rest, ctx = f :: g :: rest → f.color = .red → g.other ≠ .nil

/-- A black height above zero provides the uncle. -/
theorem uncleAtHole_of_height {ctx : Ctx Addr} {n : Nat} (around : RBCtx ctx (n + 1)) :
    UncleAtHole ctx := by
  intro f g rest split isRed isNil
  subst split
  obtain ⟨-, g', rest', c, same, -, gRB, -⟩ := around.of_red isRed
  obtain ⟨rfl, rfl⟩ := List.cons.inj same
  rw [isNil] at gRB
  cases gRB

/-- Recoloring keeps the sequence. -/
theorem labels_recolored {rest : Ctx Addr} {dg df : Dir} {N o ul ur : CTree Addr}
    {cg cp cu cg' cp' cu' : Color} {p g u : Addr} :
    (Ctx.plug rest (.mk dg (.mk df N cp p o) cg g (.mk dg ul cu u ur))).labels =
      (Ctx.plug rest (.mk dg (.mk df N cp' p o) cg' g (.mk dg ul cu' u ur))).labels := by
  rw [Ctx.labels_plug, Ctx.labels_plug]
  cases dg <;> cases df <;> simp [CTree.mk]

/-- The loop ends at the root. -/
theorem insertFixup_root (fuel : Nat) {t : NcRbTree} {x : Addr} (atRoot : some x = t.m_root) :
    insertFixup (fuel + 1) (some x) t = .ok t := by
  simp only [insertFixup, if_pos atRoot, pure_ok]

/-- The loop ends below a black node. -/
theorem insertFixup_black (fuel : Nat) {t : NcRbTree} {top : Ptr} {f : Frame Addr} {ctx : Ctx Addr}
    {d : Dir} {a b : CTree Addr} {c : Color} {x : Addr}
    (holds : Holds t top (Ctx.plug (f :: ctx) (.mk d a c x b))) (isBlack : f.color = .black) :
    insertFixup (fuel + 1) (some x) t = .ok t := by
  have notRoot : some x ≠ t.m_root := holds.ne_root
  have xParent : (t.mem x).parent = some f.label := holds.parent
  have atP : Holds t top (Ctx.plug ctx (.mk f.side (.mk d a c x b) f.color f.label f.other)) := holds
  have pColor : (t.mem f.label).color = .black := atP.color.trans isBlack
  simp only [insertFixup, if_neg notRoot, parent_some, ok_bind, xParent, color_some, pColor,
    reduceCtorEq, if_false, pure_ok]

/-- **A turn of the loop** below a red node: the code's comparison picks the side of that node. -/
theorem insertFixup_turn (fuel : Nat) {t : NcRbTree} {top : Ptr} {rest : Ctx Addr} {d df dg : Dir}
    {a b o U : CTree Addr} {c : Color} {x p g : Addr}
    (holds : Holds t top (Ctx.plug rest (.mk dg (.mk df (.mk d a .red x b) .red p o) c g U))) :
    insertFixup (fuel + 1) (some x) t =
      (insertStep dg (some x) t).bind fun result => insertFixup fuel result.1 result.2 := by
  have atP : Holds t top (Ctx.plug (⟨dg, c, g, U⟩ :: rest) (.mk df (.mk d a .red x b) .red p o)) :=
    holds
  have atX : Holds t top (Ctx.plug (⟨df, .red, p, o⟩ :: ⟨dg, c, g, U⟩ :: rest)
      (.mk d a .red x b)) := holds
  have notRoot : some x ≠ t.m_root := atX.ne_root
  have xParent : (t.mem x).parent = some p := atX.parent
  have pColor : (t.mem p).color = .red := atP.color
  have pParent : (t.mem p).parent = some g := atP.parent
  have gNear : (t.mem g).child dg = some p := by
    rw [holds.child_near, CTree.ptr_mk]
  cases dg with
  | left =>
      simp only [insertFixup, if_neg notRoot, parent_some, ok_bind, xParent, color_some, pColor,
        if_pos, pParent, child_some, if_pos gNear.symm]
      rfl
  | right =>
      have notLeft : some p ≠ (t.mem g).child .left := by
        have pNotU : p ∉ U.labels := fun member =>
          atP.mem.2.2 (Ctx.mem_labels_cons.mpr (Or.inr (Or.inl member)))
        have far : (t.mem g).child .left = U.ptr t.m_sentinel := holds.child_far
        rw [far]
        exact (CTree.ptr_ne pNotU atP.real).symm
      simp only [insertFixup, if_neg notRoot, parent_some, ok_bind, xParent, color_some, pColor,
        if_pos, pParent, child_some, if_neg notLeft]
      rfl

/-- **The rebalancing loop of `insert`.** -/
theorem insertFixup_spec (fuel : Nat) {t : NcRbTree} {top : Ptr} {ctx : Ctx Addr} {n : Nat}
    {d : Dir} {a b : CTree Addr} {x : Addr} (enough : ctx.length + 2 ≤ fuel)
    (holds : Holds t top (Ctx.plug ctx (.mk d a .red x b))) (black : t.SentinelBlack)
    (around : RBCtx ctx n) (aRB : RB .black n a) (bRB : RB .black n b)
    (uncle : t.m_sentinel = none → UncleAtHole ctx) :
    ∃ t' T', insertFixup fuel (some x) t = .ok t' ∧ Holds t' top T' ∧
      T'.labels = (Ctx.plug ctx (.mk d a .red x b)).labels ∧ (∃ m, RB .black m T'.blacken) ∧
      Touches (Ctx.plug ctx (.mk d a .red x b)).labels t t' := by
  induction fuel generalizing t ctx n d a b x with
  | zero => omega
  | succ fuel ih =>
      cases ctx with
      | nil =>
          have atRoot : some x = t.m_root := by
            rw [(holds_plug.mp holds).1, CTree.ptr_mk]
            rfl
          exact ⟨t, .mk d a .red x b, insertFixup_root fuel atRoot, holds, rfl,
            (RB.red_mk d aRB bRB).blacken, .refl⟩
      | cons f ctx =>
          obtain ⟨df, cf, p, o⟩ := f
          cases cf with
          | black =>
              obtain ⟨m, shape⟩ := around.plug (RB.red_mk d (x := x) aRB bRB) (Or.inr rfl)
              exact ⟨t, _, insertFixup_black fuel holds rfl, holds, rfl, shape.blacken, .refl⟩
          | red =>
              obtain ⟨oRB, ⟨dg, cg, g, U⟩, rest, cU, rfl, isBlack, URB, outer⟩ := around.of_red rfl
              simp only at isBlack URB oRB
              subst isBlack
              have atG : Holds t top
                  (Ctx.plug rest (.mk dg (.mk df (.mk d a .red x b) .red p o) .black g U)) := holds
              have turn := insertFixup_turn fuel atG
              have inU : Rep t.links t.m_sentinel (some g) U :=
                (rep_mk.mp (holds_plug.mp atG).2.2.1).2.2.2.2.2.2
              have readU : t.color (U.ptr t.m_sentinel) = .ok U.color :=
                color_ptr black inU fun isNull => uncle isNull _ _ _ rfl rfl
              cases cU with
              | red =>
                  obtain ⟨ul, c', u, ur, rfl⟩ := U.exists_mk dg (fun isNil => by
                    rw [isNil] at URB
                    cases URB)
                  have isRed : c' = .red := by
                    rw [← CTree.color_mk dg ul ur c' u]
                    exact URB.color_eq
                  subst isRed
                  obtain ⟨-, ulRB, urRB⟩ := RB.of_red_mk URB
                  obtain ⟨t₁, step, holds₁, frame₁⟩ := insertStep_red atG
                  have black₁ : t₁.SentinelBlack := black.touches frame₁ atG.rep.real
                  obtain ⟨t', T', runs, holds', labels, shape, frame'⟩ := ih
                    (by simp only [List.length_cons] at enough; omega) holds₁ black₁ outer
                    (RB.black_mk df (.red_mk d aRB bRB) oRB) (RB.black_mk dg ulRB urRB)
                    (fun _ => uncleAtHole_of_height outer)
                  rw [step] at turn
                  refine ⟨t', T', turn.trans runs, holds', labels.trans labels_recolored, shape,
                    frame₁.trans (frame'.mono fun z member => ?_)⟩
                  rw [labels_recolored] at member
                  exact member
              | black =>
                  have uncleBlack : t.color (U.ptr t.m_sentinel) = .ok .black := by
                    rw [readU, URB.color_eq]
                  -- name the children of `x` by the side of its parent
                  obtain ⟨a₀, b₀, shapeX, aRB₀, bRB₀⟩ : ∃ a₀ b₀,
                      CTree.mk d a .red x b = .mk dg a₀ .red x b₀ ∧ RB .black n a₀ ∧
                        RB .black n b₀ := by
                    rcases Dir.eq_or_eq_opp dg d with same | opposite
                    · exact ⟨a, b, by rw [same], aRB, bRB⟩
                    · exact ⟨b, a, by rw [opposite, CTree.mk_opp], bRB, aRB⟩
                  rw [shapeX] at atG
                  obtain ⟨t₁, y, a', b', q, far, step, holds₁, labels₁, aRB', bRB', farRB, frame₁⟩ :=
                    insertStep_black atG uncleBlack aRB₀ bRB₀ oRB URB
                  have black₁ : t₁.SentinelBlack := black.touches frame₁ atG.rep.real
                  obtain ⟨t', T', runs, holds', labels, shape, frame'⟩ := ih
                    (by simp only [List.length_cons] at enough ⊢; omega) holds₁ black₁
                    (.black rfl farRB outer) aRB' bRB'
                    (fun _ f' g' rest' split isRed' => by
                      obtain ⟨rfl, -⟩ := List.cons.inj split
                      cases isRed')
                  rw [step] at turn
                  rw [Ctx.plug_cons, Ctx.plug_cons, Frame.fill, Frame.fill, shapeX]
                  refine ⟨t', T', turn.trans runs, holds', labels.trans labels₁, shape,
                    frame₁.trans (frame'.mono fun z member => ?_)⟩
                  rw [labels₁] at member
                  exact member

/-- **A missing uncle**: without a sentinel the loop reads the color of a null pointer. -/
theorem insertFixup_fault (fuel : Nat) {t : NcRbTree} {top : Ptr} {f g : Frame Addr}
    {rest : Ctx Addr} {d : Dir} {a b : CTree Addr} {x : Addr}
    (holds : Holds t top (Ctx.plug (f :: g :: rest) (.mk d a .red x b))) (isRed : f.color = .red)
    (noUncle : g.other = .nil) (isNull : t.m_sentinel = none) :
    insertFixup (fuel + 1) (some x) t = .error .nullDeref := by
  obtain ⟨df, cf, p, o⟩ := f
  obtain ⟨dg, cg, g, U⟩ := g
  obtain rfl : cf = .red := isRed
  obtain rfl : U = .nil := noUncle
  have atG : Holds t top (Ctx.plug rest (.mk dg (.mk df (.mk d a .red x b) .red p o) cg g .nil)) :=
    holds
  have atP : Holds t top (Ctx.plug (⟨dg, cg, g, .nil⟩ :: rest) (.mk df (.mk d a .red x b) .red p o)) :=
    holds
  have xParent : (t.mem x).parent = some p := holds.parent
  have pParent : (t.mem p).parent = some g := atP.parent
  have far : (t.mem g).child dg.opp = none := by
    rw [atG.child_far, CTree.ptr_nil, isNull]
  have fault : insertStep dg (some x) t = .error .nullDeref := by
    simp only [insertStep, parent_some, ok_bind, xParent, pParent, child_some, far, color_none,
      error_bind]
  rw [insertFixup_turn fuel atG, fault]
  rfl

/-! ### The search loop -/

/-- The comparisons of the search loop lead to the hole: left below larger keys, right below keys
that are not larger. -/
def Searched (key : Addr → Int) (k : Int) (ctx : Ctx Addr) : Prop :=
  ∀ f ∈ ctx, match f.side with
    | .left => k < key f.label
    | .right => key f.label ≤ k

/-- **The search loop** stops below a node of the tree, at the hole its comparisons lead to. -/
theorem descend_spec (k : Int) {t : NcRbTree} {T : CTree Addr} {par : Ptr} (fuel : Nat)
    (rep : Rep t.links t.m_sentinel par T) (nonempty : T ≠ .nil) (enough : T.labels.length ≤ fuel) :
    ∃ f ctx, t.descend k fuel (T.ptr t.m_sentinel) = .ok (some f.label, f.side) ∧
      T = Ctx.plug (f :: ctx) .nil ∧ Searched (fun x => (t.mem x).key) k (f :: ctx) := by
  induction T generalizing par fuel with
  | nil => exact absurd rfl nonempty
  | node l c x r left right =>
      obtain ⟨real, toLeft, toRight, -, -, inLeft, inRight⟩ := rep
      cases fuel with
      | zero => simp at enough
      | succ fuel =>
          simp only [CTree.labels_node, List.length_append, List.length_cons] at enough
          have stops : ∀ {U : CTree Addr} {q : Ptr}, Rep t.links t.m_sentinel q U → U ≠ .nil →
              U.ptr t.m_sentinel ≠ t.m_sentinel := by
            intro U q below notNil isLeaf
            cases U with
            | nil => exact notNil rfl
            | node l' c' y r' => exact below.1 isLeaf
          by_cases smaller : k < (t.mem x).key
          · have next : (t.mem x).child .left = l.ptr t.m_sentinel := toLeft
            by_cases isNil : l = .nil
            · refine ⟨⟨.left, c, x, r⟩, [], ?_, ?_, ?_⟩
              · rw [isNil, CTree.ptr_nil] at next
                simp only [descend, CTree.ptr_node, key_some, ok_bind, smaller, if_true, child_some,
                  next, pure_ok]
              · rw [isNil]
                rfl
              · intro f member
                rw [List.mem_singleton.mp member]
                exact smaller
            · obtain ⟨f, ctx, runs, same, searched⟩ := left fuel inLeft isNil (by omega)
              refine ⟨f, ctx ++ [⟨.left, c, x, r⟩], ?_, ?_, ?_⟩
              · simp only [descend, CTree.ptr_node, key_some, ok_bind, smaller, if_true, child_some,
                  next, if_neg (stops inLeft isNil), runs]
              · rw [← List.cons_append, Ctx.plug_append, ← same]
                rfl
              · intro g member
                rw [← List.cons_append] at member
                rcases List.mem_append.mp member with inner | outer
                · exact searched g inner
                · rw [List.mem_singleton.mp outer]
                  exact smaller
          · have next : (t.mem x).child .right = r.ptr t.m_sentinel := toRight
            by_cases isNil : r = .nil
            · refine ⟨⟨.right, c, x, l⟩, [], ?_, ?_, ?_⟩
              · rw [isNil, CTree.ptr_nil] at next
                simp only [descend, CTree.ptr_node, key_some, ok_bind, smaller, if_false, child_some,
                  next, if_true, pure_ok]
              · rw [isNil]
                rfl
              · intro f member
                rw [List.mem_singleton.mp member]
                exact not_lt.mp smaller
            · obtain ⟨f, ctx, runs, same, searched⟩ := right fuel inRight isNil (by omega)
              refine ⟨f, ctx ++ [⟨.right, c, x, l⟩], ?_, ?_, ?_⟩
              · simp only [descend, CTree.ptr_node, key_some, ok_bind, smaller, if_false, child_some,
                  next, if_neg (stops inRight isNil), runs]
              · rw [← List.cons_append, Ctx.plug_append, ← same]
                rfl
              · intro g member
                rw [← List.cons_append] at member
                rcases List.mem_append.mp member with inner | outer
                · exact searched g inner
                · rw [List.mem_singleton.mp outer]
                  exact not_lt.mp smaller

/-! ### Insertion -/

/-- The writes that hang a red leaf `x` into a hole. -/
def attach (f : Frame Addr) (x : Addr) (t : NcRbTree) : NcRbTree :=
  ((((t.put f.label (RbNode.withChild f.side (some x))).put x
    (RbNode.withParent (some f.label))).put x (RbNode.withChild .left t.m_sentinel)).put x
      (RbNode.withChild .right t.m_sentinel)).put x (RbNode.withColor .red)

theorem attach_spec {t : NcRbTree} {top : Ptr} {f : Frame Addr} {ctx : Ctx Addr} {x : Addr}
    (holds : Holds t top (Ctx.plug (f :: ctx) .nil))
    (fresh : x ∉ (Ctx.plug (f :: ctx) .nil).labels) (real : some x ≠ t.m_sentinel) :
    Holds (t.attach f x) top (Ctx.plug (f :: ctx) (.mk .left .nil .red x .nil)) ∧
      Touches (x :: (Ctx.plug (f :: ctx) .nil).labels) t (t.attach f x) := by
  obtain ⟨root, above, -, nodup, -, -⟩ := holds_plug.mp holds
  have notCtx : x ∉ Ctx.labels (f :: ctx) := fun member =>
    fresh (Ctx.mem_labels_plug.mpr (Or.inl member))
  have fIn : f.label ∈ Ctx.labels (f :: ctx) := Ctx.mem_labels_cons.mpr (Or.inl rfl)
  have fNeX : f.label ≠ x := fun same => notCtx (same ▸ fIn)
  have elsewhere : ∀ z, z ≠ x → z ≠ f.label → (t.attach f x).mem z = t.mem z := by
    intro z notX notF
    simp only [attach, put_of_ne _ _ _ notX, put_of_ne _ _ _ notF]
  have atF : (t.attach f x).mem f.label = (t.mem f.label).withChild f.side (some x) := by
    simp only [attach, put_of_ne _ _ _ fNeX, put_self]
  have atX : (t.attach f x).links x = ⟨t.m_sentinel, t.m_sentinel, some f.label, .red⟩ := by
    simp only [links, attach, put_self, RbNode.toLinks_withColor, RbNode.toLinks_withChild,
      RbNode.toLinks_withParent, Links.setChild]
  refine ⟨holds_plug.mpr ⟨?_, ?_, ?_, nodup, ?_, ?_⟩, ?_⟩
  · rw [CTree.ptr_mk]
    exact root
  · rw [CTree.ptr_mk]
    refine above.relink nodup ?_ fun z member notF => ?_
    · simp only [links, atF, RbNode.toLinks_withChild]
    · have notX : z ≠ x := fun same => notCtx (same ▸ member)
      simp only [links, elsewhere z notX notF]
  · refine ⟨real, ?_, ?_, ?_, ?_, trivial, trivial⟩
    · rw [atX]
      rfl
    · rw [atX]
      rfl
    · rw [atX]
      rfl
    · rw [atX]
  · simp [CTree.mk]
  · intro z member inCtx
    simp only [CTree.mk, CTree.labels_node, CTree.labels_nil, List.nil_append,
      List.mem_singleton] at member
    exact notCtx (member ▸ inCtx)
  · have fAll : f.label ∈ x :: (Ctx.plug (f :: ctx) .nil).labels :=
      List.mem_cons_of_mem _ (Ctx.mem_labels_plug.mpr (Or.inl fIn))
    have xAll : x ∈ x :: (Ctx.plug (f :: ctx) .nil).labels := List.mem_cons_self
    calc Touches _ t _ := .put (f := RbNode.withChild f.side (some x)) (fun _ => rfl) fAll
      Touches _ _ _ := .put (f := RbNode.withParent (some f.label)) (fun _ => rfl) xAll
      Touches _ _ _ := .put (f := RbNode.withChild .left t.m_sentinel) (fun _ => rfl) xAll
      Touches _ _ _ := .put (f := RbNode.withChild .right t.m_sentinel) (fun _ => rfl) xAll
      Touches _ _ _ := .put (f := RbNode.withColor .red) (fun _ => rfl) xAll

/-- **Insertion into an empty tree.** -/
theorem insert_empty {t : NcRbTree} {top : Ptr} {x : Addr} (fuel : Nat) (holds : Holds t top .nil)
    (real : some x ≠ t.m_sentinel) :
    ∃ t', t.insert fuel (some x) = .ok t' ∧ Holds t' none (.mk .left .nil .black x .nil) ∧
      Touches [x] t t' := by
  have empty : t.m_root = t.m_sentinel := holds.root
  let t₁ := (((t.put x (RbNode.withParent none)).put x (RbNode.withChild .left t.m_sentinel)).put x
    (RbNode.withChild .right t.m_sentinel)).put x (RbNode.withColor .black)
  refine ⟨{ t₁ with m_root := some x }, ?_, ⟨rfl, ⟨real, ?_, ?_, ?_, ?_, trivial, trivial⟩, ?_⟩, ?_⟩
  · simp only [insert, if_pos empty, setParent_some, ok_bind, setChild_some, setColor_some, pure_ok,
      put_sentinel]
    rfl
  · simp only [links, t₁, put_self, RbNode.toLinks_withColor, RbNode.toLinks_withChild,
      RbNode.toLinks_withParent, Links.setChild]
    rfl
  · simp only [links, t₁, put_self, RbNode.toLinks_withColor, RbNode.toLinks_withChild,
      RbNode.toLinks_withParent, Links.setChild]
    rfl
  · simp only [links, t₁, put_self, RbNode.toLinks_withColor, RbNode.toLinks_withChild,
      RbNode.toLinks_withParent, Links.setChild]
  · simp only [links, t₁, put_self, RbNode.toLinks_withColor]
  · simp [CTree.mk]
  · have xIn : x ∈ [x] := List.mem_singleton.mpr rfl
    have written : Touches [x] t t₁ := by
      calc Touches [x] t _ := .put (f := RbNode.withParent none) (fun _ => rfl) xIn
        Touches _ _ _ := .put (f := RbNode.withChild .left t.m_sentinel) (fun _ => rfl) xIn
        Touches _ _ _ := .put (f := RbNode.withChild .right t.m_sentinel) (fun _ => rfl) xIn
        Touches _ _ _ := .put (f := RbNode.withColor .black) (fun _ => rfl) xIn
    exact ⟨written.sentinel, written.outside, written.key⟩

/-- The writes of `insert` up to the rebalancing loop. -/
theorem insert_eq {t : NcRbTree} {top : Ptr} {T : CTree Addr} {x : Addr} (fuel : Nat)
    (holds : Holds t top T) (nonempty : T ≠ .nil) (enough : T.labels.length ≤ fuel) :
    ∃ f ctx, T = Ctx.plug (f :: ctx) .nil ∧
      Searched (fun y => (t.mem y).key) (t.mem x).key (f :: ctx) ∧
      t.insert fuel (some x) = insertFixup fuel (some x) (t.attach f x) >>= fun t' =>
        t'.setColor t'.m_root .black := by
  obtain ⟨f, ctx, found, same, searched⟩ :=
    descend_spec (t.mem x).key fuel holds.rep nonempty enough
  refine ⟨f, ctx, same, searched, ?_⟩
  rw [← holds.root] at found
  simp only [insert, if_neg (holds_ptr_ne holds nonempty), key_some, ok_bind, found, setChild_some,
    setParent_some, setColor_some, put_sentinel]
  rfl

/-- **Insertion into a red-black tree** ends, and the new node stands in the hole that the search
leads to. Without a sentinel it faults where the loop needs a missing uncle. -/
theorem insert_spec {t : NcRbTree} {top : Ptr} {T : CTree Addr} {m : Nat} {x : Addr} (fuel : Nat)
    (holds : Holds t top T) (shape : RB .black m T) (black : t.SentinelBlack)
    (fresh : x ∉ T.labels) (real : some x ≠ t.m_sentinel) (nonempty : T ≠ .nil)
    (enough : 2 * T.labels.length + 2 ≤ fuel) :
    ∃ f ctx, T = Ctx.plug (f :: ctx) .nil ∧
      Searched (fun y => (t.mem y).key) (t.mem x).key (f :: ctx) ∧
      ((t.m_sentinel = none → UncleAtHole (f :: ctx)) →
        ∃ t' T', t.insert fuel (some x) = .ok t' ∧ Holds t' top T' ∧
          T'.labels = Ctx.before (f :: ctx) ++ x :: Ctx.after (f :: ctx) ∧
          (∃ m, RB .black m T') ∧ Touches (x :: T.labels) t t') ∧
      (t.m_sentinel = none → ¬ UncleAtHole (f :: ctx) →
        t.insert fuel (some x) = .error .nullDeref) := by
  obtain ⟨f, ctx, same, searched, steps⟩ := insert_eq (x := x) fuel holds nonempty (by omega)
  subst same
  obtain ⟨holds₁, frame₁⟩ := attach_spec holds fresh real
  have sentinel₁ : (t.attach f x).m_sentinel = t.m_sentinel := frame₁.sentinel
  refine ⟨f, ctx, rfl, searched, fun uncle => ?_, fun isNull noUncle => ?_⟩
  · have realAll : ∀ z ∈ x :: (Ctx.plug (f :: ctx) .nil).labels, some z ≠ t.m_sentinel := by
      intro z member
      rcases List.mem_cons.mp member with same | inTree
      · rw [same]
        exact real
      · exact holds.rep.real z inTree
    have black₁ : (t.attach f x).SentinelBlack := black.touches frame₁ realAll
    obtain ⟨n, c, around, leaf, -⟩ := shape.unplug rfl
    obtain rfl := leaf.nil_height
    have short := Ctx.length_le_labels_plug (f :: ctx) .nil
    obtain ⟨t₂, T₂, runs, holds₂, labels₂, ⟨m', shape₂⟩, frame₂⟩ :=
      insertFixup_spec fuel (by omega) holds₁ black₁ around .nil .nil
        (fun isNull => uncle (sentinel₁ ▸ isNull))
    have labels : T₂.labels = Ctx.before (f :: ctx) ++ x :: Ctx.after (f :: ctx) := by
      rw [labels₂, Ctx.labels_plug]
      simp [CTree.mk]
    have nonempty₂ : T₂ ≠ .nil := by
      rintro rfl
      simp at labels
    have atRoot : Holds t₂ top (Ctx.plug [] T₂) := holds₂
    obtain ⟨t₃, paint, holds₃, frame₃⟩ := blacken_spec atRoot nonempty₂
    rw [← holds₂.root] at paint
    have sameLabels : ∀ z, z ∈ T₂.labels → z ∈ x :: (Ctx.plug (f :: ctx) .nil).labels := by
      intro z member
      rw [labels] at member
      simp only [Ctx.labels_plug, CTree.labels_nil, List.nil_append, List.mem_append,
        List.mem_cons] at member ⊢
      tauto
    refine ⟨t₃, T₂.blacken, ?_, holds₃, by rw [CTree.labels_blacken, labels], ⟨m', shape₂⟩, ?_⟩
    · rw [steps, runs, ok_bind, paint]
    · refine frame₁.trans ((frame₂.mono fun z member => ?_).trans (frame₃.mono sameLabels))
      exact sameLabels z (labels₂ ▸ member)
  · simp only [UncleAtHole, not_forall, not_not] at noUncle
    obtain ⟨f', g, rest, split, isRed, isNil⟩ := noUncle
    obtain ⟨rfl, rfl⟩ := List.cons.inj split
    obtain ⟨more, rfl⟩ : ∃ more, fuel = more + 1 := Nat.exists_eq_succ_of_ne_zero (by omega)
    rw [steps, insertFixup_fault more holds₁ isRed isNil (sentinel₁.trans isNull), error_bind]

end NcRbTree

end Nutcracker
