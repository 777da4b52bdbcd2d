/-
**Fuel only bounds the loops.**

`Below a b` — the computation `a` ran out of fuel, or `a` and `b` are the same. Every loop and every
operation is monotone in its fuel for this order (`insert_mono`, `remove_mono`, `min_mono`,
`max_mono`), hence *what one fuel returns every larger fuel returns*.
-/

import Nutcracker.RbTree.Model

namespace Nutcracker

open Lib

/-- The first computation ran out of fuel, or both are the same. -/
def Below {α : Type} (a b : Except Fault α) : Prop := a = .error .outOfFuel ∨ a = b

namespace Below

variable {α β : Type} {a b c : Except Fault α}

theorem refl : Below a a := Or.inr rfl

theorem trans (first : Below a b) (second : Below b c) : Below a c := by
  rcases first with stops | rfl
  · exact Or.inl stops
  · exact second

theorem of_ok {x : α} (below : Below a b) (ends : a = .ok x) : b = .ok x := by
  rcases below with stops | same
  · rw [ends] at stops
    cases stops
  · rw [← same, ends]

theorem of_nullDeref (below : Below a b) (faults : a = .error .nullDeref) :
    b = .error .nullDeref := by
  rcases below with stops | same
  · rw [faults] at stops
    cases stops
  · rw [← same, faults]

theorem bind {f g : α → Except Fault β} (head : Below a b) (tail : ∀ x, Below (f x) (g x)) :
    Below (a >>= f) (b >>= g) := by
  rcases head with rfl | rfl
  · exact Or.inl rfl
  · cases a with
    | error e => exact .refl
    | ok x => exact tail x

theorem ite {p : Prop} [Decidable p] {d : Except Fault α} (yes : Below a b) (no : Below c d) :
    Below (if p then a else c) (if p then b else d) := by
  by_cases holds : p
  · rw [if_pos holds, if_pos holds]
    exact yes
  · rw [if_neg holds, if_neg holds]
    exact no

/-- Monotone in one step of fuel is monotone. -/
theorem of_step {f : Nat → Except Fault α} (step : ∀ n, Below (f n) (f (n + 1))) {n m : Nat}
    (le : n ≤ m) : Below (f n) (f m) := by
  induction le with
  | refl => exact .refl
  | step _ ih => exact ih.trans (step _)

end Below

/-- **The code returns** for some fuel, and for no fuel follows a null pointer. -/
def Completes {α : Type} (f : Nat → Except Fault α) : Prop :=
  (∃ fuel x, f fuel = .ok x) ∧ ∀ fuel, f fuel ≠ .error .nullDeref

theorem Completes.of_ok {α : Type} {f : Nat → Except Fault α}
    (mono : ∀ {n m : Nat}, n ≤ m → Below (f n) (f m)) {fuel : Nat} {x : α}
    (ends : f fuel = .ok x) : Completes f := by
  refine ⟨⟨fuel, x, ends⟩, fun other faults => ?_⟩
  have one := (mono (Nat.le_max_left fuel other)).of_ok ends
  have two := (mono (Nat.le_max_right fuel other)).of_nullDeref faults
  rw [one] at two
  cases two

/-- The computation returns, and its result satisfies `P`. -/
def Ends {α : Type} (e : Except Fault α) (P : α → Prop) : Prop := ∃ x, e = .ok x ∧ P x

instance {α : Type} (e : Except Fault α) (P : α → Prop) [DecidablePred P] : Decidable (Ends e P) :=
  match e with
  | .ok x => decidable_of_iff (P x) ⟨fun holds => ⟨x, rfl, holds⟩, fun ends => by
      obtain ⟨y, same, holds⟩ := ends
      obtain rfl := Except.ok.inj same
      exact holds⟩
  | .error _ => .isFalse fun ends => by
      obtain ⟨y, same, -⟩ := ends
      cases same

namespace NcRbTree

variable {t : NcRbTree} {fuel more : Nat}

/-! ### One more unit of fuel -/

theorem descendTo_step (d : Dir) (t : NcRbTree) (fuel : Nat) (node : Ptr) :
    Below (descendTo d t fuel node) (descendTo d t (fuel + 1) node) := by
  induction fuel generalizing node with
  | zero => exact Or.inl rfl
  | succ fuel ih =>
      unfold descendTo
      exact .bind .refl fun next => .ite (ih next) .refl

theorem min_step (t : NcRbTree) (fuel : Nat) : Below (t.min fuel) (t.min (fuel + 1)) := by
  unfold min
  exact .ite .refl (descendTo_step _ _ _ _)

theorem max_step (t : NcRbTree) (fuel : Nat) : Below (t.max fuel) (t.max (fuel + 1)) := by
  unfold max
  exact .ite .refl (.bind .refl fun right => .ite (descendTo_step _ _ _ _) .refl)

theorem descend_step (k : Int) (t : NcRbTree) (fuel : Nat) (temp : Ptr) :
    Below (descend k t fuel temp) (descend k t (fuel + 1) temp) := by
  induction fuel generalizing temp with
  | zero => exact Or.inl rfl
  | succ fuel ih =>
      unfold descend
      exact .bind .refl fun key => .bind .refl fun next => .ite .refl (ih next)

theorem insertFixup_step (fuel : Nat) (node : Ptr) (t : NcRbTree) :
    Below (insertFixup fuel node t) (insertFixup (fuel + 1) node t) := by
  induction fuel generalizing node t with
  | zero => exact Or.inl rfl
  | succ fuel ih =>
      unfold insertFixup
      refine .ite .refl (.bind .refl fun above => .bind .refl fun color => .ite ?_ .refl)
      refine .bind .refl fun above => .bind .refl fun next => .bind .refl fun left => .ite ?_ ?_
      · exact .bind .refl fun result => ih result.1 result.2
      · exact .bind .refl fun result => ih result.1 result.2

theorem insert_step (node : Ptr) (t : NcRbTree) (fuel : Nat) :
    Below (t.insert fuel node) (t.insert (fuel + 1) node) := by
  unfold insert
  refine .ite .refl (.bind .refl fun key => .bind (descend_step _ _ _ _) fun found => ?_)
  exact .bind .refl fun t₁ => .bind .refl fun t₂ => .bind .refl fun t₃ => .bind .refl fun t₄ =>
    .bind .refl fun t₅ => .bind (insertFixup_step _ _ _) fun t₆ => .refl

theorem removeFixup_step (fuel : Nat) (temp : Ptr) (t : NcRbTree) :
    Below (removeFixup fuel temp t) (removeFixup (fuel + 1) temp t) := by
  induction fuel generalizing temp t with
  | zero => exact Or.inl rfl
  | succ fuel ih =>
      unfold removeFixup
      refine .ite .refl (.bind .refl fun color => .ite ?_ .refl)
      refine .bind .refl fun above => .bind .refl fun left => .ite ?_ ?_
      · exact .bind .refl fun result => ih result.1 result.2
      · exact .bind .refl fun result => ih result.1 result.2

theorem substitute_step (node : Ptr) (t : NcRbTree) (fuel : Nat) :
    Below (t.substitute fuel node) (t.substitute (fuel + 1) node) := by
  unfold substitute
  refine .bind .refl fun left => .ite .refl (.bind .refl fun right => .ite .refl ?_)
  exact .bind (min_step t fuel) fun subst => .refl

theorem remove_step (node : Ptr) (t : NcRbTree) (fuel : Nat) :
    Below (t.remove fuel node) (t.remove (fuel + 1) node) := by
  unfold remove
  refine .ite .refl (.bind (substitute_step _ _ _) fun chosen => .ite .refl (.ite .refl ?_))
  have finish : ∀ (color : Color) (temp : Ptr) (t : NcRbTree),
      Below (do
          let t ← t.store node fun _ => RbNode.reset
          if color = .red then pure t else t.rebalance fuel temp)
        (do
          let t ← t.store node fun _ => RbNode.reset
          if color = .red then pure t else t.rebalance (fuel + 1) temp) := fun color temp t =>
    .bind .refl fun t => .ite .refl (.bind (removeFixup_step _ _ _) fun result => .refl)
  refine .bind .refl fun parent => .ite .refl (.bind .refl fun color => .bind .refl fun t₁ => ?_)
  refine .ite ?_ (.bind .refl fun above => .ite ?_ ?_)
  · exact .bind .refl fun above => .bind .refl fun t₂ => finish color _ t₂
  · exact .bind .refl fun t₂ => .bind .refl fun t₃ => finish color _ t₃
  · exact .bind .refl fun above => .bind .refl fun t₂ => .bind .refl fun t₃ => finish color _ t₃

/-! ### Any more fuel -/

theorem min_mono (le : fuel ≤ more) : Below (t.min fuel) (t.min more) :=
  .of_step (min_step t) le

theorem max_mono (le : fuel ≤ more) : Below (t.max fuel) (t.max more) :=
  .of_step (max_step t) le

theorem insert_mono {node : Ptr} (le : fuel ≤ more) :
    Below (t.insert fuel node) (t.insert more node) :=
  .of_step (insert_step node t) le

theorem remove_mono {node : Ptr} (le : fuel ≤ more) :
    Below (t.remove fuel node) (t.remove more node) :=
  .of_step (remove_step node t) le

end NcRbTree

end Nutcracker
