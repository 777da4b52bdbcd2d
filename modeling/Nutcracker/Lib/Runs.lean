/-
**Transition systems and their reachable states.**

A `System` has initial states and labelled steps. `System.Reach` is the set of states on its runs
(the reflexive transitive closure of the steps), and `System.guarded` is the system whose steps all
meet a condition on the state before the step.

* `Reach.invariant` — what holds at the start and survives every step holds on all runs.
* `Reach.of_guarded` — a run whose steps all meet the condition is a run.
* `System.product` — two systems that take the same steps.
-/

import Mathlib.Logic.Relation

namespace Nutcracker.Lib

/-- A labelled transition system. -/
structure System (σ α : Type) where
  init : σ → Prop
  step : σ → α → σ → Prop

namespace System

variable {σ α : Type} {M : System σ α}

/-- Some step leads from one state to the other. -/
def Next (M : System σ α) (s s' : σ) : Prop := ∃ a, M.step s a s'

/-- **The reachable states.** -/
def Reach (M : System σ α) (s : σ) : Prop := ∃ s₀, M.init s₀ ∧ Relation.ReflTransGen M.Next s₀ s

/-- The system whose steps all meet the condition `ok`. -/
def guarded (M : System σ α) (ok : σ → α → Prop) : System σ α where
  init := M.init
  step s a s' := ok s a ∧ M.step s a s'

/-- Two systems side by side, which take the same steps. -/
def product {τ : Type} (M : System σ α) (N : System τ α) : System (σ × τ) α where
  init s := M.init s.1 ∧ N.init s.2
  step s a s' := M.step s.1 a s'.1 ∧ N.step s.2 a s'.2

theorem Reach.start {s : σ} (initial : M.init s) : M.Reach s := ⟨s, initial, .refl⟩

theorem Reach.next {s s' : σ} {a : α} (reached : M.Reach s) (step : M.step s a s') : M.Reach s' := by
  obtain ⟨s₀, initial, run⟩ := reached
  exact ⟨s₀, initial, run.tail ⟨a, step⟩⟩

/-- **The invariant rule.** -/
theorem Reach.invariant {I : σ → Prop} (base : ∀ s, M.init s → I s)
    (keep : ∀ s a s', M.Reach s → I s → M.step s a s' → I s') {s : σ} (reached : M.Reach s) :
    I s := by
  obtain ⟨s₀, initial, run⟩ := reached
  induction run with
  | refl => exact base s₀ initial
  | @tail s s' before last holds =>
      obtain ⟨a, step⟩ := last
      exact keep s a s' ⟨s₀, initial, before⟩ holds step

/-- A run whose steps all meet the condition is a run. -/
theorem Reach.of_guarded {ok : σ → α → Prop} {s : σ} (reached : (M.guarded ok).Reach s) :
    M.Reach s :=
  reached.invariant (fun _ initial => .start initial) fun _ _ _ _ inner step => inner.next step.2

end System

end Nutcracker.Lib
