import Mathlib.Logic.Relation
import Mathlib.Order.Basic

/-!
# Waiting in order

A relation along which a measure grows has no cycle, and where the measure is bounded every chain of
it comes to an end.
-/

namespace AgentDeck.WaitFor

variable {α : Type*} {waits : α → α → Prop} {measure : α → ℕ}

/-- The measure grows from one that waits to the next that waits. -/
def Grows (waits : α → α → Prop) (measure : α → ℕ) : Prop :=
  ∀ first second third, waits first second → waits second third → measure first < measure second

variable (grows : Grows waits measure)

include grows

theorem lt_of_transGen {first last : α} (chain : Relation.TransGen waits first last) {next : α}
    (waitsOn : waits last next) : measure first < measure last := by
  induction chain generalizing next with
  | single step => exact grows _ _ _ step waitsOn
  | tail _ step ih => exact Nat.lt_trans (ih step) (grows _ _ _ step waitsOn)

theorem acyclic (start : α) : ¬ Relation.TransGen waits start start := by
  intro cycle
  rcases Relation.TransGen.head'_iff.mp cycle with ⟨next, step, _⟩
  exact Nat.lt_irrefl _ (lt_of_transGen grows cycle step)

/-- From one that waits, a chain leads to one that does not. -/
theorem comes_to_an_end {bound : ℕ}
    (bounded : ∀ first second, waits first second → measure first ≤ bound) {first second : α}
    (step : waits first second) : ∃ last idle, waits last idle ∧ ∀ next, ¬ waits idle next := by
  induction left : bound - measure first using Nat.strongRecOn generalizing first second with
  | _ left' ih =>
    by_cases goesOn : ∃ next, waits second next
    · rcases goesOn with ⟨next, nextStep⟩
      have less := grows first second next step nextStep
      have most := bounded second next nextStep
      exact ih (bound - measure second) (by omega) nextStep rfl
    · exact ⟨first, second, step, not_exists.mp goesOn⟩

end AgentDeck.WaitFor
