import Mathlib.Data.List.Count
import Mathlib.Order.Lattice

/-!
# Repaying the oldest debt

Two sorted lists of debts, the second holding at least the debts of the first from some floor on.
Taking from each the first debt at or above the floor keeps it so, though the two may take different
ones.
-/

namespace AgentDeck.Repay

variable {α : Type*} [LinearOrder α] {debts fewer : List α} {floor : α}

/-- What a repayment removes is the least debt at or above the floor. -/
theorem count_eraseP (sorted : debts.Pairwise (· ≤ ·)) {some : α} (mem : some ∈ debts)
    (above : floor ≤ some) :
    ∃ least ∈ debts, floor ≤ least ∧ (∀ debt ∈ debts, floor ≤ debt → least ≤ debt) ∧
      ∀ debt, debts.count debt =
        (debts.eraseP fun debt => decide (floor ≤ debt)).count debt +
          if debt = least then 1 else 0 := by
  rcases List.exists_of_eraseP (p := fun debt => decide (floor ≤ debt)) mem
    (decide_eq_true above) with
    ⟨least, before, after, below, reached, split, erased⟩
  rw [erased, split]
  rw [split, List.pairwise_append, List.pairwise_cons] at sorted
  refine ⟨least, List.mem_append_right _ List.mem_cons_self, of_decide_eq_true reached, ?_, ?_⟩
  · intro debt debtMem floorLe
    rcases List.mem_append.mp debtMem with early | late
    · exact absurd (decide_eq_true floorLe) (below debt early)
    · rcases List.mem_cons.mp late with rfl | late
      · exact le_rfl
      · exact sorted.2.1.1 debt late
  · intro debt
    simp only [List.count_append, List.count_cons, beq_iff_eq, @eq_comm α debt least]
    omega

theorem eraseP_of_none (absent : ∀ debt ∈ debts, ¬ floor ≤ debt) :
    (debts.eraseP fun debt => decide (floor ≤ debt)) = debts :=
  List.eraseP_of_forall_not fun debt mem reached => absent debt mem (of_decide_eq_true reached)

theorem count_eraseP_le (sorted : debts.Pairwise (· ≤ ·)) (fewerSorted : fewer.Pairwise (· ≤ ·))
    (covered : ∀ debt, floor ≤ debt → fewer.count debt ≤ debts.count debt) {debt : α}
    (here : fewer.count debt ≤ debts.count debt) :
    (fewer.eraseP fun debt => decide (floor ≤ debt)).count debt ≤
      (debts.eraseP fun debt => decide (floor ≤ debt)).count debt := by
  by_cases due : ∃ owed ∈ debts, floor ≤ owed
  · rcases due with ⟨owed, mem, above⟩
    rcases count_eraseP sorted mem above with ⟨least, leastMem, floorLe, leastLe, count⟩
    by_cases fewerDue : ∃ owed ∈ fewer, floor ≤ owed
    · rcases fewerDue with ⟨owed', mem', above'⟩
      rcases count_eraseP fewerSorted mem' above' with
        ⟨least', leastMem', floorLe', leastLe', count'⟩
      have known : least' ∈ debts := by
        apply List.count_pos_iff.mp
        exact lt_of_lt_of_le (List.count_pos_iff.mpr leastMem') (covered least' floorLe')
      have atLeast := count debt
      have atLeast' := count' debt
      by_cases taken : debt = least
      · subst taken
        by_cases same : debt = least'
        · rw [if_pos rfl] at atLeast
          rw [if_pos same] at atLeast'
          omega
        · -- The one taken here is older, so the shorter list does not hold it.
          have gone : fewer.count debt = 0 := by
            apply List.count_eq_zero.mpr
            intro held
            exact same (le_antisymm (leastLe least' known floorLe') (leastLe' debt held floorLe))
          omega
      · rw [if_neg taken] at atLeast
        omega
    · have absent : ∀ owed ∈ fewer, ¬ floor ≤ owed := fun owed mem above =>
        fewerDue ⟨owed, mem, above⟩
      rw [eraseP_of_none absent]
      have atLeast := count debt
      by_cases taken : debt = least
      · subst taken
        have gone : fewer.count debt = 0 := by
          apply List.count_eq_zero.mpr
          intro held
          exact absent debt held floorLe
        omega
      · rw [if_neg taken] at atLeast
        omega
  · have absent : ∀ owed ∈ debts, ¬ floor ≤ owed := fun owed mem above => due ⟨owed, mem, above⟩
    have fewerNone : ∀ owed ∈ fewer, ¬ floor ≤ owed := by
      intro owed mem above
      have known := lt_of_lt_of_le (List.count_pos_iff.mpr mem) (covered owed above)
      exact absent owed (List.count_pos_iff.mp known) above
    rw [eraseP_of_none absent, eraseP_of_none fewerNone]
    exact here

end AgentDeck.Repay
