import Mathlib.Algebra.BigOperators.Group.Finset.Piecewise
import Mathlib.Algebra.BigOperators.Group.List.Basic
import Mathlib.Algebra.Order.BigOperators.Group.Finset
import Mathlib.Algebra.Order.Ring.Nat
import Mathlib.Data.Finset.Basic

/-!
# Collecting debts from purses

Debts are collected one after the other, each from its debtor's purse as far as the purse goes. What
a debtor has paid in the end depends on what it owes in all, and not on the order of the debts. The
debtors pay no more than the debts come to, and as much where every purse holds what its owner owes.
-/

namespace AgentDeck.Debts

variable {κ : Type*} [DecidableEq κ]

/-- What the debts of one debtor come to. -/
def owed (debts : List (κ × ℕ)) (debtor : κ) : ℕ :=
  (debts.map fun debt => if debt.1 = debtor then debt.2 else 0).sum

structure Purses (κ : Type*) where
  left : κ → ℕ
  paid : κ → ℕ

namespace Purses

def collect (purses : Purses κ) (debt : κ × ℕ) : Purses κ :=
  let taken := min debt.2 (purses.left debt.1)
  { left := fun key => if key = debt.1 then purses.left key - taken else purses.left key
    paid := fun key => if key = debt.1 then purses.paid key + taken else purses.paid key }

theorem left_collect (purses : Purses κ) (debt : κ × ℕ) (key : κ) :
    (purses.collect debt).left key = purses.left key - if debt.1 = key then debt.2 else 0 := by
  simp only [collect]
  by_cases same : key = debt.1
  · subst same
    rw [if_pos rfl, if_pos rfl]
    omega
  · rw [if_neg same, if_neg (Ne.symm same), Nat.sub_zero]

theorem paid_collect (purses : Purses κ) (debt : κ × ℕ) (key : κ) :
    (purses.collect debt).paid key =
      purses.paid key + min (purses.left key) (if debt.1 = key then debt.2 else 0) := by
  simp only [collect]
  by_cases same : key = debt.1
  · subst same
    rw [if_pos rfl, if_pos rfl, min_comm]
  · rw [if_neg same, if_neg (Ne.symm same), Nat.min_zero, Nat.add_zero]

theorem paid_collected (debts : List (κ × ℕ)) (purses : Purses κ) (key : κ) :
    (debts.foldl collect purses).paid key =
      purses.paid key + min (purses.left key) (owed debts key) := by
  induction debts generalizing purses with
  | nil => simp [owed]
  | cons debt debts ih =>
    rw [List.foldl_cons, ih, paid_collect, left_collect]
    simp only [owed, List.map_cons, List.sum_cons]
    omega

end Purses

variable {debts : List (κ × ℕ)}

theorem owed_perm {other : List (κ × ℕ)} (perm : debts.Perm other) (debtor : κ) :
    owed debts debtor = owed other debtor :=
  (perm.map _).sum_eq

theorem owed_eq_zero {debtor : κ} (absent : ∀ debt ∈ debts, debt.1 ≠ debtor) :
    owed debts debtor = 0 := by
  apply List.sum_eq_zero
  intro amount mem
  rcases List.mem_map.mp mem with ⟨debt, debtMem, rfl⟩
  exact if_neg (absent debt debtMem)

/-- A sum over what `f` gives is a sum over what it is given. -/
theorem sum_map_filterMap {α β : Type*} (f : α → Option β) (weight : β → ℕ) (items : List α) :
    ((items.filterMap f).map weight).sum =
      (items.map fun item => ((f item).map weight).getD 0).sum := by
  induction items with
  | nil => rfl
  | cons item items ih =>
    rw [List.filterMap_cons, List.map_cons, List.sum_cons, ← ih]
    cases f item with
    | none => exact (Nat.zero_add _).symm
    | some given => rfl

/-- What the debtors among `keys` owe is no more than the debts come to. -/
theorem sum_owed_le (debts : List (κ × ℕ)) (keys : Finset κ) :
    (∑ key ∈ keys, owed debts key) ≤ (debts.map Prod.snd).sum := by
  induction debts with
  | nil => simp [owed]
  | cons debt debts ih =>
    simp only [owed, List.map_cons, List.sum_cons, Finset.sum_add_distrib,
      Finset.sum_ite_eq] at ih ⊢
    split <;> omega

theorem sum_owed_eq {keys : Finset κ} (known : ∀ debt ∈ debts, debt.1 ∈ keys) :
    (∑ key ∈ keys, owed debts key) = (debts.map Prod.snd).sum := by
  induction debts with
  | nil => simp [owed]
  | cons debt debts ih =>
    rw [List.forall_mem_cons] at known
    have rest := ih known.2
    simp only [owed, List.map_cons, List.sum_cons, Finset.sum_add_distrib, Finset.sum_ite_eq,
      if_pos known.1] at rest ⊢
    omega

/-- No more is paid than the debts come to. -/
theorem sum_paid_le (debts : List (κ × ℕ)) (budget : κ → ℕ) (keys : Finset κ) :
    (∑ key ∈ keys, min (budget key) (owed debts key)) ≤ (debts.map Prod.snd).sum :=
  (Finset.sum_le_sum fun _ _ => min_le_right _ _).trans (sum_owed_le debts keys)

/-- Every debt is paid where every purse holds what its owner owes. -/
theorem sum_paid_eq {budget : κ → ℕ} {keys : Finset κ} (known : ∀ debt ∈ debts, debt.1 ∈ keys)
    (enough : ∀ debt ∈ debts, owed debts debt.1 ≤ budget debt.1) :
    (∑ key ∈ keys, min (budget key) (owed debts key)) = (debts.map Prod.snd).sum := by
  rw [← sum_owed_eq known]
  refine Finset.sum_congr rfl fun key _ => min_eq_right ?_
  by_cases owes : ∃ debt ∈ debts, debt.1 = key
  · rcases owes with ⟨debt, mem, rfl⟩
    exact enough debt mem
  · rw [owed_eq_zero fun debt mem same => owes ⟨debt, mem, same⟩]
    exact Nat.zero_le _

end AgentDeck.Debts
