import AgentDeck.Lib.SortedMap

/-!
# Partial equivalences

An equality test that is symmetric and transitive, and need not hold of a value and itself: `==` on
values that may hold a float. Maps are compared key by key.
-/

universe u v

namespace AgentDeck

structure PartialEq (α : Type u) where
  same : α → α → Bool
  symm : ∀ {x y}, same x y → same y x
  trans : ∀ {x y z}, same x y → same y z → same x z

namespace PartialEq

def ofEq (α : Type u) [DecidableEq α] : PartialEq α where
  same x y := decide (x = y)
  symm eq := decide_eq_true (of_decide_eq_true eq).symm
  trans eq eq' := decide_eq_true ((of_decide_eq_true eq).trans (of_decide_eq_true eq'))

variable {κ : Type u} {ν : Type v} [LinearOrder κ]

def sameEntries (values : PartialEq ν) : List (κ × ν) → List (κ × ν) → Bool
  | [], [] => true
  | left :: lefts, right :: rights =>
    decide (left.1 = right.1) && values.same left.2 right.2 && values.sameEntries lefts rights
  | _, _ => false

theorem sameEntries_symm (values : PartialEq ν) {lefts rights : List (κ × ν)}
    (same : values.sameEntries lefts rights) : values.sameEntries rights lefts := by
  induction lefts generalizing rights with
  | nil =>
    cases rights with
    | nil => rfl
    | cons right rights => cases same
  | cons left lefts ih =>
    cases rights with
    | nil => cases same
    | cons right rights =>
      simp only [sameEntries, Bool.and_eq_true, decide_eq_true_eq] at same ⊢
      exact ⟨⟨same.1.1.symm, values.symm same.1.2⟩, ih same.2⟩

theorem sameEntries_trans (values : PartialEq ν) {lefts middles rights : List (κ × ν)}
    (same : values.sameEntries lefts middles) (also : values.sameEntries middles rights) :
    values.sameEntries lefts rights := by
  induction lefts generalizing middles rights with
  | nil =>
    cases middles with
    | nil => exact also
    | cons middle middles => cases same
  | cons left lefts ih =>
    cases middles with
    | nil => cases same
    | cons middle middles =>
      cases rights with
      | nil => cases also
      | cons right rights =>
        simp only [sameEntries, Bool.and_eq_true, decide_eq_true_eq] at same also ⊢
        exact ⟨⟨same.1.1.trans also.1.1, values.trans same.1.2 also.1.2⟩,
          ih same.2 also.2⟩

/-- Maps with the same keys and equal values. -/
def map (κ : Type u) [LinearOrder κ] (values : PartialEq ν) : PartialEq (SortedMap κ ν) where
  same left right := values.sameEntries left.entries right.entries
  symm := values.sameEntries_symm
  trans := values.sameEntries_trans

end PartialEq

end AgentDeck
