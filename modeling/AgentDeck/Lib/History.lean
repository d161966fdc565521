import Mathlib.Data.List.Basic

/-!
# Histories, newest first

A history is a list with its newest entry at the head. `Everywhere` says of every entry what held
when it was added, in terms of the entries before it; `Somewhere` says it of some entry.
-/

namespace AgentDeck.History

variable {α : Type*}

def Everywhere (holds : List α → α → Prop) (history : List α) : Prop :=
  ∀ later entry earlier, history = later ++ entry :: earlier → holds earlier entry

def Somewhere (holds : List α → α → Prop) (history : List α) : Prop :=
  ∃ later entry earlier, history = later ++ entry :: earlier ∧ holds earlier entry

theorem everywhere_nil (holds : List α → α → Prop) : Everywhere holds [] := by
  intro later entry earlier same
  cases later <;> cases same

variable {holds : List α → α → Prop} {history : List α}

theorem everywhere_cons {entry : α} :
    Everywhere holds (entry :: history) ↔ holds history entry ∧ Everywhere holds history := by
  constructor
  · intro everywhere
    refine ⟨everywhere [] entry history rfl, ?_⟩
    rintro later other earlier rfl
    exact everywhere (entry :: later) other earlier rfl
  · rintro ⟨newest, older⟩ later other earlier same
    cases later with
    | nil =>
      cases same
      exact newest
    | cons _ later =>
      cases same
      exact older later other earlier rfl

theorem somewhere_newest {entry : α} (newest : holds history entry) :
    Somewhere holds (entry :: history) :=
  ⟨[], entry, history, rfl, newest⟩

theorem Somewhere.cons (somewhere : Somewhere holds history) (entry : α) :
    Somewhere holds (entry :: history) := by
  rcases somewhere with ⟨later, other, earlier, rfl, found⟩
  exact ⟨entry :: later, other, earlier, rfl, found⟩

/-! ## Oldest first -/

/-- A place in a list one longer is its end, or a place in the list itself. -/
theorem exists_split_concat (holds : List α → α → List α → Prop) {last : α} :
    (∃ earlier entry later, history ++ [last] = earlier ++ entry :: later ∧
        holds earlier entry later) ↔
      holds history last [] ∨ ∃ earlier entry later, history = earlier ++ entry :: later ∧
        holds earlier entry (later ++ [last]) := by
  constructor
  · rintro ⟨earlier, entry, later, same, found⟩
    rcases List.eq_nil_or_concat later with absent | ⟨rest, final, concat⟩
    · subst absent
      rcases List.append_inj' same rfl with ⟨sameList, sameLast⟩
      cases sameLast
      subst sameList
      exact .inl found
    · rw [List.concat_eq_append] at concat
      subst concat
      have split : history ++ [last] = (earlier ++ entry :: rest) ++ [final] := by
        rw [same, List.append_assoc]
        rfl
      rcases List.append_inj' split rfl with ⟨sameList, sameLast⟩
      cases sameLast
      exact .inr ⟨earlier, entry, rest, sameList, found⟩
  · rintro (found | ⟨earlier, entry, later, same, found⟩)
    · exact ⟨history, last, [], rfl, found⟩
    · refine ⟨earlier, entry, later ++ [last], ?_, found⟩
      rw [same, List.append_assoc]
      rfl

end AgentDeck.History
