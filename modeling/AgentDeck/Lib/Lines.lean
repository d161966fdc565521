import Mathlib.Data.List.Basic

/-!
# Lines

A text taken apart at a separator: the lines that one ends, and what comes after the last. A text
comes in pieces, so each fact is about what one more piece adds.
-/

namespace AgentDeck.Lines

variable {α : Type*} [DecidableEq α] {sep : α} {text first later : List α}

/-- The lines that a separator ends, and the rest. -/
def parts (sep : α) : List α → List (List α) × List α
  | [] => ([], [])
  | a :: text =>
    if a = sep then ([] :: (parts sep text).1, (parts sep text).2)
    else
      match parts sep text with
      | ([], rest) => ([], a :: rest)
      | (line :: lines, rest) => ((a :: line) :: lines, rest)

theorem parts_of_not_mem (free : sep ∉ text) : parts sep text = ([], text) := by
  induction text with
  | nil => rfl
  | cons a text ih =>
    simp only [List.mem_cons, not_or] at free
    simp only [parts, if_neg (Ne.symm free.1), ih free.2]

/-- A line is ended. -/
theorem parts_append_sep : parts sep (first ++ sep :: later) =
    ((parts sep first).1 ++ (parts sep first).2 :: (parts sep later).1, (parts sep later).2) := by
  induction first with
  | nil => simp only [List.nil_append, parts, if_true]
  | cons a first ih =>
    simp only [List.cons_append, parts, ih]
    split
    · rfl
    · rcases parts sep first with ⟨_ | ⟨line, lines⟩, rest⟩
      · rfl
      · rfl

/-- A line goes on. -/
theorem parts_append (free : sep ∉ later) :
    parts sep (first ++ later) = ((parts sep first).1, (parts sep first).2 ++ later) := by
  induction first with
  | nil => exact parts_of_not_mem free
  | cons a first ih =>
    simp only [List.cons_append, parts, ih]
    split
    · rfl
    · rcases parts sep first with ⟨_ | ⟨line, lines⟩, rest⟩
      · rfl
      · rfl

/-- The first line begins earlier. -/
theorem parts_prepend (free : sep ∉ first) : parts sep (first ++ later) =
    match parts sep later with
    | ([], rest) => ([], first ++ rest)
    | (line :: lines, rest) => ((first ++ line) :: lines, rest) := by
  induction first with
  | nil =>
    rw [List.nil_append]
    rcases parts sep later with ⟨_ | ⟨line, lines⟩, rest⟩
    · rfl
    · rfl
  | cons a first ih =>
    simp only [List.mem_cons, not_or] at free
    simp only [List.cons_append, parts, if_neg (Ne.symm free.1), ih free.2]
    rcases parts sep later with ⟨_ | ⟨line, lines⟩, rest⟩
    · rfl
    · rfl

/-- Where the first separator is. -/
def position (sep : α) (text : List α) : Option ℕ := text.findIdx? (· = sep)

theorem position_cases (sep : α) (text : List α) :
    position sep text = none ∧ sep ∉ text ∨
      ∃ before after, text = before ++ sep :: after ∧ sep ∉ before ∧
        position sep text = some before.length := by
  induction text with
  | nil => exact .inl ⟨rfl, List.not_mem_nil⟩
  | cons a text ih =>
    simp only [position, List.findIdx?_cons] at ih ⊢
    by_cases here : a = sep
    · exact .inr ⟨[], text, by rw [here]; rfl, List.not_mem_nil, by simp only [here]; rfl⟩
    · simp only [here]
      rcases ih with ⟨missing, free⟩ | ⟨before, after, rfl, free, found⟩
      · refine .inl ⟨by rw [missing]; rfl, ?_⟩
        simp only [List.mem_cons, not_or]
        exact ⟨Ne.symm here, free⟩
      · refine .inr ⟨a :: before, after, rfl, ?_, by rw [found]; rfl⟩
        simp only [List.mem_cons, not_or]
        exact ⟨Ne.symm here, free⟩

end AgentDeck.Lines
