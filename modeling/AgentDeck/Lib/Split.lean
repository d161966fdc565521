import Mathlib.Data.List.Basic

/-!
# Taking a list apart at a word

`strip_prefix`, `strip_suffix` and `rsplit_once` of `str`, over any list. Each comes with what its
answer says of the list, and with the lists it surely takes apart.
-/

namespace AgentDeck.Split

variable {α : Type*} [DecidableEq α]

/-- `str::strip_prefix`. -/
def stripPrefix (word list : List α) : Option (List α) :=
  if word <+: list then some (list.drop word.length) else none

/-- `str::strip_suffix`. -/
def stripSuffix (word list : List α) : Option (List α) :=
  if word <:+ list then some (list.take (list.length - word.length)) else none

/-- `str::rsplit_once`: what stands before and after the last place of `word`. -/
def rsplitOnce (word : List α) : List α → Option (List α × List α)
  | [] => if word = [] then some ([], []) else none
  | a :: rest =>
    match rsplitOnce word rest with
    | some (before, after) => some (a :: before, after)
    | none => (stripPrefix word (a :: rest)).map fun after => ([], after)

theorem stripPrefix_eq_some {word list rest : List α} :
    stripPrefix word list = some rest ↔ list = word ++ rest := by
  simp only [stripPrefix]
  constructor
  · intro found
    split at found
    · rename_i begins
      rcases begins with ⟨after, rfl⟩
      rw [List.drop_left] at found
      cases found
      rfl
    · cases found
  · rintro rfl
    rw [if_pos (List.prefix_append word rest), List.drop_left]

theorem stripSuffix_eq_some {word list rest : List α} :
    stripSuffix word list = some rest ↔ list = rest ++ word := by
  simp only [stripSuffix]
  constructor
  · intro found
    split at found
    · rename_i ends
      rcases ends with ⟨before, rfl⟩
      rw [List.length_append, Nat.add_sub_cancel, List.take_left] at found
      cases found
      rfl
    · cases found
  · rintro rfl
    rw [if_pos (List.suffix_append rest word), List.length_append, Nat.add_sub_cancel,
      List.take_left]

theorem append_of_rsplitOnce {word list before after : List α}
    (found : rsplitOnce word list = some (before, after)) : list = before ++ (word ++ after) := by
  induction list generalizing before with
  | nil =>
    simp only [rsplitOnce] at found
    split at found
    · rename_i empty
      cases found
      rw [empty]
      rfl
    · cases found
  | cons a rest ih =>
    simp only [rsplitOnce] at found
    split at found
    · rename_i inner later split
      cases found
      rw [ih split]
      rfl
    · simp only [Option.map_eq_some_iff] at found
      rcases found with ⟨_, stripped, rfl, rfl⟩
      rw [List.nil_append]
      exact stripPrefix_eq_some.mp stripped

end AgentDeck.Split
