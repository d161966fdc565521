import Mathlib.Data.List.Infix
import Mathlib.Data.List.TakeDrop

/-!
# The first occurrence of a marker in a stream

A stream comes in chunks. A search that keeps the last items it has seen, one fewer than the marker
has, finds the first occurrence of the marker however the stream is cut.
-/

namespace AgentDeck.Marker

variable {α : Type*} [DecidableEq α]

/-- Where the first `needle` sits in a list. -/
def position (needle : List α) : List α → Option ℕ
  | [] => if needle.isPrefixOf [] then some 0 else none
  | a :: rest =>
    if needle.isPrefixOf (a :: rest) then some 0 else (position needle rest).map (· + 1)

/-- `position`, where no empty needle is ever found. -/
def find (needle list : List α) : Option ℕ :=
  if needle.isEmpty then none else position needle list

/-- The needle is nowhere in the list. -/
def Absent (needle list : List α) : Prop := ∀ k, ¬ needle <+: list.drop k

/-- The needle sits at `m`, and nowhere between `start` and `m`. -/
structure First (needle list : List α) (start m : ℕ) : Prop where
  after : start ≤ m
  here : needle <+: list.drop m
  earliest : ∀ k, start ≤ k → k < m → ¬ needle <+: list.drop k

/-- The last items of a list, one fewer than the needle has. -/
def held (needle list : List α) : List α :=
  list.drop (list.length - min (needle.length - 1) list.length)

variable {needle list : List α}

omit [DecidableEq α] in
theorem length_le_of_prefix_drop {k : ℕ} (nonempty : needle ≠ []) (here : needle <+: list.drop k) :
    k + needle.length ≤ list.length := by
  have fits := here.length_le
  have long := List.length_pos_of_ne_nil nonempty
  rw [List.length_drop] at fits
  omega

theorem first_of_starts (starts : needle.isPrefixOf list = true) : First needle list 0 0 :=
  ⟨le_rfl, List.isPrefixOf_iff_prefix.mp starts, fun k _ less => absurd less k.not_lt_zero⟩

theorem first_of_position {m : ℕ} (found : position needle list = some m) :
    First needle list 0 m := by
  induction list generalizing m with
  | nil =>
    simp only [position] at found
    split at found
    · rename_i starts
      cases found
      exact first_of_starts starts
    · cases found
  | cons a rest ih =>
    simp only [position] at found
    split at found
    · rename_i starts
      cases found
      exact first_of_starts starts
    · rename_i elsewhere
      rcases Option.map_eq_some_iff.mp found with ⟨n, later, same⟩
      subst same
      rcases ih later with ⟨_, here, earliest⟩
      refine ⟨Nat.zero_le _, here, ?_⟩
      intro k _ less
      cases k with
      | zero => exact fun starts => elsewhere (List.isPrefixOf_iff_prefix.mpr starts)
      | succ k => exact earliest k (Nat.zero_le k) (by omega)

theorem absent_of_position (nonempty : needle ≠ []) (absent : position needle list = none) :
    Absent needle list := by
  induction list with
  | nil =>
    intro k here
    rw [List.drop_nil, List.prefix_nil] at here
    exact nonempty here
  | cons a rest ih =>
    simp only [position] at absent
    split at absent
    · cases absent
    · rename_i elsewhere
      intro k here
      cases k with
      | zero => exact elsewhere (List.isPrefixOf_iff_prefix.mpr here)
      | succ k => exact ih (Option.map_eq_none_iff.mp absent) k here

omit [DecidableEq α] in
/-- What lies wholly in the first part of a list is there whatever follows. -/
theorem prefix_drop_append (more : List α) {k : ℕ} (fits : k + needle.length ≤ list.length) :
    needle <+: (list ++ more).drop k ↔ needle <+: list.drop k := by
  rw [List.drop_append_of_le_length (by omega)]
  constructor
  · intro here
    refine List.prefix_of_prefix_length_le here (List.prefix_append _ _) ?_
    rw [List.length_drop]
    omega
  · exact fun here => here.trans (List.prefix_append _ _)

omit [DecidableEq α] in
theorem First.append {start m : ℕ} (nonempty : needle ≠ []) (first : First needle list start m)
    (more : List α) : First needle (list ++ more) start m := by
  have fits := length_le_of_prefix_drop nonempty first.here
  refine ⟨first.after, (prefix_drop_append more fits).mpr first.here, ?_⟩
  intro k after less here
  exact first.earliest k after less ((prefix_drop_append more (by omega)).mp here)

omit [DecidableEq α] in
theorem drop_past (past list : List α) (k : ℕ) :
    (past ++ list).drop (past.length + k) = list.drop k := by
  rw [List.drop_append, Nat.add_sub_cancel_left, List.drop_of_length_le (Nat.le_add_right _ _),
    List.nil_append]

omit [DecidableEq α] in
theorem First.after_past {m : ℕ} (first : First needle list 0 m) (past : List α) :
    First needle (past ++ list) past.length (past.length + m) := by
  refine ⟨Nat.le_add_right _ _, ?_, ?_⟩
  · rw [drop_past]
    exact first.here
  · intro k after less
    have same : k = past.length + (k - past.length) := by omega
    rw [same, drop_past]
    exact first.earliest _ (Nat.zero_le _) (by omega)

omit [DecidableEq α] in
/-- No occurrence begins before the held items, once more has come. -/
theorem not_before_held {seen : List α} (absent : Absent needle seen) (more : List α) {k : ℕ}
    (less : k < seen.length - min (needle.length - 1) seen.length) :
    ¬ needle <+: (seen ++ more).drop k := by
  intro here
  exact absent k ((prefix_drop_append more (by omega)).mp here)

omit [DecidableEq α] in
theorem held_append (needle seen more : List α) :
    held needle seen ++ more =
      (seen ++ more).drop (seen.length - min (needle.length - 1) seen.length) := by
  rw [List.drop_append_of_le_length (Nat.sub_le _ _)]
  rfl

omit [DecidableEq α] in
theorem length_held (needle seen : List α) :
    (held needle seen).length = min (needle.length - 1) seen.length := by
  simp only [held, List.length_drop]
  omega

/-- A needle found in the held items and what has come since is the first of the whole stream. -/
theorem first_of_find {seen more : List α} {found : ℕ} (absent : Absent needle seen)
    (finds : find needle (held needle seen ++ more) = some found) :
    First needle (seen ++ more) 0 (seen.length - (held needle seen).length + found) := by
  simp only [find] at finds
  split at finds
  · cases finds
  · rename_i nonempty
    have nonempty : needle ≠ [] := fun missing => nonempty (by rw [missing]; rfl)
    have first := first_of_position finds
    rw [held_append] at first
    rw [length_held]
    refine ⟨Nat.zero_le _, ?_, ?_⟩
    · have here := first.here
      rw [List.drop_drop] at here
      exact here
    · intro k _ less here
      by_cases before : k < seen.length - min (needle.length - 1) seen.length
      · exact not_before_held absent more before here
      · refine first.earliest (k - (seen.length - min (needle.length - 1) seen.length))
          (Nat.zero_le _) (by omega) ?_
        rw [List.drop_drop, Nat.add_sub_cancel' (by omega)]
        exact here

theorem absent_of_find {seen more : List α} (nonempty : needle ≠ []) (absent : Absent needle seen)
    (finds : find needle (held needle seen ++ more) = none) : Absent needle (seen ++ more) := by
  have isSome : needle.isEmpty = false := by
    cases needle with
    | nil => exact absurd rfl nonempty
    | cons _ _ => rfl
  simp only [find, isSome] at finds
  have rest := absent_of_position nonempty finds
  rw [held_append] at rest
  intro k here
  by_cases before : k < seen.length - min (needle.length - 1) seen.length
  · exact not_before_held absent more before here
  · refine rest (k - (seen.length - min (needle.length - 1) seen.length)) ?_
    rw [List.drop_drop, Nat.add_sub_cancel' (by omega)]
    exact here

omit [DecidableEq α] in
/-- What is held after more has come needs only what was held before. -/
theorem held_held_append (needle seen more : List α) :
    held needle (held needle seen ++ more) = held needle (seen ++ more) := by
  have window : (held needle seen ++ more).length =
      min (needle.length - 1) seen.length + more.length := by
    rw [List.length_append, length_held]
  rw [held, window, held_append, List.drop_drop, held, List.length_append]
  congr 1
  omega

omit [DecidableEq α] in
theorem held_nil (needle : List α) : held needle [] = [] := List.drop_nil

omit [DecidableEq α] in
theorem absent_nil (nonempty : needle ≠ []) : Absent needle [] := by
  intro k here
  rw [List.drop_nil, List.prefix_nil] at here
  exact nonempty here

end AgentDeck.Marker
