import AgentDeck.Keymap.CodexReads

/-!
# Codex's bookkeeping only moves forward

A step of the bookkeeping is never a step back of another. A read that passes `codex_unchanged` is
the same read, or one such step on and the same in everything else.
-/

namespace AgentDeck.Keymap

open SortedMap

variable {δ : Type}

/-! ## Asymmetry -/

/-- The parts of a step that two tables and two markers take. -/
structure Forward (data : PartialEq δ) (before after : Table δ) : Prop where
  marker : markerOf before = markerOf after ∨
    (markerOf before ≠ some true ∧ markerOf after = some true)
  kept : ∀ model ∈ ((countsOf before).getD SortedMap.empty).keys,
    (((countsOf after).getD SortedMap.empty).get? model).isSome
  counts : ∀ entry ∈ ((countsOf after).getD SortedMap.empty).entries,
    countOk ((countsOf before).getD SortedMap.empty) entry
  moved : markerOf before ≠ markerOf after ∨
    ∃ entry ∈ ((countsOf after).getD SortedMap.empty).entries,
      countMoved data ((countsOf before).getD SortedMap.empty) entry

variable {data : PartialEq δ}

theorem forward_of {before after : Table δ} (forward : codexBookkeepingForward data before after) :
    Forward data before after := by
  simp only [codexBookkeepingForward, Bool.and_eq_true, Bool.or_eq_true, decide_eq_true_eq,
    List.all_eq_true] at forward
  rcases forward with ⟨⟨⟨⟨marker, _⟩, kept, counts⟩, _⟩, moved⟩
  refine ⟨?_, kept, counts, ?_⟩
  · rcases marker with same | ⟨was, now⟩
    · exact .inl same
    · refine .inr ⟨?_, now⟩
      rcases was with absent | cleared
      · rw [absent]
        nofun
      · rw [cleared]
        nofun
  · rcases moved with marker | nonempty
    · exact .inl marker
    · rcases List.exists_mem_of_length_pos nonempty with ⟨entry, mem⟩
      exact .inr ⟨entry, (List.mem_filter.mp mem).1, (List.mem_filter.mp mem).2⟩

theorem countMoved_cases {was : SortedMap Text (Count δ)} {entry : Text × Count δ}
    (ok : countOk was entry) (moved : countMoved data was entry) :
    was.get? entry.1 = none ∨
      ∃ prior, was.get? entry.1 = some (.integer prior) ∧ entry.2 = .integer (prior + 1) := by
  rcases entry with ⟨model, now⟩
  cases now with
  | other datum => simp [countOk] at ok
  | integer count =>
    cases here : was.get? model with
    | none => exact .inl rfl
    | some prior =>
      cases prior with
      | other datum => simp [countOk, here] at ok
      | integer prior =>
        simp only [countOk, here, Bool.or_eq_true, Bool.and_eq_true,
          decide_eq_true_eq] at ok
        simp only [countMoved, here, Count.eq, Bool.not_eq_true',
          decide_eq_false_iff_not] at moved
        rcases ok with same | ⟨risen, _⟩
        · exact absurd same.symm moved
        · exact .inr ⟨prior, rfl, congrArg Count.integer risen⟩

theorem forward_asymm {before after : Table δ}
    (forward : codexBookkeepingForward data before after) :
    ¬ codexBookkeepingForward data after before := by
  intro back
  have there := forward_of forward
  have again := forward_of back
  rcases there.moved with marker | ⟨entry, mem, moved⟩
  · rcases there.marker with same | ⟨was, now⟩
    · exact marker same
    · rcases again.marker with same | ⟨notSet, _⟩
      · exact marker same.symm
      · exact notSet now
  · have now : ((countsOf after).getD SortedMap.empty).get? entry.1 = some entry.2 :=
      (get?_eq_some_iff _ _ _).mpr mem
    rcases countMoved_cases (there.counts entry mem) moved with new | ⟨prior, was, risen⟩
    · -- A new count would have to go again.
      have kept := again.kept entry.1 ((mem_keys_iff _ _).mpr ⟨entry.2, now⟩)
      rw [new] at kept
      cases kept
    · -- A count that rose would have to fall.
      have falls := again.counts (entry.1, .integer prior) ((get?_eq_some_iff _ _ _).mp was)
      rw [risen] at now
      simp only [countOk, now, Bool.or_eq_true, Bool.and_eq_true, decide_eq_true_eq] at falls
      omega

/-! ## Reads -/

/-- The two reads differ at most in `config.toml`. -/
structure Beside (before after : CodexRead) : Prop where
  profile : before.profile = after.profile
  projects : before.projects = after.projects
  overrides : before.overrides = after.overrides
  dotenv : before.dotenv = after.dotenv

theorem Beside.trans {first second third : CodexRead} (beside : Beside first second)
    (also : Beside second third) : Beside first third :=
  ⟨beside.profile.trans also.profile, beside.projects.trans also.projects,
    beside.overrides.trans also.overrides, beside.dotenv.trans also.dotenv⟩

variable {before after : CodexRead}

theorem Beside.symm (beside : Beside before after) : Beside after before :=
  ⟨beside.profile.symm, beside.projects.symm, beside.overrides.symm, beside.dotenv.symm⟩

/-- Both parse, to the same table less the bookkeeping. -/
def SameRest (toml : Toml δ) (before after : SourceRead) : Prop :=
  ∃ rest kept rest' kept', codexConfigSplit toml before = some (rest, kept) ∧
    codexConfigSplit toml after = some (rest', kept') ∧ (Document.eq toml.data).same rest rest'

variable {toml : Toml δ}

theorem SameRest.symm {before after : SourceRead} (same : SameRest toml before after) :
    SameRest toml after before := by
  rcases same with ⟨rest, kept, rest', kept', first, second, equal⟩
  exact ⟨rest', kept', rest, kept, second, first, (Document.eq toml.data).symm equal⟩

theorem SameRest.trans {first second third : SourceRead} (same : SameRest toml first second)
    (also : SameRest toml second third) : SameRest toml first third := by
  rcases same with ⟨rest, kept, rest', kept', here, there, equal⟩
  rcases also with ⟨middle, keptMiddle, rest'', kept'', again, last, equal'⟩
  rw [there] at again
  cases again
  exact ⟨rest, kept, rest'', kept'', here, last, (Document.eq toml.data).trans equal equal'⟩

/-- `after` differs from `before` only in `config.toml`, which parses to the same table less the
bookkeeping, and the bookkeeping is one step forward. -/
structure StepOn (toml : Toml δ) (before after : CodexRead) : Prop where
  differ : before.config ≠ after.config
  beside : Beside before after
  rest : SameRest toml before.config after.config
  forward : ∃ rest kept rest' kept', codexConfigSplit toml before.config = some (rest, kept) ∧
    codexConfigSplit toml after.config = some (rest', kept') ∧
      codexBookkeepingForward toml.data kept kept'

theorem StepOn.asymm (step : StepOn toml before after) : ¬ StepOn toml after before := by
  intro back
  rcases step.forward with ⟨_, kept, _, kept', first, second, forward⟩
  rcases back.forward with ⟨_, again, _, again', second', first', backward⟩
  rw [second] at second'
  rw [first] at first'
  cases second'
  cases first'
  exact forward_asymm forward backward

theorem codexConfigUnchanged_iff (toml : Toml δ) (before after : SourceRead) :
    codexConfigUnchanged toml before after ↔ before = after ∨
      (before ≠ after ∧ ∃ rest kept rest' kept',
        codexConfigSplit toml before = some (rest, kept) ∧
          codexConfigSplit toml after = some (rest', kept') ∧
            (Document.eq toml.data).same rest rest' ∧
              codexBookkeepingForward toml.data kept kept') := by
  unfold codexConfigUnchanged
  split
  · rename_i same
    exact ⟨fun _ => .inl same, fun _ => rfl⟩
  · rename_i differ
    split
    · rename_i rest kept rest' kept' first second
      rw [Bool.and_eq_true]
      constructor
      · intro ⟨equal, forward⟩
        exact .inr ⟨differ, rest, kept, rest', kept', first, second, equal, forward⟩
      · rintro (same | ⟨_, _, _, _, _, first', second', equal, forward⟩)
        · exact absurd same differ
        · rw [first] at first'
          rw [second] at second'
          cases first'
          cases second'
          exact ⟨equal, forward⟩
    · rename_i unsplit
      constructor
      · nofun
      · rintro (same | ⟨_, rest, kept, rest', kept', first, second, _⟩)
        · exact absurd same differ
        · exact absurd second (unsplit rest kept rest' kept' first)

theorem codexUnchanged_iff (toml : Toml δ) (before after : CodexRead) :
    codexUnchanged toml before after = .ok () ↔ before = after ∨ StepOn toml before after := by
  unfold codexUnchanged
  split
  · rename_i unchanged
    refine ⟨fun _ => ?_, fun _ => rfl⟩
    rcases unchanged with ⟨config, profile, projects, overrides, dotenv⟩
    rcases (codexConfigUnchanged_iff toml _ _).mp config with
      same | ⟨differ, rest, kept, rest', kept', first, second, equal, forward⟩
    · left
      cases before
      simp only at same profile projects overrides dotenv
      rw [same, profile, projects, overrides, dotenv]
    · exact .inr ⟨differ, ⟨profile, projects, overrides, dotenv⟩,
        ⟨rest, kept, rest', kept', first, second, equal⟩,
        ⟨rest, kept, rest', kept', first, second, forward⟩⟩
  · rename_i changed
    refine ⟨nofun, fun either => absurd ?_ changed⟩
    rcases either with rfl | step
    · exact ⟨(codexConfigUnchanged_iff toml _ _).mpr (.inl rfl), rfl, rfl, rfl, rfl⟩
    · refine ⟨(codexConfigUnchanged_iff toml _ _).mpr (.inr ⟨step.differ, ?_⟩),
        step.beside.profile, step.beside.projects, step.beside.overrides, step.beside.dotenv⟩
      rcases step.rest with ⟨rest, kept, rest', kept', first, second, equal⟩
      rcases step.forward with ⟨_, _, _, _, again, second', forward⟩
      rw [first] at again
      rw [second] at second'
      cases again
      cases second'
      exact ⟨rest, kept, rest', kept', first, second, equal, forward⟩

theorem codexUnchanged_error {hold : Hold}
    (fails : codexUnchanged toml before after = .error hold) : hold = .changed := by
  unfold codexUnchanged at fails
  split at fails
  · cases fails
  · cases fails
    rfl

end AgentDeck.Keymap
