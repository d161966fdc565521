import AgentDeck.Lib.History
import AgentDeck.Usage.Codex

/-!
# Codex usage adds up

What every line keeps of the counts, the model credited and the two flags, and from it when a
rollout's numbers are reported.
-/

namespace AgentDeck.Usage

open History

/-! ## What a line says of the running total -/

/-- What a line says of the total, after the last total accepted. -/
inductive Verdict where
  | accepted (total : Tokens)
  | below
  | doubted
  | other

/-- The record's total, where it is a `token_count`. -/
def NarrowRecord.totalOf (record : NarrowRecord) : Option (Option CodexTokenUsage) :=
  if record.kind = some eventMsg ∧ record.payloadKind = some tokenCount then
    some record.totalTokenUsage
  else none

instance (tokens other : Tokens) : Decidable (tokens.Le other) :=
  decidable_of_iff (tokens.input ≤ other.input ∧ tokens.output ≤ other.output ∧
      tokens.cacheRead ≤ other.cacheRead ∧ tokens.cacheWrite ≤ other.cacheWrite)
    ⟨fun least kind => by cases kind <;> simp only [Tokens.count, least],
      fun least => ⟨least .input, least .output, least .cacheRead, least .cacheWrite⟩⟩

/-- A total is accepted where it is usable and at least the last one in every count; below it, it
says nothing; an unusable total, a missing one after an accepted one and a malformed line leave
doubt. -/
def verdict (lastTotal : Option Tokens) : RolloutLine → Verdict
  | .malformed => .doubted
  | .record record =>
    match record.totalOf with
    | none => .other
    | some none => if lastTotal.isSome then .doubted else .other
    | some (some usage) =>
      match usage.usable lastTotal with
      | none => .doubted
      | some total =>
        if (lastTotal.getD .zero).Le total then .accepted total else .below

/-- What `line` says after the lines before it. -/
def verdictAt (before : List RolloutLine) (line : RolloutLine) : Verdict :=
  verdict (CodexRolloutSummary.run before).lastTotal line

def IsAccepted (before : List RolloutLine) (line : RolloutLine) : Prop :=
  ∃ total, verdictAt before line = .accepted total

def SomeAccepted (lines : List RolloutLine) : Prop :=
  ∃ before line after, lines = before ++ line :: after ∧ IsAccepted before line

/-- A usable total was below the last one in some count. -/
def SomeBelow (lines : List RolloutLine) : Prop :=
  ∃ before line after, lines = before ++ line :: after ∧ verdictAt before line = .below

/-- A total in doubt has no accepted one after it. -/
def SomeDoubt (lines : List RolloutLine) : Prop :=
  ∃ before line after, lines = before ++ line :: after ∧
    (verdictAt before line = .doubted ∧
      ∀ between next rest, after = between ++ next :: rest →
        ¬ IsAccepted (before ++ line :: between) next)

/-- The model the last `turn_context` named; none where a malformed line came after it. -/
def lastNamed (lines : List RolloutLine) : Model :=
  lines.foldl (fun model line =>
    match line with
    | .malformed => ⊥
    | .record record =>
      if record.kind = some turnContext then Model.new record.model else model) ⊥

section

variable (lines : List RolloutLine)

include lines

variable (line : RolloutLine)

include line

theorem someAccepted_concat :
    SomeAccepted (lines ++ [line]) ↔ IsAccepted lines line ∨ SomeAccepted lines :=
  exists_split_concat (fun before line _ => IsAccepted before line)

theorem someBelow_concat :
    SomeBelow (lines ++ [line]) ↔ verdictAt lines line = .below ∨ SomeBelow lines :=
  exists_split_concat (fun before line _ => verdictAt before line = .below)

theorem someDoubt_concat :
    SomeDoubt (lines ++ [line]) ↔
      verdictAt lines line = .doubted ∨ (SomeDoubt lines ∧ ¬ IsAccepted lines line) := by
  unfold SomeDoubt
  rw [exists_split_concat (fun before line after => verdictAt before line = .doubted ∧
    ∀ between next rest, after = between ++ next :: rest →
      ¬ IsAccepted (before ++ line :: between) next)]
  constructor
  · rintro (⟨doubted, _⟩ | ⟨before, other, after, same, doubted, unsettled⟩)
    · exact .inl doubted
    · refine .inr ⟨⟨before, other, after, same, doubted, ?_⟩, ?_⟩
      · intro between next rest split
        refine unsettled between next (rest ++ [line]) ?_
        rw [split, List.append_assoc]
        rfl
      · rw [same]
        exact unsettled after line [] rfl
  · rintro (doubted | ⟨⟨before, other, after, same, doubted, unsettled⟩, unaccepted⟩)
    · refine .inl ⟨doubted, ?_⟩
      intro between next rest split
      exact absurd split (by simp)
    · refine .inr ⟨before, other, after, same, doubted, ?_⟩
      intro between next rest split
      rcases List.eq_nil_or_concat rest with absent | ⟨more, final, concat⟩
      · subst absent
        rcases List.append_inj' split rfl with ⟨sameList, sameLast⟩
        cases sameLast
        subst sameList
        rw [← same]
        exact unaccepted
      · rw [List.concat_eq_append] at concat
        subst concat
        have longer : after ++ [line] = (between ++ next :: more) ++ [final] := by
          rw [split, List.append_assoc]
          rfl
        rcases List.append_inj' longer rfl with ⟨sameList, _⟩
        exact unsettled between next more sameList

theorem lastNamed_concat :
    lastNamed (lines ++ [line]) =
      match line with
      | .malformed => ⊥
      | .record record =>
        if record.kind = some turnContext then Model.new record.model else lastNamed lines :=
  List.foldl_concat _ _ _ _

theorem run_concat :
    CodexRolloutSummary.run (lines ++ [line]) = (CodexRolloutSummary.run lines).step line :=
  List.foldl_concat _ _ _ _

end

/-! ## What a line does -/

namespace CodexRolloutSummary

structure Counted where
  tokensByModel : SortedMap Model Tokens
  lastTotal : Option Tokens
  tokensIncomplete : Bool
  totalUnresolved : Bool

def counted (s : CodexRolloutSummary) : Counted :=
  { tokensByModel := s.tokensByModel, lastTotal := s.lastTotal
    tokensIncomplete := s.tokensIncomplete, totalUnresolved := s.totalUnresolved }

def growth (s : CodexRolloutSummary) (total : Tokens) : Tokens :=
  match s.lastTotal with
  | none => total
  | some prev => (total.since prev).getD .zero

/-- What a line does to the counts and the flags is decided by its verdict. -/
theorem counted_step (s : CodexRolloutSummary) (line : RolloutLine) :
    (s.step line).counted =
      match verdict s.lastTotal line with
      | .accepted total => (s.accept total (s.growth total)).counted
      | .below => { s.counted with tokensIncomplete := true }
      | .doubted => { s.counted with totalUnresolved := true }
      | .other => s.counted := by
  cases line with
  | malformed => rfl
  | record record =>
    simp only [step, observe, verdict, NarrowRecord.totalOf]
    by_cases context : record.kind = some turnContext
    · have elsewhere : ¬ (record.kind = some eventMsg ∧ record.payloadKind = some tokenCount) := by
        rw [context]
        exact fun both => absurd both.1 (by decide +kernel)
      rw [if_pos context, if_neg elsewhere]
      rfl
    · rw [if_neg context]
      by_cases event : record.kind = some eventMsg
      · rw [if_pos event]
        by_cases counts : record.payloadKind = some tokenCount
        · rw [if_pos counts, if_pos ⟨event, counts⟩]
          have samples : (s.observeTokenCount record).counted =
              (s.observeReported record.totalTokenUsage).counted := by
            unfold observeTokenCount
            cases record.rateLimits <;> rfl
          rw [samples]
          unfold observeReported
          cases record.totalTokenUsage with
          | none =>
            simp only []
            split
            · rfl
            · rfl
          | some usage =>
            simp only [observeTotal]
            cases usage.usable s.lastTotal with
            | none => rfl
            | some total =>
              cases before : s.lastTotal with
              | none =>
                have least : Tokens.zero.Le total := fun kind => by
                  rw [Tokens.count_zero]
                  exact Nat.zero_le _
                simp only [Option.getD_none, growth, before, if_pos least]
              | some prev =>
                simp only [Option.getD_some, growth, before]
                cases grown : total.since prev with
                | none =>
                  rw [if_neg (Tokens.since_eq_none_iff.mp grown)]
                  rfl
                | some delta =>
                  have least : prev.Le total := Classical.byContradiction fun less =>
                    Option.some_ne_none delta
                      (grown.symm.trans (Tokens.since_eq_none_iff.mpr less))
                  simp only [if_pos least, grown, Option.getD_some]
        · have elsewhere : ¬ (record.kind = some eventMsg ∧
              record.payloadKind = some tokenCount) := fun both => counts both.2
          rw [if_neg counts]
          split
          · rfl
          · split
            · rfl
            · split
              · rfl
              · rfl
      · have elsewhere : ¬ (record.kind = some eventMsg ∧
            record.payloadKind = some tokenCount) := fun both => event both.1
        rw [if_neg event, if_neg elsewhere]

end CodexRolloutSummary

/-! ## What every line keeps -/

open CodexRolloutSummary

def sumOf (kind : Count) (byModel : SortedMap Model Tokens) : ℕ :=
  SortedMap.total (fun _ tokens => tokens.count kind) byModel

/-- The last total, zero when none was accepted. -/
def totalOf (kind : Count) (total : Option Tokens) : ℕ := (total.getD .zero).count kind

variable {total : Tokens}

theorem fits_of_usable {usage : CodexTokenUsage} {prev : Option Tokens}
    (usable : usage.usable prev = some total) : total.Fits := by
  have cacheFits : ∀ value before count, CodexTokenUsage.cache value before = some count →
      count ≤ u64Max := by
    intro value before count found
    unfold CodexTokenUsage.cache at found
    split at found
    · rename_i value
      cases found
      have := value.toNat_lt
      simp only [u64Max]
      omega
    · split at found
      · cases found
        exact Nat.zero_le _
      · cases found
  simp only [CodexTokenUsage.usable, Option.bind_eq_bind, Option.bind_eq_some_iff] at usable
  rcases usable with ⟨input, _, output, _, cacheRead, read, cacheWrite, write, same⟩
  split at same
  · cases same
    intro kind
    cases kind with
    | input =>
      have := input.toNat_lt
      simp only [Tokens.count, u64Max]
      omega
    | output =>
      have := output.toNat_lt
      simp only [Tokens.count, u64Max]
      omega
    | cacheRead => exact cacheFits _ _ _ read
    | cacheWrite => exact cacheFits _ _ _ write
  · cases same

theorem accepted_of_verdict {lastTotal : Option Tokens} {line : RolloutLine}
    (accepted : verdict lastTotal line = .accepted total) :
    total.Fits ∧ (lastTotal.getD .zero).Le total := by
  unfold verdict at accepted
  split at accepted
  · cases accepted
  · split at accepted
    · cases accepted
    · split at accepted
      · cases accepted
      · cases accepted
    · split at accepted
      · cases accepted
      · rename_i usable
        split at accepted
        · rename_i least
          cases accepted
          exact ⟨fits_of_usable usable, least⟩
        · cases accepted

variable {s : CodexRolloutSummary}

theorem growth_count (least : (s.lastTotal.getD .zero).Le total) (kind : Count) :
    totalOf kind s.lastTotal + (s.growth total).count kind = total.count kind := by
  unfold growth totalOf
  cases before : s.lastTotal with
  | none =>
    simp only [Option.getD_none, Tokens.count_zero, Nat.zero_add]
  | some prev =>
    rw [before] at least
    simp only [Option.getD_some]
    cases grown : total.since prev with
    | none => exact absurd least (Tokens.since_eq_none_iff.mp grown)
    | some delta => exact Tokens.since_eq_some grown kind

theorem count_le_sumOf (byModel : SortedMap Model Tokens) (model : Model) (kind : Count) :
    ((byModel.get? model).getD .zero).count kind ≤ sumOf kind byModel := by
  have erased := SortedMap.total_erase (fun _ tokens => Tokens.count tokens kind) byModel model
  simp only [sumOf]
  cases found : byModel.get? model with
  | none =>
    simp only [Option.getD_none, Tokens.count_zero]
    exact Nat.zero_le _
  | some tokens =>
    rw [found] at erased
    simp only [Option.map_some, Option.getD_some] at erased
    simp only [Option.getD_some]
    omega

theorem sumOf_insert_add (byModel : SortedMap Model Tokens) (model : Model) (delta : Tokens)
    (kind : Count) (fits : sumOf kind byModel + delta.count kind ≤ u64Max) :
    sumOf kind (byModel.insert model (((byModel.get? model).getD .zero).add delta)) =
      sumOf kind byModel + delta.count kind := by
  have least := count_le_sumOf byModel model kind
  have grown := SortedMap.total_insert (fun _ tokens => Tokens.count tokens kind) byModel model
    (((byModel.get? model).getD .zero).add delta)
  have precise : (((byModel.get? model).getD .zero).add delta).count kind =
      ((byModel.get? model).getD .zero).count kind + delta.count kind :=
    Tokens.count_add_of_le (by omega)
  have old : ((byModel.get? model).map fun tokens => tokens.count kind).getD 0 =
      ((byModel.get? model).getD .zero).count kind := by
    cases byModel.get? model with
    | none => exact (Tokens.count_zero kind).symm
    | some tokens => rfl
  simp only [sumOf] at *
  omega

structure Kept (lines : List RolloutLine) (s : CodexRolloutSummary) : Prop where
  fits : (s.lastTotal.getD .zero).Fits
  sum : ∀ kind, sumOf kind s.tokensByModel = totalOf kind s.lastTotal
  started : s.tokensByModel.entries.isEmpty = s.lastTotal.isNone
  bounded : named s.tokensByModel ≤ maxModels
  current : s.currentModel = lastNamed lines
  accepted : s.lastTotal.isSome = true ↔ SomeAccepted lines
  below : s.tokensIncomplete = true ↔ SomeBelow lines
  doubt : s.totalUnresolved = true ↔ SomeDoubt lines

theorem currentModel_step (s : CodexRolloutSummary) (line : RolloutLine) :
    (s.step line).currentModel =
      match line with
      | .malformed => ⊥
      | .record record =>
        if record.kind = some turnContext then Model.new record.model else s.currentModel := by
  have credit : ∀ (s : CodexRolloutSummary) total delta,
      (s.accept total delta).currentModel = s.currentModel := by
    intro s total delta
    unfold accept
    simp only []
    split
    · rfl
    · rfl
  have observes : ∀ (s : CodexRolloutSummary) usage,
      (s.observeTotal usage).currentModel = s.currentModel := by
    intro s usage
    unfold observeTotal
    split
    · rfl
    · split
      · exact credit s _ _
      · split
        · exact credit s _ _
        · rfl
  cases line with
  | malformed => rfl
  | record record =>
    simp only [step, observe]
    split
    · rfl
    · split
      · split
        · have total : (s.observeReported record.totalTokenUsage).currentModel =
              s.currentModel := by
            unfold observeReported
            split
            · exact observes s _
            · split
              · rfl
              · rfl
          unfold observeTokenCount
          cases record.rateLimits with
          | none => exact total
          | some sample => exact total
        · split
          · rfl
          · split
            · rfl
            · split
              · rfl
              · rfl
      · rfl

theorem isEmpty_insert {byModel : SortedMap Model Tokens} {model : Model} {tokens : Tokens} :
    (byModel.insert model tokens).entries.isEmpty = false := by
  have found := SortedMap.get?_insert byModel model model tokens
  rw [if_pos rfl, SortedMap.get?_eq_some_iff] at found
  cases entries : (byModel.insert model tokens).entries with
  | nil =>
    rw [entries] at found
    cases found
  | cons _ _ => rfl

variable {lines : List RolloutLine}

theorem Kept.accept (kept : Kept lines s) (fits : total.Fits)
    (least : (s.lastTotal.getD .zero).Le total) :
    (∀ kind, sumOf kind (s.accept total (s.growth total)).tokensByModel = total.count kind) ∧
      (s.accept total (s.growth total)).tokensByModel.entries.isEmpty = false ∧
      named (s.accept total (s.growth total)).tokensByModel ≤ maxModels := by
  unfold CodexRolloutSummary.accept
  simp only []
  split
  · rename_i nothing
    refine ⟨?_, Bool.eq_false_iff.mpr nothing.2, kept.bounded⟩
    intro kind
    have grown := growth_count least kind
    have zero := of_decide_eq_true nothing.1
    rw [zero, Tokens.count_zero] at grown
    rw [kept.sum kind]
    exact grown
  · refine ⟨?_, isEmpty_insert, named_insert_capped kept.bounded _ _⟩
    intro kind
    have grown := growth_count least kind
    have most := fits kind
    simp only [credit]
    rw [sumOf_insert_add _ _ _ _ (by rw [kept.sum kind]; omega), kept.sum kind]
    exact grown

theorem accept_flags (s : CodexRolloutSummary) (total delta : Tokens) :
    (s.accept total delta).lastTotal = some total ∧
      (s.accept total delta).totalUnresolved = false ∧
      (s.accept total delta).tokensIncomplete = s.tokensIncomplete := by
  unfold CodexRolloutSummary.accept
  simp only []
  split
  · exact ⟨rfl, rfl, rfl⟩
  · exact ⟨rfl, rfl, rfl⟩

theorem Kept.unaccepted {s' : CodexRolloutSummary} (kept : Kept lines s) {line : RolloutLine}
    {incomplete unresolved : Bool}
    (counts : s'.counted =
      { s.counted with tokensIncomplete := incomplete, totalUnresolved := unresolved })
    (other : ¬ IsAccepted lines line) (model : s'.currentModel = lastNamed (lines ++ [line]))
    (below : incomplete = true ↔ SomeBelow (lines ++ [line]))
    (doubt : unresolved = true ↔ SomeDoubt (lines ++ [line])) : Kept (lines ++ [line]) s' := by
  simp only [counted, Counted.mk.injEq] at counts
  rcases counts with ⟨byModel, last, rfl, rfl⟩
  refine ⟨?_, ?_, ?_, ?_, model, ?_, below, doubt⟩
  · rw [last]
    exact kept.fits
  · rw [byModel, last]
    exact kept.sum
  · rw [byModel, last]
    exact kept.started
  · rw [byModel]
    exact kept.bounded
  · rw [last, someAccepted_concat, kept.accepted]
    exact ⟨.inr, fun found => found.resolve_left other⟩

theorem Kept.step (kept : Kept lines s) (here : s = run lines) (line : RolloutLine) :
    Kept (lines ++ [line]) (s.step line) := by
  have counts := counted_step s line
  have same : verdict s.lastTotal line = verdictAt lines line := by rw [here]; rfl
  have model : (s.step line).currentModel = lastNamed (lines ++ [line]) := by
    rw [currentModel_step, lastNamed_concat, kept.current]
  have other : ∀ verdict, verdictAt lines line = verdict → (∀ total, verdict ≠ .accepted total) →
      ¬ IsAccepted lines line :=
    fun _ told differs ⟨total, accepted⟩ => differs total (told.symm.trans accepted)
  rw [same] at counts
  cases told : verdictAt lines line with
  | accepted total =>
    rw [told] at counts
    simp only [counted, Counted.mk.injEq] at counts
    rcases counts with ⟨byModel, last, incomplete, unresolved⟩
    rcases accepted_of_verdict (same.trans told) with ⟨fits, least⟩
    rcases kept.accept fits least with ⟨sum, nonempty, bounded⟩
    rcases accept_flags s total (s.growth total) with ⟨lastHere, settled, belowHere⟩
    have acceptedHere : IsAccepted lines line := ⟨total, told⟩
    refine ⟨?_, ?_, ?_, ?_, model, ?_, ?_, ?_⟩
    · rw [last, lastHere]
      exact fits
    · intro kind
      rw [byModel, sum kind, last, lastHere]
      rfl
    · rw [byModel, nonempty, last, lastHere]
      rfl
    · rw [byModel]
      exact bounded
    · rw [last, lastHere, someAccepted_concat]
      exact ⟨fun _ => .inl acceptedHere, fun _ => rfl⟩
    · rw [incomplete, belowHere, someBelow_concat, told, kept.below]
      exact ⟨.inr, fun found => found.resolve_left nofun⟩
    · rw [unresolved, settled, someDoubt_concat, told]
      refine ⟨nofun, fun found => ?_⟩
      exact absurd acceptedHere (found.resolve_left nofun).2
  | below =>
    rw [told] at counts
    refine kept.unaccepted counts (other _ told nofun) model ?_ ?_
    · rw [someBelow_concat]
      exact ⟨fun _ => .inl told, fun _ => rfl⟩
    · refine kept.doubt.trans ?_
      rw [someDoubt_concat, told]
      exact ⟨fun doubt => .inr ⟨doubt, other _ told nofun⟩,
        fun found => (found.resolve_left nofun).1⟩
  | doubted =>
    rw [told] at counts
    refine kept.unaccepted counts (other _ told nofun) model ?_ ?_
    · refine kept.below.trans ?_
      rw [someBelow_concat, told]
      exact ⟨.inr, fun found => found.resolve_left nofun⟩
    · rw [someDoubt_concat]
      exact ⟨fun _ => .inl told, fun _ => rfl⟩
  | other =>
    rw [told] at counts
    refine kept.unaccepted counts (other _ told nofun) model ?_ ?_
    · refine kept.below.trans ?_
      rw [someBelow_concat, told]
      exact ⟨.inr, fun found => found.resolve_left nofun⟩
    · refine kept.doubt.trans ?_
      rw [someDoubt_concat, told]
      exact ⟨fun doubt => .inr ⟨doubt, other _ told nofun⟩,
        fun found => (found.resolve_left nofun).1⟩

theorem kept_run (lines : List RolloutLine) : Kept lines (run lines) := by
  induction lines using List.reverseRecOn with
  | nil =>
    refine ⟨?_, fun kind => (Tokens.count_zero kind).symm, rfl, Nat.zero_le _, rfl, ?_, ?_, ?_⟩
    · intro kind
      exact (Tokens.count_zero kind).trans_le (Nat.zero_le _)
    · exact ⟨nofun, fun ⟨before, _, _, split, _⟩ => absurd split (by simp)⟩
    · exact ⟨nofun, fun ⟨before, _, _, split, _⟩ => absurd split (by simp)⟩
    · exact ⟨nofun, fun ⟨before, _, _, split, _⟩ => absurd split (by simp)⟩
  | append_singleton lines line ih =>
    rw [run_concat]
    exact ih.step rfl line

end AgentDeck.Usage
