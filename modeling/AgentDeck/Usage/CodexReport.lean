import AgentDeck.Usage.CodexRuns

/-!
# What is reported of a Codex rollout

A summary holds few enough models to pass the per-model fold as it is, so its numbers are reported
as they are, all of them or none.
-/

namespace AgentDeck.Usage

open CodexRolloutSummary

/-! ## Usage already per model -/

theorem insertEntry_of_lt {ν : Type} {key : Model} {value : ν} {entries : List (Model × ν)}
    (before : ∀ entry ∈ entries, entry.1 < key) :
    SortedMap.insertEntry key value entries = entries ++ [(key, value)] := by
  induction entries with
  | nil => rfl
  | cons entry rest ih =>
    have less : entry.1 < key := before entry List.mem_cons_self
    simp only [SortedMap.insertEntry, if_neg less.not_gt, if_neg less.ne', List.cons_append]
    rw [ih fun other among => before other (List.mem_cons_of_mem entry among)]

theorem add_after {acc : UsageAcc} {model : Model} (usage : Field Tokens × Field MicroUsd)
    (before : ∀ entry ∈ acc.byModel.entries, entry.1 < model)
    (room : named acc.byModel + (if model = ⊥ then 0 else 1) ≤ maxModels) :
    (acc.add model usage.1 usage.2).1.byModel.entries =
      acc.byModel.entries ++ [(model, usage)] := by
  have absent : acc.byModel.get? model = none :=
    SortedMap.lookup_eq_none_of_forall_ne fun entry among => (before entry among).ne
  have own : capped acc.byModel model = model := by
    rw [capped_eq]
    split
    · rename_i full
      by_cases missing : model = ⊥
      · exact missing.symm
      · rw [if_neg missing] at room
        exact absurd full.1 (by omega)
    · rfl
  unfold UsageAcc.add
  simp only [own, absent]
  exact insertEntry_of_lt before

theorem fold_entries (rest : List (Model × Field Tokens × Field MicroUsd)) (acc : UsageAcc)
    (sorted : (acc.byModel.entries ++ rest).Pairwise fun left right => left.1 < right.1)
    (bounded : ((acc.byModel.entries ++ rest).map
      fun entry => if entry.1 = ⊥ then 0 else 1).sum ≤ maxModels) :
    (rest.foldl (fun acc entry => (acc.add entry.1 entry.2.1 entry.2.2).1) acc).byModel.entries =
      acc.byModel.entries ++ rest := by
  induction rest generalizing acc with
  | nil => exact (List.append_nil _).symm
  | cons entry rest ih =>
    have before : ∀ other ∈ acc.byModel.entries, other.1 < entry.1 := by
      intro other among
      exact (List.pairwise_append.mp sorted).2.2 other among entry List.mem_cons_self
    have room : named acc.byModel + (if entry.1 = ⊥ then 0 else 1) ≤ maxModels := by
      rw [List.map_append, List.sum_append, List.map_cons, List.sum_cons] at bounded
      simp only [named, SortedMap.total]
      omega
    have added := add_after entry.2 before room
    rw [List.foldl_cons, ih (acc.add entry.1 entry.2.1 entry.2.2).1]
    · rw [added, List.append_assoc]
      rfl
    · rw [added, List.append_assoc]
      exact sorted
    · rw [added, List.append_assoc]
      exact bounded

theorem perModel_entries (byModel : SortedMap Model (Field Tokens × Field MicroUsd))
    (bounded : named byModel ≤ maxModels) (nonempty : byModel.entries.isEmpty = false) :
    perModel byModel.entries =
      byModel.entries.map fun entry =>
        { model := entry.1, tokens := entry.2.1, cost := entry.2.2 } := by
  have folded := fold_entries byModel.entries UsageAcc.new byModel.sorted bounded
  simp only [perModel, UsageAcc.finish]
  rw [folded, if_neg]
  · rfl
  · exact Bool.eq_false_iff.mp nonempty

/-! ## The report -/

def ReportsTokens (usage : AgentUsage) : Prop :=
  ∃ entry ∈ usage.models, ∃ tokens, entry.tokens = .providerReported tokens

def reportedSum (kind : Count) (usage : AgentUsage) : ℕ :=
  (usage.models.map fun entry =>
    match entry.tokens with
    | .providerReported tokens => tokens.count kind
    | _ => 0).sum

variable {lines : List RolloutLine} {s : CodexRolloutSummary}

section

variable (kept : Kept lines s)

include kept

theorem models_of_accepted (accepted : s.lastTotal.isSome) :
    (fromCodex s).models = s.tokensByModel.entries.map fun entry =>
      { model := entry.1
        tokens := (codexEntry s entry.1 entry.2).2.1
        cost := (codexEntry s entry.1 entry.2).2.2 } := by
  have nonempty : s.tokensByModel.entries.isEmpty = false := by
    rw [kept.started]
    cases last : s.lastTotal with
    | none =>
      rw [last] at accepted
      cases accepted
    | some _ => rfl
  have passes := perModel_entries
    (s.tokensByModel.map fun model tokens => (codexEntry s model tokens).2)
    (by
      simp only [named, SortedMap.total_map]
      exact kept.bounded)
    (by
      simp only [SortedMap.map, List.isEmpty_map]
      exact nonempty)
  simp only [fromCodex]
  rw [if_neg fun both => Bool.eq_false_iff.mp nonempty both.2]
  refine Eq.trans ?_ (passes.trans ?_)
  · rfl
  · simp only [SortedMap.map, List.map_map]
    rfl

theorem models_of_none (absent : s.lastTotal.isSome = false) :
    ∃ reason, (fromCodex s).models = usageUnavailable reason := by
  have empty : s.tokensByModel.entries = [] := by
    rw [← List.isEmpty_iff, kept.started]
    cases last : s.lastTotal with
    | none => rfl
    | some _ =>
      rw [last] at absent
      cases absent
  simp only [fromCodex]
  split
  · exact ⟨.unrecognizedFormat, rfl⟩
  · refine ⟨.notRecorded, ?_⟩
    rw [empty]
    rfl

theorem reports_iff :
    ReportsTokens (fromCodex s) ↔ s.lastTotal.isSome = true ∧ s.tokensIncomplete = false ∧
      s.totalUnresolved = false := by
  constructor
  · rintro ⟨entry, among, tokens, reported⟩
    cases accepted : s.lastTotal.isSome with
    | false =>
      rcases models_of_none kept accepted with ⟨reason, same⟩
      rw [same, usageUnavailable, List.mem_singleton] at among
      rw [among] at reported
      cases reported
    | true =>
      rw [models_of_accepted kept accepted, List.mem_map] at among
      rcases among with ⟨held, _, same⟩
      rw [← same] at reported
      simp only [codexEntry] at reported
      split at reported
      · cases reported
      · rename_i sure
        rw [Bool.or_eq_true, not_or, Bool.not_eq_true, Bool.not_eq_true] at sure
        exact ⟨rfl, sure⟩
  · rintro ⟨accepted, complete, resolved⟩
    have models := models_of_accepted kept accepted
    have nonempty := kept.started
    cases entries : s.tokensByModel.entries with
    | nil =>
      rw [entries] at nonempty
      cases last : s.lastTotal with
      | none =>
        rw [last] at accepted
        cases accepted
      | some _ =>
        rw [last] at nonempty
        cases nonempty
    | cons entry rest =>
      refine ⟨{ model := entry.1
                tokens := (codexEntry s entry.1 entry.2).2.1
                cost := (codexEntry s entry.1 entry.2).2.2 }, ?_, entry.2, ?_⟩
      · rw [models, entries]
        exact List.mem_cons_self
      · simp only [codexEntry, complete, resolved, Bool.or_self, Bool.false_eq_true, if_false]

theorem reportedSum_eq (reports : ReportsTokens (fromCodex s)) (kind : Count) :
    reportedSum kind (fromCodex s) = totalOf kind s.lastTotal := by
  rcases (reports_iff kept).mp reports with ⟨accepted, complete, resolved⟩
  rw [← kept.sum kind, reportedSum, models_of_accepted kept accepted, List.map_map]
  simp only [codexEntry, complete, resolved]
  rfl

end

/-! ## After any lines -/

/-- The model an accepted growth is credited to: the one last named, unless as many others are held
as a run holds. -/
def creditedModel (byModel : SortedMap Model Tokens) (lines : List RolloutLine) : Model :=
  if maxModels ≤ named byModel ∧ (byModel.get? (lastNamed lines)).isNone then ⊥ else lastNamed lines

def heldCount (kind : Count) (byModel : SortedMap Model Tokens) (model : Model) : ℕ :=
  ((byModel.get? model).getD .zero).count kind

/-- What holds of a rollout's summary after these lines, and of the next line. -/
structure AddsUp (lines : List RolloutLine) (s : CodexRolloutSummary) : Prop where
  sum : ∀ kind, sumOf kind s.tokensByModel = totalOf kind s.lastTotal
  bounded : named s.tokensByModel ≤ maxModels
  grows : ∀ line kind, totalOf kind s.lastTotal ≤ totalOf kind (s.step line).lastTotal
  precise : ∀ line total, verdictAt lines line = .accepted total → ∀ model kind,
    heldCount kind s.tokensByModel model + (s.growth total).count kind ≤ u64Max
  credited : ∀ line total, verdictAt lines line = .accepted total → ∀ model kind,
    heldCount kind (s.step line).tokensByModel model =
      heldCount kind s.tokensByModel model +
        (if model = creditedModel s.tokensByModel lines then (s.growth total).count kind else 0)
  others : ∀ line, ¬ IsAccepted lines line → (s.step line).tokensByModel = s.tokensByModel
  reports : ReportsTokens (fromCodex s) ↔
    SomeAccepted lines ∧ ¬ SomeBelow lines ∧ ¬ SomeDoubt lines
  reported : ReportsTokens (fromCodex s) →
    ∀ kind, reportedSum kind (fromCodex s) = totalOf kind s.lastTotal

theorem heldCount_credit {delta : Tokens} {model : Model} {kind : Count}
    (fits : heldCount kind s.tokensByModel (capped s.tokensByModel s.currentModel) +
      delta.count kind ≤ u64Max) :
    heldCount kind (s.credit delta).tokensByModel model =
      heldCount kind s.tokensByModel model +
        (if model = capped s.tokensByModel s.currentModel then delta.count kind else 0) := by
  simp only [credit, heldCount, SortedMap.get?_insert]
  by_cases same : model = capped s.tokensByModel s.currentModel
  · rw [if_pos same, if_pos same, same]
    exact Tokens.count_add_of_le fits
  · rw [if_neg same, if_neg same, Nat.add_zero]

/-- For every sequence of lines, the counts add up to the last total, each growth goes to the model
last named, and numbers are reported exactly where nothing is in doubt. -/
theorem codex_adds_up (lines : List RolloutLine) : AddsUp lines (run lines) := by
  have kept := kept_run lines
  generalize here : run lines = s at kept
  have same : ∀ line, verdict s.lastTotal line = verdictAt lines line := by
    intro line
    rw [← here]
    rfl
  have room : ∀ line total, verdictAt lines line = .accepted total → ∀ model kind,
      heldCount kind s.tokensByModel model + (s.growth total).count kind ≤ u64Max := by
    intro line total told model kind
    rcases accepted_of_verdict ((same line).trans told) with ⟨fits, least⟩
    have held := count_le_sumOf s.tokensByModel model kind
    have grown := growth_count least kind
    have most := fits kind
    rw [kept.sum kind] at held
    simp only [heldCount]
    omega
  refine ⟨kept.sum, kept.bounded, ?_, room, ?_, ?_, ?_, reportedSum_eq kept⟩
  · intro line kind
    have counts := counted_step s line
    rw [same line] at counts
    cases told : verdictAt lines line with
    | accepted total =>
      rw [told] at counts
      simp only [counted, Counted.mk.injEq] at counts
      rw [counts.2.1, (accept_flags s total _).1]
      exact (accepted_of_verdict ((same line).trans told)).2 kind
    | below | doubted | other =>
      rw [told] at counts
      simp only [counted, Counted.mk.injEq] at counts
      rw [counts.2.1]
  · intro line total told model kind
    have counts := counted_step s line
    rw [same line, told] at counts
    simp only [counted, Counted.mk.injEq] at counts
    rw [counts.1]
    have key : capped s.tokensByModel s.currentModel = creditedModel s.tokensByModel lines := by
      rw [capped_eq, kept.current, creditedModel]
    unfold accept
    simp only []
    split
    · rename_i nothing
      rw [of_decide_eq_true nothing.1, Tokens.count_zero]
      simp only [ite_self, Nat.add_zero]
    · rw [heldCount_credit]
      · rw [key]
      · exact room line total told _ kind
  · intro line other
    have counts := counted_step s line
    rw [same line] at counts
    cases told : verdictAt lines line with
    | accepted total => exact absurd ⟨total, told⟩ other
    | below | doubted | other =>
      rw [told] at counts
      simp only [counted, Counted.mk.injEq] at counts
      exact counts.1
  · rw [reports_iff kept, kept.accepted, ← Bool.not_eq_true, ← Bool.not_eq_true, kept.below,
      kept.doubt]

end AgentDeck.Usage
