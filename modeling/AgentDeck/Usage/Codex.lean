import AgentDeck.Usage.Tokens

/-!
# A Codex rollout's usage

`CodexRolloutSummary` and `from_codex` of `src/telemetry/accounting.rs`. A rollout reports a running
total; its growth is credited to the model the turn named. A total that cannot be used leaves the
baseline where it was, and two flags say whether the counts may stop short of the rollout's own.
-/

namespace AgentDeck.Usage

structure CodexRateSample where
  plan : Model
  usedBp : ℕ
  windowMinutes : ℕ
  resetsAt : ℤ
  deriving DecidableEq

structure QuotaDelta where
  plan : Model
  windowMinutes : ℕ
  resetsAt : ℤ
  fromBp : ℕ
  toBp : ℕ

inductive AgentTurnEnd where
  | completed
  | failed (kind : Model) (status : Option ℕ)
  | interrupted
  | midTurn
  | unknown

/-- Why `next` cannot follow `prev` in one simple quota delta, if it cannot. -/
def quotaBreakOf (prev next : CodexRateSample) : Option Unavailable :=
  if prev.resetsAt ≠ next.resetsAt ∨ prev.windowMinutes ≠ next.windowMinutes then some .windowReset
  else if prev.plan ≠ next.plan then some .planChanged
  else if next.usedBp < prev.usedBp then some .quotaDecreased
  else none

/-- The counts of a record's `total_token_usage`, each as the rollout has it. -/
structure CodexTokenUsage where
  inputTokens : Option UInt64
  cachedInputTokens : Option UInt64
  cacheWriteInputTokens : Option UInt64
  outputTokens : Option UInt64

namespace CodexTokenUsage

/-- A cache count; one that is missing is zero where it was zero before. -/
def cache (value : Option UInt64) (before : ℕ) : Option ℕ :=
  match value with
  | some value => some value.toNat
  | none => if before = 0 then some 0 else none

/-- The total, or `none` when it is incomplete or inconsistent. -/
def usable (usage : CodexTokenUsage) (prev : Option Tokens) : Option Tokens := do
  let input ← usage.inputTokens
  let output ← usage.outputTokens
  let cacheRead ← cache usage.cachedInputTokens (prev.elim 0 Tokens.cacheRead)
  let cacheWrite ← cache usage.cacheWriteInputTokens (prev.elim 0 Tokens.cacheWrite)
  let total : Tokens :=
    { input := input.toNat, output := output.toNat, cacheRead := cacheRead,
      cacheWrite := cacheWrite }
  if total.isConsistent then some total else none

end CodexTokenUsage

/-- `NarrowRecord`: a candidate line, deserialised. `kind` and `payloadKind` are its types, `error`
the payload's error with its kind and status, and `rateLimits` what `NarrowRateLimits::sample`
reads. -/
structure NarrowRecord where
  kind : Option Text
  payloadKind : Option Text
  model : Option Text
  totalTokenUsage : Option CodexTokenUsage
  rateLimits : Option CodexRateSample
  error : Option (Option Text × Option ℕ)

/-- A line of the rollout, as its reader gives it to the summary. A line that may have been a record
and does not deserialise, or is too long to be buffered, is `malformed`. -/
inductive RolloutLine where
  | record (record : NarrowRecord)
  | malformed

structure ReaderStats where
  unusableTotals : ℕ
  regressions : ℕ
  modelsOverflowed : ℕ

structure CodexRolloutSummary where
  tokensByModel : SortedMap Model Tokens
  tokensIncomplete : Bool
  totalUnresolved : Bool
  quotaFirst : Option CodexRateSample
  quotaLast : Option CodexRateSample
  quotaBreak : Option Unavailable
  lastTurn : Option AgentTurnEnd
  isMalformed : Bool
  currentModel : Model
  lastTotal : Option Tokens
  stats : ReaderStats

def turnContext : Text := "turn_context".toList
def eventMsg : Text := "event_msg".toList
def tokenCount : Text := "token_count".toList
def taskStarted : Text := "task_started".toList
def taskComplete : Text := "task_complete".toList
def turnAborted : Text := "turn_aborted".toList

namespace CodexRolloutSummary

def new : CodexRolloutSummary :=
  { tokensByModel := .empty, tokensIncomplete := false, totalUnresolved := false,
    quotaFirst := none,
    quotaLast := none, quotaBreak := none, lastTurn := none, isMalformed := false,
    currentModel := ⊥, lastTotal := none,
    stats := { unusableTotals := 0, regressions := 0, modelsOverflowed := 0 } }

variable (s : CodexRolloutSummary)

def malformed : CodexRolloutSummary :=
  { s with
    isMalformed := true
    totalUnresolved := true
    currentModel := ⊥
    lastTurn := some .unknown }

/-- A total the reader cannot use. -/
def unusableTotal : CodexRolloutSummary :=
  { s with totalUnresolved := true,
           stats := { s.stats with unusableTotals := s.stats.unusableTotals + 1 } }

/-- A usable total below the baseline in some count. -/
def regressed : CodexRolloutSummary :=
  { s with tokensIncomplete := true,
           stats := { s.stats with regressions := s.stats.regressions + 1 } }

def credit (delta : Tokens) : CodexRolloutSummary :=
  let key := capped s.tokensByModel s.currentModel
  let overflowed := if key = ⊥ ∧ s.currentModel ≠ ⊥ then 1 else 0
  { s with
    tokensByModel :=
      s.tokensByModel.insert key (((s.tokensByModel.get? key).getD .zero).add delta)
    stats := { s.stats with modelsOverflowed := s.stats.modelsOverflowed + overflowed } }

def accept (total delta : Tokens) : CodexRolloutSummary :=
  let s := { s with lastTotal := some total, totalUnresolved := false }
  if delta.isZero ∧ ¬ s.tokensByModel.entries.isEmpty then s else s.credit delta

/-- Credits the growth of the running total to the current model. -/
def observeTotal (usage : CodexTokenUsage) : CodexRolloutSummary :=
  match usage.usable s.lastTotal with
  | none => s.unusableTotal
  | some total =>
    match s.lastTotal with
    | none => s.accept total total
    | some prev =>
      match total.since prev with
      | some delta => s.accept total delta
      | none => s.regressed

/-- The quota fields after a sample. -/
def observeSample (sample : CodexRateSample) : CodexRolloutSummary :=
  { s with
    quotaBreak := match s.quotaLast with
      | some last => s.quotaBreak.or (quotaBreakOf last sample)
      | none => s.quotaBreak
    quotaFirst := s.quotaFirst.or (some sample)
    quotaLast := some sample }

/-- The total of a `token_count` record. None is reported before the first reply; one missing later
is a total the reader cannot read. -/
def observeReported (total : Option CodexTokenUsage) : CodexRolloutSummary :=
  match total with
  | some usage => s.observeTotal usage
  | none => if s.lastTotal.isSome then s.unusableTotal else s

def observeTokenCount (record : NarrowRecord) : CodexRolloutSummary :=
  let s := s.observeReported record.totalTokenUsage
  match record.rateLimits with
  | some sample => s.observeSample sample
  | none => s

/-- How a failed turn ends, and a completed one. -/
def completedTurn (record : NarrowRecord) : AgentTurnEnd :=
  match record.error with
  | some (kind, status) => .failed (Model.new kind) status
  | none => .completed

def observe (record : NarrowRecord) : CodexRolloutSummary :=
  if record.kind = some turnContext then { s with currentModel := Model.new record.model }
  else if record.kind = some eventMsg then
    if record.payloadKind = some tokenCount then s.observeTokenCount record
    else if record.payloadKind = some taskStarted then { s with lastTurn := some .midTurn }
    else if record.payloadKind = some taskComplete then
      { s with lastTurn := some (completedTurn record) }
    else if record.payloadKind = some turnAborted then { s with lastTurn := some .interrupted }
    else s
  else s

def step : RolloutLine → CodexRolloutSummary
  | .record record => s.observe record
  | .malformed => s.malformed

def run (lines : List RolloutLine) : CodexRolloutSummary := lines.foldl step new

end CodexRolloutSummary

/-! ## The record -/

structure AgentUsage where
  models : List ModelUsage
  quota : Field QuotaDelta
  lastTurn : Option AgentTurnEnd

/-- The quota field: one delta between the first sample and the last, where nothing breaks it. -/
def codexQuota (summary : CodexRolloutSummary) : Field QuotaDelta :=
  match summary.quotaFirst, summary.quotaLast with
  | some first, some last =>
    match summary.quotaBreak.or (quotaBreakOf first last) with
    | some reason => .unavailable reason
    | none =>
      .providerReported
        { plan := last.plan, windowMinutes := last.windowMinutes, resetsAt := last.resetsAt,
          fromBp := first.usedBp, toBp := last.usedBp }
  | _, _ =>
    if summary.isMalformed then .unavailable .unrecognizedFormat else .unavailable .notRecorded

/-- A model's entry: its counts, unless they may stop short of the rollout's own. -/
def codexEntry (summary : CodexRolloutSummary) (model : Model) (tokens : Tokens) :
    Model × Field Tokens × Field MicroUsd :=
  (model,
    if summary.tokensIncomplete || summary.totalUnresolved then .unavailable .incomplete
    else .providerReported tokens,
    .unavailable .noChannel)

def fromCodex (summary : CodexRolloutSummary) : AgentUsage :=
  { models :=
      if summary.isMalformed ∧ summary.tokensByModel.entries.isEmpty then
        usageUnavailable .unrecognizedFormat
      else perModel (summary.tokensByModel.entries.map fun entry =>
        codexEntry summary entry.1 entry.2)
    quota := codexQuota summary
    lastTurn := summary.lastTurn }

end AgentDeck.Usage
