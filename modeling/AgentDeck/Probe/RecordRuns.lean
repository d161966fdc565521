import AgentDeck.Probe.RecordEffects
import AgentDeck.Lib.Runs

/-!
# Runs of the records

A run of operations from a new generation's records, with a ledger of the liabilities beside it:
how many were raised, lowered and consumed. The count is exact, a record settles once, and the
writer scope, the stop and the quiet clock stay in step with the records.
-/

namespace AgentDeck.Probe

structure Ledger where
  records : Records
  fifo : HazardFifo
  raised : ℕ
  lowered : ℕ
  consumed : ℕ

namespace Ledger

def start (generation : ℕ) (policy : EcPolicy) (started : Instant) (cap : ℕ) : Ledger where
  records := .new generation policy started cap
  fifo := .default
  raised := 0
  lowered := 0
  consumed := 0

def step (l : Ledger) (op : RecordsOp) : Ledger :=
  let (answer, records, fifo) := op.run l.records l.fifo
  { records := records
    fifo := fifo
    raised := l.raised + answer.raised
    lowered := l.lowered + answer.lowered
    consumed := l.consumed + newlyConsumed l.records.records records.records }

structure Kept (l : Ledger) : Prop where
  listed : Listed l.records
  booked : Booked l.records l.fifo
  exact : l.records.count + l.lowered + l.consumed = l.raised

theorem start_kept (generation : ℕ) (policy : EcPolicy) (started : Instant) (cap : ℕ) :
    (start generation policy started cap).Kept where
  listed := ⟨List.nodup_nil, fun _ mem => absurd mem List.not_mem_nil, rfl⟩
  booked := ⟨rfl, rfl, rfl⟩
  exact := rfl

variable {l : Ledger}

theorem Kept.effect (kept : l.Kept) (op : RecordsOp) :
    Works l.records op (op.run l.records l.fifo).1 (l.step op).records (l.step op).fifo :=
  run_effect kept.listed kept.booked op

theorem Kept.step (kept : l.Kept) (op : RecordsOp) : (l.step op).Kept := by
  have effect := kept.effect op
  refine ⟨effect.reworks.listed, effect.rebooks.booked, ?_⟩
  have before := kept.exact
  have count := effect.reworks.count
  simp only [Ledger.step] at count ⊢
  omega

theorem run_kept (ops : List RecordsOp) (kept : l.Kept) : (ops.foldl step l).Kept :=
  Runs.run_keeps_always Kept (fun _ op kept => kept.step op) kept

/-- The record of a key stays in a run, from one state to the next. -/
def Stays (key : RecordKey) (l : Ledger) (ops : List RecordsOp) : Prop :=
  Runs.Along step (fun l op => ((l.step op).records.get key).isSome = true) l ops

/-- What settled and what was drained is final while the record stays. -/
structure Final (r r' : Record) : Prop where
  settled : r.settlement ≠ .opened → r'.settlement = r.settlement
  drained : r.drained = true → r'.drained = true ∧ r'.decision = r.decision ∧
    r'.settlement = r.settlement ∧ r'.drainedReport = r.drainedReport

theorem Final.refl (r : Record) : Final r r :=
  ⟨fun _ => rfl, fun is => ⟨is, rfl, rfl, rfl⟩⟩

theorem Final.trans {r r₁ r' : Record} (first : Final r r₁) (second : Final r₁ r') :
    Final r r' := by
  refine ⟨?_, ?_⟩
  · intro settled
    have same := first.settled settled
    rw [← same] at settled ⊢
    exact second.settled settled
  · intro drained
    rcases first.drained drained with ⟨drained₁, decision, settlement, report⟩
    rcases second.drained drained₁ with ⟨drained', decision', settlement', report'⟩
    refine ⟨drained', decision'.trans decision, ?_, report'.trans report⟩
    exact settlement'.trans settlement

theorem Kept.becomes (kept : l.Kept) (op : RecordsOp) {key : RecordKey} {r r' : Record}
    (before : l.records.get key = some r) (after : (l.step op).records.get key = some r') :
    Becomes l.records op (l.step op).records r r' := by
  have isKey := (Records.get_split before).1
  have isKey' := (Records.get_split after).1
  rcases (kept.effect op).reworks.origin r' (List.mem_of_find?_eq_some after) with
    ⟨was, comes, becomes⟩
  have same : was.key = r.key := becomes.key.symm.trans (isKey'.trans isKey.symm)
  rcases comes with mem | ⟨obs, now, _, missing, rfl⟩
  · rw [← eq_of_key kept.listed.keys (List.mem_of_find?_eq_some before) mem same]
    exact becomes
  · have key' : obs.key = key := same.trans isKey
    rw [key', before] at missing
    cases missing

theorem Kept.final {key : RecordKey} {ops : List RecordsOp} (kept : l.Kept)
    (stays : Stays key l ops) {r r' : Record} (before : l.records.get key = some r)
    (after : (ops.foldl Ledger.step l).records.get key = some r') : Final r r' := by
  induction ops generalizing l r with
  | nil =>
    have same : r = r' := Option.some.inj (before.symm.trans after)
    rw [same]
    exact Final.refl r'
  | cons op ops ih =>
    rcases Option.isSome_iff_exists.mp stays.1 with ⟨next, there⟩
    have becomes := kept.becomes op before there
    have first : Final r next := ⟨becomes.settled, becomes.drained⟩
    exact first.trans (ih (kept.step op) stays.2 there after)

end Ledger

open Ledger in
/-- The count of liabilities is exact, and a record settles once. -/
theorem liabilities_are_exact (generation : ℕ) (policy : EcPolicy) (started : Instant) (cap : ℕ)
    (ops : List RecordsOp) {l : Ledger}
    (reached : l = ops.foldl Ledger.step (Ledger.start generation policy started cap)) :
    l.records.count + l.lowered + l.consumed = l.raised ∧
    (∀ op, (l.step op).records.count + (op.run l.records l.fifo).1.lowered +
        newlyConsumed l.records.records (l.step op).records.records =
      l.records.count + (op.run l.records l.fifo).1.raised) ∧
    (∀ keepFrom, (l.records.history.compact keepFrom).count = l.records.count) ∧
    l.records.history.dropFront.count = l.records.count ∧
    (∀ later, ∀ key, ∀ r r', l.records.get key = some r → Stays key l later →
      (later.foldl Ledger.step l).records.get key = some r' → Final r r') ∧
    ∀ op, ∀ r' ∈ (l.step op).records.records, r'.settlement = .consumed →
      (∃ r ∈ l.records.records, r.key = r'.key ∧ r.settlement = .consumed) ∨
      ∃ r, (r ∈ l.records.records ∨ Joins l.records op r) ∧ r.key = r'.key ∧
        Consumes l.records op r r' := by
  have kept : l.Kept := by
    rw [reached]
    exact run_kept ops (start_kept generation policy started cap)
  refine ⟨kept.exact, ?_, ?_, ?_, ?_, ?_⟩
  · intro op
    exact (kept.effect op).reworks.count
  · intro keepFrom
    exact CountHistory.count_compact _ keepFrom
  · exact CountHistory.count_dropFront _
  · intro later key r r' before stays after
    exact kept.final stays before after
  · intro op r' mem consumed
    rcases (kept.effect op).reworks.origin r' mem with ⟨r, comes, becomes⟩
    rcases becomes.consumed consumed with before | consumes
    · rcases comes with there | ⟨obs, now, _, _, rfl⟩
      · exact .inl ⟨r, there, becomes.key.symm, before⟩
      · exact Settlement.noConfusion before
    · exact .inr ⟨r, comes, becomes.key.symm, consumes⟩

/-- A first decision, armed, of the agent's own helper. -/
def armedSighting : Sighting where
  generation := 1
  key := 7
  channel := .ipc
  attribution := .owned
  claim := none
  decision := some .armed
  segSeen := none
  nativeSeen := none
  birthFloor := 3

theorem liabilities_are_exact_after_armed :
    let l := [RecordsOp.raise 1 5, .observe armedSighting 10].foldl Ledger.step
      (Ledger.start 1 .hold 0 recordCap)
    l.raised = 1 ∧ l.consumed = 1 ∧ l.records.count + l.lowered + l.consumed = l.raised :=
  ⟨by decide, by decide, (liabilities_are_exact 1 .hold 0 recordCap _ rfl).1⟩

namespace Ledger

/-- What a run keeps of the scope's cause and of the first stop. -/
structure Later (l l' : Ledger) : Prop where
  cause : ∀ cause ∈ l.records.scope.cause, ∃ cause' ∈ l'.records.scope.cause, cause ≤ cause'
  stopped : ∀ stop ∈ l.records.stopped, ∃ stop' ∈ l'.records.stopped,
    stop'.cause = stop.cause ∧ stop'.source = stop.source

theorem Kept.later (ops : List RecordsOp) {l : Ledger} (kept : l.Kept) :
    Later l (ops.foldl Ledger.step l) := by
  induction ops generalizing l with
  | nil =>
    refine ⟨fun cause set => ⟨cause, set, Nat.le_refl _⟩, ?_⟩
    exact fun stop set => ⟨stop, set, rfl, rfl⟩
  | cons op ops ih =>
    have first := (kept.effect op).rebooks
    have rest := ih (kept.step op)
    refine ⟨?_, ?_⟩
    · intro cause set
      rcases first.cause cause set with ⟨next, there, rises⟩
      rcases rest.cause next there with ⟨last, here, rises'⟩
      exact ⟨last, here, Nat.le_trans rises rises'⟩
    · intro stop set
      rcases first.stopped stop set with ⟨next, there, cause, source⟩
      rcases rest.stopped next there with ⟨last, here, cause', source'⟩
      exact ⟨last, here, cause'.trans cause, source'.trans source⟩

/-- The scope, the books and the quiet clock follow the records. -/
structure InStep (l : Ledger) : Prop where
  undecided : l.records.scope.undecided = l.records.records.countP Record.undecided
  flag : ∀ r ∈ l.records.records, r.undecided = (r.decision.isNone && !r.drained)
  leaves : ∀ r ∈ l.records.records, r.undecided = true → 1 ≤ l.records.scope.undecided
  stopped : l.records.stopped.isSome = l.records.scope.cause.isSome
  pendingSince : l.records.pendingSince.isSome = true ↔ l.records.scope.state = .pending
  paused : l.fifo.paused = l.records.records.any fun r => decide (r.completion = .pending)

theorem Kept.inStep {l : Ledger} (kept : l.Kept) : l.InStep where
  undecided := kept.listed.undecided
  flag r mem := (kept.listed.flagged r mem).undecided
  leaves r mem undecided := by
    rw [kept.listed.undecided]
    exact List.countP_pos_iff.mpr ⟨r, mem, undecided⟩
  stopped := kept.booked.stopped
  pendingSince := by
    rw [kept.booked.pendingSince, decide_eq_true_eq]
  paused := kept.booked.paused

end Ledger

/-- The writer scope, the completions and the quiet clock stay in step. -/
theorem scope_and_clock_stay_in_step (generation : ℕ) (policy : EcPolicy) (started : Instant)
    (cap : ℕ) (ops : List RecordsOp) {l : Ledger}
    (reached : l = ops.foldl Ledger.step (Ledger.start generation policy started cap)) :
    l.InStep ∧ (∀ later : List RecordsOp, Ledger.Later l (later.foldl Ledger.step l)) ∧
    ∀ op,
      (l.records.scope.cause = none → ∀ cause ∈ (l.step op).records.scope.cause,
        ∃ stop ∈ (l.step op).records.stopped, stop.cause = cause) ∧
      ((op.run l.records l.fifo).1.rescan = true ↔
        l.records.scope.state = .pending ∧ (l.step op).records.scope.state = .closed) ∧
      (∀ r' ∈ (l.step op).records.records, ∃ r,
        (r ∈ l.records.records ∨ Joins l.records op r) ∧ r.key = r'.key ∧
          (r'.completion = r.completion ∨
            r.completion = .pending ∧ Completes l.records (l.step op).records r')) ∧
      ∀ r ∈ l.records.records, (∃ r' ∈ (l.step op).records.records, r'.key = r.key) ∨
        (∃ generation now, op = .prune generation r.key true now) ∧ r.settlement ≠ .opened ∧
          r.drained = true ∧ r.completion ≠ .pending := by
  have kept : l.Kept := by
    rw [reached]
    exact Ledger.run_kept ops (Ledger.start_kept generation policy started cap)
  refine ⟨kept.inStep, fun later => kept.later later, ?_⟩
  intro op
  have effect := kept.effect op
  refine ⟨effect.rebooks.first, ?_, ?_, effect.reworks.fate⟩
  · rw [effect.rebooks.rescan, Bool.and_eq_true, decide_eq_true_eq, decide_eq_true_eq]
  · intro r' mem
    rcases effect.reworks.origin r' mem with ⟨r, comes, becomes⟩
    exact ⟨r, comes, becomes.key.symm, becomes.completion⟩

theorem scope_and_clock_stay_in_step_after_armed :
    let l := [RecordsOp.raise 1 5].foldl Ledger.step (Ledger.start 1 .hold 0 recordCap)
    l.InStep ∧ (l.step (.observe armedSighting 10)).fifo.paused = true :=
  ⟨(scope_and_clock_stay_in_step 1 .hold 0 recordCap _ rfl).1, by decide⟩

end AgentDeck.Probe
