import AgentDeck.Ci.Rounds
import AgentDeck.Text
import Mathlib.Data.List.MinMax
import Mathlib.Data.Prod.Lex

/-!
# The CI state of a pull request

`PrCi` of `src/telemetry/ci.rs`, and the tracker's `observe_ci`, `resume_ci`, `release_ci` and
`record_ci` of `src/telemetry/tracker.rs`. Runs hold pull requests through their cards; the shared
state of one is folded from the reports of all of them, released when the last lets go and resumed
when one takes it again.

Besides what the source keeps, the tracker has a `ledger` of the intervals recorded, each with the
span that was emitted with it. The entries of one pull request are told apart by how often it was
taken up with nothing kept of it.
-/

namespace AgentDeck.Ci

/-! ## Checks -/

inductive ChecksState where
  | pending
  | passing
  | failing
  | unknown
  deriving DecidableEq

structure PullRequestChecks where
  state : ChecksState
  passing : ℕ
  failing : ℕ
  pending : ℕ
  skipped : ℕ
  deriving DecidableEq

inductive CiState where
  | pending
  | passing
  | failing
  deriving DecidableEq

def CiState.fromChecks : ChecksState → Option CiState
  | .pending => some .pending
  | .passing => some .passing
  | .failing => some .failing
  | .unknown => none

structure OpenStretch where
  spanId : ℕ
  start : ℕ
  pr : ℕ
  deriving DecidableEq

inductive CiEffect where
  | change (old : Option CiState) (new : CiState) (pr : ℕ)
  | ended (stretch : OpenStretch) (result : Option CiState) (checks : Option PullRequestChecks)
  deriving DecidableEq

structure PrCi where
  pr : Option ℕ
  last : Option CiState
  lastChecks : Option PullRequestChecks
  stretch : Option OpenStretch
  rounds : ℕ
  failures : ℕ
  deriving DecidableEq

namespace PrCi

def fresh : PrCi := ⟨none, none, none, none, 0, 0⟩

def isOpen (ci : PrCi) : Bool := ci.stretch.isSome

/-- The result the checks last showed, when the last thing they showed was one. -/
def settled (ci : PrCi) : Option CiState := ci.last.filter fun state => state ≠ .pending

def resumed (pr : ℕ) (settled : CiState) : PrCi :=
  { fresh with pr := some pr, last := some settled }

def endOpen (ci : PrCi) (result : Option CiState) : PrCi × Option CiEffect :=
  ({ ci with stretch := none },
    ci.stretch.map fun stretch => .ended stretch result ci.lastChecks)

def changed (ci : PrCi) (pr : ℕ) (checks : PullRequestChecks) (state : CiState) (now spanId : ℕ) :
    PrCi × List CiEffect :=
  let change := CiEffect.change ci.last state pr
  let ci := { ci with last := some state }
  match state with
  | .pending =>
    (if ci.stretch.isNone then { ci with stretch := some ⟨spanId, now, pr⟩ } else ci, [change])
  | _ =>
    match ci.stretch with
    | none => (ci, [change])
    | some stretch =>
      ({ ci with
          stretch := none
          rounds := ci.rounds + 1
          failures := if state = .failing then ci.failures + 1 else ci.failures },
        [change, .ended stretch (some state) (some checks)])

def observe (ci : PrCi) (pr : Option ℕ) (checks : Option PullRequestChecks) (now spanId : ℕ) :
    PrCi × List CiEffect :=
  let switched : PrCi × List CiEffect :=
    if pr ≠ ci.pr then
      let closed := ci.endOpen none
      ({ closed.1 with pr := pr, last := none, lastChecks := none }, closed.2.toList)
    else (ci, [])
  match pr, checks with
  | some pr, some checks =>
    match CiState.fromChecks checks.state with
    | none => switched
    | some state =>
      let noted := { switched.1 with lastChecks := some checks }
      if noted.last = some state then (noted, switched.2)
      else
        let moved := noted.changed pr checks state now spanId
        (moved.1, switched.2 ++ moved.2)
  | _, _ => switched

end PrCi

/-! ## The tracker -/

structure PrKey where
  repository : Text
  number : ℕ
  deriving DecidableEq

def PrKey.rank (key : PrKey) : Text ×ₗ ℕ := toLex (key.repository, key.number)

theorem PrKey.rank_injective : Function.Injective PrKey.rank := by
  intro left right same
  cases left
  cases right
  simpa [PrKey.rank] using same

instance : LinearOrder PrKey := LinearOrder.lift' PrKey.rank PrKey.rank_injective

abbrev Attributes := List (Text × Text)

structure Run where
  runId : Text
  traceId : ℕ
  spanId : ℕ
  identity : Attributes
  ciPr : Option PrKey
  ciSeen : Option CiState
  ciPendingSince : Option (ℕ × ℕ)
  ciRounds : ℕ
  ciFailures : ℕ
  deriving DecidableEq

structure StretchOpener where
  runId : Text
  traceId : ℕ
  spanId : ℕ
  identity : Attributes
  deriving DecidableEq

structure SharedCi where
  ci : PrCi
  revision : ℕ
  openSince : ℕ
  rounds : RecordedRounds
  holders : List Text
  opener : Option StretchOpener
  deriving DecidableEq

def SharedCi.fresh : SharedCi := ⟨.fresh, 0, 0, .empty, [], none⟩

structure ReleasedCi where
  revision : ℕ
  settled : Option CiState
  rounds : RecordedRounds
  deriving DecidableEq

structure CiSpan where
  traceId : ℕ
  parent : ℕ
  identity : Attributes
  spanId : ℕ
  start : ℕ
  finish : ℕ
  pr : ℕ
  result : Option CiState
  checks : Option PullRequestChecks
  deriving DecidableEq

def ciSpan (place : ℕ × ℕ × Attributes) (spanId : ℕ) (times : ℕ × ℕ) (pr : ℕ)
    (result : Option CiState) (checks : Option PullRequestChecks) : CiSpan :=
  ⟨place.1, place.2.1, place.2.2, spanId, times.1, max times.2 times.1, pr, result, checks⟩

/-- A `deck.ci.change` event, with the run it is on. -/
structure CiChange where
  runId : Text
  old : Option CiState
  new : CiState
  pr : ℕ
  time : ℕ
  deriving DecidableEq

/-- An interval recorded for a pull request, and the span emitted with it. -/
structure Recorded where
  key : PrKey
  epoch : ℕ
  interval : ℕ × ℕ
  span : Option CiSpan
  deriving DecidableEq

def Run.started (runId : Text) (traceId spanId : ℕ) (identity : Attributes) : Run :=
  ⟨runId, traceId, spanId, identity, none, none, none, 0, 0⟩

/-- What the run's own card shows; the round it ended, from the revision and time its pending
began. -/
def Run.see (run : Run) (seen : Option CiState) (revision now : ℕ) :
    Run × Option ((ℕ × ℕ) × CiState) :=
  match seen with
  | none => (run, none)
  | some state =>
    if run.ciSeen = some .pending ∧ state ≠ .pending then
      ({ run with
          ciRounds := run.ciRounds + 1
          ciFailures := if state = .failing then run.ciFailures + 1 else run.ciFailures
          ciPendingSince := none
          ciSeen := some state },
        run.ciPendingSince.map fun since => (since, state))
    else if state = .pending ∧ run.ciSeen ≠ some .pending then
      ({ run with ciPendingSince := some (revision, now), ciSeen := some state }, none)
    else ({ run with ciSeen := some state }, none)

structure Report where
  pane : Text
  key : Option PrKey
  checks : Option PullRequestChecks
  revision : ℕ
  now : ℕ
  /-- The ids drawn for a stretch that opens and for a round only this card saw. -/
  spanIds : ℕ × ℕ
  deriving DecidableEq

def Report.seen (report : Report) : Option CiState :=
  report.checks.bind fun checks => CiState.fromChecks checks.state

def maxReleasedPullRequests : ℕ := 256

structure Tracker where
  runs : SortedMap Text Run
  replaced : List Run
  ci : SortedMap PrKey SharedCi
  released : SortedMap PrKey ReleasedCi
  finished : List CiSpan
  changes : List CiChange
  ledger : List Recorded
  epochs : PrKey → ℕ

namespace Tracker

def new : Tracker where
  runs := SortedMap.empty
  replaced := []
  ci := SortedMap.empty
  released := SortedMap.empty
  finished := []
  changes := []
  ledger := []
  epochs := fun _ => 0

variable (tracker : Tracker)

/-- The open run of that id, replaced and waiting for its end or not. -/
def runById (runId : Text) : Option Run :=
  ((tracker.runs.entries.map Prod.snd) ++ tracker.replaced).find? fun run => run.runId = runId

/-- `RecordedRounds::record`, noted in the ledger with the span that goes with it. -/
def recordRound (key : PrKey) (rounds : RecordedRounds) (interval : ℕ × ℕ) (span : Option CiSpan) :
    Tracker :=
  if interval.2 ≤ rounds.floor then tracker
  else
    { tracker with
      ledger := tracker.ledger ++ [⟨key, tracker.epochs key, interval, span⟩] }

def recordCi (key : PrKey) (shared : SharedCi) (effect : CiEffect) (now : ℕ) : Tracker × SharedCi :=
  match effect with
  | .change old new pr =>
    match shared.holders.head?.bind tracker.runById with
    | none => (tracker, shared)
    | some run =>
      ({ tracker with changes := tracker.changes ++ [⟨run.runId, old, new, pr, now⟩] }, shared)
  | .ended stretch result checks =>
    let span := shared.opener.map fun opener =>
      ciSpan (opener.traceId, opener.spanId,
          ((tracker.runById opener.runId).map Run.identity).getD opener.identity)
        stretch.spanId (stretch.start, now) stretch.pr result checks
    -- A stretch opened by a report with no revision may have begun at any revision before its end.
    let recorded :=
      if shared.revision = 0 then (tracker, shared)
      else
        (tracker.recordRound key shared.rounds (shared.openSince, shared.revision) span,
          { shared with rounds := shared.rounds.record shared.openSince shared.revision })
    ({ recorded.1 with finished := recorded.1.finished ++ span.toList },
      { recorded.2 with opener := none })

/-- The shared CI state as a run takes hold of it: what was kept of it, or nothing. -/
def resumeCi (key : PrKey) : Tracker × SharedCi :=
  match tracker.released.get? key with
  | none =>
    ({ tracker with
        epochs := fun other =>
          if other = key then tracker.epochs key + 1 else tracker.epochs other },
      .fresh)
  | some released =>
    ({ tracker with released := tracker.released.erase key },
      { SharedCi.fresh with
        ci := (released.settled.map (PrCi.resumed key.number)).getD .fresh
        revision := released.revision
        rounds := released.rounds })

/-- The pull request released the longest ago by its newest report, as `min_by_key` finds it. -/
structure Oldest where
  pick : SortedMap PrKey ReleasedCi → Option PrKey
  total : ∀ released, pick released = none → released.entries = []
  least : ∀ released key, pick released = some key → ∃ kept, released.get? key = some kept ∧
    ∀ other keptOther, released.get? other = some keptOther → kept.revision ≤ keptOther.revision

def Oldest.first : Oldest where
  pick released := (released.entries.argmin fun entry => entry.2.revision).map Prod.fst
  total released absent := by
    rw [Option.map_eq_none_iff] at absent
    exact List.argmin_eq_none.mp absent
  least released key nonempty := by
    rcases Option.map_eq_some_iff.mp nonempty with ⟨entry, least, rfl⟩
    refine ⟨entry.2, (SortedMap.get?_eq_some_iff _ _ _).mpr (List.argmin_mem least), ?_⟩
    intro other keptOther here
    have mem := (SortedMap.get?_eq_some_iff _ _ _).mp here
    exact List.le_of_mem_argmin (f := fun entry : PrKey × ReleasedCi => entry.2.revision) mem least

def makeRoom (oldest : Oldest) (tracker : Tracker) : Tracker :=
  if maxReleasedPullRequests ≤ tracker.released.entries.length then
    match oldest.pick tracker.released with
    | none => tracker
    | some key => { tracker with released := tracker.released.erase key }
  else tracker

/-- The run no longer holds the pull request: it ended, or its card moved on. -/
def releaseCi (oldest : Oldest) (tracker : Tracker) (key : PrKey) (runId : Text)
    (identity : Attributes) (now : ℕ) : Tracker :=
  match tracker.ci.get? key with
  | none => tracker
  | some shared =>
    let tracker := { tracker with ci := tracker.ci.erase key }
    let shared : SharedCi :=
      { shared with
        holders := shared.holders.filter fun holder => holder ≠ runId
        opener := shared.opener.map fun opener =>
          if opener.runId = runId then { opener with identity := identity } else opener }
    if shared.holders.isEmpty = false then { tracker with ci := tracker.ci.insert key shared }
    else
      let closed := shared.ci.endOpen none
      let ended := { shared with ci := closed.1 }
      let recorded :=
        match closed.2 with
        | none => (tracker, ended)
        | some effect => tracker.recordCi key ended effect now
      let room := makeRoom oldest recorded.1
      { room with
        released := room.released.insert key
          ⟨recorded.2.revision, recorded.2.ci.settled, recorded.2.rounds⟩ }

/-- The run's card moves to the report's pull request; the run lets go of the one it held. -/
def moveCard (oldest : Oldest) (tracker : Tracker) (report : Report) (run : Run) : Tracker × Run :=
  if run.ciPr = report.key then (tracker, run)
  else
    let moved := { run with ciPr := report.key, ciSeen := none, ciPendingSince := none }
    let tracker := { tracker with runs := tracker.runs.insert report.pane moved }
    (match run.ciPr with
      | none => tracker
      | some held => tracker.releaseCi oldest held run.runId run.identity report.now, moved)

def foldReport (key : PrKey) (shared : SharedCi) (report : Report) : Tracker × SharedCi :=
  let wasOpen := shared.ci.isOpen
  let observed := shared.ci.observe (some key.number) report.checks report.now report.spanIds.1
  let shared := { shared with ci := observed.1, revision := max shared.revision report.revision }
  let shared :=
    if shared.ci.isOpen = true ∧ shared.opener = none then
      { shared with
        opener := (shared.holders.head?.bind tracker.runById).map fun run =>
          ⟨run.runId, run.traceId, run.spanId, run.identity⟩ }
    else shared
  let reopened := observed.2.any fun effect =>
    match effect with
    | .ended _ _ _ => true
    | .change _ _ _ => false
  let recorded : Tracker × SharedCi := observed.2.foldl
    (fun state effect => state.1.recordCi key state.2 effect report.now) (tracker, shared)
  (recorded.1,
    if recorded.2.ci.isOpen = true ∧ (wasOpen = false ∨ reopened = true) then
      { recorded.2 with openSince := report.revision }
    else recorded.2)

/-- A round the run's card saw end, that no recorded round and not the open stretch overlaps, is
recorded as the card saw it. -/
def recordOwn (key : PrKey) (shared : SharedCi) (report : Report) (run : Run)
    (ended : Option ((ℕ × ℕ) × CiState)) : Tracker × SharedCi :=
  match ended with
  | none => (tracker, shared)
  | some ((since, start), result) =>
    if since ≠ 0 ∧ report.revision ≠ 0 ∧ shared.rounds.covers since report.revision = false ∧
        ¬ (shared.ci.isOpen = true ∧ shared.openSince ≤ report.revision) then
      let span := ciSpan (run.traceId, run.spanId, run.identity) report.spanIds.2
        (start, report.now) key.number (some result) report.checks
      let recorded := tracker.recordRound key shared.rounds (since, report.revision) (some span)
      ({ recorded with finished := recorded.finished ++ [span] },
        { shared with rounds := shared.rounds.record since report.revision })
    else (tracker, shared)

def takeCi (key : PrKey) : Tracker × SharedCi :=
  match tracker.ci.get? key with
  | some shared => ({ tracker with ci := tracker.ci.erase key }, shared)
  | none => tracker.resumeCi key

def join (shared : SharedCi) (runId : Text) : SharedCi :=
  if runId ∈ shared.holders then shared
  else { shared with holders := shared.holders ++ [runId] }

/-- The shared state takes the report only when it is not older than the newest one it already
took. -/
def takeReport (key : PrKey) (shared : SharedCi) (report : Report) : Tracker × SharedCi :=
  if report.seen.isSome = true ∧ (report.revision = 0 ∨ shared.revision ≤ report.revision) then
    tracker.foldReport key shared report
  else (tracker, shared)

def observeCi (oldest : Oldest) (tracker : Tracker) (report : Report) : Tracker :=
  match tracker.runs.get? report.pane with
  | none => tracker
  | some run =>
    let moved := tracker.moveCard oldest report run
    match report.key with
    | none => moved.1
    | some key =>
      let sees := moved.2.see report.seen report.revision report.now
      let seen := { moved.1 with runs := moved.1.runs.insert report.pane sees.1 }
      let taken := seen.takeCi key
      let folded := taken.1.takeReport key (join taken.2 run.runId) report
      let owned := folded.1.recordOwn key folded.2 report sees.1 sees.2
      { owned.1 with ci := owned.1.ci.insert key owned.2 }

/-! ## Runs come and go -/

inductive Event where
  | report (report : Report)
  /-- A run opens on a pane; the one before it is set aside, or ended. -/
  | openRun (pane : Text) (runId : Text) (traceId spanId : ℕ) (identity : Attributes)
      (setAside : Bool) (now : ℕ)
  | endRun (pane : Text) (now : ℕ)
  /-- A run that was set aside ends. -/
  | endReplaced (runId : Text)
  /-- A run lets go of a pull request. -/
  | release (key : PrKey) (runId : Text) (identity : Attributes) (now : ℕ)

def letGo (oldest : Oldest) (tracker : Tracker) (run : Run) (now : ℕ) : Tracker :=
  match run.ciPr with
  | none => tracker
  | some key => tracker.releaseCi oldest key run.runId run.identity now

def step (oldest : Oldest) (tracker : Tracker) : Event → Tracker
  | .report report => tracker.observeCi oldest report
  | .openRun pane runId traceId spanId identity setAside now =>
    let cleared :=
      match tracker.runs.get? pane with
      | none => tracker
      | some old =>
        let gone := letGo oldest { tracker with runs := tracker.runs.erase pane } old now
        if setAside = true then
          { gone with replaced := gone.replaced ++ [{ old with ciPr := none }] }
        else gone
    { cleared with runs := cleared.runs.insert pane (.started runId traceId spanId identity) }
  | .endRun pane now =>
    match tracker.runs.get? pane with
    | none => tracker
    | some old => letGo oldest { tracker with runs := tracker.runs.erase pane } old now
  | .endReplaced runId =>
    { tracker with replaced := tracker.replaced.filter fun run => run.runId ≠ runId }
  | .release key runId identity now => tracker.releaseCi oldest key runId identity now

def run (oldest : Oldest) (events : List Event) : Tracker := events.foldl (step oldest) new

end Tracker

end AgentDeck.Ci
