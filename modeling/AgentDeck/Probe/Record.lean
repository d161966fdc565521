import AgentDeck.Probe.Hazard
import AgentDeck.Probe.Pairs

/-!
# The invocation records

`Records` of `src/composer_probe/record.rs`: one record for each helper process that was observed,
the count of liabilities with its history, and the writer scope. Every fact and time is an argument.
A step answers or is refused; the hazard FIFO is passed through the steps that feed it.
-/

namespace AgentDeck.Probe

def recordCap : ℕ := 64

def historyCap : ℕ := 256

def episodeCap : ℕ := 64

inductive Channel
  | ipc
  | marker
  | scan
  deriving DecidableEq

inductive NotOwned
  | unknown
  | tool
  | shape
  deriving DecidableEq

inductive Attribution
  | pending
  | owned
  | notOwned (reason : NotOwned)
  | unattributable
  deriving DecidableEq

inductive Claim
  | owned
  | tool
  | unknown
  deriving DecidableEq

inductive Decision
  | armed
  | unarmed
  | tool
  | unknown
  deriving DecidableEq

inductive Tree
  | clean
  | survivors
  | unknown
  deriving DecidableEq

inductive Report
  | none
  | done (tree : Tree)
  | spawnFailed (errno : Option ℤ)
  | unrecognised
  deriving DecidableEq

inductive Frontier
  | notApplicable
  | requested
  | taken (offset : ℕ)
  | missing
  deriving DecidableEq

inductive FrontierOutcome
  | taken (offset : ℕ)
  | missing
  deriving DecidableEq

inductive NotConsumed
  | alreadyZero
  | unattributed
  | unarmed
  | unknownDecision
  | unproven
  deriving DecidableEq

inductive Settlement
  | opened
  | consumed
  | notConsumed (reason : NotConsumed)
  deriving DecidableEq

inductive Completion
  | pending
  | complete (time : Instant)
  | subsumed (key : RecordKey)
  | notRequired
  deriving DecidableEq

inductive Route
  | helperOnly
  | editorBearing
  deriving DecidableEq

inductive EcPolicy
  | hold
  | authority
  deriving DecidableEq

inductive Cause
  | editorUnconfirmed
  | editorReturnUnchecked
  | editorEndUnknown
  | editorLeftWriter
  deriving DecidableEq

namespace Cause

def rank : Cause → ℕ
  | editorUnconfirmed => 0
  | editorReturnUnchecked => 1
  | editorEndUnknown => 2
  | editorLeftWriter => 3

instance : LE Cause := ⟨fun low high => low.rank ≤ high.rank⟩

instance (low high : Cause) : Decidable (low ≤ high) := inferInstanceAs (Decidable (_ ≤ _))

def higher (first second : Cause) : Cause := if first ≤ second then second else first

end Cause

inductive ScopeState
  | closed
  | pending
  | opened (cause : Cause)
  deriving DecidableEq

structure WriterScope where
  cause : Option Cause
  undecided : ℕ

namespace WriterScope

def isClosed (scope : WriterScope) : Bool := scope.cause.isNone && decide (scope.undecided = 0)

def state (scope : WriterScope) : ScopeState :=
  match scope.cause, scope.undecided with
  | some cause, _ => .opened cause
  | none, 0 => .closed
  | none, _ + 1 => .pending

def set (scope : WriterScope) (cause : Cause) : WriterScope :=
  { scope with cause := some (match scope.cause with
    | some first => first.higher cause
    | none => cause) }

def setAny (scope : WriterScope) (cause : Option Cause) : WriterScope :=
  match cause with
  | some cause => scope.set cause
  | none => scope

end WriterScope

structure Channels where
  ipc : Bool
  marker : Bool
  scan : Bool

def Channels.note (channels : Channels) : Channel → Channels
  | .ipc => { channels with ipc := true }
  | .marker => { channels with marker := true }
  | .scan => { channels with scan := true }

structure Record where
  key : RecordKey
  observed : Channels
  attribution : Attribution
  claim : Option Claim
  decision : Option Decision
  segSeen : Option ℕ
  nativeSeen : Option ℕ
  birthFloor : Instant
  firstArmedSeen : Option Instant
  report : Report
  frontier : Frontier
  matched : Option ℕ
  exitObserved : Option Instant
  drained : Bool
  drainedReport : Option Report
  settlement : Settlement
  completion : Completion
  hazardPop : HazardPop
  /-- Whether it still counts in the scope's `undecided`. -/
  undecided : Bool

def Decision.helperOnly (decision : Decision) : Bool := decide (decision = .armed)

def Report.isSpawnFailed : Report → Bool
  | .spawnFailed _ => true
  | _ => false

namespace Record

/-- The helper ran no editor: it was armed, or its editor failed to start. -/
def helperOnly (r : Record) : Bool := r.decision.any Decision.helperOnly || r.report.isSpawnFailed

def editorEnded (r : Record) : Bool :=
  r.helperOnly || decide (r.report = .done .clean) || decide (r.report = .done .survivors)

end Record

structure ExitFact where
  generation : ℕ
  key : RecordKey
  segSeen : Option ℕ
  nativeSeen : Option ℕ
  matched : Option ℕ
  decision : Option Decision
  report : Report
  frontier : Frontier
  firstArmedSeen : Option Instant
  exitObserved : Instant
  settlement : Settlement

def Record.fact (r : Record) (generation : ℕ) : Option ExitFact :=
  r.exitObserved.map fun exit =>
    { generation := generation
      key := r.key
      segSeen := r.segSeen
      nativeSeen := r.nativeSeen
      matched := r.matched
      decision := r.decision
      report := r.report
      frontier := r.frontier
      firstArmedSeen := r.firstArmedSeen
      exitObserved := exit
      settlement := r.settlement }

structure Sighting where
  generation : ℕ
  key : RecordKey
  channel : Channel
  attribution : Attribution
  claim : Option Claim
  decision : Option Decision
  segSeen : Option ℕ
  nativeSeen : Option ℕ
  birthFloor : Instant

inductive Recorded
  | kept (settlement : Settlement) (rescan : Bool)
  | dropped

structure Drained where
  settlement : Settlement
  fact : ExitFact
  rescan : Bool

inductive Reported
  | requestFrontier
  | recorded
  | duplicate

inductive Refusal
  | stale
  | noRecord
  | notExited
  | notPending (completion : Completion)
  | scope (state : ScopeState)
  | policy
  | notHelperOnly
  | unmatched
  | notDrained
  | notClean
  | noFrontier
  | notOwned
  | matched (other : ℕ)
  | count

inductive Resolution
  | decided (decision : Decision)
  | exitWithoutDecision
  | opened (cause : Cause)
  | retired

structure Episode where
  duration : Duration
  resolved : Resolution

inductive StopSource
  | decision (channel : Channel) (decision : Decision)
  | report (report : Report)
  | drain
  | droppedAtCap (channel : Channel) (decision : Option Decision) (attribution : Attribution)
      (claim : Option Claim)
  | refusedIdentity (channel : Channel) (decision : Option Decision) (claim : Option Claim)

structure StopRecord where
  key : RecordKey
  attribution : Attribution
  claim : Option Claim
  decision : Option Decision
  segSeen : Option ℕ
  nativeSeen : Option ℕ
  matched : Option ℕ
  report : Report

def StopRecord.of (r : Record) : StopRecord where
  key := r.key
  attribution := r.attribution
  claim := r.claim
  decision := r.decision
  segSeen := r.segSeen
  nativeSeen := r.nativeSeen
  matched := r.matched
  report := r.report

structure Stop where
  cause : Cause
  after : Duration
  source : StopSource
  record : Option StopRecord

structure CountHistory where
  baseline : ℕ
  exactFrom : Option Instant
  zeroAtBoundary : Bool
  entries : List (Instant × ℕ)
  latest : Option Instant

namespace CountHistory

def default : CountHistory where
  baseline := 0
  exactFrom := none
  zeroAtBoundary := false
  entries := []
  latest := none

def count (h : CountHistory) : ℕ :=
  match h.entries.getLast? with
  | some (_, count) => count
  | none => h.baseline

def countAt (h : CountHistory) (time : Instant) : ℕ :=
  match h.entries.reverse.find? fun entry => decide (entry.1 ≤ time) with
  | some (_, count) => count
  | none => h.baseline

/-- `proves`: the count was at least 1 at the floor, and no zero meets the interval. -/
def proves (h : CountHistory) (birthFloor exit : Instant) : Bool :=
  decide (birthFloor ≤ exit) &&
    (h.exactFrom.all fun first =>
      decide (first < birthFloor) || (decide (birthFloor = first) && !h.zeroAtBoundary)) &&
    decide (1 ≤ h.countAt birthFloor) &&
    !h.entries.any fun (stamp, count) =>
      decide (count = 0) && decide (birthFloor ≤ stamp) && decide (stamp ≤ exit)

def dropFront (h : CountHistory) : CountHistory :=
  match h.entries with
  | [] => h
  | (stamp, count) :: rest =>
    { h with
      entries := rest
      zeroAtBoundary := decide (count = 0) ||
        (decide (h.exactFrom = some stamp) && h.zeroAtBoundary)
      baseline := count
      exactFrom := some stamp }

def set (h : CountHistory) (stamp : Instant) (count : ℕ) : CountHistory :=
  let stamp := match h.latest with
    | some latest => max latest stamp
    | none => stamp
  let h := { h with latest := some stamp }
  let h := if historyCap ≤ h.entries.length then h.dropFront else h
  { h with entries := h.entries ++ [(stamp, count)] }

/-- How many entries are followed by another one stamped before `first`. -/
def passed (first : Instant) : List (Instant × ℕ) → ℕ
  | _ :: next :: rest => if next.1 < first then passed first (next :: rest) + 1 else 0
  | _ => 0

/-- `compact`: fold the entries no proof from `keepFrom` on can read into the baseline. -/
def compact (h : CountHistory) (keepFrom : Option Instant) : CountHistory :=
  match keepFrom with
  | some first => dropFront^[passed first h.entries] h
  | none => dropFront^[h.entries.length] h

end CountHistory

/-- One generation's records. `cap` is `RECORD_CAP` but in tests. -/
structure Records where
  generation : ℕ
  policy : EcPolicy
  started : Instant
  records : List Record
  scope : WriterScope
  history : CountHistory
  retired : Bool
  pendingSince : Option Instant
  stopped : Option Stop
  episodes : List Episode
  episodesUncounted : ℕ
  cap : ℕ

def decisionCause : EcPolicy → Decision → Option Cause
  | _, .armed => none
  | .authority, _ => none
  | .hold, .unarmed => some .editorReturnUnchecked
  | .hold, .tool => some .editorReturnUnchecked
  | .hold, .unknown => some .editorUnconfirmed

def droppedCause : Decision → Cause
  | .unarmed => .editorReturnUnchecked
  | .tool => .editorReturnUnchecked
  | .armed => .editorUnconfirmed
  | .unknown => .editorUnconfirmed

def drainCause (r : Record) : Option Cause :=
  match r.decision, r.report with
  | none, _ => some .editorUnconfirmed
  | some .armed, _ => none
  | _, .done .clean => none
  | _, .spawnFailed _ => none
  | _, .done .survivors => some .editorLeftWriter
  | _, .done .unknown => some .editorEndUnknown
  | _, .none => some .editorEndUnknown
  | _, .unrecognised => some .editorEndUnknown

namespace Record

/-- Attributed to the agent, with a claim that does not disagree. -/
def isOwned (r : Record) : Bool :=
  decide (r.attribution = .owned) && (decide (r.claim = none) || decide (r.claim = some .owned))

end Record

def settleOnDecision (r : Record) (decision : Decision) (count : ℕ) : Settlement :=
  match decision, r.isOwned, count with
  | .armed, false, _ => .notConsumed .unattributed
  | .armed, true, 0 => .notConsumed .alreadyZero
  | .armed, true, _ + 1 => .consumed
  | .unarmed, _, _ => .notConsumed .unarmed
  | .tool, _, _ => .notConsumed .unarmed
  | .unknown, _, _ => .notConsumed .unknownDecision

def Attribution.isNotOwned : Attribution → Bool
  | .notOwned _ => true
  | _ => false

namespace Record

def blank (obs : Sighting) : Record where
  key := obs.key
  observed := ⟨false, false, false⟩
  attribution := .pending
  claim := none
  decision := none
  segSeen := none
  nativeSeen := none
  birthFloor := obs.birthFloor
  firstArmedSeen := none
  report := .none
  frontier := .notApplicable
  matched := none
  exitObserved := none
  drained := false
  drainedReport := none
  settlement := .opened
  completion := .pending
  hazardPop := .unspent
  undecided := true

/-- An observation's channel, its first attribution, and the first claim and numbers. -/
def note (r : Record) (obs : Sighting) : Record :=
  let fresh := decide (r.attribution = .pending)
  { r with
    observed := r.observed.note obs.channel
    attribution := if fresh then obs.attribution else r.attribution
    completion := if fresh && obs.attribution.isNotOwned && decide (r.completion = .pending) then
      .notRequired else r.completion
    claim := r.claim <|> obs.claim
    segSeen := r.segSeen <|> obs.segSeen
    nativeSeen := r.nativeSeen <|> obs.nativeSeen }

/-- A decision that applies: the first one settles the record. -/
def decided (r : Record) (decision : Decision) (count : ℕ) (now : Instant) : Record :=
  { r with
    firstArmedSeen := if decision = .armed ∧ r.firstArmedSeen = none then some now
      else r.firstArmedSeen
    decision := r.decision <|> some decision
    settlement := if r.settlement = .opened then settleOnDecision r decision count
      else r.settlement
    undecided := false }

end Record

namespace Records

def new (generation : ℕ) (policy : EcPolicy) (started : Instant) (cap : ℕ) : Records where
  generation := generation
  policy := policy
  started := started
  records := []
  scope := ⟨none, 0⟩
  history := .default
  retired := false
  pendingSince := none
  stopped := none
  episodes := []
  episodesUncounted := 0
  cap := cap

def count (s : Records) : ℕ := s.history.count

variable (s : Records)

def get (key : RecordKey) : Option Record :=
  s.records.find? fun r => decide (r.key = key)

def anyPending : Bool :=
  s.records.any fun r => decide (r.completion = .pending)

def change (key : RecordKey) (f : Record → Record) : List Record → List Record
  | [] => []
  | r :: rest => if r.key = key then f r :: rest else r :: change key f rest

def update (key : RecordKey) (f : Record → Record) : Records :=
  { s with records := change key f s.records }

def episode (duration : Duration) (resolved : Resolution) : Records :=
  if s.episodes.length < episodeCap then { s with episodes := s.episodes ++ [⟨duration, resolved⟩] }
  else { s with episodesUncounted := min (s.episodesUncounted + 1) (2 ^ 32 - 1) }

/-- A pending episode begins, or one that ended is booked. -/
def bookEpisode (now : Instant) (resolved : Option Resolution) : Records :=
  match s.scope.state, s.pendingSince with
  | .pending, none => { s with pendingSince := some now }
  | .opened cause, some since =>
    { s with pendingSince := none }.episode (now - since) (resolved.getD (.opened cause))
  | .closed, some since =>
    { s with pendingSince := none }.episode (now - since) (resolved.getD .retired)
  | _, _ => s

def bookStop (now : Instant) (source : Option StopSource) (record : Option RecordKey) : Records :=
  match s.scope.state, s.stopped, source with
  | .opened cause, none, some source =>
    { s with stopped := some ⟨cause, now - s.started, source,
      record.bind fun key => (s.get key).map StopRecord.of⟩ }
  | _, _, _ => s

/-- `transition`: book the scope's move from `before`, and say whether it just closed. -/
def transition (before : ScopeState) (now : Instant) (resolved : Option Resolution)
    (source : Option StopSource) (record : Option RecordKey) : Bool × Records :=
  (decide (before = .pending) && decide (s.scope.state = .closed),
    (s.bookEpisode now resolved).bookStop now source record)

def subsumes (r : Record) (exit : Instant) (other : Record) : Bool :=
  decide (other.key ≠ r.key) && decide (other.attribution = .owned) &&
    decide (exit < other.birthFloor)

/-- A pending record whose editor ended, next to the records there are. -/
def subsumed (records : List Record) (r : Record) : Record :=
  match r.exitObserved with
  | none => r
  | some exit =>
    if r.completion ≠ .pending ∨ r.editorEnded = false then r
    else
      match records.find? (subsumes r exit) with
      | some other => { r with completion := .subsumed other.key }
      | none => r

/-- `subsume`. The loop changes completions only, which its search does not read. -/
def subsume : Records :=
  { s with records := s.records.map (subsumed s.records) }

/-- `refresh_stop`: the first stop's record as it now stands. -/
def refreshStop : Records :=
  match s.stopped with
  | some stop =>
    match stop.record.bind fun kept => s.get kept.key with
    | some r => { s with stopped := some { stop with record := some (.of r) } }
    | none => s
  | none => s

def compact (s : Records) : Records :=
  let floors := (s.records.filter fun r => decide (r.settlement = .opened)).map Record.birthFloor
  { s with history := s.history.compact floors.min? }

/-- `after` a step: compact the history and feed the quiet clock. -/
def after (fifo : HazardFifo) (now : Instant) : Records × HazardFifo :=
  let s := s.compact.refreshStop
  (s, fifo.recordsPending now s.anyPending)

def maybePop (fifo : HazardFifo) (key : RecordKey) (now : Instant) : Records × HazardFifo :=
  match s.get key with
  | some r =>
    match r.nativeSeen with
    | some seen =>
      if r.attribution = .owned ∧ r.hazardPop = .unspent then
        let (_, receipt, fifo) := fifo.popReported r.hazardPop seen now
        (s.update key fun r => { r with hazardPop := receipt }, fifo)
      else (s, fifo)
    | none => (s, fifo)
  | none => (s, fifo)

def dropped (decision : Option Decision) : Records :=
  match decision with
  | some .armed => s
  | some decision => { s with scope := s.scope.set (droppedCause decision) }
  | none => { s with scope := s.scope.set .editorUnconfirmed }

def stale (generation : ℕ) : Bool := s.retired || decide (generation ≠ s.generation)

def observeKept (fifo : HazardFifo) (obs : Sighting) (now : Instant) (before : ScopeState)
    (r : Record) : Recorded × Records × HazardFifo :=
  let count := s.count
  let noted := r.note obs
  -- A decision after the exit drain changes nothing.
  let applied := if r.drained then none else obs.decision
  let final := match applied with
    | some decision => noted.decided decision count now
    | none => noted
  let consumed := decide (noted.settlement = .opened) && decide (final.settlement = .consumed)
  let leaves := noted.undecided && applied.isSome
  let scope := s.scope.setAny (applied.bind (decisionCause s.policy))
  let s := { s.update obs.key fun _ => final with
    scope := if leaves then { scope with undecided := scope.undecided - 1 } else scope
    history := if consumed then s.history.set now (count - 1) else s.history }
  let (s, fifo) := s.maybePop fifo obs.key now
  let (rescan, s) := s.subsume.transition before now
    (if leaves then applied.map .decided else none)
    (applied.map (.decision obs.channel)) (some obs.key)
  let (s, fifo) := s.after fifo now
  (.kept final.settlement rescan, s, fifo)

def observe (fifo : HazardFifo) (obs : Sighting) (now : Instant) :
    Except Refusal Recorded × Records × HazardFifo :=
  if s.stale obs.generation then (.error .stale, s, fifo)
  else
    let before := s.scope.state
    match s.get obs.key with
    | some r =>
      let (recorded, s, fifo) := s.observeKept fifo obs now before r
      (.ok recorded, s, fifo)
    | none =>
      if s.cap ≤ s.records.length then
        let (_, s) := (s.dropped obs.decision).transition before now none
          (some (.droppedAtCap obs.channel obs.decision obs.attribution obs.claim)) none
        (.ok .dropped, s, fifo)
      else
        let s := { s with
          records := s.records ++ [Record.blank obs]
          scope := { s.scope with undecided := s.scope.undecided + 1 } }
        let (recorded, s, fifo) := s.observeKept fifo obs now before (Record.blank obs)
        (.ok recorded, s, fifo)

def refusedIdentity (s : Records) (generation : ℕ) (channel : Channel) (decision : Option Decision)
    (claim : Option Claim) (now : Instant) : Except Refusal Unit × Records :=
  if s.stale generation then (.error .stale, s)
  else
    let before := s.scope.state
    let s := match decision with
      | some decision =>
        if decision.helperOnly = false ∧ channel ≠ Channel.scan then
          { s with scope := s.scope.set (droppedCause decision) }
        else s
      | none => s
    let (_, s) := s.transition before now none (some (.refusedIdentity channel decision claim)) none
    (.ok (), s)

def report (s : Records) (fifo : HazardFifo) (generation : ℕ) (key : RecordKey) (report : Report)
    (now : Instant) : Except Refusal Reported × Records × HazardFifo :=
  if s.stale generation then (.error .stale, s, fifo)
  else
    match s.get key with
    | none => (.error .noRecord, s, fifo)
    | some r =>
      let before := s.scope.state
      if r.report ≠ .none then (.ok .duplicate, s, fifo)
      else
        let asks := decide (report = .done .clean) && decide (r.frontier = .notApplicable)
        let s := s.update key fun r => { r with
          report := report
          frontier := if asks then .requested else r.frontier }
        let s := { s with scope := match report with
          | .done .survivors => s.scope.set .editorLeftWriter
          | .done .unknown => s.scope.set .editorEndUnknown
          | _ => s.scope }
        let (_, s) := s.subsume.transition before now none (some (.report report)) (some key)
        let (s, fifo) := s.after fifo now
        (.ok (if asks then .requestFrontier else .recorded), s, fifo)

def frontier (s : Records) (generation : ℕ) (key : RecordKey) (outcome : FrontierOutcome) :
    Except Refusal Bool × Records :=
  if s.stale generation then (.error .stale, s)
  else
    match s.get key with
    | none => (.error .noRecord, s)
    | some r =>
      if r.frontier ≠ .requested then (.ok false, s)
      else
        (.ok true, s.update key fun r => { r with frontier := match outcome with
          | .taken offset => .taken offset
          | .missing => .missing })

def exit (fifo : HazardFifo) (generation : ℕ) (key : RecordKey) (time now : Instant) :
    Except Refusal Unit × Records × HazardFifo :=
  if s.stale generation then (.error .stale, s, fifo)
  else
    match s.get key with
    | none => (.error .noRecord, s, fifo)
    | some _ =>
      let s := s.update key fun r => { r with exitObserved := r.exitObserved <|> some time }
      let (s, fifo) := s.subsume.after fifo now
      (.ok (), s, fifo)

def drainRecord (r : Record) (proved : Bool) : Record :=
  { r with
    drained := true
    drainedReport := some r.report
    frontier := if r.decision ≠ some .armed ∧ r.frontier = .notApplicable then .missing
      else r.frontier
    settlement := if r.settlement = .opened then
      if proved then .consumed else .notConsumed .unproven else r.settlement
    undecided := false }

def drain (s : Records) (fifo : HazardFifo) (generation : ℕ) (key : RecordKey) (now : Instant)
    (complete : Bool) : Except Refusal Drained × Records × HazardFifo :=
  if s.stale generation then (.error .stale, s, fifo)
  else
    match s.get key with
    | none => (.error .noRecord, s, fifo)
    | some r =>
      match r.exitObserved with
      | none => (.error .notExited, s, fifo)
      | some exit =>
        let before := s.scope.state
        let count := s.count
        let first := !r.drained
        let proved := complete && r.isOwned && decide (0 < count) &&
          s.history.proves r.birthFloor exit
        let consumed := first && decide (r.settlement = .opened) && proved
        let leaves := first && r.undecided
        let scope := if first then s.scope.setAny (drainCause r) else s.scope
        let s := { s.update key fun r => if first then drainRecord r proved else r with
          scope := if leaves then { scope with undecided := scope.undecided - 1 } else scope
          history := if consumed then s.history.set now (count - 1) else s.history }
        let (s, fifo) := if first && complete && decide (r.attribution = .owned) then
            let (_, receipt, fifo) := fifo.popAtDrain r.hazardPop r.birthFloor now
            (s.update key fun r => { r with hazardPop := receipt }, fifo)
          else (s, fifo)
        let (rescan, s) := s.subsume.transition before now
          (if leaves then some .exitWithoutDecision else none) (some .drain) (some key)
        let (s, fifo) := s.after fifo now
        match (s.get key).bind fun r => (r.fact s.generation).map fun fact => (r, fact) with
        | some (r, fact) => (.ok ⟨r.settlement, fact, rescan⟩, s, fifo)
        | none => (.error .notExited, s, fifo)

def matchSegment (generation : ℕ) (key : RecordKey) (seg : ℕ) : Except Refusal Unit × Records :=
  if s.stale generation then (.error .stale, s)
  else
    match s.get key with
    | none => (.error .noRecord, s)
    | some r =>
      if r.attribution ≠ .owned then (.error .notOwned, s)
      else
        match r.matched.filter fun other => decide (other ≠ seg) with
        | some other => (.error (.matched other), s)
        | none => (.ok (), (s.update key fun r => { r with matched := some seg }).refreshStop)

/-- Why a completion is refused, for a pending record while the scope is closed. -/
def completable (r : Record) : Route → Except Refusal Unit
  | .helperOnly =>
    if r.helperOnly = false then .error .notHelperOnly
    else if r.exitObserved = none then .error .notExited
    else if r.matched = none then .error .unmatched
    else .ok ()
  | .editorBearing =>
    if s.policy = .hold then .error .policy
    else if r.drained = false then .error .notDrained
    else if r.report ≠ .done .clean ∧ r.report.isSpawnFailed = false then .error .notClean
    else
      match r.frontier with
      | .taken _ => .ok ()
      | _ => .error .noFrontier

def complete (s : Records) (fifo : HazardFifo) (generation : ℕ) (key : RecordKey) (route : Route)
    (time now : Instant) : Except Refusal Unit × Records × HazardFifo :=
  if s.stale generation then (.error .stale, s, fifo)
  else
    match s.get key with
    | none => (.error .noRecord, s, fifo)
    | some r =>
      if r.completion ≠ .pending then (.error (.notPending r.completion), s, fifo)
      else if s.scope.isClosed = false then (.error (.scope s.scope.state), s, fifo)
      else
        match s.completable r route with
        | .error refusal => (.error refusal, s, fifo)
        | .ok () =>
          let s := s.update key fun r => { r with completion := .complete time }
          let (s, fifo) := s.after fifo now
          (.ok (), s, fifo)

def prune (fifo : HazardFifo) (generation : ℕ) (key : RecordKey) (markersDeleted : Bool)
    (now : Instant) : Except Refusal (Option ExitFact) × Records × HazardFifo :=
  if s.stale generation then (.error .stale, s, fifo)
  else
    match s.get key with
    | none => (.error .noRecord, s, fifo)
    | some r =>
      if markersDeleted = false ∨ r.settlement = .opened ∨ r.drained = false ∨
          r.completion = .pending then (.ok none, s, fifo)
      else
        let gone := { s with records := s.records.eraseP fun r => decide (r.key = key) }
        let (s, fifo) := gone.after fifo now
        (.ok (r.fact s.generation), s, fifo)

/-- `raise`: a probe published one more liability. The count is a `u32`. -/
def raise (generation : ℕ) (stamp : Instant) : Except Refusal ℕ × Records :=
  if s.stale generation then (.error .stale, s)
  else if s.count + 1 < 2 ^ 32 then
    (.ok (s.count + 1), { s with history := s.history.set stamp (s.count + 1) }.compact)
  else (.error .count, s)

def lower (generation : ℕ) (stamp : Instant) : Except Refusal ℕ × Records :=
  if s.stale generation then (.error .stale, s)
  else if 1 ≤ s.count then
    (.ok (s.count - 1), { s with history := s.history.set stamp (s.count - 1) }.compact)
  else (.error .count, s)

def retire (now : Instant) : Records :=
  if s.retired then s
  else
    let s := match s.pendingSince with
      | some since => { s with pendingSince := none }.episode (now - since) .retired
      | none => s
    { s with retired := true, records := [], scope := ⟨none, 0⟩, history := .default }

end Records

end AgentDeck.Probe
