import AgentDeck.Probe.Epoch
import AgentDeck.Probe.SegmentOps
import AgentDeck.Probe.RecordLedger

/-!
# The settlement of the probes

`GenerationInput` and `Live` of `src/composer_probe/epoch.rs`, the part that opens the probes and
settles them, with `Schedule` of `src/composer_probe/probe.rs`. A probe's empty read applies to the
epoch at once, or is parked for a keymap read taken after it. The pairs are in the accounting of
their own: here a pair no record accounts for is an external edit.
-/

namespace AgentDeck.Probe

def nonEmptyRecheck : Duration := fromSecs (30 * 60)

def backoff : List Duration := [fromSecs 30, fromSecs (2 * 60), fromSecs (10 * 60)]

def backoffLast : Duration := fromSecs (30 * 60)

def brokenAfter : ℕ := 3

/-- Refusals for a moved screen in a row that count as one failure. -/
def movedPerFailure : ℕ := 4

/-- An instant is never past the clock's range, so no wait is for ever. -/
inductive Wait
  | none
  | until_ (time : Instant)
  /-- Until the epoch moves from a value, or an instant. -/
  | epoch (since : ℕ) (time : Instant)
  deriving DecidableEq

structure Schedule where
  wait : Wait
  failures : ℕ
  broken : Bool
  moved : ℕ
  deriving DecidableEq

namespace Schedule

def default : Schedule := ⟨.none, 0, false, 0⟩

def due (s : Schedule) (now : Instant) (epoch : ℕ) : Bool :=
  match s.wait with
  | .none => true
  | .until_ time => decide (time ≤ now)
  | .epoch since time => decide (epoch ≠ since) || decide (time ≤ now)

/-- `saturating_add(1)`. -/
def up (count : ℕ) : ℕ := min (count + 1) (2 ^ 32 - 1)

def failed (s : Schedule) (now : Instant) : Schedule where
  wait := .until_ (now + (backoff[up s.failures - 1]?).getD backoffLast)
  failures := up s.failures
  broken := s.broken || decide (brokenAfter ≤ up s.failures)
  moved := 0

/-- `moved`: the writer refused an attempt because the screen moved. -/
def onMoved (s : Schedule) (now : Instant) : Schedule :=
  if up s.moved < movedPerFailure then { s with moved := up s.moved }
  else { s with moved := up s.moved }.failed now

def nonEmpty (now : Instant) (epoch : ℕ) : Schedule where
  wait := .epoch epoch (now + nonEmptyRecheck)
  failures := 0
  broken := false
  moved := 0

/-- `person`: a person's op gives a broken observer one fresh attempt. -/
def person (s : Schedule) : Schedule :=
  if s.broken then { s with wait := .none } else s

end Schedule

inductive BoxRead
  | empty
  | nonEmpty
  | unreadable
  deriving DecidableEq

def readsKept : ℕ := recordCap

/-- An open probe; `e0` is the epoch just before its own byte moved it. -/
structure LiveProbe where
  number : ℕ
  job : DeckJobId
  e0 : Option ℕ
  deriving DecidableEq

structure Parked where
  ticket : ℕ
  probe : LiveProbe

structure Checks where
  segments : Segments
  schedule : Schedule
  lastForeignOp : ℕ
  probes : List LiveProbe
  /-- The lapsed probe whose lapse the schedule counted. -/
  lapseCounted : Option ℕ
  reads : List (RecordKey × BoxRead)
  /-- An empty read waits for a keymap re-read. -/
  recheck : Bool
  parked : List Parked
  /-- The last ticket given, a `u64`. -/
  nextTicket : ℕ
  /-- The probes settled so far, and those that counted as a failure; nothing reads them. -/
  settled : List ℕ
  failures : List ℕ

namespace Checks

def new (generation : ℕ) (agent : Agent) : Checks where
  segments := .new generation agent
  schedule := .default
  lastForeignOp := 0
  probes := []
  lapseCounted := none
  reads := []
  recheck := false
  parked := []
  nextTicket := 0
  settled := []
  failures := []

variable (c : Checks)

def boxReadOf (key : RecordKey) : Option BoxRead :=
  (c.reads.reverse.find? fun (known, _) => decide (known = key)).map Prod.snd

def readOf (key : RecordKey) : Option Bool :=
  (c.boxReadOf key).map fun read => decide (read = .empty)

def noteBoxRead (key : RecordKey) (read : BoxRead) : Checks :=
  { c with reads := (if c.reads.length = readsKept then c.reads.drop 1 else c.reads) ++
      [(key, read)] }

/-- `apply_empty`: the epoch's apply rule, then the schedule's empty. -/
def applyEmpty (epoch : InputEpoch) (probe : LiveProbe) : Checks × InputEpoch :=
  ({ c with
      schedule := .default
      settled := c.settled ++ [probe.number] },
    match probe.e0 with
    | some e0 => (epoch.apply ⟨probe.job, e0, true, false⟩).2
    | none => epoch)

def readNonEmpty (epoch : InputEpoch) (key : RecordKey) (probe : LiveProbe) (now : Instant) :
    Checks :=
  let since := match probe.e0 with
    | some e0 =>
      if c.boxReadOf key ≠ some .unreadable ∧ min (e0 + 1) (2 ^ 64 - 1) < c.lastForeignOp then
        min (e0 + 1) (2 ^ 64 - 1)
      else epoch.epoch
    | none => epoch.epoch
  { c with
    schedule := .nonEmpty now since
    settled := c.settled ++ [probe.number] }

def fail (number : ℕ) (now : Instant) : Checks :=
  if c.lapseCounted = some number then { c with settled := c.settled ++ [number] }
  else
    { c with
      schedule := c.schedule.failed now
      settled := c.settled ++ [number]
      failures := c.failures ++ [number] }

def park (probe : LiveProbe) : Checks :=
  { c with
    nextTicket := (c.nextTicket + 1) % 2 ^ 64
    parked := c.parked ++ [⟨(c.nextTicket + 1) % 2 ^ 64, probe⟩] }

/-- Whether the record shows a claim that is the deck's own, or none. -/
def claimMine (records : Records) (key : RecordKey) : Bool :=
  (records.get key).any fun r => decide (r.claim = none) || decide (r.claim = some .owned)

/-- `settle_probe`: a probe is settled from its record's decision and the daemon's read, once. -/
def settleProbe (epoch : InputEpoch) (records : Records) (probe : ℕ × RecordKey × Option Decision)
    (now : Instant) : Checks × InputEpoch :=
  let (number, key, decision) := probe
  match c.probes.find? fun p => decide (p.number = number) with
  | none => (c, epoch)
  | some probe =>
    let left := { c with probes := c.probes.eraseP fun p => decide (p.number = number) }
    if decision = some .armed then
      if c.readOf key = some true ∧ claimMine records key = true then
        if c.recheck then (left.park probe, epoch) else left.applyEmpty epoch probe
      else (left.readNonEmpty epoch key probe now, epoch)
    else (left.fail number now, epoch)

end Checks

/-- A generation's input, from the attachment of its segments on. -/
structure Input where
  epoch : InputEpoch
  fifo : HazardFifo
  records : Records
  checks : Checks
  retired : Bool

inductive Writer
  | deck (job : DeckJobId)
  | unnamedDeck
  | human
  | answer
  deriving DecidableEq

def Writer.owner : Writer → Option DeckJobId
  | .deck job => some job
  | _ => none

namespace Input

def start (generation : ℕ) (agent : Agent) (records : Records) (fifo : HazardFifo)
    (epoch : InputEpoch) : Input where
  epoch := epoch
  fifo := fifo
  records := records
  checks := .new generation agent
  retired := false

/-- One probe whose record decided: it is settled, unless the daemon's read is still to come. -/
def settleDecided (records : Records) (now : Instant) (state : Checks × InputEpoch)
    (probe : ℕ × RecordKey × Decision) : Checks × InputEpoch :=
  let (c, epoch) := state
  let (number, key, decision) := probe
  if decision = .armed ∧ c.readOf key = none ∧
    (records.get key).any (fun r => !r.drained) = true then
    ({ c with segments := c.segments.undecide number }, epoch)
  else c.settleProbe epoch records (number, key, some decision) now

def settleCompleted (records : Records) (now : Instant) (state : Checks × InputEpoch)
    (probe : ℕ × RecordKey × Option Decision) : Checks × InputEpoch :=
  state.1.settleProbe state.2 records probe now

/-- The endings are taken, and the probes that ended go. -/
def dropEnded (c : Checks) : Checks :=
  let (ended, segments) := c.segments.takeEnded
  { c with
    segments := segments
    probes := c.probes.filter fun p => !ended.any fun e => decide (e.number = some p.number) }

/-- `settle_live`: the segments, then each probe that decided or completed. -/
def settleLive (t : Input) (runs : RecordKey → Bool) (now : Instant) : Input :=
  if t.retired then t
  else
    let (segments, records, fifo) := t.checks.segments.settle runs t.records t.fifo now
    let (decided, segments) := segments.takeDecidedProbes records
    let (c, epoch) := decided.foldl (settleDecided records now)
      ({ t.checks with segments := segments }, t.epoch)
    let (completed, segments) := c.segments.takeCompletedProbes
    let (c, epoch) := completed.foldl (settleCompleted records now)
      ({ c with segments := segments }, epoch)
    { t with
      epoch := epoch
      fifo := fifo
      records := records
      checks := dropEnded c }

def openProbe (t : Input) (held : Bool) (now : Instant) :
    Except SegmentRefusal (ℕ × DeckJobId) × Input :=
  if t.retired then (.error .retired, t)
  else
    match t.checks.segments.openProbe held now with
    | (.error refusal, segments) =>
      (.error refusal, { t with checks := { t.checks with segments := segments } })
    | (.ok number, segments) =>
      (.ok (number, number), { t with
        checks := dropEnded { t.checks with
          segments := segments
          probes := t.checks.probes ++ [⟨number, number, none⟩] } })

/-- An op of some bytes enters: a deck job's sets the `e0` of its probe, a foreign one is noted. -/
def enter (t : Input) (writer : Writer) (bytes : ℕ) : Input :=
  let epoch := t.epoch.record writer.owner
  let checks := match writer with
    | .deck job =>
      { t.checks with
        probes := changeFirst (fun p => decide (p.job = job))
          (fun p => { p with e0 := if epoch.epoch = 0 then none else some (epoch.epoch - 1) })
          t.checks.probes }
    | .unnamedDeck => { t.checks with lastForeignOp := epoch.epoch }
    | _ =>
      { t.checks with
        lastForeignOp := epoch.epoch
        schedule := if 0 < bytes ∧ t.retired = false then t.checks.schedule.person
          else t.checks.schedule }
  { t with
    epoch := epoch
    checks := checks }

/-- `settle_keymap_recheck`: the reads parked through a ticket settle, with the keymap's verdict. -/
def settleKeymapRecheck (t : Input) (through : ℕ) (allowed : Bool) (now : Instant) : ℕ × Input :=
  if t.retired then (0, t)
  else
    let due := t.checks.parked.filter fun p => decide (p.ticket ≤ through)
    let waiting := t.checks.parked.filter fun p => !decide (p.ticket ≤ through)
    let settle := fun (state : Checks × InputEpoch) (p : Parked) =>
      if allowed then state.1.applyEmpty state.2 p.probe
      else (state.1.fail p.probe.number now, state.2)
    let (c, epoch) := due.foldl settle ({ t.checks with parked := waiting }, t.epoch)
    (due.length, { t with
      epoch := epoch
      checks := c })

/-- `lapse_due`: a lone probe that lapsed is a failure, counted once. -/
def lapseDue (t : Input) (heldOps : ℕ) (now : Instant) : Bool × Input :=
  if t.retired ∨ 0 < heldOps then (false, t)
  else
    match t.checks.segments.lapsedNumber now with
    | none => (false, t)
    | some number =>
      let c := if t.checks.lapseCounted = some number then t.checks
        else
          { t.checks with
            lapseCounted := some number
            schedule := t.checks.schedule.failed now
            failures := t.checks.failures ++ [number] }
      (c.parked.isEmpty && c.schedule.due now t.epoch.epoch, { t with checks := c })

def retire (t : Input) : Input :=
  { t with
    fifo := .default
    checks := { t.checks with
      segments := t.checks.segments.retire.takeEnded.2
      probes := []
      parked := [] }
    retired := true }

end Input

end AgentDeck.Probe
