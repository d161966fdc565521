import AgentDeck.Probe.Record

/-!
# The segments

`Segments` of `src/composer_probe/segments.rs`: a segment is one Ctrl+G the deck writes and waits
for the agent to act on. At most the front one is outstanding; it matches one invocation record,
lets what is held behind it go, and completes on that record's return. The operations are given the
records, and whether a pinned editor's process still runs.
-/

namespace AgentDeck.Probe

def segmentCap : ℕ := 64

def inFlightMarkers : ℕ := 64

inductive Agent
  | claude
  | codex
  deriving DecidableEq

inductive SegmentKind
  | probe
  | humanG
  deriving DecidableEq

structure Seen where
  marker : Marker
  start : ℕ
  deriving DecidableEq

/-- The return markers past a lower bound: after a trigger, or after a drain frontier. -/
structure ReturnWatch where
  first : ℕ
  /-- A disable comes first. -/
  disable : Bool
  off : Option ℕ
  on : Option ℕ
  frame : Option ℕ
  deriving DecidableEq

namespace ReturnWatch

def e1 (first : ℕ) : ReturnWatch := ⟨first, true, none, none, none⟩

def ec (first : ℕ) : ReturnWatch := ⟨first, false, none, none, none⟩

def feed (w : ReturnWatch) (seen : Seen) : ReturnWatch :=
  if seen.start < w.first then w
  else
    match seen.marker with
    | .pasteOff =>
      if w.disable then { w with off := some seen.start, on := none, frame := none } else w
    | .pasteOn =>
      if w.on.isNone && (!w.disable || w.off.any fun off => decide (off < seen.start)) then
        { w with on := some seen.start }
      else w
    | .frame =>
      if w.frame.isNone && w.on.any fun on => decide (on < seen.start) then
        { w with frame := some seen.start }
      else w

def enabled (w : ReturnWatch) : Bool := w.on.isSome

def returned (w : ReturnWatch) : Agent → Bool
  | .claude => w.on.isSome
  | .codex => w.frame.isSome

end ReturnWatch

/-- Where the front segment's release stops short of the next held candidate. -/
inductive ReleaseStop
  | candidate
  | cooked
  | signal
  deriving DecidableEq

inductive SegmentOutcome
  | written
  | takenBack
  | cancelled
  | superseded
  | retired
  | writeFailed
  | gone
  | refused
  deriving DecidableEq

/-- One segment's ending. `tag` counts the segments opened before it; nothing reads it. -/
structure Ended where
  number : Option ℕ
  kind : SegmentKind
  op : Option ℕ
  outcome : SegmentOutcome
  tag : ℕ
  deriving DecidableEq

inductive SegmentRefusal
  | retired
  | stale
  | busy
  | notHeld
  | full
  | exhausted
  | noSegment
  | notSubmitted
  deriving DecidableEq

/-- The editor a segment's helper runs, and whether the report of it carried a check. -/
structure EditorPin where
  key : RecordKey
  checked : Bool
  deriving DecidableEq

/-- `running`: `runs` is what the check of a pinned process answers. -/
def EditorPin.running (pin : EditorPin) (runs : RecordKey → Bool) : Bool :=
  !pin.checked || runs pin.key

structure Segment where
  kind : SegmentKind
  op : Option ℕ
  number : Option ℕ
  /-- The output offset and instant at which its trigger was reported accepted. -/
  written : Option (ℕ × Instant)
  inFlight : List Seen
  record : Option RecordKey
  mismatched : Bool
  fact : Option ExitFact
  editorRunning : Bool
  editor : Option EditorPin
  e1 : Option ReturnWatch
  ec : Option ReturnWatch
  enabledAt : Option Instant
  drainedAt : Option Instant
  released : Bool
  cutOff : Bool
  decided : Bool
  cookedLine : ℕ
  tag : ℕ

namespace Segment

def new (kind : SegmentKind) (op number : Option ℕ) (tag : ℕ) : Segment where
  kind := kind
  op := op
  number := number
  written := none
  inFlight := []
  record := none
  mismatched := false
  fact := none
  editorRunning := false
  editor := none
  e1 := none
  ec := none
  enabledAt := none
  drainedAt := none
  released := false
  cutOff := false
  decided := false
  cookedLine := 0
  tag := tag

def end_ (seg : Segment) (outcome : SegmentOutcome) : Ended where
  number := seg.number
  kind := seg.kind
  op := seg.op
  outcome := outcome
  tag := seg.tag

end Segment

structure Segments where
  generation : ℕ
  agent : Agent
  segments : List Segment
  /-- The last number published, a `u64`. -/
  last : ℕ
  ended : List Ended
  /-- Probes that completed before their decision was settled. -/
  completed : List (ℕ × RecordKey × Option Decision)
  /-- Records whose editor was seen running before a segment matched them. -/
  editors : List (RecordKey × Option EditorPin)
  retired : Bool
  /-- How many segments were opened; nothing reads it. -/
  opened : ℕ

def Records.fact (s : Records) (key : RecordKey) : Option ExitFact :=
  (s.records.find? fun r => decide (r.key = key) && r.drained).bind fun r => r.fact s.generation

/-- `wait_unknown`: nothing says when its editor stopped reading. -/
def waitUnknown (decision : Option Decision) (report : Report) : Bool :=
  !decision.any Decision.helperOnly && (decide (report = .none) || decide (report = .unrecognised))

/-- `find_match`: the one free record that read the number, else the one free record with no
decision and no number born at or after the trigger was written. -/
def findMatch (records : Records) (number : ℕ) (written : Instant) : Option RecordKey :=
  let free := records.records.filter fun r =>
    decide (r.attribution = .owned) && r.matched.isNone
  match free.filter fun r => decide (r.segSeen = some number) with
  | [r] => some r.key
  | _ :: _ :: _ => none
  | [] =>
    match free.filter fun r =>
        r.decision.isNone && r.segSeen.isNone && decide (written ≤ r.birthFloor) with
    | [r] => some r.key
    | _ => none

/-- `editor_ended`: on Claude, the helper reported its editor's end before its exit drained. -/
def editorEnded (agent : Agent) (r : Record) : Bool :=
  decide (agent = .claude) && r.drained &&
    (decide (r.drainedReport = some (.done .clean)) ||
      decide (r.drainedReport = some (.done .survivors)))

def earlyRelease (agent : Agent) (seg : Segment) (r : Record) (runs : RecordKey → Bool) : Bool :=
  if r.report.isSpawnFailed then false
  else
    match agent, seg.kind, r.decision with
    | .claude, .probe, some .armed => true
    | .claude, .probe, some .unarmed => true
    | .claude, .humanG, some .armed => true
    | _, .humanG, some .unarmed =>
      (seg.editorRunning && seg.editor.all fun pin => pin.running runs) || editorEnded agent r
    | _, _, _ => false

/-- The first item that is meant is changed, as through `iter_mut().find`. -/
def changeFirst {α : Type*} (which : α → Bool) (f : α → α) : List α → List α
  | [] => []
  | item :: rest => if which item then f item :: rest else item :: changeFirst which f rest

namespace Segments

def new (generation : ℕ) (agent : Agent) : Segments where
  generation := generation
  agent := agent
  segments := []
  last := 0
  ended := []
  completed := []
  editors := []
  retired := false
  opened := 0

variable (s : Segments)

def nextNumber : Except SegmentRefusal ℕ :=
  if s.last + 1 < 2 ^ 64 then .ok (s.last + 1) else .error .exhausted

/-- `lapsed`: a Claude probe still unmatched after its trigger's time. -/
def lapsed (seg : Segment) (now : Instant) : Bool :=
  decide (s.agent = .claude) && decide (seg.kind = .probe) && seg.record.isNone &&
    !seg.mismatched && seg.written.any fun (_, time) => decide (tTrigger < now - time)

def push (kind : SegmentKind) (op number : Option ℕ) : Segments :=
  { s with
    segments := s.segments ++ [.new kind op number s.opened]
    opened := s.opened + 1 }

/-- `open_probe`: `held` is whether something is held at the gate. -/
def openProbe (held : Bool) (now : Instant) : Except SegmentRefusal ℕ × Segments :=
  if s.retired then (.error .retired, s)
  else
    let retry := match s.segments with
      | [] => some s
      | [old] =>
        if !held && s.lapsed old now then
          some { s with segments := [], ended := s.ended ++ [old.end_ .superseded] }
        else none
      | _ => none
    match retry with
    | none => (.error .busy, s)
    | some cleared =>
      match s.nextNumber with
      | .error refusal => (.error refusal, s)
      | .ok number => (.ok number, { cleared with last := number }.push .probe none (some number))

def openHumanG (op : ℕ) : Except SegmentRefusal Unit × Segments :=
  if s.retired then (.error .retired, s)
  else if s.segments.isEmpty then (.error .notHeld, s)
  else if segmentCap ≤ s.segments.length then (.error .full, s)
  else (.ok (), s.push .humanG (some op) none)

def openCut : Except SegmentRefusal Unit × Segments :=
  if s.retired then (.error .retired, s)
  else if segmentCap ≤ s.segments.length then (.error .full, s)
  else (.ok (), s.push .humanG none none)

def openHeldTrigger : Except SegmentRefusal ℕ × Segments :=
  if s.retired then (.error .retired, s)
  else if !s.segments.isEmpty then (.error .busy, s)
  else
    match s.nextNumber with
    | .error refusal => (.error refusal, s)
    | .ok number => (.ok number, { s with last := number }.push .humanG none (some number))

/-- A matched record's decision, or the one among its kept facts. -/
def decisionOf (records : Records) (seg : Segment) (key : RecordKey) : Option Decision :=
  ((records.get key).bind Record.decision) <|> seg.fact.bind ExitFact.decision

def frontStop (records : Records) : ReleaseStop :=
  match s.segments with
  | [] => .candidate
  | seg :: _ =>
    if decide (s.agent ≠ .claude) || !seg.released || seg.cutOff then .candidate
    else
      match seg.record with
      | none => .candidate
      | some key =>
        let drained := match records.get key with
          | some r => r.drained
          | none => seg.fact.isSome
        match decisionOf records seg key with
        | some .armed =>
          if seg.e1.any fun w => w.returned s.agent then .candidate else .cooked
        | some .unarmed =>
          if decide (seg.kind = .probe) && !drained then .signal else .candidate
        | _ => .candidate

def noteCookedLine (number run : ℕ) : Segments :=
  { s with
    segments := changeFirst (fun seg => decide (seg.number = some number))
      (fun seg => { seg with cookedLine := run }) s.segments }

def refuseRest : Segments :=
  { s with
    segments := s.segments.take 1
    ended := s.ended ++ (s.segments.drop 1).map fun seg => seg.end_ .refused }

def refuseSignalBehind (records : Records) : Bool × Segments :=
  if s.frontStop records ≠ .signal then (false, s) else (true, s.refuseRest)

def lapsedNumber (now : Instant) : Option ℕ :=
  match s.segments with
  | [seg] => if s.lapsed seg now then seg.number else none
  | _ => none

/-- `stranded`: the front released, and only retirement closes the open writer scope. -/
def stranded (records : Records) : Bool :=
  !s.retired && (match records.scope.state with
    | .opened _ => true
    | _ => false) &&
    s.segments.head?.any fun seg => seg.number.isSome && seg.released && !seg.cutOff

def refuseBehind (records : Records) : Bool × Segments :=
  if s.stranded records then (true, s.refuseRest) else (false, s)

/-- Whether a segment's decision is handed over now, and the decision. -/
def decidedNow (records : Records) (seg : Segment) : Option (ℕ × RecordKey × Decision) :=
  if seg.kind ≠ .probe ∨ seg.decided = true then none
  else
    match seg.number, seg.record with
    | some number, some key =>
      (decisionOf records seg key).map fun decision => (number, key, decision)
    | _, _ => none

def takeDecidedProbes (records : Records) : List (ℕ × RecordKey × Decision) × Segments :=
  (s.segments.filterMap (decidedNow records),
    { s with segments := s.segments.map fun seg =>
        if (decidedNow records seg).isSome then { seg with decided := true } else seg })

def takeCompletedProbes : List (ℕ × RecordKey × Option Decision) × Segments :=
  (s.completed, { s with completed := [] })

def undecide (number : ℕ) : Segments :=
  { s with
    segments := changeFirst
      (fun seg => decide (seg.kind = .probe) && decide (seg.number = some number))
      (fun seg => { seg with decided := false }) s.segments }

def nextTrigger : Option ℕ × Segments :=
  if s.retired then (none, s)
  else
    match s.nextNumber, s.segments with
    | .ok number, seg :: rest =>
      if seg.number.isSome then (none, s)
      else
        (some number, { s with
          segments := { seg with number := some number } :: rest
          last := number })
    | _, _ => (none, s)

/-- `submitted`: the place of a segment whose trigger is in flight. -/
def submitted (number : ℕ) : Except SegmentRefusal (ℕ × Segment) :=
  if s.retired then .error .retired
  else
    let place := s.segments.findIdx fun seg => decide (seg.number = some number)
    match s.segments[place]? with
    | none => .error .noSegment
    | some seg => if seg.written.isSome then .error .notSubmitted else .ok (place, seg)

def endWhere (which : Segment → Bool) (outcome : SegmentOutcome) : ℕ × Segments :=
  ((s.segments.filter which).length,
    { s with
      segments := s.segments.filter fun seg => !which seg
      ended := s.ended ++ (s.segments.filter which).map fun seg => seg.end_ outcome })

def endAt (place : ℕ) (seg : Segment) (outcome : SegmentOutcome) : Segments :=
  { s with
    segments := s.segments.eraseIdx place
    ended := s.ended ++ [seg.end_ outcome] }

def writeFailed (s : Segments) (number : ℕ) : Except SegmentRefusal Unit × Segments :=
  match s.submitted number with
  | .error refusal => (.error refusal, s)
  | .ok (place, seg) =>
    let s := s.endAt place seg .writeFailed
    match seg.op with
    | some op =>
      (.ok (), (s.endWhere (fun other =>
        decide (other.op = some op) && other.number.isNone) .gone).2)
    | none => (.ok (), s)

def withdrawn (number : ℕ) : Except SegmentRefusal Unit × Segments :=
  match s.submitted number with
  | .error refusal => (.error refusal, s)
  | .ok (place, seg) =>
    (.ok (), s.endAt place seg (match seg.kind with
      | .probe => .takenBack
      | .humanG => .cancelled))

def cancelled (s : Segments) (op : ℕ) : ℕ × Segments :=
  s.endWhere (fun seg => decide (seg.op = some op) && seg.number.isNone) .cancelled

/-- `feed_front`: one return marker for a segment whose trigger was reported written. -/
def feedFront (records : Records) (now : Instant) (seg : Segment) (seen : Seen) : Segment :=
  let ec := seg.ec <|> ((seg.record.bind records.get).bind fun r =>
    match r.frontier with
    | .taken offset => some (ReturnWatch.ec offset)
    | _ => none)
  let e1 := seg.e1.map fun w => w.feed seen
  { seg with
    ec := ec.map fun w => w.feed seen
    e1 := e1
    enabledAt := match e1 with
      | some w => if w.enabled then seg.enabledAt <|> some now else none
      | none => seg.enabledAt }

/-- The kept facts follow the record, and a release whose ending is unknown is cut off. -/
def refresh (records : Records) (seg : Segment) : Segment :=
  let fact := (seg.record.bind records.fact) <|> seg.fact
  { seg with
    fact := fact
    cutOff := seg.cutOff || (seg.released && fact.any fun f => waitUnknown f.decision f.report) }

/-- The front segment takes its matched record's editor. -/
def takeEditor (editors : List (RecordKey × Option EditorPin)) (key : RecordKey) (seg : Segment) :
    Segment × List (RecordKey × Option EditorPin) :=
  match editors.find? fun (known, _) => decide (known = key) with
  | some (_, editor) =>
    ({ seg with editorRunning := true, editor := editor },
      editors.eraseP fun (known, _) => decide (known = key))
  | none => (seg, editors)

def matchFront (records : Records) (seg : Segment) (number : ℕ) (written : Instant) :
    Segment × List (RecordKey × Option EditorPin) × Records :=
  if seg.record.isNone && !seg.mismatched then
    match findMatch records number written with
    | some key =>
      match records.matchSegment s.generation key number with
      | (.ok (), records) =>
        let (seg, editors) := takeEditor s.editors key { seg with record := some key }
        (seg, editors, records)
      | (.error _, records) => (seg, s.editors, records)
    | none => (seg, s.editors, records)
  else (seg, s.editors, records)

/-- A matched record that read another number. -/
def noteSeen (r : Record) (number : ℕ) (seg : Segment) : Segment :=
  { seg with mismatched := seg.mismatched || r.segSeen.any fun seen => decide (seen ≠ number) }

/-- When its record was first seen drained, and whether it releases before completion. -/
def noteRecord (agent : Agent) (runs : RecordKey → Bool) (now : Instant) (r : Record)
    (seg : Segment) : Segment :=
  { seg with
    drainedAt := if r.drained && seg.drainedAt.isNone then some now else seg.drainedAt
    released := seg.released || earlyRelease agent seg r runs }

def routeOf (r : Record) : Route := if r.helperOnly then .helperOnly else .editorBearing

/-- The markers the route waits for. -/
def watchOf (r : Record) (seg : Segment) : Option ReturnWatch :=
  if r.helperOnly then seg.e1 else seg.ec

/-- The front segment after its match: whether it is complete, with its matched record's key. -/
def settleFront (runs : RecordKey → Bool) (now : Instant) (records : Records) (fifo : HazardFifo)
    (seg : Segment) (number : ℕ) : Segment × Option RecordKey × Records × HazardFifo :=
  match seg.record with
  | none => (seg, none, records, fifo)
  | some key =>
    match records.get key with
    | none => (seg, none, records, fifo)
    | some r =>
      let seg := noteSeen r number seg
      if seg.mismatched then (seg, none, records, fifo)
      else
        let seg := noteRecord s.agent runs now r seg
        if !r.drained || !(watchOf r seg).any fun w => w.returned s.agent then
          (seg, none, records, fifo)
        else
          match records.complete fifo s.generation key (routeOf r) now now with
          | (.ok (), records, fifo) => (seg, some key, records, fifo)
          | (.error (.notPending (.complete _)), records, fifo) =>
            (seg, some key, records, fifo)
          | (.error _, records, fifo) => (seg, none, records, fifo)

/-- The loop of `evaluate` over the segments left: the front one, then any that a completion brings
to the front. -/
def settleAll (runs : RecordKey → Bool) (now : Instant) :
    List Segment → Segments → Records → HazardFifo → Segments × Records × HazardFifo
  | [], s, records, fifo => ({ s with segments := [] }, records, fifo)
  | seg :: rest, s, records, fifo =>
    match seg.number, seg.written with
    | some number, some (_, written) =>
      let (seg, editors, records) := s.matchFront records seg number written
      let s := { s with editors := editors }
      match s.settleFront runs now records fifo seg number with
      | (seg, none, records, fifo) => ({ s with segments := seg :: rest }, records, fifo)
      | (seg, some key, records, fifo) =>
        settleAll runs now rest { s with
          completed := if decide (seg.kind = .probe) && !seg.decided then
              s.completed ++ [(number, key, decisionOf records seg key)]
            else s.completed
          ended := s.ended ++ [seg.end_ .written] } records fifo
    | _, _ => ({ s with segments := seg :: rest }, records, fifo)

def evaluate (runs : RecordKey → Bool) (records : Records) (fifo : HazardFifo) (now : Instant) :
    Segments × Records × HazardFifo :=
  settleAll runs now (s.segments.map (refresh records)) s records fifo

/-- `written`: the writer took the trigger at an output offset, at an instant. -/
def written (s : Segments) (runs : RecordKey → Bool) (records : Records) (fifo : HazardFifo)
    (number offset : ℕ) (time now : Instant) :
    Except SegmentRefusal Unit × Segments × Records × HazardFifo :=
  match s.submitted number with
  | .error refusal => (.error refusal, s, records, fifo)
  | .ok (place, seg) =>
    let taken := { seg with
      written := some (offset, time)
      e1 := some (.e1 offset)
      inFlight := [] }
    let fed := if place = 0 then seg.inFlight.foldl (feedFront records now) taken else taken
    (.ok (), { s with segments := s.segments.set place fed }.evaluate runs records fifo now)

/-- One return marker that the output hook read. -/
def noteMarker (records : Records) (now : Instant) (seen : Seen) : Segments :=
  match s.segments with
  | seg :: rest =>
    { s with segments := (if seg.written.isSome then feedFront records now seg seen
      else if seg.number.isSome then
        { seg with inFlight := (if seg.inFlight.length = inFlightMarkers then seg.inFlight.drop 1
          else seg.inFlight) ++ [seen] }
      else seg) :: rest }
  | [] => s

/-- `on_output`: the markers of one push. The checks of the editors may answer by the marker. -/
def onOutput (runs : ℕ → RecordKey → Bool) (now : Instant) :
    ℕ → List Seen → Segments → Records → HazardFifo → Segments × Records × HazardFifo
  | _, [], s, records, fifo => (s, records, fifo)
  | place, seen :: rest, s, records, fifo =>
    if s.retired then (s, records, fifo)
    else
      let (s, records, fifo) :=
        (s.noteMarker records now seen).evaluate (runs place) records fifo now
      onOutput runs now (place + 1) rest s records fifo

def settle (runs : RecordKey → Bool) (records : Records) (fifo : HazardFifo) (now : Instant) :
    Segments × Records × HazardFifo :=
  if s.retired then (s, records, fifo) else s.evaluate runs records fifo now

def drained (runs again : RecordKey → Bool) (records : Records) (fifo : HazardFifo)
    (fact : ExitFact) (now : Instant) :
    Except SegmentRefusal Unit × Segments × Records × HazardFifo :=
  if s.retired then (.error .retired, s, records, fifo)
  else if fact.generation ≠ s.generation then (.error .stale, s, records, fifo)
  else
    let (s, records, fifo) := s.evaluate runs records fifo now
    let s := { s with
      segments := changeFirst (fun seg => decide (seg.record = some fact.key))
        (fun seg => { seg with fact := some fact }) s.segments }
    (.ok (), s.evaluate again records fifo now)

/-- An editor of a record no segment has matched yet. -/
def noteEditor (key : RecordKey) (editor : Option EditorPin) : Segments :=
  if s.editors.any fun (known, _) => decide (known = key) then
    { s with
      editors := changeFirst (fun (known, _) => decide (known = key))
        (fun (known, kept) => (known, if editor.isSome then editor else kept)) s.editors }
  else
    { s with editors := (if s.editors.length = recordCap then s.editors.drop 1 else s.editors) ++
        [(key, editor)] }

def editorReport (runs again : RecordKey → Bool) (records : Records) (fifo : HazardFifo)
    (key : RecordKey) (editor : Option EditorPin) (now : Instant) :
    Bool × Segments × Records × HazardFifo :=
  if s.retired then (false, s, records, fifo)
  else
    let (s, records, fifo) := s.evaluate runs records fifo now
    if s.segments.any fun seg => decide (seg.record = some key) then
      let s := { s with
        segments := changeFirst (fun seg => decide (seg.record = some key))
          (fun seg => { seg with
            editorRunning := true
            editor := if editor.isSome then editor else seg.editor }) s.segments }
      (true, s.evaluate again records fifo now)
    else (false, s.noteEditor key editor, records, fifo)

def retire : Segments :=
  if s.retired then s else { (s.endWhere (fun _ => true) .retired).2 with retired := true }

def takeEnded : List Ended × Segments :=
  (s.ended, { s with ended := [] })

end Segments

end AgentDeck.Probe
