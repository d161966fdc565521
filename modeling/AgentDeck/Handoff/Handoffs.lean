import AgentDeck.Lib.KeySets
import AgentDeck.Text
import AgentDeck.Usage.Tokens

/-!
# Hand-offs

`Handoffs` of `src/telemetry/handoff.rs`: one span for each task an orchestrator delegates and one
for each report it reads, from the posts of the tasks and the changes of the inbox, in whichever
order they come.

Everything but the held changes is the `Books`. A finished span is kept with the task, or the report
and the task, it was emitted for. Minted ids are counted.
-/

namespace AgentDeck.Handoff

open Usage (saturatingAdd u64Max)

def maxOpenHandoffs : ℕ := 256

def maxHandoffAgeNanos : ℕ := 24 * 60 * 60 * 1000000000

def maxUnreadReports : ℕ := 256

def maxEarlyNotices : ℕ := 64

def earlyNoticeAgeNanos : ℕ := 60 * 1000000000

inductive UndeliverableReason where
  | agentExited
  | maxDeliver
  | superseded
  | inboxShut
  | cancelled
  deriving DecidableEq

inductive Outcome where
  | reported
  | undeliverable (reason : Option UndeliverableReason)
  | superseded
  | unknown
  | daemonShutdown
  deriving DecidableEq

def Outcome.asStr : Outcome → Text
  | .reported => "reported".toList
  | .undeliverable _ => "undeliverable".toList
  | .superseded => "superseded".toList
  | .unknown => "unknown".toList
  | .daemonShutdown => "daemon_shutdown".toList

def reasonName : UndeliverableReason → Text
  | .agentExited => "agent_exited".toList
  | .maxDeliver => "max_deliver".toList
  | .superseded => "superseded".toList
  | .inboxShut => "inbox_shut".toList
  | .cancelled => "cancelled".toList

/-! ## Spans -/

inductive AttrKey where
  | handoffId
  | runId
  | paneId
  | handoffWorkerRunId
  | role
  | orchestrationId
  | handoffOutcome
  | handoffUndeliverableReason
  deriving DecidableEq

inductive SpanName where
  | agentHandoff
  | agentHandoffRead
  deriving DecidableEq

inductive EventName where
  | handoffTaken
  | handoffReported
  deriving DecidableEq

structure SpanRecord where
  traceId : ℕ
  spanId : ℕ
  parentSpanId : Option ℕ
  name : SpanName
  start : ℕ
  finish : ℕ
  attributes : List (AttrKey × Text)
  events : List (EventName × ℕ)
  deriving DecidableEq

def optStr (key : AttrKey) (value : Option Text) : List (AttrKey × Text) :=
  ((value.filter fun text => !text.trim.isEmpty).map fun text => (key, text)).toList

/-! ## What is kept -/

structure Posted where
  messageId : Text
  orchestratorPane : Text
  role : Text
  postedAt : ℕ
  deriving DecidableEq

structure RunRef where
  runId : Text
  /-- The run's trace and span, once it is open. -/
  span : Option (ℕ × ℕ)
  orchestrationId : Option Text
  deriving DecidableEq

inductive Change where
  | taken (id : Text)
  | acknowledged (id : Text)
  | undeliverable (id : Text) (reason : Option UndeliverableReason)
  | report (report task : Text) (producer : Text × Text)
  | uncorrelated (pane : Text) (agent : Option Text)
  deriving DecidableEq

def Change.messageId : Change → Option Text
  | .taken id => some id
  | .acknowledged id => some id
  | .undeliverable id _ => some id
  | .report arriving _ _ => some arriving
  | .uncorrelated _ _ => none

/-- The task a change is about, where it can be one whose hand-off ended. -/
def Change.subject : Change → Option Text
  | .taken id => some id
  | .acknowledged id => some id
  | .undeliverable id _ => some id
  | .report _ task _ => some task
  | .uncorrelated _ _ => none

structure OpenHandoff where
  traceId : ℕ
  spanId : ℕ
  parent : Option ℕ
  start : ℕ
  orchestratorPane : Text
  orchestratorRunId : Option Text
  orchestrationId : Option Text
  role : Text
  workerRunId : Option Text
  taken : Option ℕ
  reported : Option ℕ
  deriving DecidableEq

structure UnreadReport where
  task : Text
  traceId : ℕ
  handoffSpan : ℕ
  arrived : ℕ
  orchestratorPane : Text
  orchestratorRunId : Option Text
  orchestrationId : Option Text
  role : Text
  deriving DecidableEq

/-- The `agent.handoff.read` span of `unread`, which its orchestrator read at `now`. -/
def readSpan (unread : UnreadReport) (now spanId : ℕ) : SpanRecord where
  traceId := unread.traceId
  spanId := spanId
  parentSpanId := some unread.handoffSpan
  name := .agentHandoffRead
  start := unread.arrived
  finish := max now unread.arrived
  attributes :=
    [(.handoffId, unread.task)] ++ optStr .runId unread.orchestratorRunId ++
      [(.paneId, unread.orchestratorPane)] ++ optStr .role (some unread.role) ++
      optStr .orchestrationId unread.orchestrationId
  events := []

def handoffEvents (handoff : OpenHandoff) : List (EventName × ℕ) :=
  (handoff.taken.map fun time => (EventName.handoffTaken, time)).toList ++
    (handoff.reported.map fun time => (EventName.handoffReported, time)).toList

def latestEvent (handoff : OpenHandoff) : ℕ :=
  ((handoffEvents handoff).map Prod.snd).foldl max handoff.start

def span (id : Text) (handoff : OpenHandoff) (outcome : Outcome) (now : ℕ) : SpanRecord where
  traceId := handoff.traceId
  spanId := handoff.spanId
  parentSpanId := handoff.parent
  name := .agentHandoff
  start := handoff.start
  finish := max now (latestEvent handoff)
  attributes :=
    [(.handoffId, id)] ++ optStr .runId handoff.orchestratorRunId ++
      [(.paneId, handoff.orchestratorPane)] ++
      optStr .handoffWorkerRunId handoff.workerRunId ++ optStr .role (some handoff.role) ++
      optStr .orchestrationId handoff.orchestrationId ++
      [(.handoffOutcome, outcome.asStr)] ++
      (match outcome with
        | .undeliverable (some reason) => [(.handoffUndeliverableReason, reasonName reason)]
        | _ => [])
  events := handoffEvents handoff

inductive Emitted where
  | handoff (task : Text) (outcome : Outcome) (span : SpanRecord)
  | read (report task : Text) (span : SpanRecord)
  deriving DecidableEq

structure Books where
  opened : SortedMap Text OpenHandoff
  order : List Text
  unread : SortedMap Text UnreadReport
  unreadOrder : List Text
  ended : List Text
  endedIds : List Text
  finished : List Emitted
  minted : ℕ

structure Handoffs where
  books : Books
  early : List (Change × ℕ)

def Handoffs.new : Handoffs := ⟨⟨SortedMap.empty, [], SortedMap.empty, [], [], [], [], 0⟩, []⟩

namespace Books

/-- `ended` and `ended_ids` with one more, and the oldest past the limit forgotten. -/
def noteEnded (ended endedIds : List Text) (id : Text) : List Text × List Text :=
  let noted := if id ∈ endedIds then (ended, endedIds) else (ended ++ [id], endedIds ++ [id])
  let forgotten := noted.1.take (noted.1.length - maxOpenHandoffs)
  (noted.1.drop (noted.1.length - maxOpenHandoffs),
    noted.2.filter fun id => id ∉ forgotten)

variable (books : Books)

def endTask (id : Text) (outcome : Outcome) (now : ℕ) : Books :=
  let order := books.order.filter fun other => other ≠ id
  match books.opened.get? id with
  | none => { books with order := order }
  | some handoff =>
    let noted := noteEnded books.ended books.endedIds id
    { books with
      order := order
      opened := books.opened.erase id
      finished := books.finished ++ [.handoff id outcome (span id handoff outcome now)]
      ended := noted.1
      endedIds := noted.2 }

@[irreducible]
def bound (start : ℕ) : ℕ := saturatingAdd start maxHandoffAgeNanos

/-- The hand-offs past their age, each with the moment it reached it. -/
def expired (now : ℕ) : List (Text × ℕ) :=
  books.order.filterMap fun id =>
    (books.opened.get? id).bind fun handoff =>
      if bound handoff.start ≤ now then some (id, bound handoff.start) else none

def expire (now : ℕ) : Books :=
  let ended := (books.expired now).foldl
    (fun books aged => books.endTask aged.1 .unknown aged.2) books
  let unread := ended.unread.filter fun _ report =>
    decide (now - report.arrived < maxHandoffAgeNanos)
  { ended with
    unread := unread
    unreadOrder := ended.unreadOrder.filter fun id => (unread.get? id).isSome }

def noteTaken (id : Text) (handoff : OpenHandoff) (now : ℕ) : Books :=
  { books with
    opened := books.opened.insert id
      { handoff with taken := some (handoff.taken.getD (max now handoff.start)) } }

def noteRead (id : Text) (unread : UnreadReport) (now : ℕ) : Books :=
  { books with
    unread := books.unread.erase id
    unreadOrder := books.unreadOrder.filter fun other => other ≠ id
    finished := books.finished ++ [.read id unread.task (readSpan unread now books.minted)]
    minted := books.minted + 1 }

/-- The oldest `count` unread reports are forgotten. -/
def forgetUnread (count : ℕ) : Books :=
  { books with
    unread := (books.unreadOrder.take count).foldl SortedMap.erase books.unread
    unreadOrder := books.unreadOrder.drop count }

/-- One more report waits to be read. -/
def addUnread (report : Text) (unread : UnreadReport) : Books :=
  { books with
    unread := books.unread.insert report unread
    unreadOrder := books.unreadOrder ++ [report] }

/-- When a report seen at `now` arrived: not before its hand-off began or was taken. -/
def arrival (handoff : OpenHandoff) (now : ℕ) : ℕ :=
  max (max now handoff.start) (handoff.taken.getD 0)

def reportedBy (handoff : OpenHandoff) (now : ℕ) (producer : Option RunRef) : OpenHandoff :=
  { handoff with
    reported := some (arrival handoff now)
    workerRunId := (producer.map RunRef.runId).or handoff.workerRunId }

def unreadOf (task : Text) (handoff : OpenHandoff) (now : ℕ) : UnreadReport :=
  ⟨task, handoff.traceId, handoff.spanId, arrival handoff now, handoff.orchestratorPane,
    handoff.orchestratorRunId, handoff.orchestrationId, handoff.role⟩

/-- A report ends the hand-off of its task and waits to be read. -/
def noteReport (report task : Text) (handoff : OpenHandoff) (now : ℕ) (producer : Option RunRef) :
    Books :=
  let closed := ({ books with
    opened := books.opened.insert task (reportedBy handoff now producer) } : Books).endTask task
      .reported (arrival handoff now)
  let added := closed.addUnread report (unreadOf task handoff now)
  added.forgetUnread (added.unreadOrder.length - maxUnreadReports)

/-- Apply `change` to the hand-off it concerns; whether one did. -/
def applyKnown (change : Change) (now : ℕ) (runOf : Text → Text → Option RunRef) : Books × Bool :=
  -- A notice about a task whose hand-off ended has nothing left to change.
  if change.subject.any (fun id => decide (id ∈ books.endedIds)) = true then (books, true)
  else
    match change with
    | .taken id =>
      -- The orchestrator taking a report is not reading it.
      if (books.unread.get? id).isSome = true then (books, true)
      else
        match books.opened.get? id with
        | none => (books, false)
        | some handoff => (books.noteTaken id handoff now, true)
    | .acknowledged id =>
      match books.unread.get? id with
      | some unread => (books.noteRead id unread now, true)
      | none =>
        match books.opened.get? id with
        | none => (books, false)
        | some handoff => (books.noteTaken id handoff now, true)
    | .undeliverable id reason =>
      -- A task whose report arrived has ended, delivered, whatever becomes of its message now.
      match books.opened.get? id with
      | none => (books, false)
      | some _ =>
        (books.endTask id
          (if reason = some .superseded then .superseded else .undeliverable reason) now, true)
    | .report report task producer =>
      match books.opened.get? task with
      | none => (books, false)
      | some handoff =>
        (books.noteReport report task handoff now (runOf producer.1 producer.2), true)
    | .uncorrelated _ _ => (books, true)

def evict (now : ℕ) : ℕ → Books → Books
  | 0, books => books
  | fuel + 1, books =>
    if maxOpenHandoffs < books.order.length then
      match books.order with
      | [] => books
      | oldest :: _ => evict now fuel (books.endTask oldest .unknown now)
    else books

def open_ (posted : Posted) (orchestrator : Option RunRef) (workerRunId : Option Text) : Books :=
  let joined := orchestrator.bind RunRef.span
  let handoff : OpenHandoff := {
    traceId := (joined.map Prod.fst).getD books.minted
    spanId := books.minted + 1
    parent := joined.map Prod.snd
    start := posted.postedAt
    orchestratorPane := posted.orchestratorPane
    orchestratorRunId := orchestrator.map RunRef.runId
    orchestrationId := orchestrator.bind RunRef.orchestrationId
    role := posted.role
    workerRunId := workerRunId
    taken := none
    reported := none }
  { books with
    opened := books.opened.insert posted.messageId handoff
    order := books.order ++ [posted.messageId]
    minted := books.minted + 2 }

def concerns (task : Text) (change : Change) : Bool :=
  match change with
  | .report _ named _ => decide (named = task)
  | other =>
    other.messageId.any fun id =>
      decide (id = task) ||
        (books.unread.get? id).any fun report => decide (report.task = task)

def endAll (outcome : Outcome) (now : ℕ) (ids : List Text) : Books :=
  ids.foldl (fun books id => books.endTask id outcome now) books

end Books

namespace Handoffs

def expire (handoffs : Handoffs) (now : ℕ) : Handoffs :=
  ⟨handoffs.books.expire now,
    handoffs.early.filter fun held => decide (now - held.2 < earlyNoticeAgeNanos)⟩

/-- One held change, replayed after the post of `task` or held further. -/
def replay (task : Text) (now : ℕ) (runOf : Text → Text → Option RunRef) (handoffs : Handoffs)
    (held : Change × ℕ) : Handoffs :=
  if handoffs.books.concerns task held.1 then
    ⟨(handoffs.books.applyKnown held.1 (max held.2 now) runOf).1, handoffs.early⟩
  else ⟨handoffs.books, handoffs.early ++ [held]⟩

def posted (handoffs : Handoffs) (posted : Posted) (orchestrator : Option RunRef)
    (workerRunId : Option Text) (runOf : Text → Text → Option RunRef) : Handoffs :=
  let now := posted.postedAt
  let handoffs := handoffs.expire now
  if (handoffs.books.opened.get? posted.messageId).isSome then handoffs
  else
    let books := handoffs.books.open_ posted orchestrator workerRunId
    let books := Books.evict now books.order.length books
    handoffs.early.foldl (replay posted.messageId now runOf) ⟨books, []⟩

def apply (handoffs : Handoffs) (change : Change) (now : ℕ) (runOf : Text → Text → Option RunRef) :
    Handoffs :=
  let handoffs := handoffs.expire now
  let applied := handoffs.books.applyKnown change now runOf
  if applied.2 = true then ⟨applied.1, handoffs.early⟩
  else
    let early := handoffs.early ++ [(change, now)]
    ⟨applied.1, early.drop (early.length - maxEarlyNotices)⟩

def runEnded (handoffs : Handoffs) (runId : Text) (shuttingDown : Bool) (now : ℕ) : Handoffs :=
  let handoffs := handoffs.expire now
  let ending := handoffs.books.order.filter fun id =>
    (handoffs.books.opened.get? id).any fun handoff =>
      decide (handoff.orchestratorRunId = some runId)
  let books := handoffs.books.endAll (if shuttingDown then .daemonShutdown else .unknown) now ending
  let unread := books.unread.filter fun _ report => decide (report.orchestratorRunId ≠ some runId)
  ⟨{ books with
      unread := unread
      unreadOrder := books.unreadOrder.filter fun id => (unread.get? id).isSome },
    handoffs.early⟩

def endAll (handoffs : Handoffs) (now : ℕ) : Handoffs :=
  let handoffs := handoffs.expire now
  let books := handoffs.books.endAll .daemonShutdown now handoffs.books.order
  ⟨{ books with
      unread := SortedMap.empty
      unreadOrder := []
      ended := []
      endedIds := [] },
    []⟩

end Handoffs

/-! ## Calls -/

inductive Call where
  | posted (posted : Posted) (orchestrator : Option RunRef) (workerRunId : Option Text)
      (runOf : Text → Text → Option RunRef)
  | apply (change : Change) (now : ℕ) (runOf : Text → Text → Option RunRef)
  | runEnded (runId : Text) (shuttingDown : Bool) (now : ℕ)
  | expire (now : ℕ)
  | endAll (now : ℕ)

def Call.now : Call → ℕ
  | .posted task _ _ _ => task.postedAt
  | .apply _ now _ => now
  | .runEnded _ _ now => now
  | .expire now => now
  | .endAll now => now

def Handoffs.step (handoffs : Handoffs) : Call → Handoffs
  | .posted posted orchestrator workerRunId runOf =>
    handoffs.posted posted orchestrator workerRunId runOf
  | .apply change now runOf => handoffs.apply change now runOf
  | .runEnded runId shuttingDown now => handoffs.runEnded runId shuttingDown now
  | .expire now => handoffs.expire now
  | .endAll now => handoffs.endAll now

def Handoffs.run (calls : List Call) : Handoffs := calls.foldl Handoffs.step .new

end AgentDeck.Handoff
