import AgentDeck.Attempts.Types

/-!
# Delivery attempts: the operations

The operations of `AttemptModel` as functions on its state. An operation that answers returns
its answer beside the new state; loops over the records keep the order of the source's
`BTreeMap`. The rules of the finalizer are one definition each, and `Delivery.rules` picks the
first that matches, as the labelled block of `AttemptModel::finalize` does.
-/

namespace AgentDeck.Attempts

namespace Delivery

/-- What the finalizer reads of a message's current assignment before its rules run. -/
structure Reading where
  committed : Bool
  held : Bool
  resuming : Bool
  allFinal : Bool
  allNotHanded : Bool
  noneIssued : Bool
  witnessed : Bool
  cleared : Bool
  deriving DecidableEq

def revoke (now : Instant) (attempt : Attempt) : Attempt :=
  if !attempt.stage.isFinal && !attempt.revoked then
    { attempt with revoked := true, revokeSent := some now }
  else attempt

def revokeEffects (id : String) (attempts : List Attempt) : List Effect :=
  (attempts.filter fun attempt => !attempt.stage.isFinal && !attempt.revoked).map
    fun attempt => .revoke id attempt.a attempt.e

variable (msg : Delivery)

/-- Tell the sender once that the message was delivered after all. -/
def correct (id : String) (despiteCancel : Bool) : Delivery × List Effect :=
  if msg.corrected then (msg, [])
  else ({ msg with corrected := true }, [.deliveredAfterAll id despiteCancel])

def ruleCommitted (now : Instant) (id : String) : Delivery × List Effect :=
  if msg.state = .undeliverable .maxDeliver ∧ msg.offer = false then
    (msg.setState .settled).correct id false
  else if msg.state.isTerminal then
    -- A message that ended otherwise stays ended; only its sender is corrected.
    match msg.state with
    | .undeliverable .cancelled => msg.correct id true
    | .undeliverable .maxDeliver => msg.correct id false
    | _ => (msg, [])
  else
    let toldOtherwise := msg.latch || msg.state.isUncertain
    let settled := { msg.setState .settled with
      token := none
      possessedSince := none
      waitingSince := none
      heldLongSent := none
      attempts := msg.attempts.map (revoke now) }
    let revokes := revokeEffects id msg.attempts
    if toldOtherwise then
      let told := settled.correct id msg.latch
      (told.1, revokes ++ told.2)
    else (settled, revokes)

def ruleLatched (id : String) (reading : Reading) : Delivery × List Effect :=
  let dropped := { msg with token := none, possessedSince := none, waitingSince := none }
  if reading.allFinal then
    (dropped.setState (.undeliverable .cancelled),
      if msg.offer && reading.allNotHanded then [.returnToPool id msg.a] else [])
  else (dropped.setState .cancelHeld, [])

def ruleNotHanded (limits : Limits) (id : String) : Delivery × List Effect :=
  let dropped := { msg with token := none, possessedSince := none, waitingSince := none }
  if msg.state = .queued then (dropped, [])
  else
    let requeued := { dropped with requeues := msg.requeues + 1 }
    if limits.maxDeliver ≤ requeued.requeues ∨ limits.maxAttempts ≤ msg.issued then
      (requeued.setState (.undeliverable .maxDeliver), [])
    else if msg.offer then
      ({ requeued with a := msg.a + 1 }.setState .queued, [.returnToPool id msg.a])
    else (requeued.setState .queued, [])

/-- Rule 4: fresh possession, issue grace or a pending resume answer. -/
def ruleHeld (now : Instant) (held : Bool) : Delivery :=
  let msg :=
    if msg.token.any fun token => token.kind = .auto then { msg with token := none } else msg
  let msg := msg.setState .attempting
  { msg with
    waitingSince := none
    possessedSince := if held then some (msg.possessedSince.getD now) else none }

/-- Rule 5: possibly handed and nobody possesses it. -/
def ruleLapsed (limits : Limits) (now : Instant) (cleared : Bool) : Delivery :=
  let waiting := msg.waitingSince.getD now
  let waited := decide (waiting + limits.uncertainAfter ≤ now)
  let msg := { msg with possessedSince := none, waitingSince := some waiting }
  if msg.token.isSome then
    if waited then { msg with token := none }.setState (.uncertain .lapsed)
    else msg.setState .attempting
  else if msg.state.isUncertain then msg
  else if limits.maxAttempts ≤ msg.issued then msg.setState (.uncertain .outOfAttempts)
  else if !cleared then
    if waited then msg.setState (.uncertain .lapsed) else msg.setState .attempting
  else if msg.autoRepeats < limits.maxAutoRepeats then
    let msg := msg.setState .attempting
    { msg with token := some ⟨msg.a, msg.revision, .auto⟩ }
  else msg.setState (.uncertain .lapsed)

/-- The finalizer's rules: the first that matches decides. -/
def rules (limits : Limits) (now : Instant) (id : String) (reading : Reading) :
    Delivery × List Effect :=
  if reading.committed then msg.ruleCommitted now id
  else if msg.state.isTerminal then (msg, [])
  else if msg.latch then msg.ruleLatched id reading
  else if reading.noneIssued then (msg.setState .queued, [])
  else if reading.allNotHanded then msg.ruleNotHanded limits id
  else if reading.held || reading.resuming then (msg.ruleHeld now reading.held, [])
  else (msg.ruleLapsed limits now reading.cleared, [])

/-- The not-started window runs while the message is attempting and not cancelled. -/
def noteWitness (now : Instant) (witnessed : Bool) : Delivery :=
  if msg.state = .attempting ∧ msg.latch = false then
    if witnessed then
      { msg with notStartedAnchor := some (msg.notStartedAnchor.getD now) }
    else msg
  else { msg with notStartedAnchor := none, notStarted := none }

/-- `reclaim`'s test of one attempt, its verifier dropped first when the message settled. -/
def reclaimAttempt (attempt : Attempt) : Attempt :=
  if attempt.reclaimed then attempt
  else
    let attempt :=
      if msg.state = .settled then { attempt with verifier := false } else attempt
    if msg.state.isTerminal && attempt.stage.isFinal && !attempt.resumePending &&
        !attempt.verifier && !attempt.withheld then
      { attempt with reclaimed := true }
    else attempt

def reclaimable : List Attempt :=
  msg.attempts.filter fun attempt => !attempt.reclaimed && (msg.reclaimAttempt attempt).reclaimed

/-- The record after a hand-out of kind `kind`. A check covers one repeat decision, so every
earlier one of the assignment is stale. -/
def handOut (now : Instant) (rx : Rx) (d : ℕ) (slot : Slot) (kind : IssueKind) : Delivery :=
  { msg with
    attempts :=
      (msg.attempts.map fun attempt => if attempt.a = msg.a then attempt.recheck else attempt) ++
        [{ a := msg.a
           e := msg.attempts.length + 1
           rx := rx
           d := d
           stage := .issued
           kind := kind
           cleared := false
           mark := 0
           resumePending := false
           revoked := false
           revokeSent := none
           verifier := false
           correcting := none
           reclaimed := false
           issuedAt := now
           resumeDeadline := none
           slot := slot
           quietAt := none
           withheld := false
           stagedUntil := none }]
    issued := msg.issued + 1
    autoRepeats := if kind = .autoRepeat then msg.autoRepeats + 1 else msg.autoRepeats
    token := none }

/-- An applied action's answer, when it is asked again. -/
def repeated (revision : ℕ) (verb : Verb) : Option ActionOutcome :=
  match msg.lastAction with
  | some (r, v, outcome) => if r = revision ∧ v = verb then some outcome else none
  | none => none

/-- The attentions on which the user may ask for a manual repeat. -/
def retryable : Bool :=
  msg.state.isUncertain ||
    (decide (msg.state = .attempting) &&
      (msg.heldLongSent.isSome || decide (msg.notStarted = some msg.revision)))

def retried : Delivery :=
  let attempting :=
    if msg.state = .attempting then { msg with revision := msg.revision + 1 }
    else msg.setState .attempting
  { attempting with
    token := some ⟨msg.a, attempting.revision, .manual⟩
    possessedSince := none
    waitingSince := none
    heldLongSent := none
    notStarted := none
    notStartedAnchor := none
    notStartedAfterE := msg.attempts.length }

def cancelled (now : Instant) : Delivery :=
  { msg with
    latch := true
    token := none
    revision := msg.revision + 1
    attempts := msg.attempts.map fun attempt =>
      if attempt.a = msg.a then revoke now attempt else attempt }

/-- An attempt of a generation that exited: open ones are fenced, all evidence goes. -/
def exitAttempt (attempt : Attempt) : Attempt :=
  let attempt :=
    if !attempt.stage.isFinal || attempt.resumePending then
      { attempt with stage := .fenced, resumePending := false, resumeDeadline := none }
    else attempt
  { attempt with verifier := false, reclaimed := true }

def exited (msg : Delivery) : Delivery :=
  let ended := { msg with attempts := msg.attempts.map exitAttempt, token := none }
  if msg.state.isTerminal then ended else ended.setState (.undeliverable .exited)

end Delivery

def TokenKind.issueKind : TokenKind → IssueKind
  | .auto => .autoRepeat
  | .manual => .manualRetry

namespace AttemptModel

def new (limits : Limits) (generation : ℕ) : AttemptModel where
  limits := limits
  generation := generation
  receivers := .empty
  slots := .empty
  nextRx := 1
  messages := .empty
  forgottenA := 0
  evidenceReserved := 0
  effects := []
  exited := false
  turnClock := {}
  seenSlots := ∅

variable (model : AttemptModel) (now : Instant)

def emit (effects : List Effect) : AttemptModel :=
  { model with effects := model.effects ++ effects }

def attempt (model : AttemptModel) (id : String) (a e : ℕ) : Option Attempt :=
  (model.messages.get? id).bind fun msg => msg.attempt a e

def updateAttempt (model : AttemptModel) (id : String) (a e : ℕ) (f : Attempt → Attempt) :
    AttemptModel :=
  { model with messages := model.messages.modify id fun msg => msg.updateAttempt a e f }

/-- A loop over every attempt of every record. -/
def mapAttempts (f : String → Attempt → Attempt) : AttemptModel :=
  { model with
    messages := model.messages.map fun id msg => { msg with attempts := msg.attempts.map (f id) } }

/-- The `(id, a, e)` of every attempt that satisfies `p`, in the order of the records. -/
def select (p : String → Attempt → Bool) : List (String × ℕ × ℕ) :=
  model.messages.entries.flatMap fun entry =>
    (entry.2.attempts.filter (p entry.1)).map fun attempt => (entry.1, attempt.a, attempt.e)

def possesses (id : String) (attempt : Attempt) : Bool :=
  possessed model.receivers model.limits model.turnClock id attempt now

/-! ## The finalizer -/

def reading (id : String) (msg : Delivery) :
    Delivery.Reading where
  committed := msg.current.any fun attempt => attempt.stage = .committed
  held := msg.current.any (model.possesses now id)
  resuming := msg.current.any fun attempt => attempt.resumePending || attempt.withheld
  allFinal := msg.current.all fun attempt =>
    attempt.stage.isFinal && !attempt.resumePending && !attempt.withheld
  allNotHanded := !msg.current.isEmpty && msg.current.all fun attempt => attempt.stage = .notHanded
  noneIssued := msg.current.isEmpty
  witnessed := (msg.current.filter fun attempt => msg.notStartedAfterE < attempt.e).any
    fun attempt =>
    attempt.stage = .handed ||
      (model.possesses now id attempt &&
        snapshotHolds model.receivers model.limits id attempt now)
  cleared := msg.current.all fun attempt => !attempt.needsClearance || attempt.cleared

/-- Return an attempt's evidence reservation once it is quiescent. -/
def reclaim (id : String) : AttemptModel :=
  match model.messages.get? id with
  | none => model
  | some msg =>
    { model with
      messages := model.messages.insert id
        { msg with attempts := msg.attempts.map msg.reclaimAttempt }
      -- One saturating subtraction for each attempt comes to one truncated subtraction.
      evidenceReserved := model.evidenceReserved - evidencePerAttempt * msg.reclaimable.length
      effects := model.effects ++
        msg.reclaimable.map fun attempt => .reclaimed id attempt.a attempt.e }

def finalize (id : String) : AttemptModel :=
  if model.exited then model
  else
    match model.messages.get? id with
    | none => model
    | some msg =>
      let reading := model.reading now id msg
      let ruled := msg.rules model.limits now id reading
      let msg := ruled.1.noteWitness now reading.witnessed
      ({ model with messages := model.messages.insert id msg }.emit ruled.2).reclaim id

def finalizeEach (ids : List String) : AttemptModel :=
  ids.foldl (fun model id => model.finalize now id) model

def finalizeAll : AttemptModel :=
  model.finalizeEach now model.messages.keys

def finalizeBoundTo (rx : Rx) : AttemptModel :=
  model.finalizeEach now <|
    (model.messages.entries.filter fun entry =>
      entry.2.attempts.any fun attempt => attempt.rx = rx).map Prod.fst

/-! ## Posting and handing out -/

def post (id : String) (offer : Bool) : AttemptModel :=
  match model.messages.get? id with
  | some _ => model
  | none =>
    { model with messages := model.messages.insert id (.new offer (model.forgottenA + 1)) }

/-- Whether a repeat token still holds under the lock right now. -/
def tokenValid (id : String) (msg : Delivery) (token : RepeatToken) : Bool :=
  let held := msg.current.any fun attempt =>
    attempt.resumePending || model.possesses now id attempt
  let cleared := msg.current.all fun attempt => !attempt.needsClearance || attempt.cleared
  decide (token.a = msg.a) && decide (token.revision = msg.revision) &&
    (decide (token.kind = .manual) || (!held && cleared))

/-- `id` handed out to `rx`, before the finalizer runs. -/
def handTo (id : String) (rx : Rx) (receiver : Receiver) (msg : Delivery) (kind : IssueKind) :
    AttemptModel :=
  let d := receiver.nextD + 1
  { model with
    receivers := model.receivers.insert rx { receiver with nextD := d }
    messages := model.messages.insert id (msg.handOut now rx d receiver.slot kind)
    evidenceReserved := model.evidenceReserved + evidencePerAttempt }

def handOut (id : String) (rx : Rx) (receiver : Receiver) (msg : Delivery) (kind : IssueKind) :
    Except IssueRefusal Issued × AttemptModel :=
  if model.limits.maxAttempts ≤ msg.issued then
    (.error .outOfAttempts, model.finalize now id)
  else if model.limits.evidenceLimit < model.evidenceReserved + evidencePerAttempt then
    (.error .evidencePaused, model.emit [.evidencePaused model.evidenceReserved])
  else
    (.ok ⟨msg.a, msg.attempts.length + 1, receiver.nextD + 1, kind⟩,
      (model.handTo now id rx receiver msg kind).finalize now id)

def issue (id : String) (rx : Rx) : Except IssueRefusal Issued × AttemptModel :=
  if model.exited then (.error .exited, model)
  else
    match model.receivers.get? rx with
    | none => (.error .retiredReceiver, model)
    | some receiver =>
      if receiver.retired then (.error .retiredReceiver, model)
      else
        match model.messages.get? id with
        | none => (.error .unknownMessage, model)
        | some msg =>
          if msg.state.isTerminal then (.error .terminal, model)
          else if msg.latch then (.error .cancelled, model)
          else
            match msg.token with
            | some token =>
              if model.tokenValid now id msg token then
                model.handOut now id rx receiver msg token.kind.issueKind
              else
                (.error .staleRepeat,
                  { model with
                    messages := model.messages.insert id { msg with token := none } }.finalize
                      now id)
            | none =>
              if msg.state = .queued then
                model.handOut now id rx receiver msg
                  (if msg.attempts.isEmpty then .first else .requeue)
              else (.error .nothingToIssue, model)

/-! ## Receivers -/

/-- The slots once `rx` no longer holds `slot`. -/
def vacate (slot : Slot) (rx : Rx) : SortedMap Slot Rx :=
  if model.slots.get? slot = some rx then model.slots.erase slot else model.slots

def dropReceiver (rx : Rx) (slot : Slot) : AttemptModel :=
  { model with receivers := model.receivers.erase rx, slots := model.vacate slot rx }

def fenceClosed (limits : Limits) (now : Instant) (rx : Rx) (attempt : Attempt) : Attempt :=
  if attempt.rx = rx && !attempt.stage.isFinal then
    { attempt.fence with quietAt := some (now + limits.grantTtl) }
  else attempt

/-- Retire one-shot receiver `rx`: fence its open attempts and remove its record. -/
def closeOneShot (rx : Rx) (close : Bool) : AttemptModel :=
  match model.receivers.get? rx with
  | none => model
  | some receiver =>
    let model := (model.dropReceiver rx receiver.slot).mapAttempts fun _ =>
      fenceClosed model.limits now rx
    if close then model.emit [.close rx] else model

/-- Whether the attempt is bound to a retired incarnation of `slot`. -/
def boundToRetired (slot : Slot) (attempt : Attempt) : Bool :=
  (model.receivers.get? attempt.rx).any fun receiver =>
    decide (receiver.slot = slot) && receiver.retired

/-- A new incarnation under the next epoch, before it takes its slot. -/
def enroll (slot : Slot) (queueSurvived : Bool) : AttemptModel :=
  { model with
    nextRx := model.nextRx + 1
    seenSlots := insert slot model.seenSlots
    receivers := model.receivers.insert model.nextRx
      { slot := slot
        retired := false
        lastSeq := none
        seen := 0
        freshAt := now
        held := ∅
        holdUntil := if slot = Slot.hook then some (now + model.limits.hookHold) else none
        closedAt := none
        queueSurvived := queueSurvived
        nextD := 0 } }

def occupy (slot : Slot) (rx : Rx) : AttemptModel :=
  { model with slots := model.slots.insert slot rx }

/-- The open attempts of the retired incarnations of `slot`, which its new one answers for. -/
def resumes (slot : Slot) (attempt : Attempt) : Bool :=
  model.boundToRetired slot attempt && !attempt.stage.isFinal

/-- Retire the incarnation `old` of `slot` and put every attempt it leaves open to its successor. -/
def resumeFrom (slot : Slot) (old : Rx) : List (String × ℕ × ℕ) × AttemptModel :=
  let model := { model with
    receivers := model.receivers.modify old fun receiver => { receiver with retired := true } }
  (model.select fun _ attempt => model.resumes slot attempt,
    model.mapAttempts fun _ attempt =>
      if model.resumes slot attempt then
        { attempt with
          resumePending := true
          resumeDeadline := some (now + model.limits.ackWait) }
      else attempt)

/-- The fenced and inert attempts whose commit the new incarnation may still report. -/
def corrects (slot : Slot) (attempt : Attempt) : Bool :=
  model.boundToRetired slot attempt && attempt.stage.isFinal && attempt.verifier &&
    !attempt.reclaimed

/-- A new once-waiter takes its slot and closes the one before it; a hook supersedes nothing. -/
def supersede (slot : Slot) (rx : Rx) : AttemptModel :=
  if slot = .onceWaiter then
    match model.slots.get? slot with
    | some old => (model.occupy slot rx).closeOneShot now old true
    | none => model.occupy slot rx
  else model

/-- A new stream incarnation takes its slot and is asked about the open attempts of the last. -/
def succeed (slot : Slot) (rx : Rx) : List (String × ℕ × ℕ) × AttemptModel :=
  match model.slots.get? slot with
  | some old => (model.occupy slot rx).resumeFrom now slot old
  | none => ([], model.occupy slot rx)

/-- Every attempt the new incarnation may still correct is held for it and checked anew. -/
def handBack (slot : Slot) (rx : Rx) : AttemptModel :=
  model.mapAttempts fun _ attempt =>
    if model.corrects slot attempt then { attempt with correcting := some rx }.recheck else attempt

def register (slot : Slot) (queueSurvived : Bool) : Registration × AttemptModel :=
  let rx := model.nextRx
  let model := model.enroll now slot queueSurvived
  if slot.oneShot then (⟨rx, [], []⟩, (model.supersede now slot rx).finalizeAll now)
  else
    let resumed := model.succeed now slot rx
    let correctable := resumed.2.select fun _ attempt => resumed.2.corrects slot attempt
    (⟨rx, resumed.1, correctable⟩, (resumed.2.handBack slot rx).finalizeAll now)

/-- A turn start possesses every once-waiter attempt anew. -/
def regainOnce : AttemptModel :=
  model.mapAttempts fun _ attempt => if attempt.onceHeld then attempt.regained else attempt

def turn (view : TurnView) : AttemptModel :=
  let started := view.busy && !model.turnClock.busy
  let touched := (model.messages.entries.filter fun entry =>
    entry.2.attempts.any Attempt.onceHeld).map Prod.fst
  let model := { model with turnClock := view }
  let model := if started then model.regainOnce else model
  model.finalizeEach now touched

def connectionClosed (rx : Rx) : AttemptModel :=
  let oneShot := (model.receivers.get? rx).any fun receiver => receiver.slot.oneShot
  let model := if oneShot then model.closeOneShot now rx false else model
  model.finalizeBoundTo now rx

def streamClosed (rx : Rx) : AttemptModel :=
  let model := { model with
    receivers := model.receivers.modify rx fun receiver =>
      if !receiver.retired && !receiver.slot.oneShot then
        { receiver with closedAt := some (receiver.closedAt.getD now) }
      else receiver }
  model.finalizeBoundTo now rx

/-- A listed attempt of the snapshot's own receiver is possessed anew. -/
def regainHeld (rx : Rx) (model : AttemptModel) (entry : String × ℕ × ℕ) : AttemptModel :=
  model.updateAttempt entry.1 entry.2.1 entry.2.2 fun attempt =>
    if attempt.rx = rx then attempt.regained else attempt

/-- The receiver's side of an applied snapshot. -/
def noteSnapshot (rx : Rx) (receiver : Receiver) (seq seen : ℕ) (held : List (String × ℕ × ℕ)) :
    AttemptModel :=
  { model with
    receivers := model.receivers.insert rx { receiver with
      lastSeq := some seq
      seen := max receiver.seen seen
      freshAt := now
      held := held.toFinset } }

/-- Record a snapshot's possession without running the finalizer. -/
def applySnapshot (rx : Rx) (seq seen : ℕ) (held : List (String × ℕ × ℕ)) :
    SnapshotOutcome × AttemptModel :=
  match model.receivers.get? rx with
  | none => (.dropped, model)
  | some receiver =>
    if receiver.retired || receiver.lastSeq.any fun last => decide (seq ≤ last) then
      (.dropped, model)
    else
      (.applied, held.foldl (regainHeld rx) (model.noteSnapshot now rx receiver seq seen held))

def snapshot (rx : Rx) (seq seen : ℕ) (held : List (String × ℕ × ℕ)) :
    SnapshotOutcome × AttemptModel :=
  let result := model.applySnapshot now rx seq seen held
  if result.1 = .applied then (.applied, result.2.finalizeBoundTo now rx) else result

def live (rx : Rx) : Bool :=
  (model.receivers.get? rx).any fun receiver => !receiver.retired

def expireHolds : AttemptModel :=
  let due := (model.receivers.entries.filter fun entry =>
    entry.2.holdUntil.any fun holdUntil => decide (holdUntil ≤ now)).map Prod.fst
  due.foldl (fun model rx => (model.closeOneShot now rx true).finalizeBoundTo now rx) model

def fenceRetired (rx : Rx) (attempt : Attempt) : Attempt :=
  if attempt.rx = rx && !attempt.stage.isFinal && !attempt.resumePending then attempt.fence
  else attempt

/-- Retire one stream incarnation that closed with no successor. -/
def retireStream (rx : Rx) : AttemptModel :=
  let model :=
    match model.receivers.get? rx with
    | none => model
    | some receiver =>
      { model with
        receivers := model.receivers.insert rx { receiver with retired := true }
        slots := model.vacate receiver.slot rx }
  model.mapAttempts fun _ => fenceRetired rx

def retireClosed : AttemptModel :=
  let gone := (model.receivers.entries.filter fun entry =>
    !entry.2.retired && entry.2.closedAt.any fun closedAt =>
      decide (closedAt + model.limits.closedRetireAfter ≤ now)).map Prod.fst
  gone.foldl retireStream model

/-! ## Stage records -/

def commitStage (attempt : Attempt) : Attempt :=
  { attempt with
    stage := .committed
    resumePending := false
    resumeDeadline := none
    verifier := false }

def reportStage (stage : Stage) (attempt : Attempt) : Attempt :=
  { attempt with stage := stage, verifier := attempt.verifier || decide (stage = .handedInert) }

/-- The incarnation a stage record comes from, while it is live. -/
def reporter (source : Option Rx) : Option (Rx × Slot) :=
  source.bind fun rx => (model.receivers.get? rx).bind fun receiver =>
    if receiver.retired then none else some (rx, receiver.slot)

/-- T2, T3 and T7: a stage record for `(a, e)`. -/
def stage (model : AttemptModel) (now : Instant) (id : String) (a e : ℕ) (stage : Stage)
    (source : Option Rx) : StageOutcome × AttemptModel :=
  if model.exited then (.exited, model)
  else
    match model.messages.get? id with
    | none => (.unknown, model)
    | some msg =>
      match msg.attempt a e with
      | none => (.unknown, model)
      | some attempt =>
        if stage = .committed then
          if attempt.stage = .committed then (.noOp, model)
          else
            let violation :=
              if attempt.stage = .notHanded ∨ a ≠ msg.a then
                [Effect.witnessViolation id a e]
              else []
            let model := (model.updateAttempt id a e commitStage).emit violation
            if a ≠ msg.a then
              (.recorded, (model.emit [.alsoReachedOldWorker id a]).reclaim id)
            else (.applied, model.finalize now id)
        else if stage = .issued ∨ stage = .fenced then (.wrongReceiver, model)
        else
          match model.reporter source with
          | none => (.wrongReceiver, model)
          | some (rx, slot) =>
            if rx ≠ attempt.rx ∨ attempt.resumePending = true then (.wrongReceiver, model)
            else if stage.rank ≤ attempt.stage.rank then (.noOp, model)
            else
              let stage :=
                if stage = .handed ∧ slot = .onceWaiter then Stage.handedInert else stage
              (.applied, (model.updateAttempt id a e (reportStage stage)).finalize now id)

/-- Part 2 §2.4: hold one-shot attempt `(a, e)` back while its caps file is written. -/
def withhold (id : String) (a e : ℕ) : AttemptModel :=
  model.updateAttempt id a e fun attempt =>
    { attempt with withheld := true, stagedUntil := some (now + model.limits.ackWait) }

def releaseHold (attempt : Attempt) : Attempt :=
  { attempt with withheld := false, stagedUntil := none }

/-- R2-R01: the deck's own witness that no byte of one-shot attempt `(a, e)` left it. -/
def deckNotHanded (id : String) (a e : ℕ) (rx : Rx) : StageOutcome × AttemptModel :=
  if model.exited then (.exited, model)
  else
    match model.attempt id a e with
    | none => (.unknown, model)
    | some attempt =>
      if attempt.rx ≠ rx ∨ attempt.slot.oneShot = false then (.wrongReceiver, model)
      else if attempt.stage ≠ .issued ∧ attempt.stage ≠ .fenced then (.noOp, model)
      else
        let model := model.updateAttempt id a e fun attempt =>
          { attempt with stage := .notHanded, verifier := false, quietAt := none }
        (.applied, model.finalize now id)

def released (id : String) (a e : ℕ) (handedOver : Bool) : AttemptModel :=
  match model.attempt id a e with
  | none => model
  | some attempt =>
    let model := model.updateAttempt id a e releaseHold
    if handedOver then model.finalize now id
    else (model.deckNotHanded now id a e attempt.rx).2

def stagingRanOut (attempt : Attempt) : Bool :=
  attempt.withheld && attempt.stagedUntil.any fun stagedUntil => decide (stagedUntil ≤ now)

/-- R2F-R01: every withheld attempt whose staging ran out is released as not handed. -/
def stagingLapsed (model : AttemptModel) (now : Instant) : AttemptModel :=
  let lapsed := model.messages.entries.flatMap fun entry =>
    (entry.2.attempts.filter (stagingRanOut now)).map fun attempt => (entry.1, attempt)
  let model := model.mapAttempts fun _ attempt =>
    if stagingRanOut now attempt then releaseHold attempt else attempt
  lapsed.foldl (fun model entry =>
    let id := entry.1
    let attempt := entry.2
    ((model.emit [.stagingLapsed id attempt.a attempt.e]).deckNotHanded now id attempt.a attempt.e
      attempt.rx).2) model

def expireStaging : AttemptModel :=
  if model.exited then model else model.stagingLapsed now

/-! ## Spool checks and the clock -/

/-- The attempts a spool check must clear before rule 5 may repeat their message. -/
def lapseCandidates : List LapseCheck :=
  if model.exited then []
  else
    model.messages.entries.flatMap fun entry =>
      if entry.2.state.isTerminal then []
      else
        (entry.2.current.filter fun attempt =>
          attempt.needsClearance && !attempt.cleared &&
            !model.possesses now entry.1 attempt).map fun attempt =>
          ⟨entry.1, attempt.a, attempt.e, attempt.mark⟩

def tickVerified (verified : List LapseCheck) : AttemptModel :=
  if model.exited then model
  else
    verified.foldl (fun model check =>
      match model.attempt check.id check.a check.e with
      | none => model
      | some attempt =>
        let model :=
          if attempt.mark = check.mark ∧ attempt.stage = .fenced then
            model.updateAttempt check.id check.a check.e fun attempt =>
              { attempt with verifier := false }
          else model
        model.reclaim check.id) model

/-- Whether a spool check still covers its attempt. -/
def checkValid (check : LapseCheck) : Bool :=
  match model.messages.get? check.id with
  | none => false
  | some msg =>
    match msg.attempt check.a check.e with
    | none => false
    | some attempt =>
      decide (attempt.mark = check.mark) && decide (attempt.a = msg.a) &&
        attempt.needsClearance && !model.possesses now check.id attempt

def clearCheck (model : AttemptModel) (check : LapseCheck) : AttemptModel :=
  if model.checkValid now check then
    model.updateAttempt check.id check.a check.e fun attempt => { attempt with cleared := true }
  else model

def lapseResume (attempt : Attempt) : Attempt :=
  if attempt.resumePending && attempt.resumeDeadline.any fun deadline =>
    decide (deadline ≤ now) then
    { attempt with resumePending := false, resumeDeadline := none }.fence
  else attempt

/-- Raise the one held_long attention, once a revision. -/
def noteHeldLong (id : String) : AttemptModel :=
  match model.messages.get? id with
  | none => model
  | some msg =>
    if msg.state = .attempting ∧ msg.latch = false ∧
        (msg.possessedSince.any fun since => decide (since + model.limits.heldLongAfter ≤ now)) ∧
        msg.heldLongSent ≠ some msg.revision then
      { model with
        messages := model.messages.insert id { msg with heldLongSent := some msg.revision } }.emit
          [.heldLong id msg.revision]
    else model

/-- One message's turn in the clock's loop. -/
def tickMessage (model : AttemptModel) (id : String) : AttemptModel :=
  let model := { model with
    messages := model.messages.modify id fun msg =>
      { msg with attempts := msg.attempts.map (lapseResume now) } }
  (model.finalize now id).noteHeldLong now id

def revokeDue (limits : Limits) (now : Instant) (attempt : Attempt) : Bool :=
  attempt.owesRevoke && attempt.revokeSent.all fun sent => decide (sent + limits.ackWait ≤ now)

/-- Send again every revoke still owed an answer one ack-wait after it was last sent. -/
def revokesDue : AttemptModel :=
  if model.exited then model
  else
    let due := model.select fun _ attempt => revokeDue model.limits now attempt
    (model.mapAttempts fun _ attempt =>
      if revokeDue model.limits now attempt then { attempt with revokeSent := some now }
      else attempt).emit (due.map fun entry => .revoke entry.1 entry.2.1 entry.2.2)

/-- The clearance of every check that found no receipt, one after the other. -/
def clearChecks (cleared : List LapseCheck) : AttemptModel :=
  cleared.foldl (clearCheck now) model

/-- The timers of `tick_cleared`, once the checks are cleared. -/
def runTimers : AttemptModel :=
  let model := ((model.expireHolds now).retireClosed now).stagingLapsed now
  (model.messages.keys.foldl (tickMessage now) model).revokesDue now

/-- T4, T8 and held_long attention; `cleared` are the checks that found no receipt. -/
def tickCleared (cleared : List LapseCheck) : AttemptModel :=
  if model.exited then model else (model.clearChecks now cleared).runTimers now

/-- The clock of a generation with no receipt store: every lapse candidate counts as checked. -/
def tick : AttemptModel :=
  let model := if model.exited then model else model.expireHolds now
  model.tickCleared now (model.lapseCandidates now)

/-- When the not-started attention of `id` falls due under `turn`. -/
def notStartedDue (id : String) (turn : TurnView) : Option Instant :=
  if model.exited || turn.busy then none
  else
    (model.messages.get? id).bind fun msg =>
      if msg.state ≠ .attempting ∨ msg.latch = true then none
      else
        msg.notStartedAnchor.bind fun anchor =>
          let onPi := msg.current.any fun attempt =>
            !attempt.stage.isFinal &&
              (model.receivers.get? attempt.rx).any fun receiver => decide (receiver.slot = .pi)
          if onPi then
            some (max anchor (turn.idleSince.getD anchor) + model.limits.notStartedAfter)
          else none

def noteTurn (turn : TurnView) : AttemptModel :=
  if model.exited then model
  else
    { model with
      messages := model.messages.map fun id msg =>
        { msg with
          notStarted :=
            if (model.notStartedDue id turn).any fun due => decide (due ≤ now) then
              some msg.revision
            else none } }

def tickTurn (cleared : List LapseCheck) (turn : TurnView) : AttemptModel :=
  ((model.turn now turn).tickCleared now cleared).noteTurn now turn

/-! ## Hand-over, resume, user actions and the end -/

/-- The daemon's half of the final hand-over check. It only answers. -/
def mayHandOver (id : String) (a e : ℕ) (rx : Rx) : Except HandOverRefusal Grant :=
  match model.messages.get? id with
  | none => .error .unknown
  | some msg =>
    match msg.attempt a e with
    | none => .error .unknown
    | some attempt =>
      if attempt.rx ≠ rx ∨ model.live rx = false ∨ attempt.resumePending = true then
        .error .wrongReceiver
      else if attempt.stage.isFinal then .error .revoked
      else if msg.attempts.any fun other => other.a = a && other.stage = .committed then
        .error .committed
      else if attempt.revoked || msg.latch || decide (a ≠ msg.a) then .error .revoked
      else if decide (attempt.kind = .autoRepeat) && msg.attempts.any fun other =>
          decide (other.a = a) && decide (other.e < e) && !other.stage.isFinal &&
            !other.resumePending && model.live other.rx &&
            snapshotHolds model.receivers model.limits id other now then
        .error .heldEarlier
      else .ok ⟨id, a, e, rx, rx⟩

def rebind (rx : Rx) (d : ℕ) (now : Instant) (attempt : Attempt) : Attempt :=
  let attempt := { attempt with
    resumePending := false
    resumeDeadline := none
    rx := rx
    d := d
    issuedAt := now }.regained
  if attempt.revoked then { attempt with revokeSent := some now } else attempt

def unresume (attempt : Attempt) : Attempt :=
  { attempt with resumePending := false, resumeDeadline := none }

/-- A retained attempt under the next delivery number of its new incarnation. -/
def retain (rx : Rx) (receiver : Receiver) (id : String) (a e : ℕ) : AttemptModel :=
  let d := receiver.nextD + 1
  { model with
    receivers := model.receivers.insert rx { receiver with nextD := d } }.updateAttempt id a e
      (rebind rx d now)

def resumeAnswer (rx : Rx) (id : String) (a e : ℕ) (answer : ResumeAnswer) :
    StageOutcome × AttemptModel :=
  match model.receivers.get? rx with
  | none => (.unknown, model)
  | some receiver =>
    if receiver.retired then (.wrongReceiver, model)
    else
      match model.attempt id a e with
      | none => (.unknown, model)
      | some attempt =>
        if attempt.resumePending = false then (.noOp, model)
        else if (model.receivers.get? attempt.rx).map Receiver.slot ≠ some receiver.slot then
          (.wrongReceiver, model)
        else
          let model :=
            match answer with
            | .retained =>
              (model.retain now rx receiver id a e).emit
                (if attempt.revoked then [.revoke id a e] else [])
            | .notHanded =>
              if receiver.queueSurvived then
                model.updateAttempt id a e fun attempt =>
                  { unresume attempt with stage := .notHanded }
              else model.updateAttempt id a e fun attempt => (unresume attempt).fence
            | .unknown => model.updateAttempt id a e fun attempt => (unresume attempt).fence
          (.applied, model.finalize now id)

/-- An applied action: its change, the finalizer, and the answer it is remembered by. -/
def applied (model : AttemptModel) (now : Instant) (id : String) (revision : ℕ) (verb : Verb)
    (msg : Delivery) (effects : List Effect) : ActionOutcome × AttemptModel :=
  let model :=
    ({ model with messages := model.messages.insert id msg }.emit effects).finalize now id
  match model.messages.get? id with
  | none => (.unknown, model)
  | some msg =>
    (.applied msg.revision,
      { model with
        messages := model.messages.insert id
          { msg with lastAction := some (revision, verb, .applied msg.revision) } })

def action (id : String) (generation revision : ℕ) (verb : Verb) : ActionOutcome × AttemptModel :=
  if generation ≠ model.generation then (.wrongGeneration, model)
  else
    match model.messages.get? id with
    | none => (.unknown, model)
    | some msg =>
      match msg.repeated revision verb with
      | some outcome => (outcome, model)
      | none =>
        if revision ≠ msg.revision then (.stale msg.state msg.revision, model)
        else if msg.state = .settled then (.alreadySettled, model)
        else if msg.state.isTerminal then (.notApplicable msg.state, model)
        else
          match verb with
          | .retry =>
            if msg.retryable = false then (.notApplicable msg.state, model)
            else if model.limits.maxAttempts ≤ msg.issued then (.retryLimit, model)
            else model.applied now id revision verb msg.retried []
          | .cancel =>
            model.applied now id revision verb (msg.cancelled now)
              (Delivery.revokeEffects id msg.current)

def retry (model : AttemptModel) (now : Instant) (id : String) (generation revision : ℕ) :
    ActionOutcome × AttemptModel :=
  model.action now id generation revision .retry

def cancel (model : AttemptModel) (now : Instant) (id : String) (generation revision : ℕ) :
    ActionOutcome × AttemptModel :=
  model.action now id generation revision .cancel

def spent (id : String) : Bool :=
  (model.messages.get? id).any fun msg =>
    msg.state.isTerminal && msg.attempts.all Attempt.reclaimed

def forget (id : String) : Bool × AttemptModel :=
  if model.spent id then
    match model.messages.get? id with
    | none => (false, model)
    | some msg =>
      (true, { model with
        messages := model.messages.erase id
        forgottenA := max model.forgottenA msg.a })
  else (false, model)

def drainEffects : List Effect × AttemptModel :=
  (model.effects, { model with effects := [] })

def exit : AttemptModel :=
  { model with
    exited := true
    messages := model.messages.map fun _ msg => msg.exited
    effects := model.effects ++ model.messages.entries.filterMap fun entry =>
      if !entry.2.state.isTerminal && entry.2.offer then
        some (.returnToPool entry.1 entry.2.a)
      else none
    evidenceReserved := 0 }

/-! ## Runs -/

inductive Op
  | post (id : String) (offer : Bool)
  | register (now : Instant) (slot : Slot) (queueSurvived : Bool)
  | issue (now : Instant) (id : String) (rx : Rx)
  | stage (now : Instant) (id : String) (a e : ℕ) (stage : Stage) (source : Option Rx)
  | withhold (now : Instant) (id : String) (a e : ℕ)
  | released (now : Instant) (id : String) (a e : ℕ) (handedOver : Bool)
  | deckNotHanded (now : Instant) (id : String) (a e : ℕ) (rx : Rx)
  | snapshot (now : Instant) (rx : Rx) (seq seen : ℕ) (held : List (String × ℕ × ℕ))
  | connectionClosed (now : Instant) (rx : Rx)
  | streamClosed (now : Instant) (rx : Rx)
  | resumeAnswer (now : Instant) (rx : Rx) (id : String) (a e : ℕ) (answer : ResumeAnswer)
  | turn (now : Instant) (view : TurnView)
  | tick (now : Instant)
  | tickCleared (now : Instant) (cleared : List LapseCheck)
  | tickTurn (now : Instant) (cleared : List LapseCheck) (turn : TurnView)
  | tickVerified (verified : List LapseCheck)
  | noteTurn (now : Instant) (turn : TurnView)
  | revokesDue (now : Instant)
  | finalize (now : Instant) (id : String)
  | expireStaging (now : Instant)
  | retry (now : Instant) (id : String) (generation revision : ℕ)
  | cancel (now : Instant) (id : String) (generation revision : ℕ)
  | forget (id : String)
  | drainEffects
  | exit

def apply : Op → AttemptModel
  | .post id offer => model.post id offer
  | .register now slot queueSurvived => (model.register now slot queueSurvived).2
  | .issue now id rx => (model.issue now id rx).2
  | .stage now id a e stage source => (model.stage now id a e stage source).2
  | .withhold now id a e => model.withhold now id a e
  | .released now id a e handedOver => model.released now id a e handedOver
  | .deckNotHanded now id a e rx => (model.deckNotHanded now id a e rx).2
  | .snapshot now rx seq seen held => (model.snapshot now rx seq seen held).2
  | .connectionClosed now rx => model.connectionClosed now rx
  | .streamClosed now rx => model.streamClosed now rx
  | .resumeAnswer now rx id a e answer => (model.resumeAnswer now rx id a e answer).2
  | .turn now view => model.turn now view
  | .tick now => model.tick now
  | .tickCleared now cleared => model.tickCleared now cleared
  | .tickTurn now cleared turn => model.tickTurn now cleared turn
  | .tickVerified verified => model.tickVerified verified
  | .noteTurn now turn => model.noteTurn now turn
  | .revokesDue now => model.revokesDue now
  | .finalize now id => model.finalize now id
  | .expireStaging now => model.expireStaging now
  | .retry now id generation revision => (model.retry now id generation revision).2
  | .cancel now id generation revision => (model.cancel now id generation revision).2
  | .forget id => (model.forget id).2
  | .drainEffects => model.drainEffects.2
  | .exit => model.exit

def run (ops : List Op) : AttemptModel := ops.foldl apply model

end AttemptModel

end AgentDeck.Attempts
