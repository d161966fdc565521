import AgentDeck.Lib.SortedMap
import AgentDeck.Time

/-!
# Delivery attempts: the data model

The records of `src/inbox_attempts.rs`: the stages of an attempt, the states of a message, the
receivers of one agent generation, and the effects the model asks its hub for.

Counters (`u32`, `u64`, `usize`) are natural numbers: none of them can reach its bound in a run
that the fixed-width code also has, so the model leaves wrap-around out. Fields that only the
diagnosis of other modules reads are kept, since the operations write them.
-/

namespace AgentDeck.Attempts

def maxAttempts : ℕ := 6

def maxAutoRepeats : ℕ := 2

/-- Spool files one attempt reserves before its content is handed out. -/
def evidencePerAttempt : ℕ := 5

def defaultEvidenceLimit : ℕ := 1024

def waitTtlsBeforeUncertain : ℕ := 2

def closedRetireTtls : ℕ := 3

def heldLongAfter : Duration := fromSecs (60 * 60)

def notStartedAfter : Duration := fromSecs (3 * 60)

def keepalivesPerPossessTtl : ℕ := 3

def defaultMaxDeliver : ℕ := 5

def defaultAckWait : Duration := fromSecs 60

def defaultKeepalive : Duration := fromSecs 30

structure Limits where
  maxAttempts : ℕ
  maxAutoRepeats : ℕ
  maxDeliver : ℕ
  evidenceLimit : ℕ
  possessTtl : Duration
  ackWait : Duration
  heldLongAfter : Duration
  notStartedAfter : Duration
  deriving DecidableEq

namespace Limits

def uncertainAfter (limits : Limits) : Duration := limits.possessTtl * waitTtlsBeforeUncertain

def closedRetireAfter (limits : Limits) : Duration := limits.possessTtl * closedRetireTtls

def hookHold (limits : Limits) : Duration := limits.ackWait

def grantTtl (limits : Limits) : Duration := limits.ackWait

def default : Limits where
  maxAttempts := Attempts.maxAttempts
  maxAutoRepeats := Attempts.maxAutoRepeats
  maxDeliver := defaultMaxDeliver
  evidenceLimit := defaultEvidenceLimit
  possessTtl := defaultKeepalive * keepalivesPerPossessTtl
  ackWait := defaultAckWait
  heldLongAfter := Attempts.heldLongAfter
  notStartedAfter := Attempts.notStartedAfter

end Limits

structure TurnView where
  busy : Bool := false
  idleSince : Option Instant := none
  deriving DecidableEq

abbrev Rx := ℕ

/-- A stable receiver slot. A registration retires only the previous incarnation of its own. -/
inductive Slot
  | opencodeServer
  | opencodeTui
  | pi
  | onceWaiter
  | hook
  deriving DecidableEq

namespace Slot

/-- The declaration order, which is the order of the source's derived `Ord`. -/
def rank : Slot → ℕ
  | opencodeServer => 0
  | opencodeTui => 1
  | pi => 2
  | onceWaiter => 3
  | hook => 4

theorem rank_injective : Function.Injective rank := by
  intro left right same
  cases left <;> cases right <;> simp_all [rank]

instance : LinearOrder Slot := LinearOrder.lift' rank rank_injective

def oneShot : Slot → Bool
  | onceWaiter | hook => true
  | opencodeServer | opencodeTui | pi => false

end Slot

/-- An attempt's stage. `issued` and `handed` are open, the others final. -/
inductive Stage
  | issued
  | handed
  | committed
  | notHanded
  | handedInert
  | fenced
  deriving DecidableEq

namespace Stage

def isFinal : Stage → Bool
  | issued | handed => false
  | committed | notHanded | handedInert | fenced => true

def rank : Stage → ℕ
  | issued => 0
  | handed => 1
  | committed | notHanded | handedInert | fenced => 2

end Stage

inductive UncertainReason
  | lapsed
  | outOfAttempts
  deriving DecidableEq

inductive UndeliverableReason
  | cancelled
  | exited
  | maxDeliver
  deriving DecidableEq

inductive MessageState
  | queued
  | attempting
  | uncertain (reason : UncertainReason)
  | cancelHeld
  | settled
  | undeliverable (reason : UndeliverableReason)
  deriving DecidableEq

namespace MessageState

def isTerminal : MessageState → Bool
  | settled | undeliverable _ => true
  | queued | attempting | uncertain _ | cancelHeld => false

def isUncertain : MessageState → Bool
  | uncertain _ => true
  | _ => false

end MessageState

inductive IssueKind
  | first
  | requeue
  | autoRepeat
  | manualRetry
  deriving DecidableEq

def IssueKind.marked : IssueKind → Bool
  | autoRepeat | manualRetry => true
  | first | requeue => false

/-- One hand-out of a message: assignment `a`, attempt `e`, under the receiver's number `d`. -/
structure Attempt where
  a : ℕ
  e : ℕ
  rx : Rx
  d : ℕ
  stage : Stage
  kind : IssueKind
  cleared : Bool
  mark : ℕ
  resumePending : Bool
  revoked : Bool
  revokeSent : Option Instant
  verifier : Bool
  correcting : Option Rx
  reclaimed : Bool
  issuedAt : Instant
  resumeDeadline : Option Instant
  slot : Slot
  quietAt : Option Instant
  withheld : Bool
  stagedUntil : Option Instant
  deriving DecidableEq

inductive TokenKind
  | auto
  | manual
  deriving DecidableEq

/-- An attempt to look up in the spool, with the mark the answer is valid for. -/
structure LapseCheck where
  id : String
  a : ℕ
  e : ℕ
  mark : ℕ
  deriving DecidableEq

structure RepeatToken where
  a : ℕ
  revision : ℕ
  kind : TokenKind
  deriving DecidableEq

inductive Verb
  | retry
  | cancel
  deriving DecidableEq

inductive ActionOutcome
  | applied (revision : ℕ)
  | stale (state : MessageState) (revision : ℕ)
  | notApplicable (state : MessageState)
  | alreadySettled
  | retryLimit
  | wrongGeneration
  | unknown
  deriving DecidableEq

/-- The record of a message. -/
structure Delivery where
  offer : Bool
  a : ℕ
  state : MessageState
  revision : ℕ
  attempts : List Attempt
  latch : Bool
  autoRepeats : ℕ
  issued : ℕ
  requeues : ℕ
  token : Option RepeatToken
  possessedSince : Option Instant
  waitingSince : Option Instant
  heldLongSent : Option ℕ
  notStartedAnchor : Option Instant
  notStartedAfterE : ℕ
  notStarted : Option ℕ
  lastAction : Option (ℕ × Verb × ActionOutcome)
  corrected : Bool
  deriving DecidableEq

inductive Effect
  | revoke (id : String) (a e : ℕ)
  | deliveredAfterAll (id : String) (despiteCancel : Bool)
  | witnessViolation (id : String) (a e : ℕ)
  | alsoReachedOldWorker (id : String) (a : ℕ)
  | returnToPool (id : String) (a : ℕ)
  | heldLong (id : String) (revision : ℕ)
  | evidencePaused (reserved : ℕ)
  | reclaimed (id : String) (a e : ℕ)
  | close (rx : Rx)
  | stagingLapsed (id : String) (a e : ℕ)
  deriving DecidableEq

inductive IssueRefusal
  | unknownMessage
  | retiredReceiver
  | terminal
  | cancelled
  | nothingToIssue
  | staleRepeat
  | outOfAttempts
  | evidencePaused
  | exited
  deriving DecidableEq

structure Issued where
  a : ℕ
  e : ℕ
  d : ℕ
  kind : IssueKind
  deriving DecidableEq

inductive StageOutcome
  | applied
  | noOp
  | recorded
  | wrongReceiver
  | unknown
  | exited
  deriving DecidableEq

inductive SnapshotOutcome
  | applied
  | dropped
  deriving DecidableEq

inductive ResumeAnswer
  | retained
  | notHanded
  | unknown
  deriving DecidableEq

structure Registration where
  rx : Rx
  resume : List (String × ℕ × ℕ)
  correctable : List (String × ℕ × ℕ)
  deriving DecidableEq

structure Grant where
  id : String
  a : ℕ
  e : ℕ
  rx : Rx
  epoch : ℕ
  deriving DecidableEq

inductive HandOverRefusal
  | unknown
  | wrongReceiver
  | committed
  | revoked
  | heldEarlier
  deriving DecidableEq

/-- One incarnation of a receiver in its slot. -/
structure Receiver where
  slot : Slot
  retired : Bool
  lastSeq : Option ℕ
  seen : ℕ
  freshAt : Instant
  held : Finset (String × ℕ × ℕ)
  holdUntil : Option Instant
  closedAt : Option Instant
  queueSurvived : Bool
  nextD : ℕ
  deriving DecidableEq

/-- The records of the messages, the receivers and what was reserved as evidence. -/
structure AttemptModel where
  limits : Limits
  generation : ℕ
  receivers : SortedMap Rx Receiver
  slots : SortedMap Slot Rx
  nextRx : Rx
  messages : SortedMap String Delivery
  forgottenA : ℕ
  evidenceReserved : ℕ
  effects : List Effect
  exited : Bool
  turnClock : TurnView
  seenSlots : Finset Slot

namespace Attempt

variable (attempt : Attempt)

def recheck : Attempt :=
  { attempt with cleared := false, mark := attempt.mark + 1 }

def regained : Attempt := attempt.recheck

/-- Possibly handed, and checked in the spool again before it leads to a repeat. -/
def fence : Attempt :=
  { attempt with stage := .fenced, verifier := true }.regained

def owesRevoke : Bool :=
  attempt.revoked && !attempt.stage.isFinal && !attempt.resumePending && !attempt.reclaimed

/-- Whether the attempt must be cleared by a spool check before its message may repeat. -/
def needsClearance : Bool :=
  !attempt.resumePending && !attempt.withheld &&
    match attempt.stage with
    | .issued | .handed | .fenced | .handedInert => true
    | .committed | .notHanded => false

def onceHeld : Bool :=
  decide (attempt.slot = .onceWaiter) &&
    match attempt.stage with
    | .committed | .notHanded => false
    | .issued | .handed | .handedInert | .fenced => true

def onceAnchor (turn : TurnView) : Instant :=
  max attempt.issuedAt (turn.idleSince.getD attempt.issuedAt)

end Attempt

namespace Delivery

def new (offer : Bool) (a : ℕ) : Delivery where
  offer := offer
  a := a
  state := .queued
  revision := 0
  attempts := []
  latch := false
  autoRepeats := 0
  issued := 0
  requeues := 0
  token := none
  possessedSince := none
  waitingSince := none
  heldLongSent := none
  notStartedAnchor := none
  notStartedAfterE := 0
  notStarted := none
  lastAction := none
  corrected := false

def current (msg : Delivery) : List Attempt := msg.attempts.filter fun attempt => attempt.a = msg.a

def attempt (msg : Delivery) (a e : ℕ) : Option Attempt :=
  msg.attempts.find? fun attempt => attempt.a = a && attempt.e = e

def updateFirst (p : Attempt → Bool) (f : Attempt → Attempt) : List Attempt → List Attempt
  | [] => []
  | attempt :: rest =>
    if p attempt then f attempt :: rest else attempt :: updateFirst p f rest

def updateAttempt (msg : Delivery) (a e : ℕ) (f : Attempt → Attempt) : Delivery :=
  { msg with
    attempts := updateFirst (fun attempt => attempt.a = a && attempt.e = e) f msg.attempts }

def setState (msg : Delivery) (state : MessageState) : Delivery :=
  if msg.state = state then msg else { msg with state := state, revision := msg.revision + 1 }

end Delivery

def snapshotHolds (receivers : SortedMap Rx Receiver) (limits : Limits) (id : String)
    (attempt : Attempt) (now : Instant) : Bool :=
  match receivers.get? attempt.rx with
  | none => false
  | some receiver =>
    !receiver.slot.oneShot && decide (now < receiver.freshAt + limits.possessTtl) &&
      decide ((id, attempt.a, attempt.e) ∈ receiver.held)

def possessed (receivers : SortedMap Rx Receiver) (limits : Limits) (turn : TurnView) (id : String)
    (attempt : Attempt) (now : Instant) : Bool :=
  if attempt.resumePending then false
  else if attempt.slot = .onceWaiter then
    attempt.onceHeld && (turn.busy || decide (now < attempt.onceAnchor turn + limits.ackWait))
  else
    match attempt.stage with
    | .committed | .notHanded | .fenced => false
    | .issued | .handed | .handedInert =>
      match receivers.get? attempt.rx with
      | none => false
      | some receiver =>
        if receiver.retired then false
        else
          match receiver.slot with
          | .opencodeServer | .opencodeTui | .pi =>
            snapshotHolds receivers limits id attempt now ||
              (decide (receiver.seen < attempt.d) &&
                decide (now < attempt.issuedAt + limits.possessTtl))
          | .onceWaiter => false
          | .hook => receiver.holdUntil.any fun holdUntil => decide (now < holdUntil)

end AgentDeck.Attempts
