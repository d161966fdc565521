import AgentDeck.Text
import AgentDeck.Time

/-!
# The inbox: the data model

The records of `src/inbox.rs`: messages and their states, the addresses they carry, the events a
change of state leaves, and the bounds the inbox applies. Counters (`u32`, `usize`) are natural
numbers. The inbox is pure data: every operation is called with the current instant.
-/

namespace AgentDeck.Inbox

abbrev MessageId := String

inductive Scope
  | orchestration (token : String)
  | dispatch (rootPane : String)
  deriving DecidableEq

inductive Address
  | direct (deck : String) (paneId : String)
  | topic (deck : String) (scope : Scope) (topic : String)
  | offer (deck : String) (scope : Scope) (pool : String)
  deriving DecidableEq

/-- The pane a message is for and, when bound, the one agent generation that may receive it. -/
structure Recipient where
  paneId : String
  agentId : Option String
  deriving DecidableEq

namespace Recipient

def bound (paneId agentId : String) : Recipient := ⟨paneId, some agentId⟩

def admits (recipient : Recipient) (paneId agentId : String) : Bool :=
  decide (recipient.paneId = paneId) && recipient.agentId.all fun agent => decide (agent = agentId)

/-- The same pane and agent generation; an unbound side is a wildcard for the agent. -/
def sameHolder (left right : Recipient) : Bool :=
  decide (left.paneId = right.paneId) &&
    match left.agentId, right.agentId with
    | some a, some b => decide (a = b)
    | _, _ => true

end Recipient

inductive Sender
  | deck (reason : Text)
  | agent (paneId agentId : String) (role orchestration : Option Text)
  deriving DecidableEq

def Sender.agentId : Sender → Option String
  | agent _ agentId _ _ => some agentId
  | deck _ => none

inductive BodyTrust
  | trusted
  | untrusted
  deriving DecidableEq

inductive MessageKind
  | direct
  | publish (topic : String)
  | offer (pool : String) (claimTtl : Duration)
  deriving DecidableEq

def MessageKind.name : MessageKind → String
  | direct => "direct"
  | publish _ => "publish"
  | offer _ _ => "offer"

inductive Consumer
  | waiter (connId : ℕ)
  | stream (connId : ℕ)
  | turnEndHook
  | doorbellHook
  | fetchCli
  deriving DecidableEq

inductive AckHow
  | promptObserved
  | pluginConfirmed
  | extensionConfirmed
  | hookHandover
  | fetchedByCli
  | explicit
  | offerCompleted
  deriving DecidableEq

inductive UndeliverableReason
  | agentExited
  | maxDeliver
  | superseded
  | inboxShut
  | cancelled
  deriving DecidableEq

inductive MessageState
  | queued
  | fetched (consumer : Consumer) (since : Instant)
  | claimed (claimant : Recipient) (since expires : Instant)
  | acknowledged (since : Instant) (how : AckHow)
  | undeliverable (since : Instant) (reason : UndeliverableReason)
  deriving DecidableEq

inductive StateName
  | queued
  | fetched
  | claimed
  | acknowledged
  | undeliverable
  deriving DecidableEq

namespace MessageState

def name : MessageState → StateName
  | queued => .queued
  | fetched _ _ => .fetched
  | claimed _ _ _ => .claimed
  | acknowledged _ _ => .acknowledged
  | undeliverable _ _ => .undeliverable

/-- Acknowledged or undeliverable: nothing more will happen to it. -/
def isTerminal : MessageState → Bool
  | acknowledged _ _ | undeliverable _ _ => true
  | queued | fetched _ _ | claimed _ _ _ => false

def isFetched : MessageState → Bool
  | fetched _ _ => true
  | _ => false

/-- Fetched or claimed: out of the queue with somebody. -/
def isTaken : MessageState → Bool
  | fetched _ _ | claimed _ _ _ => true
  | _ => false

def undeliverableReason : MessageState → Option UndeliverableReason
  | undeliverable _ reason => some reason
  | _ => none

end MessageState

structure Producer where
  paneId : String
  agentId : String
  role : Option String
  deriving DecidableEq

inductive DispatchPhase
  | started
  | failed
  | ended
  | unknown
  deriving DecidableEq

inductive ReportProvenance
  | task (taskId reportId : String) (producer : Producer)
  | terminal (unitId reportId : String) (producer : Producer)
  | uncorrelated (reportId : String) (producer : Producer)
  | dispatchResult (unitId : Option String) (phase : DispatchPhase) (reportId : Option String)
  | unknown
  deriving DecidableEq

/-- One message as the inbox holds it: one subscriber's copy of a publish, or the one offer
whatever its current holder. -/
structure Message where
  id : MessageId
  kind : MessageKind
  address : Address
  recipient : Option Recipient
  sender : Sender
  subject : Text
  body : Text
  bodyTrust : BodyTrust
  spillPath : Option Text
  preface : Option Text
  createdAt : Instant
  state : MessageState
  deliveries : ℕ
  history : List (Instant × StateName)
  excluded : List Recipient
  assignDeadline : Option Instant
  provenance : Option ReportProvenance
  deriving DecidableEq

namespace Message

def isOffer (msg : Message) : Bool :=
  match msg.kind with
  | .offer _ _ => true
  | .direct | .publish _ => false

def scope (msg : Message) : Option Scope :=
  match msg.address with
  | .topic _ scope _ | .offer _ scope _ => some scope
  | .direct _ _ => none

def isFor (msg : Message) (paneId : String) : Bool :=
  msg.recipient.any fun recipient => decide (recipient.paneId = paneId)

end Message

inductive ReturnCause
  | notFetched
  | ackWaitExpired
  | claimExpired
  | released
  | holderExited
  deriving DecidableEq

structure OfferReturn where
  previous : Recipient
  cause : ReturnCause
  deriving DecidableEq

/-- A state change, for the daemon's broadcasts and sender notices. -/
structure InboxEvent where
  messageId : MessageId
  kind : String
  recipient : Option Recipient
  sender : Sender
  bodyTrust : BodyTrust
  subject : Text
  state : StateName
  undeliverableReason : Option UndeliverableReason
  returned : Option OfferReturn
  requeued : Bool
  provenance : Option ReportProvenance
  deriving DecidableEq

structure InboxLimits where
  ackWait : Duration
  maxDeliver : ℕ
  maxPerRecipient : ℕ
  maxMessages : ℕ
  maxBodyBytes : ℕ
  historyPerPane : ℕ
  dedupWindow : Duration
  dedupMaxIds : ℕ
  maxOffersPerScope : ℕ
  ratePerMinute : ℕ
  defaultClaimTtl : Duration
  minClaimTtl : Duration
  maxClaimTtl : Duration
  maxHistoryMessages : ℕ
  maxHistoryBytes : ℕ
  historyBodyTtl : Duration
  offerAssignWait : Duration
  deriving DecidableEq

def InboxLimits.default : InboxLimits where
  ackWait := fromSecs 60
  maxDeliver := 5
  maxPerRecipient := 256
  maxMessages := 4096
  maxBodyBytes := 1024 * 1024
  historyPerPane := 64
  dedupWindow := fromSecs (10 * 60)
  dedupMaxIds := 4096
  maxOffersPerScope := 256
  ratePerMinute := 60
  defaultClaimTtl := fromSecs (30 * 60)
  minClaimTtl := fromSecs 60
  maxClaimTtl := fromSecs (24 * 60 * 60)
  maxHistoryMessages := 1024
  maxHistoryBytes := 16 * 1024 * 1024
  historyBodyTtl := fromSecs (60 * 60)
  offerAssignWait := fromSecs 300

def rateWindow : Duration := fromSecs 60

structure Content where
  sender : Sender
  subject : Text
  body : Text
  bodyTrust : BodyTrust
  spillPath : Option Text
  id : Option MessageId
  preface : Option Text
  provenance : Option ReportProvenance
  deriving DecidableEq

inductive PostError
  | inboxFull (paneId : String) (limit : ℕ)
  | deckFull (limit : ℕ)
  | bodyTooLarge (bytes limit : ℕ)
  | duplicate (id : MessageId) (existingState : Option StateName)
  | rateLimited (limitPerMinute : ℕ)
  | tooManyOffers (limit : ℕ)
  | claimTtlOutOfRange (minMs maxMs : ℕ)
  deriving DecidableEq

structure Published where
  id : MessageId
  deliveredTo : ℕ
  refusedFull : List String
  deriving DecidableEq

structure Offered where
  id : MessageId
  offeredTo : Option Recipient
  deriving DecidableEq

inductive AckOutcome
  | acknowledged
  | claimed (expiresInMs : ℕ)
  | alreadyAcknowledged
  | wrongAgent
  | undeliverable
  | unknown
  deriving DecidableEq

inductive ClaimOutcome
  | completed
  | released
  | expired
  | notClaimant
  | unknown
  deriving DecidableEq

end AgentDeck.Inbox
