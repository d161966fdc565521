import AgentDeck.Inbox.Types

/-!
# The inbox: the operations

The operations of `Inbox` as functions on its state. An index the source holds is a position in the
list of messages; the loops of `agent_exited` and `tick` run from the last message to the first,
and nothing is dropped inside one. A fresh message id comes from the operating system: where the
source mints one, the call takes it as `minted`.
-/

namespace AgentDeck

open Inbox

structure Inbox where
  deck : String
  limits : InboxLimits
  messages : List Message
  dedup : List (Instant × MessageId)
  dedupState : SortedMap MessageId StateName
  rate : SortedMap String (List Instant)
  events : List InboxEvent
  reservedReplies : ℕ

namespace Inbox

def millis (duration : Duration) : ℕ := min (duration / 1000000) (2 ^ 64 - 1)

def maxStoredSubjectChars : ℕ := 200

def maxStoredPrefaceBytes : ℕ := 8 * 1024

def maxStoredLabelBytes : ℕ := 256

def maxStoredPathBytes : ℕ := 4096

def cappedSubject (subject : Text) : Text :=
  Text.labelLine (Text.trim (subject.map fun c => if Text.isControl c then ' ' else c))
    maxStoredSubjectChars

def cappedSender : Sender → Sender
  | .deck reason => .deck (Text.cutBytes reason maxStoredLabelBytes)
  | .agent paneId agentId role orchestration =>
    .agent paneId agentId (role.map fun text => Text.cutBytes text maxStoredLabelBytes)
      (orchestration.map fun text => Text.cutBytes text maxStoredLabelBytes)

namespace Message

def moved (msg : Message) (now : Instant) (state : MessageState) : Message :=
  { msg with
    state := state
    assignDeadline := if state = .queued then msg.assignDeadline else none
    history := msg.history ++ [(now, state.name)] }

def event (before after : Message) : InboxEvent where
  messageId := after.id
  kind := after.kind.name
  recipient := after.recipient
  sender := after.sender
  bodyTrust := after.bodyTrust
  subject := after.subject
  state := after.state.name
  undeliverableReason := after.state.undeliverableReason
  returned := none
  requeued := decide (after.state = .queued) && before.state.isTaken
  provenance := after.provenance

end Message

def new (deck : String) (limits : InboxLimits) : Inbox where
  deck := deck
  limits := limits
  messages := []
  dedup := []
  dedupState := .empty
  rate := .empty
  events := []
  reservedReplies := 0

/-! ## Internals -/

variable (inbox : Inbox) (now : Instant)

/-- The one place a state changes: the history, the dedup state and an event. -/
def transition (index : ℕ) (now : Instant) (state : MessageState) : Inbox :=
  match inbox.messages[index]? with
  | none => inbox
  | some msg =>
    { inbox with
      messages := inbox.messages.set index (msg.moved now state)
      dedupState := inbox.dedupState.modify msg.id fun _ => state.name
      events := inbox.events ++ [msg.event (msg.moved now state)] }

def edit (index : ℕ) (f : Message → Message) : Inbox :=
  { inbox with messages := inbox.messages.modify index f }

def checkBody (content : Content) : Except PostError Unit :=
  if inbox.limits.maxBodyBytes < Text.len content.body then
    .error (.bodyTooLarge (Text.len content.body) inbox.limits.maxBodyBytes)
  else .ok ()

def liveForPane (paneId : String) : ℕ :=
  inbox.messages.countP fun msg =>
    (decide (msg.state = .queued) || msg.state.isFetched) && msg.isFor paneId

def hasRoomFor (paneId : String) : Bool :=
  decide (inbox.liveForPane paneId < inbox.limits.maxPerRecipient)

def liveCount : ℕ := inbox.messages.countP fun msg => !msg.state.isTerminal

def checkRoom (needed : ℕ) : Except PostError Unit :=
  if inbox.limits.maxMessages < inbox.liveCount + inbox.reservedReplies + needed then
    .error (.deckFull inbox.limits.maxMessages)
  else .ok ()

def checkRate (sender : Sender) : Except PostError Unit :=
  match sender.agentId with
  | none => .ok ()
  | some agent =>
    let recent := ((inbox.rate.get? agent).getD []).countP fun time =>
      decide (now - time < rateWindow)
    if inbox.limits.ratePerMinute ≤ recent then
      .error (.rateLimited inbox.limits.ratePerMinute)
    else .ok ()

def recordRate (sender : Sender) : Inbox :=
  match sender.agentId with
  | none => inbox
  | some agent =>
    { inbox with rate := inbox.rate.insert agent ((inbox.rate.get? agent).getD [] ++ [now]) }

/-- Refuse a sender-chosen id that is already held or still inside the dedup window. -/
def checkId (wanted : Option MessageId) : Except PostError Unit :=
  match wanted with
  | none => .ok ()
  | some id =>
    let held := inbox.messages.find? fun msg => decide (msg.id = id)
    if held.isSome || (inbox.dedupState.get? id).isSome then
      .error (.duplicate id ((held.map fun msg => msg.state.name).or (inbox.dedupState.get? id)))
    else .ok ()

/-- Forget the oldest ids until at most `dedup_max_ids` are remembered. -/
def trimDedup (limit : ℕ) (dedup : List (Instant × MessageId))
    (states : SortedMap MessageId StateName) :
    List (Instant × MessageId) × SortedMap MessageId StateName :=
  match dedup with
  | [] => ([], states)
  | oldest :: rest =>
    if limit < (oldest :: rest).length then trimDedup limit rest (states.erase oldest.2)
    else (oldest :: rest, states)

/-- The sender's id or the fresh one `minted`, remembered for the dedup window. -/
def registerId (wanted : Option MessageId) (minted : MessageId) : MessageId × Inbox :=
  let id := wanted.getD minted
  let trimmed := trimDedup inbox.limits.dedupMaxIds (inbox.dedup ++ [(now, id)])
    (inbox.dedupState.insert id .queued)
  (id, { inbox with dedup := trimmed.1, dedupState := trimmed.2 })

def expiredDedup (now : Instant) (window : Duration) (dedup : List (Instant × MessageId))
    (states : SortedMap MessageId StateName) :
    List (Instant × MessageId) × SortedMap MessageId StateName :=
  match dedup with
  | [] => ([], states)
  | oldest :: rest =>
    if now - oldest.1 < window then (oldest :: rest, states)
    else expiredDedup now window rest (states.erase oldest.2)

def expireDedup : Inbox :=
  let expired := expiredDedup now inbox.limits.dedupWindow inbox.dedup inbox.dedupState
  { inbox with dedup := expired.1, dedupState := expired.2 }

/-- The message `insert` pushes, before its first transition. -/
def newMessage (id : MessageId) (kind : MessageKind) (address : Address)
    (recipient : Option Recipient) (content : Content) : Message where
  id := id
  kind := kind
  address := address
  recipient := recipient
  sender := cappedSender content.sender
  subject := cappedSubject content.subject
  body := content.body
  bodyTrust := content.bodyTrust
  spillPath := content.spillPath.filter fun path => decide (Text.len path ≤ maxStoredPathBytes)
  preface := content.preface.map fun preface => Text.cutBytes preface maxStoredPrefaceBytes
  createdAt := now
  state := .queued
  deliveries := 0
  history := []
  excluded := []
  assignDeadline := none
  provenance := content.provenance

def insert (id : MessageId) (kind : MessageKind) (address : Address) (recipient : Option Recipient)
    (content : Content) : Inbox :=
  { inbox with
    messages := inbox.messages ++ [newMessage now id kind address recipient content] }.transition
      inbox.messages.length now .queued

def findFor (id paneId agentId : String) : Option ℕ :=
  inbox.messages.findIdx? fun msg =>
    decide (msg.id = id) && msg.recipient.any fun recipient => recipient.admits paneId agentId

/-! ## Bounding the history -/

/-- A message that ended longer than the body's time ago loses its body. -/
def dropBody (ttl : Duration) (msg : Message) : Message :=
  let ended := (msg.history.getLast?.map Prod.fst).getD msg.createdAt
  if msg.state.isTerminal ∧ msg.body ≠ [] ∧ ttl ≤ now - ended then { msg with body := [] } else msg

def holder (msg : Message) : Option String := msg.recipient.map Recipient.paneId

def endedFor (messages : List Message) (of : Option String) : ℕ :=
  messages.countP fun msg => msg.state.isTerminal && decide (holder msg = of)

/-- The oldest messages over each holder's bound are dropped; `excess` is what each still drops. -/
def dropExcess (excess : Option String → ℕ) : List Message → List Message
  | [] => []
  | msg :: rest =>
    if msg.state.isTerminal ∧ 0 < excess (holder msg) then
      dropExcess (Function.update excess (holder msg) (excess (holder msg) - 1)) rest
    else msg :: dropExcess excess rest

/-- The oldest ended messages are dropped until the deck-wide bounds hold. -/
def dropOldest (maxCount maxBytes : ℕ) : ℕ → ℕ → List Message → List Message
  | _, _, [] => []
  | count, bytes, msg :: rest =>
    if msg.state.isTerminal = false ∨ (count ≤ maxCount ∧ bytes ≤ maxBytes) then
      msg :: dropOldest maxCount maxBytes count bytes rest
    else dropOldest maxCount maxBytes (count - 1) (bytes - Text.len msg.body) rest

/-- At most `limit` terminal messages of each holder, oldest dropped. -/
def trimHolders (limit : ℕ) (messages : List Message) : List Message :=
  if messages.any fun msg =>
      msg.state.isTerminal && decide (limit < endedFor messages (holder msg)) then
    dropExcess (fun of => endedFor messages of - limit) messages
  else messages

/-- At most `maxCount` terminal messages and `maxBytes` of their bodies, oldest dropped. -/
def trimDeck (maxCount maxBytes : ℕ) (messages : List Message) : List Message :=
  let ended := messages.filter fun msg => msg.state.isTerminal
  let count := ended.length
  let bytes := (ended.map fun msg => Text.len msg.body).sum
  if count ≤ maxCount ∧ bytes ≤ maxBytes then messages
  else dropOldest maxCount maxBytes count bytes messages

/-- Bound the acknowledged and undeliverable messages, per holder and deck-wide. -/
def trimHistory : Inbox :=
  let limits := inbox.limits
  { inbox with
    messages := trimDeck limits.maxHistoryMessages limits.maxHistoryBytes
      (trimHolders limits.historyPerPane
        (inbox.messages.map (dropBody now limits.historyBodyTtl))) }

/-! ## Offers that leave their holder -/

/-- The message without its deadline and its holder, who will not be offered it again. -/
def Message.parted (msg : Message) : Message :=
  { msg with
    assignDeadline := none
    recipient := none
    excluded := msg.excluded ++ msg.recipient.toList }

/-- An offer leaves its holder and returns to its pool, or becomes undeliverable at
`max_deliver`. -/
def returnOffer (index : ℕ) (now : Instant) (cause : ReturnCause) : Inbox :=
  match inbox.messages[index]? with
  | none => inbox
  | some msg =>
    let left := inbox.edit index Message.parted
    let moved :=
      if inbox.limits.maxDeliver ≤ msg.deliveries then
        left.transition index now (.undeliverable now .maxDeliver)
      else left.transition index now .queued
    match msg.recipient with
    | none => moved
    | some previous =>
      { moved with
        events := moved.events.modifyLast fun event =>
          { event with returned := some ⟨previous, cause⟩ } }

def claimedBy (id paneId agentId : String) : Except ClaimOutcome ℕ :=
  match inbox.messages.findIdx? fun msg =>
      decide (msg.id = id) && msg.isOffer && !msg.state.isTerminal with
  | none => .error .unknown
  | some index =>
    match inbox.messages[index]?.map Message.state with
    | some (.claimed claimant _ _) =>
      if claimant.admits paneId agentId then .ok index else .error .notClaimant
    | _ => .error .notClaimant

/-- The claim on the offer at `index` ran out by `now`. -/
def claimDue (index : ℕ) (now : Instant) : Bool :=
  match inbox.messages[index]?.map Message.state with
  | some (.claimed _ _ expires) => decide (expires ≤ now)
  | _ => false

def expireClaimIfDue (index : ℕ) (now : Instant) : Bool × Inbox :=
  if inbox.claimDue index now then
    (true, (inbox.returnOffer index now .claimExpired).trimHistory now)
  else (false, inbox)

def sweep (body : ℕ → Inbox → Inbox) : ℕ → Inbox → Inbox
  | 0, inbox => inbox
  | index + 1, inbox => sweep body index (body index inbox)

end Inbox

end AgentDeck
