import AgentDeck.Inbox.Store

/-!
# The inbox: what its callers may do

The public operations of `Inbox`. A refused post may still have moved the dedup window on, so every
admission answers the inbox as well. A run is a list of calls, each with its own instant.
-/

namespace AgentDeck.Inbox

/-! ## Admissions -/

variable (inbox : Inbox) (now : Instant)

/-- The refusal a post of `content` would get now whoever it is for. -/
def admitReply (content : Content) : Except PostError Unit × Inbox :=
  let inbox := inbox.expireDedup now
  (do
    inbox.checkBody content
    inbox.checkId content.id
    inbox.checkRoom 1, inbox)

def admitDirect (recipient : Recipient) (content : Content) : Except PostError Unit × Inbox :=
  let admitted := inbox.admitReply now content
  (do
    admitted.1
    if admitted.2.hasRoomFor recipient.paneId then .ok ()
    else .error (.inboxFull recipient.paneId admitted.2.limits.maxPerRecipient), admitted.2)

def admitAgentDirect (recipient : Recipient) (content : Content) : Except PostError Unit × Inbox :=
  match inbox.checkRate now content.sender with
  | .error refusal => (.error refusal, inbox)
  | .ok _ => inbox.admitDirect now recipient content

def admitReservedReply (content : Content) : Except PostError Unit × Inbox :=
  let inbox := inbox.expireDedup now
  (do
    inbox.checkBody content
    inbox.checkId content.id, inbox)

def admitPublish (content : Content) (recipients : List Recipient) :
    Except PostError Unit × Inbox :=
  let inbox := inbox.expireDedup now
  (do
    inbox.checkBody content
    inbox.checkRate now content.sender
    inbox.checkId content.id
    inbox.checkRoom (recipients.countP fun recipient => inbox.hasRoomFor recipient.paneId), inbox)

def openOffers (scope : Scope) : ℕ :=
  inbox.messages.countP fun msg =>
    msg.isOffer && !msg.state.isTerminal && decide (msg.scope = some scope)

def admitOffer (scope : Scope) (claimTtl : Option Duration) (content : Content) :
    Except PostError Duration × Inbox :=
  let inbox := inbox.expireDedup now
  let limits := inbox.limits
  let claimTtl := claimTtl.getD limits.defaultClaimTtl
  (do
    inbox.checkBody content
    if claimTtl < limits.minClaimTtl ∨ limits.maxClaimTtl < claimTtl then
      .error (.claimTtlOutOfRange (millis limits.minClaimTtl) (millis limits.maxClaimTtl))
    else .ok ()
    inbox.checkRate now content.sender
    if limits.maxOffersPerScope ≤ inbox.openOffers scope then
      .error (.tooManyOffers limits.maxOffersPerScope)
    else .ok ()
    inbox.checkId content.id
    inbox.checkRoom 1
    .ok claimTtl, inbox)

/-! ## Posts -/

def insertDirect (recipient : Recipient) (content : Content) (minted : MessageId) :
    MessageId × Inbox :=
  let registered := inbox.registerId now content.id minted
  (registered.1, (registered.2.insert now registered.1 .direct
    (.direct registered.2.deck recipient.paneId) (some recipient) content).trimHistory now)

def postDirect (recipient : Recipient) (content : Content) (minted : MessageId) :
    Except PostError MessageId × Inbox :=
  match inbox.admitDirect now recipient content with
  | (.error refusal, admitted) => (.error refusal, admitted)
  | (.ok _, admitted) =>
    let posted := admitted.insertDirect now recipient content minted
    (.ok posted.1, posted.2)

/-- Post a message one agent sends another, counted against the sender's quota. -/
def postAgentDirect (recipient : Recipient) (content : Content) (minted : MessageId) :
    Except PostError MessageId × Inbox :=
  match inbox.admitAgentDirect now recipient content with
  | (.error refusal, admitted) => (.error refusal, admitted)
  | (.ok _, admitted) =>
    let posted := (admitted.recordRate now content.sender).insertDirect now recipient content minted
    (.ok posted.1, posted.2)

def reserveReply : Except PostError Unit × Inbox :=
  match inbox.checkRoom 1 with
  | .error refusal => (.error refusal, inbox)
  | .ok _ => (.ok (), { inbox with reservedReplies := inbox.reservedReplies + 1 })

/-- Hold room for a delegated task that replaces `replacing` older ones still live in its pane. -/
def reserveDelegate (paneId : String) (content : Content) (replacing : ℕ) :
    Except PostError Unit × Inbox :=
  match inbox.admitReservedReply now content with
  | (.error refusal, admitted) => (.error refusal, admitted)
  | (.ok _, admitted) =>
    let limits := admitted.limits
    if limits.maxMessages + replacing < admitted.liveCount + admitted.reservedReplies + 1 then
      (.error (.deckFull limits.maxMessages), admitted)
    else if limits.maxPerRecipient + replacing ≤ admitted.liveForPane paneId then
      (.error (.inboxFull paneId limits.maxPerRecipient), admitted)
    else (.ok (), { admitted with reservedReplies := admitted.reservedReplies + 1 })

def releaseReply : Inbox :=
  { inbox with reservedReplies := inbox.reservedReplies - 1 }

def postReservedReply (recipient : Recipient) (content : Content) (minted : MessageId) :
    Except PostError MessageId × Inbox :=
  match inbox.admitReservedReply now content with
  | (.error refusal, admitted) => (.error refusal, admitted)
  | (.ok _, admitted) =>
    let posted := admitted.releaseReply.insertDirect now recipient content minted
    (.ok posted.1, posted.2)

/-- Publish to every recipient with room; each gets its own copy under the one id. -/
def publish (inbox : Inbox) (now : Instant) (scope : Scope) (topic : String) (content : Content)
    (recipients : List Recipient) (minted : MessageId) : Except PostError Published × Inbox :=
  match inbox.admitPublish now content recipients with
  | (.error refusal, admitted) => (.error refusal, admitted)
  | (.ok _, admitted) =>
    let split := recipients.partition fun recipient => admitted.hasRoomFor recipient.paneId
    let registered := admitted.registerId now content.id minted
    let counted := registered.2.recordRate now content.sender
    let posted := split.1.foldl (fun inbox recipient =>
      inbox.insert now registered.1 (.publish topic) (.topic counted.deck scope topic)
        (some recipient) content) counted
    (.ok ⟨registered.1, split.1.length, split.2.map Recipient.paneId⟩, posted.trimHistory now)

/-! ## Offers -/

/-- The first candidate that has not held the offer before and has room. -/
def chosen (msg : Message) (candidates : List Recipient) : Option Recipient :=
  candidates.find? fun candidate =>
    !(msg.excluded.any fun previous => previous.sameHolder candidate) &&
      inbox.hasRoomFor candidate.paneId

/-- The message with `holder` as its new holder until `deadline`. -/
def Message.assigned (msg : Message) (holder : Recipient) (deadline : Instant) : Message :=
  { msg with
    recipient := some holder
    deliveries := msg.deliveries + 1
    assignDeadline := some deadline }

/-- Push an offer that no one holds to the first candidate that has not held it before. -/
def assignOffer (id : MessageId) (candidates : List Recipient) : Option Recipient × Inbox :=
  match inbox.messages.findIdx? fun msg =>
      decide (msg.id = id) && msg.isOffer && msg.recipient.isNone &&
        decide (msg.state = .queued) with
  | none => (none, inbox)
  | some index =>
    match inbox.messages[index]?.bind fun msg => inbox.chosen msg candidates with
    | none => (none, inbox)
    | some holder =>
      (some holder, (inbox.edit index fun msg =>
        msg.assigned holder (now + inbox.limits.offerAssignWait)).transition index now .queued)

/-- Offer a job in `pool` and push it to the first eligible candidate. -/
def offer (inbox : Inbox) (now : Instant) (scope : Scope) (pool : String)
    (claimTtl : Option Duration) (content : Content) (candidates : List Recipient)
    (minted : MessageId) : Except PostError Offered × Inbox :=
  match inbox.admitOffer now scope claimTtl content with
  | (.error refusal, admitted) => (.error refusal, admitted)
  | (.ok claimTtl, admitted) =>
    let registered := admitted.registerId now content.id minted
    let counted := registered.2.recordRate now content.sender
    let posted := counted.insert now registered.1 (.offer pool claimTtl)
      (.offer counted.deck scope pool) none content
    let assigned := posted.assignOffer now registered.1 candidates
    (.ok ⟨registered.1, assigned.1⟩, assigned.2)

/-! ## Receipts -/

def ack (id paneId agentId : String) (how : AckHow) : AckOutcome × Inbox :=
  match inbox.findFor id paneId agentId with
  | none =>
    (if inbox.messages.any fun msg => decide (msg.id = id) then .wrongAgent else .unknown, inbox)
  | some index =>
    match inbox.messages[index]? with
    | none => (.unknown, inbox)
    | some msg =>
      match msg.state with
      | .acknowledged _ _ => (.alreadyAcknowledged, inbox)
      | .undeliverable _ reason =>
        if reason = .maxDeliver ∧ msg.isOffer = false then
          (.acknowledged,
            (inbox.transition index now (.acknowledged now how)).trimHistory now)
        else (.undeliverable, inbox)
      | .claimed _ _ expires => (.claimed (millis (expires - now)), inbox)
      | .queued | .fetched _ _ =>
        match msg.kind with
        | .offer _ claimTtl =>
          (.claimed (millis claimTtl), inbox.transition index now
            (.claimed (msg.recipient.getD (.bound paneId agentId)) now (now + claimTtl)))
        | .direct | .publish _ =>
          (.acknowledged,
            (inbox.transition index now (.acknowledged now how)).trimHistory now)

def Message.delivered (msg : Message) : Message := { msg with deliveries := msg.deliveries + 1 }

def takeReceipt (id paneId agentId : String) (consumer : Consumer) : Option Message × Inbox :=
  match inbox.findFor id paneId agentId with
  | none => (none, inbox)
  | some index =>
    match inbox.messages[index]? with
    | none => (none, inbox)
    | some msg =>
      if msg.state ≠ .queued then (none, inbox)
      else
        let counted :=
          if msg.isOffer then inbox else inbox.edit index Message.delivered
        let taken := counted.transition index now (.fetched consumer now)
        (taken.messages[index]?, taken)

/-- Another hand-out of a fetched message's current assignment. -/
def countReceiptRepeat (id paneId agentId : String) : Bool × Inbox :=
  match inbox.findFor id paneId agentId with
  | none => (false, inbox)
  | some index =>
    match inbox.messages[index]? with
    | none => (false, inbox)
    | some msg =>
      if !msg.state.isFetched || msg.isOffer then (false, inbox)
      else (true, inbox.edit index Message.delivered)

/-- A fetched message nobody was handed is queued again, or an offer returned to its pool. -/
def requeueReceipt (id paneId : String) : Bool × Inbox :=
  match inbox.messages.findIdx? fun msg => decide (msg.id = id) && msg.isFor paneId with
  | none => (false, inbox)
  | some index =>
    match inbox.messages[index]? with
    | none => (false, inbox)
    | some msg =>
      if msg.state.isFetched = false then (false, inbox)
      else if msg.isOffer then
        (true, (inbox.returnOffer index now .ackWaitExpired).trimHistory now)
      else (true, (inbox.transition index now .queued).trimHistory now)

def complete (id paneId agentId : String) : ClaimOutcome × Inbox :=
  match inbox.claimedBy id paneId agentId with
  | .error outcome => (outcome, inbox)
  | .ok index =>
    match inbox.expireClaimIfDue index now with
    | (true, expired) => (.expired, expired)
    | (false, kept) =>
      (.completed,
        (kept.transition index now (.acknowledged now .offerCompleted)).trimHistory now)

def release (id paneId agentId : String) : ClaimOutcome × Inbox :=
  match inbox.claimedBy id paneId agentId with
  | .error outcome => (outcome, inbox)
  | .ok index =>
    match inbox.expireClaimIfDue index now with
    | (true, expired) => (.expired, expired)
    | (false, kept) => (.released, (kept.returnOffer index now .released).trimHistory now)

/-! ## Exits, retirement and deadlines -/

/-- A live message held by exactly this agent generation. -/
def heldBy (paneId agentId : String) (msg : Message) : Bool :=
  !msg.state.isTerminal && decide (msg.recipient = some (.bound paneId agentId))

def exitAt (paneId agentId : String) (index : ℕ) (inbox : Inbox) : Inbox :=
  match inbox.messages[index]? with
  | none => inbox
  | some msg =>
    if heldBy paneId agentId msg = false then inbox
    else if msg.isOffer then inbox.returnOffer index now .holderExited
    else inbox.transition index now (.undeliverable now .agentExited)

/-- An agent exited: its messages are undeliverable and the offers it held go back. -/
def agentExited (paneId agentId : String) : Inbox :=
  (sweep (exitAt now paneId agentId) inbox.messages.length inbox).trimHistory now

def retire (id paneId : String) (reason : UndeliverableReason) : Bool × Inbox :=
  match inbox.messages.findIdx? fun msg =>
      decide (msg.id = id) && !msg.state.isTerminal && msg.isFor paneId with
  | none => (false, inbox)
  | some index =>
    (true, (inbox.transition index now (.undeliverable now reason)).trimHistory now)

def Message.deadline (msg : Message) : Option Instant :=
  match msg.state with
  | .claimed _ _ expires => some expires
  | .queued => msg.assignDeadline
  | .fetched _ _ | .acknowledged _ _ | .undeliverable _ _ => none

/-- What the deadlines that have passed do to the message at `index`. -/
def tickAt (index : ℕ) (inbox : Inbox) : Inbox :=
  match inbox.messages[index]? with
  | none => inbox
  | some msg =>
    match msg.state with
    | .claimed _ _ expires =>
      if expires ≤ now then inbox.returnOffer index now .claimExpired else inbox
    | .queued =>
      if msg.assignDeadline.any fun due => decide (due ≤ now) then
        inbox.returnOffer index now .notFetched
      else inbox
    | .fetched _ _ | .acknowledged _ _ | .undeliverable _ _ => inbox

/-- The rate windows without the posts that left them, and without the empty ones. -/
def expiredRate (rate : SortedMap String (List Instant)) : SortedMap String (List Instant) :=
  (rate.map fun _ times => times.dropWhile fun time => decide (rateWindow ≤ now - time)).filter
    fun _ times => !times.isEmpty

def tick : Inbox :=
  let trimmed := (sweep (tickAt now) inbox.messages.length inbox).trimHistory now
  let expired := trimmed.expireDedup now
  { expired with rate := expiredRate now expired.rate }

/-- The earliest claim expiry or unfetched offer's assignment deadline. -/
def nextDeadline : Option Instant :=
  (inbox.messages.filterMap Message.deadline).min?

/-- Drop a closed pane's acknowledged and undeliverable history. -/
def forgetPaneHistory (paneId : String) : Inbox :=
  { inbox with
    messages := inbox.messages.filter fun msg => !msg.state.isTerminal || !msg.isFor paneId }

def drainEvents : List InboxEvent × Inbox :=
  (inbox.events, { inbox with events := [] })

/-! ## Runs -/

inductive Op
  | admitReply (now : Instant) (content : Content)
  | admitDirect (now : Instant) (recipient : Recipient) (content : Content)
  | admitAgentDirect (now : Instant) (recipient : Recipient) (content : Content)
  | admitReservedReply (now : Instant) (content : Content)
  | admitPublish (now : Instant) (content : Content) (recipients : List Recipient)
  | admitOffer (now : Instant) (scope : Scope) (claimTtl : Option Duration) (content : Content)
  | postDirect (now : Instant) (recipient : Recipient) (content : Content) (minted : MessageId)
  | postAgentDirect (now : Instant) (recipient : Recipient) (content : Content)
      (minted : MessageId)
  | reserveReply
  | reserveDelegate (now : Instant) (paneId : String) (content : Content) (replacing : ℕ)
  | releaseReply
  | postReservedReply (now : Instant) (recipient : Recipient) (content : Content)
      (minted : MessageId)
  | publish (now : Instant) (scope : Scope) (topic : String) (content : Content)
      (recipients : List Recipient) (minted : MessageId)
  | offer (now : Instant) (scope : Scope) (pool : String) (claimTtl : Option Duration)
      (content : Content) (candidates : List Recipient) (minted : MessageId)
  | assignOffer (now : Instant) (id : MessageId) (candidates : List Recipient)
  | ack (now : Instant) (id paneId agentId : String) (how : AckHow)
  | takeReceipt (now : Instant) (id paneId agentId : String) (consumer : Consumer)
  | countReceiptRepeat (id paneId agentId : String)
  | requeueReceipt (now : Instant) (id paneId : String)
  | complete (now : Instant) (id paneId agentId : String)
  | release (now : Instant) (id paneId agentId : String)
  | agentExited (now : Instant) (paneId agentId : String)
  | retire (now : Instant) (id paneId : String) (reason : UndeliverableReason)
  | tick (now : Instant)
  | forgetPaneHistory (paneId : String)
  | drainEvents

def apply : Op → Inbox
  | .admitReply now content => (inbox.admitReply now content).2
  | .admitDirect now recipient content => (inbox.admitDirect now recipient content).2
  | .admitAgentDirect now recipient content => (inbox.admitAgentDirect now recipient content).2
  | .admitReservedReply now content => (inbox.admitReservedReply now content).2
  | .admitPublish now content recipients => (inbox.admitPublish now content recipients).2
  | .admitOffer now scope claimTtl content => (inbox.admitOffer now scope claimTtl content).2
  | .postDirect now recipient content minted => (inbox.postDirect now recipient content minted).2
  | .postAgentDirect now recipient content minted =>
    (inbox.postAgentDirect now recipient content minted).2
  | .reserveReply => inbox.reserveReply.2
  | .reserveDelegate now paneId content replacing =>
    (inbox.reserveDelegate now paneId content replacing).2
  | .releaseReply => inbox.releaseReply
  | .postReservedReply now recipient content minted =>
    (inbox.postReservedReply now recipient content minted).2
  | .publish now scope topic content recipients minted =>
    (inbox.publish now scope topic content recipients minted).2
  | .offer now scope pool claimTtl content candidates minted =>
    (inbox.offer now scope pool claimTtl content candidates minted).2
  | .assignOffer now id candidates => (inbox.assignOffer now id candidates).2
  | .ack now id paneId agentId how => (inbox.ack now id paneId agentId how).2
  | .takeReceipt now id paneId agentId consumer =>
    (inbox.takeReceipt now id paneId agentId consumer).2
  | .countReceiptRepeat id paneId agentId => (inbox.countReceiptRepeat id paneId agentId).2
  | .requeueReceipt now id paneId => (inbox.requeueReceipt now id paneId).2
  | .complete now id paneId agentId => (inbox.complete now id paneId agentId).2
  | .release now id paneId agentId => (inbox.release now id paneId agentId).2
  | .agentExited now paneId agentId => inbox.agentExited now paneId agentId
  | .retire now id paneId reason => (inbox.retire now id paneId reason).2
  | .tick now => inbox.tick now
  | .forgetPaneHistory paneId => inbox.forgetPaneHistory paneId
  | .drainEvents => inbox.drainEvents.2

def run (ops : List Op) : Inbox := ops.foldl apply inbox

end AgentDeck.Inbox
