import AgentDeck.Inbox.Runs

/-!
# What a post does

A post moves the dedup window on and goes through its checks; a refused one has done nothing else.
An accepted one remembers its id and adds its messages behind the ones the inbox holds, all under
that id. `Step` lists with it what every operation may do, each accepted post with what its checks
have found.
-/

namespace AgentDeck.Inbox

variable {inbox later : Inbox}

/-- Nothing the inbox holds or remembers, once the dedup window has moved on, has this id. -/
structure Unused (inbox : Inbox) (now : Instant) (id : MessageId) : Prop where
  held : ∀ msg ∈ inbox.messages, msg.id ≠ id
  remembered : (inbox.expireDedup now).dedupState.get? id = none

def Op.instant : Op → Option Instant
  | .admitReply now _ | .admitDirect now _ _ | .admitAgentDirect now _ _
  | .admitReservedReply now _ | .admitPublish now _ _ | .admitOffer now _ _ _
  | .postDirect now _ _ _ | .postAgentDirect now _ _ _ | .reserveDelegate now _ _ _
  | .postReservedReply now _ _ _ | .publish now _ _ _ _ _ | .offer now _ _ _ _ _ _
  | .assignOffer now _ _ | .ack now _ _ _ _ | .takeReceipt now _ _ _ _ | .requeueReceipt now _ _
  | .complete now _ _ _ | .release now _ _ _ | .agentExited now _ _ | .retire now _ _ _
  | .tick now => some now
  | .reserveReply | .releaseReply | .countReceiptRepeat _ _ _ | .forgetPaneHistory _
  | .drainEvents => none

def Op.posts : Op → Bool
  | .postDirect _ _ _ _ | .postAgentDirect _ _ _ _ | .postReservedReply _ _ _ _
  | .publish _ _ _ _ _ _ | .offer _ _ _ _ _ _ _ => true
  | _ => false

def Op.posted (inbox : Inbox) : Op → Option MessageId
  | .postDirect now recipient content minted =>
    (inbox.postDirect now recipient content minted).1.toOption
  | .postAgentDirect now recipient content minted =>
    (inbox.postAgentDirect now recipient content minted).1.toOption
  | .postReservedReply now recipient content minted =>
    (inbox.postReservedReply now recipient content minted).1.toOption
  | .publish now scope topic content recipients minted =>
    (inbox.publish now scope topic content recipients minted).1.toOption.map Published.id
  | .offer now scope pool claimTtl content candidates minted =>
    (inbox.offer now scope pool claimTtl content candidates minted).1.toOption.map Offered.id
  | _ => none

/-- The id `register_id` would draw for the call is one its loop stops at. -/
def Op.Fresh (inbox : Inbox) : Op → Prop
  | .postDirect now _ content minted | .postAgentDirect now _ content minted
  | .postReservedReply now _ content minted | .publish now _ _ content _ minted
  | .offer now _ _ _ content _ minted => content.id = none → Unused inbox now minted
  | _ => True

/-- `P` holds of every call of a run, at the inbox it is made at. -/
def Along (P : Inbox → Op → Prop) (inbox : Inbox) : List Op → Prop
  | [] => True
  | op :: rest => P inbox op ∧ Along P (inbox.apply op) rest

def occupied (inbox : Inbox) : ℕ := inbox.liveCount + inbox.reservedReplies

/-- `later` is the inbox after a post of `copies` under `id`, before its history is bounded. -/
structure Posted (inbox : Inbox) (now : Instant) (id : MessageId) (copies : List Message)
    (later : Inbox) : Prop where
  messages : later.messages = inbox.messages ++ copies
  dedup : later.dedup = (trimDedup inbox.limits.dedupMaxIds
    ((inbox.expireDedup now).dedup ++ [(now, id)])
    ((inbox.expireDedup now).dedupState.insert id .queued)).1
  dedupState : later.dedupState = (trimDedup inbox.limits.dedupMaxIds
    ((inbox.expireDedup now).dedup ++ [(now, id)])
    ((inbox.expireDedup now).dedupState.insert id .queued)).2
  events : ∃ new, later.events = inbox.events ++ new ∧
    ∀ event ∈ new, event.messageId = id ∧ event.state = .queued
  limits : later.limits = inbox.limits

def copyFor (now : Instant) (id : MessageId) (kind : MessageKind) (address : Address)
    (content : Content) (recipient : Option Recipient) : Message :=
  (newMessage now id kind address recipient content).moved now .queued

/-! ## The checks -/

theorem checkId_ok {wanted : Option MessageId} (accepted : inbox.checkId wanted = .ok ())
    {id : MessageId} (wants : wanted = some id) :
    (∀ msg ∈ inbox.messages, msg.id ≠ id) ∧ inbox.dedupState.get? id = none := by
  subst wants
  simp only [checkId] at accepted
  split at accepted
  · cases accepted
  · rename_i unused
    simp only [Bool.or_eq_true, not_or, Bool.not_eq_true, Option.isSome_eq_false_iff,
      Option.isNone_iff_eq_none, List.find?_eq_none, decide_eq_true_eq] at unused
    exact unused

theorem checkRoom_ok {needed : ℕ} (accepted : inbox.checkRoom needed = .ok ()) :
    inbox.occupied + needed ≤ inbox.limits.maxMessages := by
  simp only [checkRoom] at accepted
  split at accepted
  · cases accepted
  · simp only [occupied]
    omega

theorem ok_of_bind {ε α β : Type} {first : Except ε α} {rest : α → Except ε β} {result : β}
    (accepted : first >>= rest = .ok result) :
    ∃ value, first = .ok value ∧ rest value = .ok result := by
  cases first with
  | error refusal => cases accepted
  | ok value => exact ⟨value, rfl, accepted⟩

variable {now : Instant} {content : Content}

theorem unused_of_checkId {minted : MessageId}
    (accepted : (inbox.expireDedup now).checkId content.id = .ok ())
    (fresh : content.id = none → Unused inbox now minted) :
    Unused inbox now (content.id.getD minted) := by
  rcases wanted : content.id with _ | id
  · exact fresh wanted
  · rcases checkId_ok accepted wanted with ⟨held, remembered⟩
    exact ⟨held, remembered⟩

/-! ## What the internal functions leave -/

theorem trimDedup_get? (limit : ℕ) (dedup : List (Instant × MessageId))
    (states : SortedMap MessageId StateName) (id : MessageId) :
    (trimDedup limit dedup states).2.get? id = none ∨
      (trimDedup limit dedup states).2.get? id = states.get? id := by
  induction dedup generalizing states with
  | nil => exact Or.inr rfl
  | cons oldest rest ih =>
    simp only [trimDedup]
    split
    · rcases ih (states.erase oldest.2) with gone | same
      · exact Or.inl gone
      · rw [SortedMap.get?_erase] at same
        split at same
        · exact Or.inl same
        · exact Or.inr same
    · exact Or.inr rfl

/-- An id that was just posted reads as queued, or is not remembered at all. -/
def ReadsQueued (inbox : Inbox) (id : MessageId) : Prop :=
  inbox.dedupState.get? id = none ∨ inbox.dedupState.get? id = some .queued

theorem insert_dedupState (inbox : Inbox) {id : MessageId} (queued : ReadsQueued inbox id)
    (now : Instant) (kind : MessageKind) (address : Address) (recipient : Option Recipient)
    (content : Content) :
    (inbox.insert now id kind address recipient content).dedupState = inbox.dedupState := by
  simp only [insert, transition, List.getElem?_concat_length]
  apply SortedMap.ext_get?
  intro key
  simp only [SortedMap.get?_modify]
  split
  · rename_i same
    subst same
    rcases queued with none | some
    · simp [none]
    · simp [some, MessageState.name]
  · rfl

theorem insert_messages (inbox : Inbox) (now : Instant) (id : MessageId) (kind : MessageKind)
    (address : Address) (recipient : Option Recipient) (content : Content) :
    (inbox.insert now id kind address recipient content).messages =
      inbox.messages ++ [copyFor now id kind address content recipient] :=
  (insert_eq inbox now id kind address recipient content).1

theorem insert_rest (inbox : Inbox) (now : Instant) (id : MessageId) (kind : MessageKind)
    (address : Address) (recipient : Option Recipient) (content : Content) :
    (inbox.insert now id kind address recipient content).dedup = inbox.dedup ∧
      (inbox.insert now id kind address recipient content).limits = inbox.limits ∧
      (inbox.insert now id kind address recipient content).reservedReplies =
        inbox.reservedReplies := by
  simp [insert, transition]

theorem insert_event (inbox : Inbox) (now : Instant) (id : MessageId) (kind : MessageKind)
    (address : Address) (recipient : Option Recipient) (content : Content) :
    ∃ event, (inbox.insert now id kind address recipient content).events =
        inbox.events ++ [event] ∧ event.messageId = id ∧ event.state = .queued :=
  ⟨_, (insert_eq inbox now id kind address recipient content).2.1, rfl, rfl⟩

theorem inserts_posted (inbox : Inbox) {id : MessageId} (queued : ReadsQueued inbox id)
    (now : Instant) (kind : MessageKind) (address : Address) (content : Content)
    (recipients : List Recipient) :
    let posted := recipients.foldl (fun inbox recipient =>
      inbox.insert now id kind address (some recipient) content) inbox
    posted.messages = inbox.messages ++
        recipients.map (fun recipient => copyFor now id kind address content (some recipient)) ∧
      posted.dedupState = inbox.dedupState ∧ posted.dedup = inbox.dedup ∧
      posted.limits = inbox.limits ∧ posted.reservedReplies = inbox.reservedReplies ∧
      ∃ new, posted.events = inbox.events ++ new ∧
        ∀ event ∈ new, event.messageId = id ∧ event.state = .queued := by
  induction recipients generalizing inbox with
  | nil => simp
  | cons recipient rest ih =>
    have states := insert_dedupState inbox queued now kind address (some recipient) content
    have first := insert_rest inbox now id kind address (some recipient) content
    have later : ReadsQueued (inbox.insert now id kind address (some recipient) content) id := by
      simp only [ReadsQueued, states]
      exact queued
    rcases insert_event inbox now id kind address (some recipient) content with
      ⟨event, emitted, named, state⟩
    rcases ih _ later with ⟨messages, dedupState, dedup, limits, reserved, new, events, all⟩
    simp only [List.foldl_cons, List.map_cons]
    refine ⟨?_, dedupState.trans states, dedup.trans first.1, limits.trans first.2.1,
      reserved.trans first.2.2, event :: new, ?_, ?_⟩
    · rw [messages, insert_messages, List.append_assoc, List.singleton_append]
    · rw [events, emitted, List.append_assoc, List.singleton_append]
    · intro other mem
      rcases List.mem_cons.mp mem with rfl | mem
      · exact ⟨named, state⟩
      · exact all other mem

theorem registerId_readsQueued (inbox : Inbox) (now : Instant) (wanted : Option MessageId)
    (minted : MessageId) :
    ReadsQueued (inbox.registerId now wanted minted).2 (wanted.getD minted) := by
  rcases trimDedup_get? inbox.limits.dedupMaxIds (inbox.dedup ++ [(now, wanted.getD minted)])
    (inbox.dedupState.insert (wanted.getD minted) .queued) (wanted.getD minted) with gone | same
  · exact Or.inl gone
  · refine Or.inr (same.trans ?_)
    rw [SortedMap.get?_insert, if_pos rfl]

theorem recordRate_rest (inbox : Inbox) (now : Instant) (sender : Sender) :
    ∃ rate, inbox.recordRate now sender = { inbox with rate := rate } := by
  simp only [recordRate]
  split
  · exact ⟨inbox.rate, rfl⟩
  · exact ⟨_, rfl⟩

/-! ## Steps -/

inductive Step (inbox : Inbox) : Op → Inbox → Prop
  | act {op : Op} {later : Inbox} (act : Act op.instant inbox later) (other : op.posts = false) :
      Step inbox op later
  | refused {op : Op} {later : Inbox}
      (same : later = inbox ∨ ∃ now, op.instant = some now ∧ later = inbox.expireDedup now)
      (unposted : Op.posted inbox op = none) : Step inbox op later
  | forget (paneId : String) :
      Step inbox (.forgetPaneHistory paneId) (inbox.forgetPaneHistory paneId)
  | drain : Step inbox .drainEvents inbox.drainEvents.2
  | reserve (room : inbox.occupied + 1 ≤ inbox.limits.maxMessages) :
      Step inbox .reserveReply { inbox with reservedReplies := inbox.reservedReplies + 1 }
  | delegate (now : Instant) (paneId : String) (content : Content) (replacing : ℕ)
      (accepted : (inbox.reserveDelegate now paneId content replacing).1 = .ok ())
      (room : inbox.occupied + 1 ≤ inbox.limits.maxMessages + replacing) :
      Step inbox (.reserveDelegate now paneId content replacing)
        { inbox.expireDedup now with reservedReplies := inbox.reservedReplies + 1 }
  | giveUp : Step inbox .releaseReply inbox.releaseReply
  | direct {op : Op} {later : Inbox} (now : Instant) (recipient : Recipient) (content : Content)
      (minted : MessageId)
      (plain : op = .postDirect now recipient content minted ∨
        op = .postAgentDirect now recipient content minted)
      (answers : Op.posted inbox op = some (content.id.getD minted))
      (vacant : (inbox.expireDedup now).checkId content.id = .ok ())
      (room : inbox.occupied + 1 ≤ inbox.limits.maxMessages)
      (place : inbox.hasRoomFor recipient.paneId = true)
      (posted : Posted inbox now (content.id.getD minted)
        [copyFor now (content.id.getD minted) .direct (.direct inbox.deck recipient.paneId) content
          (some recipient)] later)
      (reserved : later.reservedReplies = inbox.reservedReplies) :
      Step inbox op (later.trimHistory now)
  | reserved {later : Inbox} (now : Instant) (recipient : Recipient) (content : Content)
      (minted : MessageId)
      (answers : Op.posted inbox (.postReservedReply now recipient content minted) =
        some (content.id.getD minted))
      (vacant : (inbox.expireDedup now).checkId content.id = .ok ())
      (posted : Posted inbox now (content.id.getD minted)
        [copyFor now (content.id.getD minted) .direct (.direct inbox.deck recipient.paneId) content
          (some recipient)] later)
      (reserved : later.reservedReplies = inbox.reservedReplies - 1) :
      Step inbox (.postReservedReply now recipient content minted) (later.trimHistory now)
  | publish {later : Inbox} (now : Instant) (scope : Scope) (topic : String) (content : Content)
      (recipients : List Recipient) (minted : MessageId)
      (answers : Op.posted inbox (.publish now scope topic content recipients minted) =
        some (content.id.getD minted))
      (vacant : (inbox.expireDedup now).checkId content.id = .ok ())
      (room : inbox.occupied +
        (recipients.filter fun recipient => inbox.hasRoomFor recipient.paneId).length ≤
          inbox.limits.maxMessages)
      (posted : Posted inbox now (content.id.getD minted)
        ((recipients.filter fun recipient => inbox.hasRoomFor recipient.paneId).map fun recipient =>
          copyFor now (content.id.getD minted) (.publish topic) (.topic inbox.deck scope topic)
            content (some recipient)) later)
      (reserved : later.reservedReplies = inbox.reservedReplies) :
      Step inbox (.publish now scope topic content recipients minted) (later.trimHistory now)
  | offer {between later : Inbox} (now : Instant) (scope : Scope) (pool : String)
      (claimTtl : Option Duration) (content : Content) (candidates : List Recipient)
      (minted : MessageId) (answers :
        Op.posted inbox (.offer now scope pool claimTtl content candidates minted) =
          some (content.id.getD minted))
      (vacant : (inbox.expireDedup now).checkId content.id = .ok ())
      (room : inbox.occupied + 1 ≤ inbox.limits.maxMessages)
      (few : inbox.openOffers scope < inbox.limits.maxOffersPerScope)
      (posted : Posted inbox now (content.id.getD minted)
        [copyFor now (content.id.getD minted)
          (.offer pool (claimTtl.getD inbox.limits.defaultClaimTtl))
          (.offer inbox.deck scope pool) content none] between)
      (reserved : between.reservedReplies = inbox.reservedReplies)
      (assigned : Act (some now) between later) :
      Step inbox (.offer now scope pool claimTtl content candidates minted) later

theorem Op.posted_eq_none {op : Op} (other : op.posts = false) : Op.posted inbox op = none := by
  cases op <;> first | rfl | cases other

theorem act_of_refused {clock : Option Instant}
    (same : later = inbox ∨ ∃ now, clock = some now ∧ later = inbox.expireDedup now) :
    Act clock inbox later := by
  rcases same with rfl | ⟨now, made, rfl⟩
  · exact .same
  · exact .quiet (.one (.expire now made)) rfl

/-! ## Admissions -/

theorem admitReply_ok (accepted : (inbox.admitReply now content).1 = .ok ()) :
    (inbox.expireDedup now).checkId content.id = .ok () ∧
      inbox.occupied + 1 ≤ inbox.limits.maxMessages := by
  rcases ok_of_bind accepted with ⟨_, _, accepted⟩
  rcases ok_of_bind accepted with ⟨_, vacant, accepted⟩
  exact ⟨vacant, checkRoom_ok accepted⟩

theorem admitDirect_ok {recipient : Recipient}
    (accepted : (inbox.admitDirect now recipient content).1 = .ok ()) :
    (inbox.expireDedup now).checkId content.id = .ok () ∧
      inbox.occupied + 1 ≤ inbox.limits.maxMessages ∧
      inbox.hasRoomFor recipient.paneId = true := by
  rcases ok_of_bind accepted with ⟨_, admitted, accepted⟩
  rcases admitReply_ok admitted with ⟨vacant, room⟩
  refine ⟨vacant, room, ?_⟩
  split at accepted
  · rename_i place
    exact place
  · cases accepted

theorem admitReservedReply_ok (accepted : (inbox.admitReservedReply now content).1 = .ok ()) :
    (inbox.expireDedup now).checkId content.id = .ok () := by
  rcases ok_of_bind accepted with ⟨_, _, accepted⟩
  exact accepted

theorem admitPublish_ok {recipients : List Recipient}
    (accepted : (inbox.admitPublish now content recipients).1 = .ok ()) :
    (inbox.expireDedup now).checkId content.id = .ok () ∧
      inbox.occupied +
        (recipients.filter fun recipient => inbox.hasRoomFor recipient.paneId).length ≤
          inbox.limits.maxMessages := by
  rcases ok_of_bind accepted with ⟨_, _, accepted⟩
  rcases ok_of_bind accepted with ⟨_, _, accepted⟩
  rcases ok_of_bind accepted with ⟨_, vacant, accepted⟩
  refine ⟨vacant, ?_⟩
  have room := checkRoom_ok accepted
  rw [List.countP_eq_length_filter] at room
  exact room

theorem admitOffer_ok {scope : Scope} {claimTtl : Option Duration} {ttl : Duration}
    (accepted : (inbox.admitOffer now scope claimTtl content).1 = .ok ttl) :
    (inbox.expireDedup now).checkId content.id = .ok () ∧
      inbox.occupied + 1 ≤ inbox.limits.maxMessages ∧
      inbox.openOffers scope < inbox.limits.maxOffersPerScope ∧
      ttl = claimTtl.getD inbox.limits.defaultClaimTtl := by
  rcases ok_of_bind accepted with ⟨_, _, accepted⟩
  simp only at accepted
  split at accepted
  · cases accepted
  rcases ok_of_bind accepted with ⟨_, _, accepted⟩
  rcases ok_of_bind accepted with ⟨_, _, accepted⟩
  split at accepted
  · cases accepted
  rename_i few
  rcases ok_of_bind accepted with ⟨_, _, accepted⟩
  rcases ok_of_bind accepted with ⟨_, vacant, accepted⟩
  rcases ok_of_bind accepted with ⟨_, room, accepted⟩
  cases accepted
  exact ⟨vacant, checkRoom_ok room, Nat.lt_of_not_le few, rfl⟩

/-! ## Posts -/

theorem insertDirect_posted (inbox admitted : Inbox) (now : Instant) (recipient : Recipient)
    (content : Content) (minted : MessageId) (messages : admitted.messages = inbox.messages)
    (dedup : admitted.dedup = (inbox.expireDedup now).dedup)
    (dedupState : admitted.dedupState = (inbox.expireDedup now).dedupState)
    (events : admitted.events = inbox.events) (limits : admitted.limits = inbox.limits)
    (deck : admitted.deck = inbox.deck) :
    ∃ later, (admitted.insertDirect now recipient content minted).2 = later.trimHistory now ∧
      later.reservedReplies = admitted.reservedReplies ∧
      Posted inbox now (content.id.getD minted)
        [copyFor now (content.id.getD minted) .direct (.direct inbox.deck recipient.paneId) content
          (some recipient)] later := by
  have queued := registerId_readsQueued admitted now content.id minted
  have states := insert_dedupState _ queued now .direct (.direct admitted.deck recipient.paneId)
    (some recipient) content
  have rest := insert_rest (admitted.registerId now content.id minted).2 now
    (content.id.getD minted) .direct (.direct admitted.deck recipient.paneId) (some recipient)
    content
  rcases insert_event (admitted.registerId now content.id minted).2 now (content.id.getD minted)
    .direct (.direct admitted.deck recipient.paneId) (some recipient) content with
    ⟨event, emitted, named, state⟩
  refine ⟨_, rfl, rest.2.2, ?_, ?_, ?_, ⟨[event], ?_, by simp [named, state]⟩,
    rest.2.1.trans limits⟩
  · refine (insert_messages _ _ _ _ _ _ _).trans ?_
    simp only [registerId, messages, deck]
  · refine rest.1.trans ?_
    simp only [registerId, dedup, dedupState, limits]
  · refine states.trans ?_
    simp only [registerId, dedup, dedupState, limits]
  · refine emitted.trans ?_
    simp only [registerId, events]

theorem postDirect_step (now : Instant) (recipient : Recipient) (content : Content)
    (minted : MessageId) :
    Step inbox (.postDirect now recipient content minted)
      (inbox.postDirect now recipient content minted).2 := by
  rcases admits : inbox.admitDirect now recipient content with ⟨answer, admitted⟩
  have expired : admitted = inbox.expireDedup now := (congrArg Prod.snd admits).symm
  subst expired
  cases answer with
  | error refusal =>
    have refused : inbox.postDirect now recipient content minted =
        (.error refusal, inbox.expireDedup now) := by simp only [postDirect, admits]
    rw [refused]
    exact .refused (Or.inr ⟨now, rfl, rfl⟩) (by simp only [Op.posted, refused]; rfl)
  | ok _ =>
    rcases admitDirect_ok (congrArg Prod.fst admits) with ⟨vacant, room, place⟩
    rcases insertDirect_posted inbox (inbox.expireDedup now) now recipient content minted
      rfl rfl rfl rfl rfl rfl with ⟨later, result, reserved, posted⟩
    have accepted : inbox.postDirect now recipient content minted =
        (.ok (content.id.getD minted), later.trimHistory now) := by
      simp only [postDirect, admits, result]
      rfl
    rw [accepted]
    exact .direct now recipient content minted (Or.inl rfl)
      (by simp only [Op.posted, accepted]; rfl) vacant room place posted reserved

theorem postAgentDirect_step (now : Instant) (recipient : Recipient) (content : Content)
    (minted : MessageId) :
    Step inbox (.postAgentDirect now recipient content minted)
      (inbox.postAgentDirect now recipient content minted).2 := by
  rcases quota : inbox.checkRate now content.sender with refusal | _
  · have refused : inbox.postAgentDirect now recipient content minted =
        (.error refusal, inbox) := by simp only [postAgentDirect, admitAgentDirect, quota]
    rw [refused]
    exact .refused (Or.inl rfl) (by simp only [Op.posted, refused]; rfl)
  rcases admits : inbox.admitDirect now recipient content with ⟨answer, admitted⟩
  have expired : admitted = inbox.expireDedup now := (congrArg Prod.snd admits).symm
  subst expired
  cases answer with
  | error refusal =>
    have refused : inbox.postAgentDirect now recipient content minted =
        (.error refusal, inbox.expireDedup now) := by
      simp only [postAgentDirect, admitAgentDirect, quota, admits]
    rw [refused]
    exact .refused (Or.inr ⟨now, rfl, rfl⟩) (by simp only [Op.posted, refused]; rfl)
  | ok _ =>
    rcases admitDirect_ok (congrArg Prod.fst admits) with ⟨vacant, room, place⟩
    rcases recordRate_rest (inbox.expireDedup now) now content.sender with ⟨rate, counted⟩
    rcases insertDirect_posted inbox { inbox.expireDedup now with rate := rate } now recipient
      content minted
      rfl rfl rfl rfl rfl rfl with ⟨later, result, reserved, posted⟩
    have accepted : inbox.postAgentDirect now recipient content minted =
        (.ok (content.id.getD minted), later.trimHistory now) := by
      simp only [postAgentDirect, admitAgentDirect, quota, admits, counted, result]
      rfl
    rw [accepted]
    exact .direct now recipient content minted (Or.inr rfl)
      (by simp only [Op.posted, accepted]; rfl) vacant room place posted reserved

theorem postReservedReply_step (now : Instant) (recipient : Recipient) (content : Content)
    (minted : MessageId) :
    Step inbox (.postReservedReply now recipient content minted)
      (inbox.postReservedReply now recipient content minted).2 := by
  rcases admits : inbox.admitReservedReply now content with ⟨answer, admitted⟩
  have expired : admitted = inbox.expireDedup now := (congrArg Prod.snd admits).symm
  subst expired
  cases answer with
  | error refusal =>
    have refused : inbox.postReservedReply now recipient content minted =
        (.error refusal, inbox.expireDedup now) := by simp only [postReservedReply, admits]
    rw [refused]
    exact .refused (Or.inr ⟨now, rfl, rfl⟩) (by simp only [Op.posted, refused]; rfl)
  | ok _ =>
    have vacant := admitReservedReply_ok (congrArg Prod.fst admits)
    rcases insertDirect_posted inbox (inbox.expireDedup now).releaseReply now recipient
      content minted
      rfl rfl rfl rfl rfl rfl with ⟨later, result, reserved, posted⟩
    have accepted : inbox.postReservedReply now recipient content minted =
        (.ok (content.id.getD minted), later.trimHistory now) := by
      simp only [postReservedReply, admits, result]
      rfl
    rw [accepted]
    exact .reserved now recipient content minted
      (by simp only [Op.posted, accepted]; rfl) vacant posted reserved

theorem publish_step (now : Instant) (scope : Scope) (topic : String) (content : Content)
    (recipients : List Recipient) (minted : MessageId) :
    Step inbox (.publish now scope topic content recipients minted)
      (inbox.publish now scope topic content recipients minted).2 := by
  rcases admits : inbox.admitPublish now content recipients with ⟨answer, admitted⟩
  have expired : admitted = inbox.expireDedup now := (congrArg Prod.snd admits).symm
  subst expired
  cases answer with
  | error refusal =>
    have refused : inbox.publish now scope topic content recipients minted =
        (.error refusal, inbox.expireDedup now) := by simp only [publish, admits]
    rw [refused]
    exact .refused (Or.inr ⟨now, rfl, rfl⟩) (by simp only [Op.posted, refused]; rfl)
  | ok _ =>
    rcases admitPublish_ok (congrArg Prod.fst admits) with ⟨vacant, room⟩
    have queued := registerId_readsQueued (inbox.expireDedup now) now content.id minted
    rcases recordRate_rest ((inbox.expireDedup now).registerId now content.id minted).2 now
      content.sender with ⟨rate, counted⟩
    let base := { ((inbox.expireDedup now).registerId now content.id minted).2 with rate := rate }
    let placed := recipients.filter fun recipient => inbox.hasRoomFor recipient.paneId
    rcases inserts_posted base queued now (.publish topic) (.topic inbox.deck scope topic) content
      placed with ⟨messages, states, dedup, limits, reserved, events⟩
    let full := recipients.filter fun recipient => !inbox.hasRoomFor recipient.paneId
    have accepted : inbox.publish now scope topic content recipients minted =
        (.ok ⟨content.id.getD minted, placed.length, full.map Recipient.paneId⟩,
          (placed.foldl (fun between recipient => between.insert now (content.id.getD minted)
            (.publish topic) (.topic inbox.deck scope topic) (some recipient) content)
              base).trimHistory now) := by
      simp only [publish, admits]
      rw [counted, List.partition_eq_filter_filter]
      rfl
    rw [accepted]
    exact .publish now scope topic content recipients minted
      (by simp only [Op.posted, accepted]; rfl) vacant room
        ⟨messages, dedup, states, events, limits⟩
      reserved

theorem offer_step (now : Instant) (scope : Scope) (pool : String) (claimTtl : Option Duration)
    (content : Content) (candidates : List Recipient) (minted : MessageId) :
    Step inbox (.offer now scope pool claimTtl content candidates minted)
      (inbox.offer now scope pool claimTtl content candidates minted).2 := by
  rcases admits : inbox.admitOffer now scope claimTtl content with ⟨answer, admitted⟩
  have expired : admitted = inbox.expireDedup now := (congrArg Prod.snd admits).symm
  subst expired
  cases answer with
  | error refusal =>
    have refused : inbox.offer now scope pool claimTtl content candidates minted =
        (.error refusal, inbox.expireDedup now) := by simp only [offer, admits]
    rw [refused]
    exact .refused (Or.inr ⟨now, rfl, rfl⟩) (by simp only [Op.posted, refused]; rfl)
  | ok ttl =>
    rcases admitOffer_ok (congrArg Prod.fst admits) with ⟨vacant, room, few, ttlEq⟩
    subst ttlEq
    have queued := registerId_readsQueued (inbox.expireDedup now) now content.id minted
    rcases recordRate_rest ((inbox.expireDedup now).registerId now content.id minted).2 now
      content.sender with ⟨rate, counted⟩
    let base := { ((inbox.expireDedup now).registerId now content.id minted).2 with rate := rate }
    let kind : MessageKind := .offer pool (claimTtl.getD inbox.limits.defaultClaimTtl)
    have states := insert_dedupState base queued now kind
      (.offer inbox.deck scope pool) none content
    have rest := insert_rest base now (content.id.getD minted) kind
      (.offer inbox.deck scope pool) none content
    rcases insert_event base now (content.id.getD minted) kind (.offer inbox.deck scope pool) none
      content with ⟨event, emitted, named, state⟩
    let posted := base.insert now (content.id.getD minted) kind (.offer inbox.deck scope pool)
      none content
    have accepted : inbox.offer now scope pool claimTtl content candidates minted =
        (.ok ⟨content.id.getD minted,
          (posted.assignOffer now (content.id.getD minted) candidates).1⟩,
          (posted.assignOffer now (content.id.getD minted) candidates).2) := by
      simp only [offer, admits]
      rw [counted]
      rfl
    rw [accepted]
    exact .offer now scope pool claimTtl content candidates minted
      (by simp only [Op.posted, accepted]; rfl) vacant room few
      ⟨insert_messages base _ _ _ _ _ _, rest.1, states,
        ⟨[event], emitted, by simp [named, state]⟩, rest.2.1⟩ rest.2.2
      (assignOffer_act now _ candidates)

/-! ## Every operation -/

theorem reserveDelegate_step (now : Instant) (paneId : String) (content : Content) (replacing : ℕ) :
    Step inbox (.reserveDelegate now paneId content replacing)
      (inbox.reserveDelegate now paneId content replacing).2 := by
  rcases admits : inbox.admitReservedReply now content with ⟨answer, admitted⟩
  have expired : admitted = inbox.expireDedup now := (congrArg Prod.snd admits).symm
  subst expired
  have refused : Step inbox (.reserveDelegate now paneId content replacing)
      (inbox.expireDedup now) := .refused (Or.inr ⟨now, rfl, rfl⟩) rfl
  cases answer with
  | error refusal => simpa only [reserveDelegate, admits] using refused
  | ok _ =>
    by_cases full : inbox.limits.maxMessages + replacing <
      inbox.liveCount + inbox.reservedReplies + 1
    · have result : inbox.reserveDelegate now paneId content replacing =
          (.error (.deckFull inbox.limits.maxMessages), inbox.expireDedup now) := by
        simp only [reserveDelegate, admits]
        exact if_pos full
      rw [result]
      exact refused
    by_cases crowded : inbox.limits.maxPerRecipient + replacing ≤ inbox.liveForPane paneId
    · have result : inbox.reserveDelegate now paneId content replacing =
          (.error (.inboxFull paneId inbox.limits.maxPerRecipient), inbox.expireDedup now) := by
        simp only [reserveDelegate, admits]
        exact (if_neg full).trans (if_pos crowded)
      rw [result]
      exact refused
    · have result : inbox.reserveDelegate now paneId content replacing =
          (.ok (), { inbox.expireDedup now with
            reservedReplies := inbox.reservedReplies + 1 }) := by
        simp only [reserveDelegate, admits]
        exact (if_neg full).trans (if_neg crowded)
      rw [result]
      refine .delegate now paneId content replacing (congrArg Prod.fst result) ?_
      simp only [occupied]
      omega

theorem apply_step (sound : inbox.Sound) (op : Op) : Step inbox op (inbox.apply op) := by
  cases op with
  | admitReply now content | admitDirect now recipient content | admitReservedReply now content
  | admitPublish now content recipients | admitOffer now scope claimTtl content =>
    exact .refused (Or.inr ⟨now, rfl, rfl⟩) rfl
  | admitAgentDirect now recipient content =>
    simp only [apply, admitAgentDirect]
    split
    · exact .refused (Or.inl rfl) rfl
    · exact .refused (Or.inr ⟨now, rfl, rfl⟩) rfl
  | postDirect => exact postDirect_step _ _ _ _
  | postAgentDirect => exact postAgentDirect_step _ _ _ _
  | reserveReply =>
    simp only [apply, reserveReply]
    split
    · exact .refused (Or.inl rfl) rfl
    · rename_i accepted
      exact .reserve (checkRoom_ok accepted)
  | reserveDelegate => exact reserveDelegate_step _ _ _ _
  | releaseReply => exact .giveUp
  | postReservedReply => exact postReservedReply_step _ _ _ _
  | publish => exact publish_step _ _ _ _ _ _
  | offer => exact offer_step _ _ _ _ _ _ _
  | assignOffer => exact .act (assignOffer_act _ _ _) rfl
  | ack => exact .act (ack_act _ _ _ _ _) rfl
  | takeReceipt => exact .act (takeReceipt_act _ _ _ _ _) rfl
  | countReceiptRepeat => exact .act (countReceiptRepeat_act _ _ _) rfl
  | requeueReceipt => exact .act (requeueReceipt_act _ _ _) rfl
  | complete => exact .act (complete_act sound _ _ _ _) rfl
  | release => exact .act (release_act sound _ _ _ _) rfl
  | agentExited => exact .act (agentExited_act sound _ _ _) rfl
  | retire => exact .act (retire_act _ _ _ _) rfl
  | tick now => exact .act (tick_act sound now) rfl
  | forgetPaneHistory paneId => exact .forget paneId
  | drainEvents => exact .drain

end AgentDeck.Inbox
