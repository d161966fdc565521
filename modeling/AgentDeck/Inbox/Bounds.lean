import AgentDeck.Inbox.History
import AgentDeck.Inbox.Posts

/-!
# The bounds of the inbox

Every admission path checks the room it takes against the same two counters, and a reservation is
room already taken. Only `reserve_delegate` may go past the deck's bound, by the tasks it replaces.
A pane's inbox may hold more than its bound only through posts that used a reservation, which is
why these are counted apart.
-/

namespace AgentDeck.Inbox

variable {clock : Option Instant} {inbox later : Inbox}

/-! ## Counting live messages -/

variable {p : Message → Bool} {msg after : Message}

theorem countP_set_le {index : ℕ} {messages : List Message} (found : messages[index]? = some msg)
    (keeps : p after = true → p msg) : (messages.set index after).countP p ≤ messages.countP p := by
  induction messages generalizing index with
  | nil => cases found
  | cons head rest ih =>
    cases index with
    | zero =>
      cases found
      simp only [List.set_cons_zero, List.countP_cons]
      rcases counted : p after with _ | _
      · simp
      · simp [keeps counted]
    | succ index =>
      have later := ih found
      simp only [List.set_cons_succ, List.countP_cons]
      omega

theorem countP_set_le_succ (p : Message → Bool) (index : ℕ) (after : Message)
    (messages : List Message) : (messages.set index after).countP p ≤ messages.countP p + 1 := by
  induction messages generalizing index with
  | nil => simp
  | cons head rest ih =>
    cases index with
    | zero =>
      simp only [List.set_cons_zero, List.countP_cons]
      split <;> split <;> omega
    | succ index =>
      have later := ih index
      simp only [List.set_cons_succ, List.countP_cons]
      omega

section

variable (live : ∀ msg, p msg = true → msg.state.isTerminal = false)

include live

theorem countP_lives (messages : List Message) : messages.countP p = (lives messages).countP p := by
  rw [lives, List.countP_filter]
  apply List.countP_congr
  intro msg _
  constructor
  · intro counted
    simp [counted, live msg counted]
  · intro counted
    simp only [Bool.and_eq_true] at counted
    exact counted.1

theorem trimHistory_countP (now : Instant) :
    (inbox.trimHistory now).messages.countP p = inbox.messages.countP p := by
  rw [countP_lives live, (trimHistory_kept now).lives, ← countP_lives live]

theorem forgetPaneHistory_countP (paneId : String) :
    (inbox.forgetPaneHistory paneId).messages.countP p = inbox.messages.countP p := by
  rw [countP_lives live, (forgetPaneHistory_kept paneId).lives, ← countP_lives live]

end

/-- A count that no turn raises, and that looks at live messages only. -/
structure Easing (limits : InboxLimits) (p : Message → Bool) : Prop where
  live : ∀ msg, p msg = true → msg.state.isTerminal = false
  turn : ∀ now msg after back, Turn limits now msg after back → p after = true → p msg = true
  count : ∀ msg, p (Message.delivered msg) = p msg

section

variable (easing : Easing inbox.limits p)

include easing

theorem Effect.countP_le (effect : Effect clock inbox later) :
    later.messages.countP p ≤ inbox.messages.countP p := by
  rcases effect.outcome with ⟨index, now, msg, after, back, found, turn, turned, _⟩ |
    ⟨index, msg, found, _, _, rfl⟩ | ⟨now, _, rfl⟩ | ⟨rate, rfl⟩
  · rw [turned.messages]
    exact countP_set_le found (easing.turn now msg after back turn)
  · rw [edit_messages found]
    apply countP_set_le found
    rw [easing.count]
    exact id
  · exact Nat.le_refl _
  · exact Nat.le_refl _

theorem Effects.countP_le (effects : Effects clock inbox later) :
    later.messages.countP p ≤ inbox.messages.countP p := by
  induction effects with
  | refl => exact Nat.le_refl _
  | tail first effect ih =>
    rw [← (show Effects clock inbox _ from first).calls.limits_eq] at easing
    exact Nat.le_trans (effect.countP_le easing) ih

theorem Act.countP_le (act : Act clock inbox later) :
    later.messages.countP p ≤ inbox.messages.countP p := by
  cases act with
  | quiet effects same => exact effects.countP_le easing
  | trim effects now =>
    rw [trimHistory_countP easing.live]
    exact effects.countP_le easing

end

variable {limits : InboxLimits} {now : Instant} {back : Option OfferReturn}

theorem Turn.live_of_live (turn : Turn limits now msg after back)
    (lives : after.state.isTerminal = false) : msg.state.isTerminal = false := by
  cases turn with
  | assign holder deadline offer free queued fresh => simp [queued, MessageState.isTerminal]
  | take consumer queued => simp [queued, MessageState.isTerminal]
  | claim holder expires offer waits held => exact waits.live
  | acknowledge how plain waits => cases lives
  | complete offer claimed => exact MessageState.live_of_claimed claimed
  | requeue plain fetched => exact MessageState.live_of_isFetched fetched
  | retire reason live => exact live
  | giveBack previous cause offer live held => exact live

theorem Turn.kind_eq (turn : Turn limits now msg after back) :
    after.id = msg.id ∧ after.kind = msg.kind ∧ after.address = msg.address ∧
      after.createdAt = msg.createdAt ∧ after.body = msg.body := by
  cases turn with
  | take consumer queued => simp only [Message.moved]; split <;> exact ⟨rfl, rfl, rfl, rfl, rfl⟩
  | giveBack previous cause offer live held =>
    simp only [Message.returned]
    split <;> exact ⟨rfl, rfl, rfl, rfl, rfl⟩
  | _ => exact ⟨rfl, rfl, rfl, rfl, rfl⟩

theorem easing_offer (limits : InboxLimits) (scope : Scope) :
    Easing limits fun msg =>
      msg.isOffer && !msg.state.isTerminal && decide (msg.scope = some scope) where
  live _ counted := by
    simp only [Bool.and_eq_true, Bool.not_eq_true'] at counted
    exact counted.1.2
  turn _ msg after _ turn counted := by
    rcases turn.kind_eq with ⟨_, kind, address, _, _⟩
    simp only [Message.isOffer, Message.scope, Bool.and_eq_true, Bool.not_eq_true', kind,
      address] at counted ⊢
    exact ⟨⟨counted.1.1, turn.live_of_live counted.1.2⟩, counted.2⟩
  count _ := rfl

/-! ## The deck's room -/

variable {id : MessageId} {copies : List Message}

theorem copyFor_live (now : Instant) (id : MessageId) (kind : MessageKind) (address : Address)
    (content : Content) (recipient : Option Recipient) :
    (copyFor now id kind address content recipient).state.isTerminal = false := rfl

variable {op : Op}

def Op.reserves : Op → Bool
  | .postReservedReply _ _ _ _ => true
  | _ => false

def openFor (paneId : String) (msg : Message) : Bool :=
  (decide (msg.state = .queued) || msg.state.isFetched) && msg.isFor paneId

/-- The same, with an id that was not posted through a reservation. -/
def plainFor (ids : List MessageId) (paneId : String) (msg : Message) : Bool :=
  openFor paneId msg && !decide (msg.id ∈ ids)

theorem openFor_live {paneId : String} (counted : openFor paneId msg) :
    msg.state.isTerminal = false := by
  simp only [openFor, Bool.and_eq_true, Bool.or_eq_true, decide_eq_true_eq] at counted
  exact Message.Open.live counted.1

theorem plainFor_live (ids : List MessageId) (paneId : String) (msg : Message)
    (counted : plainFor ids paneId msg) : msg.state.isTerminal = false := by
  simp only [plainFor, Bool.and_eq_true] at counted
  exact openFor_live counted.1

theorem countP_plainFor_le (ids : List MessageId) (paneId : String) (messages : List Message) :
    messages.countP (plainFor ids paneId) ≤ messages.countP (openFor paneId) := by
  apply List.countP_mono_left
  intro msg _ counted
  simp only [plainFor, Bool.and_eq_true] at counted
  exact counted.1

theorem Turn.openFor_of_openFor (turn : Turn limits now msg after back)
    (same : after.recipient = msg.recipient) {paneId : String}
    (counted : openFor paneId after) : openFor paneId msg := by
  simp only [openFor, Message.isFor, same, Bool.and_eq_true, Bool.or_eq_true,
    decide_eq_true_eq] at counted ⊢
  refine ⟨?_, counted.2⟩
  cases turn with
  | assign holder deadline offer free queued fresh => exact Or.inl queued
  | take consumer queued => exact Or.inl queued
  | claim holder expires offer waits held => exact waits
  | acknowledge how plain waits | complete offer claimed | retire reason live =>
    rcases counted.1 with queued | fetched <;> contradiction
  | requeue plain fetched => exact Or.inr fetched
  | giveBack previous cause offer live held =>
    have left : (msg.returned limits now).recipient = none := by
      simp only [Message.returned]
      split <;> rfl
    rw [← same, left] at counted
    cases counted.2

theorem Effect.plainFor_le (effect : Effect clock inbox later) (ids : List MessageId)
    (paneId : String)
    (bounded : inbox.messages.countP (plainFor ids paneId) ≤ inbox.limits.maxPerRecipient) :
    later.messages.countP (plainFor ids paneId) ≤ inbox.limits.maxPerRecipient := by
  rcases effect.outcome with ⟨index, now, msg, after, back, found, turn, turned, placed⟩ |
    ⟨index, msg, found, _, _, rfl⟩ | ⟨now, _, rfl⟩ | ⟨rate, rfl⟩
  · rw [turned.messages]
    rcases placed with same | left | ⟨holder, taken, room⟩
    · refine Nat.le_trans (countP_set_le found ?_) bounded
      simp only [plainFor, Bool.and_eq_true, turn.kind_eq.1]
      exact fun counted => ⟨turn.openFor_of_openFor same counted.1, counted.2⟩
    · refine Nat.le_trans (countP_set_le found ?_) bounded
      intro counted
      simp [plainFor, openFor, Message.isFor, left] at counted
    · by_cases pane : holder.paneId = paneId
      · have fewer : inbox.messages.countP (plainFor ids paneId) ≤ inbox.liveForPane paneId :=
          countP_plainFor_le ids paneId inbox.messages
        have one := countP_set_le_succ (plainFor ids paneId) index after inbox.messages
        simp only [hasRoomFor, decide_eq_true_eq, pane] at room
        omega
      · refine Nat.le_trans (countP_set_le found ?_) bounded
        intro counted
        simp [plainFor, openFor, Message.isFor, taken, pane] at counted
  · rw [edit_messages found]
    exact Nat.le_trans (countP_set_le found id) bounded
  · exact bounded
  · exact bounded

theorem Effects.plainFor_le (effects : Effects clock inbox later) (ids : List MessageId)
    (paneId : String)
    (bounded : inbox.messages.countP (plainFor ids paneId) ≤ inbox.limits.maxPerRecipient) :
    later.messages.countP (plainFor ids paneId) ≤ inbox.limits.maxPerRecipient := by
  induction effects with
  | refl => exact bounded
  | tail first effect ih =>
    have limits := (show Effects clock inbox _ from first).calls.limits_eq
    rw [← limits] at ih ⊢
    exact effect.plainFor_le ids paneId ih

theorem Act.plainFor_le (act : Act clock inbox later) (ids : List MessageId) (paneId : String)
    (bounded : inbox.messages.countP (plainFor ids paneId) ≤ inbox.limits.maxPerRecipient) :
    later.messages.countP (plainFor ids paneId) ≤ inbox.limits.maxPerRecipient := by
  cases act with
  | quiet effects same => exact effects.plainFor_le ids paneId bounded
  | trim effects now =>
    rw [trimHistory_countP (plainFor_live ids paneId)]
    exact effects.plainFor_le ids paneId bounded

/-! ## Posts through a reservation -/

/-- The ids whose last post used a reservation, after one more call. -/
def Op.through (inbox : Inbox) (ids : List MessageId) (op : Op) : List MessageId :=
  match op.posted inbox with
  | none => ids
  | some id => if op.reserves then id :: ids else ids.filter fun other => decide (other ≠ id)

def through (inbox : Inbox) (ids : List MessageId) : List Op → List MessageId
  | [] => ids
  | op :: rest => through (inbox.apply op) (op.through inbox ids) rest

theorem countP_plainFor_held (unused : Unused inbox now id)
    (ids : List MessageId) (paneId : String) :
    inbox.messages.countP (plainFor (ids.filter fun other => decide (other ≠ id)) paneId) =
      inbox.messages.countP (plainFor ids paneId) := by
  apply List.countP_congr
  intro msg mem
  have other := unused.held msg mem
  simp [plainFor, other]

theorem Posted.plainFor_le (posted : Posted inbox now id copies later)
    (unused : Unused inbox now id) (ids : List MessageId) (paneId : String)
    (bounded : inbox.messages.countP (plainFor ids paneId) ≤ inbox.limits.maxPerRecipient)
    (one : copies.countP (openFor paneId) ≤ 1)
    (room : 0 < copies.countP (openFor paneId) → inbox.hasRoomFor paneId) :
    later.messages.countP (plainFor (ids.filter fun other => decide (other ≠ id)) paneId) ≤
      inbox.limits.maxPerRecipient := by
  have few := countP_plainFor_le (ids.filter fun other => decide (other ≠ id)) paneId copies
  have fewer : inbox.messages.countP (plainFor ids paneId) ≤ inbox.liveForPane paneId :=
    countP_plainFor_le ids paneId inbox.messages
  simp only [hasRoomFor, decide_eq_true_eq] at room
  rw [posted.messages, List.countP_append, countP_plainFor_held unused]
  omega

theorem countP_openFor_copy (now : Instant) (id : MessageId) (kind : MessageKind)
    (address : Address) (content : Content) (recipient : Recipient) (paneId : String) :
    [copyFor now id kind address content (some recipient)].countP (openFor paneId) ≤ 1 ∧
      (0 < [copyFor now id kind address content (some recipient)].countP (openFor paneId) →
        recipient.paneId = paneId) := by
  constructor
  · exact List.countP_le_length
  · intro nonempty
    rcases List.countP_pos_iff.mp nonempty with ⟨msg, mem, counted⟩
    rw [List.mem_singleton.mp mem] at counted
    simpa [openFor, copyFor, newMessage, Message.moved, Message.isFor] using counted

theorem countP_openFor_copies (now : Instant) (id : MessageId) (kind : MessageKind)
    (address : Address) (content : Content) {recipients : List Recipient} (paneId : String)
    (apart : (recipients.map Recipient.paneId).Nodup) (keep : Recipient → Bool) :
    let copies := (recipients.filter keep).map fun recipient =>
      copyFor now id kind address content (some recipient)
    copies.countP (openFor paneId) ≤ 1 ∧ (0 < copies.countP (openFor paneId) →
      ∃ recipient ∈ recipients, keep recipient = true ∧ recipient.paneId = paneId) := by
  intro copies
  have counts : copies.countP (openFor paneId) =
      ((recipients.filter keep).map Recipient.paneId).count paneId := by
    simp only [copies, List.count_eq_countP, List.countP_map]
    apply List.countP_congr
    simp [openFor, copyFor, newMessage, Message.moved, Message.isFor]
  have shorter : ((recipients.filter keep).map Recipient.paneId).Nodup :=
    apart.sublist (List.filter_sublist.map _)
  rw [counts]
  constructor
  · exact List.nodup_iff_count_le_one.mp shorter paneId
  · intro nonempty
    rcases List.mem_map.mp (List.count_pos_iff.mp nonempty) with ⟨recipient, mem, same⟩
    rcases List.mem_filter.mp mem with ⟨mem, kept⟩
    exact ⟨recipient, mem, kept, same⟩

/-! ## Runs -/

/-- What the callers keep to: publish recipients have distinct panes, and a reservation is held
where one is used or given back. -/
def Op.Proper (inbox : Inbox) : Op → Prop
  | .publish _ _ _ _ recipients _ => (recipients.map Recipient.paneId).Nodup
  | .postReservedReply _ _ _ _ => 0 < inbox.reservedReplies
  | .releaseReply => 0 < inbox.reservedReplies
  | _ => True

/-- The bounds that hold of an inbox whose ids `ids` were posted through reservations. -/
structure Limited (limits : InboxLimits) (ids : List MessageId) (inbox : Inbox) : Prop where
  panes : ∀ paneId, inbox.messages.countP (plainFor ids paneId) ≤ limits.maxPerRecipient
  offers : ∀ scope, inbox.openOffers scope ≤ limits.maxOffersPerScope
  history : Bounded limits inbox.messages

variable {ids : List MessageId}

theorem Limited.act (limited : Limited inbox.limits ids inbox) (act : Act clock inbox later) :
    Limited inbox.limits ids later where
  panes paneId := act.plainFor_le ids paneId (limited.panes paneId)
  offers scope := Nat.le_trans (act.countP_le (easing_offer inbox.limits scope))
    (limited.offers scope)
  history := act.bounded limited.history

theorem Limited.posted {ids' : List MessageId} (limited : Limited inbox.limits ids inbox)
    (posted : Posted inbox now id copies later)
    (panes : ∀ paneId, later.messages.countP (plainFor ids' paneId) ≤ inbox.limits.maxPerRecipient)
    (plain : ∀ msg ∈ copies, msg.isOffer = false) :
    Limited inbox.limits ids' (later.trimHistory now) := by
  constructor
  · intro paneId
    rw [trimHistory_countP (plainFor_live ids' paneId)]
    exact panes paneId
  · intro scope
    have easing := easing_offer inbox.limits scope
    have absent : copies.countP (fun msg =>
        msg.isOffer && !msg.state.isTerminal && decide (msg.scope = some scope)) = 0 := by
      apply List.countP_eq_zero.mpr
      intro msg mem
      simp [plain msg mem]
    simp only [openOffers]
    rw [trimHistory_countP easing.live, posted.messages, List.countP_append, absent]
    exact limited.offers scope
  · rw [← posted.limits]
    exact trimHistory_bounded later now

/-- One call of an operation keeps the bounds. -/
theorem Step.limited (step : Step inbox op later) (proper : op.Proper inbox)
    (fresh : op.Fresh inbox) (limited : Limited inbox.limits ids inbox) :
    Limited inbox.limits (op.through inbox ids) later := by
  cases step with
  | act act other =>
    simp only [Op.through, Op.posted_eq_none other]
    exact limited.act act
  | refused same none =>
    simp only [Op.through, none]
    exact limited.act (act_of_refused same)
  | forget paneId =>
    constructor
    · intro other
      rw [forgetPaneHistory_countP (plainFor_live _ other)]
      exact limited.panes other
    · intro scope
      have same : (inbox.forgetPaneHistory paneId).openOffers scope = inbox.openOffers scope :=
        forgetPaneHistory_countP (easing_offer inbox.limits scope).live paneId
      exact Nat.le_trans (Nat.le_of_eq same) (limited.offers scope)
    · exact limited.history.filter _
  | drain | reserve room | giveUp => exact ⟨limited.panes, limited.offers, limited.history⟩
  | delegate now paneId content replacing accepted room =>
    exact ⟨limited.panes, limited.offers, limited.history⟩
  | direct now recipient content minted plain answers vacant room place posted reserved =>
    have unused : Unused inbox now (content.id.getD minted) := by
      rcases plain with rfl | rfl
      · exact unused_of_checkId vacant fresh
      · exact unused_of_checkId vacant fresh
    have ordinary : op.reserves = false := by rcases plain with rfl | rfl <;> rfl
    simp only [Op.through, answers, ordinary]
    refine limited.posted posted ?_ (List.forall_mem_singleton.mpr rfl)
    intro paneId
    rcases countP_openFor_copy now (content.id.getD minted) .direct
      (.direct inbox.deck recipient.paneId) content recipient paneId with ⟨one, same⟩
    exact posted.plainFor_le unused ids paneId (limited.panes paneId) one
      fun present => same present ▸ place
  | reserved now recipient content minted answers vacant posted reserved =>
    simp only [Op.through, answers, Op.reserves, ↓reduceIte]
    refine limited.posted posted ?_ (List.forall_mem_singleton.mpr rfl)
    intro paneId
    have absent : [copyFor now (content.id.getD minted) .direct
        (.direct inbox.deck recipient.paneId) content (some recipient)].countP
          (plainFor (content.id.getD minted :: ids) paneId) = 0 := by
      simp [plainFor, copyFor, newMessage, Message.moved]
    have fewer : inbox.messages.countP (plainFor (content.id.getD minted :: ids) paneId) ≤
        inbox.messages.countP (plainFor ids paneId) := by
      apply List.countP_mono_left
      intro msg _ counted
      simp only [plainFor, List.mem_cons, not_or, Bool.and_eq_true, Bool.not_eq_true',
        decide_eq_false_iff_not] at counted ⊢
      exact ⟨counted.1, counted.2.2⟩
    rw [posted.messages, List.countP_append, absent]
    exact Nat.le_trans fewer (limited.panes paneId)
  | publish now scope topic content recipients minted answers vacant room posted reserved =>
    have unused := unused_of_checkId vacant fresh
    simp only [Op.through, answers]
    refine limited.posted posted ?_ (List.forall_mem_map.mpr fun _ _ => rfl)
    intro paneId
    rcases countP_openFor_copies now (content.id.getD minted) (.publish topic)
      (.topic inbox.deck scope topic) content paneId proper
      (fun recipient => inbox.hasRoomFor recipient.paneId) with ⟨one, same⟩
    refine posted.plainFor_le unused ids paneId (limited.panes paneId) one ?_
    intro nonempty
    rcases same nonempty with ⟨recipient, _, place, pane⟩
    exact pane ▸ place
  | offer now scope pool claimTtl content candidates minted answers vacant room few posted
      reserved assigned =>
      have unused := unused_of_checkId vacant fresh
      simp only [Op.through, answers]
      have unheld (paneId : String) : [copyFor now (content.id.getD minted)
          (.offer pool (claimTtl.getD inbox.limits.defaultClaimTtl))
          (.offer inbox.deck scope pool) content none].countP (openFor paneId) = 0 := by
        simp [openFor, copyFor, newMessage, Message.moved, Message.isFor]
      rw [← posted.limits]
      refine Limited.act ⟨?_, ?_, ?_⟩ assigned
      · intro paneId
        rw [posted.limits]
        exact posted.plainFor_le unused ids paneId (limited.panes paneId) (by simp [unheld])
          (by simp [unheld])
      · intro other
        have placed := limited.offers other
        rw [posted.limits]
        simp only [openOffers, posted.messages, List.countP_append] at placed few ⊢
        by_cases same : other = scope
        · subst same
          simp only [List.countP_singleton]
          split <;> omega
        · have elsewhere : ¬ (scope = other) := fun eq => same eq.symm
          simpa [copyFor, newMessage, Message.moved, Message.scope, elsewhere] using placed
      · rw [posted.limits]
        refine limited.history.of_ended ?_
        rw [posted.messages]
        simp [ended, copyFor_live]

/-- How far past the deck's bound a successful `reserve_delegate` may go. -/
def Op.replaced (inbox : Inbox) : Op → ℕ
  | .reserveDelegate now paneId content replacing =>
    match (inbox.reserveDelegate now paneId content replacing).1 with
    | .ok _ => replacing
    | .error _ => 0
  | _ => 0

theorem apply_sound (sound : inbox.Sound) (op : Op) : (inbox.apply op).Sound :=
  (apply_reaches sound op).sound sound

/-- The same message, its state and its holder apart. -/
def SameMessage (msg after : Message) : Prop :=
  after.id = msg.id ∧ after.kind = msg.kind ∧ after.createdAt = msg.createdAt ∧
    after.body = msg.body

/-- A call that drops messages drops the oldest ended ones: in place of those held it has `held`,
behind them it posts `posted`, and what it leaves is all of that or that trimmed. -/
def DropsOldest (limits : InboxLimits) (before after : List Message) : Prop :=
  ∃ held posted, List.Forall₂ SameMessage before held ∧
    (after = held ++ posted ∨
      ∃ now, Trimmed limits ((held ++ posted).map (dropBody now limits.historyBodyTtl)) after)

theorem SameMessage.refl (msg : Message) : SameMessage msg msg := ⟨rfl, rfl, rfl, rfl⟩

theorem forall₂_set {index : ℕ} {messages : List Message} (found : messages[index]? = some msg)
    (same : SameMessage msg after) :
    List.Forall₂ SameMessage messages (messages.set index after) := by
  induction messages generalizing index with
  | nil => cases found
  | cons head rest ih =>
    cases index with
    | zero =>
      cases found
      exact .cons same (List.forall₂_same.mpr fun msg _ => SameMessage.refl msg)
    | succ index => exact .cons (SameMessage.refl head) (ih found)

theorem Effect.sameMessages (effect : Effect clock inbox later) :
    List.Forall₂ SameMessage inbox.messages later.messages := by
  rcases effect.outcome with ⟨index, now, msg, after, back, found, turn, turned, _⟩ |
    ⟨index, msg, found, _, _, rfl⟩ | ⟨now, _, rfl⟩ | ⟨rate, rfl⟩
  · rw [turned.messages]
    rcases turn.kind_eq with ⟨id, kind, _, created, body⟩
    exact forall₂_set found ⟨id, kind, created, body⟩
  · rw [edit_messages found]
    exact forall₂_set found (SameMessage.refl msg)
  all_goals exact List.forall₂_same.mpr fun msg _ => SameMessage.refl msg

theorem sameMessages_trans {first second third : List Message}
    (left : List.Forall₂ SameMessage first second) (right : List.Forall₂ SameMessage second third) :
    List.Forall₂ SameMessage first third := by
  induction left generalizing third with
  | nil => exact right
  | cons same _ ih =>
    cases right with
    | cons again rest =>
      rcases same with ⟨id, kind, created, body⟩
      rcases again with ⟨id', kind', created', body'⟩
      exact .cons ⟨id'.trans id, kind'.trans kind, created'.trans created, body'.trans body⟩
        (ih rest)

theorem Effects.sameMessages (effects : Effects clock inbox later) :
    List.Forall₂ SameMessage inbox.messages later.messages := by
  induction effects with
  | refl => exact List.forall₂_same.mpr fun msg _ => SameMessage.refl msg
  | tail _ effect ih => exact sameMessages_trans ih effect.sameMessages

theorem DropsOldest.act (act : Act clock inbox later) :
    DropsOldest inbox.limits inbox.messages later.messages := by
  cases act with
  | quiet effects same =>
    exact ⟨later.messages, [], effects.sameMessages, Or.inl (List.append_nil _).symm⟩
  | trim effects now =>
    rename_i between
    refine ⟨between.messages, [], effects.sameMessages, Or.inr ⟨now, ?_⟩⟩
    rw [List.append_nil, ← effects.calls.limits_eq]
    exact trimHistory_trimmed between now

theorem DropsOldest.posted (posted : Posted inbox now id copies later) :
    DropsOldest inbox.limits inbox.messages (later.trimHistory now).messages := by
  refine ⟨inbox.messages, copies, List.forall₂_same.mpr fun msg _ => SameMessage.refl msg,
    Or.inr ⟨now, ?_⟩⟩
  rw [← posted.messages, ← posted.limits]
  exact trimHistory_trimmed later now

theorem DropsOldest.same (limits : InboxLimits) (messages : List Message) :
    DropsOldest limits messages messages :=
  ⟨messages, [], List.forall₂_same.mpr fun msg _ => SameMessage.refl msg,
    Or.inl (List.append_nil _).symm⟩

end AgentDeck.Inbox
