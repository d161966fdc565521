import AgentDeck.Inbox.Runs

/-!
# The life cycle of a message

The changes of state a message may go through, and that every run of the inbox's operations makes
no others: each is recorded in the message's history and emits one event, and a message leaves the
inbox only when nothing more can happen to it.
-/

namespace AgentDeck.Inbox

variable {inbox later : Inbox}

/-! ## Legal changes -/

/-- The changes of state a message that the inbox holds may make. -/
def Legal (msg after : Message) : Prop :=
  match msg.state, after.state with
  | .queued, .queued => msg.isOffer = true ∧ msg.recipient.isSome ≠ after.recipient.isSome
  | .queued, .fetched _ _ => True
  | .queued, .claimed _ _ _ | .fetched _ _, .claimed _ _ _ => msg.isOffer = true
  | .queued, .acknowledged _ _ | .fetched _ _, .acknowledged _ _ => msg.isOffer = false
  | .queued, .undeliverable _ _ | .fetched _ _, .undeliverable _ _ => True
  | .fetched _ _, .queued | .claimed _ _ _, .queued => True
  | .claimed _ _ _, .acknowledged _ _ | .claimed _ _ _, .undeliverable _ _ => True
  | .undeliverable _ .maxDeliver, .acknowledged _ _ => msg.isOffer = false
  | _, _ => False

/-- One change of state of one message and the event it emits. -/
structure LifeTurn (msg after : Message) (event : InboxEvent) : Prop where
  id : after.id = msg.id
  kind : after.kind = msg.kind
  legal : Legal msg after
  history : ∃ now, after.history = msg.history ++ [(now, after.state.name)]
  names : event.messageId = msg.id ∧ event.state = after.state.name
  requeued : event.requeued = true ↔ msg.state.isTaken = true ∧ after.state = .queued

/-- `after` is `before` without some terminal messages; no message changed its state, and the rest
are in the order they were in. -/
inductive Lasting : List Message → List Message → Prop
  | nil : Lasting [] []
  | drop {msg : Message} {before after : List Message} (ended : msg.state.isTerminal = true)
      (rest : Lasting before after) : Lasting (msg :: before) after
  | keep {msg same : Message} {before after : List Message}
      (unchanged : same.id = msg.id ∧ same.kind = msg.kind ∧ same.state = msg.state ∧
        same.history = msg.history) (rest : Lasting before after) :
      Lasting (msg :: before) (same :: after)

/-- What an operation does to the messages and the events, one step at a time. No step takes an
event back. -/
inductive LifeStep (inbox later : Inbox) : Prop
  | turn (before after : List Message) (msg moved : Message) (event : InboxEvent)
      (held : inbox.messages = before ++ msg :: after)
      (holds : later.messages = before ++ moved :: after)
      (emits : later.events = inbox.events ++ [event]) (turn : LifeTurn msg moved event)
  | insert (msg : Message) (event : InboxEvent) (holds : later.messages = inbox.messages ++ [msg])
      (emits : later.events = inbox.events ++ [event]) (queued : msg.state = .queued)
      (history : ∃ now, msg.history = [(now, .queued)])
      (names : event.messageId = msg.id ∧ event.state = .queued) (new : event.requeued = false)
  | quiet (holds : Lasting inbox.messages later.messages) (emits : later.events = inbox.events)

/-! ## Every call makes legal changes -/

theorem Lasting.refl (messages : List Message) : Lasting messages messages := by
  induction messages with
  | nil => exact .nil
  | cons msg rest ih => exact .keep ⟨rfl, rfl, rfl, rfl⟩ ih

theorem Kept.lasting {before after : List Message} (kept : Kept before after) :
    Lasting before after := by
  induction kept with
  | nil => exact .nil
  | drop ended _ ih => exact .drop ended ih
  | empty _ _ ih => exact .keep ⟨rfl, rfl, rfl, rfl⟩ ih
  | keep _ _ ih => exact .keep ⟨rfl, rfl, rfl, rfl⟩ ih

variable {msg : Message}

theorem Lasting.set {messages : List Message} {index : ℕ} (found : messages[index]? = some msg) :
    Lasting messages (messages.set index msg.delivered) := by
  induction messages generalizing index with
  | nil => exact .nil
  | cons head rest ih =>
    cases index with
    | zero =>
      cases found
      exact .keep ⟨rfl, rfl, rfl, rfl⟩ (Lasting.refl rest)
    | succ index => exact .keep ⟨rfl, rfl, rfl, rfl⟩ (ih found)

variable {limits : InboxLimits} {after : Message} {back : Option OfferReturn}

theorem Turn.legal {now : Instant} (turn : Turn limits now msg after back) : Legal msg after := by
  cases turn with
  | assign holder deadline offer free queued fresh =>
    simp [Legal, queued, Message.moved, Message.assigned, offer, free]
  | take consumer queued => simp [Legal, queued, Message.moved]
  | claim holder expires offer waits held =>
    rcases waits with queued | fetched
    · simp [Legal, queued, Message.moved, offer]
    · cases state : msg.state <;> simp_all [Legal, Message.moved, MessageState.isFetched]
  | acknowledge how plain waits =>
    rcases waits with (queued | fetched) | spent
    · simp [Legal, queued, Message.moved, plain]
    · cases state : msg.state <;> simp_all [Legal, Message.moved, MessageState.isFetched]
    · cases state : msg.state <;>
        simp_all [Legal, Message.moved, MessageState.undeliverableReason]
  | complete offer claimed =>
    cases state : msg.state <;> simp_all [Legal, Message.moved, MessageState.name]
  | requeue plain fetched =>
    cases state : msg.state <;> simp_all [Legal, Message.moved, MessageState.isFetched]
  | retire reason live =>
    cases state : msg.state <;> simp_all [Legal, Message.moved, MessageState.isTerminal]
  | giveBack previous cause offer live held =>
    simp only [Message.returned]
    split <;> cases state : msg.state <;>
      simp_all [Legal, Message.moved, Message.parted, MessageState.isTerminal]

theorem Turn.frame {now : Instant} (turn : Turn limits now msg after back) :
    after.id = msg.id ∧ after.kind = msg.kind ∧
      after.history = msg.history ++ [(now, after.state.name)] := by
  cases turn with
  | assign | claim | acknowledge | complete | requeue | retire => exact ⟨rfl, rfl, rfl⟩
  | take =>
    rcases msg.isOffer with _ | _
    · exact ⟨rfl, rfl, rfl⟩
    · exact ⟨rfl, rfl, rfl⟩
  | giveBack =>
    simp only [Message.returned]
    split
    · exact ⟨rfl, rfl, rfl⟩
    · exact ⟨rfl, rfl, rfl⟩

theorem Turn.lifeTurn {now : Instant} (turn : Turn limits now msg after back) :
    LifeTurn msg after { msg.event after with returned := back } := by
  rcases turn.frame with ⟨id, kind, history⟩
  refine ⟨id, kind, turn.legal, ⟨now, history⟩, ⟨id, rfl⟩, ?_⟩
  simp only [Message.event, Bool.and_eq_true, decide_eq_true_eq]
  exact and_comm

theorem Replaced.lifeStep {index : ℕ} {event : InboxEvent}
    (replaced : Replaced inbox index after event later) (found : inbox.messages[index]? = some msg)
    (turn : LifeTurn msg after event) : LifeStep inbox later := by
  rcases List.getElem?_eq_some_iff.mp found with ⟨bound, rfl⟩
  refine LifeStep.turn (inbox.messages.take index) (inbox.messages.drop (index + 1)) _ after event
    ?_ ?_ replaced.events turn
  · rw [← List.drop_eq_getElem_cons bound, List.take_append_drop]
  · rw [replaced.messages, List.set_eq_take_append_cons_drop, if_pos bound]

theorem Call.lifeStep (call : Call inbox later) : LifeStep inbox later := by
  cases call with
  | turn index now found turn replaced => exact replaced.lifeStep found turn.lifeTurn
  | giveBack index now cause found offer live held =>
    have turn : Turn inbox.limits now _ _ _ := Turn.giveBack _ cause offer live held
    exact (returnOffer_replaced found held now cause).lifeStep found turn.lifeTurn
  | insert now id kind address recipient content placed =>
    rcases insert_eq inbox now id kind address recipient content with
      ⟨messages, events, _⟩
    exact .insert _ _ messages events rfl ⟨now, rfl⟩ ⟨rfl, rfl⟩ rfl
  | count index found fetched plain =>
    refine .quiet ?_ rfl
    rw [edit_messages found]
    exact Lasting.set found
  | trim now => exact .quiet (trimHistory_kept now).lasting rfl
  | forget paneId => exact .quiet (forgetPaneHistory_kept paneId).lasting rfl
  | keep messages events limits =>
    refine .quiet ?_ events
    rw [messages]
    exact Lasting.refl _

/-- In every run each message's history ends with its state, only a queued offer with a holder has
a deadline, every operation but `drain_events` is a sequence of legal changes with one event each,
and `drain_events` takes the events alone. -/
theorem messages_live_and_end (deck : String) (limits : InboxLimits) (ops : List Op) :
    (∀ msg ∈ ((new deck limits).run ops).messages,
      msg.history.getLast?.map Prod.snd = some msg.state.name ∧
        (msg.assignDeadline.isSome = true →
          msg.state = .queued ∧ msg.isOffer = true ∧ msg.recipient.isSome = true)) ∧
      (∀ op : Op, op ≠ .drainEvents → Relation.ReflTransGen LifeStep ((new deck limits).run ops)
        (((new deck limits).run ops).apply op)) ∧
      ((new deck limits).run (ops ++ [.drainEvents])).messages =
          ((new deck limits).run ops).messages ∧
        ((new deck limits).run (ops ++ [.drainEvents])).events = [] := by
  have sound := run_sound deck limits ops
  refine ⟨?_, ?_, ?_⟩
  · intro msg mem
    exact ⟨(sound msg mem).last, (sound msg mem).deadline⟩
  · intro op stays
    have steps : Call ≤ LifeStep := fun _ _ call => call.lifeStep
    exact Relation.ReflTransGen.mono steps _ _ (apply_calls sound stays)
  · rw [run, run, List.foldl_concat]
    exact ⟨rfl, rfl⟩

end AgentDeck.Inbox
