import AgentDeck.Inbox.Steps

/-!
# What an operation does besides posting

`Effect` lists the changes an operation makes to the messages it holds and to the windows: no
message is added, and none is dropped. An operation that ends a message bounds the history as its
last act; one that does not leaves the ended messages as they were. `Act` is either of the two, and
every operation that neither posts nor reserves is one.
-/

namespace AgentDeck.Inbox

variable {clock : Option Instant} {inbox later : Inbox}

/-- What an operation called at `clock` does to the inbox in place, one internal function at a
time. -/
inductive Effect (clock : Option Instant) (inbox : Inbox) : Inbox → Prop
  | turn (index : ℕ) (now : Instant) {msg : Message} {state : MessageState}
      (found : inbox.messages[index]? = some msg)
      (turn : Turn inbox.limits now msg (msg.moved now state) none) :
      Effect clock inbox (inbox.transition index now state)
  | take (index : ℕ) (now : Instant) (consumer : Consumer) {msg : Message}
      (found : inbox.messages[index]? = some msg) (queued : msg.state = .queued)
      (plain : msg.isOffer = false) :
      Effect clock inbox
        ((inbox.edit index Message.delivered).transition index now (.fetched consumer now))
  | assign (index : ℕ) (now deadline : Instant) (holder : Recipient) {msg : Message}
      (found : inbox.messages[index]? = some msg) (offer : msg.isOffer = true)
      (free : msg.recipient = none) (queued : msg.state = .queued)
      (fresh : ∀ previous ∈ msg.excluded, previous.sameHolder holder = false)
      (room : inbox.hasRoomFor holder.paneId = true) :
      Effect clock inbox
        ((inbox.edit index fun msg => msg.assigned holder deadline).transition index now .queued)
  | giveBack (index : ℕ) (now : Instant) (cause : ReturnCause) {msg : Message}
      {previous : Recipient} (found : inbox.messages[index]? = some msg)
      (offer : msg.isOffer = true) (live : msg.state.isTerminal = false)
      (held : msg.recipient = some previous) :
        Effect clock inbox (inbox.returnOffer index now cause)
  | count (index : ℕ) {msg : Message} (found : inbox.messages[index]? = some msg)
      (fetched : msg.state.isFetched = true) (plain : msg.isOffer = false) :
      Effect clock inbox (inbox.edit index Message.delivered)
  | expire (now : Instant) (made : clock = some now) : Effect clock inbox (inbox.expireDedup now)
  | age (rate : SortedMap String (List Instant)) : Effect clock inbox { inbox with rate := rate }

def Effects (clock : Option Instant) : Inbox → Inbox → Prop :=
  Relation.ReflTransGen (Effect clock)

namespace Effects

theorem one (effect : Effect clock inbox later) : Effects clock inbox later :=
  Relation.ReflTransGen.single effect

theorem same : Effects clock inbox inbox := Relation.ReflTransGen.refl

theorem after {between : Inbox} (first : Effects clock inbox between)
    (second : Effects clock between later) : Effects clock inbox later :=
  Relation.ReflTransGen.trans first second

end Effects

/-! ## Effects are calls -/

theorem Effect.call (effect : Effect clock inbox later) : Call inbox later := by
  cases effect with
  | turn index now found turn => exact .transition found turn
  | take index now consumer found queued plain =>
    apply Call.edit_transition found rfl
    have turn : Turn inbox.limits now _ _ none := Turn.take consumer queued
    simpa only [plain, Bool.false_eq_true, ↓reduceIte] using turn
  | assign index now deadline holder found offer free queued fresh room =>
    apply Call.edit_transition found rfl
    exact .assign holder deadline offer free queued fresh
  | giveBack index now cause found offer live held =>
    exact .giveBack index now cause found offer live held
  | count index found fetched plain => exact .count index found fetched plain
  | expire now made => exact .keep rfl rfl rfl
  | age rate => exact .keep rfl rfl rfl

theorem Effects.calls (effects : Effects clock inbox later) : Calls inbox later :=
  Relation.ReflTransGen.mono (fun _ _ => Effect.call) _ _ effects

/-! ## One message turned in place -/

structure Turned (inbox : Inbox) (index : ℕ) (msg after : Message) (later : Inbox) : Prop where
  messages : later.messages = inbox.messages.set index after
  dedupState : later.dedupState = inbox.dedupState.modify msg.id fun _ => after.state.name
  dedup : later.dedup = inbox.dedup
  event : ∃ event, later.events = inbox.events ++ [event] ∧ event.messageId = msg.id ∧
    event.state = after.state.name
  reservedReplies : later.reservedReplies = inbox.reservedReplies
  limits : later.limits = inbox.limits

variable {index : ℕ} {msg : Message}

section

variable (found : inbox.messages[index]? = some msg)

include found

theorem transition_turned (now : Instant) (state : MessageState) :
    Turned inbox index msg (msg.moved now state) (inbox.transition index now state) := by
  constructor
  case event => exact ⟨msg.event (msg.moved now state), by simp only [transition, found], rfl, rfl⟩
  all_goals simp only [transition, found]
  rfl

theorem edit_turned {f : Message → Message} (same : (f msg).id = msg.id) (now : Instant)
    (state : MessageState) :
    Turned inbox index msg ((f msg).moved now state)
      ((inbox.edit index f).transition index now state) := by
  have edited : (inbox.edit index f).messages[index]? = some (f msg) := by simp [edit, found]
  have turned := transition_turned edited now state
  refine ⟨?_, ?_, turned.dedup, ?_, turned.reservedReplies, turned.limits⟩
  · rw [turned.messages, edit_messages found, List.set_set]
  · rw [turned.dedupState, same]
    rfl
  · rcases turned.event with ⟨event, emitted, named, state⟩
    exact ⟨event, emitted, named.trans same, state⟩

theorem returnOffer_turned {previous : Recipient} (held : msg.recipient = some previous)
    (now : Instant) (cause : ReturnCause) :
    Turned inbox index msg (msg.returned inbox.limits now) (inbox.returnOffer index now cause) := by
  have queued := edit_turned (f := Message.parted) found rfl now .queued
  have ended := edit_turned (f := Message.parted) found rfl now (.undeliverable now .maxDeliver)
  simp only [returnOffer, found, held, Message.returned]
  split
  · rcases ended.event with ⟨event, emitted, named, state⟩
    refine ⟨ended.messages, ended.dedupState, ended.dedup, ?_, ended.reservedReplies, ended.limits⟩
    exact ⟨{ event with returned := some ⟨previous, cause⟩ },
      by simp only [emitted, List.modifyLast_concat], named, state⟩
  · rcases queued.event with ⟨event, emitted, named, state⟩
    refine ⟨queued.messages, queued.dedupState, queued.dedup, ?_, queued.reservedReplies,
      queued.limits⟩
    exact ⟨{ event with returned := some ⟨previous, cause⟩ },
      by simp only [emitted, List.modifyLast_concat], named, state⟩

end

theorem Effect.outcome (effect : Effect clock inbox later) :
    (∃ index now msg after back, inbox.messages[index]? = some msg ∧
      Turn inbox.limits now msg after back ∧ Turned inbox index msg after later ∧
      (after.recipient = msg.recipient ∨ after.recipient = none ∨
        ∃ holder, after.recipient = some holder ∧ inbox.hasRoomFor holder.paneId = true)) ∨
    (∃ index msg, inbox.messages[index]? = some msg ∧ msg.state.isFetched = true ∧
      msg.isOffer = false ∧ later = inbox.edit index Message.delivered) ∨
    (∃ now, clock = some now ∧ later = inbox.expireDedup now) ∨
    ∃ rate, later = { inbox with rate := rate } := by
  cases effect with
  | turn index now found turn =>
    exact Or.inl ⟨index, now, _, _, none, found, turn, transition_turned found now _, Or.inl rfl⟩
  | take index now consumer found queued plain =>
    have turn : Turn inbox.limits now _ _ none := Turn.take consumer queued
    simp only [plain] at turn
    exact Or.inl ⟨index, now, _, _, none, found, turn, edit_turned found rfl now _, Or.inl rfl⟩
  | assign index now deadline holder found offer free queued fresh room =>
    have turn : Turn inbox.limits now _ _ none :=
      Turn.assign holder deadline offer free queued fresh
    have turned := edit_turned (f := fun msg => msg.assigned holder deadline) found rfl now .queued
    exact Or.inl ⟨index, now, _, _, none, found, turn, turned,
      Or.inr (Or.inr ⟨holder, rfl, room⟩)⟩
  | giveBack index now cause found offer live held =>
    refine Or.inl ⟨index, now, _, _, _, found, Turn.giveBack _ cause offer live held,
      returnOffer_turned found held now cause, Or.inr (Or.inl ?_)⟩
    simp only [Message.returned]
    split <;> rfl
  | count index found fetched plain =>
    exact Or.inr (Or.inl ⟨index, _, found, fetched, plain, rfl⟩)
  | expire now made => exact Or.inr (Or.inr (Or.inl ⟨now, made, rfl⟩))
  | age rate => exact Or.inr (Or.inr (Or.inr ⟨rate, rfl⟩))

/-! ## Acts -/

def ended (messages : List Message) : List Message :=
  messages.filter fun msg => msg.state.isTerminal

/-- The effects of one operation, which bounds the history unless it ended nothing. -/
inductive Act (clock : Option Instant) (inbox : Inbox) : Inbox → Prop
  | quiet {later : Inbox} (effects : Effects clock inbox later)
      (same : ended later.messages = ended inbox.messages) : Act clock inbox later
  | trim {between : Inbox} (effects : Effects clock inbox between) (now : Instant) :
      Act clock inbox (between.trimHistory now)

namespace Act

theorem same : Act clock inbox inbox := .quiet .same rfl

theorem calls (act : Act clock inbox later) : Calls inbox later := by
  cases act with
  | quiet effects same => exact effects.calls
  | trim effects now => exact effects.calls.then_trim now

end Act

theorem ended_set {after : Message} {messages : List Message} (found : messages[index]? = some msg)
    (live : msg.state.isTerminal = false) (lives : after.state.isTerminal = false) :
    ended (messages.set index after) = ended messages := by
  induction messages generalizing index with
  | nil => cases found
  | cons head rest ih =>
    cases index with
    | zero =>
      cases found
      simp [ended, live, lives]
    | succ index =>
      have later := ih found
      simp only [ended] at later
      simp only [ended, List.set_cons_succ, List.filter_cons, later]

theorem Act.turned {after : Message} (effect : Effect clock inbox later)
    (found : inbox.messages[index]? = some msg) (live : msg.state.isTerminal = false)
    (turned : Turned inbox index msg after later) (lives : after.state.isTerminal = false) :
    Act clock inbox later := by
  refine .quiet (.one effect) ?_
  rw [turned.messages]
  exact ended_set found live lives

end AgentDeck.Inbox
