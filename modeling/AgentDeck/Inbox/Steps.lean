import AgentDeck.Inbox.Operations
import Mathlib.Data.List.ModifyLast
import Mathlib.Logic.Relation

/-!
# The operations are sequences of internal calls

`Turn` lists the changes of state of one message, with what the caller of `transition` has checked
before each. `Call` lists what an operation may do to the inbox: turn one message and emit its
event, insert one, count a delivery, bound the history, or keep the messages and the events. From
an inbox whose messages are sound, every operation but `drain_events` is a sequence of such calls,
and what turns keep, runs keep.
-/

namespace AgentDeck.Inbox

variable {inbox later : Inbox}

/-! ## Turns -/

namespace Message

def returned (msg : Message) (limits : InboxLimits) (now : Instant) : Message :=
  if limits.maxDeliver ≤ msg.deliveries then
    msg.parted.moved now (.undeliverable now .maxDeliver)
  else msg.parted.moved now .queued

def Open (msg : Message) : Prop := msg.state = .queued ∨ msg.state.isFetched = true

end Message

/-- The changes of state, each with the guard its operation checks. -/
inductive Turn (limits : InboxLimits) (now : Instant) (msg : Message) :
    Message → Option OfferReturn → Prop
  | assign (holder : Recipient) (deadline : Instant) (offer : msg.isOffer = true)
      (free : msg.recipient = none) (queued : msg.state = .queued)
      (fresh : ∀ previous ∈ msg.excluded, previous.sameHolder holder = false) :
      Turn limits now msg ((msg.assigned holder deadline).moved now .queued) none
  | take (consumer : Consumer) (queued : msg.state = .queued) :
      Turn limits now msg
        ((if msg.isOffer then msg else msg.delivered).moved now (.fetched consumer now)) none
  | claim (holder : Recipient) (expires : Instant) (offer : msg.isOffer = true) (waits : msg.Open)
      (held : msg.recipient = some holder) :
      Turn limits now msg (msg.moved now (.claimed holder now expires)) none
  | acknowledge (how : AckHow) (plain : msg.isOffer = false)
      (waits : msg.Open ∨ msg.state.undeliverableReason = some .maxDeliver) :
      Turn limits now msg (msg.moved now (.acknowledged now how)) none
  | complete (offer : msg.isOffer = true) (claimed : msg.state.name = .claimed) :
      Turn limits now msg (msg.moved now (.acknowledged now .offerCompleted)) none
  | requeue (plain : msg.isOffer = false) (fetched : msg.state.isFetched = true) :
      Turn limits now msg (msg.moved now .queued) none
  | retire (reason : UndeliverableReason) (live : msg.state.isTerminal = false) :
      Turn limits now msg (msg.moved now (.undeliverable now reason)) none
  | giveBack (previous : Recipient) (cause : ReturnCause) (offer : msg.isOffer = true)
      (live : msg.state.isTerminal = false) (held : msg.recipient = some previous) :
      Turn limits now msg (msg.returned limits now) (some ⟨previous, cause⟩)

structure Replaced (inbox : Inbox) (index : ℕ) (after : Message) (event : InboxEvent)
    (later : Inbox) : Prop where
  messages : later.messages = inbox.messages.set index after
  events : later.events = inbox.events ++ [event]
  limits : later.limits = inbox.limits

/-! ## Calls -/

/-- What an operation does to the inbox, one internal function at a time. -/
inductive Call (inbox : Inbox) : Inbox → Prop
  | turn {later : Inbox} (index : ℕ) (now : Instant) {msg after : Message}
      (found : inbox.messages[index]? = some msg) (turn : Turn inbox.limits now msg after none)
      (replaced : Replaced inbox index after (msg.event after) later) : Call inbox later
  | giveBack (index : ℕ) (now : Instant) (cause : ReturnCause) {msg : Message}
      {previous : Recipient} (found : inbox.messages[index]? = some msg)
      (offer : msg.isOffer = true) (live : msg.state.isTerminal = false)
      (held : msg.recipient = some previous) : Call inbox (inbox.returnOffer index now cause)
  | insert (now : Instant) (id : MessageId) (kind : MessageKind) (address : Address)
      (recipient : Option Recipient) (content : Content)
      (placed : (newMessage now id kind address recipient content).isOffer = recipient.isNone) :
      Call inbox (inbox.insert now id kind address recipient content)
  | count (index : ℕ) {msg : Message} (found : inbox.messages[index]? = some msg)
      (fetched : msg.state.isFetched = true) (plain : msg.isOffer = false) :
      Call inbox (inbox.edit index Message.delivered)
  | trim (now : Instant) : Call inbox (inbox.trimHistory now)
  | forget (paneId : String) : Call inbox (inbox.forgetPaneHistory paneId)
  | keep {later : Inbox} (messages : later.messages = inbox.messages)
      (events : later.events = inbox.events) (limits : later.limits = inbox.limits) :
      Call inbox later

def Calls : Inbox → Inbox → Prop := Relation.ReflTransGen Call

/-- A sequence of internal calls, between which the events may be drained. -/
def Reaches : Inbox → Inbox → Prop :=
  Relation.ReflTransGen fun inbox later => Call inbox later ∨ later = inbox.drainEvents.2

namespace Calls

theorem one (call : Call inbox later) : Calls inbox later := Relation.ReflTransGen.single call

theorem same : Calls inbox inbox := Relation.ReflTransGen.refl

theorem then_trim (calls : Calls inbox later) (now : Instant) :
    Calls inbox (later.trimHistory now) :=
  Relation.ReflTransGen.tail calls (Call.trim now)

theorem after {between : Inbox} (first : Calls inbox between) (second : Calls between later) :
    Calls inbox later :=
  Relation.ReflTransGen.trans first second

theorem reaches (calls : Calls inbox later) : Reaches inbox later :=
  Relation.ReflTransGen.mono (fun _ _ call => Or.inl call) _ _ calls

end Calls

/-! ## What the internal functions compute -/

variable {index : ℕ} {msg : Message}

section

variable (found : inbox.messages[index]? = some msg)

include found

theorem transition_replaced (now : Instant) (state : MessageState) :
    Replaced inbox index (msg.moved now state) (msg.event (msg.moved now state))
      (inbox.transition index now state) := by
  constructor <;> simp only [transition, found]

theorem edit_messages (f : Message → Message) :
    (inbox.edit index f).messages = inbox.messages.set index (f msg) := by
  simp only [edit, List.modify_eq_set_getElem?, found]
  rfl

theorem edit_transition (f : Message → Message) (now : Instant) (state : MessageState) :
    Replaced inbox index ((f msg).moved now state) ((f msg).event ((f msg).moved now state))
      ((inbox.edit index f).transition index now state) := by
  have edited : (inbox.edit index f).messages[index]? = some (f msg) := by simp [edit, found]
  have replaced := transition_replaced edited now state
  refine ⟨?_, replaced.events, replaced.limits⟩
  rw [replaced.messages, edit_messages found, List.set_set]

end

variable {state : MessageState}

section

variable (found : inbox.messages[index]? = some msg)

include found

theorem Call.transition {now : Instant}
    (turn : Turn inbox.limits now msg (msg.moved now state) none) :
    Call inbox (inbox.transition index now state) :=
  .turn index now found turn (transition_replaced found now state)

theorem Call.edit_transition {now : Instant} {f : Message → Message}
    (same : (f msg).state = msg.state)
    (turn : Turn inbox.limits now msg ((f msg).moved now state) none) :
    Call inbox ((inbox.edit index f).transition index now state) := by
  have replaced := Inbox.edit_transition found f now state
  have event : (f msg).event ((f msg).moved now state) = msg.event ((f msg).moved now state) := by
    simp only [Message.event, same]
  rw [event] at replaced
  exact .turn index now found turn replaced

theorem returnOffer_replaced {previous : Recipient} (held : msg.recipient = some previous)
    (now : Instant) (cause : ReturnCause) :
    Replaced inbox index (msg.returned inbox.limits now)
      { msg.event (msg.returned inbox.limits now) with returned := some ⟨previous, cause⟩ }
      (inbox.returnOffer index now cause) := by
  have queued := edit_transition found Message.parted now .queued
  have ended := edit_transition found Message.parted now (.undeliverable now .maxDeliver)
  simp only [returnOffer, found, held, Message.returned]
  split
  · exact ⟨ended.messages, by simp only [ended.events, List.modifyLast_concat]; rfl, ended.limits⟩
  · exact ⟨queued.messages, by simp only [queued.events, List.modifyLast_concat]; rfl,
      queued.limits⟩

end

theorem insert_eq (inbox : Inbox) (now : Instant) (id : MessageId) (kind : MessageKind)
    (address : Address) (recipient : Option Recipient) (content : Content) :
    let msg := newMessage now id kind address recipient content
    let later := inbox.insert now id kind address recipient content
    later.messages = inbox.messages ++ [msg.moved now .queued] ∧
      later.events = inbox.events ++ [msg.event (msg.moved now .queued)] ∧
      later.limits = inbox.limits := by
  simp [insert, transition]

/-! ## The history keeps what is live -/

/-- `after` is `before` without some terminal messages; others may have lost their body. -/
inductive Kept : List Message → List Message → Prop
  | nil : Kept [] []
  | drop {msg : Message} {before after : List Message} (ended : msg.state.isTerminal = true)
      (rest : Kept before after) : Kept (msg :: before) after
  | empty {msg : Message} {before after : List Message} (ended : msg.state.isTerminal = true)
      (rest : Kept before after) : Kept (msg :: before) ({ msg with body := [] } :: after)
  | keep (msg : Message) {before after : List Message} (rest : Kept before after) :
      Kept (msg :: before) (msg :: after)

namespace Kept

theorem refl (messages : List Message) : Kept messages messages := by
  induction messages with
  | nil => exact .nil
  | cons msg rest ih => exact .keep msg ih

theorem trans {first second third : List Message} (left : Kept first second)
    (right : Kept second third) : Kept first third := by
  induction left generalizing third with
  | nil => exact right
  | drop ended _ ih => exact .drop ended (ih right)
  | empty ended _ ih =>
    cases right with
    | drop _ rest => exact .drop ended (ih rest)
    | empty _ rest => exact .empty ended (ih rest)
    | keep _ rest => exact .empty ended (ih rest)
  | keep msg _ ih =>
    cases right with
    | drop ended rest => exact .drop ended (ih rest)
    | empty ended rest => exact .empty ended (ih rest)
    | keep _ rest => exact .keep msg (ih rest)

theorem map_dropBody (now : Instant) (ttl : Duration) (messages : List Message) :
    Kept messages (messages.map (dropBody now ttl)) := by
  induction messages with
  | nil => exact .nil
  | cons msg rest ih =>
    simp only [List.map_cons, dropBody]
    split
    · rename_i ended
      exact .empty ended.1 ih
    · exact .keep msg ih

theorem dropExcess (excess : Option String → ℕ) (messages : List Message) :
    Kept messages (Inbox.dropExcess excess messages) := by
  induction messages generalizing excess with
  | nil => exact .nil
  | cons msg rest ih =>
    simp only [Inbox.dropExcess]
    split
    · rename_i ended
      exact .drop ended.1 (ih _)
    · exact .keep msg (ih _)

theorem dropOldest (maxCount maxBytes count bytes : ℕ) (messages : List Message) :
    Kept messages (Inbox.dropOldest maxCount maxBytes count bytes messages) := by
  induction messages generalizing count bytes with
  | nil => exact .nil
  | cons msg rest ih =>
    simp only [Inbox.dropOldest]
    split
    · exact .keep msg (ih _ _)
    · rename_i beyond
      simp only [not_or, Bool.not_eq_false] at beyond
      exact .drop beyond.1 (ih _ _)

theorem trimHolders (limit : ℕ) (messages : List Message) :
    Kept messages (Inbox.trimHolders limit messages) := by
  simp only [Inbox.trimHolders]
  split
  · exact Kept.dropExcess _ _
  · exact Kept.refl _

theorem trimDeck (maxCount maxBytes : ℕ) (messages : List Message) :
    Kept messages (Inbox.trimDeck maxCount maxBytes messages) := by
  simp only [Inbox.trimDeck]
  split
  · exact Kept.refl _
  · exact Kept.dropOldest _ _ _ _ _

theorem filter {keep : Message → Bool}
    (live : ∀ msg, keep msg = false → msg.state.isTerminal) (messages : List Message) :
    Kept messages (messages.filter keep) := by
  induction messages with
  | nil => exact .nil
  | cons msg rest ih =>
    rcases kept : keep msg with _ | _
    · simp only [List.filter_cons, kept]
      exact .drop (live msg kept) ih
    · simp only [List.filter_cons, kept]
      exact .keep msg ih

end Kept

theorem trimHistory_kept (now : Instant) :
    Kept inbox.messages (inbox.trimHistory now).messages := by
  have bodies := Kept.map_dropBody now inbox.limits.historyBodyTtl inbox.messages
  have holders := bodies.trans (Kept.trimHolders inbox.limits.historyPerPane _)
  exact holders.trans (Kept.trimDeck _ _ _)

theorem forgetPaneHistory_kept (paneId : String) :
    Kept inbox.messages (inbox.forgetPaneHistory paneId).messages := by
  apply Kept.filter
  intro msg dropped
  simp only [Bool.or_eq_false_iff, Bool.not_eq_false'] at dropped
  exact dropped.1

/-! ## What turns keep, calls keep -/

/-- A property of messages that every turn keeps, and with it every call. -/
structure Stable (limits : InboxLimits) (P : Message → Prop) : Prop where
  turn : ∀ now msg after returned, P msg → Turn limits now msg after returned → P after
  new : ∀ now id kind address recipient content,
    (newMessage now id kind address recipient content).isOffer = recipient.isNone →
      P ((newMessage now id kind address recipient content).moved now .queued)
  count : ∀ msg, P msg → msg.isOffer = false → P msg.delivered
  body : ∀ msg, P msg → P { msg with body := [] }

variable {P : Message → Prop}

theorem Kept.forall (body : ∀ msg, P msg → P { msg with body := [] }) {before after : List Message}
    (kept : Kept before after) (all : ∀ msg ∈ before, P msg) :
    ∀ msg ∈ after, P msg := by
  induction kept with
  | nil => exact all
  | drop _ _ ih => exact ih (fun msg mem => all msg (List.mem_cons_of_mem _ mem))
  | empty _ _ ih =>
    intro msg mem
    rcases List.mem_cons.mp mem with rfl | mem
    · exact body _ (all _ List.mem_cons_self)
    · exact ih (fun msg mem => all msg (List.mem_cons_of_mem _ mem)) msg mem
  | keep _ _ ih =>
    intro msg mem
    rcases List.mem_cons.mp mem with rfl | mem
    · exact all _ List.mem_cons_self
    · exact ih (fun msg mem => all msg (List.mem_cons_of_mem _ mem)) msg mem

theorem Replaced.forall {after : Message} {event : InboxEvent}
    (replaced : Replaced inbox index after event later) (all : ∀ msg ∈ inbox.messages, P msg)
    (new : P after) : ∀ msg ∈ later.messages, P msg := by
  intro msg mem
  rw [replaced.messages] at mem
  rcases List.mem_or_eq_of_mem_set mem with mem | rfl
  · exact all msg mem
  · exact new

theorem Call.limits_eq (call : Call inbox later) : later.limits = inbox.limits := by
  cases call with
  | turn _ _ _ _ replaced => exact replaced.limits
  | giveBack _ _ _ found _ _ held => exact (returnOffer_replaced found held _ _).limits
  | insert now id kind address recipient content =>
    exact (insert_eq inbox now id kind address recipient content).2.2
  | count => rfl
  | trim => rfl
  | forget => rfl
  | keep _ _ limits => exact limits

theorem Reaches.limits_eq (reaches : Reaches inbox later) : later.limits = inbox.limits := by
  induction reaches with
  | refl => rfl
  | tail _ step ih =>
    rcases step with call | rfl
    · exact call.limits_eq.trans ih
    · exact ih

theorem Calls.limits_eq (calls : Calls inbox later) : later.limits = inbox.limits :=
  calls.reaches.limits_eq

theorem Call.forall (stable : Stable inbox.limits P) (all : ∀ msg ∈ inbox.messages, P msg)
    (call : Call inbox later) : ∀ msg ∈ later.messages, P msg := by
  cases call with
  | turn index now found turn replaced =>
    have before := all _ (List.mem_of_getElem? found)
    exact replaced.forall all (stable.turn _ _ _ _ before turn)
  | giveBack index now cause found offer live held =>
    have before := all _ (List.mem_of_getElem? found)
    exact (returnOffer_replaced found held now cause).forall all
      (stable.turn _ _ _ _ before (.giveBack _ cause offer live held))
  | insert now id kind address recipient content placed =>
    intro msg mem
    rw [(insert_eq inbox now id kind address recipient content).1] at mem
    rcases List.mem_append.mp mem with mem | mem
    · exact all msg mem
    · rw [List.mem_singleton.mp mem]
      exact stable.new now id kind address recipient content placed
  | count index found fetched plain =>
    intro msg mem
    rw [edit_messages found] at mem
    rcases List.mem_or_eq_of_mem_set mem with mem | rfl
    · exact all msg mem
    · exact stable.count _ (all _ (List.mem_of_getElem? found)) plain
  | trim now => exact (trimHistory_kept now).forall stable.body all
  | forget paneId => exact (forgetPaneHistory_kept paneId).forall stable.body all
  | keep messages _ _ =>
    rw [messages]
    exact all

theorem Reaches.forall (stable : Stable inbox.limits P) (all : ∀ msg ∈ inbox.messages, P msg)
    (reaches : Reaches inbox later) : ∀ msg ∈ later.messages, P msg := by
  induction reaches with
  | refl => exact all
  | tail before step all =>
    rw [← Reaches.limits_eq before] at stable
    rcases step with call | rfl
    · exact call.forall stable all
    · exact all

/-! ## Sound messages -/

/-- What every message the inbox holds satisfies, whatever its limits. -/
structure Message.Sound (msg : Message) : Prop where
  last : msg.history.getLast?.map Prod.snd = some msg.state.name
  deadline : msg.assignDeadline.isSome = true →
    msg.state = .queued ∧ msg.isOffer = true ∧ msg.recipient.isSome = true
  claim : ∀ claimant since expires, msg.state = .claimed claimant since expires →
    msg.isOffer = true ∧ msg.recipient = some claimant

namespace Message

theorem moved_last (msg : Message) (now : Instant) (state : MessageState) :
    (msg.moved now state).history.getLast?.map Prod.snd =
      some (msg.moved now state).state.name := by
  simp [moved]

theorem Sound.moved {msg : Message} {state : MessageState} (now : Instant) (left : state ≠ .queued)
    (unclaimed : ∀ claimant since expires, state ≠ .claimed claimant since expires) :
    (msg.moved now state).Sound := by
  refine ⟨moved_last msg now state, ?_, ?_⟩
  · intro waits
    simp [Message.moved, left] at waits
  · intro claimant since expires claimed
    exact absurd claimed (unclaimed claimant since expires)

theorem Sound.queued {msg : Message} (now : Instant) (absent : msg.assignDeadline = none) :
    (msg.moved now .queued).Sound := by
  refine ⟨moved_last msg now .queued, ?_, ?_⟩
  · intro waits
    simp [Message.moved, absent] at waits
  · intro claimant since expires claimed
    cases claimed

theorem Sound.deadline_none {msg : Message} (sound : msg.Sound) (left : msg.state ≠ .queued) :
    msg.assignDeadline = none := by
  rcases deadline : msg.assignDeadline with _ | due
  · rfl
  · exact absurd (sound.deadline (by simp [deadline])).1 left

end Message

theorem MessageState.ne_queued_of_isFetched (fetched : state.isFetched) : state ≠ .queued := by
  rintro rfl
  cases fetched

theorem MessageState.live_of_isFetched (fetched : state.isFetched) : state.isTerminal = false := by
  cases state <;> first | rfl | cases fetched

theorem MessageState.live_of_claimed (claimed : state.name = .claimed) :
    state.isTerminal = false := by
  cases state <;> first | rfl | cases claimed

theorem Message.Open.live (waits : msg.Open) : msg.state.isTerminal = false := by
  rcases waits with queued | fetched
  · simp [queued, MessageState.isTerminal]
  · exact MessageState.live_of_isFetched fetched

theorem Turn.sound {limits : InboxLimits} {now : Instant} {after : Message}
    {back : Option OfferReturn} (sound : msg.Sound) (turn : Turn limits now msg after back) :
    after.Sound := by
  cases turn with
  | assign holder deadline offer free queued fresh =>
    refine ⟨Message.moved_last _ _ _, fun _ => ⟨rfl, offer, rfl⟩, ?_⟩
    intro claimant since expires claimed
    cases claimed
  | take consumer queued | acknowledge how plain waits | complete offer claimed
  | retire reason live => exact Message.Sound.moved now (by simp) (by simp)
  | claim holder expires offer waits held =>
    refine ⟨Message.moved_last _ _ _, ?_, ?_⟩
    · intro waits
      simp [Message.moved] at waits
    · intro claimant since expires claimed
      cases claimed
      exact ⟨offer, held⟩
  | requeue plain fetched =>
    exact Message.Sound.queued now
      (sound.deadline_none (MessageState.ne_queued_of_isFetched fetched))
  | giveBack previous cause offer live held =>
    simp only [Message.returned]
    split
    · exact Message.Sound.moved now (by simp) (by simp)
    · exact Message.Sound.queued now rfl

theorem stable_sound (limits : InboxLimits) : Stable limits Message.Sound where
  turn _ _ _ _ sound turn := turn.sound sound
  new now _ _ _ _ _ _ := Message.Sound.queued now rfl
  count _ sound _ := ⟨sound.last, sound.deadline, sound.claim⟩
  body _ sound := ⟨sound.last, sound.deadline, sound.claim⟩

end AgentDeck.Inbox
